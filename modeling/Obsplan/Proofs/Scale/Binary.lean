import Obsplan.Proofs.Binary.Codec
import Obsplan.Scale.Binary

/-!
# Scales and coverages read back from binary

The extents of a scale come in order and are valid, so the check of a scale that is read accepts
them and leaves them as they are.
-/

namespace Obsplan

open Obsplan.Binary

variable {α : Type} [Coordinate α]

/-! ## The check of a scale -/

namespace Scale

omit [Coordinate α] in
theorem along_eq_nil {d : Dimension} {extents : List (Extent α)}
    (h : d ∉ extents.map Extent.dimension) : along d extents = [] := by
  rw [along, List.filter_eq_nil_iff]
  intro e he
  simp only [beq_iff_eq]
  rintro rfl
  exact h (List.mem_map_of_mem he)

omit [Coordinate α] in
/-- Extents along distinct dimensions that come in the order of these are collected as they are. -/
theorem flatMap_along {extents : List (Extent α)} {ds : List Dimension}
    (hsub : (extents.map Extent.dimension).Sublist ds) (hnodup : ds.Nodup) :
    (ds.flatMap fun d => along d extents) = extents := by
  induction ds generalizing extents with
  | nil =>
    simp only [List.sublist_nil, List.map_eq_nil_iff] at hsub
    rw [hsub]
    rfl
  | cons d ds ih =>
    have ⟨hd, hrest⟩ := List.nodup_cons.mp hnodup
    rw [List.flatMap_cons]
    -- the first extent is along the first dimension, or no extent is
    rcases List.sublist_cons_iff.mp hsub with hsub | ⟨_, hextents, hsub⟩
    · rw [along_eq_nil fun h => hd (hsub.subset h), ih hsub hrest]
      rfl
    · obtain ⟨e, rest, rfl, rfl, rfl⟩ := List.map_eq_cons_iff.mp hextents
      have hfirst : along e.dimension (e :: rest) = [e] := by
        have hnone := along_eq_nil fun h => hd (hsub.subset h)
        simpa [along] using hnone
      have hlater : (ds.flatMap fun d => along d (e :: rest)) =
          ds.flatMap fun d => along d rest := by
        refine congrArg List.flatten (List.map_congr_left fun d hmem => ?_)
        have hne : e.dimension ≠ d := fun h => hd (h ▸ hmem)
        simp [along, hne]
      rw [hfirst, hlater, ih hsub hrest]
      rfl

theorem eq_of_extents {s t : Scale α} (h : s.extents = t.extents) : s = t := by
  cases s
  cases t
  cases h
  rfl

theorem inOrder_extents (s : Scale α) : inOrder s.extents = s.extents :=
  flatMap_along s.ordered (by decide)

theorem length_along_le (s : Scale α) (d : Dimension) : (along d s.extents).length ≤ 1 := by
  have hcount : (along d s.extents).length = (s.extents.map Extent.dimension).count d := by
    rw [along, List.count_eq_countP, List.countP_map, List.countP_eq_length_filter]
    rfl
  have hnodup : Dimension.all.Nodup := by decide
  rw [hcount]
  exact List.nodup_iff_count.mp (hnodup.sublist s.ordered) d

/-- The extents of a scale make that scale. -/
theorem ofExtents_extents (s : Scale α) : ofExtents s.extents = .ok s := by
  unfold ofExtents
  split
  · rename_i d hd
    have := s.length_along_le d
    have hmany := List.find?_some hd
    simp only [decide_eq_true_eq] at hmany
    omega
  · split
    · rename_i e he
      have hmem := List.mem_of_find?_eq_some he
      have hbad := List.find?_some he
      rw [inOrder_extents] at hmem
      simp [s.valid e hmem] at hbad
    · exact congrArg Except.ok (eq_of_extents s.inOrder_extents)

end Scale

/-! ## Reading back -/

theorem Dimension.reads_decode (d : Dimension) : Reads decode d.encode d := by
  cases d with
  | x => exact (reads_case (by decide)).last (.pure _)
  | y => exact (reads_case (by decide)).last (.pure _)
  | time => exact (reads_case (by decide)).last (.pure _)

theorem Extent.reads_decode (e : Extent Number) : Reads decode e.encode e := by
  rw [encode, List.append_assoc]
  exact e.dimension.reads_decode.bind ((reads_number _).bind ((reads_number _).last (.pure _)))

theorem Extent.encode_ne_nil (e : Extent Number) : e.encode ≠ [] := by
  cases h : e.dimension <;> simp [encode, h, Dimension.encode, encodeCase, natBytes]

theorem Scale.reads_decode {s : Scale Number} (hlength : s.encode.length < UInt64.size) :
    Reads decode s.encode s := by
  refine (reads_list (fun e _ => e.encode_ne_nil) (fun e _ _ => e.reads_decode) hlength).last ?_
  rw [ofExtents_extents]
  exact .pure s

theorem Scale.encode_ne_nil (s : Scale Number) : s.encode ≠ [] := by
  simp [encode, encodeList, encodeWord, natBytes]

/-- A coverage is read back as it was written. -/
theorem Coverage.reads_decode {c : Coverage Number} (hlength : c.encode.length < UInt64.size) :
    Reads decode c.encode c := by
  simp only [encode, List.length_append] at hlength
  have hshapes := reads_list (fun s _ => s.encode_ne_nil) (fun s _ => Scale.reads_decode)
    (show (encodeList Scale.encode c.shapes).length < _ by omega)
  rw [encode, List.append_assoc]
  exact (Scale.reads_decode (by omega)).bind (hshapes.bind ((reads_number _).last (.pure _)))

end Obsplan
