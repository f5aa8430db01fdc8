import Mathlib.Algebra.Order.Floor.Semiring
import Mathlib.Data.Rat.Floor
import Mathlib.Tactic.Ring
import Obsplan.Proofs.Coverage.Fraction
import Obsplan.Proofs.Scale.Binary

/-!
# Scales cut into slices

A scale is cut along one of its dimensions at bounds that are counted off from its start, and each
slice is a scale made anew with its own extent in the place of the whole one. Main statement: in
exact numbers the slices lie next to each other, share the length evenly and make up the scale, so
they cover all of it.
-/

namespace Obsplan

open Coordinate

/-! ## Extents that take the place of others -/

namespace Scale

section replaced

variable {α : Type} [Coordinate α] {s t : Scale α} {part : Extent α}

omit [Coordinate α] in
theorem along_inOrder (d : Dimension) (extents : List (Extent α)) :
    along d (inOrder extents) = along d extents := by
  have hone : ∀ d', along d (along d' extents) = if d' = d then along d extents else [] := by
    intro d'
    simp only [along, List.filter_filter]
    split
    · rename_i h
      simp [h]
    · rename_i h
      refine List.filter_eq_nil_iff.mpr fun e _ => ?_
      simp only [Bool.and_eq_true, beq_iff_eq]
      rintro ⟨hd, hd'⟩
      exact h (hd'.symm.trans hd)
  have hall : along d (inOrder extents) =
      Dimension.all.flatMap fun d' => along d (along d' extents) := List.filter_flatMap ..
  rw [hall]
  cases d <;> simp [Dimension.all, hone]

theorem extent?_eq_head? (s : Scale α) (d : Dimension) : s.extent? d = (along d s.extents).head? :=
  List.head?_filter.symm

/-- Valid extents, at most one along each dimension, make a scale. -/
theorem exists_ofExtents {extents : List (Extent α)} (hone : ∀ d, (along d extents).length ≤ 1)
    (hvalid : ∀ e ∈ extents, e.isValid = true) :
    ∃ t, ofExtents extents = .ok t ∧ ∀ d, t.extent? d = (along d extents).head? := by
  unfold ofExtents
  split
  · rename_i d hd
    have hmany := List.find?_some hd
    simp only [decide_eq_true_eq] at hmany
    exact absurd (hone d) (not_le.mpr hmany)
  · split
    · rename_i e he
      obtain ⟨d, -, hmem⟩ := List.mem_flatMap.mp (List.mem_of_find?_eq_some he)
      have hbad := List.find?_some he
      simp [hvalid e (List.mem_filter.mp hmem).1] at hbad
    · exact ⟨_, rfl, fun d => by rw [extent?_eq_head?, along_inOrder]⟩

/-- A scale that has `part` along the dimension of `part`, and agrees with `s` along all others. -/
def Replaces (s : Scale α) (part : Extent α) (t : Scale α) : Prop :=
  ∀ d, t.extent? d = if d = part.dimension then some part else s.extent? d

/-- A valid extent can always be added or take the place of another one. -/
theorem exists_withExtent (s : Scale α) (hpart : part.isValid = true) :
    ∃ t, s.withExtent part = .ok t ∧ Replaces s part t := by
  have halong : ∀ d, along d (s.extents.filter (fun e => e.dimension != part.dimension) ++ [part]) =
      if d = part.dimension then [part] else along d s.extents := by
    intro d
    simp only [along, List.filter_append, List.filter_filter]
    split
    · rename_i h
      simp [h]
    · rename_i h
      have hsame : ∀ e ∈ s.extents, (e.dimension == d && e.dimension != part.dimension) =
          (e.dimension == d) := by
        intro e _
        by_cases hd : e.dimension = d <;> simp [hd, h]
      have hne : part.dimension ≠ d := fun hd => h hd.symm
      simp [List.filter_congr hsame, hne]
  have hone : ∀ d, (along d (s.extents.filter (fun e => e.dimension != part.dimension) ++
      [part])).length ≤ 1 := by
    intro d
    rw [halong]
    split
    · simp
    · exact s.length_along_le d
  have hvalid : ∀ e ∈ s.extents.filter (fun e => e.dimension != part.dimension) ++ [part],
      e.isValid = true := by
    simp only [List.forall_mem_append, List.forall_mem_singleton]
    exact ⟨fun e he => s.valid e (List.mem_filter.mp he).1, hpart⟩
  obtain ⟨t, ht, hextents⟩ := exists_ofExtents hone hvalid
  refine ⟨t, ht, fun d => ?_⟩
  rw [hextents, halong, extent?_eq_head?]
  split <;> rfl

/-- The dimensions of a scale are those along which it has an extent. -/
theorem dimensions_eq (s : Scale α) : s.extents.map Extent.dimension =
    Dimension.all.flatMap fun d => if (s.extent? d).isSome then [d] else [] := by
  have halong : ∀ d, (along d s.extents).map Extent.dimension =
      if (s.extent? d).isSome then [d] else [] := by
    intro d
    have hlen := s.length_along_le d
    have hdim : ∀ e ∈ along d s.extents, e.dimension = d := by simp [along]
    rw [extent?_eq_head?]
    cases hl : along d s.extents with
    | nil => rfl
    | cons e rest =>
      obtain rfl : rest = [] := by simpa [hl] using hlen
      simpa using hdim e (by simp [hl])
  calc s.extents.map Extent.dimension
    _ = (inOrder s.extents).map Extent.dimension := by rw [inOrder_extents]
    _ = _ := by simp only [inOrder, List.map_flatMap, halong]

namespace Replaces

theorem extent?_self (h : Replaces s part t) : t.extent? part.dimension = some part := by
  rw [h part.dimension, if_pos rfl]

theorem extent?_of_ne (h : Replaces s part t) {d : Dimension} (hd : d ≠ part.dimension) :
    t.extent? d = s.extent? d := by
  rw [h d, if_neg hd]

/-- Replacing an extent that is there leaves the dimensions as they are. -/
theorem dimensions (h : Replaces s part t) {e : Extent α}
    (he : s.extent? part.dimension = some e) :
    t.extents.map Extent.dimension = s.extents.map Extent.dimension := by
  rw [dimensions_eq, dimensions_eq]
  refine congrArg List.flatten (List.map_congr_left fun d _ => ?_)
  by_cases hd : d = part.dimension
  · rw [hd, h.extent?_self, he]
    rfl
  · rw [h.extent?_of_ne hd]

end Replaces

end replaced

end Scale

/-! ## Equal parts of an extent -/

namespace Extent

variable {e : Extent Exact} {parts i j : ℕ}

/-- The bounds of a slice, counted off from the start. -/
def slice (e : Extent Exact) (parts i : ℕ) : Extent Exact where
  dimension := e.dimension
  start := ⟨e.start.value + (e.stop.value - e.start.value) / parts * i⟩
  stop := ⟨e.start.value + (e.stop.value - e.start.value) / parts * (i + 1)⟩

theorem step_pos (he : e.isValid = true) (hparts : 0 < parts) :
    0 < (e.stop.value - e.start.value) / (parts : ℚ) :=
  div_pos (sub_pos.mpr (start_lt_stop he)) (Nat.cast_pos.mpr hparts)

theorem isValid_slice (he : e.isValid = true) (hparts : 0 < parts) (i : ℕ) :
    (e.slice parts i).isValid = true := by
  have hstep := step_pos he hparts
  refine isValid_iff.mpr ⟨rfl, rfl, ?_⟩
  simp only [slice, Exact.lt_iff]
  nlinarith

theorem length_slice (e : Extent Exact) (parts i : ℕ) :
    (e.slice parts i).length.value = e.length.value / parts := by
  simp only [value_length, slice]
  ring

/-- The last slice ends where the whole does. -/
theorem stop_slice_last (e : Extent Exact) (hparts : 0 < parts) :
    (e.slice parts (parts - 1)).stop = e.stop := by
  have hne : (parts : ℚ) ≠ 0 := Nat.cast_ne_zero.mpr hparts.ne'
  have hcast : ((parts - 1 : ℕ) : ℚ) + 1 = parts := by
    rw [← Nat.cast_add_one, Nat.sub_add_cancel hparts]
  refine Exact.ext ?_
  simp only [slice, hcast, div_mul_cancel₀ _ hne, add_sub_cancel]

theorem slice_ascends (he : e.isValid = true) (hparts : 0 < parts) (hlt : i < j) :
    (e.slice parts i).stop ≤ (e.slice parts j).start := by
  have hstep := step_pos he hparts
  have hle : (i : ℚ) + 1 ≤ j := by exact_mod_cast hlt
  simp only [slice, Exact.le_iff]
  nlinarith

/-- Each coordinate of an extent lies in the slice that so many steps from the start lead to. -/
theorem holds_iff_slice (he : e.isValid = true) (hparts : 0 < parts) {x : Exact} :
    e.Holds x ↔ ∃ i < parts, (e.slice parts i).Holds x := by
  have hstep := step_pos he hparts
  have hwhole : (e.stop.value - e.start.value) / (parts : ℚ) * parts =
      e.stop.value - e.start.value := div_mul_cancel₀ _ (Nat.cast_ne_zero.mpr hparts.ne')
  simp only [Holds, slice, Exact.le_iff, Exact.lt_iff]
  generalize (e.stop.value - e.start.value) / (parts : ℚ) = step at hstep hwhole ⊢
  constructor
  · rintro ⟨hstart, hstop⟩
    have hsteps : 0 ≤ (x.value - e.start.value) / step :=
      div_nonneg (sub_nonneg.mpr hstart) hstep.le
    have hfloor : (⌊(x.value - e.start.value) / step⌋₊ : ℚ) * step ≤ x.value - e.start.value :=
      (le_div_iff₀ hstep).mp (Nat.floor_le hsteps)
    have hnext : x.value - e.start.value < (⌊(x.value - e.start.value) / step⌋₊ + 1 : ℚ) * step :=
      (div_lt_iff₀ hstep).mp (Nat.lt_floor_add_one _)
    have hlt : (⌊(x.value - e.start.value) / step⌋₊ : ℚ) * step < parts * step := by linarith
    exact ⟨_, by exact_mod_cast lt_of_mul_lt_mul_right hlt hstep.le, by linarith, by linarith⟩
  · rintro ⟨i, hi, hstart, hstop⟩
    have hle : (i : ℚ) + 1 ≤ parts := by exact_mod_cast hi
    have hnonneg : (0 : ℚ) ≤ i := Nat.cast_nonneg i
    constructor <;> nlinarith

end Extent

/-! ## Slices of a scale -/

namespace Scale

variable {s t t' : Scale Exact} {d : Dimension} {e part : Extent Exact} {parts : ℕ}
  {slices : List (Scale Exact)} {p : Point Exact}

theorem Replaces.mem_iff (h : Replaces s part t) : p ∈ t ↔ part.Holds (p part.dimension) ∧
    ∀ d ≠ part.dimension, ∀ e ∈ s.extent? d, e.Holds (p d) := by
  rw [mem_iff_extent?]
  constructor
  · intro hp
    refine ⟨hp part.dimension part h.extent?_self, fun d hd e he => hp d e ?_⟩
    rw [h.extent?_of_ne hd]
    exact he
  · rintro ⟨hpart, hrest⟩ d e he
    by_cases hd : d = part.dimension
    · subst hd
      cases h.extent?_self.symm.trans he
      exact hpart
    · rw [h.extent?_of_ne hd] at he
      exact hrest d hd e he

/-- The slices of a scale, each with its part of the extent. -/
structure Slices (s : Scale Exact) (e : Extent Exact) (parts : ℕ) (slices : List (Scale Exact)) :
    Prop where
  length : slices.length = parts
  replaces : ∀ i (hi : i < slices.length), Replaces s (e.slice parts i) slices[i]

/-- Cutting never fails halfway: the last `remaining` slices are made. -/
theorem exists_slices (s : Scale Exact) (he : e.isValid = true) (hparts : 0 < parts)
    {remaining : ℕ} (hle : remaining ≤ parts) :
    ∃ slices, s.slices e parts remaining = .ok slices ∧ slices.length = remaining ∧
      ∀ i (hi : i < slices.length),
        Replaces s (e.slice parts (parts - remaining + i)) slices[i] := by
  induction remaining with
  | zero => exact ⟨[], rfl, rfl, by simp⟩
  | succ remaining ih =>
    obtain ⟨rest, hrest, hlen, hreplaces⟩ := ih (Nat.le_of_succ_le hle)
    let i := parts - (remaining + 1)
    have hvalid : (e.slice parts i).isValid = true := Extent.isValid_slice he hparts i
    -- the last slice takes the end of the extent as it is, which is where the steps lead to
    have hstop : (if remaining = 0 then e.stop
        else e.start + e.length / (parts : Exact) * ((i + 1 : ℕ) : Exact)) =
          (e.slice parts i).stop := by
      split
      · rename_i hzero
        rw [← Extent.stop_slice_last e hparts]
        simp only [i, hzero]
      · refine Exact.ext ?_
        have hcast : (((i + 1 : ℕ) : Exact)).value = (i : ℚ) + 1 := Nat.cast_succ i
        simp only [Exact.value_add, Exact.value_mul, Exact.value_div, Extent.value_length, hcast]
        rfl
    have hcheck : Extent.check ⟨e.dimension, e.start + e.length / (parts : Exact) * (i : Exact),
        (e.slice parts i).stop⟩ = .ok (e.slice parts i) := if_pos hvalid
    obtain ⟨slice, hslice, hfirst⟩ := s.exists_withExtent hvalid
    refine ⟨slice :: rest, ?_, by simp [hlen], ?_⟩
    · simp only [slices]
      rw [hstop, hcheck]
      change (do let slice ← s.withExtent (e.slice parts i)
                 return slice :: (← s.slices e parts remaining)) = _
      rw [hslice, hrest]
      rfl
    · intro k hk
      cases k with
      | zero => exact hfirst
      | succ k =>
        have hindex : parts - (remaining + 1) + (k + 1) = parts - remaining + k := by omega
        simp only [List.getElem_cons_succ, hindex]
        exact hreplaces k _

theorem exists_split (he : s.extent? d = some e) (hparts : 0 < parts) :
    ∃ slices, s.split d parts = .ok slices ∧ Slices s e parts slices := by
  obtain ⟨slices, hslices, hlen, hreplaces⟩ :=
    s.exists_slices (s.valid e (extent?_mem he)) hparts le_rfl
  refine ⟨slices, ?_, hlen, by simpa using hreplaces⟩
  rw [split, if_neg hparts.ne', he]
  exact hslices

theorem replaces_self (he : s.extent? e.dimension = some e) : Replaces s e s := by
  intro d
  split
  · rename_i hd
    rw [hd, he]
  · rfl

namespace Slices

variable (h : Slices s e parts slices)

include h

theorem exists_replaces {slice : Scale Exact} (hslice : slice ∈ slices) :
    ∃ i < parts, Replaces s (e.slice parts i) slice := by
  obtain ⟨i, hi, rfl⟩ := List.getElem_of_mem hslice
  exact ⟨i, h.length ▸ hi, h.replaces i hi⟩

theorem dimensions (he : s.extent? e.dimension = some e) : ∀ slice ∈ slices,
    slice.extents.map Extent.dimension = s.extents.map Extent.dimension := by
  intro slice hslice
  obtain ⟨i, -, hreplaces⟩ := h.exists_replaces hslice
  exact hreplaces.dimensions he

/-- Every point of the scale lies in a slice, and the slices lie in the scale. -/
theorem mem_iff (he : s.extent? e.dimension = some e) (hparts : 0 < parts) :
    p ∈ s ↔ ∃ slice ∈ slices, p ∈ slice := by
  rw [(replaces_self he).mem_iff, Extent.holds_iff_slice (s.valid e (extent?_mem he)) hparts]
  constructor
  · rintro ⟨⟨i, hi, hin⟩, hrest⟩
    have hlt : i < slices.length := h.length ▸ hi
    exact ⟨slices[i], List.getElem_mem hlt, (h.replaces i hlt).mem_iff.mpr ⟨hin, hrest⟩⟩
  · rintro ⟨slice, hslice, hp⟩
    obtain ⟨i, hi, hreplaces⟩ := h.exists_replaces hslice
    obtain ⟨hin, hrest⟩ := hreplaces.mem_iff.mp hp
    exact ⟨⟨i, hi, hin⟩, hrest⟩

/-- A slice ends before all later ones start. -/
theorem ascends (hvalid : e.isValid = true) (hparts : 0 < parts) :
    slices.Pairwise fun t t' => ∀ part ∈ t.extent? e.dimension, ∀ part' ∈ t'.extent? e.dimension,
      part.stop ≤ part'.start := by
  refine List.pairwise_iff_getElem.mpr fun i j hi hj hlt part hpart part' hpart' => ?_
  cases (h.replaces i hi).extent?_self.symm.trans hpart
  cases (h.replaces j hj).extent?_self.symm.trans hpart'
  exact Extent.slice_ascends hvalid hparts hlt

theorem apart (hvalid : e.isValid = true) (hparts : 0 < parts) : slices.Pairwise Apart := by
  refine List.pairwise_iff_getElem.mpr fun i j hi hj hlt p hp hp' => ?_
  have hbefore : p e.dimension < (e.slice parts i).stop := ((h.replaces i hi).mem_iff.mp hp).1.2
  have hbehind : (e.slice parts j).start ≤ p e.dimension := ((h.replaces j hj).mem_iff.mp hp').1.1
  exact (lt_of_lt_of_le (α := ℚ) hbefore
    ((Extent.slice_ascends hvalid hparts hlt).trans hbehind)).false

end Slices

open Coverage in
/-- A scale that is cut along one of its dimensions falls into as many slices of equal length as was
asked for. They follow each other, agree with the scale along all other dimensions, do not overlap
and hold its points, so they cover it. -/
theorem split_tiles (he : s.extent? d = some e) (hparts : 0 < parts) :
    ∃ slices, s.split d parts = .ok slices ∧ slices.length = parts ∧
      (∀ slice ∈ slices, (∀ d' ≠ d, slice.extent? d' = s.extent? d') ∧
        ∃ part ∈ slice.extent? d, part.length.value = e.length.value / parts) ∧
      slices.Pairwise (fun t t' => ∀ part ∈ t.extent? d, ∀ part' ∈ t'.extent? d,
        part.stop ≤ part'.start) ∧
      slices.Pairwise Apart ∧
      (∀ p : Point Exact, p ∈ s ↔ ∃ slice ∈ slices, p ∈ slice) ∧
      (ofShapes s slices).region = {p | p ∈ s} ∧ (ofShapes s slices).fraction.value = 1 := by
  have hvalid : e.isValid = true := s.valid e (extent?_mem he)
  obtain ⟨slices, hsplit, hslices⟩ := exists_split he hparts
  obtain rfl : e.dimension = d := by simpa using List.find?_some he
  obtain ⟨hscale, -, hmem⟩ := ofShapes_spec s slices
  have hregion : (ofShapes s slices).region = {p | p ∈ s} := by
    refine Set.ext fun p => (hmem p).trans (and_iff_left_of_imp fun hp => ?_)
    obtain ⟨slice, hslice, hin⟩ := (hslices.mem_iff he hparts).mp hp
    exact ⟨slice, hslice, (mem_reading (hslices.dimensions he slice hslice)).mpr hin⟩
  have hfull : (full s).region = {p | p ∈ s} := Set.ext fun _ => mem_region_full
  have hfraction : (ofShapes s slices).fraction = (full s).fraction :=
    fraction_eq (.ofShapes s slices) (.full s) hscale.symm (hregion.trans hfull.symm)
  refine ⟨slices, hsplit, hslices.length, fun slice hslice => ?_, hslices.ascends hvalid hparts,
    hslices.apart hvalid hparts, fun p => hslices.mem_iff he hparts, hregion, ?_⟩
  · obtain ⟨i, -, hreplaces⟩ := hslices.exists_replaces hslice
    exact ⟨fun d' hd => hreplaces.extent?_of_ne hd, e.slice parts i, hreplaces.extent?_self,
      e.length_slice parts i⟩
  · rw [hfraction]
    exact Exact.value_one

/-- A year on a strip of land. -/
def year : Scale Exact :=
  ⟨[⟨.x, ⟨-2⟩, ⟨5⟩⟩, ⟨.time, ⟨1 / 2⟩, ⟨3 / 2⟩⟩], by decide, by decide +kernel⟩

open Coverage in
/-- A seventh of a year has no end that a binary number could tell. -/
theorem split_tiles_year : year.extent? .time = some ⟨.time, ⟨1 / 2⟩, ⟨3 / 2⟩⟩ ∧
    ∃ slices, year.split .time 7 = .ok slices ∧ slices.length = 7 ∧ slices.Pairwise Apart ∧
      (∀ slice ∈ slices, slice.extent? .x = some ⟨.x, ⟨-2⟩, ⟨5⟩⟩ ∧
        ∃ part ∈ slice.extent? .time, part.length.value = 1 / 7) ∧
      (∀ p : Point Exact, p ∈ year ↔ ∃ slice ∈ slices, p ∈ slice) ∧
      (ofShapes year slices).fraction.value = 1 := by
  have htime : year.extent? .time = some ⟨.time, ⟨1 / 2⟩, ⟨3 / 2⟩⟩ := rfl
  obtain ⟨slices, hsplit, hlen, hslices, -, hapart, hpoints, -, hfraction⟩ :=
    split_tiles htime (show 0 < 7 by decide)
  refine ⟨htime, slices, hsplit, hlen, hapart, fun slice hslice => ?_, hpoints, hfraction⟩
  obtain ⟨hothers, part, hpart, hlength⟩ := hslices slice hslice
  refine ⟨hothers .x (by decide), part, hpart, hlength.trans ?_⟩
  norm_num

end Scale

end Obsplan
