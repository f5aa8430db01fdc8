import Obsplan.Proofs.Scale.Region

/-!
# Boxes that do not overlap

Two scales are apart when no point lies in both. What is cut out of a scale lies inside it, and its
pieces are apart from each other.
-/

namespace Obsplan.Scale

open LawfulCoordinate

variable {α : Type} [Coordinate α] {s t other piece : Scale α}

/-- No point lies in both scales. -/
def Apart (s t : Scale α) : Prop := ∀ p : Point α, p ∈ s → p ∉ t

theorem Apart.mono {s' t' : Scale α} (h : s.Apart t) (hs : ∀ p : Point α, p ∈ s' → p ∈ s)
    (ht : ∀ p : Point α, p ∈ t' → p ∈ t) : s'.Apart t' :=
  fun p hp hp' => h p (hs p hp) (ht p hp')

/-! ## The pieces around a part -/

/-- No point lies in both boxes, given by their extents. -/
def ExtentsApart (a b : List (Extent α)) : Prop :=
  ∀ p : Point α, (∀ e ∈ a, e.Holds (p e.dimension)) → ¬ ∀ e ∈ b, e.Holds (p e.dimension)

omit [Coordinate α] in
theorem eq_of_mem_side {c : Prop} [Decidable c] {a side : List (Extent α)}
    (h : a ∈ (if c then [side] else [])) : a = side := by
  split at h
  · exact List.mem_singleton.mp h
  · cases h

theorem pairwise_side {c : Prop} [Decidable c] {side : List (Extent α)} :
    (if c then [side] else []).Pairwise ExtentsApart := by
  split
  · exact List.pairwise_singleton _ _
  · exact .nil

/-- The pieces all agree with the box where it is narrowed already. -/
theorem subset_carve {done extents : List (Extent α)} {pairs : List (Extent α × Extent α)}
    (h : extents ∈ carve done pairs) : ∀ e ∈ done, e ∈ extents := by
  induction pairs generalizing done with
  | nil => cases h
  | cons pair rest ih =>
    obtain ⟨own, cut⟩ := pair
    intro e he
    simp only [carve, List.mem_append] at h
    rcases h with (h | h) | h
    · rw [eq_of_mem_side h]; exact List.mem_append_left _ he
    · rw [eq_of_mem_side h]; exact List.mem_append_left _ he
    · exact ih h e (List.mem_append_left _ he)

theorem zip_intersect? {part : Scale α} (h : s.intersect? other = some part) :
    ∀ q ∈ s.extents.zip part.extents, q.2.isValid = true ∧ q.2.dimension = q.1.dimension := by
  rintro ⟨own, cut⟩ hq
  exact ⟨part.valid cut (List.of_mem_zip hq).2,
    (narrow?_fits (List.forall₂_zip (intersect?_narrow h) hq)).1⟩

variable [LawfulCoordinate α]

/-- Along each dimension, what is split off lies before the part or behind it, and all later pieces
keep to the part. -/
theorem pairwise_carve {done : List (Extent α)} {pairs : List (Extent α × Extent α)}
    (hpairs : ∀ q ∈ pairs, q.2.isValid = true ∧ q.2.dimension = q.1.dimension) :
    (carve done pairs).Pairwise ExtentsApart := by
  induction pairs generalizing done with
  | nil => exact .nil
  | cons pair rest ih =>
    obtain ⟨own, cut⟩ := pair
    obtain ⟨⟨hcut, hdim⟩, hrest⟩ := List.forall_mem_cons.mp hpairs
    simp only at hcut hdim
    have hlt : cut.start < cut.stop := (Extent.isValid_iff.mp hcut).2.2
    -- the coordinate along this dimension tells the three kinds of pieces apart
    have hside : ∀ (e : Extent α), e.dimension = own.dimension → ∀ p : Point α,
        (∀ e' ∈ done ++ e :: rest.map Prod.fst, e'.Holds (p e'.dimension)) →
          e.Holds (p own.dimension) := by
      intro e he p hp
      rw [← he]
      exact hp e (List.mem_append_right _ List.mem_cons_self)
    have hlater : ∀ a ∈ carve (done ++ [cut]) rest, ∀ p : Point α,
        (∀ e ∈ a, e.Holds (p e.dimension)) → cut.Holds (p own.dimension) := by
      intro a ha p hp
      rw [← hdim]
      exact hp cut (subset_carve ha cut (List.mem_append_right _ List.mem_cons_self))
    refine List.pairwise_append.mpr ⟨List.pairwise_append.mpr ⟨pairwise_side, pairwise_side, ?_⟩,
      ih hrest, ?_⟩
    · intro a ha b hb p hpa hpb
      rw [eq_of_mem_side ha] at hpa
      rw [eq_of_mem_side hb] at hpb
      have hbefore : p own.dimension < cut.start := (hside { own with stop := cut.start } rfl p hpa).2
      have hbehind : cut.stop ≤ p own.dimension := (hside { own with start := cut.stop } rfl p hpb).1
      exact not_lt hbehind (lt_of_lt_of_le hbefore (le_of_lt hlt))
    · intro a ha b hb p hpa hpb
      obtain ⟨hstart, hstop⟩ := hlater b hb p hpb
      rcases List.mem_append.mp ha with ha | ha
      · rw [eq_of_mem_side ha] at hpa
        exact not_lt hstart (hside { own with stop := cut.start } rfl p hpa).2
      · rw [eq_of_mem_side ha] at hpa
        exact not_lt (hside { own with start := cut.stop } rfl p hpa).1 hstop

/-! ## What is cut out of a scale -/

theorem mem_of_mem_subtract {p : Point α} (h : piece ∈ s.subtract other) (hp : p ∈ piece) : p ∈ s :=
  (mem_subtract.mp ⟨piece, h, hp⟩).1

theorem pairwise_subtract : (s.subtract other).Pairwise Apart := by
  unfold subtract
  split
  · exact List.pairwise_singleton _ _
  · rename_i part h
    exact (pairwise_carve (zip_intersect? h)).pmap (carve_intersect?_fits h) fun _ _ _ _ ha => ha

end Obsplan.Scale
