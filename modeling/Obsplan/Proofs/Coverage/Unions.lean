import Obsplan.Proofs.Coverage.Tiling

/-!
# Unions of coverages

A coverage covers those points of its scale that lie in its shapes, each read over the scale. Where
the shapes keep to the scale this is its region. Main statement: merging coverages joins what they
cover, also where shapes overlap or reach beyond the scale, and shapes are only ever added.
-/

namespace Obsplan.Coverage

variable {α : Type} [Coordinate α] {c c' : Coverage α} {scale shape : Scale α}
  {shapes more : List (Scale α)} {p : Point α}

/-- The points of the scale that are covered. -/
def covers (c : Coverage α) : Set (Point α) := {p | p ∈ c.scale} ∩ readings c.scale c.shapes

theorem mem_covers : p ∈ c.covers ↔ p ∈ c.scale ∧ ∃ shape ∈ c.shapes, p ∈ c.scale.reading shape :=
  Iff.rfl

/-- Where the shapes keep to the scale, their points are covered. -/
theorem Proper.covers_eq_region (h : c.Proper) : c.covers = c.region := by
  ext p
  rw [mem_covers, mem_reading_shapes h rfl]
  exact and_iff_right_of_imp h.inside

theorem readings_append (scale : Scale α) (shapes more : List (Scale α)) :
    readings scale (shapes ++ more) = readings scale shapes ∪ readings scale more := by
  ext p
  simp only [readings, List.mem_append, or_and_right, exists_or]
  rfl

theorem readings_cons (scale shape : Scale α) (shapes : List (Scale α)) :
    readings scale (shape :: shapes) = scale.reading shape ∪ readings scale shapes := by
  ext p
  simp only [readings, List.exists_mem_cons_iff]
  rfl

theorem readings_mono (scale : Scale α) (h : shapes ⊆ more) :
    readings scale shapes ⊆ readings scale more := fun _ ⟨shape, hs, hp⟩ => ⟨shape, h hs, hp⟩

/-- A coverage of the same scale that keeps all shapes. -/
structure Widens (c c' : Coverage α) : Prop where
  scale : c'.scale = c.scale
  shapes : c.shapes <+: c'.shapes

namespace Widens

theorem refl (c : Coverage α) : c.Widens c := ⟨rfl, List.prefix_rfl⟩

theorem trans {c'' : Coverage α} (h : c.Widens c') (h' : c'.Widens c'') : c.Widens c'' :=
  ⟨h'.scale.trans h.scale, h.shapes.trans h'.shapes⟩

theorem covers (h : c.Widens c') : c.covers ⊆ c'.covers := by
  rw [Coverage.covers, Coverage.covers, h.scale]
  exact Set.inter_subset_inter_right _ (readings_mono _ h.shapes.subset)

theorem absorb (c : Coverage α) (shape : Scale α) : c.Widens (c.absorb shape) where
  scale := scale_absorb
  shapes := by
    simp only [Coverage.absorb]
    split
    · exact List.prefix_rfl
    · split
      · exact List.prefix_rfl
      · exact List.prefix_append _ _

theorem foldl_absorb (c : Coverage α) (shapes : List (Scale α)) :
    c.Widens (shapes.foldl Coverage.absorb c) := by
  induction shapes generalizing c with
  | nil => exact refl c
  | cons shape shapes ih => exact (absorb c shape).trans (ih _)

theorem foldl_merge (c : Coverage α) (cs : List (Coverage α)) :
    c.Widens (cs.foldl Coverage.merge c) := by
  induction cs generalizing c with
  | nil => exact refl c
  | cons other cs ih => exact (foldl_absorb c other.shapes).trans (ih _)

end Widens

variable [LawfulCoordinate α]

/-- What is left of a clipped shape is what is not covered yet. -/
theorem mem_readings_left {clipped : Scale α}
    (h : clipped.extents.map Extent.dimension = c.scale.extents.map Extent.dimension) :
    p ∈ readings c.scale (c.shapes.foldl clear [clipped]) ↔
      p ∈ clipped ∧ p ∉ readings c.scale c.shapes := by
  have hclipped : ∀ piece ∈ [clipped],
      piece.extents.map Extent.dimension = c.scale.extents.map Extent.dimension := by simpa using h
  have hread : p ∈ readings c.scale (c.shapes.foldl clear [clipped]) ↔
      ∃ piece ∈ c.shapes.foldl clear [clipped], p ∈ piece :=
    exists_congr fun piece => and_congr_right fun hpiece =>
      Scale.mem_reading (dimensions_foldl_clear hclipped piece hpiece)
  rw [hread, mem_foldl_clear hclipped]
  simp [readings]

theorem covers_absorb (c : Coverage α) (shape : Scale α) :
    (c.absorb shape).covers = c.covers ∪ {p | p ∈ c.scale} ∩ c.scale.reading shape := by
  ext p
  have hclip : (∃ part, c.scale.intersect? shape = some part ∧ p ∈ part) ↔
      p ∈ c.scale ∧ p ∈ c.scale.reading shape := Scale.mem_intersect?
  rw [Set.mem_union, Set.mem_inter_iff, Set.mem_ofPred_eq, ← hclip]
  simp only [absorb]
  split
  · rename_i h
    simp [h]
  · rename_i clipped h
    simp only [h, Option.some.injEq, exists_eq_left'] at hclip ⊢
    have hleft : p ∈ readings c.scale (c.shapes.foldl clear [clipped]) ↔
        p ∈ clipped ∧ p ∉ readings c.scale c.shapes :=
      mem_readings_left (Scale.intersect?_fits h).1
    split
    · -- nothing is left, so the clipped shape is covered already
      rename_i hempty
      rw [List.isEmpty_iff.mp hempty] at hleft
      have hall : p ∈ clipped → p ∈ readings c.scale c.shapes := by
        simpa [readings] using hleft
      exact ⟨.inl, fun hp => hp.elim id fun hp => ⟨(hclip.mp hp).1, hall hp⟩⟩
    · simp only [covers, readings_append, Set.mem_inter_iff, Set.mem_union, Set.mem_ofPred_eq,
        hleft]
      have hinside : p ∈ clipped → p ∈ c.scale := fun hp => (hclip.mp hp).1
      tauto

theorem covers_foldl_absorb (c : Coverage α) (shapes : List (Scale α)) :
    (shapes.foldl absorb c).covers = c.covers ∪ {p | p ∈ c.scale} ∩ readings c.scale shapes := by
  induction shapes generalizing c with
  | nil => simp [readings]
  | cons shape shapes ih =>
    rw [List.foldl_cons, ih, covers_absorb, scale_absorb, readings_cons,
      Set.inter_union_distrib_left, Set.union_assoc]

/-- Merging joins what is covered, clipped to the scale. -/
theorem covers_foldl_merge (c : Coverage α) (cs : List (Coverage α)) :
    (cs.foldl merge c).covers =
      c.covers ∪ {p | p ∈ c.scale} ∩ readings c.scale (cs.flatMap Coverage.shapes) := by
  induction cs generalizing c with
  | nil => simp [readings]
  | cons other cs ih =>
    have hscale : (c.merge other).scale = c.scale := (Widens.foldl_absorb c other.shapes).scale
    have hmerge : (c.merge other).covers =
        c.covers ∪ {p | p ∈ c.scale} ∩ readings c.scale other.shapes :=
      covers_foldl_absorb c other.shapes
    rw [List.foldl_cons, ih, hmerge, hscale, List.flatMap_cons, readings_append,
      Set.inter_union_distrib_left, Set.union_assoc]

theorem proper_foldl_merge (h : c.Proper) (cs : List (Coverage α)) : (cs.foldl merge c).Proper := by
  induction cs generalizing c with
  | nil => exact h
  | cons other cs ih => exact ih (merge_spec h other).2.1

end Obsplan.Coverage
