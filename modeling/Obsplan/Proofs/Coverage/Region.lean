import Obsplan.Coverage
import Obsplan.Proofs.Scale.Region

/-!
# Covered regions

A coverage holds the points of its shapes. Coverages that are built by the operations keep to the
dimensions of their scale and lie inside it, and each operation is described by its points.
-/

namespace Obsplan.Coverage

variable {α : Type} [Coordinate α] {c other : Coverage α} {scale shape : Scale α}
  {shapes pieces : List (Scale α)} {p : Point α}

/-- The points that are covered. -/
def region (c : Coverage α) : Set (Point α) := {p | ∃ shape ∈ c.shapes, p ∈ shape}

/-- The shapes have the dimensions of the scale and lie inside it. -/
structure Proper (c : Coverage α) : Prop where
  dimensions : ∀ shape ∈ c.shapes,
    shape.extents.map Extent.dimension = c.scale.extents.map Extent.dimension
  inside : ∀ {p : Point α}, p ∈ c.region → p ∈ c.scale

theorem mem_region : p ∈ c.region ↔ ∃ shape ∈ c.shapes, p ∈ shape := Iff.rfl

theorem mem_region_append {fraction : α} :
    p ∈ (Coverage.mk scale (shapes ++ pieces) fraction).region ↔
      (∃ shape ∈ shapes, p ∈ shape) ∨ ∃ piece ∈ pieces, p ∈ piece := by
  simp only [mem_region, List.mem_append, or_and_right, exists_or]

theorem proper_empty (scale : Scale α) : (empty scale).Proper := ⟨by simp [empty], by simp [empty, region]⟩

theorem proper_full (scale : Scale α) : (full scale).Proper :=
  ⟨by simp [full], by simp [full, region]⟩

@[simp] theorem region_empty (scale : Scale α) : (empty scale).region = ∅ := by
  ext p; simp [region, empty]

theorem mem_region_full : p ∈ (full scale).region ↔ p ∈ scale := by simp [region, full]

variable [LawfulCoordinate α]

/-- A region is not empty when there is a shape. -/
theorem region_nonempty (h : c.shapes ≠ []) : c.region.Nonempty := by
  obtain ⟨shape, hshape⟩ := List.exists_mem_of_ne_nil _ h
  obtain ⟨p, hp⟩ := shape.exists_mem
  exact ⟨p, shape, hshape, hp⟩

/-! ## Shapes that are taken away and added -/

omit [LawfulCoordinate α] in
theorem dimensions_clear
    (h : ∀ piece ∈ pieces, piece.extents.map Extent.dimension = scale.extents.map Extent.dimension) :
    ∀ piece ∈ clear pieces shape,
      piece.extents.map Extent.dimension = scale.extents.map Extent.dimension := by
  intro piece hpiece
  obtain ⟨whole, hwhole, hmem⟩ := List.mem_flatMap.mp hpiece
  rw [← h whole hwhole]
  exact Scale.dimensions_subtract hmem

theorem mem_clear
    (h : ∀ piece ∈ pieces, piece.extents.map Extent.dimension = scale.extents.map Extent.dimension) :
    (∃ piece ∈ clear pieces shape, p ∈ piece) ↔
      (∃ piece ∈ pieces, p ∈ piece) ∧ p ∉ scale.reading shape := by
  have hone : ∀ whole ∈ pieces, (∃ piece ∈ whole.subtract shape, p ∈ piece) ↔
      p ∈ whole ∧ p ∉ scale.reading shape := by
    intro whole hwhole
    rw [Scale.mem_subtract, Scale.reading_congr (h whole hwhole)]
  constructor
  · rintro ⟨piece, hpiece, hp⟩
    obtain ⟨whole, hwhole, hmem⟩ := List.mem_flatMap.mp hpiece
    obtain ⟨hin, hout⟩ := (hone whole hwhole).mp ⟨piece, hmem, hp⟩
    exact ⟨⟨whole, hwhole, hin⟩, hout⟩
  · rintro ⟨⟨whole, hwhole, hin⟩, hout⟩
    obtain ⟨piece, hmem, hp⟩ := (hone whole hwhole).mpr ⟨hin, hout⟩
    exact ⟨piece, List.mem_flatMap.mpr ⟨whole, hwhole, hmem⟩, hp⟩

omit [LawfulCoordinate α] in
theorem dimensions_foldl_clear
    (h : ∀ piece ∈ pieces, piece.extents.map Extent.dimension = scale.extents.map Extent.dimension) :
    ∀ piece ∈ shapes.foldl clear pieces,
      piece.extents.map Extent.dimension = scale.extents.map Extent.dimension := by
  induction shapes generalizing pieces with
  | nil => exact h
  | cons shape shapes ih => exact ih (dimensions_clear h)

/-- What is left of some pieces holds their points outside the shapes. -/
theorem mem_foldl_clear
    (h : ∀ piece ∈ pieces, piece.extents.map Extent.dimension = scale.extents.map Extent.dimension) :
    (∃ piece ∈ shapes.foldl clear pieces, p ∈ piece) ↔
      (∃ piece ∈ pieces, p ∈ piece) ∧ ∀ shape ∈ shapes, p ∉ scale.reading shape := by
  induction shapes generalizing pieces with
  | nil => simp
  | cons shape shapes ih =>
    rw [List.foldl_cons, ih (dimensions_clear h), mem_clear h, List.forall_mem_cons, and_assoc]

/-- Absorbing a shape adds its points inside the scale. -/
theorem mem_absorb (hc : c.Proper) :
    p ∈ (c.absorb shape).region ↔ p ∈ c.region ∨ p ∈ c.scale ∧ p ∈ c.scale.reading shape := by
  rw [← Scale.mem_intersect?]
  simp only [absorb]
  split
  · rename_i h
    simp [h]
  · rename_i clipped h
    have hclipped : ∀ piece ∈ [clipped],
        piece.extents.map Extent.dimension = c.scale.extents.map Extent.dimension := by
      simpa using (Scale.intersect?_fits h).1
    have hmem : (∃ piece ∈ c.shapes.foldl clear [clipped], p ∈ piece) ↔
        (∃ piece ∈ [clipped], p ∈ piece) ∧ ∀ shape ∈ c.shapes, p ∉ c.scale.reading shape :=
      mem_foldl_clear hclipped
    have hout : (∀ shape ∈ c.shapes, p ∉ c.scale.reading shape) ↔ p ∉ c.region := by
      simp only [mem_region, not_exists, not_and]
      exact forall₂_congr fun shape hs => not_congr (Scale.mem_reading (hc.dimensions shape hs))
    simp only [List.mem_singleton, exists_eq_left, hout] at hmem
    simp only [h, Option.some.injEq, exists_eq_left']
    split
    · rename_i hempty
      rw [List.isEmpty_iff.mp hempty] at hmem
      simp only [List.not_mem_nil, false_and, exists_false, false_iff, not_and, not_not] at hmem
      exact ⟨.inl, fun hp => hp.elim id hmem⟩
    · rw [mem_region_append, hmem, ← mem_region]
      by_cases hp : p ∈ c.region <;> simp [hp]

omit [LawfulCoordinate α] in
@[simp] theorem scale_absorb : (c.absorb shape).scale = c.scale := by
  simp only [absorb]
  split
  · rfl
  · split <;> rfl

theorem proper_absorb (hc : c.Proper) : (c.absorb shape).Proper where
  dimensions := by
    simp only [absorb]
    split
    · exact hc.dimensions
    · rename_i clipped h
      have hclipped : ∀ piece ∈ [clipped],
          piece.extents.map Extent.dimension = c.scale.extents.map Extent.dimension := by
        simpa using (Scale.intersect?_fits h).1
      split
      · exact hc.dimensions
      · simp only [List.forall_mem_append]
        exact ⟨hc.dimensions, dimensions_foldl_clear hclipped⟩
  inside {p} hp := by
    rw [scale_absorb]
    rcases (mem_absorb hc).mp hp with hp | hp
    · exact hc.inside hp
    · exact hp.1

/-! ## Unions and intersections -/

theorem foldl_absorb (hc : c.Proper) (shapes : List (Scale α)) :
    (shapes.foldl absorb c).scale = c.scale ∧ (shapes.foldl absorb c).Proper ∧
      ∀ p, p ∈ (shapes.foldl absorb c).region ↔
        p ∈ c.region ∨ p ∈ c.scale ∧ ∃ shape ∈ shapes, p ∈ c.scale.reading shape := by
  induction shapes generalizing c with
  | nil => exact ⟨rfl, hc, by simp⟩
  | cons shape shapes ih =>
    have hc' : (c.absorb shape).Proper := proper_absorb hc
    obtain ⟨hscale, hproper, hmem⟩ := ih hc'
    refine ⟨hscale.trans scale_absorb, hproper, fun p => ?_⟩
    rw [List.foldl_cons, hmem, mem_absorb hc, scale_absorb]
    simp only [List.exists_mem_cons_iff]
    tauto

theorem merge_spec (hc : c.Proper) (other : Coverage α) :
    (c.merge other).scale = c.scale ∧ (c.merge other).Proper ∧
      ∀ p, p ∈ (c.merge other).region ↔
        p ∈ c.region ∨ p ∈ c.scale ∧ ∃ shape ∈ other.shapes, p ∈ c.scale.reading shape :=
  foldl_absorb hc other.shapes

theorem ofShapes_spec (scale : Scale α) (shapes : List (Scale α)) :
    (ofShapes scale shapes).scale = scale ∧ (ofShapes scale shapes).Proper ∧
      ∀ p, p ∈ (ofShapes scale shapes).region ↔
        p ∈ scale ∧ ∃ shape ∈ shapes, p ∈ scale.reading shape := by
  obtain ⟨hscale, hproper, hmem⟩ := foldl_absorb (proper_empty scale) shapes
  refine ⟨hscale, hproper, fun p => ?_⟩
  rw [ofShapes, hmem, region_empty]
  simp [empty]

omit [LawfulCoordinate α] in
/-- Over the scale of a coverage, it is read as it is. -/
theorem mem_reading_shapes (hc : c.Proper) (hscale : c.scale = scale) :
    (∃ shape ∈ c.shapes, p ∈ scale.reading shape) ↔ p ∈ c.region := by
  subst hscale
  simp only [mem_region]
  constructor
  · rintro ⟨shape, hs, hp⟩
    exact ⟨shape, hs, (Scale.mem_reading (hc.dimensions shape hs)).mp hp⟩
  · rintro ⟨shape, hs, hp⟩
    exact ⟨shape, hs, (Scale.mem_reading (hc.dimensions shape hs)).mpr hp⟩

theorem intersect_spec (hc : c.Proper) (other : Coverage α) :
    (c.intersect other).scale = c.scale ∧ (c.intersect other).Proper ∧
      ∀ p, p ∈ (c.intersect other).region ↔
        p ∈ c.region ∧ ∃ shape ∈ other.shapes, p ∈ c.scale.reading shape := by
  obtain ⟨hscale, hproper, hmem⟩ := ofShapes_spec c.scale
    (c.shapes.flatMap fun a => other.shapes.filterMap a.intersect?)
  refine ⟨hscale, hproper, fun p => (hmem p).trans ?_⟩
  simp only [List.mem_flatMap, List.mem_filterMap]
  constructor
  · rintro ⟨-, part, ⟨a, ha, b, hb, hpart⟩, hp⟩
    have hd := hc.dimensions a ha
    rw [Scale.mem_reading ((Scale.intersect?_fits hpart).1.trans hd)] at hp
    obtain ⟨hpa, hpb⟩ := Scale.mem_intersect?.mp ⟨part, hpart, hp⟩
    rw [Scale.reading_congr hd] at hpb
    exact ⟨⟨a, ha, hpa⟩, b, hb, hpb⟩
  · rintro ⟨⟨a, ha, hpa⟩, b, hb, hpb⟩
    have hd := hc.dimensions a ha
    rw [← Scale.reading_congr hd] at hpb
    obtain ⟨part, hpart, hp⟩ := Scale.mem_intersect?.mpr ⟨hpa, hpb⟩
    refine ⟨hc.inside ⟨a, ha, hpa⟩, part, ⟨a, ha, b, hb, hpart⟩, ?_⟩
    rwa [Scale.mem_reading ((Scale.intersect?_fits hpart).1.trans hd)]

end Obsplan.Coverage
