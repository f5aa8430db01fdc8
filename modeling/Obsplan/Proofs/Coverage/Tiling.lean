import Mathlib.Data.Set.Basic
import Obsplan.Proofs.Coverage.Region
import Obsplan.Proofs.Scale.Apart

/-!
# Coverages as tilings

However a coverage is built, its shapes are boxes over the dimensions of its scale that lie inside it
and do not overlap. On the points that are covered the operations are union, intersection and
difference, each shape being read over the dimensions of the scale. Only comparisons of bounds are
used.
-/

namespace Obsplan.Coverage

variable {α : Type} [Coordinate α] {a c : Coverage α} {scale shape : Scale α}
  {shapes pieces : List (Scale α)}

/-- A coverage that is built by the operations. -/
inductive Built : Coverage α → Prop where
  | empty (scale : Scale α) : Built (.empty scale)
  | full (scale : Scale α) : Built (.full scale)
  | ofShapes (scale : Scale α) (shapes : List (Scale α)) : Built (.ofShapes scale shapes)
  | merge {a b : Coverage α} : Built a → Built b → Built (a.merge b)
  | remainder {c : Coverage α} (target : Scale α) : Built c → Built (.remainder target c)
  | uncovered {c : Coverage α} : Built c → Built c.uncovered
  | intersect {a b : Coverage α} : Built a → Built b → Built (a.intersect b)

/-- The shapes are boxes over the dimensions of the scale that lie inside it and do not overlap. -/
structure Tiled (c : Coverage α) : Prop where
  valid : ∀ shape ∈ c.shapes, ∀ e ∈ shape.extents,
    Coordinate.isFinite e.start = true ∧ Coordinate.isFinite e.stop = true ∧ e.start < e.stop
  dimensions : ∀ shape ∈ c.shapes,
    shape.extents.map Extent.dimension = c.scale.extents.map Extent.dimension
  inside : ∀ shape ∈ c.shapes, ∀ p : Point α, p ∈ shape → p ∈ c.scale
  apart : c.shapes.Pairwise Scale.Apart

theorem Proper.tiled (h : c.Proper) (ha : c.shapes.Pairwise Scale.Apart) : c.Tiled where
  valid shape _ e he := Extent.isValid_iff.mp (shape.valid e he)
  dimensions := h.dimensions
  inside shape hs _ hp := h.inside ⟨shape, hs, hp⟩
  apart := ha

theorem Tiled.proper (h : c.Tiled) : c.Proper :=
  ⟨h.dimensions, fun ⟨shape, hs, hp⟩ => h.inside shape hs _ hp⟩

variable [LawfulCoordinate α]

/-! ## Shapes do not overlap -/

theorem pairwise_clear (h : pieces.Pairwise Scale.Apart) :
    (clear pieces shape).Pairwise Scale.Apart := by
  refine List.pairwise_flatMap.mpr ⟨fun whole _ => Scale.pairwise_subtract, ?_⟩
  refine h.imp fun happart piece hpiece piece' hpiece' => ?_
  exact happart.mono (fun _ hp => Scale.mem_of_mem_subtract hpiece hp)
    fun _ hp => Scale.mem_of_mem_subtract hpiece' hp

theorem pairwise_foldl_clear (h : pieces.Pairwise Scale.Apart) :
    (shapes.foldl clear pieces).Pairwise Scale.Apart := by
  induction shapes generalizing pieces with
  | nil => exact h
  | cons shape shapes ih => exact ih (pairwise_clear h)

/-- What is added to the shapes was cleared of all of them. -/
theorem pairwise_absorb (hc : c.Proper) (h : c.shapes.Pairwise Scale.Apart) :
    (c.absorb shape).shapes.Pairwise Scale.Apart := by
  simp only [absorb]
  split
  · exact h
  · rename_i clipped hclipped
    split
    · exact h
    · have hdims : ∀ piece ∈ [clipped],
          piece.extents.map Extent.dimension = c.scale.extents.map Extent.dimension := by
        simpa using (Scale.intersect?_fits hclipped).1
      refine List.pairwise_append.mpr ⟨h, pairwise_foldl_clear (List.pairwise_singleton _ _), ?_⟩
      intro old hold piece hpiece p hp hp'
      obtain ⟨-, hout⟩ := (mem_foldl_clear hdims).mp ⟨piece, hpiece, hp'⟩
      exact hout old hold ((Scale.mem_reading (hc.dimensions old hold)).mpr hp)

theorem pairwise_foldl_absorb (hc : c.Proper) (h : c.shapes.Pairwise Scale.Apart) :
    (shapes.foldl absorb c).shapes.Pairwise Scale.Apart := by
  induction shapes generalizing c with
  | nil => exact h
  | cons shape shapes ih => exact ih (proper_absorb hc) (pairwise_absorb hc h)

theorem tiled_foldl_absorb (hc : c.Proper) (h : c.shapes.Pairwise Scale.Apart) :
    (shapes.foldl absorb c).Tiled :=
  (foldl_absorb hc shapes).2.1.tiled (pairwise_foldl_absorb hc h)

theorem tiled_ofShapes : (ofShapes scale shapes).Tiled :=
  tiled_foldl_absorb (proper_empty scale) .nil

/-- Every coverage that is built is tiled. -/
theorem Built.tiled (h : c.Built) : c.Tiled := by
  induction h with
  | empty scale => exact (proper_empty scale).tiled .nil
  | full scale => exact (proper_full scale).tiled (List.pairwise_singleton _ _)
  | ofShapes scale shapes => exact tiled_ofShapes
  | merge _ _ ha _ => exact tiled_foldl_absorb ha.proper ha.apart
  | remainder => exact tiled_ofShapes
  | uncovered => exact tiled_ofShapes
  | intersect => exact tiled_ofShapes

/-! ## Covered points -/

/-- The points of some shapes read over the dimensions of a scale. -/
def readings (scale : Scale α) (shapes : List (Scale α)) : Set (Point α) :=
  {p | ∃ shape ∈ shapes, p ∈ scale.reading shape}

theorem region_remainder (target : Scale α) (c : Coverage α) :
    (remainder target c).region = {p | p ∈ target} \ readings target c.shapes := by
  have hwhole : ∀ piece ∈ [target],
      piece.extents.map Extent.dimension = target.extents.map Extent.dimension := by simp
  have hdims : ∀ piece ∈ c.shapes.foldl clear [target],
      piece.extents.map Extent.dimension = target.extents.map Extent.dimension :=
    dimensions_foldl_clear hwhole
  ext p
  obtain ⟨-, -, hmem⟩ := ofShapes_spec target (c.shapes.foldl clear [target])
  have hread : (∃ piece ∈ c.shapes.foldl clear [target], p ∈ target.reading piece) ↔
      ∃ piece ∈ c.shapes.foldl clear [target], p ∈ piece :=
    exists_congr fun piece => and_congr_right fun hpiece => Scale.mem_reading (hdims piece hpiece)
  have hleft : (∃ piece ∈ c.shapes.foldl clear [target], p ∈ piece) ↔
      p ∈ target ∧ ∀ shape ∈ c.shapes, p ∉ target.reading shape := by
    rw [mem_foldl_clear hwhole]
    simp
  have hout : p ∉ readings target c.shapes ↔ ∀ shape ∈ c.shapes, p ∉ target.reading shape := by
    simp [readings]
  calc p ∈ (remainder target c).region
    _ ↔ p ∈ target ∧ p ∈ target ∧ ∀ shape ∈ c.shapes, p ∉ target.reading shape := by
      rw [remainder, hmem, hread, hleft]
    _ ↔ p ∈ target ∧ p ∉ readings target c.shapes := by rw [hout, and_self_left]

/-- The algebra of coverages: what is built is tiled, and the operations join, cut out and meet
points. -/
theorem built_algebra (h : a.Built) (b : Coverage α) (scale : Scale α) (shapes : List (Scale α)) :
    a.Tiled ∧
    ((ofShapes scale shapes).scale = scale ∧
      (ofShapes scale shapes).region = {p | p ∈ scale} ∩ readings scale shapes) ∧
    ((a.merge b).scale = a.scale ∧
      (a.merge b).region = a.region ∪ {p | p ∈ a.scale} ∩ readings a.scale b.shapes) ∧
    ((remainder scale b).scale = scale ∧
      (remainder scale b).region = {p | p ∈ scale} \ readings scale b.shapes) ∧
    (a.intersect b).scale = a.scale ∧
      (a.intersect b).region = a.region ∩ readings a.scale b.shapes := by
  have ha : a.Proper := h.tiled.proper
  obtain ⟨hof, -, hofmem⟩ := ofShapes_spec scale shapes
  obtain ⟨hmerge, -, hmergemem⟩ := merge_spec ha b
  obtain ⟨hmeet, -, hmeetmem⟩ := intersect_spec ha b
  have hrest : (remainder scale b).scale = scale := (ofShapes_spec scale _).1
  exact ⟨h.tiled, ⟨hof, Set.ext hofmem⟩, ⟨hmerge, Set.ext hmergemem⟩,
    ⟨hrest, region_remainder scale b⟩, hmeet, Set.ext hmeetmem⟩

/-- A square, and bands of it along either side. -/
def square : Scale Number :=
  ⟨[⟨.x, 0.0, 10.0⟩, ⟨.y, 0.0, 10.0⟩], by decide, by decide +kernel⟩

def leftBand : Scale Number := ⟨[⟨.x, 0.0, 6.0⟩], by decide, by decide +kernel⟩

def lowerBand : Scale Number := ⟨[⟨.y, -1.0, 4.0⟩], by decide, by decide +kernel⟩

theorem built_algebra_bands :
    (ofShapes square [leftBand, lowerBand]).uncovered.Built ∧
      (ofShapes square [leftBand, lowerBand]).shapes.length = 2 ∧
      (ofShapes square [leftBand, lowerBand]).uncovered.shapes.length = 1 ∧
      (ofShapes square [leftBand, lowerBand]).uncovered.Tiled ∧
      ((ofShapes square [leftBand, lowerBand]).uncovered.intersect (full leftBand)).region =
        (ofShapes square [leftBand, lowerBand]).uncovered.region ∩ readings square [leftBand] := by
  have hbuilt : (ofShapes square [leftBand, lowerBand]).uncovered.Built :=
    .uncovered (.ofShapes square [leftBand, lowerBand])
  obtain ⟨htiled, -, -, -, -, hmeet⟩ :=
    built_algebra hbuilt (full leftBand) square [leftBand, lowerBand]
  exact ⟨hbuilt, by decide +kernel, by decide +kernel, htiled, hmeet⟩

end Obsplan.Coverage
