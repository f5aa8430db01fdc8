import Obsplan.Scale.Basic

/-!
# Coverage

How much of a scale has been accounted for, and where. The shapes of a coverage are pairwise
disjoint boxes inside the scale, so the covered fraction is the sum of their volumes over the volume
of the scale.
-/

namespace Obsplan

open Coordinate

variable {α : Type} [Coordinate α]

/-- Which part of a scale is covered. -/
structure Coverage (α : Type) [Coordinate α] where
  scale : Scale α
  /-- Disjoint boxes inside the scale. -/
  shapes : List (Scale α)
  fraction : α
  deriving Repr

namespace Coverage

/-- The fraction of a scale that disjoint shapes fill; a fraction within the slack of one is one,
and nothing of a scale without volume is covered. -/
def fractionOf (scale : Scale α) (shapes : List (Scale α)) : α :=
  let total := scale.volume
  let covered := shapes.foldl (fun v s => v + s.volume) zero
  let fraction := if zero < total then clampUnit (covered / total) else zero
  if one - fraction < slack then one else fraction

def empty (scale : Scale α) : Coverage α := ⟨scale, [], zero⟩

def full (scale : Scale α) : Coverage α := ⟨scale, [scale], one⟩

/-- What is left of some boxes outside a shape. -/
def clear (pieces : List (Scale α)) (shape : Scale α) : List (Scale α) :=
  pieces.flatMap fun p => p.subtract shape

/-- The coverage that also covers a shape, clipped to the scale and without what is covered
already. -/
def absorb (c : Coverage α) (shape : Scale α) : Coverage α :=
  match c.scale.intersect? shape with
  | none => c
  | some clipped =>
    let pieces := c.shapes.foldl clear [clipped]
    if pieces.isEmpty then c
    else
      let shapes := c.shapes ++ pieces
      ⟨c.scale, shapes, fractionOf c.scale shapes⟩

/-- The coverage of a scale by the union of shapes. They may overlap and may reach beyond the
scale. -/
def ofShapes (scale : Scale α) (shapes : List (Scale α)) : Coverage α :=
  shapes.foldl absorb (empty scale)

def isEmpty (c : Coverage α) : Bool := c.shapes.isEmpty

/-- Whether everything is covered but for a tolerated fraction. -/
def isComplete (c : Coverage α) (tolerance : α) : Bool := decide (one - tolerance ≤ c.fraction)

/-- The union of two coverages, over the scale of the first. -/
def merge (c other : Coverage α) : Coverage α := other.shapes.foldl absorb c

/-- The part of `target` that `covered` leaves uncovered. -/
def remainder (target : Scale α) (covered : Coverage α) : Coverage α :=
  ofShapes target (covered.shapes.foldl clear [target])

def uncovered (c : Coverage α) : Coverage α := remainder c.scale c

/-- The part of a coverage that also lies in another one. -/
def intersect (c other : Coverage α) : Coverage α :=
  ofShapes c.scale (c.shapes.flatMap fun a => other.shapes.filterMap a.intersect?)

/-- How much the fraction grows when another coverage is merged in. -/
def gain (c other : Coverage α) : α :=
  let growth := (c.merge other).fraction - c.fraction
  if zero < growth then growth else zero

/-- Two coverages agree when they cover the same region of the same scale, however that region is
cut into shapes. -/
def agrees (c other : Coverage α) : Bool :=
  c.scale == other.scale &&
    let union := (c.merge other).fraction
    decide (magnitude (union - c.fraction) < slack) &&
      decide (magnitude (union - other.fraction) < slack)

instance : BEq (Coverage α) := ⟨agrees⟩

/-- A coverage in messages. -/
def text (c : Coverage α) : String := percent c.fraction ++ "% of " ++ c.scale.text

end Coverage

end Obsplan
