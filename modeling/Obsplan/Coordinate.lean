import Obsplan.Decimal.Layout

/-!
# Coordinates

The numbers that bound extents and measure how much of a scale is covered. Scales, coverages and
everything planned over them are written for any such numbers; the planner runs on floating-point
numbers.
-/

namespace Obsplan

/-- Numbers that can bound an extent. -/
class Coordinate (α : Type) extends Add α, Sub α, Mul α, Div α, LT α, LE α, BEq α, NatCast α where
  decLt : DecidableLT α
  decLe : DecidableLE α
  /-- Whether a number may bound an extent. -/
  isFinite : α → Bool
  /-- Fractions this close to one count as one, and this close to each other as equal. -/
  slack : α
  /-- A bound in messages. -/
  text : α → String
  /-- A fraction as a percentage with one decimal place. -/
  percent : α → String

instance Coordinate.decidableLT {α : Type} [Coordinate α] : DecidableLT α := Coordinate.decLt

instance Coordinate.decidableLE {α : Type} [Coordinate α] : DecidableLE α := Coordinate.decLe

instance : Coordinate Number where
  natCast := Number.ofNat
  decLt := inferInstance
  decLe := inferInstance
  isFinite := Number.isFinite
  slack := 1e-9
  text := Decimal.boundLayout.write
  percent x := Decimal.oneDecimal (x * 100.0)

namespace Coordinate

variable {α : Type} [Coordinate α]

def zero : α := ((0 : Nat) : α)

def one : α := ((1 : Nat) : α)

/-- The greater of two numbers, the second one when they are equal. -/
def greater (a b : α) : α := if b < a then a else b

/-- The lesser of two numbers, the second one when they are equal. -/
def lesser (a b : α) : α := if a < b then a else b

def magnitude (a : α) : α := if a < zero then zero - a else a

/-- The nearest number between zero and one. -/
def clampUnit (a : α) : α := if a < zero then zero else if one < a then one else a

end Coordinate

end Obsplan
