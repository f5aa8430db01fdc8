import Obsplan.Number

/-!
# JSON values

The values of the interchange format. Whole numbers that fit 64 bits stay whole, all others are
floating-point numbers, and the fields of an object keep their order.
-/

namespace Obsplan

/-- A value of the interchange format. -/
inductive Json where
  | null
  | bool (b : Bool)
  /-- A whole number from `-2 ^ 63` to `2 ^ 64 - 1`. -/
  | int (n : Int)
  | float (x : Number)
  | text (s : String)
  | list (items : List Json)
  | object (fields : List (String × Json))
  /-- Well-formed text without a value: a number out of range, a text with half a surrogate pair, or
  a list or object nested too deeply. It may stand only where its value is not asked for. -/
  | unreadable

namespace Json

mutual

/-- Whether every part of a value can be read. -/
def isReadable : Json → Bool
  | .unreadable => false
  | .list items => allReadable items
  | .object fields => allFieldsReadable fields
  | .null => true
  | .bool _ => true
  | .int _ => true
  | .float _ => true
  | .text _ => true

def allReadable : List Json → Bool
  | [] => true
  | j :: js => isReadable j && allReadable js

def allFieldsReadable : List (String × Json) → Bool
  | [] => true
  | (_, j) :: fields => isReadable j && allFieldsReadable fields

end

mutual

/-- How deep a value is nested. -/
def depth : Json → Nat
  | .list items => depthOfItems items + 1
  | .object fields => depthOfFields fields + 1
  | .null => 0
  | .bool _ => 0
  | .int _ => 0
  | .float _ => 0
  | .text _ => 0
  | .unreadable => 0

def depthOfItems : List Json → Nat
  | [] => 0
  | j :: js => max (depth j) (depthOfItems js)

def depthOfFields : List (String × Json) → Nat
  | [] => 0
  | (_, j) :: fields => max (depth j) (depthOfFields fields)

end

end Json

end Obsplan
