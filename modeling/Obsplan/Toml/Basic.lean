import Obsplan.Number

/-!
# Settings documents

The values of a settings document. Tables remember how they came about, because a table that was
written once must not be opened again.
-/

namespace Obsplan

/-- How a table came about. -/
inductive TableOrigin where
  /-- By a header of its own, or as the document itself. -/
  | header
  /-- On the path of the header of another table. -/
  | implied
  /-- On the path of a dotted key. -/
  | dotted
  deriving DecidableEq, Repr

/-- A value of a settings document. -/
inductive Toml where
  | text (s : String)
  /-- A whole number of 64 signed bits. -/
  | int (n : Int)
  | float (x : Number)
  | bool (b : Bool)
  /-- A date, a time or both. -/
  | moment (s : String)
  | list (items : List Toml)
  /-- A table written as a value, which cannot be extended. -/
  | inlineTable (fields : List (String × Toml))
  | table (origin : TableOrigin) (fields : List (String × Toml))
  /-- Tables that share a header; the last one is open. -/
  | tables (items : List (List (String × Toml)))

namespace Toml

abbrev Fields := List (String × Toml)

/-- Fields with the value of one of them set. -/
def setField (name : String) (value : Toml) : Fields → Fields
  | [] => [(name, value)]
  | (k, v) :: fields =>
    if k = name then (k, value) :: fields else (k, v) :: setField name value fields

def text? : Toml → Option String
  | .text s => some s
  | _ => none

def bool? : Toml → Option Bool
  | .bool b => some b
  | _ => none

/-- A number of any kind. -/
def float? : Toml → Option Number
  | .int n => some (Number.ofInt n)
  | .float x => some x
  | _ => none

def nat? : Toml → Option Nat
  | .int n => if 0 ≤ n then some n.toNat else none
  | _ => none

/-- The value of a field that may be absent. -/
def fieldOr? {β : Type} (fields : Fields) (name : String) (absent : β) (decode : Toml → Option β) :
    Option β :=
  match fields.lookup name with
  | some v => decode v
  | none => some absent

end Toml

end Obsplan
