import Obsplan.Json.Basic

/-!
# Decoding JSON values

What the parts of the planner's data ask of a JSON value. A record is written as an object, in which
unknown fields are passed over and known ones may not repeat, or as the list of its fields in their
order, of which the last ones may be left out.
-/

namespace Obsplan.Json

/-- The value itself when all its parts can be read. -/
def readable? (j : Json) : Option Json := if j.isReadable then some j else none

def text? : Json → Option String
  | .text s => some s
  | _ => none

def bool? : Json → Option Bool
  | .bool b => some b
  | _ => none

/-- A number of any kind. -/
def float? : Json → Option Number
  | .int n => some (Number.ofInt n)
  | .float x => some x
  | _ => none

/-- A whole number from `low` to `high`. -/
def int? (low high : Int) : Json → Option Int
  | .int n => if low ≤ n ∧ n ≤ high then some n else none
  | _ => none

/-- A natural number up to `high`. -/
def nat? (high : Nat) (j : Json) : Option Nat := (int? 0 high j).map Int.toNat

def nat64? (j : Json) : Option Nat := j.nat? (UInt64.size - 1)

/-- A list whose items are all decoded. -/
def listOf? {β : Type} (decode : Json → Option β) : Json → Option (List β)
  | .list items => items.mapM decode
  | _ => none

def nullable? {β : Type} (decode : Json → Option β) : Json → Option (Option β)
  | .null => some none
  | j => (decode j).map some

/-- A word: a text, or an object with the word as its only field and a value that says nothing. -/
def word? : Json → Option String
  | .text s => some s
  | .object [(s, .null)] => some s
  | _ => none

/-- The case of a value: a word, or a word with a content. -/
def case? : Json → Option (String × Option Json)
  | .text s => some (s, none)
  | .object [(s, j)] => some (s, some j)
  | _ => none

/-! ## Records -/

/-- The known fields of a record that are present. -/
abbrev Record := List (String × Json)

/-- The fields of an object with the given names, none of which may repeat. -/
def objectRecord? (names : List String) (fields : List (String × Json)) : Option Record :=
  let known := fields.filter fun f => names.contains f.1
  if names.all fun name => decide ((known.filter fun f => f.1 == name).length ≤ 1) then some known
  else none

/-- A record with the given field names. -/
def record? (names : List String) : Json → Option Record
  | .object fields => objectRecord? names fields
  | .list items => if items.length ≤ names.length then some (names.zip items) else none
  | _ => none

/-- The value of a field that has to be present. -/
def Record.get? {β : Type} (r : Record) (name : String) (decode : Json → Option β) : Option β :=
  (r.lookup name).bind decode

/-- The value of a field that may be absent. -/
def Record.getOr? {β : Type} (r : Record) (name : String) (absent : β) (decode : Json → Option β) :
    Option β :=
  match r.lookup name with
  | some j => decode j
  | none => some absent

/-- The value of a field that may be absent or null. -/
def Record.option? {β : Type} (r : Record) (name : String) (decode : Json → Option β) :
    Option (Option β) :=
  r.getOr? name none (nullable? decode)

/-- A field of an object, left out when it has no value. -/
def optionalField (name : String) (value : Option Json) : List (String × Json) :=
  match value with
  | some j => [(name, j)]
  | none => []

end Obsplan.Json
