import Obsplan.Json.Decode
import Obsplan.Value.Basic

/-!
# Values in JSON

A value is written bare. When it is read, whole numbers beyond 64 signed bits become floating-point
numbers, and a repeated name keeps its first place and takes its last value.
-/

namespace Obsplan.Value

mutual

def toJson : Value → Json
  | .null => .null
  | .bool b => .bool b
  | .int n => .int n.toInt
  | .float x => .float x
  | .text s => .text s
  | .list items => .list (itemsToJson items)
  | .map entries => .object (entriesToJson entries)

def itemsToJson : List Value → List Json
  | [] => []
  | v :: vs => toJson v :: itemsToJson vs

def entriesToJson : List (String × Value) → List (String × Json)
  | [] => []
  | (k, v) :: entries => (k, toJson v) :: entriesToJson entries

end

mutual

/-- The value of JSON all of whose parts can be read. -/
def ofReadable : Json → Value
  | .null => .null
  | .bool b => .bool b
  | .int n =>
    if -0x8000000000000000 ≤ n ∧ n < 0x8000000000000000 then .int (Int64.ofInt n)
    else .float (Number.ofInt n)
  | .float x => .float x
  | .text s => .text s
  | .list items => .list (itemsOfReadable items)
  | .object fields => .map (entriesOfReadable [] fields)
  | .unreadable => .null

/-- The values of the items of a list. -/
def itemsOfReadable : List Json → List Value
  | [] => []
  | j :: js => ofReadable j :: itemsOfReadable js

/-- The values of fields, set one after the other into the given entries. -/
def entriesOfReadable (entries : List (String × Value)) :
    List (String × Json) → List (String × Value)
  | [] => entries
  | (k, j) :: fields => entriesOfReadable (Parameters.setIn k (ofReadable j) entries) fields

end

def ofJson? (j : Json) : Option Value := j.readable?.map ofReadable

end Obsplan.Value

namespace Obsplan.Parameters

def toJson (p : Parameters) : Json := .object (Value.entriesToJson p.entries)

def ofJson? : Json → Option Parameters
  | .object fields =>
    (Json.object fields).readable?.map fun _ => ⟨Value.entriesOfReadable [] fields⟩
  | _ => none

end Obsplan.Parameters
