import Obsplan.Binary.Basic
import Obsplan.Value.Basic

/-!
# Values in binary

In binary the kind of a value is written before its content, so that it can be read back without
guessing.
-/

namespace Obsplan

open Obsplan.Binary

namespace Value

mutual

def encode : Value → List UInt8
  | .null => encodeCase 0
  | .bool b => encodeCase 1 ++ encodeBool b
  | .int n => encodeCase 2 ++ encodeWord n.toUInt64.toNat
  | .float x => encodeCase 3 ++ encodeNumber x
  | .text s => encodeCase 4 ++ encodeText s
  | .list items => encodeCase 5 ++ encodeWord items.length ++ encodeItems items
  | .map entries => encodeCase 6 ++ encodeWord entries.length ++ encodeEntries entries

def encodeItems : List Value → List UInt8
  | [] => []
  | v :: vs => encode v ++ encodeItems vs

def encodeEntries : List (String × Value) → List UInt8
  | [] => []
  | (k, v) :: entries => encodeText k ++ encode v ++ encodeEntries entries

end

/-- A named value. -/
def decodeEntry (decode : Decoder Value) : Decoder (String × Value) := do
  let k ← Binary.text
  let v ← decode
  return (k, v)

/-- A value nested at most `fuel` deep. -/
def decodeWithin : Nat → Decoder Value
  | 0 => failure
  | fuel + 1 => do
    match ← Binary.case with
    | 0 => return .null
    | 1 => return .bool (← Binary.bool)
    | 2 => return .int (UInt64.ofNat (← word)).toInt64
    | 3 => return .float (← Binary.number)
    | 4 => return .text (← Binary.text)
    | 5 => return .list (← Binary.list (decodeWithin fuel))
    | 6 => return .map (Parameters.ofList (← Binary.list (decodeEntry (decodeWithin fuel)))).entries
    | _ => failure

/-- The value at the front of a list of bytes; every level of nesting takes at least one byte. -/
def decode : Decoder Value := fun bytes => decodeWithin bytes.length bytes

end Value

namespace Parameters

/-- Parameters are written like a map, without the case of a value before them. -/
def encode (p : Parameters) : List UInt8 :=
  encodeWord p.entries.length ++ Value.encodeEntries p.entries

/-- The entries are set one after the other, so that a name that comes again replaces its value. -/
def decode : Decoder Parameters := do
  return .ofList (← Binary.list (Value.decodeEntry Value.decode))

end Parameters

end Obsplan
