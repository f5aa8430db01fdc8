import Obsplan.Number

/-!
# Binary data

Little-endian encodings of a fixed width and texts with their length before them. A decoder takes
the bytes still to be read and gives what it read together with the rest.
-/

namespace Obsplan.Binary

/-- Reads a value from the front of a list of bytes. -/
abbrev Decoder (β : Type) := StateT (List UInt8) Option β

/-- The `width` low bytes of a natural, lowest first. -/
def natBytes : Nat → Nat → List UInt8
  | 0, _ => []
  | width + 1, n => UInt8.ofNat (n % 256) :: natBytes width (n / 256)

/-- The natural written by bytes, lowest first. -/
def natOf : List UInt8 → Nat
  | [] => 0
  | b :: bs => b.toNat + 256 * natOf bs

/-- The next `width` bytes. -/
def take (width : Nat) : Decoder (List UInt8) := fun bytes =>
  let front := bytes.take width
  if front.length = width then some (front, bytes.drop width) else none

/-- A natural of `width` bytes. -/
def nat (width : Nat) : Decoder Nat := do return natOf (← take width)

/-- A case number. -/
def encodeCase (n : Nat) : List UInt8 := natBytes 4 n

def case : Decoder Nat := nat 4

/-- A length or an identifier. -/
def encodeWord (n : Nat) : List UInt8 := natBytes 8 n

def word : Decoder Nat := nat 8

/-- A truth value. -/
def encodeBool (b : Bool) : List UInt8 := [if b then 1 else 0]

/-- A truth value; no byte but zero and one stands for one. -/
def bool : Decoder Bool := do
  match ← nat 1 with
  | 0 => return false
  | 1 => return true
  | _ => failure

/-- A floating-point number by its bits. -/
def encodeNumber (x : Number) : List UInt8 := natBytes 8 x.bits.toNat

def number : Decoder Number := do return ⟨UInt64.ofNat (← nat 8)⟩

/-- A text: its length in bytes and its bytes. -/
def encodeText (s : String) : List UInt8 :=
  let bytes := s.toUTF8.toList
  encodeWord bytes.length ++ bytes

/-- A text: its length in bytes and its bytes. -/
def text : Decoder String := do
  let length ← word
  let bytes ← take length
  match String.fromUTF8? (ByteArray.mk bytes.toArray) with
  | some s => return s
  | none => failure

/-- A list: its length and its items. -/
def encodeList {β : Type} (encode : β → List UInt8) (items : List β) : List UInt8 :=
  encodeWord items.length ++ items.flatMap encode

/-- A given number of items. -/
def times {β : Type} (decode : Decoder β) : Nat → Decoder (List β)
  | 0 => return []
  | count + 1 => do
    let item ← decode
    let items ← times decode count
    return item :: items

def list {β : Type} (decode : Decoder β) : Decoder (List β) := do times decode (← word)

def encodeOption {β : Type} (encode : β → List UInt8) : Option β → List UInt8
  | none => [0]
  | some x => 1 :: encode x

def option {β : Type} (decode : Decoder β) : Decoder (Option β) := do
  if ← bool then return some (← decode) else return none

end Obsplan.Binary
