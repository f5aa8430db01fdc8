import Obsplan.Json.Decode
import Obsplan.Binary.Basic

/-!
# Identifiers

Every actuator of every dataflow gets an identifier of its own, which is also that of the
observation the actuator produces. An allocator hands them out in increasing order; once the last
one is gone it never hands out another.
-/

namespace Obsplan

/-- The identifier of an actuator and of its observation: a positive number of 64 bits. -/
structure Identifier where
  val : Nat
  pos : 0 < val
  lt : val < UInt64.size
  deriving DecidableEq

namespace Identifier

theorem ext {a b : Identifier} (h : a.val = b.val) : a = b := by
  cases a; cases b; simp_all

/-- The identifier with a given number. -/
def ofNat? (n : Nat) : Option Identifier :=
  if h : 0 < n ∧ n < UInt64.size then some ⟨n, h.1, h.2⟩ else none

def first : Identifier := ⟨1, by decide, by decide⟩

/-- The identifier after another one, unless that is the last. -/
def next? (i : Identifier) : Option Identifier := ofNat? (i.val + 1)

/-- An identifier in messages. -/
def text (i : Identifier) : String := s!"act:{i.val}"

def toJson (i : Identifier) : Json := .int i.val

def ofJson? (j : Json) : Option Identifier := j.nat64?.bind ofNat?

def encode (i : Identifier) : List UInt8 := Binary.encodeWord i.val

def decode : Binary.Decoder Identifier := do
  match ofNat? (← Binary.word) with
  | some i => return i
  | none => failure

end Identifier

/-- A source of fresh identifiers. -/
structure Allocator where
  /-- The identifier handed out next, if any is left. -/
  next : Option Identifier := some .first

namespace Allocator

/-- An allocator that starts with a given number, or with one when that is zero. -/
def startingAt (n : Nat) : Allocator := ⟨Identifier.ofNat? (max n 1)⟩

/-- The number that is handed out next; zero when none is left. -/
def peek (a : Allocator) : Nat := (a.next.map Identifier.val).getD 0

/-- The next identifier and the allocator after handing it out. -/
def allocate? (a : Allocator) : Option (Identifier × Allocator) :=
  a.next.map fun i => (i, ⟨i.next?⟩)

end Allocator

end Obsplan
