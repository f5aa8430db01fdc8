/-!
# Numbers

The floating-point numbers of 64 bits. A number is kept as its bits: undefined numbers of different
bits stay apart, and what is read in binary is written back unchanged. Comparisons are decided on
the bits, sums and products are left to the machine. Main statement: of two defined numbers one is
less than the other or both are equal.
-/

namespace Obsplan

/-- A floating-point number: a sign bit, eleven bits of exponent and 52 bits of fraction. -/
structure Number where
  bits : UInt64
  deriving Repr

namespace Number

/-- The sign bit by itself. -/
def signBit : Nat := 0x8000000000000000

/-- The bits of infinity; greater magnitudes are undefined. -/
def infiniteBits : Nat := 0x7FF0000000000000

/-- The bits without the sign. -/
def magnitude (x : Number) : Nat := x.bits.toNat % signBit

/-- Whether the sign bit is set. -/
def isNegative (x : Number) : Bool := decide (signBit ≤ x.bits.toNat)

def isNaN (x : Number) : Bool := decide (infiniteBits < x.magnitude)

def isInf (x : Number) : Bool := x.magnitude == infiniteBits

/-- Whether a number is neither infinite nor undefined. -/
def isFinite (x : Number) : Bool := decide (x.magnitude < infiniteBits)

/-! ## Order -/

/-- The place of a number among all defined ones, zero for both zeros. -/
def rank (x : Number) : Int := if x.isNegative then -(x.magnitude : Int) else x.magnitude

/-- Whether two numbers are defined. -/
def areDefined (a b : Number) : Bool := !a.isNaN && !b.isNaN

instance : LT Number := ⟨fun a b => areDefined a b ∧ a.rank < b.rank⟩

instance : LE Number := ⟨fun a b => areDefined a b ∧ a.rank ≤ b.rank⟩

instance : DecidableLT Number := fun a b =>
  inferInstanceAs (Decidable (areDefined a b ∧ a.rank < b.rank))

instance : DecidableLE Number := fun a b =>
  inferInstanceAs (Decidable (areDefined a b ∧ a.rank ≤ b.rank))

/-- Numbers are compared by value: the two zeros are equal, and an undefined number differs from
itself. -/
instance : BEq Number := ⟨fun a b => areDefined a b && a.rank == b.rank⟩

/-! ## Arithmetic -/

/-- The undefined number that texts name. -/
def nan : Number := ⟨0x7FF8000000000000⟩

/-- The undefined number that an operation without a result yields. -/
def invalid : Number := ⟨0xFFF8000000000000⟩

def infinity : Number := ⟨0x7FF0000000000000⟩

/-- The number as the machine computes with it. -/
def toFloat (x : Number) : Float := Float.ofBits x.bits

/-- A number that the machine computed. -/
def ofFloat (x : Float) : Number := if x.isNaN then invalid else ⟨x.toBits⟩

/-- An undefined number as operations pass it on. -/
def passedOn (x : Number) : Number := ⟨x.bits ||| 0x0008000000000000⟩

/-- An operation of the machine; an undefined operand is its result, the first one if both are. -/
def combine (operation : Float → Float → Float) (a b : Number) : Number :=
  if a.isNaN then a.passedOn
  else if b.isNaN then b.passedOn
  else ofFloat (operation a.toFloat b.toFloat)

instance : Add Number := ⟨combine (· + ·)⟩

instance : Sub Number := ⟨combine (· - ·)⟩

instance : Mul Number := ⟨combine (· * ·)⟩

instance : Div Number := ⟨combine (· / ·)⟩

/-- The number with the other sign, also when it is undefined. -/
instance : Neg Number := ⟨fun x => ⟨x.bits ^^^ 0x8000000000000000⟩⟩

/-- The number nearest to a natural. -/
def ofNat (n : Nat) : Number := ofFloat (Float.ofNat n)

/-- The number nearest to an integer. -/
def ofInt (n : Int) : Number := ofFloat (Float.ofInt n)

instance : OfScientific Number := ⟨fun digits down places =>
  ofFloat (Float.ofScientific digits down places)⟩

end Number

end Obsplan
