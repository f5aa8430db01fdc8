import Obsplan.Number

/-!
# Shortest decimals

A finite binary number stands for all the reals that round to it. This module picks, among the
decimals with the fewest digits that lie in that interval, the one nearest to the number itself.
Everything is decided by exact arithmetic on naturals.
-/

namespace Obsplan.Decimal

/-- A non-negative binary number `mantissa * 2 ^ exponent`. -/
structure Dyadic where
  mantissa : Nat
  exponent : Int
  /-- Whether the gap to the number below is half the gap to the number above. -/
  narrowBelow : Bool
  deriving DecidableEq, Repr

/-- A non-negative decimal number `digits * 10 ^ exponent`. -/
structure Numeral where
  digits : Nat
  exponent : Int
  deriving DecidableEq, Repr

/-- Which of two equally near decimals is taken. -/
inductive Tie where
  /-- The one whose last digit is even. -/
  | toEven
  /-- The larger one. -/
  | up
  deriving DecidableEq, Repr

/-- The bit that a mantissa has above its 52 stored ones. -/
def leadingBit : Nat := 0x10000000000000

/-- The magnitude of a finite number, read off its bits. -/
def Dyadic.ofNumber (x : Number) : Dyadic :=
  let bits := x.bits.toNat
  let biased : Nat := bits / leadingBit % 0x800
  let fraction : Nat := bits % leadingBit
  if biased = 0 then ⟨fraction, -1074, false⟩
  else ⟨leadingBit + fraction, (biased : Int) - 1075, fraction == 0 && 1 < biased⟩

/-- Compares `a * 10 ^ i` with `n * 2 ^ j` exactly. -/
def compareScaled (a : Nat) (i : Int) (n : Nat) (j : Int) : Ordering :=
  compare (a * Nat.pow 10 i.toNat * Nat.pow 2 (-j).toNat)
    (n * Nat.pow 2 j.toNat * Nat.pow 10 (-i).toNat)

/-- Whether the decimal `d` lies in the interval of the reals that round to `x`. The ends of the
interval are halfway to the neighbours of `x` and belong to it when the mantissa is even. -/
def Dyadic.readsBack (x : Dyadic) (d : Numeral) : Bool :=
  let low := if x.narrowBelow then 4 * x.mantissa - 1 else 4 * x.mantissa - 2
  let high := 4 * x.mantissa + 2
  let closed := x.mantissa % 2 == 0
  let below := compareScaled d.digits d.exponent low (x.exponent - 2)
  let above := compareScaled d.digits d.exponent high (x.exponent - 2)
  (below == .gt || (closed && below == .eq)) && (above == .lt || (closed && above == .eq))

/-- The least `k` with `x < 10 ^ k`, for a positive `x`. The binary logarithm leaves three values
to choose from. -/
def Dyadic.scale (x : Dyadic) : Int :=
  let guess := ((x.mantissa.log2 : Int) + x.exponent) * 30103 / 100000
  let fits (k : Int) : Bool := compareScaled 1 k x.mantissa x.exponent == .gt
  if fits guess then guess else if fits (guess + 1) then guess + 1 else guess + 2

/-- The decimals of the grid `10 ^ g` next to `x`: the greatest one not above it and how `x`
compares with the middle between that one and the following one. -/
def Dyadic.onGrid (x : Dyadic) (g : Int) : Nat × Ordering :=
  let num := x.mantissa * Nat.pow 2 x.exponent.toNat * Nat.pow 10 (-g).toNat
  let den := Nat.pow 2 (-x.exponent).toNat * Nat.pow 10 g.toNat
  let floor := num / den
  (floor, compare (2 * num) ((2 * floor + 1) * den))

/-- The decimal of the grid `10 ^ g` nearest to `x` among those that read back to it. -/
def Dyadic.nearestOnGrid? (tie : Tie) (x : Dyadic) (g : Int) : Option Numeral :=
  let (floor, middle) := x.onGrid g
  let lower : Numeral := ⟨floor, g⟩
  let upper : Numeral := ⟨floor + 1, g⟩
  match x.readsBack lower, x.readsBack upper with
  | false, false => none
  | true, false => some lower
  | false, true => some upper
  | true, true =>
    match middle, tie with
    | .lt, _ => some lower
    | .gt, _ => some upper
    | .eq, .up => some upper
    | .eq, .toEven => some (if floor % 2 = 0 then lower else upper)

/-- The value of `x` with all its digits. -/
def Dyadic.exact (x : Dyadic) : Numeral :=
  ⟨x.mantissa * Nat.pow 2 x.exponent.toNat * Nat.pow 5 (-x.exponent).toNat, -(-x.exponent).toNat⟩

/-- Moves trailing zeros of the digits into the exponent, at most `fuel` of them. -/
def Numeral.strip : Nat → Numeral → Numeral
  | 0, d => d
  | fuel + 1, d =>
    if d.digits ≠ 0 ∧ d.digits % 10 = 0 then strip fuel ⟨d.digits / 10, d.exponent + 1⟩ else d

/-- The shortest decimal that reads back to the positive number `x`; seventeen digits are always
enough. -/
def Dyadic.shortest (tie : Tie) (x : Dyadic) : Numeral :=
  let k := x.scale
  let found := (List.range 17).findSome? fun (n : Nat) => x.nearestOnGrid? tie (k - n - 1)
  (found.getD x.exact).strip 20

end Obsplan.Decimal
