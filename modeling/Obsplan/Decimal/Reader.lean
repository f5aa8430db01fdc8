import Obsplan.Number

/-!
# Reading decimals

Text becomes the floating-point number nearest to it, whatever the number of digits. The words for
infinity and for the undefined number are read in any case.
-/

namespace Obsplan.Decimal

/-- The number `digits * 10 ^ exponent`, rounded to nearest. Exponents far outside the range of
floating-point numbers are decided without computing the power. -/
def toNumber (digits : Nat) (exponent : Int) : Number :=
  if digits = 0 then 0.0
  else
    let size := ((toString digits).length : Int) + exponent
    if 310 < size then .infinity
    else if size < -400 then 0.0
    else if 0 ≤ exponent then OfScientific.ofScientific digits false exponent.toNat
    else OfScientific.ofScientific digits true (-exponent).toNat

/-- The natural written by ASCII digits. -/
def naturalOf (ds : List Char) : Nat :=
  ds.foldl (fun n c => 10 * n + (c.toNat - '0'.toNat)) 0

/-- The exponent part of a number: nothing, or a mark, an optional sign and at least one digit. -/
def readExponent? (cs : List Char) : Option Int :=
  let number (sign : Int) (ds : List Char) : Option Int :=
    if ds.isEmpty || !ds.all Char.isDigit then none else some (sign * naturalOf ds)
  match cs with
  | [] => some 0
  | c :: rest =>
    if c = 'e' ∨ c = 'E' then
      match rest with
      | '+' :: ds => number 1 ds
      | '-' :: ds => number (-1) ds
      | ds => number 1 ds
    else none

/-- A number without a sign: digits with at most one point among them, at least one digit, and an
optional exponent. -/
def readUnsigned? (cs : List Char) : Option Number :=
  let whole := cs.takeWhile Char.isDigit
  let rest := cs.dropWhile Char.isDigit
  let (places, tail) := match rest with
    | '.' :: after => (after.takeWhile Char.isDigit, after.dropWhile Char.isDigit)
    | _ => ([], rest)
  if whole.isEmpty && places.isEmpty then none
  else (readExponent? tail).map fun e =>
    toNumber (naturalOf (whole ++ places)) (e - places.length)

/-- The names of the numbers without digits. -/
def readWord? (cs : List Char) : Option Number :=
  match String.ofList (cs.map Char.toLower) with
  | "inf" => some .infinity
  | "infinity" => some .infinity
  | "nan" => some .nan
  | _ => none

/-- The floating-point number a text stands for. -/
def read? (text : String) : Option Number :=
  let unsigned (cs : List Char) : Option Number := (readWord? cs).orElse fun _ => readUnsigned? cs
  match text.toList with
  | '-' :: cs => (unsigned cs).map fun x => -x
  | '+' :: cs => unsigned cs
  | cs => unsigned cs

end Obsplan.Decimal
