import Obsplan.Decimal.Shortest

/-!
# Writing decimals

A `Layout` holds the decisions of one way to write a number: where the positional form ends,
whether a whole number keeps a fractional zero, how an exponent is signed. `Layout.write` lays out
the shortest digits of a floating-point number by these decisions.
-/

namespace Obsplan.Decimal

/-- The decisions of one way to write numbers. A number is `0.d₁d₂… * 10 ^ point`. -/
structure Layout where
  /-- Whether a number with this `point` is written without an exponent. -/
  positional : Int → Bool
  /-- Whether a whole number in positional form ends in `.0`. -/
  keepsPoint : Bool
  /-- Whether a positive exponent carries a plus sign. -/
  signsExponent : Bool
  /-- Which of two equally near shortest decimals is taken. -/
  tie : Tie

/-- The sign of a number, written only when it is negative. -/
def signText (negative : Bool) : String := if negative then "-" else ""

/-- The digits `ds` with the point after the first `point` of them, padded with zeros. -/
def positionalText (ds : String) (point : Int) (keepsPoint : Bool) : String :=
  let count : Int := ds.length
  if point ≤ 0 then "0." ++ String.ofList (List.replicate (-point).toNat '0') ++ ds
  else if count ≤ point then
    ds ++ String.ofList (List.replicate (point - count).toNat '0') ++
      (if keepsPoint then ".0" else "")
  else
    String.ofList (ds.toList.take point.toNat) ++ "." ++ String.ofList (ds.toList.drop point.toNat)

/-- The digits `ds` with the point after the first one and an exponent. -/
def exponentText (ds : String) (point : Int) (signsExponent : Bool) : String :=
  let e := point - 1
  let tail := match ds.toList with
    | [] => ""
    | [d] => String.ofList [d]
    | d :: rest => String.ofList (d :: '.' :: rest)
  tail ++ "e" ++ (if 0 ≤ e && signsExponent then "+" else "") ++ toString e

/-- A positive decimal laid out. -/
def Layout.place (layout : Layout) (d : Numeral) : String :=
  let ds := toString d.digits
  let point := (ds.length : Int) + d.exponent
  if layout.positional point then positionalText ds point layout.keepsPoint
  else exponentText ds point layout.signsExponent

/-- The text of a floating-point number in this layout. -/
def Layout.write (layout : Layout) (x : Number) : String :=
  if x.isNaN then "NaN"
  else
    let sign := signText x.isNegative
    if x.isInf then sign ++ "inf"
    else
      let d := Dyadic.ofNumber x
      if d.mantissa = 0 then sign ++ (if layout.keepsPoint then "0.0" else "0")
      else sign ++ layout.place (d.shortest layout.tie)

/-- Values are written positionally from `10 ^ -4` up to but excluding `10 ^ 16`, whole ones with
a fractional zero. -/
def valueLayout : Layout where
  positional point := decide (-3 ≤ point ∧ point ≤ 16)
  keepsPoint := true
  signsExponent := false
  tie := .up

/-- Bounds in messages are always written positionally and whole ones without a point. -/
def boundLayout : Layout where
  positional _ := true
  keepsPoint := false
  signsExponent := false
  tie := .up

/-- Numbers in JSON are written positionally from `10 ^ -5` up to but excluding `10 ^ 16`, whole
ones with a fractional zero, and exponents are signed. -/
def jsonLayout : Layout where
  positional point := decide (-4 ≤ point ∧ point ≤ 16)
  keepsPoint := true
  signsExponent := true
  tie := .toEven

/-- Settings are always written positionally, whole ones with a fractional zero. -/
def settingLayout : Layout where
  positional _ := true
  keepsPoint := true
  signsExponent := false
  tie := .up

/-! ## A fixed number of places -/

/-- The quotient of two naturals rounded to the nearest natural, a half going to the even one. -/
def roundHalfEven (num den : Nat) : Nat :=
  let floor := num / den
  match compare (2 * (num % den)) den with
  | .lt => floor
  | .gt => floor + 1
  | .eq => if floor % 2 = 0 then floor else floor + 1

/-- A number with one decimal place, rounded from its exact value. -/
def oneDecimal (x : Number) : String :=
  if x.isNaN then "NaN"
  else
    let sign := signText x.isNegative
    if x.isInf then sign ++ "inf"
    else
      let d := Dyadic.ofNumber x
      let tenths :=
        roundHalfEven (d.mantissa * 10 * Nat.pow 2 d.exponent.toNat)
          (Nat.pow 2 (-d.exponent).toNat)
      sign ++ toString (tenths / 10) ++ "." ++ toString (tenths % 10)

end Obsplan.Decimal
