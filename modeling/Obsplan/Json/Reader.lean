import Obsplan.Json.Basic

/-!
# Reading JSON

The grammar of the interchange format over a list of characters. Each reader takes the characters
still to be read and gives what it read together with the rest.
-/

namespace Obsplan.Json

/-- Lists and objects may be nested this deep. -/
def maxNesting : Nat := 127

def isSpace (c : Char) : Bool := c == ' ' || c == '\n' || c == '\t' || c == '\r'

def skipSpace (cs : List Char) : List Char := cs.dropWhile isSpace

/-! ## Texts -/

/-- A unit of a text: a character, or one half of a pair of surrogates. -/
inductive TextUnit where
  | char (c : Char)
  | surrogate (n : Nat)

/-- The unit with a given number. -/
def TextUnit.ofNat (n : Nat) : TextUnit :=
  if 0xD800 ≤ n ∧ n < 0xE000 then .surrogate n else .char (Char.ofNat n)

/-- The value of a hexadecimal digit. -/
def hexDigit? (c : Char) : Option Nat :=
  if c.isDigit then some (c.toNat - '0'.toNat)
  else if 'a' ≤ c ∧ c ≤ 'f' then some (c.toNat - 'a'.toNat + 10)
  else if 'A' ≤ c ∧ c ≤ 'F' then some (c.toNat - 'A'.toNat + 10)
  else none

/-- The number written by four hexadecimal digits. -/
def hexNumber? (a b c d : Char) : Option Nat := do
  return ((← hexDigit? a) * 16 + (← hexDigit? b)) * 256 + (← hexDigit? c) * 16 + (← hexDigit? d)

/-- The character that a letter stands for after a backslash. -/
def escaped? : Char → Option Char
  | '"' => some '"'
  | '\\' => some '\\'
  | '/' => some '/'
  | 'b' => some '\x08'
  | 'f' => some '\x0c'
  | 'n' => some '\n'
  | 'r' => some '\r'
  | 't' => some '\t'
  | _ => none

/-- The units of a text up to its closing quote, which is consumed. -/
def readUnits? : List Char → Option (List TextUnit × List Char)
  | [] => none
  | '"' :: cs => some ([], cs)
  | '\\' :: 'u' :: a :: b :: c :: d :: cs => do
    let n ← hexNumber? a b c d
    let (units, rest) ← readUnits? cs
    return (.ofNat n :: units, rest)
  | '\\' :: c :: cs => do
    let e ← escaped? c
    let (units, rest) ← readUnits? cs
    return (.char e :: units, rest)
  | c :: cs => do
    if c.toNat < 0x20 then none
    let (units, rest) ← readUnits? cs
    return (.char c :: units, rest)

/-- The characters of a list of units, joining pairs of surrogates. A surrogate without its other
half has no character. -/
def joinUnits? : List TextUnit → Option (List Char)
  | [] => some []
  | .char c :: units => (joinUnits? units).map (c :: ·)
  | .surrogate high :: .surrogate low :: units =>
    if high < 0xDC00 ∧ 0xDC00 ≤ low then
      (joinUnits? units).map (Char.ofNat (0x10000 + (high - 0xD800) * 0x400 + (low - 0xDC00)) :: ·)
    else none
  | .surrogate _ :: _ => none

/-- A text after its opening quote: its value, if it has one, and the rest. -/
def readText? (cs : List Char) : Option (Option String × List Char) :=
  (readUnits? cs).map fun (units, rest) => ((joinUnits? units).map String.ofList, rest)

/-! ## Numbers -/

/-- The greatest digits that are collected before a number is rounded. -/
def maxDigits : Nat := UInt64.size - 1

/-- A power of ten as a floating-point number. -/
def powerOfTen (n : Nat) : Number := OfScientific.ofScientific 1 false n

/-- Scales a number by a power of ten: up in one step, or down in steps of at most `10 ^ 308`, of
which two are enough to reach zero. A number beyond the range of floating-point numbers has no
value. -/
def scaleBy? : Nat → Number → Int → Option Number
  | 0, _, _ => some 0.0
  | steps + 1, x, e =>
    if 0 ≤ e then
      if e ≤ 308 then
        let y := x * powerOfTen e.toNat
        if y.isInf then none else some y
      else if x == 0.0 then some x
      else none
    else if -308 ≤ e then some (x / powerOfTen (-e).toNat)
    else if x == 0.0 then some x
    else scaleBy? steps (x / 1e308) (e + 308)

/-- Digits of a number as they are collected: their value, how many were left out because it would
not fit, and whether any was. -/
structure Collected where
  value : Nat
  dropped : Nat
  isFull : Bool

/-- One more digit. Once a digit does not fit, all the following ones are left out. -/
def Collected.push (d : Collected) (c : Char) : Collected :=
  let value := d.value * 10 + (c.toNat - '0'.toNat)
  if d.isFull || maxDigits < value then ⟨d.value, d.dropped + 1, true⟩
  else ⟨value, d.dropped, false⟩

/-- The digits of a number before its point. -/
def collect (ds : List Char) : Collected := ds.foldl Collected.push ⟨0, 0, false⟩

/-- The value of a number with a point or an exponent, or of one too large to stay whole. Digits
are collected while they fit 64 bits and then scaled by a power of ten; places after the point that
are left out count for nothing. -/
def floatOf? (negative : Bool) (whole places : List Char) (exponent : Int) : Option Number :=
  let w := collect whole
  let p := places.foldl Collected.push ⟨w.value, 0, false⟩
  let e := (w.dropped : Int) - ((places.length : Int) - p.dropped) + exponent
  let x : Option Number :=
    if 400 < e then (if p.value = 0 then some 0.0 else none)
    else if e < -1000 then some 0.0
    else scaleBy? 4 (Number.ofNat p.value) e
  x.map fun x => if negative then -x else x

/-- The value of a whole number: whole as long as it fits 64 bits, except for a negative zero. -/
def wholeOf (negative : Bool) (ds : List Char) : Json :=
  let n := natural ds
  if negative then
    if 0 < n ∧ n ≤ 0x8000000000000000 then .int (-(n : Int))
    else if n = 0 ∨ n ≤ maxDigits then .float (-(Number.ofNat n))
    else valued (floatOf? true ds [] 0)
  else if n ≤ maxDigits then .int n
  else valued (floatOf? false ds [] 0)
where
  /-- The natural written by digits. -/
  natural (ds : List Char) : Nat := ds.foldl (fun n c => n * 10 + (c.toNat - '0'.toNat)) 0
  /-- A number that may be out of range. -/
  valued : Option Number → Json
    | some x => .float x
    | none => .unreadable

/-- The exponent of a number, if it has one. -/
def readExponent? (cs : List Char) : Option (Option Int × List Char) :=
  let digits (sign : Int) (cs : List Char) : Option (Option Int × List Char) :=
    let ds := cs.takeWhile Char.isDigit
    if ds.isEmpty then none
    else
      let n := ds.foldl (fun n c => n * 10 + (c.toNat - '0'.toNat)) 0
      some (some (sign * (n : Int)), cs.dropWhile Char.isDigit)
  match cs with
  | c :: rest =>
    if c = 'e' ∨ c = 'E' then
      match rest with
      | '+' :: ds => digits 1 ds
      | '-' :: ds => digits (-1) ds
      | ds => digits 1 ds
    else some (none, cs)
  | [] => some (none, cs)

/-- A number after its sign. -/
def readNumber? (negative : Bool) (cs : List Char) : Option (Json × List Char) := do
  let whole := cs.takeWhile Char.isDigit
  let rest := cs.dropWhile Char.isDigit
  match whole with
  | [] => none
  | '0' :: _ :: _ => none
  | _ =>
    match rest with
    | '.' :: after =>
      let places := after.takeWhile Char.isDigit
      if places.isEmpty then none
      let (e, rest) ← readExponent? (after.dropWhile Char.isDigit)
      return (wholeOf.valued (floatOf? negative whole places (e.getD 0)), rest)
    | _ =>
      let (e, rest) ← readExponent? rest
      match e with
      | some e => return (wholeOf.valued (floatOf? negative whole [] e), rest)
      | none => return (wholeOf negative whole, rest)

/-! ## Values -/

/-- The rest after a given word. -/
def readWord? (word : List Char) (cs : List Char) : Option (List Char) :=
  if word.isPrefixOf cs then some (cs.drop word.length) else none

/-- A list or object with `depth` others around it, when it is not nested too deeply. -/
def nestedAt (depth : Nat) (j : Json) : Json := if depth < maxNesting then j else .unreadable

mutual

/-- A value with `depth` lists and objects around it; `fuel` bounds the number of its parts. -/
def readValue? (fuel depth : Nat) (cs : List Char) : Option (Json × List Char) :=
  match fuel with
  | 0 => none
  | fuel + 1 =>
    match skipSpace cs with
    | '"' :: cs => (readText? cs).map fun (s, rest) => ((s.map Json.text).getD .unreadable, rest)
    | '[' :: cs =>
      match skipSpace cs with
      | ']' :: rest => some (nestedAt depth (.list []), rest)
      | cs => (readItems? fuel (depth + 1) cs).map fun (items, rest) =>
          (nestedAt depth (.list items), rest)
    | '\x7b' :: cs =>
      match skipSpace cs with
      | '\x7d' :: rest => some (nestedAt depth (.object []), rest)
      | cs => (readFields? fuel (depth + 1) cs).map fun (fields, rest) =>
          (nestedAt depth ((fields.map Json.object).getD .unreadable), rest)
    | 'n' :: cs => (readWord? ['u', 'l', 'l'] cs).map fun rest => (.null, rest)
    | 't' :: cs => (readWord? ['r', 'u', 'e'] cs).map fun rest => (.bool true, rest)
    | 'f' :: cs => (readWord? ['a', 'l', 's', 'e'] cs).map fun rest => (.bool false, rest)
    | '-' :: cs => readNumber? true cs
    | cs => readNumber? false cs

/-- The items of a list after its opening bracket, of which there is at least one. -/
def readItems? (fuel depth : Nat) (cs : List Char) : Option (List Json × List Char) :=
  match fuel with
  | 0 => none
  | fuel + 1 => do
    let (item, rest) ← readValue? fuel depth cs
    match skipSpace rest with
    | ']' :: rest => return ([item], rest)
    | ',' :: rest =>
      let (items, rest) ← readItems? fuel depth rest
      return (item :: items, rest)
    | _ => none

/-- The fields of an object after its opening brace, of which there is at least one; they have no
value when one of their names has none. -/
def readFields? (fuel depth : Nat) (cs : List Char) :
    Option (Option (List (String × Json)) × List Char) :=
  match fuel with
  | 0 => none
  | fuel + 1 =>
    match skipSpace cs with
    | '"' :: cs => do
      let (name, rest) ← readText? cs
      match skipSpace rest with
      | ':' :: rest =>
        let (value, rest) ← readValue? fuel depth rest
        match skipSpace rest with
        | '\x7d' :: rest => return (name.map fun name => [(name, value)], rest)
        | ',' :: rest =>
          let (fields, rest) ← readFields? fuel depth rest
          let joined := name.bind fun name => fields.map fun fields => (name, value) :: fields
          return (joined, rest)
        | _ => none
      | _ => none
    | _ => none

end

/-- The value written by a text, with nothing but blanks around it. -/
def read? (s : String) : Option Json := do
  let cs := s.toList
  let (j, rest) ← readValue? (2 * cs.length + 2) 0 cs
  if (skipSpace rest).isEmpty then some j else none

end Obsplan.Json
