import Obsplan.Decimal.Reader
import Obsplan.Toml.Basic

/-!
# The words of settings documents

Texts, keys, numbers and dates. Each reader takes the characters still to be read and gives what it
read together with the rest.
-/

namespace Obsplan.Toml

def isSpace (c : Char) : Bool := c == ' ' || c == '\t'

def skipSpace (cs : List Char) : List Char := cs.dropWhile isSpace

/-- Whether a character may stand in a comment or, apart from its delimiters, in a text. -/
def isPlain (c : Char) : Bool := c == '\t' || (decide (0x20 ≤ c.toNat) && c.toNat != 0x7F)

/-- The characters after a line end. -/
def lineEnd? : List Char → Option (List Char)
  | '\n' :: cs => some cs
  | '\r' :: '\n' :: cs => some cs
  | _ => none

/-- The characters after blanks, and after a comment if there is one. -/
def skipComment (cs : List Char) : List Char :=
  match skipSpace cs with
  | '#' :: cs => cs.dropWhile isPlain
  | cs => cs

/-- The characters after the rest of a line, which may hold only blanks and a comment. -/
def finishLine? (cs : List Char) : Option (List Char) :=
  match skipComment cs with
  | [] => some []
  | cs => lineEnd? cs

/-! ## Texts -/

def hexDigit? (c : Char) : Option Nat :=
  if c.isDigit then some (c.toNat - '0'.toNat)
  else if 'a' ≤ c ∧ c ≤ 'f' then some (c.toNat - 'a'.toNat + 10)
  else if 'A' ≤ c ∧ c ≤ 'F' then some (c.toNat - 'A'.toNat + 10)
  else none

/-- The character with the code point that some hexadecimal digits write. -/
def scalar? (digits : List Char) : Option Char := do
  let n ← digits.foldlM (fun n c => (hexDigit? c).map (n * 16 + ·)) 0
  if h : n.isValidChar then some (Char.ofNatAux n h) else none

/-- The character of an escape after its backslash. -/
def readEscape? : List Char → Option (Char × List Char)
  | 'b' :: cs => some ('\x08', cs)
  | 't' :: cs => some ('\t', cs)
  | 'n' :: cs => some ('\n', cs)
  | 'f' :: cs => some ('\x0c', cs)
  | 'r' :: cs => some ('\r', cs)
  | '"' :: cs => some ('"', cs)
  | '\\' :: cs => some ('\\', cs)
  | 'u' :: cs => if (cs.take 4).length = 4 then (scalar? (cs.take 4)).map (·, cs.drop 4) else none
  | 'U' :: cs => if (cs.take 8).length = 8 then (scalar? (cs.take 8)).map (·, cs.drop 8) else none
  | _ => none

/-- The characters after leading blanks and line ends. -/
def skipFolded : List Char → List Char
  | '\r' :: '\n' :: cs => skipFolded cs
  | c :: cs => if isSpace c || c == '\n' then skipFolded cs else c :: cs
  | [] => []

/-- The characters after the blanks and line ends that a backslash at the end of a line swallows,
which hold at least one line end. -/
def skipFold? (cs : List Char) : Option (List Char) :=
  match lineEnd? (skipSpace cs) with
  | some rest => some (skipFolded rest)
  | none => none

/-- A text in quotation marks after the opening one. `fuel` bounds its length. -/
def readBasic? : Nat → List Char → Option (List Char × List Char)
  | 0, _ => none
  | fuel + 1, cs =>
    match cs with
    | '"' :: cs => some ([], cs)
    | '\\' :: cs => do
      let (c, cs) ← readEscape? cs
      let (body, rest) ← readBasic? fuel cs
      return (c :: body, rest)
    | c :: cs => do
      if !isPlain c then none
      let (body, rest) ← readBasic? fuel cs
      return (c :: body, rest)
    | [] => none

/-- A text in apostrophes after the opening one. -/
def readLiteral? : List Char → Option (List Char × List Char)
  | [] => none
  | '\'' :: cs => some ([], cs)
  | c :: cs => do
    if !isPlain c then none
    let (body, rest) ← readLiteral? cs
    return (c :: body, rest)

/-- The end of a text over several lines: three marks, of which up to two more may come before. -/
def closing? (mark : Char) (cs : List Char) : Option (List Char × List Char) :=
  let marks := cs.takeWhile (· == mark)
  if marks.length < 3 then none
  else
    let inside := min (marks.length - 3) 2
    some (List.replicate inside mark, cs.drop (inside + 3))

/-- A text over several lines after its opening marks. -/
def readLines? (mark : Char) (escapes : Bool) : Nat → List Char → Option (List Char × List Char)
  | 0, _ => none
  | fuel + 1, cs =>
    match closing? mark cs with
    | some (inside, rest) => some (inside, rest)
    | none =>
      match lineEnd? cs, cs with
      | some rest, _ => do
        let (body, rest) ← readLines? mark escapes fuel rest
        return ('\n' :: body, rest)
      | none, '\\' :: rest =>
        if !escapes then do
          let (body, rest) ← readLines? mark escapes fuel rest
          return ('\\' :: body, rest)
        else match skipFold? rest with
          | some rest => readLines? mark escapes fuel rest
          | none => do
            let (c, rest) ← readEscape? rest
            let (body, rest) ← readLines? mark escapes fuel rest
            return (c :: body, rest)
      | none, c :: rest => do
        if !isPlain c then none
        let (body, rest) ← readLines? mark escapes fuel rest
        return (c :: body, rest)
      | none, [] => none

/-- A text of any form; a line end right after the opening marks of several lines is dropped. -/
def readText? (cs : List Char) : Option (String × List Char) :=
  let whole (r : Option (List Char × List Char)) : Option (String × List Char) :=
    r.map fun (t, rest) => (String.ofList t, rest)
  let body (cs : List Char) : List Char := (lineEnd? cs).getD cs
  match cs with
  | '"' :: '"' :: '"' :: cs => whole (readLines? '"' true (cs.length + 1) (body cs))
  | '"' :: cs => whole (readBasic? (cs.length + 1) cs)
  | '\'' :: '\'' :: '\'' :: cs => whole (readLines? '\'' false (cs.length + 1) (body cs))
  | '\'' :: cs => whole (readLiteral? cs)
  | _ => none

/-! ## Keys -/

/-- Whether a character may stand in a key without quotes. -/
def isBare (c : Char) : Bool := c.isAlphanum || c == '_' || c == '-'

/-- A key between two points. -/
def readKey? (cs : List Char) : Option (String × List Char) :=
  match cs with
  | '"' :: rest => (readBasic? (rest.length + 1) rest).map fun (t, rest) => (String.ofList t, rest)
  | '\'' :: rest => (readLiteral? rest).map fun (t, rest) => (String.ofList t, rest)
  | _ =>
    let word := cs.takeWhile isBare
    if word.isEmpty then none else some (String.ofList word, cs.dropWhile isBare)

/-- Lists and tables may be nested this deep, and a dotted key may have this many parts. -/
def maxNesting : Nat := 79

/-- The keys of a dotted key, at most `most` of them; blanks may stand around the points. -/
def readKeys? : Nat → List Char → Option (List String × List Char)
  | 0, _ => none
  | most + 1, cs => do
    let (key, rest) ← readKey? (skipSpace cs)
    match skipSpace rest with
    | '.' :: rest =>
      let (keys, rest) ← readKeys? most rest
      return (key :: keys, rest)
    | rest => return ([key], rest)

/-- The keys of a dotted key. -/
def readPath? (cs : List Char) : Option (List String × List Char) := readKeys? maxNesting cs

/-! ## Numbers -/

/-- Digits of a number: single underscores may stand between them. -/
def readDigits? (isDigit : Char → Bool) : List Char → Option (List Char × List Char)
  | [] => none
  | c :: '_' :: rest =>
    if isDigit c then (readDigits? isDigit rest).map fun (ds, rest) => (c :: ds, rest) else none
  | c :: cs =>
    if isDigit c then
      match readDigits? isDigit cs with
      | some (ds, rest) => some (c :: ds, rest)
      | none => some ([c], cs)
    else none

def readSign (cs : List Char) : Bool × List Char :=
  match cs with
  | '-' :: cs => (true, cs)
  | '+' :: cs => (false, cs)
  | cs => (false, cs)

/-- A whole number with its value in range. -/
def wholeIn (n : Int) (rest : List Char) : Option (Toml × List Char) :=
  if -0x8000000000000000 ≤ n ∧ n < 0x8000000000000000 then some (.int n, rest) else none

/-- A whole number in another base than ten, after its mark. -/
def readBased? (base : Nat) (cs : List Char) : Option (Toml × List Char) := do
  let isDigit (c : Char) : Bool := (hexDigit? c).any fun d => decide (d < base)
  let (ds, rest) ← readDigits? isDigit cs
  let n := ds.foldl (fun n c => n * base + (hexDigit? c).getD 0) 0
  wholeIn n rest

/-- The digits before the point of a number; a leading zero stands alone. -/
def readWhole? (cs : List Char) : Option (List Char × List Char) :=
  match cs with
  | '0' :: rest => some (['0'], rest)
  | _ => readDigits? Char.isDigit cs

def readExponent? (cs : List Char) : Option (Option Int × List Char) :=
  match cs with
  | c :: rest =>
    if c = 'e' ∨ c = 'E' then do
      let (negative, rest) := readSign rest
      let (ds, rest) ← readDigits? Char.isDigit rest
      let n : Int := Decimal.naturalOf ds
      return (some (if negative then -n else n), rest)
    else some (none, cs)
  | [] => some (none, cs)

/-- A number with a point or an exponent, or a named one. No number may round to infinity. -/
def readFloat? (cs : List Char) : Option (Toml × List Char) := do
  let (negative, cs) := readSign cs
  let signed (x : Number) : Number := if negative then -x else x
  match cs with
  | 'i' :: 'n' :: 'f' :: rest => return (.float (signed .infinity), rest)
  | 'n' :: 'a' :: 'n' :: rest => return (.float .nan, rest)
  | _ =>
    let (whole, rest) ← readWhole? cs
    let (places, rest) ← (match rest with
      | '.' :: after => (readDigits? Char.isDigit after).map fun (ds, r) => (some ds, r)
      | _ => some (none, rest) : Option (Option (List Char) × List Char))
    let (e, rest) ← readExponent? rest
    if places.isNone && e.isNone then none
    let ds := places.getD []
    let x := signed (Decimal.toNumber (Decimal.naturalOf (whole ++ ds)) (e.getD 0 - ds.length))
    if x.isInf && !negative then none
    return (.float x, rest)

def readInt? (cs : List Char) : Option (Toml × List Char) :=
  match cs with
  | '0' :: 'x' :: rest => readBased? 16 rest
  | '0' :: 'o' :: rest => readBased? 8 rest
  | '0' :: 'b' :: rest => readBased? 2 rest
  | _ => do
    let (negative, cs) := readSign cs
    let (ds, rest) ← readWhole? cs
    let n : Int := Decimal.naturalOf ds
    wholeIn (if negative then -n else n) rest

/-! ## Dates and times -/

/-- A number of exactly `count` digits between two bounds. -/
def readField? (count low high : Nat) (cs : List Char) : Option (Nat × List Char) :=
  let ds := cs.take count
  let n := Decimal.naturalOf ds
  if ds.length = count ∧ ds.all Char.isDigit ∧ low ≤ n ∧ n ≤ high then some (n, cs.drop count)
  else none

/-- The characters after a given one. -/
def expect? (c : Char) (cs : List Char) : Option (List Char) :=
  match cs with
  | d :: rest => if d = c then some rest else none
  | [] => none

def daysIn (year month : Nat) : Nat :=
  if month = 2 then
    if year % 4 = 0 ∧ (year % 100 ≠ 0 ∨ year % 400 = 0) then 29 else 28
  else if month = 4 ∨ month = 6 ∨ month = 9 ∨ month = 11 then 30
  else 31

/-- The rest after a date. -/
def readDate? (cs : List Char) : Option (List Char) := do
  let (year, cs) ← readField? 4 0 9999 cs
  let (month, cs) ← readField? 2 1 12 (← expect? '-' cs)
  let (_, cs) ← readField? 2 1 (daysIn year month) (← expect? '-' cs)
  return cs

/-- The rest after a time of day. -/
def readTime? (cs : List Char) : Option (List Char) := do
  let (_, cs) ← readField? 2 0 23 cs
  let (_, cs) ← readField? 2 0 59 (← expect? ':' cs)
  let (_, cs) ← readField? 2 0 60 (← expect? ':' cs)
  match cs with
  | '.' :: rest =>
    if (rest.takeWhile Char.isDigit).isEmpty then none else return rest.dropWhile Char.isDigit
  | _ => return cs

/-- The rest after the offset of a time, which may be missing. -/
def readOffset? (cs : List Char) : Option (List Char) :=
  match cs with
  | 'Z' :: rest => some rest
  | 'z' :: rest => some rest
  | c :: rest =>
    if c = '+' ∨ c = '-' then do
      let (_, cs) ← readField? 2 0 23 rest
      let (_, cs) ← readField? 2 0 59 (← expect? ':' cs)
      return cs
    else some cs
  | [] => some []

def readMoment? (cs : List Char) : Option (Toml × List Char) :=
  let moment (rest : List Char) : Toml × List Char :=
    (.moment (String.ofList (cs.take (cs.length - rest.length))), rest)
  match readDate? cs with
  | some after =>
    let withTime : Option (List Char) :=
      match after with
      | c :: rest => if c = 'T' ∨ c = 't' ∨ c = ' ' then readTime? rest else none
      | [] => none
    match withTime with
    | some rest => (readOffset? rest).map moment
    | none => some (moment after)
  | none => (readTime? cs).map moment

def readNumber? (cs : List Char) : Option (Toml × List Char) :=
  ((readMoment? cs).orElse fun _ => readFloat? cs).orElse fun _ => readInt? cs

end Obsplan.Toml
