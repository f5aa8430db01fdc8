import Obsplan.Decimal.Layout
import Obsplan.Text.Quoted

/-!
# Writing settings

Texts are written in the first form that needs no escapes: in quotation marks, in apostrophes, over
several lines in quotation marks, or over several lines in apostrophes. When there is none,
quotation marks with escapes are used.
-/

namespace Obsplan.Toml

/-- The length of the longest run of a character. `run` is the length of the run being read. -/
def longestRun (mark : Char) (run : Nat) : List Char → Nat
  | [] => run
  | c :: cs => if c = mark then longestRun mark (run + 1) cs else max run (longestRun mark 0 cs)

/-- Whether a character can only be written by an escape. -/
def needsEscape (c : Char) : Bool :=
  c != '\t' && c != '\n' && (decide (c.toNat < 0x20) || c.toNat == 0x7F)

/-- Four hexadecimal digits in upper case. -/
def hex4 (n : Nat) : String :=
  let ds := (Nat.toDigits 16 n).map Char.toUpper
  String.ofList (List.replicate (4 - ds.length) '0' ++ ds)

/-- Characters inside quotation marks; `quotes` more of them may follow each other unescaped, and
line ends may stay when the text goes over several lines. -/
def escapeIn (lines : Bool) (allowed : Nat) : Nat → List Char → List String
  | _, [] => []
  | quotes, c :: cs =>
    if c = '"' then
      if quotes = 0 then "\\\"" :: escapeIn lines allowed allowed cs
      else "\"" :: escapeIn lines allowed (quotes - 1) cs
    else
      let shown :=
        match c with
        | '\x08' => "\\b"
        | '\t' => "\\t"
        | '\n' => if lines then "\n" else "\\n"
        | '\x0c' => "\\f"
        | '\r' => "\\r"
        | '\\' => "\\\\"
        | _ => if needsEscape c then "\\u" ++ hex4 c.toNat else String.ofList [c]
      shown :: escapeIn lines allowed allowed cs

/-- A text in quotation marks, with escapes where they are needed. -/
def basic (s : String) : String := "\"" ++ String.join (escapeIn false 0 0 s.toList) ++ "\""

/-- A text over several lines in quotation marks, with escapes where they are needed. -/
def basicLines (s : String) : String :=
  let start := if s.toList.contains '\n' then "\n" else ""
  "\"\"\"" ++ start ++ String.join (escapeIn true 2 2 s.toList) ++ "\"\"\""

/-- A text as the value of a setting. -/
def quote (s : String) : String :=
  let cs := s.toList
  let codes := cs.any needsEscape
  let hasBackslash := cs.contains '\\'
  let hasLineEnd := cs.contains '\n'
  let quotes := longestRun '"' 0 cs
  let apostrophes := longestRun '\'' 0 cs
  if !codes && !hasBackslash && quotes == 0 && !hasLineEnd then basic s
  else if !codes && apostrophes == 0 && !hasLineEnd then "'" ++ s ++ "'"
  else if !codes && !hasBackslash && decide (quotes ≤ 2) then basicLines s
  else if !codes && decide (apostrophes ≤ 2) then
    "'''" ++ (if hasLineEnd then "\n" else "") ++ s ++ "'''"
  else if hasLineEnd then basicLines s
  else basic s

/-- A number as the value of a setting. -/
def number (x : Number) : String :=
  if x.isNaN then "nan" else Decimal.settingLayout.write x

/-- A setting on a line of its own. -/
def line (key value : String) : String := key ++ " = " ++ value ++ "\n"

end Obsplan.Toml
