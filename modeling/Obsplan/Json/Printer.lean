import Obsplan.Decimal.Layout
import Obsplan.Text.Quoted
import Obsplan.Json.Basic

/-!
# Writing JSON

Values are written compactly, or over several lines with an indentation of two spaces.
-/

namespace Obsplan.Json

/-- A character as it stands in a text: quotes, backslashes and control characters are escaped. -/
def escapeChar (c : Char) : String :=
  match c with
  | '"' => "\\\""
  | '\\' => "\\\\"
  | '\x08' => "\\b"
  | '\t' => "\\t"
  | '\n' => "\\n"
  | '\x0c' => "\\f"
  | '\r' => "\\r"
  | _ =>
    if c.toNat < 0x10 then "\\u000" ++ Text.hex c.toNat
    else if c.toNat < 0x20 then "\\u00" ++ Text.hex c.toNat
    else String.ofList [c]

/-- A text in quotes. -/
def quote (s : String) : String := "\"" ++ String.join (s.toList.map escapeChar) ++ "\""

/-- A number; infinite and undefined numbers have no text of their own. -/
def number (x : Number) : String := if x.isFinite then Decimal.jsonLayout.write x else "null"

mutual

/-- A value without blanks. -/
def compact : Json → String
  | .null => "null"
  | .bool b => if b then "true" else "false"
  | .int n => toString n
  | .float x => number x
  | .text s => quote s
  | .list items => "[" ++ ",".intercalate (compactItems items) ++ "]"
  | .object fields => "\x7b" ++ ",".intercalate (compactFields fields) ++ "\x7d"
  | .unreadable => "null"

def compactItems : List Json → List String
  | [] => []
  | j :: js => compact j :: compactItems js

def compactFields : List (String × Json) → List String
  | [] => []
  | (name, j) :: fields => (quote name ++ ":" ++ compact j) :: compactFields fields

end

/-- The start of a line at a nesting level. -/
def lineStart (level : Nat) : String := "\n" ++ String.ofList (List.replicate (2 * level) ' ')

/-- Parts on lines of their own between two brackets that stand at a nesting level. -/
def onLines (opening closing : String) (level : Nat) (parts : List String) : String :=
  if parts.isEmpty then opening ++ closing
  else
    let start := lineStart (level + 1)
    opening ++ start ++ ("," ++ start).intercalate parts ++ lineStart level ++ closing

mutual

/-- A value over several lines, at a nesting level. -/
def prettyAt (level : Nat) : Json → String
  | .list items => onLines "[" "]" level (prettyItems (level + 1) items)
  | .object fields => onLines "\x7b" "\x7d" level (prettyFields (level + 1) fields)
  | .null => "null"
  | .bool b => if b then "true" else "false"
  | .int n => toString n
  | .float x => number x
  | .text s => quote s
  | .unreadable => "null"

def prettyItems (level : Nat) : List Json → List String
  | [] => []
  | j :: js => prettyAt level j :: prettyItems level js

def prettyFields (level : Nat) : List (String × Json) → List String
  | [] => []
  | (name, j) :: fields =>
    (quote name ++ ": " ++ prettyAt level j) :: prettyFields level fields

end

def pretty (j : Json) : String := prettyAt 0 j

end Obsplan.Json
