import Obsplan.Text.Hidden

/-!
# Quoted text

Texts in values and messages are quoted: quotes, backslashes and the common control characters are
escaped by a backslash, and hidden characters are written by their code point.
-/

namespace Obsplan.Text

/-- A natural in hexadecimal digits, in lower case. -/
def hex (n : Nat) : String := String.ofList (Nat.toDigits 16 n)

/-- A character by its code point. -/
def codePoint (c : Char) : String := "\\u\x7b" ++ hex c.toNat ++ "\x7d"

/-- A character as it stands inside the quotation mark `quote`. -/
def escapeChar (quote : Char) (c : Char) : String :=
  if c = quote then String.ofList ['\\', c]
  else match c with
    | '\x00' => "\\0"
    | '\t' => "\\t"
    | '\r' => "\\r"
    | '\n' => "\\n"
    | '\\' => "\\\\"
    | _ => if isHidden c then codePoint c else String.ofList [c]

/-- A text in double quotes. -/
def quoted (s : String) : String :=
  "\"" ++ String.join (s.toList.map (escapeChar '"')) ++ "\""

/-- A character in single quotes. -/
def quotedChar (c : Char) : String :=
  "'" ++ escapeChar '\'' c ++ "'"

end Obsplan.Text
