import Obsplan.Decimal.Reader
import Obsplan.Text.Alphabetic
import Obsplan.Text.Blank
import Obsplan.Text.Numeric
import Obsplan.Text.Quoted

/-!
# Expressions

Arithmetic over named numbers. A sum adds and subtracts products, a product multiplies and divides
factors from left to right, and a factor is a number, a name, a negated factor or a sum in
parentheses. Blanks may stand between the words of an expression. Parentheses and minus signs in
front of factors nest at most 64 deep. An expression is evaluated while it is read, so the first
trouble from the left is reported.
-/

namespace Obsplan

/-- Why an expression has no value. -/
inductive ExpressionError where
  /-- A character cannot stand where it does. -/
  | unexpected (c : Char)
  /-- The text ends where a factor has to follow. -/
  | endsEarly
  /-- An opening parenthesis is not closed. -/
  | unbalanced
  /-- Parentheses and minus signs nest too deeply. -/
  | nestedTooDeep
  /-- Digits and points form no number. -/
  | badNumber (text : String)
  /-- A name stands for no number. -/
  | noValue (name : String)
  | divisionByZero
  deriving DecidableEq, Repr

namespace Expression

/-- How deep parentheses and minus signs may nest. -/
def maxNesting : Nat := 64

/-- Reads and evaluates the front of a text: the value and what is left. -/
abbrev Reader := List Char → Except ExpressionError (Number × List Char)

def skipBlanks (cs : List Char) : List Char := cs.dropWhile Text.isBlank

/-- Multiplies and divides by the factors that follow, at most `fuel` of them. -/
def factors (factor : Reader) : Nat → Number → Reader
  | 0, x, cs => .ok (x, skipBlanks cs)
  | fuel + 1, x, cs =>
    match skipBlanks cs with
    | '*' :: cs => do
      let (y, cs) ← factor cs
      factors factor fuel (x * y) cs
    | '/' :: cs => do
      let (y, cs) ← factor cs
      if y == 0.0 then .error .divisionByZero else factors factor fuel (x / y) cs
    | cs => .ok (x, cs)

/-- Reads a product; every factor but the first one comes after a character of its own. -/
def product (factor : Reader) : Reader := fun cs => do
  let (x, cs) ← factor cs
  factors factor cs.length x cs

/-- Adds and subtracts the products that follow, at most `fuel` of them. -/
def terms (factor : Reader) : Nat → Number → Reader
  | 0, x, cs => .ok (x, skipBlanks cs)
  | fuel + 1, x, cs =>
    match skipBlanks cs with
    | '+' :: cs => do
      let (y, cs) ← product factor cs
      terms factor fuel (x + y) cs
    | '-' :: cs => do
      let (y, cs) ← product factor cs
      terms factor fuel (x - y) cs
    | cs => .ok (x, cs)

/-- Reads a sum; every product but the first one comes after a character of its own. -/
def sum (factor : Reader) : Reader := fun cs => do
  let (x, cs) ← product factor cs
  terms factor cs.length x cs

/-- Whether a character may stand in a number. -/
def isNumberChar (c : Char) : Bool := c.isDigit || c == '.'

def startsName (c : Char) : Bool := Text.isAlphabetic c || c == '_'

def continuesName (c : Char) : Bool :=
  Text.isAlphabetic c || Text.isNumeric c || c == '_' || c == '.'

/-- Reads the longest number. -/
def readNumber : Reader := fun cs =>
  let text := String.ofList (cs.takeWhile isNumberChar)
  match Decimal.read? text with
  | some x => .ok (x, cs.dropWhile isNumberChar)
  | none => .error (.badNumber text)

/-- Reads the longest name. -/
def readName (value? : String → Option Number) : Reader := fun cs =>
  let name := String.ofList (cs.takeWhile continuesName)
  match value? name with
  | some x => .ok (x, cs.dropWhile continuesName)
  | none => .error (.noValue name)

/-- Reads a factor in which parentheses and minus signs may nest `nesting` deep. -/
def factor (value? : String → Option Number) (nesting : Nat) : Reader := fun cs =>
  match skipBlanks cs with
  | [] => .error .endsEarly
  | c :: cs =>
    if c = '(' then
      match nesting with
      | 0 => .error .nestedTooDeep
      | nesting + 1 => do
        let (x, cs) ← sum (factor value? nesting) cs
        match skipBlanks cs with
        | ')' :: cs => .ok (x, cs)
        | _ => .error .unbalanced
    else if c = '-' then
      match nesting with
      | 0 => .error .nestedTooDeep
      | nesting + 1 => do
        let (x, cs) ← factor value? nesting cs
        .ok (-x, cs)
    else if isNumberChar c then readNumber (c :: cs)
    else if startsName c then readName value? (c :: cs)
    else .error (.unexpected c)

/-- The value of an expression, with the values of names. -/
def evaluate (source : String) (value? : String → Option Number) :
    Except ExpressionError Number := do
  let (x, cs) ← sum (factor value? maxNesting) source.toList
  match skipBlanks cs with
  | [] => .ok x
  | c :: _ => .error (.unexpected c)

end Expression

/-- Why an expression has no value, in words. -/
def ExpressionError.message : ExpressionError → String
  | .unexpected c => "unexpected " ++ Text.quotedChar c ++ " in expression"
  | .endsEarly => "expression ends too early"
  | .unbalanced => "unbalanced parentheses"
  | .nestedTooDeep => s!"expression nested deeper than {Expression.maxNesting}"
  | .badNumber text => "bad number " ++ Text.quoted text
  | .noValue name => "no numeric value for " ++ Text.quoted name
  | .divisionByZero => "division by zero"

end Obsplan
