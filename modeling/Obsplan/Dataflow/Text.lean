import Obsplan.Context
import Obsplan.Dataflow.Basic
import Obsplan.Text.Blank

/-!
# The text of dataflows

A plan is written as the name of its context and its roots, each ended by a semicolon. An actuator
tells what it observes, by which model, from which other actuators and by which calls. A plan that
is nested too deeply has no text; a fixed message stands for it.
-/

namespace Obsplan

variable {α : Type} [Coordinate α]

namespace Dataflow

/-- What stands for a plan without a text. -/
def encodingError : String := "Error encoding dataflow"

/-- How many blanks are put before the lines of an actuator and, as `half`, before its parts. -/
def indent (level half : Nat) : String := String.ofList (List.replicate (6 * level + 3 * half) ' ')

def strategyText (level : Nat) (j : Job α) : String :=
  match j.strategy with
  | some urn => "\n" ++ indent level 1 ++ "using " ++ urn
  | none => ""

/-- The calls of an actuator: one call on the same line, several on lines of their own. -/
def computationText (level : Nat) (calls : List Call) : String :=
  match calls with
  | [] => ""
  | [c] => "\n" ++ indent level 1 ++ "apply " ++ c.encode
  | calls =>
    let start := "\n" ++ indent level 2
    "\n" ++ indent level 1 ++ "apply" ++ start ++ ("," ++ start).intercalate (calls.map Call.encode)

def childrenText (level : Nat) (children : List String) : String :=
  if children.isEmpty then ""
  else
    "\n" ++ indent level 1 ++ "(\n" ++ ",\n".intercalate children ++ "\n" ++ indent level 1 ++ ")"

mutual

/-- The text of an actuator at a nesting level of at most `limit`. -/
def actuatorText? (limit level : Nat) : Actuator α → Option String
  | .mk j children =>
    if limit < level then none
    else
      (actuatorTexts? limit (level + 1) children).map fun children =>
        indent level 0 ++ j.kind.name ++ " " ++ j.targetName ++ strategyText level j ++
          childrenText level children ++ computationText level j.computation

/-- The texts of actuators at a nesting level of at most `limit`. -/
def actuatorTexts? (limit level : Nat) : List (Actuator α) → Option (List String)
  | [] => some []
  | a :: as => do
    let here ← actuatorText? limit level a
    let rest ← actuatorTexts? limit level as
    return here :: rest

end

/-! ## Names -/

/-- Letters in lower case. Two letters beyond the basic ones have a basic one in lower case. -/
def lowerChar (c : Char) : Char :=
  if c = '\u0130' then 'i' else if c = '\u212a' then 'k' else c.toLower

/-- Whether a character may stand in the name of a plan. -/
def isNameChar (c : Char) : Bool :=
  decide ('a' ≤ c ∧ c ≤ 'z') || c.isDigit || c == '_' || c == '.' || c == '-'

/-- A character of a name as it stands in the name of a plan. -/
def nameChar? (c : Char) : Option Char :=
  let c := if Text.isBlank c then '.' else lowerChar c
  if isNameChar c then some c else none

/-- The name of a plan for the name of a context: lower-case words with points between them. -/
def nameOf (name : String) : String :=
  let cs := Text.trimBoth (· == '.') ((Text.trim name).toList.filterMap nameChar?)
  if cs.isEmpty then "unnamed" else String.ofList cs

/-- The text of a plan nested at most `limit` levels deep. -/
def text? (limit : Nat) (d : Dataflow α) (ctx : Context α) : Option String :=
  (actuatorTexts? limit 0 d.actuators).map fun roots =>
    "dataflow " ++ nameOf ctx.displayName ++ "\n;" ++
      String.join (roots.map fun root => "\n" ++ root ++ ";")

/-- The text of a plan, or the message that stands for it. -/
def encode (limit : Nat) (d : Dataflow α) (ctx : Context α) : String :=
  (d.text? limit ctx).getD encodingError

end Dataflow

end Obsplan
