import Obsplan.Arrange
import Obsplan.Expression
import Obsplan.Keyed
import Obsplan.Model.Call
import Obsplan.Observable.Basic
import Obsplan.Scale.Basic

/-!
# Components

Components are the functions that calls name. A registry holds them by name; the built-in functions
have components of their own.
-/

namespace Obsplan

variable {α : Type} [Coordinate α]

/-- What a component sees of a run. -/
structure StepInput (α : Type) [Coordinate α] where
  observable : Observable
  /-- The scale it is computed over. -/
  scale : Scale α
  /-- The values of the dependencies by name, in the order of their declaration. -/
  dependencies : List (String × Option Value) := []
  /-- The output of the call before, if it had one. -/
  previous : Option Value := none

/-- The value of the first dependency of a name. -/
def StepInput.dependency? (input : StepInput α) (name : String) : Option Value :=
  (input.dependencies.lookup name).join

/-- How a component answers. -/
inductive Reply where
  /-- With a value, or with nothing to observe. -/
  | output (value : Option Value)
  /-- With a failure. -/
  | failure (message : String)
  /-- With a value, and it asks the run to stop. -/
  | stop (value : Option Value)
  /-- Not at all: it breaks down. -/
  | breakdown

/-- A function that calls can name. -/
abbrev Component (α : Type) [Coordinate α] := Call → StepInput α → Reply

namespace Component

/-- Yields the constant of the call. -/
def constant : Component α := fun call _ =>
  match call.parameters.get? "value" with
  | some v => .output (some v)
  | none => .failure "missing `value` parameter"

/-- Yields the names of the resources of the call. -/
def resources : Component α := fun call _ =>
  match call.parameters.get? "urns" with
  | some (.list (u :: us)) => .output (some (.list (u :: us)))
  | some (.text u) => .output (some (.list [.text u]))
  | _ => .failure "no resource urns given"

/-- Yields the output of the call before together with the table it is reclassified by. -/
def lookup : Component α := fun call input =>
  match ["lookupTable", "classification", "accordingTo"].findSome? call.parameters.get? with
  | none => .failure "no lookup table, classification or authority given"
  | some table =>
    .output (input.previous.map fun previous => .map [("table", table), ("value", previous)])

/-- The number that a name stands for in an expression: the output of the call before for `self`,
otherwise the value of a dependency. -/
def numberOf? (input : StepInput α) (name : String) : Option Number :=
  if name = "self" then input.previous.bind Value.asNumber?
  else (input.dependency? name).bind Value.asNumber?

/-- Yields the value of the expression of the call. -/
def expression : Component α := fun call input =>
  match (call.parameters.get? "expression").bind Value.asText? with
  | none => .failure "missing `expression` parameter"
  | some source =>
    match Expression.evaluate source (numberOf? input) with
    | .ok x => .output (some (.float x))
    | .error e => .failure e.message

/-- Yields nothing: what is deferred is left to a later request. -/
def deferred : Component α := fun _ _ => .output none

/-- The component of a built-in function. -/
def ofBuiltIn : BuiltIn → Component α
  | .resources => resources
  | .lookup => lookup
  | .expression => expression
  | .constant => constant
  | .deferred => deferred

end Component

/-- Components by the name that calls name them by. -/
structure Registry (α : Type) [Coordinate α] where
  components : Keyed String (Component α) := .empty

namespace Registry

/-- The registry with one more component; it replaces the one of the same name. -/
def register (r : Registry α) (name : String) (c : Component α) : Registry α :=
  ⟨r.components.insert name c⟩

def get? (r : Registry α) (name : String) : Option (Component α) := r.components.get? name

def names (r : Registry α) : List String := arrangeTexts r.components.keys

/-- The registry of the built-in functions. -/
def builtIn : Registry α :=
  BuiltIn.all.foldl (fun r f => r.register f.callName (Component.ofBuiltIn f)) {}

end Registry

end Obsplan
