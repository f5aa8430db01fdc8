import Obsplan.Value.Json

/-!
# Service calls

A computation is a list of calls: named functions with ordered parameters. A few functions are built
into every planner; all others are supplied by its host.
-/

namespace Obsplan

/-- One call of a named function. -/
structure Call where
  name : String
  parameters : Parameters := {}

/-- The functions that are built in. -/
inductive BuiltIn where
  /-- Binds an observation to external resources. -/
  | resources
  /-- Reclassifies the previous value by a table. -/
  | lookup
  /-- Computes with the values of dependencies. -/
  | expression
  /-- Yields a constant. -/
  | constant
  /-- Leaves an observation to a later request. -/
  | deferred
  deriving DecidableEq, Repr

namespace BuiltIn

def all : List BuiltIn := [.resources, .lookup, .expression, .constant, .deferred]

def callName : BuiltIn → String
  | .resources => "core.urn.resolver"
  | .lookup => "core.lut.resolver"
  | .expression => "core.expression.resolver"
  | .constant => "core.constant.resolver"
  | .deferred => "core.deferred"

def ofCallName? (name : String) : Option BuiltIn := all.find? fun f => f.callName == name

def call (f : BuiltIn) : Call := { name := f.callName }

end BuiltIn

namespace Call

instance : BEq Call := ⟨fun c d => c.name == d.name && c.parameters == d.parameters⟩

/-- The call with one more parameter. -/
def set (c : Call) (name : String) (value : Value) : Call :=
  { c with parameters := c.parameters.insert name value }

def isBuiltIn (c : Call) : Bool := (BuiltIn.ofCallName? c.name).isSome

/-- A call as it stands in encoded plans. -/
def encode (c : Call) : String := c.name ++ "(" ++ c.parameters.display ++ ")"

def toJson (c : Call) : Json :=
  .object <| ("name", .text c.name) ::
    Json.optionalField "parameters"
      (if c.parameters.isEmpty then none else some c.parameters.toJson)

def ofJson? (j : Json) : Option Call := do
  let r ← j.record? ["name", "parameters"]
  return {
    name := ← r.get? "name" Json.text?
    parameters := ← r.getOr? "parameters" {} Parameters.ofJson? }

end Call

end Obsplan
