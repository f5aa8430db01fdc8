import Obsplan.Concept
import Obsplan.Value.Basic

/-!
# Observables

An observable asks for something to be observed: a concept with qualifiers.
-/

namespace Obsplan

/-- How the concept of an observable has to match what a model produces. -/
inductive Matching where
  /-- Only models that produce the concept itself. -/
  | exact
  /-- Also models that produce a concept below it. -/
  | any
  deriving DecidableEq, Repr

/-- A semantic query. -/
structure Observable where
  concept : Concept
  /-- The name given to the observable in a request or model. -/
  statedName : Option String := none
  /-- Whether it is spread over a population. -/
  collective : Bool := false
  /-- Whether a model can do without it. -/
  optional : Bool := false
  /-- What stands in when nothing produces the observable. -/
  defaultValue : Option Value := none
  mode : Matching := .exact

namespace Observable

instance : BEq Observable where
  beq a b := a.concept == b.concept && a.statedName == b.statedName &&
    a.collective == b.collective && a.optional == b.optional &&
    a.defaultValue == b.defaultValue && a.mode == b.mode

def urn (o : Observable) : String :=
  if o.collective then "each " ++ o.concept.urn else o.concept.urn

/-- What identifies the observable in a search. Optionality, names and defaults do not change what
is observed. -/
def key (o : Observable) : String :=
  match o.mode with
  | .exact => o.urn
  | .any => "any " ++ o.urn

/-- Whether two observables ask for the same thing. -/
def sameSemantics (o other : Observable) : Bool :=
  o.concept == other.concept && o.collective == other.collective

end Observable

end Obsplan
