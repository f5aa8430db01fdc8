import Obsplan.Text.Set
import Obsplan.Coverage
import Obsplan.Version
import Obsplan.Observable.Basic
import Obsplan.Model.Step

/-!
# Models

A model is a named, versioned way to compute observables: what it produces, what it depends on,
where it applies and how it computes.
-/

namespace Obsplan

variable {α : Type} [Coordinate α]

/-- Something a model needs to have observed. -/
structure Dependency (α : Type) [Coordinate α] where
  observable : Observable
  /-- Whether it is left to the time when the plan runs. -/
  deferred : Bool := false
  /-- The scale to observe it over, when that is not the model's own. -/
  scale : Option (Scale α) := none

/-- A way to compute observables. -/
structure Model (α : Type) [Coordinate α] where
  urn : String
  version : Version := {}
  /-- The namespace; preferred namespaces rank first. -/
  space : String := ""
  project : Option String := none
  /-- What the model produces. -/
  observables : List Observable
  dependencies : List (Dependency α) := []
  /-- Where the model applies; everywhere when nothing is given. -/
  coverage : List (Scale α) := []
  computation : List Step := []
  /-- Models of higher priority rank first. -/
  priority : Int := 0

namespace Dependency

instance : BEq (Dependency α) :=
  ⟨fun d e => d.observable == e.observable && d.deferred == e.deferred && d.scale == e.scale⟩

end Dependency

namespace Model

/-- The model that produces one observable; its namespace is what stands before the last point of
its name. -/
def producing (urn : String) (observable : Observable) : Model α where
  urn
  space := ((Text.splitLast? '.' urn).map Prod.fst).getD ""
  observables := [observable]

/-- Whether the model produces an observable. -/
def produces (m : Model α) (o : Observable) : Bool := m.observables.any (·.sameSemantics o)

/-- The part of a scale that the model claims to cover. -/
def coverageOver (m : Model α) (scale : Scale α) : Coverage α :=
  if m.coverage.isEmpty then .full scale else .ofShapes scale m.coverage

/-- The calls of the computation, in the order of declaration. -/
def calls (m : Model α) : List Call := m.computation.map Step.lower

/-- The resources needed to run the model, itself among them. -/
def requirements (m : Model α) : TextSet :=
  TextSet.ofList (m.urn :: m.computation.flatMap fun s => s.kind.requirements)

/-- The model itself when it has a name and produces something. -/
def validate (m : Model α) : Except CatalogError (Model α) :=
  if (Text.trimBoth Text.isBlank m.urn.toList).isEmpty then
    .error (.malformedModel m.urn "empty URN")
  else if m.observables.isEmpty then .error (.malformedModel m.urn "declares no observables")
  else .ok m

end Model

end Obsplan
