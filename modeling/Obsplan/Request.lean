import Obsplan.Candidate
import Obsplan.Dataflow.Json
import Obsplan.Failure
import Obsplan.Json.Printer
import Obsplan.Json.Reader

/-!
# Requests and responses

What callers send and get: an observable to resolve, over a scale and under constraints of its own,
and the plan that was made for it.
-/

namespace Obsplan

/-- A request to resolve an observable. -/
structure Request where
  /-- The definition of the observable. -/
  observation : String
  /-- The scale to resolve over, when that is not the one of the context. -/
  scale : Option (Scale Number) := none
  constraints : Constraints := {}

namespace Request

/-- The observable of a definition. A definition that the reasoner rejects makes the request
invalid, a reasoner that fails is a failure of its own. -/
def observableOf (sources : Sources Number) (definition : String) :
    Except ResolutionError Observable :=
  match sources.observable definition with
  | .ok o => .ok o
  | .error (.malformedDefinition d message) =>
    .error (.invalidRequest (CatalogError.malformedDefinition d message).message)
  | .error (.notFound urn) => .error (.invalidRequest (CatalogError.notFound urn).message)
  | .error e => .error (.infrastructure definition e)

def observable (r : Request) (sources : Sources Number) : Except ResolutionError Observable :=
  observableOf sources r.observation

def toJson (r : Request) : Json :=
  .object <| [("observation", .text r.observation)] ++
    Json.optionalField "scale" (r.scale.map Scale.toJson) ++
    [("resolution_constraints", r.constraints.toJson)]

def ofJson? (j : Json) : Option Request := do
  let r ← j.record? ["observation", "scale", "resolution_constraints"]
  return {
    observation := ← r.get? "observation" Json.text?
    scale := ← r.option? "scale" Scale.ofJson?
    constraints := ← r.getOr? "resolution_constraints" {} Constraints.ofJson? }

/-- The request of a JSON text. -/
def ofText (text : String) : Except ResolutionError Request :=
  match (Json.read? text).bind ofJson? with
  | some r => .ok r
  | none => .error (.invalidRequest "malformed request")

end Request

/-- The answer to a request. -/
structure Response where
  dataflow : Dataflow Number
  /-- The text of the plan. -/
  encoded : String
  /-- Whether the plan covers the scale but for the tolerated fraction. -/
  complete : Bool
  coverage : Number
  notifications : List Notification

namespace Response

instance : BEq Response where
  beq a b := a.dataflow == b.dataflow && a.encoded == b.encoded && a.complete == b.complete &&
    a.coverage == b.coverage && a.notifications == b.notifications

def toJson (r : Response) : Json :=
  .object [("dataflow", r.dataflow.toJson), ("encoded", .text r.encoded),
    ("complete", .bool r.complete), ("coverage", .float r.coverage),
    ("notifications", .list (r.notifications.map Notification.toJson))]

def ofJson? (j : Json) : Option Response := do
  let r ← j.record? ["dataflow", "encoded", "complete", "coverage", "notifications"]
  return {
    dataflow := ← r.get? "dataflow" Dataflow.ofJson?
    encoded := ← r.get? "encoded" Json.text?
    complete := ← r.get? "complete" Json.bool?
    coverage := ← r.get? "coverage" Json.float?
    notifications := ← r.get? "notifications" (Json.listOf? Notification.ofJson?) }

def text (r : Response) : String := r.toJson.pretty

/-- Whether the text of a response reads back as an equal response. -/
def readsBack (r : Response) : Bool := (Json.read? r.text).bind ofJson? == some r

end Response

end Obsplan
