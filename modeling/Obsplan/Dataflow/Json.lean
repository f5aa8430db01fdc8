import Obsplan.Dataflow.Basic
import Obsplan.Observable.Json
import Obsplan.Scale.Json

/-!
# Dataflows in JSON
-/

namespace Obsplan

def JobKind.ofJson? (j : Json) : Option JobKind :=
  j.word?.bind fun s => [JobKind.observe, .resolve, .reference].find? fun k => k.name == s

namespace Actuator

/-- An actuator as JSON, from its job and its children in JSON. -/
def fieldsOf (j : Job Number) (children : List Json) : List (String × Json) :=
  [("id", j.id.toJson), ("observable", j.observable.toJson), ("kind", .text j.kind.name),
    ("scale", j.scale.toJson)] ++
  Json.optionalField "strategy" (j.strategy.map .text) ++
  [("computation", .list (j.computation.map Call.toJson)), ("children", .list children),
    ("coverage", j.coverage.toJson)] ++
  Json.optionalField "parameters"
    (if j.parameters.isEmpty then none else some j.parameters.toJson) ++
  Json.optionalField "reference" (j.reference.map Identifier.toJson)

mutual

def toJson : Actuator Number → Json
  | .mk j children => .object (fieldsOf j (listToJson children))

def listToJson : List (Actuator Number) → List Json
  | [] => []
  | a :: as => toJson a :: listToJson as

end

/-- The actuator of a JSON record nested at most `fuel` deep. -/
def ofJsonWithin? : Nat → Json → Option (Actuator Number)
  | 0, _ => none
  | fuel + 1, j => do
    let r ← j.record? ["id", "observable", "kind", "scale", "strategy", "computation", "children",
      "coverage", "parameters", "reference"]
    let job : Job Number := {
      id := ← r.get? "id" Identifier.ofJson?
      observable := ← r.get? "observable" Observable.ofJson?
      kind := ← r.get? "kind" JobKind.ofJson?
      scale := ← r.get? "scale" Scale.ofJson?
      strategy := ← r.option? "strategy" Json.text?
      computation := ← r.getOr? "computation" [] (Json.listOf? Call.ofJson?)
      coverage := ← r.get? "coverage" Coverage.ofJson?
      parameters := ← r.getOr? "parameters" {} Parameters.ofJson?
      reference := ← r.option? "reference" Identifier.ofJson? }
    return .mk job (← r.getOr? "children" [] (Json.listOf? (ofJsonWithin? fuel)))

def ofJson? (j : Json) : Option (Actuator Number) := ofJsonWithin? j.depth j

end Actuator

namespace Dataflow

def toJson (d : Dataflow Number) : Json :=
  .object <|
    [("actuators", .list (Actuator.listToJson d.actuators)), ("coverage", d.coverage.toJson),
      ("requirements", .list (d.requirements.toList.map .text))] ++
    Json.optionalField "target" (d.target.map Identifier.toJson) ++
    Json.optionalField "observable" (d.observable.map Observable.toJson) ++
    [("notifications", .list (d.notifications.map Notification.toJson))]

def ofJson? (j : Json) : Option (Dataflow Number) := do
  let r ← j.record? ["actuators", "coverage", "requirements", "target", "observable",
    "notifications"]
  return {
    actuators := ← r.get? "actuators" (Json.listOf? Actuator.ofJson?)
    coverage := ← r.get? "coverage" Coverage.ofJson?
    requirements := .ofList (← r.getOr? "requirements" [] (Json.listOf? Json.text?))
    target := ← r.option? "target" Identifier.ofJson?
    observable := ← r.option? "observable" Observable.ofJson?
    notifications := ← r.getOr? "notifications" [] (Json.listOf? Notification.ofJson?) }

end Dataflow

end Obsplan
