import Obsplan.Json.Printer
import Obsplan.Observable.Json
import Obsplan.Scale.Json
import Obsplan.Twin.Basic

/-!
# Twins in JSON

The observable of an observation is written as its definition, so its default value is left out.
-/

namespace Obsplan

namespace Observation

def toJson (o : Observation Number) : Json :=
  .object [("id", o.id.toJson), ("observable", .text o.observable.text),
    ("scale", o.scale.toJson), ("coverage", o.coverage.toJson),
    ("value", (o.value.map Value.toJson).getD .null), ("resolved", .bool o.resolved)]

def ofJson? (j : Json) : Option (Observation Number) := do
  let r ← j.record? ["id", "observable", "scale", "coverage", "value", "resolved"]
  return {
    id := ← r.get? "id" Identifier.ofJson?
    observable := ← r.get? "observable" fun j =>
      j.text?.bind fun s => (Observable.ofText s).toOption
    scale := ← r.get? "scale" Scale.ofJson?
    coverage := ← r.get? "coverage" Coverage.ofJson?
    value := ← r.option? "value" Value.ofJson?
    resolved := ← r.get? "resolved" Json.bool? }

end Observation

def Json.word64? (j : Json) : Option UInt64 := j.nat64?.map UInt64.ofNat

namespace ActivityKind

def name : ActivityKind → String
  | .resolution => "Resolution"
  | .contextualization => "Contextualization"

/-- The kind of activity that a word stands for. -/
def ofName? (s : String) : Option ActivityKind :=
  [ActivityKind.resolution, .contextualization].find? fun k => k.name == s

end ActivityKind

namespace Status

def toJson : Status → Json
  | .running => .text "Running"
  | .succeeded => .text "Succeeded"
  | .failed message => .object [("Failed", .text message)]
  | .cancelled => .text "Cancelled"

def ofJson? (j : Json) : Option Status := do
  match ← j.case? with
  | ("Failed", some content) => return .failed (← content.text?)
  | ("Failed", none) => none
  | _ =>
    match ← j.word? with
    | "Running" => return .running
    | "Succeeded" => return .succeeded
    | "Cancelled" => return .cancelled
    | _ => none

end Status

namespace Activity

def toJson (a : Activity) : Json :=
  .object [("id", .int a.id.toNat), ("kind", .text a.kind.name),
    ("description", .text a.description), ("outcome", a.status.toJson)]

def ofJson? (j : Json) : Option Activity := do
  let r ← j.record? ["id", "kind", "description", "outcome"]
  return {
    id := ← r.get? "id" Json.word64?
    kind := ← r.get? "kind" fun j => j.word?.bind ActivityKind.ofName?
    description := ← r.get? "description" Json.text?
    status := ← r.get? "outcome" Status.ofJson? }

end Activity

namespace TwinNode

def toJson : TwinNode Number → Json
  | .observation o => .object [("Observation", o.toJson)]
  | .activity a => .object [("Activity", a.toJson)]
  | .agent name => .object [("Agent", .object [("name", .text name)])]

def ofJson? (j : Json) : Option (TwinNode Number) := do
  match ← j.case? with
  | ("Observation", some content) => return .observation (← Observation.ofJson? content)
  | ("Activity", some content) => return .activity (← Activity.ofJson? content)
  | ("Agent", some content) =>
    return .agent (← (← content.record? ["name"]).get? "name" Json.text?)
  | _ => none

end TwinNode

namespace NodeKey

def toJson : NodeKey → Json
  | .observation id => .object [("Observation", id.toJson)]
  | .activity id => .object [("Activity", .int id.toNat)]
  | .agent name => .object [("Agent", .text name)]

def ofJson? (j : Json) : Option NodeKey := do
  match ← j.case? with
  | ("Observation", some content) => return .observation (← Identifier.ofJson? content)
  | ("Activity", some content) => return .activity (← content.word64?)
  | ("Agent", some content) => return .agent (← content.text?)
  | _ => none

end NodeKey

namespace Relationship

/-- The word for a relationship in JSON. -/
def wordOf : Relationship → String
  | .generated => "Generated"
  | .associatedWith => "AssociatedWith"
  | .childOf => "ChildOf"
  | .used => "Used"

def ofJson? (j : Json) : Option Relationship :=
  j.word?.bind fun s =>
    [Relationship.generated, .associatedWith, .childOf, .used].find? fun r => r.wordOf == s

end Relationship

namespace Edge

def toJson (e : Edge) : Json :=
  .list [e.source.toJson, .text e.relationship.wordOf, e.target.toJson]

def ofJson? : Json → Option Edge
  | .list [source, relationship, target] => do
    return ⟨← NodeKey.ofJson? source, ← Relationship.ofJson? relationship,
      ← NodeKey.ofJson? target⟩
  | _ => none

end Edge

namespace Snapshot

def toJson (s : Snapshot Number) : Json :=
  .object [("nodes", .list (s.nodes.map TwinNode.toJson)),
    ("edges", .list (s.edges.map Edge.toJson))]

def ofJson? (j : Json) : Option (Snapshot Number) := do
  let r ← j.record? ["nodes", "edges"]
  return {
    nodes := ← r.get? "nodes" (Json.listOf? TwinNode.ofJson?)
    edges := ← r.get? "edges" (Json.listOf? Edge.ofJson?) }

end Snapshot

def Twin.text (t : Twin Number) : String := t.snapshot.toJson.pretty

end Obsplan
