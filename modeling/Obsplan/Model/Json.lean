import Obsplan.Observable.Json
import Obsplan.Scale.Json
import Obsplan.Model.Basic

/-!
# Models in JSON

A dependency is written with all its parts; it is also read from a bare observable.
-/

namespace Obsplan

namespace Dependency

def toJson (d : Dependency Number) : Json :=
  .object <| [("observable", d.observable.toJson), ("deferred", .bool d.deferred)] ++
    Json.optionalField "scale" (d.scale.map Scale.toJson)

/-- The dependency of the fields of an object. -/
def ofFields? (fields : List (String × Json)) : Option (Dependency Number) := do
  let r ← Json.objectRecord? ["observable", "deferred", "scale"] fields
  return {
    observable := ← r.get? "observable" Observable.ofJson?
    deferred := ← r.getOr? "deferred" false Json.bool?
    scale := ← r.option? "scale" Scale.ofJson? }

/-- The dependency of JSON: an observable, or else an object all of whose parts can be read. -/
def ofJson? (j : Json) : Option (Dependency Number) := do
  let j ← j.readable?
  match Observable.ofJson? j, j with
  | some observable, _ => return { observable }
  | none, .object fields => ofFields? fields
  | none, _ => none

end Dependency

namespace Model

def toJson (m : Model Number) : Json :=
  .object <|
    [("urn", .text m.urn), ("version", .text m.version.text), ("namespace", .text m.space)] ++
    Json.optionalField "project" (m.project.map .text) ++
    [("observables", .list (m.observables.map Observable.toJson)),
      ("dependencies", .list (m.dependencies.map Dependency.toJson)),
      ("coverage", .list (m.coverage.map Scale.toJson)),
      ("computation", .list (m.computation.map Step.toJson)),
      ("priority", .int m.priority)]

def ofJson? (j : Json) : Option (Model Number) := do
  let r ← j.record? ["urn", "version", "namespace", "project", "observables", "dependencies",
    "coverage", "computation", "priority"]
  return {
    urn := ← r.get? "urn" Json.text?
    version := ← r.getOr? "version" {} Version.ofJson?
    space := ← r.getOr? "namespace" "" Json.text?
    project := ← r.option? "project" Json.text?
    observables := ← r.get? "observables" (Json.listOf? Observable.ofJson?)
    dependencies := ← r.getOr? "dependencies" [] (Json.listOf? Dependency.ofJson?)
    coverage := ← r.getOr? "coverage" [] (Json.listOf? Scale.ofJson?)
    computation := ← r.getOr? "computation" [] (Json.listOf? Step.ofJson?)
    priority := ← r.getOr? "priority" 0 (Json.int? (-0x80000000) 0x7FFFFFFF) }

end Model

end Obsplan
