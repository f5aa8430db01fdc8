import Obsplan.Value.Json
import Obsplan.Observable.Definition

/-!
# Observables in JSON

An observable is written with all its parts; it is also read from its definition.
-/

namespace Obsplan.Matching

def name : Matching → String
  | .exact => "exact"
  | .any => "any"

/-- The way to match that a word stands for. -/
def ofJson? (j : Json) : Option Matching :=
  match j.word? with
  | some "exact" => some .exact
  | some "any" => some .any
  | _ => none

end Obsplan.Matching

namespace Obsplan.Observable

def toJson (o : Observable) : Json :=
  .object <|
    [("concept", .text o.concept.urn)] ++
    Json.optionalField "stated_name" (o.statedName.map .text) ++
    [("collective", .bool o.collective), ("optional", .bool o.optional)] ++
    Json.optionalField "default_value" (o.defaultValue.map Value.toJson) ++
    [("mode", .text o.mode.name)]

/-- The observable of the fields of an object. -/
def ofFields? (fields : List (String × Json)) : Option Observable := do
  let r ← Json.objectRecord?
    ["concept", "stated_name", "collective", "optional", "default_value", "mode"] fields
  return {
    concept := ← r.get? "concept" Concept.ofJson?
    statedName := ← r.option? "stated_name" Json.text?
    collective := ← r.getOr? "collective" false Json.bool?
    optional := ← r.getOr? "optional" false Json.bool?
    defaultValue := ← r.option? "default_value" Value.ofJson?
    mode := ← r.getOr? "mode" .exact Matching.ofJson? }

/-- The observable of JSON: a definition, or an object all of whose parts can be read. -/
def ofJson? (j : Json) : Option Observable :=
  match j with
  | .text s => (ofText s).toOption
  | .object fields => j.readable?.bind fun _ => ofFields? fields
  | _ => none

end Obsplan.Observable
