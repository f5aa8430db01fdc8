import Obsplan.Value.Json
import Obsplan.Version
import Obsplan.Text.Set
import Obsplan.Scale.Basic

/-!
# Constraints

A request or a context narrows the search by named constraints. The set is open: names that mean
nothing to the planner are carried along. Adding a constraint whose name is present joins the
values, except for the settings that hold a single value, which are replaced.
-/

namespace Obsplan

structure Constraint where
  name : String
  values : List Value := []

namespace Constraint

/-! ## Names with a meaning -/

/-- Whether partial coverage is accepted. -/
def acceptPartialName : String := "accept-partial"

/-- Models that must not be used. -/
def excludeModelName : String := "exclude-model"

/-- Namespaces whose models rank first. -/
def namespaceName : String := "resolution-namespace"

/-- Projects whose models rank first. -/
def projectName : String := "resolution-project"

/-- Versions that models must have, written as the name of the model, an equals sign and the
version. -/
def modelVersionName : String := "model-version"

/-- The agent who answers for the resulting activities. -/
def provenanceName : String := "provenance"

/-- The scale to resolve over: a list of dimension, start and end for each extent. -/
def geometryName : String := "geometry"

/-- Whether constraints of a name hold a single setting. -/
def isSingle (name : String) : Bool :=
  name == acceptPartialName || name == provenanceName || name == geometryName

/-! ## Making constraints -/

def acceptPartial (accept : Bool) : Constraint := ⟨acceptPartialName, [.bool accept]⟩

def excludeModel (urn : String) : Constraint := ⟨excludeModelName, [.text urn]⟩

def preferNamespace (space : String) : Constraint := ⟨namespaceName, [.text space]⟩

def preferProject (project : String) : Constraint := ⟨projectName, [.text project]⟩

def modelVersion (urn : String) (version : Version) : Constraint :=
  ⟨modelVersionName, [.text (urn ++ "=" ++ version.text)]⟩

def provenance (agent : String) : Constraint := ⟨provenanceName, [.text agent]⟩

/-- Resolves over another scale. -/
def geometry (scale : Scale Number) : Constraint :=
  ⟨geometryName, scale.extents.map fun e =>
    .list [.text e.dimension.name, .float e.start, .float e.stop]⟩

/-- Values followed by those of others that are not among them yet. -/
def joinValues (values others : List Value) : List Value :=
  others.foldl (fun vs v => if vs.any (· == v) then vs else vs ++ [v]) values

/-- A constraint after another one of the same name was added. -/
def join (c other : Constraint) : Constraint :=
  if isSingle c.name then { c with values := other.values }
  else { c with values := joinValues c.values other.values }

def toJson (c : Constraint) : Json :=
  .object [("name", .text c.name), ("values", .list (Value.itemsToJson c.values))]

def ofJson? (j : Json) : Option Constraint := do
  let r ← j.record? ["name", "values"]
  return {
    name := ← r.get? "name" Json.text?
    values := ← r.getOr? "values" [] (Json.listOf? Value.ofJson?) }

end Constraint

/-- Constraints in the order in which their names were first added. -/
structure Constraints where
  toList : List Constraint := []

/-- Why a geometry constraint names no scale. -/
inductive GeometryError where
  /-- An extent is no list. -/
  | notAList (value : Value)
  /-- An extent does not have three parts. -/
  | wrongParts (value : Value)
  /-- The first part of an extent names no dimension. -/
  | unknownDimension (dimension : Value)
  /-- A bound is no number. -/
  | notNumeric (value : Value)
  /-- The extents make no scale. -/
  | scale (error : ScaleError Number)

def GeometryError.message : GeometryError → String
  | .notAList v => "geometry extent " ++ v.display ++ " is not a list"
  | .wrongParts v => "geometry extent " ++ v.display ++ " needs dimension, start and end"
  | .unknownDimension d => "unknown geometry dimension " ++ d.display
  | .notNumeric v => "geometry extent " ++ v.display ++ " has non-numeric bounds"
  | .scale e => e.message

namespace Constraints

def empty : Constraints := ⟨[]⟩

def isEmpty (cs : Constraints) : Bool := cs.toList.isEmpty

/-- Constraints with one more among them. -/
def addIn (c : Constraint) : List Constraint → List Constraint
  | [] => [c]
  | d :: ds => if d.name = c.name then d.join c :: ds else d :: addIn c ds

/-- The constraints with one more. -/
def add (cs : Constraints) (c : Constraint) : Constraints := ⟨addIn c cs.toList⟩

/-- Constraints added one after the other. -/
def ofList (list : List Constraint) : Constraints := list.foldl add empty

/-- The constraints of `other` layered over `cs`. -/
def merge (cs other : Constraints) : Constraints := other.toList.foldl add cs

/-- The constraint of a name. -/
def get? (cs : Constraints) (name : String) : Option Constraint :=
  cs.toList.find? fun c => c.name == name

def values (cs : Constraints) (name : String) : List Value :=
  ((cs.get? name).map Constraint.values).getD []

/-- The textual values of a name. -/
def texts (cs : Constraints) (name : String) : List String :=
  (cs.values name).filterMap Value.asText?

/-- Whether partial coverage is accepted, if that is said; the last word counts. -/
def acceptPartial? (cs : Constraints) : Option Bool :=
  (cs.values Constraint.acceptPartialName).reverse.findSome? Value.asBool?

/-- The models that must not be used. -/
def excludedModels (cs : Constraints) : TextSet :=
  TextSet.ofList (cs.texts Constraint.excludeModelName)

def preferredNamespaces (cs : Constraints) : List String := cs.texts Constraint.namespaceName

def preferredProjects (cs : Constraints) : List String := cs.texts Constraint.projectName

/-- The version pinned for a model, as it was written. -/
def pinnedVersion? (cs : Constraints) (urn : String) : Option String :=
  (((cs.texts Constraint.modelVersionName).filterMap (Text.splitFirst? '=')).find?
    fun pin => Text.trim pin.1 == urn).map fun pin => Text.trim pin.2

/-- The agent who answers for the resulting activities. -/
def provenanceAgent? (cs : Constraints) : Option String :=
  (cs.texts Constraint.provenanceName).head?

/-- The extent that a value of a geometry constraint describes. -/
def extentOf (value : Value) : Except GeometryError (Extent Number) :=
  match value with
  | .list [d, start, stop] =>
    match d.asText?.bind Dimension.ofName? with
    | none => .error (.unknownDimension d)
    | some dimension =>
      match start.asNumber?, stop.asNumber? with
      | some start, some stop => (Extent.check ⟨dimension, start, stop⟩).mapError .scale
      | _, _ => .error (.notNumeric value)
  | .list _ => .error (.wrongParts value)
  | _ => .error (.notAList value)

/-- The scale asked for by a geometry constraint, if there is one. -/
def geometry? (cs : Constraints) : Except GeometryError (Option (Scale Number)) :=
  match cs.values Constraint.geometryName with
  | [] => .ok none
  | values => do
    let extents ← values.mapM extentOf
    return some (← (Scale.ofExtents extents).mapError .scale)

def toJson (cs : Constraints) : Json := .list (cs.toList.map Constraint.toJson)

/-- The constraints of a JSON list, as they are written. -/
def ofJson? (j : Json) : Option Constraints := (j.listOf? Constraint.ofJson?).map Constraints.mk

end Constraints

end Obsplan
