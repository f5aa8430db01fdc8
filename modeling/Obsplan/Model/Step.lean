import Obsplan.Model.Call

/-!
# Computation steps

A model declares its computation as steps of several kinds. Every step is lowered to one call, the
kinds other than calls to a call of a built-in function.
-/

namespace Obsplan

/-- What a step does. -/
inductive StepKind where
  | call (call : Call)
  /-- Takes data from external resources. -/
  | resources (urns : List String)
  /-- Classifies values by a vocabulary. -/
  | accordingTo (authority : String)
  /-- Classifies values by a classification. -/
  | classification (name : String)
  | lookupTable (urn : String)
  | expression (source : String)
  | literal (value : Value)

/-- A declared computation step. -/
structure Step where
  kind : StepKind
  /-- The observable the step writes to, when it is not the first one of the model. -/
  target : Option String := none

namespace StepKind

instance : BEq StepKind where
  beq
    | .call c, .call d => c == d
    | .resources us, .resources vs => us == vs
    | .accordingTo s, .accordingTo t => s == t
    | .classification s, .classification t => s == t
    | .lookupTable s, .lookupTable t => s == t
    | .expression s, .expression t => s == t
    | .literal v, .literal w => v == w
    | _, _ => false

/-- The call a kind of step is lowered to. -/
def lower : StepKind → Call
  | .call c => c
  | .resources urns => BuiltIn.resources.call.set "urns" (.list (urns.map .text))
  | .accordingTo s => BuiltIn.lookup.call.set "accordingTo" (.text s)
  | .classification s => BuiltIn.lookup.call.set "classification" (.text s)
  | .lookupTable s => BuiltIn.lookup.call.set "lookupTable" (.text s)
  | .expression s => BuiltIn.expression.call.set "expression" (.text s)
  | .literal v => BuiltIn.constant.call.set "value" v

/-- The external resources a kind of step needs when it runs. -/
def requirements : StepKind → List String
  | .call c => if c.isBuiltIn then [] else [c.name]
  | .resources urns => urns
  | .lookupTable urn => [urn]
  | .accordingTo _ => []
  | .classification _ => []
  | .expression _ => []
  | .literal _ => []

/-- The fields of a kind of step. -/
def toFields : StepKind → List (String × Json)
  | .call c => [("kind", .text "call"), ("call", c.toJson)]
  | .resources urns => [("kind", .text "resources"), ("urns", .list (urns.map .text))]
  | .accordingTo s => [("kind", .text "according_to"), ("according_to", .text s)]
  | .classification s => [("kind", .text "classification"), ("classification", .text s)]
  | .lookupTable s => [("kind", .text "lookup_table"), ("lookup_table", .text s)]
  | .expression s => [("kind", .text "expression"), ("expression", .text s)]
  | .literal v => [("kind", .text "literal"), ("value", v.toJson)]

/-- The words for the kinds of steps; a kind may also be given by its place in this list. -/
def names : List String :=
  ["call", "resources", "according_to", "classification", "lookup_table", "expression", "literal"]

/-- The word for the kind of a step. -/
def nameOf? : Json → Option String
  | .text s => some s
  | .int n => if 0 ≤ n then names[n.toNat]? else none
  | _ => none

/-- The kind of step that the fields of an object describe. -/
def ofFields? (fields : List (String × Json)) : Option StepKind := do
  let tag ← Json.objectRecord? ["kind"] fields
  let field {β : Type} (name : String) (decode : Json → Option β) : Option β := do
    (← Json.objectRecord? [name] fields).get? name decode
  match ← tag.get? "kind" nameOf? with
  | "call" => return .call (← field "call" Call.ofJson?)
  | "resources" => return .resources (← field "urns" (Json.listOf? Json.text?))
  | "according_to" => return .accordingTo (← field "according_to" Json.text?)
  | "classification" => return .classification (← field "classification" Json.text?)
  | "lookup_table" => return .lookupTable (← field "lookup_table" Json.text?)
  | "expression" => return .expression (← field "expression" Json.text?)
  | "literal" => return .literal (← field "value" Value.ofJson?)
  | _ => none

end StepKind

namespace Step

instance : BEq Step := ⟨fun s t => s.kind == t.kind && s.target == t.target⟩

/-- The call a step is lowered to; the target travels as a parameter. -/
def lower (s : Step) : Call :=
  match s.target with
  | some target => s.kind.lower.set "_target" (.text target)
  | none => s.kind.lower

def toJson (s : Step) : Json :=
  .object (s.kind.toFields ++ Json.optionalField "target" (s.target.map .text))

def ofJson? : Json → Option Step
  | .object fields => do
    let r ← Json.objectRecord? ["target"] fields
    let others := fields.filter fun f => f.1 != "target"
    let _ ← (Json.object others).readable?
    return { kind := ← StepKind.ofFields? others, target := ← r.option? "target" Json.text? }
  | _ => none

end Step

end Obsplan
