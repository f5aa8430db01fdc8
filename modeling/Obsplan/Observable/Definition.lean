import Obsplan.Text.Blank
import Obsplan.Observable.Basic

/-!
# Observable definitions

An observable is written as any of the words `optional`, `any` and `each`, then a concept, then the
word `named` with a name, which may be repeated: the last name counts. Default values have no place
in a definition.
-/

namespace Obsplan.Observable

/-- An observable as a definition. -/
def text (o : Observable) : String :=
  (if o.optional then "optional " else "") ++
  (match o.mode with | .exact => "" | .any => "any ") ++
  o.urn ++
  (match o.statedName with | some name => " named " ++ name | none => "")

/-- Reads the names after the concept. -/
def readNames (definition : String) (o : Observable) : List String → Except CatalogError Observable
  | [] => .ok o
  | "named" :: name :: ws => readNames definition { o with statedName := some name } ws
  | ["named"] => .error (.malformedDefinition definition "`named` needs a name")
  | w :: _ => .error (.malformedDefinition definition ("unexpected token " ++ Text.quoted w))

/-- Reads the qualifiers, the concept and the names. -/
def readWords (definition : String) (optional collective : Bool) (mode : Matching) :
    List String → Except CatalogError Observable
  | [] => .error (.malformedDefinition definition "no concept given")
  | "optional" :: ws => readWords definition true collective mode ws
  | "any" :: ws => readWords definition optional collective .any ws
  | "each" :: ws => readWords definition optional true mode ws
  | w :: ws => do
    let concept ← Concept.ofText w
    readNames definition { concept, collective, optional, mode } ws

/-- The observable written by a definition. -/
def ofText (definition : String) : Except CatalogError Observable :=
  readWords definition false false .exact (Text.words definition)

end Obsplan.Observable
