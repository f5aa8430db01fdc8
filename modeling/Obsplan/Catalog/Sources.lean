import Obsplan.Catalog.Basic
import Obsplan.Taxonomy

/-!
# Where models come from

The search asks a catalog of models and a reasoner over concepts, and both may fail to answer.
Besides a catalog and a taxonomy that always answer there are ways to let some lookups fail and to
let others find more.
-/

namespace Obsplan

/-- The collaborators of a search. -/
structure Sources (α : Type) [Coordinate α] where
  /-- The models that produce just the concept of an observable. -/
  models : Observable → Except CatalogError (List (Model α))
  /-- The model of a name. -/
  model : String → Except CatalogError (Model α)
  /-- All concepts below a concept, the nearest ones first. -/
  below : Concept → Except CatalogError (List Concept)
  /-- The observable written by a definition. -/
  observable : String → Except CatalogError Observable
  /-- The concept written by a text. -/
  concept : String → Except CatalogError Concept

namespace Sources

variable {α : Type} [Coordinate α]

/-- A catalog and a taxonomy that always answer. -/
def ofCatalog (c : Catalog α) (t : Taxonomy) : Sources α where
  models o := .ok (c.modelsFor o)
  model := c.retrieve
  below c := .ok (t.below c)
  observable := t.observable
  concept := t.concept

/-- The sources when the catalog does not answer for some concepts. -/
def withoutModelsFor (s : Sources α) (concepts : List Concept) (error : CatalogError) : Sources α :=
  { s with models := fun o => if o.concept ∈ concepts then .error error else s.models o }

/-- The sources when the catalog has more models to offer for some concepts. -/
def offering (s : Sources α) (offers : List (Concept × List (Model α))) : Sources α :=
  { s with models := fun o => do
      return (← s.models o) ++ offers.flatMap fun offer =>
        if offer.1 = o.concept then offer.2 else [] }

/-- The sources when the reasoner does not answer. -/
def withoutReasoner (s : Sources α) (error : CatalogError) : Sources α :=
  { s with
    below := fun _ => .error error
    observable := fun _ => .error error
    concept := fun _ => .error error }

end Sources

end Obsplan
