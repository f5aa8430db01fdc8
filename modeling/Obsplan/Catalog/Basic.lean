import Obsplan.Arrange
import Obsplan.Edit
import Obsplan.Keyed
import Obsplan.Model.Basic

/-!
# Catalogs of models

A catalog holds models by name, and for every concept the names of the models that produce it.
Adding a model of a name that is present replaces that model.
-/

namespace Obsplan

variable {α : Type} [Coordinate α]

structure Catalog (α : Type) [Coordinate α] where
  /-- The models by name. -/
  models : Keyed String (Model α)
  /-- The names of the models that produce a concept. -/
  producers : Keyed Concept (List String)

namespace Catalog

def empty : Catalog α := ⟨.empty, .empty⟩

def namesFor (producers : Keyed Concept (List String)) (c : Concept) : List String :=
  (producers.get? c).getD []

/-- A name taken off the list of a concept. -/
def unlist (urn : String) (producers : Keyed Concept (List String)) (o : Observable) :
    Keyed Concept (List String) :=
  producers.insert o.concept ((namesFor producers o.concept).filter (· ≠ urn))

/-- A name put on the list of a concept, unless it is there. -/
def enlist (urn : String) (producers : Keyed Concept (List String)) (o : Observable) :
    Keyed Concept (List String) :=
  let names := namesFor producers o.concept
  if urn ∈ names then producers else producers.insert o.concept (names ++ [urn])

/-- The lists without a model that is going to be replaced. -/
def cleared (c : Catalog α) (urn : String) : Keyed Concept (List String) :=
  match c.models.get? urn with
  | some old => old.observables.foldl (unlist urn) c.producers
  | none => c.producers

/-- Puts a model in the place of that of its name; models that cannot be used are refused. -/
def inserting (m : Model α) : Edit (Catalog α) CatalogError PUnit := do
  let m ← ofExcept m.validate
  modify fun c => { c with producers := c.cleared m.urn }
  modify fun c => { c with producers := m.observables.foldl (enlist m.urn) c.producers }
  modify fun c => { c with models := c.models.insert m.urn m }

/-- The catalog with one more model; models that cannot be used are refused. -/
def insert (c : Catalog α) (m : Model α) : Except CatalogError (Catalog α) := (inserting m).made c

/-- The catalog with more models. It ends with the first model that is refused; the models before
that one stay. -/
def insertAll (c : Catalog α) (ms : List (Model α)) : Catalog α × Option CatalogError :=
  Edit.after (ms.forM inserting) c

/-- The models that produce an observable, in the order of their names. -/
def modelsFor (c : Catalog α) (o : Observable) : List (Model α) :=
  arrange (fun m n => decide (m.urn < n.urn))
    (((namesFor c.producers o.concept).filterMap c.models.get?).filter (·.produces o))

def retrieve (c : Catalog α) (urn : String) : Except CatalogError (Model α) :=
  match c.models.get? urn with
  | some m => .ok m
  | none => .error (.notFound urn)

def urns (c : Catalog α) : List String := arrangeTexts c.models.keys

def size (c : Catalog α) : Nat := c.models.size

end Catalog

end Obsplan
