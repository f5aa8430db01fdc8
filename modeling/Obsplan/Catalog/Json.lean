import Obsplan.Json.Reader
import Obsplan.Catalog.Basic
import Obsplan.Model.Json

/-!
# Catalogs in JSON

A catalog is written as a list of models.
-/

namespace Obsplan.Catalog

/-- The models of a JSON text. -/
def readModels? (text : String) : Option (List (Model Number)) :=
  (Json.read? text).bind (Json.listOf? Model.ofJson?)

/-- The catalog with the models that a text from `origin` lists, and how many they are or why they
cannot be added. -/
def load (c : Catalog Number) (origin text : String) : Catalog Number × Except CatalogError Nat :=
  match readModels? text with
  | none => (c, .error (.unparsable origin "this is no list of models"))
  | some models =>
    match c.insertAll models with
    | (c, none) => (c, .ok models.length)
    | (c, some e) => (c, .error e)

end Obsplan.Catalog
