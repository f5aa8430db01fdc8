import Obsplan.Text.Quoted

/-!
# Failed lookups

Why the catalog of models or the reasoner over concepts cannot answer.
-/

namespace Obsplan

/-- Why a lookup failed. -/
inductive CatalogError where
  /-- A collaborator does not answer. -/
  | unreachable (service message : String)
  /-- A model cannot be used. -/
  | malformedModel (urn message : String)
  /-- A text is no version. -/
  | malformedVersion (value : String)
  /-- A model is there, but in another version. -/
  | mismatchedVersion (urn required found : String)
  /-- Nothing is known under a name. -/
  | notFound (urn : String)
  /-- A text is no concept or observable. -/
  | malformedDefinition (definition message : String)
  /-- A catalog file cannot be read. -/
  | unreadableFile (path cause : String)
  | unparsable (path message : String)
  deriving DecidableEq, Repr

def CatalogError.message : CatalogError → String
  | .unreachable service message => service ++ " is unreachable: " ++ message
  | .malformedModel urn message => "malformed model " ++ urn ++ ": " ++ message
  | .malformedVersion value => "malformed version string: " ++ Text.quoted value
  | .mismatchedVersion urn required found =>
    "model " ++ urn ++ " is at version " ++ found ++ ", but " ++ required ++ " was requested"
  | .notFound urn => "resource not found: " ++ urn
  | .malformedDefinition definition message =>
    "cannot interpret definition " ++ Text.quoted definition ++ ": " ++ message
  | .unreadableFile path _ => "failed to read catalog at " ++ path
  | .unparsable path message => "failed to parse catalog at " ++ path ++ ": " ++ message

end Obsplan
