import Obsplan.CatalogError
import Obsplan.Json.Decode

/-!
# Concepts

A concept refers to a semantic type. It is written as a namespace and a local name with a colon
between them; both are words of letters, digits, underscores, points and hyphens that do not start
with a digit, a point or a hyphen.
-/

namespace Obsplan

/-- Whether a character may start a name. -/
def startsName (c : Char) : Bool := c.isAlpha || c == '_'

/-- Whether a character may continue a name. -/
def continuesName (c : Char) : Bool := c.isAlphanum || c == '_' || c == '.' || c == '-'

/-- Whether characters form a name. -/
def isName : List Char → Bool
  | [] => false
  | c :: cs => startsName c && cs.all continuesName

/-- Whether characters form a concept. -/
def isConcept (cs : List Char) : Bool :=
  match cs.dropWhile (· ≠ ':') with
  | [] => false
  | _ :: after => isName (cs.takeWhile (· ≠ ':')) && isName after

/-- A reference to a semantic type. -/
structure Concept where
  urn : String
  isConcept : isConcept urn.toList = true
  deriving DecidableEq

namespace Concept

/-- The concept written by a text. -/
def ofText? (urn : String) : Option Concept :=
  if h : Obsplan.isConcept urn.toList = true then some ⟨urn, h⟩ else none

def ofText (urn : String) : Except CatalogError Concept :=
  match ofText? urn with
  | some c => .ok c
  | none => .error (.malformedDefinition urn "concepts are written namespace:Name")

def ofJson? (j : Json) : Option Concept := j.text?.bind ofText?

def nameSpace (c : Concept) : String := String.ofList (c.urn.toList.takeWhile (· ≠ ':'))

def localName (c : Concept) : String := String.ofList ((c.urn.toList.dropWhile (· ≠ ':')).drop 1)

end Concept

end Obsplan
