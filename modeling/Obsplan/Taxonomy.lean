import Obsplan.Arrange
import Obsplan.Edit
import Obsplan.Observable.Definition

/-!
# Taxonomies

A taxonomy records which concept is a kind of which other one. The facts never lead from a concept
back to itself, since a fact that would close such a circle is refused.
-/

namespace Obsplan

structure Taxonomy where
  concepts : List Concept := []
  /-- The facts: the first concept is a kind of the second one. -/
  facts : List (Concept × Concept) := []
  /-- Whether unknown concepts are refused. -/
  isStrict : Bool := false

namespace Taxonomy

/-- The taxonomy with one more known concept. -/
def addConcept (t : Taxonomy) (c : Concept) : Taxonomy :=
  if c ∈ t.concepts then t else { t with concepts := t.concepts ++ [c] }

/-- The kinds of a concept that the facts name directly. -/
def kindsOf (t : Taxonomy) (c : Concept) : List Concept :=
  (t.facts.filter fun f => f.2 == c).map Prod.fst

/-- The concepts met when the concepts of a queue are followed downwards in turn, those in `seen`
left out. Every step takes a concept off the queue, of which there are at most `fuel` in all. -/
def walk (t : Taxonomy) : Nat → List Concept → List Concept → List Concept
  | 0, _, _ => []
  | _ + 1, _, [] => []
  | fuel + 1, seen, c :: queue =>
    let fresh := arrange (fun a b => decide (a.urn < b.urn))
      ((t.kindsOf c).filter fun k => !seen.contains k)
    fresh ++ t.walk fuel (seen ++ fresh) (queue ++ fresh)

/-- All concepts below a concept, the nearest ones first. -/
def below (t : Taxonomy) (c : Concept) : List Concept := t.walk t.concepts.length [c] [c]

/-- Whether a concept is another one or stands above it. -/
def subsumes (t : Taxonomy) (general specific : Concept) : Bool :=
  general == specific || (t.below general).contains specific

/-- Records that a concept is a kind of another one. -/
def adding (child parent : Concept) : Edit Taxonomy CatalogError PUnit := do
  if child == parent || (← get).subsumes child parent then
    throw (.malformedDefinition (child.urn ++ " is-a " ++ parent.urn)
      "the taxonomy would become cyclic")
  else
    modify fun t => t.addConcept child
    modify fun t => t.addConcept parent
    modify fun t =>
      if (child, parent) ∈ t.facts then t else { t with facts := t.facts ++ [(child, parent)] }

/-- The taxonomy with the fact that a concept is a kind of another one. -/
def addFact (t : Taxonomy) (child parent : Concept) : Except CatalogError Taxonomy :=
  (adding child parent).made t

/-- A concept, which has to be known to a strict taxonomy. -/
def accept (t : Taxonomy) (c : Concept) : Except CatalogError Concept :=
  if t.isStrict && !t.concepts.contains c then .error (.notFound c.urn) else .ok c

/-- The concept written by a text with blanks around it. -/
def concept (t : Taxonomy) (text : String) : Except CatalogError Concept := do
  t.accept (← Concept.ofText (Text.trim text))

/-- The observable written by a definition. -/
def observable (t : Taxonomy) (definition : String) : Except CatalogError Observable := do
  let o ← Observable.ofText definition
  let _ ← t.accept o.concept
  return o

end Taxonomy

end Obsplan
