import Obsplan.Identifier
import Obsplan.Constraint
import Obsplan.Scale.Json

/-!
# Contexts

A context says where the planner works: the scale, the constraints, and the observation that new
plans attach to.
-/

namespace Obsplan

variable {α : Type} [Coordinate α]

/-- Where the planner works. -/
structure Context (α : Type) [Coordinate α] where
  /-- One plan is kept per identifier. -/
  id : String
  name : Option String := none
  scale : Scale α
  /-- The observation that new plans attach under. -/
  current : Option Identifier := none
  constraints : Constraints := {}

namespace Context

def constrained (c : Context α) (constraints : Constraints) : Context α :=
  { c with constraints := c.constraints.merge constraints }

def within (c : Context α) (i : Identifier) : Context α := { c with current := some i }

def atScale (c : Context α) (scale : Scale α) : Context α := { c with scale }

/-- The name that labels encoded plans. -/
def displayName (c : Context α) : String := c.name.getD c.id

/-- The context moved to the scale that its geometry constraint asks for, if any. -/
def located (c : Context Number) : Except GeometryError (Context Number) := do
  match ← c.constraints.geometry? with
  | some scale => return c.atScale scale
  | none => return c

def ofJson? (j : Json) : Option (Context Number) := do
  let r ← j.record? ["id", "name", "scale", "current_observation", "constraints"]
  return {
    id := ← r.get? "id" Json.text?
    name := ← r.option? "name" Json.text?
    scale := ← r.get? "scale" Scale.ofJson?
    current := ← r.option? "current_observation" Identifier.ofJson?
    constraints := ← r.getOr? "constraints" {} Constraints.ofJson? }

end Context

end Obsplan
