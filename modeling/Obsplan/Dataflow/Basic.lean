import Obsplan.Coverage
import Obsplan.Identifier
import Obsplan.Model.Call
import Obsplan.Notification
import Obsplan.Observable.Basic
import Obsplan.Text.Set

/-!
# Dataflows

A dataflow is a plan that can be run: a forest of actuators. Each actuator produces one observation
and has the actuators of its dependencies as children.
-/

namespace Obsplan

variable {α : Type} [Coordinate α]

/-- How an actuator comes by its observation. -/
inductive JobKind where
  /-- By the calls of its computation. -/
  | observe
  /-- By a request made when the plan runs. -/
  | resolve
  /-- By taking over the observation of another actuator. -/
  | reference
  deriving DecidableEq, Repr

def JobKind.name : JobKind → String
  | .observe => "observe"
  | .resolve => "resolve"
  | .reference => "reference"

/-- What one actuator does. -/
structure Job (α : Type) [Coordinate α] where
  /-- The identifier of the actuator and of its observation. -/
  id : Identifier
  observable : Observable
  kind : JobKind := .observe
  scale : Scale α
  strategy : Option String := none
  computation : List Call := []
  coverage : Coverage α
  parameters : Parameters := {}
  /-- The actuator whose observation is taken over. -/
  reference : Option Identifier := none

namespace Job

instance : BEq (Job α) where
  beq a b := a.id == b.id && a.observable == b.observable && a.kind == b.kind &&
    a.scale == b.scale && a.strategy == b.strategy && a.computation == b.computation &&
    a.coverage == b.coverage && a.parameters == b.parameters && a.reference == b.reference

/-- What an actuator is called in encoded plans. -/
def targetName (j : Job α) : String :=
  match j.kind with
  | .resolve => s!"obs{j.id.val}"
  | _ => j.observable.urn

end Job

/-- An actuator with the actuators of its dependencies, in the order of their declaration. -/
inductive Actuator (α : Type) [Coordinate α] where
  | mk (job : Job α) (children : List (Actuator α))

namespace Actuator

def job : Actuator α → Job α
  | .mk job _ => job

def children : Actuator α → List (Actuator α)
  | .mk _ children => children

mutual

def same : Actuator α → Actuator α → Bool
  | .mk j as, .mk k bs => j == k && sameAll as bs

def sameAll : List (Actuator α) → List (Actuator α) → Bool
  | [], [] => true
  | a :: as, b :: bs => same a b && sameAll as bs
  | _, _ => false

end

instance : BEq (Actuator α) := ⟨same⟩

mutual

/-- An actuator and all below it, each one before its children. -/
def walk : Actuator α → List (Actuator α)
  | .mk j as => .mk j as :: walkAll as

def walkAll : List (Actuator α) → List (Actuator α)
  | [] => []
  | a :: as => walk a ++ walkAll as

end

theorem walkAll_append (as bs : List (Actuator α)) :
    walkAll (as ++ bs) = walkAll as ++ walkAll bs := by
  induction as with
  | nil => rfl
  | cons a as ih => simp [walkAll, ih]

end Actuator

/-- A plan. -/
structure Dataflow (α : Type) [Coordinate α] where
  /-- The root actuators in the order in which they were added. -/
  actuators : List (Actuator α) := []
  /-- The union of what the roots cover. -/
  coverage : Coverage α
  /-- The resources that are needed when the plan runs. -/
  requirements : TextSet := .empty
  /-- The observation that the plan was made to produce. -/
  target : Option Identifier := none
  observable : Option Observable := none
  notifications : List Notification := []

namespace Dataflow

/-- The plan that does nothing. -/
def empty (scale : Scale α) : Dataflow α := { coverage := .empty scale }

instance : BEq (Dataflow α) where
  beq a b := Actuator.sameAll a.actuators b.actuators && a.coverage == b.coverage &&
    a.requirements == b.requirements && a.target == b.target && a.observable == b.observable &&
    a.notifications == b.notifications

def isEmpty (d : Dataflow α) : Bool := d.actuators.isEmpty

def walk (d : Dataflow α) : List (Actuator α) := Actuator.walkAll d.actuators

/-- The first actuator with an identifier. -/
def find? (d : Dataflow α) (i : Identifier) : Option (Actuator α) :=
  d.walk.find? fun a => a.job.id == i

def ids (d : Dataflow α) : List Identifier := d.walk.map fun a => a.job.id

def size (d : Dataflow α) : Nat := d.walk.length

/-- What some roots cover of a scale. -/
def coverageOf (scale : Scale α) (roots : List (Actuator α)) : Coverage α :=
  roots.foldl (fun c a => c.merge a.job.coverage) (.empty scale)

/-- The plan with its coverage computed from the roots. -/
def recomputed (d : Dataflow α) : Dataflow α :=
  { d with coverage := coverageOf d.coverage.scale d.actuators }

end Dataflow

end Obsplan
