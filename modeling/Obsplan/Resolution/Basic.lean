import Obsplan.Model.Basic
import Obsplan.Notification

/-!
# Resolutions

A resolution composes models so that together they produce an observable. Its nodes are numbered
and refer to each other by number; a node that several others need is kept once.
-/

namespace Obsplan

variable {α : Type} [Coordinate α]

/-- What satisfies a node. -/
inductive Means (α : Type) [Coordinate α] where
  | model (model : Model α)
  /-- A request made when the plan runs. -/
  | deferred
  /-- The default value of an observable that nothing produces. -/
  | constant (value : Value)
  /-- Nothing: an optional input was looked for and not found. -/
  | unresolved

def Means.model? : Means α → Option (Model α)
  | .model m => some m
  | _ => none

/-- The nodes that together satisfy a declared dependency, in the order of acceptance. -/
structure Link where
  observable : Observable
  nodes : List Nat

/-- One node of a resolution. -/
structure Node (α : Type) [Coordinate α] where
  id : Nat
  observable : Observable
  scale : Scale α
  means : Means α
  coverage : Coverage α
  /-- The links in the order in which the model declares its dependencies. -/
  links : List Link := []

/-- The nodes that a node refers to. -/
def Node.children (n : Node α) : List Nat := n.links.flatMap Link.nodes

/-- How the search for an observable ended. -/
inductive Outcome where
  | resolved
  /-- Only a part of the scale could be covered. -/
  | partially
  | unresolved
  /-- The observable is being searched already. -/
  | cycle
  | depthExceeded
  | timedOut
  deriving DecidableEq, Repr

def Outcome.name : Outcome → String
  | .resolved => "Resolved"
  | .partially => "Partial"
  | .unresolved => "Unresolved"
  | .cycle => "Cycle"
  | .depthExceeded => "DepthExceeded"
  | .timedOut => "TimedOut"

/-- The composition that was accepted for an observable. -/
structure Resolution (α : Type) [Coordinate α] where
  observable : Observable
  scale : Scale α
  nodes : List (Node α)
  /-- The nodes that satisfy the observable, in the order of acceptance. -/
  roots : List Nat
  coverage : Coverage α
  outcome : Outcome
  notifications : List Notification
  /-- Coverage counts as complete when at most this fraction is missing. -/
  tolerance : α

namespace Resolution

/-- A resolution that accepted nothing. -/
def empty (o : Observable) (scale : Scale α) : Resolution α where
  observable := o
  scale
  nodes := []
  roots := []
  coverage := .empty scale
  outcome := .unresolved
  notifications := []
  tolerance := Coordinate.zero

def isEmpty (r : Resolution α) : Bool := r.roots.isEmpty

/-- Whether the scale is covered but for the tolerated fraction. -/
def isComplete (r : Resolution α) : Bool := !r.isEmpty && r.coverage.isComplete r.tolerance

def uncovered (r : Resolution α) : Coverage α := r.coverage.uncovered

/-- The models used, in the order of their nodes. -/
def models (r : Resolution α) : List (Model α) := r.nodes.filterMap fun n => n.means.model?

end Resolution

end Obsplan
