import Obsplan.Context
import Obsplan.Dataflow.Basic
import Obsplan.Edit
import Obsplan.Failure

/-!
# Splicing dataflows

A new dataflow is attached to that of its context: under the context's current observation, or as
further roots when there is none. The coverage is widened along the way up from where the new roots
are attached.
-/

namespace Obsplan

variable {α : Type} [Coordinate α]

namespace Actuator

/-- Actuators with the paths to them, when they are the children at the end of a path. -/
def placed (path : List Nat) (as : List (Actuator α)) : List (List Nat × Actuator α) :=
  as.zipIdx.map fun (a, i) => (path ++ [i], a)

/-- The number of actuators on a stack and below it. -/
def stacked (stack : List (List Nat × Actuator α)) : Nat := (walkAll (stack.map Prod.snd)).length

theorem map_snd_placed (path : List Nat) (as : List (Actuator α)) :
    (placed path as).map Prod.snd = as := by
  simp [placed, Function.comp_def]

/-- The path to the first actuator with an identifier on a stack, or below it. The children of an
actuator come before what else is on the stack. -/
def pathOn? (hook : Identifier) : List (List Nat × Actuator α) → Option (List Nat)
  | [] => none
  | (path, a) :: stack =>
    if a.job.id = hook then some path else pathOn? hook (placed path a.children ++ stack)
termination_by stack => stacked stack
decreasing_by
  cases a
  simp [stacked, map_snd_placed, walkAll_append, walkAll, walk, children]

/-- The actuator with roots attached at the end of a path. What it covers is widened by what its
child on the path covers then. -/
def attach (roots : List (Actuator α)) : List Nat → Actuator α → Actuator α
  | [], .mk j children =>
    .mk { j with coverage := roots.foldl (fun c a => c.merge a.job.coverage) j.coverage }
      (children ++ roots)
  | i :: path, .mk j children =>
    match children[i]? with
    | none => .mk j children
    | some child =>
      let child := attach roots path child
      .mk { j with coverage := j.coverage.merge child.job.coverage } (children.set i child)

end Actuator

namespace Dataflow

/-- Attaches roots where the context says. -/
def attaching (roots : List (Actuator α)) (ctx : Context α) :
    Edit (Dataflow α) DataflowError PUnit := do
  match ctx.current with
  | none => modify fun d => { d with actuators := d.actuators ++ roots }
  | some hook =>
    match Actuator.pathOn? hook (Actuator.placed [] (← get).actuators) with
    | none | some [] => throw (.hookNotFound hook.val ctx.id)
    | some (i :: path) =>
      modify fun d => { d with actuators := d.actuators.modify i (Actuator.attach roots path) }

/-- Attaches another plan where the context says. -/
def adding (other : Dataflow α) (ctx : Context α) : Edit (Dataflow α) DataflowError PUnit := do
  attaching other.actuators ctx
  modify fun d => { d with
    requirements := d.requirements.union other.requirements
    notifications := d.notifications ++ other.notifications }
  modify fun d =>
    if d.target.isNone then { d with target := other.target, observable := other.observable } else d
  modify recomputed

/-- The plan with another one attached where the context says. -/
def add (d other : Dataflow α) (ctx : Context α) : Except DataflowError (Dataflow α) :=
  (adding other ctx).made d

end Dataflow

end Obsplan
