import Obsplan.Execution

/-!
# The walk of a run

A run keeps a stack of actuators, on which every actuator comes up before and after all below it.
This is the same as running an actuator after its children, one after the other.
-/

namespace Obsplan.Run

open Edit

variable {α : Type} [Coordinate α]

mutual

/-- Runs an actuator after all below it. -/
def actuator (setting : RunSetting α) : Actuator α → Run α Unit
  | .mk j children => do
    actuators setting children
    perform setting j children

/-- Runs actuators in turn. -/
def actuators (setting : RunSetting α) : List (Actuator α) → Run α Unit
  | [] => return
  | a :: as => do
    actuator setting a
    actuators setting as

end

variable (setting : RunSetting α)

mutual

/-- What is on the stack below an actuator is run after it. -/
theorem walk_cons : (a : Actuator α) → (stack : List (Actuator α × Bool)) →
    walk setting ((a, false) :: stack) = do
      actuator setting a
      walk setting stack
  | .mk j children, stack => by
    rw [walk, Actuator.children, walk_append children, walk, actuator, bind_assoc]
    rfl

theorem walk_append : (as : List (Actuator α)) → (stack : List (Actuator α × Bool)) →
    walk setting (as.map (fun a => (a, false)) ++ stack) = do
      actuators setting as
      walk setting stack
  | [], stack => by
    rw [actuators, pure_bind]
    rfl
  | a :: as, stack => by
    rw [List.map_cons, List.cons_append, walk_cons a, walk_append as, actuators, bind_assoc]

end

theorem walk_singleton (a : Actuator α) : walk setting [(a, false)] = actuator setting a := by
  rw [walk_cons, walk]
  exact bind_pure_unit

theorem forM_walk (roots : List (Actuator α)) :
    (roots.forM fun a => walk setting [(a, false)]) = actuators setting roots := by
  induction roots with
  | nil => rw [actuators]; rfl
  | cons a as ih =>
    rw [actuators, ← ih, ← walk_singleton]
    rfl

end Obsplan.Run
