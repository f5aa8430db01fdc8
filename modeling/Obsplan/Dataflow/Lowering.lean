import Obsplan.Dataflow.Basic
import Obsplan.Failure
import Obsplan.Keyed
import Obsplan.Resolution.Basic

/-!
# Lowering resolutions to dataflows

A resolution is unfolded from its roots downwards. Every visit of a node takes a slot with an
identifier of its own; the slot of the first visit becomes the actuator that computes the
observation, and each further one an actuator that refers to it. The slots are put together from the
last one on, so that everything is complete before what it is a child of.
-/

namespace Obsplan

variable {α : Type} [Coordinate α]

/-- A visit of a node. -/
structure Slot where
  node : Nat
  id : Identifier
  /-- The place of the slot from which the node was referred to; the slot of a root has none. -/
  parent : Option Nat
  /-- How deep the slot is below the roots. -/
  level : Nat
  /-- The identifier given on the first visit of the node, when this is a further one. -/
  reference : Option Identifier

/-- How far the visits have come. -/
structure Visits where
  allocator : Allocator
  /-- The identifiers given to the nodes on their first visit. -/
  visited : Keyed Nat Identifier := .empty
  /-- The visits made, one after the other. -/
  slots : List Slot := []

namespace Lowering

/-- The job of the actuator that a node is lowered to on its first visit. -/
def ownJob (n : Node α) (id : Identifier) : Job α :=
  let job : Job α := { id, observable := n.observable, scale := n.scale, coverage := n.coverage }
  match n.means with
  | .model m =>
    { job with
      strategy := some m.urn
      computation := m.calls
      parameters := .ofList [("version", .text m.version.text)] }
  | .deferred =>
    { job with
      kind := .resolve
      computation := [BuiltIn.deferred.call.set "observable" (.text n.observable.urn)] }
  | .constant value =>
    { job with computation := [BuiltIn.constant.call.set "value" value] }
  | .unresolved => { job with kind := .resolve, coverage := .empty n.scale }

/-- The job of an actuator that refers to the one made on the first visit. -/
def referenceJob (n : Node α) (id first : Identifier) : Job α where
  id
  observable := n.observable
  kind := .reference
  scale := n.scale
  coverage := n.coverage
  reference := some first

/-- The requirements that a node adds. -/
def requirementsOf (n : Node α) : TextSet :=
  match n.means.model? with
  | some m => m.requirements
  | none => .empty

/-! ## Visits -/

/-- The nodes that a node refers to; none for a node that is not there. -/
def linked (r : Resolution α) (n : Nat) : List Nat := r.nodes[n]?.elim [] Node.children

/-- The level of the slots below a slot. -/
def levelBelow (slots : List Slot) : Option Nat → Nat
  | none => 0
  | some parent => slots[parent]?.elim 0 fun slot => slot.level + 1

/-- The weight of the first `k` nodes that were not visited. -/
def unseen (weight : Nat → Nat) (visited : Keyed Nat Identifier) : Nat → Nat
  | 0 => 0
  | k + 1 => unseen weight visited k + if (visited.get? k).isSome then 0 else weight k

theorem unseen_insert (weight : Nat → Nat) {visited : Keyed Nat Identifier} {n : Nat}
    (h : visited.get? n = none) (id : Identifier) (k : Nat) : unseen weight visited k =
      unseen weight (visited.insert n id) k + if n < k then weight n else 0 := by
  induction k with
  | zero => rfl
  | succ k ih =>
    rw [unseen, unseen, ih, Keyed.get?_insert]
    by_cases hk : n = k
    · subst hk
      simp [h]
    · have hless : n < k + 1 ↔ n < k := by omega
      simp only [hless, if_neg hk]
      omega

theorem length_linked (r : Resolution α) (n : Nat) :
    (if n < r.nodes.length then (linked r n).length else 0) = (linked r n).length := by
  split
  · rfl
  · rename_i hn
    simp [linked, List.getElem?_eq_none (Nat.le_of_not_lt hn)]

/-- Visits the nodes on a stack, each with the slot that refers to it, and all below them: the slots
that they take, and the allocator afterwards. Only on the first visit of a node the nodes that it
refers to are put on the stack. -/
def slots (r : Resolution α) (maxLevel : Option Nat) :
    List (Nat × Option Nat) → Visits → Except DataflowError (List Slot) × Allocator
  | [], v => (.ok v.slots, v.allocator)
  | (n, parent) :: stack, v =>
    let level := levelBelow v.slots parent
    match maxLevel.filter fun m => decide (m < level) with
    | some m => (.error (.depthExceeded m), v.allocator)
    | none =>
      match v.allocator.allocate? with
      | none => (.error .identifiersExhausted, v.allocator)
      | some (id, allocator) =>
        match _ : v.visited.get? n with
        | some first =>
          slots r maxLevel stack
            { v with allocator, slots := v.slots ++ [⟨n, id, parent, level, some first⟩] }
        | none =>
          slots r maxLevel ((linked r n).map (fun c => (c, some v.slots.length)) ++ stack)
            ⟨allocator, v.visited.insert n id, v.slots ++ [⟨n, id, parent, level, none⟩]⟩
termination_by stack v =>
  stack.length + unseen (fun n => (linked r n).length) v.visited r.nodes.length
decreasing_by
  · simp
  · rename_i h
    have hless := unseen_insert (fun n => (linked r n).length) h id r.nodes.length
    rw [length_linked] at hless
    simp only [List.length_append, List.length_map, List.length_cons]
    omega

/-! ## Actuators -/

/-- What the actuator of a slot does; a node that is not there gets no actuator. -/
def job? (r : Resolution α) (slot : Slot) : Option (Job α) :=
  r.nodes[slot.node]?.map fun n =>
    match slot.reference with
    | some first => referenceJob n slot.id first
    | none => ownJob n slot.id

/-- Puts slots together from the last one on, the first of them at a place. What is complete waits,
with the place of its parent, until that takes it as a child. -/
def assemble (r : Resolution α) :
    Nat → List Slot → List (Option Nat × Actuator α) → List (Option Nat × Actuator α)
  | _, [], waiting => waiting
  | place, slot :: slots, waiting =>
    let waiting := assemble r (place + 1) slots waiting
    let (children, others) := waiting.partition fun w => w.1 == some place
    match job? r slot with
    | none => others
    | some job => (slot.parent, .mk job (children.map Prod.snd)) :: others

/-- The actuators of the slots that have no parent. -/
def assembled (r : Resolution α) (slots : List Slot) : List (Actuator α) :=
  ((assemble r 0 slots []).filter fun w => w.1.isNone).map Prod.snd

/-- Requirements with those of the model of a slot, unless they were added on an earlier visit. -/
def gather (r : Resolution α) (requirements : TextSet) (slot : Slot) : TextSet :=
  match r.nodes[slot.node]?, slot.reference with
  | some n, none => requirements.union (requirementsOf n)
  | _, _ => requirements

/-- The requirements of all models that were visited. -/
def requirements (r : Resolution α) (slots : List Slot) : TextSet := slots.foldl (gather r) .empty

end Lowering

/-- The dataflow of a resolution, nested at most `maxLevel` levels below its roots if that is given,
and the allocator afterwards. -/
def Resolution.lower (r : Resolution α) (maxLevel : Option Nat) (allocator : Allocator) :
    Except DataflowError (Dataflow α) × Allocator :=
  let d : Dataflow α :=
    { Dataflow.empty r.scale with
      observable := some r.observable
      notifications := r.notifications }
  if r.isEmpty then (.ok d, allocator)
  else
    match Lowering.slots r maxLevel (r.roots.map fun n => (n, none)) { allocator } with
    | (.error e, allocator) => (.error e, allocator)
    | (.ok slots, allocator) =>
      let roots := Lowering.assembled r slots
      (.ok (Dataflow.recomputed { d with
        actuators := roots
        target := roots.head?.map fun a => a.job.id
        requirements := Lowering.requirements r slots }), allocator)

end Obsplan
