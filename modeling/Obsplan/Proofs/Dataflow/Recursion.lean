import Obsplan.Dataflow.Lowering

/-!
# Lowering by recursion

The visits of a lowering take slots one after the other, and these are put together from the last
one on. Both are the two halves of a recursion over the nodes: each node is lowered to its actuator
after all that it is linked to. Main statement: the recursion makes the same dataflow, takes the
same identifiers and fails in the same places.
-/

namespace Obsplan

variable {α : Type} [Coordinate α]

/-- What the recursion carries along. -/
structure LoweringState where
  allocator : Allocator
  /-- The identifiers given to the nodes on their first visit. -/
  visited : Keyed Nat Identifier := .empty
  /-- The requirements of the models met so far. -/
  requirements : TextSet := .empty

namespace Lowering

/-- Lowers a node. -/
abbrev Visit (α : Type) [Coordinate α] :=
  Nat → LoweringState → Except DataflowError (List (Actuator α)) × LoweringState

/-- Lowers nodes in turn, until one fails. -/
def each (visit : Visit α) :
    List Nat → LoweringState → Except DataflowError (List (Actuator α)) × LoweringState
  | [], s => (.ok [], s)
  | n :: ns, s =>
    match visit n s with
    | (.error e, s) => (.error e, s)
    | (.ok here, s) =>
      match each visit ns s with
      | (.error e, s) => (.error e, s)
      | (.ok rest, s) => (.ok (here ++ rest), s)

/-- Lowers a node that gets an identifier: a node visited before is referred to. -/
def place (r : Resolution α) (deeper : Visit α) (n : Nat) (id : Identifier) (s : LoweringState) :
    Except DataflowError (List (Actuator α)) × LoweringState :=
  match s.visited.get? n, r.nodes[n]? with
  | some first, some node => (.ok [.mk (referenceJob node id first) []], s)
  | some _, none => (.ok [], s)
  | none, none => (.ok [], { s with visited := s.visited.insert n id })
  | none, some node =>
    let s := { s with
      visited := s.visited.insert n id
      requirements := s.requirements.union (requirementsOf node) }
    match each deeper node.children s with
    | (.error e, s) => (.error e, s)
    | (.ok children, s) => (.ok [.mk (ownJob node id) children], s)

/-- Lowers a node at a nesting level. A node is unfolded only on its first visit, so the nesting
stays below `fuel` when that exceeds the number of nodes. -/
def visit (r : Resolution α) (maxLevel : Option Nat) : Nat → Nat → Visit α
  | 0, _, _, s => (.ok [], s)
  | fuel + 1, level, n, s =>
    match maxLevel.filter fun m => decide (m < level) with
    | some m => (.error (.depthExceeded m), s)
    | none =>
      match s.allocator.allocate? with
      | none => (.error .identifiersExhausted, s)
      | some (id, allocator) =>
        place r (visit r maxLevel fuel (level + 1)) n id { s with allocator }

end Lowering

/-- The dataflow of a resolution by recursion over its nodes. -/
def Resolution.unfolded (r : Resolution α) (maxLevel : Option Nat) (allocator : Allocator) :
    Except DataflowError (Dataflow α) × Allocator :=
  let d : Dataflow α :=
    { Dataflow.empty r.scale with
      observable := some r.observable
      notifications := r.notifications }
  if r.isEmpty then (.ok d, allocator)
  else
    let visit := Lowering.visit r maxLevel (r.nodes.length + 1) 0
    match Lowering.each visit r.roots { allocator } with
    | (.error e, s) => (.error e, s.allocator)
    | (.ok roots, s) =>
      (.ok (Dataflow.recomputed { d with
        actuators := roots
        target := roots.head?.map fun a => a.job.id
        requirements := s.requirements }), s.allocator)

namespace Lowering

variable {r : Resolution α} {maxLevel : Option Nat} {parent : Option Nat} {start : Nat}
  {new more : List Slot} {as bs : List (Actuator α)}

/-! ## Slots that are put together -/

theorem assemble_append (r : Resolution α) (start : Nat) (new more : List Slot)
    (waiting : List (Option Nat × Actuator α)) :
    assemble r start (new ++ more) waiting =
      assemble r start new (assemble r (start + new.length) more waiting) := by
  induction new generalizing start with
  | nil => rfl
  | cons slot new ih =>
    rw [List.cons_append, assemble, assemble, ih, List.length_cons, Nat.add_right_comm,
      Nat.add_assoc]

/-- Slots that stand at a place and become actuators below a parent. Whatever waits for a slot in
front of them goes on waiting. -/
def Builds (r : Resolution α) (parent : Option Nat) (start : Nat) (new : List Slot)
    (as : List (Actuator α)) : Prop :=
  ∀ waiting : List (Option Nat × Actuator α), (∀ w ∈ waiting, ∀ p, w.1 = some p → p < start) →
    assemble r start new waiting = as.map (fun a => (parent, a)) ++ waiting

namespace Builds

theorem nil : Builds r parent start [] [] := fun _ _ => rfl

theorem append (hparent : ∀ p, parent = some p → p < start) (h : Builds r parent start new as)
    (h' : Builds r parent (start + new.length) more bs) :
    Builds r parent start (new ++ more) (as ++ bs) := by
  intro waiting hwaiting
  rw [assemble_append, h' waiting fun w hw p hp => Nat.lt_add_right _ (hwaiting w hw p hp), h,
    List.map_append, List.append_assoc]
  intro w hw p hp
  rcases List.mem_append.mp hw with hw | hw
  · obtain ⟨b, -, rfl⟩ := List.mem_map.mp hw
    exact hparent p hp
  · exact hwaiting w hw p hp

/-- Nothing waits for a slot but its children. -/
theorem partition_waiting {waiting : List (Option Nat × Actuator α)}
    (hwaiting : ∀ w ∈ waiting, ∀ p, w.1 = some p → p < start) (as : List (Actuator α)) :
    (as.map (fun a => (some start, a)) ++ waiting).partition (fun w => w.1 == some start) =
      (as.map fun a => (some start, a), waiting) := by
  have hothers : ∀ w ∈ waiting, (w.1 == some start) = false := by
    intro w hw
    rw [beq_eq_false_iff_ne]
    intro hp
    exact Nat.lt_irrefl _ (hwaiting w hw start hp)
  have hnone : waiting.filter (fun w => w.1 == some start) = [] :=
    List.filter_eq_nil_iff.mpr fun w hw => by simp [hothers w hw]
  have hkept : waiting.filter (not ∘ fun w => w.1 == some start) = waiting :=
    List.filter_eq_self.mpr fun w hw => by simp [hothers w hw]
  have hchildren : ∀ w ∈ as.map fun a => (some start, a), (w.1 == some start) = true := by simp
  rw [List.partition_eq_filter_filter, List.filter_append, List.filter_append, hnone, hkept,
    List.filter_eq_self.mpr hchildren, List.filter_eq_nil_iff.mpr fun w hw => by
      simp [hchildren w hw], List.append_nil, List.nil_append]

/-- A slot takes its children. -/
theorem slot {slot : Slot} {job : Job α} (hjob : job? r slot = some job)
    (h : Builds r (some start) (start + 1) new as) :
    Builds r slot.parent start (slot :: new) [.mk job as] := by
  intro waiting hwaiting
  have hchildren := h waiting fun w hw p hp => Nat.lt_succ_of_lt (hwaiting w hw p hp)
  simp only [assemble, hchildren, partition_waiting hwaiting, hjob, List.map_map]
  simp [Function.comp_def]

/-- The slot of a node that is not there becomes nothing. -/
theorem missing {slot : Slot} (hjob : job? r slot = none) :
    Builds r slot.parent start [slot] [] := by
  intro waiting hwaiting
  have hnone := partition_waiting hwaiting []
  rw [List.map_nil, List.nil_append] at hnone
  simp only [assemble, hnone, hjob]
  rfl

end Builds

/-! ## One visit -/

section step

variable {n level : Nat} {stack : List (Nat × Option Nat)} {v : Visits} {id : Identifier}
  {allocator : Allocator}

theorem slots_tooDeep {m : Nat}
    (h : (maxLevel.filter fun m => decide (m < levelBelow v.slots parent)) = some m) :
    slots r maxLevel ((n, parent) :: stack) v = (.error (.depthExceeded m), v.allocator) := by
  rw [slots]
  simp only [h]

variable (hlevel : (maxLevel.filter fun m => decide (m < levelBelow v.slots parent)) = none)
include hlevel

theorem slots_exhausted (ha : v.allocator.allocate? = none) :
    slots r maxLevel ((n, parent) :: stack) v = (.error .identifiersExhausted, v.allocator) := by
  rw [slots]
  simp only [hlevel, ha]

theorem slots_again (ha : v.allocator.allocate? = some (id, allocator)) {first : Identifier}
    (h : v.visited.get? n = some first) :
    slots r maxLevel ((n, parent) :: stack) v = slots r maxLevel stack ⟨allocator, v.visited,
      v.slots ++ [⟨n, id, parent, levelBelow v.slots parent, some first⟩]⟩ := by
  rw [slots]
  simp only [hlevel, ha]
  split
  · rename_i first' h'
    cases h.symm.trans h'
    rfl
  · rename_i h'
    cases h.symm.trans h'

theorem slots_first (ha : v.allocator.allocate? = some (id, allocator))
    (h : v.visited.get? n = none) :
    slots r maxLevel ((n, parent) :: stack) v =
      slots r maxLevel ((linked r n).map (fun c => (c, some v.slots.length)) ++ stack)
        ⟨allocator, v.visited.insert n id,
          v.slots ++ [⟨n, id, parent, levelBelow v.slots parent, none⟩]⟩ := by
  rw [slots]
  simp only [hlevel, ha]
  split
  · rename_i first h'
    cases h.symm.trans h'
  · rfl

end step

/-! ## Visits as a recursion -/

/-- The visits of what is on top of a stack come to what a recursion gives: they fail alike, or they
take slots that become the actuators of the recursion, and go on with the rest of the stack. -/
inductive Follows (r : Resolution α) (maxLevel : Option Nat) (parent : Option Nat)
    (top : List (Nat × Option Nat)) (v : Visits) (requirements : TextSet) :
    Except DataflowError (List (Actuator α)) × LoweringState → Prop where
  | failed {e : DataflowError} {s : LoweringState} :
    (∀ stack, slots r maxLevel (top ++ stack) v = (.error e, s.allocator)) →
    Follows r maxLevel parent top v requirements (.error e, s)
  | done {as : List (Actuator α)} {s : LoweringState} (new : List Slot) :
    (∀ stack, slots r maxLevel (top ++ stack) v =
      slots r maxLevel stack ⟨s.allocator, s.visited, v.slots ++ new⟩) →
    Builds r parent v.slots.length new as → new.foldl (gather r) requirements = s.requirements →
    unseen (fun _ => 1) s.visited r.nodes.length ≤ unseen (fun _ => 1) v.visited r.nodes.length →
    Follows r maxLevel parent top v requirements (.ok as, s)

theorem unseen_le (visited : Keyed Nat Identifier) (k : Nat) :
    unseen (fun _ => 1) visited k ≤ k := by
  induction k with
  | zero => exact Nat.le_refl _
  | succ k ih =>
    rw [unseen]
    split <;> omega

/-- A slot can have children at a level. -/
structure Above (slots : List Slot) (parent : Option Nat) (level : Nat) : Prop where
  known : ∀ p, parent = some p → p < slots.length
  level : levelBelow slots parent = level

theorem Above.append {slots : List Slot} {level : Nat} (h : Above slots parent level)
    (new : List Slot) : Above (slots ++ new) parent level where
  known p hp := by
    rw [List.length_append]
    exact Nat.lt_add_right _ (h.known p hp)
  level := by
    cases parent with
    | none => exact h.level
    | some p =>
      rw [← h.level, levelBelow, levelBelow, List.getElem?_append_left (h.known p rfl)]

/-- What a visitor does is what the visits do. -/
def Mirrored (r : Resolution α) (maxLevel : Option Nat) (fuel level : Nat) (visit : Visit α) :
    Prop :=
  ∀ n parent v requirements, Above v.slots parent level →
    unseen (fun _ => 1) v.visited r.nodes.length < fuel →
    Follows r maxLevel parent [(n, parent)] v requirements
      (visit n ⟨v.allocator, v.visited, requirements⟩)

theorem each_follows {fuel level : Nat} {visit : Visit α}
    (hvisit : Mirrored r maxLevel fuel level visit) (ns : List Nat) {v : Visits}
    (requirements : TextSet) (habove : Above v.slots parent level)
    (hfuel : unseen (fun _ => 1) v.visited r.nodes.length < fuel) :
    Follows r maxLevel parent (ns.map fun n => (n, parent)) v requirements
      (each visit ns ⟨v.allocator, v.visited, requirements⟩) := by
  induction ns generalizing v requirements with
  | nil => exact .done [] (fun stack => by simp) .nil rfl (Nat.le_refl _)
  | cons n ns ih =>
    have hfirst := hvisit n parent v requirements habove hfuel
    rw [each]
    generalize visit n ⟨v.allocator, v.visited, requirements⟩ = first at hfirst
    cases hfirst with
    | failed hslots => exact .failed fun stack => hslots _
    | @done as s new hslots hbuilds hgather hunseen =>
      have hrest := ih (v := ⟨s.allocator, s.visited, v.slots ++ new⟩) s.requirements
        (habove.append new) (Nat.lt_of_le_of_lt hunseen hfuel)
      dsimp only at hrest ⊢
      generalize each visit ns s = rest at hrest
      cases hrest with
      | failed hslots' => exact .failed fun stack => (hslots _).trans (hslots' stack)
      | @done bs s' more hslots' hbuilds' hgather' hunseen' =>
        refine .done (new ++ more) (fun stack => ?_) ?_ ?_ (Nat.le_trans hunseen' hunseen)
        · rw [← List.append_assoc]
          exact (hslots _).trans (hslots' stack)
        · rw [List.length_append] at hbuilds'
          exact hbuilds.append habove.known hbuilds'
        · rw [List.foldl_append, hgather, hgather']

theorem place_follows {fuel n level : Nat} {deeper : Visit α}
    (hdeeper : Mirrored r maxLevel fuel (level + 1) deeper) {v : Visits} {id : Identifier}
    {allocator : Allocator} (requirements : TextSet) (habove : Above v.slots parent level)
    (hfuel : unseen (fun _ => 1) v.visited r.nodes.length < fuel + 1)
    (hlevel : (maxLevel.filter fun m => decide (m < levelBelow v.slots parent)) = none)
    (ha : v.allocator.allocate? = some (id, allocator)) :
    Follows r maxLevel parent [(n, parent)] v requirements
      (place r deeper n id ⟨allocator, v.visited, requirements⟩) := by
  cases hvisited : v.visited.get? n with
  | some first =>
    cases hnode : r.nodes[n]? with
    | some node =>
      simp only [place, hvisited, hnode]
      exact .done _ (fun stack => slots_again hlevel ha hvisited)
        (.slot (by simp [job?, hnode]) .nil) (by simp [gather, hnode]) (Nat.le_refl _)
    | none =>
      simp only [place, hvisited, hnode]
      exact .done _ (fun stack => slots_again hlevel ha hvisited)
        (.missing (by simp [job?, hnode])) (by simp [gather, hnode]) (Nat.le_refl _)
  | none =>
    have hunseen := unseen_insert (fun _ => 1) hvisited id r.nodes.length
    cases hnode : r.nodes[n]? with
    | none =>
      have hlinked : linked r n = [] := by rw [linked, hnode, Option.elim_none]
      simp only [place, hvisited, hnode]
      refine .done [⟨n, id, parent, levelBelow v.slots parent, none⟩]
        (fun stack => (slots_first hlevel ha hvisited).trans ?_) (.missing (by simp [job?, hnode]))
        (by simp [gather, hnode]) (hunseen ▸ Nat.le_add_right _ _)
      rw [hlinked]
      rfl
    | some node =>
      have hlinked : linked r n = node.children := by rw [linked, hnode, Option.elim_some]
      have hn : n < r.nodes.length := (List.getElem?_eq_some_iff.mp hnode).1
      rw [if_pos hn] at hunseen
      have hchildren : Follows r maxLevel (some v.slots.length) _ _ _ _ :=
        each_follows hdeeper node.children (v := ⟨allocator, v.visited.insert n id,
          v.slots ++ [⟨n, id, parent, levelBelow v.slots parent, none⟩]⟩)
          (requirements.union (requirementsOf node))
          ⟨by simp, by rw [← habove.level]; simp [levelBelow]⟩ (by dsimp only; omega)
      simp only [place, hvisited, hnode]
      generalize each deeper node.children _ = result at hchildren ⊢
      cases hchildren with
      | failed hslots =>
        refine .failed fun stack => (slots_first hlevel ha hvisited).trans ?_
        rw [hlinked]
        exact hslots stack
      | @done as s new hslots hbuilds hgather hless =>
        refine .done (⟨n, id, parent, levelBelow v.slots parent, none⟩ :: new)
          (fun stack => (slots_first hlevel ha hvisited).trans ?_)
          (.slot (by simp [job?, hnode]) ?_) ?_ ?_
        · rw [hlinked]
          simpa using hslots stack
        · simpa using hbuilds
        · simpa [gather, hnode] using hgather
        · dsimp only at hless
          omega

theorem visit_mirrored (r : Resolution α) (maxLevel : Option Nat) (fuel level : Nat) :
    Mirrored r maxLevel fuel level (visit r maxLevel fuel level) := by
  induction fuel generalizing level with
  | zero => exact fun n parent v requirements _ hfuel => absurd hfuel (Nat.not_lt_zero _)
  | succ fuel ih =>
    intro n parent v requirements habove hfuel
    rw [visit]
    split
    · rename_i m hlevel
      rw [← habove.level] at hlevel
      exact .failed fun stack => slots_tooDeep hlevel
    · rename_i hlevel
      rw [← habove.level] at hlevel
      split
      · rename_i ha
        exact .failed fun stack => slots_exhausted hlevel ha
      · rename_i id allocator ha
        exact place_follows (ih (level + 1)) requirements habove hfuel hlevel ha

end Lowering

/-- A resolution is lowered as by recursion. -/
theorem Resolution.lower_eq (r : Resolution α) (maxLevel : Option Nat) (allocator : Allocator) :
    r.lower maxLevel allocator = r.unfolded maxLevel allocator := by
  unfold lower unfolded
  split
  · rfl
  · have hnodes : Lowering.unseen (fun _ => 1) .empty r.nodes.length < r.nodes.length + 1 :=
      Nat.lt_succ_of_le (Lowering.unseen_le _ _)
    have hroots : Lowering.Follows r maxLevel none _ _ _ _ := Lowering.each_follows
      (Lowering.visit_mirrored r maxLevel (r.nodes.length + 1) 0) r.roots (v := { allocator })
      .empty ⟨by simp, rfl⟩ hnodes
    dsimp only at hroots ⊢
    generalize Lowering.each (Lowering.visit r maxLevel (r.nodes.length + 1) 0) r.roots
      { allocator } = result at hroots ⊢
    cases hroots with
    | failed hslots =>
      rw [← List.append_nil (r.roots.map _), hslots []]
    | @done as s new hslots hbuilds hgather _ =>
      have hassemble : Lowering.assemble r 0 new [] = as.map (fun a => (none, a)) ++ [] :=
        hbuilds [] (by simp)
      have has : Lowering.assembled r new = as := by
        have hroot : ∀ w ∈ as.map fun a => ((none : Option Nat), a), w.1.isNone = true := by simp
        rw [Lowering.assembled, hassemble, List.append_nil, List.filter_eq_self.mpr hroot,
          List.map_map]
        exact List.map_id as
      rw [← List.append_nil (r.roots.map _), hslots [], Lowering.slots]
      simp only [List.nil_append, has, Lowering.requirements, hgather]

end Obsplan
