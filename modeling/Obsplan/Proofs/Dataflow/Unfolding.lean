import Mathlib.Data.List.Nodup
import Mathlib.Logic.Relation
import Obsplan.Proofs.Dataflow.Recursion
import Obsplan.Proofs.Search.Arena

/-!
# Unfolded resolutions

Lowering unfolds the nodes of a resolution from its roots downwards. Identifiers are given out in
the order of the walk. The first visit of a node makes the actuator that computes it, with one child
for every node that is linked, in the order of the links; each further visit makes an actuator that
refers to the first one. Main statement: what a run of the lowering makes.
-/

namespace Obsplan

variable {α : Type} [Coordinate α] {nodes : List (Node α)}

/-! ## Identifiers and walks -/

namespace Allocator

/-- The number that is handed out next, or the one behind the last number. -/
def bound (a : Allocator) : Nat := a.next.elim UInt64.size Identifier.val

theorem bound_allocate? {a a' : Allocator} {i : Identifier} (h : a.allocate? = some (i, a')) :
    i.val = a.bound ∧ a'.bound = a.bound + 1 := by
  obtain ⟨next⟩ := a
  cases next with
  | none => cases h
  | some j =>
    cases h
    refine ⟨rfl, ?_⟩
    simp only [bound, Identifier.next?, Identifier.ofNat?, Option.elim_some]
    split
    · rfl
    · have := i.lt
      simp only [Option.elim_none]
      omega

end Allocator

namespace Actuator

/-- The identifiers of some actuators and all below them, in the order of the walk. -/
def idsOf (as : List (Actuator α)) : List Identifier := (walkAll as).map fun a => a.job.id

/-- The identifiers of those actuators that refer to no other one. -/
def ownersOf (as : List (Actuator α)) : List Identifier :=
  ((walkAll as).filter fun a => decide (a.job.kind ≠ .reference)).map fun a => a.job.id

@[simp] theorem idsOf_nil : idsOf ([] : List (Actuator α)) = [] := rfl

@[simp] theorem ownersOf_nil : ownersOf ([] : List (Actuator α)) = [] := rfl

theorem idsOf_append (as bs : List (Actuator α)) : idsOf (as ++ bs) = idsOf as ++ idsOf bs := by
  simp [idsOf, walkAll_append]

theorem ownersOf_append (as bs : List (Actuator α)) :
    ownersOf (as ++ bs) = ownersOf as ++ ownersOf bs := by
  simp [ownersOf, walkAll_append]

theorem idsOf_mk (j : Job α) (as : List (Actuator α)) : idsOf [.mk j as] = j.id :: idsOf as := by
  simp [idsOf, walkAll, walk, job]

theorem ownersOf_mk (j : Job α) (as : List (Actuator α)) :
    ownersOf [.mk j as] = (if j.kind = .reference then [] else [j.id]) ++ ownersOf as := by
  by_cases h : j.kind = .reference <;> simp [ownersOf, walkAll, walk, job, h]

end Actuator

/-! ## Jobs -/

namespace Job

/-- What is said by the job of the actuator that computes a node. -/
structure Computes (j : Job α) (n : Node α) : Prop where
  kind : j.kind ≠ .reference
  reference : j.reference = none
  observable : j.observable = n.observable
  scale : j.scale = n.scale
  covered : n.means ≠ .unresolved → j.coverage = n.coverage
  uncovered : n.means = .unresolved → j.coverage = .empty n.scale
  model : ∀ m, n.means = .model m → j.kind = .observe ∧ j.strategy = some m.urn ∧
    j.computation = m.calls ∧ j.parameters = .ofList [("version", .text m.version.text)]
  standIn : n.means.model? = none → j.strategy = none

/-- What is said by the job of an actuator that refers to the one computing a node. -/
structure RefersTo (j : Job α) (n : Node α) (first : Identifier) : Prop where
  kind : j.kind = .reference
  reference : j.reference = some first
  observable : j.observable = n.observable
  scale : j.scale = n.scale
  coverage : j.coverage = n.coverage
  computation : j.computation = []
  strategy : j.strategy = none

end Job

/-! ## Trees -/

mutual

/-- An actuator stands for a node: it computes the node, and its children stand for what is linked,
or it refers to the actuator that does. -/
inductive Unfolds (nodes : List (Node α)) (own : Nat → Identifier) : Nat → Actuator α → Prop where
  | computed {i : Nat} {n : Node α} {j : Job α} {as : List (Actuator α)} : nodes[i]? = some n →
      j.id = own i → j.Computes n → UnfoldsAll nodes own n.children as →
      Unfolds nodes own i (.mk j as)
  | reference {i : Nat} {n : Node α} {j : Job α} : nodes[i]? = some n → j.RefersTo n (own i) →
      Unfolds nodes own i (.mk j [])

/-- Actuators stand for nodes, one by one. -/
inductive UnfoldsAll (nodes : List (Node α)) (own : Nat → Identifier) :
    List Nat → List (Actuator α) → Prop where
  | nil : UnfoldsAll nodes own [] []
  | cons {i : Nat} {is : List Nat} {a : Actuator α} {as : List (Actuator α)} :
      Unfolds nodes own i a → UnfoldsAll nodes own is as → UnfoldsAll nodes own (i :: is) (a :: as)

end

theorem UnfoldsAll.append {own : Nat → Identifier} {is js : List Nat} {as bs : List (Actuator α)}
    (h : UnfoldsAll nodes own is as) (h' : UnfoldsAll nodes own js bs) :
    UnfoldsAll nodes own (is ++ js) (as ++ bs) := by
  induction is generalizing as with
  | nil => cases h; exact h'
  | cons i is ih => cases h with | cons ha has => exact .cons ha (ih has)

mutual

/-- Everything below an actuator that stands for a node stands for a node as well. -/
theorem Unfolds.of_mem_walk {own : Nat → Identifier} {i : Nat} {a b : Actuator α}
    (h : Unfolds nodes own i a) (hb : b ∈ a.walk) : ∃ k, Unfolds nodes own k b := by
  match h with
  | .computed hn hid hj has =>
    rcases List.mem_cons.mp hb with rfl | hb
    · exact ⟨i, .computed hn hid hj has⟩
    · exact has.of_mem_walkAll hb
  | .reference hn hj =>
    obtain rfl := List.mem_singleton.mp hb
    exact ⟨i, .reference hn hj⟩

theorem UnfoldsAll.of_mem_walkAll {own : Nat → Identifier} {is : List Nat} {as : List (Actuator α)}
    {b : Actuator α} (h : UnfoldsAll nodes own is as) (hb : b ∈ Actuator.walkAll as) :
    ∃ k, Unfolds nodes own k b := by
  match h with
  | .nil => cases hb
  | .cons ha has =>
    rcases List.mem_append.mp hb with hb | hb
    · exact ha.of_mem_walk hb
    · exact has.of_mem_walkAll hb

end

namespace Lowering

theorem computes_ownJob (n : Node α) (id : Identifier) : (ownJob n id).Computes n := by
  unfold ownJob
  cases hm : n.means with
  | model m => constructor <;> simp [hm, Means.model?]
  | deferred => constructor <;> simp [hm]
  | constant value => constructor <;> simp [hm]
  | unresolved => constructor <;> simp [hm]

theorem id_ownJob (n : Node α) (id : Identifier) : (ownJob n id).id = id := by
  unfold ownJob; cases n.means <;> rfl

theorem refersTo_referenceJob (n : Node α) (id first : Identifier) :
    (referenceJob n id first).RefersTo n first :=
  ⟨rfl, rfl, rfl, rfl, rfl, rfl, rfl⟩

/-! ## Lowerings that succeed -/

section succeeds

variable {r : Resolution α} {maxLevel : Option Nat} {s s' : LoweringState}
  {as : List (Actuator α)}

theorem each_cons_ok {visit : Visit α} {i : Nat} {is : List Nat}
    (h : each visit (i :: is) s = (.ok as, s')) : ∃ here s₁ rest, visit i s = (.ok here, s₁) ∧
      each visit is s₁ = (.ok rest, s') ∧ as = here ++ rest := by
  unfold each at h
  split at h
  · cases h
  · rename_i here s₁ hhere
    split at h
    · cases h
    · rename_i rest s₂ hrest
      cases h
      exact ⟨here, s₁, rest, hhere, hrest, rfl⟩

/-- A node that is lowered stands above the deepest level and gets an identifier. -/
theorem visit_succ_ok {fuel level i : Nat}
    (h : visit r maxLevel (fuel + 1) level i s = (.ok as, s')) :
    (∀ m ∈ maxLevel, level ≤ m) ∧ ∃ id rest, s.allocator.allocate? = some (id, rest) ∧
      place r (visit r maxLevel fuel (level + 1)) i id { s with allocator := rest } =
        (.ok as, s') := by
  unfold visit at h
  split at h
  · cases h
  · rename_i hlimit
    refine ⟨fun m hm => ?_, ?_⟩
    · rw [hm] at hlimit
      simpa using hlimit
    · split at h
      · cases h
      · rename_i id rest ha
        exact ⟨id, rest, ha, h⟩

end succeeds

/-! ## Runs of the lowering -/

/-- Nodes are known by the identifiers given to them. -/
def Places (own : Nat → Identifier) (s : LoweringState) : Prop :=
  ∀ {i : Nat} {id : Identifier}, s.visited.get? i = some id → own i = id

theorem exists_places (s : LoweringState) : ∃ own, Places own s :=
  ⟨fun i => (s.visited.get? i).getD .first, fun hi => by simp only [hi, Option.getD_some]⟩

/-- What a run makes of some nodes: actuators for them, among these the only ones for the nodes in
`new`, which are visited for the first time. -/
structure Lowers (nodes : List (Node α)) (is : List Nat) (s : LoweringState)
    (as : List (Actuator α)) (new : List Nat) (s' : LoweringState) : Prop where
  unfolds : ∀ own, Places own s' → UnfoldsAll nodes own is as
  ids : (Actuator.idsOf as).map Identifier.val =
    List.range' s.allocator.bound (Actuator.idsOf as).length
  allocator : s'.allocator.bound = s.allocator.bound + (Actuator.idsOf as).length
  keys : s'.visited.keys = s.visited.keys ++ new
  nodup : s.visited.keys.Nodup → s'.visited.keys.Nodup
  owners : ∀ own, Places own s' → Actuator.ownersOf as = new.map own
  stays : ∀ {i : Nat} {id : Identifier}, s.visited.get? i = some id → s'.visited.get? i = some id
  present : ∀ i ∈ new, i < nodes.length
  visits : ∀ i ∈ is, i ∈ s'.visited.keys
  closed : ∀ i ∈ new, ∀ n ∈ nodes[i]?, ∀ c ∈ n.children, c ∈ s'.visited.keys
  requirements : ∀ t, t ∈ s'.requirements.toList ↔
    t ∈ s.requirements.toList ∨ ∃ i ∈ new, ∃ n ∈ nodes[i]?, t ∈ (requirementsOf n).toList

namespace Lowers

variable {is js new new' : List Nat} {s s₁ s' : LoweringState} {as bs : List (Actuator α)}

theorem mem_keys (h : Lowers nodes is s as new s') {i : Nat} (hi : i ∈ s.visited.keys) :
    i ∈ s'.visited.keys := by
  rw [h.keys]; exact List.mem_append_left _ hi

theorem places (h : Lowers nodes is s as new s') {own : Nat → Identifier} (hown : Places own s') :
    Places own s := fun hi => hown (h.stays hi)

theorem nil (s : LoweringState) : Lowers nodes [] s [] [] s where
  unfolds _ _ := .nil
  ids := rfl
  allocator := rfl
  keys := by simp
  nodup hs := hs
  owners _ _ := rfl
  stays hi := hi
  present := by simp
  visits := by simp
  closed := by simp
  requirements := by simp

theorem append (h : Lowers nodes is s as new s₁) (h' : Lowers nodes js s₁ bs new' s') :
    Lowers nodes (is ++ js) s (as ++ bs) (new ++ new') s' where
  unfolds own hown := (h.unfolds own (h'.places hown)).append (h'.unfolds own hown)
  ids := by
    rw [Actuator.idsOf_append, List.map_append, h.ids, h'.ids, h.allocator, List.length_append]
    exact List.range'_append_1
  allocator := by
    rw [h'.allocator, h.allocator, Actuator.idsOf_append, List.length_append, Nat.add_assoc]
  keys := by rw [h'.keys, h.keys, List.append_assoc]
  nodup hs := h'.nodup (h.nodup hs)
  owners own hown := by
    rw [Actuator.ownersOf_append, h.owners own (h'.places hown), h'.owners own hown,
      List.map_append]
  stays hi := h'.stays (h.stays hi)
  present := List.forall_mem_append.mpr ⟨h.present, h'.present⟩
  visits := List.forall_mem_append.mpr ⟨fun i hi => h'.mem_keys (h.visits i hi), h'.visits⟩
  closed := List.forall_mem_append.mpr
    ⟨fun i hi n hn c hc => h'.mem_keys (h.closed i hi n hn c hc), h'.closed⟩
  requirements t := by
    rw [h'.requirements, h.requirements, or_assoc]
    simp only [List.mem_append, or_and_right, exists_or]

variable {i : Nat} {n : Node α} {id : Identifier} {rest : Allocator}

/-- A node that was visited before is referred to. -/
theorem reference (hn : nodes[i]? = some n) (ha : s.allocator.allocate? = some (id, rest))
    {first : Identifier} (hi : s.visited.get? i = some first) :
    Lowers nodes [i] s [.mk (referenceJob n id first) []] [] { s with allocator := rest } where
  unfolds own hown := by
    have hfirst : own i = first := hown hi
    exact .cons (.reference hn (hfirst ▸ refersTo_referenceJob n id first)) .nil
  ids := by simp [Actuator.idsOf_mk, (Allocator.bound_allocate? ha).1, referenceJob]
  allocator := by simp [Actuator.idsOf_mk, (Allocator.bound_allocate? ha).2]
  keys := by simp
  nodup hs := hs
  owners _ _ := by simp [Actuator.ownersOf_mk, referenceJob]
  stays hk := hk
  present := by simp
  visits := by simpa using Keyed.mem_keys_of_get? hi
  closed := by simp
  requirements := by simp

/-- A node that is visited for the first time is computed, after what it is linked to. -/
theorem computed (hn : nodes[i]? = some n) (ha : s.allocator.allocate? = some (id, rest))
    (hi : s.visited.get? i = none)
    (h : Lowers nodes n.children { s with
      allocator := rest
      visited := s.visited.insert i id
      requirements := s.requirements.union (requirementsOf n) } as new s') :
    Lowers nodes [i] s [.mk (ownJob n id) as] (i :: new) s' where
  unfolds own hown := by
    have hid : own i = id := hown (h.stays (by simp [Keyed.get?_insert]))
    exact .cons (.computed hn ((id_ownJob n id).trans hid.symm) (computes_ownJob n id)
      (h.unfolds own hown)) .nil
  ids := by
    obtain ⟨hid, hrest⟩ := Allocator.bound_allocate? ha
    rw [Actuator.idsOf_mk, List.map_cons, h.ids, id_ownJob, hid, hrest, List.length_cons,
      List.range'_succ]
  allocator := by
    rw [h.allocator, (Allocator.bound_allocate? ha).2, Actuator.idsOf_mk, List.length_cons]
    omega
  keys := by
    rw [h.keys, Keyed.keys_insert, if_neg (Keyed.get?_eq_none.mp hi), List.append_assoc]
    rfl
  nodup hs := by
    refine h.nodup ?_
    rw [Keyed.keys_insert, if_neg (Keyed.get?_eq_none.mp hi)]
    exact List.nodup_append.mpr ⟨hs, List.nodup_singleton i, by
      rintro j hj _ hi' rfl
      exact Keyed.get?_eq_none.mp hi (List.mem_singleton.mp hi' ▸ hj)⟩
  owners own hown := by
    have hid : own i = id := hown (h.stays (by simp [Keyed.get?_insert]))
    rw [Actuator.ownersOf_mk, if_neg (computes_ownJob n id).kind, h.owners own hown, id_ownJob,
      List.map_cons, hid]
    rfl
  stays {k id'} hk := by
    refine h.stays ?_
    rw [Keyed.get?_insert, if_neg]
    · exact hk
    · rintro rfl
      rw [hi] at hk
      cases hk
  present := List.forall_mem_cons.mpr ⟨(List.getElem?_eq_some_iff.mp hn).1, h.present⟩
  visits := by
    have := h.mem_keys (i := i) (by simp [Keyed.keys_insert]; split <;> simp [*])
    simpa using this
  closed := by
    refine List.forall_mem_cons.mpr ⟨fun m hm => ?_, h.closed⟩
    rw [hn] at hm
    cases hm
    exact h.visits
  requirements t := by
    rw [h.requirements, TextSet.mem_union, or_assoc]
    simp only [List.exists_mem_cons_iff, hn, Option.mem_some_iff, exists_eq_left']

end Lowers

variable {r : Resolution α} {maxLevel : Option Nat} {s s' : LoweringState}
  {as : List (Actuator α)}

/-- A visitor that lowers the nodes before `n`. -/
def LowersBelow (nodes : List (Node α)) (n : Nat) (visit : Visit α) : Prop :=
  ∀ {i : Nat} {s s' : LoweringState} {as : List (Actuator α)}, i < n → i < nodes.length →
    visit i s = (.ok as, s') → ∃ new, Lowers nodes [i] s as new s'

theorem each_lowers {visit : Visit α} {n : Nat} (hvisit : LowersBelow nodes n visit) {is : List Nat}
    (his : ∀ i ∈ is, i < n ∧ i < nodes.length) (h : each visit is s = (.ok as, s')) :
    ∃ new, Lowers nodes is s as new s' := by
  induction is generalizing s as with
  | nil =>
    cases h
    exact ⟨[], .nil _⟩
  | cons i is ih =>
    obtain ⟨hi, his⟩ := List.forall_mem_cons.mp his
    obtain ⟨here, s₁, rest, hv, hvs, rfl⟩ := each_cons_ok h
    obtain ⟨new, hnew⟩ := hvisit hi.1 hi.2 hv
    obtain ⟨new', hnew'⟩ := ih his hvs
    exact ⟨new ++ new', hnew.append hnew'⟩

theorem place_lowers {deeper : Visit α} {n : Nat} (ho : Ordered r.nodes)
    (hdeep : LowersBelow r.nodes n deeper) (hn : n < r.nodes.length) {id : Identifier}
    {rest : Allocator} (ha : s.allocator.allocate? = some (id, rest))
    (h : place r deeper n id { s with allocator := rest } = (.ok as, s')) :
    ∃ new, Lowers r.nodes [n] s as new s' := by
  obtain ⟨node, hnode⟩ : ∃ node, r.nodes[n]? = some node := ⟨_, List.getElem?_eq_getElem hn⟩
  cases hv : s.visited.get? n with
  | some first =>
    simp only [place, hv, hnode] at h
    cases h
    exact ⟨[], .reference hnode ha hv⟩
  | none =>
    simp only [place, hv, hnode] at h
    split at h
    · cases h
    · rename_i children s₁ he
      cases h
      have hchildren : ∀ c ∈ node.children, c < n ∧ c < r.nodes.length := fun c hc =>
        have hlt : c < n := ho.descending ⟨node, hnode, hc⟩
        ⟨hlt, Nat.lt_trans hlt hn⟩
      obtain ⟨new, hnew⟩ := each_lowers hdeep hchildren he
      exact ⟨n :: new, .computed hnode ha hv hnew⟩

/-- Nodes refer to earlier ones only, so the fuel never ends. -/
theorem visit_lowers (ho : Ordered r.nodes) (fuel level : Nat) :
    LowersBelow r.nodes fuel (visit r maxLevel fuel level) := by
  induction fuel generalizing level with
  | zero => intro _ _ _ _ hi; exact absurd hi (Nat.not_lt_zero _)
  | succ fuel ih =>
    intro i s s' as hi hlen h
    obtain ⟨-, id, rest, ha, hplace⟩ := visit_succ_ok h
    refine place_lowers ho ?_ hlen ha hplace
    exact fun hj => ih (level + 1) (Nat.lt_of_lt_of_le hj (Nat.le_of_lt_succ hi))

end Lowering

namespace Resolution

open Lowering

variable {r : Resolution α} {maxLevel : Option Nat} {allocator rest : Allocator} {d : Dataflow α}

/-- A dataflow has the actuators of the roots. -/
theorem lower_ok (h : r.lower maxLevel allocator = (.ok d, rest)) :
    ∃ s', each (visit r maxLevel (r.nodes.length + 1) 0) r.roots { allocator } =
      (.ok d.actuators, s') ∧ d.requirements = s'.requirements ∧ rest = s'.allocator := by
  rw [lower_eq] at h
  unfold unfolded at h
  by_cases hempty : r.isEmpty = true
  · rw [if_pos hempty] at h
    cases h
    rw [List.isEmpty_iff.mp hempty]
    exact ⟨_, rfl, rfl, rfl⟩
  · rw [if_neg hempty] at h
    simp only at h
    split at h
    · cases h
    · rename_i roots s' he
      cases h
      exact ⟨s', he, rfl, rfl⟩

/-- What a lowering that succeeds makes of the roots. -/
theorem lower_lowers (ho : Ordered r.nodes) (hroots : ∀ i ∈ r.roots, i < r.nodes.length)
    (h : r.lower maxLevel allocator = (.ok d, rest)) :
    ∃ new s', Lowers r.nodes r.roots { allocator } d.actuators new s' ∧
      d.requirements = s'.requirements ∧ rest = s'.allocator := by
  obtain ⟨s', he, hrequirements, hrest⟩ := lower_ok h
  obtain ⟨new, hnew⟩ := each_lowers (visit_lowers ho _ 0)
    (fun i hi => ⟨Nat.lt_succ_of_lt (hroots i hi), hroots i hi⟩) he
  exact ⟨new, s', hnew, hrequirements, hrest⟩

/-- Everything that is reached from the roots is visited, and visited for the first time once. -/
theorem perm_visited {as : List (Actuator α)} {new : List Nat} {s' : LoweringState}
    (h : Lowers r.nodes r.roots { allocator } as new s')
    (hreach : ∀ i < r.nodes.length, ∃ root ∈ r.roots,
      Relation.ReflTransGen (Refers r.nodes) root i) :
    new.Perm (List.range r.nodes.length) := by
  have hkeys : s'.visited.keys = new := h.keys
  have hnodup : new.Nodup := hkeys ▸ h.nodup List.nodup_nil
  refine (List.perm_ext_iff_of_nodup hnodup List.nodup_range).mpr fun i => ?_
  rw [List.mem_range]
  refine ⟨h.present i, fun hi => ?_⟩
  obtain ⟨root, hroot, hpath⟩ := hreach i hi
  rw [← hkeys]
  induction hpath with
  | refl => exact h.visits root hroot
  | tail _ hlast ih =>
    obtain ⟨n, hn, hc⟩ := hlast
    exact h.closed _ (hkeys ▸ ih (List.getElem?_eq_some_iff.mp hn).1) n hn _ hc

end Resolution

end Obsplan
