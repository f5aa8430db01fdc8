import Obsplan.Proofs.Dataflow.Unfolding

/-!
# The order of computation

Actuators are computed after all below them, while the lowering of a resolution marks a node before
the nodes it is linked to. A node is only linked to earlier ones, so what is still open when a
reference is made is never what it refers to. Main statement: every reference of a lowered
resolution refers to something that was computed before.
-/

namespace Obsplan

variable {α : Type} [Coordinate α]

namespace Actuator

mutual

/-- An actuator after all below it, in the order in which they are computed. -/
def course : Actuator α → List (Actuator α)
  | .mk j as => courseAll as ++ [.mk j as]

def courseAll : List (Actuator α) → List (Actuator α)
  | [] => []
  | a :: as => course a ++ courseAll as

end

theorem mem_walkAll {a : Actuator α} {as : List (Actuator α)} (h : a ∈ as) : a ∈ walkAll as := by
  induction as with
  | nil => cases h
  | cons b as ih =>
    rw [walkAll]
    rcases List.mem_cons.mp h with rfl | h
    · cases a
      rw [walk]
      exact List.mem_append_left _ List.mem_cons_self
    · exact List.mem_append_right _ (ih h)

theorem courseAll_append (as bs : List (Actuator α)) :
    courseAll (as ++ bs) = courseAll as ++ courseAll bs := by
  induction as with
  | nil => rfl
  | cons a as ih => simp [courseAll, ih]

mutual

theorem perm_course : (a : Actuator α) → a.course.Perm a.walk
  | .mk j as => by
    rw [course, walk]
    exact List.perm_append_comm.trans ((perm_courseAll as).cons _)

theorem perm_courseAll : (as : List (Actuator α)) → (courseAll as).Perm (walkAll as)
  | [] => .nil
  | a :: as => by
    rw [courseAll, walkAll]
    exact (perm_course a).append (perm_courseAll as)

end

end Actuator

/-- The actuators of a plan in the order in which they are computed. -/
def Dataflow.course (d : Dataflow α) : List (Actuator α) := Actuator.courseAll d.actuators

/-! ## Roles -/

/-- The part of an actuator in the order of computation. -/
structure Role where
  id : Identifier
  kind : JobKind
  reference : Option Identifier
  deriving DecidableEq

namespace Role

/-- The identifiers of those that refer to no other one. -/
def owners (xs : List Role) : List Identifier :=
  (xs.filter fun x => decide (x.kind ≠ .reference)).map Role.id

theorem owners_append (xs ys : List Role) : owners (xs ++ ys) = owners xs ++ owners ys := by
  simp [owners]

/-- Every reference refers to something in `done` or to something computed before it. -/
def Settled : List Identifier → List Role → Prop
  | _, [] => True
  | done, x :: xs =>
    (x.kind = .reference → ∃ i ∈ done, x.reference = some i) ∧ Settled (done ++ owners [x]) xs

theorem settled_append {xs ys : List Role} {done : List Identifier} :
    Settled done (xs ++ ys) ↔ Settled done xs ∧ Settled (done ++ owners xs) ys := by
  induction xs generalizing done with
  | nil => simp [Settled, owners]
  | cons x xs ih =>
    have howners : owners (x :: xs) = owners [x] ++ owners xs := owners_append [x] xs
    rw [List.cons_append, Settled, Settled, ih, howners, List.append_assoc, and_assoc]

theorem settled_owner {x : Role} {done : List Identifier} (h : x.kind ≠ .reference) :
    Settled done [x] := ⟨fun hx => absurd hx h, trivial⟩

theorem Settled.mono {xs : List Role} {done more : List Identifier} (h : Settled done xs)
    (hsub : done ⊆ more) : Settled more xs := by
  induction xs generalizing done more with
  | nil => trivial
  | cons x xs ih =>
    refine ⟨fun hx => ?_, ih h.2 ?_⟩
    · obtain ⟨i, hi, hreference⟩ := h.1 hx
      exact ⟨i, hsub hi, hreference⟩
    · exact List.append_subset.mpr ⟨List.Subset.trans hsub (List.subset_append_left _ _),
        List.subset_append_right _ _⟩

/-- What is put between others settles as before, and so do the others. -/
theorem Settled.insert {xs ys zs : List Role} (h : Settled [] (xs ++ zs)) (hys : Settled [] ys) :
    Settled [] (xs ++ (ys ++ zs)) := by
  obtain ⟨hxs, hzs⟩ := settled_append.mp h
  refine settled_append.mpr ⟨hxs, settled_append.mpr ⟨hys.mono (List.nil_subset _), hzs.mono ?_⟩⟩
  exact List.subset_append_left _ _

theorem mem_owners {xs : List Role} {i : Identifier} :
    i ∈ owners xs ↔ ∃ x ∈ xs, x.kind ≠ .reference ∧ x.id = i := by
  simp [owners, and_assoc]

/-- A reference refers to something before it. -/
theorem Settled.before {xs ys : List Role} {x : Role} (h : Settled [] (xs ++ x :: ys))
    (hx : x.kind = .reference) :
    ∃ y ∈ xs, y.kind ≠ .reference ∧ x.reference = some y.id := by
  obtain ⟨i, hi, hreference⟩ := (settled_append.mp h).2.1 hx
  obtain ⟨y, hy, hkind, rfl⟩ := mem_owners.mp hi
  exact ⟨y, hy, hkind, hreference⟩

end Role

namespace Actuator

def role (a : Actuator α) : Role := ⟨a.job.id, a.job.kind, a.job.reference⟩

/-- The roles of actuators in the order of computation. -/
def roles (as : List (Actuator α)) : List Role := (courseAll as).map role

@[simp] theorem roles_nil : roles ([] : List (Actuator α)) = [] := rfl

theorem roles_append (as bs : List (Actuator α)) : roles (as ++ bs) = roles as ++ roles bs := by
  simp [roles, courseAll_append]

theorem roles_mk (j : Job α) (as : List (Actuator α)) :
    roles [.mk j as] = roles as ++ [⟨j.id, j.kind, j.reference⟩] := by
  simp [roles, courseAll, course, role, job]

theorem perm_ids_roles (as : List (Actuator α)) : ((roles as).map Role.id).Perm (idsOf as) := by
  rw [roles, List.map_map]
  exact (perm_courseAll as).map _

end Actuator

/-! ## Lowered nodes -/

namespace Lowering

open Actuator Role

variable {r : Resolution α} {maxLevel : Option Nat} {s s' : LoweringState} {as : List (Actuator α)}
  {done : List Identifier} {n : Nat}

/-- What was visited of the first `n` nodes is computed. -/
def Finished (n : Nat) (s : LoweringState) (done : List Identifier) : Prop :=
  ∀ k < n, ∀ id, s.visited.get? k = some id → id ∈ done

/-- Actuators for some of the first `n` nodes, made when `done` was computed: they settle, and other
nodes are not visited meanwhile. -/
structure Settles (n : Nat) (s : LoweringState) (done : List Identifier) (as : List (Actuator α))
    (s' : LoweringState) : Prop where
  settled : Settled done (roles as)
  finished : Finished n s' (done ++ owners (roles as))
  above : ∀ k, n ≤ k → s'.visited.get? k = s.visited.get? k

theorem Settles.widen {m : Nat} (h : Settles m s done as s') (hle : m ≤ n)
    (hs : Finished n s done) : Settles n s done as s' where
  settled := h.settled
  finished k hk id hid := by
    by_cases hm : k < m
    · exact h.finished k hm id hid
    · rw [h.above k (Nat.le_of_not_lt hm)] at hid
      exact List.mem_append_left _ (hs k hk id hid)
  above k hk := h.above k (Nat.le_trans hle hk)

theorem Settles.append {s₁ : LoweringState} {bs : List (Actuator α)} (h : Settles n s done as s₁)
    (h' : Settles n s₁ (done ++ owners (roles as)) bs s') : Settles n s done (as ++ bs) s' where
  settled := by
    rw [roles_append]
    exact settled_append.mpr ⟨h.settled, h'.settled⟩
  finished := by
    rw [roles_append, owners_append, ← List.append_assoc]
    exact h'.finished
  above k hk := (h'.above k hk).trans (h.above k hk)

/-- A visitor under which the nodes before `n` settle. -/
def SettlesBelow (nodes : List (Node α)) (n : Nat) (visit : Visit α) : Prop :=
  ∀ {i : Nat} {s s' : LoweringState} {as : List (Actuator α)} {done : List Identifier}, i < n →
    i < nodes.length → Finished (i + 1) s done → visit i s = (.ok as, s') →
    Settles (i + 1) s done as s'

theorem each_settles {visit : Visit α} (hvisit : SettlesBelow r.nodes n visit) {is : List Nat}
    (his : ∀ i ∈ is, i < n ∧ i < r.nodes.length) (hs : Finished n s done)
    (h : each visit is s = (.ok as, s')) : Settles n s done as s' := by
  induction is generalizing s done as with
  | nil =>
    cases h
    exact ⟨trivial, by simpa [roles, courseAll, owners] using hs, fun _ _ => rfl⟩
  | cons i is ih =>
    obtain ⟨⟨hi, hlen⟩, his⟩ := List.forall_mem_cons.mp his
    obtain ⟨here, s₁, rest, hv, hvs, rfl⟩ := each_cons_ok h
    have hbelow : Finished (i + 1) s done := fun k hk => hs k (Nat.lt_of_lt_of_le hk hi)
    have hhere := (hvisit hi hlen hbelow hv).widen hi hs
    exact hhere.append (ih his hhere.finished hvs)

theorem place_settles {deeper : Visit α} (ho : Ordered r.nodes)
    (hdeep : SettlesBelow r.nodes n deeper) (hn : n < r.nodes.length) {id : Identifier}
    (hs : Finished (n + 1) s done) (h : place r deeper n id s = (.ok as, s')) :
    Settles (n + 1) s done as s' := by
  obtain ⟨node, hnode⟩ : ∃ node, r.nodes[n]? = some node := ⟨_, List.getElem?_eq_getElem hn⟩
  cases hv : s.visited.get? n with
  | some first =>
    simp only [place, hv, hnode] at h
    cases h
    have hdone : first ∈ done := hs n (Nat.lt_succ_self n) first hv
    rw [← List.append_nil done] at hs
    refine ⟨?_, by simpa [roles_mk, referenceJob, owners] using hs, fun _ _ => rfl⟩
    rw [roles_mk]
    exact ⟨fun _ => ⟨first, hdone, rfl⟩, trivial⟩
  | none =>
    simp only [place, hv, hnode] at h
    split at h
    · cases h
    · rename_i children s₁ he
      cases h
      have hchildren : ∀ c ∈ node.children, c < n ∧ c < r.nodes.length := fun c hc =>
        have hlt : c < n := ho.descending ⟨node, hnode, hc⟩
        ⟨hlt, Nat.lt_trans hlt hn⟩
      -- the node itself is open, but what is linked comes before it
      have hopen : Finished n { s with
          visited := s.visited.insert n id
          requirements := s.requirements.union (requirementsOf node) } done := by
        intro k hk id' hid'
        rw [Keyed.get?_insert, if_neg (Nat.ne_of_gt hk)] at hid'
        exact hs k (Nat.lt_succ_of_lt hk) id' hid'
      have hsettles := each_settles hdeep hchildren hopen he
      have hkind : (ownJob node id).kind ≠ .reference := (computes_ownJob node id).kind
      have howner : owners [⟨(ownJob node id).id, (ownJob node id).kind,
          (ownJob node id).reference⟩] = [id] := by
        simp [owners, hkind, id_ownJob]
      refine ⟨?_, ?_, ?_⟩
      · rw [roles_mk]
        exact settled_append.mpr ⟨hsettles.settled, settled_owner hkind⟩
      · rw [roles_mk, owners_append, howner, ← List.append_assoc]
        intro k hk id' hid'
        by_cases hkn : k = n
        · subst hkn
          rw [hsettles.above k (Nat.le_refl k), Keyed.get?_insert, if_pos rfl] at hid'
          cases hid'
          exact List.mem_append_right _ List.mem_cons_self
        · exact List.mem_append_left _ (hsettles.finished k (by omega) id' hid')
      · intro k hk
        rw [hsettles.above k (Nat.le_of_succ_le hk), Keyed.get?_insert, if_neg (Nat.ne_of_lt hk)]

theorem visit_settles (ho : Ordered r.nodes) (fuel level : Nat) :
    SettlesBelow r.nodes fuel (visit r maxLevel fuel level) := by
  induction fuel generalizing level with
  | zero => intro _ _ _ _ _ hi; exact absurd hi (Nat.not_lt_zero _)
  | succ fuel ih =>
    intro i s s' as done hi hlen hs h
    obtain ⟨-, id, rest, -, hplaced⟩ := visit_succ_ok h
    have hdeep : SettlesBelow r.nodes i (visit r maxLevel fuel (level + 1)) :=
      fun hj => ih (level + 1) (Nat.lt_of_lt_of_le hj (Nat.le_of_lt_succ hi))
    have hplace := place_settles (s := { s with allocator := rest }) ho hdeep hlen hs hplaced
    exact ⟨hplace.settled, hplace.finished, hplace.above⟩

end Lowering

namespace Resolution

open Lowering

variable {r : Resolution α} {maxLevel : Option Nat} {allocator rest : Allocator} {d : Dataflow α}

/-- Every reference of a lowered resolution refers to something computed before. -/
theorem lower_settled (ho : Ordered r.nodes) (hroots : ∀ i ∈ r.roots, i < r.nodes.length)
    (h : r.lower maxLevel allocator = (.ok d, rest)) :
    Role.Settled [] (Actuator.roles d.actuators) := by
  obtain ⟨s', he, -, -⟩ := lower_ok h
  have hstart : Finished (r.nodes.length + 1) { allocator } [] := by
    intro k _ id hid
    cases hid
  exact (each_settles (visit_settles ho _ 0)
    (fun i hi => ⟨Nat.lt_succ_of_lt (hroots i hi), hroots i hi⟩) hstart he).settled

end Resolution

end Obsplan
