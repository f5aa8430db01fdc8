import Obsplan.Proofs.Dataflow.Coverage
import Obsplan.Proofs.Dataflow.Splicing

/-!
# Plans of one allocator

Resolutions are lowered with one allocator, and the plans are added to each other in any way. Every
reference keeps what it refers to before it, and the target of a plan is one of its actuators. The
identifiers of a plan are those of the lowered plans it is made of, which stay apart.
-/

namespace Obsplan

variable {α : Type} [Coordinate α]

/-! ## Identifiers that were handed out -/

namespace Lowering

variable {r : Resolution α} {maxLevel : Option Nat}

/-- A visitor that only takes identifiers from the allocator, also when it fails. -/
def Allocates (visit : Visit α) : Prop :=
  ∀ i s, s.allocator.bound ≤ (visit i s).2.allocator.bound

theorem each_allocates {visit : Visit α} (hvisit : Allocates visit) (is : List Nat)
    (s : LoweringState) : s.allocator.bound ≤ (each visit is s).2.allocator.bound := by
  induction is generalizing s with
  | nil => exact Nat.le_refl _
  | cons i is ih =>
    have hfirst := hvisit i s
    unfold each
    split
    · rename_i hi
      rw [hi] at hfirst
      exact hfirst
    · rename_i s₁ hi
      rw [hi] at hfirst
      have hrest := ih s₁
      split <;> rename_i his <;> rw [his] at hrest <;> exact Nat.le_trans hfirst hrest

theorem place_allocates {deeper : Visit α} (hdeep : Allocates deeper) (n : Nat) (id : Identifier)
    (s : LoweringState) : s.allocator.bound ≤ (place r deeper n id s).2.allocator.bound := by
  unfold place
  split
  · exact Nat.le_refl _
  · exact Nat.le_refl _
  · exact Nat.le_refl _
  · rename_i node _ _
    have hchildren := each_allocates hdeep node.children { s with
      visited := s.visited.insert n id
      requirements := s.requirements.union (requirementsOf node) }
    dsimp only
    split <;> rename_i he <;> rw [he] at hchildren <;> exact hchildren

theorem visit_allocates (fuel level : Nat) : Allocates (visit r maxLevel fuel level) := by
  induction fuel generalizing level with
  | zero => exact fun _ _ => Nat.le_refl _
  | succ fuel ih =>
    intro i s
    unfold visit
    split
    · exact Nat.le_refl _
    · split
      · exact Nat.le_refl _
      · rename_i id rest ha
        have hplace := place_allocates (r := r) (ih (level + 1)) i id { s with allocator := rest }
        have hbound := (Allocator.bound_allocate? ha).2
        dsimp only at hplace
        omega

end Lowering

namespace Resolution

variable {r : Resolution α} {maxLevel : Option Nat} {allocator rest : Allocator} {d : Dataflow α}

theorem lower_allocates (r : Resolution α) (maxLevel : Option Nat) (allocator : Allocator) :
    allocator.bound ≤ (r.lower maxLevel allocator).2.bound := by
  rw [lower_eq]
  unfold unfolded
  split
  · exact Nat.le_refl _
  · have hvisit : Lowering.Allocates (Lowering.visit r maxLevel (r.nodes.length + 1) 0) :=
      Lowering.visit_allocates _ _
    have heach := Lowering.each_allocates hvisit r.roots { allocator }
    dsimp only
    split <;> rename_i he <;> rw [he] at heach <;> exact heach

end Resolution

/-! ## Coherent plans -/

namespace Dataflow

variable {d other sum : Dataflow α} {ctx : Context α}

/-- Every reference of a plan refers to something computed before it, and the target of the plan is
one of its actuators. -/
structure Coherent (d : Dataflow α) : Prop where
  settled : Role.Settled [] (Actuator.roles d.actuators)
  targeted : ∀ i, d.target = some i → i ∈ d.ids
  aimed : d.isEmpty = false → d.target ≠ none

theorem Coherent.empty (scale : Scale α) : (Dataflow.empty scale).Coherent :=
  ⟨trivial, by simp [Dataflow.empty], by simp [Dataflow.empty, isEmpty]⟩

theorem isEmpty_iff_ids : d.isEmpty = true ↔ d.ids = [] := by
  rw [isEmpty, List.isEmpty_iff, ids, walk, List.map_eq_nil_iff]
  cases d.actuators with
  | nil => simp [Actuator.walkAll]
  | cons a as => cases a; simp [Actuator.walkAll, Actuator.walk]

theorem Coherent.add (hd : d.Coherent) (hother : other.Coherent) (h : d.add other ctx = .ok sum) :
    sum.Coherent := by
  obtain ⟨hinserted, htarget⟩ := add_inserted h
  have hids := perm_ids_add h
  refine ⟨hinserted.settled hd.settled hother.settled, fun i hi => ?_, fun hsome hnone => ?_⟩
  · rw [hids.mem_iff, List.mem_append]
    rw [htarget, Option.or_eq_some_iff] at hi
    rcases hi with hi | ⟨-, hi⟩
    · exact .inl (hd.targeted i hi)
    · exact .inr (hother.targeted i hi)
  · rw [htarget, Option.or_eq_none_iff] at hnone
    have hempty : ∀ {e : Dataflow α}, e.Coherent → e.target = none → e.ids = [] := by
      intro e he hnone
      by_contra hne
      refine he.aimed ?_ hnone
      rw [Bool.eq_false_iff, ne_eq, isEmpty_iff_ids]
      exact hne
    have hsum : sum.ids = [] := by
      rw [hempty hd hnone.1, hempty hother hnone.2] at hids
      exact hids.eq_nil
    rw [isEmpty_iff_ids.mpr hsum] at hsome
    cases hsome

end Dataflow

namespace Resolution

variable {sources : Sources α} {limits : Limits α} {o : Observable} {ctx : Context α}
  {r : Resolution α} {maxLevel : Option Nat} {allocator rest : Allocator} {d : Dataflow α}

theorem lower_coherent (h : resolve sources limits o ctx = .ok r)
    (hlower : r.lower maxLevel allocator = (.ok d, rest)) : d.Coherent := by
  obtain ⟨ho, hroots⟩ := resolve_ordered h
  obtain ⟨-, -, -, htarget⟩ := lower_fields hlower
  refine ⟨lower_settled ho hroots hlower, fun i hi => ?_, fun hsome => ?_⟩
  · rw [htarget] at hi
    obtain ⟨a, ha, rfl⟩ := Option.map_eq_some_iff.mp hi
    obtain ⟨as, has⟩ := List.head?_eq_some_iff.mp ha
    cases a
    simp [Dataflow.ids, Dataflow.walk, has, Actuator.walkAll, Actuator.walk]
  · rw [htarget]
    cases has : d.actuators with
    | nil => simp [Dataflow.isEmpty, has] at hsome
    | cons a as => simp

/-- A plan gets the next identifiers of the allocator. -/
theorem lower_ids (h : resolve sources limits o ctx = .ok r)
    (hlower : r.lower maxLevel allocator = (.ok d, rest)) :
    d.ids.map Identifier.val = List.range' allocator.bound d.ids.length ∧
      rest.bound = allocator.bound + d.ids.length := by
  obtain ⟨ho, hroots⟩ := resolve_ordered h
  obtain ⟨new, s', hs', -, rfl⟩ := lower_lowers ho hroots hlower
  exact ⟨hs'.ids, hs'.allocator⟩

end Resolution

/-! ## Making plans -/

/-- A plan, and which of the lowered plans were added up to it. -/
structure Built (α : Type) [Coordinate α] where
  dataflow : Dataflow α
  parts : List Nat

/-- Plans that were made, and the allocator they were lowered with. -/
structure Planning (α : Type) [Coordinate α] where
  allocator : Allocator
  /-- The plans that were lowered, one after the other. -/
  lowered : List (Dataflow α) := []
  plans : List (Built α) := []

namespace Planning

/-- What can be done with plans: a resolution is lowered, an empty plan is made, a plan is added to
another one. Nothing is used up, so that a plan may also be added twice. -/
inductive Step : Planning α → Planning α → Prop where
  | lowered {p : Planning α} {sources : Sources α} {limits : Limits α} {o : Observable}
      {ctx : Context α} {r : Resolution α} {maxLevel : Option Nat} {d : Dataflow α}
      {rest : Allocator} : Resolution.resolve sources limits o ctx = .ok r →
      r.lower maxLevel p.allocator = (.ok d, rest) →
      Step p ⟨rest, p.lowered ++ [d], ⟨d, [p.lowered.length]⟩ :: p.plans⟩
  | failed {p : Planning α} {r : Resolution α} {maxLevel : Option Nat} {e : DataflowError}
      {rest : Allocator} : r.lower maxLevel p.allocator = (.error e, rest) →
      Step p { p with allocator := rest }
  | empty (p : Planning α) (scale : Scale α) :
      Step p { p with plans := ⟨.empty scale, []⟩ :: p.plans }
  | added {p : Planning α} {d other : Built α} {sum : Dataflow α} {ctx : Context α} :
      d ∈ p.plans → other ∈ p.plans → d.dataflow.add other.dataflow ctx = .ok sum →
      Step p { p with plans := ⟨sum, d.parts ++ other.parts⟩ :: p.plans }

/-- The identifiers of a lowered plan. -/
def idsOf (p : Planning α) (k : Nat) : List Identifier := (p.lowered[k]?.map Dataflow.ids).getD []

/-- A plan is coherent, and its identifiers are those of the lowered plans that it is made of. -/
structure Holds (p : Planning α) (b : Built α) : Prop where
  coherent : b.dataflow.Coherent
  ids : b.dataflow.ids.Perm (b.parts.flatMap p.idsOf)
  known : ∀ k ∈ b.parts, k < p.lowered.length

/-- All plans hold, and the identifiers of those that were lowered are distinct and were handed
out. -/
structure Sound (p : Planning α) : Prop where
  holds : ∀ b ∈ p.plans, p.Holds b
  nodup : (p.lowered.flatMap Dataflow.ids).Nodup
  bounded : ∀ i ∈ p.lowered.flatMap Dataflow.ids, i.val < p.allocator.bound

variable {p p' : Planning α} {b : Built α} {d : Dataflow α}

theorem Sound.start (allocator : Allocator) : Sound ({ allocator } : Planning α) :=
  ⟨by simp, List.nodup_nil, by simp⟩

theorem Holds.kept (h : p.Holds b) (hlowered : p'.lowered = p.lowered) : p'.Holds b := by
  refine ⟨h.coherent, ?_, hlowered ▸ h.known⟩
  have hsame : p'.idsOf = p.idsOf := funext fun k => by rw [idsOf, idsOf, hlowered]
  exact hsame ▸ h.ids

/-- What was made before stays when another plan is lowered. -/
theorem Holds.lowered (h : p.Holds b) (hlowered : p'.lowered = p.lowered ++ [d]) :
    p'.Holds b := by
  refine ⟨h.coherent, h.ids.trans (List.Perm.of_eq ?_), fun k hk => ?_⟩
  · refine List.flatMap_congr fun k hk => ?_
    rw [idsOf, idsOf, hlowered, List.getElem?_append_left (h.known k hk)]
  · rw [hlowered, List.length_append]
    exact Nat.lt_add_right _ (h.known k hk)

theorem Sound.step (h : Sound p) (hstep : Step p p') : Sound p' := by
  cases hstep with
  | @lowered sources limits o ctx r maxLevel d rest hr hlower =>
    obtain ⟨hvals, hrest⟩ := Resolution.lower_ids hr hlower
    have hnew : ∀ i ∈ d.ids, p.allocator.bound ≤ i.val ∧ i.val < rest.bound := by
      intro i hi
      have hval := List.mem_map_of_mem (f := Identifier.val) hi
      rw [hvals, List.mem_range'_1] at hval
      omega
    refine ⟨List.forall_mem_cons.mpr ⟨?_, fun b hb => (h.holds b hb).lowered rfl⟩, ?_, ?_⟩
    · exact ⟨Resolution.lower_coherent hr hlower, by simp [idsOf], by simp⟩
    · rw [List.flatMap_append, List.flatMap_singleton]
      refine List.nodup_append.mpr ⟨h.nodup, ?_, ?_⟩
      · refine List.Nodup.of_map Identifier.val ?_
        rw [hvals]
        exact List.nodup_range'
      · rintro i hi _ hi' rfl
        have := hnew i hi'
        have := h.bounded i hi
        omega
    · rw [List.flatMap_append, List.flatMap_singleton]
      refine List.forall_mem_append.mpr ⟨fun i hi => ?_, fun i hi => (hnew i hi).2⟩
      have hlt := h.bounded i hi
      exact Nat.lt_of_lt_of_le hlt (by rw [hrest]; exact Nat.le_add_right _ _)
  | @failed r maxLevel e rest hlower =>
    have hbound := r.lower_allocates maxLevel p.allocator
    rw [hlower] at hbound
    exact ⟨fun b hb => (h.holds b hb).kept rfl, h.nodup,
      fun i hi => Nat.lt_of_lt_of_le (h.bounded i hi) hbound⟩
  | empty scale =>
    refine ⟨List.forall_mem_cons.mpr ⟨?_, fun b hb => (h.holds b hb).kept rfl⟩, h.nodup, h.bounded⟩
    exact ⟨.empty scale, .nil, by simp⟩
  | @added d other sum ctx hd hother hadd =>
    have hparts := (Dataflow.perm_ids_add hadd).trans ((h.holds d hd).ids.append
      (h.holds other hother).ids)
    have hsum : p.Holds ⟨sum, d.parts ++ other.parts⟩ := by
      refine ⟨(h.holds d hd).coherent.add (h.holds other hother).coherent hadd, ?_,
        List.forall_mem_append.mpr ⟨(h.holds d hd).known, (h.holds other hother).known⟩⟩
      rw [List.flatMap_append]
      exact hparts
    exact ⟨List.forall_mem_cons.mpr ⟨hsum.kept rfl, fun b hb => (h.holds b hb).kept rfl⟩, h.nodup,
      h.bounded⟩

/-- Where no lowered plan was added twice, identifiers are distinct. -/
theorem Sound.nodup_ids (h : Sound p) (hb : b ∈ p.plans) (honce : b.parts.Nodup) :
    b.dataflow.ids.Nodup := by
  obtain ⟨hnodup, hdisjoint⟩ := List.nodup_flatMap.mp h.nodup
  rw [(h.holds b hb).ids.nodup_iff, List.nodup_flatMap]
  have hknown := (h.holds b hb).known
  refine ⟨fun k hk => ?_, honce.imp_of_mem fun {k k'} hk hk' hne => ?_⟩
  · simpa [idsOf, hknown k hk] using hnodup _ (List.getElem_mem (hknown k hk))
  · rw [List.pairwise_iff_getElem] at hdisjoint
    have hlt := hknown k hk
    have hlt' := hknown k' hk'
    have hpair : List.Disjoint p.lowered[k].ids p.lowered[k'].ids := by
      rcases Nat.lt_or_gt_of_ne hne with hless | hless
      · exact hdisjoint k k' hlt hlt' hless
      · exact (hdisjoint k' k hlt' hlt hless).symm
    simpa [Function.onFun, idsOf, hlt, hlt'] using hpair

/-- Plans that can be made with an allocator. -/
def Reached (allocator : Allocator) (p : Planning α) : Prop :=
  Relation.ReflTransGen Step { allocator } p

theorem Reached.sound {allocator : Allocator} (h : Reached allocator p) : Sound p := by
  induction h with
  | refl => exact .start allocator
  | tail _ hstep ih => exact ih.step hstep

theorem Reached.added {allocator : Allocator} {d other sum : Dataflow α} {parts others : List Nat}
    {ctx : Context α} (h : Reached allocator p) (hd : ⟨d, parts⟩ ∈ p.plans)
    (hother : ⟨other, others⟩ ∈ p.plans) (hsum : d.add other ctx = .ok sum) :
    Reached allocator { p with plans := ⟨sum, parts ++ others⟩ :: p.plans } :=
  h.tail (.added hd hother hsum)

end Planning

end Obsplan
