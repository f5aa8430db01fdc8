import Obsplan.Proofs.Dataflow.Plans
import Obsplan.Proofs.Dataflow.Positions
import Obsplan.Proofs.Service.Calls

/-!
# Steps of calls

A step of a call gives out an identifier, enters a context, attaches a plan, or leaves all that as
it is. The plan that is made for a call has identifiers that were given out for that call only.
-/

namespace Obsplan

variable {s s' : Service} {ctx : Context Number} {d extended : Dataflow Number}

namespace Service

theorem resolve_error {o : Observable} {e : Failure} (h : s.resolve o ctx = .error e) :
    ∃ e', e = .resolution e' := by
  unfold resolve at h
  cases hlocated : ctx.located with
  | error e' =>
    rw [hlocated] at h
    cases h
    exact ⟨_, rfl⟩
  | ok ctx' =>
    rw [hlocated] at h
    have h : (Resolution.resolve s.sources s.limits o ctx').mapError Failure.resolution =
      .error e := h
    cases hresolve : Resolution.resolve s.sources s.limits o ctx' with
    | error e' =>
      rw [hresolve] at h
      cases h
      exact ⟨_, rfl⟩
    | ok r =>
      rw [hresolve] at h
      cases h

/-- The identifiers of all plans are those there were and those that are new. -/
theorem perm_ids_insert {new : List Identifier}
    (h : extended.ids.Perm ((s.planOf ctx).ids ++ new)) :
    ((s.plans.insert ctx.id extended).values.flatMap Dataflow.ids).Perm
      (s.plans.values.flatMap Dataflow.ids ++ new) := by
  unfold Keyed.values
  cases hplan : s.plans.get? ctx.id with
  | none =>
    have hempty : (s.planOf ctx).ids = [] := by
      rw [planOf, hplan]
      rfl
    rw [hempty, List.nil_append] at h
    rw [Keyed.entries_insert_of_notMem _ (Keyed.get?_eq_none.mp hplan), List.map_append,
      List.flatMap_append, List.map_singleton, List.flatMap_singleton]
    exact h.append_left _
  | some d =>
    rw [planOf_of_get? hplan] at h
    obtain ⟨before, after, hentries, hinserted⟩ := Keyed.exists_insert hplan extended
    rw [hentries, hinserted]
    simp only [List.map_append, List.map_cons, List.flatMap_append, List.flatMap_cons,
      List.append_assoc]
    refine List.Perm.append_left _ ((h.append_right _).trans ?_)
    rw [List.append_assoc]
    exact List.perm_append_comm.append_left _

namespace Call

variable {c c' : Call}

/-! ## What a call has -/

/-- A call has used identifiers that it received only, in their order. -/
def Sound (c : Call) : Prop :=
  match c.stage with
  | .lowering rest => c.made = none ∧ rest.Uses Dataflow.ids c.received
  | .entering d | .attaching d | .running d => c.made = some d ∧ d.ids.Sublist c.received
  | .ended _ => ∀ d ∈ c.made, d.ids.Sublist c.received

/-- The identifiers of the plan that was made. -/
def used (c : Call) : List Identifier := c.made.toList.flatMap Dataflow.ids

/-- The identifiers of the plan that was attached. -/
def attached (c : Call) : List Identifier :=
  match c.stage with
  | .running d => d.ids
  | .ended (.observed _) => c.used
  | _ => []

/-- It was told that there is nothing to attach a plan to. -/
def Unhooked (c : Call) : Prop :=
  ∃ i name, c.stage = .ended (.failed (.dataflow (.hookNotFound i name)))

theorem Sound.used (h : c.Sound) : c.used.Sublist c.received := by
  obtain ⟨want, ctx, stage, received, made⟩ := c
  cases made with
  | none => exact List.nil_sublist _
  | some d =>
    have hd : d.ids.Sublist received := by
      cases stage with
      | lowering rest => cases h.1
      | entering d' | attaching d' | running d' =>
        cases h.1
        exact h.2
      | ended outcome => exact h d rfl
    simpa [Call.used] using hd

theorem Sound.attached (h : c.Sound) : c.attached.Sublist c.used := by
  obtain ⟨want, ctx, stage, received, made⟩ := c
  cases stage with
  | running d =>
    cases h.1
    simp [Call.attached, Call.used]
  | ended outcome =>
    cases outcome with
    | observed result => exact List.Sublist.refl _
    | _ => exact List.nil_sublist _
  | _ => exact List.nil_sublist _

/-- Nothing was done for a call yet, or it has failed without a plan. -/
structure Fresh (c : Call) : Prop where
  sound : c.Sound
  received : c.received = []
  attached : c.attached = []
  hooked : ¬ c.Unhooked

theorem fresh_failed (want : Want) (ctx : Context Number) (e : ResolutionError) :
    Fresh { want, ctx, stage := .ended (.failed (.resolution e)) } where
  sound d hd := by cases hd
  received := rfl
  attached := rfl
  hooked h := by
    obtain ⟨i, name, hstage⟩ := h
    cases hstage

theorem fresh_resolving (s : Service) (want : Want) (o : Observable) (ctx : Context Number) :
    (resolving s want o ctx).Fresh := by
  unfold resolving
  cases hresolve : s.resolve o ctx with
  | error e =>
    obtain ⟨e', rfl⟩ := resolve_error hresolve
    exact fresh_failed want ctx e'
  | ok r =>
    refine ⟨⟨rfl, s.asking_uses r ctx⟩, rfl, rfl, ?_⟩
    rintro ⟨i, name, hstage⟩
    cases hstage

theorem fresh_begin (s : Service) (ctx : Context Number) (want : Want) :
    (begin s ctx want).Fresh := by
  cases want with
  | plan o => exact fresh_resolving s _ o ctx
  | observation o => exact fresh_resolving s _ o ctx
  | answer q =>
    cases hq : q.observable s.sources with
    | error e => simpa only [begin, hq] using fresh_failed (.answer q) ctx e
    | ok o => simpa only [begin, hq] using fresh_resolving s (.answer q) o (q.placed ctx)

/-! ## Steps -/

/-- What a step of a call does to what all calls share. -/
inductive Does (s : Service) (c : Call) (s' : Service) (c' : Call) : Prop
  | rests : s'.plans = s.plans → s'.allocator = s.allocator → c'.received = c.received →
    c'.attached = c.attached → Does s c s' c'
  | enters : s'.plans = (s.entered c.ctx).plans → s'.allocator = s.allocator →
    c'.received = c.received → c'.attached = c.attached → Does s c s' c'
  | receives {i : Identifier} : s'.plans = s.plans →
    s.allocator.allocate? = some (i, s'.allocator) → c'.received = c.received ++ [i] →
    c'.attached = c.attached → Does s c s' c'
  | attaches {d extended : Dataflow Number} : (s.planOf c.ctx).add d c.ctx = .ok extended →
    s'.plans = s.plans.insert c.ctx.id extended → s'.allocator = s.allocator →
    c'.received = c.received → c.attached = [] → c'.attached = d.ids → Does s c s' c'

/-- The identifiers of all plans are those there were and those of what was attached. -/
theorem Does.attaches_new (h : Does s c s' c') : ∃ new, c'.attached = c.attached ++ new ∧
    (s'.plans.values.flatMap Dataflow.ids).Perm (s.plans.values.flatMap Dataflow.ids ++ new) := by
  cases h with
  | rests hplans _ _ hsame => exact ⟨[], by simp [hsame], by simp [hplans]⟩
  | receives hplans _ _ hsame => exact ⟨[], by simp [hsame], by simp [hplans]⟩
  | enters hplans _ _ hsame =>
    refine ⟨[], by simp [hsame], ?_⟩
    rw [hplans]
    exact perm_ids_insert (by simp)
  | attaches hadd hplans _ _ hold hnew =>
    refine ⟨_, by rw [hold, hnew, List.nil_append], ?_⟩
    rw [hplans]
    exact perm_ids_insert (Dataflow.perm_ids_add hadd)

/-- Nothing is taken out of a plan, and nothing in it is moved. -/
theorem Does.plans_grow (h : Does s c s' c') {id : String} (hd : s.plans.get? id = some d) :
    ∃ d', s'.plans.get? id = some d' ∧ d.positions.Sublist d'.positions := by
  cases h with
  | rests hplans => exact ⟨d, hplans ▸ hd, List.Sublist.refl _⟩
  | receives hplans => exact ⟨d, hplans ▸ hd, List.Sublist.refl _⟩
  | enters hplans =>
    have hkept : (s.entered c.ctx).plans.get? id = s.plans.get? id :=
      get?_entered (Keyed.mem_keys_of_get? hd)
    exact ⟨d, hplans ▸ hkept.trans hd, List.Sublist.refl _⟩
  | @attaches d' extended hadd hplans =>
    rw [hplans, Keyed.get?_insert]
    split
    · rename_i hid
      have hold : s.planOf c.ctx = d := planOf_of_get? (hid ▸ hd)
      exact ⟨extended, rfl, Dataflow.add_positions (hold ▸ hadd)⟩
    · exact ⟨d, hd, List.Sublist.refl _⟩

/-- One identifier is given out, or none. -/
theorem Does.received_cases (h : Does s c s' c') :
    (c'.received = c.received ∧ s'.allocator = s.allocator) ∨
      ∃ i, c'.received = c.received ++ [i] ∧ s.allocator.allocate? = some (i, s'.allocator) := by
  cases h with
  | rests _ hallocator hreceived _ => exact .inl ⟨hreceived, hallocator⟩
  | enters _ hallocator hreceived _ => exact .inl ⟨hreceived, hallocator⟩
  | receives _ hanswer hreceived _ => exact .inr ⟨_, hreceived, hanswer⟩
  | attaches _ _ hallocator hreceived _ _ => exact .inl ⟨hreceived, hallocator⟩

theorem Does.exhausted (h : Does s c s' c') (hnone : s.allocator.next = none) :
    s'.allocator = s.allocator ∧ c'.received = c.received := by
  obtain ⟨hreceived, hallocator⟩ | ⟨i, -, hanswer⟩ := h.received_cases
  · exact ⟨hallocator, hreceived⟩
  · rw [Allocator.allocate?, hnone] at hanswer
    cases hanswer

/-- A plan that was made is entered, or the call has succeeded. -/
theorem planned_cases (s : Service) (d : Dataflow Number) (ctx : Context Number) (want : Want) :
    s.planned d ctx want = .entering d ∨ ∃ outcome, s.planned d ctx want = .ended outcome ∧
      (∀ e, outcome ≠ .failed e) ∧ ∀ result, outcome = .observed result → d.ids = [] := by
  cases want with
  | plan o => exact .inr ⟨_, rfl, nofun, nofun⟩
  | answer q => exact .inr ⟨_, rfl, nofun, nofun⟩
  | observation o =>
    by_cases hempty : d.isEmpty = true
    · exact .inr ⟨_, if_pos hempty, nofun, fun _ _ => Dataflow.isEmpty_iff_ids.mp hempty⟩
    · exact .inl (if_neg hempty)

theorem attached_planned (s : Service) (want : Want) (ctx : Context Number) (d : Dataflow Number)
    (received : List Identifier) :
    attached ⟨want, ctx, s.planned d ctx want, received, some d⟩ = [] := by
  obtain hstage | ⟨outcome, hstage, -, hnothing⟩ := planned_cases s d ctx want <;> rw [hstage]
  · rfl
  · cases outcome with
    | observed result => simp [attached, used, hnothing result rfl]
    | _ => rfl

theorem advance_does (s : Service) (h : c.Sound) :
    Does s c (c.advance s).1 (c.advance s).2 := by
  obtain ⟨want, ctx, stage, received, made⟩ := c
  cases stage with
  | lowering rest =>
    cases rest with
    | ask next =>
      unfold advance
      dsimp only
      cases hanswer : s.allocator.allocate? with
      | none => exact .rests rfl rfl rfl rfl
      | some answer => exact .receives rfl hanswer rfl rfl
    | done result =>
      cases result with
      | error e => exact .rests rfl rfl rfl rfl
      | ok d => exact .rests rfl rfl rfl (attached_planned _ _ _ _ _)
  | entering d => exact .enters rfl rfl rfl rfl
  | attaching d =>
    unfold advance
    dsimp only
    cases hadd : (s.planOf ctx).add d ctx with
    | error e => exact .rests rfl rfl rfl rfl
    | ok extended => exact .attaches hadd rfl rfl rfl rfl rfl
  | running d =>
    cases h.1
    refine .rests rfl rfl rfl ?_
    simp [advance, attached, used]
  | ended outcome => exact .rests rfl rfl rfl rfl

theorem sound_planned (s : Service) (want : Want) (ctx : Context Number)
    {received : List Identifier} (h : d.ids.Sublist received) :
    Sound ⟨want, ctx, s.planned d ctx want, received, some d⟩ := by
  obtain hstage | ⟨outcome, hstage, -⟩ := planned_cases s d ctx want <;> rw [hstage]
  · exact ⟨rfl, h⟩
  · rintro d' ⟨⟩
    exact h

theorem advance_sound (s : Service) (h : c.Sound) : (c.advance s).2.Sound := by
  obtain ⟨want, ctx, stage, received, made⟩ := c
  cases stage with
  | lowering rest =>
    obtain ⟨hmade, huses⟩ := h
    cases rest with
    | ask next =>
      unfold advance
      dsimp only
      cases s.allocator.allocate? with
      | none => exact ⟨hmade, fun i name => DataflowError.noConfusion⟩
      | some answer => exact ⟨hmade, huses answer.1⟩
    | done result =>
      cases result with
      | error e =>
        cases hmade
        exact fun d hd => by cases hd
      | ok d => exact sound_planned s want ctx huses
  | entering d => exact h
  | attaching d =>
    unfold advance
    dsimp only
    cases (s.planOf ctx).add d ctx with
    | error e =>
      cases h.1
      rintro d' ⟨⟩
      exact h.2
    | ok extended => exact h
  | running d =>
    cases h.1
    rintro d' ⟨⟩
    exact h.2
  | ended outcome => exact h

theorem ctx_advance (s : Service) (c : Call) : (c.advance s).2.ctx = c.ctx := by
  unfold advance
  split <;> first | rfl | (split <;> rfl)

/-- A call fails for want of a hook only while its plan is attached. -/
theorem advance_unhooked (hc : c.Sound) (h : (c.advance s).2.Unhooked) :
    c.Unhooked ∨ ∃ d e, c.stage = .attaching d ∧ (s.planOf c.ctx).add d c.ctx = .error e := by
  obtain ⟨want, ctx, stage, received, made⟩ := c
  obtain ⟨i, name, hstage⟩ := h
  cases stage with
  | lowering rest =>
    cases rest with
    | ask next =>
      unfold advance at hstage
      dsimp only at hstage
      cases hanswer : s.allocator.allocate? <;> rw [hanswer] at hstage <;> cases hstage
    | done result =>
      cases result with
      | error e =>
        cases hstage
        exact absurd rfl (hc.2 i name)
      | ok d =>
        have hplanned : s.planned { d with
            notifications := Notification.dropRepeats d.notifications } ctx want =
              .ended (.failed (.dataflow (.hookNotFound i name))) := hstage
        obtain hentering | ⟨outcome, hover, hfailed, -⟩ := planned_cases s { d with
          notifications := Notification.dropRepeats d.notifications } ctx want
        · cases hentering.symm.trans hplanned
        · cases hover.symm.trans hplanned
          exact absurd rfl (hfailed _)
  | entering d => cases hstage
  | attaching d =>
    cases hadd : (s.planOf ctx).add d ctx with
    | error e => exact .inr ⟨d, e, rfl, hadd⟩
    | ok extended =>
      unfold advance at hstage
      dsimp only at hstage
      rw [hadd] at hstage
      cases hstage
  | running d => cases hstage
  | ended outcome => exact .inl ⟨i, name, hstage⟩

end Call

end Service

end Obsplan
