import Obsplan.Proofs.Service.Steps

/-!
# Many calls at a time

A service is called by many at a time, and the steps of their calls take turns in any order. Main
statement: no identifier is ever given out twice, plans only grow, and whatever is in the plan of a
context can be observed within from then on.
-/

namespace Obsplan.Service

/-- A service and all its calls so far, in the order in which they came. -/
structure Traffic where
  service : Service
  calls : List Call := []

/-- What happens next. -/
inductive Move where
  | call (want : Want) (ctx : Context Number)
  /-- A step of a call, which does nothing when that is over. -/
  | advance (k : Nat)
  /-- Other models are offered. -/
  | offer (sources : Sources Number)
  /-- Time passes: there are another clock and other requests to stop from then on. -/
  | pass (clock asked : Nat → Bool)

namespace Traffic

/-- A service that was not called yet. -/
def start (s : Service) : Traffic := { service := { s with plans := .empty } }

def step (t : Traffic) : Move → Traffic
  | .call want ctx => { t with calls := t.calls ++ [Call.begin t.service ctx want] }
  | .advance k =>
    match t.calls[k]? with
    | none => t
    | some c => ⟨(c.advance t.service).1, t.calls.set k (c.advance t.service).2⟩
  | .offer sources => { t with service := { t.service with sources } }
  | .pass clock asked => { t with service := { t.service with clock, asked } }

def run (t : Traffic) (moves : List Move) : Traffic := moves.foldl step t

/-- The plans that were made. -/
def made (t : Traffic) : List (Dataflow Number) := t.calls.flatMap fun c => c.made.toList

/-- The identifiers that were given out. -/
def handed (t : Traffic) : List Identifier := t.calls.flatMap Call.received

variable {t t₁ t' : Traffic} {s s' : Service} {c c' : Call} {before after : List Call}

theorem run_append (t : Traffic) (moves more : List Move) :
    t.run (moves ++ more) = (t.run moves).run more := List.foldl_append

/-- The steps of one call may be all that happens for a while. -/
theorem run_alone (h : Call.Alone (s, c) (s', c')) (before after : List Call) :
    ∃ n, run ⟨s, before ++ c :: after⟩ (List.replicate n (.advance before.length)) =
      ⟨s', before ++ c' :: after⟩ := by
  generalize hp : (s', c') = p at h
  induction h generalizing s' c' with
  | refl =>
    cases hp
    exact ⟨0, rfl⟩
  | @tail q _ _ hstep ih =>
    obtain ⟨n, hrun⟩ := ih rfl
    have hs : s' = (q.2.advance q.1).1 := congrArg Prod.fst (hp.trans hstep)
    have hc : c' = (q.2.advance q.1).2 := congrArg Prod.snd (hp.trans hstep)
    refine ⟨n + 1, ?_⟩
    rw [List.replicate_succ', run_append, hrun, hs, hc]
    simp [run, step]

/-! ## Identifiers -/

/-- All that was given out differs and is behind the allocator, and what the plans of all contexts
have is what was attached. -/
structure Sound (t : Traffic) : Prop where
  calls : ∀ c ∈ t.calls, c.Sound
  distinct : t.handed.Nodup
  behind : ∀ i ∈ t.handed, i.val < t.service.allocator.bound
  plans : (t.service.plans.values.flatMap Dataflow.ids).Perm (t.calls.flatMap Call.attached)

theorem Sound.start (s : Service) : (start s).Sound where
  calls c hc := by cases hc
  distinct := List.nodup_nil
  behind i hi := by cases hi
  plans := .nil

theorem Sound.advance (h : Sound ⟨s, before ++ c :: after⟩) (hdoes : c.Does s s' c')
    (hc' : c'.Sound) : Sound ⟨s', before ++ c' :: after⟩ := by
  have hplans := h.plans
  have hdistinct := h.distinct
  have hbehind := h.behind
  simp only [handed, List.flatMap_append, List.flatMap_cons] at hplans hdistinct hbehind
  refine ⟨?_, ?_, ?_, ?_⟩
  · intro x hx
    rcases List.mem_append.mp hx with hx | hx
    · exact h.calls x (List.mem_append_left _ hx)
    · rcases List.mem_cons.mp hx with rfl | hx
      · exact hc'
      · exact h.calls x (List.mem_append_right _ (List.mem_cons_of_mem _ hx))
  · obtain ⟨hreceived, -⟩ | ⟨i, hreceived, hanswer⟩ := hdoes.received_cases
    · simpa [handed, hreceived] using hdistinct
    · -- what comes next was never given out
      have hnew : i ∉ before.flatMap Call.received ++
          (c.received ++ after.flatMap Call.received) := fun hi =>
        Nat.ne_of_lt (hbehind i hi) (Allocator.bound_allocate? hanswer).1
      have hperm : (handed ⟨s', before ++ c' :: after⟩).Perm
          (i :: (before.flatMap Call.received ++
            (c.received ++ after.flatMap Call.received))) := by
        simp only [handed, List.flatMap_append, List.flatMap_cons, hreceived]
        rw [List.append_assoc, List.singleton_append, ← List.append_assoc, ← List.append_assoc]
        exact List.perm_middle
      exact hperm.nodup_iff.mpr (List.nodup_cons.mpr ⟨hnew, hdistinct⟩)
  · obtain ⟨hreceived, hallocator⟩ | ⟨i, hreceived, hanswer⟩ := hdoes.received_cases
    · simpa [handed, hreceived, hallocator] using hbehind
    · obtain ⟨hi, hbound⟩ := Allocator.bound_allocate? hanswer
      intro j hj
      simp only [handed, List.flatMap_append, List.flatMap_cons, hreceived, List.mem_append,
        List.mem_singleton] at hj hbehind
      dsimp only
      rw [hbound]
      rcases hj with hj | (hj | rfl) | hj
      · exact Nat.lt_succ_of_lt (hbehind j (.inl hj))
      · exact Nat.lt_succ_of_lt (hbehind j (.inr (.inl hj)))
      · exact hi ▸ Nat.lt_succ_self _
      · exact Nat.lt_succ_of_lt (hbehind j (.inr (.inr hj)))
  · obtain ⟨new, hattached, hnew⟩ := hdoes.attaches_new
    simp only [List.flatMap_append, List.flatMap_cons, hattached]
    refine (hnew.trans (hplans.append_right _)).trans ?_
    simp only [List.append_assoc]
    exact (List.perm_append_comm.append_left _).append_left _

/-- A step of a call takes it one step further, if it is there. -/
theorem step_advance (t : Traffic) (k : Nat) : t.step (.advance k) = t ∨
    ∃ c before after, t.calls = before ++ c :: after ∧ t.step (.advance k) =
      ⟨(c.advance t.service).1, before ++ (c.advance t.service).2 :: after⟩ := by
  cases hc : t.calls[k]? with
  | none => exact .inl (by simp only [step, hc])
  | some c =>
    obtain ⟨hk, rfl⟩ := List.getElem?_eq_some_iff.mp hc
    have hsplit : ∃ before after, t.calls = before ++ t.calls[k] :: after ∧ before.length = k ∧
        t.calls.set k (t.calls[k].advance t.service).2 =
          before ++ (t.calls[k].advance t.service).2 :: after := List.exists_of_set hk
    obtain ⟨before, after, hcalls, -, hset⟩ := hsplit
    exact .inr ⟨t.calls[k], before, after, hcalls, by simp only [step, hc, hset]⟩

theorem Sound.step (h : t.Sound) (m : Move) : (t.step m).Sound := by
  obtain ⟨s, calls⟩ := t
  cases m with
  | call want ctx =>
    have hfresh := Call.fresh_begin s ctx want
    refine ⟨?_, ?_, ?_, ?_⟩
    · exact List.forall_mem_append.mpr ⟨h.calls, List.forall_mem_singleton.mpr hfresh.sound⟩
    · simpa [Traffic.step, handed, hfresh.received] using h.distinct
    · simpa [Traffic.step, handed, hfresh.received] using h.behind
    · simpa [Traffic.step, hfresh.attached] using h.plans
  | advance k =>
    obtain hstep | ⟨c, before, after, rfl, hstep⟩ := step_advance ⟨s, calls⟩ k
    · rw [hstep]
      exact h
    · have hc : c.Sound := h.calls c (by simp)
      rw [hstep]
      exact h.advance (Call.advance_does s hc) (Call.advance_sound s hc)
  | offer sources => exact ⟨h.calls, h.distinct, h.behind, h.plans⟩
  | pass clock asked => exact ⟨h.calls, h.distinct, h.behind, h.plans⟩

theorem Sound.run (h : t.Sound) (moves : List Move) : (t.run moves).Sound := by
  induction moves generalizing t with
  | nil => exact h
  | cons m moves ih => exact ih (h.step m)

/-- Every identifier is given out once, and it is used once: by one plan that was made, and in the
plan of one context. -/
structure Distinct (t : Traffic) : Prop where
  handed : t.handed.Nodup
  made : (t.made.flatMap Dataflow.ids).Nodup
  positive : ∀ i ∈ t.made.flatMap Dataflow.ids, 0 < i.val
  plans : (t.service.plans.values.flatMap Dataflow.ids).Nodup
  planned : t.service.plans.values.flatMap Dataflow.ids ⊆ t.made.flatMap Dataflow.ids

theorem Sound.distinct_all (h : t.Sound) : t.Distinct := by
  have hmade : t.made.flatMap Dataflow.ids = t.calls.flatMap Call.used := List.flatMap_assoc
  have hused : (t.calls.flatMap Call.used).Sublist t.handed :=
    List.Sublist.flatMap_right _ fun c hc => (h.calls c hc).used
  have hattached : (t.calls.flatMap Call.attached).Sublist (t.calls.flatMap Call.used) :=
    List.Sublist.flatMap_right _ fun c hc => (h.calls c hc).attached
  refine ⟨h.distinct, ?_, fun i _ => i.pos, ?_, ?_⟩
  · exact hmade ▸ h.distinct.sublist hused
  · exact h.plans.nodup_iff.mpr (h.distinct.sublist (hattached.trans hused))
  · exact hmade ▸ fun i hi => hattached.subset (h.plans.subset hi)

/-! ## What stays -/

/-- What is so at a later time. -/
structure Leads (t t' : Traffic) : Prop where
  plans : ∀ {id : String} {d : Dataflow Number}, t.service.plans.get? id = some d →
    ∃ d', t'.service.plans.get? id = some d' ∧ d.positions.Sublist d'.positions
  /-- A call that fails for want of a hook has failed before, or what it is made within was not
  there. -/
  hooked : ∀ {k : Nat} {c' : Call}, t'.calls[k]? = some c' → c'.Unhooked →
    (∃ c, t.calls[k]? = some c ∧ c.ctx = c'.ctx ∧ c.Unhooked) ∨
      ∀ d i, t.service.plans.get? c'.ctx.id = some d → c'.ctx.current = some i → i ∉ d.ids
  exhausted : t.service.allocator.next = none →
    t'.service.allocator.next = none ∧ t'.handed = t.handed

theorem Leads.refl (t : Traffic) : t.Leads t where
  plans h := ⟨_, h, List.Sublist.refl _⟩
  hooked hc h := .inl ⟨_, hc, rfl, h⟩
  exhausted h := ⟨h, rfl⟩

theorem Leads.trans (h : t.Leads t₁) (h' : t₁.Leads t') : t.Leads t' where
  plans hd := by
    obtain ⟨d₁, hd₁, hsub⟩ := h.plans hd
    obtain ⟨d', hd', hsub'⟩ := h'.plans hd₁
    exact ⟨d', hd', hsub.trans hsub'⟩
  hooked hc' hunhooked := by
    obtain ⟨c, hc, hctx, hfailed⟩ | hnone := h'.hooked hc' hunhooked
    · rw [← hctx]
      exact h.hooked hc hfailed
    · refine .inr fun d i hd hcurrent hi => ?_
      obtain ⟨d₁, hd₁, hsub⟩ := h.plans hd
      exact hnone d₁ i hd₁ hcurrent ((Dataflow.ids_sublist hsub).subset hi)
  exhausted hnone := by
    obtain ⟨hnone₁, hhanded⟩ := h.exhausted hnone
    obtain ⟨hnone', hhanded'⟩ := h'.exhausted hnone₁
    exact ⟨hnone', hhanded'.trans hhanded⟩

theorem getElem?_advance {k : Nat} {x : Call} (h : (before ++ c' :: after)[k]? = some x) :
    x = c' ∧ (before ++ c :: after)[k]? = some c ∨ (before ++ c :: after)[k]? = some x := by
  rw [List.getElem?_append] at h ⊢
  split at h
  · rename_i hk
    exact .inr (by rw [if_pos hk, h])
  · rename_i hk
    rw [if_neg hk]
    cases hi : k - before.length with
    | zero =>
      rw [hi] at h
      cases h
      exact .inl ⟨rfl, rfl⟩
    | succ n =>
      rw [hi] at h
      exact .inr h

/-- A step of a call fails for want of a hook only where there is none. -/
theorem Leads.advance (hc : c.Sound) : Leads ⟨s, before ++ c :: after⟩
    ⟨(c.advance s).1, before ++ (c.advance s).2 :: after⟩ := by
  have hdoes := Call.advance_does s hc
  refine ⟨hdoes.plans_grow, ?_, fun hnone => ?_⟩
  · intro k x hx hunhooked
    obtain ⟨rfl, hold⟩ | hold := getElem?_advance hx
    · rw [Call.ctx_advance]
      obtain hunhooked | ⟨d, e, -, hadd⟩ := Call.advance_unhooked hc hunhooked
      · exact .inl ⟨c, hold, rfl, hunhooked⟩
      · refine .inr fun d' i hd' hcurrent hi => ?_
        have hadded : ∃ extended, d'.add d c.ctx = .ok extended :=
          Dataflow.add_of_mem hcurrent hi
        obtain ⟨extended, hextended⟩ := hadded
        rw [planOf_of_get? hd', hextended] at hadd
        cases hadd
    · exact .inl ⟨x, hold, rfl, hunhooked⟩
  · obtain ⟨hallocator, hreceived⟩ := hdoes.exhausted hnone
    exact ⟨hallocator ▸ hnone, by simp [handed, hreceived]⟩

theorem Leads.step (h : t.Sound) (m : Move) : t.Leads (t.step m) := by
  obtain ⟨s, calls⟩ := t
  cases m with
  | call want ctx =>
    have hfresh := Call.fresh_begin s ctx want
    refine ⟨(Leads.refl _).plans, ?_, fun hnone => ⟨hnone, ?_⟩⟩
    · intro k c' hc' hunhooked
      have hc' : (calls ++ [Call.begin s ctx want])[k]? = some c' := hc'
      rw [List.getElem?_append] at hc'
      split at hc'
      · exact .inl ⟨c', hc', rfl, hunhooked⟩
      · have hmem := List.mem_singleton.mp (List.mem_of_getElem? hc')
        exact absurd (hmem ▸ hunhooked) hfresh.hooked
    · simp [Traffic.step, handed, hfresh.received]
  | advance k =>
    obtain hstep | ⟨c, before, after, rfl, hstep⟩ := step_advance ⟨s, calls⟩ k
    · rw [hstep]
      exact .refl _
    · rw [hstep]
      exact .advance (h.calls c (by simp))
  | offer sources => exact ⟨(Leads.refl _).plans, (Leads.refl _).hooked, (Leads.refl _).exhausted⟩
  | pass clock asked =>
    exact ⟨(Leads.refl _).plans, (Leads.refl _).hooked, (Leads.refl _).exhausted⟩

theorem Leads.run (h : t.Sound) (moves : List Move) : t.Leads (t.run moves) := by
  induction moves generalizing t with
  | nil => exact .refl t
  | cons m moves ih => exact (Leads.step h m).trans (ih (h.step m))

/-- Whatever is in the plan of a context stays there. -/
structure Lasts (t t' : Traffic) : Prop where
  /-- An actuator is at its position for good, and no other one ever has its identifier. -/
  stays : ∀ {id : String} {d : Dataflow Number}, t.service.plans.get? id = some d →
    ∃ d', t'.service.plans.get? id = some d' ∧ ∀ p ∈ d.positions, p ∈ d'.positions ∧
      d'.ids.count p.id = 1 ∧ ∀ q ∈ d'.positions, q.id = p.id → q = p
  /-- A call within an actuator that is there does not fail for want of it. -/
  hooked : ∀ {id : String} {d : Dataflow Number} {i : Identifier} {k : Nat} {c' : Call},
    t.service.plans.get? id = some d → i ∈ d.ids → t'.calls[k]? = some c' → c'.ctx.id = id →
      c'.ctx.current = some i → c'.Unhooked → ∃ c, t.calls[k]? = some c ∧ c.Unhooked
  /-- An allocator that has nothing left gives out nothing. -/
  exhausted : t.service.allocator.next = none →
    t'.service.allocator.next = none ∧ t'.handed = t.handed

/-- Identifiers stand for one actuator for good, whichever calls there are, and in whichever order
their steps are. -/
theorem run_lasts (s : Service) (earlier later : List Move) :
    ((start s).run earlier).Distinct ∧
      ((start s).run earlier).Lasts (((start s).run earlier).run later) := by
  have hsound := (Sound.start s).run earlier
  have hlater := (hsound.run later).distinct_all
  have hleads := Leads.run hsound later
  refine ⟨hsound.distinct_all, ?_, ?_, hleads.exhausted⟩
  · intro id d hd
    obtain ⟨d', hd', hsub⟩ := hleads.plans hd
    have hvalue : d' ∈ (((start s).run earlier).run later).service.plans.values :=
      List.mem_map_of_mem (Keyed.mem_of_get? hd')
    have hids : d'.ids.Nodup := (List.nodup_flatMap.mp hlater.plans).1 d' hvalue
    refine ⟨d', hd', fun p hp => ⟨hsub.subset hp, ?_, fun q hq hid => ?_⟩⟩
    · rw [← Dataflow.ids_positions] at hids ⊢
      exact List.count_eq_one_of_mem hids (List.mem_map_of_mem (hsub.subset hp))
    · rw [← Dataflow.ids_positions] at hids
      exact List.inj_on_of_nodup_map hids hq (hsub.subset hp) hid
  · intro id d i k c' hd hi hc' hid hcurrent hunhooked
    obtain ⟨c, hc, -, hfailed⟩ | hnone := hleads.hooked hc' hunhooked
    · exact ⟨c, hc, hfailed⟩
    · exact absurd hi (hnone d i (hid ▸ hd) hcurrent)

/-- Land is observed in one context and soil in another one, step by step in turn. -/
def inTurn : List Move :=
  [.call (.observation Resolution.land) Resolution.everywhere,
    .call (.observation Resolution.soil) { Resolution.everywhere with id := "b" }] ++
  (List.replicate 7 [.advance 0, .advance 1]).flatten

/-- Water is observed within the soil that the land was found from. -/
def within : List Move :=
  .call (.observation Resolution.water)
    { Resolution.everywhere with current := Identifier.ofNat? 3 } :: List.replicate 5 (.advance 2)

theorem run_lasts_inTurn :
    ∃ s : Service, ∃ t t' : Traffic, t = (start s).run inTurn ∧ t' = t.run within ∧
      (t.made.map fun d => d.ids.map Identifier.val) = [[1, 3, 5], [2, 4]] ∧
      (t.service.plans.entries.map fun e => (e.1, e.2.ids.map Identifier.val)) =
        [("b", [2, 4]), ("c", [1, 3, 5])] ∧
      ((t'.service.plans.get? "c").map fun d => d.positions.map fun p =>
        (p.parent.map Identifier.val, p.id.val)) =
          some [(none, 1), (some 1, 3), (some 3, 5), (some 3, 6)] ∧
      t.Distinct ∧ t.Lasts t' := by
  let s : Service := { config := {}, sources := Resolution.layered }
  refine ⟨s, (start s).run inTurn, ((start s).run inTurn).run within, rfl, rfl, ?_, ?_, ?_,
    run_lasts s inTurn within⟩ <;> decide +kernel

/-- The last identifier is given out once. -/
example :
    let s : Service := {
      config := {}
      sources := Resolution.layered
      allocator := .startingAt (UInt64.size - 1) }
    ((start s).run (.call (.plan Resolution.soil) Resolution.everywhere ::
      List.replicate 4 (.advance 0))).handed.map Identifier.val = [UInt64.size - 1] := by
  decide +kernel

end Traffic

end Obsplan.Service
