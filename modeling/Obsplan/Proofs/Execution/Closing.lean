import Obsplan.Proofs.Execution.Traces
import Obsplan.Proofs.Resolution.Shape
import Obsplan.Proofs.Twin.Activities

/-!
# What a run leaves open

Every part of a run ends the activities that it begins, whether it succeeds or fails, unless a
component breaks down. What is computed is recorded, so that activities can be linked to all that
they used. Main statement: a run leaves nothing running, but for its own activity when the
observation that the plan was made to produce is not one of the plan.
-/

namespace Obsplan

variable {α : Type} [Coordinate α] {β γ : Type}

namespace Run

open Edit

variable {s s' : RunState α} {setting : RunSetting α} {j : Job α} {children : List (Actuator α)}
  {bound bound' : Nat}

/-! ## Parts of a run -/

/-- A part of a run, unless a component breaks down, closes at most so many activities, and a
condition holds when it succeeds. -/
def Settles (bound : Nat) (x : Run α β) (s : RunState α) (post : β → RunState α → Prop) : Prop :=
  ∀ r s', on x s = (r, s') → r ≠ .error .brokeDown →
    (∃ count ≤ bound, s.twin.Closes count s'.twin) ∧ ∀ b, r = .ok b → post b s'

namespace Settles

variable {x : Run α β} {f : β → Run α γ} {post mid : β → RunState α → Prop}
  {post' : γ → RunState α → Prop}

theorem of_ok {b : β} (h : on x s = (.ok b, s')) (hcloses : s.twin.Closes 0 s'.twin)
    (hpost : post b s') : Settles 0 x s post := by
  intro r s₁ hx _
  cases h.symm.trans hx
  refine ⟨⟨0, Nat.le_refl 0, hcloses⟩, ?_⟩
  rintro _ ⟨⟩
  exact hpost

theorem of_error {e : ExecutionError} (h : on x s = (.error e, s'))
    (hcloses : s.twin.Closes 0 s'.twin) : Settles bound x s post := by
  intro r s₁ hx _
  cases h.symm.trans hx
  exact ⟨⟨0, Nat.zero_le bound, hcloses⟩, by simp⟩

theorem pure {b : β} (h : post b s) : Settles 0 (Pure.pure b) s post := of_ok rfl (.refl _) h

theorem throw (e : ExecutionError) : Settles bound (throw e : Run α β) s post :=
  of_error rfl (.refl _)

theorem mono (h : Settles bound x s mid) (hbound : bound ≤ bound')
    (hpost : ∀ b s', mid b s' → post b s') : Settles bound' x s post := by
  intro r s' hx hr
  obtain ⟨⟨count, hcount, hcloses⟩, hmid⟩ := h r s' hx hr
  exact ⟨⟨count, Nat.le_trans hcount hbound, hcloses⟩, fun b hb => hpost b s' (hmid b hb)⟩

/-- All that was recorded is still there. -/
theorem keeps (h : Settles bound x s mid) : Settles bound x s fun b s' =>
    mid b s' ∧ ∀ k, s.twin.contains k = true → s'.twin.contains k = true := by
  intro r s' hx hr
  obtain ⟨hcloses, hmid⟩ := h r s' hx hr
  obtain ⟨count, -, hcount⟩ := id hcloses
  exact ⟨hcloses, fun b hb => ⟨hmid b hb, hcount.contains⟩⟩

theorem bind (h : Settles bound x s mid)
    (hf : ∀ b s', mid b s' → (∀ k, s.twin.contains k = true → s'.twin.contains k = true) →
      Settles bound' (f b) s' post') : Settles (bound + bound') (x >>= f) s post' := by
  intro r s' hx hr
  rw [on_bind] at hx
  split at hx
  · rename_i b s₁ hfirst
    obtain ⟨⟨count, hcount, hcloses⟩, hmid⟩ := h _ _ hfirst (by simp)
    obtain ⟨⟨count', hcount', hcloses'⟩, hpost⟩ := hf b s₁ (hmid b rfl) hcloses.contains r s' hx hr
    exact ⟨⟨count + count', Nat.add_le_add hcount hcount', hcloses.trans hcloses'⟩, hpost⟩
  · rename_i e s₁ hfirst
    cases hx
    obtain ⟨⟨count, hcount, hcloses⟩, -⟩ := h _ _ hfirst fun he => hr (by cases he; rfl)
    exact ⟨⟨count, Nat.le_trans hcount (Nat.le_add_right _ _), hcloses⟩, by simp⟩

theorem get_bind {f : RunState α → Run α γ} (h : Settles bound (f s) s post') :
    Settles bound (get >>= f) s post' := by
  intro r s' hx hr
  rw [on_bind_ok (on_get s)] at hx
  exact h r s' hx hr

/-- To look whether the run was asked to stop changes nothing that is recorded. -/
theorem look_bind {f : Bool → Run α γ}
    (h : Settles bound (f (s.looked setting.asked).stopped) (s.looked setting.asked) post') :
    Settles bound (look setting >>= f) s post' := by
  intro r s' hx hr
  rw [on_bind_ok (on_look setting s)] at hx
  exact h r s' hx hr

theorem link (source : NodeKey) (r : Relationship) (target : NodeKey) :
    Settles 0 (link source r target) s fun _ s' => s'.results = s.results := by
  cases hlink : s.twin.link source r target with
  | error e => exact of_error (on_update_error (Twin.atomic_linking _ _ _) hlink) (.refl _)
  | ok t => exact of_ok (on_update hlink) (.link hlink) rfl

theorem forM_link (source target : Actuator α → NodeKey) (r : Relationship)
    (as : List (Actuator α)) :
    Settles 0 (as.forM fun a => Run.link (source a) r (target a)) s
      fun _ s' => s'.results = s.results := by
  induction as generalizing s with
  | nil => exact pure rfl
  | cons a as ih =>
    exact (link _ _ _).bind fun _ s' hs' _ => ih.mono (Nat.le_refl 0) fun _ _ h => h.trans hs'

end Settles

/-! ## Within an activity -/

/-- A part of a run, unless a component breaks down, ends an activity after it closed at most so
many others, and a condition holds when it succeeds. -/
def Finishes (activity : UInt64) (bound : Nat) (x : Run α β) (s : RunState α)
    (post : β → RunState α → Prop) : Prop :=
  ∀ r s', on x s = (r, s') → r ≠ .error .brokeDown →
    (∃ count ≤ bound, ∃ t status, s.twin.Closes count t ∧ status ≠ .running ∧
      t.finish activity status = .ok s'.twin) ∧ ∀ b, r = .ok b → post b s'

namespace Finishes

variable {activity : UInt64} {x : Run α β} {f : β → Run α γ} {post : γ → RunState α → Prop}

/-- What succeeds closes what it began, and then the activity is ended. -/
theorem bind {b : β} (h : on x s = (.ok b, s')) (hcloses : s.twin.Closes 0 s'.twin)
    (hf : Finishes activity bound (f b) s' post) : Finishes activity bound (x >>= f) s post := by
  intro r s₁ hx hr
  rw [on_bind_ok h] at hx
  obtain ⟨⟨count, hcount, t, status, hrest, hend⟩, hpost⟩ := hf r s₁ hx hr
  have hall := hcloses.trans hrest
  rw [Nat.zero_add] at hall
  exact ⟨⟨count, hcount, t, status, hall, hend⟩, hpost⟩

/-- The activity is ended, and nothing happens to the twin afterwards. -/
theorem finish {status : Status} {f : Unit → Run α γ}
    (h : s.twin.contains (.activity activity) = true) (hstatus : status ≠ .running)
    (hrest : ∀ t, (∀ k, s.twin.contains k = true → t.contains k = true) →
      (on (f ()) { s with twin := t }).2.twin = t ∧
      ∀ c, (on (f ()) { s with twin := t }).1 = .ok c → post c (on (f ()) { s with twin := t }).2) :
    Finishes activity 0 (Run.finish activity status >>= f) s post := by
  intro r s' hx _
  obtain ⟨t, hfinish, hkeeps⟩ := Twin.exists_finish h status
  rw [Run.finish, on_bind_ok (on_update hfinish)] at hx
  obtain ⟨htwin, hpost⟩ := hrest t hkeeps.contains
  rw [hx] at htwin hpost
  exact ⟨⟨0, Nat.le_refl 0, s.twin, status, .refl _, hstatus, htwin ▸ hfinish⟩, hpost⟩

end Finishes

/-- What is ended is closed together with all that was begun within it. -/
theorem Finishes.closes {x : Run α β} {post : β → RunState α → Prop} {r : Except ExecutionError β}
    {twin : Twin α} {kind : ActivityKind} {description agent : String} {count : Nat}
    (h : Finishes twin.nextActivity 0 x s post) (hx : on x s = (r, s')) (hr : r ≠ .error .brokeDown)
    (hcloses : (twin.begin kind description agent).2.Closes count s.twin) :
    twin.Closes (count + 1) s'.twin := by
  obtain ⟨⟨n, hn, t, status, hrest, hstatus, hfinish⟩, -⟩ := h r s' hx hr
  obtain rfl := Nat.le_zero.mp hn
  exact (hcloses.trans hrest).bracket hfinish hstatus

/-- What an activity was begun for ends it. -/
theorem Settles.of_finishes {kind : ActivityKind} {description agent : String}
    {f : UInt64 → Run α γ} {post : γ → RunState α → Prop}
    (h : Finishes s.twin.nextActivity bound (f s.twin.nextActivity)
      { s with twin := (s.twin.begin kind description agent).2 } post) :
    Settles (bound + 1) (begin kind description agent >>= f) s post := by
  intro r s' hx hr
  have hbegin : on (begin kind description agent) s = (.ok s.twin.nextActivity,
    { s with twin := (s.twin.begin kind description agent).2 }) := rfl
  rw [on_bind_ok hbegin] at hx
  obtain ⟨⟨count, hcount, t, status, hcloses, hstatus, hfinish⟩, hpost⟩ := h r s' hx hr
  exact ⟨⟨count + 1, Nat.succ_le_succ hcount, hcloses.bracket hfinish hstatus⟩, hpost⟩

/-! ## Single actuators -/

/-- Calls leave the twin as it is when they succeed, and when one fails they end the activity. -/
theorem on_compute (setting : RunSetting α) (j : Job α) {activity : UInt64}
    (h : s.twin.contains (.activity activity) = true) (deps : List (String × Option Value))
    (calls : List Call) (value : Option Value) :
    (∃ v stopped, on (compute setting j deps activity calls value) s =
      (.ok v, { s with stopped })) ∨
    (∃ s', on (compute setting j deps activity calls value) s = (.error .brokeDown, s')) ∨
    ∃ e s' message, on (compute setting j deps activity calls value) s = (.error e, s') ∧
      s.twin.finish activity (.failed message) = .ok s'.twin := by
  induction calls generalizing value s with
  | nil => exact .inl ⟨value, s.stopped, rfl⟩
  | cons call calls ih =>
    have habandon : ∀ e : ExecutionError, ∃ s' message,
        on (abandon activity e : Run α (Option Value)) s = (.error e, s') ∧
        s.twin.finish activity (.failed message) = .ok s'.twin := by
      intro e
      obtain ⟨t, ht, -⟩ := Twin.exists_finish h (.failed e.message)
      exact ⟨{ s with twin := t }, e.message,
        by rw [abandon, finish, on_bind_ok (on_update ht), on_throw], ht⟩
    rw [compute]
    split
    · exact .inr (.inr ⟨_, habandon _⟩)
    · split
      · exact ih h _
      · exact .inr (.inr ⟨_, habandon _⟩)
      · rw [on_bind_ok (on_modify _ s)]
        exact ih (s := { s with stopped := true }) h _
      · exact .inr (.inl ⟨s, rfl⟩)

/-- What an activity does once its observation is made: as the activity and all observations are
recorded, they are linked. -/
theorem recorded_finishes {o : Observation α} {activity : UInt64} (hid : o.id = j.id)
    (hactivity : s.twin.contains (.activity activity) = true)
    (hchildren : ∀ c ∈ children, s.twin.contains (.observation c.job.id) = true) :
    Finishes activity 0 (do
        record fun t => t.record o
        link (.activity activity) .generated (.observation j.id)
        children.forM fun c => link (.activity activity) .used (.observation c.job.id)
        finish activity .succeeded
        return o) s fun _ s' =>
      s'.results = s.results ∧ s'.twin.contains (.observation j.id) = true := by
  have hrecord := Twin.Closes.record s.twin o
  have hself : (s.twin.record o).contains (.observation j.id) = true :=
    hid ▸ Twin.contains_record s.twin o
  have hactivity₁ := hrecord.contains _ hactivity
  obtain ⟨t₂, hgenerated, hkeeps₂⟩ := on_link (s := { s with twin := s.twin.record o }) hactivity₁
    hself .generated
  have hactivity₂ := hkeeps₂.contains _ hactivity₁
  obtain ⟨t₃, hused, hkeeps₃⟩ := on_forM_link (s := { s with twin := t₂ })
    (fun _ => .activity activity) (fun c => .observation c.job.id) .used children
    (fun _ _ => hactivity₂) fun c hc => hkeeps₂.contains _ (hrecord.contains _ (hchildren c hc))
  refine .bind (on_record _ _) hrecord (.bind hgenerated ?_ (.bind hused ?_
    (.finish (hkeeps₃.contains _ hactivity₂) (by simp) fun t hcontains => ?_)))
  · exact (link_ok hgenerated).1 ▸ .connectAll _ [_]
  · exact (forM_link_ok _ _ _ hused).1 ▸ .connectAll _ _
  · refine ⟨rfl, ?_⟩
    rintro o' ⟨⟩
    exact ⟨rfl, hcontains _ (hkeeps₃.contains _ (hkeeps₂.contains _ hself))⟩

/-- An observation is made within an activity of its own. -/
theorem observe_settles (j : Job α)
    (hchildren : ∀ c ∈ children, s.twin.contains (.observation c.job.id) = true) :
    Settles 1 (observe setting j children) s fun _ s' =>
      s'.results = s.results ∧ s'.twin.contains (.observation j.id) = true := by
  unfold observe
  change Settles (0 + 1) _ s _
  refine .of_finishes ?_
  have hkeeps := Twin.Keeps.begin s.twin .contextualization (j.kind.name ++ " " ++ j.targetName)
    setting.agent
  have hactivity := Twin.contains_begin s.twin .contextualization
    (j.kind.name ++ " " ++ j.targetName) setting.agent
  generalize (s.twin.begin .contextualization (j.kind.name ++ " " ++ j.targetName)
    setting.agent).2 = t at hkeeps hactivity
  change t.contains (.activity s.twin.nextActivity) = true at hactivity
  refine .bind (on_get _) (.refl _) ?_
  obtain ⟨v, stopped, hcompute⟩ | ⟨s', hcompute⟩ | ⟨e, s', message, hcompute, hfinish⟩ :=
    on_compute (s := { s with twin := t }) setting j hactivity
      (dependencies s.results children) j.computation none
  · refine .bind hcompute (.refl _) (.bind (on_look _ _) (.refl _) ?_)
    cases (RunState.looked setting.asked { s with twin := t, stopped }).stopped with
    | true => exact .finish hactivity (by simp) fun t' _ => ⟨rfl, by rintro c ⟨⟩⟩
    | false =>
      exact recorded_finishes rfl hactivity fun c hc => hkeeps.contains _ (hchildren c hc)
  · intro r s₁ hx hr
    rw [on_bind_error hcompute] at hx
    cases hx
    exact absurd rfl hr
  · intro r s₁ hx hr
    rw [on_bind_error hcompute] at hx
    cases hx
    exact ⟨⟨0, Nat.le_refl 0, t, .failed message, .refl _, by simp, hfinish⟩, by simp⟩

theorem takeOver_settles (j : Job α) :
    Settles 0 (takeOver j) s fun _ s' =>
      s'.results = s.results ∧ s'.twin.contains (.observation j.id) = true := by
  unfold takeOver
  split
  · exact .throw _
  · refine .get_bind ?_
    split
    · exact .throw _
    · exact .of_ok rfl (Twin.Closes.record _ _) ⟨rfl, Twin.contains_record s.twin _⟩

theorem accept_settles (o : Observation α) :
    Settles 0 (accept setting j children o) s fun _ s' =>
      s'.results = s.results.insert j.id o := by
  have hinsert : ∀ s₁ : RunState α, s₁.results = s.results →
      Settles 0 (modify fun s : RunState α => { s with results := s.results.insert j.id o } :
        Run α PUnit) s₁ fun _ s' => s'.results = s.results.insert j.id o :=
    fun s₁ h => .of_ok (on_modify _ s₁) (Twin.Closes.refl _) (by rw [h])
  have hlinks := Settles.forM_link (s := s) (fun c => .observation c.job.id)
    (fun _ => .observation j.id) .childOf children
  change Settles (0 + 0) _ s _
  refine hlinks.bind fun _ s₁ h₁ _ => ?_
  split
  · exact (Settles.link _ _ _).bind fun _ s₂ h₂ _ => hinsert s₂ (h₂.trans h₁)
  · exact hinsert s₁ h₁

/-! ## Whole plans -/

/-- All that was computed is recorded, and some observations are among it. -/
structure Computes (ids : List Identifier) (s s' : RunState α) : Prop where
  recorded : ∀ i ∈ s'.results.keys, s'.twin.contains (.observation i) = true
  kept : s.results.keys ⊆ s'.results.keys
  computed : ids ⊆ s'.results.keys

theorem Computes.trans {ids ids' : List Identifier} {s₁ : RunState α} (h : Computes ids s s₁)
    (h' : Computes ids' s₁ s') : Computes (ids ++ ids') s s' where
  recorded := h'.recorded
  kept := List.Subset.trans h.kept h'.kept
  computed := List.append_subset.mpr ⟨List.Subset.trans h.computed h'.kept, h'.computed⟩

/-- An observation that was recorded is accepted. -/
theorem accept_computes {s₁ : RunState α}
    (hrecorded : ∀ i ∈ s.results.keys, s.twin.contains (.observation i) = true)
    (hcontains : ∀ k, s.twin.contains k = true → s₁.twin.contains k = true)
    (h : s₁.results = s.results ∧ s₁.twin.contains (.observation j.id) = true)
    (o : Observation α) :
    Settles 0 (accept setting j children o) s₁ fun _ s' => Computes [j.id] s s' := by
  obtain ⟨hresults, hself⟩ := h
  refine (accept_settles o).keeps.mono (Nat.le_refl 0) fun _ s' ⟨hinsert, hkeeps⟩ => ?_
  have hkeys : ∀ i, i ∈ s'.results.keys ↔ i = j.id ∨ i ∈ s.results.keys := by
    intro i
    rw [hinsert, hresults, Keyed.keys_insert]
    split
    · rename_i hmem
      exact ⟨.inr, fun h => h.elim (fun heq => heq ▸ hmem) id⟩
    · rw [List.mem_append, List.mem_singleton, or_comm]
  refine ⟨fun i hi => ?_, fun i hi => (hkeys i).mpr (.inr hi), ?_⟩
  · obtain rfl | hi := (hkeys i).mp hi
    · exact hkeeps _ hself
    · exact hkeeps _ (hcontains _ (hrecorded i hi))
  · simp [hkeys]

theorem perform_settles
    (hrecorded : ∀ i ∈ s.results.keys, s.twin.contains (.observation i) = true)
    (hchildren : ∀ c ∈ children, c.job.id ∈ s.results.keys) :
    Settles ([Actuator.mk j children].countP Actuator.begins) (perform setting j children) s
      fun _ s' => Computes [j.id] s s' := by
  rw [perform_eq]
  suffices hlooked : Settles ([Actuator.mk j children].countP Actuator.begins)
      (if (s.looked setting.asked).stopped then throw .cancelled
        else if j.kind = .reference then takeOver j >>= accept setting j children
        else observe setting j children >>= accept setting j children)
      (s.looked setting.asked) fun _ s' => Computes [j.id] (s.looked setting.asked) s' by
    exact Settles.look_bind (hlooked.mono (Nat.le_refl _) fun _ _ h =>
      ⟨h.recorded, h.kept, h.computed⟩)
  rw [← s.results_looked setting.asked] at hrecorded hchildren
  rw [← s.twin_looked setting.asked] at hrecorded
  generalize s.looked setting.asked = s at hrecorded hchildren ⊢
  split
  · exact .throw _
  · split
    · exact ((takeOver_settles j).bind fun o s₁ h hcontains =>
        accept_computes hrecorded hcontains h o).mono (Nat.zero_le _) fun _ _ => id
    · rename_i hkind
      have hbegins : [Actuator.mk j children].countP Actuator.begins = 1 := by
        simp [Actuator.begins, Actuator.job, hkind]
      rw [hbegins]
      exact (observe_settles j fun c hc => hrecorded _ (hchildren c hc)).bind
        fun o s₁ h hcontains => accept_computes hrecorded hcontains h o

mutual

/-- An actuator and all below it. -/
theorem actuator_settles {s : RunState α} : (a : Actuator α) →
    (∀ i ∈ s.results.keys, s.twin.contains (.observation i) = true) →
    Settles (a.walk.countP Actuator.begins) (actuator setting a) s
      fun _ s' => Computes (a.walk.map fun b => b.job.id) s s'
  | .mk j children, hrecorded => by
    rw [actuator]
    rw [Actuator.walk, ← List.singleton_append, List.countP_append, Nat.add_comm, List.map_append]
    refine (actuators_settles children hrecorded).bind fun _ s₁ h _ => ?_
    have hchildren : ∀ c ∈ children, c.job.id ∈ s₁.results.keys := fun c hc =>
      h.computed (List.mem_map_of_mem (Actuator.mem_walkAll hc))
    exact (perform_settles h.recorded hchildren).mono (Nat.le_refl _) fun _ s' h' =>
      have hids := List.append_subset.mpr ⟨h'.computed, List.Subset.trans h.computed h'.kept⟩
      { h.trans h' with computed := hids }

theorem actuators_settles {s : RunState α} : (as : List (Actuator α)) →
    (∀ i ∈ s.results.keys, s.twin.contains (.observation i) = true) →
    Settles ((Actuator.walkAll as).countP Actuator.begins) (actuators setting as) s
      fun _ s' => Computes ((Actuator.walkAll as).map fun b => b.job.id) s s'
  | [], hrecorded => .pure ⟨hrecorded, List.Subset.refl _, by simp [Actuator.walkAll]⟩
  | a :: as, hrecorded => by
    rw [actuators, Actuator.walkAll, List.countP_append, List.map_append]
    exact (actuator_settles a hrecorded).bind fun _ s₁ h _ =>
      (actuators_settles as h.recorded).mono (Nat.le_refl _) fun _ _ h' => h.trans h'

end

theorem all_settles (roots : List (Actuator α)) (hnew : s.results = .empty) :
    Settles ((Actuator.walkAll roots).countP Actuator.begins) (all setting roots) s
      fun _ s' => Computes ((Actuator.walkAll roots).map fun a => a.job.id) s s' := by
  unfold all
  rw [forM_walk]
  have hrecorded : ∀ i ∈ s.results.keys, s.twin.contains (.observation i) = true := by
    rw [hnew]
    simp [Keyed.keys, Keyed.empty]
  change Settles ((Actuator.walkAll roots).countP Actuator.begins + 0) _ s _
  refine (actuators_settles roots hrecorded).bind fun _ s₁ h _ => Settles.look_bind ?_
  split
  · exact Settles.throw _
  · exact Settles.pure ⟨h.recorded, h.kept, h.computed⟩

theorem giveUp_finishes {activity : UInt64} (h : s.twin.contains (.activity activity) = true)
    (e : ExecutionError) : Finishes activity 0 (giveUp activity e) s fun _ _ => True := by
  unfold giveUp
  split
  · intro r s' hx hr
    cases hx
    exact absurd rfl hr
  · exact .finish h (by simp) fun t _ => ⟨rfl, fun _ _ => trivial⟩
  · exact .finish h (by simp) fun t _ => ⟨rfl, fun _ _ => trivial⟩

theorem conclude_finishes {d : Dataflow α} {activity : UInt64} {i : Identifier}
    {o : Observation α} (h : s.twin.contains (.activity activity) = true)
    (htarget : d.target.or (d.actuators.head?.map fun a => a.job.id) = some i)
    (ho : s.results.get? i = some o) :
    Finishes activity 0 (conclude d activity) s fun _ _ => True := by
  unfold conclude
  rw [htarget]
  dsimp only
  refine .bind (on_get s) (.refl _) ?_
  rw [ho]
  have hrecord := Twin.Closes.record s.twin (d.concluded o)
  exact .bind (on_record _ _) hrecord
    (.finish (hrecord.contains _ h) (by simp) fun t _ => ⟨rfl, fun _ _ => trivial⟩)

theorem on_conclude_missing {d : Dataflow α} {activity : UInt64} {i : Identifier}
    (htarget : d.target.or (d.actuators.head?.map fun a => a.job.id) = some i)
    (ho : s.results.get? i = none) :
    on (conclude d activity) s = (.error (.missingReference i.val i.val), s) := by
  unfold conclude
  rw [htarget]
  dsimp only
  rw [on_bind_ok (on_get s), ho]
  rfl

end Run

namespace Dataflow

variable {d : Dataflow α} {registry : Registry α} {agent : String} {ctx : Context α}
  {twin t : Twin α} {stopped asked : Bool} {requests : Nat → Bool}
  {result : Except ExecutionError (Observation α)}

/-- What a plan that does something is for: what it was made to produce, or else its first root. -/
theorem exists_target (hsome : d.isEmpty = false) :
    ∃ i, d.target.or (d.actuators.head?.map fun a => a.job.id) = some i ∧
      (i ∉ d.ids → d.target = some i) := by
  obtain ⟨a, as, has⟩ := List.exists_cons_of_ne_nil (List.isEmpty_eq_false_iff.mp hsome)
  cases htarget : d.target with
  | some i => exact ⟨i, rfl, fun _ => rfl⟩
  | none =>
    refine ⟨a.job.id, by rw [has]; rfl, fun hmissing => absurd ?_ hmissing⟩
    exact List.mem_map_of_mem (Actuator.mem_walkAll (has ▸ List.mem_cons_self))

/-- A run closes what it began, or the observation that it was made to produce is not one of the
plan, and it closes all but its own activity. -/
theorem run_closes_or_open
    (hrun : d.run registry agent ctx twin stopped requests = (result, t, asked))
    (hreturns : result ≠ .error .brokeDown) :
    (∃ count ≤ d.walk.countP Actuator.begins + 1, twin.Closes count t) ∨
    ∃ i, d.target = some i ∧ i ∉ d.ids ∧ result = .error (.missingReference i.val i.val) ∧
      ∃ count ≤ d.walk.countP Actuator.begins, ∃ description answering,
        (twin.begin .resolution description answering).2.Closes count t := by
  obtain ⟨last, hresult, rfl⟩ : ∃ last, Edit.on (Run.dataflow registry agent d ctx requests)
      { twin, stopped } = (result, last) ∧ last.twin = t := by
    cases hrun
    exact ⟨_, rfl, rfl⟩
  cases hsome : d.isEmpty with
  | true =>
    rw [on_dataflow_isEmpty hsome registry agent ctx requests] at hresult
    cases hresult
    exact .inl ⟨0, Nat.zero_le _, .refl _⟩
  | false =>
    obtain ⟨setting, description, answering, -, hactivity, -, -, hdataflow⟩ :=
      on_dataflow_begun hsome registry agent ctx twin stopped requests
    have hown : (twin.begin .resolution description answering).2.contains
        (.activity twin.nextActivity) = true := Twin.contains_begin ..
    obtain ⟨r, s', hall⟩ : ∃ r s', Edit.on (Run.all setting d.actuators)
        { twin := (twin.begin .resolution description answering).2, stopped } = (r, s') :=
      ⟨_, _, rfl⟩
    have hsettles := Run.all_settles d.actuators rfl r s' hall
    rw [hdataflow r s' hall, hactivity] at hresult
    cases r with
    | error e =>
      have he : e ≠ .brokeDown := by
        rintro rfl
        cases hresult
        exact hreturns rfl
      obtain ⟨⟨count, hcount, hcloses⟩, -⟩ := hsettles (by simpa using he)
      have hends := Run.giveUp_finishes (hcloses.contains _ hown) e
      exact .inl ⟨count + 1, Nat.succ_le_succ hcount, hends.closes hresult hreturns hcloses⟩
    | ok _ =>
      obtain ⟨⟨count, hcount, hcloses⟩, hcomputes⟩ := hsettles (by simp)
      have hcomputed : d.ids ⊆ s'.results.keys := (hcomputes () rfl).computed
      obtain ⟨i, htarget, hhead⟩ := exists_target hsome
      cases ho : s'.results.get? i with
      | some o =>
        have hends := Run.conclude_finishes (hcloses.contains _ hown) htarget ho
        exact .inl ⟨count + 1, Nat.succ_le_succ hcount, hends.closes hresult hreturns hcloses⟩
      | none =>
        have hmissing : i ∉ d.ids := fun hi => Keyed.get?_eq_none.mp ho (hcomputed hi)
        rw [Run.on_conclude_missing htarget ho] at hresult
        cases hresult
        exact .inr ⟨i, hhead hmissing, hmissing, rfl, count, hcount, description, answering,
          hcloses⟩

/-- Unless a component breaks down, a run has ended all activities that it began, at most one for
itself and one for each actuator that refers to no other one, and no other activity was touched. The
only one that may be left running is that of the run itself, and only when the observation that the
plan was made to produce is not one of the plan. -/
theorem run_closes (hrun : d.run registry agent ctx twin stopped requests = (result, t, asked))
    (hreturns : result ≠ .error .brokeDown) :
    ∃ count ≤ d.walk.countP Actuator.begins + 1,
      t.nextActivity = twin.nextActivity + UInt64.ofNat count ∧
      (∀ id, id ∉ twin.numbers count → t.activity? id = twin.activity? id) ∧
      ∀ id ∈ twin.numbers count, ∃ a, t.activity? id = some a ∧
        (a.status = .running → id = twin.nextActivity ∧
          ∃ i, d.target = some i ∧ i ∉ d.ids ∧
            result = .error (.missingReference i.val i.val)) := by
  obtain ⟨count, hcount, hcloses⟩ | ⟨i, htarget, hmissing, hresult, count, hcount, description,
    answering, hcloses⟩ := run_closes_or_open hrun hreturns
  · refine ⟨count, hcount, hcloses.next, hcloses.others, fun id hid => ?_⟩
    obtain ⟨a, ha, hstatus⟩ := hcloses.closed id hid
    exact ⟨a, ha, fun hrunning => absurd hrunning hstatus⟩
  · have hnext : (twin.begin .resolution description answering).2.nextActivity =
        twin.nextActivity + UInt64.ofNat 1 := Twin.nextActivity_begin ..
    refine ⟨1 + count, by omega, ?_, fun id hid => ?_, fun id hid => ?_⟩
    · rw [hcloses.next, hnext, UInt64.ofNat_add, UInt64.add_assoc]
    · rw [Twin.mem_numbers_add hnext, Twin.numbers_one, List.mem_singleton, not_or] at hid
      rw [hcloses.others id hid.2, Twin.activity?_begin, if_neg (Ne.symm hid.1)]
    · rw [Twin.mem_numbers_add hnext, Twin.numbers_one, List.mem_singleton] at hid
      by_cases hbelow : id ∈ (twin.begin .resolution description answering).2.numbers count
      · obtain ⟨a, ha, hstatus⟩ := hcloses.closed id hbelow
        exact ⟨a, ha, fun hrunning => absurd hrunning hstatus⟩
      · obtain rfl := hid.resolve_right hbelow
        refine ⟨_, by rw [hcloses.others _ hbelow, Twin.activity?_begin, if_pos rfl],
          fun _ => ⟨rfl, i, htarget, hmissing, hresult⟩⟩

/-! ## Runs that fail -/

open Resolution

theorem exists_of_error {ε β : Type} {x : Except ε β} {P : ε → Prop} [DecidablePred P]
    (h : (match x with | .error e => decide (P e) | .ok _ => false) = true) :
    ∃ e, x = .error e ∧ P e := by
  cases x with
  | error e => exact ⟨e, rfl, of_decide_eq_true h⟩
  | ok r => cases h

def second : Identifier := ⟨2, by decide, by decide⟩

def third : Identifier := ⟨3, by decide, by decide⟩

/-- Land is computed from soil, by calls and for an observation. -/
def landFromSoil (calls : List Call) (target : Identifier) : Dataflow Number where
  actuators := [.mk (job .first land calls) [.mk (job second soil []) []]]
  coverage := .full .scalar
  target := some target
where
  job (id : Identifier) (o : Observable) (calls : List Call) : Job Number :=
    { id, observable := o, scale := .scalar, computation := calls, coverage := .full .scalar }

/-- A twin in which the activity of an earlier run was left running. -/
def leftRunning : Twin Number := (({} : Twin Number).begin .resolution "earlier" "a").2

/-- An unknown call of the root ends its activity and that of the run. -/
theorem run_closes_unknown :
    ∃ result t asked,
      (landFromSoil [{ name := "a.b" }] .first).run .builtIn "a" everywhere leftRunning false =
        (result, t, asked) ∧
      result ≠ .error .brokeDown ∧ t.nextActivity = 5 ∧
      (t.activity? 1).map Activity.status = some .running ∧
      ∃ count ≤ 3, t.nextActivity = leftRunning.nextActivity + UInt64.ofNat count ∧
        (∀ id, id ∉ leftRunning.numbers count → t.activity? id = leftRunning.activity? id) ∧
        ∀ id ∈ leftRunning.numbers count, ∃ a, t.activity? id = some a ∧
          (a.status = .running → id = 2 ∧ ∃ i, some Identifier.first = some i ∧
            i ∉ [.first, second] ∧ result = .error (.missingReference i.val i.val)) := by
  obtain ⟨e, he, hreturns, hnext, hleft⟩ := exists_of_error
    (P := fun e => e ≠ ExecutionError.brokeDown ∧
      ((landFromSoil [{ name := "a.b" }] .first).run .builtIn "a" everywhere leftRunning
        false).2.1.nextActivity = 5 ∧
      (((landFromSoil [{ name := "a.b" }] .first).run .builtIn "a" everywhere leftRunning
        false).2.1.activity? 1).map Activity.status = some .running)
    (x := ((landFromSoil [{ name := "a.b" }] .first).run .builtIn "a" everywhere leftRunning
      false).1) (by decide +kernel)
  have hne : (Except.error e : Except ExecutionError (Observation Number)) ≠ .error .brokeDown :=
    fun h => hreturns (Except.error.inj h)
  exact ⟨.error e, _, _, Prod.ext he rfl, hne, hnext, hleft, run_closes (Prod.ext he rfl) hne⟩

/-- The plan is made for an observation that none of its actuators makes: the run fails and its own
activity is left running. -/
theorem run_leaves_open :
    ∃ t asked, (landFromSoil [] third).run .builtIn "a" everywhere {} false =
        (.error (.missingReference 3 3), t, asked) ∧
      (t.activity? 1).map Activity.status = some .running := by
  obtain ⟨e, he, rfl, hopen⟩ := exists_of_error
    (P := fun e => e = ExecutionError.missingReference 3 3 ∧
      (((landFromSoil [] third).run .builtIn "a" everywhere {} false).2.1.activity? 1).map
        Activity.status = some .running)
    (x := ((landFromSoil [] third).run .builtIn "a" everywhere {} false).1) (by decide +kernel)
  exact ⟨_, _, Prod.ext he rfl, hopen⟩

end Dataflow

end Obsplan
