import Obsplan.Proofs.Execution.Evaluation
import Obsplan.Proofs.Twin.Records

/-!
# The steps of a run

What the parts of a run give in a state, and the state afterwards. Activities that were begun can be
ended, and what was recorded can be linked, so a run fails only where a computation fails, where it
is asked to stop, or where a reference has nothing to refer to.
-/

namespace Obsplan.Run

open Edit

variable {α : Type} [Coordinate α] {β γ : Type}

theorem on_look (setting : RunSetting α) (s : RunState α) :
    on (look setting) s = (.ok (s.looked setting.asked).stopped, s.looked setting.asked) := rfl

variable {s : RunState α} {setting : RunSetting α} {j : Job α} {activity : UInt64}

/-! ## Steps on the twin -/

theorem on_record (change : Twin α → Twin α) (s : RunState α) :
    on (record change) s = (.ok (), { s with twin := change s.twin }) := rfl

theorem on_update {edit : Edit (Twin α) ExecutionError PUnit} {t : Twin α}
    (h : edit.made s.twin = .ok t) : on (update edit) s = (.ok (), { s with twin := t }) := by
  rw [update, on_within, on_of_made h]

/-- What a twin refuses leaves the run as it is. -/
theorem on_update_error {edit : Edit (Twin α) ExecutionError PUnit} (hedit : Edit.Atomic edit)
    {e : ExecutionError} (h : edit.made s.twin = .error e) :
    on (update edit) s = (.error e, s) := by
  rw [update, on_within, hedit.on_of_made h]

theorem on_begin (kind : ActivityKind) (description agent : String) (s : RunState α) :
    ∃ activity t, on (begin kind description agent) s = (.ok activity, { s with twin := t }) ∧
      s.twin.Keeps t ∧ t.contains (.activity activity) = true :=
  ⟨_, _, rfl, .begin _ _ _ _, Twin.contains_begin _ _ _ _⟩

theorem on_finish (h : s.twin.contains (.activity activity) = true) (status : Status) :
    ∃ t, on (finish activity status) s = (.ok (), { s with twin := t }) ∧ s.twin.Keeps t := by
  obtain ⟨t, ht, hkeeps⟩ := Twin.exists_finish h status
  exact ⟨t, on_update ht, hkeeps⟩

theorem on_abandon (h : s.twin.contains (.activity activity) = true) (e : ExecutionError) :
    ∃ t, on (abandon activity e : Run α β) s = (.error e, { s with twin := t }) ∧
      s.twin.Keeps t := by
  obtain ⟨t, ht, hkeeps⟩ := on_finish h (.failed e.message)
  exact ⟨t, by rw [abandon, on_bind_ok ht, on_throw], hkeeps⟩

theorem on_link {source target : NodeKey} (hs : s.twin.contains source = true)
    (ht : s.twin.contains target = true) (r : Relationship) :
    ∃ t, on (link source r target) s = (.ok (), { s with twin := t }) ∧ s.twin.Keeps t := by
  obtain ⟨t, ht, hkeeps⟩ := Twin.exists_link hs ht r
  exact ⟨t, on_update ht, hkeeps⟩

theorem on_forM_link (source target : Actuator α → NodeKey) (r : Relationship)
    (as : List (Actuator α)) (hs : ∀ a ∈ as, s.twin.contains (source a) = true)
    (ht : ∀ a ∈ as, s.twin.contains (target a) = true) :
    ∃ t, on (as.forM fun a => link (source a) r (target a)) s = (.ok (), { s with twin := t }) ∧
      s.twin.Keeps t := by
  induction as generalizing s with
  | nil => exact ⟨s.twin, rfl, .refl _⟩
  | cons a as ih =>
    obtain ⟨hsource, hs⟩ := List.forall_mem_cons.mp hs
    obtain ⟨htarget, ht⟩ := List.forall_mem_cons.mp ht
    obtain ⟨t₁, hlink, hkeeps⟩ := on_link hsource htarget r
    obtain ⟨t, hrest, hkeeps'⟩ := ih (s := { s with twin := t₁ })
      (fun a ha => hkeeps.contains _ (hs a ha)) (fun a ha => hkeeps.contains _ (ht a ha))
    exact ⟨t, (on_bind_ok hlink).trans hrest, hkeeps.trans hkeeps'⟩

/-! ## Actuators -/

/-- What a run does with an observation that was made. -/
def accept (setting : RunSetting α) (j : Job α) (children : List (Actuator α)) (o : Observation α) :
    Run α Unit := do
  children.forM fun c => link (.observation c.job.id) .childOf (.observation j.id)
  if setting.target = some j.id then
    link (.activity setting.activity) .generated (.observation j.id)
  modify fun s => { s with results := s.results.insert j.id o }

/-- An observation is made, unless the run was asked to stop, and then accepted. -/
theorem perform_eq (setting : RunSetting α) (j : Job α) (children : List (Actuator α)) :
    perform setting j children = look setting >>= fun stopped =>
      if stopped then throw .cancelled
      else if j.kind = .reference then takeOver j >>= accept setting j children
      else observe setting j children >>= accept setting j children := by
  unfold perform
  refine congrArg (look setting >>= ·) (funext fun stopped => ?_)
  dsimp only
  split <;> rfl

/-! ## Calls -/

theorem on_compute_ok (activity : UInt64) {deps : List (String × Option Value)}
    {calls : List Call} {value v : Option Value} {asked : Bool}
    (h : Evaluation.calls setting.registry j deps calls value = .ok (v, asked)) :
    on (compute setting j deps activity calls value) s =
      (.ok v, if asked then { s with stopped := true } else s) := by
  induction calls generalizing value v asked s with
  | nil =>
    cases h
    rfl
  | cons call calls ih =>
    rw [Evaluation.calls] at h
    rw [compute]
    cases hcomponent : setting.registry.get? call.name with
    | none =>
      rw [hcomponent] at h
      cases h
    | some component =>
      simp only [hcomponent] at h ⊢
      cases hreply : component call ⟨j.observable, j.scale, deps, value⟩ with
      | output value' =>
        simp only [hreply] at h ⊢
        exact ih h
      | failure message =>
        simp only [hreply] at h
        cases h
      | breakdown =>
        simp only [hreply] at h
        cases h
      | stop value' =>
        simp only [hreply] at h ⊢
        cases hcalls : Evaluation.calls setting.registry j deps calls value' with
        | error e =>
          rw [hcalls] at h
          cases h
        | ok result =>
          rw [hcalls] at h
          cases h
          rw [on_bind_ok (on_modify _ s), ih hcalls, ite_self]
          rfl

theorem on_compute_error {deps : List (String × Option Value)} {calls : List Call}
    {value : Option Value} {e : ExecutionError}
    (hactivity : s.twin.contains (.activity activity) = true)
    (h : Evaluation.calls setting.registry j deps calls value = .error e) :
    ∃ s', on (compute setting j deps activity calls value) s = (.error e, s') ∧
      s.twin.Keeps s'.twin := by
  induction calls generalizing value s with
  | nil => cases h
  | cons call calls ih =>
    rw [Evaluation.calls] at h
    rw [compute]
    cases hcomponent : setting.registry.get? call.name with
    | none =>
      simp only [hcomponent] at h ⊢
      cases h
      obtain ⟨t, ht, hkeeps⟩ := on_abandon hactivity (.unknownCall call.name)
      exact ⟨_, ht, hkeeps⟩
    | some component =>
      simp only [hcomponent] at h ⊢
      cases hreply : component call ⟨j.observable, j.scale, deps, value⟩ with
      | output value' =>
        simp only [hreply] at h ⊢
        exact ih hactivity h
      | failure message =>
        simp only [hreply] at h ⊢
        cases h
        obtain ⟨t, ht, hkeeps⟩ := on_abandon hactivity (.stepFailed j.id.val call.name message)
        exact ⟨_, ht, hkeeps⟩
      | breakdown =>
        simp only [hreply] at h ⊢
        cases h
        exact ⟨s, rfl, .refl _⟩
      | stop value' =>
        simp only [hreply] at h ⊢
        cases hcalls : Evaluation.calls setting.registry j deps calls value' with
        | ok result =>
          rw [hcalls] at h
          cases h
        | error e' =>
          rw [hcalls] at h
          cases h
          rw [on_bind_ok (on_modify _ s)]
          exact ih hactivity hcalls

end Obsplan.Run
