import Obsplan.Proofs.Execution.Steps
import Obsplan.Proofs.Execution.Walk

/-!
# Runs refine evaluation

A run follows the evaluation of its plan: it holds the observations that were made, has recorded
them in the twin, and has not seen a request to stop. Main statements: a run of a plan that nobody
asks to stop succeeds just when its evaluation does, with what was evaluated, and else fails as the
evaluation does; one that may be asked to stop at any time does the same or is cancelled, and has
then recorded what the evaluation makes first.
-/

namespace Obsplan

variable {α : Type} [Coordinate α]

namespace Run

open Edit

variable {s : RunState α} {setting : RunSetting α} {j : Job α} {children : List (Actuator α)}
  {inputs made : List (Observation α)} {o : Observation α} {e : ExecutionError}

/-! ## Single observations -/

/-- The calls of an observation, as far as the run looks whether it was asked to stop. -/
theorem on_observe (setting : RunSetting α)
    (hdeps : dependencies s.results children =
      inputs.map fun o => (dependencyName o.observable, o.value))
    (h : Evaluation.computed setting.registry j inputs = .ok o) :
    ∃ activity t, s.twin.Keeps t ∧ t.contains (.activity activity) = true ∧
      on (observe setting j children) s =
        on (if (s.looked setting.asked).stopped then do
            finish activity .cancelled
            throw .cancelled
          else do
            record fun t => t.record o
            link (.activity activity) .generated (.observation j.id)
            children.forM fun c => link (.activity activity) .used (.observation c.job.id)
            finish activity .succeeded
            return o) { s.looked setting.asked with twin := t } := by
  unfold Evaluation.computed at h
  dsimp only at h
  split at h
  · cases h
  · cases h
  · rename_i value hcalls
    have ho := Except.ok.inj h
    obtain ⟨activity, t, hbegin, hkeeps, hactivity⟩ :=
      on_begin .contextualization (j.kind.name ++ " " ++ j.targetName) setting.agent s
    have hcompute : on (compute setting j _ activity j.computation none) { s with twin := t } =
        (.ok value, { s with twin := t }) := on_compute_ok activity hcalls
    refine ⟨activity, t, hkeeps, hactivity, ?_⟩
    unfold observe
    rw [on_bind_ok hbegin, on_bind_ok (on_get _), hdeps, on_bind_ok hcompute,
      on_bind_ok (on_look _ _)]
    -- beginning the activity and the calls do not change what the run looks at
    have hsame : (RunState.looked setting.asked { s with twin := t }).stopped =
        (s.looked setting.asked).stopped := rfl
    rw [hsame, ← ho]
    cases (s.looked setting.asked).stopped <;> rfl

theorem on_observe_ok (hs : (s.looked setting.asked).stopped = false)
    (hdeps : dependencies s.results children =
      inputs.map fun o => (dependencyName o.observable, o.value))
    (hchildren : ∀ c ∈ children, s.twin.contains (.observation c.job.id) = true)
    (h : Evaluation.computed setting.registry j inputs = .ok o) :
    ∃ t, on (observe setting j children) s = (.ok o, { s.looked setting.asked with twin := t }) ∧
      s.twin.Gains o t := by
  obtain ⟨activity, t₁, hkeeps, hactivity, hobserve⟩ := on_observe setting hdeps h
  have hid : o.id = j.id := (Evaluation.computed_eq h).1
  -- from here on the twin holds the activity and the observation, so all links are made
  have hgains : s.twin.Gains o (t₁.record o) := ⟨t₁, hkeeps, .refl _⟩
  have hactivity₁ : (t₁.record o).contains (.activity activity) = true :=
    Twin.Gains.contains ⟨t₁, .refl _, .refl _⟩ hactivity
  obtain ⟨t₂, hgenerated, hkeeps₂⟩ :=
    on_link (s := { s.looked setting.asked with twin := t₁.record o }) hactivity₁
      (hid ▸ hgains.contains_gained) .generated
  have hactivity₂ := hkeeps₂.contains _ hactivity₁
  obtain ⟨t₃, hused, hkeeps₃⟩ := on_forM_link (s := { s.looked setting.asked with twin := t₂ })
    (fun _ => .activity activity) (fun c => .observation c.job.id) .used children
    (fun _ _ => hactivity₂) fun c hc => (hgains.keeps hkeeps₂).contains (hchildren c hc)
  obtain ⟨t₄, hfinish, hkeeps₄⟩ := on_finish (s := { s.looked setting.asked with twin := t₃ })
    (hkeeps₃.contains _ hactivity₂) .succeeded
  refine ⟨t₄, ?_, ((hgains.keeps hkeeps₂).keeps hkeeps₃).keeps hkeeps₄⟩
  rw [hobserve, if_neg (by simpa using hs)]
  exact (on_bind_ok (on_record _ _)).trans ((on_bind_ok hgenerated).trans
    ((on_bind_ok hused).trans (on_bind_ok hfinish)))

theorem on_observe_stopped (hs : (s.looked setting.asked).stopped = true)
    (hdeps : dependencies s.results children =
      inputs.map fun o => (dependencyName o.observable, o.value))
    (h : Evaluation.computed setting.registry j inputs = .ok o) :
    ∃ s', on (observe setting j children) s = (.error .cancelled, s') ∧
      s.twin.Keeps s'.twin := by
  obtain ⟨activity, t₁, hkeeps, hactivity, hobserve⟩ := on_observe setting hdeps h
  obtain ⟨t, hfinish, hkeeps'⟩ := on_finish (s := { s.looked setting.asked with twin := t₁ })
    hactivity .cancelled
  refine ⟨{ s.looked setting.asked with twin := t }, ?_, hkeeps.trans hkeeps'⟩
  rw [hobserve, if_pos hs, on_bind_ok hfinish, on_throw]

theorem on_observe_error
    (hdeps : dependencies s.results children =
      inputs.map fun o => (dependencyName o.observable, o.value))
    (h : Evaluation.computed setting.registry j inputs = .error e) :
    ∃ s', on (observe setting j children) s = (.error e, s') ∧ s.twin.Keeps s'.twin := by
  obtain ⟨activity, t₁, hbegin, hkeeps, hactivity⟩ :=
    on_begin .contextualization (j.kind.name ++ " " ++ j.targetName) setting.agent s
  unfold observe
  rw [on_bind_ok hbegin, on_bind_ok (on_get _), hdeps]
  unfold Evaluation.computed at h
  dsimp only at h
  split at h
  · rename_i hcalls
    cases h
    obtain ⟨s', hcompute, hkeeps'⟩ := on_compute_error (s := { s with twin := t₁ }) hactivity hcalls
    exact ⟨s', on_bind_error hcompute, hkeeps.trans hkeeps'⟩
  · rename_i value hcalls
    cases h
    have hcompute := on_compute_ok activity (s := { s with twin := t₁ }) hcalls
    obtain ⟨t, hfinish, hkeeps'⟩ := on_finish
      (s := RunState.looked setting.asked { s with twin := t₁, stopped := true }) hactivity
      .cancelled
    refine ⟨{ RunState.looked setting.asked { s with twin := t₁, stopped := true } with twin := t },
      ?_, hkeeps.trans hkeeps'⟩
    rw [on_bind_ok hcompute, on_bind_ok (on_look _ _)]
    exact on_bind_ok hfinish
  · cases h

theorem on_takeOver (hresults : ∀ i, s.results.get? i = Evaluation.latest? made i) :
    on (takeOver j) s = (Evaluation.copied j made,
      { s with twin := (Evaluation.copied j made).toOption.elim s.twin s.twin.record }) := by
  unfold takeOver Evaluation.copied
  cases j.reference with
  | none => rfl
  | some i =>
    dsimp only
    rw [on_bind_ok (on_get _), hresults]
    cases Evaluation.latest? made i with
    | none => rfl
    | some source => rfl

theorem on_perform_stopped (hs : (s.looked setting.asked).stopped = true) :
    on (perform setting j children) s = (.error .cancelled, s.looked setting.asked) := by
  rw [perform_eq, on_bind_ok (on_look _ s), if_pos hs, on_throw]

theorem on_perform (hs : (s.looked setting.asked).stopped = false) :
    on (perform setting j children) s =
      on ((if j.kind = .reference then takeOver j else observe setting j children) >>=
        accept setting j children) (s.looked setting.asked) := by
  rw [perform_eq, on_bind_ok (on_look _ s), if_neg (by simpa using hs)]
  split <;> rfl

theorem on_accept (setting : RunSetting α) (o : Observation α)
    (hself : s.twin.contains (.observation j.id) = true)
    (hchildren : ∀ c ∈ children, s.twin.contains (.observation c.job.id) = true)
    (hactivity : s.twin.contains (.activity setting.activity) = true) :
    ∃ t, on (accept setting j children o) s =
      (.ok (), { s with twin := t, results := s.results.insert j.id o }) ∧ s.twin.Keeps t := by
  obtain ⟨t₁, hlinks, hkeeps⟩ := on_forM_link (fun c => .observation c.job.id)
    (fun _ => .observation j.id) .childOf children hchildren fun _ _ => hself
  unfold accept
  rw [on_bind_ok hlinks]
  by_cases htarget : setting.target = some j.id
  · obtain ⟨t₂, hgenerated, hkeeps'⟩ := on_link (s := { s with twin := t₁ })
      (hkeeps.contains _ hactivity) (hkeeps.contains _ hself) .generated
    refine ⟨t₂, ?_, hkeeps.trans hkeeps'⟩
    rw [if_pos htarget]
    exact on_bind_ok hgenerated
  · refine ⟨t₁, ?_, hkeeps⟩
    rw [if_neg htarget]
    rfl

/-! ## Runs and evaluations -/

/-- A twin that held `start` when the run began has recorded what was made. -/
structure Records (setting : RunSetting α) (start t : Twin α) (made : List (Observation α)) :
    Prop where
  activity : t.contains (.activity setting.activity) = true
  observation : ∀ i, t.observation? i = (Evaluation.latest? made i).or (start.observation? i)

/-- A run goes on with what was made. -/
structure Tracks (setting : RunSetting α) (start : Twin α) (s : RunState α)
    (made : List (Observation α)) : Prop extends Records setting start s.twin made where
  running : s.stopped = false
  results : ∀ i, s.results.get? i = Evaluation.latest? made i

/-- A part of a run ends as an evaluation does, or it saw a request to stop and has recorded what
the evaluation makes first. -/
inductive Ends {β γ : Type} (setting : RunSetting α) (start : Twin α) :
    Except ExecutionError β × RunState α → Except ExecutionError γ × List (Observation α) →
    Prop where
  | succeeded {s : RunState α} {made : List (Observation α)} {b : β} {c : γ} :
      Tracks setting start s made → Ends setting start (.ok b, s) (.ok c, made)
  | failed {s : RunState α} {made : List (Observation α)} {e : ExecutionError} :
      Records setting start s.twin made → Ends setting start (.error e, s) (.error e, made)
  | cancelled {s : RunState α} {made made' : List (Observation α)}
      {r : Except ExecutionError γ} : (∃ n, setting.asked n = true) →
      Records setting start s.twin made → made <+: made' →
      Ends setting start (.error .cancelled, s) (r, made')

variable {start t : Twin α}

theorem Records.keeps (h : Records setting start s.twin made) (hkeeps : s.twin.Keeps t) :
    Records setting start t made where
  activity := hkeeps.contains _ h.activity
  observation i := (hkeeps.observation i).trans (h.observation i)

theorem Records.gains (h : Records setting start s.twin made) (hgains : s.twin.Gains o t) :
    Records setting start t (made ++ [o]) where
  activity := hgains.contains h.activity
  observation i := by
    rw [hgains.observation, Evaluation.latest?_concat, h.observation]
    split <;> rfl

theorem Tracks.looked (h : Tracks setting start s made)
    (hs : (s.looked setting.asked).stopped = false) :
    Tracks setting start (s.looked setting.asked) made where
  activity := h.activity
  observation := h.observation
  running := hs
  results := h.results

/-- Only a request from outside stops a run that goes on. -/
theorem Tracks.asked (h : Tracks setting start s made)
    (hs : (s.looked setting.asked).stopped = true) : ∃ n, setting.asked n = true := by
  refine ⟨s.looks, ?_⟩
  have hs : (s.stopped || setting.asked s.looks) = true := hs
  rwa [h.running, Bool.false_or] at hs

theorem Tracks.contains (h : Tracks setting start s made) {i : Identifier}
    (ho : Evaluation.latest? made i = some o) : s.twin.contains (.observation i) = true := by
  refine Twin.contains_of_observation? (o := o) ?_
  rw [h.observation, ho, Option.some_or]

/-- What the children observed is what the run presents to their parent. -/
theorem Tracks.dependencies (h : Tracks setting start s made)
    (hinputs : List.Forall₂ (Evaluation.Returns made) children inputs) :
    Run.dependencies s.results children =
      inputs.map fun o => (dependencyName o.observable, o.value) := by
  induction hinputs with
  | nil => rfl
  | cons hreturns _ ih =>
    obtain ⟨hobservable, hlatest⟩ := hreturns
    rw [Run.dependencies] at ih ⊢
    rw [List.map_cons, List.map_cons, ih, hobservable, h.results, hlatest]
    rfl

/-- An observation that was made is accepted. -/
theorem Tracks.accept (h : Tracks setting start s made) (hgains : s.twin.Gains o t)
    (hid : o.id = j.id)
    (hchildren : ∀ c ∈ children, s.twin.contains (.observation c.job.id) = true) :
    Ends setting start (on (accept setting j children o) { s with twin := t })
      ((.ok o, made ++ [o]) : Except ExecutionError (Observation α) × _) := by
  obtain ⟨t', haccept, hkeeps⟩ := on_accept (s := { s with twin := t }) setting o
    (hid ▸ hgains.contains_gained) (fun c hc => hgains.contains (hchildren c hc))
    (hgains.contains h.activity)
  rw [haccept]
  refine .succeeded ⟨(h.toRecords.gains (hgains.keeps hkeeps)), h.running, fun i => ?_⟩
  rw [Keyed.get?_insert, Evaluation.latest?_concat, h.results, hid]

theorem Tracks.contains_children (h : Tracks setting start s made)
    (hinputs : List.Forall₂ (Evaluation.Returns made) children inputs) :
    ∀ c ∈ children, s.twin.contains (.observation c.job.id) = true := by
  induction hinputs with
  | nil => simp
  | cons hreturns _ ih => exact List.forall_mem_cons.mpr ⟨h.contains hreturns.2, ih⟩

theorem perform_ends (h : Tracks setting start s made)
    (hinputs : List.Forall₂ (Evaluation.Returns made) children inputs) :
    Ends setting start (on (perform setting j children) s)
      (match Evaluation.observation setting.registry j inputs made with
      | .error e => (.error e, made)
      | .ok o => (.ok o, made ++ [o])) := by
  cases hfirst : (s.looked setting.asked).stopped with
  | true =>
    rw [on_perform_stopped hfirst]
    cases Evaluation.observation setting.registry j inputs made with
    | error e => exact .cancelled (h.asked hfirst) h.toRecords (List.prefix_refl _)
    | ok o => exact .cancelled (h.asked hfirst) h.toRecords (List.prefix_append _ _)
  | false =>
    rw [on_perform hfirst]
    have h := h.looked hfirst
    generalize s.looked setting.asked = s at h
    have hchildren := h.contains_children hinputs
    cases hobservation : Evaluation.observation setting.registry j inputs made with
    | error e =>
      suffices hmake : ∃ s', on (if j.kind = .reference then takeOver j
          else observe setting j children) s = (.error e, s') ∧ s.twin.Keeps s'.twin by
        obtain ⟨s', hmake, hkeeps⟩ := hmake
        rw [on_bind_error hmake]
        exact .failed (h.toRecords.keeps hkeeps)
      unfold Evaluation.observation at hobservation
      by_cases hkind : j.kind = .reference
      · rw [if_pos hkind] at hobservation ⊢
        rw [on_takeOver h.results, hobservation]
        exact ⟨_, rfl, .refl _⟩
      · rw [if_neg hkind] at hobservation ⊢
        exact on_observe_error (h.dependencies hinputs) hobservation
    | ok o =>
      have hid := (Evaluation.observation_eq hobservation).1
      unfold Evaluation.observation at hobservation
      by_cases hkind : j.kind = .reference
      · rw [if_pos hkind] at hobservation ⊢
        have htakeOver := on_takeOver (j := j) h.results
        rw [hobservation] at htakeOver
        rw [on_bind_ok htakeOver]
        exact h.accept ⟨s.twin, .refl _, .refl _⟩ hid hchildren
      · rw [if_neg hkind] at hobservation ⊢
        cases hlast : (s.looked setting.asked).stopped with
        | true =>
          obtain ⟨s', hobserve, hkeeps⟩ :=
            on_observe_stopped hlast (h.dependencies hinputs) hobservation
          rw [on_bind_error hobserve]
          exact .cancelled (h.asked hlast) (h.toRecords.keeps hkeeps) (List.prefix_append _ _)
        | false =>
          obtain ⟨t, hobserve, hgains⟩ :=
            on_observe_ok hlast (h.dependencies hinputs) hchildren hobservation
          rw [on_bind_ok hobserve]
          exact (h.looked hlast).accept hgains hid hchildren

mutual

/-- An actuator whose identifiers are distinct is run as it is evaluated. -/
theorem actuator_ends {s : RunState α} {made : List (Observation α)} : (a : Actuator α) →
    (a.course.map fun b => b.job.id).Nodup → Tracks setting start s made →
    Ends setting start (on (actuator setting a) s)
      (Evaluation.actuator setting.registry a made)
  | .mk j children, hnodup, h => by
    rw [Actuator.course, List.map_append] at hnodup
    have hbelow := hnodup.of_append_left
    have hends := actuators_ends children hbelow h
    rw [actuator, Evaluation.actuator]
    generalize hrun : on (actuators setting children) s = run at hends
    cases hall : Evaluation.actuators setting.registry children made with
    | mk result made₁ =>
      rw [hall] at hends
      cases hends with
      | failed hrecords =>
        rw [on_bind_error hrun]
        exact .failed hrecords
      | cancelled hasked hrecords hmade =>
        rw [on_bind_error hrun]
        refine .cancelled hasked hrecords (hmade.trans ?_)
        have hafter := Evaluation.actuator_after setting.registry j children made
        rwa [Evaluation.actuator, hall] at hafter
      | succeeded htracks =>
        rw [on_bind_ok hrun]
        exact perform_ends htracks (Evaluation.actuators_returns hbelow hall)

theorem actuators_ends {s : RunState α} {made : List (Observation α)} : (as : List (Actuator α)) →
    ((Actuator.courseAll as).map fun b => b.job.id).Nodup → Tracks setting start s made →
    Ends setting start (on (actuators setting as) s)
      (Evaluation.actuators setting.registry as made)
  | [], _, h => .succeeded h
  | a :: as, hnodup, h => by
    rw [Actuator.courseAll, List.map_append] at hnodup
    have hends := actuator_ends a hnodup.of_append_left h
    rw [actuators, Evaluation.actuators]
    generalize hrun : on (actuator setting a) s = run at hends
    cases hone : Evaluation.actuator setting.registry a made with
    | mk result made₁ =>
      rw [hone] at hends
      cases hends with
      | failed hrecords =>
        rw [on_bind_error hrun]
        exact .failed hrecords
      | cancelled hasked hrecords hmade =>
        rw [on_bind_error hrun]
        refine .cancelled hasked hrecords (hmade.trans ?_)
        have hafter := Evaluation.actuators_after setting.registry a as made
        rwa [Evaluation.actuators, hone] at hafter
      | succeeded htracks =>
        rw [on_bind_ok hrun]
        dsimp only
        have hrest := actuators_ends as hnodup.of_append_right htracks
        generalize hrun' : on (actuators setting as) _ = run' at hrest
        cases hall : Evaluation.actuators setting.registry as made₁ with
        | mk results made₂ =>
          rw [hall] at hrest
          cases hrest with
          | failed hrecords => exact .failed hrecords
          | cancelled hasked hrecords hmade =>
            cases results <;> exact .cancelled hasked hrecords hmade
          | succeeded htracks => exact .succeeded htracks

end

theorem all_ends (roots : List (Actuator α))
    (hnodup : ((Actuator.courseAll roots).map fun a => a.job.id).Nodup)
    (h : Tracks setting start s made) :
    Ends setting start (on (all setting roots) s)
      (Evaluation.actuators setting.registry roots made) := by
  have hends := actuators_ends roots hnodup h
  unfold all
  rw [forM_walk]
  generalize hrun : on (actuators setting roots) s = run at hends
  cases hall : Evaluation.actuators setting.registry roots made with
  | mk result made' =>
    rw [hall] at hends
    cases hends with
    | failed hrecords =>
      rw [on_bind_error hrun]
      exact .failed hrecords
    | cancelled hasked hrecords hmade =>
      rw [on_bind_error hrun]
      exact .cancelled hasked hrecords hmade
    | @succeeded s' _ _ _ htracks =>
      rw [on_bind_ok hrun, on_bind_ok (on_look _ _)]
      cases hlast : (s'.looked setting.asked).stopped with
      | true => exact .cancelled (htracks.asked hlast) htracks.toRecords (List.prefix_refl _)
      | false => exact .succeeded (htracks.looked hlast)

/-! ## Whole runs -/

theorem on_giveUp {activity : UInt64} (h : s.twin.contains (.activity activity) = true)
    (e : ExecutionError) :
    ∃ t, on (giveUp activity e) s = (.error e, { s with twin := t }) ∧ s.twin.Keeps t := by
  unfold giveUp
  split
  · exact ⟨s.twin, rfl, .refl _⟩
  · obtain ⟨t, hfinish, hkeeps⟩ := on_finish h .cancelled
    exact ⟨t, on_bind_ok hfinish, hkeeps⟩
  · exact on_abandon h e

theorem on_conclude {d : Dataflow α} {activity : UInt64} {i : Identifier}
    (h : s.twin.contains (.activity activity) = true) (htarget : d.target = some i)
    (ho : s.results.get? i = some o) :
    ∃ t, on (conclude d activity) s = (.ok (d.concluded o), { s with twin := t }) ∧
      s.twin.Gains (d.concluded o) t := by
  have hgains : s.twin.Gains (d.concluded o) (s.twin.record (d.concluded o)) :=
    ⟨s.twin, .refl _, .refl _⟩
  obtain ⟨t, hfinish, hkeeps⟩ := on_finish (s := { s with twin := s.twin.record (d.concluded o) })
    (hgains.contains h) .succeeded
  refine ⟨t, ?_, hgains.keeps hkeeps⟩
  unfold conclude
  rw [htarget, Option.some_or]
  dsimp only
  rw [on_bind_ok (on_get s), ho]
  exact (on_bind_ok (on_record _ _)).trans (on_bind_ok hfinish)

theorem on_observeExcept {x : Run α Unit} {r : Except ExecutionError Unit} {s' : RunState α}
    (h : on x s = (r, s')) : on (dataflow.observeExcept x) s = (.ok r, s') := by
  unfold dataflow.observeExcept
  rw [on_tryCatch]
  cases r with
  | ok _ => rw [on_bind_ok h, on_pure]
  | error e =>
    rw [on_bind_error h]
    rfl

end Run

namespace Dataflow

variable {d : Dataflow α} {registry : Registry α} {agent : String} {ctx : Context α}
  {twin : Twin α} {i : Identifier} {asked : Nat → Bool}

/-- A twin afterwards holds what was made, and else what it held before. -/
def Adds (before : Twin α) (made : List (Observation α)) (after : Twin α) : Prop :=
  ∀ i, after.observation? i = (Evaluation.latest? made i).or (before.observation? i)

theorem run_of_on {stopped : Bool} {r : Except ExecutionError (Observation α)} {s : RunState α}
    (h : Edit.on (Run.dataflow registry agent d ctx asked) { twin, stopped } = (r, s)) :
    d.run registry agent ctx twin stopped asked = (r, s.twin, s.stopped) := by
  have hrun : d.run registry agent ctx twin stopped asked =
      ((Edit.on (Run.dataflow registry agent d ctx asked) { twin, stopped }).1,
        (Edit.on (Run.dataflow registry agent d ctx asked) { twin, stopped }).2.twin,
        (Edit.on (Run.dataflow registry agent d ctx asked) { twin, stopped }).2.stopped) := rfl
  rw [hrun, h]

theorem on_dataflow_isEmpty (h : d.isEmpty = true) (registry : Registry α) (agent : String)
    (ctx : Context α) (asked : Nat → Bool) (s : RunState α) :
    Edit.on (Run.dataflow registry agent d ctx asked) s = (.error .nothingToRun, s) := by
  unfold Run.dataflow
  rw [if_pos h]
  rfl

/-- A run of a plan begins with an activity, and runs the roots. -/
theorem on_dataflow_begun (hsome : d.isEmpty = false) (registry : Registry α) (agent : String)
    (ctx : Context α) (twin : Twin α) (stopped : Bool) (asked : Nat → Bool) :
    ∃ (setting : RunSetting α) (description answering : String), setting.registry = registry ∧
      setting.activity = twin.nextActivity ∧ setting.asked = asked ∧ setting.target = d.target ∧
      ∀ r s', Edit.on (Run.all setting d.actuators)
          { twin := (twin.begin .resolution description answering).2, stopped } = (r, s') →
        Edit.on (Run.dataflow registry agent d ctx asked) { twin, stopped } =
          Edit.on (match r with
            | .ok _ => Run.conclude d setting.activity
            | .error e => Run.giveUp setting.activity e) s' := by
  refine ⟨⟨registry, ctx.constraints.provenanceAgent?.getD agent, twin.nextActivity, d.target,
    asked⟩, Run.description d ctx, ctx.constraints.provenanceAgent?.getD agent, rfl, rfl, rfl, rfl,
    fun r s' hall => ?_⟩
  unfold Run.dataflow
  simp only [hsome, Bool.false_eq_true, if_false]
  have hbegin : Edit.on (Run.begin .resolution (Run.description d ctx)
      (ctx.constraints.provenanceAgent?.getD agent)) { twin, stopped } =
    (.ok twin.nextActivity, { twin := (twin.begin .resolution (Run.description d ctx)
      (ctx.constraints.provenanceAgent?.getD agent)).2, stopped }) := rfl
  refine (Edit.on_bind_ok hbegin).trans <| (Edit.on_bind_ok (Edit.on_modify _ _)).trans <|
    (Edit.on_bind_ok (Run.on_observeExcept hall)).trans ?_
  cases r <;> rfl

/-- The activity of the whole run is there when the roots are run. -/
theorem on_dataflow (hsome : d.isEmpty = false) (registry : Registry α) (agent : String)
    (ctx : Context α) (twin : Twin α) (stopped : Bool) (asked : Nat → Bool) :
    ∃ (setting : RunSetting α) (t : Twin α), setting.registry = registry ∧
      setting.asked = asked ∧ twin.Keeps t ∧ t.contains (.activity setting.activity) = true ∧
      ∀ r s', Edit.on (Run.all setting d.actuators) { twin := t, stopped } = (r, s') →
        Edit.on (Run.dataflow registry agent d ctx asked) { twin, stopped } =
          Edit.on (match r with
            | .ok _ => Run.conclude d setting.activity
            | .error e => Run.giveUp setting.activity e) s' := by
  obtain ⟨setting, description, answering, hregistry, hactivity, hasked, -, hdataflow⟩ :=
    on_dataflow_begun hsome registry agent ctx twin stopped asked
  refine ⟨setting, _, hregistry, hasked, .begin twin .resolution description answering, ?_,
    hdataflow⟩
  rw [hactivity]
  exact Twin.contains_begin twin .resolution description answering

/-- A run of a plan ends as the evaluation of the plan, or is cancelled. -/
theorem run_ends (registry : Registry α) (agent : String) (ctx : Context α) (twin : Twin α)
    (asked : Nat → Bool) (hsome : d.isEmpty = false)
    (hnodup : (d.course.map fun a => a.job.id).Nodup)
    (htarget : d.target = some i) (hmem : i ∈ d.course.map fun a => a.job.id) :
    (∃ e made t stopped, d.evaluate registry = (.error e, made) ∧
      d.run registry agent ctx twin false asked = (.error e, t, stopped) ∧ Adds twin made t) ∨
    (∃ os made o t, d.evaluate registry = (.ok os, made) ∧ Evaluation.latest? made i = some o ∧
      d.run registry agent ctx twin false asked = (.ok (d.concluded o), t, false) ∧
      ∀ k, t.observation? k = if i = k then some (d.concluded o) else
        (Evaluation.latest? made k).or (twin.observation? k)) ∨
    (∃ n, asked n = true) ∧ ∃ made t stopped, made <+: (d.evaluate registry).2 ∧
      d.run registry agent ctx twin false asked = (.error .cancelled, t, stopped) ∧
      Adds twin made t := by
  obtain ⟨setting, t, rfl, rfl, hkeeps, hactivity, hdataflow⟩ :=
    on_dataflow hsome registry agent ctx twin false asked
  have htracks : Run.Tracks setting twin { twin := t } [] :=
    ⟨⟨hactivity, fun k => by simpa using hkeeps.observation k⟩, rfl, fun _ => rfl⟩
  have hends := Run.all_ends d.actuators hnodup htracks
  have halong := Evaluation.actuators_along setting.registry d.actuators []
  generalize hall : Edit.on (Run.all setting d.actuators) { twin := t } = run at hends
  cases hevaluate : Evaluation.actuators setting.registry d.actuators [] with
  | mk result made =>
    rw [hevaluate] at hends halong
    cases hends with
    | failed hrecords =>
      obtain ⟨t', hgiveUp, hkeeps'⟩ := Run.on_giveUp hrecords.activity _
      have hrun := run_of_on ((hdataflow _ _ hall).trans hgiveUp)
      exact .inl ⟨_, made, t', _, hevaluate, hrun, (hrecords.keeps hkeeps').observation⟩
    | cancelled hasked hrecords hmade =>
      obtain ⟨t', hgiveUp, hkeeps'⟩ := Run.on_giveUp hrecords.activity .cancelled
      have hrun := run_of_on ((hdataflow _ _ hall).trans hgiveUp)
      refine .inr (.inr ⟨hasked, _, t', _, ?_, hrun, (hrecords.keeps hkeeps').observation⟩)
      rwa [evaluate, hevaluate]
    | @succeeded s _ _ os htracks =>
      have hids : made.map Observation.id = d.course.map fun a => a.job.id :=
        halong.whole ⟨os, rfl⟩
      obtain ⟨o, ho, hid⟩ := List.mem_map.mp (hids ▸ hmem)
      have hlatest : Evaluation.latest? made i = some o := by
        rw [← hid, Evaluation.latest?_of_mem (hids ▸ hnodup) ho]
      obtain ⟨t', hconclude, hgains⟩ := Run.on_conclude htracks.activity htarget
        ((htracks.results i).trans hlatest)
      have hrun := run_of_on ((hdataflow _ _ hall).trans hconclude)
      rw [htracks.running] at hrun
      refine .inr (.inl ⟨os, made, o, t', hevaluate, hlatest, hrun, fun k => ?_⟩)
      rw [hgains.observation, htracks.observation]
      rw [show (d.concluded o).id = i from hid]

/-- A run gives, and leaves in the twin, what the evaluation of the plan makes. -/
structure RunsAs (d : Dataflow α) (registry : Registry α) (before : Twin α)
    (run : Except ExecutionError (Observation α) × Twin α × Bool) : Prop where
  succeeds : (∃ o, run.1 = .ok o) ↔ ∃ os, (d.evaluate registry).1 = .ok os
  fails : ∀ e, run.1 = .error e ↔ (d.evaluate registry).1 = .error e
  /-- The result is the observation that the plan was made for, with what the plan covers. -/
  result : ∀ p, run.1 = .ok p → ∃ o ∈ (d.evaluate registry).2, d.target = some o.id ∧
    p = d.concluded o
  /-- What was made is that of the first actuators in the order of computation. -/
  finished : (d.evaluate registry).2.map Observation.id <+: d.course.map fun a => a.job.id
  complete : (∃ o, run.1 = .ok o) →
    (d.evaluate registry).2.map Observation.id = d.course.map fun a => a.job.id
  /-- All that was made is recorded, as it was made or with what the plan covers. -/
  recorded : ∀ o ∈ (d.evaluate registry).2, ∃ p, run.2.1.observation? o.id = some p ∧
    p.value = o.value ∧ (p = o ∨ run.1 = .ok p ∧ p = d.concluded o)
  /-- Nothing else is recorded. -/
  others : ∀ k, k ∉ (d.evaluate registry).2.map Observation.id →
    run.2.1.observation? k = before.observation? k

/-- What was made when evaluation ended is for the first actuators. -/
theorem evaluate_finished (d : Dataflow α) (registry : Registry α) :
    (d.evaluate registry).2.map Observation.id <+: d.course.map fun a => a.job.id := by
  obtain ⟨more, hmore, hpart⟩ := (Evaluation.actuators_along registry d.actuators []).part
  rw [show (d.evaluate registry).2 = more from hmore]
  exact hpart

namespace RunsAs

variable {before t : Twin α} {made : List (Observation α)} {stopped : Bool} {e : ExecutionError}
  {os : List (Observation α)} {o : Observation α}

theorem of_error (hnodup : (d.course.map fun a => a.job.id).Nodup)
    (hevaluate : d.evaluate registry = (.error e, made)) (hadds : Adds before made t) :
    d.RunsAs registry before (.error e, t, stopped) := by
  have hfinished := d.evaluate_finished registry
  have hdistinct := hfinished.sublist.nodup hnodup
  rw [hevaluate] at hdistinct
  refine ⟨by simp [hevaluate], by simp [hevaluate], by simp, hfinished, by simp, fun p hp => ?_,
    fun k hk => ?_⟩
  · rw [hevaluate] at hp
    refine ⟨p, ?_, rfl, .inl rfl⟩
    rw [hadds, Evaluation.latest?_of_mem hdistinct hp, Option.some_or]
  · rw [hevaluate] at hk
    rw [hadds, Evaluation.latest?_eq_none.mpr hk, Option.none_or]

theorem of_ok (hnodup : (d.course.map fun a => a.job.id).Nodup)
    (hevaluate : d.evaluate registry = (.ok os, made)) (htarget : d.target = some i)
    (hlatest : Evaluation.latest? made i = some o)
    (hobservation : ∀ k, t.observation? k = if i = k then some (d.concluded o) else
      (Evaluation.latest? made k).or (before.observation? k)) :
    d.RunsAs registry before (.ok (d.concluded o), t, stopped) := by
  obtain ⟨ho, hid⟩ := Evaluation.mem_of_latest? hlatest
  have hfinished := d.evaluate_finished registry
  have hdistinct := hfinished.sublist.nodup hnodup
  rw [hevaluate] at hdistinct
  have hcomplete : (d.evaluate registry).2.map Observation.id = d.course.map fun a => a.job.id :=
    (Evaluation.actuators_along registry d.actuators []).whole ⟨os, by rw [← evaluate, hevaluate]⟩
  refine ⟨by simp [hevaluate], by simp [hevaluate], ?_, hfinished, fun _ => hcomplete,
    fun p hp => ?_, fun k hk => ?_⟩
  · rintro p ⟨⟩
    rw [hevaluate]
    exact ⟨o, ho, hid.symm ▸ htarget, rfl⟩
  · rw [hevaluate] at hp
    have hp := Evaluation.latest?_of_mem hdistinct hp
    by_cases hpi : i = p.id
    · cases hlatest.symm.trans (hpi ▸ hp)
      exact ⟨d.concluded o, by rw [hobservation, if_pos hpi], rfl, .inr ⟨rfl, rfl⟩⟩
    · exact ⟨p, by rw [hobservation, if_neg hpi, hp, Option.some_or], rfl, .inl rfl⟩
  · rw [hevaluate] at hk
    have hki : i ≠ k := by
      rintro rfl
      exact hk (List.mem_map.mpr ⟨o, ho, hid⟩)
    rw [hobservation, if_neg hki, Evaluation.latest?_eq_none.mpr hk, Option.none_or]

/-- The result depends on nothing but the evaluation. -/
theorem unique {before' : Twin α} {run run' : Except ExecutionError (Observation α) × Twin α × Bool}
    (h : d.RunsAs registry before run) (h' : d.RunsAs registry before' run')
    (hnodup : (d.course.map fun a => a.job.id).Nodup) : run.1 = run'.1 := by
  cases hrun : run.1 with
  | error e => exact ((h'.fails e).mpr ((h.fails e).mp hrun)).symm
  | ok p =>
    obtain ⟨p', hrun'⟩ := h'.succeeds.mpr (h.succeeds.mp ⟨p, hrun⟩)
    obtain ⟨o, ho, htarget, rfl⟩ := h.result p hrun
    obtain ⟨o', ho', htarget', rfl⟩ := h'.result p' hrun'
    have hdistinct := h.finished.sublist.nodup hnodup
    have hid : o.id = o'.id := Option.some.inj (htarget.symm.trans htarget')
    rw [hrun', List.inj_on_of_nodup_map hdistinct ho ho' hid]

end RunsAs

/-- Whether a request to stop may come or not, a plan runs as it is evaluated, or it is cancelled
because one came, and then what the evaluation makes first is recorded and nothing else. -/
theorem run_evaluates_or_stops (hsome : d.isEmpty = false) (hids : d.ids.Nodup)
    (htarget : ∃ i ∈ d.ids, d.target = some i) (registry : Registry α) (agent : String)
    (ctx : Context α) (twin : Twin α) (asked : Nat → Bool) :
    d.RunsAs registry twin (d.run registry agent ctx twin false asked) ∨
      (∃ n, asked n = true) ∧ (d.run registry agent ctx twin false asked).1 = .error .cancelled ∧
        ∃ made, made <+: (d.evaluate registry).2 ∧
          Adds twin made (d.run registry agent ctx twin false asked).2.1 := by
  obtain ⟨i, hi, htarget⟩ := htarget
  have hperm : (d.course.map fun a => a.job.id).Perm d.ids :=
    (Actuator.perm_courseAll d.actuators).map _
  have hnodup := hperm.nodup_iff.mpr hids
  obtain ⟨e, made, t, stopped, hevaluate, hrun, hadds⟩ | ⟨os, made, o, t, hevaluate, hlatest, hrun,
    hobservation⟩ | ⟨hasked, made, t, stopped, hmade, hrun, hadds⟩ :=
      run_ends registry agent ctx twin asked hsome hnodup htarget (hperm.mem_iff.mpr hi)
  · exact hrun ▸ .inl (.of_error hnodup hevaluate hadds)
  · exact hrun ▸ .inl (.of_ok hnodup hevaluate htarget hlatest hobservation)
  · exact hrun ▸ .inr ⟨hasked, rfl, made, hmade, hadds⟩

/-- Plans run as they are evaluated, whatever the twin held before. -/
theorem run_evaluates (hsome : d.isEmpty = false) (hids : d.ids.Nodup)
    (htarget : ∃ i ∈ d.ids, d.target = some i) (registry : Registry α) (agent : String)
    (ctx : Context α) (twin : Twin α) :
    d.RunsAs registry twin (d.run registry agent ctx twin false) ∧
      ∀ agent' ctx' twin', (d.run registry agent' ctx' twin' false).1 =
        (d.run registry agent ctx twin false).1 := by
  have hruns : ∀ agent ctx twin, d.RunsAs registry twin (d.run registry agent ctx twin false) :=
    fun agent ctx twin =>
      (run_evaluates_or_stops hsome hids htarget registry agent ctx twin _).resolve_right
        fun hstops => by simpa using hstops.1
  have hperm : (d.course.map fun a => a.job.id).Perm d.ids :=
    (Actuator.perm_courseAll d.actuators).map _
  exact ⟨hruns agent ctx twin, fun agent' ctx' twin' =>
    (hruns agent' ctx' twin').unique (hruns agent ctx twin) (hperm.nodup_iff.mpr hids)⟩

/-- A river is computed once and taken over below its basin. -/
def referring : Dataflow Number where
  actuators :=
    [.mk { id := .first, observable := { concept := ⟨"t:Basin", by decide⟩ }
           scale := .scalar, coverage := .full .scalar }
      [.mk { id := (Identifier.ofNat? 2).get rfl
             observable := { concept := ⟨"t:River", by decide⟩ }
             scale := .scalar, coverage := .full .scalar
             computation := [BuiltIn.constant.call.set "value" (.bool true)] } [],
        .mk { id := (Identifier.ofNat? 3).get rfl
              observable := { concept := ⟨"t:River", by decide⟩ }
              scale := .scalar, coverage := .full .scalar, kind := .reference
              reference := some ((Identifier.ofNat? 2).get rfl) } []]]
  coverage := .full .scalar
  target := some .first

theorem run_evaluates_referring :
    (∃ os made, referring.evaluate .builtIn = (.ok os, made) ∧
      made.map (fun o => o.value.bind Value.asBool?) = [some true, some true, none]) ∧
    referring.RunsAs .builtIn {} (referring.run .builtIn "a" { id := "c", scale := .scalar } {}
      false) := by
  refine ⟨?_, (run_evaluates (by decide) (by decide +kernel) ⟨_, ?_, rfl⟩ .builtIn "a" _ {}).1⟩
  · have hvalues : (referring.evaluate .builtIn).1.toOption.isSome = true ∧
        (referring.evaluate .builtIn).2.map (fun o => o.value.bind Value.asBool?) =
          [some true, some true, none] := by decide +kernel
    generalize referring.evaluate .builtIn = evaluation at hvalues
    obtain ⟨e | os, made⟩ := evaluation
    · cases hvalues.1
    · exact ⟨os, made, rfl, hvalues.2⟩
  · decide +kernel

end Dataflow

end Obsplan
