import Mathlib.Data.List.Forall2
import Obsplan.Execution
import Obsplan.Proofs.Dataflow.Order

/-!
# Evaluating plans

The plain meaning of a plan: roots are evaluated from left to right, children before their parents,
then the calls in order, each with the output of the one before it. Nothing is recorded, but what
was made before a failure is known.
-/

namespace Obsplan

variable {α : Type} [Coordinate α]

namespace Evaluation

/-- The observation made last for an identifier. -/
def latest? (made : List (Observation α)) (i : Identifier) : Option (Observation α) :=
  made.reverse.find? fun o => o.id = i

/-- The output of calls made one after the other, and whether one of them asked to stop. -/
def calls (registry : Registry α) (j : Job α) (deps : List (String × Option Value)) :
    List Call → Option Value → Except ExecutionError (Option Value × Bool)
  | [], value => .ok (value, false)
  | call :: rest, value =>
    match registry.get? call.name with
    | none => .error (.unknownCall call.name)
    | some component =>
      match component call ⟨j.observable, j.scale, deps, value⟩ with
      | .output value => calls registry j deps rest value
      | .failure message => .error (.stepFailed j.id.val call.name message)
      | .stop value => (calls registry j deps rest value).map fun (value, _) => (value, true)
      | .breakdown => .error .brokeDown

/-- What is observed from the observations of the children. -/
def computed (registry : Registry α) (j : Job α) (inputs : List (Observation α)) :
    Except ExecutionError (Observation α) :=
  let deps := inputs.map fun o => (Run.dependencyName o.observable, o.value)
  match calls registry j deps j.computation none with
  | .error e => .error e
  | .ok (_, true) => .error .cancelled
  | .ok (value, false) => .ok {
      id := j.id
      observable := j.observable
      scale := j.scale
      coverage := j.coverage
      value
      resolved := decide (j.kind = .observe) && !j.coverage.isEmpty }

/-- What is taken over from what was made before. -/
def copied (j : Job α) (made : List (Observation α)) : Except ExecutionError (Observation α) :=
  match j.reference with
  | none => .error (.missingReference j.id.val 0)
  | some referenced =>
    match latest? made referenced with
    | none => .error (.missingReference j.id.val referenced.val)
    | some source => .ok {
        id := j.id
        observable := j.observable
        scale := j.scale
        coverage := j.coverage
        value := source.value
        resolved := source.resolved }

def observation (registry : Registry α) (j : Job α) (inputs made : List (Observation α)) :
    Except ExecutionError (Observation α) :=
  if j.kind = .reference then copied j made else computed registry j inputs

mutual

/-- The observation of an actuator, and what was made until then. -/
def actuator (registry : Registry α) : Actuator α → List (Observation α) →
    Except ExecutionError (Observation α) × List (Observation α)
  | .mk j children, made =>
    match actuators registry children made with
    | (.error e, made) => (.error e, made)
    | (.ok inputs, made) =>
      match observation registry j inputs made with
      | .error e => (.error e, made)
      | .ok o => (.ok o, made ++ [o])

/-- The observations of actuators in turn, until one fails. -/
def actuators (registry : Registry α) : List (Actuator α) → List (Observation α) →
    Except ExecutionError (List (Observation α)) × List (Observation α)
  | [], made => (.ok [], made)
  | a :: as, made =>
    match actuator registry a made with
    | (.error e, made) => (.error e, made)
    | (.ok o, made) =>
      match actuators registry as made with
      | (.error e, made) => (.error e, made)
      | (.ok os, made) => (.ok (o :: os), made)

end

/-! ## What is made -/

variable {registry : Registry α} {made : List (Observation α)} {o : Observation α}
  {i : Identifier} {j : Job α}

@[simp] theorem latest?_nil (i : Identifier) : latest? ([] : List (Observation α)) i = none := rfl

theorem latest?_concat (made : List (Observation α)) (o : Observation α) (i : Identifier) :
    latest? (made ++ [o]) i = if o.id = i then some o else latest? made i := by
  by_cases hi : o.id = i <;> simp [latest?, hi]

theorem latest?_append {more : List (Observation α)} (h : i ∉ more.map Observation.id) :
    latest? (made ++ more) i = latest? made i := by
  have hnone : more.reverse.find? (fun o => decide (o.id = i)) = none := by
    rw [List.find?_eq_none]
    intro o ho hi
    exact h (List.mem_map.mpr ⟨o, List.mem_reverse.mp ho, by simpa using hi⟩)
  simp [latest?, List.find?_append, hnone]

theorem latest?_eq_none : latest? made i = none ↔ i ∉ made.map Observation.id := by
  simp [latest?]

theorem mem_of_latest? (h : latest? made i = some o) : o ∈ made ∧ o.id = i :=
  ⟨List.mem_reverse.mp (List.mem_of_find?_eq_some h), by simpa using List.find?_some h⟩

/-- When identifiers are distinct, every observation is the last one made for its own. -/
theorem latest?_of_mem (h : (made.map Observation.id).Nodup) (ho : o ∈ made) :
    latest? made o.id = some o := by
  obtain ⟨before, after, rfl⟩ := List.append_of_mem ho
  have hsplit : before ++ o :: after = before ++ [o] ++ after := by simp
  have hafter : o.id ∉ after.map Observation.id := by
    rw [List.map_append, List.map_cons] at h
    exact (List.nodup_cons.mp h.of_append_right).1
  rw [hsplit, latest?_append hafter, latest?_concat, if_pos rfl]

theorem computed_eq {inputs : List (Observation α)} (h : computed registry j inputs = .ok o) :
    o.id = j.id ∧ o.observable = j.observable := by
  unfold computed at h
  dsimp only at h
  split at h
  · cases h
  · cases h
  · cases h
    exact ⟨rfl, rfl⟩

theorem observation_eq {inputs : List (Observation α)}
    (h : observation registry j inputs made = .ok o) :
    o.id = j.id ∧ o.observable = j.observable := by
  unfold observation at h
  split at h
  · unfold copied at h
    split at h
    · cases h
    · split at h
      · cases h
      · cases h
        exact ⟨rfl, rfl⟩
  · exact computed_eq h

/-- What is made along a course: observations for its first actuators, and for all of them when
nothing fails. -/
structure Along (course : List (Actuator α)) (succeeds : Prop) (made made' : List (Observation α)) :
    Prop where
  part : ∃ more, made' = made ++ more ∧
    more.map Observation.id <+: course.map (fun a => a.job.id)
  whole : succeeds → made'.map Observation.id =
    made.map Observation.id ++ course.map fun a => a.job.id

namespace Along

variable {course rest : List (Actuator α)} {made' made₁ : List (Observation α)} {p q : Prop}

theorem refl (made : List (Observation α)) : Along [] p made made :=
  ⟨⟨[], by simp, List.nil_prefix⟩, by simp⟩

theorem imp (h : Along course p made made') (hqp : q → p) : Along course q made made' :=
  ⟨h.part, fun hq => h.whole (hqp hq)⟩

theorem stopped (h : Along course p made made') (rest : List (Actuator α)) (hq : ¬ q) :
    Along (course ++ rest) q made made' := by
  obtain ⟨more, hmore, hpart⟩ := h.part
  refine ⟨⟨more, hmore, ?_⟩, fun h => absurd h hq⟩
  rw [List.map_append]
  exact hpart.trans (List.prefix_append _ _)

theorem trans (h : Along course p made made₁) (hp : p) (h' : Along rest q made₁ made') :
    Along (course ++ rest) q made made' := by
  obtain ⟨more, rfl, -⟩ := h.part
  obtain ⟨more', rfl, hpart'⟩ := h'.part
  have hwhole : more.map Observation.id = course.map fun a => a.job.id := by
    have := h.whole hp
    rw [List.map_append] at this
    exact List.append_cancel_left this
  refine ⟨⟨more ++ more', by simp, ?_⟩, fun hq => ?_⟩
  · rw [List.map_append, List.map_append, hwhole]
    exact List.prefix_append_right_inj _ |>.mpr hpart'
  · rw [h'.whole hq, h.whole hp, List.map_append, List.append_assoc]

theorem single {a : Actuator α} (ho : o.id = a.job.id) : Along [a] p made (made ++ [o]) :=
  ⟨⟨[o], rfl, by simp [ho]⟩, by simp [ho]⟩

end Along

mutual

theorem actuator_along (registry : Registry α) : (a : Actuator α) → (made : List (Observation α)) →
    Along a.course (∃ o, (actuator registry a made).1 = .ok o) made (actuator registry a made).2
  | .mk j children, made => by
    have hchildren := actuators_along registry children made
    cases hall : actuators registry children made with
    | mk result made₁ =>
      rw [hall] at hchildren
      rw [Actuator.course, actuator, hall]
      cases result with
      | error e => exact hchildren.stopped _ (by simp)
      | ok inputs =>
        dsimp only
        split
        · exact hchildren.stopped _ (by simp)
        · rename_i o ho
          exact hchildren.trans ⟨inputs, rfl⟩ (.single (observation_eq ho).1)

theorem actuators_along (registry : Registry α) : (as : List (Actuator α)) →
    (made : List (Observation α)) → Along (Actuator.courseAll as)
      (∃ os, (actuators registry as made).1 = .ok os) made (actuators registry as made).2
  | [], made => .refl made
  | a :: as, made => by
    have hfirst := actuator_along registry a made
    cases hone : actuator registry a made with
    | mk result made₁ =>
      rw [hone] at hfirst
      rw [Actuator.courseAll, actuators, hone]
      cases result with
      | error e => exact hfirst.stopped _ (by simp)
      | ok o =>
        have hrest := actuators_along registry as made₁
        cases hall : actuators registry as made₁ with
        | mk results made₂ =>
          rw [hall] at hrest
          dsimp only
          rw [hall]
          cases results with
          | error e => exact hfirst.trans ⟨o, rfl⟩ (hrest.imp (by simp))
          | ok os => exact hfirst.trans ⟨o, rfl⟩ (hrest.imp fun _ => ⟨os, rfl⟩)

end

/-- What the children of an actuator make comes before what it makes itself. -/
theorem actuator_after (registry : Registry α) (j : Job α) (children : List (Actuator α))
    (made : List (Observation α)) :
    (actuators registry children made).2 <+: (actuator registry (.mk j children) made).2 := by
  rw [actuator]
  rcases actuators registry children made with ⟨e | inputs, made₁⟩
  · exact List.prefix_refl _
  · dsimp only
    split
    · exact List.prefix_refl _
    · exact List.prefix_append _ _

/-- What the first actuator makes comes before what the others make. -/
theorem actuators_after (registry : Registry α) (a : Actuator α) (as : List (Actuator α))
    (made : List (Observation α)) :
    (actuator registry a made).2 <+: (actuators registry (a :: as) made).2 := by
  rw [actuators]
  rcases actuator registry a made with ⟨e | o, made₁⟩
  · exact List.prefix_refl _
  · obtain ⟨more, hmore, -⟩ := (actuators_along registry as made₁).part
    refine ⟨more, ?_⟩
    dsimp only
    rw [← hmore]
    rcases actuators registry as made₁ with ⟨e | os, made₂⟩ <;> rfl

/-- What is returned for actuators is what was made for them last, when their identifiers are
distinct. -/
def Returns (made : List (Observation α)) (a : Actuator α) (o : Observation α) : Prop :=
  o.observable = a.job.observable ∧ latest? made a.job.id = some o

theorem actuator_returns {a : Actuator α} {made' : List (Observation α)}
    (h : actuator registry a made = (.ok o, made')) : Returns made' a o := by
  cases a with
  | mk j children =>
    rw [actuator] at h
    split at h
    · cases h
    · split at h
      · cases h
      · rename_i hobservation
        cases h
        obtain ⟨hid, hobservable⟩ := observation_eq hobservation
        exact ⟨hobservable, by simp [latest?_concat, Actuator.job, hid]⟩

theorem actuators_returns {as : List (Actuator α)} {os made' : List (Observation α)}
    (hnodup : ((Actuator.courseAll as).map fun a => a.job.id).Nodup)
    (h : actuators registry as made = (.ok os, made')) : List.Forall₂ (Returns made') as os := by
  induction as generalizing made os with
  | nil =>
    cases h
    exact .nil
  | cons a as ih =>
    rw [Actuator.courseAll, List.map_append, List.nodup_append] at hnodup
    obtain ⟨-, hrest, hdisjoint⟩ := hnodup
    rw [actuators] at h
    split at h
    · cases h
    · rename_i o made₁ hone
      have halong := actuators_along registry as made₁
      split at h
      · cases h
      · rename_i os' made₂ hall
        cases h
        rw [hall] at halong
        obtain ⟨more, rfl, hpart⟩ := halong.part
        refine .cons ?_ (ih hrest hall)
        obtain ⟨hobservable, hlatest⟩ := actuator_returns hone
        have ha : a.job.id ∈ a.course.map fun b => b.job.id := by
          cases a
          simp [Actuator.course]
        have hlater : a.job.id ∉ more.map Observation.id := fun hmem =>
          hdisjoint _ ha _ (hpart.subset hmem) rfl
        exact ⟨hobservable, by rw [latest?_append hlater, hlatest]⟩

end Evaluation

/-- The observations of the roots of a plan, and all that is made. -/
def Dataflow.evaluate (d : Dataflow α) (registry : Registry α) :
    Except ExecutionError (List (Observation α)) × List (Observation α) :=
  Evaluation.actuators registry d.actuators []

/-- An observation that a plan was made to produce, with what the plan covers. -/
def Dataflow.concluded (d : Dataflow α) (o : Observation α) : Observation α :=
  { o with coverage := d.coverage, resolved := o.resolved && !d.coverage.isEmpty }

end Obsplan
