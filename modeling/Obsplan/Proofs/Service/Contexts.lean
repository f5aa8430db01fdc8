import Obsplan.Proofs.Dataflow.Splicing
import Obsplan.Proofs.Service.Plans

/-!
# Failed observations

An observation fails before its plan is attached, or because the plan of its context does not have
the actuator that it is made within. The plan of a context is entered before that actuator is looked
up. Main statement: all plans stay as they were, except that a context that had none has an empty one
when something unknown is observed within it.
-/

namespace Obsplan

namespace Service

variable {s : Service} {o : Observable} {ctx : Context Number} {d : Dataflow Number} {e : Failure}

theorem plans_plan : (s.plan o ctx).2.plans = s.plans := by
  unfold plan
  split
  · rfl
  · split <;> rfl

/-! ## Entering a context -/

/-- The service once the plan of a context is there, be it empty. -/
def entered (s : Service) (ctx : Context Number) : Service :=
  { s with plans := s.plans.insert ctx.id (s.planOf ctx) }

theorem planOf_of_get? (h : s.plans.get? ctx.id = some d) : s.planOf ctx = d := by
  rw [planOf, h, Option.getD_some]

/-- A context that has a plan keeps it. -/
theorem entered_of_known (h : ctx.id ∈ s.plans.keys) : s.entered ctx = s := by
  obtain ⟨d, hd⟩ := Option.ne_none_iff_exists'.mp (mt Keyed.get?_eq_none.mp (not_not_intro h))
  rw [entered, planOf_of_get? hd, Keyed.insert_of_get? hd]

theorem entries_entered_of_new (h : ctx.id ∉ s.plans.keys) :
    (s.entered ctx).plans.entries = s.plans.entries ++ [(ctx.id, .empty ctx.scale)] := by
  have hplan : s.planOf ctx = .empty ctx.scale := by simp [planOf, Keyed.get?_eq_none.mpr h]
  rw [entered, hplan, Keyed.entries_insert_of_notMem _ h]

theorem get?_entered {id : String} (h : id ∈ s.plans.keys) :
    (s.entered ctx).plans.get? id = s.plans.get? id := by
  by_cases hid : ctx.id = id
  · rw [entered_of_known (hid ▸ h)]
  · rw [entered, Keyed.get?_insert, if_neg hid]

theorem actuators_entered : (s.entered ctx).actuators = s.actuators := by
  by_cases h : ctx.id ∈ s.plans.keys
  · rw [entered_of_known h]
  · unfold actuators Keyed.values
    rw [entries_entered_of_new h, List.map_append, List.foldl_append]
    rfl

/-! ## Failures -/

/-- A plan that cannot be attached leaves the one that was entered as it is. -/
theorem attach_eq (s : Service) (d : Dataflow Number) (ctx : Context Number) :
    s.attach d ctx =
      match ((s.entered ctx).planOf ctx).add d ctx with
      | .error e => (.error (.dataflow e), s.entered ctx)
      | .ok extended =>
        (.ok (), { s.entered ctx with
          plans := (s.entered ctx).plans.insert ctx.id extended }) := by
  have hattach : ∀ {result : Except DataflowError PUnit} {extended : Dataflow Number},
      (Dataflow.adding d ctx).on ((s.entered ctx).planOf ctx) = (result, extended) →
        s.attach d ctx = (result.mapError .dataflow,
          { s.entered ctx with plans := (s.entered ctx).plans.insert ctx.id extended }) := by
    intro result extended h
    have hresult := congrArg Prod.fst h
    have hextended := congrArg Prod.snd h
    subst hresult hextended
    rfl
  cases hadd : ((s.entered ctx).planOf ctx).add d ctx with
  | error e =>
    have hknown : ctx.id ∈ (s.entered ctx).plans.keys := by
      rw [entered, Keyed.keys_insert]
      split <;> simp [*]
    have hentered := entered_of_known hknown
    rw [entered] at hentered
    rw [hattach ((Dataflow.atomic_adding d ctx).on_of_made hadd), hentered]
    rfl
  | ok extended =>
    rw [hattach (Edit.on_of_made hadd)]
    rfl

theorem attach_error (h : (s.attach d ctx).1 = .error e) :
    (s.attach d ctx).2 = s.entered ctx ∧
      ∃ hook, ctx.current = some hook ∧ e = .dataflow (.hookNotFound hook.val ctx.id) := by
  rw [attach_eq] at h ⊢
  split at h
  · rename_i e' hadd
    cases h
    obtain ⟨hook, hcurrent, rfl⟩ := Dataflow.add_error hadd
    exact ⟨rfl, hook, hcurrent, rfl⟩
  · cases h

/-- An observation fails while its plan is made, or while that is attached. -/
theorem observe_error (h : (s.observe o ctx).1 = .error e) :
    (s.observe o ctx).2 = (s.plan o ctx).2 ∨
      ((s.observe o ctx).2 = (s.plan o ctx).2.entered ctx ∧
        ∃ hook, ctx.current = some hook ∧ e = .dataflow (.hookNotFound hook.val ctx.id)) := by
  unfold observe at h ⊢
  split at h
  · rename_i e' s' hplan
    exact .inl (by simp only [hplan])
  · rename_i d s' hplan
    split at h
    · cases h
    · rename_i hsome
      split at h
      · rename_i e' s'' hattach
        cases h
        obtain ⟨hentered, hook, hcurrent, rfl⟩ := attach_error (congrArg Prod.fst hattach)
        rw [hattach] at hentered
        refine .inr ⟨?_, hook, hcurrent, rfl⟩
        simp only [hplan, if_neg hsome]
        exact hentered
      · cases h

/-- A failed observation leaves the plans as they were, unless it is within something in a context
that has no plan yet: that context has an empty plan afterwards. No plan that is there is lost or
changed, and the number of actuators stays. -/
theorem observe_fails (h : (s.observe o ctx).1 = .error e) :
    ((s.observe o ctx).2.plans = s.plans ∨
        (ctx.id ∉ s.plans.keys ∧
          (∃ hook, ctx.current = some hook ∧ e = .dataflow (.hookNotFound hook.val ctx.id)) ∧
          (s.observe o ctx).2.plans.entries =
            s.plans.entries ++ [(ctx.id, .empty ctx.scale)])) ∧
      (∀ id ∈ s.plans.keys, (s.observe o ctx).2.plans.get? id = s.plans.get? id) ∧
      (s.observe o ctx).2.actuators = s.actuators := by
  have hplan : (s.plan o ctx).2.plans = s.plans := plans_plan
  have hactuators : (s.plan o ctx).2.actuators = s.actuators := by rw [actuators, hplan, actuators]
  obtain hmade | ⟨hentered, hhook⟩ := observe_error h
  · rw [hmade]
    exact ⟨.inl hplan, fun id _ => by rw [hplan], hactuators⟩
  · rw [hentered]
    refine ⟨?_, fun id hid => ?_, actuators_entered.trans hactuators⟩
    · by_cases hknown : ctx.id ∈ s.plans.keys
      · exact .inl (by rw [entered_of_known (hplan.symm ▸ hknown), hplan])
      · exact .inr ⟨hknown, hhook, by rw [entries_entered_of_new (hplan.symm ▸ hknown), hplan]⟩
    · rw [get?_entered (hplan.symm ▸ hid), hplan]

/-- A context within an observation that nobody made. -/
def nowhere : Context Number :=
  { Resolution.everywhere with current := some ⟨99, by decide, by decide⟩ }

/-- A service that has observed land, which is found from soil and water. -/
def surveyed : Service :=
  (observe { config := {}, sources := Resolution.layered } Resolution.land Resolution.everywhere).2

theorem exists_error_of_isOk {ε β : Type} {x : Except ε β} (h : x.isOk = false) :
    ∃ e, x = .error e := by
  cases x with
  | error e => exact ⟨e, rfl⟩
  | ok b => cases h

/-- The plan for land stays when soil is asked for within something unknown. -/
theorem observe_fails_surveyed :
    ∃ e, (surveyed.observe Resolution.soil nowhere).1 = .error e ∧ surveyed.actuators = 3 ∧
      (surveyed.observe Resolution.soil nowhere).2.plans = surveyed.plans := by
  obtain ⟨e, he⟩ := exists_error_of_isOk (x := (surveyed.observe Resolution.soil nowhere).1)
    (by decide +kernel)
  have hknown : nowhere.id ∈ surveyed.plans.keys := by decide +kernel
  have hplans := (observe_fails he).1.resolve_right fun hnew => hnew.1 hknown
  exact ⟨e, he, by decide +kernel, hplans⟩

/-- A new service has a context once land was asked for within something unknown. -/
theorem observe_enters_unknown :
    ∃ s e, Service.create {} Resolution.layered = .ok s ∧
      (s.observe Resolution.land nowhere).1 = .error e ∧ s.plans.keys = [] ∧
      (s.observe Resolution.land nowhere).2.plans.keys = ["c"] := by
  obtain ⟨s, hs, hkeys, hfails, hentered⟩ := Resolution.exists_of_any
    (P := fun s : Service => s.plans.keys = [] ∧ (s.observe Resolution.land nowhere).1.isOk = false ∧
      (s.observe Resolution.land nowhere).2.plans.keys = ["c"])
    (x := Service.create {} Resolution.layered) (by decide +kernel)
  obtain ⟨e, he⟩ := exists_error_of_isOk hfails
  exact ⟨s, e, hs, he, hkeys, hentered⟩

end Service

end Obsplan
