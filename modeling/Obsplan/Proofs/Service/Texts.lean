import Obsplan.Proofs.Dataflow.Grafting
import Obsplan.Proofs.Dataflow.Nesting
import Obsplan.Proofs.Service.Calls

/-!
# Texts of the plans of contexts

A plan that is made always has a text, but the plan of a context grows by what is attached to it.
Main statement: it has no text just when something was observed within an observation so deep that
the new plan reaches below the deepest level that is written.
-/

namespace Obsplan.Service

variable {s : Service} {o : Observable} {ctx : Context Number} {d : Dataflow Number} {id : String}

/-! ## Levels of plans -/

/-- The number of levels of the plan of a context. -/
def levelsOf (s : Service) (id : String) : Nat := ((s.plans.get? id).map Dataflow.levels).getD 0

theorem levels_planOf (s : Service) (ctx : Context Number) :
    (s.planOf ctx).levels = s.levelsOf ctx.id := by
  unfold planOf levelsOf
  cases s.plans.get? ctx.id <;> rfl

/-- The plan of a context is nested too deeply to be written. -/
def TooDeep (s : Service) (id : String) : Prop := s.config.maxEncodeDepth + 1 < s.levelsOf id

theorem encode_eq_encodingError (s : Service) (ctx : Context Number) :
    s.encode ctx = Dataflow.encodingError ↔ s.TooDeep ctx.id := by
  rw [TooDeep, ← levels_planOf]
  exact Dataflow.encode_eq_encodingError _ _ ctx

theorem levels_plan (h : (s.plan o ctx).1 = .ok d) : d.levels ≤ s.config.maxEncodeDepth + 1 := by
  obtain ⟨r, d', allocator, -, hplan, rfl⟩ := plan_cases h
  obtain ⟨-, rfl⟩ | ⟨-, rfl⟩ | ⟨-, -, hlower⟩ := planFor_cases hplan
  · exact Nat.zero_le _
  · exact Nat.zero_le _
  · exact Dataflow.levels_lower (d := d') hlower

theorem encoded_handle {q : Request} {a : Response} (h : (s.handle q ctx).1 = .ok a) :
    a.encoded ≠ Dataflow.encodingError := by
  cases ho : q.observable s.sources with
  | error e =>
    simp only [handle, ho] at h
    cases h
  | ok o =>
    rw [handle_eq ho] at h
    have hconfig : (s.plan o (q.placed ctx)).2.config = s.config := config_plan
    rcases hplan : s.plan o (q.placed ctx) with ⟨e | d, s₁⟩
    · rw [hplan] at h
      cases h
    · rw [hplan] at h hconfig
      cases h
      have hlevels : d.levels ≤ s₁.config.maxEncodeDepth + 1 := by
        rw [hconfig]
        exact levels_plan (congrArg Prod.fst hplan)
      exact mt (Dataflow.encode_eq_encodingError _ d _).mp (Nat.not_lt.mpr hlevels)

/-! ## One call -/

/-- An observation is made within another one, and the plan for it reaches too deep below that. -/
def Overflows (s : Service) (o : Observable) (ctx : Context Number) : Prop :=
  ∃ hook level d, ctx.current = some hook ∧ (s.planOf ctx).level? hook = some level ∧
    (s.plan o ctx).1 = .ok d ∧ d.isEmpty = false ∧ s.config.maxEncodeDepth + 1 < level + d.levels

theorem planOf_entered (s : Service) (ctx : Context Number) :
    (s.entered ctx).planOf ctx = s.planOf ctx := by
  simp [planOf, entered, Keyed.get?_insert]

theorem levelsOf_entered (s : Service) (ctx : Context Number) (id : String) :
    (s.entered ctx).levelsOf id = s.levelsOf id := by
  unfold levelsOf entered
  rw [Keyed.get?_insert]
  split
  · rename_i hid
    rw [← hid]
    exact levels_planOf s ctx
  · rfl

theorem levelsOf_attached {sum : Dataflow Number} :
    levelsOf { s.entered ctx with plans := (s.entered ctx).plans.insert ctx.id sum } id =
      if ctx.id = id then sum.levels else s.levelsOf id := by
  unfold levelsOf entered
  dsimp only
  rw [Keyed.get?_insert, Keyed.get?_insert]
  split <;> rfl

/-- What an observation does to the levels of plans: nothing, unless a plan is attached. -/
theorem observe_cases (s : Service) (o : Observable) (ctx : Context Number) :
    ((∀ id, (s.observe o ctx).2.levelsOf id = s.levelsOf id) ∧
        ∀ d sum, (s.plan o ctx).1 = .ok d → d.isEmpty = false →
          (s.planOf ctx).add d ctx ≠ .ok sum) ∨
      ∃ d sum, (s.plan o ctx).1 = .ok d ∧ d.isEmpty = false ∧ (s.planOf ctx).add d ctx = .ok sum ∧
        ∀ id, (s.observe o ctx).2.levelsOf id =
          if ctx.id = id then sum.levels else s.levelsOf id := by
  have hplans : (s.plan o ctx).2.plans = s.plans := plans_plan
  have hplanOf : (s.plan o ctx).2.planOf ctx = s.planOf ctx := by rw [planOf, hplans, planOf]
  have hlevels : ∀ id, (s.plan o ctx).2.levelsOf id = s.levelsOf id := fun id => by
    rw [levelsOf, hplans, levelsOf]
  unfold observe
  rcases hplan : s.plan o ctx with ⟨e | d, s₁⟩
  · rw [hplan] at hlevels
    exact .inl ⟨hlevels, fun d sum hd => by cases hd⟩
  · rw [hplan] at hlevels hplanOf
    dsimp only at hlevels hplanOf ⊢
    by_cases hempty : d.isEmpty = true
    · rw [if_pos hempty]
      refine .inl ⟨hlevels, fun d' sum hd hsome => ?_⟩
      cases hd
      rw [hempty] at hsome
      cases hsome
    · rw [if_neg hempty, attach_eq, planOf_entered, hplanOf]
      cases hadd : (s.planOf ctx).add d ctx with
      | error e =>
        refine .inl ⟨fun id => (levelsOf_entered s₁ ctx id).trans (hlevels id),
          fun d' sum hd _ hsum => ?_⟩
        cases hd
        cases hadd.symm.trans hsum
      | ok sum =>
        refine .inr ⟨d, sum, rfl, by simpa using hempty, hadd, fun id => ?_⟩
        rw [← hlevels id]
        exact levelsOf_attached

theorem config_observe : (s.observe o ctx).2.config = s.config := by
  have hconfig : (s.plan o ctx).2.config = s.config := config_plan
  unfold observe
  rcases hplan : s.plan o ctx with ⟨e | d, s₁⟩
  · rw [hplan] at hconfig
    exact hconfig
  · rw [hplan] at hconfig
    dsimp only at hconfig ⊢
    split
    · exact hconfig
    · rw [attach_eq]
      cases ((s₁.entered ctx).planOf ctx).add d ctx <;> exact hconfig

/-- The plan of a context gets too deep for its text just when an observation overflows. -/
theorem tooDeep_observe : (s.observe o ctx).2.TooDeep id ↔
    s.TooDeep id ∨ ctx.id = id ∧ s.Overflows o ctx := by
  unfold TooDeep
  rw [config_observe]
  obtain ⟨hlevels, hnever⟩ | ⟨d, sum, hplan, hsome, hadd, hlevels⟩ := observe_cases s o ctx
  · -- an observation that overflows finds its hook, so its plan would be attached
    rw [hlevels]
    refine (or_iff_left ?_).symm
    rintro ⟨-, hook, level, d, hcurrent, hlevel, hplan, hsome, -⟩
    obtain ⟨sum, hadd⟩ := Dataflow.add_of_level? hcurrent hlevel d
    exact hnever d sum hplan hsome hadd
  · rw [hlevels]
    by_cases hid : ctx.id = id
    · subst hid
      rw [if_pos rfl]
      obtain ⟨hcurrent, hsum⟩ | ⟨hook, level, hcurrent, hlevel, hsum⟩ := Dataflow.levels_add hadd
      · -- at the root the levels of the new plan count from the top
        have hnew := levels_plan hplan
        have hroot : ¬ s.Overflows o ctx := by
          rintro ⟨hook, -, -, hhook, -⟩
          cases hcurrent.symm.trans hhook
        rw [hsum, levels_planOf]
        simp only [hroot, and_false, or_false]
        omega
      · have hover : s.Overflows o ctx ↔ s.config.maxEncodeDepth + 1 < level + d.levels := by
          refine ⟨?_, fun hdeep => ⟨hook, level, d, hcurrent, hlevel, hplan, hsome, hdeep⟩⟩
          rintro ⟨hook', level', d', hhook, hlevel', hplan', -, hdeep⟩
          cases hcurrent.symm.trans hhook
          cases hlevel.symm.trans hlevel'
          cases hplan.symm.trans hplan'
          exact hdeep
        rw [hsum, levels_planOf, lt_max_iff]
        simp only [hover, true_and]
    · rw [if_neg hid]
      simp only [hid, false_and, or_false]

/-! ## Runs -/

/-- A service is called for something in a context, other models are offered, or time passes, with
another clock and other requests to stop from then on. -/
inductive Turn where
  | call (want : Want) (ctx : Context Number)
  | offer (sources : Sources Number)
  | pass (clock asked : Nat → Bool)

/-- The service after a turn. -/
def turn (s : Service) : Turn → Service
  | .call (.plan o) ctx => (s.plan o ctx).2
  | .call (.answer q) ctx => (s.handle q ctx).2
  | .call (.observation o) ctx => (s.observe o ctx).2
  | .offer sources => { s with sources }
  | .pass clock asked => { s with clock, asked }

/-- The service after some turns. -/
def after (s : Service) (turns : List Turn) : Service := turns.foldl turn s

/-- In a turn an observation in a context overflows. -/
def OverflowsIn (s : Service) (id : String) : Turn → Prop
  | .call (.observation o) ctx => ctx.id = id ∧ s.Overflows o ctx
  | _ => False

theorem state_handle (s : Service) (q : Request) (ctx : Context Number) :
    (s.handle q ctx).2 = s ∨ ∃ o, (s.handle q ctx).2 = (s.plan o (q.placed ctx)).2 := by
  cases ho : q.observable s.sources with
  | error e => exact .inl (by simp only [handle, ho])
  | ok o =>
    rw [handle_eq ho]
    exact .inr ⟨o, by rcases s.plan o (q.placed ctx) with ⟨e | d, s₁⟩ <;> rfl⟩

theorem tooDeep_congr {s' : Service} (hconfig : s'.config = s.config) (hplans : s'.plans = s.plans) :
    s'.TooDeep id ↔ s.TooDeep id := by
  rw [TooDeep, TooDeep, levelsOf, levelsOf, hconfig, hplans]

theorem tooDeep_turn (s : Service) (t : Turn) :
    (s.turn t).TooDeep id ↔ s.TooDeep id ∨ s.OverflowsIn id t := by
  cases t with
  | call want ctx =>
    cases want with
    | plan o => exact (tooDeep_congr config_plan plans_plan).trans (or_iff_left not_false).symm
    | answer q =>
      refine Iff.trans ?_ (or_iff_left not_false).symm
      have hstate : (s.turn (.call (.answer q) ctx)) = (s.handle q ctx).2 := rfl
      rw [hstate]
      obtain hsame | ⟨o, hplan⟩ := state_handle s q ctx
      · rw [hsame]
      · rw [hplan]
        exact tooDeep_congr config_plan plans_plan
    | observation o => exact tooDeep_observe
  | offer sources => exact (tooDeep_congr rfl rfl).trans (or_iff_left not_false).symm
  | pass clock asked => exact (tooDeep_congr rfl rfl).trans (or_iff_left not_false).symm

theorem tooDeep_after (s : Service) (turns : List Turn) :
    (s.after turns).TooDeep id ↔ s.TooDeep id ∨ ∃ before t rest, turns = before ++ t :: rest ∧
      (s.after before).OverflowsIn id t := by
  induction turns generalizing s with
  | nil => simp [after]
  | cons t turns ih =>
    have hcons : (s.after (t :: turns)) = (s.turn t).after turns := rfl
    rw [hcons, ih, tooDeep_turn, or_assoc]
    refine or_congr_right ⟨?_, ?_⟩
    · rintro (h | ⟨before, t', rest, rfl, h⟩)
      · exact ⟨[], t, turns, rfl, h⟩
      · exact ⟨t :: before, t', rest, rfl, h⟩
    · rintro ⟨_ | ⟨t', before⟩, t'', rest, hturns, h⟩
      · cases hturns
        exact .inl h
      · cases hturns
        exact .inr ⟨before, t'', rest, rfl, h⟩

/-- In a service that starts without plans, the plan of a context has no text just when, in some
turn, an observation overflowed in that context. What answers a request always has a text. -/
theorem encode_degrades (s : Service) (turns : List Turn) (ctx : Context Number) :
    ((after { s with plans := .empty } turns).encode ctx = Dataflow.encodingError ↔
      ∃ before t rest, turns = before ++ t :: rest ∧
        (after { s with plans := .empty } before).OverflowsIn ctx.id t) ∧
    ∀ q a, ((after { s with plans := .empty } turns).handle q ctx).1 = .ok a →
      a.encoded ≠ Dataflow.encodingError := by
  refine ⟨?_, fun q a => encoded_handle⟩
  rw [encode_eq_encodingError, tooDeep_after]
  refine or_iff_right fun h => ?_
  exact absurd h (Nat.not_lt_zero _)

/-- A service that writes two levels and knows land, soil and water, each on its own. -/
def shallow : Service :=
  { config := { maxEncodeDepth := 1 }
    sources := Resolution.knowing [Resolution.needing "a.land" Resolution.land [],
      Resolution.needing "b.soil" Resolution.soil [],
      Resolution.needing "c.water" Resolution.water []] }

/-- A context within an observation. -/
def inside (i : Nat) : Context Number :=
  { Resolution.everywhere with current := Identifier.ofNat? i }

/-- Land is observed, soil within it, and water within soil. -/
def stacked : List Turn :=
  [.call (.observation Resolution.land) Resolution.everywhere,
    .call (.observation Resolution.soil) (inside 1),
    .call (.observation Resolution.water) (inside 2)]

theorem encode_degrades_stacked :
    (∃ before t rest, stacked = before ++ t :: rest ∧
      (shallow.after before).OverflowsIn "c" t) ∧
    ∃ a, ((shallow.after stacked).handle ⟨"t:Soil", none, {}⟩ Resolution.everywhere).1 = .ok a ∧
      a.encoded ≠ Dataflow.encodingError := by
  obtain ⟨hiff, hhandle⟩ := encode_degrades shallow stacked Resolution.everywhere
  obtain ⟨a, ha, -⟩ := Resolution.exists_of_any (P := fun _ : Response => True)
    (x := ((shallow.after stacked).handle ⟨"t:Soil", none, {}⟩ Resolution.everywhere).1)
    (by decide +kernel)
  exact ⟨hiff.mp (by decide +kernel), a, ha, hhandle _ a ha⟩

/-- Settings that are in range, and three observations that are all made: there is a text after
two, and none after the third. -/
theorem encode_stacked :
    ∃ s, Service.create { maxEncodeDepth := 1 } shallow.sources = .ok s ∧
      (s.observe Resolution.land Resolution.everywhere).1.isOk = true ∧
      ((s.after (stacked.take 1)).observe Resolution.soil (inside 1)).1.isOk = true ∧
      ((s.after (stacked.take 2)).observe Resolution.water (inside 2)).1.isOk = true ∧
      (s.after (stacked.take 2)).encode Resolution.everywhere ≠ Dataflow.encodingError ∧
      (s.after stacked).encode Resolution.everywhere = Dataflow.encodingError :=
  Resolution.exists_of_any (by decide +kernel)

end Obsplan.Service
