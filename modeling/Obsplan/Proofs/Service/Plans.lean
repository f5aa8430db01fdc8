import Obsplan.Service
import Obsplan.Proofs.Dataflow.Coverage
import Obsplan.Proofs.Resolution.Coverage

/-!
# Plans and what they tell

A plan is made from a resolution, or does nothing. Main statement: a plan that misses a part of the
scale is accepted as such and comes with a warning, a plan that does nothing comes with one, and a
response claims to be complete just when the resolution is.
-/

namespace Obsplan

/-- The context in which a request is answered. -/
def Request.placed (q : Request) (ctx : Context Number) : Context Number :=
  match q.scale with
  | some scale => (ctx.constrained q.constraints).atScale scale
  | none => ctx.constrained q.constraints

namespace Service

variable {s : Service} {o : Observable} {ctx : Context Number} {r : Resolution Number}
  {d : Dataflow Number} {allocator : Allocator}

/-- What a plan tells about the resolution it was made from. -/
inductive Tells (s : Service) (ctx : Context Number) (r : Resolution Number) (d : Dataflow Number) :
    Prop where
  /-- Nothing is done, with a warning. -/
  | nothing : d.isEmpty = true → (∃ n ∈ d.notifications, n.level.isWarning = true) → Tells s ctx r d
  | complete : d.isEmpty = false → r.isComplete = true → Tells s ctx r d
  /-- A part is done, as it is accepted, with a warning. -/
  | partially : d.isEmpty = false → r.isComplete = false → s.acceptsPartial ctx = true →
      (∃ n ∈ d.notifications, n.level = .warning) → Tells s ctx r d

/-! ## The plan for a resolution -/

/-- A rejected resolution, or the dataflow of one that is used. -/
theorem planFor_cases (h : s.planFor r ctx = (.ok d, allocator)) :
    (r.isEmpty = true ∧ d = rejected r (nothingFound? r)) ∨
      (r.isComplete = false ∧ d = rejected r (some (partialRejected r))) ∨
      (r.isEmpty = false ∧ (r.isComplete = true ∨ s.acceptsPartial ctx = true) ∧
        r.lower (some s.config.maxEncodeDepth) s.allocator = (.ok d, allocator)) := by
  unfold planFor at h
  by_cases hempty : r.isEmpty = true
  · rw [if_pos hempty] at h
    cases h
    exact .inl ⟨hempty, rfl⟩
  · rw [if_neg hempty] at h
    by_cases hrejected : (!r.isComplete && !s.acceptsPartial ctx) = true
    · rw [if_pos hrejected] at h
      cases h
      obtain ⟨hpartial, -⟩ := Bool.and_eq_true_iff.mp hrejected
      exact .inr (.inl ⟨by simpa using hpartial, rfl⟩)
    · rw [if_neg hrejected] at h
      exact .inr (.inr ⟨by simpa using hempty, by
        by_cases hcomplete : r.isComplete = true
        · exact .inl hcomplete
        · exact .inr (by simpa [hcomplete] using hrejected), h⟩)

/-- Whoever is told that nothing was found is warned. -/
theorem warning_nothingFound :
    ∃ n ∈ (rejected r (nothingFound? r)).notifications, n.level.isWarning = true := by
  unfold rejected nothingFound?
  by_cases hwarned : (r.notifications.any fun n => n.level.isWarning) = true
  · obtain ⟨n, hn, hlevel⟩ := List.any_eq_true.mp hwarned
    exact ⟨n, List.mem_append_left _ hn, hlevel⟩
  · rw [if_neg hwarned]
    exact ⟨_, List.mem_append_right _ List.mem_cons_self, rfl⟩

theorem warning_partialRejected :
    ∃ n ∈ (rejected r (some (partialRejected r))).notifications, n.level.isWarning = true :=
  ⟨_, List.mem_append_right _ List.mem_cons_self, rfl⟩

theorem planFor_tells {ctx' : Context Number}
    (h : Resolution.resolve s.sources s.limits o ctx' = .ok r)
    (hplan : s.planFor r ctx = (.ok d, allocator)) : s.Tells ctx r d := by
  obtain ⟨-, rfl⟩ | ⟨-, rfl⟩ | ⟨hsome, haccepted, hlower⟩ := planFor_cases hplan
  · exact .nothing rfl warning_nothingFound
  · exact .nothing rfl warning_partialRejected
  · obtain ⟨-, hempty⟩ := Resolution.lower_coverage h hlower
    obtain ⟨hnotifications, -⟩ := Resolution.lower_fields hlower
    have hd : d.isEmpty = false := hempty.trans hsome
    cases hcomplete : r.isComplete with
    | true => exact .complete hd hcomplete
    | false =>
      have haccepts : s.acceptsPartial ctx = true := by simpa [hcomplete] using haccepted
      exact .partially hd hcomplete haccepts (hnotifications ▸ Resolution.resolve_warns h hsome hcomplete)

/-- A plan covers the scale just when its resolution does; a plan that does nothing does not. -/
theorem planFor_isComplete {ctx' : Context Number}
    (h : Resolution.resolve s.sources s.limits o ctx' = .ok r)
    (hplan : s.planFor r ctx = (.ok d, allocator)) :
    (!d.isEmpty && d.coverage.isComplete s.config.tolerance) = r.isComplete := by
  obtain ⟨hempty, rfl⟩ | ⟨hpartial, rfl⟩ | ⟨-, -, hlower⟩ := planFor_cases hplan
  · simp [Resolution.isComplete, hempty, rejected, Dataflow.isEmpty, Dataflow.empty]
  · simp [hpartial, rejected, Dataflow.isEmpty, Dataflow.empty]
  · obtain ⟨hcoverage, hempty⟩ := Resolution.lower_coverage h hlower
    obtain ⟨-, -, htolerance⟩ := Resolution.resolve_asked h
    rw [hcoverage, hempty, Resolution.isComplete, htolerance]
    rfl

/-! ## Plans and responses -/

theorem Tells.dropRepeats (h : s.Tells ctx r d) :
    s.Tells ctx r { d with notifications := Notification.dropRepeats d.notifications } := by
  cases h with
  | nothing hd hn =>
    obtain ⟨n, hn, hlevel⟩ := hn
    exact .nothing hd ⟨n, Notification.mem_dropRepeats.mpr hn, hlevel⟩
  | complete hd hr => exact .complete hd hr
  | partially hd hr hs hn =>
    obtain ⟨n, hn, hlevel⟩ := hn
    exact .partially hd hr hs ⟨n, Notification.mem_dropRepeats.mpr hn, hlevel⟩

theorem resolve_located (h : s.resolve o ctx = .ok r) :
    ∃ ctx', Resolution.resolve s.sources s.limits o ctx' = .ok r := by
  unfold resolve at h
  cases hlocated : ctx.located with
  | error e =>
    rw [hlocated] at h
    cases h
  | ok ctx' =>
    rw [hlocated] at h
    exact ⟨ctx', ok_of_mapError h⟩

/-- A plan is that for a resolution, without repeated notifications. -/
theorem plan_cases (h : (s.plan o ctx).1 = .ok d) :
    ∃ r d' allocator, s.resolve o ctx = .ok r ∧ s.planFor r ctx = (.ok d', allocator) ∧
      d = { d' with notifications := Notification.dropRepeats d'.notifications } := by
  unfold plan at h
  split at h
  · cases h
  · rename_i r hresolve
    split at h
    · cases h
    · rename_i d' allocator hplan
      cases h
      exact ⟨r, d', allocator, hresolve, hplan, rfl⟩

theorem config_plan : (s.plan o ctx).2.config = s.config := by
  unfold plan
  split
  · rfl
  · split <;> rfl

/-- A response is made from a plan for the observable of the request. -/
theorem handle_cases {q : Request} {a : Response} (h : (s.handle q ctx).1 = .ok a) :
    ∃ o, q.observable s.sources = .ok o ∧ (s.plan o (q.placed ctx)).1 = .ok a.dataflow ∧
      a.complete = (!a.dataflow.isEmpty && a.dataflow.coverage.isComplete s.config.tolerance) := by
  unfold handle at h
  split at h
  · cases h
  · rename_i o ho
    refine ⟨o, ho, ?_⟩
    have hconfig : (s.plan o (q.placed ctx)).2.config = s.config := config_plan
    simp only at h
    split at h
    · cases h
    · rename_i d s' hplan
      cases h
      have hplan : s.plan o (q.placed ctx) = (.ok d, s') := hplan
      rw [hplan] at hconfig
      exact ⟨congrArg Prod.fst hplan, by rw [hconfig]⟩

/-- That a plan is incomplete is never silent, and a response says so. -/
theorem plan_tells (s : Service) (ctx : Context Number) :
    (∀ o d, (s.plan o ctx).1 = .ok d → ∃ r, s.resolve o ctx = .ok r ∧ s.Tells ctx r d) ∧
      ∀ q a, (s.handle q ctx).1 = .ok a → ∃ o r, q.observable s.sources = .ok o ∧
        s.resolve o (q.placed ctx) = .ok r ∧ r.tolerance = s.config.tolerance ∧
          (a.complete = true ↔ r.isComplete = true) := by
  constructor
  · intro o d h
    obtain ⟨r, d', allocator, hr, hplan, rfl⟩ := plan_cases h
    obtain ⟨ctx', hresolve⟩ := resolve_located hr
    exact ⟨r, hr, (planFor_tells hresolve hplan).dropRepeats⟩
  · intro q a h
    obtain ⟨o, ho, hplan, hcomplete⟩ := handle_cases h
    obtain ⟨r, d', allocator, hr, hplan, hd⟩ := plan_cases hplan
    obtain ⟨ctx', hresolve⟩ := resolve_located hr
    obtain ⟨-, -, htolerance⟩ := Resolution.resolve_asked hresolve
    refine ⟨o, r, ho, hr, htolerance, ?_⟩
    rw [hcomplete, hd, ← planFor_isComplete hresolve hplan]
    rfl

/-- Half of the land is known: a plan that accepts this warns, and a response is not complete. -/
theorem plan_tells_halfKnown :
    ∃ s : Service, ∃ ctx : Context Number,
      (∃ d r, (s.plan Resolution.land ctx).1 = .ok d ∧ s.resolve Resolution.land ctx = .ok r ∧
        r.isComplete = false ∧ s.acceptsPartial ctx = true ∧
          ∃ n ∈ d.notifications, n.level = .warning) ∧
      ∃ a o r, (s.handle ⟨"t:Land", none, {}⟩ ctx).1 = .ok a ∧ s.resolve o
        (Request.placed ⟨"t:Land", none, {}⟩ ctx) = .ok r ∧ a.complete = false ∧
          r.isComplete = false := by
  let ctx : Context Number :=
    { Resolution.everywhere with scale := Resolution.upTo 4.0 (by decide +kernel) }
  let s : Service := { config := { acceptPartial := true }, sources := Resolution.halfKnown }
  have hs := plan_tells s ctx
  obtain ⟨d, hd, hsome⟩ := Resolution.exists_of_any
    (P := fun d : Dataflow Number => d.isEmpty = false ∧ d.coverage.isComplete s.config.tolerance = false)
    (x := (s.plan Resolution.land ctx).1) (by decide +kernel)
  obtain ⟨a, ha, hpartial⟩ := Resolution.exists_of_any (P := fun a : Response => a.complete = false)
    (x := (s.handle ⟨"t:Land", none, {}⟩ ctx).1) (by decide +kernel)
  obtain ⟨r', hr', hincomplete⟩ := Resolution.exists_of_any
    (P := fun r : Resolution Number => r.isComplete = false)
    (x := s.resolve Resolution.land ctx) (by decide +kernel)
  refine ⟨s, ctx, ?_, ?_⟩
  · obtain ⟨r, hr, htells⟩ := hs.1 _ d hd
    cases hr.symm.trans hr'
    cases htells with
    | nothing hempty => simp [hempty] at hsome
    | complete _ hcomplete => simp [hcomplete] at hincomplete
    | partially _ _ haccepts hn => exact ⟨d, r', hd, hr, hincomplete, haccepts, hn⟩
  · obtain ⟨o, r, -, hr, -, hiff⟩ := hs.2 _ a ha
    exact ⟨a, o, r, ha, hr, hpartial, by simpa [hpartial] using hiff⟩

end Service

end Obsplan
