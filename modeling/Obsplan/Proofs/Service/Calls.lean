import Obsplan.Proofs.Dataflow.Asking
import Obsplan.Proofs.Service.Contexts

/-!
# Calls of a service

What a service is called for takes several steps: identifiers are given out one by one, then the
context is entered, the plan is attached and run. Between the steps of one call there may be steps
of others. Main statement: a call that is not interrupted does what the service does.
-/

namespace Obsplan.Service

/-- What a service is called for. -/
inductive Want where
  | plan (o : Observable)
  | answer (q : Request)
  | observation (o : Observable)

/-- How a call ends. -/
inductive Outcome where
  | failed (e : Failure)
  | planned (d : Dataflow Number)
  | answered (a : Response)
  | observed (result : Except ExecutionError (Observation Number))

/-- How something ends that may fail. -/
def Outcome.of {β : Type} (f : β → Outcome) : Except Failure β → Outcome
  | .error e => .failed e
  | .ok b => f b

/-- How far a call has come. -/
inductive Stage where
  | lowering (rest : Asking (Dataflow Number))
  | entering (d : Dataflow Number)
  | attaching (d : Dataflow Number)
  | running (d : Dataflow Number)
  | ended (outcome : Outcome)

structure Call where
  want : Want
  ctx : Context Number
  stage : Stage
  /-- The identifiers that were given out for the call. -/
  received : List Identifier := []
  /-- The plan that was made. -/
  made : Option (Dataflow Number) := none

variable {s : Service} {o : Observable} {ctx : Context Number}

/-- The plan for a resolution in a context, for which identifiers are asked. -/
def asking (s : Service) (r : Resolution Number) (ctx : Context Number) :
    Asking (Dataflow Number) :=
  if r.isEmpty then .done (.ok (rejected r (nothingFound? r)))
  else if !r.isComplete && !s.acceptsPartial ctx then
    .done (.ok (rejected r (some (partialRejected r))))
  else r.asking (some s.config.maxEncodeDepth)

theorem run_asking (s : Service) (r : Resolution Number) (ctx : Context Number) :
    (s.asking r ctx).run s.allocator = s.planFor r ctx := by
  unfold asking planFor
  split
  · rfl
  · split
    · rfl
    · exact r.run_asking _ _

theorem asking_uses (s : Service) (r : Resolution Number) (ctx : Context Number) :
    (s.asking r ctx).Uses Dataflow.ids [] := by
  unfold asking
  split
  · exact List.Sublist.refl _
  · split
    · exact List.Sublist.refl _
    · exact r.asking_uses _

/-- The answer that tells of a plan. -/
def respond (s : Service) (d : Dataflow Number) (ctx : Context Number) : Response where
  dataflow := d
  encoded := s.encodePlan d ctx
  complete := !d.isEmpty && d.coverage.isComplete s.config.tolerance
  coverage := d.coverage.fraction
  notifications := d.notifications

theorem handle_eq {q : Request} (ho : q.observable s.sources = .ok o) :
    s.handle q ctx =
      match s.plan o (q.placed ctx) with
      | (.error e, s) => (.error e, s)
      | (.ok d, s) => (.ok (s.respond d (q.placed ctx)), s) := by
  unfold handle
  rw [ho]
  rfl

/-- What is done next once a plan was made. -/
def planned (s : Service) (d : Dataflow Number) (ctx : Context Number) : Want → Stage
  | .plan _ => .ended (.planned d)
  | .answer _ => .ended (.answered (s.respond d ctx))
  | .observation _ =>
    if d.isEmpty then .ended (.observed (.error .nothingToRun)) else .entering d

namespace Call

/-- A call for which something is resolved. -/
def resolving (s : Service) (want : Want) (o : Observable) (ctx : Context Number) : Call where
  want
  ctx
  stage :=
    match s.resolve o ctx with
    | .error e => .ended (.failed e)
    | .ok r => .lowering (s.asking r ctx)

/-- A new call in a context. -/
def begin (s : Service) (ctx : Context Number) : Want → Call
  | .plan o => resolving s (.plan o) o ctx
  | .observation o => resolving s (.observation o) o ctx
  | .answer q =>
    match q.observable s.sources with
    | .error e => { want := .answer q, ctx, stage := .ended (.failed (.resolution e)) }
    | .ok o => resolving s (.answer q) o (q.placed ctx)

/-- The next step of a call. -/
def advance (s : Service) (c : Call) : Service × Call :=
  match c.stage with
  | .lowering (.ask next) =>
    match s.allocator.allocate? with
    | none => (s, { c with stage := .lowering (.done (.error .identifiersExhausted)) })
    | some (i, allocator) =>
      ({ s with allocator }, { c with stage := .lowering (next i), received := c.received ++ [i] })
  | .lowering (.done (.error e)) => (s, { c with stage := .ended (.failed (.dataflow e)) })
  | .lowering (.done (.ok d)) =>
    let d := { d with notifications := Notification.dropRepeats d.notifications }
    ({ s with sink := s.sink.map (· ++ d.notifications) },
      { c with made := some d, stage := s.planned d c.ctx c.want })
  | .entering d => (s.entered c.ctx, { c with stage := .attaching d })
  | .attaching d =>
    match (s.planOf c.ctx).add d c.ctx with
    | .error e => (s, { c with stage := .ended (.failed (.dataflow e)) })
    | .ok extended =>
      ({ s with plans := s.plans.insert c.ctx.id extended }, { c with stage := .running d })
  | .running d =>
    let (result, s) := s.run s.registry.detached d c.ctx false
    (s, { c with stage := .ended (.observed result) })
  | .ended _ => (s, c)

/-! ## Without interruption -/

/-- Steps of a call between which there are no others. -/
def Alone : Service × Call → Service × Call → Prop :=
  Relation.ReflTransGen fun p q => q = p.2.advance p.1

theorem lowering_alone (x : Asking (Dataflow Number)) (s : Service) (c : Call)
    (hstage : c.stage = .lowering x) : ∃ received, Alone (s, c)
      ({ s with allocator := (x.run s.allocator).2 },
        { c with received, stage := .lowering (.done (x.run s.allocator).1) }) := by
  induction x generalizing s c with
  | done result =>
    cases c
    cases hstage
    exact ⟨_, .refl⟩
  | ask next ih =>
    rw [Asking.run]
    cases hanswer : s.allocator.allocate? with
    | none =>
      refine ⟨c.received, .single ?_⟩
      simp only [advance, hstage, hanswer]
    | some answer =>
      obtain ⟨received, hrest⟩ := ih answer.1 { s with allocator := answer.2 }
        { c with stage := .lowering (next answer.1), received := c.received ++ [answer.1] } rfl
      refine ⟨received, .head ?_ hrest⟩
      simp only [advance, hstage, hanswer]

/-- A plan is made for a call as the service makes it. -/
theorem resolving_alone (s : Service) (want : Want) (o : Observable) (ctx : Context Number) :
    ∃ c, Alone (s, resolving s want o ctx) ((s.plan o ctx).2, c) ∧ c.ctx = ctx ∧
      c.stage =
        match (s.plan o ctx).1 with
        | .error e => .ended (.failed e)
        | .ok d => (s.plan o ctx).2.planned d ctx want := by
  unfold resolving plan
  cases hresolve : s.resolve o ctx with
  | error e => exact ⟨_, .refl, rfl, rfl⟩
  | ok r =>
    dsimp only
    obtain ⟨received, hlowering⟩ := lowering_alone (s.asking r ctx) s
      ⟨want, ctx, .lowering (s.asking r ctx), [], none⟩ rfl
    rw [run_asking] at hlowering
    rcases hplan : s.planFor r ctx with ⟨e | d, allocator⟩
    · rw [hplan] at hlowering
      exact ⟨_, hlowering.tail rfl, rfl, rfl⟩
    · rw [hplan] at hlowering
      exact ⟨_, hlowering.tail rfl, rfl, rfl⟩

/-- A call for a plan that is not interrupted does what the service does, and so does any other
call. -/
theorem plan_alone (s : Service) (o : Observable) (ctx : Context Number) :
    ∃ c, Alone (s, begin s ctx (.plan o)) ((s.plan o ctx).2, c) ∧
      c.stage = .ended (.of .planned (s.plan o ctx).1) := by
  obtain ⟨c, halone, -, hstage⟩ := resolving_alone s (.plan o) o ctx
  refine ⟨c, halone, hstage.trans ?_⟩
  cases (s.plan o ctx).1 <;> rfl

theorem handle_alone (s : Service) (q : Request) (ctx : Context Number) :
    ∃ c, Alone (s, begin s ctx (.answer q)) ((s.handle q ctx).2, c) ∧
      c.stage = .ended (.of .answered (s.handle q ctx).1) := by
  cases hq : q.observable s.sources with
  | error e =>
    have hhandle : s.handle q ctx = (.error (.resolution e), s) := by
      unfold handle
      rw [hq]
    rw [hhandle]
    exact ⟨begin s ctx (.answer q), .refl, by simp only [begin, hq, Outcome.of]⟩
  | ok o =>
    obtain ⟨c, halone, hctx, hstage⟩ := resolving_alone s (.answer q) o (q.placed ctx)
    have hbegin : begin s ctx (.answer q) = resolving s (.answer q) o (q.placed ctx) := by
      simp only [begin, hq]
    rw [hbegin, handle_eq hq]
    refine ⟨c, ?_, hstage.trans ?_⟩
    · rcases hplan : s.plan o (q.placed ctx) with ⟨e | d, s₁⟩ <;> rw [hplan] at halone <;>
        exact halone
    · rcases s.plan o (q.placed ctx) with ⟨e | d, s₁⟩ <;> rfl

theorem observe_alone (s : Service) (o : Observable) (ctx : Context Number) :
    ∃ c, Alone (s, begin s ctx (.observation o)) ((s.observe o ctx).2, c) ∧
      c.stage = .ended (.of .observed (s.observe o ctx).1) := by
  obtain ⟨c, halone, hctx, hstage⟩ := resolving_alone s (.observation o) o ctx
  unfold observe
  rcases hplan : s.plan o ctx with ⟨e | d, s₁⟩
  · rw [hplan] at halone hstage
    exact ⟨c, halone, hstage⟩
  · rw [hplan] at halone hstage
    dsimp only at halone hstage ⊢
    by_cases hempty : d.isEmpty = true
    · rw [if_pos hempty]
      exact ⟨c, halone, hstage.trans (if_pos hempty)⟩
    · rw [if_neg hempty]
      replace hstage : c.stage = .entering d := hstage.trans (if_neg hempty)
      subst hctx
      have hentered : Alone (s, begin s c.ctx (.observation o))
          (s₁.entered c.ctx, { c with stage := .attaching d }) :=
        halone.tail (by simp only [advance, hstage])
      rw [attach_eq]
      cases hadd : ((s₁.entered c.ctx).planOf c.ctx).add d c.ctx with
      | error e =>
        exact ⟨_, hentered.tail (by simp only [advance, hadd]; rfl), rfl⟩
      | ok extended =>
        have hattached : Alone (s, begin s c.ctx (.observation o)) ({ s₁.entered c.ctx with
            plans := (s₁.entered c.ctx).plans.insert c.ctx.id extended },
              { c with stage := .running d }) :=
          hentered.tail (by simp only [advance, hadd])
        exact ⟨_, hattached.tail rfl, rfl⟩

end Call

end Obsplan.Service
