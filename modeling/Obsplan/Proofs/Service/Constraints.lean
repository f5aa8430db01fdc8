import Obsplan.Proofs.Resolution.Shape
import Obsplan.Proofs.Search.Contexts
import Obsplan.Proofs.Service.Calls

/-!
# Constraints of requests and of contexts

The constraints of a request are added to those of its context one by one, while those of a context
are taken as they were written. Main statement: settled constraints get the same answer either way.
-/

namespace Obsplan.Service

variable {s : Service} {o : Observable} {ctx ctx' : Context Number}

/-- Contexts whose constraints mean the same are moved to the same scale, and rank alike there. -/
theorem located_agree (hscale : ctx.scale = ctx'.scale)
    (h : ctx.constraints.Agree ctx'.constraints) :
    (∃ e, ctx.located = .error e ∧ ctx'.located = .error e) ∨
      ∃ at₁ at₂, ctx.located = .ok at₁ ∧ ctx'.located = .ok at₂ ∧ Search.Alike at₁ at₂ := by
  unfold Context.located
  rw [h.scale]
  rcases Constraints.geometry? ctx'.constraints with e | _ | scale
  · exact .inl ⟨e, rfl, rfl⟩
  · exact .inr ⟨ctx, ctx', rfl, rfl, hscale, h.namespaces, h.projects, h.excluded, h.pinned⟩
  · exact .inr ⟨_, _, rfl, rfl, rfl, h.namespaces, h.projects, h.excluded, h.pinned⟩

theorem resolve_agree (hscale : ctx.scale = ctx'.scale)
    (h : ctx.constraints.Agree ctx'.constraints) : s.resolve o ctx = s.resolve o ctx' := by
  unfold resolve
  obtain ⟨e, he, he'⟩ | ⟨at₁, at₂, hat, hat', halike⟩ := located_agree hscale h
  · rw [he, he']
  · rw [hat, hat']
    have hsame := Resolution.resolve_alike s.sources s.limits o halike
    exact congrArg (Except.mapError Failure.resolution) hsame

/-- A plan depends on nothing but the scale of the context and the meaning of its constraints. -/
theorem plan_agree (hscale : ctx.scale = ctx'.scale) (h : ctx.constraints.Agree ctx'.constraints) :
    s.plan o ctx = s.plan o ctx' := by
  have haccepts : s.acceptsPartial ctx = s.acceptsPartial ctx' := by
    rw [acceptsPartial, acceptsPartial, h.accepts]
  have hplanFor : ∀ r, s.planFor r ctx = s.planFor r ctx' := fun r => by
    rw [planFor, planFor, haccepts]
  simp only [plan, resolve_agree hscale h, hplanFor]

theorem respond_named (h : ctx.displayName = ctx'.displayName) (d : Dataflow Number) :
    s.respond d ctx = s.respond d ctx' := by
  simp only [respond, encodePlan, Dataflow.encode, Dataflow.text?, h]

/-- It does not matter to an answer which of its constraints are those of the context. -/
theorem handle_agree {cs cs' : Constraints} (hname : ctx.displayName = ctx'.displayName)
    (hscale : ctx.scale = ctx'.scale)
    (h : (ctx.constraints.merge cs).Agree (ctx'.constraints.merge cs')) (s : Service)
    (observation : String) (scale : Option (Scale Number)) :
    s.handle ⟨observation, scale, cs⟩ ctx = s.handle ⟨observation, scale, cs'⟩ ctx' := by
  cases ho : Request.observableOf s.sources observation with
  | error e => simp only [handle, Request.observable, ho]
  | ok o =>
    rw [handle_eq (q := ⟨observation, scale, cs⟩) ho, handle_eq (q := ⟨observation, scale, cs'⟩) ho]
    have hplan : s.plan o (Request.placed ⟨observation, scale, cs⟩ ctx) =
        s.plan o (Request.placed ⟨observation, scale, cs'⟩ ctx') := by
      cases scale with
      | none => exact plan_agree hscale h
      | some scale => exact plan_agree rfl h
    have hplaced : (Request.placed ⟨observation, scale, cs⟩ ctx).displayName =
        (Request.placed ⟨observation, scale, cs'⟩ ctx').displayName := by
      cases scale <;> exact hname
    rw [hplan]
    rcases s.plan o (Request.placed ⟨observation, scale, cs'⟩ ctx') with ⟨e | d, s₁⟩
    · rfl
    · exact congrArg (fun a => (Except.ok a, s₁)) (respond_named hplaced d)

/-- Settled constraints get the same answer, with the same identifiers, from a request and from the
context. -/
theorem handle_settled {cs : Constraints} (h : cs.Settled) (s : Service) (observation : String)
    (scale : Option (Scale Number)) (ctx : Context Number) :
    s.handle ⟨observation, scale, cs⟩ { ctx with constraints := {} } =
      s.handle ⟨observation, scale, {}⟩ { ctx with constraints := cs } := by
  refine handle_agree ?_ ?_ ?_ s observation scale
  · rfl
  · rfl
  · exact h

/-- Soil is known by two models. -/
def doubled : Service :=
  { config := {}
    sources := Resolution.knowing [Resolution.needing "a.soil" Resolution.soil [],
      Resolution.needing "b.soil" Resolution.soil []] }

/-- A note comes twice, the rest of the constraints once. -/
def noted : Constraints :=
  ⟨[⟨"note", [.text "dry"]⟩, .acceptPartial true, .excludeModel "a.soil", ⟨"note", [.text "wet"]⟩]⟩

theorem handle_settled_noted :
    ∃ a, a.complete = true ∧ a.dataflow.size = 1 ∧
      (doubled.handle ⟨"t:Soil", none, noted⟩ Resolution.everywhere).1 = .ok a ∧
      (doubled.handle ⟨"t:Soil", none, {}⟩
        { Resolution.everywhere with constraints := noted }).1 = .ok a := by
  have hsettled : noted.Settled := Constraints.settled_of_pairwise (by decide +kernel)
  obtain ⟨a, ha, hcomplete, hsize⟩ := Resolution.exists_of_any
    (P := fun a : Response => a.complete = true ∧ a.dataflow.size = 1)
    (x := (doubled.handle ⟨"t:Soil", none, noted⟩ Resolution.everywhere).1) (by decide +kernel)
  refine ⟨a, hcomplete, hsize, ha, ?_⟩
  rw [← handle_settled hsettled doubled "t:Soil" none Resolution.everywhere]
  exact ha

/-- Both models are excluded, one after the other. -/
def emptied : Constraints := ⟨[.excludeModel "a.soil", .excludeModel "b.soil"]⟩

/-- A request that excludes both models is told that nothing was found, and in a context that does
so only the first one is. -/
theorem handle_emptied :
    Constraints.ofJson? emptied.toJson = some emptied ∧
    (∃ a, (doubled.handle ⟨"t:Soil", none, emptied⟩ Resolution.everywhere).1 = .ok a ∧
      a.complete = false ∧ a.dataflow.size = 0) ∧
    ∃ a, (doubled.handle ⟨"t:Soil", none, {}⟩
        { Resolution.everywhere with constraints := emptied }).1 = .ok a ∧
      a.complete = true ∧ a.dataflow.size = 1 := by
  refine ⟨rfl, ?_, ?_⟩
  · exact Resolution.exists_of_any (P := fun a : Response => a.complete = false ∧ a.dataflow.size = 0)
      (by decide +kernel)
  · exact Resolution.exists_of_any (P := fun a : Response => a.complete = true ∧ a.dataflow.size = 1)
      (by decide +kernel)

end Obsplan.Service
