import Obsplan.Proofs.Resolution.Coverage
import Obsplan.Proofs.Scale.Binary
import Obsplan.Proofs.Search.Contexts
import Obsplan.Service

/-!
# Geometry constraints

A geometry constraint lists the extents of a scale, each as a value. What is read from it are these
extents, unless there are none: no extents look like no constraint. Main statement: resolving under
the constraint of a scale that is not scalar is resolving over that scale.
-/

namespace Obsplan

theorem Dimension.ofName?_name (d : Dimension) : ofName? d.name = some d := by
  cases d <;> rfl

/-! ## Extents as values -/

namespace Constraints

theorem extentOf_extent {e : Extent Number} (h : e.isValid = true) :
    extentOf (.list [.text e.dimension.name, .float e.start, .float e.stop]) = .ok e := by
  have hcheck : Extent.check ⟨e.dimension, e.start, e.stop⟩ = .ok e := if_pos h
  simp only [extentOf, Value.asText?, Value.asNumber?, Option.bind_some, Dimension.ofName?_name,
    hcheck]
  rfl

theorem mapM_extentOf {extents : List (Extent Number)} (h : ∀ e ∈ extents, e.isValid = true) :
    (extents.map fun e : Extent Number =>
      Value.list [.text e.dimension.name, .float e.start, .float e.stop]).mapM extentOf =
        .ok extents := by
  induction extents with
  | nil => rfl
  | cons e es ih =>
    obtain ⟨he, hes⟩ := List.forall_mem_cons.mp h
    rw [List.map_cons, List.mapM_cons, extentOf_extent he, ih hes]
    rfl

/-- The geometry of constraints is the one that was added last. -/
theorem values_add_geometry (cs : Constraints) (scale : Scale Number) :
    (cs.add (.geometry scale)).values Constraint.geometryName =
      (Constraint.geometry scale).values := by
  have hname : (Constraint.geometry scale).name = Constraint.geometryName := rfl
  rw [values, get?_add, if_pos hname]
  cases hget : cs.get? Constraint.geometryName with
  | none => rfl
  | some d =>
    have hsingle : Constraint.isSingle d.name = true := by
      rw [name_of_get? hget]
      decide
    simp [Constraint.join, hsingle]

/-- Scales are read back from their constraints, except for scalar ones. -/
theorem geometry?_add (cs : Constraints) (scale : Scale Number) :
    geometry? (cs.add (.geometry scale)) =
      .ok (if scale.isScalar = true then none else some scale) := by
  unfold geometry?
  rw [values_add_geometry]
  have hread : (Constraint.geometry scale).values.mapM extentOf = .ok scale.extents :=
    mapM_extentOf scale.valid
  cases hextents : scale.extents with
  | nil => simp [Constraint.geometry, Scale.isScalar, hextents]
  | cons e es =>
    split
    · rename_i hvalues
      simp [Constraint.geometry, hextents] at hvalues
    · rw [hread, if_neg (by simp [Scale.isScalar, hextents])]
      have hscale : (Scale.ofExtents scale.extents).mapError GeometryError.scale = .ok scale := by
        rw [scale.ofExtents_extents]
        rfl
      change (do return some (← (Scale.ofExtents scale.extents).mapError GeometryError.scale)) = _
      rw [hscale]
      rfl

end Constraints

/-! ## Resolving over another scale -/

namespace Service

variable {scale : Scale Number}

theorem located_geometry (h : scale.isScalar = false) (cs : Constraints) (ctx : Context Number) :
    Context.located { ctx with constraints := cs.add (.geometry scale) } =
      .ok { ctx with constraints := cs.add (.geometry scale), scale } := by
  simp only [Context.located, Constraints.geometry?_add, h]
  rfl

/-- A geometry constraint is not looked at once it is followed. -/
theorem alike_geometry (scale : Scale Number) (cs : Constraints) (ctx : Context Number) :
    Search.Alike { ctx with constraints := cs.add (.geometry scale) }
      { ctx with constraints := cs } := by
  have hvalues : ∀ name, Constraint.geometryName ≠ name →
      (cs.add (.geometry scale)).values name = cs.values name :=
    fun _ hname => Constraints.values_add_of_ne hname
  constructor
  · rfl
  · intro n
    simp only [Constraints.preferredNamespaces, Constraints.texts]
    rw [hvalues _ (by decide)]
  · intro p
    simp only [Constraints.preferredProjects, Constraints.texts]
    rw [hvalues _ (by decide)]
  · simp only [Constraints.excludedModels, Constraints.texts]
    rw [hvalues _ (by decide)]
  · funext urn
    simp only [Constraints.pinnedVersion?, Constraints.texts]
    rw [hvalues _ (by decide)]

/-- A scale that is not scalar is read back from its constraint, whatever the other constraints, and
what is resolved and planned under them is what is over that scale. -/
theorem resolve_geometry (h : scale.isScalar = false) (cs : Constraints) (s : Service)
    (o : Observable) (ctx : Context Number) :
    Constraints.geometry? (cs.add (.geometry scale)) = .ok (some scale) ∧
    s.resolve o { ctx with constraints := cs.add (.geometry scale) } =
      (Resolution.resolve s.sources s.limits o
        { ctx with constraints := cs, scale }).mapError .resolution ∧
    s.plan o { ctx with constraints := cs.add (.geometry scale) } =
      s.plan o { ctx with constraints := cs.add (.geometry scale), scale } := by
  have hlocated := located_geometry h cs
  refine ⟨by rw [Constraints.geometry?_add, h]; rfl, ?_, ?_⟩
  · have halike := alike_geometry scale cs { ctx with scale }
    simp only [resolve, hlocated]
    exact congrArg (Except.mapError Failure.resolution) (Resolution.resolve_alike _ _ o halike)
  · have hresolve : s.resolve o { ctx with constraints := cs.add (.geometry scale) } =
        s.resolve o { ctx with constraints := cs.add (.geometry scale), scale } := by
      simp only [resolve, hlocated, hlocated { ctx with scale }]
    unfold plan
    rw [hresolve]
    rfl

theorem isValid_fourYears : (Extent.mk .time 0.0 4.0 : Extent Number).isValid = true := by
  decide +kernel

/-- The first four years. -/
def fourYears : Scale Number := Resolution.upTo 4.0 isValid_fourYears

/-- Land is known for all years and needs soil, which is known for the first two. -/
def halfInformed : Service := { config := {}, sources := Resolution.halfKnown }

/-- Soil is there for half of four years, which a constraint asks for anywhere. -/
theorem resolve_geometry_fourYears :
    ∃ r, halfInformed.resolve Resolution.soil { Resolution.everywhere with
        constraints := Constraints.empty.add (.geometry fourYears) } = .ok r ∧
      r.outcome = .partially ∧ (r.scale == fourYears) = true := by
  have hfour : fourYears.isScalar = false := rfl
  obtain ⟨-, hresolve, -⟩ := resolve_geometry hfour Constraints.empty halfInformed Resolution.soil
    Resolution.everywhere
  rw [hresolve]
  exact Resolution.exists_of_any
    (P := fun r : Resolution Number => r.outcome = .partially ∧ (r.scale == fourYears) = true)
    (by decide +kernel)

/-- A scalar scale is a scale, but a context that is constrained to it stays where it is. -/
theorem resolve_geometry_scalar :
    (∃ scale : Scale Number, Scale.ofExtents [] = .ok scale ∧
      Constraints.geometry? (Constraints.empty.add (.geometry scale)) = .ok none) ∧
    (∃ r, halfInformed.resolve Resolution.soil { Resolution.everywhere with
        scale := fourYears, constraints := Constraints.empty.add (.geometry .scalar) } = .ok r ∧
      r.outcome = .partially ∧ r.scale.isScalar = false) ∧
    ∃ r, halfInformed.resolve Resolution.soil Resolution.everywhere = .ok r ∧
      r.outcome = .resolved ∧ r.scale.isScalar = true := by
  refine ⟨⟨.scalar, Scale.scalar.ofExtents_extents, rfl⟩, ?_, ?_⟩
  · exact Resolution.exists_of_any
      (P := fun r : Resolution Number => r.outcome = .partially ∧ r.scale.isScalar = false)
      (by decide +kernel)
  · exact Resolution.exists_of_any
      (P := fun r : Resolution Number => r.outcome = .resolved ∧ r.scale.isScalar = true)
      (by decide +kernel)

end Service

end Obsplan
