import Mathlib.Logic.Relation
import Obsplan.Proofs.Coverage.Unions
import Obsplan.Proofs.Dataflow.Grafting

/-!
# Growing coverage

A plan grows by the plans that are added to it, one after the other. Each of them widens what the
actuators on the way to it cover, from the end of the way on, and the coverage of the plan is
computed anew from its roots. Main statement: the plan covers just what its roots cover of the scale
that it began with, and nothing that was covered is lost.
-/

namespace Obsplan

open Coverage

variable {α : Type} [Coordinate α]

/-! ## Places -/

namespace Actuator

/-- The actuator at a place: the number of a root, and from there on the numbers of children. -/
def at? (root : Nat) : List Nat → List (Actuator α) → Option (Actuator α)
  | [], as => as[root]?
  | child :: place, as => as[root]?.bind fun a => at? child place a.children

/-- Every actuator stays at its place and is what it was, but for what it covers besides. -/
def Kept (as bs : List (Actuator α)) : Prop :=
  ∀ root place a, at? root place as = some a → ∃ b, at? root place bs = some b ∧
    b.job.uncovered = a.job.uncovered ∧ a.job.coverage.Widens b.job.coverage

namespace Kept

variable {as bs cs : List (Actuator α)}

theorem refl (as : List (Actuator α)) : Kept as as := fun _ _ a h => ⟨a, h, rfl, .refl _⟩

theorem trans (h : Kept as bs) (h' : Kept bs cs) : Kept as cs := by
  intro root place a ha
  obtain ⟨b, hb, hjob, hwidens⟩ := h root place a ha
  obtain ⟨c, hc, hjob', hwidens'⟩ := h' root place b hb
  exact ⟨c, hc, hjob'.trans hjob, hwidens.trans hwidens'⟩

theorem append (as bs : List (Actuator α)) : Kept as (as ++ bs) := by
  intro root place a ha
  have hroot : ∀ a, as[root]? = some a → (as ++ bs)[root]? = some a := by
    intro a ha
    rw [List.getElem?_append_left (List.getElem?_eq_some_iff.mp ha).1, ha]
  cases place with
  | nil => exact ⟨a, hroot a ha, rfl, .refl _⟩
  | cons child place =>
    obtain ⟨parent, hparent, hdeep⟩ := Option.bind_eq_some_iff.mp ha
    refine ⟨a, ?_, rfl, .refl _⟩
    rw [at?, hroot parent hparent]
    exact hdeep

/-- One actuator is put for another, and all beside it stay. -/
theorem replace {a a' : Actuator α} (hjob : a'.job.uncovered = a.job.uncovered)
    (hwidens : a.job.coverage.Widens a'.job.coverage) (hchildren : Kept a.children a'.children)
    (before after : List (Actuator α)) : Kept (before ++ a :: after) (before ++ a' :: after) := by
  intro root place b hb
  by_cases hroot : root = before.length
  · -- the place is that of the actuator itself or leads below it
    have hat : ∀ c : Actuator α, (before ++ c :: after)[root]? = some c := by
      intro c
      rw [hroot, List.getElem?_append_right (Nat.le_refl _), Nat.sub_self, List.getElem?_cons_zero]
    cases place with
    | nil =>
      rw [at?, hat] at hb
      cases hb
      exact ⟨a', hat a', hjob, hwidens⟩
    | cons child place =>
      rw [at?, hat] at hb
      obtain ⟨c, hc, hkept⟩ := hchildren child place b hb
      refine ⟨c, ?_, hkept⟩
      rw [at?, hat]
      exact hc
  · have hbeside : (before ++ a' :: after)[root]? = (before ++ a :: after)[root]? := by
      grind
    refine ⟨b, ?_, rfl, .refl _⟩
    cases place with
    | nil => exact hbeside.trans hb
    | cons child place =>
      rw [at?, hbeside]
      exact hb

theorem shapes (h : Kept as bs) :
    as.flatMap (fun a => a.job.coverage.shapes) ⊆ bs.flatMap fun b => b.job.coverage.shapes := by
  intro shape hshape
  obtain ⟨a, ha, hmem⟩ := List.mem_flatMap.mp hshape
  obtain ⟨root, hroot⟩ := List.mem_iff_getElem?.mp ha
  obtain ⟨b, hb, -, hwidens⟩ := h root [] a hroot
  exact List.mem_flatMap.mpr ⟨b, List.mem_of_getElem? hb, hwidens.shapes.subset hmem⟩

end Kept

end Actuator

/-! ## Widened ways -/

namespace Way

open Actuator

/-- A way on which every actuator covers besides what is next on the way covers of its scale, or
what is attached at the end. Nothing else has changed. -/
structure Widened (roots : List (Actuator α)) (way way' : Way α) : Prop where
  alike : Alike way way'
  covers : ∀ i f f', way[i]? = some f → way'[i]? = some f' →
    f'.job.coverage.scale = f.job.coverage.scale ∧
      f'.job.coverage.covers = f.job.coverage.covers ∪ {p | p ∈ f.job.coverage.scale} ∩
        readings f.job.coverage.scale ((next roots (way'.drop (i + 1))).flatMap Coverage.shapes)

theorem kept_widened (roots below : List (Actuator α)) (way : Way α) :
    Kept (fill way below) (fill (widened roots way) (below ++ roots)) := by
  induction way with
  | nil => exact Kept.append below roots
  | cons f way ih =>
    rw [widened, fill, fill]
    apply Kept.replace
    · rfl
    · exact Widens.foldl_merge f.job.coverage _
    · exact ih

theorem widened_widened [LawfulCoordinate α] (roots : List (Actuator α)) (way : Way α) :
    Widened roots way (widened roots way) where
  alike := alike_widened roots way
  covers := by
    induction way with
    | nil =>
      intro i f f' hf
      cases hf
    | cons g way ih =>
      intro i f f' hf hf'
      cases i with
      | zero =>
        cases hf
        cases hf'
        exact ⟨(Widens.foldl_merge g.job.coverage _).scale, covers_foldl_merge g.job.coverage _⟩
      | succ i => exact ih i f f' hf hf'

end Way

/-! ## Runs -/

namespace Dataflow

open Actuator Way

variable {d d' other sum : Dataflow α} {ctx : Context α} {s : Scale α}

/-- A plan is made of another one by adding a further plan to it somewhere. -/
def Extends (d sum : Dataflow α) : Prop := ∃ other ctx, d.add other ctx = .ok sum

/-- Plans are added one after the other. -/
abbrev Grows (d d' : Dataflow α) : Prop := Relation.ReflTransGen Extends d d'

theorem coverage_add (h : d.add other ctx = .ok sum) :
    sum.coverage = coverageOf d.coverage.scale sum.actuators := by
  obtain ⟨way, below, -, -, rfl⟩ := add_cases h
  rfl

theorem coverageOf_eq_foldl (s : Scale α) (roots : List (Actuator α)) :
    coverageOf s roots = (roots.map fun a => a.job.coverage).foldl Coverage.merge (.empty s) := by
  rw [coverageOf, List.foldl_map]

theorem scale_coverageOf (s : Scale α) (roots : List (Actuator α)) :
    (coverageOf s roots).scale = s := by
  rw [coverageOf_eq_foldl]
  exact (Widens.foldl_merge (.empty s) _).scale

/-- The coverage of a plan is computed from its roots, over the scale that it began with. -/
theorem Grows.coverage (h : Grows (.empty s) d) : d.coverage = coverageOf s d.actuators := by
  induction h with
  | refl => rfl
  | tail _ hlast ih =>
    obtain ⟨other, ctx, hadd⟩ := hlast
    rw [coverage_add hadd, ih, scale_coverageOf]

theorem kept_of_extends (h : Extends d sum) : Kept d.actuators sum.actuators := by
  obtain ⟨other, ctx, hadd⟩ := h
  obtain ⟨way, below, -, hd, rfl⟩ := add_cases hadd
  rw [hd]
  exact kept_widened _ _ way

theorem Grows.kept (h : Grows d d') : Kept d.actuators d'.actuators := by
  induction h with
  | refl => exact .refl _
  | tail _ hlast ih => exact ih.trans (kept_of_extends hlast)

variable [LawfulCoordinate α]

theorem region_coverageOf (s : Scale α) (roots : List (Actuator α)) :
    (coverageOf s roots).region =
      {p | p ∈ s} ∩ readings s (roots.flatMap fun a => a.job.coverage.shapes) := by
  have hproper : (coverageOf s roots).Proper := by
    rw [coverageOf_eq_foldl]
    exact proper_foldl_merge (proper_empty s) _
  rw [← hproper.covers_eq_region, coverageOf_eq_foldl, covers_foldl_merge, List.flatMap_map]
  simp [covers, Coverage.empty, readings]

/-- A plan that has grown from nothing covers what its roots cover of the scale that it began with.
Whatever is added next, just the actuators on the way to it cover more: what the next one on the way
covers then, or what is attached. However the plan goes on growing, it loses nothing that it covers,
and neither does any actuator. -/
theorem grows_covers (h : Grows (.empty s) d) :
    (d.coverage.scale = s ∧ d.coverage.region =
      {p | p ∈ s} ∩ readings s (d.actuators.flatMap fun a => a.job.coverage.shapes)) ∧
    (∀ other ctx sum, d.add other ctx = .ok sum → ∃ way way' below, EndsAt ctx.current way ∧
      d.actuators = fill way below ∧ sum.actuators = fill way' (below ++ other.actuators) ∧
      Widened other.actuators way way') ∧
    ∀ d', Grows d d' → d.coverage.region ⊆ d'.coverage.region ∧
      ∀ root place a, at? root place d.actuators = some a →
        ∃ b, at? root place d'.actuators = some b ∧ b.job.uncovered = a.job.uncovered ∧
          b.job.coverage.scale = a.job.coverage.scale ∧
          a.job.coverage.covers ⊆ b.job.coverage.covers := by
  have hcoverage := h.coverage
  refine ⟨⟨?_, ?_⟩, ?_, ?_⟩
  · rw [hcoverage, scale_coverageOf]
  · rw [hcoverage, region_coverageOf]
  · intro other ctx sum hadd
    obtain ⟨way, below, hway, hd, rfl⟩ := add_cases hadd
    exact ⟨way, _, below, hway, hd, rfl, widened_widened _ way⟩
  · intro d' hgrows
    constructor
    · -- both coverages are computed from the roots, and the roots keep their shapes
      rw [hcoverage, Grows.coverage (h.trans hgrows), region_coverageOf, region_coverageOf]
      exact Set.inter_subset_inter_right _ (readings_mono s hgrows.kept.shapes)
    · intro root place a ha
      obtain ⟨b, hb, hjob, hwidens⟩ := hgrows.kept root place a ha
      exact ⟨b, hb, hjob, hwidens.scale, hwidens.covers⟩

/-- Observes dunes where a coverage says. -/
def jobOver (i : Nat) (c : Coverage Number) : Job Number :=
  { (observing i []).job with
    scale := c.scale
    coverage := c }

def covering (i : Nat) (c : Coverage Number) : Dataflow Number :=
  { Dataflow.empty square with actuators := [.mk (jobOver i c) []] }

def leftPlan : Dataflow Number := covering 1 (ofShapes square [leftBand])

/-- A plan on a scale of its own, which lacks a dimension of the square and exceeds it. -/
def lowerPlan : Dataflow Number := covering 2 (.full lowerBand)

theorem grows_covers_bands :
    ∃ d sum, Grows (.empty square) d ∧
      d.add lowerPlan { id := "c", scale := square, current := some .first } = .ok sum ∧
      d.coverage.shapes.length = 1 ∧ sum.coverage.shapes.length = 2 ∧
      d.coverage.region ⊆ sum.coverage.region ∧
      sum.coverage.region = {p | p ∈ square} ∩
        readings square (sum.actuators.flatMap fun a => a.job.coverage.shapes) := by
  have hstart : EndsAt ({ id := "c", scale := square } : Context Number).current
      ([] : Way Number) := rfl
  have hd := add_fill hstart (show (empty square).actuators = fill [] [] from rfl) leftPlan
  -- the root of the first plan is the only one, and it is the hook
  let left : Frame Number := ⟨[], jobOver 1 (ofShapes square [leftBand]), []⟩
  have hway : EndsAt ({ id := "c", scale := square, current := some .first } :
      Context Number).current [left] := LeadsTo.last (f := left) List.not_mem_nil rfl
  have hsum := add_fill hway (show ((empty square).joined leftPlan leftPlan.actuators).actuators =
    fill [left] [] from rfl) lowerPlan
  have hgrown : Grows (.empty square) _ := .single ⟨_, _, hd⟩
  have hgrows : Grows _ _ := .single ⟨_, _, hsum⟩
  obtain ⟨-, -, hlater⟩ := grows_covers hgrown
  obtain ⟨⟨-, hregion⟩, -⟩ := grows_covers (hgrown.trans hgrows)
  exact ⟨_, _, hgrown, hsum, by decide +kernel, by decide +kernel, (hlater _ hgrows).1, hregion⟩

end Dataflow

end Obsplan
