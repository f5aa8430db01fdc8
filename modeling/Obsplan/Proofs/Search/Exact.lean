import Obsplan.Proofs.Coverage.Tiling
import Obsplan.Proofs.Search.Richer

/-!
# Limits that count exactly

Whether limits count exactly can be decided where only finitely many coverages arise. A list that
holds what the models claim, and the unions and intersections of what it holds, holds all of them.
-/

namespace Obsplan

/-! ## Equal coverages -/

instance : DecidableEq Number := fun x y =>
  decidable_of_iff (x.bits = y.bits) (by cases x; cases y; simp)

section decidableEq

variable {α : Type} [DecidableEq α]

instance : DecidableEq (Extent α) := fun e f =>
  decidable_of_iff (e.dimension = f.dimension ∧ e.start = f.start ∧ e.stop = f.stop)
    (by cases e; cases f; simp)

variable [Coordinate α]

instance : DecidableEq (Scale α) := fun s t =>
  decidable_of_iff (s.extents = t.extents) (by cases s; cases t; simp)

instance : DecidableEq (Coverage α) := fun c c' =>
  decidable_of_iff (c.scale = c'.scale ∧ c.shapes = c'.shapes ∧ c.fraction = c'.fraction)
    (by cases c; cases c'; simp)

/-- What a list holds is decided by equality, not by the agreement of coverages. -/
instance (c : Coverage α) (cs : List (Coverage α)) : Decidable (c ∈ cs) :=
  decidable_of_iff (∃ d ∈ cs, d = c) exists_eq_right

end decidableEq

variable {α : Type} [Coordinate α] [LawfulCoordinate α] {scale : Scale α} {c c' : Coverage α}

/-! ## Empty coverages -/

namespace Coverage

theorem isEmpty_iff : c.isEmpty = true ↔ ∀ p, p ∉ c.region := by
  rw [isEmpty, List.isEmpty_iff]
  constructor
  · rintro hempty p ⟨shape, hshape, -⟩
    rw [hempty] at hshape
    cases hshape
  · intro hnone
    by_contra hne
    obtain ⟨p, hp⟩ := region_nonempty hne
    exact hnone p hp

theorem Over.uncovered (hc : c.Over scale) : c.uncovered.Over scale := by
  obtain ⟨hscale, hproper, -⟩ := ofShapes_spec c.scale (c.shapes.foldl clear [c.scale])
  exact ⟨hscale.trans hc.scale_eq, hproper⟩

theorem mem_uncovered {p : Point α} (hc : c.Over scale) :
    p ∈ c.uncovered.region ↔ p ∈ scale ∧ p ∉ c.region := by
  have hread : p ∈ readings c.scale c.shapes ↔ p ∈ c.region := mem_reading_shapes hc.proper rfl
  rw [uncovered, region_remainder, Set.mem_sdiff, hread, hc.scale_eq]
  exact Iff.rfl

theorem isEmpty_uncovered (hc : c.Over scale) :
    c.uncovered.isEmpty = true ↔ ∀ p ∈ scale, p ∈ c.region := by
  rw [isEmpty_iff]
  refine forall_congr' fun p => ?_
  rw [mem_uncovered hc, not_and_not_right]

theorem isEmpty_intersect_uncovered (hc : c.Over scale) (hc' : c'.Over scale) :
    (c'.intersect c.uncovered).isEmpty = true ↔ c'.region ⊆ c.region := by
  rw [isEmpty_iff]
  refine forall_congr' fun p => ?_
  rw [mem_intersect hc' hc.uncovered, mem_uncovered hc]
  refine ⟨fun hout hp => ?_, fun hsub hp => hp.2.2 (hsub hp.1)⟩
  by_contra hmissing
  exact hout ⟨hp, hc'.scale_eq ▸ hc'.proper.inside hp, hmissing⟩

end Coverage

/-! ## Finitely many coverages -/

namespace Search

variable {sources : Sources α} {limits : Limits α} {origin o : Observable} {root ctx : Context α}
  {remaining : Nat} {path : List String} {candidate : Candidate α} {key : String}
  {os : List Observable} {cs : List (Coverage α)}

/-- The models that sources find for an observable. -/
def Serves (sources : Sources α) (o : Observable) (m : Model α) : Prop :=
  ∃ models, Candidate.found sources o = .ok models ∧ ∃ f ∈ models, f.1 = m

omit [LawfulCoordinate α] in
theorem Ranked.serves (h : Ranked sources o ctx candidate) : Serves sources o candidate.model := by
  obtain ⟨found, hfound, hc⟩ := h
  obtain ⟨models, hmodels, hmem⟩ := Candidate.mem_lookup_iff hfound
  obtain ⟨f, hf, -, hmade⟩ := (hmem candidate).mp hc
  exact ⟨models, hmodels, f, Candidate.mem_of_mem_distinct hf,
    (Candidate.of_ofModel? hmade).1.symm⟩

/-- Observables whose models need only each other over their own scale, and a list that holds what
these models claim of a scale and what is composed of what it holds. -/
structure Closed (sources : Sources α) (scale : Scale α) (os : List Observable)
    (cs : List (Coverage α)) : Prop where
  needs : ∀ o ∈ os, ∀ m, Serves sources o m →
    ∀ d ∈ m.dependencies, d.observable ∈ os ∧ d.scale = none
  claim : ∀ o ∈ os, ∀ m, Serves sources o m → m.coverageOver scale ∈ cs
  empty : .empty scale ∈ cs
  merge : ∀ c ∈ cs, ∀ c' ∈ cs, c.merge c' ∈ cs
  intersect : ∀ c ∈ cs, ∀ c' ∈ cs, c.intersect c' ∈ cs

omit [LawfulCoordinate α] in
/-- A search that starts with one of the observables is asked for these only, over one scale. -/
theorem Asked.mem (h : Asked sources limits origin root remaining path o ctx)
    (hcs : Closed sources root.scale os cs) (horigin : origin ∈ os) :
    o ∈ os ∧ ctx.scale = root.scale := by
  induction h with
  | start => exact ⟨horigin, rfl⟩
  | needed _ _ hranked hd _ ih =>
    obtain ⟨ho, hscale⟩ := ih
    obtain ⟨hmem, hown⟩ := hcs.needs _ ho _ hranked.serves _ hd
    exact ⟨hmem, by simp [inner, Context.atScale, hown, hscale]⟩

omit [LawfulCoordinate α] in
theorem Arising.mem (h : Arising sources limits origin root key scale c)
    (hcs : Closed sources root.scale os cs) (horigin : origin ∈ os) (hscale : scale = root.scale) :
    c ∈ cs := by
  induction h with
  | empty => exact hscale ▸ hcs.empty
  | claim hcan =>
    rw [hcan.ranked.coverage_eq, hscale]
    exact hcs.claim _ (hcan.asked.mem hcs horigin).1 _ hcan.ranked.serves
  | narrowed hcan hd _ _ ih ihfound =>
    have hown := (hcs.needs _ (hcan.asked.mem hcs horigin).1 _ hcan.ranked.serves _ hd).2
    have hfound := ihfound (by simp [inner, Context.atScale, hown, hscale])
    unfold Search.narrowed
    split
    · exact hcs.intersect _ (ih hscale) _ hfound
    · exact ih hscale
  | merge _ _ ih ih' => exact hcs.merge _ (ih hscale) _ (ih' hscale)

/-- Where models look over their own scale only, limits count exactly when they do so for a closed
list of coverages. -/
theorem Sharp.of_closed (horigin : origin ∈ os) (hcs : Closed sources root.scale os cs)
    (hcomplete : ∀ c ∈ cs, c.isComplete limits.tolerance = c.uncovered.isEmpty)
    (hcontributes : ∀ c ∈ cs, ∀ c' ∈ cs, c.gain c' < limits.minContribution →
      (c'.intersect c.uncovered).isEmpty = true) : Sharp sources limits origin root where
  complete hasked hc := by
    rw [hcomplete _ (hc.mem hcs horigin (hasked.mem hcs horigin).2)]
    exact Coverage.isEmpty_uncovered hc.over
  contributes hasked hc hc' hgain := by
    have hscale := (hasked.mem hcs horigin).2
    exact (Coverage.isEmpty_intersect_uncovered hc.over hc'.over).mp
      (hcontributes _ (hc.mem hcs horigin hscale) _ (hc'.mem hcs horigin hscale) hgain)

end Search

end Obsplan
