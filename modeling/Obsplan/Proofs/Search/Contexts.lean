import Obsplan.Proofs.Context.Layers

/-!
# Searches in contexts that rank alike

A search looks at nothing of its context but what candidates are screened and ranked by. Main
statement: in contexts that agree on that, resolutions are the same, whatever the sources.
-/

namespace Obsplan

variable {α : Type} [Coordinate α]

namespace Search

/-- A searcher that finds the same in contexts that rank alike. -/
def Unbiased (deeper : Searcher α) : Prop :=
  ∀ o {ctx ctx' : Context α} s, Alike ctx ctx' → deeper o ctx s = deeper o ctx' s

section steps

variable {deeper : Searcher α} (hdeep : Unbiased deeper) {ctx ctx' : Context α}
  (h : Alike ctx ctx') (m : Model α) (o : Observable) (s : SearchState α)

include hdeep h

theorem linkDependency_alike (d : Dependency α) (coverage : Coverage α) :
    linkDependency deeper m o ctx d coverage s = linkDependency deeper m o ctx' d coverage s := by
  -- the model hands the same preferences down to both contexts
  have hinner : deeper d.observable ((ctx.constrained (preferences m)).atScale
      (d.scale.getD ctx.scale)) s = deeper d.observable
        ((ctx'.constrained (preferences m)).atScale (d.scale.getD ctx'.scale)) s :=
    hdeep d.observable s (h.inner m d)
  simp only [linkDependency, hinner]
  simp only [h.scale]

theorem linkAll_alike (ds : List (Dependency α)) (links : List Link) (coverage : Coverage α) :
    linkAll deeper m o ctx ds links coverage s = linkAll deeper m o ctx' ds links coverage s := by
  induction ds generalizing links coverage s with
  | nil => rfl
  | cons d ds ih => simp only [linkAll, linkDependency_alike hdeep h, ih]

theorem tryCandidate_alike (c : Candidate α) :
    tryCandidate deeper o ctx c s = tryCandidate deeper o ctx' c s := by
  simp only [tryCandidate, linkAll_alike hdeep h, h.scale]

theorem tryAll_alike (limits : Limits α) (cs : List (Candidate α)) (accepted : List Nat)
    (covered : Coverage α) :
    tryAll limits deeper o ctx cs accepted covered s =
      tryAll limits deeper o ctx' cs accepted covered s := by
  induction cs generalizing accepted covered s with
  | nil => rfl
  | cons c cs ih => simp only [tryAll, tryCandidate_alike hdeep h, ih]

end steps

/-- Contexts that rank alike keep branches under the same keys. -/
theorem Alike.branchKey {ctx ctx' : Context α} (h : Alike ctx ctx') (o : Observable) :
    branchKey o ctx.scale ctx.constraints = branchKey o ctx'.scale ctx'.constraints := by
  simp only [Search.branchKey, joined, h.scale, TextSet.ofList_congr h.namespaces,
    TextSet.ofList_congr h.projects]

theorem Alike.lookup {ctx ctx' : Context α} (h : Alike ctx ctx') (sources : Sources α)
    (o : Observable) (remainder : Coverage α) :
    Candidate.lookup sources o ctx remainder = Candidate.lookup sources o ctx' remainder := by
  simp only [Candidate.lookup, screen_congr rfl h.excluded h.pinned, ofModel?_congr h]

variable (sources : Sources α) (limits : Limits α)

theorem candidates_unbiased {deeper : Searcher α} (hdeep : Unbiased deeper) :
    Unbiased (candidates sources limits deeper) := by
  intro o ctx ctx' s h
  simp only [candidates, h.lookup, tryAll_alike hdeep h, h.scale]

theorem branch_unbiased (remaining : Nat) : Unbiased (branch sources limits remaining) := by
  induction remaining with
  | zero =>
    intro o ctx ctx' s h
    simp only [branch, h.scale]
  | succ remaining ih =>
    intro o ctx ctx' s h
    have hcandidates := fun s => candidates_unbiased sources limits ih o s h
    simp only [branch, fresh, kept?, hcandidates, h.branchKey]
    simp only [h.scale]

end Search

/-- What is resolved depends on nothing but the scale of the context, its preferences and what it
excludes and pins. -/
theorem Resolution.resolve_alike (sources : Sources α) (limits : Limits α) (o : Observable)
    {ctx ctx' : Context α} (h : Search.Alike ctx ctx') :
    resolve sources limits o ctx = resolve sources limits o ctx' := by
  simp only [resolve, Search.branch_unbiased sources limits _ o {} h, h.scale]

end Obsplan
