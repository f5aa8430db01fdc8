import Obsplan.Proofs.Search.Provenance

/-!
# The roots of resolutions

What a resolution says about itself is what the search of its own observable found, which starts
with nothing on the path and no branch kept: the accepted nodes and the coverage they add up to.
Coverage that is not complete is told.
-/

namespace Obsplan.Search

variable {α : Type} [Coordinate α] {limits : Limits α} {o : Observable} {accepted : List Nat}
  {covered : Coverage α} {s : SearchState α}

/-- Nodes that do not complete the coverage come with a warning. -/
theorem warning_conclude (haccepted : accepted ≠ [])
    (hcovered : covered.isComplete limits.tolerance = false) :
    ∃ n ∈ (conclude limits o accepted covered s).2.notifications, n.level = .warning := by
  have hne : accepted.isEmpty = false := by simpa using haccepted
  simp only [conclude, hne, hcovered, Bool.false_eq_true, if_false]
  exact ⟨_, List.mem_append_right _ List.mem_cons_self, rfl⟩

end Obsplan.Search

namespace Obsplan.Resolution

open Search

variable {α : Type} [Coordinate α] {sources : Sources α} {limits : Limits α} {o : Observable}
  {ctx : Context α} {r : Resolution α}

/-- A resolution is for what was asked. -/
theorem resolve_asked (h : resolve sources limits o ctx = .ok r) :
    r.observable = o ∧ r.scale = ctx.scale ∧ r.tolerance = limits.tolerance := by
  unfold resolve at h
  cases hb : branch sources limits (limits.maxDepth + 1) o ctx {} with
  | error e =>
    rw [hb] at h
    cases h
  | ok found =>
    rw [hb] at h
    cases h
    exact ⟨rfl, rfl, rfl⟩

/-- The time was up at once, or the candidates were tried. -/
theorem resolve_tried (h : resolve sources limits o ctx = .ok r) :
    r.roots = [] ∧ r.coverage = .empty ctx.scale ∨
      ∃ found s, Candidate.lookup sources o ctx (.remainder ctx.scale (.empty ctx.scale)) = .ok found ∧
        TryRun limits (branch sources limits limits.maxDepth) o ctx found.list [] (.empty ctx.scale)
          (entered limits o ctx found {}) (r.roots, r.coverage) s ∧
        r.nodes = s.nodes ∧
        r.notifications = (conclude limits o r.roots r.coverage s).2.notifications := by
  obtain ⟨b, s, hb, hnodes, hroots, hcoverage, -, hnotifications⟩ := resolve_branch h
  cases branchStep hb with
  | cycle hpath => cases hpath
  | kept _ hk =>
    simp only [kept?] at hk
    split at hk
    · cases hk
    · cases hk
  | late => exact .inl ⟨hroots, hcoverage⟩
  | @searched _ _ _ _ s₁ found accepted covered _ _ hfound hrun =>
    rw [nodes_conclude_fst] at hroots
    rw [coverage_conclude_fst] at hcoverage
    refine .inr ⟨found, s₁, hfound, ?_, by simpa [left] using hnodes, ?_⟩
    · rwa [hroots, hcoverage]
    · rw [hroots, hcoverage]
      exact hnotifications

/-- The roots were accepted for the observable that was asked for, over the scale asked for. -/
theorem resolve_accepted (h : resolve sources limits o ctx = .ok r) :
    Accepted sources r.nodes o ctx r.roots r.coverage := by
  obtain ⟨hroots, hcoverage⟩ | ⟨found, s, hfound, hrun, hnodes, -⟩ := resolve_tried h
  · rw [hroots, hcoverage]
    exact .nil
  · rw [hnodes]
    have hd : Documented sources ctx (entered limits o ctx found {}) :=
      ⟨by simp [entered], by simp [entered, Keyed.empty]⟩
    exact (tryRun_documented (branch_extends sources limits _) (branch_documented sources ctx limits _)
      (entered_sound .start) hd .root (fun c hc => ⟨found, hfound, hc⟩) .nil (by simp) hrun).2

/-- A resolution that found something but is not complete warns. -/
theorem resolve_warns (h : resolve sources limits o ctx = .ok r) (hsome : r.isEmpty = false)
    (hpartial : r.isComplete = false) : ∃ n ∈ r.notifications, n.level = .warning := by
  obtain ⟨-, -, htolerance⟩ := resolve_asked h
  have hroots : r.roots ≠ [] := by simpa [isEmpty] using hsome
  have hcovered : r.coverage.isComplete limits.tolerance = false := by
    simpa [isComplete, hsome, htolerance] using hpartial
  obtain ⟨hnone, -⟩ | ⟨found, s, -, -, -, hnotifications⟩ := resolve_tried h
  · exact absurd hnone hroots
  · rw [hnotifications]
    exact warning_conclude hroots hcovered

end Obsplan.Resolution
