import Obsplan.Proofs.Search.Steps

/-!
# Searches that end with an answer

A search fails only when a lookup does. Where every lookup is answered, whatever is searched ends
with a branch.
-/

namespace Obsplan.Search

variable {α : Type} [Coordinate α] {sources : Sources α} {limits : Limits α}

/-- A computation ends with a result. -/
def Succeeds {ε β : Type} (x : Except ε β) : Prop := ∃ a, x = .ok a

theorem Succeeds.pure {ε β : Type} (a : β) : Succeeds (.ok a : Except ε β) := ⟨a, rfl⟩

theorem Succeeds.bind {ε β γ : Type} {x : Except ε β} {f : β → Except ε γ} (hx : Succeeds x)
    (hf : ∀ a, Succeeds (f a)) : Succeeds (x >>= f) := by
  obtain ⟨a, rfl⟩ := hx
  exact hf a

/-- A searcher that always ends with a branch. -/
def Total (deeper : Searcher α) : Prop := ∀ o ctx s, Succeeds (deeper o ctx s)

variable {deeper : Searcher α} (hdeep : Total deeper)

include hdeep

theorem linkDependency_succeeds (m : Model α) (o : Observable) (ctx : Context α) (d : Dependency α)
    (coverage : Coverage α) (s : SearchState α) :
    Succeeds (linkDependency deeper m o ctx d coverage s) := by
  unfold linkDependency
  simp only
  split
  · exact .pure _
  · refine .bind (hdeep _ _ _) fun found => ?_
    obtain ⟨b, s₁⟩ := found
    simp only
    split <;> exact .pure _

theorem linkAll_succeeds (m : Model α) (o : Observable) (ctx : Context α)
    (ds : List (Dependency α)) (links : List Link) (coverage : Coverage α) (s : SearchState α) :
    Succeeds (linkAll deeper m o ctx ds links coverage s) := by
  induction ds generalizing links coverage s with
  | nil => exact .pure _
  | cons d ds ih =>
    refine .bind (linkDependency_succeeds hdeep m o ctx d coverage s) fun linked => ?_
    obtain ⟨_ | ⟨link, coverage₁⟩, s₁⟩ := linked
    · exact .pure _
    · exact ih _ _ _

theorem tryCandidate_succeeds (o : Observable) (ctx : Context α) (c : Candidate α)
    (s : SearchState α) : Succeeds (tryCandidate deeper o ctx c s) := by
  refine .bind (linkAll_succeeds hdeep c.model o ctx c.model.dependencies [] c.coverage s) ?_
  rintro ⟨_ | ⟨links, coverage⟩, s₁⟩
  · exact .pure _
  · simp only
    split <;> exact .pure _

theorem tryAll_succeeds (o : Observable) (ctx : Context α) (cs : List (Candidate α))
    (accepted : List Nat) (covered : Coverage α) (s : SearchState α) :
    Succeeds (tryAll limits deeper o ctx cs accepted covered s) := by
  induction cs generalizing accepted covered s with
  | nil => exact .pure _
  | cons c cs ih =>
    unfold tryAll
    split
    · exact .pure _
    · simp only
      split
      · exact .pure _
      · split
        · exact ih _ _ _
        · refine .bind (tryCandidate_succeeds hdeep o ctx c _) fun tried => ?_
          obtain ⟨_ | ⟨id, coverage⟩, s₁⟩ := tried
          · exact ih _ _ _
          · simp only
            split
            · exact ih _ _ _
            · exact ih _ _ _

omit hdeep

theorem branch_total (hlookup : ∀ o ctx remainder,
      ∃ found, Candidate.lookup sources o ctx remainder = .ok found) (remaining : Nat) :
    Total (branch sources limits remaining) := by
  induction remaining with
  | zero =>
    intro o ctx s
    unfold branch
    split <;> exact .pure _
  | succ remaining ih =>
    intro o ctx s
    unfold branch
    split
    · exact .pure _
    · simp only
      split
      · exact .pure _
      · split
        · exact .pure _
        · have hcandidates : ∀ s, Succeeds (candidates sources limits
              (branch sources limits remaining) o ctx s) := by
            intro s
            obtain ⟨found, hfound⟩ := hlookup o ctx (.remainder ctx.scale (.empty ctx.scale))
            unfold candidates
            simp only [hfound]
            exact .bind (.pure _) fun found => .bind (tryAll_succeeds ih o ctx _ _ _ _) fun _ =>
              .pure _
          refine .bind (hcandidates _) fun found => ?_
          obtain ⟨b, s₁⟩ := found
          simp only
          split <;> exact .pure _

end Obsplan.Search
