import Obsplan.Candidate

/-!
# Where candidates come from

A candidate is made of a model that the sources offer, and claims of a scale what that model covers.
-/

namespace Obsplan

variable {α : Type} [Coordinate α]

/-- A model is found for some observable. -/
def Sources.Offers (s : Sources α) (m : Model α) : Prop := ∃ o ms, s.models o = .ok ms ∧ m ∈ ms

theorem mem_of_mapM {ε β γ : Type} {f : β → Except ε γ} {xs : List β} {ys : List γ} {y : γ}
    (h : xs.mapM f = .ok ys) (hy : y ∈ ys) : ∃ x ∈ xs, f x = .ok y := by
  induction xs generalizing ys with
  | nil => cases h; cases hy
  | cons x xs ih =>
    rw [List.mapM_cons] at h
    match hx : f x with
    | .error e => rw [hx] at h; cases h
    | .ok z =>
      rw [hx] at h
      match hxs : xs.mapM f with
      | .error e => rw [hxs] at h; cases h
      | .ok zs =>
        rw [hxs] at h
        cases h
        rcases List.mem_cons.mp hy with rfl | hy
        · exact ⟨x, List.mem_cons_self, hx⟩
        · obtain ⟨x', hx', hfx'⟩ := ih hxs hy
          exact ⟨x', List.mem_cons_of_mem _ hx', hfx'⟩

/-- What succeeds under a changed error succeeds without the change. -/
theorem ok_of_mapError {ε ε' β : Type} {x : Except ε β} {f : ε → ε'} {b : β}
    (h : x.mapError f = .ok b) : x = .ok b := by
  cases x with
  | error e => cases h
  | ok b' =>
    cases h
    rfl

namespace Candidate

variable {s : Sources α} {o : Observable} {ctx : Context α} {models : List (Model α × Bool)}
  {f : Model α × Bool}

theorem offers_of_found (h : found s o = .ok models) (hf : f ∈ models) : s.Offers f.1 := by
  simp only [found] at h
  match hown : s.models o with
  | .error e => rw [hown] at h; cases h
  | .ok own =>
    rw [hown] at h
    have hfirst : ∀ m ∈ own, s.Offers m := fun m hm => ⟨o, own, hown, hm⟩
    match hm : o.mode with
    | .exact =>
      rw [hm] at h
      cases h
      rcases List.mem_append.mp hf with hf | hf
      · obtain ⟨m, hm, rfl⟩ := List.mem_map.mp hf
        exact hfirst m hm
      · simp at hf
    | .any =>
      rw [hm] at h
      match hbelow : s.below o.concept with
      | .error e => simp only [hbelow] at h; cases h
      | .ok concepts =>
        simp only [hbelow] at h
        match hothers : concepts.mapM fun concept =>
            s.models { concept, collective := o.collective } with
        | .error e =>
          simp only [bind, Except.bind] at h hothers
          rw [hothers] at h
          cases h
        | .ok others =>
          simp only [bind, Except.bind] at h hothers
          rw [hothers] at h
          cases h
          rcases List.mem_append.mp hf with hf | hf
          · obtain ⟨m, hm, rfl⟩ := List.mem_map.mp hf
            exact hfirst m hm
          · obtain ⟨m, hm, rfl⟩ := List.mem_map.mp hf
            obtain ⟨ms, hms, hm⟩ := List.mem_flatten.mp hm
            obtain ⟨concept, -, hmodels⟩ := mem_of_mapM hothers hms
            exact ⟨_, ms, hmodels, hm⟩

theorem mem_of_mem_distinct {seen : List String} (h : f ∈ distinct seen models) : f ∈ models := by
  induction models generalizing seen with
  | nil => cases h
  | cons first rest ih =>
    simp only [distinct] at h
    split at h
    · exact List.mem_cons_of_mem _ (ih h)
    · rcases List.mem_cons.mp h with rfl | h
      · exact List.mem_cons_self
      · exact List.mem_cons_of_mem _ (ih h)

theorem mem_of_mem_screen {cs : Constraints} (h : f ∈ (screen cs o models).1) : f ∈ models := by
  induction models with
  | nil => cases h
  | cons first rest ih =>
    simp only [screen] at h
    split at h
    · exact List.mem_cons_of_mem _ (ih h)
    · split at h
      · exact List.mem_cons_of_mem _ (ih h)
      · rcases List.mem_cons.mp h with rfl | h
        · exact List.mem_cons_self
        · exact List.mem_cons_of_mem _ (ih h)

/-- A candidate has the model that was found and claims what that covers. -/
theorem of_ofModel? {remainder : Coverage α} {c : Candidate α}
    (h : ofModel? ctx remainder f = some c) :
    c.model = f.1 ∧ c.coverage = f.1.coverageOver ctx.scale := by
  simp only [ofModel?] at h
  split at h
  · cases h
  · cases h
    exact ⟨rfl, rfl⟩

theorem mem_lookup {remainder : Coverage α} {found : Candidates α} {c : Candidate α}
    (h : lookup s o ctx remainder = .ok found) (hc : c ∈ found.list) :
    s.Offers c.model ∧ c.coverage = c.model.coverageOver ctx.scale := by
  simp only [lookup, bind, Except.bind] at h
  split at h
  · cases h
  · rename_i models hmodels
    split at h
    · cases h
    · cases h
      obtain ⟨f, hf, hmade⟩ := List.mem_filterMap.mp ((perm_arrange _ _).mem_iff.mp hc)
      have hoffers := offers_of_found hmodels (mem_of_mem_distinct (mem_of_mem_screen hf))
      obtain ⟨hmodel, hcoverage⟩ := of_ofModel? hmade
      rw [hcoverage, hmodel]
      exact ⟨hoffers, rfl⟩

end Candidate

end Obsplan
