import Mathlib.Logic.Relation
import Obsplan.Proofs.Candidate.Richer
import Obsplan.Resolution.Search

/-!
# Searches with lookups that are not answered

The catalog or the reasoner may fail to answer some lookups. A search either makes none of these and
ends as if there were no trouble, or it ends at once with the failure of the first one.
-/

namespace Obsplan

variable {α : Type} [Coordinate α]

namespace Sources

/-- The second sources answer every lookup as the first ones do, or not at all. -/
structure Interrupted (s s' : Sources α) : Prop where
  models : ∀ o, s'.models o = s.models o ∨ ∃ e, s'.models o = .error e
  below : ∀ concept, s'.below concept = s.below concept ∨ ∃ e, s'.below concept = .error e

theorem interrupted_withoutModelsFor (s : Sources α) (concepts : List Concept) (e : CatalogError) :
    s.Interrupted (s.withoutModelsFor concepts e) where
  models o := by
    unfold withoutModelsFor
    by_cases h : o.concept ∈ concepts
    · exact .inr ⟨e, if_pos h⟩
    · exact .inl (if_neg h)
  below _ := .inl rfl

theorem interrupted_withoutReasoner (s : Sources α) (e : CatalogError) :
    s.Interrupted (s.withoutReasoner e) where
  models _ := .inl rfl
  below _ := .inr ⟨e, rfl⟩

/-- A lookup that is made for the candidates for an observable is not answered. -/
inductive Unanswered (s : Sources α) (o : Observable) : CatalogError → Prop where
  | models {e : CatalogError} : s.models o = .error e → Unanswered s o e
  | below {e : CatalogError} : o.mode = .any → s.below o.concept = .error e → Unanswered s o e
  /-- The models of a concept below that of the observable are not told. -/
  | kind {concepts : List Concept} {concept : Concept} {e : CatalogError} : o.mode = .any →
      s.below o.concept = .ok concepts → concept ∈ concepts →
      s.models { concept, collective := o.collective } = .error e → Unanswered s o e

/-- A model that is found for one observable has another one searched. -/
def Involves (s : Sources α) (o o' : Observable) : Prop :=
  ∃ models, Candidate.found s o = .ok models ∧ ∃ f ∈ models, ∃ d ∈ f.1.dependencies,
    d.deferred = false ∧ d.observable = o'

end Sources

/-! ## Computations that end alike -/

/-- A computation ends as another one does, unless it fails with an error of a kind. -/
def EndsLike {ε β : Type} (P : ε → Prop) (x y : Except ε β) : Prop :=
  x = y ∨ ∃ e, P e ∧ x = .error e

namespace EndsLike

variable {ε ε' β γ : Type} {P Q : ε → Prop} {x y : Except ε β}

theorem refl (P : ε → Prop) (x : Except ε β) : EndsLike P x x := .inl rfl

theorem mono (h : EndsLike P x y) (hpq : ∀ e, P e → Q e) : EndsLike Q x y :=
  h.imp_right fun ⟨e, he, hx⟩ => ⟨e, hpq e he, hx⟩

theorem bind (h : EndsLike P x y) {f g : β → Except ε γ}
    (hfg : ∀ b, x = .ok b → EndsLike P (f b) (g b)) : EndsLike P (x >>= f) (y >>= g) := by
  rcases h with rfl | ⟨e, he, rfl⟩
  · cases x with
    | error e => exact .inl rfl
    | ok b => exact hfg b rfl
  · exact .inr ⟨e, he, rfl⟩

/-- What comes after two computations that end alike does the same with both results. -/
theorem before (h : EndsLike P x y) (f : β → Except ε γ) : EndsLike P (x >>= f) (y >>= f) :=
  h.bind fun _ _ => .refl P _

theorem mapError {R : ε' → Prop} (h : EndsLike P x y) (f : ε → ε') (hf : ∀ e, P e → R (f e)) :
    EndsLike R (x.mapError f) (y.mapError f) := by
  rcases h with rfl | ⟨e, he, rfl⟩
  · exact .refl R _
  · exact .inr ⟨f e, hf e he, rfl⟩

theorem mapM {xs : List γ} {f g : γ → Except ε β} (h : ∀ x ∈ xs, EndsLike P (f x) (g x)) :
    EndsLike P (xs.mapM f) (xs.mapM g) := by
  induction xs with
  | nil => exact .refl P _
  | cons x xs ih =>
    obtain ⟨hx, hxs⟩ := List.forall_mem_cons.mp h
    rw [List.mapM_cons, List.mapM_cons]
    exact hx.bind fun _ _ => (ih hxs).before _

end EndsLike

/-! ## Candidates -/

namespace Candidate

variable {s s' : Sources α}

theorem found_endsLike (h : s.Interrupted s') (o : Observable) :
    EndsLike (s'.Unanswered o) (found s' o) (found s o) := by
  have hown : EndsLike (s'.Unanswered o) (s'.models o) (s.models o) :=
    (h.models o).imp_right fun ⟨e, he⟩ => ⟨e, .models he, he⟩
  refine hown.bind fun own _ => ?_
  cases hmode : o.mode with
  | exact => exact .refl _ _
  | any =>
    have hbelow : EndsLike (s'.Unanswered o) (s'.below o.concept) (s.below o.concept) :=
      (h.below o.concept).imp_right fun ⟨e, he⟩ => ⟨e, .below hmode he, he⟩
    refine hbelow.bind fun concepts hconcepts => EndsLike.before (.mapM fun concept hconcept => ?_) _
    exact (h.models _).imp_right fun ⟨e, he⟩ => ⟨e, .kind hmode hconcepts hconcept he, he⟩

theorem lookup_endsLike (h : s.Interrupted s') (o : Observable) (ctx : Context α)
    (remainder : Coverage α) :
    EndsLike (s'.Unanswered o) (lookup s' o ctx remainder) (lookup s o ctx remainder) :=
  (found_endsLike h o).before _

end Candidate

namespace Search

/-! ## Searches -/

/-- The failure of a lookup for an observable, or for one that is searched on its behalf. -/
def Unmet (s : Sources α) (o : Observable) (e : ResolutionError) : Prop :=
  ∃ asked cause, Relation.ReflTransGen s.Involves o asked ∧ s.Unanswered asked cause ∧
    e = .infrastructure asked.text cause

theorem Unmet.own {s : Sources α} {o : Observable} {cause : CatalogError}
    (h : s.Unanswered o cause) : Unmet s o (.infrastructure o.text cause) :=
  ⟨o, cause, .refl, h, rfl⟩

theorem Unmet.involved {s : Sources α} {o o' : Observable} {e : ResolutionError}
    (h : s.Involves o o') (he : Unmet s o' e) : Unmet s o e := by
  obtain ⟨asked, cause, hasked, hcause, rfl⟩ := he
  exact ⟨asked, cause, .head h hasked, hcause, rfl⟩

/-- Two searchers end alike unless the first one fails with an error that belongs to what is
searched. -/
def SearchAlike (P : Observable → ResolutionError → Prop) (deeper deeper' : Searcher α) : Prop :=
  ∀ o ctx s, EndsLike (P o) (deeper o ctx s) (deeper' o ctx s)

section steps

variable {P : Observable → ResolutionError → Prop} {Q : ResolutionError → Prop}
  {deeper deeper' : Searcher α} (hdeep : SearchAlike P deeper deeper') {m : Model α}
  {o : Observable} {ctx : Context α} {s : SearchState α}

include hdeep

theorem linkDependency_endsLike {d : Dependency α} {coverage : Coverage α}
    (hd : d.deferred = false → ∀ e, P d.observable e → Q e) :
    EndsLike Q (linkDependency deeper m o ctx d coverage s)
      (linkDependency deeper' m o ctx d coverage s) := by
  unfold linkDependency
  simp only
  split
  · exact .refl Q _
  · rename_i hsearched
    exact ((hdeep _ _ _).mono (hd (by simpa using hsearched))).before _

theorem linkAll_endsLike {ds : List (Dependency α)} {links : List Link} {coverage : Coverage α}
    (hds : ∀ d ∈ ds, d.deferred = false → ∀ e, P d.observable e → Q e) :
    EndsLike Q (linkAll deeper m o ctx ds links coverage s)
      (linkAll deeper' m o ctx ds links coverage s) := by
  induction ds generalizing links coverage s with
  | nil => exact .refl Q _
  | cons d ds ih =>
    obtain ⟨hd, hds⟩ := List.forall_mem_cons.mp hds
    refine (linkDependency_endsLike hdeep hd).bind fun linked _ => ?_
    obtain ⟨_ | ⟨link, coverage₁⟩, s₁⟩ := linked
    · exact .refl Q _
    · exact ih hds

theorem tryCandidate_endsLike {c : Candidate α}
    (hc : ∀ d ∈ c.model.dependencies, d.deferred = false → ∀ e, P d.observable e → Q e) :
    EndsLike Q (tryCandidate deeper o ctx c s) (tryCandidate deeper' o ctx c s) :=
  (linkAll_endsLike hdeep hc).before _

theorem tryAll_endsLike {limits : Limits α} {cs : List (Candidate α)} {accepted : List Nat}
    {covered : Coverage α} (hcs : ∀ c ∈ cs, ∀ d ∈ c.model.dependencies, d.deferred = false →
      ∀ e, P d.observable e → Q e) :
    EndsLike Q (tryAll limits deeper o ctx cs accepted covered s)
      (tryAll limits deeper' o ctx cs accepted covered s) := by
  induction cs generalizing accepted covered s with
  | nil => exact .refl Q _
  | cons c cs ih =>
    obtain ⟨hc, hcs⟩ := List.forall_mem_cons.mp hcs
    unfold tryAll
    split
    · exact .refl Q _
    · simp only
      split
      · exact .refl Q _
      · split
        · exact ih hcs
        · refine (tryCandidate_endsLike hdeep hc).bind fun tried _ => ?_
          obtain ⟨_ | ⟨id, coverage⟩, s₁⟩ := tried
          · exact ih hcs
          · simp only
            split
            · exact ih hcs
            · exact ih hcs

end steps

variable {sources sources' : Sources α} {limits : Limits α}

/-- What a candidate depends on is searched on behalf of the observable. -/
theorem involves_of_mem_lookup {o : Observable} {ctx : Context α} {remainder : Coverage α}
    {found : Candidates α} (h : Candidate.lookup sources o ctx remainder = .ok found)
    {c : Candidate α} (hc : c ∈ found.list) {d : Dependency α} (hd : d ∈ c.model.dependencies)
    (hsearched : d.deferred = false) : sources.Involves o d.observable := by
  obtain ⟨models, hmodels, hmem⟩ := Candidate.mem_lookup_iff h
  obtain ⟨f, hf, -, hmade⟩ := (hmem c).mp hc
  obtain ⟨hmodel, -⟩ := Candidate.of_ofModel? hmade
  exact ⟨models, hmodels, f, Candidate.mem_of_mem_distinct hf, d, hmodel ▸ hd, hsearched, rfl⟩

theorem candidates_endsLike (h : sources.Interrupted sources') {deeper deeper' : Searcher α}
    (hdeep : SearchAlike (Unmet sources') deeper deeper') :
    SearchAlike (Unmet sources') (candidates sources' limits deeper)
      (candidates sources limits deeper') := by
  intro o ctx s
  have hlookup := (Candidate.lookup_endsLike h o ctx
    (.remainder ctx.scale (.empty ctx.scale))).mapError (ResolutionError.infrastructure o.text)
      fun _ he => Unmet.own he
  refine hlookup.bind fun found hfound => EndsLike.before (tryAll_endsLike hdeep ?_) _
  exact fun c hc d hd hsearched _ he =>
    he.involved (involves_of_mem_lookup (ok_of_mapError hfound) hc hd hsearched)

/-- A search with failing lookups ends as without them, or with the failure of one of them. -/
theorem branch_endsLike (h : sources.Interrupted sources') (remaining : Nat) :
    SearchAlike (Unmet sources') (branch sources' limits remaining)
      (branch sources limits remaining) := by
  induction remaining with
  | zero =>
    intro o ctx s
    unfold branch
    exact .refl _ _
  | succ remaining ih =>
    intro o ctx s
    unfold branch
    split
    · exact .refl _ _
    · simp only
      split
      · exact .refl _ _
      · split
        · exact .refl _ _
        · exact (candidates_endsLike h ih o ctx _).before _

end Search

end Obsplan
