import Obsplan.Proofs.Search.Keys
import Obsplan.Proofs.Search.Steps

/-!
# Preferences in contexts

The preferences of a model are added to those of a context; what the context excludes and pins stays
as it is. Contexts that differ in nothing the ranking of candidates looks at are interchangeable.
-/

namespace Obsplan

/-! ## Layers of constraints -/

theorem Value.beq_text {v : Value} {t : String} : (v == .text t) = true ↔ v = .text t := by
  change Value.same v (.text t) = true ↔ _
  cases v <;> simp [Value.same]

theorem Constraint.text_mem_joinValues {values others : List Value} {t : String} :
    Value.text t ∈ joinValues values others ↔ Value.text t ∈ values ∨ Value.text t ∈ others := by
  induction others generalizing values with
  | nil => simp [joinValues]
  | cons v vs ih =>
    have hstep : Value.text t ∈ (if values.any (· == v) then values else values ++ [v]) ↔
        Value.text t ∈ values ∨ Value.text t = v := by
      split
      · rename_i hany
        refine ⟨.inl, fun h => h.elim id ?_⟩
        rintro rfl
        obtain ⟨w, hw, hsame⟩ := List.any_eq_true.mp hany
        exact Value.beq_text.mp hsame ▸ hw
      · simp
    have hjoin : joinValues values (v :: vs) =
        joinValues (if values.any (· == v) then values else values ++ [v]) vs := rfl
    rw [hjoin, ih, hstep, List.mem_cons, or_assoc]

theorem Constraint.name_join (c d : Constraint) : (c.join d).name = c.name := by
  unfold join
  split <;> rfl

namespace Constraints

variable {cs : Constraints} {c : Constraint} {list : List Constraint} {name t : String}

theorem mem_texts : t ∈ cs.texts name ↔ Value.text t ∈ cs.values name := by
  simp only [texts, List.mem_filterMap]
  constructor
  · rintro ⟨v, hv, ht⟩
    cases v <;> simp only [Value.asText?, reduceCtorEq, Option.some.injEq] at ht
    exact ht ▸ hv
  · exact fun h => ⟨.text t, h, rfl⟩

theorem name_of_get? {d : Constraint} (h : cs.get? name = some d) : d.name = name := by
  simpa using List.find?_some h

/-- What is given for a name is joined by what is added under that name. -/
theorem get?_add (cs : Constraints) (c : Constraint) (name : String) : (cs.add c).get? name =
    if c.name = name then some ((cs.get? name).elim c (·.join c)) else cs.get? name := by
  obtain ⟨cs⟩ := cs
  simp only [get?, add]
  induction cs with
  | nil => simp [addIn]
  | cons d ds ih =>
    by_cases hd : d.name = c.name
    · by_cases hname : c.name = name <;> simp [addIn, hd, Constraint.name_join, hname]
    · rw [addIn, if_neg hd]
      by_cases hname : d.name = name
      · have hne : c.name ≠ name := fun h => hd (hname.trans h.symm)
        simp [hname, hne]
      · simpa [hname] using ih

theorem get?_add_of_ne (h : c.name ≠ name) : (cs.add c).get? name = cs.get? name := by
  rw [get?_add, if_neg h]

theorem values_add_of_ne (h : c.name ≠ name) : (cs.add c).values name = cs.values name := by
  simp only [values, get?_add_of_ne h]

/-- Texts are added to those of the same name, unless only one value is kept. -/
theorem mem_texts_add (h : Constraint.isSingle name = false) :
    t ∈ (cs.add c).texts name ↔ t ∈ cs.texts name ∨ c.name = name ∧ Value.text t ∈ c.values := by
  rw [mem_texts, mem_texts, values, values, get?_add]
  by_cases hc : c.name = name
  · cases hget : cs.get? name with
    | none => simp [hc]
    | some d =>
      have hd : d.name = name := name_of_get? hget
      simp [hc, Constraint.join, hd, h, Constraint.text_mem_joinValues]
  · simp [hc]

theorem values_foldl_add (h : ∀ c ∈ list, c.name ≠ name) :
    (list.foldl add cs).values name = cs.values name := by
  induction list generalizing cs with
  | nil => rfl
  | cons c list ih =>
    obtain ⟨hc, hlist⟩ := List.forall_mem_cons.mp h
    rw [List.foldl_cons, ih hlist, values_add_of_ne hc]

theorem mem_texts_foldl_add (h : Constraint.isSingle name = false) :
    t ∈ (list.foldl add cs).texts name ↔
      t ∈ cs.texts name ∨ ∃ c ∈ list, c.name = name ∧ Value.text t ∈ c.values := by
  induction list generalizing cs with
  | nil => simp
  | cons c list ih =>
    rw [List.foldl_cons, ih, mem_texts_add h, List.exists_mem_cons_iff, or_assoc]

end Constraints

/-! ## What a model prefers -/

/-- The models found for an observable depend on its concept and on whether it is collective. -/
def Sources.Semantic {α : Type} [Coordinate α] (s : Sources α) : Prop :=
  ∀ {o o' : Observable}, o.concept = o'.concept → o.collective = o'.collective →
    s.models o = s.models o'

theorem Sources.semantic_ofCatalog {α : Type} [Coordinate α] (c : Catalog α) (t : Taxonomy) :
    (ofCatalog c t).Semantic := by
  intro o o' hconcept hcollective
  have hproduces : ∀ m : Model α, m.produces o = m.produces o' := by
    intro m
    simp only [Model.produces, Observable.sameSemantics, hconcept, hcollective]
  simp only [ofCatalog, Catalog.modelsFor, hconcept, hproduces]

/-- The names that a model hands down to its dependencies are plain, or missing. -/
def Model.HandsDownPlain {α : Type} [Coordinate α] (m : Model α) : Prop :=
  (m.space = "" ∨ Search.IsPlain m.space) ∧ ∀ p ∈ m.project, Search.IsPlain p

namespace Search

variable {α : Type} [Coordinate α] {m : Model α} {cs : Constraints}

theorem toList_preferences (m : Model α) : (preferences m).toList =
    (if m.space.isEmpty then [] else [.preferNamespace m.space]) ++
      (match m.project with | some p => [.preferProject p] | none => []) := by
  have hne : Constraint.namespaceName ≠ Constraint.projectName := by decide
  unfold preferences
  cases m.project <;> by_cases hs : m.space.isEmpty <;>
    simp [hs, Constraints.ofList, Constraints.empty, Constraints.add, Constraints.addIn,
      Constraint.preferNamespace, Constraint.preferProject, hne]

theorem mem_preferences {c : Constraint} : c ∈ (preferences m).toList ↔
    m.space ≠ "" ∧ c = .preferNamespace m.space ∨ ∃ p ∈ m.project, c = .preferProject p := by
  rw [toList_preferences]
  cases m.project <;> by_cases hs : m.space = "" <;> simp [hs]

theorem mem_namespaces_merge {n : String} :
    n ∈ (cs.merge (preferences m)).preferredNamespaces ↔
      n ∈ cs.preferredNamespaces ∨ m.space ≠ "" ∧ n = m.space := by
  have hne : Constraint.projectName ≠ Constraint.namespaceName := by decide
  simp only [Constraints.preferredNamespaces, Constraints.merge]
  rw [Constraints.mem_texts_foldl_add (by decide)]
  refine or_congr_right ⟨?_, ?_⟩
  · rintro ⟨c, hc, hname, hvalue⟩
    rcases mem_preferences.mp hc with ⟨hs, rfl⟩ | ⟨p, -, rfl⟩
    · exact ⟨hs, by simpa [Constraint.preferNamespace] using hvalue⟩
    · exact absurd hname hne
  · rintro ⟨hs, rfl⟩
    exact ⟨_, mem_preferences.mpr (.inl ⟨hs, rfl⟩), rfl, by simp [Constraint.preferNamespace]⟩

theorem mem_projects_merge {p : String} :
    p ∈ (cs.merge (preferences m)).preferredProjects ↔
      p ∈ cs.preferredProjects ∨ m.project = some p := by
  have hne : Constraint.namespaceName ≠ Constraint.projectName := by decide
  simp only [Constraints.preferredProjects, Constraints.merge]
  rw [Constraints.mem_texts_foldl_add (by decide)]
  refine or_congr_right ⟨?_, ?_⟩
  · rintro ⟨c, hc, hname, hvalue⟩
    rcases mem_preferences.mp hc with ⟨-, rfl⟩ | ⟨q, hq, rfl⟩
    · exact absurd hname hne
    · have : p = q := by simpa [Constraint.preferProject] using hvalue
      exact this ▸ hq
  · intro hp
    exact ⟨_, mem_preferences.mpr (.inr ⟨p, hp, rfl⟩), rfl, by simp [Constraint.preferProject]⟩

/-- What holds of the preferred names holds of them below a model, if it does of its own. -/
theorem forall_namespaces_inner {P : String → Prop} {ctx : Context α}
    (h : ∀ n ∈ ctx.constraints.preferredNamespaces, P n) (hm : m.space = "" ∨ P m.space)
    (d : Dependency α) : ∀ n ∈ (inner m ctx d).constraints.preferredNamespaces, P n := by
  intro n hn
  rcases mem_namespaces_merge.mp hn with hn | ⟨hs, rfl⟩
  · exact h n hn
  · exact hm.resolve_left hs

theorem forall_projects_inner {P : String → Prop} {ctx : Context α}
    (h : ∀ p ∈ ctx.constraints.preferredProjects, P p) (hm : ∀ p ∈ m.project, P p)
    (d : Dependency α) : ∀ p ∈ (inner m ctx d).constraints.preferredProjects, P p := by
  intro p hp
  rcases mem_projects_merge.mp hp with hp | hp
  · exact h p hp
  · exact hm p hp

/-- Only namespaces and projects are preferred. -/
theorem values_merge_preferences {name : String} (hn : name ≠ Constraint.namespaceName)
    (hp : name ≠ Constraint.projectName) :
    (cs.merge (preferences m)).values name = cs.values name := by
  refine Constraints.values_foldl_add fun c hc => ?_
  rcases mem_preferences.mp hc with ⟨-, rfl⟩ | ⟨p, -, rfl⟩
  · exact hn.symm
  · exact hp.symm

theorem excludedModels_merge :
    (cs.merge (preferences m)).excludedModels = cs.excludedModels := by
  simp only [Constraints.excludedModels, Constraints.texts]
  rw [values_merge_preferences (by decide) (by decide)]

theorem pinnedVersion?_merge :
    (cs.merge (preferences m)).pinnedVersion? = cs.pinnedVersion? := by
  funext urn
  simp only [Constraints.pinnedVersion?, Constraints.texts]
  rw [values_merge_preferences (by decide) (by decide)]

/-! ## Contexts that rank alike -/

/-- Two contexts agree on all that candidates are screened and ranked by. -/
structure Alike (ctx ctx' : Context α) : Prop where
  scale : ctx.scale = ctx'.scale
  namespaces : ∀ n, n ∈ ctx.constraints.preferredNamespaces ↔
    n ∈ ctx'.constraints.preferredNamespaces
  projects : ∀ p, p ∈ ctx.constraints.preferredProjects ↔ p ∈ ctx'.constraints.preferredProjects
  excluded : ctx.constraints.excludedModels = ctx'.constraints.excludedModels
  pinned : ctx.constraints.pinnedVersion? = ctx'.constraints.pinnedVersion?

theorem Alike.inner {ctx ctx' : Context α} (h : Alike ctx ctx') (m : Model α) (d : Dependency α) :
    Alike (inner m ctx d) (inner m ctx' d) where
  scale := by simp [Search.inner, Context.atScale, h.scale]
  namespaces n := mem_namespaces_merge.trans ((or_congr_left (h.namespaces n)).trans
    mem_namespaces_merge.symm)
  projects p := mem_projects_merge.trans ((or_congr_left (h.projects p)).trans
    mem_projects_merge.symm)
  excluded := excludedModels_merge.trans (h.excluded.trans excludedModels_merge.symm)
  pinned := pinnedVersion?_merge.trans (h.pinned.trans pinnedVersion?_merge.symm)

theorem Alike.prefers {ctx ctx' : Context α} (h : Alike ctx ctx') (m : Model α) :
    Candidate.prefers ctx.constraints m = Candidate.prefers ctx'.constraints m := by
  have hn : ctx.constraints.preferredNamespaces.contains m.space =
      ctx'.constraints.preferredNamespaces.contains m.space := by
    rw [Bool.eq_iff_iff, List.contains_iff_mem, List.contains_iff_mem]
    exact h.namespaces m.space
  have hp : ∀ p, ctx.constraints.preferredProjects.contains p =
      ctx'.constraints.preferredProjects.contains p := by
    intro p
    rw [Bool.eq_iff_iff, List.contains_iff_mem, List.contains_iff_mem]
    exact h.projects p
  simp only [Candidate.prefers, hn, hp]

/-! ## Candidates of contexts that rank alike -/

theorem found_congr {sources : Sources α} (hs : sources.Semantic) {o o' : Observable}
    (h : o.key = o'.key) : Candidate.found sources o = Candidate.found sources o' := by
  obtain ⟨hconcept, hcollective, hmode⟩ := Observable.key_injective h
  simp only [Candidate.found, hs hconcept hcollective, hconcept, hcollective, hmode]

theorem screen_congr {cs cs' : Constraints} {o o' : Observable} (h : o.key = o'.key)
    (he : cs.excludedModels = cs'.excludedModels) (hp : cs.pinnedVersion? = cs'.pinnedVersion?)
    (models : List (Model α × Bool)) :
    Candidate.screen cs o models = Candidate.screen cs' o' models := by
  obtain ⟨hconcept, hcollective, -⟩ := Observable.key_injective h
  have hurn : o.urn = o'.urn := by simp only [Observable.urn, hconcept, hcollective]
  have hpin : ∀ m : Model α, Candidate.pinTrouble? cs m = Candidate.pinTrouble? cs' m := by
    intro m
    simp only [Candidate.pinTrouble?, hp]
  induction models with
  | nil => rfl
  | cons first rest ih =>
    obtain ⟨m, isExact⟩ := first
    simp only [Candidate.screen, ih, he, hpin, hurn]

theorem ofModel?_congr {ctx ctx' : Context α} (h : Alike ctx ctx') (remainder : Coverage α) :
    Candidate.ofModel? ctx remainder = Candidate.ofModel? ctx' remainder := by
  funext found
  simp only [Candidate.ofModel?, h.scale, h.prefers]

theorem lookup_congr {sources : Sources α} (hs : sources.Semantic) {o o' : Observable}
    {ctx ctx' : Context α} (hkey : o.key = o'.key) (h : Alike ctx ctx') (remainder : Coverage α) :
    Candidate.lookup sources o ctx remainder = Candidate.lookup sources o' ctx' remainder := by
  simp only [Candidate.lookup, found_congr hs hkey, screen_congr hkey h.excluded h.pinned,
    ofModel?_congr h]

/-! ## Contexts of a search -/

/-- A context that a search reaches from another one, when all names handed down are plain. -/
structure Follows (root ctx : Context α) : Prop where
  plain : Plain ctx.constraints
  excluded : ctx.constraints.excludedModels = root.constraints.excludedModels
  pinned : ctx.constraints.pinnedVersion? = root.constraints.pinnedVersion?

theorem Follows.inner {root ctx : Context α} (h : Follows root ctx) (hm : m.HandsDownPlain)
    (d : Dependency α) : Follows root (inner m ctx d) where
  plain := ⟨forall_namespaces_inner h.plain.namespaces hm.1 d,
    forall_projects_inner h.plain.projects hm.2 d⟩
  excluded := excludedModels_merge.trans h.excluded
  pinned := pinnedVersion?_merge.trans h.pinned

/-- In a search, what is kept under the same key is ranked alike. -/
theorem Follows.alike [LegibleCoordinate α] {root ctx ctx' : Context α} {o o' : Observable}
    (h : Follows root ctx) (h' : Follows root ctx')
    (hkey : branchKey o ctx.scale ctx.constraints = branchKey o' ctx'.scale ctx'.constraints) :
    o.key = o'.key ∧ Alike ctx ctx' := by
  obtain ⟨hkey, hscale, hprefs⟩ := branchKey_injective hkey
  obtain ⟨hn, hp⟩ := preferenceKey_injective h.plain h'.plain hprefs
  exact ⟨hkey, hscale, hn, hp, h.excluded.trans h'.excluded.symm, h.pinned.trans h'.pinned.symm⟩

end Search

end Obsplan
