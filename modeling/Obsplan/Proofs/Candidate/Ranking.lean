import Obsplan.Proofs.Candidate.Order
import Obsplan.Proofs.Catalog.Index
import Obsplan.Proofs.Resolution.Coverage
import Obsplan.Proofs.Resolution.Screening
import Obsplan.Proofs.Search.Exact
import Obsplan.Proofs.Taxonomy.Order

/-!
# Ranked candidates

A lookup in a catalog and a taxonomy finds every model that answers the observable, once, drops
those that the context does not allow or that have nothing to add, and ranks the others. How the
catalog and the taxonomy were filled does not show.
-/

namespace Obsplan

open Relation

variable {α : Type} [Coordinate α]

namespace Model

variable {m : Model α} {o : Observable}

/-- A model makes something of a concept, for one thing or for a population. -/
def Makes (m : Model α) (concept : Concept) (collective : Bool) : Prop :=
  ∃ o ∈ m.observables, o.concept = concept ∧ o.collective = collective

/-- A model makes what an observable asks for or, where any match will do, something strictly below
its concept. -/
def Answers (m : Model α) (t : Taxonomy) (o : Observable) : Prop :=
  m.Makes o.concept o.collective ∨
    o.mode = .any ∧ ∃ concept, TransGen t.IsA concept o.concept ∧ m.Makes concept o.collective

theorem produces_iff : m.produces o = true ↔ m.Makes o.concept o.collective := by
  simp [produces, Makes, Observable.sameSemantics]

end Model

theorem Constraints.Allows.admitted {cs : Constraints} {m : Model α} (h : cs.Allows m) :
    Candidate.Admitted cs m where
  left := by
    rw [← Bool.not_eq_true]
    exact fun hexcluded => h.included (List.contains_iff_mem.mp hexcluded)
  right := by
    unfold Candidate.pinTrouble?
    cases hpin : cs.pinnedVersion? m.urn with
    | none => rfl
    | some pin => simp [h.pinned pin hpin]

namespace Candidate

variable {c : Catalog α} {t : Taxonomy} {facts : List (Concept × Concept)} {o : Observable}
  {ctx : Context α} {remainder : Coverage α} {f : Model α × Bool}
  {models first rest : List (Model α × Bool)} {seen : List String}

/-! ## Models once each -/

theorem notMem_of_mem_distinct (h : f ∈ distinct seen models) : f.1.urn ∉ seen := by
  induction models generalizing seen with
  | nil => cases h
  | cons g models ih =>
    simp only [distinct] at h
    split at h
    · exact ih h
    · rename_i hnew
      rcases List.mem_cons.mp h with rfl | h
      · exact hnew
      · exact fun hseen => ih h (List.mem_cons_of_mem _ hseen)

theorem nodup_distinct (seen : List String) (models : List (Model α × Bool)) :
    ((distinct seen models).map (·.1.urn)).Nodup := by
  induction models generalizing seen with
  | nil => exact List.nodup_nil
  | cons g models ih =>
    simp only [distinct]
    split
    · exact ih seen
    · rw [List.map_cons, List.nodup_cons]
      refine ⟨fun hmem => ?_, ih _⟩
      obtain ⟨f, hf, hurn⟩ := List.mem_map.mp hmem
      exact notMem_of_mem_distinct hf (hurn ▸ List.mem_cons_self)

/-- A model of a later list stays only when no model of the first one has its name. -/
theorem mem_distinct_append (h : f ∈ distinct seen (first ++ rest)) :
    f ∈ first ∨ f ∈ rest ∧ ∀ g ∈ first, g.1.urn ≠ f.1.urn := by
  induction first generalizing seen with
  | nil => exact .inr ⟨mem_of_mem_distinct h, by simp⟩
  | cons g first ih =>
    have hnot : f.1.urn ∉ seen := notMem_of_mem_distinct h
    simp only [List.cons_append, distinct] at h
    split at h
    · rename_i hseen
      refine (ih h).imp (List.mem_cons_of_mem _) (And.imp_right fun hfirst => ?_)
      exact List.forall_mem_cons.mpr ⟨fun heq => hnot (heq ▸ hseen), hfirst⟩
    · rcases List.mem_cons.mp h with rfl | h
      · exact .inl List.mem_cons_self
      · have hne : f.1.urn ∉ g.1.urn :: seen := notMem_of_mem_distinct h
        refine (ih h).imp (List.mem_cons_of_mem _) (And.imp_right fun hfirst => ?_)
        exact List.forall_mem_cons.mpr ⟨fun heq => hne (heq ▸ List.mem_cons_self), hfirst⟩

theorem screen_sublist (cs : Constraints) (o : Observable) (models : List (Model α × Bool)) :
    (screen cs o models).1.Sublist models := by
  induction models with
  | nil => exact .slnil
  | cons f models ih =>
    simp only [screen]
    split
    · exact ih.cons f
    · split
      · exact ih.cons f
      · exact ih.cons_cons f

theorem urns_ofModel?_sublist (models : List (Model α × Bool)) :
    ((models.filterMap (ofModel? ctx remainder)).map (·.model.urn)).Sublist
      (models.map (·.1.urn)) := by
  induction models with
  | nil => exact .slnil
  | cons f models ih =>
    rw [List.filterMap_cons]
    split
    · exact ih.cons _
    · rename_i k hk
      rw [List.map_cons, List.map_cons, (of_ofModel? hk).1]
      exact ih.cons_cons _

/-! ## Models found in a catalog -/

/-- What makes up the found models: those of the observable itself, and those of the concepts
below. -/
theorem found_ofCatalog (c : Catalog α) (t : Taxonomy) (o : Observable) :
    ∃ others : List (Model α), found (.ofCatalog c t) o =
        .ok ((c.modelsFor o).map (·, true) ++ others.map (·, false)) ∧
      ∀ m, m ∈ others ↔ o.mode = .any ∧ ∃ concept ∈ t.below o.concept,
        m ∈ c.modelsFor { concept, collective := o.collective } := by
  cases hmode : o.mode with
  | exact =>
    refine ⟨[], ?_, by simp⟩
    rw [found_exact rfl hmode]
    simp
  | any =>
    have hothers : (t.below o.concept).mapM (fun concept =>
        (Sources.ofCatalog c t).models { concept, collective := o.collective }) = .ok
        ((t.below o.concept).map fun concept =>
          c.modelsFor { concept, collective := o.collective }) := List.mapM_pure ..
    exact ⟨_, found_any rfl hmode rfl hothers, by simp⟩

/-- The found models are stored ones that answer the observable, and they are marked when they make
just what it asks for. -/
theorem mem_distinct_found (hc : c.Filled) (ht : t.Holds facts)
    (hfound : found (.ofCatalog c t) o = .ok models) :
    (∀ m, (∃ f ∈ distinct [] models, f.1 = m) ↔
      c.models.get? m.urn = some m ∧ m.Answers t o) ∧
    ∀ f ∈ distinct [] models, f.2 = true ↔ f.1.Makes o.concept o.collective := by
  obtain ⟨others, hmodels, hothers⟩ := found_ofCatalog c t o
  cases hfound.symm.trans hmodels
  have hindexed := hc.indexed
  have hbelow : ∀ concept, concept ∈ t.below o.concept ↔ TransGen t.IsA concept o.concept :=
    fun concept => (Taxonomy.mem_below ht.sound).trans ht.transGen_iff.symm
  have hown : ∀ m, m ∈ c.modelsFor o ↔
      c.models.get? m.urn = some m ∧ m.Makes o.concept o.collective := fun m => by
    rw [hindexed.mem_modelsFor_iff, Model.produces_iff]
  have hmem : ∀ m, (∃ b, (m, b) ∈ (c.modelsFor o).map (·, true) ++ others.map (·, false)) ↔
      c.models.get? m.urn = some m ∧ m.Answers t o := by
    intro m
    simp only [List.mem_append, List.mem_map, Prod.mk.injEq, hown, hothers, hbelow,
      hindexed.mem_modelsFor_iff, Model.produces_iff, Model.Answers]
    grind
  constructor
  · intro m
    rw [← hmem]
    constructor
    · rintro ⟨f, hf, rfl⟩
      exact ⟨f.2, mem_of_mem_distinct hf⟩
    · rintro ⟨b, hb⟩
      obtain ⟨g, hg, hurn⟩ := exists_mem_distinct hb (List.not_mem_nil)
      -- two stored models of one name are the same
      have hstored : c.models.get? g.1.urn = some g.1 :=
        ((hmem g.1).mp ⟨g.2, mem_of_mem_distinct hg⟩).1
      rw [hurn, ((hmem m).mp ⟨b, hb⟩).1] at hstored
      exact ⟨g, hg, (Option.some.inj hstored).symm⟩
  · intro f hf
    have hstored : c.models.get? f.1.urn = some f.1 :=
      ((hmem f.1).mp ⟨f.2, mem_of_mem_distinct hf⟩).1
    rcases mem_distinct_append hf with hfirst | ⟨hrest, hnone⟩
    · obtain ⟨m, hm, rfl⟩ := List.mem_map.mp hfirst
      exact iff_of_true rfl ((hown m).mp hm).2
    · obtain ⟨m, -, rfl⟩ := List.mem_map.mp hrest
      refine iff_of_false Bool.false_ne_true fun hmakes => ?_
      exact hnone (m, true) (List.mem_map_of_mem ((hown m).mpr ⟨hstored, hmakes⟩)) rfl

/-! ## Lookups -/

theorem lookup_ofCatalog (hc : c.Filled) (t : Taxonomy) (o : Observable) (ctx : Context α)
    (remainder : Coverage α) : ∃ models, found (.ofCatalog c t) o = .ok models ∧
      ∃ notifications, lookup (.ofCatalog c t) o ctx remainder = .ok
        ⟨arrange precedes ((screen ctx.constraints o (distinct [] models)).1.filterMap
          (ofModel? ctx remainder)), notifications⟩ := by
  obtain ⟨result, hresult⟩ := exists_lookup (Sources.reliable_ofCatalog hc t) o ctx remainder
  have hlookup := hresult
  simp only [lookup, bind, Except.bind] at hresult
  split at hresult
  · cases hresult
  · rename_i models hmodels
    split at hresult
    · cases hresult
    · cases hresult
      exact ⟨models, hmodels, _, hlookup⟩

/-- Where models are stored alike and facts are alike, lookups end alike. -/
theorem lookup_ofCatalog_congr {c' : Catalog α} {t' : Taxonomy} (hc : c.Filled) (hc' : c'.Filled)
    (ht : t.Sound) (ht' : t'.Sound) (hmodels : ∀ urn, c.models.get? urn = c'.models.get? urn)
    (hfacts : ∀ k p, t.IsA k p ↔ t'.IsA k p) :
    lookup (.ofCatalog c t) o ctx remainder = lookup (.ofCatalog c' t') o ctx remainder := by
  have hfound : found (.ofCatalog c t) o = found (.ofCatalog c' t') o := by
    have hm : (Sources.ofCatalog c t).models = (Sources.ofCatalog c' t').models :=
      funext fun o => congrArg Except.ok (hc.indexed.modelsFor_congr hc'.indexed hmodels o)
    have hb : (Sources.ofCatalog c t).below = (Sources.ofCatalog c' t').below :=
      funext fun g => congrArg Except.ok (Taxonomy.below_congr ht ht' hfacts g)
    simp only [found, hm, hb]
  simp only [lookup, hfound]

theorem prefers_iff {cs : Constraints} {m : Model α} : prefers cs m = true ↔
    m.space ∈ cs.preferredNamespaces ∨ ∃ p ∈ m.project, p ∈ cs.preferredProjects := by
  rw [prefers, Bool.or_eq_true, List.contains_iff_mem]
  cases m.project <;> simp

variable [LawfulCoordinate α]

/-- A model can add to a remainder when it applies at some point of it. -/
theorem ofModel?_isSome : (∃ k, ofModel? ctx remainder f = some k) ↔
    ∃ p ∈ f.1.domain ctx.scale, p ∈ Coverage.readings ctx.scale remainder.shapes := by
  have hover : (f.1.coverageOver ctx.scale).Over ctx.scale := Model.over_coverageOver
  obtain ⟨-, -, hmem⟩ := Coverage.intersect_spec hover.proper remainder
  have hpoints : ((f.1.coverageOver ctx.scale).intersect remainder).isEmpty = true ↔
      ∀ p ∈ f.1.domain ctx.scale, p ∉ Coverage.readings ctx.scale remainder.shapes := by
    rw [Coverage.isEmpty_iff]
    simp only [hmem, hover.scale_eq, Model.region_coverageOver, not_and]
    exact Iff.rfl
  simp only [ofModel?]
  split
  · rename_i hempty
    refine iff_of_false (by simp) ?_
    rintro ⟨p, hp, hin⟩
    exact hpoints.mp hempty p hp hin
  · rename_i hmeets
    refine iff_of_true ⟨_, rfl⟩ (Classical.byContradiction fun hnone => hmeets (hpoints.mpr ?_))
    exact fun p hp hin => hnone ⟨p, hp, hin⟩

/-- The candidates of a lookup are the models that answer the observable, are allowed and apply
somewhere in the remainder, in the order of their ranks, however the catalog and the taxonomy were
filled. -/
theorem lookup_ranks (ms : List (Model α)) (isStrict : Bool) (edits : List Taxonomy.Addition)
    (o : Observable) (ctx : Context α) (remainder : Coverage α)
    (hplaced : ∀ urn m, (Catalog.offered ms).models.get? urn = some m →
      (m.coverageOver ctx.scale).fraction ≤ (m.coverageOver ctx.scale).fraction) :
    ∃ result, lookup (.ofCatalog (.offered ms) (.edited isStrict edits)) o ctx remainder =
        .ok result ∧
      (result.list.map (·.model.urn)).Nodup ∧
      (∀ m, (∃ k ∈ result.list, k.model = m) ↔
        (Catalog.offered ms).models.get? m.urn = some m ∧
        m.Answers (.edited isStrict edits) o ∧ ctx.constraints.Allows m ∧
        ∃ p ∈ m.domain ctx.scale, p ∈ Coverage.readings ctx.scale remainder.shapes) ∧
      (∀ k ∈ result.list, k.coverage = k.model.coverageOver ctx.scale ∧
        (k.isExact = true ↔ k.model.Makes o.concept o.collective) ∧
        (k.isPreferred = true ↔ k.model.space ∈ ctx.constraints.preferredNamespaces ∨
          ∃ p ∈ k.model.project, p ∈ ctx.constraints.preferredProjects)) ∧
      result.list.Pairwise Outranks ∧
      ∀ ms' isStrict' edits',
        (∀ urn, (Catalog.offered ms').models.get? urn = (Catalog.offered ms).models.get? urn) →
        (∀ f, f ∈ (Taxonomy.edited isStrict' edits').facts ↔
          f ∈ (Taxonomy.edited isStrict edits).facts) →
        lookup (.ofCatalog (.offered ms') (.edited isStrict' edits')) o ctx remainder =
          .ok result := by
  have hc : (Catalog.offered ms).Filled := Catalog.filled_offered ms
  have ht := Taxonomy.holds_edited isStrict edits
  obtain ⟨models, hmodels, notifications, hlookup⟩ :=
    lookup_ofCatalog hc (.edited isStrict edits) o ctx remainder
  obtain ⟨hanswers, hexact⟩ := mem_distinct_found hc ht hmodels
  have hmem : ∀ k, k ∈ (screen ctx.constraints o (distinct [] models)).1.filterMap
      (ofModel? ctx remainder) ↔ ∃ f ∈ distinct [] models, Admitted ctx.constraints f.1 ∧
        ofModel? ctx remainder f = some k := fun k => by
    simp only [List.mem_filterMap, mem_screen, and_assoc]
  have hnodup : (((screen ctx.constraints o (distinct [] models)).1.filterMap
      (ofModel? ctx remainder)).map (·.model.urn)).Nodup :=
    ((urns_ofModel?_sublist _).trans ((screen_sublist _ _ _).map _)).nodup
      (nodup_distinct [] models)
  have hcandidate : ∀ k ∈ (screen ctx.constraints o (distinct [] models)).1.filterMap
      (ofModel? ctx remainder), k.coverage = k.model.coverageOver ctx.scale ∧
        (k.isExact = true ↔ k.model.Makes o.concept o.collective) ∧
        k.isPreferred = prefers ctx.constraints k.model ∧
        (Catalog.offered ms).models.get? k.model.urn = some k.model := by
    intro k hk
    obtain ⟨f, hf, -, hmade⟩ := (hmem k).mp hk
    have hstored := ((hanswers f.1).mp ⟨f, hf, rfl⟩).1
    simp only [ofModel?] at hmade
    split at hmade
    · cases hmade
    · cases hmade
      exact ⟨rfl, hexact f hf, rfl, hstored⟩
  refine ⟨_, hlookup, ?_, fun m => ?_, fun k hk => ?_, ?_,
    fun ms' isStrict' edits' hsame hfacts => ?_⟩
  · exact ((perm_arrange _ _).map _).nodup_iff.mpr hnodup
  · simp only [mem_arrange, hmem]
    constructor
    · rintro ⟨k, ⟨f, hf, hadmitted, hmade⟩, rfl⟩
      have hmodel : k.model = f.1 := (of_ofModel? hmade).1
      rw [hmodel]
      obtain ⟨hstored, hanswer⟩ := (hanswers f.1).mp ⟨f, hf, rfl⟩
      exact ⟨hstored, hanswer, hadmitted.allows, ofModel?_isSome.mp ⟨k, hmade⟩⟩
    · rintro ⟨hstored, hanswer, hallowed, hpoint⟩
      obtain ⟨f, hf, rfl⟩ := (hanswers m).mpr ⟨hstored, hanswer⟩
      obtain ⟨k, hk⟩ := ofModel?_isSome.mpr hpoint
      exact ⟨k, ⟨f, hf, hallowed.admitted, hk⟩, (of_ofModel? hk).1⟩
  · obtain ⟨hcoverage, hmakes, hprefers, -⟩ := hcandidate k (mem_arrange.mp hk)
    exact ⟨hcoverage, hmakes, hprefers ▸ prefers_iff⟩
  · refine pairwise_arrange_precedes (fun k hk => ?_) hnodup
    obtain ⟨hcoverage, -, -, hstored⟩ := hcandidate k hk
    rw [Placed, hcoverage]
    exact hplaced _ _ hstored
  · rw [← hlookup]
    exact lookup_ofCatalog_congr (Catalog.filled_offered ms') hc
      (Taxonomy.holds_edited isStrict' edits').sound ht.sound hsame fun k p => hfacts (k, p)

/-! ## Soil in a survey -/

open Resolution

def loam : Observable := { concept := ⟨"t:Loam", by decide⟩ }

/-- Models of soil and of loam, most of them for all years. -/
def soils : List (Model Number) :=
  [needing "b.soil" soil [],
    { needing "a.soil" soil [] with coverage := [upTo 7.0 (by decide +kernel)] },
    needing "c.loam" loam [], needing "p.loam" loam [], needing "g.soil" soil [],
    needing "d.soil" soil [],
    { needing "e.soil" soil [] with coverage := [upTo 9.0 (by decide +kernel)], priority := 1 },
    { needing "h.soil" soil [] with coverage := [upTo 0.5 (by decide +kernel)] }]

/-- Eleven years in which one namespace is preferred and one model is excluded. -/
def survey : Context Number :=
  { everywhere with
    scale := upTo 11.0 (by decide +kernel)
    constraints := .ofList [.preferNamespace "p", .excludeModel "g.soil"] }

/-- All years of the survey but the first. -/
def remaining : Coverage Number :=
  .remainder survey.scale (.ofShapes survey.scale [upTo 1.0 (by decide +kernel)])

theorem lookup_ranks_survey :
    (∀ urn m, (Catalog.offered soils).models.get? urn = some m →
      (m.coverageOver survey.scale).fraction ≤ (m.coverageOver survey.scale).fraction) ∧
    ∃ result, lookup (.ofCatalog (.offered soils)
        (.edited false [.fact loam.concept soil.concept])) { soil with mode := .any } survey
        remaining = .ok result ∧
      result.list.map (·.model.urn) =
        ["p.loam", "e.soil", "b.soil", "d.soil", "a.soil", "c.loam"] ∧
      result.list.Pairwise Outranks := by
  have hentries : ∀ e ∈ (Catalog.offered soils).models.entries,
      (e.2.coverageOver survey.scale).fraction ≤ (e.2.coverageOver survey.scale).fraction := by
    decide +kernel
  have hplaced : ∀ urn m, (Catalog.offered soils).models.get? urn = some m →
      (m.coverageOver survey.scale).fraction ≤ (m.coverageOver survey.scale).fraction :=
    fun urn m hm => hentries (urn, m) (Keyed.mem_of_get? hm)
  obtain ⟨result, hresult, -, -, -, hsorted, -⟩ :=
    lookup_ranks soils false [.fact loam.concept soil.concept] { soil with mode := .any } survey
      remaining hplaced
  obtain ⟨result', hresult', hnames⟩ := exists_of_any
    (P := fun r : Candidates Number => r.list.map (·.model.urn) =
      ["p.loam", "e.soil", "b.soil", "d.soil", "a.soil", "c.loam"])
    (x := lookup (.ofCatalog (.offered soils) (.edited false [.fact loam.concept soil.concept]))
      { soil with mode := .any } survey remaining) (by decide +kernel)
  cases hresult.symm.trans hresult'
  exact ⟨hplaced, _, hresult, hnames, hsorted⟩

end Candidate

end Obsplan
