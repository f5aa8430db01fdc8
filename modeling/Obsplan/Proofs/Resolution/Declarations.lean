import Obsplan.Proofs.Catalog.Loading
import Obsplan.Proofs.Search.Namespaces

/-!
# Catalogs of declared models

Models that are declared by name, observable and dependencies have the namespaces of their names
when they are built, and none when they are read from JSON that names none. Main statement: how far
this shows in the candidates and in what is resolved.
-/

namespace Obsplan

variable {α : Type} [Coordinate α]

namespace Catalog

/-! ## Catalogs without namespaces -/

/-- The second catalog holds the models of the first one without their namespaces. -/
structure Unspaces (c c' : Catalog α) : Prop where
  models : ∀ urn, c'.models.get? urn = (c.models.get? urn).map Model.unspaced
  producers : c'.producers = c.producers

variable {c c' : Catalog α} {ms : List (Model α)} {m : Model α}

theorem unspaces_empty : (empty : Catalog α).Unspaces empty := ⟨fun _ => rfl, rfl⟩

theorem Unspaces.insert (h : c.Unspaces c') (m : Model α) :
    Alongside Unspaces (c.insert m) (c'.insert m.unspaced) := by
  rw [insert_of_validate, insert_of_validate, Model.validate_unspaced]
  cases hvalid : m.validate with
  | error e => exact .error e
  | ok m' =>
    have hcleared : c'.cleared m'.urn = c.cleared m'.urn := by
      unfold cleared
      rw [h.models]
      cases c.models.get? m'.urn with
      | none => exact h.producers
      | some old => exact congrArg (old.observables.foldl _) h.producers
    refine .ok ⟨fun urn => ?_, ?_⟩
    · simp only [Model.urn_unspaced, Keyed.get?_insert]
      split
      · rfl
      · exact h.models urn
    · simp only [Model.urn_unspaced, Model.observables_unspaced, hcleared]

theorem Unspaces.insertAll (h : c.Unspaces c') (ms : List (Model α)) :
    (c'.insertAll (ms.map Model.unspaced)).2 = (c.insertAll ms).2 ∧
      (c.insertAll ms).1.Unspaces (c'.insertAll (ms.map Model.unspaced)).1 := by
  induction ms generalizing c c' with
  | nil => exact ⟨rfl, h⟩
  | cons m ms ih =>
    have hinsert := h.insert m
    simp only [List.map_cons, insertAll_cons]
    generalize c.insert m = first at hinsert
    generalize c'.insert m.unspaced = second at hinsert
    cases hinsert with
    | error e => exact ⟨rfl, h⟩
    | ok h => exact ih h

theorem Unspaces.modelsFor (h : c.Unspaces c') (o : Observable) :
    c'.modelsFor o = (c.modelsFor o).map Model.unspaced := by
  have hget : c'.models.get? = fun urn => (c.models.get? urn).map Model.unspaced :=
    funext h.models
  unfold Catalog.modelsFor
  rw [h.producers, hget, ← List.map_filterMap, List.filter_map]
  exact arrange_map fun _ _ _ _ => rfl

/-- What is stored was there before or is among the models added. -/
theorem mem_of_insertAll {urn : String} (h : (c.insertAll ms).1.models.get? urn = some m) :
    c.models.get? urn = some m ∨ m ∈ ms := by
  induction ms generalizing c with
  | nil => exact .inl h
  | cons first ms ih =>
    rw [insertAll_cons] at h
    split at h
    · rename_i c₁ hinsert
      rcases ih h with h | h
      · obtain ⟨-, rfl⟩ := insert_eq hinsert
        rw [Keyed.get?_insert] at h
        split at h
        · cases h
          exact .inr List.mem_cons_self
        · exact .inl h
      · exact .inr (List.mem_cons_of_mem _ h)
    · exact .inl h

theorem Unspaces.sources (h : c.Unspaces c')
    (hproject : ∀ urn m, c.models.get? urn = some m → m.project = none) (t : Taxonomy) :
    (Sources.ofCatalog c t).Unspaces (.ofCatalog c' t) where
  models o := congrArg Except.ok (h.modelsFor o)
  below := rfl
  unplaced m hm := by
    obtain ⟨urn, hurn⟩ := Sources.offers_ofCatalog hm
    exact hproject urn m hurn

end Catalog

namespace Declaration

open Catalog

variable {ds : List Declaration} {items : List Json}

/-- The catalog of the models built from declarations, and why one of them is refused. -/
def build (ds : List Declaration) : Catalog Number × Option CatalogError :=
  empty.insertAll (ds.map model)

theorem readModels?_of_writtenAs (given : Declaration → Option String) {text : String}
    (htext : Json.read? text = some (.list items))
    (hitems : List.Forall₂ (fun d j => d.WrittenAs (given d) j) ds items) :
    readModels? text = some (ds.map fun d => { d.model with space := (given d).getD "" }) := by
  rw [readModels?_eq_some]
  refine ⟨items, htext, ?_⟩
  clear htext
  induction hitems with
  | nil => rfl
  | cons h _ ih => simp [List.mapM_cons, ofJson?_of_writtenAs h, ih]

theorem stored_build {urn : String} {m : Model Number}
    (h : (build ds).1.models.get? urn = some m) : ∃ d ∈ ds, d.model = m :=
  List.mem_map.mp ((mem_of_insertAll h).resolve_left fun h => (nomatch h))

theorem load_of_readModels? {text : String} {ms : List (Model Number)}
    (h : readModels? text = some ms) (c : Catalog Number) (origin : String) :
    c.load origin text =
      ((c.insertAll ms).1, (c.insertAll ms).2.elim (.ok ms.length) .error) := by
  unfold load
  rw [h]
  simp only
  split
  · rename_i hall
    rw [hall]
    rfl
  · rename_i hall
    rw [hall]
    rfl

/-- Catalogs of declared models find the same candidates with and without namespaces. -/
theorem lookup_declared {c c' : Catalog Number} (hc : c.Filled)
    (hdeclared : ∀ urn m, c.models.get? urn = some m → ∃ d : Declaration, d.model = m)
    (h : c.Unspaces c') (t : Taxonomy) (o : Observable) (ctx : Context Number)
    (remainder : Coverage Number) : ∃ found found',
      Candidate.lookup (.ofCatalog c t) o ctx remainder = .ok found ∧
      Candidate.lookup (.ofCatalog c' t) o ctx remainder = .ok found' ∧
      found'.notifications = found.notifications ∧
      found'.list.Perm (found.list.map
        (.unspaced (ctx.constraints.preferredNamespaces.contains ""))) ∧
      (found'.list =
          found.list.map (.unspaced (ctx.constraints.preferredNamespaces.contains "")) ↔
        ∀ k ∈ found.list, ∀ l ∈ found.list, k.isPreferred = true → l.isPreferred = false →
          k.Leads l) := by
  have hsources := h.sources (fun urn m hm => by
    obtain ⟨d, rfl⟩ := hdeclared urn m hm
    rw [model_eq]) t
  obtain ⟨_, hanswer⟩ := Candidate.exists_lookup (Sources.reliable_ofCatalog hc t) o ctx remainder
  rcases Candidate.lookup_unspaced hsources (rfl : ctx.scale = ctx.scale) rfl rfl o remainder with
    ⟨e, he, -⟩ | ⟨ks, notifications, hfound, hfound', hnames, hks⟩
  · cases he.symm.trans hanswer
  · have hlevel : Candidate.Level 0 (.full ctx.scale) ks := by
      intro k hk
      obtain ⟨hoffers, hcoverage, -⟩ := hks k hk
      obtain ⟨urn, hurn⟩ := Sources.offers_ofCatalog hoffers
      obtain ⟨d, hd⟩ := hdeclared urn _ hurn
      rw [hcoverage, ← hd, model_eq]
      exact ⟨rfl, rfl⟩
    have hwhole : (Coordinate.one : Number) ≤ Coordinate.one := by decide +kernel
    refine ⟨_, _, hfound, hfound', rfl, ?_, ?_⟩
    · exact (perm_arrange _ _).trans ((perm_arrange _ _).symm.map _)
    · simpa only [mem_arrange] using Candidate.arrange_unspaced_iff hlevel hwhole hnames _

/-- Models that are declared by name, observable and dependencies mean the same when they are built
and when they are read from JSON that names their namespaces. Without namespaces the same candidates
are found, in the same order just if those that the context prefers alone lead the others; and where
all names stand in one namespace the same is resolved in every context. -/
theorem load_declared {text : String} (htext : Json.read? text = some (.list items))
    (hitems : List.Forall₂ (fun d j => d.WrittenAs none j) ds items) (origin : String) :
    ∃ built loaded failure, build ds = (built, failure) ∧
      empty.load origin text = (loaded, failure.elim (.ok ds.length) .error) ∧
      (∀ named items', Json.read? named = some (.list items') →
        List.Forall₂ (fun d j => d.WrittenAs (some d.space) j) ds items' →
        empty.load origin named = (built, failure.elim (.ok ds.length) .error)) ∧
      (∀ t o (ctx : Context Number) remainder, ∃ found found',
        Candidate.lookup (.ofCatalog built t) o ctx remainder = .ok found ∧
        Candidate.lookup (.ofCatalog loaded t) o ctx remainder = .ok found' ∧
        found'.notifications = found.notifications ∧
        found'.list.Perm (found.list.map
          (.unspaced (ctx.constraints.preferredNamespaces.contains ""))) ∧
        (found'.list =
            found.list.map (.unspaced (ctx.constraints.preferredNamespaces.contains "")) ↔
          ∀ k ∈ found.list, ∀ l ∈ found.list, k.isPreferred = true → l.isPreferred = false →
            k.Leads l)) ∧
      ∀ space, (∀ d ∈ ds, d.space = space) → ∀ t (limits : Limits Number) o ctx,
        Resolution.resolve (.ofCatalog loaded t) limits o ctx =
          (Resolution.resolve (.ofCatalog built t) limits o ctx).map Resolution.unspaced := by
  have hbare := readModels?_of_writtenAs (fun _ => none) htext hitems
  rw [show (ds.map fun d => { d.model with space := (none : Option String).getD "" }) =
    (ds.map model).map Model.unspaced by rw [List.map_map]; rfl] at hbare
  obtain ⟨hfailure, hunspaces⟩ := unspaces_empty.insertAll (ds.map model)
  have hfilled : (build ds).1.Filled := Filled.empty.insertAll _
  refine ⟨(build ds).1, (empty.insertAll ((ds.map model).map Model.unspaced)).1, (build ds).2, rfl,
    ?_, fun named items' hnamed hitems' => ?_, fun t o ctx remainder => ?_,
    fun space hspace t limits o ctx => ?_⟩
  · rw [load_of_readModels? hbare, hfailure, List.length_map, List.length_map]
    rfl
  · have hmodels := readModels?_of_writtenAs (fun d => some d.space) hnamed hitems'
    rw [List.map_congr_left (g := model) fun d _ => by rw [model_eq]; rfl] at hmodels
    rw [load_of_readModels? hmodels, List.length_map]
    rfl
  · exact lookup_declared hfilled (fun urn m hm => (stored_build hm).imp fun _ => And.right)
      hunspaces t o ctx remainder
  · refine Resolution.resolve_unspaced (hunspaces.sources ?_ t) space ?_ limits o ctx
    · intro urn m hm
      obtain ⟨d, -, rfl⟩ := stored_build hm
      rw [model_eq]
    · intro m hm
      obtain ⟨urn, hurn⟩ := Sources.offers_ofCatalog hm
      obtain ⟨d, hd, rfl⟩ := stored_build hurn
      rw [model_eq]
      exact hspace d hd

/-! ## Land from one of two soils -/

open Resolution Search

/-- Land that needs soil, and two models of soil, the second one in the namespace of the land. -/
def twoSoils (urn : String) : List Declaration :=
  [⟨"x.land", land, [{ observable := soil }]⟩, ⟨urn, soil, []⟩, ⟨"x.soil", soil, []⟩]

def soilItem (urn : String) : Json :=
  .object [("urn", .text urn), ("observables", .list [.text "t:Soil"])]

def twoSoilsItems (urn : String) : List Json :=
  [.object [("urn", .text "x.land"), ("observables", .list [.text "t:Land"]),
    ("dependencies", .list [.text "t:Soil"])], soilItem urn, soilItem "x.soil"]

theorem writtenAs_soilItem (urn : String) : WrittenAs ⟨urn, soil, []⟩ none (soilItem urn) :=
  ⟨_, .text "t:Soil", none, rfl, .refl _, rfl, rfl⟩

theorem writtenAs_twoSoilsItems (urn : String) :
    List.Forall₂ (fun d j => d.WrittenAs none j) (twoSoils urn) (twoSoilsItems urn) :=
  .cons ⟨_, .text "t:Land", some (.list [.text "t:Soil"]), rfl, .refl _, rfl, rfl⟩
    (.cons (writtenAs_soilItem urn) (.cons (writtenAs_soilItem "x.soil") .nil))

/-- The models as they are declared in JSON, the second one beside the land. -/
def loamText : String :=
  "[\x7b\"urn\":\"x.land\",\"observables\":[\"t:Land\"],\"dependencies\":[\"t:Soil\"]\x7d," ++
  "\x7b\"urn\":\"x.loam\",\"observables\":[\"t:Soil\"]\x7d," ++
  "\x7b\"urn\":\"x.soil\",\"observables\":[\"t:Soil\"]\x7d]"

/-- The same with the second model in another namespace. -/
def clayText : String :=
  "[\x7b\"urn\":\"x.land\",\"observables\":[\"t:Land\"],\"dependencies\":[\"t:Soil\"]\x7d," ++
  "\x7b\"urn\":\"a.clay\",\"observables\":[\"t:Soil\"]\x7d," ++
  "\x7b\"urn\":\"x.soil\",\"observables\":[\"t:Soil\"]\x7d]"

/-- The models as they are built. -/
def builtSoils (urn : String) : Sources Number := .ofCatalog (build (twoSoils urn)).1 {}

/-- The models as they are read. -/
def readSoils (text : String) : Sources Number := .ofCatalog (empty.load "models" text).1 {}

/-- Where both soils are in the namespace of the land, the first one by name is taken either way. -/
theorem load_declared_loam :
    Json.read? loamText = some (.list (twoSoilsItems "x.loam")) ∧
    List.Forall₂ (fun d j => d.WrittenAs none j) (twoSoils "x.loam") (twoSoilsItems "x.loam") ∧
    ∃ r, resolve (builtSoils "x.loam") ({} : Config).limits land everywhere = .ok r ∧
      resolve (readSoils loamText) ({} : Config).limits land everywhere = .ok r.unspaced ∧
      r.models.map Model.urn = ["x.loam", "x.land"] := by
  have htext : Json.read? loamText = some (.list (twoSoilsItems "x.loam")) := by cbv
  have hitems := writtenAs_twoSoilsItems "x.loam"
  obtain ⟨built, loaded, failure, hbuild, hload, -, -, hresolve⟩ :=
    load_declared htext hitems "models"
  obtain ⟨r, hr, hmodels⟩ := exists_of_any
    (P := fun r : Resolution Number => r.models.map Model.urn = ["x.loam", "x.land"])
    (x := resolve (builtSoils "x.loam") ({} : Config).limits land everywhere)
    (by decide +kernel)
  have hsame := hresolve "x" (by decide +kernel) {} ({} : Config).limits land everywhere
  refine ⟨htext, hitems, r, hr, ?_, hmodels⟩
  rw [builtSoils, hbuild] at hr
  rw [hr] at hsame
  rw [readSoils, hload]
  exact hsame

/-- Built from its declaration the land prefers the soil of its own namespace; read from JSON it
takes the first soil by name. The candidates in a context that prefers the namespace differ alike. -/
theorem load_declared_clay :
    Json.read? clayText = some (.list (twoSoilsItems "a.clay")) ∧
    List.Forall₂ (fun d j => d.WrittenAs none j) (twoSoils "a.clay") (twoSoilsItems "a.clay") ∧
    (∃ r r', resolve (builtSoils "a.clay") ({} : Config).limits land everywhere = .ok r ∧
      resolve (readSoils clayText) ({} : Config).limits land everywhere = .ok r' ∧
      r.models.map Model.urn = ["x.soil", "x.land"] ∧
      r'.models.map Model.urn = ["a.clay", "x.land"]) ∧
    ∃ found found', Candidate.lookup (builtSoils "a.clay") soil (preferring "x" everywhere)
        (.full .scalar) = .ok found ∧
      Candidate.lookup (readSoils clayText) soil (preferring "x" everywhere) (.full .scalar) =
        .ok found' ∧
      found.list.map (·.model.urn) = ["x.soil", "a.clay"] ∧
      found'.list.map (·.model.urn) = ["a.clay", "x.soil"] := by
  have htext : Json.read? clayText = some (.list (twoSoilsItems "a.clay")) := by cbv
  obtain ⟨r, hr, hmodels⟩ := exists_of_any
    (P := fun r : Resolution Number => r.models.map Model.urn = ["x.soil", "x.land"])
    (x := resolve (builtSoils "a.clay") ({} : Config).limits land everywhere) (by decide +kernel)
  obtain ⟨r', hr', hmodels'⟩ := exists_of_any
    (P := fun r : Resolution Number => r.models.map Model.urn = ["a.clay", "x.land"])
    (x := resolve (readSoils clayText) ({} : Config).limits land everywhere) (by decide +kernel)
  obtain ⟨found, hfound, hlist⟩ := exists_of_any
    (P := fun found : Candidates Number => found.list.map (·.model.urn) = ["x.soil", "a.clay"])
    (x := Candidate.lookup (builtSoils "a.clay") soil (preferring "x" everywhere) (.full .scalar))
    (by decide +kernel)
  obtain ⟨found', hfound', hlist'⟩ := exists_of_any
    (P := fun found : Candidates Number => found.list.map (·.model.urn) = ["a.clay", "x.soil"])
    (x := Candidate.lookup (readSoils clayText) soil (preferring "x" everywhere) (.full .scalar))
    (by decide +kernel)
  exact ⟨htext, writtenAs_twoSoilsItems "a.clay", ⟨r, r', hr, hr', hmodels, hmodels'⟩,
    found, found', hfound, hfound', hlist, hlist'⟩

end Declaration

end Obsplan
