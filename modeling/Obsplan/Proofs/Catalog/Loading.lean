import Obsplan.Catalog.Json
import Obsplan.Proofs.Catalog.Index
import Obsplan.Proofs.Resolution.Shape

/-!
# Loading catalogs

A text lists models, and loading it adds them one after the other, up to the first one that cannot
be used. Main statement: what a catalog offers after a text was loaded, whether loading succeeds or
fails, and when a failure does not show.
-/

namespace Obsplan.Catalog

variable {α : Type} [Coordinate α] {c c' : Catalog α} {ms : List (Model α)} {m first : Model α}
  {urn : String}

/-! ## Adding models -/

theorem retrieve_eq_ok : c.retrieve urn = .ok m ↔ c.models.get? urn = some m := by
  unfold retrieve
  cases c.models.get? urn <;> simp

theorem retrieve_insert (h : c.insert first = .ok c') :
    c'.retrieve urn = if first.urn = urn then .ok first else c.retrieve urn := by
  obtain ⟨-, rfl⟩ := insert_eq h
  rw [retrieve, Keyed.get?_insert]
  by_cases hurn : first.urn = urn
  · rw [if_pos hurn, if_pos hurn]
  · rw [if_neg hurn, if_neg hurn]
    rfl

/-- Of every name, what a catalog gives is the last one of some models, or else what another one
gave. -/
def Extends (c : Catalog α) (ms : List (Model α)) (c' : Catalog α) : Prop :=
  ∀ urn m, c'.retrieve urn = .ok m ↔
    LastOf ms urn m ∨ (∀ other ∈ ms, other.urn ≠ urn) ∧ c.retrieve urn = .ok m

theorem lastOf_nil : ¬ LastOf ([] : List (Model α)) urn m := fun ⟨before, after, h, _⟩ => by
  simp at h

theorem lastOf_cons (hms : ∀ other ∈ ms, other.Usable) (hfirst : first.Usable) :
    LastOf (first :: ms) urn m ↔
      LastOf ms urn m ∨ (∀ other ∈ ms, other.urn ≠ urn) ∧ first = m ∧ first.urn = urn := by
  constructor
  · rintro ⟨before, after, hlist, husable, hurn, hlater⟩
    cases before with
    | nil =>
      cases hlist
      exact .inr ⟨fun other hother heq => hlater other hother heq (hms other hother), rfl, hurn⟩
    | cons d before =>
      cases hlist
      exact .inl ⟨before, after, rfl, husable, hurn, hlater⟩
  · rintro (⟨before, after, rfl, husable, hurn, hlater⟩ | ⟨hnone, rfl, hurn⟩)
    · exact ⟨first :: before, after, rfl, husable, hurn, hlater⟩
    · exact ⟨[], ms, rfl, hfirst, hurn, fun other hother heq => absurd heq (hnone other hother)⟩

/-- Every name that occurs has a last model. -/
theorem exists_lastOf (hms : ∀ other ∈ ms, other.Usable) (hm : m ∈ ms) :
    ∃ last, LastOf ms m.urn last := by
  induction ms generalizing m with
  | nil => cases hm
  | cons first ms ih =>
    obtain ⟨hfirst, hms⟩ := List.forall_mem_cons.mp hms
    by_cases hlater : ∃ other ∈ ms, other.urn = m.urn
    · obtain ⟨other, hother, hurn⟩ := hlater
      obtain ⟨last, hlast⟩ := ih hms hother
      exact ⟨last, (lastOf_cons hms hfirst).mpr (.inl (hurn ▸ hlast))⟩
    · push Not at hlater
      cases hm with
      | head => exact ⟨first, (lastOf_cons hms hfirst).mpr (.inr ⟨hlater, rfl, rfl⟩)⟩
      | tail _ hm => exact absurd rfl (hlater m hm)

theorem extends_nil (c : Catalog α) : c.Extends [] c := fun urn m => by simp [lastOf_nil]

/-- The first of some models is there until another one of its name comes. -/
theorem Extends.cons {between : Catalog α} (hms : ∀ other ∈ ms, other.Usable)
    (hinsert : c.insert first = .ok between) (h : between.Extends ms c') :
    c.Extends (first :: ms) c' := by
  have hfirst : first.Usable := Model.validate_eq_ok.mp (insert_eq hinsert).1
  intro urn m
  rw [h urn m, lastOf_cons hms hfirst, retrieve_insert hinsert, List.forall_mem_cons]
  by_cases hurn : first.urn = urn
  · simp [hurn]
  · simp [hurn]

/-- Usable models in front of others are added. -/
theorem insertAll_append (hms : ∀ m ∈ ms, m.Usable) (rest : List (Model α)) :
    ∃ c', c.insertAll (ms ++ rest) = c'.insertAll rest ∧ c.Extends ms c' := by
  induction ms generalizing c with
  | nil => exact ⟨c, rfl, extends_nil c⟩
  | cons first ms ih =>
    obtain ⟨hfirst, hms⟩ := List.forall_mem_cons.mp hms
    obtain ⟨between, hinsert, -⟩ := offer_of_usable (c := c) hfirst
    obtain ⟨c', hall, hextends⟩ := ih hms
    refine ⟨c', ?_, hextends.cons hms hinsert⟩
    rw [List.cons_append, insertAll_cons, hinsert]
    exact hall

theorem insertAll_refused {e : CatalogError} (h : m.validate = .error e) (rest : List (Model α)) :
    c.insertAll (m :: rest) = (c, some e) := by
  have hinsert : c.insert m = .error e := by
    rw [insert_of_validate, h]
    rfl
  rw [insertAll_cons, hinsert]

theorem exists_refusal (h : ¬ m.Usable) : ∃ e, m.validate = .error e := by
  rw [← Model.validate_eq_ok] at h
  unfold Model.validate at h ⊢
  split
  · exact ⟨_, rfl⟩
  · rename_i hurn
    rw [if_neg hurn] at h
    split
    · exact ⟨_, rfl⟩
    · rename_i hobservables
      exact absurd (if_neg hobservables) h

/-- Models are all usable, or there is a first one that is refused. -/
theorem usable_or_refused (ms : List (Model α)) : (∀ m ∈ ms, m.Usable) ∨
    ∃ taken bad rest e, ms = taken ++ bad :: rest ∧ (∀ m ∈ taken, m.Usable) ∧
      bad.validate = .error e := by
  induction ms with
  | nil => exact .inl (by simp)
  | cons first ms ih =>
    by_cases hfirst : first.Usable
    · rcases ih with hall | ⟨taken, bad, rest, e, rfl, htaken, hbad⟩
      · exact .inl (List.forall_mem_cons.mpr ⟨hfirst, hall⟩)
      · exact .inr ⟨first :: taken, bad, rest, e, rfl,
          List.forall_mem_cons.mpr ⟨hfirst, htaken⟩, hbad⟩
    · obtain ⟨e, he⟩ := exists_refusal hfirst
      exact .inr ⟨[], first, ms, e, rfl, by simp, he⟩

/-! ## What is offered afterwards -/

/-- Catalogs that give the same for every name and every observable. -/
def Agrees (c c' : Catalog α) : Prop :=
  (∀ urn, c'.retrieve urn = c.retrieve urn) ∧ ∀ o, c'.modelsFor o = c.modelsFor o

/-- What was added does not show just if the last model of every name stood there before. -/
theorem Extends.agrees_iff (h : c.Indexed) (h' : c'.Indexed) (hms : ∀ m ∈ ms, m.Usable)
    (hextends : c.Extends ms c') :
    c.Agrees c' ↔ ∀ urn m, LastOf ms urn m → c.retrieve urn = .ok m := by
  constructor
  · intro hagrees urn m hlast
    rw [← hagrees.1]
    exact (hextends urn m).mpr (.inl hlast)
  · intro hlast
    have hsame : ∀ urn m, c'.retrieve urn = .ok m ↔ c.retrieve urn = .ok m := by
      intro urn m
      rw [hextends urn m]
      refine ⟨fun h => h.elim (hlast urn m) And.right, fun hm => ?_⟩
      by_cases hname : ∃ other ∈ ms, other.urn = urn
      · obtain ⟨other, hother, rfl⟩ := hname
        obtain ⟨last, hlast'⟩ := exists_lastOf hms hother
        rw [hlast _ last hlast', Except.ok.injEq] at hm
        exact .inl (hm ▸ hlast')
      · exact .inr ⟨fun other hother hurn => hname ⟨other, hother, hurn⟩, hm⟩
    have hmodels : ∀ urn, c'.models.get? urn = c.models.get? urn := by
      intro urn
      ext m
      rw [← retrieve_eq_ok, ← retrieve_eq_ok, hsame]
    refine ⟨fun urn => ?_, fun o => h'.modelsFor_congr h hmodels o⟩
    unfold retrieve
    rw [hmodels]

/-- A text is a list of models. -/
def Lists (text : String) (ms : List (Model Number)) : Prop :=
  ∃ items, Json.read? text = some (.list items) ∧ items.mapM Model.ofJson? = some ms

theorem readModels?_eq_some {text : String} {ms : List (Model Number)} :
    readModels? text = some ms ↔ Lists text ms := by
  unfold readModels? Lists
  constructor
  · intro h
    obtain ⟨j, hj, hms⟩ := Option.bind_eq_some_iff.mp h
    unfold Json.listOf? at hms
    split at hms
    · exact ⟨_, hj, hms⟩
    · cases hms
  · rintro ⟨items, hitems, hms⟩
    rw [hitems]
    exact hms

/-- What a catalog `c` became by loading a text: some models of the text were added. -/
structure Loaded (c : Catalog Number) (origin text : String) (taken : List (Model Number))
    (c' : Catalog Number) (result : Except CatalogError Nat) : Prop where
  usable : ∀ m ∈ taken, m.Usable
  /-- The last model added stands under its name, and all other names stand for what they did. -/
  stored : c.Extends taken c'
  /-- Every name that was added stands for its last model. -/
  last : ∀ m ∈ taken, ∃ last, LastOf taken m.urn last ∧ c'.retrieve m.urn = .ok last
  /-- For an observable the catalog offers, by name, the models it holds that produce it. -/
  offered : ∀ o, (c'.modelsFor o).Pairwise (fun m m' => m.urn < m'.urn) ∧
    ∀ m, m ∈ c'.modelsFor o ↔ c'.retrieve m.urn = .ok m ∧ m.produces o = true
  /-- Nothing shows just if the last model of every name stood there before. -/
  agrees_iff : c.Agrees c' ↔ ∀ urn m, LastOf taken urn m → c.retrieve urn = .ok m
  /-- All models of the text were added; or the text is no list of models, and none was; or those in
  front of the first one that is refused. -/
  outcome : (Lists text taken ∧ result = .ok taken.length) ∨
    ((∀ ms, ¬ Lists text ms) ∧ taken = [] ∧
      result = .error (.unparsable origin "this is no list of models")) ∨
    ∃ bad rest e, Lists text (taken ++ bad :: rest) ∧ bad.validate = .error e ∧ result = .error e

theorem Extends.loaded {c c' : Catalog Number} {ms : List (Model Number)} {origin text : String}
    {result : Except CatalogError Nat} (hc : c.Filled) (hc' : c'.Filled)
    (hms : ∀ m ∈ ms, m.Usable) (hextends : c.Extends ms c')
    (outcome : (Lists text ms ∧ result = .ok ms.length) ∨
      ((∀ ms, ¬ Lists text ms) ∧ ms = [] ∧
        result = .error (.unparsable origin "this is no list of models")) ∨
      ∃ bad rest e, Lists text (ms ++ bad :: rest) ∧ bad.validate = .error e ∧
        result = .error e) : Loaded c origin text ms c' result where
  usable := hms
  stored := hextends
  last m hm := by
    obtain ⟨last, hlast⟩ := exists_lastOf hms hm
    exact ⟨last, hlast, (hextends _ _).mpr (.inl hlast)⟩
  offered o := by
    refine ⟨hc'.indexed.sorted_modelsFor o, fun m => ?_⟩
    rw [retrieve_eq_ok]
    exact hc'.indexed.mem_modelsFor_iff
  agrees_iff := hextends.agrees_iff hc.indexed hc'.indexed hms
  outcome := outcome

/-- Loading a text adds the models that it lists, up to the first one that is refused. A failure
thus leaves no trace just if the last model of every name in front of the refused one stood in the
catalog before. -/
theorem load_extends {c : Catalog Number} (hc : c.Filled) (origin text : String) :
    ∃ taken c' result, c.load origin text = (c', result) ∧
      Loaded c origin text taken c' result := by
  unfold load
  cases hread : readModels? text with
  | none =>
    refine ⟨[], c, _, rfl, (extends_nil c).loaded hc hc (by simp) (.inr (.inl ⟨?_, rfl, rfl⟩))⟩
    intro ms hms
    rw [readModels?_eq_some.mpr hms] at hread
    cases hread
  | some ms =>
    have hlists := readModels?_eq_some.mp hread
    have hfilled := hc.insertAll ms
    rcases usable_or_refused ms with hall | ⟨taken, bad, rest, e, rfl, htaken, hbad⟩
    · obtain ⟨c', hinsert, hextends⟩ := insertAll_append (c := c) hall []
      rw [List.append_nil, insertAll_nil] at hinsert
      simp only [hinsert] at hfilled ⊢
      exact ⟨ms, c', _, rfl, hextends.loaded hc hfilled hall (.inl ⟨hlists, rfl⟩)⟩
    · obtain ⟨c', hinsert, hextends⟩ := insertAll_append (c := c) htaken (bad :: rest)
      rw [insertAll_refused hbad] at hinsert
      simp only [hinsert] at hfilled ⊢
      exact ⟨taken, c', _, rfl, hextends.loaded hc hfilled htaken
        (.inr (.inr ⟨bad, rest, e, hlists, hbad, rfl⟩))⟩

/-- A list of a model for soil and one that produces nothing. -/
def soilAndNothing : String :=
  "[\x7b\"urn\":\"m.a\",\"observables\":[\"t:Soil\"]\x7d," ++
  "\x7b\"urn\":\"m.b\",\"observables\":[]\x7d]"

/-- A catalog with a model for water that bears the name of the one for soil, and another model. -/
def stocked : Catalog Number :=
  (empty.insertAll [.producing "m.a" Resolution.water, .producing "m.c" Resolution.water]).1

theorem filled_stocked : stocked.Filled := Filled.empty.insertAll _

theorem load_extends_replaced :
    stocked.Filled ∧
      (∃ taken c' result, stocked.load "models" soilAndNothing = (c', result) ∧
        Loaded stocked "models" soilAndNothing taken c' result) ∧
      (stocked.load "models" soilAndNothing).2 =
        .error (.malformedModel "m.b" "declares no observables") ∧
      (stocked.load "models" soilAndNothing).1.urns = ["m.a", "m.c"] ∧
      ((stocked.load "models" soilAndNothing).1.modelsFor Resolution.soil).map Model.urn =
        ["m.a"] ∧
      ((stocked.load "models" soilAndNothing).1.modelsFor Resolution.water).map Model.urn =
        ["m.c"] :=
  ⟨filled_stocked, load_extends filled_stocked _ _, by decide +kernel⟩

/-- Models that come before the refused one stay, so a failed loading is not without effect. -/
theorem load_leaves_models : ¬ ∀ (c c' : Catalog Number) (origin text : String) (e : CatalogError),
    c.Filled → c.load origin text = (c', .error e) → c.Agrees c' := by
  intro h
  have hfails : (empty.load "models" soilAndNothing).2 =
      .error (.malformedModel "m.b" "declares no observables") := by decide +kernel
  have hstays : ((empty.load "models" soilAndNothing).1.modelsFor Resolution.soil).map Model.urn ≠
      ((empty : Catalog Number).modelsFor Resolution.soil).map Model.urn := by decide +kernel
  generalize hload : empty.load "models" soilAndNothing = loaded at hfails hstays
  obtain ⟨c', result⟩ := loaded
  cases hfails
  exact hstays (congrArg _ ((h _ c' _ _ _ .empty hload).2 _))

end Obsplan.Catalog
