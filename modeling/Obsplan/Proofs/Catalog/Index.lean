import Mathlib.Data.List.DropRight
import Mathlib.Data.List.Induction
import Mathlib.Data.List.Nodup
import Mathlib.Data.List.TakeWhile
import Mathlib.Tactic.Tauto
import Obsplan.Proofs.Catalog.Insert

/-!
# The index of a catalog

A catalog lists for every concept the names of the models that produce it. Whatever models were
offered to a catalog, those of a name and those refused among them, the lists name exactly the
models that are stored.
-/

namespace Obsplan

variable {α : Type} [Coordinate α]

theorem Text.isEmpty_trimBoth {p : Char → Bool} {cs : List Char} :
    (trimBoth p cs).isEmpty = true ↔ ∀ c ∈ cs, p c = true := by
  simp only [trimBoth, trimStart, List.isEmpty_iff, List.reverse_eq_nil_iff,
    List.dropWhile_eq_nil_iff, List.mem_reverse]
  rw [← List.dropWhile_eq_nil_iff, ← List.dropWhile_eq_nil_iff, List.dropWhile_idempotent]

namespace Model

/-- A model has a name that is not blank, and it produces something. -/
def Usable (m : Model α) : Prop :=
  (∃ c ∈ m.urn.toList, Text.isBlank c = false) ∧ m.observables ≠ []

/-- A model produces something of a concept. -/
def Yields (m : Model α) (concept : Concept) : Prop := ∃ o ∈ m.observables, o.concept = concept

theorem validate_eq_ok {m : Model α} : m.validate = .ok m ↔ m.Usable := by
  have hblank : ¬ (Text.trimBoth Text.isBlank m.urn.toList).isEmpty = true ↔
      ∃ c ∈ m.urn.toList, Text.isBlank c = false := by
    rw [Text.isEmpty_trimBoth]
    simp
  unfold Usable validate
  rw [← hblank]
  split
  · rename_i h
    simp [h]
  · rename_i h
    cases m.observables <;> simp [h]

theorem Yields.of_produces {m : Model α} {o : Observable} (h : m.produces o = true) :
    m.Yields o.concept := by
  obtain ⟨own, hown, hsame⟩ := List.any_eq_true.mp h
  rw [Observable.sameSemantics, Bool.and_eq_true, beq_iff_eq] at hsame
  exact ⟨own, hown, hsame.1⟩

end Model

namespace Catalog

variable {c c' : Catalog α} {m : Model α} {o : Observable} {ms : List (Model α)}
  {name urn : String} {concept : Concept} {producers : Keyed Concept (List String)}

/-! ## The lists of names -/

theorem namesFor_unlist : namesFor (unlist urn producers o) concept =
    if o.concept = concept then (namesFor producers concept).filter (· ≠ urn)
    else namesFor producers concept := by
  unfold unlist
  rw [namesFor, Keyed.get?_insert]
  split
  · rename_i h
    rw [h]
    rfl
  · rfl

theorem namesFor_enlist : namesFor (enlist urn producers o) concept =
    if o.concept = concept ∧ urn ∉ namesFor producers concept
    then namesFor producers concept ++ [urn] else namesFor producers concept := by
  by_cases hurn : urn ∈ namesFor producers o.concept
  · rw [show enlist urn producers o = producers from if_pos hurn, if_neg]
    rintro ⟨rfl, hnot⟩
    exact hnot hurn
  · rw [show enlist urn producers o = _ from if_neg hurn, namesFor, Keyed.get?_insert]
    by_cases h : o.concept = concept
    · subst h
      rw [if_pos rfl, if_pos ⟨rfl, hurn⟩]
      rfl
    · rw [if_neg h, if_neg fun h' => h h'.1]
      rfl

/-- A name that is taken off the lists of some observables stays on the others. -/
theorem mem_foldl_unlist (os : List Observable) :
    name ∈ namesFor (os.foldl (unlist urn) producers) concept ↔
      name ∈ namesFor producers concept ∧ (name = urn → ∀ o ∈ os, o.concept ≠ concept) := by
  induction os generalizing producers with
  | nil => simp
  | cons o os ih =>
    rw [List.foldl_cons, ih, namesFor_unlist]
    by_cases h : o.concept = concept
    · rw [if_pos h, List.mem_filter, List.forall_mem_cons]
      by_cases hname : name = urn <;> simp [h, hname]
    · rw [if_neg h, List.forall_mem_cons]
      simp [h]

theorem mem_foldl_enlist_iff (os : List Observable) :
    name ∈ namesFor (os.foldl (enlist urn) producers) concept ↔
      name ∈ namesFor producers concept ∨ name = urn ∧ ∃ o ∈ os, o.concept = concept := by
  induction os generalizing producers with
  | nil => simp
  | cons o os ih =>
    have hone : name ∈ namesFor (enlist urn producers o) concept ↔
        name ∈ namesFor producers concept ∨ name = urn ∧ o.concept = concept := by
      rw [namesFor_enlist]
      split
      · rename_i h
        simp [h.1]
      · rename_i h
        refine ⟨.inl, fun h' => h'.elim id ?_⟩
        rintro ⟨rfl, hconcept⟩
        exact Classical.byContradiction fun hnot => h ⟨hconcept, hnot⟩
    rw [List.foldl_cons, ih, hone, List.exists_mem_cons_iff]
    tauto

theorem nodup_foldl_unlist (os : List Observable) (h : (namesFor producers concept).Nodup) :
    (namesFor (os.foldl (unlist urn) producers) concept).Nodup := by
  induction os generalizing producers with
  | nil => exact h
  | cons o os ih =>
    refine ih ?_
    rw [namesFor_unlist]
    split
    · exact h.filter _
    · exact h

theorem nodup_foldl_enlist (os : List Observable) (h : (namesFor producers concept).Nodup) :
    (namesFor (os.foldl (enlist urn) producers) concept).Nodup := by
  induction os generalizing producers with
  | nil => exact h
  | cons o os ih =>
    refine ih ?_
    rw [namesFor_enlist]
    split
    · rename_i hnew
      exact h.append (List.nodup_singleton _) (by simpa using hnew.2)
    · exact h

/-! ## What an insertion keeps -/

/-- Models are stored under their names, and the lists name just the stored models, once each. -/
structure Indexed (c : Catalog α) : Prop where
  known : ∀ urn m, c.models.get? urn = some m → m.urn = urn
  listed : ∀ concept urn, urn ∈ namesFor c.producers concept ↔
    ∃ m, c.models.get? urn = some m ∧ m.Yields concept
  once : ∀ concept, (namesFor c.producers concept).Nodup

theorem indexed_empty : (empty : Catalog α).Indexed where
  known _ _ h := nomatch h
  listed _ _ := ⟨fun h => (nomatch h), fun ⟨_, h, _⟩ => (nomatch h)⟩
  once _ := .nil

/-- The lists that a replaced model is taken off name the other models only. -/
theorem Indexed.mem_cleared (h : c.Indexed) :
    name ∈ namesFor (c.cleared urn) concept ↔
      name ≠ urn ∧ ∃ m, c.models.get? name = some m ∧ m.Yields concept := by
  unfold cleared
  cases hold : c.models.get? urn with
  | none =>
    simp only [h.listed]
    refine ⟨fun hname => ⟨?_, hname⟩, And.right⟩
    rintro rfl
    obtain ⟨m, hm, -⟩ := hname
    rw [hold] at hm
    cases hm
  | some old =>
    simp only [mem_foldl_unlist, h.listed]
    constructor
    · rintro ⟨⟨m, hm, o, ho, hconcept⟩, hnone⟩
      refine ⟨?_, m, hm, o, ho, hconcept⟩
      rintro rfl
      cases hold.symm.trans hm
      exact hnone rfl o ho hconcept
    · rintro ⟨hne, hm⟩
      exact ⟨hm, fun heq => absurd heq hne⟩

theorem Indexed.insert (h : c.Indexed) (hinsert : c.insert m = .ok c') : c'.Indexed := by
  obtain ⟨-, rfl⟩ := insert_eq hinsert
  constructor
  · intro urn known hknown
    rw [Keyed.get?_insert] at hknown
    split at hknown
    · rename_i hurn
      cases hknown
      exact hurn
    · exact h.known urn known hknown
  · intro concept urn
    rw [mem_foldl_enlist_iff, h.mem_cleared]
    simp only [Keyed.get?_insert]
    by_cases hurn : m.urn = urn
    · subst hurn
      simp [Model.Yields]
    · simp [hurn, Ne.symm hurn]
  · intro concept
    refine nodup_foldl_enlist _ ?_
    unfold cleared
    split
    · exact nodup_foldl_unlist _ (h.once concept)
    · exact h.once concept

theorem Filled.indexed (h : c.Filled) : c.Indexed := by
  induction h with
  | empty => exact indexed_empty
  | insert _ hinsert ih => exact ih.insert hinsert

/-! ## Producers of an observable -/

theorem Indexed.mem_filter (h : c.Indexed) :
    m ∈ ((namesFor c.producers o.concept).filterMap c.models.get?).filter (·.produces o) ↔
      c.models.get? m.urn = some m ∧ m.produces o = true := by
  rw [List.mem_filter, List.mem_filterMap]
  refine and_congr_left fun hproduces => ⟨?_, fun hm => ⟨m.urn, ?_, hm⟩⟩
  · rintro ⟨urn, -, hm⟩
    rwa [h.known urn m hm]
  · exact (h.listed o.concept m.urn).mpr ⟨m, hm, .of_produces hproduces⟩

theorem Indexed.mem_modelsFor_iff (h : c.Indexed) :
    m ∈ c.modelsFor o ↔ c.models.get? m.urn = some m ∧ m.produces o = true := by
  rw [modelsFor, mem_arrange, h.mem_filter]

theorem Indexed.nodup_urns (h : c.Indexed) (o : Observable) :
    ((((namesFor c.producers o.concept).filterMap c.models.get?).filter (·.produces o)).map
      Model.urn).Nodup := by
  refine List.Nodup.map_on (fun m hm m' hm' hurn => ?_) (List.Nodup.filter _ ?_)
  · have hget := (h.mem_filter.mp hm).1
    rw [hurn, (h.mem_filter.mp hm').1] at hget
    exact (Option.some.inj hget).symm
  · refine List.Nodup.filterMap (fun urn urn' m hm hm' => ?_) (h.once o.concept)
    rw [← h.known urn m hm, ← h.known urn' m hm']

theorem Indexed.sorted_modelsFor (h : c.Indexed) (o : Observable) :
    (c.modelsFor o).Pairwise fun m m' => m.urn < m'.urn :=
  pairwise_arrange_key (h.nodup_urns o)

/-- Catalogs of the same models offer the same. -/
theorem Indexed.modelsFor_congr (h : c.Indexed) (h' : c'.Indexed)
    (hmodels : ∀ urn, c.models.get? urn = c'.models.get? urn) (o : Observable) :
    c.modelsFor o = c'.modelsFor o := by
  refine arrange_key_congr (h.nodup_urns o) (h'.nodup_urns o) fun m => ?_
  rw [h.mem_filter, h'.mem_filter, hmodels]

/-! ## Models offered one after the other -/

/-- The catalog after a model was offered to it, and why the model is refused. -/
def offer (c : Catalog α) (m : Model α) : Catalog α × Option CatalogError := (inserting m).after c

/-- The catalog to which some models were offered. -/
def offered (ms : List (Model α)) : Catalog α := ms.foldl (fun c m => (c.offer m).1) empty

theorem offer_of_usable (h : m.Usable) : ∃ c', c.insert m = .ok c' ∧ c.offer m = (c', none) := by
  have hinsert : ∃ c', c.insert m = .ok c' := by
    rw [insert_of_validate, Model.validate_eq_ok.mpr h]
    exact ⟨_, rfl⟩
  obtain ⟨c', hc'⟩ := hinsert
  exact ⟨c', hc', Edit.after_of_made hc'⟩

/-- A model that cannot be used is refused, and nothing changes. -/
theorem offer_of_not_usable (h : ¬ m.Usable) :
    (c.offer m).1 = c ∧ (c.offer m).2.isSome = true := by
  cases hinsert : c.insert m with
  | ok c' => exact absurd (Model.validate_eq_ok.mp (insert_eq hinsert).1) h
  | error e =>
    rw [offer, (atomic_inserting m).after_of_made hinsert]
    exact ⟨rfl, rfl⟩

theorem Filled.offer (h : c.Filled) (m : Model α) : (c.offer m).1.Filled := by
  cases hinsert : c.insert m with
  | ok c' =>
    rw [Catalog.offer, Edit.after_of_made hinsert]
    exact .insert h hinsert
  | error e =>
    rw [Catalog.offer, (atomic_inserting m).after_of_made hinsert]
    exact h

theorem filled_offered (ms : List (Model α)) : (offered ms).Filled := by
  induction ms using List.reverseRecOn with
  | nil => exact .empty
  | append_singleton ms m ih =>
    rw [offered, List.foldl_concat]
    exact ih.offer m

/-- The last model of a name that can be used. -/
def LastOf (ms : List (Model α)) (urn : String) (m : Model α) : Prop :=
  ∃ before after, ms = before ++ m :: after ∧ m.Usable ∧ m.urn = urn ∧
    ∀ later ∈ after, later.urn = urn → ¬ later.Usable

theorem lastOf_concat {last : Model α} : LastOf (ms ++ [last]) urn m ↔
    (last = m ∧ m.Usable ∧ m.urn = urn) ∨
      (last.urn = urn → ¬ last.Usable) ∧ LastOf ms urn m := by
  constructor
  · rintro ⟨before, after, hms, husable, hurn, hlater⟩
    rcases List.eq_nil_or_concat after with rfl | ⟨after, last', rfl⟩
    · obtain ⟨-, hlast⟩ := List.append_inj' hms rfl
      cases hlast
      exact .inl ⟨rfl, husable, hurn⟩
    · rw [List.concat_eq_append, ← List.cons_append, ← List.append_assoc] at hms
      obtain ⟨hinit, hlast⟩ := List.append_inj' hms rfl
      cases hlast
      rw [List.concat_eq_append, List.forall_mem_append, List.forall_mem_singleton] at hlater
      exact .inr ⟨hlater.2, before, after, hinit, husable, hurn, hlater.1⟩
  · rintro (⟨rfl, husable, hurn⟩ | ⟨hlast, before, after, rfl, husable, hurn, hlater⟩)
    · exact ⟨ms, [], rfl, husable, hurn, by simp⟩
    · refine ⟨before, after ++ [last], by simp, husable, hurn, ?_⟩
      rw [List.forall_mem_append, List.forall_mem_singleton]
      exact ⟨hlater, hlast⟩

theorem get?_offered : (offered ms).models.get? urn = some m ↔ LastOf ms urn m := by
  induction ms using List.reverseRecOn with
  | nil => exact ⟨fun h => (nomatch h), fun ⟨before, after, h, _⟩ => by simp at h⟩
  | append_singleton ms last ih =>
    rw [lastOf_concat, ← ih, offered, List.foldl_concat, ← offered]
    by_cases husable : last.Usable
    · obtain ⟨c', hinsert, hoffer⟩ := offer_of_usable (c := offered ms) husable
      obtain ⟨-, rfl⟩ := insert_eq hinsert
      rw [hoffer, Keyed.get?_insert]
      by_cases hurn : last.urn = urn
      · rw [if_pos hurn, Option.some.injEq]
        refine ⟨fun heq => .inl ⟨heq, heq ▸ husable, heq ▸ hurn⟩, fun h => ?_⟩
        exact h.elim And.left fun h => absurd husable (h.1 hurn)
      · rw [if_neg hurn]
        refine ⟨fun h => .inr ⟨fun heq => absurd heq hurn, h⟩, fun h => h.elim ?_ And.right⟩
        rintro ⟨rfl, -, heq⟩
        exact absurd heq hurn
    · rw [(offer_of_not_usable husable).1]
      refine ⟨fun h => .inr ⟨fun _ => husable, h⟩, fun h => h.elim ?_ And.right⟩
      rintro ⟨rfl, h, -⟩
      exact absurd h husable

/-- Whatever models are offered to a catalog, the last usable one of every name is stored, the lists
of names agree with what is stored, and refused models leave no trace. -/
theorem offered_indexed (ms : List (Model α)) :
    (∀ urn m, (offered ms).models.get? urn = some m ↔ LastOf ms urn m) ∧
    (∀ concept, (namesFor (offered ms).producers concept).Nodup ∧
      ∀ urn, urn ∈ namesFor (offered ms).producers concept ↔
        ∃ m, (offered ms).models.get? urn = some m ∧ m.Yields concept) ∧
    (∀ o, ((offered ms).modelsFor o).Pairwise (fun m m' => m.urn < m'.urn) ∧
      ∀ m, m ∈ (offered ms).modelsFor o ↔
        (offered ms).models.get? m.urn = some m ∧ m.produces o = true) ∧
    ∀ m, (((offered ms).offer m).2.isSome = true ↔ ¬ m.Usable) ∧
      (¬ m.Usable → ((offered ms).offer m).1 = offered ms) := by
  have h : (offered ms).Indexed := (filled_offered ms).indexed
  refine ⟨fun urn m => get?_offered, fun concept => ⟨h.once concept, h.listed concept⟩,
    fun o => ⟨h.sorted_modelsFor o, fun m => h.mem_modelsFor_iff⟩, fun m => ⟨?_, ?_⟩⟩
  · refine ⟨fun hsome husable => ?_, fun hnot => (offer_of_not_usable hnot).2⟩
    obtain ⟨c', -, hoffer⟩ := offer_of_usable (c := offered ms) husable
    rw [hoffer] at hsome
    cases hsome
  · exact fun hnot => (offer_of_not_usable hnot).1

end Catalog

end Obsplan
