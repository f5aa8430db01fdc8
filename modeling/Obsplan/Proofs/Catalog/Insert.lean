import Obsplan.Catalog.Sources
import Obsplan.Proofs.Candidate.Lookup
import Obsplan.Proofs.Edit.Atomic

/-!
# Catalogs with one more model

A catalog that was filled model by model holds usable models, each under its own name. Adding a
model under a new name takes no model away from any observable.
-/

namespace Obsplan

variable {α : Type} [Coordinate α]

namespace Catalog

/-- A catalog to which models were added one after the other. -/
inductive Filled : Catalog α → Prop where
  | empty : Filled .empty
  | insert {c c' : Catalog α} {m : Model α} : Filled c → c.insert m = .ok c' → Filled c'

variable {c c' : Catalog α} {m : Model α} {urn : String} {o : Observable}

theorem insert_of_validate (c : Catalog α) (m : Model α) :
    c.insert m = m.validate.map fun m =>
      ⟨c.models.insert m.urn m, m.observables.foldl (enlist m.urn) (c.cleared m.urn)⟩ := by
  rw [insert, Edit.made, inserting, Edit.on_bind, Edit.on_ofExcept]
  cases m.validate <;> rfl

/-- A model is checked before anything is changed. -/
theorem atomic_inserting (m : Model α) : Edit.Atomic (inserting m) :=
  .bind (.ofExcept _) fun m => .of_sure <| (Edit.Sure.modify _).bind fun _ =>
    (Edit.Sure.modify _).bind fun _ => .modify _

@[simp] theorem insertAll_nil (c : Catalog α) : c.insertAll [] = (c, none) := rfl

theorem insertAll_cons (c : Catalog α) (m : Model α) (ms : List (Model α)) :
    c.insertAll (m :: ms) = match c.insert m with
      | .ok c' => c'.insertAll ms
      | .error e => (c, some e) := by
  have hfirst : (m :: ms).forM inserting = inserting m >>= fun _ => ms.forM inserting := rfl
  rw [insertAll, Edit.after, hfirst]
  cases h : c.insert m with
  | ok c' =>
    rw [Edit.on_bind_ok (Edit.on_of_made h)]
    rfl
  | error e => rw [Edit.on_bind_error ((atomic_inserting m).on_of_made h)]

theorem insert_eq (h : c.insert m = .ok c') : m.validate = .ok m ∧
    c' = ⟨c.models.insert m.urn m, m.observables.foldl (enlist m.urn) (c.cleared m.urn)⟩ := by
  rw [insert_of_validate] at h
  cases hm : m.validate with
  | error e =>
    rw [hm] at h
    cases h
  | ok m' =>
    have hsame : m' = m := by
      unfold Model.validate at hm
      split at hm
      · cases hm
      · split at hm
        · cases hm
        · cases hm
          rfl
    rw [hm] at h
    cases h
    rw [hsame]
    exact ⟨rfl, rfl⟩

theorem Filled.known (h : c.Filled) (hm : c.models.get? urn = some m) :
    m.validate = .ok m ∧ m.urn = urn := by
  induction h with
  | empty => cases hm
  | @insert c c' last _ hinsert ih =>
    obtain ⟨hvalid, rfl⟩ := insert_eq hinsert
    rw [Keyed.get?_insert] at hm
    split at hm
    · rename_i hurn
      cases hm
      exact ⟨hvalid, hurn⟩
    · exact ih hm

theorem Filled.insertAll (h : c.Filled) (ms : List (Model α)) : (c.insertAll ms).1.Filled := by
  induction ms generalizing c with
  | nil => exact h
  | cons m ms ih =>
    rw [insertAll_cons]
    split
    · rename_i c' hinsert
      exact ih (.insert h hinsert)
    · exact h

/-! ## Producers -/

theorem mem_enlist {producers : Keyed Concept (List String)} {concept : Concept} {last : String}
    (h : urn ∈ namesFor producers concept) : urn ∈ namesFor (enlist last producers o) concept := by
  by_cases hlast : last ∈ namesFor producers o.concept
  · rwa [show enlist last producers o = producers from if_pos hlast]
  · rw [show enlist last producers o = _ from if_neg hlast, namesFor, Keyed.get?_insert]
    split
    · rename_i hconcept
      rw [← hconcept] at h
      exact List.mem_append_left _ h
    · exact h

theorem mem_foldl_enlist {producers : Keyed Concept (List String)} {concept : Concept}
    {last : String} (os : List Observable) (h : urn ∈ namesFor producers concept) :
    urn ∈ namesFor (os.foldl (enlist last) producers) concept := by
  induction os generalizing producers with
  | nil => exact h
  | cons o os ih => exact ih (mem_enlist h)

theorem mem_modelsFor : m ∈ c.modelsFor o ↔
    (∃ urn ∈ namesFor c.producers o.concept, c.models.get? urn = some m) ∧ m.produces o = true := by
  rw [modelsFor, (perm_arrange _ _).mem_iff, List.mem_filter, List.mem_filterMap]

/-- A new name takes no model away. -/
theorem modelsFor_insert (hnew : c.models.get? m.urn = none) (h : c.insert m = .ok c') :
    c.modelsFor o ⊆ c'.modelsFor o := by
  intro known hknown
  obtain ⟨⟨urn, hurn, hget⟩, hproduces⟩ := mem_modelsFor.mp hknown
  obtain ⟨-, rfl⟩ := insert_eq h
  refine mem_modelsFor.mpr ⟨⟨urn, ?_, ?_⟩, hproduces⟩
  · have hcleared : c.cleared m.urn = c.producers := by rw [cleared, hnew]
    rw [hcleared]
    exact mem_foldl_enlist _ hurn
  · have hne : m.urn ≠ urn := by
      rintro rfl
      rw [hnew] at hget
      cases hget
    rw [Keyed.get?_insert, if_neg hne]
    exact hget

end Catalog

namespace Sources

/-- Sources that always answer, with usable models that are known by their names. -/
structure Reliable (s : Sources α) : Prop where
  models : ∀ o, ∃ ms, s.models o = .ok ms
  below : ∀ concept, ∃ concepts, s.below concept = .ok concepts
  valid : ∀ m, s.Offers m → m.validate = .ok m
  unique : ∀ m m', s.Offers m → s.Offers m' → m.urn = m'.urn → m = m'

/-- Sources that offer at least what other ones do, under the same taxonomy. -/
structure Richer (s s' : Sources α) : Prop where
  models : ∀ o ms, s.models o = .ok ms → ∃ ms', s'.models o = .ok ms' ∧ ms ⊆ ms'
  below : s'.below = s.below

variable {c c' : Catalog α} {t : Taxonomy}

theorem offers_ofCatalog {m : Model α} (h : (ofCatalog c t).Offers m) :
    ∃ urn, c.models.get? urn = some m := by
  obtain ⟨o, ms, hms, hm⟩ := h
  cases hms
  obtain ⟨⟨urn, -, hurn⟩, -⟩ := Catalog.mem_modelsFor.mp hm
  exact ⟨urn, hurn⟩

theorem reliable_ofCatalog (h : c.Filled) (t : Taxonomy) : (ofCatalog c t).Reliable where
  models _ := ⟨_, rfl⟩
  below _ := ⟨_, rfl⟩
  valid m hm := by
    obtain ⟨urn, hurn⟩ := offers_ofCatalog hm
    exact (h.known hurn).1
  unique m m' hm hm' hsame := by
    obtain ⟨urn, hurn⟩ := offers_ofCatalog hm
    obtain ⟨urn', hurn'⟩ := offers_ofCatalog hm'
    have hkey : urn = urn' := by rw [← (h.known hurn).2, ← (h.known hurn').2, hsame]
    rw [hkey, hurn'] at hurn
    exact (Option.some.inj hurn).symm

theorem richer_insert {m : Model α} (hnew : c.models.get? m.urn = none)
    (h : c.insert m = .ok c') (t : Taxonomy) : (ofCatalog c t).Richer (ofCatalog c' t) where
  models o ms hms := by
    cases hms
    exact ⟨_, rfl, Catalog.modelsFor_insert hnew h⟩
  below := rfl

end Sources

end Obsplan
