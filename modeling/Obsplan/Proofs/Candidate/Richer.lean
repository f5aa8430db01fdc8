import Obsplan.Proofs.Catalog.Insert

/-!
# Candidates from richer sources

Reliable sources always answer a lookup. What is a candidate for an observable stays one when the
sources offer more, though it may be ranked elsewhere.
-/

namespace Obsplan

variable {α : Type} [Coordinate α]

theorem exists_mapM {ε β γ : Type} {f : β → Except ε γ} {xs : List β}
    (h : ∀ x ∈ xs, ∃ y, f x = .ok y) : ∃ ys, xs.mapM f = .ok ys := by
  induction xs with
  | nil => exact ⟨[], rfl⟩
  | cons x xs ih =>
    obtain ⟨⟨y, hy⟩, hxs⟩ := List.forall_mem_cons.mp h
    obtain ⟨ys, hys⟩ := ih hxs
    refine ⟨y :: ys, ?_⟩
    rw [List.mapM_cons, hy, hys]
    rfl

theorem exists_mem_mapM {ε β γ : Type} {f : β → Except ε γ} {xs : List β} {ys : List γ} {x : β}
    (h : xs.mapM f = .ok ys) (hx : x ∈ xs) : ∃ y ∈ ys, f x = .ok y := by
  induction xs generalizing ys with
  | nil => cases hx
  | cons first xs ih =>
    rw [List.mapM_cons] at h
    cases hfirst : f first with
    | error e =>
      rw [hfirst] at h
      cases h
    | ok z =>
      cases hxs : xs.mapM f with
      | error e =>
        rw [hfirst, hxs] at h
        cases h
      | ok zs =>
        rw [hfirst, hxs] at h
        cases h
        rcases List.mem_cons.mp hx with rfl | hx
        · exact ⟨z, List.mem_cons_self, hfirst⟩
        · obtain ⟨y, hy, hfx⟩ := ih hxs hx
          exact ⟨y, List.mem_cons_of_mem _ hy, hfx⟩

namespace Candidate

variable {s s' : Sources α} {o : Observable} {ctx : Context α} {models : List (Model α × Bool)}
  {remainder : Coverage α}

/-! ## Found models -/

theorem found_exact {own : List (Model α)} (hown : s.models o = .ok own) (hmode : o.mode = .exact) :
    found s o = .ok (own.map (·, true)) := by
  simp [found, hown, hmode, bind, Except.bind, pure, Except.pure]

theorem found_any {own : List (Model α)} {concepts : List Concept} {others : List (List (Model α))}
    (hown : s.models o = .ok own) (hmode : o.mode = .any) (hbelow : s.below o.concept = .ok concepts)
    (hothers : concepts.mapM (fun concept => s.models { concept, collective := o.collective }) =
      .ok others) :
    found s o = .ok (own.map (·, true) ++ others.flatten.map (·, false)) := by
  simp only [found, hown, hmode, hbelow]
  simp only [bind, Except.bind] at hothers ⊢
  rw [hothers]
  rfl

theorem exists_below (hs : s.Reliable) (o : Observable) (concepts : List Concept) : ∃ others,
    concepts.mapM (fun concept => s.models { concept, collective := o.collective }) = .ok others :=
  exists_mapM fun _ _ => hs.models _

theorem exists_found (hs : s.Reliable) (o : Observable) : ∃ models, found s o = .ok models := by
  obtain ⟨own, hown⟩ := hs.models o
  cases hmode : o.mode with
  | exact => exact ⟨_, found_exact hown hmode⟩
  | any =>
    obtain ⟨concepts, hbelow⟩ := hs.below o.concept
    obtain ⟨others, hothers⟩ := exists_below hs o concepts
    exact ⟨_, found_any hown hmode hbelow hothers⟩

theorem found_subset (hs : s.Reliable) (hs' : s'.Reliable) (hrich : s.Richer s')
    {models' : List (Model α × Bool)} (h : found s o = .ok models) (h' : found s' o = .ok models') :
    models ⊆ models' := by
  obtain ⟨own, hown⟩ := hs.models o
  obtain ⟨own', hown', hsub⟩ := hrich.models o own hown
  cases hmode : o.mode with
  | exact =>
    rw [found_exact hown hmode] at h
    rw [found_exact hown' hmode] at h'
    cases h
    cases h'
    exact List.map_subset _ hsub
  | any =>
    obtain ⟨concepts, hbelow⟩ := hs.below o.concept
    have hbelow' : s'.below o.concept = .ok concepts := by rw [hrich.below, hbelow]
    obtain ⟨others, hothers⟩ := exists_below hs o concepts
    obtain ⟨others', hothers'⟩ := exists_below hs' o concepts
    rw [found_any hown hmode hbelow hothers] at h
    rw [found_any hown' hmode hbelow' hothers'] at h'
    cases h
    cases h'
    refine List.append_subset.mpr ⟨?_, ?_⟩
    · exact List.subset_append_of_subset_left _ (List.map_subset _ hsub)
    · refine List.subset_append_of_subset_right _ (List.map_subset _ fun m hm => ?_)
      obtain ⟨ms, hms, hmem⟩ := List.mem_flatten.mp hm
      obtain ⟨concept, hconcept, hmodels⟩ := mem_of_mapM hothers hms
      obtain ⟨ms', hms', hmodels'⟩ := exists_mem_mapM hothers' hconcept
      obtain ⟨ms'', hms'', hsub⟩ := hrich.models _ ms hmodels
      cases hmodels'.symm.trans hms''
      exact List.mem_flatten.mpr ⟨ms', hms', hsub hmem⟩

/-! ## Screened models -/

/-- Of every name one model stays. -/
theorem exists_mem_distinct {f : Model α × Bool} {seen : List String} (hf : f ∈ models)
    (hseen : f.1.urn ∉ seen) : ∃ g ∈ distinct seen models, g.1.urn = f.1.urn := by
  induction models generalizing seen with
  | nil => cases hf
  | cons first rest ih =>
    obtain ⟨m, isExact⟩ := first
    unfold distinct
    by_cases hm : m.urn ∈ seen
    · rw [if_pos hm]
      rcases List.mem_cons.mp hf with rfl | hf
      · exact absurd hm hseen
      · exact ih hf hseen
    · rw [if_neg hm]
      by_cases hsame : m.urn = f.1.urn
      · exact ⟨_, List.mem_cons_self, hsame⟩
      · rcases List.mem_cons.mp hf with rfl | hf
        · exact absurd rfl hsame
        · have hseen : f.1.urn ∉ m.urn :: seen :=
            List.not_mem_cons_of_ne_of_not_mem (Ne.symm hsame) hseen
          obtain ⟨g, hg, hurn⟩ := ih hf hseen
          exact ⟨g, List.mem_cons_of_mem _ hg, hurn⟩

/-- The constraints allow a model. -/
def Admitted (cs : Constraints) (m : Model α) : Prop :=
  cs.excludedModels.contains m.urn = false ∧ pinTrouble? cs m = none

theorem mem_screen {cs : Constraints} {f : Model α × Bool} :
    f ∈ (screen cs o models).1 ↔ f ∈ models ∧ Admitted cs f.1 := by
  induction models with
  | nil => simp [screen]
  | cons first rest ih =>
    obtain ⟨m, isExact⟩ := first
    unfold screen
    simp only
    split
    · rename_i hexcluded
      rw [ih, List.mem_cons]
      refine ⟨fun h => ⟨.inr h.1, h.2⟩, ?_⟩
      rintro ⟨rfl | hf, hadmitted⟩
      · rw [hadmitted.1] at hexcluded
        cases hexcluded
      · exact ⟨hf, hadmitted⟩
    · rename_i hallowed
      split
      · rename_i n hpin
        rw [ih, List.mem_cons]
        refine ⟨fun h => ⟨.inr h.1, h.2⟩, ?_⟩
        rintro ⟨rfl | hf, hadmitted⟩
        · rw [hadmitted.2] at hpin
          cases hpin
        · exact ⟨hf, hadmitted⟩
      · rename_i hpin
        rw [List.mem_cons, List.mem_cons, ih]
        refine ⟨?_, ?_⟩
        · rintro (rfl | h)
          · exact ⟨.inl rfl, by simpa using hallowed, hpin⟩
          · exact ⟨.inr h.1, h.2⟩
        · rintro ⟨rfl | hf, hadmitted⟩
          · exact .inl rfl
          · exact .inr ⟨hf, hadmitted⟩

/-! ## Lookups -/

theorem exists_lookup (hs : s.Reliable) (o : Observable) (ctx : Context α)
    (remainder : Coverage α) : ∃ found, lookup s o ctx remainder = .ok found := by
  obtain ⟨models, hmodels⟩ := exists_found hs o
  have hvalid : ∀ f ∈ distinct [] models, ∃ m, f.1.validate = .ok m := fun f hf =>
    ⟨f.1, hs.valid f.1 (offers_of_found hmodels (mem_of_mem_distinct hf))⟩
  obtain ⟨checked, hchecked⟩ := exists_mapM hvalid
  simp only [lookup, hmodels, bind, Except.bind]
  rw [hchecked]
  exact ⟨_, rfl⟩

/-- The candidates are what the found and admitted models cover of the remainder. -/
theorem mem_lookup_iff {found : Candidates α}
    (h : lookup s o ctx remainder = .ok found) :
    ∃ models, Candidate.found s o = .ok models ∧ ∀ c, c ∈ found.list ↔
      ∃ f ∈ distinct [] models, Admitted ctx.constraints f.1 ∧ ofModel? ctx remainder f = some c := by
  simp only [lookup, bind, Except.bind] at h
  split at h
  · cases h
  · rename_i models hmodels
    split at h
    · cases h
    · cases h
      refine ⟨models, hmodels, fun c => ?_⟩
      rw [(perm_arrange _ _).mem_iff, List.mem_filterMap]
      simp only [mem_screen, and_assoc]

theorem mem_lookup_richer (hs : s.Reliable) (hs' : s'.Reliable) (hrich : s.Richer s')
    {found found' : Candidates α} (h : lookup s o ctx remainder = .ok found)
    (h' : lookup s' o ctx remainder = .ok found') {c : Candidate α} (hc : c ∈ found.list) :
    ∃ c' ∈ found'.list, c'.model = c.model ∧ c'.coverage = c.coverage := by
  obtain ⟨models, hmodels, hmem⟩ := mem_lookup_iff h
  obtain ⟨models', hmodels', hmem'⟩ := mem_lookup_iff h'
  obtain ⟨f, hf, hadmitted, hmade⟩ := (hmem c).mp hc
  have hf' := found_subset hs hs' hrich hmodels hmodels' (mem_of_mem_distinct hf)
  -- another model of the same name would be the same model
  obtain ⟨g, hg, hurn⟩ := exists_mem_distinct hf' (List.not_mem_nil)
  have hsame : g.1 = f.1 := hs'.unique _ _ (offers_of_found hmodels' (mem_of_mem_distinct hg))
    (offers_of_found hmodels' hf') hurn
  simp only [ofModel?] at hmade
  split at hmade
  · cases hmade
  · rename_i hcovers
    cases hmade
    refine ⟨⟨g.1, g.1.coverageOver ctx.scale, g.2, prefers ctx.constraints g.1⟩,
      (hmem' _).mpr ⟨g, hg, hsame ▸ hadmitted, ?_⟩, hsame, by rw [hsame]⟩
    rw [ofModel?, hsame]
    exact if_neg hcovers

end Candidate

end Obsplan
