import Obsplan.Proofs.Candidate.Ranking
import Obsplan.Proofs.Context.Preferences
import Obsplan.Proofs.Model.Declaration

/-!
# Candidates and namespaces

Sources whose models lost their namespaces offer the same candidates. What a context prefers may put
them in another order; where it prefers all of them or none, it does not.
-/

namespace Obsplan

variable {α : Type} [Coordinate α]

/-! ## Items under a map -/

section arrange

variable {β γ : Type} {precedes : β → β → Bool} {precedes' : γ → γ → Bool} {f : β → γ}
  {done xs : List β} {x : β}

theorem insertBehind_map (h : ∀ y ∈ done, precedes' (f x) (f y) = precedes x y) :
    insertBehind precedes' (f x) (done.map f) = (insertBehind precedes x done).map f := by
  induction done with
  | nil => rfl
  | cons y ys ih =>
    obtain ⟨hy, hys⟩ := List.forall_mem_cons.mp h
    simp only [List.map_cons, insertBehind, hy, ih hys]
    split
    · rfl
    · rfl

theorem arrangeOnto_map (done : List β)
    (h : ∀ x ∈ done ++ xs, ∀ y ∈ done ++ xs, precedes' (f x) (f y) = precedes x y) :
    arrangeOnto precedes' (done.map f) (xs.map f) = (arrangeOnto precedes done xs).map f := by
  induction xs generalizing done with
  | nil => rfl
  | cons x xs ih =>
    have hperm : (insertBehind precedes x done ++ xs).Perm (done ++ x :: xs) :=
      ((perm_insertBehind precedes x done).append_right xs).trans List.perm_middle.symm
    simp only [List.map_cons, arrangeOnto]
    rw [insertBehind_map fun y hy => h x (by simp) y (List.mem_append_left _ hy)]
    exact ih _ fun y hy z hz => h y (hperm.mem_iff.mp hy) z (hperm.mem_iff.mp hz)

/-- Images that compare as the items do come out in the same order. -/
theorem arrange_map (h : ∀ x ∈ xs, ∀ y ∈ xs, precedes' (f x) (f y) = precedes x y) :
    arrange precedes' (xs.map f) = (arrange precedes xs).map f := by
  rw [arrange, arrange, List.map_reverse]
  exact congrArg List.reverse (arrangeOnto_map [] h)

end arrange

theorem mapM_map_ok {ε β γ δ : Type} (g : β → Except ε γ) (f : γ → δ) (xs : List β) :
    xs.mapM (fun x => (g x).map f) = (xs.mapM g).map (List.map f) := by
  induction xs with
  | nil => rfl
  | cons x xs ih =>
    rw [List.mapM_cons, List.mapM_cons, ih]
    cases g x with
    | error e => rfl
    | ok y =>
      cases xs.mapM g with
      | error e => rfl
      | ok ys => rfl

/-! ## Sources without namespaces -/

/-- The second sources offer the models of the first ones without their namespaces, and none of
these belongs to a project. -/
structure Sources.Unspaces (s s' : Sources α) : Prop where
  models : ∀ o, s'.models o = (s.models o).map (List.map Model.unspaced)
  below : s'.below = s.below
  unplaced : ∀ m, s.Offers m → m.project = none

namespace Candidate

/-- A found model without its namespace. -/
def bare (f : Model α × Bool) : Model α × Bool := (f.1.unspaced, f.2)

/-- A candidate without its namespace, whose model is now preferred or not. -/
def unspaced (isPreferred : Bool) (k : Candidate α) : Candidate α :=
  { k with model := k.model.unspaced, isPreferred }

variable {s s' : Sources α} {o : Observable} {ctx ctx' : Context α} {cs : Constraints}
  {remainder : Coverage α} {models : List (Model α × Bool)}

theorem found_unspaced (h : s.Unspaces s') (o : Observable) :
    found s' o = (found s o).map (List.map bare) := by
  unfold found
  rw [h.models, h.below]
  cases s.models o with
  | error e => rfl
  | ok own =>
    cases o.mode with
    | exact => simp [Except.map, bind, Except.bind, pure, Except.pure, bare, Function.comp_def]
    | any =>
      cases s.below o.concept with
      | error e => rfl
      | ok concepts =>
        have hothers := mapM_map_ok (fun concept =>
          s.models { concept, collective := o.collective }) (List.map Model.unspaced) concepts
        simp only [← h.models] at hothers
        simp only [bind, Except.bind, Except.map, hothers]
        cases concepts.mapM fun concept => s.models { concept, collective := o.collective } with
        | error e => rfl
        | ok others =>
          simp [pure, Except.pure, bare, Function.comp_def, List.map_flatten]

theorem distinct_bare (seen : List String) :
    distinct seen (models.map bare) = (distinct seen models).map bare := by
  induction models generalizing seen with
  | nil => rfl
  | cons f models ih =>
    obtain ⟨m, isExact⟩ := f
    simp only [List.map_cons, bare, distinct, ih, Model.urn_unspaced]
    split
    · rfl
    · rfl

@[simp] theorem pinTrouble?_unspaced (cs : Constraints) (m : Model α) :
    pinTrouble? cs m.unspaced = pinTrouble? cs m := by
  refine congrArg (cs.pinnedVersion? m.urn).bind (funext fun pin => ?_)
  cases Version.ofText pin with
  | ok required => exact ite_congr rfl (fun _ => rfl) fun _ => rfl
  | error e => rfl

theorem screen_bare : screen cs o (models.map bare) =
    ((screen cs o models).1.map bare, (screen cs o models).2) := by
  induction models with
  | nil => rfl
  | cons f models ih =>
    obtain ⟨m, isExact⟩ := f
    simp only [List.map_cons, bare, screen]
    rw [show screen cs o (models.map bare) = _ from ih, Model.urn_unspaced, pinTrouble?_unspaced]
    split
    · rfl
    · cases pinTrouble? cs m with
      | none => rfl
      | some n => rfl

theorem mapM_validate_bare : ((models.map bare).mapM fun f : Model α × Bool => f.1.validate) =
    (models.mapM fun f : Model α × Bool => f.1.validate).map (List.map Model.unspaced) := by
  have hvalidate : ((fun f : Model α × Bool => f.1.validate) ∘ bare) =
      fun f : Model α × Bool => f.1.validate.map Model.unspaced :=
    funext fun f => f.1.validate_unspaced
  rw [List.mapM_map, hvalidate, mapM_map_ok]

theorem ofModel?_bare (hscale : ctx'.scale = ctx.scale) {f : Model α × Bool}
    (hproject : f.1.project = none) : ofModel? ctx' remainder (bare f) =
      (ofModel? ctx remainder f).map
        (unspaced (ctx'.constraints.preferredNamespaces.contains "")) := by
  have hprefers : prefers ctx'.constraints f.1.unspaced =
      ctx'.constraints.preferredNamespaces.contains "" := by
    simp [prefers, Model.unspaced, hproject]
  unfold ofModel?
  simp only [bare, hscale, Model.coverageOver_unspaced, hprefers]
  split
  · rfl
  · rfl

/-- Lookups without namespaces find the same candidates, which only stand in another order. -/
theorem lookup_unspaced (h : s.Unspaces s') (hscale : ctx'.scale = ctx.scale)
    (hexcluded : ctx'.constraints.excludedModels = ctx.constraints.excludedModels)
    (hpinned : ctx'.constraints.pinnedVersion? = ctx.constraints.pinnedVersion?) (o : Observable)
    (remainder : Coverage α) :
    (∃ e, lookup s o ctx remainder = .error e ∧ lookup s' o ctx' remainder = .error e) ∨
    ∃ ks notifications, lookup s o ctx remainder = .ok ⟨arrange precedes ks, notifications⟩ ∧
      lookup s' o ctx' remainder = .ok ⟨arrange precedes
        (ks.map (unspaced (ctx'.constraints.preferredNamespaces.contains ""))), notifications⟩ ∧
      (ks.map (·.model.urn)).Nodup ∧
      ∀ k ∈ ks, s.Offers k.model ∧ k.coverage = k.model.coverageOver ctx.scale ∧
        k.isPreferred = prefers ctx.constraints k.model := by
  simp only [lookup, found_unspaced h]
  cases hfound : found s o with
  | error e => exact .inl ⟨e, rfl, rfl⟩
  | ok models =>
    have hoffers : ∀ f ∈ (screen ctx.constraints o (distinct [] models)).1, s.Offers f.1 :=
      fun f hf => offers_of_found hfound (mem_of_mem_distinct (mem_of_mem_screen hf))
    simp only [Except.map, bind, Except.bind, distinct_bare, mapM_validate_bare]
    cases (distinct [] models).mapM fun f => f.1.validate with
    | error e => exact .inl ⟨e, rfl, rfl⟩
    | ok _ =>
      refine .inr ⟨_, _, rfl, ?_, ?_, fun k hk => ?_⟩
      · have hmade : ((screen ctx.constraints o (distinct [] models)).1.map bare).filterMap
            (ofModel? ctx' remainder) =
              ((screen ctx.constraints o (distinct [] models)).1.filterMap
                (ofModel? ctx remainder)).map
                  (unspaced (ctx'.constraints.preferredNamespaces.contains "")) := by
          rw [List.filterMap_map, List.map_filterMap]
          exact List.filterMap_congr fun f hf =>
            ofModel?_bare hscale (h.unplaced _ (hoffers f hf))
        simp only [Search.screen_congr rfl hexcluded hpinned, screen_bare, hmade]
        rfl
      · exact ((urns_ofModel?_sublist _).trans ((screen_sublist _ _ _).map _)).nodup
          (nodup_distinct [] models)
      · obtain ⟨f, hf, hmade⟩ := List.mem_filterMap.mp hk
        simp only [ofModel?] at hmade
        split at hmade
        · cases hmade
        · cases hmade
          exact ⟨hoffers f hf, rfl, rfl⟩

/-- Candidates that are all preferred, or all not, keep their order. -/
theorem arrange_unspaced {ks : List (Candidate α)} {isPreferred : Bool}
    (h : ∀ k ∈ ks, k.isPreferred = isPreferred) (flag : Bool) :
    arrange precedes (ks.map (unspaced flag)) = (arrange precedes ks).map (unspaced flag) := by
  refine arrange_map fun k hk l hl => ?_
  have hsame : (k.isPreferred != l.isPreferred) = false := by rw [h k hk, h l hl, bne_self_eq_false]
  simp only [precedes, hsame, unspaced, bne_self_eq_false, Bool.false_eq_true, if_false]
  rfl

/-! ## Candidates that only preferences part -/

/-- A candidate comes before another one, preferences, priorities and coverages apart. -/
def Leads (k l : Candidate α) : Prop :=
  (k.isExact = true ∧ l.isExact = false) ∨ (k.isExact = l.isExact ∧ k.model.urn < l.model.urn)

/-- Candidates of one priority and of one coverage. -/
def Level (priority : Int) (coverage : Coverage α) (ks : List (Candidate α)) : Prop :=
  ∀ k ∈ ks, k.model.priority = priority ∧ k.coverage = coverage

variable {ks : List (Candidate α)} {priority : Int} {coverage : Coverage α}

section lawful

variable [LawfulCoordinate α]

theorem Outranks.asymm {a b : Candidate α} (ha : a.Placed) (h : Outranks a b) : ¬ Outranks b a := by
  intro h'
  cases h.trans h' with
  | preferred h h' => rw [h] at h'; cases h'
  | priority _ h => exact Int.lt_irrefl _ h
  | exact _ _ h h' => rw [h] at h'; cases h'
  | fraction _ _ _ h => exact LawfulCoordinate.not_lt ha h
  | name _ _ _ _ _ h => exact String.lt_irrefl _ h

omit [LawfulCoordinate α] in
/-- One that is not preferred does not outrank one that is. -/
theorem not_outranks_of_preferred {k l : Candidate α} (hk : k.isPreferred = true)
    (hl : l.isPreferred = false) : ¬ Outranks l k := by
  have hne : l.isPreferred ≠ k.isPreferred := by simp [hk, hl]
  intro h
  cases h with
  | preferred h => rw [hl] at h; cases h
  | priority h => exact hne h
  | exact h => exact hne h
  | fraction h => exact hne h
  | name h => exact hne h

theorem outranks_unspaced_iff (hlevel : Level priority coverage ks)
    (hcoverage : coverage.fraction ≤ coverage.fraction) {k l : Candidate α} (hk : k ∈ ks)
    (hl : l ∈ ks) (flag : Bool) : Outranks (k.unspaced flag) (l.unspaced flag) ↔ k.Leads l := by
  obtain ⟨hpriority, hcovers⟩ := hlevel k hk
  obtain ⟨hpriority', hcovers'⟩ := hlevel l hl
  have hequal : k.model.priority = l.model.priority := hpriority.trans hpriority'.symm
  have hfraction : k.coverage.fraction = l.coverage.fraction := by rw [hcovers, hcovers']
  have hplaced : l.coverage.fraction ≤ l.coverage.fraction := by rwa [hcovers']
  constructor
  · intro h
    cases h with
    | preferred h h' => exact absurd (h.symm.trans h') (by simp)
    | priority _ h => exact absurd h (by simp [unspaced, hequal])
    | exact _ _ h h' => exact .inl ⟨h, h'⟩
    | fraction _ _ _ h => exact absurd h (LawfulCoordinate.not_lt (hfraction.symm ▸ hplaced))
    | name _ _ h _ _ h' => exact .inr ⟨h, h'⟩
  · rintro (⟨h, h'⟩ | ⟨h, h'⟩)
    · exact .exact rfl hequal h h'
    · exact .name rfl hequal h (hfraction ▸ hplaced) (hfraction ▸ hplaced) h'

/-- Without namespaces such candidates keep their order just if every preferred one leads those that
are not preferred. -/
theorem arrange_unspaced_iff (hlevel : Level priority coverage ks)
    (hcoverage : coverage.fraction ≤ coverage.fraction) (hnames : (ks.map (·.model.urn)).Nodup)
    (flag : Bool) :
    arrange precedes (ks.map (unspaced flag)) = (arrange precedes ks).map (unspaced flag) ↔
      ∀ k ∈ ks, ∀ l ∈ ks, k.isPreferred = true → l.isPreferred = false → k.Leads l := by
  have hplaced : ∀ k ∈ ks, k.Placed := fun k hk => by
    rw [Placed, (hlevel k hk).2]
    exact hcoverage
  have hplaced' : ∀ k ∈ ks.map (unspaced flag), k.Placed := by
    simpa [List.forall_mem_map, Placed, unspaced] using hplaced
  have hsorted : (arrange precedes ks).Pairwise Outranks := pairwise_arrange_precedes hplaced hnames
  have hsorted' : (arrange precedes (ks.map (unspaced flag))).Pairwise Outranks :=
    pairwise_arrange_precedes hplaced' (by rw [List.map_map]; exact hnames)
  constructor
  · intro hsame k hk l hl hpreferred hnot
    rw [hsame, List.pairwise_map] at hsorted'
    -- the preferred one stands first, and so it does without namespaces
    have hfirst : ∀ a ∈ arrange precedes ks, ∀ b ∈ arrange precedes ks, a ≠ b →
        (Outranks a b ∧ Outranks (a.unspaced flag) (b.unspaced flag)) ∨
          (Outranks b a ∧ Outranks (b.unspaced flag) (a.unspaced flag)) := by
      have hsymm : Std.Symm fun a b : Candidate α =>
          (Outranks a b ∧ Outranks (a.unspaced flag) (b.unspaced flag)) ∨
            (Outranks b a ∧ Outranks (b.unspaced flag) (a.unspaced flag)) := ⟨fun a b => Or.symm⟩
      exact ((hsorted.and hsorted').imp fun {a b} h => .inl h).forall
    have hne : k ≠ l := by
      rintro rfl
      rw [hpreferred] at hnot
      cases hnot
    rcases hfirst k (mem_arrange.mpr hk) l (mem_arrange.mpr hl) hne with ⟨-, h⟩ | ⟨h, -⟩
    · exact (outranks_unspaced_iff hlevel hcoverage hk hl flag).mp h
    · exact absurd h (not_outranks_of_preferred hpreferred hnot)
  · intro hleads
    have hkept : ((arrange precedes ks).map (unspaced flag)).Pairwise Outranks := by
      rw [List.pairwise_map]
      refine hsorted.imp_of_mem fun {k l} hk hl h => ?_
      have hk := mem_arrange.mp hk
      have hl := mem_arrange.mp hl
      cases h with
      | preferred h h' =>
        exact (outranks_unspaced_iff hlevel hcoverage hk hl flag).mpr (hleads k hk l hl h h')
      | priority _ h => exact .priority rfl h
      | exact _ hp h h' => exact .exact rfl hp h h'
      | fraction _ hp h h' => exact .fraction rfl hp h h'
      | name _ hp h hle hge h' => exact .name rfl hp h hle hge h'
    refine List.Perm.eq_of_pairwise (fun a b ha _ hab hba => ?_) hsorted' hkept
      ((perm_arrange _ _).trans ((perm_arrange precedes ks).symm.map _))
    exact absurd hba (hab.asymm (hplaced' a (mem_arrange.mp ha)))

end lawful

end Candidate

end Obsplan
