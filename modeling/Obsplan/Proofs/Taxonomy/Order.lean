import Mathlib.Order.Defs.Unbundled
import Obsplan.Proofs.Edit.Atomic
import Obsplan.Proofs.Taxonomy.Walk

/-!
# Taxonomies as orders

A taxonomy is built by concepts and facts that are added one after the other. A fact is accepted
unless it closes a circle with the facts accepted before, which the walk down from its first concept
finds out. So whatever is added, the accepted facts have no circle and subsumption is an order.
-/

namespace Obsplan.Taxonomy

open Relation

variable {t : Taxonomy} {c p x y : Concept} {facts facts' : List (Concept × Concept)}

/-! ## Facts without circles -/

/-- No chain of facts leads from a concept back to itself. -/
def Acyclic (facts : List (Concept × Concept)) : Prop :=
  ∀ c, ¬ TransGen (fun k p => (k, p) ∈ facts) c c

theorem acyclic_congr (h : ∀ f, f ∈ facts ↔ f ∈ facts') : Acyclic facts ↔ Acyclic facts' := by
  simp only [Acyclic, h]

/-- A chain over one more fact either does without it or leads up to it and on from it. -/
theorem transGen_concat (h : TransGen (fun k q => (k, q) ∈ facts ++ [(c, p)]) x y) :
    TransGen (fun k q => (k, q) ∈ facts) x y ∨
      ReflTransGen (fun k q => (k, q) ∈ facts) x c ∧
        ReflTransGen (fun k q => (k, q) ∈ facts) p y := by
  have hfact : ∀ {k q : Concept}, (k, q) ∈ facts ++ [(c, p)] →
      (k, q) ∈ facts ∨ k = c ∧ q = p := by
    simp
  induction h with
  | single hlast =>
    rcases hfact hlast with hold | ⟨rfl, rfl⟩
    · exact .inl (.single hold)
    · exact .inr ⟨.refl, .refl⟩
  | tail _ hlast ih =>
    rcases hfact hlast with hold | ⟨rfl, rfl⟩
    · exact ih.imp (·.tail hold) fun ⟨hup, hon⟩ => ⟨hup, hon.tail hold⟩
    · exact .inr ⟨ih.elim TransGen.to_reflTransGen (·.1), .refl⟩

/-- A fact closes a circle when its second concept is a kind of its first one already. -/
theorem acyclic_concat (h : Acyclic facts) :
    Acyclic (facts ++ [(c, p)]) ↔ ¬ ReflTransGen (fun k q => (k, q) ∈ facts) p c := by
  constructor
  · intro hacyclic hback
    have hlast : (c, p) ∈ facts ++ [(c, p)] := by simp
    have hmore : ReflTransGen (fun k q => (k, q) ∈ facts ++ [(c, p)]) p c :=
      ReflTransGen.mono (fun k q => List.mem_append_left _) p c hback
    exact hacyclic c (.head' hlast hmore)
  · intro hnot x hx
    rcases transGen_concat hx with hold | ⟨hup, hon⟩
    · exact h x hold
    · exact hnot (hon.trans hup)

/-! ## Adding concepts and facts -/

/-- Something to be added to a taxonomy. -/
inductive Addition where
  | concept (c : Concept)
  /-- The first concept is to be a kind of the second one. -/
  | fact (child parent : Concept)

/-- What is done to add something. -/
def Addition.edit : Addition → Edit Taxonomy CatalogError PUnit
  | .concept c => modify fun t => t.addConcept c
  | .fact child parent => adding child parent

/-- What an addition makes of a taxonomy, and why it is refused. -/
def edit (t : Taxonomy) (e : Addition) : Taxonomy × Option CatalogError := e.edit.after t

/-- The taxonomy that additions make one after the other. -/
def edited (isStrict : Bool) (edits : List Addition) : Taxonomy :=
  edits.foldl (fun t e => (t.edit e).1) { isStrict }

open Classical in
/-- The facts with one that is added, unless it closes a circle. -/
noncomputable def acceptInto (facts : List (Concept × Concept)) :
    Addition → List (Concept × Concept)
  | .concept _ => facts
  | .fact child parent =>
    if Acyclic (facts ++ [(child, parent)]) then facts ++ [(child, parent)] else facts

/-- The facts among additions that close no circle with those before them. -/
noncomputable def accepted (edits : List Addition) : List (Concept × Concept) :=
  edits.foldl acceptInto []

theorem mem_addConcept : x ∈ (t.addConcept c).concepts ↔ x ∈ t.concepts ∨ x = c := by
  unfold addConcept
  split
  · rename_i hc
    exact ⟨.inl, fun h => h.elim id fun heq => heq ▸ hc⟩
  · simp

@[simp] theorem facts_addConcept : (t.addConcept c).facts = t.facts := by
  unfold addConcept
  split <;> rfl

theorem Sound.addConcept (h : t.Sound) (c : Concept) : (t.addConcept c).Sound where
  known k p hfact := by
    obtain ⟨hk, hp⟩ := h.known k p (by simpa [IsA] using hfact)
    exact ⟨mem_addConcept.mpr (.inl hk), mem_addConcept.mpr (.inl hp)⟩
  once := by
    rw [facts_addConcept]
    exact h.once

/-- Whether a fact closes a circle is asked before anything is added. -/
theorem addFact_of_subsumes (t : Taxonomy) (c p : Concept) : t.addFact c p =
    if c == p || t.subsumes c p then
      .error (.malformedDefinition (c.urn ++ " is-a " ++ p.urn) "the taxonomy would become cyclic")
    else
      let t := (t.addConcept c).addConcept p
      if (c, p) ∈ t.facts then .ok t else .ok { t with facts := t.facts ++ [(c, p)] } := by
  rw [addFact, Edit.made, adding, Edit.on_bind_ok (Edit.on_get t)]
  cases c == p || t.subsumes c p with
  | true => rfl
  | false =>
    rw [if_neg Bool.false_ne_true, if_neg Bool.false_ne_true, Edit.on_bind_ok (Edit.on_modify _ _),
      Edit.on_bind_ok (Edit.on_modify _ _), Edit.on_modify]
    dsimp only
    split <;> rfl

theorem atomic_edit (e : Addition) : Edit.Atomic e.edit := by
  cases e with
  | concept c => exact .of_sure (.modify _)
  | fact child parent =>
    refine .bind .get fun t => ?_
    split
    · exact .of_reads (.throw _)
    · exact .of_sure ((Edit.Sure.modify _).bind fun _ => (Edit.Sure.modify _).bind fun _ =>
        .modify _)

/-- A fact is refused when its first concept stands at or above its second one. -/
theorem addFact_eq_error (h : t.Sound) {e : CatalogError} :
    t.addFact c p = .error e ↔ ReflTransGen t.IsA p c ∧
      e = .malformedDefinition (c.urn ++ " is-a " ++ p.urn) "the taxonomy would become cyclic" := by
  have hcircle : (c == p || t.subsumes c p) = true ↔ ReflTransGen t.IsA p c := by
    rw [Bool.or_eq_true, beq_iff_eq, subsumes_iff h]
    exact or_iff_right_of_imp fun heq => heq ▸ .refl
  rw [addFact_of_subsumes]
  by_cases hback : ReflTransGen t.IsA p c
  · rw [if_pos (hcircle.mpr hback)]
    simp [hback, eq_comm]
  · rw [if_neg (mt hcircle.mp hback)]
    simp only [hback, false_and, iff_false]
    split <;> exact fun h => nomatch h

theorem addFact_eq_ok (hback : ¬ ReflTransGen t.IsA p c) (h : t.Sound) :
    ∃ t', t.addFact c p = .ok t' ∧ t'.Sound ∧
      ∀ f, f ∈ t'.facts ↔ f ∈ t.facts ++ [(c, p)] := by
  cases hadd : t.addFact c p with
  | error e => exact absurd ((addFact_eq_error h).mp hadd).1 hback
  | ok t' =>
    refine ⟨t', rfl, ?_⟩
    have hs : ((t.addConcept c).addConcept p).Sound := (h.addConcept c).addConcept p
    rw [addFact_of_subsumes] at hadd
    split at hadd
    · cases hadd
    · simp only [facts_addConcept] at hadd
      split at hadd
      · rename_i hold
        cases hadd
        refine ⟨hs, fun f => ?_⟩
        simp only [facts_addConcept, List.mem_append, List.mem_singleton]
        exact ⟨.inl, fun hf => hf.elim id fun heq => heq ▸ hold⟩
      · rename_i hnew
        cases hadd
        refine ⟨⟨fun k q hfact => ?_, ?_⟩, fun f => Iff.rfl⟩
        · rcases List.mem_append.mp hfact with hold | hlast
          · exact hs.known k q (by simpa [IsA] using hold)
          · obtain ⟨rfl, rfl⟩ : k = c ∧ q = p := by simpa using hlast
            exact ⟨mem_addConcept.mpr (.inl (mem_addConcept.mpr (.inr rfl))),
              mem_addConcept.mpr (.inr rfl)⟩
        · exact h.once.append (List.nodup_singleton _) (by simpa using hnew)

theorem edit_fact_ok {t' : Taxonomy} (h : t.addFact c p = .ok t') :
    t.edit (.fact c p) = (t', none) := Edit.after_of_made h

theorem edit_fact_isSome (h : t.Sound) :
    (t.edit (.fact c p)).2.isSome ↔ ReflTransGen t.IsA p c := by
  constructor
  · intro hsome
    by_contra hback
    obtain ⟨t', hadd, -⟩ := addFact_eq_ok hback h
    rw [edit_fact_ok hadd] at hsome
    cases hsome
  · intro hback
    have hadd := (addFact_eq_error h).mpr ⟨hback, rfl⟩
    rw [edit, (atomic_edit (.fact c p)).after_of_made hadd]
    rfl

/-- What is refused leaves the taxonomy as it was. -/
theorem edit_of_isSome {e : Addition} (h : (t.edit e).2.isSome) : (t.edit e).1 = t :=
  (atomic_edit e).after_of_isSome h

/-! ## Additions one after the other -/

/-- The facts of a taxonomy are some accepted facts, in which there is no circle. -/
structure Holds (t : Taxonomy) (facts : List (Concept × Concept)) : Prop where
  sound : t.Sound
  facts : ∀ f, f ∈ t.facts ↔ f ∈ facts
  acyclic : Acyclic t.facts

theorem Holds.edit (h : t.Holds facts) (e : Addition) : (t.edit e).1.Holds (acceptInto facts e) := by
  cases e with
  | concept c =>
    refine ⟨h.sound.addConcept c, fun f => ?_, ?_⟩
    · exact (iff_of_eq (congrArg (f ∈ ·) facts_addConcept)).trans (h.facts f)
    · exact (congrArg Acyclic facts_addConcept).mpr h.acyclic
  | fact child parent =>
    have hconcat : ∀ f, f ∈ t.facts ++ [(child, parent)] ↔ f ∈ facts ++ [(child, parent)] := by
      simp [h.facts]
    have hcircle := acyclic_concat (c := child) (p := parent) h.acyclic
    by_cases hback : ReflTransGen t.IsA parent child
    · have hrefused := edit_of_isSome ((edit_fact_isSome h.sound).mpr hback)
      have hclosed : ¬ Acyclic (facts ++ [(child, parent)]) := by
        rw [← acyclic_congr hconcat, hcircle]
        exact not_not_intro hback
      rw [hrefused, acceptInto, if_neg hclosed]
      exact h
    · obtain ⟨t', hadd, hsound, hfacts⟩ := addFact_eq_ok hback h.sound
      have hopen : Acyclic (t.facts ++ [(child, parent)]) := hcircle.mpr hback
      rw [edit_fact_ok hadd, acceptInto, if_pos ((acyclic_congr hconcat).mp hopen)]
      exact ⟨hsound, fun f => (hfacts f).trans (hconcat f), (acyclic_congr hfacts).mpr hopen⟩

theorem holds_foldl (h : t.Holds facts) (edits : List Addition) :
    (edits.foldl (fun t e => (t.edit e).1) t).Holds (edits.foldl acceptInto facts) := by
  induction edits generalizing t facts with
  | nil => exact h
  | cons e edits ih => exact ih (h.edit e)

theorem holds_edited (isStrict : Bool) (edits : List Addition) :
    (edited isStrict edits).Holds (accepted edits) := by
  have hnone : Sound { isStrict } := ⟨fun _ _ hfact => (nomatch hfact), List.nodup_nil⟩
  refine holds_foldl ⟨hnone, fun _ => Iff.rfl, fun c hc => ?_⟩ edits
  obtain ⟨_, hfact, -⟩ := TransGen.head'_iff.mp hc
  cases hfact

theorem Holds.transGen_iff (h : t.Holds facts) :
    TransGen t.IsA x y ↔ x ≠ y ∧ ReflTransGen t.IsA x y := by
  refine ⟨fun hxy => ⟨?_, hxy.to_reflTransGen⟩, fun ⟨hne, hxy⟩ => ?_⟩
  · rintro rfl
    exact h.acyclic x hxy
  · exact (reflTransGen_iff_eq_or_transGen.mp hxy).resolve_left (Ne.symm hne)

theorem Holds.isPartialOrder (h : t.Holds facts) :
    IsPartialOrder Concept fun s g => t.subsumes g s = true where
  refl c := (subsumes_iff h.sound).mpr .refl
  trans a b c hab hbc := by
    rw [subsumes_iff h.sound] at hab hbc ⊢
    exact hab.trans hbc
  antisymm a b hab hba := by
    rw [subsumes_iff h.sound] at hab hba
    by_contra hne
    exact h.acyclic a ((h.transGen_iff.mpr ⟨hne, hab⟩).trans_left hba)

/-- Whatever is added to a taxonomy, its facts are those that closed no circle, subsumption is the
order that they generate, and the concepts below another one come once each, the nearest first. -/
theorem edited_ordered (isStrict : Bool) (edits : List Addition) :
    let t := edited isStrict edits
    (∀ f, f ∈ t.facts ↔ f ∈ accepted edits) ∧ Acyclic t.facts ∧
    (IsPartialOrder Concept fun s g => t.subsumes g s = true) ∧
    (∀ child parent, (t.edit (.fact child parent)).2.isSome ↔
      ¬ Acyclic (t.facts ++ [(child, parent)])) ∧
    (∀ e, (t.edit e).2.isSome → (t.edit e).1 = t) ∧
    (∀ g s, t.subsumes g s = true ↔ ReflTransGen t.IsA s g) ∧
    ∀ g, (t.below g).Nodup ∧ (∀ s, s ∈ t.below g ↔ TransGen t.IsA s g) ∧
      (t.below g).Pairwise fun a b => t.distance g a ≤ t.distance g b := by
  intro t
  have h : t.Holds (accepted edits) := holds_edited isStrict edits
  refine ⟨h.facts, h.acyclic, h.isPartialOrder, fun child parent => ?_,
    fun e => edit_of_isSome, fun g s => subsumes_iff h.sound, fun g => ?_⟩
  · rw [edit_fact_isSome h.sound, acyclic_concat h.acyclic]
    exact not_not.symm
  · refine ⟨nodup_below h.sound g, fun s => ?_, sorted_below h.sound g⟩
    rw [mem_below h.sound, h.transGen_iff]

end Obsplan.Taxonomy
