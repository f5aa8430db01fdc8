import Mathlib.Order.Defs.LinearOrder
import Mathlib.Data.String.Basic
import Obsplan.Candidate
import Obsplan.Proofs.Scale.Region

/-!
# The order of candidates

One candidate outranks another one when it is better in the first respect in which they differ. As
long as the covered fractions have a place among the numbers, of two candidates with different names
one always outranks the other one.
-/

namespace Obsplan.Candidate

open LawfulCoordinate

variable {α : Type} [Coordinate α] {a b c : Candidate α}

/-- A candidate is better in the first respect in which it differs from another one. -/
inductive Outranks (a b : Candidate α) : Prop where
  | preferred : a.isPreferred = true → b.isPreferred = false → Outranks a b
  | priority : a.isPreferred = b.isPreferred → b.model.priority < a.model.priority → Outranks a b
  | exact : a.isPreferred = b.isPreferred → a.model.priority = b.model.priority →
      a.isExact = true → b.isExact = false → Outranks a b
  | fraction : a.isPreferred = b.isPreferred → a.model.priority = b.model.priority →
      a.isExact = b.isExact → b.coverage.fraction < a.coverage.fraction → Outranks a b
  | name : a.isPreferred = b.isPreferred → a.model.priority = b.model.priority →
      a.isExact = b.isExact → a.coverage.fraction ≤ b.coverage.fraction →
      b.coverage.fraction ≤ a.coverage.fraction → a.model.urn < b.model.urn → Outranks a b

/-- The fraction of a candidate can be compared. -/
def Placed (a : Candidate α) : Prop := a.coverage.fraction ≤ a.coverage.fraction

variable [LawfulCoordinate α]

theorem Outranks.trans (hab : Outranks a b) (hbc : Outranks b c) : Outranks a c := by
  cases hab with
  | preferred ha hb =>
    cases hbc with
    | preferred hb' => rw [hb] at hb'; cases hb'
    | priority h => exact .preferred ha (h ▸ hb)
    | exact h => exact .preferred ha (h ▸ hb)
    | fraction h => exact .preferred ha (h ▸ hb)
    | name h => exact .preferred ha (h ▸ hb)
  | priority h hlt =>
    cases hbc with
    | preferred hb hc => exact .preferred (h.trans hb) hc
    | priority h' hlt' => exact .priority (h.trans h') (lt_trans hlt' hlt)
    | exact h' hp => exact .priority (h.trans h') (hp ▸ hlt)
    | fraction h' hp => exact .priority (h.trans h') (hp ▸ hlt)
    | name h' hp => exact .priority (h.trans h') (hp ▸ hlt)
  | exact h hp ha hb =>
    cases hbc with
    | preferred hb' hc => exact .preferred (h.trans hb') hc
    | priority h' hlt => exact .priority (h.trans h') (hp ▸ hlt)
    | exact h' hp' hb' => rw [hb] at hb'; cases hb'
    | fraction h' hp' he => exact .exact (h.trans h') (hp.trans hp') ha (he ▸ hb)
    | name h' hp' he => exact .exact (h.trans h') (hp.trans hp') ha (he ▸ hb)
  | fraction h hp he hlt =>
    cases hbc with
    | preferred hb hc => exact .preferred (h.trans hb) hc
    | priority h' hlt' => exact .priority (h.trans h') (hp ▸ hlt')
    | exact h' hp' hb hc => exact .exact (h.trans h') (hp.trans hp') (he.trans hb) hc
    | fraction h' hp' he' hlt' =>
      exact .fraction (h.trans h') (hp.trans hp') (he.trans he')
        (lt_of_lt_of_le hlt' (le_of_lt hlt))
    | name h' hp' he' _ hge =>
      exact .fraction (h.trans h') (hp.trans hp') (he.trans he') (lt_of_le_of_lt hge hlt)
  | name h hp he hle hge hlt =>
    cases hbc with
    | preferred hb hc => exact .preferred (h.trans hb) hc
    | priority h' hlt' => exact .priority (h.trans h') (hp ▸ hlt')
    | exact h' hp' hb hc => exact .exact (h.trans h') (hp.trans hp') (he.trans hb) hc
    | fraction h' hp' he' hlt' =>
      exact .fraction (h.trans h') (hp.trans hp') (he.trans he') (lt_of_lt_of_le hlt' hge)
    | name h' hp' he' hle' hge' hlt' =>
      exact .name (h.trans h') (hp.trans hp') (he.trans he') (le_trans hle hle') (le_trans hge' hge)
        (lt_trans hlt hlt')

theorem outranks_or (ha : a.Placed) (hb : b.Placed) (hne : a.model.urn ≠ b.model.urn) :
    Outranks a b ∨ Outranks b a := by
  by_cases hpreferred : a.isPreferred = b.isPreferred
  · rcases lt_trichotomy a.model.priority b.model.priority with hlt | hpriority | hlt
    · exact .inr (.priority hpreferred.symm hlt)
    · by_cases hexact : a.isExact = b.isExact
      · rcases lt_or_le ha hb with hlt | hba
        · exact .inr (.fraction hpreferred.symm hpriority.symm hexact.symm hlt)
        · rcases lt_or_le hb ha with hlt | hab
          · exact .inl (.fraction hpreferred hpriority hexact hlt)
          · rcases lt_or_gt_of_ne hne with hlt | hlt
            · exact .inl (.name hpreferred hpriority hexact hab hba hlt)
            · exact .inr (.name hpreferred.symm hpriority.symm hexact.symm hba hab hlt)
      · cases hea : a.isExact with
        | true => exact .inl (.exact hpreferred hpriority hea (by simpa [hea] using hexact))
        | false =>
          exact .inr (.exact hpreferred.symm hpriority.symm (by simpa [hea] using hexact) hea)
    · exact .inl (.priority hpreferred hlt)
  · cases hpa : a.isPreferred with
    | true => exact .inl (.preferred hpa (by simpa [hpa] using hpreferred))
    | false => exact .inr (.preferred (by simpa [hpa] using hpreferred) hpa)

/-- The comparison that candidates are arranged by decides whether one outranks another one. -/
theorem precedes_iff (ha : a.Placed) (hb : b.Placed) : precedes a b = true ↔ Outranks a b := by
  constructor
  · intro h
    unfold precedes at h
    split at h
    · rename_i hne
      exact .preferred h (by simpa [h] using hne)
    · rename_i hpreferred
      have hpreferred : a.isPreferred = b.isPreferred := by simpa using hpreferred
      split at h
      · exact .priority hpreferred (of_decide_eq_true h)
      · rename_i hpriority
        have hpriority : a.model.priority = b.model.priority := not_not.mp hpriority
        split at h
        · rename_i hne
          exact .exact hpreferred hpriority h (by simpa [h] using hne)
        · rename_i hexact
          have hexact : a.isExact = b.isExact := by simpa using hexact
          split at h
          · exact .fraction hpreferred hpriority hexact ‹_›
          · rename_i hgreater
            split at h
            · cases h
            · rename_i hless
              exact .name hpreferred hpriority hexact ((lt_or_le hb ha).resolve_left hgreater)
                ((lt_or_le ha hb).resolve_left hless) (of_decide_eq_true h)
  · intro h
    unfold precedes
    cases h with
    | preferred ha hb => simp [ha, hb]
    | priority h hlt => simp [h, hlt, Int.ne_of_gt hlt]
    | exact h hp ha hb => simp [h, hp, ha, hb]
    | fraction h hp he hlt => simp [h, hp, he, hlt]
    | name h hp he hle hge hlt => simp [h, hp, he, not_lt hle, not_lt hge, hlt]

/-- Candidates of different models are arranged by rank. -/
theorem pairwise_arrange_precedes {cs : List (Candidate α)} (hplaced : ∀ c ∈ cs, c.Placed)
    (hnames : (cs.map (·.model.urn)).Nodup) : (arrange precedes cs).Pairwise Outranks := by
  have hsorted : (arrange precedes cs).Pairwise fun a b => precedes a b := by
    refine pairwise_arrange (fun x hx y hy z hz hzy hyx => ?_) ?_
    · rw [precedes_iff (hplaced z hz) (hplaced y hy)] at hzy
      rw [precedes_iff (hplaced y hy) (hplaced x hx)] at hyx
      exact (precedes_iff (hplaced z hz) (hplaced x hx)).mpr (hzy.trans hyx)
    · refine (List.pairwise_map.mp hnames).imp_of_mem fun {a b} ha hb hne => ?_
      rw [precedes_iff (hplaced a ha) (hplaced b hb), precedes_iff (hplaced b hb) (hplaced a ha)]
      exact outranks_or (hplaced a ha) (hplaced b hb) hne
  refine hsorted.imp_of_mem fun {a b} ha hb hab => ?_
  exact (precedes_iff (hplaced a (mem_arrange.mp ha)) (hplaced b (mem_arrange.mp hb))).mp hab

end Obsplan.Candidate
