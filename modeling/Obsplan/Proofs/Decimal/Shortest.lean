import Mathlib.Algebra.Order.Field.Power
import Mathlib.Data.Rat.Cast.Order
import Mathlib.Order.Compare
import Mathlib.Tactic.FieldSimp
import Mathlib.Tactic.Linarith
import Mathlib.Tactic.Positivity
import Mathlib.Tactic.Ring
import Obsplan.Decimal.Shortest

/-!
# Shortest decimals and rounding

The reals that round to a binary number form an interval around it. The shortest decimal of a number
lies in its interval, and no real lies in the intervals of two numbers. So numbers of the same
shortest decimal have the same magnitude.
-/

namespace Obsplan.Decimal

/-- The value of a decimal. -/
def Numeral.value (d : Numeral) : ℚ := d.digits * 10 ^ d.exponent

theorem zpow_eq_div (a : ℚ) (i : ℤ) : a ^ i = a ^ i.toNat / a ^ (-i).toNat := by
  rcases Int.le_total 0 i with h | h
  · have hneg : (-i).toNat = 0 := by omega
    rw [hneg, pow_zero, div_one, ← zpow_natCast, Int.toNat_of_nonneg h]
  · have hpos : i.toNat = 0 := by omega
    rw [hpos, pow_zero, one_div, ← zpow_natCast, Int.toNat_of_nonneg (by omega), zpow_neg, inv_inv]

/-- Naturals that are scaled by powers of ten and two are compared as rationals. -/
theorem compareScaled_eq (a : Nat) (i : ℤ) (n : Nat) (j : ℤ) :
    compareScaled a i n j = compare ((a : ℚ) * 10 ^ i) ((n : ℚ) * 2 ^ j) := by
  have hten : (0 : ℚ) < 10 ^ (-i).toNat := by positivity
  have htwo : (0 : ℚ) < 2 ^ (-j).toNat := by positivity
  have hpos := mul_pos hten htwo
  have hleft : ((a * Nat.pow 10 i.toNat * Nat.pow 2 (-j).toNat : Nat) : ℚ) =
      a * 10 ^ i * (10 ^ (-i).toNat * 2 ^ (-j).toNat) := by
    rw [zpow_eq_div 10 i]
    push_cast [Nat.pow_eq]
    field_simp
  have hright : ((n * Nat.pow 2 j.toNat * Nat.pow 10 (-i).toNat : Nat) : ℚ) =
      n * 2 ^ j * (10 ^ (-i).toNat * 2 ^ (-j).toNat) := by
    rw [zpow_eq_div 2 j]
    push_cast [Nat.pow_eq]
    field_simp
  unfold compareScaled
  rcases lt_trichotomy ((a : ℚ) * 10 ^ i) (n * 2 ^ j) with h | h | h
  · rw [compare_lt_iff_lt.mpr h, compare_lt_iff_lt, ← Nat.cast_lt (α := ℚ), hleft, hright]
    exact mul_lt_mul_of_pos_right h hpos
  · rw [compare_eq_iff_eq.mpr h, compare_eq_iff_eq, ← Nat.cast_inj (R := ℚ), hleft, hright, h]
  · rw [compare_gt_iff_gt.mpr h, compare_gt_iff_gt, ← Nat.cast_lt (α := ℚ), hleft, hright]
    exact mul_lt_mul_of_pos_right h hpos

/-! ## Rounding intervals -/

/-- The lower end of the interval of the reals that round to `x`. -/
def Dyadic.lower (x : Dyadic) : ℚ :=
  (4 * x.mantissa - if x.narrowBelow then 1 else 2) * 2 ^ (x.exponent - 2)

/-- The upper end of the interval of the reals that round to `x`. -/
def Dyadic.upper (x : Dyadic) : ℚ := (4 * x.mantissa + 2) * 2 ^ (x.exponent - 2)

/-- A rational rounds to `x`. The ends of the interval do so when the mantissa is even. -/
def Dyadic.Rounds (x : Dyadic) (v : ℚ) : Prop :=
  (x.lower < v ∨ x.mantissa % 2 = 0 ∧ x.lower = v) ∧ (v < x.upper ∨ x.mantissa % 2 = 0 ∧ v = x.upper)

theorem Dyadic.lower_lt_upper (x : Dyadic) : x.lower < x.upper := by
  have hpow : (0 : ℚ) < 2 ^ (x.exponent - 2) := by positivity
  unfold lower upper
  refine mul_lt_mul_of_pos_right ?_ hpow
  split <;> linarith

theorem Dyadic.readsBack_iff {x : Dyadic} (hx : 0 < x.mantissa) (d : Numeral) :
    x.readsBack d = true ↔ x.Rounds d.value := by
  have hlow : (((if x.narrowBelow then 4 * x.mantissa - 1 else 4 * x.mantissa - 2 : Nat)) : ℚ) =
      4 * x.mantissa - if x.narrowBelow then 1 else 2 := by
    split
    · rw [Nat.cast_sub (by omega)]; push_cast; rfl
    · rw [Nat.cast_sub (by omega)]; push_cast; rfl
  simp only [readsBack, compareScaled_eq, hlow, Nat.cast_add, Nat.cast_mul, Nat.cast_ofNat]
  rw [← Numeral.value, ← lower, ← upper]
  simp only [Bool.and_eq_true, Bool.or_eq_true, beq_iff_eq, compare_lt_iff_lt, compare_gt_iff_gt,
    compare_eq_iff_eq, Rounds, eq_comm (a := x.lower)]

theorem Numeral.value_strip (fuel : Nat) (d : Numeral) : (d.strip fuel).value = d.value := by
  induction fuel generalizing d with
  | zero => rfl
  | succ fuel ih =>
    simp only [strip]
    split
    · rename_i h
      rw [ih]
      have hdigits : (d.digits : ℚ) = (d.digits / 10 : Nat) * 10 := by
        exact_mod_cast (Nat.div_mul_cancel (Nat.dvd_of_mod_eq_zero h.2)).symm
      rw [value, value, zpow_add_one₀ (by norm_num), hdigits]
      ring
    · rfl

theorem Dyadic.value_exact (x : Dyadic) : x.exact.value = x.mantissa * 2 ^ x.exponent := by
  have hten : (10 : ℚ) ^ (-x.exponent).toNat = 2 ^ (-x.exponent).toNat * 5 ^ (-x.exponent).toNat := by
    rw [← mul_pow]; norm_num
  rw [Numeral.value, exact, zpow_eq_div 2, zpow_neg, zpow_natCast, hten]
  push_cast [Nat.pow_eq]
  field_simp

theorem Dyadic.rounds_exact (x : Dyadic) : x.Rounds x.exact.value := by
  have hpow : (0 : ℚ) < 2 ^ (x.exponent - 2) := by positivity
  have hexact : x.exact.value = 4 * x.mantissa * 2 ^ (x.exponent - 2) := by
    rw [value_exact, zpow_sub₀ (by norm_num)]
    norm_num
    ring
  rw [hexact]
  refine ⟨.inl (mul_lt_mul_of_pos_right ?_ hpow), .inl (mul_lt_mul_of_pos_right ?_ hpow)⟩
  · split <;> linarith
  · linarith

theorem Dyadic.readsBack_nearestOnGrid? {tie : Tie} {x : Dyadic} {g : ℤ} {d : Numeral}
    (h : x.nearestOnGrid? tie g = some d) : x.readsBack d = true := by
  simp only [nearestOnGrid?] at h
  split at h
  · cases h
  · cases h; assumption
  · cases h; assumption
  · split at h
    · cases h; assumption
    · cases h; assumption
    · cases h; assumption
    · cases h; split <;> assumption

/-- The shortest decimal of a number rounds back to it. -/
theorem Dyadic.rounds_shortest {x : Dyadic} (hx : 0 < x.mantissa) (tie : Tie) :
    x.Rounds (x.shortest tie).value := by
  rw [shortest, Numeral.value_strip]
  match h : (List.range 17).findSome? fun n : Nat => x.nearestOnGrid? tie (x.scale - n - 1) with
  | none => exact x.rounds_exact
  | some d =>
    obtain ⟨n, -, hn⟩ := List.exists_of_findSome?_eq_some h
    exact (readsBack_iff hx d).mp (readsBack_nearestOnGrid? hn)

/-! ## Neighbours -/

/-- The magnitude of a biased exponent and a fraction. -/
def Dyadic.ofParts (biased fraction : Nat) : Dyadic :=
  if biased = 0 then ⟨fraction, -1074, false⟩
  else ⟨leadingBit + fraction, (biased : ℤ) - 1075, fraction == 0 && decide (1 < biased)⟩

/-- The magnitude whose bits are a natural. -/
def Dyadic.ofMagnitude (k : Nat) : Dyadic := ofParts (k / leadingBit) (k % leadingBit)

theorem Dyadic.ofNumber_eq (x : Number) : ofNumber x = ofMagnitude x.magnitude := by
  have hbiased : x.bits.toNat / leadingBit % 0x800 = x.magnitude / leadingBit := by
    simp only [Number.magnitude, Number.signBit, leadingBit]; omega
  have hfraction : x.bits.toNat % leadingBit = x.magnitude % leadingBit := by
    simp only [Number.magnitude, Number.signBit, leadingBit]; omega
  simp only [ofNumber, ofMagnitude, ofParts, hbiased, hfraction]

theorem Dyadic.mantissa_parity (k : Nat) : (ofMagnitude k).mantissa % 2 = k % 2 := by
  unfold ofMagnitude ofParts
  split
  · simp only [leadingBit]; omega
  · simp only [leadingBit]; omega

theorem Dyadic.upper_ofParts (biased fraction : Nat) :
    (ofParts biased fraction).upper = (ofParts biased (fraction + 1)).lower := by
  cases biased with
  | zero =>
    simp only [ofParts, upper, lower, reduceIte, Bool.false_eq_true, Nat.cast_add, Nat.cast_one]
    congr 1
    ring
  | succ b =>
    have hnarrow : (fraction + 1 == 0 && decide (1 < b + 1)) = false := by simp
    simp only [ofParts, upper, lower, Nat.succ_ne_zero, reduceIte, hnarrow, Bool.false_eq_true]
    push_cast
    ring

/-- Where the exponent grows, the numbers below lie half as far apart. -/
theorem Dyadic.upper_ofParts_last (biased : Nat) :
    (ofParts biased (leadingBit - 1)).upper = (ofParts (biased + 1) 0).lower := by
  cases biased with
  | zero =>
    have hpow : ((0 + 1 : Nat) : ℤ) - 1075 - 2 = -1074 - 2 := by norm_num
    simp only [ofParts, upper, lower, Nat.succ_ne_zero, reduceIte, Nat.lt_irrefl, decide_false,
      Bool.and_false, Bool.false_eq_true, hpow]
    congr 1
    norm_num [leadingBit]
  | succ b =>
    have hpow : (2 : ℚ) ^ (((b + 1 + 1 : Nat) : ℤ) - 1075 - 2) =
        2 ^ (((b + 1 : Nat) : ℤ) - 1075 - 2) * 2 := by
      rw [← zpow_add_one₀ (by norm_num)]
      congr 1
      push_cast
      ring
    have hnarrow : (0 == 0 && decide (1 < b + 1 + 1)) = true := by simp
    simp only [ofParts, upper, lower, Nat.succ_ne_zero, reduceIte, hnarrow]
    rw [hpow]
    norm_num [leadingBit]
    ring

/-- The intervals of numbers next to each other meet in one end. -/
theorem Dyadic.upper_ofMagnitude (k : Nat) :
    (ofMagnitude k).upper = (ofMagnitude (k + 1)).lower := by
  unfold ofMagnitude
  by_cases hlast : k % leadingBit + 1 = leadingBit
  · have hdiv : (k + 1) / leadingBit = k / leadingBit + 1 := by
      simp only [leadingBit] at hlast ⊢; omega
    have hmod : (k + 1) % leadingBit = 0 := by simp only [leadingBit] at hlast ⊢; omega
    have hfraction : k % leadingBit = leadingBit - 1 := by omega
    rw [hdiv, hmod, hfraction, upper_ofParts_last]
  · have hdiv : (k + 1) / leadingBit = k / leadingBit := by
      simp only [leadingBit] at hlast ⊢; omega
    have hmod : (k + 1) % leadingBit = k % leadingBit + 1 := by
      simp only [leadingBit] at hlast ⊢; omega
    rw [hdiv, hmod, upper_ofParts]

theorem Dyadic.lower_strictMono : StrictMono fun k => (ofMagnitude k).lower :=
  strictMono_nat_of_lt_succ fun k => by
    rw [← upper_ofMagnitude]
    exact lower_lt_upper _

theorem Dyadic.Rounds.lower_le {x : Dyadic} {v : ℚ} (h : x.Rounds v) :
    x.lower ≤ v ∧ (x.lower = v → x.mantissa % 2 = 0) := by
  rcases h.1 with h | ⟨heven, h⟩
  · exact ⟨h.le, fun he => absurd he h.ne⟩
  · exact ⟨h.le, fun _ => heven⟩

theorem Dyadic.Rounds.le_upper {x : Dyadic} {v : ℚ} (h : x.Rounds v) :
    v ≤ x.upper ∧ (v = x.upper → x.mantissa % 2 = 0) := by
  rcases h.2 with h | ⟨heven, h⟩
  · exact ⟨h.le, fun he => absurd he h.ne⟩
  · exact ⟨h.le, fun _ => heven⟩

theorem Dyadic.Rounds.not_lt {j k : Nat} {v : ℚ} (hj : (ofMagnitude j).Rounds v)
    (hk : (ofMagnitude k).Rounds v) : ¬ j < k := by
  intro hlt
  obtain ⟨hupper, hevenj⟩ := hj.le_upper
  obtain ⟨hlower, hevenk⟩ := hk.lower_le
  rw [upper_ofMagnitude] at hupper hevenj
  have hmono := lower_strictMono.monotone (Nat.succ_le_of_lt hlt)
  have hnext : j + 1 = k := lower_strictMono.injective (le_antisymm hmono (hlower.trans hupper))
  subst hnext
  have hends := le_antisymm hupper hlower
  -- the common end belongs to one of the neighbours only
  have := hevenj hends
  have := hevenk hends.symm
  rw [mantissa_parity] at *
  omega

/-- No rational rounds to two numbers. -/
theorem Dyadic.Rounds.unique {j k : Nat} {v : ℚ} (hj : (ofMagnitude j).Rounds v)
    (hk : (ofMagnitude k).Rounds v) : j = k :=
  Nat.le_antisymm (Nat.le_of_not_lt (hk.not_lt hj)) (Nat.le_of_not_lt (hj.not_lt hk))

end Obsplan.Decimal
