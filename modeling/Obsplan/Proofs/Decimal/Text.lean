import Mathlib.Data.List.TakeWhile
import Obsplan.Decimal.Layout
import Obsplan.Proofs.Decimal.Shortest

/-!
# The texts of bounds

A bound is written in positional form, and that form has only one value. So finite bounds of the
same text are the same number.
-/

namespace Obsplan.Decimal

/-- The value of digits with at most one point among them. -/
def positionalValue (cs : List Char) : ℚ :=
  let places := (cs.dropWhile (· ≠ '.')).drop 1
  Nat.ofDigitChars 10 (cs.takeWhile (· ≠ '.') ++ places) 0 / 10 ^ places.length

theorem no_point {whole : List Char} (hw : '.' ∉ whole) :
    ∀ c ∈ whole, decide (c ≠ '.') = true := by
  intro c hc
  rw [decide_eq_true_eq]
  rintro rfl
  exact hw hc

theorem positionalValue_whole {whole : List Char} (hw : '.' ∉ whole) :
    positionalValue whole = Nat.ofDigitChars 10 whole 0 := by
  rw [positionalValue, List.takeWhile_eq_self_iff.mpr (no_point hw),
    List.dropWhile_eq_nil_iff.mpr (no_point hw)]
  simp

theorem positionalValue_point {whole places : List Char} (hw : '.' ∉ whole) :
    positionalValue (whole ++ '.' :: places) =
      Nat.ofDigitChars 10 (whole ++ places) 0 / 10 ^ places.length := by
  have htake : (whole ++ '.' :: places).takeWhile (fun c => decide (c ≠ '.')) = whole := by
    rw [List.takeWhile_append_of_pos (no_point hw)]; simp
  have hdrop : (whole ++ '.' :: places).dropWhile (fun c => decide (c ≠ '.')) = '.' :: places := by
    rw [List.dropWhile_append_of_pos (no_point hw)]; simp
  simp only [positionalValue, htake, hdrop, List.drop_succ_cons, List.drop_zero]

/-- Digits laid out around a point keep their value. -/
theorem positionalValue_positionalText {ds : String} (hds : ∀ c ∈ ds.toList, c.isDigit = true)
    (point : ℤ) : positionalValue (positionalText ds point false).toList =
      Nat.ofDigitChars 10 ds.toList 0 * 10 ^ (point - ds.length) := by
  have hpoint : '.' ∉ ds.toList := fun h => by simpa using hds _ h
  have hlen : ds.toList.length = ds.length := String.length_toList
  by_cases hsmall : point ≤ 0
  · have htext : (positionalText ds point false).toList =
        ['0'] ++ '.' :: (List.replicate (-point).toNat '0' ++ ds.toList) := by
      simp [positionalText, hsmall, String.toList_append]
    have hexp : point - ds.length = -(((-point).toNat + ds.length : Nat) : ℤ) := by
      push_cast; omega
    rw [htext, positionalValue_point (by decide), hexp, zpow_neg, zpow_natCast]
    simp [Nat.ofDigitChars_append, Nat.ofDigitChars_cons, hlen, div_eq_mul_inv]
  by_cases hlarge : (ds.length : ℤ) ≤ point
  · have htext : (positionalText ds point false).toList =
        ds.toList ++ List.replicate (point - ds.length).toNat '0' := by
      simp [positionalText, hsmall, hlarge, String.toList_append]
    have hzeros : '.' ∉ ds.toList ++ List.replicate (point - ds.length).toNat '0' := by
      simp [hpoint]
    have hexp : point - ds.length = (((point - ds.length).toNat : Nat) : ℤ) := by omega
    rw [htext, positionalValue_whole hzeros, hexp, zpow_natCast]
    simp [Nat.ofDigitChars_append, mul_comm]
  · have htext : (positionalText ds point false).toList =
        ds.toList.take point.toNat ++ '.' :: ds.toList.drop point.toNat := by
      simp [positionalText, hsmall, hlarge, String.toList_append]
    have hwhole : '.' ∉ ds.toList.take point.toNat := fun h => hpoint (List.mem_of_mem_take h)
    have hexp : point - ds.length = -((ds.length - point.toNat : Nat) : ℤ) := by omega
    rw [htext, positionalValue_point hwhole, List.take_append_drop, hexp, zpow_neg, zpow_natCast,
      List.length_drop, hlen, div_eq_mul_inv]

theorem mem_positionalText {ds : String} (hds : ∀ c ∈ ds.toList, c.isDigit = true) {point : ℤ}
    {c : Char} (hc : c ∈ (positionalText ds point false).toList) : c.isDigit = true ∨ c = '.' := by
  simp only [positionalText] at hc
  split at hc
  · simp only [String.toList_append, String.toList_ofList, List.mem_append,
      List.mem_replicate] at hc
    rcases hc with (hc | ⟨-, rfl⟩) | hc
    · have : c = '0' ∨ c = '.' := by simpa using hc
      rcases this with rfl | rfl
      · exact .inl (by decide)
      · exact .inr rfl
    · exact .inl (by decide)
    · exact .inl (hds c hc)
  · split at hc
    · simp only [String.toList_append, String.toList_ofList, List.mem_append, List.mem_replicate,
        Bool.false_eq_true, if_false, String.toList_empty, List.not_mem_nil, or_false] at hc
      rcases hc with hc | ⟨-, rfl⟩
      · exact .inl (hds c hc)
      · exact .inl (by decide)
    · simp only [String.toList_append, String.toList_ofList, List.mem_append] at hc
      rcases hc with (hc | hc) | hc
      · exact .inl (hds c (List.mem_of_mem_take hc))
      · exact .inr (by simpa using hc)
      · exact .inl (hds c (List.mem_of_mem_drop hc))

/-! ## Bounds -/

/-- A finite bound without its sign. -/
def boundBody (x : Number) : String :=
  if (Dyadic.ofNumber x).mantissa = 0 then "0"
  else boundLayout.place ((Dyadic.ofNumber x).shortest boundLayout.tie)

theorem boundLayout_write {x : Number} (hx : x.isFinite = true) :
    boundLayout.write x = signText x.isNegative ++ boundBody x := by
  simp only [Number.isFinite, decide_eq_true_eq] at hx
  have hnan : x.isNaN = false := by simp only [Number.isNaN, decide_eq_false_iff_not]; omega
  have hinf : x.isInf = false := by simp only [Number.isInf, beq_eq_false_iff_ne]; omega
  simp only [Layout.write, hnan, hinf, Bool.false_eq_true, if_false, boundBody]
  split
  · rfl
  · rfl

theorem isDigit_toString (n : Nat) : ∀ c ∈ (toString n).toList, c.isDigit = true := by
  intro c hc
  rw [Nat.toString_eq_repr, Nat.toList_repr] at hc
  exact Nat.isDigit_of_mem_toDigits (by decide) (by decide) hc

theorem boundLayout_place (d : Numeral) : boundLayout.place d =
    positionalText (toString d.digits) ((toString d.digits).length + d.exponent) false := rfl

theorem positionalValue_place (d : Numeral) :
    positionalValue (boundLayout.place d).toList = d.value := by
  rw [boundLayout_place, positionalValue_positionalText (isDigit_toString _), Numeral.value,
    Nat.toString_eq_repr, Nat.toList_repr, Nat.ofDigitChars_ten_toDigits, add_sub_cancel_left]

theorem mem_boundBody {x : Number} {c : Char} (hc : c ∈ (boundBody x).toList) :
    c.isDigit = true ∨ c = '.' := by
  unfold boundBody at hc
  split at hc
  · have : c = '0' := by simpa using hc
    exact .inl (this ▸ by decide)
  · rw [boundLayout_place] at hc
    exact mem_positionalText (isDigit_toString _) hc

/-- The characters of a finite bound. -/
theorem mem_boundLayout_write {x : Number} (hx : x.isFinite = true) {c : Char}
    (hc : c ∈ (boundLayout.write x).toList) : c.isDigit = true ∨ c = '.' ∨ c = '-' := by
  rw [boundLayout_write hx, String.toList_append, List.mem_append] at hc
  rcases hc with hc | hc
  · unfold signText at hc
    split at hc
    · exact .inr (.inr (by simpa using hc))
    · simp at hc
  · exact (mem_boundBody hc).imp_right .inl

theorem Dyadic.Rounds.pos {x : Dyadic} (hx : 0 < x.mantissa) {v : ℚ} (h : x.Rounds v) : 0 < v := by
  have hpow : (0 : ℚ) < 2 ^ (x.exponent - 2) := by positivity
  have hm : (1 : ℚ) ≤ x.mantissa := by exact_mod_cast hx
  refine lt_of_lt_of_le (mul_pos ?_ hpow) h.lower_le.1
  split <;> linarith

theorem Dyadic.mantissa_eq_zero {k : Nat} (h : (ofMagnitude k).mantissa = 0) : k = 0 := by
  unfold ofMagnitude ofParts at h
  split at h
  · simp only [leadingBit] at *; omega
  · simp only [leadingBit] at *; omega

/-- The value of a text is zero for zero only, and rounds to the number otherwise. -/
theorem positionalValue_boundBody (x : Number) :
    (x.magnitude = 0 ∧ positionalValue (boundBody x).toList = 0) ∨
      0 < positionalValue (boundBody x).toList ∧
        (Dyadic.ofMagnitude x.magnitude).Rounds (positionalValue (boundBody x).toList) := by
  unfold boundBody
  rw [Dyadic.ofNumber_eq]
  split
  · rename_i hm
    refine .inl ⟨Dyadic.mantissa_eq_zero hm, ?_⟩
    rw [positionalValue_whole (by decide)]
    exact_mod_cast (by decide : Nat.ofDigitChars 10 "0".toList 0 = 0)
  · rename_i hm
    have hm := Nat.pos_of_ne_zero hm
    have hrounds := Dyadic.rounds_shortest hm boundLayout.tie
    rw [positionalValue_place]
    exact .inr ⟨hrounds.pos hm, hrounds⟩

theorem magnitude_eq_of_boundBody {x y : Number} (h : boundBody x = boundBody y) :
    x.magnitude = y.magnitude := by
  have hx := positionalValue_boundBody x
  have hy := positionalValue_boundBody y
  rw [h] at hx
  rcases hx with ⟨hx, hx'⟩ | ⟨hx', hx⟩
  · rcases hy with ⟨hy, -⟩ | ⟨hy', -⟩
    · rw [hx, hy]
    · exact absurd hx' hy'.ne'
  · rcases hy with ⟨-, hy'⟩ | ⟨-, hy⟩
    · exact absurd hy' hx'.ne'
    · exact hx.unique hy

theorem Number.ext_magnitude {x y : Number} (hm : x.magnitude = y.magnitude)
    (hn : x.isNegative = y.isNegative) : x = y := by
  obtain ⟨a⟩ := x
  obtain ⟨b⟩ := y
  congr 1
  apply UInt64.toNat_inj.mp
  have ha := a.toNat_lt
  have hb := b.toNat_lt
  have hn := decide_eq_decide.mp hn
  simp only [Number.magnitude, Number.signBit] at hm hn
  omega

theorem minus_notMem_boundBody (x : Number) : '-' ∉ (boundBody x).toList := by
  intro h
  rcases mem_boundBody h with hc | hc
  · exact absurd hc (by decide)
  · exact absurd hc (by decide)

/-- The sign of a bound can be read off its text. -/
theorem signText_append_inj {b b' : Bool} {x y : Number}
    (h : signText b ++ boundBody x = signText b' ++ boundBody y) :
    b = b' ∧ boundBody x = boundBody y := by
  have hlist := congrArg String.toList h
  rw [String.toList_append, String.toList_append] at hlist
  cases b <;> cases b'
  · exact ⟨rfl, String.toList_inj.mp (by simpa [signText] using hlist)⟩
  · have hx : (boundBody x).toList = '-' :: (boundBody y).toList := by simpa [signText] using hlist
    exact absurd (hx ▸ List.mem_cons_self) (minus_notMem_boundBody x)
  · have hy : '-' :: (boundBody x).toList = (boundBody y).toList := by simpa [signText] using hlist
    exact absurd (hy ▸ List.mem_cons_self) (minus_notMem_boundBody y)
  · exact ⟨rfl, String.toList_inj.mp (by simpa [signText] using hlist)⟩

/-- Finite bounds of the same text are the same number. -/
theorem boundLayout_write_injective {x y : Number} (hx : x.isFinite = true) (hy : y.isFinite = true)
    (h : boundLayout.write x = boundLayout.write y) : x = y := by
  rw [boundLayout_write hx, boundLayout_write hy] at h
  obtain ⟨hsign, hbody⟩ := signText_append_inj h
  exact Number.ext_magnitude (magnitude_eq_of_boundBody hbody) hsign

end Obsplan.Decimal
