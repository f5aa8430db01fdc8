import Mathlib.Data.List.TakeWhile
import Obsplan.Proofs.Decimal.Text
import Obsplan.Proofs.Observable.Definition
import Obsplan.Version

/-!
# The texts of versions

Trimming a text loses blanks only, and cutting it loses nothing but the separators. So a version is
read back from its text, and a text that holds other signs than those of a version is not read as
one.
-/

namespace Obsplan

/-! ## Cutting and trimming texts -/

namespace Text

variable {p : Char → Bool} {cs front rest : List Char} {sep c : Char} {s t : String}

theorem toList_trim (s : String) : (trim s).toList = trimBoth isBlank s.toList :=
  String.toList_ofList

theorem mem_of_mem_trimBoth (h : c ∈ trimBoth p cs) : c ∈ cs := by
  have hrest : c ∈ (trimStart p cs).reverse :=
    (List.dropWhile_suffix p).subset (List.mem_reverse.mp h)
  exact (List.dropWhile_suffix p).subset (List.mem_reverse.mp hrest)

theorem mem_dropWhile (hc : p c = false) (h : c ∈ cs) : c ∈ cs.dropWhile p := by
  rw [← List.takeWhile_append_dropWhile (p := p) (l := cs), List.mem_append] at h
  refine h.resolve_left fun hfront => ?_
  rw [List.mem_takeWhile_imp hfront] at hc
  cases hc

/-- Only characters that are trimmed get lost. -/
theorem mem_trimBoth (hc : p c = false) (h : c ∈ cs) : c ∈ trimBoth p cs :=
  List.mem_reverse.mpr (mem_dropWhile hc (List.mem_reverse.mpr (mem_dropWhile hc h)))

theorem dropWhile_eq_self (h : ∀ c ∈ cs, p c = false) : cs.dropWhile p = cs := by
  cases cs with
  | nil => rfl
  | cons c cs => exact List.dropWhile_cons_of_neg (by simp [h c List.mem_cons_self])

theorem trim_eq_self (h : ∀ c ∈ s.toList, isBlank c = false) : trim s = s := by
  have hstart : trimStart isBlank s.toList = s.toList := dropWhile_eq_self h
  have hend : trimStart isBlank s.toList.reverse = s.toList.reverse :=
    dropWhile_eq_self fun c hc => h c (List.mem_reverse.mp hc)
  rw [trim, trimBoth, hstart, hend, List.reverse_reverse, String.ofList_toList]

theorem splitFirst?_append (h : sep ∉ front) :
    splitFirst? sep (String.ofList (front ++ sep :: rest)) =
      some (String.ofList front, String.ofList rest) := by
  have hfront : ∀ c ∈ front, decide (c ≠ sep) = true := fun c hc =>
    decide_eq_true fun heq => h (heq ▸ hc)
  have hdrop : (front ++ sep :: rest).dropWhile (fun c => decide (c ≠ sep)) = sep :: rest := by
    rw [List.dropWhile_append_of_pos hfront]
    simp
  have htake : (front ++ sep :: rest).takeWhile (fun c => decide (c ≠ sep)) = front := by
    rw [List.takeWhile_append_of_pos hfront]
    simp
  simp only [splitFirst?, String.toList_ofList, hdrop, htake]

theorem splitAtChar_of_notMem (h : sep ∉ cs) : splitAtChar sep cs = [cs] := by
  induction cs with
  | nil => rfl
  | cons c cs ih =>
    obtain ⟨hc, hcs⟩ := not_or.mp (mt List.mem_cons.mpr h)
    rw [splitAtChar, if_neg (Ne.symm hc), ih hcs]

theorem splitAtChar_append (h : sep ∉ front) :
    splitAtChar sep (front ++ sep :: rest) = front :: splitAtChar sep rest := by
  induction front with
  | nil => simp [splitAtChar]
  | cons c front ih =>
    obtain ⟨hc, hfront⟩ := not_or.mp (mt List.mem_cons.mpr h)
    rw [List.cons_append, splitAtChar, if_neg (Ne.symm hc), ih hfront]

/-- Cutting loses nothing but the separators. -/
theorem mem_part (h : c ∈ cs) (hc : c ≠ sep) : ∃ part ∈ splitAtChar sep cs, c ∈ part := by
  induction cs with
  | nil => cases h
  | cons d cs ih =>
    rcases List.mem_cons.mp h with rfl | h
    · rw [splitAtChar, if_neg hc]
      split
      · exact ⟨_, List.mem_cons_self, List.mem_cons_self⟩
      · exact ⟨_, List.mem_cons_self, List.mem_cons_self⟩
    · obtain ⟨part, hpart, hmem⟩ := ih h
      rw [splitAtChar]
      split
      · exact ⟨part, List.mem_cons_of_mem _ hpart, hmem⟩
      · split
        · rename_i hnone
          rw [hnone] at hpart
          cases hpart
        · rename_i first parts hsome
          rw [hsome] at hpart
          rcases List.mem_cons.mp hpart with rfl | hpart
          · exact ⟨_, List.mem_cons_self, List.mem_cons_of_mem _ hmem⟩
          · exact ⟨part, List.mem_cons_of_mem _ hpart, hmem⟩

end Text

/-! ## Versions are read back -/

namespace Version

variable {cs : List Char} {c : Char} {s : String}

theorem readNumber?_digits (n : UInt32) : readNumber? (toString n.toNat).toList = some n := by
  have hdigits := Decimal.isDigit_toString n.toNat
  have hvalue : (toString n.toNat).toList.foldl
      (fun n c => n * 10 + (c.toNat - '0'.toNat)) 0 = n.toNat := by
    have h := @Nat.ofDigitChars_ten_toDigits n.toNat
    rw [← Nat.toList_repr, ← Nat.toString_eq_repr] at h
    simpa only [Nat.ofDigitChars, Nat.mul_comm] using h
  have hsome : (toString n.toNat).toList ≠ [] := by
    rw [Nat.toString_eq_repr, Nat.toList_repr]
    exact Nat.toDigits_ne_nil
  unfold readNumber?
  generalize (toString n.toNat).toList = ds at hdigits hvalue hsome
  cases ds with
  | nil => exact absurd rfl hsome
  | cons d ds =>
    have hplus : d ≠ '+' := by
      rintro rfl
      exact absurd (hdigits '+' List.mem_cons_self) (by decide)
    have hall : (d :: ds).all Char.isDigit = true := List.all_eq_true.mpr hdigits
    split
    · rename_i heq
      cases heq
      exact absurd rfl hplus
    · simp only [hall, hvalue, List.isEmpty_cons, Bool.not_true, Bool.or_self,
        Bool.false_eq_true, if_false, UInt32.ofNat_toNat]
      exact if_pos n.toNat_lt

/-- A number consists of digits, which a plus sign may precede. -/
theorem mem_readNumber? {n : UInt32} (h : readNumber? cs = some n) (hc : c ∈ cs) :
    c.isDigit = true ∨ c = '+' := by
  have hall : ∀ ds : List Char, (if ds.isEmpty || !ds.all Char.isDigit then none
      else
        let n := ds.foldl (fun n c => n * 10 + (c.toNat - '0'.toNat)) 0
        if n < UInt32.size then some (UInt32.ofNat n) else none) = some n →
      ∀ c ∈ ds, c.isDigit = true := by
    intro ds hds
    split at hds
    · cases hds
    · rename_i hdigits
      simp only [Bool.or_eq_true, not_or, Bool.not_eq_true', Bool.not_eq_false] at hdigits
      exact List.all_eq_true.mp hdigits.2
  unfold readNumber? at h
  split at h
  · rename_i ds
    exact (List.mem_cons.mp hc).elim .inr fun hc => .inl (hall ds h c hc)
  · exact .inl (hall cs h c hc)

/-- What can stand in the text of a version. -/
theorem mem_text_of_ofText {v : Version} (h : ofText s = .ok v)
    (hc : c ∈ (Text.trim s).toList) : c.isDigit = true ∨ c = '+' ∨ c = '.' := by
  replace h : ofText? s = some v := by
    unfold ofText at h
    split at h
    · rename_i w hw
      cases h
      exact hw
    · cases h
  by_cases hdot : c = '.'
  · exact .inr (.inr hdot)
  obtain ⟨part, hpart, hmem⟩ := Text.mem_part hc hdot
  have hread : ∀ part ∈ Text.splitAtChar '.' (Text.trim s).toList,
      ∃ n, readNumber? part = some n := by
    unfold ofText? at h
    split at h
    · rename_i a heq
      simp only [Option.bind_eq_bind, Option.bind_eq_some_iff] at h
      obtain ⟨n, hn, -⟩ := h
      simp [heq, hn]
    · rename_i a b heq
      simp only [Option.bind_eq_bind, Option.bind_eq_some_iff] at h
      obtain ⟨n, hn, k, hk, -⟩ := h
      simp [heq, hn, hk]
    · rename_i a b c heq
      simp only [Option.bind_eq_bind, Option.bind_eq_some_iff] at h
      obtain ⟨n, hn, k, hk, l, hl, -⟩ := h
      simp [heq, hn, hk, hl]
    · cases h
  obtain ⟨n, hn⟩ := hread part hpart
  exact (mem_readNumber? hn hmem).imp_right .inl

theorem toList_text (v : Version) : v.text.toList = (toString v.major.toNat).toList ++
    '.' :: ((toString v.minor.toNat).toList ++ '.' :: (toString v.patch.toNat).toList) := by
  simp [text, String.toList_append, ToString.toString]

theorem mem_text {v : Version} (hc : c ∈ v.text.toList) : c.isDigit = true ∨ c = '.' := by
  have hdigit : ∀ n : UInt32, c ∈ (toString n.toNat).toList → c.isDigit = true := fun n =>
    Decimal.isDigit_toString n.toNat c
  rw [toList_text, List.mem_append, List.mem_cons, List.mem_append, List.mem_cons] at hc
  rcases hc with hc | rfl | hc | rfl | hc
  · exact .inl (hdigit _ hc)
  · exact .inr rfl
  · exact .inl (hdigit _ hc)
  · exact .inr rfl
  · exact .inl (hdigit _ hc)

theorem isBlank_of_mem_text {v : Version} (hc : c ∈ v.text.toList) : Text.isBlank c = false := by
  rcases mem_text hc with hdigit | rfl
  · simp only [Char.isDigit, Bool.and_eq_true, decide_eq_true_eq, ge_iff_le,
      UInt32.le_iff_toNat_le] at hdigit
    have hval : c.toNat = c.val.toNat := rfl
    have hzero : '0'.val.toNat = 48 := rfl
    have hnine : '9'.val.toNat = 57 := rfl
    exact isBlank_eq_false (by omega) (by omega)
  · decide

/-- A version is read back from its text. -/
theorem ofText_text (v : Version) : ofText v.text = .ok v := by
  have hdot : ∀ n : UInt32, '.' ∉ (toString n.toNat).toList := fun n h =>
    absurd (Decimal.isDigit_toString n.toNat '.' h) (by decide)
  have hread : ofText? v.text = some v := by
    rw [ofText?, Text.trim_eq_self fun c => isBlank_of_mem_text, toList_text,
      Text.splitAtChar_append (hdot _), Text.splitAtChar_append (hdot _),
      Text.splitAtChar_of_notMem (hdot _)]
    simp only [readNumber?_digits, Option.bind_eq_bind, Option.bind_some, Option.pure_def]
  rw [ofText, hread]

end Version

end Obsplan
