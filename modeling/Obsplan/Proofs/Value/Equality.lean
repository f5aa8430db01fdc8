import Obsplan.Proofs.Decimal.Text
import Obsplan.Value.Basic

/-!
# Equal values

Values are compared by their numbers, so an undefined number differs from itself and the two zeros
are equal. Main statement: two values are equal just when no number in them is undefined and they
are the same but for the signs of their zeros.
-/

namespace Obsplan

/-! ## Numbers -/

namespace Number

/-- The number itself, and the positive one of the two zeros. -/
def unsigned (x : Number) : Number := if x.magnitude = 0 then ⟨0⟩ else x

theorem rank_eq_iff {x y : Number} : x.rank = y.rank ↔ x.unsigned = y.unsigned := by
  unfold unsigned
  by_cases hx : x.magnitude = 0 <;> by_cases hy : y.magnitude = 0
  · simp [rank, hx, hy]
  · have hne : (⟨0⟩ : Number) ≠ y := by
      rintro rfl
      exact hy rfl
    simp only [rank, hx, hy, if_true, if_false, hne, iff_false]
    split <;> split <;> omega
  · have hne : x ≠ (⟨0⟩ : Number) := by
      rintro rfl
      exact hx rfl
    simp only [rank, hx, hy, if_true, if_false, hne, iff_false]
    split <;> split <;> omega
  · rw [if_neg hx, if_neg hy]
    refine ⟨fun h => ?_, fun h => h ▸ rfl⟩
    unfold rank at h
    -- away from zero, the rank tells the sign and the magnitude
    cases hnx : x.isNegative <;> cases hny : y.isNegative <;> simp [hnx, hny] at h
    · exact Decimal.Number.ext_magnitude h (hnx.trans hny.symm)
    · omega
    · omega
    · exact Decimal.Number.ext_magnitude h (hnx.trans hny.symm)

theorem beq_iff {x y : Number} :
    (x == y) = true ↔ (x.isNaN = false ∧ y.isNaN = false) ∧ x.unsigned = y.unsigned := by
  change (areDefined x y && x.rank == y.rank) = true ↔ _
  simp [areDefined, rank_eq_iff]

end Number

/-! ## Values -/

namespace Value

mutual

/-- Whether no number in a value is undefined. -/
def isDefined : Value → Bool
  | .float x => !x.isNaN
  | .list items => itemsDefined items
  | .map entries => entriesDefined entries
  | _ => true

def itemsDefined : List Value → Bool
  | [] => true
  | v :: vs => v.isDefined && itemsDefined vs

def entriesDefined : List (String × Value) → Bool
  | [] => true
  | (_, v) :: entries => v.isDefined && entriesDefined entries

end

mutual

/-- The value with positive zeros only. -/
def unsigned : Value → Value
  | .float x => .float x.unsigned
  | .list items => .list (unsignedItems items)
  | .map entries => .map (unsignedEntries entries)
  | v => v

def unsignedItems : List Value → List Value
  | [] => []
  | v :: vs => v.unsigned :: unsignedItems vs

def unsignedEntries : List (String × Value) → List (String × Value)
  | [] => []
  | (k, v) :: entries => (k, v.unsigned) :: unsignedEntries entries

end

mutual

theorem same_iff : (v w : Value) →
    (same v w = true ↔ (v.isDefined = true ∧ w.isDefined = true) ∧ v.unsigned = w.unsigned)
  | .null, w => by cases w <;> simp [same, isDefined, unsigned]
  | .bool _, w => by cases w <;> simp [same, isDefined, unsigned]
  | .int _, w => by cases w <;> simp [same, isDefined, unsigned]
  | .float _, w => by cases w <;> simp [same, isDefined, unsigned, Number.beq_iff]
  | .text _, w => by cases w <;> simp [same, isDefined, unsigned]
  | .list items, w => by
    cases w with
    | list others => simpa [same, isDefined, unsigned] using sameItems_iff items others
    | _ => simp [same, unsigned]
  | .map entries, w => by
    cases w with
    | map others => simpa [same, isDefined, unsigned] using sameEntries_iff entries others
    | _ => simp [same, unsigned]

theorem sameItems_iff : (vs ws : List Value) →
    (sameItems vs ws = true ↔
      (itemsDefined vs = true ∧ itemsDefined ws = true) ∧ unsignedItems vs = unsignedItems ws)
  | [], ws => by cases ws <;> simp [sameItems, itemsDefined, unsignedItems]
  | v :: vs, ws => by
    cases ws with
    | nil => simp [sameItems, unsignedItems]
    | cons w ws =>
      simp only [sameItems, itemsDefined, unsignedItems, Bool.and_eq_true, List.cons.injEq,
        same_iff v w, sameItems_iff vs ws]
      tauto

theorem sameEntries_iff : (as bs : List (String × Value)) →
    (sameEntries as bs = true ↔
      (entriesDefined as = true ∧ entriesDefined bs = true) ∧
        unsignedEntries as = unsignedEntries bs)
  | [], bs => by cases bs <;> simp [sameEntries, entriesDefined, unsignedEntries]
  | (k, v) :: as, bs => by
    cases bs with
    | nil => simp [sameEntries, unsignedEntries]
    | cons b bs =>
      simp only [sameEntries, entriesDefined, unsignedEntries, Bool.and_eq_true, List.cons.injEq,
        Prod.mk.injEq, beq_iff_eq, same_iff v b.2, sameEntries_iff as bs]
      tauto

end

variable {u v w : Value}

theorem beq_iff :
    (v == w) = true ↔ (v.isDefined = true ∧ w.isDefined = true) ∧ v.unsigned = w.unsigned :=
  same_iff v w

theorem beq_refl (h : v.isDefined = true) : (v == v) = true := beq_iff.mpr ⟨⟨h, h⟩, rfl⟩

theorem beq_comm (v w : Value) : (v == w) = (w == v) := by
  rw [Bool.eq_iff_iff, beq_iff, beq_iff, and_comm (a := v.isDefined = true),
    eq_comm (a := v.unsigned)]

theorem beq_trans (h : (u == v) = true) (h' : (v == w) = true) : (u == w) = true := by
  rw [beq_iff] at h h' ⊢
  exact ⟨⟨h.1.1, h'.1.2⟩, h.2.trans h'.2⟩

end Value

end Obsplan
