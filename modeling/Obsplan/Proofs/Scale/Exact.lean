import Mathlib.Algebra.BigOperators.Group.List.Basic
import Mathlib.Algebra.Order.BigOperators.Group.List
import Mathlib.Algebra.Order.BigOperators.GroupWithZero.List
import Mathlib.Algebra.Order.Field.Basic
import Mathlib.Data.Rat.Cast.Order
import Obsplan.Proofs.Scale.Region

/-!
# Exact coordinates

Scales and coverages are written for any coordinates. Here they are rational numbers, and nothing is
rounded. The numbers are wrapped, so that the operations of coordinates are not mistaken for those
of the field; each operation has one lemma that says what it is on the rational numbers.
-/

namespace Obsplan

open Coordinate

/-- A number that is computed exactly. -/
@[ext]
structure Exact where
  value : ℚ
  deriving DecidableEq, Repr

namespace Exact

instance : Coordinate Exact where
  add a b := ⟨a.value + b.value⟩
  sub a b := ⟨a.value - b.value⟩
  mul a b := ⟨a.value * b.value⟩
  div a b := ⟨a.value / b.value⟩
  lt a b := a.value < b.value
  le a b := a.value ≤ b.value
  natCast n := ⟨n⟩
  decLt a b := inferInstanceAs (Decidable (a.value < b.value))
  decLe a b := inferInstanceAs (Decidable (a.value ≤ b.value))
  isFinite _ := true
  slack := ⟨1 / 10 ^ 9⟩
  text a := toString a.value
  percent a := toString (a.value * 100)

variable {a b : Exact}

@[simp] theorem value_add (a b : Exact) : (a + b).value = a.value + b.value := rfl

@[simp] theorem value_sub (a b : Exact) : (a - b).value = a.value - b.value := rfl

@[simp] theorem value_mul (a b : Exact) : (a * b).value = a.value * b.value := rfl

@[simp] theorem value_div (a b : Exact) : (a / b).value = a.value / b.value := rfl

@[simp] theorem lt_iff : a < b ↔ a.value < b.value := Iff.rfl

@[simp] theorem le_iff : a ≤ b ↔ a.value ≤ b.value := Iff.rfl

@[simp] theorem value_zero : (zero : Exact).value = 0 := Nat.cast_zero

@[simp] theorem value_one : (one : Exact).value = 1 := Nat.cast_one

@[simp] theorem value_slack : (slack : Exact).value = 1 / 10 ^ 9 := rfl

theorem clampUnit_of_mem (h₀ : 0 ≤ a.value) (h₁ : a.value ≤ 1) : clampUnit a = a := by
  simp only [clampUnit, lt_iff, value_zero, value_one, if_neg h₀.not_gt, if_neg h₁.not_gt]

/-- Exact numbers are compared as places on a line. -/
instance : LawfulCoordinate Exact where
  le_trans h h' := le_trans (α := ℚ) h h'
  lt_of_le_of_lt h h' := lt_of_le_of_lt (α := ℚ) h h'
  lt_of_lt_of_le h h' := lt_of_lt_of_le (α := ℚ) h h'
  le_of_lt h := le_of_lt (α := ℚ) h
  not_lt h := not_lt_of_ge (α := ℚ) h
  lt_or_le _ _ := lt_or_ge (α := ℚ) _ _
  le_self_left _ := le_refl (α := ℚ) _
  le_self_right _ := le_refl (α := ℚ) _
  le_self _ := le_refl (α := ℚ) _

end Exact

theorem Extent.start_lt_stop {e : Extent Exact} (he : e.isValid = true) :
    e.start.value < e.stop.value := (Extent.isValid_iff.mp he).2.2

@[simp] theorem Extent.value_length (e : Extent Exact) :
    e.length.value = e.stop.value - e.start.value := rfl

namespace Scale

theorem foldl_length (extents : List (Extent Exact)) (v : Exact) :
    (extents.foldl (fun v e => v * e.length) v).value =
      v.value * (extents.map fun e => e.stop.value - e.start.value).prod := by
  induction extents generalizing v with
  | nil => simp
  | cons e es ih =>
    rw [List.foldl_cons, ih, Exact.value_mul, Extent.value_length, List.map_cons, List.prod_cons,
      mul_assoc]

/-- The volume of a scale is the product of the lengths of its extents. -/
theorem volume_eq_prod (s : Scale Exact) :
    s.volume.value = (s.extents.map fun e => e.stop.value - e.start.value).prod := by
  rw [volume, foldl_length, Exact.value_one, one_mul]

theorem volume_pos (s : Scale Exact) : 0 < s.volume.value := by
  rw [volume_eq_prod]
  refine List.prod_pos fun length hlength => ?_
  obtain ⟨e, he, rfl⟩ := List.mem_map.mp hlength
  exact sub_pos.mpr (Extent.start_lt_stop (s.valid e he))

/-- The volumes of some boxes, added up. -/
def total (boxes : List (Scale Exact)) : ℚ := (boxes.map fun box => box.volume.value).sum

@[simp] theorem total_nil : total [] = 0 := rfl

@[simp] theorem total_cons (box : Scale Exact) (boxes : List (Scale Exact)) :
    total (box :: boxes) = box.volume.value + total boxes := by simp [total]

@[simp] theorem total_append (boxes more : List (Scale Exact)) :
    total (boxes ++ more) = total boxes + total more := by simp [total]

theorem total_nonneg (boxes : List (Scale Exact)) : 0 ≤ total boxes := by
  refine List.sum_nonneg fun v hv => ?_
  obtain ⟨box, -, rfl⟩ := List.mem_map.mp hv
  exact box.volume_pos.le

theorem foldl_volume (boxes : List (Scale Exact)) (v : Exact) :
    (boxes.foldl (fun v box => v + box.volume) v).value = v.value + total boxes := by
  induction boxes generalizing v with
  | nil => simp
  | cons box boxes ih => rw [List.foldl_cons, ih, Exact.value_add, total_cons, add_assoc]

end Scale

end Obsplan
