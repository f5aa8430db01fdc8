import Mathlib.Tactic.Ring
import Obsplan.Proofs.Decimal.Shortest
import Obsplan.Proofs.Scale.Apart
import Obsplan.Proofs.Scale.Exact

/-!
# A scale cut apart by another one

What a scale has in common with another one and the pieces around it make up the scale without a gap
and without an overlap. Where the points are is a matter of comparing bounds; for the volumes the
bounds stand for exact numbers. Main statement: the pieces partition the points outside the other
scale, and the volumes add up.
-/

namespace Obsplan

open Coordinate

variable {α : Type} [Coordinate α]

/-! ## Bounds that stand for exact numbers -/

/-- Bounds stand for numbers: those of which neither is less stand for the same one. -/
def Measures (value : α → ℚ) : Prop :=
  ∀ {a b : α}, isFinite a = true → isFinite b = true → ¬ a < b → ¬ b < a → value a = value b

theorem Exact.measures_value : Measures Exact.value :=
  fun _ _ hab hba => le_antisymm (not_lt.mp hba) (not_lt.mp hab)

/-- The number that a floating-point number stands for. -/
def Number.value (x : Number) : ℚ :=
  let size := (Decimal.Dyadic.ofNumber x).exact.value
  if x.isNegative then -size else size

/-- Both zeros stand for zero. -/
theorem Number.measures_value : Measures Number.value := by
  have hzero : (Decimal.Dyadic.ofMagnitude 0).exact.value = 0 := by
    rw [Decimal.Dyadic.value_exact]
    simp [Decimal.Dyadic.ofMagnitude, Decimal.Dyadic.ofParts]
  intro a b ha hb hab hba
  have hdefined : ∀ {x y : Number}, x.isFinite = true → y.isFinite = true →
      Number.areDefined x y = true := by
    simp only [isFinite, areDefined, isNaN, decide_eq_true_eq, Bool.and_eq_true, Bool.not_eq_true',
      decide_eq_false_iff_not]
    omega
  have hle : ¬ a.rank < b.rank := fun h => hab ⟨hdefined ha hb, h⟩
  have hge : ¬ b.rank < a.rank := fun h => hba ⟨hdefined hb ha, h⟩
  simp only [value, Decimal.Dyadic.ofNumber_eq]
  unfold rank at hle hge
  cases hna : a.isNegative <;> cases hnb : b.isNegative <;>
    simp only [hna, hnb, Bool.false_eq_true, if_true, if_false] at hle hge ⊢
  · rw [show a.magnitude = b.magnitude by omega]
  · rw [show a.magnitude = 0 by omega, show b.magnitude = 0 by omega, hzero, neg_zero]
  · rw [show a.magnitude = 0 by omega, show b.magnitude = 0 by omega, hzero, neg_zero]
  · rw [show a.magnitude = b.magnitude by omega]

namespace Scale

variable {value : α → ℚ} {s t : Scale α} {p : Point α}

/-! ## Volumes of what is cut out -/

/-- The product of the lengths of some extents. -/
def volumeOf (value : α → ℚ) (extents : List (Extent α)) : ℚ :=
  (extents.map fun e => value e.stop - value e.start).prod

/-- The volume of a scale in the numbers that its bounds stand for. -/
def volumeIn (value : α → ℚ) (s : Scale α) : ℚ := volumeOf value s.extents

omit [Coordinate α] in
@[simp] theorem volumeOf_nil : volumeOf value [] = 1 := rfl

omit [Coordinate α] in
@[simp] theorem volumeOf_cons (e : Extent α) (es : List (Extent α)) :
    volumeOf value (e :: es) = (value e.stop - value e.start) * volumeOf value es := by
  simp [volumeOf]

omit [Coordinate α] in
@[simp] theorem volumeOf_append (es more : List (Extent α)) :
    volumeOf value (es ++ more) = volumeOf value es * volumeOf value more := by
  simp [volumeOf]

theorem volume_eq_volumeIn (s : Scale Exact) : s.volume.value = s.volumeIn Exact.value :=
  volume_eq_prod s

/-- A narrowed extent ends where the own one does, unless something of the own one is left there. -/
structure Cuts (value : α → ℚ) (own cut : Extent α) : Prop where
  start : ¬ own.start < cut.start → value cut.start = value own.start
  stop : ¬ cut.stop < own.stop → value cut.stop = value own.stop

theorem cuts_meet? (hvalue : Measures value) {e o part : Extent α} (he : e.isValid = true)
    (ho : o.isValid = true) (h : e.meet? o = some part) : Cuts value e part := by
  obtain ⟨he₁, he₂, -⟩ := Extent.isValid_iff.mp he
  obtain ⟨ho₁, ho₂, -⟩ := Extent.isValid_iff.mp ho
  simp only [Extent.meet?] at h
  split at h
  · cases h
    refine ⟨fun hstart => ?_, fun hstop => ?_⟩
    · simp only [greater] at hstart ⊢
      split at hstart
      · rw [if_pos ‹_›]
      · rename_i hge
        rw [if_neg hge]
        exact hvalue ho₁ he₁ hge hstart
    · simp only [lesser] at hstop ⊢
      split at hstop
      · rw [if_pos ‹_›]
      · rename_i hge
        rw [if_neg hge]
        exact hvalue ho₂ he₂ hstop hge
  · cases h

theorem cuts_narrow? (hvalue : Measures value) {e part : Extent α} (he : e.isValid = true)
    (h : t.narrow? e = some part) : Cuts value e part := by
  simp only [narrow?] at h
  split at h
  · rename_i o ho
    exact cuts_meet? hvalue he (t.valid o (extent?_mem ho)) h
  · cases h
    exact ⟨fun _ => rfl, fun _ => rfl⟩

/-- Along each dimension in turn, what is split off and what is kept add up to what was there. -/
theorem sum_volumeOf_carve {pairs : List (Extent α × Extent α)}
    (h : ∀ q ∈ pairs, Cuts value q.1 q.2) (done : List (Extent α)) :
    ((carve done pairs).map (volumeOf value)).sum = volumeOf value done *
      (volumeOf value (pairs.map Prod.fst) - volumeOf value (pairs.map Prod.snd)) := by
  induction pairs generalizing done with
  | nil => simp [carve]
  | cons pair rest ih =>
    obtain ⟨own, cut⟩ := pair
    obtain ⟨⟨hstart, hstop⟩, hrest⟩ := List.forall_mem_cons.mp h
    -- where nothing is split off, a piece of no length would be
    have side : ∀ (c : Prop) [Decidable c] (e : Extent α),
        (¬ c → value e.stop = value e.start) →
        ((if c then [done ++ e :: rest.map Prod.fst] else []).map (volumeOf value)).sum =
          volumeOf value done *
            ((value e.stop - value e.start) * volumeOf value (rest.map Prod.fst)) := by
      intro c _ e hflat
      split
      · simp
      · rw [hflat ‹_›]
        simp
    simp only [carve, List.map_append, List.sum_append]
    rw [side _ ⟨own.dimension, own.start, cut.start⟩ hstart,
      side _ ⟨own.dimension, cut.stop, own.stop⟩ fun h => (hstop h).symm, ih hrest]
    simp only [volumeOf_append, volumeOf_cons, volumeOf_nil, List.map_cons]
    ring

/-- The volumes of what is inside another scale and of the pieces outside add up. -/
theorem volumeIn_eq_add (hvalue : Measures value) (s t : Scale α) : s.volumeIn value =
    (s.intersect? t).elim 0 (volumeIn value) + ((s.subtract t).map (volumeIn value)).sum := by
  unfold subtract
  split
  · rename_i h
    simp [h]
  · rename_i part h
    have hparts := intersect?_narrow h
    have hlen := hparts.length_eq
    have hcuts : ∀ q ∈ s.extents.zip part.extents, Cuts value q.1 q.2 := fun q hq =>
      cuts_narrow? hvalue (s.valid _ (List.of_mem_zip hq).1) (List.forall₂_zip hparts hq)
    have hpieces : (((carve [] (s.extents.zip part.extents)).pmap s.refit
        (carve_intersect?_fits h)).map (volumeIn value)).sum =
          ((carve [] (s.extents.zip part.extents)).map (volumeOf value)).sum := by
      rw [List.map_pmap]
      exact congrArg List.sum (List.pmap_eq_map ..)
    have hsum := sum_volumeOf_carve hcuts []
    rw [List.map_fst_zip hlen.le, List.map_snd_zip hlen.ge, volumeOf_nil, one_mul] at hsum
    rw [hpieces, hsum, h]
    exact (add_sub_cancel _ _).symm

/-! ## Points inside and outside -/

/-- A point outside another scale is outside along a dimension that both have. -/
theorem notMem_reading : p ∉ s.reading t ↔
    ∃ e ∈ s.extents, ∃ o ∈ t.extents, o.dimension = e.dimension ∧ ¬ o.Holds (p e.dimension) := by
  have hread : p ∈ s.reading t ↔ ∀ e ∈ s.extents, ∀ o ∈ t.extents, o.dimension = e.dimension →
      o.Holds (p e.dimension) := by
    refine forall₂_congr fun e _ => ⟨fun h o ho hd => h o ?_, fun h o ho => h o ?_ ?_⟩
    · exact hd ▸ extent?_of_mem ho
    · exact extent?_mem ho
    · simpa using List.find?_some ho
  rw [hread]
  push Not
  rfl

variable [LawfulCoordinate α]

/-- Scales that meet share a point. -/
theorem intersect?_eq_none_iff :
    s.intersect? t = none ↔ ∀ p : Point α, p ∈ s → p ∉ s.reading t := by
  constructor
  · intro h p hp hread
    obtain ⟨part, hpart, -⟩ := mem_intersect?.mpr ⟨hp, hread⟩
    cases h.symm.trans hpart
  · intro h
    cases hpart : s.intersect? t with
    | none => rfl
    | some part =>
      obtain ⟨p, hp⟩ := part.exists_mem
      obtain ⟨hin, hread⟩ := mem_intersect?.mp ⟨part, hpart, hp⟩
      exact absurd hread (h p hin)

theorem mem_of_intersect? {part : Scale α} (h : s.intersect? t = some part) :
    p ∈ part ↔ p ∈ s ∧ p ∈ s.reading t := by
  rw [← mem_intersect?, h]
  simp

/-- Taking one scale out of another partitions it: the pieces are boxes over its dimensions that do
not overlap and hold its points outside the other scale, what both have in common is the box of its
other points, and the volumes add up in exact numbers. -/
theorem subtract_partitions (s t : Scale α) {value : α → ℚ} (hvalue : Measures value)
    (a b : Scale Exact) :
    ((∀ piece ∈ s.subtract t, (∃ p : Point α, p ∈ piece) ∧
        piece.extents.map Extent.dimension = s.extents.map Extent.dimension) ∧
      (s.subtract t).Pairwise Apart ∧
      ∀ p : Point α, (∃ piece ∈ s.subtract t, p ∈ piece) ↔
        p ∈ s ∧ ∃ e ∈ s.extents, ∃ o ∈ t.extents,
          o.dimension = e.dimension ∧ ¬ o.Holds (p e.dimension)) ∧
    ((s.intersect? t = none ↔ ∀ p : Point α, p ∈ s → p ∉ s.reading t) ∧
      ∀ part, s.intersect? t = some part →
        part.extents.map Extent.dimension = s.extents.map Extent.dimension ∧
        ∀ p : Point α, p ∈ part ↔ p ∈ s ∧ p ∈ s.reading t) ∧
    s.volumeIn value =
      (s.intersect? t).elim 0 (volumeIn value) + ((s.subtract t).map (volumeIn value)).sum ∧
    a.volume.value =
      (a.intersect? b).elim 0 (fun part => part.volume.value) + total (a.subtract b) := by
  refine ⟨⟨fun piece hpiece => ⟨piece.exists_mem, dimensions_subtract hpiece⟩, pairwise_subtract,
    fun p => mem_subtract.trans (and_congr_right fun _ => notMem_reading)⟩,
    ⟨intersect?_eq_none_iff, fun part hpart => ⟨(intersect?_fits hpart).1, fun p =>
      mem_of_intersect? hpart⟩⟩, volumeIn_eq_add hvalue s t, ?_⟩
  have hexact := volumeIn_eq_add Exact.measures_value a b
  simp only [total, volume_eq_volumeIn]
  exact hexact

/-- A field, and a ditch through a part of it that reaches beyond its edge. -/
def field : Scale Number :=
  ⟨[⟨.x, 0.0, 8.0⟩, ⟨.y, 0.0, 8.0⟩], by decide, by decide +kernel⟩

def ditch : Scale Number :=
  ⟨[⟨.x, 2.0, 3.0⟩, ⟨.y, 1.0, 9.0⟩, ⟨.time, 0.0, 1.0⟩], by decide, by decide +kernel⟩

/-- The ditch takes 7 of 64 and leaves a piece on either side and one at its end. -/
theorem subtract_partitions_ditch :
    Measures Number.value ∧ field.volumeIn Number.value = 64 ∧
      (field.intersect? ditch).elim 0 (volumeIn Number.value) = 7 ∧
      (field.subtract ditch).map (volumeIn Number.value) = [16, 40, 1] ∧
      field.volumeIn Number.value = (field.intersect? ditch).elim 0 (volumeIn Number.value) +
        ((field.subtract ditch).map (volumeIn Number.value)).sum ∧
      (field.subtract ditch).Pairwise Apart ∧
      ∀ p : Point Number, (∃ piece ∈ field.subtract ditch, p ∈ piece) ↔
        p ∈ field ∧ ∃ e ∈ field.extents, ∃ o ∈ ditch.extents,
          o.dimension = e.dimension ∧ ¬ o.Holds (p e.dimension) := by
  obtain ⟨⟨-, hapart, hpoints⟩, -, hvolume, -⟩ :=
    subtract_partitions field ditch Number.measures_value .scalar .scalar
  exact ⟨Number.measures_value, by decide +kernel, by decide +kernel, by decide +kernel, hvolume,
    hapart, hpoints⟩

end Scale

end Obsplan
