import Mathlib.Data.List.Forall2
import Mathlib.Data.Set.Basic
import Obsplan.Scale.Basic

/-!
# The points of a scale

A scale holds the points whose coordinates lie in its extents; along a dimension that it lacks,
every coordinate will do. What is cut out of a scale is described by its points. Only comparisons of
bounds are used.
-/

namespace Obsplan

open Coordinate

/-- Numbers that are compared as places on a line; numbers that are not equal to themselves have no
place. -/
class LawfulCoordinate (α : Type) [Coordinate α] : Prop where
  le_trans {a b c : α} : a ≤ b → b ≤ c → a ≤ c
  lt_of_le_of_lt {a b c : α} : a ≤ b → b < c → a < c
  lt_of_lt_of_le {a b c : α} : a < b → b ≤ c → a < c
  le_of_lt {a b : α} : a < b → a ≤ b
  not_lt {a b : α} : a ≤ b → ¬ b < a
  lt_or_le {a b : α} : a ≤ a → b ≤ b → a < b ∨ b ≤ a
  le_self_left {a b : α} : a ≤ b → a ≤ a
  le_self_right {a b : α} : a ≤ b → b ≤ b
  le_self {a : α} : isFinite a = true → a ≤ a

instance : LawfulCoordinate Number where
  le_trans := by
    rintro a b c ⟨hab, h⟩ ⟨hbc, h'⟩
    simp only [Number.areDefined, Bool.and_eq_true] at hab hbc
    exact ⟨by simp [Number.areDefined, hab, hbc], Int.le_trans h h'⟩
  lt_of_le_of_lt := by
    rintro a b c ⟨hab, h⟩ ⟨hbc, h'⟩
    simp only [Number.areDefined, Bool.and_eq_true] at hab hbc
    exact ⟨by simp [Number.areDefined, hab, hbc], Int.lt_of_le_of_lt h h'⟩
  lt_of_lt_of_le := by
    rintro a b c ⟨hab, h⟩ ⟨hbc, h'⟩
    simp only [Number.areDefined, Bool.and_eq_true] at hab hbc
    exact ⟨by simp [Number.areDefined, hab, hbc], Int.lt_of_lt_of_le h h'⟩
  le_of_lt := fun h => ⟨h.1, Int.le_of_lt h.2⟩
  not_lt := fun h h' => by have := h.2; have := h'.2; omega
  lt_or_le := by
    rintro a b ⟨ha, -⟩ ⟨hb, -⟩
    simp only [Number.areDefined, Bool.and_eq_true] at ha hb
    rcases Int.lt_or_le a.rank b.rank with h | h
    · exact .inl ⟨by simp [Number.areDefined, ha, hb], h⟩
    · exact .inr ⟨by simp [Number.areDefined, ha, hb], h⟩
  le_self_left := by
    rintro a b ⟨hab, -⟩
    simp only [Number.areDefined, Bool.and_eq_true] at hab
    exact ⟨by simp [Number.areDefined, hab], Int.le_refl _⟩
  le_self_right := by
    rintro a b ⟨hab, -⟩
    simp only [Number.areDefined, Bool.and_eq_true] at hab
    exact ⟨by simp [Number.areDefined, hab], Int.le_refl _⟩
  le_self := by
    intro a ha
    have hnan : a.isNaN = false := by
      simp only [isFinite, Number.isFinite, decide_eq_true_eq] at ha
      simp only [Number.isNaN, decide_eq_false_iff_not]
      omega
    exact ⟨by simp [Number.areDefined, hnan], Int.le_refl _⟩

open LawfulCoordinate

variable {α : Type} [Coordinate α]

/-- A place in space and time. -/
abbrev Point (α : Type) := Dimension → α

/-! ## Extents -/

namespace Extent

/-- A coordinate lies in an extent. -/
def Holds (e : Extent α) (x : α) : Prop := e.start ≤ x ∧ x < e.stop

variable [LawfulCoordinate α] {e o part : Extent α} {x : α}

theorem greater_le {a b : α} (ha : isFinite a = true) (hb : isFinite b = true) :
    greater a b ≤ x ↔ a ≤ x ∧ b ≤ x := by
  unfold greater
  split
  · rename_i h
    exact ⟨fun hx => ⟨hx, le_trans (le_of_lt h) hx⟩, fun hx => hx.1⟩
  · rename_i h
    have hle : a ≤ b := (lt_or_le (le_self hb) (le_self ha)).resolve_left h
    exact ⟨fun hx => ⟨le_trans hle hx, hx⟩, fun hx => hx.2⟩

theorem lt_lesser {a b : α} (ha : isFinite a = true) (hb : isFinite b = true) :
    x < lesser a b ↔ x < a ∧ x < b := by
  unfold lesser
  split
  · rename_i h
    exact ⟨fun hx => ⟨hx, lt_of_lt_of_le hx (le_of_lt h)⟩, fun hx => hx.1⟩
  · rename_i h
    have hle : b ≤ a := (lt_or_le (le_self ha) (le_self hb)).resolve_left h
    exact ⟨fun hx => ⟨lt_of_lt_of_le hx hle, hx⟩, fun hx => hx.2⟩

/-- A valid extent holds its start. -/
theorem holds_start (he : e.isValid = true) : e.Holds e.start :=
  ⟨le_self (isValid_iff.mp he).1, (isValid_iff.mp he).2.2⟩

theorem holds_meet? (he : e.isValid = true) (ho : o.isValid = true) :
    (∃ part, e.meet? o = some part ∧ part.Holds x) ↔ e.Holds x ∧ o.Holds x := by
  obtain ⟨he₁, he₂, -⟩ := isValid_iff.mp he
  obtain ⟨ho₁, ho₂, -⟩ := isValid_iff.mp ho
  have hboth : greater e.start o.start ≤ x ∧ x < lesser e.stop o.stop ↔ e.Holds x ∧ o.Holds x := by
    rw [greater_le he₁ ho₁, lt_lesser he₂ ho₂]
    exact and_and_and_comm
  simp only [meet?]
  split
  · simpa [Holds] using hboth
  · rename_i hempty
    refine ⟨fun h => by simp at h, fun h => absurd ?_ hempty⟩
    obtain ⟨hle, hlt⟩ := hboth.mpr h
    exact lt_of_le_of_lt hle hlt

end Extent

/-! ## Scales -/

namespace Scale

instance : Membership (Point α) (Scale α) := ⟨fun s p => ∀ e ∈ s.extents, e.Holds (p e.dimension)⟩

theorem mem_iff {s : Scale α} {p : Point α} : p ∈ s ↔ ∀ e ∈ s.extents, e.Holds (p e.dimension) :=
  Iff.rfl

/-- The points of a shape read over the dimensions of a scale: those that the shape lacks are
unconstrained, those that the scale lacks are ignored. -/
def reading (s shape : Scale α) : Set (Point α) :=
  {p | ∀ e ∈ s.extents, ∀ o ∈ shape.extent? e.dimension, o.Holds (p e.dimension)}

theorem nodup_dimensions (s : Scale α) : (s.extents.map Extent.dimension).Nodup :=
  List.Nodup.sublist s.ordered (by decide)

theorem extent?_of_mem {s : Scale α} {e : Extent α} (he : e ∈ s.extents) :
    s.extent? e.dimension = some e := by
  unfold extent?
  have hnodup := s.nodup_dimensions
  generalize s.extents = extents at he hnodup
  induction extents with
  | nil => cases he
  | cons first rest ih =>
    rw [List.map_cons, List.nodup_cons] at hnodup
    rcases List.mem_cons.mp he with rfl | he
    · simp
    · have hne : first.dimension ≠ e.dimension :=
        fun h => hnodup.1 (h ▸ List.mem_map_of_mem he)
      rw [List.find?_cons_of_neg (by simpa using hne)]
      exact ih he hnodup.2

/-- A shape over the same dimensions is read as it is. -/
theorem mem_reading {s shape : Scale α} {p : Point α}
    (h : shape.extents.map Extent.dimension = s.extents.map Extent.dimension) :
    p ∈ s.reading shape ↔ p ∈ shape := by
  constructor
  · intro hp e he
    have hd : e.dimension ∈ s.extents.map Extent.dimension := h ▸ List.mem_map_of_mem he
    obtain ⟨e', he', hd'⟩ := List.mem_map.mp hd
    have := hp e' he' e (by rw [hd']; exact extent?_of_mem he)
    rwa [hd'] at this
  · intro hp e _ o ho
    have hd : o.dimension = e.dimension := by simpa using List.find?_some ho
    have := hp o (extent?_mem ho)
    rwa [hd] at this

/-- Only the dimensions of the scale matter for how a shape is read over it. -/
theorem reading_congr {s t : Scale α}
    (h : s.extents.map Extent.dimension = t.extents.map Extent.dimension) (shape : Scale α) :
    s.reading shape = t.reading shape := by
  have hread : ∀ u : Scale α, u.reading shape =
      {p | ∀ d ∈ u.extents.map Extent.dimension, ∀ o ∈ shape.extent? d, o.Holds (p d)} := by
    intro u
    simp only [reading, List.forall_mem_map]
  rw [hread, hread, h]

theorem dimensions_subtract {s other piece : Scale α} (h : piece ∈ s.subtract other) :
    piece.extents.map Extent.dimension = s.extents.map Extent.dimension := by
  simp only [subtract] at h
  split at h
  · rw [List.mem_singleton.mp h]
  · rename_i hpart
    obtain ⟨extents, hmem, rfl⟩ := List.mem_pmap.mp h
    exact (carve_intersect?_fits hpart extents hmem).1

theorem forall₂_mapM_narrow? {other : Scale α} {extents parts : List (Extent α)}
    (h : extents.mapM other.narrow? = some parts) :
    List.Forall₂ (fun e part => other.narrow? e = some part) extents parts := by
  induction extents generalizing parts with
  | nil => cases h; exact .nil
  | cons e es ih =>
    simp only [List.mapM_cons, Option.bind_eq_bind, Option.bind_eq_some_iff, Option.pure_def,
      Option.some.injEq] at h
    obtain ⟨part, hpart, rest, hrest, rfl⟩ := h
    exact .cons hpart (ih hrest)

theorem intersect?_narrow {s other part : Scale α} (h : s.intersect? other = some part) :
    List.Forall₂ (fun e cut => other.narrow? e = some cut) s.extents part.extents := by
  simp only [intersect?] at h
  split at h
  · cases h
  · cases h; exact forall₂_mapM_narrow? ‹_›

variable [LawfulCoordinate α] {s other : Scale α} {p : Point α}

theorem holds_narrow? {e : Extent α} (he : e.isValid = true) :
    (∃ part, other.narrow? e = some part ∧ part.Holds (p part.dimension)) ↔
      e.Holds (p e.dimension) ∧ ∀ o ∈ other.extent? e.dimension, o.Holds (p e.dimension) := by
  simp only [narrow?]
  split
  · rename_i o ho
    rw [ho]
    simp only [Option.mem_some_iff, forall_eq']
    rw [← Extent.holds_meet? he (other.valid o (extent?_mem ho))]
    constructor
    · rintro ⟨part, hpart, hp⟩
      exact ⟨part, hpart, Extent.dimension_meet? hpart ▸ hp⟩
    · rintro ⟨part, hpart, hp⟩
      exact ⟨part, hpart, (Extent.dimension_meet? hpart).symm ▸ hp⟩
  · rename_i hnone
    simp [hnone]

theorem holds_mapM_narrow? {extents : List (Extent α)} (hv : ∀ e ∈ extents, e.isValid = true) :
    (∃ parts, extents.mapM other.narrow? = some parts ∧
        ∀ part ∈ parts, part.Holds (p part.dimension)) ↔
      ∀ e ∈ extents, e.Holds (p e.dimension) ∧
        ∀ o ∈ other.extent? e.dimension, o.Holds (p e.dimension) := by
  induction extents with
  | nil => simp
  | cons e es ih =>
    obtain ⟨he, hes⟩ := List.forall_mem_cons.mp hv
    simp only [List.mapM_cons, Option.bind_eq_bind, Option.bind_eq_some_iff, Option.pure_def,
      Option.some.injEq, List.forall_mem_cons]
    rw [← ih hes, ← holds_narrow? he]
    constructor
    · rintro ⟨_, ⟨part, hpart, rest, hrest, rfl⟩, hall⟩
      obtain ⟨hp, hps⟩ := List.forall_mem_cons.mp hall
      exact ⟨⟨part, hpart, hp⟩, rest, hrest, hps⟩
    · rintro ⟨⟨part, hpart, hp⟩, rest, hrest, hps⟩
      exact ⟨part :: rest, ⟨part, hpart, rest, hrest, rfl⟩, List.forall_mem_cons.mpr ⟨hp, hps⟩⟩

theorem holds_of_narrow? {e part : Extent α} (he : e.isValid = true)
    (h : other.narrow? e = some part) (x : α) (hx : part.Holds x) : e.Holds x := by
  obtain ⟨hd, -⟩ := narrow?_fits h
  exact ((holds_narrow? (p := fun _ => x) he).mp ⟨part, h, hx⟩).1

/-- The part of a scale in another one holds the points of both. -/
theorem mem_intersect? :
    (∃ part, s.intersect? other = some part ∧ p ∈ part) ↔ p ∈ s ∧ p ∈ s.reading other := by
  have hboth : p ∈ s ∧ p ∈ s.reading other ↔ ∀ e ∈ s.extents, e.Holds (p e.dimension) ∧
      ∀ o ∈ other.extent? e.dimension, o.Holds (p e.dimension) :=
    forall₂_and.symm
  rw [hboth, ← holds_mapM_narrow? s.valid]
  simp only [intersect?]
  split
  · rename_i h; simp [h]
  · rename_i parts h; simp [h, mem_iff, refit]

/-- An extent cut down to a part: what is left lies before or behind the part. -/
theorem holds_sides {own cut : Extent α} (hcut : cut.isValid = true)
    (hsub : ∀ x, cut.Holds x → own.Holds x) (x : α) :
    own.Holds x ∧ ¬ cut.Holds x ↔
      own.start < cut.start ∧ Extent.Holds { own with stop := cut.start } x ∨
        cut.stop < own.stop ∧ Extent.Holds { own with start := cut.stop } x := by
  obtain ⟨hcut₁, hcut₂, hcut₃⟩ := Extent.isValid_iff.mp hcut
  obtain ⟨hle, hlt⟩ := hsub _ (Extent.holds_start hcut)
  constructor
  · rintro ⟨⟨hx₁, hx₂⟩, hout⟩
    rcases lt_or_le (le_self_right hx₁) (le_self hcut₁) with h | h
    · exact .inl ⟨lt_of_le_of_lt hx₁ h, hx₁, h⟩
    · have hstop : cut.stop ≤ x :=
        (lt_or_le (le_self_right hx₁) (le_self hcut₂)).resolve_left fun h' => hout ⟨h, h'⟩
      exact .inr ⟨lt_of_le_of_lt hstop hx₂, hstop, hx₂⟩
  · rintro (⟨-, hx₁, hx₂⟩ | ⟨-, hx₁, hx₂⟩)
    · exact ⟨⟨hx₁, lt_of_lt_of_le hx₂ (le_of_lt hlt)⟩, fun h => not_lt h.1 hx₂⟩
    · exact ⟨⟨le_trans hle (le_trans (le_of_lt hcut₃) hx₁), hx₂⟩, fun h => not_lt hx₁ h.2⟩

/-- The pieces around a part hold the points of the box outside the part. -/
theorem holds_carve {done : List (Extent α)} {pairs : List (Extent α × Extent α)}
    (hpairs : ∀ q ∈ pairs, q.2.isValid = true ∧ q.2.dimension = q.1.dimension ∧
      ∀ x, q.2.Holds x → q.1.Holds x) :
    (∃ piece ∈ carve done pairs, ∀ e ∈ piece, e.Holds (p e.dimension)) ↔
      (∀ e ∈ done, e.Holds (p e.dimension)) ∧ (∀ q ∈ pairs, q.1.Holds (p q.1.dimension)) ∧
        ¬ ∀ q ∈ pairs, q.2.Holds (p q.2.dimension) := by
  induction pairs generalizing done with
  | nil => simp [carve]
  | cons pair rest ih =>
    obtain ⟨own, cut⟩ := pair
    obtain ⟨⟨hcut, hdim, hsub⟩, hrest⟩ := List.forall_mem_cons.mp hpairs
    simp only at hcut hdim hsub
    have hsides := holds_sides hcut hsub (p own.dimension)
    have hin := hsub (p own.dimension)
    -- a piece that is split off differs from the box in one extent
    have side : ∀ (c : Prop) [Decidable c] (e : Extent α), e.dimension = own.dimension →
        ((∃ piece ∈ (if c then [done ++ e :: rest.map Prod.fst] else []),
          ∀ e ∈ piece, e.Holds (p e.dimension)) ↔
        (∀ e ∈ done, e.Holds (p e.dimension)) ∧ (c ∧ e.Holds (p own.dimension)) ∧
          ∀ q ∈ rest, q.1.Holds (p q.1.dimension)) := by
      intro c _ e he
      split
      · rename_i hc
        simp only [List.mem_singleton, exists_eq_left, List.forall_mem_append,
          List.forall_mem_cons, List.forall_mem_map, he, hc, true_and]
      · rename_i hc
        simp only [List.not_mem_nil, false_and, exists_false, hc, and_false]
    have hmore : (∃ piece ∈ carve (done ++ [cut]) rest, ∀ e ∈ piece, e.Holds (p e.dimension)) ↔
        (∀ e ∈ done ++ [cut], e.Holds (p e.dimension)) ∧
          (∀ q ∈ rest, q.1.Holds (p q.1.dimension)) ∧
            ¬ ∀ q ∈ rest, q.2.Holds (p q.2.dimension) := ih hrest
    simp only [List.forall_mem_append, List.forall_mem_singleton, hdim] at hmore
    simp only [carve, List.mem_append, or_and_right, exists_or, List.forall_mem_cons, hdim]
    rw [side _ ⟨own.dimension, own.start, cut.start⟩ rfl,
      side _ ⟨own.dimension, cut.stop, own.stop⟩ rfl, hmore]
    constructor
    · rintro ((⟨hd, hbefore, hr⟩ | ⟨hd, hbehind, hr⟩) | ⟨⟨hd, hc⟩, hr, hn⟩)
      · obtain ⟨ho, hc⟩ := hsides.mpr (.inl hbefore)
        exact ⟨hd, ⟨ho, hr⟩, fun h => hc h.1⟩
      · obtain ⟨ho, hc⟩ := hsides.mpr (.inr hbehind)
        exact ⟨hd, ⟨ho, hr⟩, fun h => hc h.1⟩
      · exact ⟨hd, ⟨hin hc, hr⟩, fun h => hn h.2⟩
    · rintro ⟨hd, ⟨ho, hr⟩, hn⟩
      by_cases hc : cut.Holds (p own.dimension)
      · exact .inr ⟨⟨hd, hc⟩, hr, fun h => hn ⟨hc, h⟩⟩
      · rcases hsides.mp ⟨ho, hc⟩ with hbefore | hbehind
        · exact .inl (.inl ⟨hd, hbefore, hr⟩)
        · exact .inl (.inr ⟨hd, hbehind, hr⟩)

/-- What is cut out of a scale holds its points outside the other one. -/
theorem mem_subtract :
    (∃ piece ∈ s.subtract other, p ∈ piece) ↔ p ∈ s ∧ p ∉ s.reading other := by
  have hboth : (∃ part, s.intersect? other = some part ∧ p ∈ part) ↔ p ∈ s ∧ p ∈ s.reading other :=
    mem_intersect?
  simp only [subtract]
  split
  · rename_i h
    simp only [h, reduceCtorEq, false_and, exists_false, false_iff, not_and] at hboth
    simp only [List.mem_singleton, exists_eq_left]
    exact ⟨fun hp => ⟨hp, hboth hp⟩, fun hp => hp.1⟩
  · rename_i part h
    simp only [h, Option.some.injEq, exists_eq_left'] at hboth
    have hparts := intersect?_narrow h
    have hlen := hparts.length_eq
    have hpairs : ∀ q ∈ s.extents.zip part.extents, q.2.isValid = true ∧
        q.2.dimension = q.1.dimension ∧ ∀ x, q.2.Holds x → q.1.Holds x := by
      rintro ⟨own, cut⟩ hq
      obtain ⟨hown, hcut⟩ := List.of_mem_zip hq
      have hnarrow := List.forall₂_zip hparts hq
      exact ⟨part.valid cut hcut, (narrow?_fits hnarrow).1, holds_of_narrow? (s.valid own hown) hnarrow⟩
    have hfst : p ∈ s ↔ ∀ q ∈ s.extents.zip part.extents, q.1.Holds (p q.1.dimension) :=
      calc p ∈ s
        _ ↔ ∀ e ∈ (s.extents.zip part.extents).map Prod.fst, e.Holds (p e.dimension) := by
          rw [List.map_fst_zip (Nat.le_of_eq hlen), mem_iff]
        _ ↔ _ := List.forall_mem_map
    have hsnd : p ∈ part ↔ ∀ q ∈ s.extents.zip part.extents, q.2.Holds (p q.2.dimension) :=
      calc p ∈ part
        _ ↔ ∀ e ∈ (s.extents.zip part.extents).map Prod.snd, e.Holds (p e.dimension) := by
          rw [List.map_snd_zip (Nat.le_of_eq hlen.symm), mem_iff]
        _ ↔ _ := List.forall_mem_map
    have hcarve : (∃ piece ∈ carve [] (s.extents.zip part.extents),
        ∀ e ∈ piece, e.Holds (p e.dimension)) ↔ _ := holds_carve hpairs
    rw [← hfst, ← hsnd] at hcarve
    simp only [List.not_mem_nil, false_implies, implies_true, true_and] at hcarve
    have hpieces : (∃ piece ∈ (carve [] (s.extents.zip part.extents)).pmap s.refit
        (carve_intersect?_fits h), p ∈ piece) ↔
        ∃ piece ∈ carve [] (s.extents.zip part.extents), ∀ e ∈ piece, e.Holds (p e.dimension) := by
      simp only [List.mem_pmap]
      constructor
      · rintro ⟨_, ⟨piece, hmem, rfl⟩, hp⟩
        exact ⟨piece, hmem, hp⟩
      · rintro ⟨piece, hmem, hp⟩
        exact ⟨_, ⟨piece, hmem, rfl⟩, hp⟩
    rw [hpieces, hcarve, hboth]
    exact and_congr_right fun hp => not_congr (and_iff_right hp)

/-- Every scale holds a point, the corner where its extents start. -/
theorem exists_mem (s : Scale α) : ∃ p : Point α, p ∈ s := by
  refine ⟨fun d => ((s.extent? d).map Extent.start).getD zero, fun e he => ?_⟩
  simp only [extent?_of_mem he, Option.map_some, Option.getD_some]
  exact Extent.holds_start (s.valid e he)

end Scale

end Obsplan
