import Mathlib.Algebra.BigOperators.Ring.Finset
import Mathlib.Data.Fintype.BigOperators
import Mathlib.Data.Int.ConditionallyCompleteOrder
import Mathlib.Data.Int.Interval
import Mathlib.Data.Rat.Floor
import Mathlib.Data.Rat.Lemmas
import Obsplan.Proofs.Scale.Apart
import Obsplan.Proofs.Scale.Exact

/-!
# The volume of a region

A region that is made up of disjoint boxes can be cut into boxes in many ways, and the volumes of
the boxes always add up to the same. They are compared by counting: a grid so fine that all bounds
lie on it has as many points in a box as the volume says, and which points lie in a region does not
depend on the boxes.
-/

namespace Obsplan

instance : Fintype Dimension := ⟨{.x, .y, .time}, by rintro ⟨⟩ <;> decide⟩

namespace Scale

variable {n : ℕ} {s : Scale Exact} {boxes whole left right : List (Scale Exact)}

/-! ## Regions that are cut into boxes -/

/-- Boxes over the dimensions of a scale that make up a region without overlapping. -/
structure Dissects (s : Scale Exact) (boxes : List (Scale Exact)) (region : Set (Point Exact)) :
    Prop where
  dimensions : ∀ box ∈ boxes, box.extents.map Extent.dimension = s.extents.map Extent.dimension
  apart : boxes.Pairwise Apart
  points : ∀ p, p ∈ region ↔ ∃ box ∈ boxes, p ∈ box

theorem dissects_nil (s : Scale Exact) : s.Dissects [] ∅ := ⟨by simp, .nil, by simp⟩

theorem dissects_self (s : Scale Exact) : s.Dissects [s] {p | p ∈ s} :=
  ⟨by simp, List.pairwise_singleton _ _, by simp⟩

/-- Two regions that do not meet are cut up together. -/
theorem Dissects.append {S T : Set (Point Exact)} (h : s.Dissects left S)
    (h' : s.Dissects right T) (hapart : ∀ p ∈ S, p ∉ T) : s.Dissects (left ++ right) (S ∪ T) where
  dimensions := List.forall_mem_append.mpr ⟨h.dimensions, h'.dimensions⟩
  apart := by
    refine List.pairwise_append.mpr ⟨h.apart, h'.apart, fun box hbox box' hbox' p hp hp' => ?_⟩
    exact hapart p ((h.points p).mpr ⟨box, hbox, hp⟩) ((h'.points p).mpr ⟨box', hbox', hp'⟩)
  points p := by
    simp only [Set.mem_union, h.points, h'.points, List.mem_append, or_and_right, exists_or]

/-! ## Grids -/

/-- The place of a grid point in a grid of `n` steps to the unit. -/
def place (n : ℕ) (z : Dimension → ℤ) : Point Exact := fun d => ⟨z d / n⟩

/-- The steps of a grid inside a box along one dimension. Along a dimension that the box lacks there
is only the first one. -/
noncomputable def steps (n : ℕ) (s : Scale Exact) (d : Dimension) : Finset ℤ :=
  match s.extent? d with
  | some e => Finset.Ico ⌈e.start.value * n⌉ ⌈e.stop.value * n⌉
  | none => {0}

/-- The grid points in a box. -/
noncomputable def grid (n : ℕ) (s : Scale Exact) : Finset (Dimension → ℤ) :=
  Fintype.piFinset (s.steps n)

/-- The grid points in some boxes. -/
noncomputable def grids (n : ℕ) (boxes : List (Scale Exact)) : Finset (Dimension → ℤ) :=
  boxes.foldr (fun box points => box.grid n ∪ points) ∅

theorem extent?_eq_none {d : Dimension} :
    s.extent? d = none ↔ d ∉ s.extents.map Extent.dimension := by
  simp [extent?]

theorem mem_iff_extent? {p : Point Exact} : p ∈ s ↔ ∀ d, ∀ e ∈ s.extent? d, e.Holds (p d) := by
  constructor
  · intro hp d e he
    have hd : e.dimension = d := by simpa using List.find?_some he
    exact hd ▸ hp e (extent?_mem he)
  · intro hp e he
    exact hp e.dimension e (extent?_of_mem he)

theorem mem_steps (hn : 0 < n) {d : Dimension} {z : ℤ} :
    z ∈ s.steps n d ↔ (∀ e ∈ s.extent? d, e.Holds ⟨z / n⟩) ∧ (s.extent? d = none → z = 0) := by
  have hn : (0 : ℚ) < n := Nat.cast_pos.mpr hn
  unfold steps
  split
  · rename_i e he
    simp only [he, Finset.mem_Ico, Int.ceil_le, Int.lt_ceil, Option.mem_some_iff, forall_eq',
      reduceCtorEq, false_implies, and_true, Extent.Holds, Exact.le_iff, Exact.lt_iff,
      le_div_iff₀ hn, div_lt_iff₀ hn]
  · rename_i hnone
    simp [hnone]

/-- The grid points in a box are those with their place in it. -/
theorem mem_grid (hn : 0 < n) {z : Dimension → ℤ} :
    z ∈ s.grid n ↔ place n z ∈ s ∧ ∀ d ∉ s.extents.map Extent.dimension, z d = 0 := by
  simp only [grid, Fintype.mem_piFinset, mem_steps hn, forall_and, mem_iff_extent?, place,
    extent?_eq_none]

theorem mem_grids {z : Dimension → ℤ} : z ∈ grids n boxes ↔ ∃ box ∈ boxes, z ∈ box.grid n := by
  induction boxes with
  | nil => simp [grids]
  | cons box boxes ih => simp [grids, ← ih]

/-- Which grid points lie in a region does not depend on the boxes. -/
theorem Dissects.mem_grids {S : Set (Point Exact)} (h : s.Dissects boxes S) (hn : 0 < n)
    {z : Dimension → ℤ} :
    z ∈ grids n boxes ↔ place n z ∈ S ∧ ∀ d ∉ s.extents.map Extent.dimension, z d = 0 := by
  rw [Scale.mem_grids, h.points]
  constructor
  · rintro ⟨box, hbox, hz⟩
    rw [mem_grid hn, h.dimensions box hbox] at hz
    exact ⟨⟨box, hbox, hz.1⟩, hz.2⟩
  · rintro ⟨⟨box, hbox, hp⟩, hz⟩
    rw [← h.dimensions box hbox] at hz
    exact ⟨box, hbox, (mem_grid hn).mpr ⟨hp, hz⟩⟩

/-! ## Counting -/

/-- All bounds lie on the grid. -/
def OnGrid (n : ℕ) (s : Scale Exact) : Prop :=
  ∀ e ∈ s.extents, (∃ z : ℤ, e.start.value * n = z) ∧ ∃ z : ℤ, e.stop.value * n = z

/-- Some grid has a given list of numbers on it. -/
theorem exists_common_denominator (qs : List ℚ) :
    ∃ n : ℕ, 0 < n ∧ ∀ q ∈ qs, ∃ z : ℤ, q * n = z := by
  induction qs with
  | nil => exact ⟨1, one_pos, by simp⟩
  | cons q qs ih =>
    obtain ⟨n, hn, hqs⟩ := ih
    refine ⟨q.den * n, Nat.mul_pos q.den_pos hn, List.forall_mem_cons.mpr ⟨⟨q.num * n, ?_⟩, ?_⟩⟩
    · push_cast
      rw [← mul_assoc, Rat.mul_den_eq_num]
    · intro q' hq'
      obtain ⟨z, hz⟩ := hqs q' hq'
      refine ⟨q.den * z, ?_⟩
      push_cast
      rw [← hz]
      ring

theorem exists_onGrid (boxes : List (Scale Exact)) :
    ∃ n : ℕ, 0 < n ∧ ∀ box ∈ boxes, box.OnGrid n := by
  obtain ⟨n, hn, h⟩ := exists_common_denominator
    (boxes.flatMap fun box => box.extents.flatMap fun e => [e.start.value, e.stop.value])
  refine ⟨n, hn, fun box hbox e he => ⟨h _ ?_, h _ ?_⟩⟩ <;>
    exact List.mem_flatMap.mpr ⟨box, hbox, List.mem_flatMap.mpr ⟨e, he, by simp⟩⟩

/-- An extent between grid points has as many steps as its length says. -/
theorem card_steps (h : s.OnGrid n) {e : Extent Exact} (he : e ∈ s.extents) :
    ((s.steps n e.dimension).card : ℚ) = (e.stop.value - e.start.value) * n := by
  obtain ⟨⟨a, ha⟩, b, hb⟩ := h e he
  have hle : a ≤ b := by
    have hlt : e.start.value ≤ e.stop.value := (Extent.start_lt_stop (s.valid e he)).le
    have : (a : ℚ) ≤ b := by rw [← ha, ← hb]; gcongr
    exact_mod_cast this
  have hcard : ((b - a).toNat : ℤ) = b - a := Int.toNat_of_nonneg (sub_nonneg.mpr hle)
  have hsteps : s.steps n e.dimension = Finset.Ico a b := by
    simp only [steps, extent?_of_mem he, ha, hb, Int.ceil_intCast]
  rw [hsteps, Int.card_Ico, sub_mul, ha, hb]
  exact_mod_cast hcard

/-- A box between grid points has as many grid points as its volume says. -/
theorem card_grid (h : s.OnGrid n) :
    ((s.grid n).card : ℚ) = s.volume.value * n ^ s.extents.length := by
  have hone : ∀ d ∈ Finset.univ, d ∉ (s.extents.map Extent.dimension).toFinset →
      ((s.steps n d).card : ℚ) = 1 := by
    intro d _ hd
    rw [List.mem_toFinset, ← extent?_eq_none] at hd
    simp [steps, hd]
  calc ((s.grid n).card : ℚ)
    _ = ∏ d, ((s.steps n d).card : ℚ) := by rw [grid, Fintype.card_piFinset, Nat.cast_prod]
    _ = ∏ d ∈ (s.extents.map Extent.dimension).toFinset, ((s.steps n d).card : ℚ) :=
      (Finset.prod_subset (Finset.subset_univ _) hone).symm
    _ = (s.extents.map fun e => ((s.steps n e.dimension).card : ℚ)).prod := by
      rw [List.prod_toFinset _ s.nodup_dimensions, List.map_map]
      rfl
    _ = (s.extents.map fun e => (e.stop.value - e.start.value) * (n : ℚ)).prod := by
      rw [List.map_congr_left fun e he => card_steps h he]
    _ = s.volume.value * n ^ s.extents.length := by
      rw [List.prod_map_mul, List.map_const', List.prod_replicate, volume_eq_prod]

theorem disjoint_grid (hn : 0 < n) {box box' : Scale Exact} (h : box.Apart box') :
    Disjoint (box.grid n) (box'.grid n) :=
  Finset.disjoint_left.mpr fun _ hz hz' =>
    h _ ((mem_grid hn).mp hz).1 ((mem_grid hn).mp hz').1

/-- Disjoint boxes between grid points have as many grid points as their volumes say. -/
theorem Dissects.card_grids {S : Set (Point Exact)} (h : s.Dissects boxes S) (hn : 0 < n)
    (hgrid : ∀ box ∈ boxes, box.OnGrid n) :
    ((grids n boxes).card : ℚ) = total boxes * n ^ s.extents.length := by
  obtain ⟨hdims, hapart, -⟩ := h
  induction boxes with
  | nil => simp [grids]
  | cons box boxes ih =>
    rw [List.forall_mem_cons] at hdims hgrid
    rw [List.pairwise_cons] at hapart
    have hlen : box.extents.length = s.extents.length := by
      simpa using congrArg List.length hdims.1
    have hdisjoint : Disjoint (box.grid n) (grids n boxes) := by
      refine Finset.disjoint_left.mpr fun z hz hz' => ?_
      obtain ⟨box', hbox', hz'⟩ := Scale.mem_grids.mp hz'
      exact Finset.disjoint_left.mp (disjoint_grid hn (hapart.1 box' hbox')) hz hz'
    calc ((grids n (box :: boxes)).card : ℚ)
      _ = (box.grid n).card + (grids n boxes).card := by
        rw [← Nat.cast_add, ← Finset.card_union_of_disjoint hdisjoint]
        rfl
      _ = total (box :: boxes) * n ^ s.extents.length := by
        rw [card_grid hgrid.1, hlen, ih hgrid.2 hdims.2 hapart.2, total_cons, add_mul]

/-! ## Volumes of regions -/

variable {S T U : Set (Point Exact)}

/-- A region inside two others has at most their volumes together. -/
theorem Dissects.total_le_add (h : s.Dissects whole U) (hleft : s.Dissects left S)
    (hright : s.Dissects right T) (hsub : U ⊆ S ∪ T) : total whole ≤ total left + total right := by
  obtain ⟨n, hn, hgrid⟩ := exists_onGrid (whole ++ left ++ right)
  simp only [List.forall_mem_append] at hgrid
  obtain ⟨⟨hwhole, hl⟩, hr⟩ := hgrid
  have hpoints : grids n whole ⊆ grids n left ∪ grids n right := by
    intro z hz
    rw [h.mem_grids hn] at hz
    rw [Finset.mem_union, hleft.mem_grids hn, hright.mem_grids hn, ← or_and_right]
    exact ⟨hsub hz.1, hz.2⟩
  have hcard : (grids n whole).card ≤ (grids n left).card + (grids n right).card :=
    (Finset.card_le_card hpoints).trans (Finset.card_union_le _ _)
  have hscaled : total whole * n ^ s.extents.length ≤
      (total left + total right) * n ^ s.extents.length := by
    rw [add_mul, ← h.card_grids hn hwhole, ← hleft.card_grids hn hl, ← hright.card_grids hn hr]
    exact_mod_cast hcard
  have hpos : (0 : ℚ) < n ^ s.extents.length := pow_pos (Nat.cast_pos.mpr hn) _
  exact le_of_mul_le_mul_right hscaled hpos

theorem Dissects.total_le (h : s.Dissects left S) (h' : s.Dissects right T) (hsub : S ⊆ T) :
    total left ≤ total right := by
  simpa using h.total_le_add (dissects_nil s) h' (by simpa using hsub)

/-- However a region is cut into disjoint boxes, their volumes add up to the same. -/
theorem Dissects.total_eq (h : s.Dissects left S) (h' : s.Dissects right S) :
    total left = total right :=
  le_antisymm (h.total_le h' subset_rfl) (h'.total_le h subset_rfl)

end Scale

end Obsplan
