import Mathlib.Tactic.Linarith
import Mathlib.Tactic.NormNum
import Obsplan.Proofs.Coverage.Tiling
import Obsplan.Proofs.Scale.Volume

/-!
# Fractions

The fraction of a coverage is kept from operation to operation, is computed from whatever shapes
the operations have left, and is not computed again when nothing is added. In exact numbers it is
all the same the volume of what is covered over the volume of the scale, but for the slack near the
whole, so it obeys the laws of unions.
-/

namespace Obsplan.Coverage

open Coordinate Scale

variable {a b c : Coverage Exact} {scale : Scale Exact} {shapes : List (Scale Exact)}

/-! ## Settling -/

/-- A share within the slack of the whole counts as the whole. -/
def settle (share : ℚ) : ℚ := if 1 - share < 1 / 10 ^ 9 then 1 else share

theorem le_settle {x : ℚ} (h : x ≤ 1) : x ≤ settle x := by
  unfold settle
  split
  · exact h
  · exact le_rfl

theorem settle_le_one {x : ℚ} (h : x ≤ 1) : settle x ≤ 1 := by
  unfold settle
  split
  · exact le_rfl
  · exact h

theorem settle_le_add (x : ℚ) : settle x ≤ x + 1 / 10 ^ 9 := by
  unfold settle
  split <;> linarith

theorem settle_mono {x y : ℚ} (h : x ≤ y) (hy : y ≤ 1) : settle x ≤ settle y := by
  by_cases hx : 1 - x < 1 / 10 ^ 9
  · have hsettled : 1 - y < 1 / 10 ^ 9 := by linarith
    simp only [settle, if_pos hx, if_pos hsettled, le_refl]
  · calc settle x
      _ = x := if_neg hx
      _ ≤ y := h
      _ ≤ settle y := le_settle hy

/-- At most one of two complementary shares settles. -/
theorem abs_settle_add_settle (x : ℚ) (h₀ : 0 ≤ x) (h₁ : x ≤ 1) :
    |settle x + settle (1 - x) - 1| ≤ 1 / 10 ^ 9 := by
  unfold settle
  rw [abs_le]
  split <;> split <;> constructor <;> linarith

/-! ## Shares -/

/-- The volume of the shapes over the volume of the scale. -/
def share (c : Coverage Exact) : ℚ := total c.shapes / c.scale.volume.value

/-- The shapes of a tiled coverage cut up its region. -/
theorem Tiled.dissects (h : c.Tiled) (hscale : c.scale = scale) :
    scale.Dissects c.shapes c.region :=
  hscale ▸ ⟨h.dimensions, h.apart, fun _ => mem_region⟩

theorem share_nonneg (c : Coverage Exact) : 0 ≤ c.share :=
  div_nonneg (total_nonneg c.shapes) c.scale.volume_pos.le

theorem Tiled.region_subset (h : c.Tiled) : c.region ⊆ {p | p ∈ c.scale} :=
  fun _ hp => h.proper.inside hp

theorem Tiled.total_le_volume (h : c.Tiled) : total c.shapes ≤ c.scale.volume.value := by
  simpa using (h.dissects rfl).total_le (dissects_self c.scale) h.region_subset

theorem Tiled.share_le_one (h : c.Tiled) : c.share ≤ 1 :=
  div_le_one_of_le₀ h.total_le_volume c.scale.volume_pos.le

/-- A region inside another one has at most its share. -/
theorem Tiled.share_le (ha : a.Tiled) (hb : b.Tiled) (hscale : b.scale = a.scale)
    (hsub : a.region ⊆ b.region) : a.share ≤ b.share := by
  have htotal : total a.shapes ≤ total b.shapes :=
    (ha.dissects rfl).total_le (hb.dissects hscale) hsub
  unfold share
  rw [hscale]
  exact div_le_div_of_nonneg_right htotal a.scale.volume_pos.le

/-- The share depends on the region only. -/
theorem Tiled.share_eq (ha : a.Tiled) (hb : b.Tiled) (hscale : b.scale = a.scale)
    (hregion : a.region = b.region) : a.share = b.share :=
  le_antisymm (ha.share_le hb hscale hregion.le) (hb.share_le ha hscale.symm hregion.ge)

/-- A region inside two others has at most their shares together. -/
theorem Tiled.share_le_add (hc : c.Tiled) (ha : a.Tiled) (hb : b.Tiled) (hca : c.scale = a.scale)
    (hba : b.scale = a.scale) (hsub : c.region ⊆ a.region ∪ b.region) :
    c.share ≤ a.share + b.share := by
  have htotal : total c.shapes ≤ total a.shapes + total b.shapes :=
    (hc.dissects hca).total_le_add (ha.dissects rfl) (hb.dissects hba) hsub
  unfold share
  rw [hca, hba, ← add_div]
  exact div_le_div_of_nonneg_right htotal a.scale.volume_pos.le

/-- The shares of a region and of the rest of the scale add up to the whole. -/
theorem Tiled.share_add (ha : a.Tiled) (hb : b.Tiled) (hscale : b.scale = a.scale)
    (hrest : b.region = {p | p ∈ a.scale} \ a.region) : a.share + b.share = 1 := by
  have hunion : a.region ∪ b.region = {p | p ∈ a.scale} := by
    rw [hrest, Set.union_sdiff_cancel ha.region_subset]
  have hapart : ∀ p ∈ a.region, p ∉ b.region := fun p hp hb => (hrest.le hb).2 hp
  have hboth : a.scale.Dissects (a.shapes ++ b.shapes) {p | p ∈ a.scale} :=
    hunion ▸ (ha.dissects rfl).append (hb.dissects hscale) hapart
  have htotal : total a.shapes + total b.shapes = a.scale.volume.value := by
    simpa using hboth.total_eq (dissects_self a.scale)
  unfold share
  rw [hscale, ← add_div, htotal, div_self a.scale.volume_pos.ne']

/-! ## Fractions are settled shares -/

/-- The fraction is the settled share of the shapes. -/
def Settled (c : Coverage Exact) : Prop := c.fraction.value = settle c.share

theorem value_fractionOf (h : total shapes ≤ scale.volume.value) :
    (fractionOf scale shapes).value = settle (total shapes / scale.volume.value) := by
  have hfold := foldl_volume shapes zero
  simp only [fractionOf]
  generalize shapes.foldl (fun v (s : Scale Exact) => v + s.volume) zero = covered at hfold ⊢
  rw [Exact.value_zero, zero_add] at hfold
  rw [← hfold] at h ⊢
  have hshare : clampUnit (covered / scale.volume) = covered / scale.volume :=
    Exact.clampUnit_of_mem (div_nonneg (hfold ▸ total_nonneg shapes) scale.volume_pos.le)
      (div_le_one_of_le₀ h scale.volume_pos.le)
  have hpos : (zero : Exact) < scale.volume := by simpa using scale.volume_pos
  rw [if_pos hpos, hshare]
  simp only [Exact.lt_iff, Exact.value_sub, Exact.value_one, Exact.value_div, Exact.value_slack,
    apply_ite Exact.value, settle]

theorem settled_empty (scale : Scale Exact) : (empty scale).Settled := by
  simp only [Settled, share, empty, total_nil, zero_div, Exact.value_zero, settle]
  norm_num

theorem settled_full (scale : Scale Exact) : (full scale).Settled := by
  have hone : scale.volume.value / scale.volume.value = 1 := div_self scale.volume_pos.ne'
  simp only [Settled, share, full, total_cons, total_nil, add_zero, hone, Exact.value_one, settle]
  norm_num

theorem tiled_absorb (h : c.Tiled) (shape : Scale Exact) : (c.absorb shape).Tiled :=
  (proper_absorb h.proper).tiled (pairwise_absorb h.proper h.apart)

/-- The fraction is computed again whenever shapes are added. -/
theorem absorb_cases (c : Coverage Exact) (shape : Scale Exact) :
    c.absorb shape = c ∨
      (c.absorb shape).fraction = fractionOf c.scale (c.absorb shape).shapes := by
  simp only [absorb]
  split
  · exact .inl rfl
  · split
    · exact .inl rfl
    · exact .inr rfl

theorem settled_absorb (htiled : c.Tiled) (h : c.Settled) (shape : Scale Exact) :
    (c.absorb shape).Settled := by
  rcases absorb_cases c shape with hsame | hadded
  · exact hsame.symm ▸ h
  · have hle : total (c.absorb shape).shapes ≤ c.scale.volume.value := by
      simpa using (tiled_absorb htiled shape).total_le_volume
    rw [Settled, hadded, value_fractionOf hle, share, scale_absorb]

theorem settled_foldl_absorb (htiled : c.Tiled) (h : c.Settled) (shapes : List (Scale Exact)) :
    (shapes.foldl absorb c).Settled := by
  induction shapes generalizing c with
  | nil => exact h
  | cons shape shapes ih => exact ih (tiled_absorb htiled shape) (settled_absorb htiled h shape)

theorem settled_ofShapes (scale : Scale Exact) (shapes : List (Scale Exact)) :
    (ofShapes scale shapes).Settled :=
  settled_foldl_absorb (Built.empty scale).tiled (settled_empty scale) shapes

/-- However a coverage is built, its fraction is the settled share. -/
theorem Built.settled (h : c.Built) : c.Settled := by
  induction h with
  | empty scale => exact settled_empty scale
  | full scale => exact settled_full scale
  | ofShapes scale shapes => exact settled_ofShapes scale shapes
  | merge ha _ hsettled _ => exact settled_foldl_absorb ha.tiled hsettled _
  | remainder => exact settled_ofShapes _ _
  | uncovered => exact settled_ofShapes _ _
  | intersect => exact settled_ofShapes _ _

/-! ## Unions -/

/-- Over one scale, merging joins the regions. -/
theorem region_merge (ha : a.Proper) (hb : b.Proper) (hscale : b.scale = a.scale) :
    (a.merge b).region = a.region ∪ b.region := by
  ext p
  rw [(merge_spec ha b).2.2, mem_reading_shapes hb hscale, Set.mem_union]
  have hinside : p ∈ b.region → p ∈ a.scale := fun hp => hscale ▸ hb.inside hp
  exact or_congr_right (and_iff_right_of_imp hinside)

theorem region_uncovered (ha : a.Proper) : a.uncovered.region = {p | p ∈ a.scale} \ a.region := by
  rw [uncovered, region_remainder]
  ext p
  exact and_congr_right fun _ => not_congr (mem_reading_shapes ha rfl)

/-- Coverages that cover the same have the same fraction. -/
theorem fraction_eq (ha : a.Built) (hb : b.Built) (hscale : b.scale = a.scale)
    (hregion : a.region = b.region) : a.fraction = b.fraction := by
  refine Exact.ext ?_
  rw [ha.settled, hb.settled, ha.tiled.share_eq hb.tiled hscale hregion]

/-- Merging anything in never lowers the fraction. -/
theorem fraction_le_merge (ha : a.Built) (d : Coverage Exact) :
    a.fraction.value ≤ (a.merge d).fraction.value := by
  have htiled : (a.merge d).Tiled := tiled_foldl_absorb ha.tiled.proper ha.tiled.apart
  have hsettled : (a.merge d).Settled := settled_foldl_absorb ha.tiled ha.settled d.shapes
  obtain ⟨hscale, -, hmem⟩ := merge_spec ha.tiled.proper d
  rw [ha.settled, hsettled]
  exact settle_mono (ha.tiled.share_le htiled hscale fun p hp => (hmem p).mpr (.inl hp))
    htiled.share_le_one

/-- Over one scale, the fraction of a union is at most the fractions together. -/
theorem fraction_merge_le (ha : a.Built) (hb : b.Built) (hscale : b.scale = a.scale) :
    (a.merge b).fraction.value ≤ min 1 (a.fraction.value + b.fraction.value + 1 / 10 ^ 9) := by
  have hunion : (a.merge b).Built := .merge ha hb
  have hmerge : (a.merge b).scale = a.scale := (merge_spec ha.tiled.proper b).1
  have hregion : (a.merge b).region = a.region ∪ b.region :=
    region_merge ha.tiled.proper hb.tiled.proper hscale
  have hshare : (a.merge b).share ≤ a.share + b.share :=
    hunion.tiled.share_le_add ha.tiled hb.tiled hmerge hscale hregion.le
  refine le_min (hunion.settled ▸ settle_le_one hunion.tiled.share_le_one) ?_
  calc (a.merge b).fraction.value
    _ = settle (a.merge b).share := hunion.settled
    _ ≤ (a.merge b).share + 1 / 10 ^ 9 := settle_le_add _
    _ ≤ a.share + b.share + 1 / 10 ^ 9 := by gcongr
    _ ≤ a.fraction.value + b.fraction.value + 1 / 10 ^ 9 := by
      rw [ha.settled, hb.settled]
      gcongr <;> exact le_settle (Built.tiled ‹_›).share_le_one

theorem fraction_add_uncovered (ha : a.Built) :
    |a.fraction.value + a.uncovered.fraction.value - 1| ≤ 1 / 10 ^ 9 := by
  have hrest : a.uncovered.Built := .uncovered ha
  have hscale : a.uncovered.scale = a.scale := (ofShapes_spec a.scale _).1
  have hshare : a.share + a.uncovered.share = 1 :=
    ha.tiled.share_add hrest.tiled hscale (region_uncovered ha.tiled.proper)
  rw [ha.settled, hrest.settled, eq_sub_of_add_eq' hshare]
  exact abs_settle_add_settle a.share (share_nonneg a) ha.tiled.share_le_one

/-- What covers no new points gains nothing. -/
theorem gain_eq_zero (ha : a.Built) (hb : b.Built) (hscale : b.scale = a.scale)
    (hsub : b.region ⊆ a.region) : (a.gain b).value = 0 := by
  have hregion : (a.merge b).region = a.region := by
    rw [region_merge ha.tiled.proper hb.tiled.proper hscale, Set.union_eq_left.mpr hsub]
  have hfraction : (a.merge b).fraction = a.fraction :=
    fraction_eq (.merge ha hb) ha (merge_spec ha.tiled.proper b).1.symm hregion
  have hgrowth : ¬ (zero : Exact) < a.fraction - a.fraction := by simp
  rw [gain, hfraction, if_neg hgrowth, Exact.value_zero]

theorem isComplete_mono {tolerance : Exact} (hle : a.fraction.value ≤ b.fraction.value)
    (h : a.isComplete tolerance = true) : b.isComplete tolerance = true := by
  simp only [isComplete, decide_eq_true_eq, Exact.le_iff] at h ⊢
  exact h.trans hle

/-- The fraction of a coverage is the volume of its region over the volume of its scale, however the
region is cut into boxes, and a whole when the slack makes it one. Hence the laws of unions. -/
theorem built_fraction (ha : a.Built) (hb : b.Built) (hc : c.Built) (hba : b.scale = a.scale)
    (hca : c.scale = a.scale) (d : Coverage Exact) (tolerance : Exact) :
    (empty a.scale).fraction.value = 0 ∧
    (a.scale.Dissects a.shapes a.region ∧ ∀ boxes, a.scale.Dissects boxes a.region →
      a.fraction.value = settle (total boxes / a.scale.volume.value)) ∧
    ((a.merge b).region = (b.merge a).region ∧ (a.merge b).fraction = (b.merge a).fraction) ∧
    (((a.merge b).merge c).region = (a.merge (b.merge c)).region ∧
      ((a.merge b).merge c).fraction = (a.merge (b.merge c)).fraction) ∧
    ((a.merge a).region = a.region ∧ (a.merge a).fraction = a.fraction) ∧
    (max a.fraction.value b.fraction.value ≤ (a.merge b).fraction.value ∧
      (a.merge b).fraction.value ≤ min 1 (a.fraction.value + b.fraction.value + 1 / 10 ^ 9)) ∧
    (b.region ⊆ a.region → (a.gain b).value = 0) ∧
    (a.isComplete tolerance = true →
      (a.merge d).isComplete tolerance = true ∧ (b.merge a).isComplete tolerance = true) ∧
    |a.fraction.value + a.uncovered.fraction.value - 1| ≤ 1 / 10 ^ 9 := by
  have hmerge : ∀ {x y : Coverage Exact}, x.Built → y.Built → y.scale = x.scale →
      (x.merge y).Built ∧ (x.merge y).scale = x.scale ∧ (x.merge y).region = x.region ∪ y.region :=
    fun hx hy hscale => ⟨.merge hx hy, (merge_spec hx.tiled.proper _).1,
      region_merge hx.tiled.proper hy.tiled.proper hscale⟩
  obtain ⟨hab, habscale, habregion⟩ := hmerge ha hb hba
  obtain ⟨hbab, hbascale, hbaregion⟩ := hmerge hb ha hba.symm
  obtain ⟨hbc, hbcscale, hbcregion⟩ := hmerge hb hc (hca.trans hba.symm)
  obtain ⟨habc, habcscale, habcregion⟩ := hmerge hab hc (hca.trans habscale.symm)
  obtain ⟨habc', habcscale', habcregion'⟩ := hmerge ha hbc (hbcscale.trans hba)
  obtain ⟨haa, haascale, haaregion⟩ := hmerge ha ha rfl
  have hcomm : (a.merge b).region = (b.merge a).region := by
    rw [habregion, hbaregion, Set.union_comm]
  have hassoc : ((a.merge b).merge c).region = (a.merge (b.merge c)).region := by
    rw [habcregion, habregion, habcregion', hbcregion, Set.union_assoc]
  have hidem : (a.merge a).region = a.region := by rw [haaregion, Set.union_self]
  have hcommFraction : (a.merge b).fraction = (b.merge a).fraction :=
    fraction_eq hab hbab (by rw [hbascale, habscale, hba]) hcomm
  refine ⟨Exact.value_zero, ⟨ha.tiled.dissects rfl, fun boxes h => ?_⟩, ⟨hcomm, hcommFraction⟩,
    ⟨hassoc, fraction_eq habc habc' (by rw [habcscale', habcscale, habscale]) hassoc⟩,
    ⟨hidem, fraction_eq haa ha haascale.symm hidem⟩,
    ⟨max_le (fraction_le_merge ha b) ?_, fraction_merge_le ha hb hba⟩,
    gain_eq_zero ha hb hba, fun h => ⟨isComplete_mono (fraction_le_merge ha d) h, ?_⟩,
    fraction_add_uncovered ha⟩
  · rw [ha.settled, share, (ha.tiled.dissects rfl).total_eq h]
  · exact hcommFraction ▸ fraction_le_merge hb a
  · exact isComplete_mono (hcommFraction ▸ fraction_le_merge ha b) h

/-- A plot, and strips along two of its sides; one reaches beyond it. -/
def plot : Scale Exact := ⟨[⟨.x, ⟨0⟩, ⟨10⟩⟩, ⟨.y, ⟨0⟩, ⟨10⟩⟩], by decide, by decide +kernel⟩

def westStrip : Scale Exact := ⟨[⟨.x, ⟨0⟩, ⟨6⟩⟩], by decide, by decide +kernel⟩

def southStrip : Scale Exact := ⟨[⟨.y, ⟨-1⟩, ⟨4⟩⟩], by decide, by decide +kernel⟩

/-- The strips overlap, and the fraction counts the overlap once. -/
theorem built_fraction_strips :
    (ofShapes plot [westStrip, southStrip]).fraction.value = 19 / 25 ∧
      (ofShapes plot [southStrip]).region ⊆ (ofShapes plot [westStrip, southStrip]).region ∧
      ((ofShapes plot [westStrip, southStrip]).gain (ofShapes plot [southStrip])).value = 0 ∧
      (ofShapes plot [westStrip, southStrip]).isComplete ⟨1 / 4⟩ = true ∧
      ((ofShapes plot [southStrip]).merge
        (ofShapes plot [westStrip, southStrip])).isComplete ⟨1 / 4⟩ = true := by
  have hscale :
      (ofShapes plot [southStrip]).scale = (ofShapes plot [westStrip, southStrip]).scale :=
    (ofShapes_spec plot _).1.trans (ofShapes_spec plot _).1.symm
  have hsub : (ofShapes plot [southStrip]).region ⊆
      (ofShapes plot [westStrip, southStrip]).region := by
    intro p hp
    obtain ⟨hin, shape, hshape, hread⟩ := ((ofShapes_spec plot _).2.2 p).mp hp
    exact ((ofShapes_spec plot _).2.2 p).mpr ⟨hin, shape, List.mem_cons_of_mem _ hshape, hread⟩
  have hcomplete : (ofShapes plot [westStrip, southStrip]).isComplete ⟨1 / 4⟩ = true := by
    decide +kernel
  obtain ⟨-, -, -, -, -, -, hgain, hkept, -⟩ := built_fraction
    (.ofShapes plot [westStrip, southStrip]) (.ofShapes plot [southStrip]) (.full plot) hscale
    (ofShapes_spec plot [westStrip, southStrip]).1.symm (empty southStrip) ⟨1 / 4⟩
  exact ⟨by decide +kernel, hsub, hgain hsub, hcomplete, (hkept hcomplete).2⟩

end Obsplan.Coverage
