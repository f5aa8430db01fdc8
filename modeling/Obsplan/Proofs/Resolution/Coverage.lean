import Obsplan.Proofs.Candidate.Lookup
import Obsplan.Proofs.Coverage.Region
import Obsplan.Proofs.Resolution.Shape
import Obsplan.Proofs.Search.Keys
import Obsplan.Proofs.Search.Provenance

/-!
# What a resolution covers

The coverage of a resolution is what its roots cover. A model is used where it applies, and only
where the dependencies it cannot do without are covered as well.
-/

namespace Obsplan

variable {α : Type} [Coordinate α] {p : Point α}

/-- The points that some nodes cover. -/
def regionOf (nodes : List (Node α)) (ids : List Nat) : Set (Point α) :=
  {p | ∃ i ∈ ids, ∃ n ∈ nodes[i]?, p ∈ n.coverage.region}

/-- The points of a scale where a model applies. -/
def Model.domain (m : Model α) (scale : Scale α) : Set (Point α) :=
  {p | p ∈ scale ∧ (m.coverage = [] ∨ ∃ shape ∈ m.coverage, p ∈ scale.reading shape)}

theorem mem_regionOf {nodes : List (Node α)} {ids : List Nat} :
    p ∈ regionOf nodes ids ↔ ∃ i ∈ ids, ∃ n ∈ nodes[i]?, p ∈ n.coverage.region := Iff.rfl

@[simp] theorem regionOf_nil (nodes : List (Node α)) : regionOf nodes [] = ∅ := by
  ext p; simp [mem_regionOf]

theorem mem_regionOf_concat {nodes : List (Node α)} {ids : List Nat} {id : Nat} {n : Node α}
    (hn : nodes[id]? = some n) :
    p ∈ regionOf nodes (ids ++ [id]) ↔ p ∈ regionOf nodes ids ∨ p ∈ n.coverage.region := by
  simp [mem_regionOf, or_and_right, exists_or, hn]

theorem regionOf_extend {nodes nodes' : List (Node α)} (h : nodes <+: nodes') (ids : List Nat) :
    regionOf nodes ids ⊆ regionOf nodes' ids := by
  rintro p ⟨i, hi, n, hn, hp⟩
  exact ⟨i, hi, n, getElem?_extend h hn, hp⟩

namespace Coverage

/-- A coverage of a scale that keeps to it. -/
structure Over (c : Coverage α) (scale : Scale α) : Prop where
  scale_eq : c.scale = scale
  proper : c.Proper

theorem Over.empty (scale : Scale α) : (Coverage.empty scale).Over scale := ⟨rfl, proper_empty scale⟩

theorem Over.full (scale : Scale α) : (Coverage.full scale).Over scale := ⟨rfl, proper_full scale⟩

variable [LawfulCoordinate α] {c other : Coverage α} {scale : Scale α}

theorem Over.merge (hc : c.Over scale) (other : Coverage α) : (c.merge other).Over scale := by
  obtain ⟨hscale, hproper, -⟩ := merge_spec hc.proper other
  exact ⟨hscale.trans hc.scale_eq, hproper⟩

theorem Over.intersect (hc : c.Over scale) (other : Coverage α) :
    (c.intersect other).Over scale := by
  obtain ⟨hscale, hproper, -⟩ := intersect_spec hc.proper other
  exact ⟨hscale.trans hc.scale_eq, hproper⟩

/-- Coverages of one scale are merged point by point. -/
theorem mem_merge (hc : c.Over scale) (ho : other.Over scale) :
    p ∈ (c.merge other).region ↔ p ∈ c.region ∨ p ∈ other.region := by
  obtain ⟨-, -, hmem⟩ := merge_spec hc.proper other
  rw [hmem, hc.scale_eq, mem_reading_shapes ho.proper ho.scale_eq]
  refine or_congr_right (and_iff_right_of_imp fun hp => ?_)
  rw [← ho.scale_eq]
  exact ho.proper.inside hp

/-- Coverages of one scale are intersected point by point. -/
theorem mem_intersect (hc : c.Over scale) (ho : other.Over scale) :
    p ∈ (c.intersect other).region ↔ p ∈ c.region ∧ p ∈ other.region := by
  obtain ⟨-, -, hmem⟩ := intersect_spec hc.proper other
  rw [hmem, hc.scale_eq, mem_reading_shapes ho.proper ho.scale_eq]

end Coverage

namespace Model

variable [LawfulCoordinate α] {m : Model α} {scale : Scale α}

theorem over_coverageOver : (m.coverageOver scale).Over scale := by
  unfold coverageOver
  split
  · exact .full scale
  · obtain ⟨hscale, hproper, -⟩ := Coverage.ofShapes_spec scale m.coverage
    exact ⟨hscale, hproper⟩

/-- What a model claims of a scale is where it applies. -/
theorem region_coverageOver : (m.coverageOver scale).region = m.domain scale := by
  ext p
  unfold coverageOver
  split
  · rename_i hempty
    rw [Coverage.mem_region_full]
    exact ⟨fun hp => ⟨hp, .inl (List.isEmpty_iff.mp hempty)⟩, fun hp => hp.1⟩
  · rename_i hempty
    have hne : m.coverage ≠ [] := fun h => hempty (List.isEmpty_iff.mpr h)
    obtain ⟨-, -, hmem⟩ := Coverage.ofShapes_spec scale m.coverage
    rw [hmem]
    exact and_congr_right fun _ => (or_iff_right hne).symm

end Model

namespace Search

variable {sources : Sources α} {root ctx : Context α} {nodes : List (Node α)} {o : Observable}

/-- A candidate claims what its model does. -/
theorem Ranked.coverage_eq {c : Candidate α} (h : Ranked sources o ctx c) :
    c.coverage = c.model.coverageOver ctx.scale := by
  obtain ⟨found, hfound, hc⟩ := h
  exact (Candidate.mem_lookup hfound hc).2

theorem StandsIn.over {d : Dependency α} {scale : Scale α} {means : Means α}
    {coverage : Coverage α} (h : StandsIn d scale means coverage) : coverage.Over scale := by
  cases h with
  | deferred => exact .full scale
  | constant => exact .full scale
  | unresolved => exact .empty scale

variable [LawfulCoordinate α]

theorem narrowed_over {d : Dependency α} {coverage found : Coverage α} {scale : Scale α}
    (h : coverage.Over scale) : (narrowed d coverage found).Over scale := by
  unfold narrowed
  split
  · exact h.intersect found
  · exact h

theorem LinkedAll.over {m : Model α} {ds : List (Dependency α)} {links : List Link}
    {coverage coverage' : Coverage α}
    (h : LinkedAll sources root nodes m ctx ds coverage links coverage')
    (hc : coverage.Over ctx.scale) : coverage'.Over ctx.scale := by
  induction h with
  | nil => exact hc
  | cons hl _ ih =>
    refine ih ?_
    cases hl with
    | standIn => exact hc
    | found => exact narrowed_over hc

/-- The coverage of a node is one of its scale. -/
theorem Made.over {n : Node α} (h : Made sources root nodes n) : n.coverage.Over n.scale := by
  cases h with
  | standIn _ hs => exact hs.over
  | model _ hc hl =>
    refine hl.over ?_
    rw [hc.coverage_eq]
    exact Model.over_coverageOver

/-- Accepted nodes cover together what is said. -/
theorem Accepted.region {ids : List Nat} {covered : Coverage α}
    (hover : ∀ {i : Nat} {n : Node α}, nodes[i]? = some n → n.coverage.Over n.scale)
    (h : Accepted sources nodes o ctx ids covered) :
    covered.Over ctx.scale ∧ covered.region = regionOf nodes ids := by
  induction h with
  | nil => exact ⟨.empty _, by simp⟩
  | snoc _ _ hn ih =>
    obtain ⟨hover', hregion⟩ := ih
    refine ⟨hover'.merge _, ?_⟩
    ext p
    rw [Coverage.mem_merge hover' (hover hn), mem_regionOf_concat hn, hregion]

variable [LegibleCoordinate α]

theorem Found.region {b : Branch α}
    (hover : ∀ {i : Nat} {n : Node α}, nodes[i]? = some n → n.coverage.Over n.scale)
    (h : Found sources root nodes o ctx b) :
    b.coverage.Over ctx.scale ∧ b.coverage.region = regionOf nodes b.nodes := by
  cases h with
  | failed => exact ⟨.empty _, by simp [Branch.failed]⟩
  | searched _ hkey ha =>
    rw [← (branchKey_injective hkey).2.1]
    exact ha.region hover

/-- What is linked for a dependency covers what is left of the coverage, unless the dependency is
optional or has a scale of its own. -/
def Supports (nodes : List (Node α)) (coverage : Coverage α) (d : Dependency α) (link : Link) : Prop :=
  d.observable.optional = false → d.scale = none → coverage.region ⊆ regionOf nodes link.nodes

theorem Linked.region {m : Model α} {d : Dependency α} {link : Link} {coverage coverage' : Coverage α}
    (hover : ∀ {i : Nat} {n : Node α}, nodes[i]? = some n → n.coverage.Over n.scale)
    (hc : coverage.Over ctx.scale)
    (h : Linked sources root nodes m ctx d coverage link coverage') :
    coverage'.region ⊆ coverage.region ∧ Supports nodes coverage' d link := by
  cases h with
  | @standIn _ _ covered id i hs hn =>
    refine ⟨subset_rfl, fun hopt hscale p hp => ⟨id, by simp, _, hn, ?_⟩⟩
    have hin : p ∈ ctx.scale := hc.scale_eq ▸ hc.proper.inside hp
    rw [hscale, Option.getD_none] at hs
    cases hs with
    | deferred => exact Coverage.mem_region_full.mpr hin
    | constant => exact Coverage.mem_region_full.mpr hin
    | unresolved _ _ hopt' => rw [hopt] at hopt'; cases hopt'
  | @found _ b _ hf _ =>
    obtain ⟨hb, hregion⟩ := hf.region hover
    by_cases hnarrow : d.observable.optional = false ∧ d.scale = none
    · obtain ⟨hopt, hscale⟩ := hnarrow
      have hsame : (inner m ctx d).scale = ctx.scale := by
        simp [inner, Context.atScale, hscale]
      rw [hsame] at hb
      have hmem : ∀ p, p ∈ (narrowed d coverage b.coverage).region ↔
          p ∈ coverage.region ∧ p ∈ b.coverage.region := by
        intro p
        simp only [narrowed, hopt, hscale, Bool.not_false, Option.isNone_none, Bool.and_self, if_true]
        exact Coverage.mem_intersect hc hb
      refine ⟨fun p hp => ((hmem p).mp hp).1, fun _ _ p hp => ?_⟩
      rw [← hregion]
      exact ((hmem p).mp hp).2
    · have hkept : narrowed d coverage b.coverage = coverage := by
        unfold narrowed
        rw [if_neg]
        simpa using hnarrow
      rw [hkept]
      exact ⟨subset_rfl, fun hopt hscale => absurd ⟨hopt, hscale⟩ hnarrow⟩

theorem LinkedAll.region {m : Model α} {ds : List (Dependency α)} {links : List Link}
    {coverage coverage' : Coverage α}
    (hover : ∀ {i : Nat} {n : Node α}, nodes[i]? = some n → n.coverage.Over n.scale)
    (hc : coverage.Over ctx.scale)
    (h : LinkedAll sources root nodes m ctx ds coverage links coverage') :
    coverage'.region ⊆ coverage.region ∧ List.Forall₂ (Supports nodes coverage') ds links := by
  induction h with
  | nil => exact ⟨subset_rfl, .nil⟩
  | @cons d ds coverage coverage₁ coverage₂ link links hl hls ih =>
    obtain ⟨hsub, hsupports⟩ := hl.region hover hc
    have hc₁ : coverage₁.Over ctx.scale := (LinkedAll.cons hl .nil).over hc
    obtain ⟨hsub', hrest⟩ := ih hc₁
    refine ⟨hsub'.trans hsub, .cons (fun hopt hscale => ?_) hrest⟩
    exact hsub'.trans (hsupports hopt hscale)

end Search

namespace Resolution

variable {sources : Sources α} {limits : Limits α} {o : Observable} {ctx : Context α}
  {r : Resolution α}

/-- A resolution that covers no more than its nodes do, and whose nodes cover no more than their
models and what these depend on. -/
structure Covers (r : Resolution α) : Prop where
  roots : r.coverage.region = regionOf r.nodes r.roots
  nonempty : ∀ n ∈ r.nodes, ∀ m ∈ n.means.model?, n.coverage.region.Nonempty
  domain : ∀ n ∈ r.nodes, ∀ m ∈ n.means.model?, n.coverage.region ⊆ m.domain n.scale
  dependencies : ∀ n ∈ r.nodes, ∀ m ∈ n.means.model?, List.Forall₂ (fun d link =>
    d.observable.optional = false → d.scale = none →
      n.coverage.region ⊆ regionOf r.nodes link.nodes) m.dependencies n.links

variable [LawfulCoordinate α] [LegibleCoordinate α]

/-- Coverage is never overstated. -/
theorem resolve_covers (h : resolve sources limits o ctx = .ok r) : r.Covers := by
  obtain ⟨hmade, b, hfound, hnodes, hcoverage⟩ := resolve_documented h
  have hover : ∀ {i : Nat} {n : Node α}, r.nodes[i]? = some n → n.coverage.Over n.scale :=
    fun hn => (hmade hn).over
  have hbefore : ∀ {i j : Nat} {n : Node α}, (r.nodes.take i)[j]? = some n →
      n.coverage.Over n.scale :=
    fun hn => hover (getElem?_extend (List.take_prefix _ _) hn)
  -- what is known of a model's node is read off the way in which it was made
  have hmodel : ∀ n ∈ r.nodes, ∀ m ∈ n.means.model?, n.coverage.region.Nonempty ∧
      n.coverage.region ⊆ m.domain n.scale ∧ List.Forall₂ (fun d link =>
        d.observable.optional = false → d.scale = none →
          n.coverage.region ⊆ regionOf r.nodes link.nodes) m.dependencies n.links := by
    intro n hn m hm
    obtain ⟨i, hi⟩ := List.mem_iff_getElem?.mp hn
    cases hmade hi with
    | standIn _ hs => cases hs <;> cases hm
    | @model o' ctx' c links coverage i _ hc hl hne =>
      cases hm
      have hclaim : c.coverage.Over ctx'.scale := hc.coverage_eq ▸ Model.over_coverageOver
      obtain ⟨hsub, hsupports⟩ := hl.region hbefore hclaim
      refine ⟨Coverage.region_nonempty hne, ?_, hsupports.imp fun d link hs hopt hscale => ?_⟩
      · rw [← Model.region_coverageOver, ← hc.coverage_eq]
        exact hsub
      · exact (hs hopt hscale).trans (regionOf_extend (List.take_prefix _ _) _)
  constructor
  · rw [← hcoverage, ← hnodes]
    exact (hfound.region hover).2
  · exact fun n hn m hm => (hmodel n hn m hm).1
  · exact fun n hn m hm => (hmodel n hn m hm).2.1
  · exact fun n hn m hm => (hmodel n hn m hm).2.2

/-- The time from the start up to some year. -/
def upTo (year : Number) (h : (Extent.mk .time 0.0 year).isValid = true) : Scale Number where
  extents := [⟨.time, 0.0, year⟩]
  ordered := List.singleton_sublist.mpr (by simp [Dimension.all])
  valid := by simpa using h

/-- Land is known for all years and needs soil, which is known for the first two. -/
def halfKnown : Sources Number :=
  knowing [needing "x.land" land [soil],
    { needing "y.soil" soil [] with coverage := [upTo 2.0 (by decide +kernel)] }]

theorem resolve_covers_halfKnown :
    ∃ r, resolve halfKnown ({} : Config).limits land
        { everywhere with scale := upTo 4.0 (by decide +kernel) } = .ok r ∧
      r.nodes.length = 2 ∧ r.outcome = .partially ∧ r.Covers := by
  obtain ⟨r, hr, hlen, houtcome⟩ := exists_of_any
    (P := fun r : Resolution Number => r.nodes.length = 2 ∧ r.outcome = .partially)
    (x := resolve halfKnown ({} : Config).limits land
      { everywhere with scale := upTo 4.0 (by decide +kernel) }) (by decide +kernel)
  exact ⟨r, hr, hlen, houtcome, resolve_covers hr⟩

end Resolution

end Obsplan
