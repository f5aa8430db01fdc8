import Obsplan.Proofs.Resolution.Shape
import Obsplan.Proofs.Search.Reuse

/-!
# Resolutions that use branches again

A branch is kept under a key that tells neither the path on which it was searched nor how many levels
were left. When no branch is cut off because of its path, using branches again does not change what
an observable is composed of.
-/

namespace Obsplan

variable {α : Type} [Coordinate α]

instance (m : Model α) : Decidable m.HandsDownPlain := inferInstanceAs (Decidable (_ ∧ _))

instance (limits : Limits α) (n : Notification) : Decidable (Search.IsCut limits n) :=
  inferInstanceAs (Decidable (_ ∨ _))

theorem Catalog.mem_values_of_offers {catalog : Catalog α} {taxonomy : Taxonomy} {m : Model α}
    (h : (Sources.ofCatalog catalog taxonomy).Offers m) : m ∈ catalog.models.values := by
  obtain ⟨o, ms, hms, hm⟩ := h
  cases hms
  have hm := (perm_arrange _ _).mem_iff.mp hm
  obtain ⟨urn, -, hurn⟩ := List.mem_filterMap.mp (List.mem_filter.mp hm).1
  exact List.mem_map_of_mem (Keyed.mem_of_get? hurn)

namespace Resolution

variable {limits : Limits α} {o : Observable} {ctx : Context α}

/-- The branch that a resolution is concluded from. -/
theorem resolve_of_branch {sources : Sources α} {b : Branch α} {s : SearchState α}
    (h : Search.branch sources limits (limits.maxDepth + 1) o ctx {} = .ok (b, s)) :
    ∃ r, resolve sources limits o ctx = .ok r ∧ r.outcome = b.outcome ∧ r.coverage = b.coverage ∧
      r.composition = composed s.nodes b.nodes := by
  simp only [resolve, h]
  exact ⟨_, rfl, rfl, rfl, rfl⟩

/-- Using branches again does not change what is found, unless a search without it cuts off a branch
because of its path. -/
theorem resolve_reuse [LegibleCoordinate α] {catalog : Catalog α} {taxonomy : Taxonomy}
    {r₀ : Resolution α} (hclock : ∀ n, limits.isLate n = false)
    (hmodels : ∀ m ∈ catalog.models.values, m.HandsDownPlain) (hctx : Search.Plain ctx.constraints)
    (h : resolve (.ofCatalog catalog taxonomy) { limits with reuses := false } o ctx = .ok r₀)
    (huncut : ∀ n ∈ r₀.notifications, ¬ Search.IsCut limits n) :
    ∃ r, resolve (.ofCatalog catalog taxonomy) limits o ctx = .ok r ∧ r.outcome = r₀.outcome ∧
      r.coverage = r₀.coverage ∧ r.composition = r₀.composition := by
  obtain ⟨b₀, s₀, hb₀, hnodes, hroots, hcoverage, houtcome, hnotifications⟩ := resolve_branch h
  have hready : Search.Ready [] ({} : SearchState α) := ⟨.start, rfl, rfl⟩
  have hcut : Search.Uncut { limits with reuses := false } s₀ := by
    rw [hnotifications] at huncut
    exact huncut
  have hclock₀ : ∀ n, ({ limits with reuses := false } : Limits α).isLate n = false := hclock
  have hideal := (Search.branch_reflects hclock₀ _ rfl _ []).finds hready hb₀ hcut
  rw [Search.Ideal.branch_reuses] at hideal
  have hrealizes := Search.branch_realizes (Sources.semantic_ofCatalog catalog taxonomy) hclock
    (fun m hm => hmodels m (Catalog.mem_values_of_offers hm)) ctx (limits.maxDepth + 1) []
  have hstart : Search.Faithful (.ofCatalog catalog taxonomy) limits ctx ({} : SearchState α) := by
    simp [Search.Faithful, Keyed.empty]
  obtain ⟨b, s, hb, hfinding, -⟩ := hrealizes.finds hready hstart ⟨hctx, rfl, rfl⟩ hideal
  obtain ⟨r, hr, hr₁, hr₂, hr₃⟩ := resolve_of_branch hb
  have hsame : b.outcome = b₀.outcome ∧ composed s.nodes b.nodes = composed s₀.nodes b₀.nodes ∧
      b.coverage = b₀.coverage := by
    simpa [Search.finding] using hfinding
  refine ⟨r, hr, ?_, ?_, ?_⟩
  · rw [hr₁, houtcome, hsame.1]
  · rw [hr₂, hcoverage, hsame.2.2]
  · rw [hr₃, hsame.2.1, composition, hnodes, hroots]

/-! ## Branches used again -/

def rock : Observable := { concept := ⟨"t:Rock", by decide⟩ }

/-- Limits under which no branch is used again. -/
def fresh (limits : Limits Number) : Limits Number := { limits with reuses := false }

/-- Land and soil need the same water. -/
def shared : Catalog Number :=
  (Catalog.empty.insertAll [needing "x.land" land [soil, water], needing "x.soil" soil [water],
    needing "x.water" water []]).1

theorem resolve_reuse_shared :
    ∃ r₀ r, resolve (.ofCatalog shared {}) (fresh ({} : Config).limits) land everywhere = .ok r₀ ∧
      resolve (.ofCatalog shared {}) ({} : Config).limits land everywhere = .ok r ∧
      r₀.nodes.length = 4 ∧ r.nodes.length = 3 ∧ r.composition = r₀.composition := by
  obtain ⟨r₀, hr₀, hlen₀, huncut⟩ := exists_of_any
    (P := fun r : Resolution Number => r.nodes.length = 4 ∧
      ∀ n ∈ r.notifications, ¬ Search.IsCut ({} : Config).limits n)
    (x := resolve (.ofCatalog shared {}) (fresh ({} : Config).limits) land everywhere)
    (by decide +kernel)
  obtain ⟨r', hr', hlen⟩ := exists_of_any (P := fun r : Resolution Number => r.nodes.length = 3)
    (x := resolve (.ofCatalog shared {}) ({} : Config).limits land everywhere) (by decide +kernel)
  have hmodels : ∀ m ∈ shared.models.values, m.HandsDownPlain := by decide +kernel
  obtain ⟨r, hr, -, -, hsame⟩ := resolve_reuse (fun _ => rfl) hmodels ⟨by decide, by decide⟩ hr₀ huncut
  cases hr.symm.trans hr'
  exact ⟨r₀, _, hr₀, hr', hlen₀, hlen, hsame⟩

/-- Soil needs one more level than is left below rock. -/
def stacked : Sources Number :=
  knowing [needing "x.land" land [soil, rock], needing "x.soil" soil [water],
    needing "x.rock" rock [soil], needing "x.water" water []]

/-- Water is known in two namespaces; soil prefers one of them, and rock the other one. -/
def parted : Sources Number :=
  knowing [needing "land" land [soil, rock], needing "a|b.soil" soil [water],
    { needing "a.rock" rock [water] with project := some "b|" }, needing "a.water" water [],
    needing "a|b.water" water []]

/-- A branch is used again where searching it would fail, because too few levels are left or because
it leads back to the path, and where other models are preferred, when a name holds the sign that
parts names. -/
theorem resolve_reuse_differs :
    (∃ r r₀, resolve stacked { ({} : Config).limits with maxDepth := 2 } land everywhere = .ok r ∧
      resolve stacked (fresh { ({} : Config).limits with maxDepth := 2 }) land everywhere = .ok r₀ ∧
      r.outcome = .resolved ∧ r₀.outcome = .unresolved) ∧
    (∃ r r₀, resolve tangled ({} : Config).limits land everywhere = .ok r ∧
      resolve tangled (fresh ({} : Config).limits) land everywhere = .ok r₀ ∧
      r.models.map Model.urn = ["y.water", "y.soil", "x.water", "x.land"] ∧
      r₀.models.map Model.urn = ["y.water", "y.soil", "y.water", "x.land"]) ∧
    ∃ r r₀, resolve parted ({} : Config).limits land everywhere = .ok r ∧
      resolve parted (fresh ({} : Config).limits) land everywhere = .ok r₀ ∧
      r.models.map Model.urn = ["a|b.water", "a|b.soil", "a.rock", "land"] ∧
      r₀.models.map Model.urn = ["a|b.water", "a|b.soil", "a.water", "a.rock", "land"] := by
  refine ⟨?_, ?_, ?_⟩
  · obtain ⟨r, hr, houtcome⟩ := exists_of_any (P := fun r : Resolution Number => r.outcome = .resolved)
      (x := resolve stacked { ({} : Config).limits with maxDepth := 2 } land everywhere)
      (by decide +kernel)
    obtain ⟨r₀, hr₀, houtcome₀⟩ := exists_of_any
      (P := fun r : Resolution Number => r.outcome = .unresolved)
      (x := resolve stacked (fresh { ({} : Config).limits with maxDepth := 2 }) land everywhere)
      (by decide +kernel)
    exact ⟨r, r₀, hr, hr₀, houtcome, houtcome₀⟩
  · obtain ⟨r, hr, hmodels⟩ := exists_of_any
      (P := fun r : Resolution Number =>
        r.models.map Model.urn = ["y.water", "y.soil", "x.water", "x.land"])
      (x := resolve tangled ({} : Config).limits land everywhere) (by decide +kernel)
    obtain ⟨r₀, hr₀, hmodels₀⟩ := exists_of_any
      (P := fun r : Resolution Number =>
        r.models.map Model.urn = ["y.water", "y.soil", "y.water", "x.land"])
      (x := resolve tangled (fresh ({} : Config).limits) land everywhere) (by decide +kernel)
    exact ⟨r, r₀, hr, hr₀, hmodels, hmodels₀⟩
  · obtain ⟨r, hr, hmodels⟩ := exists_of_any
      (P := fun r : Resolution Number =>
        r.models.map Model.urn = ["a|b.water", "a|b.soil", "a.rock", "land"])
      (x := resolve parted ({} : Config).limits land everywhere) (by decide +kernel)
    obtain ⟨r₀, hr₀, hmodels₀⟩ := exists_of_any
      (P := fun r : Resolution Number =>
        r.models.map Model.urn = ["a|b.water", "a|b.soil", "a.water", "a.rock", "land"])
      (x := resolve parted (fresh ({} : Config).limits) land everywhere) (by decide +kernel)
    exact ⟨r, r₀, hr, hr₀, hmodels, hmodels₀⟩

end Resolution

end Obsplan
