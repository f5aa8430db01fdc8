import Obsplan.Proofs.Dataflow.Unfolding
import Obsplan.Proofs.Resolution.Shape
import Obsplan.Proofs.Search.Acceptance

/-!
# Dataflows of resolutions

Main statement: the dataflow of a resolution is the resolution unfolded from its roots. Every node
is computed once, by an actuator whose children stand for the linked nodes in their order, and is
referred to wherever else it is used.
-/

namespace Obsplan

variable {α : Type} [Coordinate α] {sources : Sources α} {limits : Limits α} {o : Observable}
  {ctx : Context α} {r : Resolution α} {maxLevel : Option Nat} {allocator rest : Allocator}
  {d : Dataflow α}

/-- A dataflow unfolds a resolution; `own i` is the identifier of the actuator that computes node
`i`. -/
structure Dataflow.Unfolds (d : Dataflow α) (r : Resolution α) (own : Nat → Identifier) :
    Prop where
  roots : UnfoldsAll r.nodes own r.roots d.actuators
  /-- There is no other actuator. -/
  all : ∀ a ∈ d.walk, ∃ i, Obsplan.Unfolds r.nodes own i a
  /-- Those that are no references compute each node exactly once. -/
  once : ((d.walk.filter fun a => decide (a.job.kind ≠ .reference)).map fun a => a.job.id).Perm
    ((List.range r.nodes.length).map own)
  nodup : d.ids.Nodup
  requirements : ∀ t, t ∈ d.requirements.toList ↔ ∃ m ∈ r.models, t ∈ m.requirements.toList
  /-- Roots are in the order of acceptance. -/
  ascends : r.roots.Pairwise (· < ·)
  /-- Links are in the order of declaration, and their nodes in the order of acceptance. -/
  linked : ∀ n ∈ r.nodes, n.Declares ∧ n.Ascends

namespace Resolution

open Lowering

theorem mem_requirementsOf {n : Node α} {t : String} :
    t ∈ (requirementsOf n).toList ↔ ∃ m, n.means.model? = some m ∧ t ∈ m.requirements.toList := by
  unfold requirementsOf
  cases n.means.model? with
  | some m => simp
  | none => simp [TextSet.empty]

theorem mem_requirements {s' : LoweringState} {as : List (Actuator α)} {new : List Nat}
    (h : Lowers r.nodes r.roots { allocator } as new s')
    (hnew : new.Perm (List.range r.nodes.length)) (t : String) :
    t ∈ s'.requirements.toList ↔ ∃ m ∈ r.models, t ∈ m.requirements.toList := by
  rw [h.requirements]
  simp only [TextSet.empty, List.not_mem_nil, false_or, mem_requirementsOf, models,
    List.mem_filterMap]
  constructor
  · rintro ⟨i, -, n, hn, m, hm, ht⟩
    exact ⟨m, ⟨n, List.mem_of_getElem? hn, hm⟩, ht⟩
  · rintro ⟨m, ⟨n, hn, hm⟩, ht⟩
    obtain ⟨i, hi⟩ := List.mem_iff_getElem?.mp hn
    have hlt : i < r.nodes.length := (List.getElem?_eq_some_iff.mp hi).1
    exact ⟨i, hnew.mem_iff.mpr (List.mem_range.mpr hlt), n, hi, m, hm, ht⟩

/-- The dataflow of a resolution unfolds it. -/
theorem lower_unfolds (h : resolve sources limits o ctx = .ok r)
    (hlower : r.lower maxLevel allocator = (.ok d, rest)) : ∃ own, d.Unfolds r own := by
  obtain ⟨ho, hroots⟩ := resolve_ordered h
  obtain ⟨w, -, hframed⟩ := resolve_frames h
  obtain ⟨hascends, hlinked⟩ := resolve_inOrder h
  obtain ⟨new, s', hs', hrequirements, -⟩ := lower_lowers ho hroots hlower
  have hnew : new.Perm (List.range r.nodes.length) :=
    perm_visited hs' fun i hi => reachable_of_framed ho hframed hi
  obtain ⟨own, hplaces⟩ := exists_places s'
  have hunfolds := hs'.unfolds own hplaces
  refine ⟨own, hunfolds, fun a ha => hunfolds.of_mem_walkAll ha, ?_, ?_, ?_, hascends,
    fun n hn => (hlinked n hn).symm⟩
  · exact (List.Perm.of_eq (hs'.owners own hplaces)).trans (hnew.map own)
  · refine List.Nodup.of_map Identifier.val ?_
    rw [show d.ids.map Identifier.val = _ from hs'.ids]
    exact List.nodup_range'
  · rw [hrequirements]
    exact mem_requirements hs' hnew

/-- Land and soil need the same water, which is computed below soil and referred to below land. -/
theorem lower_unfolds_referred :
    ∃ r d rest, resolve (knowing [needing "x.land" land [soil, water], needing "x.soil" soil [water],
        needing "x.water" water []]) ({} : Config).limits land everywhere = .ok r ∧
      r.lower none {} = (.ok d, rest) ∧
      d.walk.map (fun a => a.job.kind) = [.observe, .observe, .observe, .reference] ∧
      ∃ own, d.Unfolds r own := by
  obtain ⟨r, hr, hkinds⟩ := exists_of_any (P := fun r : Resolution Number =>
      ((r.lower none {}).1.toOption.any fun d => decide
        (d.walk.map (fun a => a.job.kind) = [.observe, .observe, .observe, .reference])) = true)
    (x := resolve (knowing [needing "x.land" land [soil, water], needing "x.soil" soil [water],
      needing "x.water" water []]) ({} : Config).limits land everywhere) (by decide +kernel)
  obtain ⟨d, hd, hkinds⟩ := exists_of_any hkinds
  have hlower : r.lower none {} = (.ok d, (r.lower none {}).2) := Prod.ext hd rfl
  exact ⟨r, d, _, hr, hlower, hkinds, lower_unfolds hr hlower⟩

end Resolution

end Obsplan
