import Obsplan.Proofs.Resolution.Reuse
import Obsplan.Proofs.Search.Levels

/-!
# The depth of a resolution

The limit on the depth bounds how far down models are made. Main statement: every model is reached
over at most as many links as the limit says, and so is one below a node when all nodes on the way
are in use there only. Other chains are bounded when no branch is taken over; a branch that is
taken over further down can exceed the limit.
-/

namespace Obsplan

variable {α : Type} [Coordinate α] {nodes : List (Node α)} {v : Nat → Nat}

/-- So many links lead from one node down to another one. -/
inductive Steps (links : Nat → Nat → Prop) (i : Nat) : Nat → Nat → Prop where
  | none : Steps links i 0 i
  | more {k j l : Nat} : Steps links i k j → links j l → Steps links i (k + 1) l

/-- Links that lead one level down each count the levels. -/
theorem Steps.level {links : Nat → Nat → Prop} {i k l : Nat} (h : Steps links i k l)
    (hlinks : ∀ {i j : Nat}, links i j → v j = v i + 1) : v l = v i + k := by
  induction h with
  | none => rfl
  | more _ hlink ih => rw [hlinks hlink, ih, Nat.add_assoc]

/-- When every node is a root on the first level or linked from the level above its own, a node is
reached in as many steps as its level says. -/
theorem steps_of_linked (ho : Ordered nodes) {roots : List Nat}
    (hall : ∀ i < nodes.length, (i ∈ roots ∧ v i = 0) ∨ ∃ j, Refers nodes j i ∧ v i = v j + 1)
    {i : Nat} (hi : i < nodes.length) : ∃ root ∈ roots, Steps (Refers nodes) root (v i) i := by
  -- a node that refers to another one comes later, and there is a last one
  induction hk : nodes.length - i using Nat.strongRecOn generalizing i with
  | ind k ih =>
    obtain ⟨hroot, hv⟩ | ⟨j, hj, hv⟩ := hall i hi
    · exact ⟨i, hroot, hv ▸ .none⟩
    · have hlt := ho.descending hj
      have hlen := hj.lt_length
      obtain ⟨root, hroot, hsteps⟩ := ih (nodes.length - j) (by omega) hlen rfl
      exact ⟨root, hroot, hv ▸ hsteps.more hj⟩

namespace Resolution

variable {sources : Sources α} {limits : Limits α} {o : Observable} {ctx : Context α}
  {r : Resolution α}

/-- The levels of the nodes of a resolution, of which the roots are on the first one. -/
structure Levels (r : Resolution α) (limits : Limits α) (v : Nat → Nat) : Prop where
  bounded : ∀ {i : Nat} {n : Node α}, r.nodes[i]? = some n → n.IsModel → v i ≤ limits.maxDepth
  linked : ∀ i < r.nodes.length,
    (i ∈ r.roots ∧ v i = 0) ∨ ∃ j, Refers r.nodes j i ∧ v i = v j + 1
  descends : limits.reuses = false → ∀ {i j : Nat}, Refers r.nodes i j → v j = v i + 1

theorem resolve_levels (h : resolve sources limits o ctx = .ok r) : ∃ v, r.Levels limits v := by
  obtain ⟨b, s, hb, hn, hr, -⟩ := resolve_branch h
  obtain ⟨v, hv⟩ := Search.branch_levels sources limits (limits.maxDepth + 1) 0 (Nat.zero_add _)
    (v := fun _ => 0) .start hb
  refine ⟨v, ?_, ?_, ?_⟩
  · rw [hn]
    exact hv.bounded (Nat.zero_le _)
  · rw [hn, hr]
    exact fun i hi => hv.linked i hi (Nat.zero_le i)
  · rw [hn]
    exact fun hfresh i j hrefers => hv.descends hfresh (Nat.zero_le i) hrefers

/-- A link to a node that is in use there only leads one level down. -/
theorem Levels.owned (hv : r.Levels limits v) (ho : Ordered r.nodes) {i j : Nat}
    (h : Owns r.nodes r.roots i j) : v j = v i + 1 := by
  obtain ⟨hrefers, hroot, hone⟩ := h
  have hj : j < r.nodes.length := Nat.lt_trans (ho.descending hrefers) hrefers.lt_length
  obtain ⟨hin, -⟩ | ⟨k, hk, hlevel⟩ := hv.linked j hj
  · exact absurd hin hroot
  · rw [hlevel, hone k hk]

/-- Models are within the limit on the depth: each over some chain of links from a root, each below
a node when the nodes on the way are in use there only, and each over any chain when no branch is
taken over. -/
theorem resolve_depth (h : resolve sources limits o ctx = .ok r) {i : Nat} {n : Node α}
    (hn : r.nodes[i]? = some n) (hmodel : n.IsModel) :
    (∃ root ∈ r.roots, ∃ k ≤ limits.maxDepth, Steps (Refers r.nodes) root k i) ∧
      (∀ u k, Steps (Owns r.nodes r.roots) u k i → k ≤ limits.maxDepth) ∧
      (limits.reuses = false → ∀ u k, Steps (Refers r.nodes) u k i → k ≤ limits.maxDepth) := by
  obtain ⟨ho, -⟩ := resolve_ordered h
  obtain ⟨v, hv⟩ := resolve_levels h
  have hlevel : v i ≤ limits.maxDepth := hv.bounded hn hmodel
  refine ⟨?_, fun u k hsteps => ?_, fun hfresh u k hsteps => ?_⟩
  · obtain ⟨root, hroot, hsteps⟩ :=
      steps_of_linked ho hv.linked (List.getElem?_eq_some_iff.mp hn).1
    exact ⟨root, hroot, v i, hlevel, hsteps⟩
  · have := hsteps.level (hv.owned ho)
    omega
  · have := hsteps.level (hv.descends hfresh)
    omega

/-- Water is two links below land, and that is as far down as it may be. -/
theorem resolve_depth_layered :
    ∃ r, resolve layered ({ maxDepth := 2 } : Config).limits land everywhere = .ok r ∧
      Steps (Owns r.nodes r.roots) 2 2 0 ∧ (∃ n ∈ r.nodes[0]?, n.IsModel) ∧
      ∀ u k, Steps (Owns r.nodes r.roots) u k 0 → k ≤ 2 := by
  obtain ⟨r, hr, h21, h10, n, hn, hmodel⟩ := exists_of_any
    (P := fun r : Resolution Number => Owns r.nodes r.roots 2 1 ∧ Owns r.nodes r.roots 1 0 ∧
      ∃ n ∈ r.nodes[0]?, n.IsModel)
    (x := resolve layered ({ maxDepth := 2 } : Config).limits land everywhere) (by decide +kernel)
  obtain ⟨-, howned, -⟩ := resolve_depth hr hn hmodel
  exact ⟨r, hr, (Steps.none.more h21).more h10, ⟨n, hn, hmodel⟩, howned⟩

/-- Soil is found directly below land and taken over below rock, so that water is three links below
land where two are allowed. -/
theorem resolve_depth_stacked :
    ∃ r, resolve stacked ({ maxDepth := 2 } : Config).limits land everywhere = .ok r ∧
      (∀ n ∈ r.nodes, n.IsModel) ∧ ∃ root ∈ r.roots, ∃ i, Steps (Refers r.nodes) root 3 i := by
  obtain ⟨r, hr, hmodels, hroot, h32, h21, h10⟩ := exists_of_any
    (P := fun r : Resolution Number => (∀ n ∈ r.nodes, n.IsModel) ∧ 3 ∈ r.roots ∧
      Refers r.nodes 3 2 ∧ Refers r.nodes 2 1 ∧ Refers r.nodes 1 0)
    (x := resolve stacked ({ maxDepth := 2 } : Config).limits land everywhere) (by decide +kernel)
  exact ⟨r, hr, hmodels, 3, hroot, 0, ((Steps.none.more h32).more h21).more h10⟩

end Resolution

end Obsplan
