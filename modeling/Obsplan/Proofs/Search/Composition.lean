import Mathlib.Data.List.Basic
import Mathlib.Data.List.Induction
import Obsplan.Proofs.Search.Arena

/-!
# Compositions

A node is composed of what the nodes that it refers to are composed of. Written out as a tree, a
composition does not tell whether nodes are shared.
-/

namespace Obsplan

variable {α : Type} [Coordinate α]

/-- What satisfies an observable over a scale, with what it is made from for every dependency. -/
inductive Composition (α : Type) [Coordinate α] where
  | node (key : String) (scale : Scale α) (means : Means α) (coverage : Coverage α)
      (parts : List (List (Composition α)))

/-- The compositions at some places of a list. -/
def picked (compositions : List (Composition α)) (ids : List Nat) : List (Composition α) :=
  ids.filterMap (compositions[·]?)

/-- The composition of a node, given those of the nodes before it. -/
def Node.composition (n : Node α) (before : List (Composition α)) : Composition α :=
  .node n.observable.key n.scale n.means n.coverage (n.links.map fun l => picked before l.nodes)

/-- The compositions of all nodes. -/
def compositions (nodes : List (Node α)) : List (Composition α) :=
  nodes.foldl (fun before n => before ++ [n.composition before]) []

/-- What some nodes are composed of. -/
def composed (nodes : List (Node α)) (ids : List Nat) : List (Composition α) :=
  picked (compositions nodes) ids

variable {nodes nodes' : List (Node α)} {ids more : List Nat} {n : Node α}

theorem compositions_concat :
    compositions (nodes ++ [n]) = compositions nodes ++ [n.composition (compositions nodes)] := by
  simp [compositions]

@[simp] theorem length_compositions : (compositions nodes).length = nodes.length := by
  induction nodes using List.reverseRecOn with
  | nil => rfl
  | append_singleton nodes n ih => rw [compositions_concat]; simp [ih]

theorem compositions_extend (h : nodes <+: nodes') : compositions nodes <+: compositions nodes' := by
  obtain ⟨more, rfl⟩ := h
  induction more using List.reverseRecOn with
  | nil => simp
  | append_singleton more n ih =>
    rw [← List.append_assoc, compositions_concat]
    exact ih.trans (List.prefix_append _ _)

@[simp] theorem composed_nil : composed nodes [] = [] := rfl

theorem composed_append : composed nodes (ids ++ more) = composed nodes ids ++ composed nodes more :=
  List.filterMap_append

/-- More nodes do not change what the others are composed of. -/
theorem composed_extend (h : nodes <+: nodes') (hids : ∀ i ∈ ids, i < nodes.length) :
    composed nodes' ids = composed nodes ids := by
  obtain ⟨more, hmore⟩ := compositions_extend h
  refine List.filterMap_congr fun i hi => ?_
  rw [← hmore, List.getElem?_append_left (by simpa using hids i hi)]

theorem length_composed (hids : ∀ i ∈ ids, i < nodes.length) :
    (composed nodes ids).length = ids.length := by
  induction ids with
  | nil => rfl
  | cons i ids ih =>
    obtain ⟨hi, hids⟩ := List.forall_mem_cons.mp hids
    have hi : i < (compositions nodes).length := by simpa using hi
    rw [composed, picked, List.filterMap_cons_some (List.getElem?_eq_getElem hi), List.length_cons,
      List.length_cons]
    exact congrArg (· + 1) (ih hids)

/-- Something is composed where there are nodes. -/
theorem composed_eq_nil (hids : ∀ i ∈ ids, i < nodes.length) : composed nodes ids = [] ↔ ids = [] := by
  rw [← List.length_eq_zero_iff, length_composed hids, List.length_eq_zero_iff]

theorem composed_concat_length :
    composed (nodes ++ [n]) [nodes.length] = [n.composition (compositions nodes)] := by
  have hget : (compositions (nodes ++ [n]))[nodes.length]? =
      some (n.composition (compositions nodes)) := by
    rw [compositions_concat, ← length_compositions, List.getElem?_concat_length]
  rw [composed, picked, List.filterMap_cons_some hget, List.filterMap_nil]

/-- The compositions of a resolution's roots. -/
def Resolution.composition (r : Resolution α) : List (Composition α) := composed r.nodes r.roots

end Obsplan
