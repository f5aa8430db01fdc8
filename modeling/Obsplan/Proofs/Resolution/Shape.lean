import Obsplan.Proofs.Search.Frames
import Obsplan.Service

/-!
# The shape of a resolution

The nodes of a resolution are numbered in order, refer to earlier ones only, and are all reached
from the roots: nothing is left of candidates that were refused. A model is used again below a node
for the same observable and scale only where a node that is in use elsewhere was taken over.
-/

namespace Obsplan

variable {α : Type} [Coordinate α] {nodes : List (Node α)}

instance (nodes : List (Node α)) (i j : Nat) : Decidable (Refers nodes i j) :=
  decidable_of_iff ((nodes[i]?.any fun n => decide (j ∈ n.children)) = true) (by
    simp [Refers, Option.any_eq_true])

instance (n : Node α) : Decidable n.IsModel :=
  decidable_of_iff (n.means.model?.isSome = true) (by
    simp only [Node.IsModel]
    cases n.means <;> simp [Means.model?])

instance (nodes : List (Node α)) (roots : List Nat) (i j : Nat) : Decidable (Owns nodes roots i j) :=
  decidable_of_iff (Refers nodes i j ∧ j ∉ roots ∧ ∀ k < nodes.length, Refers nodes k j → k = i) (by
    refine and_congr_right fun _ => and_congr_right fun _ => ?_
    exact ⟨fun h k hk => h k hk.lt_length hk, fun h k _ hk => h k hk⟩)

/-- Links lead to earlier nodes, also over several steps. -/
theorem Ordered.transGen_lt (ho : Ordered nodes) {i j : Nat}
    (h : Relation.TransGen (Refers nodes) i j) : j < i := by
  induction h with
  | single h => exact ho.descending h
  | tail _ h ih => exact Nat.lt_trans (ho.descending h) ih

namespace Resolution

variable {sources : Sources α} {limits : Limits α} {o : Observable} {ctx : Context α}
  {r : Resolution α}

/-- A resolution whose nodes are in order, which has its roots and whatever is linked, and which
has nothing else. -/
structure WellFormed (r : Resolution α) : Prop where
  numbered : ∀ {i : Nat} {n : Node α}, r.nodes[i]? = some n → n.id = i
  earlier : ∀ {i : Nat} {n : Node α}, r.nodes[i]? = some n → ∀ link ∈ n.links, ∀ j ∈ link.nodes,
    j < i
  rooted : ∀ i ∈ r.roots, i < r.nodes.length
  linked : ∀ {i j : Nat}, Refers r.nodes i j → j < r.nodes.length
  reachable : ∀ i < r.nodes.length, ∃ root ∈ r.roots, Relation.ReflTransGen (Refers r.nodes) root i
  acyclic : ∀ i, ¬ Relation.TransGen (Refers r.nodes) i i

/-- Whatever a search went through, the resolution is well-formed. -/
theorem resolve_wellFormed (h : resolve sources limits o ctx = .ok r) : r.WellFormed := by
  obtain ⟨ho, hroots⟩ := resolve_ordered h
  obtain ⟨w, -, hall⟩ := resolve_frames h
  refine ⟨ho.numbered, ?_, hroots, ?_, fun i hi => reachable_of_framed ho hall hi, ?_⟩
  · intro i n hn link hlink j hj
    exact ho.descending ⟨n, hn, List.mem_flatMap.mpr ⟨link, hlink, hj⟩⟩
  · intro i j hr
    exact Nat.lt_trans (ho.descending hr) hr.lt_length
  · intro i hi
    exact Nat.lt_irrefl i (ho.transGen_lt hi)

/-! ## Models for land, soil and water -/

/-- Sources that know some models. -/
def knowing (models : List (Model Number)) : Sources Number :=
  .ofCatalog (Catalog.empty.insertAll models).1 {}

/-- A context without extents. -/
def everywhere : Context Number := { id := "c", scale := .scalar }

def land : Observable := { concept := ⟨"t:Land", by decide⟩ }

def soil : Observable := { concept := ⟨"t:Soil", by decide⟩ }

def water : Observable := { concept := ⟨"t:Water", by decide⟩ }

/-- The model of one observable that depends on others. -/
def needing (urn : String) (o : Observable) (others : List Observable) : Model Number :=
  { Model.producing urn o with dependencies := others.map fun d => { observable := d } }

/-- Land is found from soil, and soil from water. -/
def layered : Sources Number :=
  knowing [needing "x.land" land [soil], needing "y.soil" soil [water], needing "y.water" water []]

/-- Soil and water depend on each other in the namespace `x`, and water is known in `y` as well. -/
def tangled : Sources Number :=
  knowing [needing "x.land" land [soil, water], needing "y.soil" soil [water],
    needing "x.water" water [soil], needing "y.water" water []]

theorem exists_of_any {ε β : Type} {x : Except ε β} {P : β → Prop} [DecidablePred P]
    (h : (x.toOption.any fun r => decide (P r)) = true) : ∃ r, x = .ok r ∧ P r := by
  cases x with
  | error e => cases h
  | ok r => exact ⟨r, rfl, of_decide_eq_true h⟩

theorem resolve_wellFormed_tangled :
    ∃ r, resolve tangled ({} : Config).limits land everywhere = .ok r ∧ r.nodes.length = 4 ∧
      r.WellFormed := by
  obtain ⟨r, hr, hlen⟩ := exists_of_any (P := fun r : Resolution Number => r.nodes.length = 4)
    (x := resolve tangled ({} : Config).limits land everywhere) (by decide +kernel)
  exact ⟨r, hr, hlen, resolve_wellFormed hr⟩

/-! ## Repetitions -/

/-- On a chain of links from a root down, node `l` below node `u` is for the same observable over
the same scale. -/
def Repeats (r : Resolution α) (u l : Nat) : Prop :=
  (∃ root ∈ r.roots, Relation.ReflTransGen (Refers r.nodes) root u) ∧
    Relation.TransGen (Refers r.nodes) u l ∧
    ∃ n ∈ r.nodes[u]?, ∃ m ∈ r.nodes[l]?, m.observable.key = n.observable.key ∧ m.scale = n.scale

/-- A model is not used again for the same observable and scale below a node, when all nodes on the
way down are in use there only. -/
theorem resolve_owned_apart (h : resolve sources limits o ctx = .ok r) {u l : Nat}
    (howned : Relation.TransGen (Owns r.nodes r.roots) u l) {n m : Node α}
    (hn : r.nodes[u]? = some n) (hm : r.nodes[l]? = some m) (hmodel : m.IsModel) :
    (m.observable.key, m.scale.text) ≠ (n.observable.key, n.scale.text) := by
  obtain ⟨ho, -⟩ := resolve_ordered h
  obtain ⟨w, hf, hall⟩ := resolve_frames h
  obtain ⟨hw, hlt⟩ := hf.owned ho hall howned
  intro hsame
  obtain ⟨hkey, hscale⟩ := Prod.mk.inj hsame
  have hsame : m.key = n.key := by
    rw [Node.key, Node.key, Search.pathKey, Search.pathKey, hkey, hscale]
  exact hf.apart hn hm hmodel hw hlt hsame

theorem resolve_owned_apart_layered :
    ∃ r, resolve layered ({} : Config).limits land everywhere = .ok r ∧
      Relation.TransGen (Owns r.nodes r.roots) 2 0 ∧
      ∃ n ∈ r.nodes[2]?, ∃ m ∈ r.nodes[0]?, m.IsModel ∧
        (m.observable.key, m.scale.text) ≠ (n.observable.key, n.scale.text) := by
  obtain ⟨r, hr, h21, h10, n, hn, m, hm, hmodel⟩ := exists_of_any
    (P := fun r : Resolution Number => Owns r.nodes r.roots 2 1 ∧ Owns r.nodes r.roots 1 0 ∧
      ∃ n ∈ r.nodes[2]?, ∃ m ∈ r.nodes[0]?, m.IsModel)
    (x := resolve layered ({} : Config).limits land everywhere) (by decide +kernel)
  have howned := (Relation.TransGen.single h21).tail h10
  exact ⟨r, hr, howned, n, hn, m, hm, hmodel, resolve_owned_apart hr howned hn hm hmodel⟩

theorem eq_scalar {s : Scale α} (h : s.isScalar = true) : s = .scalar := by
  obtain ⟨extents, _, _⟩ := s
  cases List.isEmpty_iff.mp h
  rfl

/-- Water is found from soil that was resolved before, when it could use other water. A placeholder
stands for what its own model looks for. -/
theorem resolve_repeats :
    (∃ r, resolve tangled ({} : Config).limits land everywhere = .ok r ∧ r.Repeats 2 0 ∧
      ∃ n ∈ r.nodes[2]?, ∃ m ∈ r.nodes[0]?, n.IsModel ∧ m.IsModel) ∧
    ∃ r, resolve (knowing [needing "x.land" land [{ land with optional := true }]])
      ({} : Config).limits land everywhere = .ok r ∧ r.Repeats 1 0 := by
  constructor
  · obtain ⟨r, hr, hroot, h32, h21, h10, n, hn, m, hm, hkey, hns, hms, hmodels⟩ := exists_of_any
      (P := fun r : Resolution Number => 3 ∈ r.roots ∧ Refers r.nodes 3 2 ∧ Refers r.nodes 2 1 ∧
        Refers r.nodes 1 0 ∧ ∃ n ∈ r.nodes[2]?, ∃ m ∈ r.nodes[0]?,
          m.observable.key = n.observable.key ∧ n.scale.isScalar = true ∧
            m.scale.isScalar = true ∧ n.IsModel ∧ m.IsModel)
      (x := resolve tangled ({} : Config).limits land everywhere) (by decide +kernel)
    refine ⟨r, hr, ⟨⟨3, hroot, .single h32⟩, (Relation.TransGen.single h21).tail h10,
      n, hn, m, hm, hkey, ?_⟩, n, hn, m, hm, hmodels⟩
    rw [eq_scalar hms, eq_scalar hns]
  · obtain ⟨r, hr, hroot, h10, n, hn, m, hm, hkey, hns, hms⟩ := exists_of_any
      (P := fun r : Resolution Number => 1 ∈ r.roots ∧ Refers r.nodes 1 0 ∧
        ∃ n ∈ r.nodes[1]?, ∃ m ∈ r.nodes[0]?, m.observable.key = n.observable.key ∧
          n.scale.isScalar = true ∧ m.scale.isScalar = true)
      (x := resolve (knowing [needing "x.land" land [{ land with optional := true }]])
        ({} : Config).limits land everywhere) (by decide +kernel)
    refine ⟨r, hr, ⟨1, hroot, .refl⟩, .single h10, n, hn, m, hm, hkey, ?_⟩
    rw [eq_scalar hms, eq_scalar hns]

end Resolution

end Obsplan
