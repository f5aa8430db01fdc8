import Obsplan.Proofs.Dataflow.Unfolding
import Obsplan.Proofs.Resolution.Coverage
import Obsplan.Proofs.Resolution.Roots

/-!
# The coverage of dataflows

A dataflow computes its coverage from its roots. They stand for the roots of the resolution in the
order of acceptance, each with the coverage of its node, so both come to the same.
-/

namespace Obsplan

variable {α : Type} [Coordinate α] {nodes : List (Node α)} {own : Nat → Identifier}

/-- An actuator for a node that something satisfies covers what the node covers. -/
theorem Unfolds.coverage_eq {i : Nat} {n : Node α} {a : Actuator α} (h : Unfolds nodes own i a)
    (hn : nodes[i]? = some n) (hmeans : n.means ≠ .unresolved) : a.job.coverage = n.coverage := by
  cases h with
  | computed hn' _ hj _ =>
    cases hn.symm.trans hn'
    exact hj.covered hmeans
  | reference hn' hj =>
    cases hn.symm.trans hn'
    exact hj.coverage

namespace UnfoldsAll

theorem isEmpty_eq {is : List Nat} {as : List (Actuator α)} (h : UnfoldsAll nodes own is as) :
    as.isEmpty = is.isEmpty := by
  cases h <;> rfl

theorem of_append {is js : List Nat} {cs : List (Actuator α)}
    (h : UnfoldsAll nodes own (is ++ js) cs) :
    ∃ as bs, cs = as ++ bs ∧ UnfoldsAll nodes own is as ∧ UnfoldsAll nodes own js bs := by
  induction is generalizing cs with
  | nil => exact ⟨[], cs, rfl, .nil, h⟩
  | cons i is ih =>
    cases h with
    | @cons _ _ a _ ha hcs =>
      obtain ⟨as, bs, rfl, has, hbs⟩ := ih hcs
      exact ⟨a :: as, bs, rfl, .cons ha has, hbs⟩

end UnfoldsAll

/-- Roots for accepted nodes cover what the nodes add up to. -/
theorem Search.Accepted.coverageOf_eq {sources : Sources α} {o : Observable} {ctx : Context α}
    {ids : List Nat} {covered : Coverage α} {as : List (Actuator α)}
    (h : Accepted sources nodes o ctx ids covered) (has : UnfoldsAll nodes own ids as) :
    Dataflow.coverageOf ctx.scale as = covered := by
  induction h generalizing as with
  | nil => cases has; rfl
  | @snoc _ id _ _ _ _ _ _ _ hn ih =>
    obtain ⟨before, last, rfl, hbefore, hlast⟩ := has.of_append
    have hlast : ∃ a, last = [a] ∧ Unfolds nodes own id a := by
      cases hlast with | cons ha hnil => cases hnil; exact ⟨_, rfl, ha⟩
    obtain ⟨a, rfl, ha⟩ := hlast
    have hcoverage := ha.coverage_eq hn (by simp)
    have hcovered := ih hbefore
    rw [Dataflow.coverageOf] at hcovered
    rw [Dataflow.coverageOf, List.foldl_append, hcovered, List.foldl_cons, List.foldl_nil, hcoverage]

namespace Resolution

variable {sources : Sources α} {limits : Limits α} {o : Observable} {ctx : Context α}
  {r : Resolution α} {maxLevel : Option Nat} {allocator rest : Allocator} {d : Dataflow α}

/-- What a dataflow takes over from the resolution, and what it reads off its roots. -/
theorem lower_fields (h : r.lower maxLevel allocator = (.ok d, rest)) :
    d.notifications = r.notifications ∧ d.observable = some r.observable ∧
      d.coverage = Dataflow.coverageOf r.scale d.actuators ∧
      d.target = d.actuators.head?.map fun a => a.job.id := by
  rw [lower_eq] at h
  unfold unfolded at h
  by_cases hempty : r.isEmpty = true
  · rw [if_pos hempty] at h
    cases h
    exact ⟨rfl, rfl, rfl, rfl⟩
  · rw [if_neg hempty] at h
    simp only at h
    split at h
    · cases h
    · cases h
      exact ⟨rfl, rfl, rfl, rfl⟩

/-- A dataflow covers what was found, and is empty when nothing was. -/
theorem lower_coverage (h : resolve sources limits o ctx = .ok r)
    (hlower : r.lower maxLevel allocator = (.ok d, rest)) :
    d.coverage = r.coverage ∧ d.isEmpty = r.isEmpty := by
  obtain ⟨ho, hroots⟩ := resolve_ordered h
  obtain ⟨-, hscale, -⟩ := resolve_asked h
  obtain ⟨-, -, hcoverage, -⟩ := lower_fields hlower
  obtain ⟨new, s', hs', -⟩ := lower_lowers ho hroots hlower
  obtain ⟨own, hown⟩ := Lowering.exists_places s'
  have hunfolds := hs'.unfolds own hown
  constructor
  · rw [hcoverage, hscale]
    exact (resolve_accepted h).coverageOf_eq hunfolds
  · exact hunfolds.isEmpty_eq

/-- Lowering settles nothing anew: what is covered and what was noticed are those of the search, and
the plan is for the first of its roots. -/
theorem lower_summary (h : resolve sources limits o ctx = .ok r)
    (hlower : r.lower maxLevel allocator = (.ok d, rest)) :
    d.coverage = r.coverage ∧ d.target = d.actuators.head?.map (fun a => a.job.id) ∧
      d.notifications = r.notifications ∧ (d.isEmpty = true ↔ r.roots = []) := by
  obtain ⟨hnotifications, -, -, htarget⟩ := lower_fields hlower
  obtain ⟨hcoverage, hempty⟩ := lower_coverage h hlower
  refine ⟨hcoverage, htarget, hnotifications, ?_⟩
  rw [hempty]
  exact List.isEmpty_iff

/-- Land is known better for the first six years than afterwards. -/
def pieced : Sources Number :=
  knowing [{ needing "x.land" land [] with
      coverage := [upTo 6.0 (by decide +kernel)], priority := 1 },
    needing "y.land" land []]

def dozen : Context Number := { everywhere with scale := upTo 12.0 (by decide +kernel) }

/-- Two roots cover the years together, the second one what the first has left. -/
theorem lower_summary_pieced :
    ∃ r d rest, resolve pieced ({} : Config).limits land dozen = .ok r ∧
      r.lower none {} = (.ok d, rest) ∧ d.actuators.length = 2 ∧ d.coverage.shapes.length = 2 ∧
      d.coverage = r.coverage ∧ d.target = d.actuators.head?.map (fun a => a.job.id) ∧
      d.notifications = r.notifications ∧ (d.isEmpty = true ↔ r.roots = []) := by
  obtain ⟨r, hr, hlowered⟩ := exists_of_any (P := fun r : Resolution Number =>
      ((r.lower none {}).1.toOption.any fun d => decide
        (d.actuators.length = 2 ∧ d.coverage.shapes.length = 2)) = true)
    (x := resolve pieced ({} : Config).limits land dozen) (by decide +kernel)
  obtain ⟨d, hd, hroots, hshapes⟩ := exists_of_any hlowered
  have hlower : r.lower none {} = (.ok d, (r.lower none {}).2) := Prod.ext hd rfl
  exact ⟨r, d, _, hr, hlower, hroots, hshapes, lower_summary hr hlower⟩

end Resolution

end Obsplan
