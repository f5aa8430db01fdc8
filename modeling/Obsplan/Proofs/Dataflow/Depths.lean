import Obsplan.Proofs.Dataflow.Asking
import Obsplan.Proofs.Resolution.Reuse
import Obsplan.Proofs.Search.Postorder

/-!
# The depth of actuators

Lowering visits a node for the first time just where the search made it: when it comes to the nodes
that were made for something, all nodes from before have been visited and none of these. So an
actuator that computes a node stands as far below its root as the search was when it made the node,
and wherever else the node is used it is only referred to. Main statement: models are computed at
most as deep as the search may go, however many branches are shared, and no other actuator is more
than one level deeper.
-/

namespace Obsplan

variable {α : Type} [Coordinate α]

namespace Actuator

mutual

/-- The jobs of an actuator at a depth and of all below it, each with its own depth. -/
def depths (depth : Nat) : Actuator α → List (Nat × Job α)
  | .mk j children => (depth, j) :: depthsAll (depth + 1) children

def depthsAll (depth : Nat) : List (Actuator α) → List (Nat × Job α)
  | [] => []
  | a :: as => depths depth a ++ depthsAll depth as

end

theorem depthsAll_append (depth : Nat) (as bs : List (Actuator α)) :
    depthsAll depth (as ++ bs) = depthsAll depth as ++ depthsAll depth bs := by
  induction as with
  | nil => rfl
  | cons a as ih => rw [List.cons_append, depthsAll, depthsAll, ih, List.append_assoc]

mutual

/-- Every actuator has a depth, in the order of the walk. -/
theorem map_snd_depths (depth : Nat) :
    (a : Actuator α) → (depths depth a).map Prod.snd = (walk a).map job
  | .mk j children => by
    rw [depths, List.map_cons, map_snd_depthsAll (depth + 1) children, walk, List.map_cons, job]

theorem map_snd_depthsAll (depth : Nat) :
    (as : List (Actuator α)) → (depthsAll depth as).map Prod.snd = (walkAll as).map job
  | [] => rfl
  | a :: as => by
    rw [depthsAll, List.map_append, map_snd_depths depth a, map_snd_depthsAll depth as, walkAll,
      List.map_append]

end

/-- What a model computes is at most so deep, and everything else at most one level deeper. -/
def Within (maxDepth : Nat) (jobs : List (Nat × Job α)) : Prop :=
  ∀ p ∈ jobs, (p.2.strategy.isSome = true → p.1 ≤ maxDepth) ∧ p.1 ≤ maxDepth + 1

end Actuator

/-- The jobs of all actuators, each with the number of actuators above it. -/
def Dataflow.depths (d : Dataflow α) : List (Nat × Job α) := Actuator.depthsAll 0 d.actuators

namespace Lowering

open Actuator

variable {r : Resolution α} {maxLevel : Option Nat} {maxDepth fuel level lo mid hi i : Nat}
  {is : List Nat} {p : Progress} {here rest : List (Actuator α) × Progress}

/-! ## Visited nodes -/

/-- All nodes before `lo` were visited, and none from there up to `hi`. -/
structure Awaits (lo hi : Nat) (p : Progress) : Prop where
  before : ∀ i < lo, i ∈ p.visited.keys
  fresh : ∀ i, lo ≤ i → i < hi → i ∉ p.visited.keys

theorem Awaits.narrow (h : Awaits lo hi p) (hle : mid ≤ hi) : Awaits lo mid p :=
  ⟨h.before, fun i hlo hlt => h.fresh i hlo (Nat.lt_of_lt_of_le hlt hle)⟩

/-- The nodes from `lo` up to `hi` were visited, and what was made of those found on a level is not
too deep. -/
structure Visits (maxDepth level lo hi : Nat) (p : Progress)
    (made : List (Actuator α) × Progress) : Prop where
  keys : ∀ i, i ∈ made.2.visited.keys ↔ i ∈ p.visited.keys ∨ lo ≤ i ∧ i < hi
  within : Within maxDepth (depthsAll level made.1)

theorem Visits.nil : Visits (α := α) maxDepth level lo lo p ([], p) where
  keys i := by
    have : ¬ (lo ≤ i ∧ i < lo) := by omega
    simp [this]
  within := by simp [Within, depthsAll]

theorem Visits.append (h : Visits maxDepth level lo mid p here)
    (h' : Visits maxDepth level mid hi here.2 rest) (hlo : lo ≤ mid) (hhi : mid ≤ hi) :
    Visits maxDepth level lo hi p (here.1 ++ rest.1, rest.2) where
  keys i := by
    rw [h'.keys, h.keys]
    by_cases hp : i ∈ p.visited.keys
    · simp [hp]
    · simp only [hp, false_or]
      omega
  within := by
    rw [depthsAll_append]
    exact List.forall_mem_append.mpr ⟨h.within, h'.within⟩

theorem Visits.awaits (h : Visits maxDepth level lo mid p here) (hp : Awaits lo hi p)
    (hlo : lo ≤ mid) : Awaits mid hi here.2 where
  before i hi := by
    rw [h.keys]
    by_cases hlt : i < lo
    · exact .inl (hp.before i hlt)
    · exact .inr ⟨by omega, hi⟩
  fresh i hle hlt := by
    rw [h.keys, not_or]
    exact ⟨hp.fresh i (by omega) hlt, by omega⟩

/-! ## What the parts of the lowering make -/

/-- The nesting is limited to less than what the search may reach. -/
def Exceeds (maxLevel : Option Nat) (maxDepth : Nat) (e : DataflowError) : Prop :=
  ∃ m ∈ maxLevel, m ≤ maxDepth ∧ e = .depthExceeded m

theorem askVisit_ends {P : List (Actuator α) × Progress → Prop} (hlevel : level ≤ maxDepth + 1)
    (h : ∀ id, (askPlace r (askVisit r maxLevel fuel (level + 1)) i id p).Ends P
      (Exceeds maxLevel maxDepth)) :
    (askVisit r maxLevel (fuel + 1) level i p).Ends P (Exceeds maxLevel maxDepth) := by
  unfold askVisit
  split
  · rename_i m hm
    obtain ⟨hmax, hlt⟩ := Option.filter_eq_some_iff.mp hm
    have hlt : m < level := of_decide_eq_true hlt
    exact ⟨m, hmax, by omega, rfl⟩
  · exact h

variable {deeper : AskingVisit α} {id : Identifier} {E : DataflowError → Prop}

/-- A node that was visited before is referred to. -/
theorem askPlace_kept (lo : Nat) (hi : i ∈ p.visited.keys) (hlevel : level ≤ maxDepth + 1) :
    (askPlace r deeper i id p).Ends (Visits maxDepth level lo lo p) E := by
  obtain ⟨first, hfirst⟩ : ∃ first, p.visited.get? i = some first := by
    cases hget : p.visited.get? i with
    | none => exact absurd hi (Keyed.get?_eq_none.mp hget)
    | some first => exact ⟨first, rfl⟩
  have hnone : Visits (α := α) maxDepth level lo lo p ([], p) := .nil
  unfold askPlace
  rw [hfirst]
  cases r.nodes[i]? with
  | none => exact hnone
  | some n =>
    refine ⟨hnone.keys, ?_⟩
    simpa [Within, depthsAll, depths, referenceJob] using hlevel

/-- A node that was made last is visited for the first time, and then what it refers to. -/
theorem askPlace_fresh {n : Node α} (hn : r.nodes[i]? = some n) (hp : Awaits lo (i + 1) p)
    (hlo : lo ≤ i) (hown : n.IsModel → level ≤ maxDepth) (hlevel : level ≤ maxDepth + 1)
    (hchildren : ∀ p, Awaits lo i p →
      (askEach deeper n.children p).Ends (Visits maxDepth (level + 1) lo i p) E) :
    (askPlace r deeper i id p).Ends (Visits maxDepth level lo (i + 1) p) E := by
  have hi : i ∉ p.visited.keys := hp.fresh i hlo (Nat.lt_succ_self i)
  have hkeys : ∀ j, j ∈ (p.visited.insert i id).keys ↔ j ∈ p.visited.keys ∨ j = i := by
    intro j
    simp [Keyed.keys_insert, hi]
  have hstrategy : (ownJob n id).strategy.isSome = true → level ≤ maxDepth := by
    intro hsome
    refine hown ?_
    cases hmeans : n.means with
    | model m => exact ⟨m, hmeans⟩
    | _ => simp [ownJob, hmeans] at hsome
  unfold askPlace
  rw [Keyed.get?_eq_none.mpr hi, hn]
  refine (hchildren _ ⟨fun j hj => ?_, fun j hle hj => ?_⟩).bind fun below hbelow => ⟨fun j => ?_, ?_⟩
  · exact (hkeys j).mpr (.inl (hp.before j hj))
  · rw [hkeys, not_or]
    exact ⟨hp.fresh j hle (by omega), by omega⟩
  · rw [hbelow.keys, hkeys]
    by_cases hj : j ∈ p.visited.keys
    · simp [hj]
    · simp only [hj, false_or]
      omega
  · simp only [depthsAll, depths, List.append_nil]
    exact List.forall_mem_cons.mpr ⟨⟨hstrategy, hlevel⟩, hbelow.within⟩

theorem askEach_cons_visits {asking : AskingVisit α} (hp : Awaits lo hi p) (hlo : lo ≤ mid)
    (hhi : mid ≤ hi) (hhere : (asking i p).Ends (Visits maxDepth level lo mid p) E)
    (hrest : ∀ p, Awaits mid hi p →
      (askEach asking is p).Ends (Visits maxDepth level mid hi p) E) :
    (askEach asking (i :: is) p).Ends (Visits maxDepth level lo hi p) E := by
  refine hhere.bind fun here hhere => ?_
  refine (hrest here.2 (hhere.awaits hp hlo)).bind fun rest hrest => ?_
  exact hhere.append hrest hlo hhi

/-- Nodes are visited for the first time where they were made. -/
theorem askEach_visits (hpost : Postorder r.nodes maxDepth level lo hi is) (hfuel : hi ≤ fuel)
    (hlevel : level ≤ maxDepth + 1) (hp : Awaits lo hi p) :
    (askEach (askVisit r maxLevel fuel level) is p).Ends (Visits maxDepth level lo hi p)
      (Exceeds maxLevel maxDepth) := by
  induction hpost generalizing fuel p with
  | nil => exact .nil
  | @kept _ lo hi i is hlt hpost ih =>
    have hle := hpost.le
    obtain ⟨fuel, rfl⟩ := Nat.exists_eq_succ_of_ne_zero (show fuel ≠ 0 by omega)
    refine askEach_cons_visits hp (Nat.le_refl lo) hle ?_ fun p hp => ih hfuel hlevel hp
    exact askVisit_ends hlevel fun id => askPlace_kept lo (hp.before i hlt) hlevel
  | @standIn _ lo hi n is hn hmodel hlinks hpost ih =>
    have hle := hpost.le
    obtain ⟨fuel, rfl⟩ := Nat.exists_eq_succ_of_ne_zero (show fuel ≠ 0 by omega)
    have hnone : n.children = [] := by rw [Node.children, hlinks, List.flatMap_nil]
    refine askEach_cons_visits hp (Nat.le_succ lo) hle ?_ fun p hp => ih hfuel hlevel hp
    refine askVisit_ends hlevel fun id => askPlace_fresh hn (hp.narrow hle) (Nat.le_refl lo)
      (fun hm => absurd hm hmodel) hlevel fun p _ => ?_
    rw [hnone]
    exact .nil
  | @model level lo hi i n is hn hmodel hdepth hbelow hpost ihbelow ih =>
    have hle := hpost.le
    have hlo := hbelow.le
    obtain ⟨fuel, rfl⟩ := Nat.exists_eq_succ_of_ne_zero (show fuel ≠ 0 by omega)
    refine askEach_cons_visits hp (Nat.le_succ_of_le hlo) hle ?_ fun p hp => ih hfuel hlevel hp
    exact askVisit_ends hlevel fun id => askPlace_fresh hn (hp.narrow hle) hlo (fun _ => hdepth)
      hlevel fun p hp => ihbelow (by omega) (Nat.succ_le_succ hdepth) hp

end Lowering

namespace Resolution

open Lowering

variable {sources : Sources α} {limits : Limits α} {o : Observable} {ctx : Context α}
  {r : Resolution α} {maxLevel : Option Nat} {allocator : Allocator}

theorem asking_ends (h : resolve sources limits o ctx = .ok r) (maxLevel : Option Nat) :
    (r.asking maxLevel).Ends (fun d => Actuator.Within limits.maxDepth d.depths)
      (Exceeds maxLevel limits.maxDepth) := by
  unfold asking
  split
  · simp [Asking.Ends, Actuator.Within, Dataflow.depths, Dataflow.empty, Actuator.depthsAll]
  · exact (askEach_visits (resolve_postorder h) (Nat.le_succ _) (Nat.zero_le _)
      ⟨by simp, by simp [Keyed.keys, Keyed.empty]⟩).bind fun made hmade => hmade.within

/-- A resolution is lowered to actuators that are not too deep, unless the nesting is limited to
less than what the search may reach, or the identifiers run out. -/
theorem lower_ends (h : resolve sources limits o ctx = .ok r) (maxLevel : Option Nat)
    (allocator : Allocator) :
    (∃ d rest, r.lower maxLevel allocator = (.ok d, rest) ∧
      Actuator.Within limits.maxDepth d.depths) ∨
    ∃ e, (r.lower maxLevel allocator).1 = .error e ∧
      (e = .identifiersExhausted ∨ Exceeds maxLevel limits.maxDepth e) := by
  rw [← run_asking]
  exact (asking_ends h maxLevel).run allocator

/-- What a model computes stands at most as deep as the search may go, and every other actuator at
most one level deeper; so a limit beyond that is never exceeded. -/
theorem lower_within (h : resolve sources limits o ctx = .ok r) :
    (∀ maxLevel allocator d rest, r.lower maxLevel allocator = (.ok d, rest) →
      ∀ p ∈ d.depths, (p.2.strategy.isSome = true → p.1 ≤ limits.maxDepth) ∧
        p.1 ≤ limits.maxDepth + 1) ∧
    ∀ limit, limits.maxDepth < limit → ∀ allocator m,
      (r.lower (some limit) allocator).1 ≠ .error (.depthExceeded m) := by
  constructor
  · intro maxLevel allocator d rest hlower
    obtain ⟨_, _, hends, hwithin⟩ | ⟨e, hends, -⟩ := lower_ends h maxLevel allocator
    · rw [hlower] at hends
      cases hends
      exact hwithin
    · rw [hlower] at hends
      cases hends
  · intro limit hlimit allocator m hfails
    obtain ⟨_, _, hends, -⟩ | ⟨e, hends, hreason⟩ := lower_ends h (some limit) allocator
    · rw [hends] at hfails
      cases hfails
    · rw [hends] at hfails
      cases hfails
      obtain hreason | ⟨m, hm, hle, -⟩ := hreason
      · cases hreason
      · cases hm
        omega

/-- Soil is computed below land and referred to below rock, so that water is two levels below land,
though three links lead down to it. -/
theorem lower_within_stacked :
    ∃ r d rest, resolve stacked ({ maxDepth := 2 } : Config).limits land everywhere = .ok r ∧
      r.lower (some 3) {} = (.ok d, rest) ∧
      d.depths.map (fun p => (p.1, p.2.strategy)) = [(0, some "x.land"), (1, some "x.soil"),
        (2, some "x.water"), (1, some "x.rock"), (2, none)] ∧
      (∀ p ∈ d.depths, (p.2.strategy.isSome = true → p.1 ≤ 2) ∧ p.1 ≤ 3) ∧
      ∀ m, (r.lower (some 3) {}).1 ≠ .error (.depthExceeded m) := by
  obtain ⟨r, hr, hdepths⟩ := exists_of_any (P := fun r : Resolution Number =>
      ((r.lower (some 3) {}).1.toOption.any fun d => decide
        (d.depths.map (fun p => (p.1, p.2.strategy)) = [(0, some "x.land"), (1, some "x.soil"),
          (2, some "x.water"), (1, some "x.rock"), (2, none)])) = true)
    (x := resolve stacked ({ maxDepth := 2 } : Config).limits land everywhere) (by decide +kernel)
  obtain ⟨d, hd, hdepths⟩ := exists_of_any hdepths
  have hlower : r.lower (some 3) {} = (.ok d, (r.lower (some 3) {}).2) := Prod.ext hd rfl
  obtain ⟨hwithin, hnever⟩ := lower_within hr
  exact ⟨r, d, _, hr, hlower, hdepths, hwithin _ _ _ _ hlower, hnever 3 (by decide) {}⟩

end Resolution

end Obsplan
