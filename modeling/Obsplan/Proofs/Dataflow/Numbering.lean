import Obsplan.Proofs.Dataflow.Depths

/-!
# The numbers of actuators

Actuators are numbered in the order of the walk. A lowering never looks at the identifiers it is
given, so where all of them are greater by the same number, so are those of the actuators, of their
references and of the target, and nothing else changes. Main statement: which numbers a plan has,
and what becomes of it when the allocator has gone on.
-/

namespace Obsplan

variable {α : Type} [Coordinate α] {β γ δ ε : Type} {k : Nat}

/-! ## Allocators -/

namespace Allocator

theorem next_eq (a : Allocator) : a.next = Identifier.ofNat? a.bound := by
  obtain ⟨next⟩ := a
  cases next with
  | none => simp [bound, Identifier.ofNat?]
  | some i => simp [bound, Identifier.ofNat?, i.pos, i.lt]

/-- Identifiers are left up to the last number. -/
theorem bound_of_allocate?_eq_none {a : Allocator} (h : a.allocate? = none) : a.bound = UInt64.size := by
  obtain ⟨next⟩ := a
  cases next with
  | none => rfl
  | some i => cases h

end Allocator

theorem Asking.bound_run (x : Asking β) (allocator : Allocator) :
    allocator.bound ≤ (x.run allocator).2.bound := by
  induction x generalizing allocator with
  | done result => exact Nat.le_refl _
  | ask next ih =>
    rw [run]
    cases ha : allocator.allocate? with
    | none => exact Nat.le_refl _
    | some answer =>
      have hbound := (Allocator.bound_allocate? ha).2
      have hrest := ih answer.1 answer.2
      dsimp only
      omega

/-! ## Shifted answers -/

/-- Two computations ask alike: where all answers to the second one are greater by `k`, their
results are related, or they fail alike. -/
inductive Asking.Shifts (k : Nat) (Q : β → γ → Prop) : Asking β → Asking γ → Prop where
  | ok {b : β} {c : γ} : Q b c → Shifts k Q (.done (.ok b)) (.done (.ok c))
  | error (e : DataflowError) : Shifts k Q (.done (.error e)) (.done (.error e))
  | ask {next : Identifier → Asking β} {next' : Identifier → Asking γ} :
      (∀ i j : Identifier, j.val = i.val + k → Shifts k Q (next i) (next' j)) →
      Shifts k Q (.ask next) (.ask next')

namespace Asking.Shifts

variable {Q : β → γ → Prop} {x : Asking β} {y : Asking γ}

theorem bind {R : δ → ε → Prop} {f : β → Asking δ} {g : γ → Asking ε} (h : x.Shifts k Q y)
    (hnext : ∀ b c, Q b c → (f b).Shifts k R (g c)) : (x.bind f).Shifts k R (y.bind g) := by
  induction h with
  | ok hq => exact hnext _ _ hq
  | error e => exact .error e
  | ask _ ih => exact .ask fun i j hij => ih i j hij

/-- With an allocator that has gone on by `k`, a computation ends alike, or it runs out of
identifiers because too few are left. -/
theorem run (h : x.Shifts k Q y) {a a' rest : Allocator} {b : β} (hx : x.run a = (.ok b, rest))
    (ha : a'.bound = a.bound + k) :
    (UInt64.size < rest.bound + k ∧ (y.run a').1 = .error .identifiersExhausted) ∨
      ∃ c rest', y.run a' = (.ok c, rest') ∧ Q b c := by
  induction h generalizing a a' with
  | ok hq =>
    cases hx
    exact .inr ⟨_, a', rfl, hq⟩
  | error e => cases hx
  | @ask next next' _ ih =>
    rw [Asking.run] at hx ⊢
    cases hnext : a.allocate? with
    | none =>
      rw [hnext] at hx
      cases hx
    | some answer =>
      obtain ⟨i, a₁⟩ := answer
      rw [hnext] at hx
      obtain ⟨hi, ha₁⟩ := Allocator.bound_allocate? hnext
      cases hnext' : a'.allocate? with
      | none =>
        have hlast := Allocator.bound_of_allocate?_eq_none hnext'
        have hrest := bound_run (next i) a₁
        dsimp only at hx
        rw [hx] at hrest
        dsimp only at hrest
        exact .inl ⟨by omega, rfl⟩
      | some answer' =>
        obtain ⟨j, a₁'⟩ := answer'
        obtain ⟨hj, ha₁'⟩ := Allocator.bound_allocate? hnext'
        exact ih i j (by omega) hx (by omega)

end Asking.Shifts

/-! ## Shifted plans -/

/-- The same job with identifiers that are greater by `k`. -/
structure Job.Shifted (k : Nat) (j j' : Job α) : Prop where
  id : j'.id.val = j.id.val + k
  reference : j'.reference.map Identifier.val = j.reference.map fun i => i.val + k
  same : { j' with id := j.id, reference := j.reference } = j

namespace Actuator

mutual

/-- The same actuators with identifiers that are greater by `k`. -/
inductive Shifted (k : Nat) : Actuator α → Actuator α → Prop where
  | mk {j j' : Job α} {as bs : List (Actuator α)} : j.Shifted k j' → ShiftedAll k as bs →
      Shifted k (.mk j as) (.mk j' bs)

inductive ShiftedAll (k : Nat) : List (Actuator α) → List (Actuator α) → Prop where
  | nil : ShiftedAll k [] []
  | cons {a b : Actuator α} {as bs : List (Actuator α)} : Shifted k a b → ShiftedAll k as bs →
      ShiftedAll k (a :: as) (b :: bs)

end

theorem Shifted.job {a b : Actuator α} (h : Shifted k a b) : a.job.Shifted k b.job := by
  cases h with | mk hjob _ => exact hjob

namespace ShiftedAll

variable {as bs as' bs' : List (Actuator α)}

theorem append (h : ShiftedAll k as bs) (h' : ShiftedAll k as' bs') :
    ShiftedAll k (as ++ as') (bs ++ bs') := by
  induction as generalizing bs with
  | nil => cases h; exact h'
  | cons a as ih => cases h with | cons ha has => exact .cons ha (ih has)

theorem target (h : ShiftedAll k as bs) :
    (bs.head?.map fun b => b.job.id).map Identifier.val =
      (as.head?.map fun a => a.job.id).map fun i => i.val + k := by
  cases h with
  | nil => rfl
  | cons ha _ => simp [ha.job.id]

theorem foldl_coverage (h : ShiftedAll k as bs) (c : Coverage α) :
    bs.foldl (fun c b => c.merge b.job.coverage) c =
      as.foldl (fun c a => c.merge a.job.coverage) c := by
  induction as generalizing bs c with
  | nil => cases h; rfl
  | cons a as ih =>
    cases h with
    | cons ha has =>
      have hcoverage := congrArg Job.coverage ha.job.same
      rw [List.foldl_cons, List.foldl_cons, ih has, show _ = a.job.coverage from hcoverage]

end ShiftedAll

end Actuator

/-- The same plan with identifiers that are greater by `k`. -/
structure Dataflow.Shifted (k : Nat) (d d' : Dataflow α) : Prop where
  actuators : Actuator.ShiftedAll k d.actuators d'.actuators
  target : d'.target.map Identifier.val = d.target.map fun i => i.val + k
  same : { d' with actuators := d.actuators, target := d.target } = d

namespace Lowering

open Actuator

variable {r : Resolution α} {id id' first first' : Identifier} {p p' : Progress}
  {asking : AskingVisit α}

theorem ownJob_shifted (n : Node α) (h : id'.val = id.val + k) :
    (ownJob n id).Shifted k (ownJob n id') where
  id := by rw [id_ownJob, id_ownJob, h]
  reference := by rw [(computes_ownJob n id).reference, (computes_ownJob n id').reference]; rfl
  same := by unfold ownJob; cases n.means <;> rfl

theorem referenceJob_shifted (n : Node α) (h : id'.val = id.val + k)
    (hfirst : first'.val = first.val + k) :
    (referenceJob n id first).Shifted k (referenceJob n id' first') :=
  ⟨h, congrArg some hfirst, rfl⟩

/-- The same nodes were visited and got identifiers that are greater by `k`. -/
structure Progress.Shifted (k : Nat) (p p' : Progress) : Prop where
  visited : ∀ i, (p'.visited.get? i).map Identifier.val =
    (p.visited.get? i).map fun j => j.val + k
  requirements : p'.requirements = p.requirements

theorem Progress.Shifted.insert (h : p.Shifted k p') (hid : id'.val = id.val + k) (i : Nat)
    (more : TextSet) :
    Shifted k ⟨p.visited.insert i id, p.requirements.union more⟩
      ⟨p'.visited.insert i id', p'.requirements.union more⟩ where
  visited l := by
    rw [Keyed.get?_insert, Keyed.get?_insert]
    split
    · exact congrArg some hid
    · exact h.visited l
  requirements := by rw [h.requirements]

/-- The same was made with identifiers that are greater by `k`. -/
def Made (k : Nat) (made made' : List (Actuator α) × Progress) : Prop :=
  ShiftedAll k made.1 made'.1 ∧ made.2.Shifted k made'.2

/-- A visitor that makes the same with identifiers that are greater by `k`. -/
def ShiftsAlong (k : Nat) (asking : AskingVisit α) : Prop :=
  ∀ n {p p' : Progress}, p.Shifted k p' → (asking n p).Shifts k (Made k) (asking n p')

theorem askEach_shifts (h : ShiftsAlong k asking) (ns : List Nat) (hp : p.Shifted k p') :
    (askEach asking ns p).Shifts k (Made k) (askEach asking ns p') := by
  induction ns generalizing p p' with
  | nil => exact .ok ⟨.nil, hp⟩
  | cons n ns ih =>
    refine (h n hp).bind fun here here' hhere => ?_
    refine (ih hhere.2).bind fun rest rest' hrest => ?_
    exact .ok ⟨hhere.1.append hrest.1, hrest.2⟩

theorem askPlace_shifts (h : ShiftsAlong k asking) (n : Nat) (hid : id'.val = id.val + k)
    (hp : p.Shifted k p') :
    (askPlace r asking n id p).Shifts k (Made k) (askPlace r asking n id' p') := by
  have hvisited := hp.visited n
  unfold askPlace
  cases hfirst : p.visited.get? n with
  | some first =>
    rw [hfirst] at hvisited
    obtain ⟨first', hfirst', hval⟩ := Option.map_eq_some_iff.mp hvisited
    rw [hfirst']
    cases r.nodes[n]? with
    | none => exact .ok ⟨.nil, hp⟩
    | some node => exact .ok ⟨.cons (.mk (referenceJob_shifted node hid hval) .nil) .nil, hp⟩
  | none =>
    rw [hfirst] at hvisited
    rw [Option.map_eq_none_iff.mp hvisited]
    cases r.nodes[n]? with
    | none => exact .ok ⟨.nil, (hp.insert hid n .empty).visited, hp.requirements⟩
    | some node =>
      refine (askEach_shifts h node.children (hp.insert hid n _)).bind fun below below' hbelow => ?_
      exact .ok ⟨.cons (.mk (ownJob_shifted node hid) hbelow.1) .nil, hbelow.2⟩

theorem askVisit_shifts (r : Resolution α) (maxLevel : Option Nat) (fuel level : Nat) :
    ShiftsAlong k (askVisit r maxLevel fuel level) := by
  induction fuel generalizing level with
  | zero => exact fun n p p' hp => .ok ⟨.nil, hp⟩
  | succ fuel ih =>
    intro n p p' hp
    unfold askVisit
    split
    · exact .error _
    · exact .ask fun id id' hid => askPlace_shifts (ih (level + 1)) n hid hp

end Lowering

namespace Resolution

open Lowering

variable {sources : Sources α} {limits : Limits α} {o : Observable} {ctx : Context α}
  {r : Resolution α} {maxLevel : Option Nat} {allocator allocator' rest : Allocator}
  {d : Dataflow α}

theorem asking_shifts (r : Resolution α) (maxLevel : Option Nat) (k : Nat) :
    (r.asking maxLevel).Shifts k (Dataflow.Shifted k) (r.asking maxLevel) := by
  unfold asking
  split
  · exact .ok ⟨.nil, rfl, rfl⟩
  · have hstart : Progress.Shifted k {} {} := ⟨fun i => rfl, rfl⟩
    refine (askEach_shifts (askVisit_shifts r maxLevel _ 0) r.roots hstart).bind
      fun made made' hmade => .ok ⟨hmade.1, hmade.1.target, ?_⟩
    simp only [Dataflow.recomputed, Dataflow.coverageOf, hmade.1.foldl_coverage,
      hmade.2.requirements]

/-- With an allocator that has gone on by `k`, the plan is the same but for its identifiers, unless
too few of them are left. -/
theorem lower_shifted (h : r.lower maxLevel allocator = (.ok d, rest))
    (hbound : allocator'.bound = allocator.bound + k) :
    (UInt64.size < rest.bound + k ∧
      (r.lower maxLevel allocator').1 = .error .identifiersExhausted) ∨
      ∃ d' rest', r.lower maxLevel allocator' = (.ok d', rest') ∧ d.Shifted k d' := by
  rw [← run_asking] at h ⊢
  exact (asking_shifts r maxLevel k).run h hbound

/-- Unless the identifiers run out or the nesting is limited to less, actuators have the numbers
from the first free one on, in the order of the walk, and the allocator goes on behind them. With an
allocator that has gone on by `k`, the plan is the same with all identifiers greater by `k`, unless
too few of them are left. -/
theorem lower_numbers (h : resolve sources limits o ctx = .ok r) {first : Identifier}
    (hfirst : allocator.next = some first)
    (hleft : (r.lower maxLevel allocator).1 ≠ .error .identifiersExhausted) :
    (∃ m ∈ maxLevel, (r.lower maxLevel allocator).1 = .error (.depthExceeded m)) ∨
    ∃ d rest, r.lower maxLevel allocator = (.ok d, rest) ∧
      d.ids.map Identifier.val = List.range' first.val d.size ∧
      rest.next = Identifier.ofNat? (first.val + d.size) ∧
      ∀ (k : Nat) (later : Identifier), later.val = first.val + k →
        (UInt64.size < later.val + d.size ∧
          (r.lower maxLevel ⟨some later⟩).1 = .error .identifiersExhausted) ∨
        ∃ d' rest', r.lower maxLevel ⟨some later⟩ = (.ok d', rest') ∧ d.Shifted k d' := by
  have hbound : allocator.bound = first.val := by rw [Allocator.bound, hfirst]; rfl
  obtain ⟨d, rest, hlower, -⟩ | ⟨e, hfails, hreason⟩ := lower_ends h maxLevel allocator
  · obtain ⟨ho, hroots⟩ := resolve_ordered h
    obtain ⟨new, s', hlowers, -, hrest⟩ := lower_lowers ho hroots hlower
    have hsize : (Actuator.idsOf d.actuators).length = d.size := by
      rw [Actuator.idsOf, List.length_map]
      rfl
    have hids := hlowers.ids
    have hend := hlowers.allocator
    rw [hsize, hbound] at hids hend
    refine .inr ⟨d, rest, hlower, hids, ?_, fun k later hlater => ?_⟩
    · rw [Allocator.next_eq, hrest, hend]
    · have hlaterBound : Allocator.bound ⟨some later⟩ = allocator.bound + k := by
        rw [hbound, ← hlater]
        rfl
      have hshift := lower_shifted hlower hlaterBound
      rw [hrest, hend] at hshift
      rwa [hlater, Nat.add_right_comm]
  · obtain rfl | ⟨m, hm, -, rfl⟩ := hreason
    · exact absurd hfails hleft
    · exact .inl ⟨m, hm, hfails⟩

/-- Land, soil, water and the reference to water have the numbers from one to four, or from eleven
on. -/
theorem lower_numbers_referred :
    ∃ r d rest, resolve (knowing [needing "x.land" land [soil, water],
        needing "x.soil" soil [water], needing "x.water" water []]) ({} : Config).limits land
        everywhere = .ok r ∧
      r.lower none {} = (.ok d, rest) ∧ d.ids.map Identifier.val = [1, 2, 3, 4] ∧
      rest.next = Identifier.ofNat? 5 ∧
      ∃ d' rest', r.lower none (.startingAt 11) = (.ok d', rest') ∧ d.Shifted 10 d' := by
  obtain ⟨r, hr, hsize⟩ := exists_of_any (P := fun r : Resolution Number =>
      ((r.lower none {}).1.toOption.any fun d => decide (d.size = 4)) = true)
    (x := resolve (knowing [needing "x.land" land [soil, water], needing "x.soil" soil [water],
      needing "x.water" water []]) ({} : Config).limits land everywhere) (by decide +kernel)
  obtain ⟨d, hd, hsize⟩ := exists_of_any hsize
  have hleft : (r.lower none {}).1 ≠ .error .identifiersExhausted := by
    rw [hd]
    simp
  obtain ⟨m, hm, -⟩ | ⟨d₁, rest, hlower, hids, hnext, hlater⟩ := lower_numbers hr rfl hleft
  · cases hm
  rw [hlower] at hd
  cases hd
  rw [hsize] at hids hnext hlater
  obtain ⟨hlt, -⟩ | hshifted := hlater 10 ⟨11, by decide, by decide⟩ rfl
  · exact absurd hlt (by decide)
  · exact ⟨r, d, rest, hr, hlower, hids, hnext, hshifted⟩

end Resolution

end Obsplan
