import Obsplan.Proofs.Dataflow.Unfolding

/-!
# Lowering that asks for identifiers

Whoever lowers a resolution asks for one identifier after the other. Others may be given identifiers
in between, so what is asked for and what is made of the answers are kept apart here. Main
statements: asking one allocator without a break is the lowering, and whatever the answers are, the
actuators get them in the order in which they come, each one at most once.
-/

namespace Obsplan

variable {α : Type} [Coordinate α] {β γ : Type}

/-- A computation that asks for identifiers. -/
inductive Asking (β : Type) where
  | done (result : Except DataflowError β)
  /-- An identifier is asked for. When there is none, the computation fails. -/
  | ask (next : Identifier → Asking β)

namespace Asking

def bind (f : β → Asking γ) : Asking β → Asking γ
  | done (.error e) => done (.error e)
  | done (.ok b) => f b
  | ask next => ask fun i => (next i).bind f

/-- Asks an allocator without a break. -/
def run (allocator : Allocator) : Asking β → Except DataflowError β × Allocator
  | done result => (result, allocator)
  | ask next =>
    match allocator.allocate? with
    | none => (.error .identifiersExhausted, allocator)
    | some (i, allocator) => (next i).run allocator

theorem run_bind (f : β → Asking γ) (x : Asking β) (allocator : Allocator) :
    (x.bind f).run allocator =
      match x.run allocator with
      | (.error e, allocator) => (.error e, allocator)
      | (.ok b, allocator) => (f b).run allocator := by
  induction x generalizing allocator with
  | done result => cases result <;> rfl
  | ask next ih =>
    rw [bind, run, run]
    cases allocator.allocate? with
    | none => rfl
    | some answer => exact ih _ _

/-- After some identifiers were given, and whatever is given from now on: the result has its
identifiers from there, in the order in which they were given, or there is a failure, but none of a
hook. -/
def Uses (f : β → List Identifier) (given : List Identifier) : Asking β → Prop
  | done (.ok b) => (f b).Sublist given
  | done (.error e) => ∀ i ctx, e ≠ .hookNotFound i ctx
  | ask next => ∀ i, (next i).Uses f (given ++ [i])

theorem Uses.bind {f : β → List Identifier} {g : γ → List Identifier} {next : β → Asking γ}
    {x : Asking β} {given : List Identifier} (h : x.Uses f given)
    (hnext : ∀ b given, (f b).Sublist given → (next b).Uses g given) :
    (x.bind next).Uses g given := by
  induction x generalizing given with
  | done result =>
    cases result with
    | error e => exact h
    | ok b => exact hnext b given h
  | ask rest ih => exact fun i => ih i (h i)

/-- Whatever is given, the result satisfies `P`, or else the failure satisfies `E`. -/
def Ends (P : β → Prop) (E : DataflowError → Prop) : Asking β → Prop
  | done (.ok b) => P b
  | done (.error e) => E e
  | ask next => ∀ i, (next i).Ends P E

theorem Ends.bind {P : β → Prop} {Q : γ → Prop} {E : DataflowError → Prop} {next : β → Asking γ}
    {x : Asking β} (h : x.Ends P E) (hnext : ∀ b, P b → (next b).Ends Q E) :
    (x.bind next).Ends Q E := by
  induction x with
  | done result =>
    cases result with
    | error e => exact h
    | ok b => exact hnext b h
  | ask rest ih => exact fun i => ih i (h i)

/-- An allocator can run out besides. -/
theorem Ends.run {P : β → Prop} {E : DataflowError → Prop} {x : Asking β} (h : x.Ends P E)
    (allocator : Allocator) :
    (∃ b rest, x.run allocator = (.ok b, rest) ∧ P b) ∨
      ∃ e, (x.run allocator).1 = .error e ∧ (e = .identifiersExhausted ∨ E e) := by
  induction x generalizing allocator with
  | done result =>
    cases result with
    | error e => exact .inr ⟨e, rfl, .inr h⟩
    | ok b => exact .inl ⟨b, allocator, rfl, h⟩
  | ask next ih =>
    rw [Asking.run]
    cases allocator.allocate? with
    | none => exact .inr ⟨_, rfl, .inl rfl⟩
    | some answer => exact ih answer.1 (h answer.1) answer.2

end Asking

namespace Lowering

/-- What lowering carries along besides the allocator. -/
structure Progress where
  visited : Keyed Nat Identifier := .empty
  requirements : TextSet := .empty

/-- What lowering carries along, with an allocator. -/
def Progress.with (p : Progress) (allocator : Allocator) : LoweringState :=
  ⟨allocator, p.visited, p.requirements⟩

/-- Lowers a node and asks for identifiers. -/
abbrev AskingVisit (α : Type) [Coordinate α] :=
  Nat → Progress → Asking (List (Actuator α) × Progress)

def askEach (visit : AskingVisit α) : List Nat → Progress → Asking (List (Actuator α) × Progress)
  | [], p => .done (.ok ([], p))
  | n :: ns, p =>
    (visit n p).bind fun here =>
      (askEach visit ns here.2).bind fun rest => .done (.ok (here.1 ++ rest.1, rest.2))

def askPlace (r : Resolution α) (deeper : AskingVisit α) (n : Nat) (id : Identifier)
    (p : Progress) : Asking (List (Actuator α) × Progress) :=
  match p.visited.get? n, r.nodes[n]? with
  | some first, some node => .done (.ok ([.mk (referenceJob node id first) []], p))
  | some _, none => .done (.ok ([], p))
  | none, none => .done (.ok ([], { p with visited := p.visited.insert n id }))
  | none, some node =>
    (askEach deeper node.children ⟨p.visited.insert n id,
      p.requirements.union (requirementsOf node)⟩).bind fun below =>
        .done (.ok ([.mk (ownJob node id) below.1], below.2))

def askVisit (r : Resolution α) (maxLevel : Option Nat) : Nat → Nat → AskingVisit α
  | 0, _, _, p => .done (.ok ([], p))
  | fuel + 1, level, n, p =>
    match maxLevel.filter fun m => decide (m < level) with
    | some m => .done (.error (.depthExceeded m))
    | none => .ask fun id => askPlace r (askVisit r maxLevel fuel (level + 1)) n id p

/-! ## Without a break -/

/-- What was lowered, with the progress, and the allocator afterwards. -/
def told : Except DataflowError (List (Actuator α)) × LoweringState →
    Except DataflowError (List (Actuator α) × Progress) × Allocator
  | (.error e, s) => (.error e, s.allocator)
  | (.ok as, s) => (.ok (as, ⟨s.visited, s.requirements⟩), s.allocator)

/-- Asking an allocator without a break is a visit. -/
def Answers (visit : Visit α) (asking : AskingVisit α) : Prop :=
  ∀ n p allocator, (asking n p).run allocator = told (visit n (p.with allocator))

theorem run_askEach {visit : Visit α} {asking : AskingVisit α} (h : Answers visit asking)
    (ns : List Nat) (p : Progress) (allocator : Allocator) :
    (askEach asking ns p).run allocator = told (each visit ns (p.with allocator)) := by
  induction ns generalizing p allocator with
  | nil => rfl
  | cons n ns ih =>
    rw [askEach, Asking.run_bind, h, each]
    rcases visit n (p.with allocator) with ⟨here | here, s⟩
    · rfl
    · dsimp only [told]
      rw [Asking.run_bind, ih, Progress.with]
      rcases each visit ns s with ⟨rest | rest, s'⟩ <;> rfl

theorem run_askPlace (r : Resolution α) {deeper : Visit α} {asking : AskingVisit α}
    (h : Answers deeper asking) (n : Nat) (id : Identifier) (p : Progress) (allocator : Allocator) :
    (askPlace r asking n id p).run allocator = told (place r deeper n id (p.with allocator)) := by
  unfold askPlace place
  rw [show (p.with allocator).visited = p.visited from rfl]
  cases p.visited.get? n with
  | some first => cases r.nodes[n]? <;> rfl
  | none =>
    cases r.nodes[n]? with
    | none => rfl
    | some node =>
      dsimp only
      rw [Asking.run_bind, run_askEach h, Progress.with, Progress.with]
      dsimp only
      rcases each deeper node.children _ with ⟨below | below, s⟩ <;> rfl

theorem run_askVisit (r : Resolution α) (maxLevel : Option Nat) (fuel level : Nat) :
    Answers (visit r maxLevel fuel level) (askVisit r maxLevel fuel level) := by
  induction fuel generalizing level with
  | zero => exact fun n p allocator => rfl
  | succ fuel ih =>
    intro n p allocator
    unfold askVisit visit
    cases maxLevel.filter fun m => decide (m < level) with
    | some m => rfl
    | none =>
      dsimp only
      rw [Asking.run, show (p.with allocator).allocator = allocator from rfl]
      cases allocator.allocate? with
      | none => rfl
      | some answer => exact run_askPlace r (ih (level + 1)) n answer.1 p answer.2

/-! ## Whatever is answered -/

/-- The actuators that are made have their identifiers from those given, after the ones that were
used before. -/
def Hands (asking : AskingVisit α) : Prop :=
  ∀ n p used given, List.Sublist used given →
    (asking n p).Uses (fun made => used ++ Actuator.idsOf made.1) given

theorem askEach_hands {asking : AskingVisit α} (h : Hands asking) (ns : List Nat) (p : Progress)
    {used given : List Identifier} (hused : used.Sublist given) :
    (askEach asking ns p).Uses (fun made => used ++ Actuator.idsOf made.1) given := by
  induction ns generalizing p used given with
  | nil => simpa [askEach, Asking.Uses] using hused
  | cons n ns ih =>
    refine (h n p used given hused).bind fun here given hhere => ?_
    refine (ih here.2 hhere).bind fun rest given hrest => ?_
    simpa [Asking.Uses, Actuator.idsOf_append] using hrest

theorem askPlace_hands (r : Resolution α) {asking : AskingVisit α} (h : Hands asking) (n : Nat)
    (id : Identifier) (p : Progress) {used given : List Identifier} (hused : used.Sublist given) :
    (askPlace r asking n id p).Uses (fun made => used ++ Actuator.idsOf made.1)
      (given ++ [id]) := by
  have hown : (used ++ [id]).Sublist (given ++ [id]) := hused.append_right [id]
  have hnone : used.Sublist (given ++ [id]) := hused.trans (List.sublist_append_left given [id])
  unfold askPlace
  split
  · exact hown
  · simpa [Asking.Uses] using hnone
  · simpa [Asking.Uses] using hnone
  · refine (askEach_hands h _ _ hown).bind fun below given hbelow => ?_
    simpa [Asking.Uses, Actuator.idsOf_mk, id_ownJob] using hbelow

theorem askVisit_hands (r : Resolution α) (maxLevel : Option Nat) (fuel level : Nat) :
    Hands (askVisit r maxLevel fuel level) := by
  induction fuel generalizing level with
  | zero =>
    intro n p used given hused
    simpa [askVisit, Asking.Uses] using hused
  | succ fuel ih =>
    intro n p used given hused
    unfold askVisit
    split
    · exact fun i ctx => DataflowError.noConfusion
    · exact fun id => askPlace_hands r (ih (level + 1)) n id p hused

end Lowering

namespace Resolution

/-- The dataflow of a resolution, for which identifiers are asked. -/
def asking (r : Resolution α) (maxLevel : Option Nat) : Asking (Dataflow α) :=
  let d : Dataflow α :=
    { Dataflow.empty r.scale with
      observable := some r.observable
      notifications := r.notifications }
  if r.isEmpty then .done (.ok d)
  else
    (Lowering.askEach (Lowering.askVisit r maxLevel (r.nodes.length + 1) 0) r.roots {}).bind
      fun made => .done (.ok (Dataflow.recomputed { d with
        actuators := made.1
        target := made.1.head?.map fun a => a.job.id
        requirements := made.2.requirements }))

/-- Asking an allocator without a break is lowering with it. -/
theorem run_asking (r : Resolution α) (maxLevel : Option Nat) (allocator : Allocator) :
    (r.asking maxLevel).run allocator = r.lower maxLevel allocator := by
  rw [lower_eq]
  unfold asking unfolded
  by_cases hempty : r.isEmpty = true
  · rw [if_pos hempty, if_pos hempty]
    rfl
  · rw [if_neg hempty, if_neg hempty, Asking.run_bind,
      Lowering.run_askEach (Lowering.run_askVisit r maxLevel _ _)]
    dsimp only [Lowering.Progress.with]
    rcases Lowering.each _ r.roots { allocator } with ⟨roots | roots, s⟩ <;> rfl

theorem asking_uses (r : Resolution α) (maxLevel : Option Nat) :
    (r.asking maxLevel).Uses Dataflow.ids [] := by
  unfold asking
  split
  · exact List.Sublist.refl _
  · refine (Lowering.askEach_hands (Lowering.askVisit_hands r maxLevel _ _) r.roots {}
      (List.Sublist.refl [])).bind fun made given hmade => ?_
    simpa [Asking.Uses, Dataflow.ids, Dataflow.walk, Dataflow.recomputed, Actuator.idsOf]
      using hmade

end Resolution

end Obsplan
