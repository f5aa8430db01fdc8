import Obsplan.Dataflow.Text
import Obsplan.Proofs.Dataflow.Splicing

/-!
# How deeply plans are nested

A plan has a text when it is not nested too deeply. A plan that is made is not, but it can be
attached anywhere, and then its levels come on top of those above it. Main statement: how many
levels a plan has after another one was added.
-/

namespace Obsplan

variable {α : Type} [Coordinate α] {hook : Identifier}

namespace Actuator

mutual

/-- The number of actuators on the longest way down. -/
def levels : Actuator α → Nat
  | .mk _ children => levelsAll children + 1

def levelsAll : List (Actuator α) → Nat
  | [] => 0
  | a :: as => max (levels a) (levelsAll as)

end

mutual

/-- The level of the first actuator with an identifier, counted from one. -/
def level? (i : Identifier) : Actuator α → Option Nat
  | .mk j children => if j.id = i then some 1 else (levelAmong? i children).map (· + 1)

def levelAmong? (i : Identifier) : List (Actuator α) → Option Nat
  | [] => none
  | a :: as => (level? i a).or (levelAmong? i as)

end

theorem levelsAll_append (as bs : List (Actuator α)) :
    levelsAll (as ++ bs) = max (levelsAll as) (levelsAll bs) := by
  induction as with
  | nil => simp [levelsAll]
  | cons a as ih => simp [levelsAll, ih, Nat.max_assoc]

/-! ## Texts -/

section texts

variable {limit : Nat}

mutual

theorem isSome_actuatorText? : (level : Nat) → (a : Actuator α) →
    ((Dataflow.actuatorText? limit level a).isSome = true ↔ level + levels a ≤ limit + 1)
  | level, .mk j children => by
    unfold Dataflow.actuatorText? levels
    split
    · simp only [Option.isSome_none, Bool.false_eq_true, false_iff]
      omega
    · rw [Option.isSome_map, isSome_actuatorTexts? (level + 1) children (by omega)]
      omega

theorem isSome_actuatorTexts? : (level : Nat) → (as : List (Actuator α)) → level ≤ limit + 1 →
    ((Dataflow.actuatorTexts? limit level as).isSome = true ↔ level + levelsAll as ≤ limit + 1)
  | level, [], h => by simpa [Dataflow.actuatorTexts?, levelsAll] using h
  | level, a :: as, h => by
    have hboth : (Dataflow.actuatorTexts? limit level (a :: as)).isSome = true ↔
        (Dataflow.actuatorText? limit level a).isSome = true ∧
          (Dataflow.actuatorTexts? limit level as).isSome = true := by
      rw [Dataflow.actuatorTexts?]
      cases Dataflow.actuatorText? limit level a <;>
        cases Dataflow.actuatorTexts? limit level as <;> simp
    rw [hboth, isSome_actuatorText? level a, isSome_actuatorTexts? level as h, levelsAll]
    omega

end

end texts

/-! ## Levels along a way -/

mutual

theorem level?_eq_none : (a : Actuator α) → hook ∉ idsOf [a] → level? hook a = none
  | .mk j children, h => by
    rw [idsOf_mk, List.mem_cons, not_or] at h
    rw [level?, if_neg (Ne.symm h.1), levelAmong?_eq_none children h.2]
    rfl

theorem levelAmong?_eq_none : (as : List (Actuator α)) → hook ∉ idsOf as →
    levelAmong? hook as = none
  | [], _ => rfl
  | a :: as, h => by
    rw [idsOf_cons, List.mem_append, not_or] at h
    rw [levelAmong?, level?_eq_none a h.1, levelAmong?_eq_none as h.2]
    rfl

end

theorem levelAmong?_append {before : List (Actuator α)} (h : hook ∉ idsOf before)
    (as : List (Actuator α)) : levelAmong? hook (before ++ as) = levelAmong? hook as := by
  induction before with
  | nil => rfl
  | cons a before ih =>
    rw [idsOf_cons, List.mem_append, not_or] at h
    rw [List.cons_append, levelAmong?, level?_eq_none a h.1, ih h.2, Option.none_or]

end Actuator

namespace Way

open Actuator

variable {way : Way α}

/-- The level of the last actuator of a way is the number of actuators on the way. -/
theorem LeadsTo.levelAmong? (h : LeadsTo hook way) (below : List (Actuator α)) :
    Actuator.levelAmong? hook (fill way below) = some way.length := by
  induction h with
  | last hbefore hid =>
    rw [fill, levelAmong?_append hbefore, Actuator.levelAmong?, level?, if_pos hid]
    rfl
  | step hbefore hne _ ih =>
    rw [fill, levelAmong?_append hbefore, Actuator.levelAmong?, level?, if_neg hne, ih]
    rfl

/-- The levels of attached roots come on top of those of the way to them. -/
theorem levelsAll_widened (way : Way α) (below roots : List (Actuator α)) :
    levelsAll (fill (widened roots way) (below ++ roots)) =
      max (levelsAll (fill way below)) (way.length + levelsAll roots) := by
  induction way with
  | nil =>
    rw [widened, fill, fill, levelsAll_append, List.length_nil, Nat.zero_add]
  | cons f way ih =>
    have hmiddle : ∀ (j : Job α) (children : List (Actuator α)),
        levelsAll (f.before ++ .mk j children :: f.after) =
          max (levelsAll f.before) (max (levelsAll children + 1) (levelsAll f.after)) := by
      intro j children
      rw [levelsAll_append, levelsAll, levels]
    rw [widened, fill, fill, hmiddle, hmiddle, ih, List.length_cons]
    omega

end Way

namespace Lowering

variable {r : Resolution α} {limit : Nat} {s s' : LoweringState} {as : List (Actuator α)}

/-- A visitor whose actuators, the first ones at a level, stay above a limit. -/
def StaysAbove (limit level : Nat) (visit : Visit α) : Prop :=
  ∀ {n : Nat} {s s' : LoweringState} {as : List (Actuator α)},
    visit n s = (.ok as, s') → level + Actuator.levelsAll as ≤ limit + 1

theorem each_staysAbove {visit : Visit α} {level : Nat} (hlevel : level ≤ limit + 1)
    (hvisit : StaysAbove limit level visit) {ns : List Nat}
    (h : each visit ns s = (.ok as, s')) : level + Actuator.levelsAll as ≤ limit + 1 := by
  induction ns generalizing s as with
  | nil =>
    cases h
    exact hlevel
  | cons n ns ih =>
    obtain ⟨here, s₁, rest, hhere, hrest, rfl⟩ := each_cons_ok h
    have hfirst := hvisit hhere
    have hothers := ih hrest
    rw [Actuator.levelsAll_append]
    omega

theorem place_staysAbove {deeper : Visit α} {level n : Nat} {id : Identifier}
    (hlevel : level ≤ limit) (hdeep : StaysAbove limit (level + 1) deeper)
    (h : place r deeper n id s = (.ok as, s')) : level + Actuator.levelsAll as ≤ limit + 1 := by
  unfold place at h
  split at h
  · cases h
    simp only [Actuator.levelsAll, Actuator.levels]
    omega
  · cases h
    exact Nat.le_succ_of_le hlevel
  · cases h
    exact Nat.le_succ_of_le hlevel
  · dsimp only at h
    split at h
    · cases h
    · rename_i children s₁ hchildren
      cases h
      have hbelow := each_staysAbove (Nat.succ_le_succ hlevel) hdeep hchildren
      simp only [Actuator.levelsAll, Actuator.levels]
      omega

theorem visit_staysAbove (r : Resolution α) (limit fuel level : Nat) (hlevel : level ≤ limit + 1) :
    StaysAbove limit level (visit r (some limit) fuel level) := by
  induction fuel generalizing level with
  | zero =>
    intro n s s' as h
    cases h
    exact hlevel
  | succ fuel ih =>
    intro n s s' as h
    obtain ⟨hlimit, id, rest, -, hplaced⟩ := visit_succ_ok h
    have hwithin : level ≤ limit := hlimit limit rfl
    exact place_staysAbove hwithin (ih (level + 1) (Nat.succ_le_succ hwithin)) hplaced

end Lowering

namespace Dataflow

open Way

variable {d other sum : Dataflow α} {ctx : Context α}

def levels (d : Dataflow α) : Nat := Actuator.levelsAll d.actuators

def level? (d : Dataflow α) (i : Identifier) : Option Nat := Actuator.levelAmong? i d.actuators

theorem encode_eq_encodingError (limit : Nat) (d : Dataflow α) (ctx : Context α) :
    d.encode limit ctx = encodingError ↔ limit + 1 < d.levels := by
  have htexts : (actuatorTexts? limit 0 d.actuators).isSome = true ↔ d.levels ≤ limit + 1 := by
    rw [Actuator.isSome_actuatorTexts? 0 d.actuators (Nat.zero_le _), Nat.zero_add]
    rfl
  rw [encode, text?]
  cases hroots : actuatorTexts? limit 0 d.actuators with
  | none =>
    rw [hroots] at htexts
    simpa using htexts
  | some roots =>
    rw [hroots] at htexts
    have hle : d.levels ≤ limit + 1 := htexts.mp rfl
    refine iff_of_false (fun h => ?_) (Nat.not_lt.mpr hle)
    -- a text begins with another letter than the message
    have hfirst := congrArg (fun t => t.toList.head?) h
    simp [encodingError, String.toList_append] at hfirst

theorem levels_lower {r : Resolution α} {limit : Nat} {allocator rest : Allocator}
    (h : r.lower (some limit) allocator = (.ok d, rest)) : d.levels ≤ limit + 1 := by
  obtain ⟨s', hroots, -, -⟩ := Resolution.lower_ok h
  have hlevels := Lowering.each_staysAbove (Nat.zero_le (limit + 1))
    (Lowering.visit_staysAbove r limit _ 0 (Nat.zero_le _)) hroots
  rwa [Nat.zero_add] at hlevels

/-- Where a plan is attached, its levels come on top of those above. -/
theorem levels_add (h : d.add other ctx = .ok sum) :
    (ctx.current = none ∧ sum.levels = max d.levels other.levels) ∨
      ∃ hook level, ctx.current = some hook ∧ d.level? hook = some level ∧
        sum.levels = max d.levels (level + other.levels) := by
  obtain ⟨way, below, hway, hd, rfl⟩ := add_cases h
  have hlevels := levelsAll_widened way below other.actuators
  rw [← hd] at hlevels
  cases hcurrent : ctx.current with
  | none =>
    rw [hcurrent] at hway
    cases hway
    rw [List.length_nil, Nat.zero_add] at hlevels
    exact .inl ⟨rfl, hlevels⟩
  | some hook =>
    rw [hcurrent] at hway
    refine .inr ⟨hook, way.length, rfl, ?_, hlevels⟩
    rw [level?, hd]
    exact hway.levelAmong? below

theorem add_of_level? {level : Nat} (hcurrent : ctx.current = some hook)
    (h : d.level? hook = some level) (other : Dataflow α) : ∃ sum, d.add other ctx = .ok sum := by
  refine add_of_mem hcurrent ?_
  by_contra hmissing
  rw [level?, Actuator.levelAmong?_eq_none d.actuators hmissing] at h
  cases h

end Dataflow

end Obsplan
