import Obsplan.Proofs.Dataflow.Splicing

/-!
# Positions of actuators

An actuator stands below another one, or it is a root. Main statement: no plan that is attached
moves an actuator that is there.
-/

namespace Obsplan

variable {α : Type} [Coordinate α]

/-- What an actuator does, and where it stands: below which other one, or as a root. -/
structure Position (α : Type) [Coordinate α] where
  parent : Option Identifier
  job : Job α

def Position.id (p : Position α) : Identifier := p.job.id

namespace Actuator

mutual

/-- The positions of an actuator and of all below it. -/
def positions (parent : Option Identifier) : Actuator α → List (Position α)
  | .mk j children => ⟨parent, j.uncovered⟩ :: positionsAll (some j.id) children

def positionsAll (parent : Option Identifier) : List (Actuator α) → List (Position α)
  | [] => []
  | a :: as => positions parent a ++ positionsAll parent as

end

theorem positionsAll_append (parent : Option Identifier) (as bs : List (Actuator α)) :
    positionsAll parent (as ++ bs) = positionsAll parent as ++ positionsAll parent bs := by
  induction as with
  | nil => rfl
  | cons a as ih => simp [positionsAll, ih]

mutual

theorem ids_positions (parent : Option Identifier) : (a : Actuator α) →
    (positions parent a).map Position.id = idsOf [a]
  | .mk j children => by
    rw [positions, List.map_cons, ids_positionsAll _ children, idsOf_mk]
    rfl

theorem ids_positionsAll (parent : Option Identifier) : (as : List (Actuator α)) →
    (positionsAll parent as).map Position.id = idsOf as
  | [] => rfl
  | a :: as => by
    rw [positionsAll, List.map_append, ids_positions parent a, ids_positionsAll parent as,
      ← idsOf_cons]

end

end Actuator

/-! ## Positions around a way -/

namespace Way

open Actuator

variable {way way' : Way α} {below roots : List (Actuator α)} {parent : Option Identifier}

/-- The positions up to the last actuator of a way. -/
def upTo (parent : Option Identifier) : Way α → List (Position α)
  | [] => []
  | f :: way =>
    positionsAll parent f.before ++ ⟨parent, f.job.uncovered⟩ :: upTo (some f.job.id) way

/-- The positions behind all below the last actuator of a way. -/
def beyond (parent : Option Identifier) : Way α → List (Position α)
  | [] => []
  | f :: way => beyond (some f.job.id) way ++ positionsAll parent f.after

/-- The last actuator of a way. -/
def foot (parent : Option Identifier) : Way α → Option Identifier
  | [] => parent
  | f :: way => foot (some f.job.id) way

theorem foot_endsAt {current : Option Identifier} (h : EndsAt current way) :
    foot none way = current := by
  have hleads : ∀ {hook : Identifier} {way : Way α}, LeadsTo hook way →
      ∀ parent, foot parent way = some hook := by
    intro hook way h
    induction h with
    | last _ hid => exact fun _ => congrArg some hid
    | step _ _ _ ih => exact fun _ => ih _
  cases current with
  | none =>
    cases h
    rfl
  | some hook => exact hleads h none

theorem positionsAll_fill (parent : Option Identifier) (way : Way α) (below : List (Actuator α)) :
    positionsAll parent (fill way below) =
      upTo parent way ++ positionsAll (foot parent way) below ++ beyond parent way := by
  induction way generalizing parent with
  | nil => simp [fill, upTo, foot, beyond]
  | cons f way ih =>
    rw [fill, positionsAll_append, positionsAll, positions, ih, upTo, foot, beyond]
    simp

/-- Positions do not tell what is covered. -/
theorem Alike.positions (h : Alike way way') (parent : Option Identifier) :
    upTo parent way' = upTo parent way ∧ foot parent way' = foot parent way ∧
      beyond parent way' = beyond parent way := by
  induction h generalizing parent with
  | nil => exact ⟨rfl, rfl, rfl⟩
  | @cons f f' way way' hf _ ih =>
    obtain ⟨hbefore, hjob, hafter⟩ := hf
    have hid : f'.job.id = f.job.id := by rw [← Job.id_uncovered, hjob, Job.id_uncovered]
    obtain ⟨hup, hfoot, hbeyond⟩ := ih (some f.job.id)
    refine ⟨?_, ?_, ?_⟩
    · rw [upTo, upTo, hbefore, hjob, hid, hup]
    · rw [foot, foot, hid, hfoot]
    · rw [beyond, beyond, hafter, hid, hbeyond]

end Way

/-! ## Attached plans -/

namespace Dataflow

open Way

variable {d other sum : Dataflow α} {ctx : Context α}

/-- The positions of all actuators. -/
def positions (d : Dataflow α) : List (Position α) := Actuator.positionsAll none d.actuators

theorem ids_positions (d : Dataflow α) : d.positions.map Position.id = d.ids :=
  Actuator.ids_positionsAll none d.actuators

theorem ids_sublist {d' : Dataflow α} (h : d.positions.Sublist d'.positions) :
    d.ids.Sublist d'.ids := by
  rw [← ids_positions, ← ids_positions]
  exact h.map Position.id

/-- Nothing that is there is moved. -/
theorem add_positions (h : d.add other ctx = .ok sum) : d.positions.Sublist sum.positions := by
  obtain ⟨way, below, -, hd, rfl⟩ := add_cases h
  obtain ⟨hup, hfoot, hbeyond⟩ := (alike_widened other.actuators way).positions none
  rw [Dataflow.positions, Dataflow.positions, joined, hd, positionsAll_fill, positionsAll_fill, hup,
    hfoot, hbeyond, Actuator.positionsAll_append]
  apply List.Sublist.append_right
  apply List.Sublist.append_left
  exact List.sublist_append_left _ _

end Dataflow

end Obsplan
