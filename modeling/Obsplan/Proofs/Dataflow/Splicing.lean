import Mathlib.Data.List.Perm.Basic
import Obsplan.Proofs.Dataflow.Order
import Obsplan.Proofs.Dataflow.Ways
import Obsplan.Proofs.Edit.Atomic

/-!
# Spliced dataflows

Roots can be attached to whatever is there. They are computed one after the other, wherever they are
attached: the order of all that was there before stays, and so does the order of the roots.
-/

namespace Obsplan

variable {α : Type} [Coordinate α] {i : Identifier}

/-! ## The order of roles -/

/-- Roles with those of the roots put between them. -/
def Role.Inserted (xs ys zs : List Role) : Prop :=
  ∃ before after, xs = before ++ after ∧ zs = before ++ (ys ++ after)

namespace Role.Inserted

variable {xs ys zs ws : List Role}

theorem append_right (h : Inserted xs ys zs) (ws : List Role) :
    Inserted (xs ++ ws) ys (zs ++ ws) := by
  obtain ⟨before, after, rfl, rfl⟩ := h
  exact ⟨before, after ++ ws, by simp, by simp⟩

theorem append_left (h : Inserted xs ys zs) (ws : List Role) :
    Inserted (ws ++ xs) ys (ws ++ zs) := by
  obtain ⟨before, after, rfl, rfl⟩ := h
  exact ⟨ws ++ before, after, by simp, by simp⟩

theorem perm (h : Inserted xs ys zs) : zs.Perm (xs ++ ys) := by
  obtain ⟨before, after, rfl, rfl⟩ := h
  rw [List.append_assoc]
  exact List.perm_append_comm.append_left before

theorem settled (h : Inserted xs ys zs) (hxs : Settled [] xs) (hys : Settled [] ys) :
    Settled [] zs := by
  obtain ⟨before, after, rfl, rfl⟩ := h
  exact hxs.insert hys

end Role.Inserted

/-- Roots that are attached at the end of a way are computed in one go. -/
theorem Way.inserted_fill (way : Way α) (below roots : List (Actuator α)) :
    Role.Inserted (Actuator.roles (fill way below)) (Actuator.roles roots)
      (Actuator.roles (fill (widened roots way) (below ++ roots))) := by
  have hmiddle : ∀ (before after : List (Actuator α)) (j : Job α) (children : List (Actuator α)),
      Actuator.roles (before ++ .mk j children :: after) = Actuator.roles before ++
        (Actuator.roles children ++ [⟨j.id, j.kind, j.reference⟩] ++ Actuator.roles after) := by
    intro before after j children
    rw [Actuator.roles_append, ← List.singleton_append, Actuator.roles_append, Actuator.roles_mk]
  induction way with
  | nil =>
    refine ⟨Actuator.roles below, [], (List.append_nil _).symm, ?_⟩
    rw [widened, fill, Actuator.roles_append, List.append_nil]
  | cons f way ih =>
    rw [widened, fill, fill, hmiddle, hmiddle]
    apply Role.Inserted.append_left
    apply Role.Inserted.append_right
    exact ih.append_right _

namespace Dataflow

open Way

variable {d other sum : Dataflow α} {ctx : Context α}

/-- A plan of some actuators that has all else of two plans together. -/
def joined (d other : Dataflow α) (as : List (Actuator α)) : Dataflow α where
  actuators := as
  coverage := coverageOf d.coverage.scale as
  requirements := d.requirements.union other.requirements
  target := d.target.or other.target
  observable := if d.target.isNone then other.observable else d.observable
  notifications := d.notifications ++ other.notifications

theorem on_adding {as : List (Actuator α)}
    (h : (attaching other.actuators ctx).on d = (.ok ⟨⟩, { d with actuators := as })) :
    (adding other ctx).on d = (.ok ⟨⟩, d.joined other as) := by
  rw [adding, Edit.on_bind_ok h, Edit.on_bind_ok (Edit.on_modify _ _),
    Edit.on_bind_ok (Edit.on_modify _ _), Edit.on_modify]
  cases htarget : d.target <;> simp [joined, recomputed, htarget]

/-- Where to attach is looked up before anything is changed. -/
theorem atomic_adding (other : Dataflow α) (ctx : Context α) :
    Edit.Atomic (adding other ctx) := by
  have hattaching : Edit.Atomic (attaching other.actuators ctx) := by
    unfold attaching
    split
    · exact .of_sure (.modify _)
    · refine .bind .get fun d => ?_
      split
      · exact .of_reads (.throw _)
      · exact .of_reads (.throw _)
      · exact .of_sure (.modify _)
  exact hattaching.bind_sure fun _ => (Edit.Sure.modify _).bind fun _ =>
    (Edit.Sure.modify _).bind fun _ => .modify _

/-- A plan is added by widening the way to where it belongs. -/
theorem add_fill {way : Way α} {below : List (Actuator α)} (hway : EndsAt ctx.current way)
    (hd : d.actuators = fill way below) (other : Dataflow α) :
    d.add other ctx =
      .ok (d.joined other (fill (widened other.actuators way) (below ++ other.actuators))) := by
  rw [add, Edit.made, on_adding (on_attaching_fill hway hd other.actuators)]

theorem add_eq_error (hcurrent : ctx.current = some i) (h : i ∉ d.ids) (other : Dataflow α) :
    d.add other ctx = .error (.hookNotFound i.val ctx.id) := by
  rw [add, Edit.made, adding, Edit.on_bind_error (on_attaching_error hcurrent h other.actuators)]

/-- A plan can be added unless the observation of its context is missing. -/
theorem add_ok_or_error (d other : Dataflow α) (ctx : Context α) :
    (∃ way below, EndsAt ctx.current way ∧ d.actuators = fill way below) ∨
      ∃ hook, ctx.current = some hook ∧
        d.add other ctx = .error (.hookNotFound hook.val ctx.id) := by
  by_cases hpresent : ∀ hook, ctx.current = some hook → hook ∈ d.ids
  · exact .inl (exists_endsAt hpresent)
  · push Not at hpresent
    obtain ⟨hook, hcurrent, hmissing⟩ := hpresent
    exact .inr ⟨hook, hcurrent, add_eq_error hcurrent hmissing other⟩

theorem add_cases (h : d.add other ctx = .ok sum) :
    ∃ way below, EndsAt ctx.current way ∧ d.actuators = fill way below ∧
      sum = d.joined other (fill (widened other.actuators way) (below ++ other.actuators)) := by
  rcases add_ok_or_error d other ctx with ⟨way, below, hway, hd⟩ | ⟨hook, -, herror⟩
  · rw [add_fill hway hd] at h
    exact ⟨way, below, hway, hd, (Except.ok.inj h).symm⟩
  · rw [herror] at h
    cases h

/-- Only a hook that is not there keeps a plan from being added. -/
theorem add_error {e : DataflowError} (h : d.add other ctx = .error e) :
    ∃ hook, ctx.current = some hook ∧ e = .hookNotFound hook.val ctx.id := by
  rcases add_ok_or_error d other ctx with ⟨way, below, hway, hd⟩ | ⟨hook, hcurrent, herror⟩
  · rw [add_fill hway hd] at h
    cases h
  · rw [herror] at h
    exact ⟨hook, hcurrent, (Except.error.inj h).symm⟩

/-- Whatever is there can be attached to. -/
theorem add_of_mem (hcurrent : ctx.current = some i) (h : i ∈ d.ids) :
    ∃ sum, d.add other ctx = .ok sum := by
  have hpresent : ∀ hook, ctx.current = some hook → hook ∈ d.ids := by
    intro hook hhook
    cases hcurrent.symm.trans hhook
    exact h
  obtain ⟨way, below, hway, hd⟩ := exists_endsAt hpresent
  exact ⟨_, add_fill hway hd other⟩

/-- What a plan is after another one was added. -/
theorem add_inserted (h : d.add other ctx = .ok sum) :
    Role.Inserted (Actuator.roles d.actuators) (Actuator.roles other.actuators)
        (Actuator.roles sum.actuators) ∧
      sum.target = d.target.or other.target := by
  obtain ⟨way, below, -, hd, rfl⟩ := add_cases h
  refine ⟨?_, rfl⟩
  rw [hd]
  exact way.inserted_fill below other.actuators

theorem perm_ids (d : Dataflow α) : ((Actuator.roles d.actuators).map Role.id).Perm d.ids :=
  Actuator.perm_ids_roles d.actuators

/-- A plan has the identifiers of the two that it was made of. -/
theorem perm_ids_add (h : d.add other ctx = .ok sum) : sum.ids.Perm (d.ids ++ other.ids) := by
  have hroles := ((add_inserted h).1.perm).map Role.id
  rw [List.map_append] at hroles
  exact sum.perm_ids.symm.trans (hroles.trans (d.perm_ids.append other.perm_ids))

end Dataflow

end Obsplan
