import Mathlib.Data.List.Forall2
import Obsplan.Dataflow.Splice
import Obsplan.Proofs.Dataflow.Unfolding

/-!
# Ways down a plan

A way leads from the roots of a plan down to one of its actuators. It tells what stands beside it on
each level, so the plan is the way filled with what is below the last actuator. Main statement: a
plan is attached below the first actuator that has the identifier looked for, and on the way to it
nothing but coverages changes.
-/

namespace Obsplan

variable {α : Type} [Coordinate α]

/-- The job but for what it covers. -/
def Job.uncovered (j : Job α) : Job α := { j with coverage := .empty j.scale }

theorem Job.id_uncovered (j : Job α) : j.uncovered.id = j.id := rfl

theorem Actuator.idsOf_cons (a : Actuator α) (as : List (Actuator α)) :
    idsOf (a :: as) = idsOf [a] ++ idsOf as := idsOf_append [a] as

/-- An actuator on a way, and those before and after it. -/
structure Frame (α : Type) [Coordinate α] where
  before : List (Actuator α)
  job : Job α
  after : List (Actuator α)

/-- A way down, from the outermost actuator to the innermost one. -/
abbrev Way (α : Type) [Coordinate α] := List (Frame α)

namespace Way

open Actuator

variable {way way' : Way α} {below roots : List (Actuator α)} {hook : Identifier}

/-- The actuators around a way whose last actuator has some children. -/
def fill : Way α → List (Actuator α) → List (Actuator α)
  | [], below => below
  | f :: way, below => f.before ++ .mk f.job (fill way below) :: f.after

/-- A way that ends at the first actuator with an identifier. -/
inductive LeadsTo (hook : Identifier) : Way α → Prop where
  | last {f : Frame α} : hook ∉ idsOf f.before → f.job.id = hook → LeadsTo hook [f]
  | step {f : Frame α} {way : Way α} : hook ∉ idsOf f.before → f.job.id ≠ hook →
    LeadsTo hook way → LeadsTo hook (f :: way)

/-- A way that ends where a context attaches plans: among the roots, or at its observation. -/
def EndsAt : Option Identifier → Way α → Prop
  | none, way => way = []
  | some hook, way => LeadsTo hook way

/-- Two ways differ in coverages only. -/
def Alike (way way' : Way α) : Prop :=
  List.Forall₂ (fun f f' => f'.before = f.before ∧ f'.job.uncovered = f.job.uncovered ∧
    f'.after = f.after) way way'

/-- What the last actuator before a way gains: what is next on the way covers, or what is attached
where the way ends. -/
def next (roots : List (Actuator α)) : Way α → List (Coverage α)
  | [] => roots.map fun a => a.job.coverage
  | f :: _ => [f.job.coverage]

/-- A way with each coverage widened by what is next, from the end on. -/
def widened (roots : List (Actuator α)) : Way α → Way α
  | [] => []
  | f :: way =>
    let way := widened roots way
    { f with job := { f.job with
        coverage := (next roots way).foldl Coverage.merge f.job.coverage } } :: way

theorem alike_widened (roots : List (Actuator α)) (way : Way α) :
    Alike way (widened roots way) := by
  induction way with
  | nil => exact .nil
  | cons f way ih => exact .cons ⟨rfl, rfl, rfl⟩ ih

/-! ## Identifiers -/

theorem idsOf_fill_cons (f : Frame α) (way : Way α) (below : List (Actuator α)) :
    idsOf (fill (f :: way) below) =
      idsOf f.before ++ f.job.id :: (idsOf (fill way below) ++ idsOf f.after) := by
  rw [fill, idsOf_append, idsOf_cons, idsOf_mk, List.cons_append]

theorem LeadsTo.mem_idsOf (h : LeadsTo hook way) (below : List (Actuator α)) :
    hook ∈ idsOf (fill way below) := by
  induction h with
  | last _ hid => simp [idsOf_fill_cons, hid]
  | step _ _ _ ih => simp [idsOf_fill_cons, ih]

/-- Where identifiers are distinct, every way leads to the one of its last actuator. -/
theorem leadsTo_of_nodup {last : Frame α} (h : (idsOf (fill (way ++ [last]) below)).Nodup) :
    LeadsTo last.job.id (way ++ [last]) := by
  induction way with
  | nil =>
    rw [List.nil_append, idsOf_fill_cons, List.nodup_append] at h
    exact .last (fun hmem => h.2.2 _ hmem _ List.mem_cons_self rfl) rfl
  | cons f way ih =>
    rw [List.cons_append, idsOf_fill_cons, List.nodup_append, List.nodup_cons,
      List.nodup_append] at h
    obtain ⟨-, ⟨hown, hdeep, -⟩, hapart⟩ := h
    have hleads := ih hdeep
    have hmem := hleads.mem_idsOf below
    refine .step (fun hbefore => hapart _ hbefore _ ?_ rfl) (fun hid => hown ?_) hleads
    · exact List.mem_cons_of_mem _ (List.mem_append_left _ hmem)
    · rw [hid]
      exact List.mem_append_left _ hmem

/-- There is a way to everything that is there. -/
theorem exists_leadsTo : (as : List (Actuator α)) → hook ∈ idsOf as →
    ∃ way below, LeadsTo hook way ∧ as = fill way below
  | [], h => absurd h List.not_mem_nil
  | .mk j children :: as, h => by
    by_cases hj : j.id = hook
    · exact ⟨[⟨[], j, as⟩], children, .last List.not_mem_nil hj, rfl⟩
    · by_cases hdeep : hook ∈ idsOf children
      · obtain ⟨way, below, hleads, rfl⟩ := exists_leadsTo children hdeep
        exact ⟨⟨[], j, as⟩ :: way, below, .step List.not_mem_nil hj hleads, rfl⟩
      · have hfirst : hook ∉ idsOf [.mk j children] := by
          rw [idsOf_mk, List.mem_cons, not_or]
          exact ⟨Ne.symm hj, hdeep⟩
        rw [idsOf_cons, List.mem_append] at h
        obtain ⟨way, below, hleads, rfl⟩ := exists_leadsTo as (h.resolve_left hfirst)
        -- the way starts further back, so there is one more actuator before it
        have hbefore : ∀ {before : List (Actuator α)}, hook ∉ idsOf before →
            hook ∉ idsOf (.mk j children :: before) := by
          intro before hnot
          rw [idsOf_cons, List.mem_append, not_or]
          exact ⟨hfirst, hnot⟩
        cases hleads with
        | @last f hnot hid =>
          exact ⟨[{ f with before := .mk j children :: f.before }], below,
            .last (hbefore hnot) hid, rfl⟩
        | @step f way hnot hne hleads =>
          exact ⟨{ f with before := .mk j children :: f.before } :: way, below,
            .step (hbefore hnot) hne hleads, rfl⟩

/-! ## Paths -/

/-- The places of the actuators on a way among their siblings. -/
def path (way : Way α) : List Nat := way.map fun f => f.before.length

theorem exists_placed (p : List Nat) (before : List (Actuator α)) (a : Actuator α)
    (after : List (Actuator α)) :
    ∃ rest, placed p (before ++ a :: after) =
      placed p before ++ (p ++ [before.length], a) :: rest := by
  refine ⟨(after.zipIdx (before.length + 1)).map fun x => (p ++ [x.2], x.1), ?_⟩
  simp [placed, List.zipIdx_append, List.zipIdx_cons]

/-- Nothing is found among actuators without the identifier, so the search goes on below them on the
stack. -/
theorem pathOn?_append (entries stack : List (List Nat × Actuator α))
    (h : hook ∉ idsOf (entries.map Prod.snd)) :
    pathOn? hook (entries ++ stack) = pathOn? hook stack := by
  induction entries using pathOn?.induct hook with
  | case1 => rfl
  | case2 p a entries hid =>
    cases a
    rw [List.map_cons, idsOf_cons, idsOf_mk] at h
    exact absurd (by simp [← hid, job]) h
  | case3 p a entries hid ih =>
    rw [List.cons_append, pathOn?, if_neg hid, ← List.append_assoc]
    refine ih fun hmem => h ?_
    cases a
    rw [List.map_append, map_snd_placed, idsOf_append] at hmem
    rw [List.map_cons, idsOf_cons, idsOf_mk, List.cons_append]
    exact List.mem_cons_of_mem _ hmem

/-- The search finds the path of the way that leads to the identifier. -/
theorem LeadsTo.pathOn? (h : LeadsTo hook way) (p : List Nat) (below : List (Actuator α))
    (stack : List (List Nat × Actuator α)) :
    pathOn? hook (placed p (fill way below) ++ stack) = some (p ++ way.path) := by
  induction h generalizing p stack with
  | @last f hbefore hid =>
    obtain ⟨rest, hplaced⟩ := exists_placed p f.before (.mk f.job (fill [] below)) f.after
    rw [fill, hplaced, List.append_assoc, pathOn?_append _ _ (by rwa [map_snd_placed]),
      List.cons_append, Actuator.pathOn?]
    exact if_pos hid
  | @step f way hbefore hne _ ih =>
    obtain ⟨rest, hplaced⟩ := exists_placed p f.before (.mk f.job (fill way below)) f.after
    rw [fill, hplaced, List.append_assoc, pathOn?_append _ _ (by rwa [map_snd_placed]),
      List.cons_append, Actuator.pathOn?]
    refine (if_neg hne).trans ?_
    rw [Actuator.children, ih, List.append_assoc]
    rfl

theorem LeadsTo.exists_cons (h : LeadsTo hook way) : ∃ f rest, way = f :: rest := by
  cases h with
  | last => exact ⟨_, _, rfl⟩
  | step => exact ⟨_, _, rfl⟩

/-! ## Attaching at the end of a way -/

theorem getElem?_fill (f : Frame α) (way : Way α) (below : List (Actuator α)) :
    (fill (f :: way) below)[f.before.length]? = some (.mk f.job (fill way below)) := by
  simp [fill]

/-- What is attached at the end of a path widens the way there. -/
theorem attach_fill (way : Way α) (j : Job α) (below roots : List (Actuator α)) :
    attach roots way.path (.mk j (fill way below)) =
      .mk { j with coverage := (next roots (widened roots way)).foldl Coverage.merge j.coverage }
        (fill (widened roots way) (below ++ roots)) := by
  induction way generalizing j with
  | nil =>
    rw [path, List.map_nil, attach, widened, next, List.foldl_map]
    rfl
  | cons f way ih =>
    rw [path, List.map_cons, attach, getElem?_fill, ← path]
    simp only [ih]
    simp [fill, widened, next, job]

theorem modify_fill (f : Frame α) (way : Way α) (below roots : List (Actuator α)) :
    (fill (f :: way) below).modify f.before.length (attach roots way.path) =
      fill (widened roots (f :: way)) (below ++ roots) := by
  rw [List.modify_eq_set_getElem?, getElem?_fill]
  simp [attach_fill, widened, fill]

end Way

namespace Dataflow

open Way

variable {d : Dataflow α} {ctx : Context α} {way : Way α} {below roots : List (Actuator α)}

/-- There is a way to where a context attaches plans, unless its observation is missing. -/
theorem exists_endsAt (h : ∀ hook, ctx.current = some hook → hook ∈ d.ids) :
    ∃ way below, EndsAt ctx.current way ∧ d.actuators = fill way below := by
  cases hcurrent : ctx.current with
  | none => exact ⟨[], d.actuators, rfl, rfl⟩
  | some hook => exact exists_leadsTo d.actuators (h hook hcurrent)

/-- Attaching widens the way. -/
theorem on_attaching_fill (hway : EndsAt ctx.current way) (hd : d.actuators = fill way below)
    (roots : List (Actuator α)) :
    (attaching roots ctx).on d =
      (.ok ⟨⟩, { d with actuators := fill (widened roots way) (below ++ roots) }) := by
  unfold attaching
  cases hcurrent : ctx.current with
  | none =>
    rw [hcurrent] at hway
    cases hway
    rw [Edit.on_modify, hd]
    rfl
  | some hook =>
    rw [hcurrent] at hway
    have hpath := hway.pathOn? [] below []
    rw [List.append_nil, List.nil_append] at hpath
    rw [Edit.on_bind_ok (Edit.on_get d), hd, hpath]
    obtain ⟨f, way, rfl⟩ := hway.exists_cons
    have hmodify := modify_fill f way below roots
    rw [← hd] at hmodify
    rw [path, List.map_cons, ← path]
    exact congrArg (fun as => (Except.ok PUnit.unit, { d with actuators := as })) hmodify

theorem on_attaching_error {hook : Identifier} (hcurrent : ctx.current = some hook)
    (h : hook ∉ d.ids) (roots : List (Actuator α)) :
    (attaching roots ctx).on d = (.error (.hookNotFound hook.val ctx.id), d) := by
  have hnone : Actuator.pathOn? hook (Actuator.placed [] d.actuators) = none := by
    have hmissing := pathOn?_append (Actuator.placed [] d.actuators) []
      (by rw [Actuator.map_snd_placed]; exact h)
    rw [List.append_nil] at hmissing
    rw [hmissing, Actuator.pathOn?]
  rw [attaching, hcurrent]
  dsimp only
  rw [Edit.on_bind_ok (Edit.on_get d), hnone]
  rfl

end Dataflow

end Obsplan
