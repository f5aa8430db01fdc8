import Obsplan.Proofs.Execution.Steps
import Obsplan.Proofs.Twin.Sound

/-!
# Invariants of runs

A run changes a twin by recording, by beginning and ending activities and by linking only, also
where it fails or is stopped. So what each of these keeps is kept by every run. Main statement: a
run leaves a sound twin sound.
-/

namespace Obsplan

variable {α : Type} [Coordinate α]

/-- All ways to change a twin keep a property. -/
structure Twin.Stable (P : Twin α → Prop) : Prop where
  record : ∀ {t} (o : Observation α), P t → P (t.record o)
  begin : ∀ {t} (kind : ActivityKind) (description agent : String), P t →
    P (t.begin kind description agent).2
  finish : ∀ {t t' id status}, P t → t.finish id status = .ok t' → P t'
  link : ∀ {t t' source r target}, P t → t.link source r target = .ok t' → P t'

theorem Twin.stable_sound : Stable (Sound : Twin α → Prop) where
  record _ h := h.put _
  begin kind description agent h := h.begin kind description agent
  finish h hfinish := h.finish hfinish
  link h hlink := h.link hlink

namespace Run

open Edit

variable {β γ : Type}

/-- A part of a run keeps a property of the twin. -/
def Keeps (P : Twin α → Prop) (x : Run α β) : Prop := ∀ s, P s.twin → P (on x s).2.twin

variable {P : Twin α → Prop}

namespace Keeps

variable {x : Run α β} {f : β → Run α γ}

theorem pure (b : β) : Keeps P (Pure.pure b : Run α β) := fun _ h => h

theorem throw (e : ExecutionError) : Keeps P (throw e : Run α β) := fun _ h => h

theorem throw_bind {e : ExecutionError} : Keeps P (MonadExcept.throw e >>= f) := fun _ h => h

theorem get : Keeps P (get : Run α (RunState α)) := fun _ h => h

theorem look (setting : RunSetting α) : Keeps P (look setting) := fun _ h => h

theorem modify {f : RunState α → RunState α} (hf : ∀ s, P s.twin → P (f s).twin) :
    Keeps P (modify f : Run α PUnit) := fun s h => hf s h

theorem bind (hx : Keeps P x) (hf : ∀ b, Keeps P (f b)) : Keeps P (x >>= f) := by
  intro s hs
  have hfirst := hx s hs
  rw [on_bind]
  cases hrun : on x s with
  | mk result s' =>
    rw [hrun] at hfirst
    cases result with
    | error e => exact hfirst
    | ok b => exact hf b s' hfirst

theorem tryCatch (hx : Keeps P x) {f : ExecutionError → Run α β} (hf : ∀ e, Keeps P (f e)) :
    Keeps P (tryCatch x f) := by
  intro s hs
  have hfirst := hx s hs
  rw [on_tryCatch]
  cases hrun : on x s with
  | mk result s' =>
    rw [hrun] at hfirst
    cases result with
    | ok b => exact hfirst
    | error e => exact hf e s' hfirst

theorem forM {ι : Type} {f : ι → Run α PUnit} (hf : ∀ i, Keeps P (f i)) (items : List ι) :
    Keeps P (items.forM f) := by
  induction items with
  | nil => exact pure _
  | cons i items ih => exact (hf i).bind fun _ => ih

theorem update {edit : Edit (Twin α) ExecutionError PUnit} (hedit : Edit.Atomic edit)
    (h : ∀ t t', P t → edit.made t = .ok t' → P t') : Keeps P (update edit) := by
  intro s hs
  cases hmade : edit.made s.twin with
  | error e =>
    rw [on_update_error hedit hmade]
    exact hs
  | ok t =>
    rw [on_update hmade]
    exact h _ _ hs hmade

variable (hP : Twin.Stable P)
include hP

theorem record (o : Observation α) : Keeps P (record fun t => t.record o) := fun _ hs =>
  hP.record o hs

theorem begin (kind : ActivityKind) (description agent : String) :
    Keeps P (begin kind description agent : Run α UInt64) := fun _ hs =>
  hP.begin kind description agent hs

theorem finish (activity : UInt64) (status : Status) :
    Keeps P (finish activity status : Run α Unit) :=
  update (Twin.atomic_finishing _ _) fun _ _ hs h => hP.finish hs h

theorem link (source : NodeKey) (r : Relationship) (target : NodeKey) :
    Keeps P (link source r target : Run α Unit) :=
  update (Twin.atomic_linking _ _ _) fun _ _ hs h => hP.link hs h

theorem abandon (activity : UInt64) (e : ExecutionError) :
    Keeps P (abandon activity e : Run α β) :=
  (finish hP _ _).bind fun _ => throw e

end Keeps

variable {setting : RunSetting α} {j : Job α} (hP : Twin.Stable P)
include hP

theorem keeps_takeOver (j : Job α) : Keeps P (takeOver j) := by
  unfold takeOver
  split
  · exact .throw _
  · refine .bind .get fun s => ?_
    split
    · exact .throw _
    · exact (Keeps.record hP _).bind fun _ => .pure _

theorem keeps_compute (deps : List (String × Option Value)) (activity : UInt64) (calls : List Call)
    (value : Option Value) : Keeps P (compute setting j deps activity calls value) := by
  induction calls generalizing value with
  | nil => exact .pure _
  | cons call calls ih =>
    unfold compute
    split
    · exact .abandon hP _ _
    · split
      · exact ih _
      · exact .abandon hP _ _
      · exact .bind (.modify fun _ hs => hs) fun _ => ih _
      · exact .throw _

theorem keeps_observe (j : Job α) (children : List (Actuator α)) :
    Keeps P (observe setting j children) := by
  unfold observe
  refine .bind (.begin hP _ _ _) fun activity => .bind .get fun s =>
    .bind (keeps_compute hP _ _ _ _) fun value => .bind (.look _) fun stopped => ?_
  dsimp only
  split
  · exact (Keeps.finish hP _ _).bind fun _ => .throw_bind
  · exact (Keeps.record hP _).bind fun _ => (Keeps.link hP _ _ _).bind fun _ =>
      (Keeps.forM (fun _ => .link hP _ _ _) children).bind fun _ =>
        (Keeps.finish hP _ _).bind fun _ => .pure _

theorem keeps_accept (j : Job α) (children : List (Actuator α)) (o : Observation α) :
    Keeps P (accept setting j children o) := by
  unfold accept
  refine (Keeps.forM (fun _ => .link hP _ _ _) children).bind fun _ => ?_
  dsimp only
  split
  · exact (Keeps.link hP _ _ _).bind fun _ => .modify fun _ hs => hs
  · exact .modify fun _ hs => hs

theorem keeps_perform (j : Job α) (children : List (Actuator α)) :
    Keeps P (perform setting j children) := by
  rw [perform_eq]
  refine .bind (.look _) fun stopped => ?_
  split
  · exact .throw _
  · split
    · exact (keeps_takeOver hP j).bind (keeps_accept hP j children)
    · exact (keeps_observe hP j children).bind (keeps_accept hP j children)

theorem keeps_walk (stack : List (Actuator α × Bool)) : Keeps P (walk setting stack) := by
  induction stack using walk.induct with
  | case1 =>
    rw [walk]
    exact .pure _
  | case2 a stack ih =>
    rw [walk]
    exact ih
  | case3 a stack ih =>
    rw [walk]
    exact (keeps_perform hP _ _).bind fun _ => ih

theorem keeps_all (roots : List (Actuator α)) : Keeps P (all setting roots) := by
  unfold all
  refine (Keeps.forM (fun a => keeps_walk hP _) roots).bind fun _ =>
    .bind (.look _) fun stopped => ?_
  split
  · exact .throw _
  · exact .pure _

theorem keeps_conclude (d : Dataflow α) (activity : UInt64) : Keeps P (conclude d activity) := by
  unfold conclude
  split
  · exact .throw _
  · refine .bind .get fun s => ?_
    split
    · exact .throw _
    · exact (Keeps.record hP _).bind fun _ => (Keeps.finish hP _ _).bind fun _ => .pure _

theorem keeps_giveUp (activity : UInt64) (e : ExecutionError) :
    Keeps P (giveUp activity e : Run α (Observation α)) := by
  unfold giveUp
  split
  · exact .throw _
  · exact (Keeps.finish hP _ _).bind fun _ => .throw _
  · exact .abandon hP _ _

theorem keeps_dataflow (registry : Registry α) (agent : String) (d : Dataflow α) (ctx : Context α)
    (asked : Nat → Bool) : Keeps P (dataflow registry agent d ctx asked) := by
  unfold dataflow
  dsimp only
  split
  · exact .throw_bind
  · -- a failure is given on as a result here, so that the activity is ended
    refine (Keeps.begin hP _ _ _).bind fun activity => .bind (.modify fun _ hs => hs) fun _ =>
      .bind (.tryCatch ((keeps_all hP _).bind fun _ => .pure _) fun e => .pure _) fun result => ?_
    cases result with
    | ok _ => exact keeps_conclude hP d activity
    | error e => exact keeps_giveUp hP activity e

end Run

namespace Dataflow

variable {twin : Twin α} (d : Dataflow α) (registry : Registry α) (agent : String) (ctx : Context α)
  (stopped : Bool) (asked : Nat → Bool)

/-- A run keeps what all ways to change a twin keep, however it ends. -/
theorem run_keeps {P : Twin α → Prop} (hP : Twin.Stable P) (h : P twin) :
    P (d.run registry agent ctx twin stopped asked).2.1 :=
  Run.keeps_dataflow hP registry agent d ctx asked { twin, stopped } h

theorem sound_run (h : twin.Sound) : (d.run registry agent ctx twin stopped asked).2.1.Sound :=
  d.run_keeps registry agent ctx stopped asked Twin.stable_sound h

end Dataflow

end Obsplan
