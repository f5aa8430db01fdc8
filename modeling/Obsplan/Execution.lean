import Obsplan.Component.Basic
import Obsplan.Context
import Obsplan.Dataflow.Basic
import Obsplan.Edit
import Obsplan.Keyed
import Obsplan.Observable.Definition
import Obsplan.Twin.Basic

/-!
# Running dataflows

A plan is run from its leaves upwards: every actuator is computed after its children, its
observation is recorded in the twin, and so is the activity that made it. A run can be asked to
stop at any time, by a component or from outside; that is looked at before and after every actuator
and once more in the end, and nothing more is recorded once it was seen.
-/

namespace Obsplan

variable {α : Type} [Coordinate α]

/-- What a run carries along. -/
structure RunState (α : Type) [Coordinate α] where
  twin : Twin α := {}
  /-- Whether the run was asked to stop, as far as that is known. -/
  stopped : Bool := false
  /-- The observations made so far. -/
  results : Keyed Identifier (Observation α) := .empty
  /-- How often the run looked whether it was asked to stop. -/
  looks : Nat := 0

/-- What stays the same throughout a run. -/
structure RunSetting (α : Type) [Coordinate α] where
  registry : Registry α
  /-- Who answers for the activities. -/
  agent : String
  /-- The activity of the whole run. -/
  activity : UInt64
  /-- The observation the plan was made to produce. -/
  target : Option Identifier
  /-- Whether a request to stop has come from outside when the run looks for the `n`-th time. -/
  asked : Nat → Bool := fun _ => false

namespace RunState

/-- The state once the run has looked whether it was asked to stop. -/
def looked (asked : Nat → Bool) (s : RunState α) : RunState α :=
  { s with stopped := s.stopped || asked s.looks, looks := s.looks + 1 }

variable (asked : Nat → Bool) (s : RunState α)

@[simp] theorem twin_looked : (s.looked asked).twin = s.twin := rfl

@[simp] theorem results_looked : (s.looked asked).results = s.results := rfl

end RunState

/-- A part of a run. What was recorded before a failure stays. -/
abbrev Run (α : Type) [Coordinate α] := Edit (RunState α) ExecutionError

namespace Run

/-- Looks whether the run was asked to stop. -/
def look (setting : RunSetting α) : Run α Bool :=
  modifyGet fun s => ((s.looked setting.asked).stopped, s.looked setting.asked)

/-- Changes the twin. -/
def record (change : Twin α → Twin α) : Run α Unit :=
  modify fun s => { s with twin := change s.twin }

/-- Edits the twin. -/
def update {β : Type} (edit : Edit (Twin α) ExecutionError β) : Run α β :=
  edit.within RunState.twin fun twin s => { s with twin }

/-- Begins an activity. -/
def begin (kind : ActivityKind) (description agent : String) : Run α UInt64 := do
  let (id, twin) := (← get).twin.begin kind description agent
  modify fun s => { s with twin }
  return id

/-- Ends an activity. -/
def finish (activity : UInt64) (status : Status) : Run α Unit :=
  update (Twin.finishing activity status)

/-- Links two nodes. -/
def link (source : NodeKey) (r : Relationship) (target : NodeKey) : Run α Unit :=
  update (Twin.linking source r target)

/-- The name by which a computation knows a dependency. -/
def dependencyName (o : Observable) : String :=
  o.statedName.getD (String.ofList (o.concept.localName.toList.map Char.toLower))

/-- The names and values of the observations of children. -/
def dependencies (results : Keyed Identifier (Observation α)) (children : List (Actuator α)) :
    List (String × Option Value) :=
  children.map fun c =>
    (dependencyName c.job.observable, (results.get? c.job.id).bind Observation.value)

/-- The observation that takes over another one. -/
def takeOver (j : Job α) : Run α (Observation α) := do
  match j.reference with
  | none => throw (.missingReference j.id.val 0)
  | some referenced =>
    match (← get).results.get? referenced with
    | none => throw (.missingReference j.id.val referenced.val)
    | some source =>
      let o : Observation α := {
        id := j.id
        observable := j.observable
        scale := j.scale
        coverage := j.coverage
        value := source.value
        resolved := source.resolved }
      record fun t => t.record o
      return o

/-- Ends an activity as failed, and fails. -/
def abandon {β : Type} (activity : UInt64) (e : ExecutionError) : Run α β := do
  finish activity (.failed e.message)
  throw e

/-- Makes calls one after the other, each with the output of the one before it. -/
def compute (setting : RunSetting α) (j : Job α) (deps : List (String × Option Value))
    (activity : UInt64) : List Call → Option Value → Run α (Option Value)
  | [], value => return value
  | call :: calls, value => do
    match setting.registry.get? call.name with
    | none => abandon activity (.unknownCall call.name)
    | some component =>
      match component call ⟨j.observable, j.scale, deps, value⟩ with
      | .output value => compute setting j deps activity calls value
      | .failure message => abandon activity (.stepFailed j.id.val call.name message)
      | .stop value =>
        modify fun s => { s with stopped := true }
        compute setting j deps activity calls value
      | .breakdown => throw .brokeDown

/-- Computes the observation of an actuator. -/
def observe (setting : RunSetting α) (j : Job α) (children : List (Actuator α)) :
    Run α (Observation α) := do
  let activity ← begin .contextualization (j.kind.name ++ " " ++ j.targetName) setting.agent
  let deps := dependencies (← get).results children
  let value ← compute setting j deps activity j.computation none
  if ← look setting then
    finish activity .cancelled
    throw .cancelled
  let o : Observation α := {
    id := j.id
    observable := j.observable
    scale := j.scale
    coverage := j.coverage
    value
    resolved := decide (j.kind = .observe) && !j.coverage.isEmpty }
  record fun t => t.record o
  link (.activity activity) .generated (.observation j.id)
  children.forM fun c => link (.activity activity) .used (.observation c.job.id)
  finish activity .succeeded
  return o

/-- Makes the observation of an actuator whose children were run. -/
def perform (setting : RunSetting α) (j : Job α) (children : List (Actuator α)) : Run α Unit := do
  if ← look setting then throw .cancelled
  let o ← if j.kind = .reference then takeOver j else observe setting j children
  let key := NodeKey.observation j.id
  children.forM fun c => link (.observation c.job.id) .childOf key
  if setting.target = some j.id then link (.activity setting.activity) .generated key
  modify fun s => { s with results := s.results.insert j.id o }

/-- The steps that a stack of actuators takes: one for an actuator whose children are before it on
the stack, and two for every other one and all below it. -/
def stepsLeft : List (Actuator α × Bool) → Nat
  | [] => 0
  | (a, expanded) :: stack => (if expanded then 1 else 2 * a.walk.length) + stepsLeft stack

theorem stepsLeft_append (stack rest : List (Actuator α × Bool)) :
    stepsLeft (stack ++ rest) = stepsLeft stack + stepsLeft rest := by
  induction stack with
  | nil => simp [stepsLeft]
  | cons entry stack ih => simp [stepsLeft, ih, Nat.add_assoc]

theorem stepsLeft_map (as : List (Actuator α)) :
    stepsLeft (as.map fun a => (a, false)) = 2 * (Actuator.walkAll as).length := by
  induction as with
  | nil => rfl
  | cons a as ih => simp [stepsLeft, ih, Actuator.walkAll, Nat.mul_add]

/-- Runs the actuators on a stack. When an actuator comes up first, its children are put before it;
when it comes up again, they were run. -/
def walk (setting : RunSetting α) : List (Actuator α × Bool) → Run α Unit
  | [] => return
  | (a, false) :: stack =>
    walk setting (a.children.map (fun c => (c, false)) ++ (a, true) :: stack)
  | (a, true) :: stack => do
    perform setting a.job a.children
    walk setting stack
termination_by stack => stepsLeft stack
decreasing_by
  · cases a
    simp only [stepsLeft_append, stepsLeft_map, stepsLeft, Actuator.walk, Actuator.children,
      List.length_cons, Bool.false_eq_true, if_true, if_false]
    omega
  · simp [stepsLeft]

/-- Runs all actuators, until one fails or the run is stopped. -/
def all (setting : RunSetting α) (roots : List (Actuator α)) : Run α Unit := do
  roots.forM fun a => walk setting [(a, false)]
  if ← look setting then throw .cancelled

/-- Records the observation that a plan was made to produce, with what the plan covers. -/
def conclude (d : Dataflow α) (activity : UInt64) : Run α (Observation α) := do
  match d.target.or (d.actuators.head?.map fun a => a.job.id) with
  | none => throw .nothingToRun
  | some target =>
    match (← get).results.get? target with
    | none => throw (.missingReference target.val target.val)
    | some o =>
      let o := { o with coverage := d.coverage, resolved := o.resolved && !d.coverage.isEmpty }
      record fun t => t.record o
      finish activity .succeeded
      return o

/-- Ends the activity of a run that failed. When a component broke down there is no one left to end
it. -/
def giveUp (activity : UInt64) (e : ExecutionError) : Run α (Observation α) := do
  match e with
  | .brokeDown => throw e
  | .cancelled =>
    finish activity .cancelled
    throw e
  | e => abandon activity e

/-- What the activity of a run is described as. -/
def description (d : Dataflow α) (ctx : Context α) : String :=
  match d.observable with
  | some o => "resolve " ++ o.text ++ " in " ++ ctx.displayName
  | none => "run dataflow in " ++ ctx.displayName

/-- Runs a plan in a context. The agent named by the context answers for the run, or else the given
one. -/
def dataflow (registry : Registry α) (agent : String) (d : Dataflow α) (ctx : Context α)
    (asked : Nat → Bool) : Run α (Observation α) := do
  if d.isEmpty then throw .nothingToRun
  let agent := ctx.constraints.provenanceAgent?.getD agent
  let activity ← begin .resolution (description d ctx) agent
  modify fun s => { s with results := .empty }
  let setting : RunSetting α := { registry, agent, activity, target := d.target, asked }
  match ← (observeExcept (all setting d.actuators)) with
  | .ok _ => conclude d activity
  | .error e => giveUp activity e
where
  /-- A part of a run that gives its failure instead of failing. -/
  observeExcept (part : Run α Unit) : Run α (Except ExecutionError Unit) :=
    tryCatch (do part; return .ok ()) fun e => return .error e

end Run

/-- Runs a plan on a twin: the observation or why there is none, the twin afterwards, and whether
the run was asked to stop. That may be so before it begins, or when it looks for the `n`-th time. -/
def Dataflow.run (d : Dataflow α) (registry : Registry α) (agent : String) (ctx : Context α)
    (twin : Twin α) (stopped : Bool) (asked : Nat → Bool := fun _ => false) :
    Except ExecutionError (Observation α) × Twin α × Bool :=
  let (result, s) := (Run.dataflow registry agent d ctx asked).on { twin, stopped }
  (result, s.twin, s.stopped)

end Obsplan
