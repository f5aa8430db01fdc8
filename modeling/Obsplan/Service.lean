import Obsplan.Component.Basic
import Obsplan.Config
import Obsplan.Dataflow.Lowering
import Obsplan.Dataflow.Splice
import Obsplan.Dataflow.Text
import Obsplan.Execution
import Obsplan.Request
import Obsplan.Resolution.Search

/-!
# The planning service

A service turns requests into resolutions and resolutions into plans, keeps one plan per context,
and runs new parts of it. Nothing usable found, or partial coverage that the context does not
accept, gives the plan that does nothing, with notifications that tell why.
-/

namespace Obsplan

/-- The bounds that the settings put on a search. When no time is allowed, it is up at once; any
other time is up when the clock says so, and a search without a deadline never looks at it. -/
def Config.limits (c : Config) (clock : Nat → Bool := fun _ => false) : Limits Number where
  tolerance := c.tolerance
  minContribution := c.minContribution
  maxDepth := c.maxDepth
  isLate n :=
    match c.timeout with
    | none => false
    | some 0 => true
    | some _ => clock n

/-- The failure that a geometry constraint without a scale is. -/
def GeometryError.failure (e : GeometryError) : Failure := .resolution (.invalidRequest e.message)

/-- The registry whose components cannot stop a run. -/
def Registry.detached {α : Type} [Coordinate α] (r : Registry α) : Registry α :=
  ⟨⟨r.components.entries.map fun e => (e.1, fun call input =>
    match e.2 call input with
    | .stop value => .output value
    | reply => reply)⟩⟩

/-- A planning service. -/
structure Service where
  config : Config
  sources : Sources Number
  registry : Registry Number := .builtIn
  allocator : Allocator := {}
  /-- Whether the service tells which identifier comes next. -/
  tellsNext : Bool := true
  /-- The notifications of all plans made, if they are collected. -/
  sink : Option (List Notification) := none
  /-- The plan of each context. -/
  plans : Keyed String (Dataflow Number) := .empty
  twin : Twin Number := {}
  /-- Whether the time of a search is up when it looks at the clock for the `n`-th time. -/
  clock : Nat → Bool := fun _ => false
  /-- Whether a run was asked to stop, from outside, when it looks for the `n`-th time. -/
  asked : Nat → Bool := fun _ => false

namespace Service

/-- A service under settings that are in range. -/
def create (config : Config) (sources : Sources Number) : Except Failure Service :=
  (config.validate.mapError .config).map fun config => { config, sources }

def observable (s : Service) (definition : String) : Except Failure Observable :=
  (Request.observableOf s.sources definition).mapError .resolution

/-- What bounds the searches of a service. -/
def limits (s : Service) : Limits Number := s.config.limits s.clock

def resolve (s : Service) (o : Observable) (ctx : Context Number) :
    Except Failure (Resolution Number) := do
  let ctx ← ctx.located.mapError GeometryError.failure
  (Resolution.resolve s.sources s.limits o ctx).mapError .resolution

/-- Whether partial coverage is accepted in a context. -/
def acceptsPartial (s : Service) (ctx : Context Number) : Bool :=
  ctx.constraints.acceptPartial?.getD s.config.acceptPartial

/-- The plan that does nothing, for a resolution that is not used. -/
def rejected (r : Resolution Number) (reason : Option Notification) : Dataflow Number :=
  { Dataflow.empty r.scale with
    observable := some r.observable
    notifications := r.notifications ++ reason.toList }

/-- What is told about a resolution that found nothing, unless it tells enough itself. -/
def nothingFound? (r : Resolution Number) : Option Notification :=
  if r.notifications.any fun n => n.level.isWarning then none
  else some ((Notification.warning .unresolvedReference "nothing could be resolved").about
    r.observable.urn)

/-- What is told about partial coverage that is not accepted. -/
def partialRejected (r : Resolution Number) : Notification :=
  (Notification.warning .unresolvedReference ("partial resolution (" ++
    Coordinate.percent r.coverage.fraction ++
    "% covered) rejected; allow it with the accept-partial constraint")).about r.observable.urn

/-- The plan for a resolution in a context, and the allocator afterwards. -/
def planFor (s : Service) (r : Resolution Number) (ctx : Context Number) :
    Except DataflowError (Dataflow Number) × Allocator :=
  if r.isEmpty then (.ok (rejected r (nothingFound? r)), s.allocator)
  else if !r.isComplete && !s.acceptsPartial ctx then
    (.ok (rejected r (some (partialRejected r))), s.allocator)
  else r.lower (some s.config.maxEncodeDepth) s.allocator

/-- Makes a plan for an observable in a context. -/
def plan (s : Service) (o : Observable) (ctx : Context Number) :
    Except Failure (Dataflow Number) × Service :=
  match s.resolve o ctx with
  | .error e => (.error e, s)
  | .ok r =>
    match s.planFor r ctx with
    | (.error e, allocator) => (.error (.dataflow e), { s with allocator })
    | (.ok d, allocator) =>
      let d := { d with notifications := Notification.dropRepeats d.notifications }
      (.ok d, { s with allocator, sink := s.sink.map (· ++ d.notifications) })

/-- The text of a plan in a context. -/
def encodePlan (s : Service) (d : Dataflow Number) (ctx : Context Number) : String :=
  d.encode s.config.maxEncodeDepth ctx

/-- Answers a request in a context, whose plan stays as it is. -/
def handle (s : Service) (r : Request) (ctx : Context Number) : Except Failure Response × Service :=
  match r.observable s.sources with
  | .error e => (.error (.resolution e), s)
  | .ok o =>
    let ctx := ctx.constrained r.constraints
    let ctx := match r.scale with
      | some scale => ctx.atScale scale
      | none => ctx
    match s.plan o ctx with
    | (.error e, s) => (.error e, s)
    | (.ok d, s) =>
      (.ok {
        dataflow := d
        encoded := s.encodePlan d ctx
        complete := !d.isEmpty && d.coverage.isComplete s.config.tolerance
        coverage := d.coverage.fraction
        notifications := d.notifications }, s)

/-- The plan of a context, which does nothing when the context has none yet. -/
def planOf (s : Service) (ctx : Context Number) : Dataflow Number :=
  (s.plans.get? ctx.id).getD (.empty ctx.scale)

/-- Attaches a plan to that of its context. -/
def attach (s : Service) (d : Dataflow Number) (ctx : Context Number) :
    Except Failure Unit × Service :=
  let s := { s with plans := s.plans.insert ctx.id (s.planOf ctx) }
  let (result, extended) := (Dataflow.adding d ctx).on (s.planOf ctx)
  (result.mapError .dataflow, { s with plans := s.plans.insert ctx.id extended })

/-- Runs a plan in a context on the twin of the service. -/
def run (s : Service) (registry : Registry Number) (d : Dataflow Number) (ctx : Context Number)
    (stopped : Bool) : Except ExecutionError (Observation Number) × Service :=
  let (result, twin, _) := d.run registry s.config.agent ctx s.twin stopped s.asked
  (result, { s with twin })

/-- Makes a plan for an observable, attaches it to that of its context, and runs it. The outcome of
the run is told apart from a failure before it. A run has a thread of its own, which can always be
started here: the failure of a system that has no thread left, which comes when the plan is already
attached, is left out. -/
def observe (s : Service) (o : Observable) (ctx : Context Number) :
    Except Failure (Except ExecutionError (Observation Number)) × Service :=
  match s.plan o ctx with
  | (.error e, s) => (.error e, s)
  | (.ok d, s) =>
    if d.isEmpty then (.ok (.error .nothingToRun), s)
    else
      match s.attach d ctx with
      | (.error e, s) => (.error e, s)
      | (.ok _, s) =>
        let (result, s) := s.run s.registry.detached d ctx false
        (.ok result, s)

def encode (s : Service) (ctx : Context Number) : String := s.encodePlan (s.planOf ctx) ctx

/-- The number of actuators in all plans. -/
def actuators (s : Service) : Nat := s.plans.values.foldl (fun n d => n + d.size) 0

/-- The number of the identifier that comes next, if the service tells it. -/
def next? (s : Service) : Option Nat := if s.tellsNext then some s.allocator.peek else none

/-- The state of the service in words. -/
def summary (s : Service) : String :=
  "twinflow resolver\n" ++
  s!"  contexts: {s.plans.size}\n" ++
  s!"  actuators: {s.actuators}\n" ++
  s!"  components: {s.registry.names.length}\n" ++
  "  next actuator id: " ++ (match s.next? with | some n => toString n | none => "-")

end Service

end Obsplan
