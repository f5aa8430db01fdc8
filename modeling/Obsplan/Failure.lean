import Obsplan.Scale.Basic
import Obsplan.CatalogError
import Obsplan.Notification

/-!
# Failures

Why a request, a plan or a run fails. Every failure has a message, a diagnostic name, a kind of
trouble, and mostly a piece of advice.
-/

namespace Obsplan

/-- Why a request cannot be resolved. -/
inductive ResolutionError where
  /-- A collaborator failed while an observable was looked up. -/
  | infrastructure (observable : String) (source : CatalogError)
  /-- The request makes no sense. -/
  | invalidRequest (message : String)
  deriving DecidableEq, Repr

/-- Why a dataflow cannot be made. -/
inductive DataflowError where
  | hookNotFound (id : Nat) (context : String)
  | identifiersExhausted
  /-- The plan is nested too deeply. -/
  | depthExceeded (maxDepth : Nat)
  deriving DecidableEq, Repr

/-- Why a run fails. -/
inductive ExecutionError where
  | stepFailed (id : Nat) (call message : String)
  /-- No component answers to a call. -/
  | unknownCall (call : String)
  /-- A reference points at something not computed yet. -/
  | missingReference (id referenced : Nat)
  | cancelled
  | nothingToRun
  | brokeDown
  /-- The twin refused an update. -/
  | twin (message : String)
  deriving DecidableEq, Repr

/-- Why settings cannot be used. -/
inductive ConfigError where
  /-- The file cannot be read. -/
  | unreadable (path cause : String)
  | unparsable (path message : String)
  | unwritable (path cause : String)
  | invalid (message : String)
  deriving DecidableEq, Repr

/-- Any failure. -/
inductive Failure where
  | scale (error : ScaleError Number)
  | catalog (error : CatalogError)
  | resolution (error : ResolutionError)
  | dataflow (error : DataflowError)
  | execution (error : ExecutionError)
  | config (error : ConfigError)

/-! ## Messages -/

def ResolutionError.message : ResolutionError → String
  | .infrastructure observable source =>
    "resolution of " ++ observable ++ " failed: " ++ source.message
  | .invalidRequest message => "invalid resolution request: " ++ message

def DataflowError.message : DataflowError → String
  | .hookNotFound id context => s!"hook point {id} not found in the dataflow of context " ++ context
  | .identifiersExhausted => "actuator id allocator exhausted"
  | .depthExceeded maxDepth => s!"dataflow nesting exceeds the maximum of {maxDepth}"

def ExecutionError.message : ExecutionError → String
  | .stepFailed id call message => s!"actuator {id} failed in " ++ call ++ ": " ++ message
  | .unknownCall call => "no component is registered for service call " ++ call
  | .missingReference id referenced =>
    s!"actuator {id} references {referenced}, which has not been computed"
  | .cancelled => "execution was cancelled"
  | .nothingToRun => "the dataflow is empty and has no target observation"
  | .brokeDown => "execution worker panicked"
  | .twin message => "knowledge graph error: " ++ message

def ConfigError.message : ConfigError → String
  | .unreadable path _ => "failed to read resolver config: " ++ path
  | .unparsable path message => "failed to parse resolver config " ++ path ++ ": " ++ message
  | .unwritable path _ => "failed to write resolver config: " ++ path
  | .invalid message => "invalid configuration: " ++ message

/-! ## Kinds of trouble -/

def CatalogError.code : CatalogError → Code
  | .notFound _ => .unresolvedReference
  | .mismatchedVersion _ _ _ => .mismatchedVersion
  | .unreachable _ _ => .resourceValidation
  | .malformedModel _ _ => .resourceValidation
  | .malformedVersion _ => .resourceValidation
  | .malformedDefinition _ _ => .resourceValidation
  | .unreadableFile _ _ => .resourceValidation
  | .unparsable _ _ => .resourceValidation

namespace Failure

def message : Failure → String
  | .scale e => e.message
  | .catalog e => e.message
  | .resolution e => e.message
  | .dataflow e => e.message
  | .execution e => e.message
  | .config e => e.message

def code : Failure → Code
  | .scale _ => .resourceValidation
  | .catalog e => e.code
  | .resolution (.infrastructure _ source) => source.code
  | .resolution (.invalidRequest _) => .resourceValidation
  | .dataflow _ => .internalError
  | .execution _ => .internalError
  | .config _ => .internalError

/-- The area and the name of a failure. -/
def place : Failure → String × String
  | .scale (.invalidExtent _ _ _) => ("scale", "invalid_extent")
  | .scale (.duplicateDimension _) => ("scale", "duplicate_dimension")
  | .scale (.invalidSplit _ _) => ("scale", "invalid_split")
  | .catalog (.unreachable _ _) => ("catalog", "unreachable")
  | .catalog (.malformedModel _ _) => ("catalog", "malformed_model")
  | .catalog (.malformedVersion _) => ("catalog", "malformed_version")
  | .catalog (.mismatchedVersion _ _ _) => ("catalog", "mismatched_version")
  | .catalog (.notFound _) => ("catalog", "not_found")
  | .catalog (.malformedDefinition _ _) => ("catalog", "malformed_definition")
  | .catalog (.unreadableFile _ _) => ("catalog", "io")
  | .catalog (.unparsable _ _) => ("catalog", "parse")
  | .resolution (.infrastructure _ _) => ("resolution", "infrastructure")
  | .resolution (.invalidRequest _) => ("resolution", "invalid_request")
  | .dataflow (.hookNotFound _ _) => ("dataflow", "hook_not_found")
  | .dataflow .identifiersExhausted => ("dataflow", "ids_exhausted")
  | .dataflow (.depthExceeded _) => ("dataflow", "depth_exceeded")
  | .execution (.stepFailed _ _ _) => ("execution", "step_failed")
  | .execution (.unknownCall _) => ("execution", "unknown_call")
  | .execution (.missingReference _ _) => ("execution", "missing_reference")
  | .execution .cancelled => ("execution", "cancelled")
  | .execution .nothingToRun => ("execution", "nothing_to_run")
  | .execution .brokeDown => ("execution", "worker_panicked")
  | .execution (.twin _) => ("execution", "twin")
  | .config (.unreadable _ _) => ("config", "read")
  | .config (.unparsable _ _) => ("config", "parse")
  | .config (.unwritable _ _) => ("config", "write")
  | .config (.invalid _) => ("config", "invalid")

/-- The diagnostic name of a failure. -/
def diagnostic (f : Failure) : String := "twinflow::" ++ f.place.1 ++ "::" ++ f.place.2

def help? : Failure → Option String
  | .scale (.invalidExtent _ _ _) =>
    some ("Extents are half-open intervals and must have finite bounds with start < end. " ++
      "Zero-width extents cannot be covered.")
  | .scale (.duplicateDimension _) => some "A scale holds at most one extent per dimension."
  | .scale (.invalidSplit _ _) =>
    some "Split a dimension the scale actually has, into at least one part."
  | .catalog (.unreachable _ _) =>
    some ("The resources or reasoner collaborator could not be reached. " ++
      "Resolution cannot continue without it; retry once it is available.")
  | .catalog (.malformedModel _ _) =>
    some "Every model needs a non-empty URN and at least one observable it produces."
  | .catalog (.malformedVersion _) =>
    some "Versions are written as MAJOR.MINOR.PATCH, e.g. 1.0.0."
  | .catalog (.mismatchedVersion _ _ _) =>
    some "Remove the version pin from the resolution constraints or publish the pinned version."
  | .catalog (.notFound _) => some "Check the URN, or load the catalog that provides it."
  | .catalog (.malformedDefinition _ _) =>
    some "Observables are written as `[each] [optional] namespace:Concept`."
  | .catalog (.unreadableFile _ _) => some "Ensure the catalog file exists and is readable."
  | .catalog (.unparsable _ _) => some "The catalog is a JSON array of model definitions."
  | .resolution (.infrastructure _ _) =>
    some ("A collaborator failed while looking up candidate models. " ++
      "The whole request is aborted; partial plans are not produced in this case.")
  | .resolution (.invalidRequest _) =>
    some "A request needs an observable definition and a scope with a scale."
  | .dataflow (.hookNotFound _ _) =>
    some ("The scope's current observation must be an actuator of the dataflow being extended. " ++
      "This is a caller bug: attach at the root or pass the right scope.")
  | .dataflow .identifiersExhausted =>
    some "The actuator id space (2^64 - 1 ids) is exhausted; check for allocation loops."
  | .dataflow (.depthExceeded _) =>
    some "Raise `max_encode_depth` in the resolver configuration if deeper plans are expected."
  | .execution (.stepFailed _ _ _) =>
    some "A computation step raised an error; the observation stays unresolved."
  | .execution (.unknownCall _) =>
    some "Register a contextualizer for this call name in the component registry."
  | .execution (.missingReference _ _) =>
    some "Reference actuators may only point at actuators that run earlier in the plan."
  | .execution .cancelled => none
  | .execution .nothingToRun =>
    some "Empty dataflows are legal but produce nothing; check the resolution notifications."
  | .execution .brokeDown => none
  | .execution (.twin _) => some "The digital twin rejected an update or could not be persisted."
  | .config (.unreadable _ _) => some "Ensure the config file exists and is valid TOML."
  | .config (.unparsable _ _) => some "Check the TOML syntax in the resolver config file."
  | .config (.unwritable _ _) =>
    some "Ensure you have write permissions to the config directory."
  | .config (.invalid message) => some ("Check the ResolverConfig fields. " ++ message)

/-- The message of what lies behind a failure. -/
def cause? : Failure → Option String
  | .catalog (.unreadableFile _ cause) => some cause
  | .resolution (.infrastructure _ source) => some source.message
  | .config (.unreadable _ cause) => some cause
  | .config (.unwritable _ cause) => some cause
  | _ => none

end Failure

end Obsplan
