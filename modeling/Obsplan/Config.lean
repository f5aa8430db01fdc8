import Obsplan.Failure
import Obsplan.Toml.Reader
import Obsplan.Toml.Printer

/-!
# Settings

The settings of the planner, kept in a settings document. Settings that are not given have defaults,
unknown ones are passed over.
-/

namespace Obsplan

/-- The settings of the planner. -/
structure Config where
  /-- Coverage counts as complete when at most this fraction is missing. -/
  tolerance : Number := 1e-6
  /-- Candidates that add less than this fraction are passed over. -/
  minContribution : Number := 0.01
  /-- How deep the search follows dependencies. -/
  maxDepth : Nat := 32
  /-- The time a search may take, in milliseconds. -/
  timeout : Option Nat := none
  /-- Whether partial coverage is accepted when a request does not say. -/
  acceptPartial : Bool := false
  /-- The deepest nesting of an encoded plan. -/
  maxEncodeDepth : Nat := 256
  /-- The agent who answers for activities when a request names none. -/
  agent : String := "twinflow"
  /-- The catalog that is loaded when none is given. -/
  catalog : Option String := none

namespace Config

/-- Two configurations agree when all their settings do; numbers are compared as numbers. -/
instance : BEq Config where
  beq a b := a.tolerance == b.tolerance && a.minContribution == b.minContribution &&
    a.maxDepth == b.maxDepth && a.timeout == b.timeout && a.acceptPartial == b.acceptPartial &&
    a.maxEncodeDepth == b.maxEncodeDepth && a.agent == b.agent && a.catalog == b.catalog

/-- The settings when all are in range. -/
def validate (c : Config) : Except ConfigError Config :=
  if !(decide (0.0 ≤ c.tolerance) && decide (c.tolerance < 1.0)) then
    .error (.invalid
      ("completeness_tolerance must be in [0, 1), got " ++ Coordinate.text c.tolerance))
  else if !(decide (0.0 ≤ c.minContribution) && decide (c.minContribution ≤ 1.0)) then
    .error (.invalid
      ("min_contribution must be in [0, 1], got " ++ Coordinate.text c.minContribution))
  else if c.maxDepth = 0 then .error (.invalid "max_depth must be at least 1")
  else if c.maxEncodeDepth = 0 then .error (.invalid "max_encode_depth must be at least 1")
  else .ok c

/-- The settings of a settings document. -/
def ofFields? (fields : Toml.Fields) : Option Config := do
  let d : Config := {}
  return {
    tolerance := ← Toml.fieldOr? fields "completeness_tolerance" d.tolerance Toml.float?
    minContribution := ← Toml.fieldOr? fields "min_contribution" d.minContribution Toml.float?
    maxDepth := ← Toml.fieldOr? fields "max_depth" d.maxDepth Toml.nat?
    timeout := ← Toml.fieldOr? fields "timeout_ms" none fun v => v.nat?.map some
    acceptPartial := ← Toml.fieldOr? fields "accept_partial" d.acceptPartial Toml.bool?
    maxEncodeDepth := ← Toml.fieldOr? fields "max_encode_depth" d.maxEncodeDepth Toml.nat?
    agent := ← Toml.fieldOr? fields "agent" d.agent Toml.text?
    catalog := ← Toml.fieldOr? fields "catalog" none fun v => v.text?.map some }

/-- The settings written by a text, in range. -/
def read (path text : String) : Except ConfigError Config :=
  match (Toml.read? text).bind ofFields? with
  | some c => c.validate
  | none => .error (.unparsable path "this is no settings document")

/-- The settings of a JSON record, which need not be in range. -/
def ofJson? (j : Json) : Option Config := do
  let d : Config := {}
  let r ← j.record? ["completeness_tolerance", "min_contribution", "max_depth", "timeout_ms",
    "accept_partial", "max_encode_depth", "agent", "catalog"]
  return {
    tolerance := ← r.getOr? "completeness_tolerance" d.tolerance Json.float?
    minContribution := ← r.getOr? "min_contribution" d.minContribution Json.float?
    maxDepth := ← r.getOr? "max_depth" d.maxDepth Json.nat64?
    timeout := ← r.option? "timeout_ms" Json.nat64?
    acceptPartial := ← r.getOr? "accept_partial" d.acceptPartial Json.bool?
    maxEncodeDepth := ← r.getOr? "max_encode_depth" d.maxEncodeDepth Json.nat64?
    agent := ← r.getOr? "agent" d.agent Json.text?
    catalog := ← r.option? "catalog" Json.text? }

/-- A natural number as a setting, which has to fit 63 bits. -/
def natSetting? (n : Nat) : Option String :=
  if n < 0x8000000000000000 then some (toString n) else none

/-- A setting that is left out when it has no value. -/
def optionalLine (key : String) (value : Option String) : String :=
  match value with
  | some v => Toml.line key v
  | none => ""

/-- The settings as a settings document. -/
def write? (c : Config) : Option String := do
  let maxDepth ← natSetting? c.maxDepth
  let timeout ← c.timeout.mapM natSetting?
  let maxEncodeDepth ← natSetting? c.maxEncodeDepth
  return String.join [
    Toml.line "completeness_tolerance" (Toml.number c.tolerance),
    Toml.line "min_contribution" (Toml.number c.minContribution),
    Toml.line "max_depth" maxDepth,
    optionalLine "timeout_ms" timeout,
    Toml.line "accept_partial" (if c.acceptPartial then "true" else "false"),
    Toml.line "max_encode_depth" maxEncodeDepth,
    Toml.line "agent" (Toml.quote c.agent),
    optionalLine "catalog" (c.catalog.map Toml.quote)]

/-- The settings document to be kept at a path. -/
def document (c : Config) (path : String) : Except ConfigError String :=
  match c.write? with
  | some text => .ok text
  | none => .error (.unparsable path "a setting is out of range")

end Config

end Obsplan
