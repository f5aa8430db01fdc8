import Obsplan.Json.Decode

/-!
# Notifications

What is worth telling about a search or a plan. Incomplete answers are never failures: they come
with notifications.
-/

namespace Obsplan

/-- The kinds of trouble that are told apart where the planner meets its callers. -/
inductive Code where
  /-- Unusable resources or definitions, or a catalog that does not answer. -/
  | resourceValidation
  /-- Something needed could not be found. -/
  | unresolvedReference
  /-- A chain of dependencies leads back to itself. -/
  | circularReferences
  /-- A resource is there, but in another version. -/
  | mismatchedVersion
  /-- Anything else. -/
  | internalError
  deriving DecidableEq, Repr

namespace Code

def all : List Code :=
  [.resourceValidation, .unresolvedReference, .circularReferences, .mismatchedVersion,
    .internalError]

def name : Code → String
  | .resourceValidation => "RESOURCE_VALIDATION"
  | .unresolvedReference => "UNRESOLVED_REFERENCE"
  | .circularReferences => "CIRCULAR_REFERENCES"
  | .mismatchedVersion => "MISMATCHED_VERSION"
  | .internalError => "INTERNAL_ERROR"

def ofJson? (j : Json) : Option Code := j.word?.bind fun s => all.find? fun c => c.name == s

end Code

inductive Level where
  | info
  | warning
  | error
  deriving DecidableEq, Repr

namespace Level

def all : List Level := [.info, .warning, .error]

def name : Level → String
  | .info => "info"
  | .warning => "warning"
  | .error => "error"

/-- Whether a level calls for attention. -/
def isWarning : Level → Bool
  | .info => false
  | .warning => true
  | .error => true

def ofJson? (j : Json) : Option Level := j.word?.bind fun s => all.find? fun l => l.name == s

end Level

structure Notification where
  level : Level
  code : Option Code := none
  message : String
  /-- The canonical name of the observable it is about. -/
  observable : Option String := none
  deriving DecidableEq, Repr

namespace Notification

def info (message : String) : Notification := { level := .info, message }

def warning (code : Code) (message : String) : Notification :=
  { level := .warning, code := some code, message }

/-- The notification with the observable it is about. -/
def about (n : Notification) (observable : String) : Notification :=
  { n with observable := some observable }

/-- A notification on one line. -/
def text (n : Notification) : String :=
  "[" ++ n.level.name ++ (match n.code with | some c => ":" ++ c.name | none => "") ++ "] " ++
  (match n.observable with | some o => o ++ ": " | none => "") ++ n.message

def toJson (n : Notification) : Json :=
  .object <| [("level", .text n.level.name)] ++
    Json.optionalField "code" (n.code.map fun c => .text c.name) ++
    [("message", .text n.message)] ++
    Json.optionalField "observable" (n.observable.map .text)

def ofJson? (j : Json) : Option Notification := do
  let r ← j.record? ["level", "code", "message", "observable"]
  return {
    level := ← r.get? "level" Level.ofJson?
    code := ← r.option? "code" Code.ofJson?
    message := ← r.get? "message" Json.text?
    observable := ← r.option? "observable" Json.text? }

/-- The notifications without those that repeat the one before them. -/
def dropRepeats : List Notification → List Notification
  | [] => []
  | [n] => [n]
  | n :: m :: rest => if n = m then dropRepeats (m :: rest) else n :: dropRepeats (m :: rest)

theorem mem_dropRepeats {n : Notification} {ns : List Notification} :
    n ∈ dropRepeats ns ↔ n ∈ ns := by
  induction ns using dropRepeats.induct with
  | case1 => rfl
  | case2 m => rfl
  | case3 m rest ih => simp [dropRepeats, ih]
  | case4 m l rest hne ih => simp [dropRepeats, hne, ih]

end Notification

end Obsplan
