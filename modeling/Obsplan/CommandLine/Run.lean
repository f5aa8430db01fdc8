import Obsplan.Catalog.Json
import Obsplan.CommandLine.Command
import Obsplan.CommandLine.Disk
import Obsplan.Service
import Obsplan.Twin.Binary

/-!
# Carrying out commands

A command prints what it found out and ends with zero. It ends with one when it fails, and with two
when the command line makes no sense; what was printed before stays.
-/

namespace Obsplan.CommandLine

/-- What a command leaves behind. -/
structure Report where
  exit : UInt32 := 0
  output : String := ""
  trouble : String := ""

/-- Carrying out a command: it prints and may fail. -/
abbrev Work (m : Type → Type) := ExceptT Failure (StateT String m)

variable {m : Type → Type} [Monad m]

/-- A result as work. -/
def orFail {β : Type} (x : Except Failure β) : Work m β := ExceptT.mk (pure x)

def print (text : String) : Work m Unit := modify (· ++ text)

def printLine (text : String) : Work m Unit := print (text ++ "\n")

/-- The text of a file, if it can be read. -/
def readText? (disk : Disk m) (path : String) : Work m (Option String) := do
  let bytes ← (disk.read path : m _)
  return bytes.bind fun bytes => String.fromUTF8? (ByteArray.mk bytes.toArray)

/-- The settings kept in a file, or else the default ones. -/
def loadSettings (disk : Disk m) (path : Option String) : Work m Config := do
  match path with
  | none => return {}
  | some path =>
    match ← readText? disk path with
    | none => throw (.config (.unreadable path "the file cannot be read"))
    | some text => orFail ((Config.read path text).mapError .config)

/-- The catalog kept in a file. -/
def loadCatalog (disk : Disk m) (path : Option String) : Work m (Catalog Number) := do
  match path with
  | none => return .empty
  | some path =>
    match ← readText? disk path with
    | none => throw (.catalog (.unreadableFile path "the file cannot be read"))
    | some text =>
      let (catalog, count) := Catalog.empty.load path text
      let _ ← orFail (count.mapError .catalog)
      return catalog

/-- The numbers of a text with commas between them, of which there have to be `count`. -/
def readBounds (text : String) (count : Nat) : Except Failure (List Number) :=
  let parts := (Text.splitAtChar ',' text.toList).map fun cs => Text.trim (String.ofList cs)
  match parts.mapM Decimal.read? with
  | none => .error (.resolution (.invalidRequest "a bound is no number"))
  | some bounds =>
    if bounds.length = count then .ok bounds
    else .error (.resolution (.invalidRequest
      (s!"expected {count} comma-separated numbers, got " ++ Text.quoted text)))

/-- The region that bounds describe. -/
def regionOf (text : String) : Except Failure (Scale Number) := do
  match ← readBounds text 4 with
  | [x₀, x₁, y₀, y₁] => (Scale.space x₀ x₁ y₀ y₁).mapError .scale
  | _ => .ok .scalar

/-- A scale with the time that bounds describe. -/
def withTime (scale : Scale Number) (text : String) : Except Failure (Scale Number) := do
  match ← readBounds text 2 with
  | [t₀, t₁] =>
    let time ← (Scale.interval t₀ t₁).mapError Failure.scale
    time.extents.foldlM (fun s e => (s.withExtent e).mapError .scale) scale
  | _ => .ok scale

/-- The scale that a query asks for. -/
def Query.scale (q : Query) : Except Failure (Scale Number) := do
  let scale ← match q.space with
    | some text => regionOf text
    | none => pure .scalar
  match q.time with
  | some text => withTime scale text
  | none => return scale

/-- The constraints that a query asks for. -/
def Query.constraints (q : Query) : Constraints :=
  .ofList <| (if q.acceptPartial then [.acceptPartial true] else []) ++
    q.exclude.map Constraint.excludeModel ++ q.namespaces.map Constraint.preferNamespace

def Query.inContext (q : Query) : Except Failure (Context Number) := do
  return { id := q.context, scale := ← q.scale, constraints := q.constraints }

/-- The service for a query, over the catalog it names or else that of the settings. -/
def serviceFor (disk : Disk m) (config : Config) (q : Query) : Work m Service := do
  let catalog ← loadCatalog disk (q.catalog.or config.catalog)
  orFail (Service.create config (.ofCatalog catalog {}))

/-- Prints a response as text: what is told for information, the plan, and how much it covers. -/
def printText (r : Response) : Work m Unit := do
  print (lines ((r.notifications.filter fun n => !n.level.isWarning).map Notification.text))
  printLine r.encoded
  printLine ("\ncoverage: " ++ Coordinate.percent r.coverage ++ "%" ++
    (if r.complete then " (complete)" else ""))

/-- Prints a response as JSON, after a line for each notification. -/
def printJson (r : Response) : Work m Unit := do
  print (String.join (r.notifications.map fun n => n.toJson.compact ++ "\n"))
  printLine r.text

def resolve (disk : Disk m) (config : Config) (q : Query) (asJson : Bool) : Work m Unit := do
  let service ← serviceFor disk config q
  let ctx ← orFail q.inContext
  let response ← orFail (service.handle { observation := q.observable } ctx).1
  if asJson then printJson response else printText response

/-- One activity that made an observation, with the agents who answer for it. -/
def activityLine (t : Twin Number) (k : NodeKey) : String :=
  "  generated by " ++ k.text ++ " (" ++
    ", ".intercalate ((t.related k .associatedWith).map NodeKey.text) ++ ")\n"

/-- What is told about an observation. -/
def observationText (t : Twin Number) (o : Observation Number) : String :=
  lines ["observation " ++ o.id.text ++ " of " ++ o.observable.text,
    "  value: " ++ (o.value.map Value.display).getD "none",
    "  coverage: " ++ o.coverage.text,
    "  resolved: " ++ (if o.resolved then "true" else "false")] ++
  String.join ((t.relatedTo (.observation o.id) .generated).map (activityLine t)) ++
  lines [s!"twin: {t.nodes.length} nodes, {t.edges.length} edges"]

/-- Saves a twin. -/
def saveTwin (disk : Disk m) (t : Twin Number) (path : String) : Work m Unit := do
  if ← (disk.write false path t.save : m _) then printLine ("twin saved to " ++ path)
  else throw (.execution (.twin ("cannot write " ++ path)))

def run (disk : Disk m) (config : Config) (q : Query) (twin : Option String) : Work m Unit := do
  let service ← serviceFor disk config q
  let ctx ← orFail q.inContext
  let o ← orFail (service.observable q.observable)
  let (result, service) := service.observe o ctx
  let observation ← orFail ((← orFail result).mapError .execution)
  print (observationText service.twin observation)
  match twin with
  | some path => saveTwin disk service.twin path
  | none => return

def writeSettings (disk : Disk m) (path : String) : Work m Unit := do
  let text ← orFail ((({} : Config).document path).mapError .config)
  if ← (disk.write true path text.toUTF8.toList : m _) then
    printLine ("Wrote default configuration to " ++ path)
  else throw (.config (.unwritable path "the file cannot be written"))

/-- Carries out a command under the settings of a file. -/
def carryOut (disk : Disk m) (settings : Option String) (command : Command) : Work m Unit := do
  let config ← loadSettings disk settings
  match command with
  | .resolve q asJson => resolve disk config q asJson
  | .run q twin => run disk config q twin
  | .writeSettings path => writeSettings disk path
  | .showSettings => do print (← orFail ((config.document "").mapError .config))

/-- Does what a command line asks for. -/
def perform (disk : Disk m) (words : List String) : m Report := do
  match read words with
  | .print text => return { output := text }
  | .misuse => return { exit := 2, trouble := "the command line makes no sense; try --help" }
  | .command settings command =>
    let (result, output) ← (carryOut disk settings command).run.run ""
    match result with
    | .ok _ => return { output }
    | .error e => return { exit := 1, output, trouble := e.message }

end Obsplan.CommandLine
