import Obsplan.CommandLine.Arguments

/-!
# Commands

What the program can be told to do, how that is written on the command line, and the help texts.
-/

namespace Obsplan.CommandLine

/-- What is to be resolved, and where. -/
structure Query where
  observable : String
  catalog : Option String := none
  context : String := "default"
  space : Option String := none
  time : Option String := none
  acceptPartial : Bool := false
  exclude : List String := []
  namespaces : List String := []

/-- What the program is told to do. -/
inductive Command where
  /-- Makes a plan and prints it, as text or as JSON. -/
  | resolve (query : Query) (asJson : Bool)
  /-- Makes a plan, runs it and prints the observation; the twin may be saved. -/
  | run (query : Query) (twin : Option String)
  /-- Writes the default settings. -/
  | writeSettings (path : String)
  | showSettings

/-- What a command line asks for. -/
inductive Asked where
  | command (settings : Option String) (command : Command)
  | print (text : String)
  /-- It makes no sense. -/
  | misuse

/-! ## Help -/

def lines (ls : List String) : String := String.join (ls.map (· ++ "\n"))

def versionText : String := lines ["twinflow 0.1.0"]

/-- The names of two columns, the second one starting at the same place in all lines. -/
def columns (rows : List (String × String)) : List String :=
  let width := rows.foldl (fun w r => max w r.1.length) 0
  rows.map fun r =>
    "  " ++ r.1 ++ String.ofList (List.replicate (width + 2 - r.1.length) ' ') ++ r.2

/-- A help text: what a command does, how it is written, and what may be given. -/
def helpText (about usage : String) (sections : List (String × List (String × String))) : String :=
  lines ([about, "", "Usage: twinflow " ++ usage] ++
    sections.flatMap fun s => ["", s.1 ++ ":"] ++ columns s.2)

/-- The help on asking for help. -/
def helpRow : String × String :=
  ("help", "Print this message or the help of the given subcommand(s)")

/-- The option for the settings. -/
def settingsRow : String × String := ("    --config <CONFIG>", "Configuration file (TOML)")

/-- The option for help. -/
def helpOptionRow : String × String := ("-h, --help", "Print help")

def programHelp : String :=
  helpText "Resolve observables into executable dataflows" "[OPTIONS] <COMMAND>" [
    ("Commands", [("resolve", "Resolve an observable and print the compiled dataflow"),
      ("run", "Resolve an observable, run it, and print the observation"),
      ("config", "Manage the configuration file"), helpRow]),
    ("Options", [settingsRow, helpOptionRow, ("-V, --version", "Print version")])]

def helpHelp (group : String) : String :=
  helpText helpRow.2 (group ++ "help [COMMAND]...") [
    ("Arguments", [("[COMMAND]...", "Print help for the subcommand(s)")])]

def queryHelp (about name : String) (last : String × String) : String :=
  helpText about (name ++ " [OPTIONS] <OBSERVABLE>") [
    ("Arguments", [("<OBSERVABLE>", "Observable definition, e.g. \"each ecology:Tree\"")]),
    ("Options", [("    --catalog <CATALOG>", "JSON model catalog"), settingsRow,
      ("    --context <CONTEXT>", "Context name [default: default]"),
      ("    --space <SPACE>", "Spatial extent as x0,x1,y0,y1"),
      ("    --time <TIME>", "Temporal extent as t0,t1"),
      ("    --accept-partial", "Accept partial coverage"),
      ("    --exclude <EXCLUDE>", "Exclude a model by URN (repeatable)"),
      ("    --namespace <NAMESPACES>", "Preferred namespace (repeatable)"), last,
      helpOptionRow])]

def resolveHelp : String :=
  queryHelp "Resolve an observable and print the compiled dataflow" "resolve"
    ("    --format <FORMAT>", "Output format [default: text] [possible values: text, json]")

def runHelp : String :=
  queryHelp "Resolve an observable, run it, and print the observation" "run"
    ("    --twin <TWIN>", "Save the resulting twin to this file")

def settingsHelp : String :=
  helpText "Manage the configuration file" "config [OPTIONS] <COMMAND>" [
    ("Commands", [("init", "Write a default configuration file"),
      ("show", "Print the effective configuration"), helpRow]),
    ("Options", [settingsRow, helpOptionRow])]

def writeSettingsHelp : String :=
  helpText "Write a default configuration file" "config init [OPTIONS] [PATH]" [
    ("Arguments", [("[PATH]", "Where to write it [default: twinflow.toml]")]),
    ("Options", [settingsRow, helpOptionRow])]

def showSettingsHelp : String :=
  helpText "Print the effective configuration" "config show [OPTIONS]" [
    ("Options", [settingsRow, helpOptionRow])]

/-- The help asked for after `config help`. -/
def settingsHelpOn : List String → Asked
  | [] => .print settingsHelp
  | ["init"] => .print writeSettingsHelp
  | ["show"] => .print showSettingsHelp
  | ["help"] => .print (helpHelp "config ")
  | _ => .misuse

/-- The help asked for after `help`. -/
def helpOn : List String → Asked
  | [] => .print programHelp
  | ["resolve"] => .print resolveHelp
  | ["run"] => .print runHelp
  | "config" :: rest => settingsHelpOn rest
  | ["help"] => .print (helpHelp "")
  | _ => .misuse

/-! ## Reading a command line -/

def settingsOption : OptionSpec := { name := "config", kind := .path }

def queryOptions : List OptionSpec := [
  settingsOption,
  { name := "catalog", kind := .path },
  { name := "context", kind := .text },
  { name := "space", kind := .text },
  { name := "time", kind := .text },
  { name := "accept-partial", kind := .switch },
  { name := "exclude", kind := .text, repeats := true },
  { name := "namespace", kind := .text, repeats := true }]

/-- The query that is given. -/
def Given.query (g : Given) (observable : String) : Query where
  observable
  catalog := g.get? "catalog"
  context := (g.get? "context").getD "default"
  space := g.get? "space"
  time := g.get? "time"
  acceptPartial := g.has "accept-partial"
  exclude := g.all "exclude"
  namespaces := g.all "namespace"

/-- What is asked for when another command is named after what is given. What the words after the
name ask for comes first; then what is given has to be all right, and the settings named last
count. -/
def Given.thenAsked (g : Given) (asked : Asked) : Asked :=
  match asked, g.settled? with
  | .command settings command, some g => .command (settings.or (g.get? "config")) command
  | .command _ _, none => .misuse
  | other, _ => other

/-- Reads the words of a command that takes values. -/
def readCommand (level : Level) (help : String) (words : List String)
    (command? : Given → Option Command) : Asked :=
  match scan level {} false words with
  | .all g =>
    match command? g with
    | some c => .command (g.get? "config") c
    | none => .misuse
  | .help => .print help
  | _ => .misuse

def readResolve (words : List String) : Asked :=
  let format : OptionSpec := { name := "format", kind := .word ["text", "json"] }
  readCommand { options := queryOptions ++ [format], values := [.text] } resolveHelp words fun g =>
    g.values.head?.map fun o => .resolve (g.query o) (g.get? "format" == some "json")

def readRun (words : List String) : Asked :=
  let twin : OptionSpec := { name := "twin", kind := .path }
  readCommand { options := queryOptions ++ [twin], values := [.text] } runHelp words fun g =>
    g.values.head?.map fun o => .run (g.query o) (g.get? "twin")

def readWriteSettings (words : List String) : Asked :=
  readCommand { options := [settingsOption], values := [.path] } writeSettingsHelp words fun g =>
    some (.writeSettings (g.values.head?.getD "twinflow.toml"))

def readSettings (words : List String) : Asked :=
  match scan { options := [settingsOption], takesCommand := true } {} false words with
  | .command g "init" rest => g.thenAsked (readWriteSettings rest)
  | .command g "show" rest =>
    g.thenAsked (readCommand { options := [settingsOption] } showSettingsHelp rest fun _ =>
      some .showSettings)
  | .command _ "help" rest => settingsHelpOn rest
  | .help => .print settingsHelp
  | _ => .misuse

/-- What a command line asks for. -/
def read (words : List String) : Asked :=
  let level : Level := { options := [settingsOption], takesCommand := true, tellsVersion := true }
  match scan level {} false words with
  | .command g "resolve" rest => g.thenAsked (readResolve rest)
  | .command g "run" rest => g.thenAsked (readRun rest)
  | .command g "config" rest => g.thenAsked (readSettings rest)
  | .command _ "help" rest => helpOn rest
  | .help => .print programHelp
  | .version => .print versionText
  | _ => .misuse

end Obsplan.CommandLine
