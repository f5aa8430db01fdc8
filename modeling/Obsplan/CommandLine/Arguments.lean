/-!
# Command line arguments

The words of a command line are options, which start with two hyphens, and the name of a command or
the values it works on. An option's value follows it or an equals sign. All that comes after two
hyphens alone is a value. A word that stands by itself is only looked at when the next word has been
found to be no name of a command; so help on a command can be had although the words before are
wrong.
-/

namespace Obsplan.CommandLine

/-- What an option or a value asks for. -/
inductive ArgumentKind where
  /-- Nothing: the option is a switch. -/
  | switch
  | text
  /-- A path, which is not empty. -/
  | path
  /-- One of several words. -/
  | word (words : List String)
  deriving DecidableEq

/-- Whether a word is what is asked for. -/
def ArgumentKind.accepts : ArgumentKind → String → Bool
  | .switch, _ => true
  | .text, _ => true
  | .path, s => !s.isEmpty
  | .word words, s => words.contains s

/-- An option that a command takes. -/
structure OptionSpec where
  name : String
  kind : ArgumentKind
  /-- Whether the option may be given several times. -/
  repeats : Bool := false

/-- What the words of a command line are good for at one level. -/
structure Level where
  options : List OptionSpec
  /-- The values that may be given. -/
  values : List ArgumentKind := []
  /-- Whether the name of a command is expected. -/
  takesCommand : Bool := false
  /-- Whether the version can be asked for. -/
  tellsVersion : Bool := false

/-- A word that has been read but not looked at yet. -/
inductive Pending where
  | option (spec : OptionSpec) (word : String)
  | value (kind : ArgumentKind) (word : String)

/-- What was given at one level. -/
structure Given where
  options : List (String × String) := []
  values : List String := []
  pending : Option Pending := none

/-- How the words of a level end. -/
inductive Scanned where
  | all (given : Given)
  /-- The name of a command came, and more words. -/
  | command (given : Given) (name : String) (rest : List String)
  | help
  | version
  /-- The words make no sense. -/
  | misuse

namespace Given

def all (g : Given) (name : String) : List String :=
  (g.options.filter fun o => o.1 == name).map Prod.snd

def get? (g : Given) (name : String) : Option String := g.options.lookup name

def has (g : Given) (name : String) : Bool := (g.get? name).isSome

/-- What is given with one more option, if it may be given with that value. -/
def set? (g : Given) (spec : OptionSpec) (word : String) : Option Given :=
  if spec.kind.accepts word && (spec.repeats || !g.has spec.name) then
    some { g with options := g.options ++ [(spec.name, word)] }
  else none

/-- What is given once the pending word is looked at, if it is all right. -/
def settled? (g : Given) : Option Given :=
  match g.pending with
  | none => some g
  | some (.option spec word) => { g with pending := none }.set? spec word
  | some (.value kind word) =>
    if kind.accepts word then some { g with pending := none, values := g.values ++ [word] }
    else none

/-- What is given with one more value. -/
def addValue? (level : Level) (g : Given) (word : String) : Option Given := do
  let g ← g.settled?
  let kind ← level.values[g.values.length]?
  return { g with pending := some (.value kind word) }

end Given

/-- The name of an option and the value after the equals sign, if the word is an option. -/
def option? (word : String) : Option (String × Option String) :=
  match word.toList with
  | '-' :: '-' :: cs =>
    let name := String.ofList (cs.takeWhile (· ≠ '='))
    match cs.dropWhile (· ≠ '=') with
    | [] => some (name, none)
    | _ :: value => some (name, some (String.ofList value))
  | _ => none

/-- The letters of a word of short options. -/
def letters? (word : String) : Option (List Char) :=
  match word.toList with
  | '-' :: c :: cs => if c = '-' then none else some (c :: cs)
  | _ => none

/-- Whether a word cannot be the value of an option before it. -/
def isOption (word : String) : Bool := (option? word).isSome || (letters? word).isSome

/-- What is given with one more option, and whether its value is the next word, which is looked at
later; `none` when it makes no sense. -/
def takeOption? (level : Level) (g : Given) (name : String) (attached : Option String)
    (rest : List String) : Option (Given × Bool) := do
  let spec ← level.options.find? fun spec => spec.name == name
  let g ← g.settled?
  match spec.kind, attached, rest with
  | .switch, none, _ => (g.set? spec "").map (·, false)
  | .switch, some _, _ => none
  | _, some word, _ => (g.set? spec word).map (·, false)
  | _, none, word :: _ =>
    if isOption word then none else some ({ g with pending := some (.option spec word) }, true)
  | _, none, [] => none

def finish (g : Given) : Scanned := (g.settled?.map Scanned.all).getD .misuse

/-- Reads the words of a level. `skip` says that the first word was read as the value of an
option. -/
def scan (level : Level) (g : Given) (skip : Bool) : List String → Scanned
  | [] => finish g
  | word :: rest =>
    if skip then scan level g false rest
    else if word = "--" then
      match rest.foldlM (Given.addValue? level) g with
      | some g => finish g
      | none => .misuse
    else
      match option? word, letters? word with
      | some (name, attached), _ =>
        match takeOption? level g name attached rest with
        | some (g, skip) => scan level g skip rest
        | none =>
          if attached.isSome || level.options.any (fun spec => spec.name == name) then .misuse
          else if g.settled?.isNone then .misuse
          else if name = "help" then .help
          else if name = "version" && level.tellsVersion then .version
          else .misuse
      | none, some (c :: _) =>
        if g.settled?.isNone then .misuse
        else if c = 'h' then .help
        else if c = 'V' && level.tellsVersion then .version
        else .misuse
      | none, _ =>
        if level.takesCommand then .command g word rest
        else
          match g.addValue? level word with
          | some g => scan level g false rest
          | none => .misuse

end Obsplan.CommandLine
