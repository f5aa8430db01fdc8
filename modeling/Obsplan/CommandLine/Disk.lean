import Obsplan.Keyed
import Obsplan.Text.Blank

/-!
# Files

The commands read and write files through a disk. A folder that is kept in memory is one; a path is
followed in it step by step.
-/

namespace Obsplan

/-- Where files are kept. -/
structure Disk (m : Type → Type) where
  read : String → m (Option (List UInt8))
  /-- Writes a file, and with `makesFolders` the folders it lies in; tells whether that was
  possible. -/
  write : (makesFolders : Bool) → String → List UInt8 → m Bool

/-- A folder in memory. The places in it are given by the names on the way, and places above it by
as many pairs of points. -/
structure Folder where
  /-- The files by their places. -/
  files : Keyed (List String) (List UInt8) := .empty
  /-- The folders that were made. -/
  folders : List (List String) := []

namespace Folder

/-- The path of the file that is always empty. -/
def emptyFile : String := "/dev/null"

/-- The greatest number of bytes in a name. -/
def maxName : Nat := 255

/-- The greatest number of bytes in a path. -/
def maxPath : Nat := 4095

def steps (path : String) : List String :=
  (Text.splitAtChar '/' path.toList).map String.ofList

/-- Whether a place is above the folder, or the folder itself. -/
def isAbove (place : List String) : Bool := place.all (· == "..")

/-- Whether a folder is at a place: it was made, or something lies in it. -/
def isFolder (f : Folder) (place : List String) : Bool :=
  isAbove place || f.folders.contains place ||
    f.files.keys.any fun k => place.isPrefixOf k && place.length < k.length

/-- The place that one step from another place leads to. Every step starts from a folder. -/
def step? (f : Folder) (place : List String) (step : String) : Option (List String) :=
  if !f.isFolder place || decide (maxName < step.utf8ByteSize) then none
  else if step = "" ∨ step = "." then some place
  else if step = ".." then some (if isAbove place then place ++ [".."] else place.dropLast)
  else some (place ++ [step])

/-- The place that a path leads to from the folder. -/
def place? (f : Folder) (path : String) : Option (List String) :=
  if maxPath < path.utf8ByteSize then none
  else
    match steps path with
    | "" :: _ => none
    | steps => steps.foldlM f.step? []

/-- Takes a step, and makes a folder where it leads to if there is nothing. -/
def makeStep? (here : Folder × List String) (step : String) : Option (Folder × List String) := do
  let (f, place) := here
  let place ← f.step? place step
  if (f.files.get? place).isSome then none
  else if f.isFolder place then return (f, place)
  else return ({ f with folders := f.folders ++ [place] }, place)

/-- Makes the folders on the way to the last name of a path. -/
def makeWay? (f : Folder) (path : String) : Option Folder :=
  let names := (steps path).filter fun step => step != "" && step != "."
  (names.dropLast.foldlM makeStep? (f, [])).map Prod.fst

def read? (f : Folder) (path : String) : Option (List UInt8) :=
  if path = emptyFile then some [] else (f.place? path).bind f.files.get?

/-- The folder with a file written, if that is possible. -/
def write? (f : Folder) (makesFolders : Bool) (path : String) (bytes : List UInt8) :
    Option Folder := do
  if path = emptyFile then return f
  let f ← if makesFolders then f.makeWay? path else some f
  let place ← f.place? path
  if f.isFolder place then none
  else return { f with files := f.files.insert place bytes }

/-- A folder in memory as a disk. -/
def disk : Disk (StateM Folder) where
  read path := do return (← get).read? path
  write makesFolders path bytes := do
    match (← get).write? makesFolders path bytes with
    | some f =>
      set f
      return true
    | none => return false

end Folder

end Obsplan
