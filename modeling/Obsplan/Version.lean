import Obsplan.Text.Blank
import Obsplan.CatalogError
import Obsplan.Json.Decode

/-!
# Versions

A version has three numbers of 32 bits, of which the last ones may be left out when it is written.
-/

namespace Obsplan

structure Version where
  major : UInt32 := 0
  minor : UInt32 := 0
  patch : UInt32 := 0
  deriving DecidableEq, Repr

namespace Version

/-- A version with all its numbers. -/
def text (v : Version) : String :=
  s!"{v.major.toNat}.{v.minor.toNat}.{v.patch.toNat}"

/-- Whether a version comes before another one or is the same. -/
def le (v w : Version) : Bool :=
  if v.major != w.major then v.major < w.major
  else if v.minor != w.minor then v.minor < w.minor
  else v.patch ≤ w.patch

/-- A number of a version: digits, which a plus sign may precede. -/
def readNumber? (cs : List Char) : Option UInt32 :=
  let ds := match cs with
    | '+' :: ds => ds
    | ds => ds
  if ds.isEmpty || !ds.all Char.isDigit then none
  else
    let n := ds.foldl (fun n c => n * 10 + (c.toNat - '0'.toNat)) 0
    if n < UInt32.size then some (UInt32.ofNat n) else none

/-- The version written by a text with blanks around it. -/
def ofText? (s : String) : Option Version :=
  match Text.splitAtChar '.' (Text.trim s).toList with
  | [a] => do return { major := ← readNumber? a }
  | [a, b] => do return { major := ← readNumber? a, minor := ← readNumber? b }
  | [a, b, c] => do
    return { major := ← readNumber? a, minor := ← readNumber? b, patch := ← readNumber? c }
  | _ => none

def ofText (s : String) : Except CatalogError Version :=
  match ofText? s with
  | some v => .ok v
  | none => .error (.malformedVersion s)

def ofJson? (j : Json) : Option Version := j.text?.bind ofText?

end Version

end Obsplan
