import Obsplan.CommandLine.Run

/-!
# The program
-/

namespace Obsplan

def readFile (path : String) : IO (Option (List UInt8)) := do
  try return some (← IO.FS.readBinFile path).toList catch _ => return none

def writeFile (makesFolders : Bool) (path : String) (bytes : List UInt8) : IO Bool := do
  try
    match Text.splitLast? '/' path with
    | some (folder, _) => if makesFolders && !folder.isEmpty then IO.FS.createDirAll folder
    | none => pure ()
    IO.FS.writeBinFile path (ByteArray.mk bytes.toArray)
    return true
  catch _ => return false

/-- The files of the machine. -/
def machineDisk : Disk IO := { read := readFile, write := writeFile }

end Obsplan

/-- Does what the command line asks for. -/
def main (words : List String) : IO UInt32 := do
  let report ← Obsplan.CommandLine.perform Obsplan.machineDisk words
  IO.print report.output
  unless report.trouble.isEmpty do IO.eprintln report.trouble
  return report.exit
