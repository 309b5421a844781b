import Chronicle.CommandLine
import Chronicle.Storage.Image

/-!
# The program

The program reads its files and the image of its data directory, runs one
invocation, and writes the image back.
-/

namespace Chronicle.Program

open CommandLine

/-- The file of a data directory that holds its image. -/
def imagePath (dataPath : String) : String := dataPath ++ "/image"

/-- The content of a file, if it can be read. -/
def readText (path : String) : IO (Option String) := do
  try
    return some (← IO.FS.readFile path)
  catch _ =>
    return none

/-- The stored directory, a new one if there is none. -/
def loadDirectory (dataPath : String) : IO Directory := do
  try
    let bytes ← IO.FS.readBinFile (imagePath dataPath)
    match Directory.ofBytes bytes.data.toList with
    | .ok d => return d
    | .error e => throw (IO.userError e.message)
  catch
    | .noFileOrDirectory .. => return .empty
    | e => throw e

/-- Store a directory. -/
def saveDirectory (dataPath : String) (d : Directory) : IO Unit := do
  IO.FS.createDirAll dataPath
  IO.FS.writeBinFile (imagePath dataPath) ⟨d.toBytes.toArray⟩

/-- The file that a command reads besides the configuration. -/
def inputFile : Command → List String
  | .ingest file => [file]
  | _ => []

end Chronicle.Program

open Chronicle Chronicle.CommandLine Chronicle.Program in
/-- Run the program on its arguments. -/
def main (arguments : List String) : IO UInt32 := do
  match Invocation.ofArguments? arguments with
  | none =>
    IO.eprint usage
    return 2
  | some i =>
    let directory ← loadDirectory i.settings.path
    let contents ← (i.configPath :: inputFile i.command).mapM fun path => do
      return (path, ← readText path)
    let readFile (path : String) : Option String :=
      (contents.find? fun entry => entry.1 = path).bind fun entry => entry.2
    let (directory, printed, result) := i.run readFile directory
    saveDirectory i.settings.path directory
    let outcome := Outcome.ofResult printed result
    IO.print outcome.stdout
    IO.eprint outcome.stderr
    return UInt32.ofNat outcome.code
