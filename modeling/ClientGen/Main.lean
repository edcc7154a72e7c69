import ClientGen.Cli.Run
import ClientGen.Text.Utf8

/-! # The program

Reads the files that a command line may ask for, runs it, and writes what it leaves.
Everything between is a function of those files.
-/

namespace ClientGen
namespace Main

open Files (Disk)

def readText? (path : String) : IO (Option String) := do
  try return some (Text.decode (← IO.FS.readBinFile path).toList)
  catch _ => return none

/-- Adds a directory and what is beneath it to a disk, `depth` levels down. What cannot
be read is left out. -/
def readTree : Nat → String → Disk → IO Disk
  | 0, _, disk => return disk
  | depth + 1, root, disk => do
    let path ← try IO.FS.realPath root catch _ => return disk
    let entries ← try path.readDir catch _ => return disk
    let start : Disk := { disk with directories := disk.directories ++ [path.toString] }
    entries.foldlM (fun disk entry => do
      let name := entry.path.toString
      if ← entry.path.isDir then readTree depth name disk
      else match ← readText? name with
        | some text => return { disk with files := disk.files ++ [(name, text)] }
        | none => return disk) start

def readEnvironment : IO (Table String) := do
  let text := (← readText? "/proc/self/environ").getD ""
  return Table.ofList ((Text.split text "\x00").filterMap (Text.cut? · "="))

/-- The world of the process: the working directory and the shared include directories. -/
def readWorld (input : String) : IO Cli.World := do
  let directory := (← IO.currentDir).toString
  let environment ← readEnvironment
  let shared := Files.Environment.includeRoots (Table.find? environment) []
  let disk ← (directory :: shared).foldlM (fun disk root => readTree 64 root disk) {}
  return { directory, environment, disk, input }

/-- Writes a file and the directories above it. -/
def writeBytes (path : String) (bytes : ByteArray) : IO Unit := do
  IO.FS.createDirAll (Path.dir path)
  IO.FS.writeBinFile path bytes

/-- Writes the files that are new or changed. -/
def writeOutcome (before : Disk) (out : Cli.Outcome) : IO Unit := do
  for (path, text) in out.disk.shown do
    if before.shown.find? path != some text then writeBytes path text.toUTF8
  for (path, bytes) in out.binaries do
    writeBytes path ⟨bytes.toArray⟩

end Main
end ClientGen

open ClientGen in
/-- Runs the command line of the process. -/
def main (words : List String) : IO UInt32 := do
  let input ← if words.contains "-" then (← IO.getStdin).readToEnd else pure ""
  let world ← Main.readWorld input
  let out := Cli.run world words
  Main.writeOutcome world.disk out
  (← IO.getStdout).putStr out.stdout
  (← IO.getStderr).putStr out.stderr
  return UInt32.ofNat out.code
