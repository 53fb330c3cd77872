-- SUMMARY: The command line: what it reads from the machine, and what it prints.
import BuildLog.Program

/-!
# Command line

The program runs on a picture of the machine: the files that its command line names, the
current directory, and the variables it looks at. Build tools are not part of the
picture, so a command that starts one ends with the message that there is none.
-/

namespace BuildLog

/-- The paths that a command line reads from. -/
def CommandLine.paths (line : CommandLine) : List Path :=
  line.config.toList ++
    match line.command with
    | .gradle project _ _ => [project]
    | .maven project _ => [project]
    | .scan _ logs => logs

namespace Main

def string (t : Text) : String := String.ofList t

/-- What stands at a path, if it can be read. -/
def seedAt? (path : Path) : IO (Option FileTree.Seed) := do
  match ← (IO.FS.realPath (string path.text)).toBaseIO with
  | .error _ => return none
  | .ok place =>
    if ← place.isDir then return some .directory
    else
      match ← (IO.FS.readBinFile place).toBaseIO with
      | .ok data => return some (.file false data.toList)
      | .error _ => return none

/-- The tree with what stands at a path. -/
def withPath (here : Location) (files : FileTree) (path : Path) : IO FileTree := do
  match ← seedAt? path with
  | some seed => return files.plant (if path.isAbsolute then [] else here) seed path.components
  | none => return files

def valueOf? (name : Text) : IO (Option (Text × Text)) := do
  return (← IO.getEnv (string name)).map fun value => (name, value.toList)

/-- The variables of the environment that are looked at. -/
def variableNames : List Text :=
  [Program.rootVariable, Program.logLevelVariable, Program.directivesVariable,
    Program.colorVariable, Program.plainVariable, Program.terminalVariable]

/-- What is said about a document that gives no settings. -/
def complaint (_document : Text) : Text := "the document does not give settings".toList

/-- The machine as far as the paths show it. -/
def machine (paths : List Path) : IO Machine := do
  let here := (Path.mk (← IO.currentDir).toString.toList).names
  let empty := ({ entries := [] } : FileTree).plant [] .directory here
  let files ← paths.foldlM (withPath here) empty
  let environment ← variableNames.filterMapM valueOf?
  return {
    files, here, environment, complaint
    programs := []
    runs := []
    calls := []
    freshName := []
    time := []
    notices := []
    outlet := ⟨← (← IO.getStdout).isTty, none⟩ }

/-- The paths that the words of a command line name. -/
def pathsOf (words : List Text) : List Path :=
  match CommandLine.ofWords words with
  | .ok line => line.paths
  | .error _ => []

end Main

end BuildLog

open BuildLog in
def main (args : List String) : IO UInt32 := do
  let words := args.map String.toList
  let (outcome, _) := Program.execute words (← Main.machine (Main.pathsOf words))
  IO.eprint (Main.string outcome.errors)
  (← IO.getStdout).write ⟨outcome.output.toArray⟩
  return outcome.exitCode
