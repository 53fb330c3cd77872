-- SUMMARY: Where the output of a build is captured: the directory of the project and the file named after its commit.
import BuildLog.Machine
import BuildLog.Text.Blank

/-!
# Captures

The output of a build goes to a file, in a directory that is named after the project.
The file is named after the commit that is checked out, or has a fresh name if there is
none.
-/

namespace BuildLog.Build.Capture

/-- The first word of what `git` prints about the last commit, if it succeeds. -/
def commit? (project : Path) : Action (Option Text) := do
  let arguments := ["log".toList, "-1".toList, "--oneline".toList]
  match (← get).start ⟨"git".toList⟩ project arguments with
  | .error _ => return none
  | .ok (run, m) =>
    set m
    return if run.exitCode = 0 then Text.firstWord? (Utf8.decodeLossy run.output) else none

/-- The name of a project: the last name of its location. -/
def projectName (place : Location) : Text :=
  place.getLast?.getD "project".toList

/-- The directory for the captures of the project at a location. -/
def directory (root : Path) (place : Location) : Path :=
  (root.push ⟨"build_outputs".toList⟩).push ⟨projectName place⟩

/-- Make the directory for captures. It may stand there already; what it lies in must
exist. -/
def makeDirectory (path : Path) : Action Unit := do
  let m ← get
  match m.files.createDirectory m.here path with
  | .ok files =>
    set { m with files }
    Action.note .debug "created capture directory" [("dir", path.text)]
  | .error .alreadyExists => return ()
  | .error e => throw (.file path e)

/-- A name for a capture of no commit. -/
def freshName : Action Text := do
  let name ← Action.look (·.freshName)
  Action.note .debug "no commit found, using random capture id" [("id", name)]
  return name

/-- The path for a capture of the project. -/
def path (root project : Path) : Action Path := do
  let place ← Action.attempt (fun m => m.files.resolve m.here project) (.file project)
  let directory := directory root place
  makeDirectory directory
  let name ← match ← commit? (FileTree.pathOf place) with
    | some commit => pure commit
    | none => freshName
  return directory.push ⟨"stdout_".toList ++ name⟩

end BuildLog.Build.Capture
