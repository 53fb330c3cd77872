-- SUMMARY: Running Gradle once for each task and keeping what it prints.
import BuildLog.Machine

/-!
# Gradle builds

The wrapper in the project is preferred to the program found by its name. Each task is
run in a build of its own, with tasks one behind the other, because the records of the
log pair neighbouring lines.
-/

namespace BuildLog.Build.Gradle

/-- Where the wrapper of a project lies. -/
def wrapper (project : Path) : Path :=
  project.push ⟨"gradlew".toList⟩

/-- The program that builds a project. -/
def program (m : Machine) (project : Path) : Path :=
  if m.files.isFile m.here (wrapper project) then wrapper project else ⟨"gradle".toList⟩

def arguments (task : Text) : List Text :=
  ["--debug".toList, "--no-build-cache".toList, "--no-parallel".toList, task]

/-- Run one task. -/
def runTask (program project : Path) (task : Text) : Action Text := do
  Action.note .info "running gradle" [("task", task), ("project", project.text)]
  let run ← Action.build program project (arguments task)
  return Utf8.decodeLossy run.output

/-- Run the tasks in turn. The result holds what each of them prints. -/
def run (project : Path) (tasks : List Text) : Action (List Text) := do
  let program ← Action.look fun m => program m project
  tasks.mapM (runTask program project)

end BuildLog.Build.Gradle
