-- SUMMARY: Running Maven with its output captured in a file, and reading the capture back.
import BuildLog.Build.Capture

/-!
# Maven builds

Maven installs a project and prints to the capture file. The text is what the file
holds afterwards.
-/

namespace BuildLog.Build.Maven

/-- The program that builds a project. -/
def program : Path := ⟨"mvn".toList⟩

/-- The arguments of a build, with one thread for each core if it may be parallel. -/
def arguments (parallel : Bool) (flags : List Text) : List Text :=
  ["-X".toList, "-e".toList] ++ (if parallel then ["-T".toList, "1C".toList] else []) ++
    ["clean".toList, "install".toList] ++ flags

/-- Make the capture file, empty. -/
def openCapture (path : Path) : Action Location :=
  Action.step
    (fun m => (m.files.createFile m.here path).map fun (place, files) => (place, { m with files }))
    (.file path)

/-- Build a project. -/
def run (root project : Path) (parallel : Bool) (flags : List Text) : Action Text := do
  let path ← Capture.path root project
  Action.note .info "running maven" [("project", project.text), ("capture", path.text)]
  let place ← openCapture path
  let run ← Action.build program project (arguments parallel flags)
  modify fun m => { m with files := m.files.write place run.output }
  let data ← Action.readFile path
  return Utf8.decodeLossy data

end BuildLog.Build.Maven
