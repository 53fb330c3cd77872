-- SUMMARY: Whether a directory holds a Java source file at any depth, and the records whose task has sources.
import BuildLog.Failure
import BuildLog.FileTree
import BuildLog.Record
import BuildLog.SourceSet

/-!
# Java sources below a directory

A directory holds Java sources if one can descend from it through directories to a
file whose name has the extension `java`. Links are not followed on the way down. Each
directory is looked up anew by the path that leads to it. That path grows with every step, so
the descent ends at the latest where a path is too long to be handed over. The system may
refuse to open a directory, to read an entry of it or to tell the kind of an entry. Then the
search ends with a failure.
-/

namespace BuildLog

/-- Whether a file name has the extension `java`. A name that is nothing but an
extension has none. -/
def isJavaName (name : Text) : Bool :=
  match name.splitLast? ['.'] with
  | some (stem, extension) => !stem.isEmpty && extension == "java".toList
  | none => false

namespace FileTree

/-- A name makes a path longer. -/
theorem byteLength_lt_push {name : Text} (h : isName name) (path : Path) :
    byteLength path.text < byteLength (path.push ⟨name⟩).text := by
  have hne : name ≠ [] := by
    rintro rfl
    simp [isName] at h
  have hslash : '/' ∉ name := by
    intro hmem
    simp [isName, hmem] at h
  have hpos := byteLength_pos hne
  rw [Path.push_name hslash, byteLength_append, byteLength_append]
  omega

/-- What the system refuses to a search through directories, by the paths that are searched.
It refuses a directory that may not be read, or one more directory while too many are open. -/
structure Refusals where
  /-- Why a directory is not opened. -/
  directory : Path → Option SystemError
  /-- Why the entry at a position of a directory is not read. Behind the last entry the end is
  read. -/
  entry : Path → Nat → Option SystemError
  /-- Why the kind of an entry is not told. -/
  kind : Path → Option SystemError

/-- Nothing is refused. -/
def Refusals.none : Refusals where
  directory _ := .none
  entry _ _ := .none
  kind _ := .none

/-- Whether the test holds of one of the entries that are read in turn. -/
def anyEntry (refusal : Nat → Option SystemError) (read : Nat) (entries : List α)
    (test : α → Except Failure Bool) : Except Failure Bool :=
  match refusal read, entries with
  | some cause, _ => .error (.system cause)
  | none, [] => .ok false
  | none, e :: rest =>
    match test e with
    | .ok false => anyEntry refusal (read + 1) rest test
    | outcome => outcome

/-- Whether a path leads to a directory that holds Java sources. -/
def hasJavaSources (t : FileTree) (refusals : Refusals) (here : Location) (path : Path) :
    Except Failure Bool :=
  match _hplace : t.directoryAt here path with
  | .error _ => .ok false
  | .ok place =>
    match refusals.directory path with
    | some cause => .error (.file path cause)
    | none =>
      anyEntry (refusals.entry path) 0 (t.list place).attach fun ⟨name, _⟩ =>
        match refusals.kind (path.push ⟨name⟩) with
        | some cause => .error (.system cause)
        | none =>
          match t.entry? (place ++ [name]) with
          | none | some (.link _) => .ok false
          | some .directory => t.hasJavaSources refusals here (path.push ⟨name⟩)
          | some _ => .ok (isJavaName name)
termination_by pathLimit + 1 - byteLength path.text
decreasing_by
  have hgrows := byteLength_lt_push (isName_of_mem_list ‹name ∈ t.list place›) path
  have hshort : ¬ pathLimit < byteLength path.text := by
    simpa [isLongPath] using not_isLongPath_of_directoryAt ‹t.directoryAt here path = .ok place›
  omega

/-- Whether the task of a record compiles sources that exist in the project. -/
def hasSourcesOf (t : FileTree) (refusals : Refusals) (here : Location) (project : Path)
    (r : Record) : Except Failure Bool :=
  match SourceSet.directory? project r.name with
  | some directory => t.hasJavaSources refusals here directory
  | none => .ok false

/-- The records whose task compiles sources that exist in the project. All records are looked
at before the first one is left out. -/
def retainWithSources (t : FileTree) (refusals : Refusals) (here : Location) (project : Path)
    (records : List Record) : Except Failure (List Record) := do
  let checked ← records.mapM fun r => return (r, ← t.hasSourcesOf refusals here project r)
  return (checked.filter (·.2)).map (·.1)

end FileTree

end BuildLog
