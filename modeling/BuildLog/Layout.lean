-- SUMMARY: The four log layouts, the records of a log in a layout, and the records of several logs.
import BuildLog.Layout.Gradle
import BuildLog.Layout.Maven

/-!
# Log layouts

A layout says which lines of a log announce a compilation and how the record of
such a line is recovered. `records` recovers the records of all of them in order
and stops at the first fault. A layout without task names counts its records, so
the count is passed from one line to the next.
-/

namespace BuildLog

inductive Layout where
  /-- The debug log of Gradle. -/
  | gradle
  /-- Older Gradle logs, where the arguments follow the task line at once. -/
  | gradleLegacy
  /-- The debug log of Maven, with a command line alone on a line. -/
  | maven
  /-- The debug log of Maven, with arguments behind an announcement. -/
  | mavenOptions
  deriving DecidableEq, Repr

namespace Layout

/-- The word for a layout on the command line. -/
def name : Layout → Text
  | gradle => "gradle".toList
  | gradleLegacy => "gradle-legacy".toList
  | maven => "maven".toList
  | mavenOptions => "maven-options".toList

def all : List Layout := [gradle, gradleLegacy, maven, mavenOptions]

/-- The layout that a word names. -/
def ofName? (s : Text) : Option Layout :=
  all.find? fun layout => layout.name == s

@[simp]
theorem ofName?_name (layout : Layout) : ofName? layout.name = some layout := by
  cases layout <;> decide

/-- Whether records pair lines that stand near each other. Such a layout needs a
build that does not mix the output of its tasks. -/
def serialized : Layout → Bool
  | maven => false
  | _ => true

/-- The positions of the lines that announce a compilation. -/
def markers (layout : Layout) (lines : List Text) : List Nat :=
  match layout with
  | gradle => Log.marked lines [Gradle.compilerWord]
  | gradleLegacy => Log.marked lines [Gradle.olderWord]
  | maven =>
    (Log.marked lines [Maven.directoryWord]).filter fun index =>
      (lines.getD index []).includes Maven.parametersWord
  | mavenOptions => Log.marked lines [Maven.announcementWord]

/-- The record of the line at `index`, with `count` records recovered so far. There is
none if the line turns out to compile nothing. -/
def record? (layout : Layout) (lines : List Text) (count index : Nat) :
    Except LineFault (Option Record) :=
  match layout with
  | gradle => Gradle.record? lines index
  | gradleLegacy => (Gradle.legacyRecord lines index).map some
  | maven => (Maven.commandLine lines index).map fun args => some ⟨Record.blobName count, args⟩
  | mavenOptions => Maven.announcedRecord? lines index

/-- The count behind a line: a record counts, a fault and a line without record do
not. -/
def countBehind (count : Nat) : Except LineFault (Option Record) → Nat
  | .ok (some _) => count + 1
  | _ => count

/-- The outcome for each position in turn. A fault does not end the walk. -/
def outcomes (layout : Layout) (lines : List Text) (count : Nat) :
    List Nat → List (Except LineFault (Option Record))
  | [] => []
  | index :: rest =>
    let outcome := layout.record? lines count index
    outcome :: layout.outcomes lines (countBehind count outcome) rest

/-- The records of the positions in turn, up to the first fault. A record named by
one of the `skip` words is counted and left out. -/
def recordsFrom (layout : Layout) (lines skip : List Text) (count : Nat) :
    List Nat → Except LineFault (List Record)
  | [] => .ok []
  | index :: rest =>
    match layout.record? lines count index with
    | .error fault => .error fault
    | .ok none => layout.recordsFrom lines skip count rest
    | .ok (some r) =>
      match layout.recordsFrom lines skip (count + 1) rest with
      | .error fault => .error fault
      | .ok rs => .ok (if r.isNamedBy skip then rs else r :: rs)

/-- The records of a log given by its lines. -/
def records (layout : Layout) (lines skip : List Text) : Except LineFault (List Record) :=
  layout.recordsFrom lines skip 0 (layout.markers lines)

/-- The records of a log given by its text. -/
def scrape (layout : Layout) (text : Text) (skip : List Text) : Except LineFault (List Record) :=
  layout.records (Log.lines text) skip

/-- Records gathered from several logs. Counted names are counted anew. -/
def gather (layout : Layout) (perLog : List (List Record)) : List Record :=
  match layout with
  | maven => Record.renumber perLog.flatten
  | _ => perLog.flatten

end Layout

end BuildLog
