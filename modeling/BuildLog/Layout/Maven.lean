-- SUMMARY: Maven debug logs: the gutter of a line, banners and the target they name, and the records of both layouts.
import BuildLog.Log
import BuildLog.LineFault
import BuildLog.Pattern
import BuildLog.Record

/-!
# Maven logs

Maven starts each line with its log level. In debug logs a compiler command line
can stand alone on a line. It also follows a line that announces it, and then the
nearest banner above names the plugin execution and the module being compiled.
-/

namespace BuildLog.Maven

/-! ## Lines -/

/-- The width of `[INFO] `. The level `[DEBUG] ` is one column wider, and that
column is a blank. -/
def gutterWidth : Nat := 7

/-- What stands behind the gutter of the line with the given position. -/
def pastGutter (line : Text) (index : Nat) : Except LineFault Text :=
  if line.length < gutterWidth then .error (.narrowLine (index + 1) gutterWidth line.length)
  else .ok (Text.trim (line.drop gutterWidth))

/-- What sets the output directory on a command line. -/
def directoryWord : Text := " -d ".toList

/-- What keeps the names of parameters on a command line. -/
def parametersWord : Text := "-parameters".toList

/-- What announces a command line on the next line. -/
def announcementWord : Text := "Command line options:".toList

def namesOutputDirectory (line : Text) : Bool :=
  line.includes "-d".toList

/-! ## Banners -/

/-- A banner has the level `INFO` in brackets and an `@` behind it. -/
def bannerPattern : Pattern :=
  .many .any ++ .word "[".toList ++ .many .any ++ .word "INFO".toList ++ .many .any ++
    .word "]".toList ++ .many .any ++ .word " @ ".toList ++ .many .any

def isBanner (line : Text) : Bool :=
  bannerPattern.isMatch line

/-- A banner that names a target. The groups take the plugin execution and the module. -/
def targetPattern : Pattern :=
  .word "[INFO] ".toList ++ .alt (.word "---".toList) (.word ">>>".toList) ++ .word " ".toList ++
    .many .any ++ .word " (".toList ++ .group (.many .any) ++ .word ") @ ".toList ++
    .group (.atLeastOne .nonBlank)

/-- The plugin execution and the module that a banner names. -/
def target? (banner : Text) : Option (Text × Text) := do
  let groups ← targetPattern.captures? banner
  return (← groups[0]?, ← groups[1]?)

/-! ## Records -/

/-- The arguments of the record of a line that is a command line. -/
def commandLine (lines : List Text) (index : Nat) : Except LineFault Text :=
  pastGutter (lines.getD index []) index

/-- The name of the target of the nearest banner at or before the line. -/
def targetName (lines : List Text) (index : Nat) : Except LineFault Text :=
  match Log.nearest? isBanner lines index with
  | none => .error (.noTaskName (index + 1))
  | some place =>
    let banner := Text.trim (lines.getD place [])
    match target? banner with
    | some (execution, unit) => .ok (execution ++ ' ' :: unit)
    | none => .error (.unnamedTarget (place + 1) banner)

/-- The record of an announcement. The arguments stand on the next line; one that
names no output directory compiles nothing. -/
def announcedRecord? (lines : List Text) (index : Nat) : Except LineFault (Option Record) :=
  match lines[index + 1]? with
  | none => .error (.noArguments (index + 1))
  | some next =>
    if namesOutputDirectory next then do
      let args ← pastGutter next (index + 1)
      let name ← targetName lines index
      return some ⟨name, args⟩
    else .ok none

end BuildLog.Maven
