-- SUMMARY: Gradle debug logs: the task named by a line, the compiler arguments on a line, and the records of both layouts.
import BuildLog.Log
import BuildLog.LineFault
import BuildLog.Pattern
import BuildLog.Record

/-!
# Gradle logs

Gradle announces a compilation by a line that quotes `Compile Java for` and the
path of the task. The arguments of the compiler stand on a later line, or in
older logs on the very next one.
-/

namespace BuildLog.Gradle

/-! ## Lines -/

/-- What opens the quoted name of a task. -/
def taskOpening : Text := "'Compile Java for ".toList

/-- A line with a task: an opening, and a quote somewhere behind it. The group takes the name. -/
def taskPattern : Pattern :=
  .many .any ++ .word taskOpening ++ .group (.many .any) ++ .word ['\'']

def isTaskLine (line : Text) : Bool :=
  taskPattern.isMatch line

/-- The task that a line names. -/
def taskName? (line : Text) : Option Text :=
  (taskPattern.captures? line).bind (·[0]?)

/-- What stands before the arguments of the compiler. -/
def argumentsWord : Text := "arguments:".toList

/-- The arguments on a line. One character separates them from the word. -/
def arguments? (line : Text) : Option Text :=
  (line.after? argumentsWord).map fun behind => Text.trim (behind.drop 1)

/-- The name that the compiler logs under. It logs other messages too. -/
def compilerWord : Text := "NormalizingJavaCompiler".toList

/-- What announces arguments in older logs. -/
def olderWord : Text := "Compiler arguments:".toList

/-! ## Records -/

/-- The arguments on the line at `index`, which has to carry some. -/
def argumentsAt (lines : List Text) (index : Nat) : Except LineFault Text :=
  match arguments? (lines.getD index []) with
  | some args => .ok args
  | none => .error (.noArguments (index + 1))

/-- The record of a compiler line that carries arguments. The nearest task named at
or before the line is the one compiled. -/
def record? (lines : List Text) (index : Nat) : Except LineFault (Option Record) :=
  if (lines.getD index []).includes argumentsWord then
    match Log.nearest? isTaskLine lines index with
    | none => .error (.noTaskName (index + 1))
    | some place =>
      match taskName? (lines.getD place []) with
      | none => .error (.noTaskName (index + 1))
      | some name => do
        let args ← argumentsAt lines index
        return some ⟨name, args⟩
  else .ok none

/-- The task named by the line right above `index`. -/
def taskNameAbove? (lines : List Text) : Nat → Option Text
  | 0 => none
  | above + 1 => taskName? (lines.getD above [])

/-- The record of an arguments line in an older log. The line right above names the
task. -/
def legacyRecord (lines : List Text) (index : Nat) : Except LineFault Record :=
  match taskNameAbove? lines index with
  | none => .error (.noTaskName (index + 1))
  | some name => do
    let args ← argumentsAt lines index
    return ⟨name, args⟩

end BuildLog.Gradle
