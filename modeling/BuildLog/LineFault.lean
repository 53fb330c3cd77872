-- SUMMARY: Reasons why the record announced by a line cannot be recovered, and their wording.
import BuildLog.Text.Basic

/-!
# Faults of lines

A line that announces a compilation can fail to yield its record. Each fault
carries the number of the line to blame, counted from one.
-/

namespace BuildLog

inductive LineFault where
  /-- No task is named at or before the line. -/
  | noTaskName (line : Nat)
  /-- The nearest banner names no target. -/
  | unnamedTarget (line : Nat) (banner : Text)
  /-- The line announces arguments that do not follow. -/
  | noArguments (line : Nat)
  /-- The line is shorter than the gutter that it should start with. -/
  | narrowLine (line width length : Nat)
  deriving DecidableEq, Repr

namespace LineFault

/-- The number of the line to blame. -/
def line : LineFault → Nat
  | noTaskName line => line
  | unnamedTarget line _ => line
  | noArguments line => line
  | narrowLine line _ _ => line

def decimal (n : Nat) : Text := Nat.toDigits 10 n

/-- What is said behind the number of the line. -/
def complaint : LineFault → Text
  | noTaskName _ => "no task name found for compiler arguments".toList
  | unnamedTarget _ banner => "project line does not name a target: ".toList ++ banner
  | noArguments _ => "marker line carries no arguments".toList
  | narrowLine _ width length =>
    "expected a ".toList ++ decimal width ++ " column log gutter, got ".toList ++ decimal length

def message (fault : LineFault) : Text :=
  "line ".toList ++ decimal fault.line ++ ": ".toList ++ fault.complaint

end LineFault

end BuildLog
