-- SUMMARY: Reasons why the program stops without a report, and their wording.
import BuildLog.LineFault
import BuildLog.Settings

/-!
# Failures

Each failure carries what it is about: a file, a program, the settings, or a line of a
log. A failure of the system that is about none of them is only its cause.
-/

namespace BuildLog

inductive Failure where
  | system (cause : SystemError)
  | file (path : Path) (cause : SystemError)
  /-- A program could not be started. -/
  | start (program : Path) (cause : SystemError)
  | settings (path : Path) (problem : Settings.Problem)
  | line (fault : LineFault)
  deriving DecidableEq, Repr

def Failure.message : Failure → Text
  | system cause => cause.message
  | file path cause => path.text ++ ": ".toList ++ cause.message
  | start program cause => "failed to run ".toList ++ program.text ++ ": ".toList ++ cause.message
  | settings path problem => path.text ++ ": ".toList ++ problem.message
  | line fault => fault.message

end BuildLog
