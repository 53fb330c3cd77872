-- SUMMARY: Notices about the builds that are run: their level, their text, and the line they are shown as.
import BuildLog.LogLevel

/-!
# Notices

A notice tells what is being done: an event, and the named values that it concerns. A
notice is shown as one line behind the time, unless a value holds a line feed.
-/

namespace BuildLog

structure Notice where
  level : LogLevel
  event : Text
  values : List (Text × Text)
  deriving DecidableEq, Repr

namespace Notice

/-- Where all notices come from. -/
def origin : Text := "javac_args::runner".toList

/-- The names of what a notice says. The event is its message. -/
def names (n : Notice) : List Text :=
  "message".toList :: n.values.map (·.1)

def text (n : Notice) : Text :=
  n.event ++ n.values.flatMap fun (name, value) => ' ' :: name ++ '=' :: value

/-- The notice as it is shown at a time. -/
def line (time : Text) (n : Notice) : Text :=
  time ++ ' ' :: n.level.label ++ ' ' :: n.text

end Notice

end BuildLog
