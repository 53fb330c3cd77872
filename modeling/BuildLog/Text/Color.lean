-- SUMMARY: Words in colour, for terminals.
import BuildLog.Text.Basic

/-!
# Colours

A terminal shows a word in a colour if control sequences stand around it: one that
chooses the colour, and one that goes back to the usual one.
-/

namespace BuildLog

inductive Color where
  | red
  | yellow
  deriving DecidableEq, Repr

namespace Color

/-- The number of the colour in a control sequence. -/
def code : Color → Text
  | red => "31".toList
  | yellow => "33".toList

def paint (color : Color) (word : Text) : Text :=
  "\x1b[".toList ++ color.code ++ 'm' :: word ++ "\x1b[0m".toList

end Color

end BuildLog
