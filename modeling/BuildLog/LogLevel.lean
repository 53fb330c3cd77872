-- SUMMARY: Levels of the program's own messages, the words for them, and which levels are shown.
import BuildLog.Text.Basic

/-!
# Log levels

A level is named by a word in any mix of capital and small letters. A word that names
no level stands for `info`. Only ASCII letters matter here: no other character has a
letter of these words as its small form. The levels are listed from the least to the
most important one.
-/

namespace BuildLog

inductive LogLevel where
  | trace
  | debug
  | info
  | warn
  | error
  deriving DecidableEq, Repr

namespace LogLevel

def word : LogLevel → Text
  | trace => "trace".toList
  | debug => "debug".toList
  | info => "info".toList
  | warn => "warn".toList
  | error => "error".toList

def all : List LogLevel := [trace, debug, info, warn, error]

/-- The level that a word names. -/
def ofWord? (s : Text) : Option LogLevel :=
  all.find? fun level => level.word == s.map Char.toLower

@[simp]
theorem ofWord?_word (level : LogLevel) : ofWord? level.word = some level := by
  cases level <;> decide

/-- The level that a word stands for. -/
def ofWord (s : Text) : LogLevel :=
  (ofWord? s).getD info

/-- The word in capital letters, in a column of five. -/
def label (level : LogLevel) : Text :=
  let word := level.word.map Char.toUpper
  List.replicate (5 - word.length) ' ' ++ word

/-- Whether something of a level is shown where `least` is asked for. -/
def shows (least level : LogLevel) : Bool :=
  (all.dropWhile (· != least)).contains level

/-- What is said about a word that names no level. -/
def warning? (s : Text) : Option Text :=
  match ofWord? s with
  | some _ => none
  | none => some ("invalid log level '".toList ++ s ++ "', using info".toList)

end LogLevel

end BuildLog
