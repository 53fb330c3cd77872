-- SUMMARY: Reasons why the operating system refuses an operation on a file or a program, and their wording.
import BuildLog.Text.Basic

/-!
# Errors of the operating system

The wording is the system's own, followed by the number of the error. A zero
character never reaches the system, so that error has no number.
-/

namespace BuildLog

inductive SystemError where
  | notFound
  | argumentTooLong
  | permissionDenied
  | alreadyExists
  | notADirectory
  | isADirectory
  | nameTooLong
  | tooManyLinks
  /-- A path holds a zero character. -/
  | zeroInPath
  /-- The name, the arguments or the directory of a program hold a zero character. -/
  | zeroInCommand
  /-- Any other error, in the words of the system. -/
  | other (number : Nat) (words : Text)
  deriving DecidableEq, Repr

namespace SystemError

def message : SystemError → Text
  | notFound => "No such file or directory (os error 2)".toList
  | argumentTooLong => "Argument list too long (os error 7)".toList
  | permissionDenied => "Permission denied (os error 13)".toList
  | alreadyExists => "File exists (os error 17)".toList
  | notADirectory => "Not a directory (os error 20)".toList
  | isADirectory => "Is a directory (os error 21)".toList
  | nameTooLong => "File name too long (os error 36)".toList
  | tooManyLinks => "Too many levels of symbolic links (os error 40)".toList
  | zeroInPath => "file name contained an unexpected NUL byte".toList
  | zeroInCommand => "nul byte found in provided data".toList
  | other number words => words ++ " (os error ".toList ++ Nat.toDigits 10 number ++ ")".toList

end SystemError

end BuildLog
