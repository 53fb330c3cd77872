-- SUMMARY: The Unicode property White_Space, trimming, and the first word of a text.
import BuildLog.Text.Basic

/-!
# Blank characters

A character is blank if it has the Unicode property `White_Space`. That property
holds of more characters than the ASCII blanks and of no format character: a
zero width space is not blank.
-/

namespace BuildLog

/-- The characters with the Unicode property `White_Space`. -/
def isBlank (c : Char) : Bool :=
  ('\t' ≤ c && c ≤ '\r') || c == ' ' || c == '\u0085' || c == '\u00a0' || c == '\u1680' ||
    ('\u2000' ≤ c && c ≤ '\u200a') || c == '\u2028' || c == '\u2029' || c == '\u202f' ||
    c == '\u205f' || c == '\u3000'

namespace Text

/-- The text without the blanks at both ends. -/
def trim (s : Text) : Text :=
  dropEndWhile (s.dropWhile isBlank) isBlank

/-- The first maximal run of characters that are not blank. -/
def firstWord? (s : Text) : Option Text :=
  match (s.dropWhile isBlank).takeWhile fun c => !isBlank c with
  | [] => none
  | word => some word

end Text

end BuildLog
