-- SUMMARY: The lines of a log, the lines that satisfy a test, and the nearest one at or before a line.
import BuildLog.Text.Escape

/-!
# Lines of a log

A log is cut at its line feeds. Control sequences are stripped from each line, and
so are the carriage returns at its end. Lines are counted from zero; the messages
about them count from one.
-/

namespace BuildLog.Log

/-! ## Cutting a log into lines -/

/-- The pieces between line feeds. A line feed ends a line and starts none, so
nothing stands behind the last one. -/
def rawLines (text : Text) : List Text :=
  let pieces := text.splitOn '\n'
  if pieces.getLast? = some [] then pieces.dropLast else pieces

/-- A line without control sequences and without carriage returns at its end. -/
def tidy (line : Text) : Text :=
  (Text.strip line).dropEndWhile (· == '\r')

def lines (text : Text) : List Text :=
  (rawLines text).map tidy

/-! ## Positions -/

/-- The positions of the elements that satisfy `p`, in order. -/
def positions (p : α → Bool) (xs : List α) : List Nat :=
  (xs.zipIdx.filter fun (x, _) => p x).map (·.2)

/-- The positions of the lines that include at least one of the words. -/
def marked (lines words : List Text) : List Nat :=
  positions (fun line => words.any line.includes) lines

/-- The last position below `bound` whose element satisfies `p`. -/
def lastBelow? (p : α → Bool) (xs : List α) (bound : Nat) : Option Nat :=
  let ahead := xs.take bound
  (ahead.reverse.findIdx? p).map fun back => ahead.length - 1 - back

/-- What positions are counted by. -/
class Counter (ι : Type) where
  /-- The position behind one, if it can be counted. -/
  next? : ι → Option Nat

instance : Counter Nat where
  next? start := some (start + 1)

/-- The greatest machine word has no successor. -/
instance : Counter UInt64 where
  next? start := if start + 1 = 0 then none else some (start.toNat + 1)

/-- The last position at or before `start` whose element satisfies `p`. The search needs
the position behind `start` as its bound, so it finds nothing where that cannot be counted. -/
def nearest? [Counter ι] (p : α → Bool) (xs : List α) (start : ι) : Option Nat :=
  (Counter.next? start).bind (lastBelow? p xs)

end BuildLog.Log
