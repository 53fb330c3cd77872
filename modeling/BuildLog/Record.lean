-- SUMMARY: Records of compilations, their printed report, and the numbering of records without a task name.
import BuildLog.Text.Basic

/-!
# Records

A record is one compilation found in a log: the name of its task and the
arguments of the compiler. A report prints two lines for each record.
-/

namespace BuildLog

structure Record where
  name : Text
  args : Text
  deriving DecidableEq, Repr

namespace Record

/-- The name of a record that can only be counted. -/
def blobName (n : Nat) : Text :=
  "blob ".toList ++ Nat.toDigits 10 n

/-- Name the records by their positions. -/
def renumber (records : List Record) : List Record :=
  records.mapIdx fun n r => { r with name := blobName n }

@[simp]
theorem renumber_length (records : List Record) : (renumber records).length = records.length := by
  simp [renumber]

theorem renumber_args (records : List Record) :
    (renumber records).map args = records.map args := by
  apply List.ext_getElem <;> simp [renumber]

/-- Whether the name of the record includes one of the words. -/
def isNamedBy (r : Record) (words : List Text) : Bool :=
  words.any r.name.includes

/-- The name and the arguments, each ended by a line feed. -/
def render (r : Record) : Text :=
  r.name ++ '\n' :: r.args ++ ['\n']

/-- The records rendered one behind the other. -/
def report (records : List Record) : Text :=
  records.flatMap render

@[simp]
theorem report_nil : report [] = [] := rfl

@[simp]
theorem report_cons (r : Record) (rs : List Record) : report (r :: rs) = r.render ++ report rs := by
  simp [report]

end Record

end BuildLog
