-- SUMMARY: Paths as written: joining without normalisation, and the names that a path is walked by.
import BuildLog.Text.Basic

/-!
# Paths

A path is kept as it is written. `push` joins two paths and normalises nothing.
`components` lists the names by which a path is walked.
-/

namespace BuildLog

structure Path where
  text : Text
  deriving DecidableEq, Repr

namespace Path

def isAbsolute (p : Path) : Bool :=
  p.text.head? == some '/'

def endsInSlash (p : Path) : Bool :=
  p.text.getLast? == some '/'

/-- The path `q` seen from `p`. An absolute path replaces the other. One slash is put
between them unless `p` is empty or ends in one. -/
def push (p q : Path) : Path :=
  if q.isAbsolute then q
  else if p.text.isEmpty || p.endsInSlash then ⟨p.text ++ q.text⟩
  else ⟨p.text ++ '/' :: q.text⟩

/-- What stands between a path and a name that is pushed. -/
def glue (p : Path) : Text :=
  if p.text.isEmpty || p.endsInSlash then [] else ['/']

theorem not_isAbsolute {s : Text} (hslash : '/' ∉ s) : ¬ isAbsolute ⟨s⟩ := by
  intro h
  have hhead : s.head? = some '/' := by simpa [isAbsolute] using h
  exact hslash (List.mem_of_head? hhead)

theorem push_of_not_isAbsolute {p q : Path} (h : ¬ q.isAbsolute) :
    p.push q = ⟨p.text ++ (p.glue ++ q.text)⟩ := by
  rw [push, if_neg h, glue]
  split <;> rfl

theorem push_name {p : Path} {name : Text} (hslash : '/' ∉ name) :
    p.push ⟨name⟩ = ⟨p.text ++ (p.glue ++ name)⟩ :=
  push_of_not_isAbsolute (not_isAbsolute hslash)

/-- The path with the names pushed in turn. -/
def pushAll (p : Path) (names : List Text) : Path :=
  names.foldl (fun p name => p.push ⟨name⟩) p

/-- The names between slashes. -/
def names (p : Path) : List Text :=
  (p.text.splitOn '/').filter fun name => !name.isEmpty

/-- The names that a walk reads. A slash at the end asks for a directory and leaves an
empty name behind the others. -/
def components (p : Path) : List Text :=
  if p.endsInSlash then p.names ++ [[]] else p.names

end Path

end BuildLog
