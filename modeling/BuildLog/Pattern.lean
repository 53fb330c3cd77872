-- SUMMARY: Patterns of text, and the groups of the first match of a pattern at the start of a text.
import BuildLog.Text.Blank

/-!
# Patterns

A pattern is matched at the start of a text, and the match may end anywhere in it. The ways
to match are tried in turn. A repetition takes as many characters as it can and gives them
back one by one, and of two alternatives the first one is tried first. The first way in which
all of the pattern matches is the one that counts.
-/

namespace BuildLog

/-- The characters that a pattern takes at one place. -/
inductive CharClass where
  | only (c : Char)
  /-- Any character that does not end a line. -/
  | any
  | nonBlank
  deriving DecidableEq, Repr

namespace CharClass

def takes : CharClass → Char → Bool
  | only c', c => c == c'
  | any, c => c != '\n'
  | nonBlank, c => !isBlank c

/-- The walk behind `rests`: `shorter` holds what stands behind the runs that are shorter. -/
def restsFrom (cls : CharClass) (shorter : List Text) : Text → List Text
  | [] => [] :: shorter
  | c :: s => if cls.takes c then cls.restsFrom ((c :: s) :: shorter) s else (c :: s) :: shorter

/-- What stands behind each run of such characters at the start, the longest run first. -/
def rests (cls : CharClass) (s : Text) : List Text :=
  cls.restsFrom [] s

end CharClass

inductive Pattern where
  | empty
  | one (cls : CharClass)
  /-- A run of such characters, as long as can be. -/
  | many (cls : CharClass)
  | seq (p q : Pattern)
  | alt (p q : Pattern)
  /-- What the pattern takes is captured. -/
  | group (p : Pattern)
  deriving DecidableEq, Repr

namespace Pattern

instance : Append Pattern := ⟨seq⟩

/-- The characters of a word, one after the other. -/
def word : Text → Pattern
  | [] => empty
  | c :: w => one (.only c) ++ word w

/-- A run of such characters that is not empty. -/
def atLeastOne (cls : CharClass) : Pattern :=
  one cls ++ many cls

/-- The first of the matches at the start of the text from which `next` goes on. It is given
the groups captured so far and what stands behind the match. -/
def first? : Pattern → List Text → Text → (List Text → Text → Option β) → Option β
  | empty, groups, s, next => next groups s
  | one _, _, [], _ => none
  | one cls, groups, c :: s, next => if cls.takes c then next groups s else none
  | many cls, groups, s, next => (cls.rests s).findSome? (next groups)
  | seq p q, groups, s, next => p.first? groups s fun groups rest => q.first? groups rest next
  | alt p q, groups, s, next => p.first? groups s next <|> q.first? groups s next
  | group p, groups, s, next =>
    p.first? groups s fun groups rest => next (groups ++ [s.take (s.length - rest.length)]) rest

/-- What the groups capture in the first match at the start of the text. -/
def captures? (p : Pattern) (s : Text) : Option (List Text) :=
  p.first? [] s fun groups _ => some groups

def isMatch (p : Pattern) (s : Text) : Bool :=
  (p.captures? s).isSome

end Pattern

end BuildLog
