-- SUMMARY: Directives, which say from which level on notices are shown, and how they are read from a text.
import BuildLog.Notice
import BuildLog.Text.Blank

/-!
# Directives

A directive says from which level on notices are shown. It may be limited to notices
whose origin starts in a certain way and to notices that say something of a certain name.
It may also be limited to what is said in a span or about a certain value, and then it
concerns no notice here. Of the directives that concern a notice the most specific one decides.

Directives are written with commas between them, each as a level, as an origin, or as an
origin and a level with an equals sign between them. A span stands in brackets behind
the origin. A directive that is not understood is left out, with a complaint about it.
-/

namespace BuildLog.Notice

structure Directive where
  /-- How the origin starts. -/
  origin : Option Text
  /-- The name of something that a notice says. -/
  name : Option Text
  /-- Whether it is limited to a span or to a value. -/
  isNarrow : Bool
  /-- The least level that is shown, if any is. -/
  least : Option LogLevel
  deriving DecidableEq, Repr

namespace Directive

/-! ## Deciding about notices -/

def concerns (d : Directive) (n : Notice) : Bool :=
  !d.isNarrow && d.origin.all (·.isPrefixOf Notice.origin) && d.name.all (n.names.contains ·)

/-- Whether `d` is at least as specific as `e`. A longer origin counts most, and none
counts least. Then any name counts more than none, and of two names the later one in
the order of the characters. -/
def isAsSpecific (d e : Directive) : Bool :=
  let length (d : Directive) := (d.origin.map (·.length + 1)).getD 0
  length e < length d || length e == length d &&
    match e.name, d.name with
    | none, _ => true
    | some _, none => false
    | some name, some name' => !name'.lex name (fun a b => decide (a < b))

/-- The most specific directive that concerns a notice. Of two alike the later one
counts. -/
def deciding? (directives : List Directive) (n : Notice) : Option Directive :=
  (directives.filter (·.concerns n)).foldl (fun best d =>
    if best.all (d.isAsSpecific ·) then some d else best) none

/-- Whether a notice is shown. -/
def shows (directives : List Directive) (n : Notice) : Bool :=
  match (deciding? directives n).bind (·.least) with
  | some least => least.shows n.level
  | none => false

/-! ## Reading -/

/-- Why a directive is not understood. -/
inductive Fault where
  | malformed
  | unknownLevel
  deriving DecidableEq, Repr

def Fault.message : Fault → Text
  | malformed => "invalid filter directive".toList
  | unknownLevel =>
    ("error parsing level filter: expected one of \"off\", \"error\", \"warn\", \"info\", " ++
      "\"debug\", \"trace\", or a number 0-5").toList

/-- The number that a text writes, with or without a sign before its digits. -/
def number? (s : Text) : Option Nat :=
  let digits := (s.behind? ['+']).getD s
  if digits.isEmpty || !digits.all Char.isDigit then none
  else some (digits.foldl (fun n c => n * 10 + (c.toNat - '0'.toNat)) 0)

/-- The least level that a text asks for: a word, or a number that counts the levels
shown. -/
def least? (s : Text) : Option (Option LogLevel) :=
  match number? s with
  | some 0 => some none
  | some (n + 1) => LogLevel.all.reverse[n]?.map some
  | none => if s.map Char.toLower == "off".toList then some none else (LogLevel.ofWord? s).map some

/-- The directive with the level that is written behind an equals sign, or with every
level if none is. -/
def withLevel (d : Directive) (s : Text) : Except Fault Directive :=
  if s.isEmpty then .ok { d with least := some .trace }
  else
    match least? s with
    | some least => .ok { d with least }
    | none => .error .unknownLevel

/-- The characters that an origin or a level may start with. -/
def isStart (c : Char) : Bool :=
  c.isAlphanum || '\x7f' < c || c == '-' || c == ':' || c == '_'

/-- The directive with what stands behind an opening bracket, up to the closing one, and
the text behind that. -/
def inBrackets? (d : Directive) (s : Text) : Option (Directive × Text) :=
  let span := s.takeWhile fun c => c != ']' && c != '{'
  match s.drop span.length with
  | ']' :: rest => some ({ d with isNarrow := true }, rest)
  | '{' :: field =>
    let name := field.takeWhile fun c => c != '=' && c != '}'
    let value := (field.drop name.length).takeWhile (· != '}')
    match field.drop (name.length + value.length) with
    | '}' :: ']' :: rest =>
      if name.isEmpty && value.isEmpty then none
      else
        some ({ d with name := some name, isNarrow := !span.isEmpty || !value.isEmpty }, rest)
    | _ => none
  | _ => none

/-- What ends a directive with a span: nothing, or a level. The level is taken from where
`behind` finds it. -/
def ending (behind : Text → Text) : Directive × Text → Except Fault Directive
  | (d, []) => .ok d
  | (d, '=' :: level) => d.withLevel (behind level)
  | _ => .error .malformed

/-- Read a directive. Blanks around it are passed over when its parts are looked for, but
each part is taken from the whole text. -/
def ofText (s : Text) : Except Fault Directive :=
  let inner := s.trim
  let name := inner.takeWhile fun c => c != '=' && c != '['
  let everything : Directive := ⟨none, none, false, some .trace⟩
  let named := { everything with origin := some (s.take name.length) }
  let behind (rest : Text) := s.drop (inner.length - rest.length)
  match name.head?.map isStart, inner.drop name.length with
  | none, '[' :: rest => (inBrackets? everything rest).elim (.error .malformed) (ending behind)
  | some true, '[' :: rest => (inBrackets? named rest).elim (.error .malformed) (ending behind)
  | some true, '=' :: level => named.withLevel (behind level)
  | some true, _ =>
    match least? s with
    | some least => .ok { everything with least }
    | none => .ok { everything with origin := some s }
  | _, _ => .error .malformed

/-- Read the directives of a text. -/
def listOfText (s : Text) : List (Text × Except Fault Directive) :=
  ((s.splitOn ',').filter fun piece => !piece.isEmpty).map fun piece => (piece, ofText piece)

/-- The directives that are understood. Without any, errors are shown. -/
def directives (s : Text) : List Directive :=
  match (listOfText s).filterMap fun (_, d) => d.toOption with
  | [] => [⟨none, none, false, some .error⟩]
  | ds => ds

/-- What is said about the directives that are not understood. -/
def complaints (s : Text) : List Text :=
  (listOfText s).filterMap fun (piece, d) =>
    match d with
    | .ok _ => none
    | .error fault => some ("ignoring `".toList ++ piece ++ "`: ".toList ++ fault.message)

end Directive

end BuildLog.Notice
