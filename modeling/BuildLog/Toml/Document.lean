-- SUMMARY: TOML documents of strings, arrays and tables, read from tokens.
import BuildLog.Toml.Token

/-!
# TOML documents

A document is a list of sections. The first has no header; each further one starts at a
header in brackets. A section lists keys and values in the order written. Values are
strings, arrays and inline tables. TOML knows more kinds of values, and a document
that holds one of those is refused like a malformed one: nothing here has a use for
them.
-/

namespace BuildLog.Toml

/-- A key is a list of names, written with periods between them. -/
abbrev Key := List Text

inductive Value where
  | string (text : Text)
  | array (items : List Value)
  | table (pairs : List (Key × Value))
  deriving Repr

/-- The pairs below a header. The header of an array of tables stands in double
brackets. -/
structure Section where
  header : Key
  isArray : Bool
  pairs : List (Key × Value)
  deriving Repr

/-! ## Keys -/

/-- A name is a bare word or a string on one line. -/
def name? : List Token → Option (Text × List Token)
  | .word text :: rest => some (text, rest)
  | .string text false :: rest => some (text, rest)
  | _ => none

/-- The further names of a key, each behind a period. -/
def moreNames? (names : Key) : List Token → Option (Key × List Token)
  | .period :: .word text :: rest => moreNames? (text :: names) rest
  | .period :: .string text false :: rest => moreNames? (text :: names) rest
  | .period :: _ => none
  | rest => some (names.reverse, rest)

def key? (tokens : List Token) : Option (Key × List Token) :=
  match name? tokens with
  | some (text, rest) => moreNames? [text] rest
  | none => none

/-- A key and the equals sign behind it. -/
def keyEquals? (tokens : List Token) : Option (Key × List Token) :=
  match key? tokens with
  | some (key, .equals :: rest) => some (key, rest)
  | _ => none

theorem name?_length {tokens rest : List Token} {text : Text}
    (h : name? tokens = some (text, rest)) : rest.length < tokens.length := by
  unfold name? at h
  split at h <;> cases h <;> simp

theorem moreNames?_length {names key : Key} {tokens rest : List Token}
    (h : moreNames? names tokens = some (key, rest)) : rest.length ≤ tokens.length := by
  fun_induction moreNames? names tokens with
  | case1 _ _ _ ih => have := ih h; simp only [List.length_cons]; omega
  | case2 _ _ _ ih => have := ih h; simp only [List.length_cons]; omega
  | case3 => cases h
  | case4 => cases h; exact Nat.le_refl _

theorem key?_length {tokens rest : List Token} {key : Key} (h : key? tokens = some (key, rest)) :
    rest.length < tokens.length := by
  unfold key? at h
  split at h
  · next hn => exact Nat.lt_of_le_of_lt (moreNames?_length h) (name?_length hn)
  · cases h

theorem keyEquals?_length {tokens rest : List Token} {key : Key}
    (h : keyEquals? tokens = some (key, rest)) : rest.length < tokens.length := by
  unfold keyEquals? at h
  split at h
  · next hk =>
    cases h
    exact Nat.lt_trans (Nat.lt_succ_self _) (key?_length hk)
  · cases h

/-! ## Values -/

def skipLineEnds (tokens : List Token) : List Token :=
  tokens.dropWhile (· == .lineEnd)

theorem skipLineEnds_length (tokens : List Token) :
    (skipLineEnds tokens).length ≤ tokens.length :=
  (List.dropWhile_suffix _).length_le

theorem length_lt_of_skipLineEnds {tokens rest : List Token} {token : Token}
    (h : skipLineEnds tokens = token :: rest) : rest.length < tokens.length := by
  have := skipLineEnds_length tokens
  rwa [h] at this

/-- What reading tokens can give: a value, and the tokens behind it, which are fewer. -/
abbrev Reading (tokens : List Token) :=
  Option (Value × { rest : List Token // rest.length < tokens.length })

/-- What reading the `later` ones of the tokens gives. -/
def Reading.among {later tokens : List Token} (r : Reading later)
    (h : later.length ≤ tokens.length) : Reading tokens :=
  r.map fun (value, rest) => (value, ⟨rest, Nat.lt_of_lt_of_le rest.2 h⟩)

mutual

def value? (tokens : List Token) : Reading tokens :=
  match tokens with
  | .string text _ :: rest => some (.string text, ⟨rest, Nat.lt_succ_self _⟩)
  | .openBracket :: rest => (items? [] rest).among (Nat.le_succ _)
  | .openBrace :: .closeBrace :: rest =>
    some (.table [], ⟨rest, Nat.lt_succ_of_lt (Nat.lt_succ_self _)⟩)
  | .openBrace :: rest => (pairs? [] rest).among (Nat.le_succ _)
  | _ => none
termination_by (tokens.length, 0)

/-- The items of an array up to its bracket. Lines may end between them, and a comma
may stand behind the last one. -/
def items? (done : List Value) (tokens : List Token) : Reading tokens :=
  match h : skipLineEnds tokens with
  | .closeBracket :: rest => some (.array done.reverse, ⟨rest, length_lt_of_skipLineEnds h⟩)
  | ahead =>
    have ahead_le : ahead.length ≤ tokens.length := h ▸ skipLineEnds_length tokens
    match value? ahead with
    | none => none
    | some (value, ⟨rest, rest_lt⟩) =>
      match h : skipLineEnds rest with
      | .closeBracket :: behind =>
        have := length_lt_of_skipLineEnds h
        some (.array (value :: done).reverse, ⟨behind, by omega⟩)
      | .comma :: behind =>
        have := length_lt_of_skipLineEnds h
        (items? (value :: done) behind).among (by omega)
      | _ => none
termination_by (tokens.length, 1)
decreasing_by
  · rcases Nat.lt_or_eq_of_le ahead_le with lt | eq
    · exact Prod.Lex.left _ _ lt
    · exact eq ▸ Prod.Lex.right _ Nat.zero_lt_one
  · exact Prod.Lex.left _ _ (by omega)

/-- The pairs of an inline table up to its brace, all on one line and at least one. -/
def pairs? (done : List (Key × Value)) (tokens : List Token) : Reading tokens :=
  match h : keyEquals? tokens with
  | none => none
  | some (key, behindEquals) =>
    have := keyEquals?_length h
    match value? behindEquals with
    | none => none
    | some (value, ⟨.closeBrace :: rest, h⟩) =>
      have := List.length_cons ▸ h
      some (.table ((key, value) :: done).reverse, ⟨rest, by omega⟩)
    | some (value, ⟨.comma :: rest, h⟩) =>
      have := List.length_cons ▸ h
      (pairs? ((key, value) :: done) rest).among (by omega)
    | some _ => none
termination_by (tokens.length, 1)

end

/-! ## Sections -/

/-- The tokens behind the end of a line, or none at the end of the document. -/
def endOfLine? : List Token → Option (List Token)
  | [] => some []
  | .lineEnd :: rest => some rest
  | _ => none

theorem endOfLine?_length {tokens rest : List Token} (h : endOfLine? tokens = some rest) :
    rest.length ≤ tokens.length := by
  unfold endOfLine? at h
  split at h <;> cases h <;> simp

/-- A header and the end of its line. -/
def header? : List Token → Option (Key × Bool × List Token)
  | .openBracket :: .openBracket :: rest =>
    match key? rest with
    | some (key, .closeBracket :: .closeBracket :: behind) =>
      (endOfLine? behind).map fun behind => (key, true, behind)
    | _ => none
  | .openBracket :: rest =>
    match key? rest with
    | some (key, .closeBracket :: behind) =>
      (endOfLine? behind).map fun behind => (key, false, behind)
    | _ => none
  | _ => none

theorem header?_length {tokens rest : List Token} {key : Key} {isArray : Bool}
    (h : header? tokens = some (key, isArray, rest)) : rest.length < tokens.length := by
  unfold header? at h
  split at h
  · split at h
    · next hk =>
      simp only [Option.map_eq_some_iff, Prod.mk.injEq] at h
      obtain ⟨_, he, -, -, rfl⟩ := h
      have h₁ := key?_length hk
      have h₂ := endOfLine?_length he
      simp only [List.length_cons] at *
      omega
    · cases h
  · split at h
    · next hk =>
      simp only [Option.map_eq_some_iff, Prod.mk.injEq] at h
      obtain ⟨_, he, -, -, rfl⟩ := h
      have h₁ := key?_length hk
      have h₂ := endOfLine?_length he
      simp only [List.length_cons] at *
      omega
    · cases h
  · cases h

/-- A key, its value and the end of the line. -/
def pair? (tokens : List Token) : Option ((Key × Value) × List Token) :=
  match keyEquals? tokens with
  | none => none
  | some (key, behindEquals) =>
    match value? behindEquals with
    | none => none
    | some (value, behind) => (endOfLine? behind.1).map fun rest => ((key, value), rest)

theorem pair?_length {tokens rest : List Token} {pair : Key × Value}
    (h : pair? tokens = some (pair, rest)) : rest.length < tokens.length := by
  unfold pair? at h
  split at h
  · cases h
  · next hk =>
    split at h
    · cases h
    · next behind _ =>
      simp only [Option.map_eq_some_iff, Prod.mk.injEq] at h
      obtain ⟨_, he, -, rfl⟩ := h
      have h₁ := keyEquals?_length hk
      have h₂ := endOfLine?_length he
      have h₃ := behind.2
      omega

/-- The sections of a document. The current section is `current`, with its last pair
first, and the sections before it are `done`, last first. -/
def sectionsFrom? (done : List Section) (current : Section) (tokens : List Token) :
    Option (List Section) :=
  let closed := { current with pairs := current.pairs.reverse }
  match tokens with
  | [] => some (closed :: done).reverse
  | .lineEnd :: rest => sectionsFrom? done current rest
  | .openBracket :: ahead =>
    match _h : header? (.openBracket :: ahead) with
    | none => none
    | some (key, isArray, rest) => sectionsFrom? (closed :: done) ⟨key, isArray, []⟩ rest
  | first :: ahead =>
    match _h : pair? (first :: ahead) with
    | none => none
    | some (pair, rest) => sectionsFrom? done { current with pairs := pair :: current.pairs } rest
termination_by tokens.length
decreasing_by
  · simp
  · exact header?_length _h
  · exact pair?_length _h

/-- The sections of a document. -/
def sections? (document : Text) : Option (List Section) :=
  match tokens? document with
  | some tokens => sectionsFrom? [] ⟨[], false, []⟩ tokens
  | none => none

end BuildLog.Toml
