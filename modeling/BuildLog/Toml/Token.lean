-- SUMMARY: The tokens of a TOML document: marks, bare words, strings and line ends.
import BuildLog.Text.Basic

/-!
# TOML tokens

A document is read as a list of tokens. Blanks and comments between them are passed
over. A string is read with its escapes resolved, and remembers whether it may run
over several lines, because a key may not. A character that starts no token makes
the document malformed.
-/

namespace BuildLog.Toml

inductive Token where
  | lineEnd
  | equals
  | period
  | comma
  | openBracket
  | closeBracket
  | openBrace
  | closeBrace
  | word (text : Text)
  | string (text : Text) (multiline : Bool)
  deriving DecidableEq, Repr

/-! ## Characters -/

def isSpace (c : Char) : Bool := c == ' ' || c == '\t'

/-- The characters of a bare word. -/
def isWordChar (c : Char) : Bool :=
  c.isAlphanum || c == '-' || c == '_'

/-- The characters that may stand in a comment. -/
def isCommentChar (c : Char) : Bool := c == '\t' || ' ' ≤ c

/-- The characters that may stand in a string as they are. -/
def isStringChar (c : Char) : Bool := c == '\t' || (' ' ≤ c && c != '\x7f')

/-- The value of a hexadecimal digit. -/
def hexDigit? (c : Char) : Option Nat :=
  if '0' ≤ c && c ≤ '9' then some (c.toNat - '0'.toNat)
  else if 'a' ≤ c && c ≤ 'f' then some (c.toNat - 'a'.toNat + 10)
  else if 'A' ≤ c && c ≤ 'F' then some (c.toNat - 'A'.toNat + 10)
  else none

/-! ## Strings -/

/-- How a string is quoted. A basic string resolves escapes, a literal string has
none. -/
structure Quote where
  mark : Char
  multiline : Bool
  deriving DecidableEq, Repr

def Quote.resolvesEscapes (q : Quote) : Bool := q.mark == '"'

/-- The character of a code point written with `n` hexadecimal digits, and what stands
behind them. -/
def codePoint? (value : Nat) : Nat → Text → Option (Char × Text)
  | 0, rest => if value.isValidChar then some (Char.ofNat value, rest) else none
  | _ + 1, [] => none
  | n + 1, c :: rest =>
    match hexDigit? c with
    | some digit => codePoint? (value * 16 + digit) n rest
    | none => none

theorem codePoint?_length {value n : Nat} {s behind : Text} {c : Char}
    (h : codePoint? value n s = some (c, behind)) : behind.length ≤ s.length := by
  induction n generalizing value s with
  | zero =>
    simp only [codePoint?] at h
    split at h <;> grind
  | succ n ih =>
    cases s with
    | nil => simp [codePoint?] at h
    | cons d rest =>
      simp only [codePoint?] at h
      split at h
      · exact Nat.le_succ_of_le (ih h)
      · cases h

/-- The text of an escape whose backslash has been read, and what stands behind it. In
a multiline string a backslash at the end of a line joins the lines. -/
def escape? (q : Quote) : Text → Option (Text × Text)
  | '"' :: rest => some (['"'], rest)
  | '\\' :: rest => some (['\\'], rest)
  | 'b' :: rest => some (['\x08'], rest)
  | 'f' :: rest => some (['\x0c'], rest)
  | 'n' :: rest => some (['\n'], rest)
  | 'r' :: rest => some (['\r'], rest)
  | 't' :: rest => some (['\t'], rest)
  | 'u' :: rest => (codePoint? 0 4 rest).map fun (c, behind) => ([c], behind)
  | 'U' :: rest => (codePoint? 0 8 rest).map fun (c, behind) => ([c], behind)
  | s =>
    match q.multiline, s.dropWhile isSpace with
    | true, '\n' :: rest => some ([], rest.dropWhile fun c => isSpace c || c == '\n')
    | _, _ => none

theorem escape?_length {q : Quote} {s text behind : Text}
    (h : escape? q s = some (text, behind)) : behind.length ≤ s.length := by
  unfold escape? at h
  split at h
  case h_8 rest =>
    obtain ⟨⟨c, _⟩, hc, heq⟩ := Option.map_eq_some_iff.1 h
    cases heq
    exact Nat.le_succ_of_le (codePoint?_length hc)
  case h_9 rest =>
    obtain ⟨⟨c, _⟩, hc, heq⟩ := Option.map_eq_some_iff.1 h
    cases heq
    exact Nat.le_succ_of_le (codePoint?_length hc)
  case h_10 =>
    split at h
    · next rest _ hs =>
      cases h
      have h₁ := Text.length_dropWhile_le isSpace s
      have h₂ := Text.length_dropWhile_le (fun c => isSpace c || c == '\n') rest
      rw [hs, List.length_cons] at h₁
      omega
    · cases h
  all_goals cases h; simp

/-- The marks that belong to the string before the mark or marks that close it, and
what stands behind those. Up to two marks may stand before three that close. -/
def closing? (q : Quote) (s : Text) : Option (Text × Text) :=
  let m := q.mark
  if q.multiline then
    match Text.behind? s [m, m, m] with
    | none => none
    | some rest =>
      match Text.behind? rest [m, m] with
      | some behind => some ([m, m], behind)
      | none =>
        match Text.behind? rest [m] with
        | some behind => some ([m], behind)
        | none => some ([], rest)
  else
    match Text.behind? s [m] with
    | some rest => some ([], rest)
    | none => none

theorem closing?_length {q : Quote} {s marks behind : Text}
    (h : closing? q s = some (marks, behind)) : behind.length < s.length := by
  simp only [closing?] at h
  split at h
  · split at h
    · cases h
    · next rest h₁ =>
      have := Text.behind?_length h₁
      split at h
      · next h₂ => cases h; have := Text.behind?_length h₂; simp at *; omega
      · split at h
        · next h₂ => cases h; have := Text.behind?_length h₂; simp at *; omega
        · cases h; simp at *; omega
  · split at h
    · next h₁ => cases h; have := Text.behind?_length h₁; simp at *; omega
    · cases h

/-- The next piece of a string that does not close here, and what stands behind it. -/
def piece? (q : Quote) : Text → Option (Text × Text)
  | [] => none
  | c :: rest =>
    if c == '\\' && q.resolvesEscapes then escape? q rest
    else if c == '\n' then if q.multiline then some (['\n'], rest) else none
    else if isStringChar c then some ([c], rest)
    else none

theorem piece?_length {q : Quote} {s text rest : Text} (h : piece? q s = some (text, rest)) :
    rest.length < s.length := by
  cases s with
  | nil => simp [piece?] at h
  | cons c s =>
    simp only [piece?] at h
    split at h
    · exact Nat.lt_succ_of_le (escape?_length h)
    · split at h
      · split at h <;> grind
      · split at h <;> grind

/-- The text of a string whose opening has been read, and what stands behind it. The
text read so far is `done`, last character first. -/
def stringBody? (q : Quote) (done : Text) (s : Text) : Option (Text × Text) :=
  match closing? q s with
  | some (marks, behind) => some (done.reverse ++ marks, behind)
  | none =>
    match _h : piece? q s with
    | none => none
    | some (text, rest) => stringBody? q (text.reverse ++ done) rest
termination_by s.length
decreasing_by exact piece?_length _h

theorem stringBody?_length {q : Quote} {done s text behind : Text}
    (h : stringBody? q done s = some (text, behind)) : behind.length < s.length := by
  fun_induction stringBody? q done s with
  | case1 _ _ _ _ hc => cases h; exact closing?_length hc
  | case2 => cases h
  | case3 _ _ _ _ _ hp ih => exact Nat.lt_trans (ih h) (piece?_length hp)

/-- The string that starts behind one mark. A line feed right behind the opening of a
multiline string is not part of it. -/
def string? (mark : Char) (s : Text) : Option (Token × Text) :=
  match Text.behind? s [mark, mark] with
  | none => (stringBody? ⟨mark, false⟩ [] s).map fun (text, rest) => (.string text false, rest)
  | some behind =>
    let body := if behind.head? = some '\n' then behind.drop 1 else behind
    (stringBody? ⟨mark, true⟩ [] body).map fun (text, rest) => (.string text true, rest)

theorem string?_length {mark : Char} {s rest : Text} {token : Token}
    (h : string? mark s = some (token, rest)) : rest.length < s.length := by
  simp only [string?] at h
  split at h
  · simp only [Option.map_eq_some_iff, Prod.exists, Prod.mk.injEq] at h
    obtain ⟨_, _, hb, -, rfl⟩ := h
    exact stringBody?_length hb
  · next behind hp =>
    simp only [Option.map_eq_some_iff, Prod.exists, Prod.mk.injEq] at h
    obtain ⟨_, _, hb, -, rfl⟩ := h
    have h₁ := Text.behind?_length hp
    have h₂ := stringBody?_length hb
    simp only [List.length_cons, List.length_nil] at h₁
    split at h₂
    · rw [List.length_drop] at h₂; omega
    · omega

/-! ## Documents -/

/-- The token that is the character `c`. -/
def mark? (c : Char) : Option Token :=
  if c == '\n' then some .lineEnd
  else if c == '=' then some .equals
  else if c == '.' then some .period
  else if c == ',' then some .comma
  else if c == '[' then some .openBracket
  else if c == ']' then some .closeBracket
  else if c == '{' then some .openBrace
  else if c == '}' then some .closeBrace
  else none

/-- The token at the start of a text that starts with no blank and no comment. -/
def token? : Text → Option (Token × Text)
  | [] => none
  | c :: rest =>
    match mark? c with
    | some token => some (token, rest)
    | none =>
      if c == '"' || c == '\'' then string? c rest
      else if isWordChar c then
        some (.word ((c :: rest).takeWhile isWordChar), rest.dropWhile isWordChar)
      else none

theorem token?_length {s behind : Text} {token : Token} (h : token? s = some (token, behind)) :
    behind.length < s.length := by
  cases s with
  | nil => simp [token?] at h
  | cons c rest =>
    simp only [token?] at h
    split at h
    · cases h; simp
    · split at h
      · exact Nat.lt_succ_of_lt (string?_length h)
      · split at h
        · cases h
          exact Nat.lt_succ_of_le (Text.length_dropWhile_le isWordChar rest)
        · cases h

/-- The text behind the blanks and the comment that it starts with. -/
def skipBlanks (s : Text) : Text :=
  match s.dropWhile isSpace with
  | '#' :: rest => rest.dropWhile isCommentChar
  | rest => rest

theorem skipBlanks_length (s : Text) : (skipBlanks s).length ≤ s.length := by
  have h := Text.length_dropWhile_le isSpace s
  simp only [skipBlanks]
  split
  · next rest hs =>
    have := Text.length_dropWhile_le isCommentChar rest
    rw [hs, List.length_cons] at h
    omega
  · exact h

/-- The walk behind `tokens?`. The tokens read so far are `done`, last first. -/
def tokensFrom? (done : List Token) (s : Text) : Option (List Token) :=
  match _h₁ : skipBlanks s with
  | [] => some done.reverse
  | c :: rest =>
    match _h₂ : token? (c :: rest) with
    | none => none
    | some (token, behind) => tokensFrom? (token :: done) behind
termination_by s.length
decreasing_by
  have h := skipBlanks_length s
  rw [_h₁] at h
  exact Nat.lt_of_lt_of_le (token?_length _h₂) h

/-- Carriage returns before line feeds left out. -/
def foldLineEnds : Text → Text
  | [] => []
  | '\r' :: '\n' :: rest => '\n' :: foldLineEnds rest
  | c :: rest => c :: foldLineEnds rest

/-- The tokens of a document. A byte order mark may stand before them. -/
def tokens? (document : Text) : Option (List Token) :=
  let text := match document with
    | '\ufeff' :: rest => rest
    | _ => document
  tokensFrom? [] (foldLineEnds text)

end BuildLog.Toml
