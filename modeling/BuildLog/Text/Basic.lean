-- SUMMARY: Text as a list of characters: words inside a text, the part behind a word, and the last place where a word stands.

/-!
# Text

A text is the list of its characters. The operations below speak about words
that stand inside a text. `includes` says that a word stands somewhere, `behind?` cuts
it off the start, `after?` cuts at its first place and `splitLast?` at its last.
-/

namespace BuildLog

abbrev Text := List Char

namespace Text

/-! ## Words inside a text -/

/-- Whether `word` stands somewhere in the text. -/
def includes : Text → Text → Bool
  | [], word => word.isEmpty
  | c :: rest, word => word.isPrefixOf (c :: rest) || includes rest word

theorem includes_iff (s word : Text) : s.includes word = true ↔ word <:+: s := by
  induction s with
  | nil => simp [includes]
  | cons c rest ih =>
    simp only [includes, Bool.or_eq_true, ih, List.isPrefixOf_iff_prefix, List.infix_cons_iff]

/-- The text behind `word`, if the text starts with it. -/
def behind? (s word : Text) : Option Text :=
  if word.isPrefixOf s then some (s.drop word.length) else none

theorem behind?_eq_some {s word rest : Text} : s.behind? word = some rest ↔ s = word ++ rest := by
  simp only [behind?, List.isPrefixOf_iff_prefix, Option.ite_none_right_eq_some, Option.some.injEq]
  constructor
  · rintro ⟨⟨tail, rfl⟩, rfl⟩
    simp
  · rintro rfl
    simp

theorem behind?_length {s word rest : Text} (h : s.behind? word = some rest) :
    s.length = word.length + rest.length := by
  rw [behind?_eq_some.1 h, List.length_append]

/-- The text behind the first place of `word`. -/
def after? : Text → Text → Option Text
  | [], word => behind? [] word
  | c :: rest, word =>
    match behind? (c :: rest) word with
    | some behind => some behind
    | none => after? rest word

/-! ## The last place of a word -/

/-- The walk behind `splitLast?`: `seen` is the text walked over, last character
first, and `best` the last place so far. -/
def splitLastFrom (word : Text) (ok : Text → Bool) (seen : Text) (best : Option (Text × Text)) :
    Text → Option (Text × Text)
  | [] => best
  | c :: rest =>
    match behind? (c :: rest) word with
    | some behind =>
      splitLastFrom word ok (c :: seen) (if ok behind then some (seen, behind) else best) rest
    | none => splitLastFrom word ok (c :: seen) best rest

/-- What stands before and behind the last place of the non-empty `word` that is
followed by a text satisfying `ok`. -/
def splitLast? (s word : Text) (ok : Text → Bool := fun _ => true) : Option (Text × Text) :=
  (splitLastFrom word ok [] none s).map fun (seen, behind) => (seen.reverse, behind)

/-! ## Ends -/

theorem length_dropWhile_le (p : Char → Bool) (s : Text) : (s.dropWhile p).length ≤ s.length :=
  (List.dropWhile_suffix p).length_le

/-- The text without the characters satisfying `p` at its end. -/
def dropEndWhile (s : Text) (p : Char → Bool) : Text :=
  (s.reverse.dropWhile p).reverse

end Text

end BuildLog
