-- SUMMARY: What is cut out of a text is a part of it, and when a word has a place in it.
import BuildLog.Text.Blank
import Mathlib.Data.List.DropRight
import Mathlib.Data.List.TakeWhile

/-!
# Parts of a text

Everything that is recovered from a line is cut out of it: at a word, at blanks or at the
end. So it has no character that the line does not have.
-/

namespace BuildLog.Text

open scoped List

variable {s word rest : Text} {p : Char → Bool} {c : Char}

/-! ## Ends -/

theorem dropEndWhile_sublist (s : Text) (p : Char → Bool) : s.dropEndWhile p <+ s := by
  have h : (s.reverse.dropWhile p).reverse <+ s.reverse.reverse :=
    (List.dropWhile_sublist p).reverse
  rwa [List.reverse_reverse] at h

theorem dropEndWhile_prefix (s : Text) (p : Char → Bool) : s.dropEndWhile p <+: s :=
  List.rdropWhile_prefix p s

theorem dropEndWhile_concat (h : p c) : (s ++ [c]).dropEndWhile p = s.dropEndWhile p :=
  List.rdropWhile_concat_pos p s c h

theorem not_of_getLast?_dropEndWhile (h : (s.dropEndWhile p).getLast? = some c) : ¬ p c := by
  have hne : s.dropEndWhile p ≠ [] := by
    rintro hnil
    simp [hnil] at h
  rw [List.getLast?_eq_some_getLast hne] at h
  cases h
  exact List.rdropWhile_last_not p s hne

theorem dropEndWhile_eq_self (h : ∀ c, s.getLast? = some c → ¬ p c) : s.dropEndWhile p = s := by
  refine List.rdropWhile_eq_self_iff.2 fun hne => ?_
  exact h _ (List.getLast?_eq_some_getLast hne)

theorem trim_sublist (s : Text) : trim s <+ s :=
  (dropEndWhile_sublist _ _).trans (List.dropWhile_sublist _)

theorem trim_infix (s : Text) : trim s <:+: s := by
  have hend : trim s <+: s.dropWhile isBlank := dropEndWhile_prefix ..
  exact hend.isInfix.trans (List.dropWhile_suffix _).isInfix

/-- The text neither starts nor ends with a blank. -/
structure IsTrimmed (s : Text) : Prop where
  head : ∀ c ∈ s.head?, ¬ isBlank c
  last : ∀ c ∈ s.getLast?, ¬ isBlank c

instance (s : Text) : Decidable s.IsTrimmed :=
  decidable_of_iff ((s.head?.all fun c => !isBlank c) ∧ s.getLast?.all fun c => !isBlank c)
    ⟨fun h => ⟨by simpa [Option.all_eq_true] using h.1, by simpa [Option.all_eq_true] using h.2⟩,
      fun h => ⟨by simpa [Option.all_eq_true] using h.head,
        by simpa [Option.all_eq_true] using h.last⟩⟩

theorem IsTrimmed.trim_eq (h : IsTrimmed s) : trim s = s := by
  have hhead : s.dropWhile isBlank = s := by
    cases s with
    | nil => rfl
    | cons c s => exact List.dropWhile_cons_of_neg (h.head c rfl)
  rw [trim, hhead]
  exact dropEndWhile_eq_self h.last

theorem trim_append {blanks : Text} (h : ∀ c ∈ blanks, isBlank c) (s : Text) :
    trim (blanks ++ s) = trim s := by
  rw [trim, List.dropWhile_append_of_pos h, trim]

/-! ## The first line -/

/-- The text up to its first line feed. -/
def firstLine (s : Text) : Text :=
  s.takeWhile (· != '\n')

theorem not_mem_firstLine (s : Text) : '\n' ∉ s.firstLine := by
  intro h
  simpa using List.mem_takeWhile_imp h

theorem firstLine_sublist (s : Text) : s.firstLine <+ s :=
  List.takeWhile_sublist _

theorem firstLine_eq_self (h : '\n' ∉ s) : s.firstLine = s :=
  List.takeWhile_eq_self_iff.2 fun _ hc => bne_iff_ne.2 (ne_of_mem_of_not_mem hc h)

/-! ## Words -/

/-- The text is a single word. -/
structure IsWord (s : Text) : Prop where
  ne_nil : s ≠ []
  not_isBlank : ∀ c ∈ s, ¬ isBlank c

instance (s : Text) : Decidable s.IsWord :=
  decidable_of_iff (s ≠ [] ∧ s.all fun c => !isBlank c)
    ⟨fun h => ⟨h.1, by simpa using h.2⟩, fun h => ⟨h.ne_nil, by simpa using h.not_isBlank⟩⟩

/-! ## The first place of a word -/

theorem behind?_sublist (h : s.behind? word = some rest) : rest <+ s := by
  rw [behind?_eq_some.1 h]
  exact List.sublist_append_right ..

/-- A word is cut off part by part. -/
theorem behind?_append (s word word' : Text) :
    s.behind? (word ++ word') = (s.behind? word).bind (·.behind? word') := by
  ext rest
  simp only [behind?_eq_some, Option.bind_eq_some_iff]
  constructor
  · rintro rfl
    exact ⟨word' ++ rest, List.append_assoc .., rfl⟩
  · rintro ⟨_, rfl, rfl⟩
    exact (List.append_assoc ..).symm

theorem after?_sublist (h : s.after? word = some rest) : rest <+ s := by
  induction s with
  | nil => exact behind?_sublist h
  | cons c s ih =>
    rw [after?] at h
    split at h
    · next behind hbehind =>
      cases h
      exact behind?_sublist hbehind
    · exact (ih h).cons c

theorem after?_isSome_iff : (s.after? word).isSome ↔ word <:+: s := by
  rw [← includes_iff]
  induction s with
  | nil => cases word <;> simp [after?, behind?, includes]
  | cons c s ih =>
    rw [after?, includes, Bool.or_eq_true, ← ih, behind?]
    cases hprefix : word.isPrefixOf (c :: s) <;> simp

/-! ## Pieces between separators -/

/-- A text is one piece without the separator, or a piece ended by the separator with another text
behind it. -/
@[elab_as_elim]
theorem piece_induction (c : Char) {motive : Text → Prop} (last : ∀ piece, c ∉ piece → motive piece)
    (more : ∀ piece rest, c ∉ piece → motive rest → motive (piece ++ c :: rest))
    (s : Text) : motive s := by
  induction h : s.length using Nat.strongRecOn generalizing s with
  | _ n ih =>
    subst h
    by_cases hsep : c ∈ s
    · obtain ⟨piece, rest, rfl, hpiece⟩ := List.eq_append_cons_of_mem hsep
      refine more piece rest hpiece (ih _ ?_ rest rfl)
      simp only [List.length_append, List.length_cons]
      omega
    · exact last s hsep

theorem not_mem_of_mem_splitOn {c : Char} {s piece : Text} (h : piece ∈ s.splitOn c) :
    c ∉ piece := by
  induction s generalizing piece with
  | nil =>
    obtain rfl := List.mem_singleton.1 h
    simp
  | cons d s ih =>
    obtain ⟨first, others, hs⟩ := List.exists_cons_of_ne_nil (List.splitOn_ne_nil c s)
    rw [List.splitOn_cons_eq_if_modifyHead, hs] at h
    rw [hs] at ih
    split at h
    · rcases List.mem_cons.1 h with rfl | h
      · simp
      · exact ih h
    · next hd =>
      rcases List.mem_cons.1 h with rfl | h
      · rw [List.mem_cons, not_or]
        refine ⟨?_, ih List.mem_cons_self⟩
        rintro rfl
        exact hd BEq.rfl
      · exact ih (List.mem_cons_of_mem _ h)

theorem mem_intercalate_iff {sep : Text} {c : Char} (hsep : c ∉ sep) (pieces : List Text) :
    c ∈ sep.intercalate pieces ↔ ∃ piece ∈ pieces, c ∈ piece := by
  induction pieces with
  | nil => simp [List.intercalate_nil]
  | cons piece pieces ih =>
    cases pieces with
    | nil => simp [List.intercalate_singleton]
    | cons piece' pieces =>
      rw [List.intercalate_cons_cons, List.mem_append, List.mem_append, ih]
      simp [hsep]

end BuildLog.Text
