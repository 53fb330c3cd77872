-- SUMMARY: The lines of a log from its first line on, and the lines of logs that stand one behind the other.
import BuildLog.Log
import BuildLog.Proofs.Text.ControlSequence
import BuildLog.Proofs.Text.Parts

/-!
# Cutting logs into lines

A log is one line without a line feed, or a line ended by a line feed with another log
behind it. `lines` follows this shape, and so do the proofs about it.
-/

namespace BuildLog.Log

/-! ## From the first line on -/

@[elab_as_elim]
theorem line_induction {motive : Text → Prop} (last : ∀ line, '\n' ∉ line → motive line)
    (more : ∀ line rest, '\n' ∉ line → motive rest → motive (line ++ '\n' :: rest))
    (text : Text) : motive text :=
  Text.piece_induction '\n' last more text

theorem rawLines_last {line : Text} (h : '\n' ∉ line) :
    rawLines line = if line = [] then [] else [line] := by
  cases line <;> simp [rawLines, List.splitOn_eq_singleton h]

theorem rawLines_more {line : Text} (h : '\n' ∉ line) (rest : Text) :
    rawLines (line ++ '\n' :: rest) = line :: rawLines rest := by
  obtain ⟨piece, pieces, hp⟩ := List.exists_cons_of_ne_nil (List.splitOn_ne_nil '\n' rest)
  rw [rawLines, List.splitOn_append_cons_self_of_not_mem h, rawLines, hp]
  simp only [List.getLast?_cons_cons, List.dropLast_cons_cons]
  split <;> rfl

@[simp]
theorem lines_nil : lines [] = [] := rfl

theorem lines_last {line : Text} (h : '\n' ∉ line) (hne : line ≠ []) :
    lines line = [tidy line] := by
  simp [lines, rawLines_last h, hne]

theorem lines_more {line : Text} (h : '\n' ∉ line) (rest : Text) :
    lines (line ++ '\n' :: rest) = tidy line :: lines rest := by
  simp [lines, rawLines_more h]

/-! ## Characters of a line -/

theorem tidy_sublist (line : Text) : (tidy line).Sublist line :=
  (Text.dropEndWhile_sublist ..).trans (Text.strip_sublist line)

theorem not_mem_of_mem_lines {text line : Text} (h : line ∈ lines text) : '\n' ∉ line := by
  induction text using line_induction with
  | last raw hraw =>
    rw [lines, rawLines_last hraw] at h
    split at h
    · cases h
    · obtain rfl := List.mem_singleton.1 h
      exact fun hmem => hraw ((tidy_sublist raw).subset hmem)
  | more raw rest hraw ih =>
    rw [lines_more hraw] at h
    rcases List.mem_cons.1 h with rfl | h
    · exact fun hmem => hraw ((tidy_sublist raw).subset hmem)
    · exact ih h

/-! ## Logs one behind the other -/

/-- The text is empty, or a line feed ends its last line. -/
def IsClosed (text : Text) : Prop := text = [] ∨ text.getLast? = some '\n'

theorem isClosed_more (line rest : Text) : IsClosed (line ++ '\n' :: rest) ↔ IsClosed rest := by
  cases rest <;> simp [IsClosed, List.getLast?_append, List.getLast?_cons_cons]

theorem eq_nil_of_isClosed {line : Text} (hline : '\n' ∉ line) (h : IsClosed line) : line = [] := by
  rcases h with h | h
  · exact h
  · exact absurd (List.mem_of_getLast? h) hline

/-- No line runs from a closed text into the text behind it. -/
theorem lines_append {a : Text} (ha : IsClosed a) (b : Text) :
    lines (a ++ b) = lines a ++ lines b := by
  induction a using line_induction with
  | last line hline =>
    rw [eq_nil_of_isClosed hline ha]
    rfl
  | more line rest hline ih =>
    rw [isClosed_more] at ha
    rw [List.append_assoc, List.cons_append, lines_more hline, lines_more hline, ih ha,
      List.cons_append]

theorem lines_flatten {texts : List Text} (h : ∀ text ∈ texts, IsClosed text) :
    lines texts.flatten = (texts.map lines).flatten := by
  induction texts with
  | nil => rfl
  | cons text texts ih =>
    rw [List.flatten_cons, lines_append (h text (by simp)), ih fun t ht => h t (by simp [ht]),
      List.map_cons, List.flatten_cons]

/-! ## Numbers of lines -/

instance (text : Text) : Decidable (IsClosed text) :=
  inferInstanceAs (Decidable (_ ∨ _))

/-- How many lines a text has. Each line feed ends one, and what stands behind the last line
feed is one more. -/
def lineCount (text : Text) : Nat :=
  text.count '\n' + if IsClosed text then 0 else 1

theorem length_lines (text : Text) : (lines text).length = lineCount text := by
  induction text using line_induction with
  | last line hline =>
    have hclosed : IsClosed line ↔ line = [] := ⟨eq_nil_of_isClosed hline, .inl⟩
    rw [lines, rawLines_last hline, lineCount, List.count_eq_zero_of_not_mem hline]
    simp only [hclosed]
    split <;> rfl
  | more line rest hline ih =>
    rw [lines_more hline, List.length_cons, ih, lineCount, lineCount, List.count_append,
      List.count_eq_zero_of_not_mem hline, List.count_cons_self]
    simp only [isClosed_more]
    omega

/-- The line with a number is what stays of the piece between line feeds with that number. -/
theorem getElem?_lines {text : Text} {i : Nat} (h : i < (lines text).length) :
    (lines text)[i]? = (text.splitOn '\n')[i]?.map tidy := by
  have hpieces : rawLines text <+: text.splitOn '\n' := by
    simp only [rawLines]
    split
    · exact List.dropLast_prefix _
    · exact List.prefix_rfl
  obtain ⟨rest, hrest⟩ := hpieces
  rw [lines, List.length_map] at h
  rw [lines, List.getElem?_map, ← hrest, List.getElem?_append_left h]

end BuildLog.Log
