-- SUMMARY: The lines of a log are tidy, and tidy lines are cut back out of the log that is written from them.
import BuildLog.Proofs.Log.Lines
import BuildLog.Proofs.Text.NormalForm

/-!
# Tidy lines

A line is cut out of a log first, then stripped, then freed from carriage returns at its end. No
step undoes an earlier one: a stripped line has no line feed that was not there before, and a bare
line stays bare when its end is cut off. So the lines of a log are tidy, and a log written from
tidy lines has these lines.
-/

namespace BuildLog

namespace Log

open Text (IsBare IsEscape)
open scoped List

variable {line text : Text}

/-! ## Tidying -/

/-- The line has nothing that tidying takes away. -/
structure IsTidy (line : Text) : Prop where
  no_feed : '\n' ∉ line
  no_return : line.getLast? ≠ some '\r'
  no_escape : ¬ ∃ e, IsEscape e ∧ e <:+: line

theorem isBare_tidy (line : Text) : IsBare (tidy line) :=
  (Text.isBare_strip line).part (Text.dropEndWhile_prefix ..).isInfix

theorem isTidy_tidy (h : '\n' ∉ line) : IsTidy (tidy line) where
  no_feed hmem := h ((tidy_sublist line).subset hmem)
  no_return hlast := Text.not_of_getLast?_dropEndWhile hlast rfl
  no_escape := Text.isBare_iff.1 (isBare_tidy line)

theorem IsTidy.tidy_eq (h : IsTidy line) : tidy line = line := by
  have hstrip : Text.strip line = line := Text.strip_eq_self_iff.2 (Text.isBare_iff.2 h.no_escape)
  rw [tidy, hstrip]
  refine Text.dropEndWhile_eq_self fun c hlast hc => ?_
  obtain rfl := beq_iff_eq.1 hc
  exact h.no_return hlast

/-- A carriage return completes no sequence, so it is still at the end of the stripped line. -/
theorem tidy_concat_return (line : Text) : tidy (line ++ ['\r']) = tidy line := by
  rw [tidy, Text.strip_concat (by decide), Text.dropEndWhile_concat rfl, tidy]

/-! ## Lines written and cut -/

theorem isTidy_of_mem_lines (h : line ∈ lines text) : IsTidy line := by
  induction text using line_induction with
  | last raw hraw =>
    rw [lines, rawLines_last hraw] at h
    split at h
    · cases h
    · obtain rfl := List.mem_singleton.1 h
      exact isTidy_tidy hraw
  | more raw rest hraw ih =>
    rw [lines_more hraw] at h
    rcases List.mem_cons.1 h with rfl | h
    · exact isTidy_tidy hraw
    · exact ih h

/-- The log with the given lines, each ended by a line feed. -/
def ofLines (lines : List Text) : Text :=
  lines.flatMap (· ++ ['\n'])

theorem lines_ofLines {ls : List Text} (h : ∀ line ∈ ls, IsTidy line) :
    lines (ofLines ls) = ls := by
  induction ls with
  | nil => rfl
  | cons line ls ih =>
    obtain ⟨hline, hls⟩ := List.forall_mem_cons.1 h
    have hcons : ofLines (line :: ls) = line ++ '\n' :: ofLines ls := by simp [ofLines]
    rw [hcons, lines_more hline.no_feed, hline.tidy_eq, ih hls]

/-- The lines of a text are tidy, there is one for each line feed and one for what stands behind
the last, and cutting the log that they are written to changes nothing. -/
theorem lines_isTidy (text : Text) :
    (∀ line ∈ lines text, IsTidy line) ∧
    (lines text).length =
      text.count '\n' + (if text ≠ [] ∧ text.getLast? ≠ some '\n' then 1 else 0) ∧
    lines (ofLines (lines text)) = lines text := by
  have htidy : ∀ line ∈ lines text, IsTidy line := fun line h => isTidy_of_mem_lines h
  refine ⟨htidy, ?_, lines_ofLines htidy⟩
  rw [length_lines, lineCount]
  congr 1
  by_cases hclosed : IsClosed text
  · rw [if_pos hclosed, if_neg (by rwa [← not_or, not_not])]
  · rw [if_neg hclosed, if_pos (not_or.1 hclosed)]

end Log

end BuildLog
