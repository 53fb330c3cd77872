-- SUMMARY: Control sequences put anywhere into a log change neither its lines nor its records.
import BuildLog.Layout
import BuildLog.Proofs.Log.Lines
import BuildLog.Proofs.Text.ControlSequence
import Mathlib

/-!
# Coloured logs

A control sequence holds no line feed, so it stands inside one line, and stripping that
line leaves what it would leave without the sequence. Only a sequence behind the last line
feed of a log makes a line of its own, an empty one.
-/

namespace BuildLog

open Text (IsEscape)

namespace Log

theorem tidy_insert (ahead behind : Text) {e : Text} (he : IsEscape e) :
    tidy (ahead ++ e ++ behind) = tidy (ahead ++ behind) := by
  unfold tidy
  rw [Text.strip_insert ahead behind he]

/-- The sequence stands in the last line of `ahead`, so only that line has to be looked at. -/
theorem lines_insert {ahead e behind : Text} (he : IsEscape e)
    (h : behind ≠ [] ∨ ¬ IsClosed ahead) :
    lines (ahead ++ e ++ behind) = lines (ahead ++ behind) := by
  induction ahead using line_induction with
  | last line hline =>
    -- The line that the sequence stands in ends in `behind`, or with the log.
    have hhead : '\n' ∉ line ++ e := by simp [hline, he.not_mem]
    by_cases hfeed : '\n' ∈ behind
    · obtain ⟨tail, rest, rfl, htail⟩ := List.eq_append_cons_of_mem hfeed
      rw [← List.append_assoc, ← List.append_assoc, lines_more (by simp_all),
        lines_more (by simp_all), tidy_insert line tail he]
    · have hne : line ++ behind ≠ [] := by
        rintro heq
        obtain ⟨rfl, rfl⟩ := List.append_eq_nil_iff.1 heq
        rcases h with h | h
        · exact h rfl
        · exact h (.inl rfl)
      have hne' : line ++ e ++ behind ≠ [] := by simp_all
      rw [lines_last (by simp_all) hne', lines_last (by simp_all) hne, tidy_insert line behind he]
  | more line rest hline ih =>
    rw [isClosed_more] at h
    simp only [List.append_assoc, List.cons_append, lines_more hline] at ih ⊢
    rw [ih h]

end Log

namespace Layout

/-- Colouring a log changes nothing of what is scraped from it, and no fault about it. A
sequence behind the last line feed is left out, because it makes a line. -/
theorem scrape_insert (layout : Layout) (skip : List Text) {ahead e behind : Text}
    (he : IsEscape e) (h : behind ≠ [] ∨ ¬ Log.IsClosed ahead) :
    layout.scrape (ahead ++ e ++ behind) skip = layout.scrape (ahead ++ behind) skip := by
  unfold scrape
  rw [Log.lines_insert he h]

/-- A sequence inside a sequence that stands inside a marker: the outer one ends behind the
inner one only. -/
theorem scrape_insert_nested :
    let ahead := "'Compile Java for :a'\nCompiler argu\x1b[3".toList
    let e := "\x1b[0m".toList
    let behind := "1mments: -g\r\n".toList
    (Text.IsEscape e ∧ (behind ≠ [] ∨ ¬ Log.IsClosed ahead)) ∧
      gradleLegacy.scrape (ahead ++ e ++ behind) [] = gradleLegacy.scrape (ahead ++ behind) [] ∧
      gradleLegacy.scrape (ahead ++ behind) [] = .ok [⟨":a".toList, "-g".toList⟩] := by
  refine ⟨⟨by decide, .inl (by decide)⟩, ?_, by cbv⟩
  exact scrape_insert gradleLegacy [] (by decide) (.inl (by decide))

end Layout

end BuildLog
