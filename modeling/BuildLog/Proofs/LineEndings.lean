-- SUMMARY: Carriage returns put before line feeds change neither the lines of a log nor its records.
import BuildLog.Layout
import BuildLog.Proofs.Log.Tidy
import Mathlib

/-!
# Line endings

A log may end its lines in a line feed alone or in carriage returns and a line feed, and it may mix
both. A carriage return is part of no control sequence. So those before a line feed are at the end
of the stripped line, too, even if a sequence breaks off there, and they are all dropped.
-/

namespace BuildLog

namespace Log

variable {s t line : Text}

/-! ## Carriage returns before line feeds -/

/-- The second text is the first one with any number of carriage returns put before any of its
line feeds. -/
inductive ReturnsAdded : Text → Text → Prop
  | nil : ReturnsAdded [] []
  | keep (c : Char) {s t : Text} : ReturnsAdded s t → ReturnsAdded (c :: s) (c :: t)
  | feed (n : Nat) {s t : Text} :
      ReturnsAdded s t → ReturnsAdded ('\n' :: s) (List.replicate n '\r' ++ '\n' :: t)

theorem ReturnsAdded.append_left (u : Text) (h : ReturnsAdded s t) :
    ReturnsAdded (u ++ s) (u ++ t) := by
  induction u with
  | nil => exact h
  | cons c u ih => exact .keep c ih

theorem ReturnsAdded.eq_of_not_mem (h : ReturnsAdded s t) (hs : '\n' ∉ s) : t = s := by
  induction h with
  | nil => rfl
  | keep c _ ih =>
    rw [List.mem_cons, not_or] at hs
    rw [ih hs.2]
  | feed n _ _ => simp at hs

/-- What is put before the first line feed stands behind the whole first line. -/
theorem ReturnsAdded.exists_of_more (hline : '\n' ∉ line) (h : ReturnsAdded (line ++ '\n' :: s) t) :
    ∃ n t', t = line ++ List.replicate n '\r' ++ '\n' :: t' ∧ ReturnsAdded s t' := by
  induction line generalizing t with
  | nil =>
    cases h with
    | keep _ h => exact ⟨0, _, rfl, h⟩
    | feed n h => exact ⟨n, _, rfl, h⟩
  | cons c line ih =>
    rw [List.mem_cons, not_or] at hline
    cases h with
    | keep _ h =>
      obtain ⟨n, t', rfl, h'⟩ := ih hline.2 h
      exact ⟨n, t', rfl, h'⟩
    | feed _ _ => exact absurd rfl hline.1

/-! ## Lines -/

theorem tidy_append_returns (line : Text) (n : Nat) :
    tidy (line ++ List.replicate n '\r') = tidy line := by
  induction n with
  | zero => rw [List.replicate_zero, List.append_nil]
  | succ n ih => rw [List.replicate_succ', ← List.append_assoc, tidy_concat_return, ih]

theorem ReturnsAdded.lines_eq (h : ReturnsAdded s t) : lines t = lines s := by
  induction s using line_induction generalizing t with
  | last line hline => rw [h.eq_of_not_mem hline]
  | more line rest hline ih =>
    obtain ⟨n, t', rfl, h'⟩ := h.exists_of_more hline
    have hreturns : '\n' ∉ line ++ List.replicate n '\r' := by
      rw [List.mem_append, not_or]
      exact ⟨hline, fun hmem => absurd (List.eq_of_mem_replicate hmem) (by decide)⟩
    rw [lines_more hreturns, lines_more hline, tidy_append_returns, ih h']

/-! ## Cutting at both kinds of line endings -/

/-- A piece without the carriage return at its end. -/
def dropReturn (piece : Text) : Text :=
  if piece.getLast? = some '\r' then piece.dropLast else piece

/-- The pieces between line endings, if a carriage return before a line feed is part of the line
ending. What stands behind the last line ending is kept as it is. -/
def endedPieces (text : Text) : List Text :=
  let pieces := text.splitOn '\n'
  let last := pieces.getLast?.getD []
  pieces.dropLast.map dropReturn ++ if last.isEmpty then [] else [last]

theorem tidy_dropReturn (piece : Text) : tidy (dropReturn piece) = tidy piece := by
  rw [dropReturn]
  split
  · next hlast =>
    obtain ⟨front, rfl⟩ := List.getLast?_eq_some_iff.1 hlast
    rw [List.dropLast_concat, tidy_concat_return]
  · rfl

/-- It makes no difference whether a cut takes one carriage return along with the line feed. -/
theorem map_tidy_endedPieces (text : Text) : (endedPieces text).map tidy = lines text := by
  induction text using line_induction with
  | last line hline =>
    rw [endedPieces, List.splitOn_eq_singleton hline, lines, rawLines_last hline]
    cases line <;> simp
  | more line rest hline ih =>
    obtain ⟨piece, pieces, hp⟩ := List.exists_cons_of_ne_nil (List.splitOn_ne_nil '\n' rest)
    have hmore : endedPieces (line ++ '\n' :: rest) = dropReturn line :: endedPieces rest := by
      simp [endedPieces, List.splitOn_append_cons_self_of_not_mem hline, hp]
    rw [hmore, List.map_cons, tidy_dropReturn, ih, lines_more hline]

end Log

namespace Layout

/-- Logs that differ in their line endings only have the same lines, also if a cut takes a carriage
return along with a line feed, and the same records or the same fault. -/
theorem scrape_of_returnsAdded {s t : Text} (h : Log.ReturnsAdded s t) :
    Log.lines t = Log.lines s ∧
      (Log.endedPieces t).map Log.tidy = Log.lines s ∧
      ∀ layout skip, Layout.scrape layout t skip = Layout.scrape layout s skip := by
  refine ⟨h.lines_eq, ?_, fun layout skip => ?_⟩
  · rw [Log.map_tidy_endedPieces, h.lines_eq]
  · rw [scrape, scrape, h.lines_eq]

/-- The first line breaks off inside a control sequence, and the second one ends in a carriage
return already. -/
theorem scrape_of_returnsAdded_broken_escape :
    let task := "'Compile Java for :a'\x1b[3".toList
    let arguments := "Compiler arguments: -g\x1b[0m\r".toList
    let s := task ++ '\n' :: (arguments ++ ['\n'])
    let t := task ++ '\r' :: '\r' :: '\n' :: (arguments ++ ['\r', '\n'])
    Log.ReturnsAdded s t ∧
      Log.lines t = Log.lines s ∧
      gradleLegacy.scrape t [] = gradleLegacy.scrape s [] ∧
      gradleLegacy.scrape s [] = .ok [⟨":a".toList, "-g".toList⟩] := by
  intro task arguments s t
  have hadded : Log.ReturnsAdded s t :=
    .append_left task (.feed 2 (.append_left arguments (.feed 1 .nil)))
  obtain ⟨hlines, -, hscrape⟩ := scrape_of_returnsAdded hadded
  refine ⟨hadded, hlines, hscrape gradleLegacy [], ?_⟩
  unfold s task arguments
  cbv

end Layout

end BuildLog
