-- SUMMARY: The records of a Maven log are counted: a log never fails, and a line that fails on its own leaves the count as it is.
import BuildLog.Proofs.Layout.CommandLines
import Mathlib.Data.List.Infix

/-!
# Counted records

The records of Maven command lines are named by a count that goes from one line to the next. The
words of a command line make it longer than the gutter, so the markers of a log never fail. Other
lines may be shorter. A call for such a line fails, and the next call that succeeds gets the number
that it would have had without the failure.
-/

namespace BuildLog.Layout

open Maven Record

variable {lines : List Text} {count : Nat}

/-! ## Calls for any lines -/

/-- The records of the calls that succeeded. -/
def recovered (outcomes : List (Except LineFault (Option Record))) : List Record :=
  outcomes.flatMap fun outcome =>
    match outcome with
    | .ok r => r.toList
    | .error _ => []

/-- Whether the line at `i` has at least the width of the gutter. -/
def isWide (lines : List Text) (i : Nat) : Bool :=
  7 ≤ (lines.getD i []).length

theorem record?_maven_of_isWide {i : Nat} (h : isWide lines i) :
    maven.record? lines count i =
      .ok (some ⟨blobName count, Text.trim ((lines.getD i []).drop 7)⟩) := by
  have hwide : ¬ (lines.getD i []).length < gutterWidth := Nat.not_lt.2 (of_decide_eq_true h)
  simp only [record?, commandLine, pastGutter, if_neg hwide]
  rfl

theorem record?_maven_of_not_isWide {i : Nat} (h : ¬ isWide lines i) :
    maven.record? lines count i =
      .error (.narrowLine (i + 1) 7 (lines.getD i []).length) := by
  have hnarrow : (lines.getD i []).length < gutterWidth :=
    Nat.lt_of_not_le fun hle => h (decide_eq_true hle)
  simp only [record?, commandLine, pastGutter, if_pos hnarrow]
  rfl

/-- A call fails exactly if its line is narrower than the gutter. -/
theorem outcomes_maven_error_iff (lines : List Text) (count : Nat) (calls : List Nat) :
    List.Forall₂ (fun i outcome => ∀ fault, outcome = .error fault ↔
        ¬ isWide lines i ∧ fault = .narrowLine (i + 1) 7 (lines.getD i []).length)
      calls (maven.outcomes lines count calls) := by
  induction calls generalizing count with
  | nil => exact .nil
  | cons i calls ih =>
    refine .cons ?_ (ih _)
    intro fault
    by_cases hwide : isWide lines i
    · simp [record?_maven_of_isWide hwide, hwide]
    · simp [record?_maven_of_not_isWide hwide, hwide, eq_comm]

/-- The calls that succeed are numbered one after the other, whatever calls fail between them. -/
theorem recovered_outcomes_maven (lines : List Text) (count : Nat) (calls : List Nat) :
    recovered (maven.outcomes lines count calls) =
      (calls.filter (isWide lines)).mapIdx fun k i =>
        ⟨blobName (count + k), Text.trim ((lines.getD i []).drop 7)⟩ := by
  induction calls generalizing count with
  | nil => rfl
  | cons i calls ih =>
    simp only [outcomes]
    by_cases hwide : isWide lines i
    · simp only [record?_maven_of_isWide hwide, List.filter_cons_of_pos hwide, List.mapIdx_cons,
        ← Nat.add_assoc, Nat.add_right_comm count _ 1]
      exact congrArg (_ :: ·) (ih (count + 1))
    · simp only [record?_maven_of_not_isWide hwide, List.filter_cons_of_neg hwide]
      exact ih count

/-! ## The command lines of a log -/

theorem numbered_map (f : Text → Text) (lines : List Text) :
    numbered (lines.map f) = lines.mapIdx fun k line => ⟨blobName k, f line⟩ := by
  apply List.ext_getElem <;> simp [numbered]

theorem commandLines_eq_filter (lines : List Text) :
    lines.filter isCommandLine =
      lines.filter fun line => " -d ".toList <:+: line ∧ "-parameters".toList <:+: line := by
  refine List.filter_congr ?_
  intro line _
  rw [Bool.eq_iff_iff, isCommandLine, Bool.and_eq_true, Text.includes_iff, Text.includes_iff,
    decide_eq_true_iff]

/-- A log of Maven never fails, with any skip words, and without skip words there is one record for
each command line, numbered in order. In any calls for lines, the narrow lines fail and the others
are numbered in the order of the calls. -/
theorem scrape_maven_counted (text : Text) :
    (∀ skip, ∃ rs, maven.scrape text skip = .ok rs) ∧
    maven.scrape text [] = .ok (((Log.lines text).filter fun line =>
      " -d ".toList <:+: line ∧ "-parameters".toList <:+: line).mapIdx fun k line =>
        ⟨blobName k, Text.trim (line.drop 7)⟩) ∧
    ∀ (lines : List Text) (calls : List Nat),
      List.Forall₂ (fun i outcome => ∀ fault, outcome = .error fault ↔
          ¬ isWide lines i ∧ fault = .narrowLine (i + 1) 7 (lines.getD i []).length)
        calls (maven.outcomes lines 0 calls) ∧
      recovered (maven.outcomes lines 0 calls) =
        (calls.filter (isWide lines)).mapIdx fun k i =>
          ⟨blobName k, Text.trim ((lines.getD i []).drop 7)⟩ := by
  refine ⟨?_, ?_, ?_⟩
  · intro skip
    exact ⟨_, records_maven (Log.lines text) skip⟩
  · have hrecords := records_maven (Log.lines text) []
    rw [kept_nil, commands, numbered_map, commandLines_eq_filter] at hrecords
    exact hrecords
  · intro lines calls
    refine ⟨outcomes_maven_error_iff lines 0 calls, ?_⟩
    simpa only [Nat.zero_add] using recovered_outcomes_maven lines 0 calls

example :
    recovered (maven.outcomes ["[INFO] -g".toList, "narrow".toList] 0 [1, 0, 1, 0]) =
      [⟨"blob 0".toList, "-g".toList⟩, ⟨"blob 1".toList, "-g".toList⟩] := by
  decide

end BuildLog.Layout
