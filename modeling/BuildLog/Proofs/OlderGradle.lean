-- SUMMARY: What the layout of older Gradle logs recovers, the layout of newer logs recovers as well.
import BuildLog.Proofs.Faults
import BuildLog.Proofs.Layout.TaskName

/-!
# Older logs of Gradle

The layout of older logs takes the task from the line right above the arguments, the other one
from the nearest line that names a task. Both find the same name if the line of the arguments
names none. The layouts also announce compilations by different words, and a compiler line
without arguments is passed over.
-/

namespace BuildLog

namespace Gradle

/-! ## Records of one line -/

variable {lines : List Text} {i : Nat} {r : Record}

theorem legacyRecord_eq_ok (h : legacyRecord lines i = .ok r) :
    ∃ above, i = above + 1 ∧ taskName? (lines.getD above []) = some r.name ∧
      arguments? (lines.getD i []) = some r.args := by
  unfold legacyRecord at h
  split at h
  · cases h
  · next name hname =>
    obtain ⟨args, hargs, h⟩ := bind_eq_ok.1 h
    cases h
    cases i with
    | zero => cases hname
    | succ above => exact ⟨above, rfl, hname, argumentsAt_eq_ok_iff.1 hargs⟩

theorem take_succ_eq (hi : i < lines.length) :
    lines.take (i + 1) = lines.take i ++ [lines.getD i []] := by
  rw [List.getD_eq_getElem _ _ hi, List.take_append_getElem hi]

/-- The search for a task goes back over the line itself to the line right above. -/
theorem record?_of_legacyRecord (hi : i < lines.length)
    (htask : taskName? (lines.getD i []) = none) (h : legacyRecord lines i = .ok r) :
    record? lines i = .ok (some r) := by
  obtain ⟨above, rfl, hname, hargs⟩ := legacyRecord_eq_ok h
  have hnearest : (lines.take (above + 1 + 1)).reverse.findSome? taskName? = some r.name := by
    rw [take_succ_eq hi, take_succ_eq (Nat.lt_of_succ_lt hi), List.reverse_append,
      List.reverse_append, List.findSome?_append, List.findSome?_append, List.reverse_singleton,
      List.reverse_singleton, List.findSome?_singleton, List.findSome?_singleton, htask, hname]
    rfl
  rw [record?_eq, hargs, hnearest]

/-- Whether the word that stands before arguments is somewhere in the line. -/
def carriesArguments (line : Text) : Bool :=
  line.includes argumentsWord

theorem record?_eq_none (h : ¬ carriesArguments (lines.getD i [])) :
    record? lines i = .ok none :=
  if_neg h

end Gradle

/-! ## Records of a log -/

namespace Layout

/-- A log of either age yields the same records in the layout of newer logs as in that of older
ones, if the latter has no fault. The two layouts have to announce the same arguments, and a
line with arguments must not name a task. -/
theorem records_gradle_of_gradleLegacy {lines skip : List Text} {rs : List Record}
    (hmarkers : ∀ line ∈ lines, "Compiler arguments:".toList <:+: line ↔
      "NormalizingJavaCompiler".toList <:+: line ∧ "arguments:".toList <:+: line)
    (htask : ∀ line ∈ lines, "Compiler arguments:".toList <:+: line → ¬ Gradle.NamesTask line)
    (h : gradleLegacy.records lines skip = .ok rs) : gradle.records lines skip = .ok rs := by
  -- Both layouts walk over the same positions once those without arguments are passed over.
  have hsame : (gradle.markers lines).filter (fun i => Gradle.carriesArguments (lines.getD i [])) =
      gradleLegacy.markers lines := by
    rw [markers_eq gradleLegacy]
    refine filter_markers ?_
    intro line hline
    rw [Bool.eq_iff_iff, Bool.and_eq_true]
    simp only [isMarker, Gradle.isCompilerLine, Gradle.isArgumentsLine, Gradle.carriesArguments,
      Text.includes_iff]
    exact (hmarkers line hline).symm
  rw [records, ← recordsFrom_filter (p := fun i => Gradle.carriesArguments (lines.getD i [])),
    hsame, ← List.map_id (gradleLegacy.markers lines)]
  · refine recordsFrom_transport ?_ h
    intro i hi count r hr
    obtain ⟨r, hlegacy, rfl⟩ := map_eq_ok.1 hr
    have hlt : i < lines.length := lt_of_mem_markers hi
    have hmarker : "Compiler arguments:".toList <:+: lines.getD i [] :=
      (Text.includes_iff ..).1 (isMarker_of_mem_markers hi)
    have hmem : lines.getD i [] ∈ lines := by
      rw [List.getD_eq_getElem _ _ hlt]
      exact List.getElem_mem hlt
    exact Gradle.record?_of_legacyRecord hlt
      (Gradle.taskName?_eq_none (htask _ hmem hmarker)) hlegacy
  · intro i _ hargs count
    exact Gradle.record?_eq_none hargs

/-- The second compiler line has no arguments. It is a marker of newer logs only. -/
theorem records_gradle_of_gradleLegacy_two_tasks :
    let lines := ["'Compile Java for :core:compileJava' started".toList,
      "[NormalizingJavaCompiler] Compiler arguments: -d out -g".toList,
      "[NormalizingJavaCompiler] Compiling with a daemon".toList,
      "'Compile Java for :app:compileTestJava'".toList,
      "[NormalizingJavaCompiler] Compiler arguments: -source 8".toList]
    let skip := ["Test".toList]
    let rs : List Record := [⟨":core:compileJava".toList, "-d out -g".toList⟩]
    ((∀ line ∈ lines, "Compiler arguments:".toList <:+: line ↔
        "NormalizingJavaCompiler".toList <:+: line ∧ "arguments:".toList <:+: line) ∧
      (∀ line ∈ lines, "Compiler arguments:".toList <:+: line → ¬ Gradle.NamesTask line) ∧
      gradleLegacy.records lines skip = .ok rs) ∧
      gradle.records lines skip = .ok rs := by
  intro lines skip rs
  have hmarkers : ∀ line ∈ lines, "Compiler arguments:".toList <:+: line ↔
      "NormalizingJavaCompiler".toList <:+: line ∧ "arguments:".toList <:+: line := by
    simp only [← Text.includes_iff]
    decide
  have hopening : ∀ line ∈ lines, "Compiler arguments:".toList <:+: line →
      ¬ Text.includes line Gradle.taskOpening := by
    simp only [← Text.includes_iff]
    decide
  have htask : ∀ line ∈ lines, "Compiler arguments:".toList <:+: line → ¬ Gradle.NamesTask line :=
    fun line hline hmarker hnames => hopening line hline hmarker hnames.includes_opening
  have h : gradleLegacy.records lines skip = .ok rs := by
    unfold lines skip rs
    cbv
  exact ⟨⟨hmarkers, htask, h⟩, records_gradle_of_gradleLegacy hmarkers htask h⟩

end Layout

end BuildLog
