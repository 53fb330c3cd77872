-- SUMMARY: The record of a line does not depend on what stands behind its log or, once it is found, ahead of it.
import BuildLog.Layout
import BuildLog.Proofs.Layout.TaskName
import BuildLog.Proofs.Success

/-!
# Records in longer logs

What a layout recovers from a line comes from that line, from the next one, or from a line
above. So lines behind the log change nothing, unless the very next line was missing. Lines
ahead of the log can supply what was missing above, but they replace nothing that was found.
-/

namespace BuildLog

variable {a b : List Text} {i : Nat}

theorem getD_append_right (a b : List Text) (i : Nat) :
    (a ++ b).getD (a.length + i) [] = b.getD i [] := by
  rw [List.getD_append_right _ _ _ _ (Nat.le_add_right ..), Nat.add_sub_cancel_left]

/-! ## Gradle -/

namespace Gradle

theorem record?_append_left (hi : i < a.length) : record? (a ++ b) i = record? a i := by
  rw [record?_eq, record?_eq, List.getD_append _ _ _ _ hi, List.take_append_of_le_length hi]

theorem record?_append_right (a : List Text) {r : Option Record} (h : record? b i = .ok r) :
    record? (a ++ b) (a.length + i) = .ok r := by
  rw [record?_eq] at h ⊢
  rw [getD_append_right, Nat.add_assoc, List.take_length_add_append, List.reverse_append,
    List.findSome?_append]
  cases hargs : arguments? (b.getD i []) with
  | none => rwa [hargs] at h
  | some args =>
    rw [hargs] at h
    cases hname : (b.take (i + 1)).reverse.findSome? taskName? with
    | none =>
      rw [hname] at h
      cases h
    | some name => rwa [hname] at h

theorem legacyRecord_append_left (hi : i < a.length) :
    legacyRecord (a ++ b) i = legacyRecord a i := by
  have habove : taskNameAbove? (a ++ b) i = taskNameAbove? a i := by
    cases i with
    | zero => rfl
    | succ above =>
      simp only [taskNameAbove?]
      rw [List.getD_append _ _ _ _ (Nat.lt_of_succ_lt hi)]
  unfold legacyRecord argumentsAt
  rw [habove, List.getD_append _ _ _ _ hi]

theorem legacyRecord_append_right (a : List Text) {r : Record} (h : legacyRecord b i = .ok r) :
    legacyRecord (a ++ b) (a.length + i) = .ok r := by
  cases i with
  | zero => cases h
  | succ above =>
    have habove :
        taskNameAbove? (a ++ b) (a.length + (above + 1)) = taskNameAbove? b (above + 1) := by
      rw [← Nat.add_assoc, taskNameAbove?, taskNameAbove?, getD_append_right]
    unfold legacyRecord at h ⊢
    rw [habove]
    cases hname : taskNameAbove? b (above + 1) with
    | none =>
      rw [hname] at h
      cases h
    | some name =>
      rw [hname] at h
      obtain ⟨args, hargs, h⟩ := bind_eq_ok.1 h
      refine bind_eq_ok.2 ⟨args, ?_, h⟩
      rw [argumentsAt_eq_ok_iff] at hargs ⊢
      rwa [getD_append_right]

end Gradle

/-! ## Maven -/

namespace Maven

theorem pastGutter_of_ok {line args : Text} (j : Nat) (h : pastGutter line i = .ok args) :
    pastGutter line j = .ok args := by
  unfold pastGutter at h ⊢
  split at h
  · cases h
  · rw [if_neg ‹_›]
    exact h

theorem commandLine_append_left (hi : i < a.length) : commandLine (a ++ b) i = commandLine a i := by
  unfold commandLine
  rw [List.getD_append _ _ _ _ hi]

theorem commandLine_append_right (a : List Text) {args : Text} (h : commandLine b i = .ok args) :
    commandLine (a ++ b) (a.length + i) = .ok args := by
  unfold commandLine
  rw [getD_append_right]
  exact pastGutter_of_ok _ h

theorem targetName_append_left (hi : i < a.length) : targetName (a ++ b) i = targetName a i := by
  unfold targetName
  rw [Log.nearest?_append_left hi]
  cases hplace : Log.nearest? isBanner a i with
  | none => rfl
  | some place =>
    simp only [List.getD_append _ _ _ _ (Log.lt_of_lastBelow? hplace).2]

theorem targetName_append_right (a : List Text) {name : Text} (h : targetName b i = .ok name) :
    targetName (a ++ b) (a.length + i) = .ok name := by
  unfold targetName at h ⊢
  cases hplace : Log.nearest? isBanner b i with
  | none =>
    rw [hplace] at h
    cases h
  | some place =>
    rw [hplace] at h
    rw [Log.nearest?_append_right a hplace]
    simp only [getD_append_right]
    cases htarget : target? (Text.trim (b.getD place [])) with
    | none =>
      simp only [htarget] at h
      cases h
    | some target => simpa only [htarget] using h

theorem announcedRecord?_append_left (hi : i + 1 < a.length) :
    announcedRecord? (a ++ b) i = announcedRecord? a i := by
  unfold announcedRecord?
  rw [List.getElem?_append_left hi, targetName_append_left (Nat.lt_of_succ_lt hi)]

theorem lt_of_announcedRecord? {r : Option Record} (h : announcedRecord? a i = .ok r) :
    i + 1 < a.length := by
  unfold announcedRecord? at h
  cases hnext : a[i + 1]? with
  | none =>
    rw [hnext] at h
    cases h
  | some next => exact (List.getElem?_eq_some_iff.1 hnext).1

theorem announcedRecord?_append_right (a : List Text) {r : Option Record}
    (h : announcedRecord? b i = .ok r) : announcedRecord? (a ++ b) (a.length + i) = .ok r := by
  have hnext : (a ++ b)[a.length + i + 1]? = b[i + 1]? := by
    rw [Nat.add_assoc, List.getElem?_append_right (Nat.le_add_right ..), Nat.add_sub_cancel_left]
  unfold announcedRecord? at h ⊢
  rw [hnext]
  cases hn : b[i + 1]? with
  | none =>
    rw [hn] at h
    cases h
  | some next =>
    simp only [hn] at h ⊢
    split at h
    · rw [if_pos ‹_›]
      obtain ⟨args, hargs, h⟩ := bind_eq_ok.1 h
      obtain ⟨name, hname, h⟩ := bind_eq_ok.1 h
      rw [pastGutter_of_ok _ hargs]
      exact bind_eq_ok.2 ⟨args, rfl, bind_eq_ok.2 ⟨name, targetName_append_right a hname, h⟩⟩
    · rw [if_neg ‹_›]
      exact h

end Maven

/-! ## All layouts -/

namespace Layout

variable {layout : Layout} {count : Nat}

/-- Lines behind a log take no part in the record of one of its lines. Only the arguments of
an announcement are on the line behind it. -/
theorem record?_append_left (hi : i < a.length) (hnext : layout = mavenOptions → i + 1 < a.length) :
    layout.record? (a ++ b) count i = layout.record? a count i := by
  cases layout with
  | gradle => exact Gradle.record?_append_left hi
  | gradleLegacy => rw [record?, record?, Gradle.legacyRecord_append_left hi]
  | maven => rw [record?, record?, Maven.commandLine_append_left hi]
  | mavenOptions => exact Maven.announcedRecord?_append_left (hnext rfl)

theorem record?_append_left_of_ok (hi : i < a.length) {r : Option Record}
    (h : layout.record? a count i = .ok r) : layout.record? (a ++ b) count i = .ok r := by
  rw [record?_append_left hi, h]
  rintro rfl
  exact Maven.lt_of_announcedRecord? h

/-- Lines ahead of a log do not change what is recovered from its own lines. -/
theorem record?_append_right (a : List Text) {r : Option Record}
    (h : layout.record? b count i = .ok r) :
    layout.record? (a ++ b) count (a.length + i) = .ok r := by
  cases layout with
  | gradle => exact Gradle.record?_append_right a h
  | gradleLegacy =>
    obtain ⟨r, hr, rfl⟩ := map_eq_ok.1 h
    exact map_eq_ok.2 ⟨r, Gradle.legacyRecord_append_right a hr, rfl⟩
  | maven =>
    obtain ⟨args, hargs, rfl⟩ := map_eq_ok.1 h
    exact map_eq_ok.2 ⟨args, Maven.commandLine_append_right a hargs, rfl⟩
  | mavenOptions => exact Maven.announcedRecord?_append_right a h

end Layout

end BuildLog
