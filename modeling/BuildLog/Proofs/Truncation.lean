-- SUMMARY: A log that was cut off yields the first records of the whole log, or its fault.
import BuildLog.Proofs.Layout.FirstFault
import Mathlib

/-!
# Logs that were cut off

A build that fails leaves the beginning of a log. Only an announcement is recovered from a
line behind it. So unless the cut is right behind an announcement, the walk over the whole
log begins with the walk over what was left, and goes on only if that one has no fault.
-/

namespace BuildLog.Layout

variable {layout : Layout} {skip a : List Text}

/-! ## Markers ahead of the cut -/

section

variable
    (hcut : layout = mavenOptions →
      ∀ line ∈ a.getLast?, ¬ "Command line options:".toList <:+: line)

include hcut

theorem next_lt_of_mem_markers {i : Nat} (hi : i ∈ layout.markers a) :
    layout = mavenOptions → i + 1 < a.length := by
  rintro rfl
  have hle := lt_of_mem_markers hi
  rw [markers_eq] at hi
  obtain ⟨line, hline, hmarker⟩ := Log.mem_positions.1 hi
  refine Nat.lt_of_le_of_ne hle ?_
  intro hlast
  have hlast : a.getLast? = some line := by
    rw [List.getLast?_eq_getElem?, ← hlast, Nat.add_sub_cancel, hline]
  exact hcut rfl line hlast ((Text.includes_iff ..).1 hmarker)

/-- The markers ahead of the cut yield the same in the whole log. -/
theorem recordsFrom_cut (b : List Text) :
    layout.recordsFrom (a ++ b) skip 0 (layout.markers a) = layout.records a skip := by
  refine recordsFrom_congr ?_
  intro i hi count
  exact record?_append_left (lt_of_mem_markers hi) (next_lt_of_mem_markers hcut hi)

theorem records_cut (b : List Text) :
    layout.records (a ++ b) [] = (do
      let rs ← layout.records a []
      let rs' ← layout.recordsFrom (a ++ b) [] rs.length ((layout.markers b).map (a.length + ·))
      return rs ++ rs') := by
  rw [records, markers_append, recordsFrom_append, recordsFrom_cut hcut]
  simp only [Nat.zero_add]

end

/-! ## Records and faults of the whole log -/

/-- A fault of a log that was cut off is the fault of the whole log. Its records are the first
records of the whole log, and a fault that it lacks is that of a marker behind the cut. -/
theorem records_of_cut (layout : Layout) (skip a b : List Text)
    (hcut : layout = mavenOptions →
      ∀ line ∈ a.getLast?, ¬ "Command line options:".toList <:+: line) :
    (∀ fault, layout.records a skip = .error fault →
      layout.records (a ++ b) skip = .error fault) ∧
    (∀ ra rc, layout.records a skip = .ok ra → layout.records (a ++ b) skip = .ok rc →
      ra <+: rc) ∧
    (∀ ra fault, layout.records a skip = .ok ra → layout.records (a ++ b) skip = .error fault →
      ∃ m, layout.firstFault? (a ++ b) = some (m, fault) ∧ a.length ≤ m) := by
  refine ⟨?_, ?_, ?_⟩
  · intro fault ha
    rw [records_eq_error_skip []] at ha ⊢
    rw [records_cut hcut, ha]
    rfl
  · intro ra rc ha hc
    obtain ⟨all, hall, rfl⟩ := records_skip_eq_ok.1 ha
    obtain ⟨all', hall', rfl⟩ := records_skip_eq_ok.1 hc
    rw [records_cut hcut] at hall'
    obtain ⟨ahead, hahead, hall'⟩ := bind_eq_ok.1 hall'
    obtain ⟨behind, -, hall'⟩ := bind_eq_ok.1 hall'
    cases hall.symm.trans hahead
    cases hall'
    rw [kept_append]
    exact List.prefix_append ..
  · intro ra fault ha hc
    obtain ⟨m, hm⟩ := records_eq_error_iff.1 hc
    refine ⟨m, hm, ?_⟩
    obtain ⟨all, hall, -⟩ := records_skip_eq_ok.1 ha
    -- The markers ahead of the cut are passed over, so the first fault is behind it.
    rw [firstFault?, markers_append, faultFrom?_append ((recordsFrom_cut hcut b).trans hall)] at hm
    obtain ⟨i, -, rfl⟩ := List.mem_map.1 (record?_of_faultFrom? hm).1
    exact Nat.le_add_right ..

/-- The record ahead of the cut is recovered. Behind it the arguments are shorter than the
gutter, and that is the fault of the whole log. -/
theorem records_of_cut_narrow_line :
    let a := ["[INFO] --- c (d) @ core".toList, "Command line options:".toList,
      "[DEBUG] -d out".toList]
    let b := ["Command line options:".toList, "-d x".toList]
    let ra : List Record := [⟨"d core".toList, "-d out".toList⟩]
    let fault := LineFault.narrowLine 5 7 4
    ((∀ line ∈ a.getLast?, ¬ "Command line options:".toList <:+: line) ∧
      mavenOptions.records a [] = .ok ra ∧ mavenOptions.records (a ++ b) [] = .error fault) ∧
      ∃ m, mavenOptions.firstFault? (a ++ b) = some (m, fault) ∧ a.length ≤ m := by
  intro a b ra fault
  have hcut : ∀ line ∈ a.getLast?, ¬ "Command line options:".toList <:+: line := by
    intro line hline
    obtain rfl : "[DEBUG] -d out".toList = line := Option.some.inj hline
    rw [← Text.includes_iff]
    decide
  have ha : mavenOptions.records a [] = .ok ra := by cbv
  have hc : mavenOptions.records (a ++ b) [] = .error fault := by cbv
  exact ⟨⟨hcut, ha, hc⟩, (records_of_cut mavenOptions [] a b fun _ => hcut).2.2 ra fault ha hc⟩

end BuildLog.Layout
