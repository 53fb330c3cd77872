-- SUMMARY: Exactly when a marker is at fault, which line it blames, and that a log is blamed for its first fault.
import BuildLog.Proofs.Layout.CommandLines
import BuildLog.Proofs.Layout.FirstFault
import BuildLog.Proofs.Log.Lines
import BuildLog.Proofs.Text.Parts
import Mathlib

/-!
# Faults of a log

`AtFault` says what is wrong with a marker. Some faults that a line alone could have never
come up, because a marker has the words that they miss: a line of Gradle has its arguments,
and a command line of Maven is longer than the gutter.
-/

namespace BuildLog

variable {lines : List Text} {m : Nat} {fault : LineFault}

/-! ## Gradle -/

namespace Gradle

theorem arguments?_isSome_iff {line : Text} :
    (arguments? line).isSome ↔ "arguments:".toList <:+: line := by
  rw [arguments?, Option.isSome_map, Text.after?_isSome_iff]
  rfl

theorem nearestName?_eq_none_iff :
    (lines.take (m + 1)).reverse.findSome? taskName? = none ↔
      ∀ line ∈ lines.take (m + 1), taskName? line = none := by
  rw [List.findSome?_eq_none_iff]
  simp only [List.mem_reverse]

theorem record?_eq_error_iff :
    record? lines m = .error fault ↔
      "arguments:".toList <:+: lines.getD m [] ∧
        (∀ line ∈ lines.take (m + 1), taskName? line = none) ∧ .noTaskName (m + 1) = fault := by
  rw [← arguments?_isSome_iff, ← nearestName?_eq_none_iff, record?_eq]
  cases arguments? (lines.getD m []) with
  | none => simp
  | some args =>
    cases (lines.take (m + 1)).reverse.findSome? taskName? <;> simp

theorem arguments_of_isArgumentsLine {line : Text} (h : isArgumentsLine line) :
    "arguments:".toList <:+: line := by
  have hword : "arguments:".toList <:+: "Compiler arguments:".toList :=
    ⟨"Compiler ".toList, [], rfl⟩
  exact hword.trans ((Text.includes_iff ..).1 h)

/-- A line that announces arguments has them, so only the name can be missing. -/
theorem legacyRecord_eq_error_iff (h : isArgumentsLine (lines.getD m [])) :
    legacyRecord lines m = .error fault ↔
      taskNameAbove? lines m = none ∧ .noTaskName (m + 1) = fault := by
  obtain ⟨args, hargs⟩ :=
    Option.isSome_iff_exists.1 (arguments?_isSome_iff.2 (arguments_of_isArgumentsLine h))
  rw [legacyRecord, argumentsAt_eq_ok_iff.2 hargs]
  cases taskNameAbove? lines m with
  | none => simp
  | some name => simp [bind, Except.bind, pure, Except.pure]

end Gradle

/-! ## Maven -/

namespace Maven

theorem pastGutter_eq_error_iff {line : Text} {i : Nat} :
    pastGutter line i = .error fault ↔
      line.length < gutterWidth ∧ .narrowLine (i + 1) gutterWidth line.length = fault := by
  rw [pastGutter]
  split <;> simp [*]

theorem targetName_eq_error_iff :
    targetName lines m = .error fault ↔
      (∀ line ∈ lines.take (m + 1), ¬ isBanner line) ∧ .noTaskName (m + 1) = fault ∨
      ∃ place, Log.IsLastBelow isBanner lines (m + 1) place ∧
        target? (Text.trim (lines.getD place [])) = none ∧
        .unnamedTarget (place + 1) (Text.trim (lines.getD place [])) = fault := by
  simp only [← Log.lastBelow?_eq_none_iff, ← Log.lastBelow?_eq_some_iff, targetName,
    Log.nearest?_eq]
  cases Log.lastBelow? isBanner lines (m + 1) with
  | none => simp
  | some place =>
    simp only [reduceCtorEq, false_and, false_or, Option.some.injEq, exists_eq_left']
    cases target? (Text.trim (lines.getD place [])) <;> simp

theorem exists_pastGutter_eq_ok_iff {line : Text} {i : Nat} :
    (∃ args, pastGutter line i = .ok args) ↔ gutterWidth ≤ line.length := by
  rw [pastGutter, ← Nat.not_lt]
  split <;> simp [*]

theorem announcedRecord?_eq_error_iff :
    announcedRecord? lines m = .error fault ↔
      lines[m + 1]? = none ∧ .noArguments (m + 1) = fault ∨
      ∃ next, lines[m + 1]? = some next ∧ "-d".toList <:+: next ∧
        (pastGutter next (m + 1) = .error fault ∨
          gutterWidth ≤ next.length ∧ targetName lines m = .error fault) := by
  rw [announcedRecord?]
  cases lines[m + 1]? with
  | none => simp
  | some next =>
    have hout : namesOutputDirectory next ↔ "-d".toList <:+: next := Text.includes_iff ..
    simp only [← hout, reduceCtorEq, false_and, false_or, Option.some.injEq, exists_eq_left',
      ← exists_pastGutter_eq_ok_iff (i := m + 1)]
    by_cases h : namesOutputDirectory next
    · simp [h, bind_eq_error, pure, Except.pure]
    · simp [h]

end Maven

/-! ## All layouts -/

namespace Layout

/-- What is wrong with the marker at `m`, and the fault that says so. -/
inductive AtFault (lines : List Text) (m : Nat) : Layout → LineFault → Prop
  /-- There are arguments, but no line up to theirs names a task. -/
  | gradle (hargs : "arguments:".toList <:+: lines.getD m [])
      (hname : ∀ line ∈ lines.take (m + 1), Gradle.taskName? line = none) :
      AtFault lines m .gradle (.noTaskName (m + 1))
  /-- The line right above names no task. -/
  | gradleLegacy (hname : Gradle.taskNameAbove? lines m = none) :
      AtFault lines m .gradleLegacy (.noTaskName (m + 1))
  /-- The log ends with the announcement. -/
  | lastLine (hlast : m + 1 = lines.length) :
      AtFault lines m .mavenOptions (.noArguments (m + 1))
  /-- The line of the arguments is shorter than the gutter. -/
  | narrowLine {next : Text} (hnext : lines[m + 1]? = some next) (hout : "-d".toList <:+: next)
      (hnarrow : next.length < 7) :
      AtFault lines m .mavenOptions (.narrowLine (m + 2) 7 next.length)
  /-- No line up to the announcement is a banner. -/
  | noBanner {next : Text} (hnext : lines[m + 1]? = some next) (hout : "-d".toList <:+: next)
      (hwide : 7 ≤ next.length) (hbanner : ∀ line ∈ lines.take (m + 1), ¬ Maven.isBanner line) :
      AtFault lines m .mavenOptions (.noTaskName (m + 1))
  /-- The nearest banner names no target. -/
  | unnamedTarget {next banner : Text} {place : Nat} (hnext : lines[m + 1]? = some next)
      (hout : "-d".toList <:+: next) (hwide : 7 ≤ next.length)
      (hplace : Log.IsLastBelow Maven.isBanner lines (m + 1) place)
      (hbanner : lines[place]? = some banner)
      (hname : Maven.target? (Text.trim banner) = none) :
      AtFault lines m .mavenOptions (.unnamedTarget (place + 1) (Text.trim banner))

variable {layout : Layout} {count : Nat}

theorem announcedRecord?_eq_error_iff_atFault (hm : m < lines.length) :
    Maven.announcedRecord? lines m = .error fault ↔ AtFault lines m mavenOptions fault := by
  rw [Maven.announcedRecord?_eq_error_iff]
  constructor
  · rintro (⟨hnext, rfl⟩ | ⟨next, hnext, hout, hgutter | ⟨hwide, htarget⟩⟩)
    · exact .lastLine (Nat.le_antisymm hm (List.getElem?_eq_none_iff.1 hnext))
    · obtain ⟨hnarrow, rfl⟩ := Maven.pastGutter_eq_error_iff.1 hgutter
      exact .narrowLine hnext hout hnarrow
    · rcases Maven.targetName_eq_error_iff.1 htarget with
        ⟨hbanner, rfl⟩ | ⟨place, hplace, hname, rfl⟩
      · exact .noBanner hnext hout hwide hbanner
      · obtain ⟨banner, hbanner, -⟩ := hplace.2.1
        rw [List.getD_eq_getElem?_getD, hbanner] at hname ⊢
        exact .unnamedTarget hnext hout hwide hplace hbanner hname
  · intro h
    cases h with
    | lastLine hlast =>
      exact .inl ⟨List.getElem?_eq_none_iff.2 (Nat.le_of_eq hlast.symm), rfl⟩
    | narrowLine hnext hout hnarrow =>
      exact .inr ⟨_, hnext, hout, .inl (Maven.pastGutter_eq_error_iff.2 ⟨hnarrow, rfl⟩)⟩
    | noBanner hnext hout hwide hbanner =>
      have htarget := Maven.targetName_eq_error_iff.2 (.inl ⟨hbanner, rfl⟩)
      exact .inr ⟨_, hnext, hout, .inr ⟨hwide, htarget⟩⟩
    | unnamedTarget hnext hout hwide hplace hbanner hname =>
      refine .inr ⟨_, hnext, hout, .inr ⟨hwide, Maven.targetName_eq_error_iff.2 (.inr ?_)⟩⟩
      refine ⟨_, hplace, ?_⟩
      rw [List.getD_eq_getElem?_getD, hbanner]
      exact ⟨hname, rfl⟩

/-- The record of a marker cannot be recovered exactly if something is wrong with it. How many
records were counted ahead of it has no say. -/
theorem record?_eq_error_iff_atFault (hm : m ∈ layout.markers lines) :
    layout.record? lines count m = .error fault ↔ AtFault lines m layout fault := by
  cases layout with
  | gradle =>
    rw [record?, Gradle.record?_eq_error_iff]
    constructor
    · rintro ⟨hargs, hname, rfl⟩
      exact .gradle hargs hname
    · intro h
      cases h with
      | gradle hargs hname => exact ⟨hargs, hname, rfl⟩
  | gradleLegacy =>
    rw [record?, map_eq_error, Gradle.legacyRecord_eq_error_iff (isMarker_of_mem_markers hm)]
    constructor
    · rintro ⟨hname, rfl⟩
      exact .gradleLegacy hname
    · intro h
      cases h with
      | gradleLegacy hname => exact ⟨hname, rfl⟩
  | maven =>
    rw [record?, map_eq_error, Maven.commandLine,
      Maven.pastGutter_eq_ok _ (isMarker_of_mem_markers hm)]
    constructor
    · intro h
      cases h
    · intro h
      cases h
  | mavenOptions =>
    rw [record?, announcedRecord?_eq_error_iff_atFault (lt_of_mem_markers hm)]

/-! ## The line to blame -/

theorem AtFault.line_mem (h : AtFault lines m layout fault) (hm : m < lines.length) :
    1 ≤ fault.line ∧ fault.line ≤ lines.length := by
  cases h with
  | gradle | gradleLegacy | lastLine | noBanner => exact ⟨Nat.succ_pos m, hm⟩
  | narrowLine hnext => exact ⟨Nat.succ_pos (m + 1), (List.getElem?_eq_some_iff.1 hnext).1⟩
  | unnamedTarget _ _ _ _ hbanner =>
    exact ⟨Nat.succ_pos _, (List.getElem?_eq_some_iff.1 hbanner).1⟩

/-- The fault of a text is that of its first marker at fault, which is at `m`. It blames one of
the lines, and that is the line of the text with the same number. -/
structure Blames (layout : Layout) (text : Text) (m : Nat) (fault : LineFault) : Prop where
  first : layout.firstFault? (Log.lines text) = some (m, fault)
  reason : AtFault (Log.lines text) m layout fault
  none_ahead : ∀ i ∈ layout.markers (Log.lines text), i < m →
    ∀ fault', ¬ AtFault (Log.lines text) i layout fault'
  line_pos : 1 ≤ fault.line
  line_le : fault.line ≤ (Log.lines text).length
  line_eq : (Log.lines text)[fault.line - 1]? = (text.splitOn '\n')[fault.line - 1]?.map Log.tidy

theorem blames_of_firstFault? {text : Text}
    (h : layout.firstFault? (Log.lines text) = some (m, fault)) : layout.Blames text m fault := by
  obtain ⟨hmarker, count, hrecord⟩ := record?_of_faultFrom? h
  have hfault := (record?_eq_error_iff_atFault hmarker).1 hrecord
  obtain ⟨hpos, hle⟩ := hfault.line_mem (lt_of_mem_markers hmarker)
  refine ⟨h, hfault, ?_, hpos, hle, Log.getElem?_lines (Nat.sub_one_lt_of_le hpos hle)⟩
  intro i hi hlt fault' hfault'
  obtain ⟨count', r, hok⟩ := record?_of_lt_faultFrom? (markers_sorted ..) h hi hlt
  cases hok.symm.trans ((record?_eq_error_iff_atFault hi).2 hfault')

/-- A text that cannot be scraped is blamed for its first marker at fault, whatever the skip
words are. The lines are those of the text, so they have the same numbers. -/
theorem blames_of_scrape {layout : Layout} {text : Text} {skip : List Text} {fault : LineFault}
    (h : layout.scrape text skip = .error fault) :
    (∃ m, layout.Blames text m fault) ∧
      (Log.lines text).length = Log.lineCount text ∧
      ∀ skip', layout.scrape text skip' = .error fault := by
  obtain ⟨m, hm⟩ := records_eq_error_iff.1 h
  refine ⟨⟨m, blames_of_firstFault? hm⟩, Log.length_lines text, ?_⟩
  intro skip'
  exact (records_eq_error_skip skip').1 h

/-- The banner is blamed for the announcement below it, and the second announcement is not
looked at. -/
theorem blames_of_scrape_unnamed_target :
    let text := ("\x1b[1m[INFO] a @ b\x1b[m\r\nCommand line options:\n[DEBUG] -d c\n" ++
      "Command line options:").toList
    let fault := LineFault.unnamedTarget 1 "[INFO] a @ b".toList
    mavenOptions.scrape text [] = .error fault ∧
      (∃ m, mavenOptions.Blames text m fault) ∧ (Log.lines text).length = 4 := by
  intro text fault
  have hscrape : mavenOptions.scrape text [] = .error fault := by
    unfold text fault
    cbv
  obtain ⟨hblames, hlength, -⟩ := blames_of_scrape hscrape
  have hcount : Log.lineCount text = 4 := by decide
  exact ⟨hscrape, hblames, hlength.trans hcount⟩

end Layout

end BuildLog
