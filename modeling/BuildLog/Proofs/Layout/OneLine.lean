-- SUMMARY: No name and no argument line that is recovered from a log has a line feed in it.
import BuildLog.Proofs.Layout.CommandLines
import BuildLog.Proofs.Layout.Target
import BuildLog.Proofs.Log.Lines

/-!
# Records on one line

A line of a log has no line feed. Names and arguments are cut out of lines, so they have none
either. A name that is put together has a blank or a number besides.
-/

namespace BuildLog

open scoped List

theorem not_mem_of_sublist {s line : Text} (h : s <+ line) (hline : '\n' ∉ line) : '\n' ∉ s :=
  fun hmem => hline (h.subset hmem)

/-! ## Parts of a line -/

section

variable {line name args : Text}

theorem Gradle.taskName?_sublist (h : taskName? line = some name) : name <+ line := by
  obtain ⟨before, behind, heq, -, -⟩ := names_firstLine h
  refine List.IsInfix.sublist ?_ |>.trans (Text.firstLine_sublist line)
  exact ⟨before ++ taskOpening, '\'' :: behind, heq.symm⟩

theorem Gradle.arguments?_sublist (h : arguments? line = some args) : args <+ line := by
  obtain ⟨behind, hbehind, rfl⟩ := Option.map_eq_some_iff.1 h
  calc Text.trim (behind.drop 1)
    _ <+ behind.drop 1 := Text.trim_sublist _
    _ <+ behind := List.drop_sublist 1 behind
    _ <+ line := Text.after?_sublist hbehind

theorem Maven.pastGutter_sublist {i : Nat} (h : pastGutter line i = .ok args) : args <+ line := by
  unfold pastGutter at h
  split at h
  · cases h
  · cases h
    exact (Text.trim_sublist _).trans (List.drop_sublist ..)

theorem Maven.target?_sublist {execution unit : Text}
    (h : target? line = some (execution, unit)) : execution <+ line ∧ unit <+ line := by
  obtain ⟨body, plugin, tail, hbody, h⟩ := target?_eq_some_iff.1 h
  have hline : body <+ line := by
    refine List.Sublist.trans ?_ (Text.firstLine_sublist line)
    rcases behindRule?_eq_some_iff.1 hbody with heq | heq
    all_goals exact heq ▸ List.sublist_append_right ..
  constructor
  · exact List.IsInfix.sublist ⟨plugin ++ " (".toList, ") @ ".toList ++ (unit ++ tail),
      by simp [h.eq]⟩ |>.trans hline
  · exact List.IsInfix.sublist ⟨plugin ++ " (".toList ++ execution ++ ") @ ".toList, tail,
      by simp [h.eq]⟩ |>.trans hline

end

/-! ## Records of lines without line feeds -/

namespace Record

/-- The name and the arguments stand on one line each. -/
def IsOneLine (r : Record) : Prop := '\n' ∉ r.name ∧ '\n' ∉ r.args

theorem not_mem_blobName (n : Nat) : '\n' ∉ blobName n :=
  fun h => absurd (mem_blobName h) (by decide)

theorem renumber_isOneLine {rs : List Record} (h : ∀ r ∈ rs, r.IsOneLine) :
    ∀ r ∈ renumber rs, r.IsOneLine := by
  intro r hr
  obtain ⟨i, hi, rfl⟩ := List.mem_mapIdx.1 hr
  exact ⟨not_mem_blobName i, (h _ (List.getElem_mem hi)).2⟩

end Record

section

variable {lines : List Text} {i count : Nat} {r : Record}
  (hlines : ∀ line ∈ lines, '\n' ∉ line)

include hlines

theorem not_mem_getD (i : Nat) : '\n' ∉ lines.getD i [] := by
  rw [List.getD_eq_getElem?_getD]
  cases hline : lines[i]? with
  | none => simp
  | some line => exact hlines line (List.mem_of_getElem? hline)

theorem Gradle.record?_isOneLine (h : record? lines i = .ok (some r)) : r.IsOneLine := by
  rw [record?_eq] at h
  split at h
  · cases h
  · next args hargs =>
    split at h
    · next name hname =>
      cases h
      obtain ⟨line, hline, htask⟩ := List.exists_of_findSome?_eq_some hname
      have hmem : line ∈ lines := List.mem_of_mem_take (List.mem_reverse.1 hline)
      exact ⟨not_mem_of_sublist (taskName?_sublist htask) (hlines line hmem),
        not_mem_of_sublist (arguments?_sublist hargs) (not_mem_getD hlines i)⟩
    · cases h

theorem Gradle.legacyRecord_isOneLine (h : legacyRecord lines i = .ok r) : r.IsOneLine := by
  unfold legacyRecord at h
  split at h
  · cases h
  · next name hname =>
    obtain ⟨args, hargs, h⟩ := bind_eq_ok.1 h
    cases h
    rw [argumentsAt_eq_ok_iff] at hargs
    cases i with
    | zero => cases hname
    | succ above =>
      exact ⟨not_mem_of_sublist (taskName?_sublist hname) (not_mem_getD hlines above),
        not_mem_of_sublist (arguments?_sublist hargs) (not_mem_getD hlines (above + 1))⟩

theorem Maven.commandLine_not_mem {args : Text} (h : commandLine lines i = .ok args) :
    '\n' ∉ args :=
  not_mem_of_sublist (pastGutter_sublist h) (not_mem_getD hlines i)

theorem Maven.targetName_not_mem {name : Text} (h : targetName lines i = .ok name) :
    '\n' ∉ name := by
  unfold targetName at h
  split at h
  · cases h
  · next place _ =>
    dsimp only at h
    split at h
    · next execution unit htarget =>
      cases h
      have hbanner : '\n' ∉ Text.trim (lines.getD place []) :=
        not_mem_of_sublist (Text.trim_sublist _) (not_mem_getD hlines place)
      obtain ⟨hexecution, hunit⟩ := target?_sublist htarget
      simp [not_mem_of_sublist hexecution hbanner, not_mem_of_sublist hunit hbanner]
    · cases h

theorem Maven.announcedRecord?_isOneLine (h : announcedRecord? lines i = .ok (some r)) :
    r.IsOneLine := by
  unfold announcedRecord? at h
  split at h
  · cases h
  · next next hnext =>
    split at h
    · obtain ⟨args, hargs, h⟩ := bind_eq_ok.1 h
      obtain ⟨name, hname, h⟩ := bind_eq_ok.1 h
      cases h
      have hline : '\n' ∉ next := hlines next (List.mem_of_getElem? hnext)
      exact ⟨targetName_not_mem hlines hname, not_mem_of_sublist (pastGutter_sublist hargs) hline⟩
    · cases h

/-! ## Records of a log -/

namespace Layout

variable {layout : Layout} {skip : List Text} {rs : List Record}

theorem record?_isOneLine (h : layout.record? lines count i = .ok (some r)) : r.IsOneLine := by
  cases layout with
  | gradle => exact Gradle.record?_isOneLine hlines h
  | gradleLegacy =>
    obtain ⟨r, hr, heq⟩ := map_eq_ok.1 h
    cases heq
    exact Gradle.legacyRecord_isOneLine hlines hr
  | maven =>
    obtain ⟨args, hargs, heq⟩ := map_eq_ok.1 h
    cases heq
    exact ⟨Record.not_mem_blobName count, Maven.commandLine_not_mem hlines hargs⟩
  | mavenOptions => exact Maven.announcedRecord?_isOneLine hlines h

theorem recordsFrom_isOneLine {is : List Nat}
    (h : layout.recordsFrom lines skip count is = .ok rs) : ∀ r ∈ rs, r.IsOneLine := by
  induction is generalizing count rs with
  | nil =>
    cases h
    simp
  | cons i is ih =>
    rw [recordsFrom_cons] at h
    obtain ⟨r, hr, h⟩ := bind_eq_ok.1 h
    obtain ⟨rs', hrs, h⟩ := bind_eq_ok.1 h
    cases h
    intro r' hr'
    rcases List.mem_append.1 hr' with hr' | hr'
    · obtain rfl := Option.mem_toList.1 (List.mem_of_mem_filter hr')
      exact record?_isOneLine hlines hr
    · exact ih hrs r' hr'

end Layout

end

theorem Layout.scrape_isOneLine {layout : Layout} {text : Text} {skip : List Text}
    {rs : List Record} (h : layout.scrape text skip = .ok rs) : ∀ r ∈ rs, r.IsOneLine :=
  recordsFrom_isOneLine (fun _ => Log.not_mem_of_mem_lines) h

end BuildLog
