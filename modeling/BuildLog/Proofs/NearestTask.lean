-- SUMMARY: A Gradle log yields a record for each compiler line with arguments, or fails at the first of them.
import BuildLog.Proofs.OlderGradle

/-!
# Records of the nearest task

A compiler line with arguments yields a record if some line up to it names a task, and then the
nearest one is the task compiled. Once the first such line has a task, so have the later ones. So
a log fails at its first compiler line with arguments, or not at all.
-/

namespace BuildLog

variable {lines : List Text} {m : Nat}

/-! ## Compiler lines with arguments -/

namespace Gradle

/-- Whether the compiler logs its arguments on the line. -/
def bearsArguments (line : Text) : Bool :=
  isCompilerLine line && carriesArguments line

theorem bearsArguments_iff {line : Text} :
    bearsArguments line ↔
      "NormalizingJavaCompiler".toList <:+: line ∧ "arguments:".toList <:+: line := by
  rw [bearsArguments, Bool.and_eq_true, isCompilerLine, carriesArguments, Text.includes_iff,
    Text.includes_iff]
  rfl

/-- The positions of the compiler lines with arguments. -/
def compilations (lines : List Text) : List Nat :=
  Log.positions bearsArguments lines

theorem arguments_of_mem_compilations (h : m ∈ compilations lines) :
    "arguments:".toList <:+: lines.getD m [] := by
  obtain ⟨line, hline, hbears⟩ := Log.mem_positions.1 h
  rw [List.getD_eq_getElem?_getD, hline]
  exact (bearsArguments_iff.1 hbears).2

/-! ## The record of a compiler line -/

/-- The nearest line at or before `m` that names a task names this one. -/
def NearestNames (lines : List Text) (m : Nat) (name : Text) : Prop :=
  ∃ ahead line between, lines.take (m + 1) = ahead ++ line :: between ∧ Names line name ∧
    ∀ other ∈ between, ¬ NamesTask other

/-- The line has these arguments behind the first place of the word, one character further on. -/
def HasArguments (line args : Text) : Prop :=
  ∃ before behind, Text.IsFirstPlace "arguments:".toList line before behind ∧
    args = Text.trim (behind.drop 1)

/-- The record is that of the compilation at `m`. -/
structure IsCompilation (lines : List Text) (m : Nat) (r : Record) : Prop where
  name : NearestNames lines m r.name
  args : HasArguments (lines.getD m []) r.args

theorem hasArguments_of_arguments? {line args : Text} (h : arguments? line = some args) :
    HasArguments line args := by
  obtain ⟨behind, hbehind, rfl⟩ := Option.map_eq_some_iff.1 h
  obtain ⟨before, hplace⟩ := Text.exists_isFirstPlace hbehind
  exact ⟨before, behind, hplace, rfl⟩

section

variable (hlines : ∀ line ∈ lines, '\n' ∉ line)

include hlines

theorem nearestNames_of_findSome? {name : Text}
    (h : (lines.take (m + 1)).reverse.findSome? taskName? = some name) :
    NearestNames lines m name := by
  obtain ⟨between, line, ahead, hsplit, hname, hbetween⟩ := List.findSome?_eq_some_iff.1 h
  have htake : lines.take (m + 1) = ahead.reverse ++ line :: between.reverse := by
    rw [← List.reverse_reverse (lines.take (m + 1)), hsplit]
    simp
  have hmem : ∀ other ∈ ahead.reverse ++ line :: between.reverse, '\n' ∉ other :=
    fun other hother => hlines other (List.mem_of_mem_take (htake ▸ hother))
  refine ⟨ahead.reverse, line, between.reverse, htake, ?_, ?_⟩
  · exact (taskName?_eq_some_iff (hmem line (by simp))).1 hname
  · intro other hother
    have hnone := hbetween other (List.mem_reverse.1 hother)
    exact (taskName?_eq_none_iff (hmem other (by simp [List.mem_reverse.1 hother]))).1 hnone

theorem exists_record? (hargs : "arguments:".toList <:+: lines.getD m [])
    (htask : ∃ line ∈ lines.take (m + 1), NamesTask line) :
    ∃ r, record? lines m = .ok (some r) ∧ IsCompilation lines m r := by
  obtain ⟨args, hargs⟩ := Option.isSome_iff_exists.1 (arguments?_isSome_iff.2 hargs)
  have hname : ∃ name, (lines.take (m + 1)).reverse.findSome? taskName? = some name := by
    obtain ⟨line, hline, hnames⟩ := htask
    obtain ⟨name, hname⟩ := exists_taskName? (hlines line (List.mem_of_mem_take hline)) hnames
    apply Option.isSome_iff_exists.1
    apply List.findSome?_isSome_iff.2
    exact ⟨line, List.mem_reverse.2 hline, by rw [hname]; rfl⟩
  obtain ⟨name, hname⟩ := hname
  refine ⟨⟨name, args⟩, ?_, nearestNames_of_findSome? hlines hname, hasArguments_of_arguments? hargs⟩
  simp only [record?_eq, hargs, hname]

end

theorem record?_eq_noTaskName (hargs : "arguments:".toList <:+: lines.getD m [])
    (htask : ∀ line ∈ lines.take (m + 1), ¬ NamesTask line) :
    record? lines m = .error (.noTaskName (m + 1)) :=
  record?_eq_error_iff.2 ⟨hargs, fun line hline => taskName?_eq_none (htask line hline), rfl⟩

end Gradle

/-! ## Records of a log -/

namespace Layout

open Gradle

theorem records_gradle (lines skip : List Text) :
    gradle.records lines skip = gradle.recordsFrom lines skip 0 (compilations lines) := by
  have hsame : (gradle.markers lines).filter (fun i => carriesArguments (lines.getD i [])) =
      compilations lines :=
    filter_markers fun _ _ => rfl
  rw [records, ← hsame, recordsFrom_filter]
  intro i _ hargs count
  exact record?_eq_none hargs

/-- The first compiler line with arguments is at fault if no line up to it names a task, and then
that is the fault of the log. -/
theorem records_gradle_of_head? (hfirst : (compilations lines).head? = some m)
    (htask : ∀ line ∈ lines.take (m + 1), ¬ NamesTask line) :
    gradle.records lines [] = .error (.noTaskName (m + 1)) := by
  obtain ⟨ms, hms⟩ := List.head?_eq_some_iff.1 hfirst
  have hmem : m ∈ compilations lines := by simp [hms]
  have hfault : gradle.record? lines 0 m = .error (.noTaskName (m + 1)) :=
    record?_eq_noTaskName (arguments_of_mem_compilations hmem) htask
  rw [records_gradle, hms, recordsFrom, hfault]

/-- A task named up to the first compiler line with arguments is named up to each of them. -/
theorem exists_namesTask_of_head?
    (h : ∀ m, (compilations lines).head? = some m → ∃ line ∈ lines.take (m + 1), NamesTask line)
    (hm : m ∈ compilations lines) : ∃ line ∈ lines.take (m + 1), NamesTask line := by
  obtain ⟨first, ms, hms⟩ := List.exists_cons_of_ne_nil (List.ne_nil_of_mem hm)
  obtain ⟨line, hline, hnames⟩ := h first (by rw [hms]; rfl)
  have hsorted : (compilations lines).Pairwise (· < ·) := Log.positions_sorted ..
  rw [hms] at hm hsorted
  have hle : first ≤ m := by
    rcases List.mem_cons.1 hm with rfl | hm
    · exact Nat.le_refl m
    · exact Nat.le_of_lt ((List.pairwise_cons.1 hsorted).1 m hm)
  exact ⟨line, List.take_subset_take_left lines (Nat.succ_le_succ hle) hline, hnames⟩

/-- With a task up to the first compiler line with arguments there is a record for each of them. -/
theorem exists_records_gradle (hlines : ∀ line ∈ lines, '\n' ∉ line)
    (h : ∀ m, (compilations lines).head? = some m → ∃ line ∈ lines.take (m + 1), NamesTask line) :
    ∃ rs, gradle.records lines [] = .ok rs ∧
      List.Forall₂ (IsCompilation lines) (compilations lines) rs := by
  have heach : ∀ m ∈ compilations lines, ∃ r,
      Gradle.record? lines m = .ok (some r) ∧ IsCompilation lines m r := by
    intro m hm
    apply exists_record? hlines (arguments_of_mem_compilations hm)
    exact exists_namesTask_of_head? h hm
  obtain ⟨rs, hrs⟩ := exists_forall₂ heach
  refine ⟨rs, ?_, hrs.imp fun _ _ hr => hr.2⟩
  have hwalk : List.Forall₂ (fun i r => ∀ count, gradle.record? lines count i = .ok r)
      (compilations lines) (rs.map some) :=
    List.forall₂_map_right_iff.2 (hrs.imp fun _ _ hr _ => hr.1)
  rw [records_gradle, recordsFrom_of_forall₂ hwalk, List.flatMap_map]
  simp

/-- A log of Gradle fails exactly if no line up to its first compiler line with arguments names a
task. Otherwise there is one record for each such line, in order, with the name of the nearest task
and the arguments on the line. Arguments are never missed. -/
theorem records_gradle_nearest (lines : List Text) (hlines : ∀ line ∈ lines, '\n' ∉ line) :
    (∀ fault, gradle.records lines [] = .error fault ↔
      ∃ m, (compilations lines).head? = some m ∧
        (∀ line ∈ lines.take (m + 1), ¬ NamesTask line) ∧ fault = .noTaskName (m + 1)) ∧
    ((∀ m, (compilations lines).head? = some m → ∃ line ∈ lines.take (m + 1), NamesTask line) →
      ∃ rs, gradle.records lines [] = .ok rs ∧
        List.Forall₂ (IsCompilation lines) (compilations lines) rs) ∧
    ∀ number, gradle.records lines [] ≠ .error (.noArguments number) := by
  have herror : ∀ fault, gradle.records lines [] = .error fault ↔
      ∃ m, (compilations lines).head? = some m ∧
        (∀ line ∈ lines.take (m + 1), ¬ NamesTask line) ∧ fault = .noTaskName (m + 1) := by
    intro fault
    constructor
    · intro hfault
      by_cases hnone : ∃ m, (compilations lines).head? = some m ∧
          ∀ line ∈ lines.take (m + 1), ¬ NamesTask line
      · obtain ⟨m, hfirst, htask⟩ := hnone
        refine ⟨m, hfirst, htask, ?_⟩
        exact Except.error.inj (hfault.symm.trans (records_gradle_of_head? hfirst htask))
      · push Not at hnone
        obtain ⟨rs, hrs, -⟩ := exists_records_gradle hlines hnone
        cases hfault.symm.trans hrs
    · rintro ⟨m, hfirst, htask, rfl⟩
      exact records_gradle_of_head? hfirst htask
  refine ⟨herror, exists_records_gradle hlines, ?_⟩
  intro number hfault
  obtain ⟨m, -, -, heq⟩ := (herror _).1 hfault
  cases heq

/-- The first compiler line has no arguments, so no task is needed up to there. The second line
opens a name twice, and the last line names its own task. -/
theorem records_gradle_nearest_two_tasks :
    let lines := ["NormalizingJavaCompiler starts".toList,
      "a 'Compile Java for b 'Compile Java for :core:compileJava' c".toList,
      "[NormalizingJavaCompiler] Compiler arguments: -d arguments: out".toList,
      "'Compile Java for :app:compileJava' NormalizingJavaCompiler arguments:\t-g ".toList]
    let rs : List Record := [⟨":core:compileJava".toList, "-d arguments: out".toList⟩,
      ⟨":app:compileJava".toList, "-g".toList⟩]
    ((∀ line ∈ lines, '\n' ∉ line) ∧
      ∀ m, (compilations lines).head? = some m → ∃ line ∈ lines.take (m + 1), NamesTask line) ∧
      gradle.records lines [] = .ok rs ∧
      List.Forall₂ (IsCompilation lines) (compilations lines) rs := by
  intro lines rs
  have hlines : ∀ line ∈ lines, '\n' ∉ line := by decide
  have hfirst : (compilations lines).head? = some 2 := by decide
  have htask : ∀ m, (compilations lines).head? = some m →
      ∃ line ∈ lines.take (m + 1), NamesTask line := by
    intro m hm
    obtain rfl := Option.some.inj (hfirst.symm.trans hm)
    exact ⟨lines[1], by simp [lines],
      "a 'Compile Java for b ".toList, ":core:compileJava".toList, " c".toList, rfl⟩
  have hrecords : gradle.records lines [] = .ok rs := rfl
  obtain ⟨rs', hrs', hall⟩ := (records_gradle_nearest lines hlines).2.1 htask
  obtain rfl := Except.ok.inj (hrecords.symm.trans hrs')
  exact ⟨⟨hlines, htask⟩, hrecords, hall⟩

end Layout

end BuildLog
