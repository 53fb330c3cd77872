-- SUMMARY: Which spellings of a project make Gradle run the wrapper that lies in the project.
import BuildLog.Proofs.Build.Gradle
import BuildLog.Proofs.FileTree.Directory
import Mathlib

/-!
# Wrappers

The wrapper is looked for twice by the same path: from the current directory when the program is
chosen, and from the project when it is started. An absolute path leads to the same file both
times. Of the relative paths only those do that lead on from the project itself, such as a dot.
-/

namespace BuildLog

namespace FileTree

variable {t : FileTree} {here file : Location} {path : Path}

/-- Seen from the directory, the path leads to the file, which is a program. -/
def LeadsToProgram (t : FileTree) (here : Location) (path : Path) (file : Location) : Prop :=
  ∃ data, t.locate here path = .ok (file, .file true data)

theorem LeadsToProgram.isFile (h : LeadsToProgram t here path file) : t.isFile here path := by
  obtain ⟨data, h⟩ := h
  exact isFile_iff.2 ⟨file, true, data, h⟩

end FileTree

namespace Build.Gradle

open FileTree

variable {m m' : Machine} {project : Path} {task name : Text} {tasks outputs : List Text}
  {place file : Location}

/-! ## Starting the wrapper -/

/-- The name that the wrapper of a project goes by. -/
def wrapperName : Text := "gradlew".toList

theorem wrapper_eq (project : Path) : wrapper project = project.push ⟨wrapperName⟩ := rfl

/-- The system hands the argument over. -/
def IsArgument (s : Text) : Prop := '\x00' ∉ s ∧ ¬ Machine.isLongArgument s

theorem isName_wrapperName : IsName wrapperName := by
  decide

theorem programAt_wrapper (hne : project.text ≠ []) :
    m.programAt place (wrapper project) = .ok name ↔
      name = wrapperName ∧ ∃ file, LeadsToProgram m.files place (wrapper project) file := by
  have hslash : (wrapper project).text.contains '/' :=
    List.contains_iff_mem.2 (Path.slash_mem_push hne isName_wrapperName.no_slash)
  have hlast : (wrapper project).names.getLast?.getD [] = wrapperName := by
    rw [wrapper_eq, Path.names_push isName_wrapperName.ne_nil isName_wrapperName.no_slash,
      List.getLast?_concat, Option.getD_some]
  rw [Machine.programAt, if_pos hslash, hlast]
  constructor
  · intro h
    split at h
    · cases h
    next file data hlocate =>
      cases h
      exact ⟨rfl, file, data, hlocate⟩
    · cases h
  · rintro ⟨rfl, file, data, hlocate⟩
    rw [hlocate]

theorem holdsZero_wrapper_iff (hproject : '\x00' ∉ project.text) :
    Machine.holdsZero (wrapper project) project (arguments task) ↔ '\x00' ∈ task := by
  have hwrapper : '\x00' ∉ (wrapper project).text :=
    Path.not_mem_push (by decide) isName_wrapperName.no_slash hproject isName_wrapperName.no_zero
  simp [Machine.holdsZero, arguments, hproject, hwrapper]

theorem canStart_wrapper_iff (hproject : m.files.directoryAt m.here project = .ok place) :
    m.CanStart (wrapper project) project (arguments task) place wrapperName ↔
      IsArgument task ∧ ∃ file, LeadsToProgram m.files place (wrapper project) file := by
  have hprogram : m.programAt place (wrapper project) = .ok wrapperName ↔ _ :=
    programAt_wrapper (ne_nil_of_directoryAt hproject)
  have hzero : Machine.holdsZero (wrapper project) project (arguments task) ↔ _ :=
    holdsZero_wrapper_iff (zero_not_mem_of_directoryAt hproject)
  constructor
  · intro h
    refine ⟨⟨fun hmem => h.no_zero (hzero.2 hmem), ?_⟩, (hprogram.1 h.program_at).2⟩
    exact h.short task (by simp [arguments])
  · rintro ⟨⟨htask, hshort⟩, hfile⟩
    refine ⟨fun hmem => htask (hzero.1 hmem), hproject, hprogram.2 ⟨rfl, hfile⟩, ?_⟩
    simp only [arguments, List.forall_mem_cons]
    exact ⟨by decide, by decide, by decide, hshort, by simp⟩

/-! ## Finding the wrapper -/

/-- What the path of the wrapper leads to from the current directory is the wrapper. -/
theorem leadsToProgram_of_isFile (hproject : m.files.directoryAt m.here project = .ok place)
    (hgradlew : LeadsToProgram m.files place ⟨wrapperName⟩ file)
    (h : m.files.isFile m.here (wrapper project)) :
    LeadsToProgram m.files m.here (wrapper project) file := by
  obtain ⟨file', executable, data', hfile⟩ := isFile_iff.1 h
  obtain ⟨data, hdata⟩ := hgradlew
  have hpush := locate_of_push isName_wrapperName.ne_nil isName_wrapperName.no_slash hproject hfile
  rw [hdata] at hpush
  cases hpush
  exact ⟨_, hfile⟩

theorem program_eq_wrapper (h : m.files.isFile m.here (wrapper project)) :
    program m project = wrapper project :=
  if_pos h

theorem programAt_program_of_not_isFile (h : ¬ m.files.isFile m.here (wrapper project))
    (hname : m.programAt place (program m project) = .ok name) : name ≠ wrapperName := by
  rw [program, if_neg h, Machine.programAt, if_neg (by decide)] at hname
  split at hname
  · cases hname
    decide
  · cases hname

/-! ## Running the wrapper -/

/-- The build ends well with the outputs. The program in the file is run once for each task, in
their order, in the directory at the location. -/
def RunsWrapper (m : Machine) (project : Path) (tasks : List Text) (place file : Location)
    (outputs : List Text) : Prop :=
  (∃ m', (run project tasks).run m = .ok outputs m' ∧
    m'.calls = m.calls ++ calls wrapperName place tasks) ∧
  (tasks ≠ [] → LeadsToProgram m.files place (program m project) file)

theorem runsWrapper_of_canStart
    (h : ∀ task ∈ tasks, m.CanStart (program m project) project (arguments task) place wrapperName)
    (hfile : tasks ≠ [] → LeadsToProgram m.files place (program m project) file) :
    RunsWrapper m project tasks place file (texts (m.nextRuns wrapperName tasks.length)) := by
  obtain ⟨notices, hrun⟩ := run_of_canStart h
  exact ⟨⟨_, hrun, rfl⟩, hfile⟩

/-- The wrapper is run with every task that can be handed over, if its path leads to it from the
current directory and from the project. -/
theorem runsWrapper_of_leadsToProgram (hproject : m.files.directoryAt m.here project = .ok place)
    (h : ∀ task ∈ tasks, IsArgument task ∧ LeadsToProgram m.files m.here (wrapper project) file ∧
      LeadsToProgram m.files place (wrapper project) file) :
    RunsWrapper m project tasks place file (texts (m.nextRuns wrapperName tasks.length)) := by
  refine runsWrapper_of_canStart (fun task htask => ?_) fun hne => ?_
  · obtain ⟨hargument, hhere, hplace⟩ := h task htask
    rw [program_eq_wrapper hhere.isFile]
    exact (canStart_wrapper_iff hproject).2 ⟨hargument, file, hplace⟩
  · obtain ⟨task, htask⟩ := List.exists_mem_of_ne_nil tasks hne
    obtain ⟨-, hhere, hplace⟩ := h task htask
    rwa [program_eq_wrapper hhere.isFile]

theorem RunsWrapper.canStart (h : RunsWrapper m project tasks place file outputs)
    (hproject : m.files.directoryAt m.here project = .ok place) :
    ∀ task ∈ tasks, m.CanStart (program m project) project (arguments task) place wrapperName := by
  obtain ⟨⟨m', hrun, hcalls⟩, -⟩ := h
  have hcan := canStart_of_run hrun
  cases tasks with
  | nil => simp
  | cons task tasks =>
    obtain ⟨place', name, hfirst⟩ := hcan task List.mem_cons_self
    have hall : ∀ other ∈ task :: tasks,
        m.CanStart (program m project) project (arguments other) place' name := by
      intro other hother
      obtain ⟨place'', name', h⟩ := hcan other hother
      obtain rfl : place'' = place' := Except.ok.inj (h.directory_at.symm.trans hfirst.directory_at)
      obtain rfl : name' = name := Except.ok.inj (h.program_at.symm.trans hfirst.program_at)
      exact h
    -- The calls tell which program was started.
    obtain ⟨notices, hrun'⟩ := run_of_canStart hall
    rw [hrun] at hrun'
    cases hrun'
    have hcall := List.cons.inj (List.append_cancel_left hcalls)
    obtain ⟨rfl, rfl, -⟩ := Call.mk.inj hcall.1
    exact hall

theorem RunsWrapper.leadsToProgram (h : RunsWrapper m project tasks place file outputs)
    (hproject : m.files.directoryAt m.here project = .ok place)
    (hgradlew : LeadsToProgram m.files place ⟨wrapperName⟩ file) :
    ∀ task ∈ tasks, IsArgument task ∧ LeadsToProgram m.files m.here (wrapper project) file ∧
      LeadsToProgram m.files place (wrapper project) file := by
  intro task htask
  have hcan := h.canStart hproject task htask
  have hfile : m.files.isFile m.here (wrapper project) := by
    by_contra hnot
    exact programAt_program_of_not_isFile hnot hcan.program_at rfl
  have hplace := h.2 (List.ne_nil_of_mem htask)
  rw [program_eq_wrapper hfile] at hcan hplace
  exact ⟨((canStart_wrapper_iff hproject).1 hcan).1,
    leadsToProgram_of_isFile hproject hgradlew hfile, hplace⟩

theorem RunsWrapper.outputs_eq (h : RunsWrapper m project tasks place file outputs)
    (hproject : m.files.directoryAt m.here project = .ok place) :
    outputs = texts (m.nextRuns wrapperName tasks.length) := by
  obtain ⟨notices, hrun⟩ := run_of_canStart (h.canStart hproject)
  obtain ⟨⟨m', hrun', -⟩, -⟩ := h
  rw [hrun] at hrun'
  cases hrun'
  rfl

/-! ## Spellings of a project -/

theorem wrapper_pathOf (h : IsDirectory m.files place) :
    wrapper (pathOf place) = pathOf (place ++ [wrapperName]) :=
  (pathOf_concat h.names isName_wrapperName.no_slash).symm

/-- The absolute path of a project leads to the wrapper from everywhere. -/
theorem leadsToProgram_pathOf (h : IsDirectory m.files place)
    (hshort : ¬ isLongPath (wrapper (pathOf place)))
    (hgradlew : LeadsToProgram m.files place ⟨wrapperName⟩ file) (here : Location) :
    LeadsToProgram m.files here (wrapper (pathOf place)) file := by
  obtain ⟨data, hdata⟩ := hgradlew
  rw [wrapper_pathOf h] at hshort ⊢
  exact ⟨data, locate_pathOf_concat h isName_wrapperName hshort hdata⟩

/-- A project is built by the wrapper that lies in it exactly if the path of the wrapper leads there
from the current directory and from the project. An absolute path does so within the limits of
the system, and a path that does so gives the outputs and the calls of the canonical path. -/
theorem runsWrapper_iff (hproject : m.files.directoryAt m.here project = .ok place)
    (hgradlew : LeadsToProgram m.files place ⟨wrapperName⟩ file) :
    ((∃ outputs, RunsWrapper m project tasks place file outputs) ↔
      ∀ task ∈ tasks, IsArgument task ∧ LeadsToProgram m.files m.here (wrapper project) file ∧
        LeadsToProgram m.files place (wrapper project) file) ∧
    (project.isAbsolute → ¬ isLongPath (wrapper project) →
      (∃ data, m.files.entry? (place ++ [wrapperName]) = some (.file true data)) →
      (∀ task ∈ tasks, IsArgument task) →
        ∃ outputs, RunsWrapper m project tasks place file outputs) ∧
    (IsDirectory m.files m.here → HasTextLinks m.files → ¬ isLongPath (wrapper (pathOf place)) →
      ∀ outputs, RunsWrapper m project tasks place file outputs →
        RunsWrapper m (pathOf place) tasks place file outputs) := by
  refine ⟨⟨?_, ?_⟩, ?_, ?_⟩
  · rintro ⟨outputs, h⟩
    exact h.leadsToProgram hproject hgradlew
  · exact fun h => ⟨_, runsWrapper_of_leadsToProgram hproject h⟩
  · rintro habsolute hshort ⟨data, hentry⟩ htasks
    have hlocate :=
      locate_push_of_entry isName_wrapperName hproject hshort hentry (by simp) (by simp)
    have hhere := leadsToProgram_of_isFile hproject hgradlew (isFile_iff.2 ⟨_, _, _, hlocate⟩)
    have habsolute' : (wrapper project).isAbsolute := by
      rwa [wrapper_eq,
        Path.isAbsolute_push (ne_nil_of_directoryAt hproject) isName_wrapperName.no_slash]
    have hplace : LeadsToProgram m.files place (wrapper project) file := by
      obtain ⟨data, hdata⟩ := hhere
      exact ⟨data, (locate_of_isAbsolute habsolute' place m.here).trans hdata⟩
    exact ⟨_, runsWrapper_of_leadsToProgram hproject fun task htask =>
      ⟨htasks task htask, hhere, hplace⟩⟩
  · intro hhere hlinks hshort outputs h
    have hdirectory := isDirectory_of_directoryAt hhere hlinks hproject
    have hleads := leadsToProgram_pathOf hdirectory hshort hgradlew
    have hplace : m.files.directoryAt m.here (pathOf place) = .ok place :=
      directoryAt_pathOf hdirectory (not_isLongPath_of_push isName_wrapperName.no_slash hshort)
    rw [h.outputs_eq hproject]
    refine runsWrapper_of_leadsToProgram hplace fun task htask => ?_
    exact ⟨(h.leadsToProgram hproject hgradlew task htask).1, hleads m.here, hleads place⟩

/-- A machine with a project that has a wrapper, and with a link to the project. -/
def projectMachine : Machine where
  files :=
    { entries := [(["p".toList], .directory), (["p".toList, wrapperName], .file true []),
        (["link".toList], .link ⟨"/p".toList⟩)] }
  here := []
  environment := []
  programs := []
  runs := [(wrapperName, [⟨"x".toUTF8.toList, 0⟩])]
  calls := []
  freshName := []
  time := []
  notices := []
  complaint _ := []

/-- The path through the link leads to the wrapper, too, and gives what the canonical path
gives. -/
theorem runsWrapper_link :
    ∃ outputs,
      RunsWrapper projectMachine ⟨"/link".toList⟩ ["classes".toList] ["p".toList]
        ["p".toList, wrapperName] outputs ∧
      RunsWrapper projectMachine ⟨"/p".toList⟩ ["classes".toList] ["p".toList]
        ["p".toList, wrapperName] outputs := by
  have hproject : projectMachine.files.directoryAt projectMachine.here ⟨"/link".toList⟩ =
      .ok ["p".toList] := by cbv
  have hgradlew : LeadsToProgram projectMachine.files ["p".toList] ⟨wrapperName⟩
      ["p".toList, wrapperName] := ⟨[], by cbv⟩
  have htasks : ∀ task ∈ ["classes".toList], IsArgument task := by
    simp only [List.forall_mem_cons]
    exact ⟨⟨by decide, by decide⟩, by simp⟩
  have hlinks : HasTextLinks projectMachine.files := by
    refine hasTextLinks_of_entries fun entry hentry target htarget => ?_
    simp only [projectMachine, List.mem_cons, List.not_mem_nil, or_false] at hentry
    rcases hentry with rfl | rfl | rfl <;> cases htarget
    decide
  obtain ⟨-, habsolute, hcanonical⟩ := runsWrapper_iff hproject hgradlew
  obtain ⟨outputs, hruns⟩ := habsolute (by decide) (by decide) ⟨[], by decide⟩ htasks
  exact ⟨outputs, hruns, hcanonical .root hlinks (by decide) outputs hruns⟩

/-- A relative path leads to the wrapper from the current directory only. -/
theorem not_runsWrapper_relative :
    projectMachine.files.directoryAt projectMachine.here ⟨"p".toList⟩ = .ok ["p".toList] ∧
    LeadsToProgram projectMachine.files ["p".toList] ⟨wrapperName⟩ ["p".toList, wrapperName] ∧
    (∃ m', (run ⟨"p".toList⟩ ["classes".toList]).run projectMachine =
      .error (.start ⟨"p/gradlew".toList⟩ .notFound) m' ∧ m'.calls = []) ∧
    ¬ ∃ outputs, RunsWrapper projectMachine ⟨"p".toList⟩ ["classes".toList] ["p".toList]
      ["p".toList, wrapperName] outputs := by
  have hrun : ∃ m', (run ⟨"p".toList⟩ ["classes".toList]).run projectMachine =
      .error (.start ⟨"p/gradlew".toList⟩ .notFound) m' ∧ m'.calls = [] :=
    ⟨_, by cbv, by cbv⟩
  refine ⟨by cbv, ⟨[], by cbv⟩, hrun, ?_⟩
  obtain ⟨m', hrun, -⟩ := hrun
  rintro ⟨outputs, ⟨m'', hrun', -⟩, -⟩
  rw [hrun] at hrun'
  cases hrun'

end Build.Gradle

end BuildLog
