-- SUMMARY: Gradle builds call one program in one directory, once for each task and in their order.
import BuildLog.Build.Gradle
import BuildLog.Proofs.Build.Start

/-!
# Gradle builds

All tasks are handed to the same program in the same directory, so a run of several tasks ends
well if each of them can be started on the machine as it was before the run. If one cannot, the
first such task is what the run fails for.
-/

namespace BuildLog.Build.Gradle

variable {m m' : Machine} {p project : Path} {task output : Text} {tasks outputs : List Text}
  {place : Location} {name : Text}

/-- The calls of a program for the tasks. -/
def calls (name : Text) (place : Location) (tasks : List Text) : List Call :=
  tasks.map fun task => ⟨name, place, arguments task⟩

/-- What is kept of some runs. -/
def texts (runs : List Run) : List Text :=
  runs.map fun run => Utf8.decodeLossy run.output

theorem runTask_run (h : m.CanStart p project (arguments task) place name) :
    ∃ notices, (runTask p project task).run m =
      .ok (Utf8.decodeLossy (m.nextRun name).output)
        (m.after [⟨name, place, arguments task⟩] notices) := by
  obtain ⟨noted, hnote⟩ := Action.note_run (m := m) .info "running gradle"
    [("task", task), ("project", project.text)]
  obtain ⟨notices, hbuild⟩ := Action.build_run (Machine.canStart_after.2 h)
  refine ⟨noted ++ notices, ?_⟩
  rw [runTask, Action.bind_run_of_ok hnote, Action.bind_run_of_ok hbuild, Machine.after_after,
    List.nil_append, Machine.nextRun_after_notices]
  rfl

theorem canStart_of_runTask (h : (runTask p project task).run m = .ok output m') :
    ∃ place name, m.CanStart p project (arguments task) place name := by
  obtain ⟨noted, hnote⟩ := Action.note_run (m := m) .info "running gradle"
    [("task", task), ("project", project.text)]
  rw [runTask, Action.bind_run_of_ok hnote] at h
  obtain ⟨run, m₁, hbuild, -⟩ := Action.bind_run_eq_ok.1 h
  obtain ⟨place, name, hcan⟩ := Action.canStart_of_build hbuild
  exact ⟨place, name, Machine.canStart_after.1 hcan⟩

theorem mapM_runTask_run
    (h : ∀ task ∈ tasks, m.CanStart p project (arguments task) place name) :
    ∃ notices, (tasks.mapM (runTask p project)).run m =
      .ok (texts (m.nextRuns name tasks.length)) (m.after (calls name place tasks) notices) := by
  induction tasks generalizing m with
  | nil =>
    refine ⟨[], ?_⟩
    rw [List.mapM_nil, calls, List.map_nil, Machine.after_nil]
    rfl
  | cons task tasks ih =>
    obtain ⟨htask, htasks⟩ := List.forall_mem_cons.1 h
    obtain ⟨noted, hrun⟩ := runTask_run htask
    have hlater : ∀ other ∈ tasks, (m.after [⟨name, place, arguments task⟩] noted).CanStart p
        project (arguments other) place name :=
      fun other hmem => Machine.canStart_after.2 (htasks other hmem)
    obtain ⟨notices, hruns⟩ := ih hlater
    refine ⟨noted ++ notices, ?_⟩
    rw [List.mapM_cons, Action.bind_run_of_ok hrun, Action.bind_run_of_ok hruns, List.length_cons,
      Machine.nextRuns_succ, Machine.after_after]
    rfl

theorem canStart_of_mapM_runTask (h : (tasks.mapM (runTask p project)).run m = .ok outputs m') :
    ∀ task ∈ tasks, ∃ place name, m.CanStart p project (arguments task) place name := by
  induction tasks generalizing m m' outputs with
  | nil => simp
  | cons task tasks ih =>
    rw [List.mapM_cons] at h
    obtain ⟨output, m₁, htask, h⟩ := Action.bind_run_eq_ok.1 h
    obtain ⟨outputs, m₂, htasks, -⟩ := Action.bind_run_eq_ok.1 h
    obtain ⟨place, name, hcan⟩ := canStart_of_runTask htask
    obtain ⟨notices, hrun⟩ := runTask_run hcan
    rw [hrun] at htask
    cases htask
    refine List.forall_mem_cons.2 ⟨⟨place, name, hcan⟩, fun task hmem => ?_⟩
    obtain ⟨place', name', hcan'⟩ := ih htasks task hmem
    exact ⟨place', name', Machine.canStart_after.1 hcan'⟩

/-! ## Tasks that cannot be started -/

theorem runTask_run_of_error {cause : SystemError}
    (h : m.start p project (arguments task) = .error cause) :
    ∃ notices, (runTask p project task).run m = .error (.start p cause) (m.after [] notices) := by
  obtain ⟨notices, hnote⟩ := Action.note_run (m := m) .info "running gradle"
    [("task", task), ("project", project.text)]
  refine ⟨notices, ?_⟩
  rw [runTask, Action.bind_run_of_ok hnote]
  exact Action.bind_run_of_error (Action.build_run_of_error (Machine.start_after_eq_error_iff.2 h))

/-- The first task that cannot be started ends a run of several tasks. Those before it change
nothing about whether it can be started. -/
theorem exists_of_mapM_runTask {failure : Failure}
    (h : (tasks.mapM (runTask p project)).run m = .error failure m') :
    ∃ earlier task later cause, tasks = earlier ++ task :: later ∧
      (∀ other ∈ earlier, ∃ place name, m.CanStart p project (arguments other) place name) ∧
      m.start p project (arguments task) = .error cause ∧ failure = .start p cause := by
  induction tasks generalizing m with
  | nil => cases h
  | cons task tasks ih =>
    rw [List.mapM_cons] at h
    rcases m.canStart_or_start_eq_error p project (arguments task) with hcan | ⟨cause, hcause⟩
    · obtain ⟨place, name, hstart⟩ := hcan
      obtain ⟨notices, hrun⟩ := runTask_run hstart
      rw [Action.bind_run_of_ok hrun] at h
      rcases Action.bind_run_eq_error.1 h with h | ⟨texts, m₁, -, h⟩
      · obtain ⟨earlier, other, later, cause, rfl, hearlier, hcause, rfl⟩ := ih h
        simp only [Machine.canStart_after, Machine.start_after_eq_error_iff] at hearlier hcause
        exact ⟨task :: earlier, other, later, cause, rfl,
          List.forall_mem_cons.2 ⟨⟨place, name, hstart⟩, hearlier⟩, hcause, rfl⟩
      · cases h
    · obtain ⟨notices, hrun⟩ := runTask_run_of_error hcause
      rw [Action.bind_run_of_error hrun] at h
      cases h
      exact ⟨[], task, tasks, cause, rfl, by simp, hcause, rfl⟩

/-! ## Whole builds -/

theorem run_eq :
    (run project tasks).run m = (tasks.mapM (runTask (program m project) project)).run m :=
  Action.bind_run_of_ok rfl

/-- A build whose tasks can be started runs each of them, in their order. -/
theorem run_of_canStart
    (h : ∀ task ∈ tasks, m.CanStart (program m project) project (arguments task) place name) :
    ∃ notices, (run project tasks).run m =
      .ok (texts (m.nextRuns name tasks.length)) (m.after (calls name place tasks) notices) := by
  rw [run_eq]
  exact mapM_runTask_run h

theorem canStart_of_run (h : (run project tasks).run m = .ok outputs m') :
    ∀ task ∈ tasks, ∃ place name,
      m.CanStart (program m project) project (arguments task) place name := by
  rw [run_eq] at h
  exact canStart_of_mapM_runTask h

/-- How a build fails: a task cannot be started, after those before it have been run. -/
inductive Fails (m : Machine) (project : Path) (tasks : List Text) : Failure → Prop
  | start {earlier later : List Text} {task : Text} {cause : SystemError}
      (htasks : tasks = earlier ++ task :: later)
      (hearlier : ∀ other ∈ earlier, ∃ place name,
        m.CanStart (program m project) project (arguments other) place name)
      (h : m.start (program m project) project (arguments task) = .error cause) :
      Fails m project tasks (.start (program m project) cause)

theorem fails_of_run {failure : Failure} (h : (run project tasks).run m = .error failure m') :
    Fails m project tasks failure := by
  rw [run_eq] at h
  obtain ⟨earlier, task, later, cause, htasks, hearlier, hcause, rfl⟩ := exists_of_mapM_runTask h
  exact .start htasks hearlier hcause

theorem Fails.run_ne_ok {failure : Failure} (h : Fails m project tasks failure) :
    (run project tasks).run m ≠ .ok outputs m' := by
  obtain ⟨rfl, -, hcause⟩ := h
  intro hrun
  obtain ⟨place, name, hcan⟩ := canStart_of_run hrun _ (List.mem_append_cons_self)
  exact hcan.start_ne_error hcause

end BuildLog.Build.Gradle
