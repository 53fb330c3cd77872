-- SUMMARY: What it takes to start a program, and what builds leave on the machine.
import BuildLog.Proofs.Success

/-!
# Starting programs

A build adds one call and some notices to the machine and changes nothing else, whatever it
prints and however it ends. So whether a program can be started does not depend on the builds
before, and the runs of several builds are the next runs of the program.
-/

namespace BuildLog

namespace Machine

variable {m m' : Machine} {program directory : Path} {arguments : List Text} {place : Location}
  {name : Text} {run : Run}

/-! ## More calls and notices -/

/-- The machine after more calls and notices. -/
def after (m : Machine) (calls : List Call) (notices : List Notice) : Machine :=
  { m with calls := m.calls ++ calls, notices := m.notices ++ notices }

@[simp] theorem after_nil : m.after [] [] = m := by
  simp [after]

@[simp] theorem after_after (calls calls' : List Call) (notices notices' : List Notice) :
    (m.after calls notices).after calls' notices' =
      m.after (calls ++ calls') (notices ++ notices') := by
  simp [after]

@[simp] theorem after_calls (calls : List Call) (notices : List Notice) :
    (m.after calls notices).calls = m.calls ++ calls := rfl

/-! ## Programs that can be started -/

/-- The program can be started with the arguments. It runs at the location of the directory and
goes by the name. -/
structure CanStart (m : Machine) (program directory : Path) (arguments : List Text)
    (place : Location) (name : Text) : Prop where
  no_zero : ¬ holdsZero program directory arguments
  directory_at : m.files.directoryAt m.here directory = .ok place
  program_at : m.programAt place program = .ok name
  short : ∀ argument ∈ arguments, ¬ isLongArgument argument

/-- A program without a slash goes by its own name. -/
theorem eq_of_programAt {program : Text} (hslash : '/' ∉ program)
    (h : m.programAt place ⟨program⟩ = .ok name) : name = program := by
  rw [programAt, if_neg (by simpa using hslash)] at h
  split at h
  · cases h
    rfl
  · cases h

theorem canStart_after {calls : List Call} {notices : List Notice} :
    (m.after calls notices).CanStart program directory arguments place name ↔
      m.CanStart program directory arguments place name :=
  ⟨fun h => ⟨h.no_zero, h.directory_at, h.program_at, h.short⟩,
    fun h => ⟨h.no_zero, h.directory_at, h.program_at, h.short⟩⟩

theorem start_eq_ok_iff :
    m.start program directory arguments = .ok (run, m') ↔
      ∃ place name, m.CanStart program directory arguments place name ∧
        run = m.nextRun name ∧ m' = m.after [⟨name, place, arguments⟩] [] := by
  rw [start]
  constructor
  · intro h
    split at h
    · cases h
    next hzero =>
      split at h
      · cases h
      next place hdirectory =>
        split at h
        · cases h
        next name hprogram =>
          split at h
          · cases h
          next hshort =>
            cases h
            refine ⟨place, name, ⟨hzero, hdirectory, hprogram, ?_⟩, rfl, ?_⟩
            · intro argument hargument hlong
              exact hshort (List.any_eq_true.2 ⟨argument, hargument, hlong⟩)
            · simp [after]
  · rintro ⟨place, name, h, rfl, rfl⟩
    have hshort : ¬ arguments.any isLongArgument := by
      rw [List.any_eq_true]
      rintro ⟨argument, hargument, hlong⟩
      exact h.short argument hargument hlong
    rw [if_neg h.no_zero, h.directory_at]
    dsimp only
    rw [h.program_at]
    dsimp only
    rw [if_neg hshort]
    simp [after]

/-- A program can be started, or the system says why not. -/
theorem canStart_or_start_eq_error (m : Machine) (program directory : Path)
    (arguments : List Text) :
    (∃ place name, m.CanStart program directory arguments place name) ∨
      ∃ cause, m.start program directory arguments = .error cause := by
  cases h : m.start program directory arguments with
  | ok result =>
    obtain ⟨place, name, hcan, -⟩ := start_eq_ok_iff.1 h
    exact .inl ⟨place, name, hcan⟩
  | error cause => exact .inr ⟨cause, rfl⟩

theorem CanStart.start_ne_error {cause : SystemError}
    (h : m.CanStart program directory arguments place name) :
    m.start program directory arguments ≠ .error cause := by
  rw [start_eq_ok_iff.2 ⟨place, name, h, rfl, rfl⟩]
  simp

theorem start_after_eq_error_iff {calls : List Call} {notices : List Notice} {cause : SystemError} :
    (m.after calls notices).start program directory arguments = .error cause ↔
      m.start program directory arguments = .error cause := by
  have hprogram : ∀ place, (m.after calls notices).programAt place program =
      m.programAt place program := fun place => rfl
  have hdirectory : (m.after calls notices).files.directoryAt (m.after calls notices).here directory =
      m.files.directoryAt m.here directory := rfl
  rw [start, start, hdirectory]
  split
  · rfl
  · split
    · rfl
    · rw [hprogram]
      split
      · rfl
      · split <;> simp

/-! ## Next runs -/

/-- Calls of other programs use up no runs of a program. -/
theorem nextRun_after {calls : List Call} (h : ∀ call ∈ calls, call.program ≠ name)
    (notices : List Notice) : (m.after calls notices).nextRun name = m.nextRun name := by
  have hcount : calls.countP (fun call => call.program == name) = 0 :=
    List.countP_eq_zero.2 fun call hcall => by simpa using h call hcall
  rw [nextRun, after_calls, List.countP_append, hcount]
  rfl

theorem nextRun_after_notices (name : Text) (notices : List Notice) :
    (m.after [] notices).nextRun name = m.nextRun name :=
  nextRun_after (by simp) notices

/-- What the next calls of a program do. -/
def nextRuns (m : Machine) (name : Text) (n : Nat) : List Run :=
  (List.range n).map fun i =>
    (((m.runs.lookup name).getD [])[m.calls.countP (fun call => call.program == name) + i]?).getD
      ⟨[], 0⟩

/-- A call of the program uses up one of its runs. -/
theorem nextRuns_succ (n : Nat) (notices : List Notice) :
    m.nextRuns name (n + 1) =
      m.nextRun name :: (m.after [⟨name, place, arguments⟩] notices).nextRuns name n := by
  have hcalls : (m.after [⟨name, place, arguments⟩] notices).calls.countP (·.program == name) =
      m.calls.countP (·.program == name) + 1 := by
    simp [List.countP_append]
  rw [nextRuns, List.range_succ_eq_map, List.map_cons, List.map_map, nextRuns, hcalls]
  refine congrArg₂ List.cons rfl (List.map_congr_left fun i _ => ?_)
  rw [Function.comp_apply, Nat.succ_eq_add_one, Nat.add_assoc, Nat.add_comm 1 i]
  rfl

end Machine

namespace Action

variable {m m' : Machine} {program directory : Path} {arguments : List Text} {place : Location}
  {name : Text} {run : Run}

/-! ## Builds -/

theorem note_run (level : LogLevel) (event : String) (values : List (String × Text)) :
    ∃ notices, (note level event values).run m = .ok () (m.after [] notices) := by
  refine ⟨[⟨level, event.toList, values.map fun value => (value.1.toList, value.2)⟩], ?_⟩
  rw [Machine.after, List.append_nil]
  rfl

theorem start_run (h : m.CanStart program directory arguments place name) :
    (start program directory arguments).run m =
      .ok (m.nextRun name) (m.after [⟨name, place, arguments⟩] []) := by
  rw [start, step_run, Machine.start_eq_ok_iff.2 ⟨place, name, h, rfl, rfl⟩]

/-- How a build ends is noted and has no other effect. -/
theorem build_run (h : m.CanStart program directory arguments place name) :
    ∃ notices, (build program directory arguments).run m =
      .ok (m.nextRun name) (m.after [⟨name, place, arguments⟩] notices) := by
  rw [build, bind_run_of_ok (start_run h)]
  by_cases hcode : (m.nextRun name).exitCode != 0
  · obtain ⟨notices, hnote⟩ := note_run (m := m.after [⟨name, place, arguments⟩] []) .warn
      "build exited unsuccessfully, scanning its output anyway"
      [("program", program.text),
        ("status", "exit status: ".toList ++ Nat.toDigits 10 (m.nextRun name).exitCode.toNat)]
    refine ⟨notices, ?_⟩
    rw [if_pos hcode, bind_run_of_ok hnote, Machine.after_after]
    rfl
  · refine ⟨[], ?_⟩
    rw [if_neg hcode]
    rfl

theorem build_run_of_error {cause : SystemError}
    (h : m.start program directory arguments = .error cause) :
    (build program directory arguments).run m = .error (.start program cause) m := by
  refine bind_run_of_error ?_
  rw [start, step_run, h]

theorem canStart_of_build (h : (build program directory arguments).run m = .ok run m') :
    ∃ place name, m.CanStart program directory arguments place name := by
  rw [build] at h
  obtain ⟨run', m₁, hstart, -⟩ := bind_run_eq_ok.1 h
  rw [start, step_run] at hstart
  split at hstart
  next hok =>
    obtain ⟨place, name, hcan, -, -⟩ := Machine.start_eq_ok_iff.1 hok
    exact ⟨place, name, hcan⟩
  next => cases hstart

end Action

end BuildLog
