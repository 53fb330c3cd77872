-- SUMMARY: How Maven builds end: what a build leaves on the machine, what it returns, and what it can fail for.
import BuildLog.Build.Maven
import BuildLog.Proofs.Build.Capture

/-!
# Maven builds and their captures

A project without commits has a capture of a fresh name. Once a capture is open and Maven is
started, nothing can go wrong any more: the capture is written and reads back by its path. So a
build fails for what stands before that only.
-/

namespace BuildLog.Build

/-! ## Builds -/

namespace Maven

variable {m m' m₀ : Machine} {root project path : Path} {parallel : Bool} {flags : List Text}
  {file place : Location} {files : FileTree} {name : Text} {e : SystemError} {failure : Failure}

theorem openCapture_run (h : m.files.createFile m.here path = .ok (file, files)) :
    (openCapture path).run m = .ok file { m with files } := by
  rw [openCapture, Action.step_run, h]
  rfl

theorem openCapture_run_of_error (h : m.files.createFile m.here path = .error e) :
    (openCapture path).run m = .error (.file path e) m := by
  rw [openCapture, Action.step_run, h]
  rfl

/-- The end of a build: what Maven printed goes to the capture, and the capture is read. -/
def readBack (path : Path) (file : Location) (output : Bytes) : Action Text := do
  modify fun m => { m with files := m.files.write file output }
  let data ← Action.readFile path
  return Utf8.decodeLossy data

theorem readBack_run {output data : Bytes}
    (h : (m.files.write file output).readFile m.here path = .ok data) :
    (readBack path file output).run m =
      .ok (Utf8.decodeLossy data) { m with files := m.files.write file output } := by
  have hwrite :
      (modify fun m => { m with files := m.files.write file output } : Action Unit).run m =
        .ok () { m with files := m.files.write file output } := rfl
  rw [readBack, Action.bind_run_of_ok hwrite, Action.bind_run_of_ok (Action.readFile_run h)]
  rfl

/-- A build from where its capture has a path. -/
def captured (project path : Path) (parallel : Bool) (flags : List Text) : Action Text := do
  let file ← openCapture path
  let run ← Action.build program project (arguments parallel flags)
  readBack path file run.output

theorem run_of_path (hpath : (Capture.path root project).run m = .ok path m₀) (parallel : Bool)
    (flags : List Text) :
    ∃ notices, (run root project parallel flags).run m =
      (captured project path parallel flags).run (m₀.after [] notices) := by
  obtain ⟨notices, hnote⟩ := Action.note_run (m := m₀) .info "running maven"
    [("project", project.text), ("capture", path.text)]
  refine ⟨notices, ?_⟩
  rw [run, Action.bind_run_of_ok hpath, Action.bind_run_of_ok hnote]
  rfl

/-! ## Ends of a build -/

theorem run_of_capture_error (hpath : (Capture.path root project).run m = .ok path m₀)
    (h : m₀.files.createFile m₀.here path = .error e) :
    ∃ notices, (run root project parallel flags).run m =
      .error (.file path e) (m₀.after [] notices) := by
  obtain ⟨notices, hrun⟩ := run_of_path hpath parallel flags
  have hopen : (openCapture path).run (m₀.after [] notices) =
      .error (.file path e) (m₀.after [] notices) := openCapture_run_of_error h
  exact ⟨notices, hrun.trans (Action.bind_run_of_error hopen)⟩

theorem run_of_start_error (hpath : (Capture.path root project).run m = .ok path m₀)
    (hcreate : m₀.files.createFile m₀.here path = .ok (file, files))
    (h : Machine.start { m₀ with files } program project (arguments parallel flags) = .error e) :
    ∃ notices, (run root project parallel flags).run m =
      .error (.start program e) (Machine.after { m₀ with files } [] notices) := by
  obtain ⟨notices, hrun⟩ := run_of_path hpath parallel flags
  have hopen : (openCapture path).run (m₀.after [] notices) =
      .ok file (Machine.after { m₀ with files } [] notices) := openCapture_run hcreate
  have hstart : (Machine.after { m₀ with files } [] notices).start program project
      (arguments parallel flags) = .error e := Machine.start_after_eq_error_iff.2 h
  refine ⟨notices, ?_⟩
  rw [hrun, captured, Action.bind_run_of_ok hopen]
  exact Action.bind_run_of_error (Action.build_run_of_error hstart)

/-- What a build finds in its capture: what Maven printed, or nothing where a device was opened. -/
inductive Captured (t t' : FileTree) (file : Location) (output : Bytes) : Bytes → Prop
  | file (h : t.Keeps t' file output) : Captured t t' file output output
  | device (hsink : t.entry? file = some .sink) : Captured t t' file output []

theorem captured_of_createFile {here : Location} {t t' : FileTree} (output : Bytes)
    (hcreate : t.createFile here path = .ok (file, t')) :
    ∃ data, (t'.write file output).readFile here path = .ok data ∧
      Captured t (t'.write file output) file output data := by
  obtain ⟨hagree, hempty | ⟨hsink, rfl⟩⟩ := FileTree.keeps_of_createFile hcreate
  · have hkeeps := hempty.write output
    refine ⟨output, ?_, .file hkeeps⟩
    exact hkeeps.readFile hcreate (hagree.trans (FileTree.agreeExceptAt_write t' file output))
  · exact ⟨[], FileTree.readFile_sink hcreate hsink output, .device hsink⟩

/-- The text of a build is what the capture holds after it, and that is what Maven printed. -/
theorem run_of_canStart (hpath : (Capture.path root project).run m = .ok path m₀)
    (hcreate : m₀.files.createFile m₀.here path = .ok (file, files))
    (hstart : Machine.CanStart { m₀ with files } program project (arguments parallel flags) place
      name) :
    ∃ data m', (run root project parallel flags).run m = .ok (Utf8.decodeLossy data) m' ∧
      m'.files.readFile m'.here path = .ok data ∧
      Captured m₀.files m'.files file (m₀.nextRun name).output data ∧
      ∃ notices, m' = Machine.after { m₀ with files := files.write file (m₀.nextRun name).output }
        [⟨name, place, arguments parallel flags⟩] notices := by
  obtain ⟨noted, hrun⟩ := run_of_path hpath parallel flags
  have hopen : (openCapture path).run (m₀.after [] noted) =
      .ok file (Machine.after { m₀ with files } [] noted) := openCapture_run hcreate
  have hstart' : (Machine.after { m₀ with files } [] noted).CanStart program project
      (arguments parallel flags) place name := Machine.canStart_after.2 hstart
  obtain ⟨notices, hbuild⟩ := Action.build_run hstart'
  rw [Machine.after_after, Machine.nextRun_after_notices] at hbuild
  obtain ⟨data, hread, hcaptured⟩ := captured_of_createFile (m₀.nextRun name).output hcreate
  refine ⟨data, _, ?_, hread, hcaptured, noted ++ notices, rfl⟩
  rw [hrun, captured, Action.bind_run_of_ok hopen, Action.bind_run_of_ok hbuild]
  exact readBack_run hread

/-- How a build ends. -/
inductive Ends (m : Machine) (root project : Path) (parallel : Bool) (flags : List Text) :
    EStateM.Result Failure Machine Text → Prop
  | place {failure : Failure} (h : Capture.Fails m root project failure) :
      Ends m root project parallel flags (.error failure m)
  | capture {path : Path} {m₀ : Machine} {e : SystemError} {notices : List Notice}
      (hpath : (Capture.path root project).run m = .ok path m₀)
      (h : m₀.files.createFile m₀.here path = .error e) :
      Ends m root project parallel flags (.error (.file path e) (m₀.after [] notices))
  | start {path : Path} {m₀ : Machine} {file : Location} {files : FileTree} {e : SystemError}
      {notices : List Notice} (hpath : (Capture.path root project).run m = .ok path m₀)
      (hcreate : m₀.files.createFile m₀.here path = .ok (file, files))
      (h : Machine.start { m₀ with files } program project (arguments parallel flags) = .error e) :
      Ends m root project parallel flags
        (.error (.start program e) (Machine.after { m₀ with files } [] notices))
  | done {path : Path} {m₀ : Machine} {file place : Location} {files : FileTree} {name : Text}
      {data : Bytes} {notices : List Notice}
      (hpath : (Capture.path root project).run m = .ok path m₀)
      (hcreate : m₀.files.createFile m₀.here path = .ok (file, files))
      (hstart : Machine.CanStart { m₀ with files } program project (arguments parallel flags) place
        name)
      (hcaptured : Captured m₀.files (files.write file (m₀.nextRun name).output) file
        (m₀.nextRun name).output data) :
      Ends m root project parallel flags (.ok (Utf8.decodeLossy data)
        (Machine.after { m₀ with files := files.write file (m₀.nextRun name).output }
          [⟨name, place, arguments parallel flags⟩] notices))

theorem run_ends (m : Machine) (root project : Path) (parallel : Bool) (flags : List Text) :
    Ends m root project parallel flags ((run root project parallel flags).run m) := by
  rcases Capture.path_run_or_fails m root project with ⟨path, m₀, hpath⟩ | ⟨failure, hfails⟩
  · cases hcreate : m₀.files.createFile m₀.here path with
    | error e =>
      obtain ⟨notices, hrun⟩ := run_of_capture_error hpath hcreate
      rw [hrun]
      exact .capture hpath hcreate
    | ok created =>
      obtain ⟨file, files⟩ := created
      rcases Machine.canStart_or_start_eq_error { m₀ with files } program project
        (arguments parallel flags) with ⟨place, name, hstart⟩ | ⟨e, hstart⟩
      · obtain ⟨data, m', hrun, -, hcaptured, notices, rfl⟩ :=
          run_of_canStart hpath hcreate hstart
        rw [hrun]
        exact .done hpath hcreate hstart hcaptured
      · obtain ⟨notices, hrun⟩ := run_of_start_error hpath hcreate hstart
        rw [hrun]
        exact .start hpath hcreate hstart
  · have hrun : (run root project parallel flags).run m = .error failure m :=
      Action.bind_run_of_error hfails.path_run
    rw [hrun]
    exact .place hfails

/-! ## Builds that fail -/

/-- How a build fails: its output cannot be captured, or Maven cannot be started. -/
inductive Fails (m : Machine) (root project : Path) (parallel : Bool) (flags : List Text) :
    Failure → Prop
  | place {failure : Failure} (h : Capture.Fails m root project failure) :
      Fails m root project parallel flags failure
  | capture {path : Path} {m₀ : Machine} {e : SystemError}
      (hpath : (Capture.path root project).run m = .ok path m₀)
      (h : m₀.files.createFile m₀.here path = .error e) :
      Fails m root project parallel flags (.file path e)
  | start {path : Path} {m₀ : Machine} {file : Location} {files : FileTree} {e : SystemError}
      (hpath : (Capture.path root project).run m = .ok path m₀)
      (hcreate : m₀.files.createFile m₀.here path = .ok (file, files))
      (h : Machine.start { m₀ with files } program project (arguments parallel flags) = .error e) :
      Fails m root project parallel flags (.start program e)

theorem Fails.run (h : Fails m root project parallel flags failure) :
    ∃ m', (Maven.run root project parallel flags).run m = .error failure m' := by
  cases h with
  | place h => exact ⟨m, Action.bind_run_of_error h.path_run⟩
  | capture hpath h =>
    obtain ⟨notices, hrun⟩ := run_of_capture_error hpath h
    exact ⟨_, hrun⟩
  | start hpath hcreate h =>
    obtain ⟨notices, hrun⟩ := run_of_start_error hpath hcreate h
    exact ⟨_, hrun⟩

theorem fails_of_run (h : (run root project parallel flags).run m = .error failure m') :
    Fails m root project parallel flags failure := by
  have hends := run_ends m root project parallel flags
  rw [h] at hends
  cases hends with
  | place hplace => exact .place hplace
  | capture hpath hcreate => exact .capture hpath hcreate
  | start hpath hcreate hstart => exact .start hpath hcreate hstart

end Maven

end BuildLog.Build
