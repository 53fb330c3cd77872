-- SUMMARY: Nothing is printed before the report, and a run prints the whole report unless the standard output refuses it.
import BuildLog.Program
import BuildLog.Proofs.Success

/-!
# What a run prints

The standard output takes the report and nothing else. Whatever a command does to come to its
records, and wherever it is stopped, the standard output has taken no more than before. Silence
goes through computations step by step. Only an action that puts a machine in the place of another
one has to be looked at with the machine that it started from. The report is printed last, and it
is the only thing that the standard output can take a part of.
-/

namespace BuildLog

/-- The standard output is the same, and it has taken no more. -/
structure Machine.SameOutput (m m' : Machine) : Prop where
  printed : m'.printed = m.printed
  outlet : m'.outlet = m.outlet

theorem Machine.SameOutput.refl (m : Machine) : m.SameOutput m := ⟨rfl, rfl⟩

theorem Machine.SameOutput.trans {m m' m'' : Machine} (h : m.SameOutput m')
    (h' : m'.SameOutput m'') : m.SameOutput m'' :=
  ⟨h'.printed.trans h.printed, h'.outlet.trans h.outlet⟩

namespace Action

variable {α β ε : Type} {m m' : Machine} {x : Action α}

/-! ## Silence of a computation -/

/-- From this machine nothing is printed, whether the action succeeds or fails. -/
def IsSilentFrom (x : Action α) (m : Machine) : Prop :=
  match x.run m with
  | .ok _ m' | .error _ m' => m.SameOutput m'

structure IsSilent (x : Action α) : Prop where
  silentFrom : ∀ m, x.IsSilentFrom m

theorem IsSilent.ok {a : α} (h : x.IsSilent) (hrun : x.run m = .ok a m') : m.SameOutput m' := by
  have hsame := h.silentFrom m
  rwa [IsSilentFrom, hrun] at hsame

theorem IsSilent.error {failure : Failure} (h : x.IsSilent) (hrun : x.run m = .error failure m') :
    m.SameOutput m' := by
  have hsame := h.silentFrom m
  rwa [IsSilentFrom, hrun] at hsame

theorem IsSilentFrom.bind {f : α → Action β} (hx : x.IsSilentFrom m) (hf : ∀ a, (f a).IsSilent) :
    (x >>= f).IsSilentFrom m := by
  rw [IsSilentFrom] at hx ⊢
  cases hrun : x.run m with
  | ok a m₁ =>
    rw [hrun] at hx
    rw [bind_run_of_ok hrun]
    have hnext := (hf a).silentFrom m₁
    rw [IsSilentFrom] at hnext
    split at hnext <;> exact hx.trans hnext
  | error failure m₁ =>
    rw [hrun] at hx
    rw [bind_run_of_error hrun]
    exact hx

theorem IsSilent.bind {f : α → Action β} (hx : x.IsSilent) (hf : ∀ a, (f a).IsSilent) :
    (x >>= f).IsSilent :=
  ⟨fun m => (hx.silentFrom m).bind hf⟩

theorem IsSilent.pure (a : α) : (Pure.pure a : Action α).IsSilent := ⟨.refl⟩

theorem IsSilent.mapM {f : α → Action β} (xs : List α) (hf : ∀ a ∈ xs, (f a).IsSilent) :
    (xs.mapM f).IsSilent := by
  induction xs with
  | nil => exact .pure []
  | cons x xs ih =>
    rw [List.mapM_cons]
    refine (hf x List.mem_cons_self).bind fun y => ?_
    exact (ih fun a ha => hf a (List.mem_cons_of_mem x ha)).bind fun ys => .pure (y :: ys)

/-- An action that goes on with the machine is looked at with that machine. -/
theorem IsSilent.get {f : Machine → Action β} (h : ∀ m, (f m).IsSilentFrom m) :
    (MonadState.get >>= f : Action β).IsSilent :=
  ⟨h⟩

theorem IsSilentFrom.set (h : m.SameOutput m') : (MonadState.set m' : Action Unit).IsSilentFrom m :=
  h

/-! ## Silent actions -/

theorem isSilent_modify {f : Machine → Machine} (h : ∀ m : Machine, m.SameOutput (f m)) :
    (modify f : Action Unit).IsSilent :=
  ⟨h⟩

theorem isSilent_look (f : Machine → α) : (look f).IsSilent := ⟨.refl⟩

theorem isSilent_attempt (f : Machine → Except ε α) (failure : ε → Failure) :
    (attempt f failure).IsSilent := by
  refine ⟨fun m => ?_⟩
  rw [IsSilentFrom, attempt_run]
  cases f m <;> exact .refl m

theorem isSilent_step {f : Machine → Except ε (α × Machine)} (failure : ε → Failure)
    (h : ∀ {m a m'}, f m = .ok (a, m') → m.SameOutput m') : (step f failure).IsSilent := by
  refine ⟨fun m => ?_⟩
  rw [IsSilentFrom, step_run]
  cases hstep : f m with
  | ok next => exact h hstep
  | error e => exact .refl m

theorem isSilent_note (level : LogLevel) (event : String) (values : List (String × Text)) :
    (note level event values).IsSilent :=
  isSilent_modify fun _ => ⟨rfl, rfl⟩

theorem sameOutput_of_start {program directory : Path} {arguments : List Text} {run : Run}
    (h : m.start program directory arguments = .ok (run, m')) : m.SameOutput m' := by
  rw [Machine.start] at h
  repeat' split at h
  all_goals cases h
  exact ⟨rfl, rfl⟩

theorem isSilent_build (program directory : Path) (arguments : List Text) :
    (build program directory arguments).IsSilent := by
  refine (isSilent_step _ sameOutput_of_start).bind fun run => ?_
  dsimp only
  split
  · exact (isSilent_note ..).bind fun _ => .pure run
  · exact .pure run

end Action

open BuildLog.Action

/-! ## Builds -/

namespace Build

theorem Capture.isSilent_commit? (project : Path) : (commit? project).IsSilent := by
  refine .get fun m => ?_
  split
  · exact .refl m
  · next run m' hstart =>
    exact (IsSilentFrom.set (sameOutput_of_start hstart)).bind fun _ => .pure _

theorem Capture.isSilent_makeDirectory (path : Path) : (makeDirectory path).IsSilent := by
  refine .get fun m => ?_
  split
  · next files _ =>
    have hset : m.SameOutput { m with files } := ⟨rfl, rfl⟩
    exact (IsSilentFrom.set hset).bind fun _ => isSilent_note ..
  · exact .refl m
  · exact .refl m

theorem Capture.isSilent_path (root project : Path) : (Capture.path root project).IsSilent := by
  refine (isSilent_attempt ..).bind fun place => ?_
  refine (isSilent_makeDirectory _).bind fun _ => (isSilent_commit? _).bind fun commit => ?_
  cases commit with
  | some commit => exact .bind (.pure commit) fun _ => .pure _
  | none =>
    refine .bind ?_ fun _ => .pure _
    exact (isSilent_look _).bind fun name => (isSilent_note ..).bind fun _ => .pure name

theorem Maven.isSilent_openCapture (path : Path) : (openCapture path).IsSilent := by
  refine isSilent_step _ fun {m file m'} h => ?_
  obtain ⟨created, -, heq⟩ := map_eq_ok.1 h
  cases heq
  exact ⟨rfl, rfl⟩

theorem Maven.isSilent_run (root project : Path) (parallel : Bool) (flags : List Text) :
    (Maven.run root project parallel flags).IsSilent := by
  refine (Capture.isSilent_path root project).bind fun path => (isSilent_note ..).bind fun _ => ?_
  refine (isSilent_openCapture path).bind fun place => (isSilent_build ..).bind fun run => ?_
  refine .bind (isSilent_modify fun _ => ⟨rfl, rfl⟩) fun _ => ?_
  exact (isSilent_attempt ..).bind fun data => .pure _

theorem Gradle.isSilent_run (project : Path) (tasks : List Text) :
    (Gradle.run project tasks).IsSilent := by
  refine (isSilent_look _).bind fun program => .mapM tasks fun task _ => ?_
  exact (isSilent_note ..).bind fun _ => (isSilent_build ..).bind fun run => .pure _

end Build

/-! ## Commands -/

namespace Program

theorem isSilent_settings (config : Option Path) : (settings config).IsSilent := by
  cases config with
  | none => exact .pure _
  | some path => exact isSilent_attempt ..

theorem isSilent_scrape (layout : Layout) (skip : List Text) (text : Text) :
    (scrape layout skip text).IsSilent :=
  isSilent_attempt ..

theorem isSilent_scanLogs (layout : Layout) (skip : List Text) (logs : List Path) :
    (scanLogs layout skip logs).IsSilent := by
  refine .bind (.mapM logs fun log _ => ?_) fun perLog => .pure _
  exact (isSilent_attempt ..).bind fun data => isSilent_scrape ..

theorem isSilent_recordsOf (s : Settings) (command : Command) : (recordsOf s command).IsSilent := by
  cases command with
  | gradle project legacy requireSources =>
    refine (Build.Gradle.isSilent_run project s.gradleTasks).bind fun outputs => ?_
    refine .bind (.mapM outputs fun output _ => isSilent_scrape ..) fun perTask => ?_
    cases requireSources with
    | true => exact isSilent_attempt ..
    | false => exact .pure _
  | maven project options =>
    refine (isSilent_look _).bind fun root => ?_
    exact (Build.Maven.isSilent_run ..).bind fun output => isSilent_scrape ..
  | scan layout logs => exact isSilent_scanLogs ..

/-- A command line comes to its records, or to a failure, without printing. -/
theorem isSilent_records (line : CommandLine) : (records line).IsSilent := by
  refine (isSilent_settings line.config).bind fun s => ?_
  exact (isSilent_recordsOf s line.command).bind fun rs => .pure _

end Program

/-! ## The report -/

theorem Outlet.taken_eq_self {outlet : Outlet} {data : Bytes} (h : outlet.refusal? data = none) :
    outlet.taken data = data := by
  rw [Outlet.taken]
  rw [Outlet.refusal?] at h
  cases hlimit : outlet.limit with
  | none => rfl
  | some limit =>
    rw [hlimit] at h
    refine List.take_of_length_le (Nat.le_of_not_lt fun hlt => ?_)
    simp [hlt] at h

theorem Action.print_run (m : Machine) (data : Bytes) :
    (Action.print data).run m =
      match m.outlet.refusal? data with
      | some cause => .error (.system cause) { m with printed := m.printed ++ m.outlet.taken data }
      | none => .ok () { m with printed := m.printed ++ m.outlet.taken data } := by
  have hset : ∀ m' : Machine, (set m' : Action Unit).run m = .ok () m' := fun m' => rfl
  rw [Action.print, Action.bind_run_of_ok Action.get_run, Action.bind_run_of_ok (hset _)]
  cases m.outlet.refusal? data <;> rfl

namespace Program

variable {m m' : Machine} {line : CommandLine} {rs : List Record} {failure : Failure}

/-- A run ends so, with the files and the current directory of the machine `m'`. -/
structure EndsWith (line : CommandLine) (m m' : Machine) (exitCode : UInt32) (output : Bytes) :
    Prop where
  exitCode : (run line m).1.exitCode = exitCode
  output : (run line m).1.output = output
  files : (run line m).2.files = m'.files
  here : (run line m).2.here = m'.here

theorem endsWith_of_run {o : Outcome} {m'' : Machine} (h : run line m = (o, m''))
    (hfiles : m''.files = m'.files) (hhere : m''.here = m'.here) :
    EndsWith line m m' o.exitCode o.output :=
  ⟨by rw [h], by rw [h], by rw [h, hfiles], by rw [h, hhere]⟩

/-- The last message of a run is that of the failure. -/
def EndsInError (line : CommandLine) (m : Machine) (failure : Failure) : Prop :=
  (run line m).1.messages.getLast? = some (errorLine m failure)

theorem run_of_printReport_error (h : (printReport line).run m = .error failure m') :
    run line m = (⟨1, outputOf m m', beforehand line m ++ notices line m m' ++
      [errorLine m failure]⟩, m') ∧ EndsInError line m failure := by
  have hrun : run line m = (⟨1, outputOf m m', beforehand line m ++ notices line m m' ++
      [errorLine m failure]⟩, m') := by rw [run, h]
  refine ⟨hrun, ?_⟩
  rw [EndsInError, hrun]
  exact List.getLast?_concat

theorem run_of_records_error (h : (records line).run m = .error failure m') :
    (run line m).2 = m' ∧ EndsWith line m m' 1 [] ∧ EndsInError line m failure := by
  obtain ⟨hrun, herror⟩ := run_of_printReport_error (Action.bind_run_of_error h)
  have hends := endsWith_of_run hrun rfl rfl
  have houtput : outputOf m m' = [] := by
    rw [outputOf, ((isSilent_records line).error h).printed, List.drop_length]
  rw [houtput] at hends
  exact ⟨by rw [hrun], hends, herror⟩

/-- The report is printed on the machine that the records leave, with one more notice. -/
theorem printReport_run (h : (records line).run m = .ok rs m') :
    ∃ m'', m''.files = m'.files ∧ m''.here = m'.here ∧
      outputOf m m'' = m.outlet.taken (Utf8.encode (Record.report rs)) ∧
      (printReport line).run m =
        match m.outlet.refusal? (Utf8.encode (Record.report rs)) with
        | some cause => .error (.system cause) m''
        | none => .ok () m'' := by
  have hsame := (isSilent_records line).ok h
  obtain ⟨m₁, hnote, hfiles, hhere, hprinted, houtlet⟩ : ∃ m₁ : Machine,
      (Action.note .info "scraped compiler arguments" [("tasks", Nat.toDigits 10 rs.length)]).run
        m' = .ok () m₁ ∧ m₁.files = m'.files ∧ m₁.here = m'.here ∧ m₁.printed = m.printed ∧
        m₁.outlet = m.outlet :=
    ⟨_, rfl, rfl, rfl, hsame.printed, hsame.outlet⟩
  refine ⟨{ m₁ with printed := m₁.printed ++ m.outlet.taken (Utf8.encode (Record.report rs)) },
    hfiles, hhere, ?_, ?_⟩
  · rw [outputOf, hprinted, List.drop_left]
  · rw [printReport, Action.bind_run_of_ok h, Action.bind_run_of_ok hnote, Action.print_run,
      houtlet]

/-- The records are printed as a whole, or the standard output takes a part and refuses the rest. -/
theorem run_of_records_ok (h : (records line).run m = .ok rs m') :
    match m.outlet.refusal? (Utf8.encode (Record.report rs)) with
    | none => EndsWith line m m' 0 (Utf8.encode (Record.report rs))
    | some cause => EndsWith line m m' 1 (m.outlet.taken (Utf8.encode (Record.report rs))) ∧
        EndsInError line m (.system cause) := by
  obtain ⟨m'', hfiles, hhere, houtput, hprint⟩ := printReport_run h
  cases hrefusal : m.outlet.refusal? (Utf8.encode (Record.report rs)) with
  | none =>
    rw [hrefusal] at hprint
    have hrun : run line m =
        (⟨0, outputOf m m'', beforehand line m ++ notices line m m''⟩, m'') := by
      rw [run, hprint]
    rw [Outlet.taken_eq_self hrefusal] at houtput
    rw [← houtput]
    exact endsWith_of_run hrun hfiles hhere
  | some cause =>
    rw [hrefusal] at hprint
    obtain ⟨hrun, herror⟩ := run_of_printReport_error hprint
    rw [← houtput]
    exact ⟨endsWith_of_run hrun hfiles hhere, herror⟩

end Program

end BuildLog
