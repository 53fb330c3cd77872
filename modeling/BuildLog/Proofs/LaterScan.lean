-- SUMMARY: A build shows what a later scan of its outputs shows.
import BuildLog.Proofs.Build.Gradle
import BuildLog.Proofs.Build.Maven
import BuildLog.Proofs.Printing
import BuildLog.Proofs.Scan

/-!
# Builds and later scans

A build prints its report from the outputs as they come, and a scan prints one from files that
hold such outputs. Both come down to scraping the same texts in their order: once the build tool
can be started, the outputs are all that counts. A scan that reads its logs side by side may meet
any of the failures first, so it shows the same if there is at most one.
-/

namespace BuildLog

namespace Action

variable {α β : Type} {m m' : Machine}

/-- A computation that ends so and leaves the machine. -/
def ending (m : Machine) : Except Failure α → EStateM.Result Failure Machine α
  | .ok a => .ok a m
  | .error failure => .error failure m

theorem attempt_run_ending {ε : Type} (f : Machine → Except ε α) (failure : ε → Failure) :
    (attempt f failure).run m = ending m ((f m).mapError failure) := by
  rw [attempt_run]
  cases f m <;> rfl

/-- What leaves the machine as it is can be left out of the steps. -/
theorem bind_run_ending {x : Action α} {f : α → Action β} {r : Except Failure α}
    {g : α → Except Failure β} (hx : x.run m = ending m' r)
    (hf : ∀ a, (f a).run m' = ending m' (g a)) : (x >>= f).run m = ending m' (r >>= g) := by
  cases r with
  | ok a => exact (bind_run_of_ok hx).trans (hf a)
  | error failure => exact bind_run_of_error hx

theorem mapM_run_ending {γ : Type} {f : α → Action β} {g : γ → Except Failure β} {xs : List α}
    {ys : List γ} (h : List.Forall₂ (fun x y => (f x).run m = ending m (g y)) xs ys) :
    (xs.mapM f).run m = ending m (ys.mapM g) := by
  induction h with
  | nil => rfl
  | cons hx _ ih =>
    rw [List.mapM_cons, List.mapM_cons]
    exact bind_run_ending hx fun b => bind_run_ending ih fun bs => rfl

end Action

/-! ## What a run shows -/

/-- The line that tells why a run failed. It is the last one. -/
def Outcome.errorLine? (o : Outcome) : Option Text :=
  if o.exitCode = 0 then none else o.messages.getLast?

/-- The exit code, what is printed and the error line of a run. -/
def Outcome.shown (o : Outcome) : UInt32 × Bytes × Option Text :=
  (o.exitCode, o.output, o.errorLine?)

namespace Program

variable {layout : Layout} {skip texts : List Text} {m m₀ m' later : Machine} {s : Settings}
  {line line' : CommandLine} {logs : List Path} {r : Except Failure (List Record)}
  {project path : Path} {place file : Location} {files : FileTree} {name : Text}

/-- What is shown if a command ends with its records or with a failure. The standard output may
refuse the report. -/
def shown (line : CommandLine) (m : Machine) :
    Except Failure (List Record) → UInt32 × Bytes × Option Text
  | .ok rs =>
    let data := Utf8.encode (Record.report (reduced line.filter rs))
    match m.outlet.refusal? data with
    | none => (0, data, none)
    | some cause => (1, m.outlet.taken data, some (errorLine m (.system cause)))
  | .error failure => (1, [], some (errorLine m failure))

theorem errorLine_congr (hcolor : isColored later = isColored m) (failure : Failure) :
    errorLine later failure = errorLine m failure := by
  rw [errorLine, errorLine, headed, headed, hcolor]

theorem shown_congr (hfilter : line'.filter = line.filter) (hcolor : isColored later = isColored m)
    (houtlet : later.outlet = m.outlet) (r : Except Failure (List Record)) :
    shown line' later r = shown line m r := by
  cases r with
  | ok rs => simp only [shown, hfilter, houtlet, errorLine_congr hcolor]
  | error failure => rw [shown, shown, errorLine_congr hcolor]

theorem shown_of_endsInError {failure : Failure} {output : Bytes}
    (hends : EndsWith line m m' 1 output) (herror : EndsInError line m failure) :
    (run line m).1.shown = (1, output, some (errorLine m failure)) := by
  rw [Outcome.shown, Outcome.errorLine?, hends.exitCode, hends.output, herror, if_neg (by decide)]

theorem run_of_recordsOf (hs : (settings line.config).run m = .ok s m)
    (h : (recordsOf s line.command).run m = Action.ending m' r) :
    (run line m).1.shown = shown line m r ∧ (run line m).2.files = m'.files ∧
      (run line m).2.here = m'.here := by
  have hrecords : (records line).run m =
      Action.ending m' (r >>= fun rs => .ok (reduced line.filter rs)) :=
    (Action.bind_run_of_ok hs).trans (Action.bind_run_ending h fun rs => rfl)
  cases r with
  | ok rs =>
    have hrun := run_of_records_ok hrecords
    cases hrefusal : m.outlet.refusal? (Utf8.encode (Record.report (reduced line.filter rs))) with
    | none =>
      rw [hrefusal] at hrun
      simp only [shown, hrefusal]
      rw [Outcome.shown, Outcome.errorLine?, hrun.exitCode, hrun.output]
      exact ⟨rfl, hrun.files, hrun.here⟩
    | some cause =>
      rw [hrefusal] at hrun
      obtain ⟨hends, herror⟩ := hrun
      simp only [shown, hrefusal]
      exact ⟨shown_of_endsInError hends herror, hends.files, hends.here⟩
  | error failure =>
    obtain ⟨-, hends, herror⟩ := run_of_records_error hrecords
    exact ⟨shown_of_endsInError hends herror, hends.files, hends.here⟩

/-! ## Scraping texts in turn -/

/-- The records of texts that are scraped in turn. -/
def gathered (layout : Layout) (skip texts : List Text) : Except Failure (List Record) := do
  let perLog ← texts.mapM fun text => (layout.scrape text skip).mapError Failure.line
  return layout.gather perLog

theorem gathered_singleton (hlayout : layout ≠ .maven) (text : Text) :
    gathered layout skip [text] = (layout.scrape text skip).mapError Failure.line := by
  have hgather : ∀ rs, layout.gather [rs] = rs := by
    intro rs
    rw [Layout.gather_of_ne_maven hlayout, List.flatten_singleton]
  rw [gathered, List.mapM_cons]
  cases layout.scrape text skip with
  | ok rs => exact congrArg Except.ok (hgather rs)
  | error fault => rfl

theorem scrape_run (layout : Layout) (skip : List Text) (text : Text) :
    (scrape layout skip text).run m =
      Action.ending m ((layout.scrape text skip).mapError Failure.line) :=
  Action.attempt_run_ending _ _

theorem mapM_scrape_run (layout : Layout) (skip texts : List Text) :
    (texts.mapM (scrape layout skip)).run m =
      Action.ending m (texts.mapM fun text => (layout.scrape text skip).mapError Failure.line) :=
  Action.mapM_run_ending (List.forall₂_same.2 fun text _ => scrape_run layout skip text)

theorem scanLogs_run_of_reads (h : List.Forall₂ m.Reads logs texts) :
    (scanLogs layout skip logs).run m = Action.ending m (gathered layout skip texts) := by
  have hfile : ∀ log text, m.Reads log text → (scrapeFile layout skip log).run m =
      Action.ending m ((layout.scrape text skip).mapError Failure.line) := by
    rintro log text ⟨data, hdata, rfl⟩
    rw [scrapeFile, Action.bind_run_of_ok (Action.readFile_run hdata)]
    exact scrape_run layout skip _
  exact Action.bind_run_ending (Action.mapM_run_ending (h.imp hfile)) fun perLog => rfl

/-! ## Builds -/

/-- What a Gradle build ends with depends on the outputs of its tasks only. -/
theorem buildGradle_run {legacy : Bool}
    (h : ∀ task ∈ s.gradleTasks, m.CanStart (Build.Gradle.program m project) project
      (Build.Gradle.arguments task) place name) :
    ∃ m', (buildGradle s project legacy false).run m =
      Action.ending m' (gathered (if legacy then .gradleLegacy else .gradle) s.skipTasks
        (Build.Gradle.texts (m.nextRuns name s.gradleTasks.length))) := by
  obtain ⟨notices, hrun⟩ := Build.Gradle.run_of_canStart h
  refine ⟨m.after (Build.Gradle.calls name place s.gradleTasks) notices, ?_⟩
  rw [buildGradle, Action.bind_run_of_ok hrun]
  refine Action.bind_run_ending (mapM_scrape_run _ _ _) fun perTask => ?_
  cases legacy <;> rfl

/-- What a Maven build ends with depends on what its capture holds only. -/
theorem buildMaven_run
    (hpath : (Build.Capture.path (s.outputRoot (m.valueOf? rootVariable)) project).run m =
      .ok path m₀)
    (hcreate : m₀.files.createFile m₀.here path = .ok (file, files))
    (hstart : Machine.CanStart { m₀ with files } Build.Maven.program project
      (Build.Maven.arguments false s.mavenFlags) place name) :
    ∃ data m', (buildMaven s project true).run m =
        Action.ending m' (gathered .mavenOptions s.skipTasks [Utf8.decodeLossy data]) ∧
      m'.files.readFile m'.here path = .ok data := by
  obtain ⟨data, m', hrun, hread, -⟩ := Build.Maven.run_of_canStart hpath hcreate hstart
  refine ⟨data, m', ?_, hread⟩
  have hroot : (Action.look fun m => s.outputRoot (m.valueOf? rootVariable)).run m =
      .ok (s.outputRoot (m.valueOf? rootVariable)) m := rfl
  rw [buildMaven, Action.bind_run_of_ok hroot, gathered_singleton (by simp)]
  exact (Action.bind_run_of_ok hrun).trans (scrape_run _ _ _)

/-! ## Scans side by side -/

/-- The log can be read and scraped. -/
def Scrapes (layout : Layout) (skip : List Text) (m : Machine) (log : Path) : Prop :=
  ∃ rs, (scrapeFile layout skip log).run m = .ok rs m

/-- How a scan may end that reads its logs side by side: with the records of all logs, or with the
failure of any log. -/
inductive ScanEnds (layout : Layout) (skip : List Text) (m : Machine) (logs : List Path) :
    Except Failure (List Record) → Prop
  | gathered {perLog : List (List Record)}
      (h : List.Forall₂ (fun log rs => (scrapeFile layout skip log).run m = .ok rs m) logs perLog) :
      ScanEnds layout skip m logs (.ok (layout.gather perLog))
  | failed {log : Path} {failure : Failure} (hlog : log ∈ logs)
      (h : (scrapeFile layout skip log).run m = .error failure m) :
      ScanEnds layout skip m logs (.error failure)

theorem mapM_scrapeFile_run_of_failed {log : Path} {failure : Failure}
    (hone : logs.Pairwise fun log log' => Scrapes layout skip m log ∨ Scrapes layout skip m log')
    (hlog : log ∈ logs) (h : (scrapeFile layout skip log).run m = .error failure m) :
    (logs.mapM (scrapeFile layout skip)).run m = .error failure m := by
  induction logs with
  | nil => cases hlog
  | cons log' logs ih =>
    rw [List.pairwise_cons] at hone
    rw [List.mapM_cons]
    rcases List.mem_cons.1 hlog with rfl | hlog
    · exact Action.bind_run_of_error h
    · rcases hone.1 log hlog with ⟨rs, hrs⟩ | ⟨rs, hrs⟩
      · exact (Action.bind_run_of_ok hrs).trans (Action.bind_run_of_error (ih hone.2 hlog))
      · rw [h] at hrs
        cases hrs

/-- With at most one failure, it does not matter in which order the logs are read. -/
theorem ScanEnds.run_eq (h : ScanEnds layout skip m logs r)
    (hone : logs.Pairwise fun log log' => Scrapes layout skip m log ∨ Scrapes layout skip m log') :
    (scanLogs layout skip logs).run m = Action.ending m r := by
  cases h with
  | gathered h =>
    have hmap : (logs.mapM (scrapeFile layout skip)).run m = .ok _ m :=
      (Action.mapM_run_eq_ok fun path rs m m' h => (scrapeFile_run_eq_ok.1 h).2).2 ⟨h, rfl⟩
    exact Action.bind_run_of_ok hmap
  | failed hlog h => exact Action.bind_run_of_error (mapM_scrapeFile_run_of_failed hone hlog h)

/-! ## Builds and scans -/

/-- On the later machine the logs hold what a build prints on the machine `m`, which it leaves as
`after`. A Gradle build prints one log for each task, and a Maven build prints its capture. -/
inductive LogsOf (s : Settings) (m after later : Machine) : Command → Layout → List Path → Prop
  | gradle {project : Path} {legacy : Bool} {place : Location} {name : Text} {logs : List Path}
      (hstart : ∀ task ∈ s.gradleTasks, m.CanStart (Build.Gradle.program m project) project
        (Build.Gradle.arguments task) place name)
      (hlogs : List.Forall₂ (fun log run => later.files.readFile later.here log = .ok run.output)
        logs (m.nextRuns name s.gradleTasks.length)) :
      LogsOf s m after later (.gradle project legacy false)
        (if legacy then .gradleLegacy else .gradle) logs
  | maven {project path log : Path} {m₀ : Machine} {place file : Location} {files : FileTree}
      {name : Text}
      (hpath : (Build.Capture.path (s.outputRoot (m.valueOf? rootVariable)) project).run m =
        .ok path m₀)
      (hcreate : m₀.files.createFile m₀.here path = .ok (file, files))
      (hstart : Machine.CanStart { m₀ with files } Build.Maven.program project
        (Build.Maven.arguments false s.mavenFlags) place name)
      (hlog : later.files.readFile later.here log = after.files.readFile after.here path) :
      LogsOf s m after later (.maven project true) .mavenOptions [log]

theorem LogsOf.reads (hs : (settings line.config).run m = .ok s m)
    (h : LogsOf s m (run line m).2 later line.command layout logs) :
    ∃ texts, (∃ m', (recordsOf s line.command).run m =
      Action.ending m' (gathered layout s.skipTasks texts)) ∧
      List.Forall₂ later.Reads logs texts := by
  generalize hcommand : line.command = command at h
  cases h with
  | gradle hstart hlogs =>
    refine ⟨_, buildGradle_run hstart, List.forall₂_map_right_iff.2 (hlogs.imp ?_)⟩
    exact fun log run hread => ⟨run.output, hread, rfl⟩
  | maven hpath hcreate hstart hlog =>
    obtain ⟨data, m', hrun, hread⟩ := buildMaven_run hpath hcreate hstart
    have hrun' : (recordsOf s line.command).run m =
        Action.ending m' (gathered .mavenOptions s.skipTasks [Utf8.decodeLossy data]) := by
      rw [hcommand]
      exact hrun
    obtain ⟨-, hfiles, hhere⟩ := run_of_recordsOf hs hrun'
    rw [hfiles, hhere, hread] at hlog
    exact ⟨[Utf8.decodeLossy data], ⟨m', hrun⟩, .cons ⟨data, hlog, rfl⟩ .nil⟩

/-- A build shows what a later scan of its outputs shows, whatever the build tool ended with, if
both print to the same. If at most one of the outputs cannot be scraped, it does not matter in which
order the scan reads them. -/
theorem shown_build_eq_shown_scan (hs : (settings line.config).run m = .ok s m)
    (hs' : (settings line'.config).run later = .ok s later) (hfilter : line'.filter = line.filter)
    (hcolor : isColored later = isColored m) (houtlet : later.outlet = m.outlet)
    (hscan : line'.command = .scan layout logs)
    (hlogs : LogsOf s m (run line m).2 later line.command layout logs)
    (hone : logs.Pairwise fun log log' =>
      Scrapes layout s.skipTasks later log ∨ Scrapes layout s.skipTasks later log') :
    (run line m).1.shown = (run line' later).1.shown ∧
      ∀ r, ScanEnds layout s.skipTasks later logs r →
        (run line m).1.shown = shown line' later r := by
  obtain ⟨texts, ⟨m', hbuild⟩, hreads⟩ := hlogs.reads hs
  have hlive := (run_of_recordsOf hs hbuild).1
  have hrun : (recordsOf s line'.command).run later =
      Action.ending later (gathered layout s.skipTasks texts) := by
    rw [hscan]
    exact scanLogs_run_of_reads hreads
  refine ⟨?_, fun r hr => ?_⟩
  · rw [hlive, (run_of_recordsOf hs' hrun).1, shown_congr hfilter hcolor houtlet]
  · have hends : (recordsOf s line'.command).run later = Action.ending later r := by
      rw [hscan]
      exact hr.run_eq hone
    rw [hlive, ← shown_congr hfilter hcolor houtlet, ← (run_of_recordsOf hs' hrun).1,
      (run_of_recordsOf hs' hends).1]

/-- A machine with a project, and with what else it takes to build it. -/
def builder (files : FileTree) (programs : List Text) (program : Text) (runs : List Run) :
    Machine where
  files := files.put ["p".toList] .directory
  here := []
  environment := [(rootVariable, "/".toList)]
  programs
  runs := [(program, runs)]
  calls := []
  freshName := "0".toList
  time := []
  notices := []
  complaint _ := []

theorem nextRuns_builder (files : FileTree) (programs : List Text) (program : Text)
    (runs : List Run) :
    (builder files programs program runs).nextRuns program runs.length = runs := by
  apply List.ext_getElem
  · simp [Machine.nextRuns]
  · intro i hi hi'
    simp [Machine.nextRuns, builder, hi']

/-- A machine with a project that has a wrapper. -/
def gradleBuilder (runs : List Run) : Machine :=
  builder { entries := [(["p".toList, "gradlew".toList], .file true [])] } [] "gradlew".toList runs

/-- A machine with Maven and with a directory for the captures of the project. -/
def mavenBuilder (runs : List Run) : Machine :=
  builder { entries := [(["build_outputs".toList], .directory),
    (["build_outputs".toList, "p".toList], .directory)] } ["mvn".toList] "mvn".toList runs

/-- The logs of two tasks, whatever they hold and however the tasks ended. -/
theorem logsOf_gradleBuilder (after : Machine) (text text' : Text) (code code' : UInt8) :
    LogsOf Settings.default (gradleBuilder [⟨Utf8.encode text, code⟩, ⟨Utf8.encode text', code'⟩])
      after (Machine.ofLogs [("0".toList, text), ("1".toList, text')])
      (.gradle ⟨"/p".toList⟩ false false) .gradle [⟨"0".toList⟩, ⟨"1".toList⟩] := by
  have hprogram : ∀ runs, Build.Gradle.program (gradleBuilder runs) ⟨"/p".toList⟩ =
      ⟨"/p/gradlew".toList⟩ := fun runs => by cbv
  have hstart : ∀ runs, ∀ task ∈ Settings.default.gradleTasks,
      (gradleBuilder runs).CanStart (Build.Gradle.program (gradleBuilder runs) ⟨"/p".toList⟩)
        ⟨"/p".toList⟩ (Build.Gradle.arguments task) ["p".toList] "gradlew".toList := by
    intro runs
    rw [hprogram]
    intro task htask
    refine ⟨?_, by cbv, by cbv, ?_⟩
    · revert task
      decide
    · revert task
      decide
  have hruns : ∀ run run', (gradleBuilder [run, run']).nextRuns "gradlew".toList
      Settings.default.gradleTasks.length = [run, run'] := fun run run' => nextRuns_builder ..
  refine .gradle (hstart _) ?_
  rw [hruns]
  exact .cons (by cbv) (.cons (by cbv) .nil)

/-- The capture of a build, whatever Maven printed and however it ended. -/
theorem logsOf_mavenBuilder {after : Machine} (hfiles : later.files = after.files)
    (hhere : later.here = after.here) (runs : List Run) :
    LogsOf Settings.default (mavenBuilder runs) after later (.maven ⟨"/p".toList⟩ true)
      .mavenOptions [⟨"/build_outputs/p/stdout_0".toList⟩] := by
  have hdirectory : FileTree.IsDirectory (mavenBuilder runs).files
      ["build_outputs".toList, "p".toList] :=
    .concat (.concat .root (by decide) rfl) (by decide) rfl
  have hmake : (mavenBuilder runs).files.createDirectory (mavenBuilder runs).here
      (Build.Capture.directory ⟨"/".toList⟩ ["p".toList]) = .error .alreadyExists :=
    FileTree.createDirectory_pathOf hdirectory (by decide)
  have hgit : (mavenBuilder runs).start ⟨"git".toList⟩ (FileTree.pathOf ["p".toList])
      ["log".toList, "-1".toList, "--oneline".toList] = .error .notFound := by cbv
  have hresolve : (mavenBuilder runs).files.resolve (mavenBuilder runs).here ⟨"/p".toList⟩ =
      .ok ["p".toList] := by cbv
  obtain ⟨notices, hpath⟩ := Build.Capture.path_run_of_no_commit hresolve hmake hgit
  have hname : FileTree.IsName "stdout_0".toList := by decide
  have hcreate : (mavenBuilder runs).files.createFile (mavenBuilder runs).here
      (FileTree.pathOf (["build_outputs".toList, "p".toList] ++ ["stdout_0".toList])) = .ok _ :=
    FileTree.createFile_pathOf_concat hdirectory hname (by decide) rfl
  refine .maven hpath hcreate ⟨by decide, by cbv, by cbv, by decide⟩ ?_
  rw [hfiles, hhere]
  rfl

/-- A command line that asks for reduced arguments. -/
def lineOf (command : Command) : CommandLine where
  config := none
  filter := true
  verbose := false
  logLevel := none
  command

theorem settings_lineOf (command : Command) (m : Machine) :
    (settings (lineOf command).config).run m = .ok Settings.default m := rfl

/-- The second task fails, and its output names no task. So does a build with Maven. -/
theorem shown_build_eq_shown_scan_failed_builds :
    let text := "'Compile Java for :a:compileJava'\nNormalizingJavaCompiler arguments: -g".toList
    let text' := "NormalizingJavaCompiler arguments: -g".toList
    let tasks := gradleBuilder [⟨Utf8.encode text, 0⟩, ⟨Utf8.encode text', 1⟩]
    let logs := Machine.ofLogs [("0".toList, text), ("1".toList, text')]
    let maven := mavenBuilder [⟨Utf8.encode text', 1⟩]
    let built := (run (lineOf (.maven ⟨"/p".toList⟩ true)) maven).2
    let later := { maven with files := built.files, here := built.here }
    (run (lineOf (.gradle ⟨"/p".toList⟩ false false)) tasks).1.shown =
        (run (lineOf (.scan .gradle [⟨"0".toList⟩, ⟨"1".toList⟩])) logs).1.shown ∧
      (run (lineOf (.maven ⟨"/p".toList⟩ true)) maven).1.shown =
        (run (lineOf (.scan .mavenOptions [⟨"/build_outputs/p/stdout_0".toList⟩]))
          later).1.shown := by
  have hlines : Log.lines
      "'Compile Java for :a:compileJava'\nNormalizingJavaCompiler arguments: -g".toList =
      ["'Compile Java for :a:compileJava'".toList,
        "NormalizingJavaCompiler arguments: -g".toList] := by cbv
  have hscrape : Layout.gradle.scrape
      "'Compile Java for :a:compileJava'\nNormalizingJavaCompiler arguments: -g".toList
      Settings.default.skipTasks = .ok [⟨":a:compileJava".toList, "-g".toList⟩] := by
    rw [Layout.scrape, hlines]
    rfl
  have hread : ∀ text text', (Machine.ofLogs [("0".toList, text), ("1".toList, text')]).Reads
      ⟨"0".toList⟩ text := fun text text' => Machine.reads_of_encode (by cbv)
  intro text text' tasks logs maven built later
  have hfirst : Scrapes .gradle Settings.default.skipTasks logs ⟨"0".toList⟩ :=
    ⟨_, scrapeFile_run_eq_ok.2 ⟨⟨text, hread text text', hscrape⟩, rfl⟩⟩
  have htasks := logsOf_gradleBuilder (run (lineOf (.gradle ⟨"/p".toList⟩ false false)) tasks).2
    text text' 0 1
  have hmaven : LogsOf Settings.default maven built later (.maven ⟨"/p".toList⟩ true) .mavenOptions
      [⟨"/build_outputs/p/stdout_0".toList⟩] := by
    refine logsOf_mavenBuilder ?_ ?_ _ <;> rfl
  constructor
  · refine (shown_build_eq_shown_scan (settings_lineOf (.gradle _ _ _) tasks)
      (settings_lineOf (.scan _ _) logs) rfl rfl rfl rfl htasks ?_).1
    simpa using .inl hfirst
  · refine (shown_build_eq_shown_scan (settings_lineOf (.maven _ _) maven)
      (settings_lineOf (.scan _ _) later) rfl rfl rfl rfl hmaven ?_).1
    simp

end Program

end BuildLog
