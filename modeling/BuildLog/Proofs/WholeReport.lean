-- SUMMARY: A run prints the whole report of what its command yields, or it tells which failure stopped it.
import BuildLog.Proofs.FileTree.JavaSources
import BuildLog.Proofs.LaterScan

/-!
# The whole report or nothing

A command reads logs, scrapes each of them and puts the records together. `Yields` says which
records that gives, and `Fails` lists the ways in which it can be stopped. A run prints its report
at its very end, so a failure leaves nothing printed, however many logs were scraped before it. Only
the standard output itself can make a part of the report out of it, when it refuses the rest.
-/

namespace BuildLog.Program

variable {s : Settings} {m m' : Machine} {command : Command} {rs rs' : List Record}
  {failure : Failure} {line : CommandLine} {words : List Text} {printed : Bytes}

/-! ## What a command yields -/

/-- The layout of the logs that a command reads. -/
def layoutOf : Command → Layout
  | .gradle _ legacy _ => if legacy then .gradleLegacy else .gradle
  | .maven _ options => if options then .mavenOptions else .maven
  | .scan layout _ => layout

/-- What a command recovers from a log. -/
def scraped (s : Settings) (command : Command) (log : Text) : Except LineFault (List Record) :=
  (layoutOf command).scrape log s.skipTasks

/-- The build that a command for a Maven project asks for. -/
def mavenBuild (s : Settings) (m : Machine) (project : Path) (options : Bool) : Action Text :=
  Build.Maven.run (s.outputRoot (m.valueOf? rootVariable)) project
    (!(layoutOf (.maven project options)).serialized) s.mavenFlags

/-- What is left of the records of a build with Gradle, on the machine after it. -/
def sourced (m : Machine) (project : Path) (requireSources : Bool) (rs : List Record) :
    Except Failure (List Record) :=
  if requireSources then m.files.retainWithSources m.refusals m.here project rs else .ok rs

/-- The records that a command comes to if nothing stops it. -/
inductive Yields (s : Settings) (m : Machine) : Command → List Record → Prop
  | gradle {project : Path} {legacy requireSources : Bool} {logs : List Text}
      {perLog : List (List Record)} {rs : List Record} {m' : Machine}
      (hbuild : (Build.Gradle.run project s.gradleTasks).run m = .ok logs m')
      (hlogs : List.Forall₂ (fun log rs =>
        scraped s (.gradle project legacy requireSources) log = .ok rs) logs perLog)
      (hrs : sourced m' project requireSources perLog.flatten = .ok rs) :
      Yields s m (.gradle project legacy requireSources) rs
  | maven {project : Path} {options : Bool} {log : Text} {rs : List Record} {m' : Machine}
      (hbuild : (mavenBuild s m project options).run m = .ok log m')
      (hlog : scraped s (.maven project options) log = .ok rs) :
      Yields s m (.maven project options) rs
  | scan {layout : Layout} {files : List Path} {logs : List Text} {perLog : List (List Record)}
      (hfiles : List.Forall₂ m.Reads files logs)
      (hlogs : List.Forall₂ (fun log rs => scraped s (.scan layout files) log = .ok rs)
        logs perLog) :
      Yields s m (.scan layout files) (layout.gather perLog)

/-! ## What stops a command -/

/-- A log that a command reads: one that its build prints, or one that a file holds. -/
inductive HasLog (s : Settings) (m : Machine) : Command → Text → Prop
  | gradle {project : Path} {legacy requireSources : Bool} {logs : List Text} {log : Text}
      {m' : Machine} (hbuild : (Build.Gradle.run project s.gradleTasks).run m = .ok logs m')
      (hlog : log ∈ logs) : HasLog s m (.gradle project legacy requireSources) log
  | maven {project : Path} {options : Bool} {log : Text} {m' : Machine}
      (hbuild : (mavenBuild s m project options).run m = .ok log m') :
      HasLog s m (.maven project options) log
  | scan {layout : Layout} {files : List Path} {path : Path} {log : Text}
      (hfile : path ∈ files) (hlog : m.Reads path log) : HasLog s m (.scan layout files) log

/-- How a command can be stopped: its build fails, a file cannot be read, a log cannot be scraped,
or the sources of a record cannot be looked for. It does not matter where the file, the log or the
record stands among the others. -/
inductive Fails (s : Settings) (m : Machine) : Command → Failure → Prop
  | gradle {project : Path} {legacy requireSources : Bool} {failure : Failure}
      (h : Build.Gradle.Fails m project s.gradleTasks failure) :
      Fails s m (.gradle project legacy requireSources) failure
  | maven {project : Path} {options : Bool} {failure : Failure}
      (h : Build.Maven.Fails m (s.outputRoot (m.valueOf? rootVariable)) project
        (!(layoutOf (.maven project options)).serialized) s.mavenFlags failure) :
      Fails s m (.maven project options) failure
  | file {layout : Layout} {files : List Path} {path : Path} {cause : SystemError}
      (hfile : path ∈ files) (h : m.files.readFile m.here path = .error cause) :
      Fails s m (.scan layout files) (.file path cause)
  | log {command : Command} {log : Text} {fault : LineFault} (hlog : HasLog s m command log)
      (h : scraped s command log = .error fault) : Fails s m command (.line fault)
  | sources {project : Path} {legacy : Bool} {logs : List Text} {perLog : List (List Record)}
      {r : Record} {failure : Failure} {m' : Machine}
      (hbuild : (Build.Gradle.run project s.gradleTasks).run m = .ok logs m')
      (hlogs : List.Forall₂ (fun log rs => scraped s (.gradle project legacy true) log = .ok rs)
        logs perLog)
      (hr : r ∈ perLog.flatten)
      (h : m'.files.hasSourcesOf m'.refusals m'.here project r = .error failure) :
      Fails s m (.gradle project legacy true) failure

theorem HasLog.exists_scraped {log : Text} (hlog : HasLog s m command log)
    (h : Yields s m command rs) : ∃ rs', scraped s command log = .ok rs' := by
  cases h with
  | gradle hbuild hlogs _ =>
    cases hlog with
    | gradle hbuild' hlog =>
      rw [hbuild] at hbuild'
      cases hbuild'
      obtain ⟨rs', -, hrs'⟩ := exists_of_forall₂ hlogs hlog
      exact ⟨rs', hrs'⟩
  | maven hbuild hrs =>
    cases hlog with
    | maven hbuild' =>
      rw [hbuild] at hbuild'
      cases hbuild'
      exact ⟨rs, hrs⟩
  | scan hfiles hlogs =>
    cases hlog with
    | scan hfile hlog =>
      obtain ⟨log', hmem, hlog'⟩ := exists_of_forall₂ hfiles hfile
      obtain rfl := hlog.unique hlog'
      obtain ⟨rs', -, hrs'⟩ := exists_of_forall₂ hlogs hmem
      exact ⟨rs', hrs'⟩

theorem eq_of_forall₂_scraped {logs : List Text} {perLog perLog' : List (List Record)}
    (h : List.Forall₂ (fun log rs => scraped s command log = .ok rs) logs perLog)
    (h' : List.Forall₂ (fun log rs => scraped s command log = .ok rs) logs perLog') :
    perLog = perLog' :=
  Relator.RightUnique.forall₂ (fun _ _ _ hrs hrs' => Except.ok.inj (hrs.symm.trans hrs')) h h'

/-- A command comes to one list of records. -/
theorem Yields.unique (h : Yields s m command rs) (h' : Yields s m command rs') : rs = rs' := by
  cases h with
  | gradle hbuild hlogs hrs =>
    cases h' with
    | gradle hbuild' hlogs' hrs' =>
      rw [hbuild] at hbuild'
      cases hbuild'
      obtain rfl := eq_of_forall₂_scraped hlogs hlogs'
      exact Except.ok.inj (hrs.symm.trans hrs')
  | maven hbuild hlog =>
    cases h' with
    | maven hbuild' hlog' =>
      rw [hbuild] at hbuild'
      cases hbuild'
      exact Except.ok.inj (hlog.symm.trans hlog')
  | scan hfiles hlogs =>
    cases h' with
    | scan hfiles' hlogs' =>
      obtain rfl := Relator.RightUnique.forall₂ (fun _ _ _ h h' => h.unique h') hfiles hfiles'
      rw [eq_of_forall₂_scraped hlogs hlogs']

/-- A command that can be stopped anywhere comes to no records. -/
theorem Fails.not_yields (h : Fails s m command failure) : ¬ Yields s m command rs := by
  intro hyields
  cases h with
  | gradle h =>
    cases hyields with
    | gradle hbuild => exact h.run_ne_ok hbuild
  | maven h =>
    cases hyields with
    | maven hbuild _ =>
      obtain ⟨m₁, hrun⟩ := h.run
      cases hrun.symm.trans hbuild
  | file hfile h =>
    cases hyields with
    | scan hfiles _ =>
      obtain ⟨log, -, data, hdata, -⟩ := exists_of_forall₂ hfiles hfile
      cases h.symm.trans hdata
  | log hlog h =>
    obtain ⟨rs', hrs'⟩ := hlog.exists_scraped hyields
    cases h.symm.trans hrs'
  | sources hbuild hlogs hr h =>
    cases hyields with
    | gradle hbuild' hlogs' hrs =>
      rw [hbuild] at hbuild'
      cases hbuild'
      obtain rfl := eq_of_forall₂_scraped hlogs hlogs'
      obtain ⟨hall, -⟩ := FileTree.retainWithSources_eq_ok_iff.1 hrs
      obtain ⟨found, hfound⟩ := hall _ hr
      cases h.symm.trans hfound

/-! ## Runs of a command -/

theorem scrape_run_eq_ok {layout : Layout} {skip : List Text} {text : Text} :
    (scrape layout skip text).run m = .ok rs m' ↔ layout.scrape text skip = .ok rs ∧ m = m' :=
  Action.attempt_run_eq_ok

theorem scrape_run_eq_error {layout : Layout} {skip : List Text} {text : Text} :
    (scrape layout skip text).run m = .error failure m' ↔
      (∃ fault, layout.scrape text skip = .error fault ∧ .line fault = failure) ∧ m = m' :=
  Action.attempt_run_eq_error

theorem buildMaven_run_eq (project : Path) (options : Bool) :
    (buildMaven s project options).run m =
      (mavenBuild s m project options >>=
        scrape (layoutOf (.maven project options)) s.skipTasks).run m :=
  Action.bind_run_of_ok rfl

theorem buildGradle_run_eq (project : Path) (legacy requireSources : Bool) :
    buildGradle s project legacy requireSources = (do
      let logs ← Build.Gradle.run project s.gradleTasks
      let perLog ← logs.mapM (scrape (layoutOf (.gradle project legacy requireSources)) s.skipTasks)
      Action.attempt (fun m => sourced m project requireSources perLog.flatten) id) := by
  cases requireSources <;> rfl

theorem yields_of_recordsOf (h : (recordsOf s command).run m = .ok rs m') :
    Yields s m command rs := by
  cases command with
  | gradle project legacy requireSources =>
    rw [recordsOf, buildGradle_run_eq] at h
    obtain ⟨logs, m₁, hbuild, h⟩ := Action.bind_run_eq_ok.1 h
    obtain ⟨perLog, m₂, hlogs, h⟩ := Action.bind_run_eq_ok.1 h
    rw [Action.mapM_run_eq_ok fun log rs m m' h => (scrape_run_eq_ok.1 h).2] at hlogs
    obtain ⟨hlogs, rfl⟩ := hlogs
    obtain ⟨hrs, -⟩ := Action.attempt_run_eq_ok.1 h
    exact .gradle hbuild (hlogs.imp fun log rs h => (scrape_run_eq_ok.1 h).1) hrs
  | maven project options =>
    rw [recordsOf, buildMaven_run_eq] at h
    obtain ⟨log, m₁, hbuild, h⟩ := Action.bind_run_eq_ok.1 h
    exact .maven hbuild (scrape_run_eq_ok.1 h).1
  | scan layout files =>
    obtain ⟨⟨logs, perLog, hfiles, hlogs, rfl⟩, -⟩ := scanLogs_run_eq_ok.1 h
    exact .scan hfiles hlogs

theorem fails_of_recordsOf (h : (recordsOf s command).run m = .error failure m') :
    Fails s m command failure := by
  cases command with
  | gradle project legacy requireSources =>
    rw [recordsOf, buildGradle_run_eq] at h
    rcases Action.bind_run_eq_error.1 h with hbuild | ⟨logs, m₁, hbuild, h⟩
    · exact .gradle (Build.Gradle.fails_of_run hbuild)
    rcases Action.bind_run_eq_error.1 h with hlogs | ⟨perLog, m₂, hlogs, h⟩
    · obtain ⟨log, hlog, h⟩ := Action.exists_of_mapM_run_eq_error
        (fun log rs m m' h => (scrape_run_eq_ok.1 h).2) hlogs
      obtain ⟨⟨fault, hfault, rfl⟩, -⟩ := scrape_run_eq_error.1 h
      exact .log (.gradle hbuild hlog) hfault
    · rw [Action.mapM_run_eq_ok fun log rs m m' h => (scrape_run_eq_ok.1 h).2] at hlogs
      obtain ⟨hlogs, rfl⟩ := hlogs
      obtain ⟨⟨failure, hsourced, rfl⟩, -⟩ := Action.attempt_run_eq_error.1 h
      cases requireSources with
      | false => cases hsourced
      | true =>
        obtain ⟨r, hr, hfailure⟩ := FileTree.exists_of_retainWithSources_eq_error hsourced
        exact .sources hbuild (hlogs.imp fun log rs h => (scrape_run_eq_ok.1 h).1) hr hfailure
  | maven project options =>
    rw [recordsOf, buildMaven_run_eq] at h
    rcases Action.bind_run_eq_error.1 h with hbuild | ⟨log, m₁, hbuild, h⟩
    · exact .maven (Build.Maven.fails_of_run hbuild)
    · obtain ⟨⟨fault, hfault, rfl⟩, -⟩ := scrape_run_eq_error.1 h
      exact .log (.maven hbuild) hfault
  | scan layout files =>
    rcases Action.bind_run_eq_error.1 h with hfiles | ⟨perLog, m₁, -, h⟩
    · obtain ⟨path, hfile, h⟩ := Action.exists_of_mapM_run_eq_error
        (fun log rs m m' h => (scrapeFile_run_eq_ok.1 h).2) hfiles
      rcases Action.bind_run_eq_error.1 h with h | ⟨data, m₁, hdata, h⟩
      · obtain ⟨⟨cause, hcause, rfl⟩, -⟩ := Action.attempt_run_eq_error.1 h
        exact .file hfile hcause
      · obtain ⟨hread, rfl⟩ := Action.attempt_run_eq_ok.1 hdata
        obtain ⟨⟨fault, hfault, rfl⟩, -⟩ := scrape_run_eq_error.1 h
        exact .log (.scan hfile ⟨data, hread, rfl⟩) hfault
    · cases h

/-! ## Runs of a command line -/

/-- The settings that a command line is run with: those in the file that it names, or the
defaults. -/
def settingsFor (m : Machine) (line : CommandLine) : Except Failure Settings :=
  match line.config with
  | none => .ok Settings.default
  | some path =>
    (Settings.ofFile m.complaint (m.files.readFile m.here path)).mapError (.settings path)

/-- The records that a command line comes to if nothing stops it. -/
def LineYields (line : CommandLine) (m : Machine) (rs : List Record) : Prop :=
  ∃ s rs', settingsFor m line = .ok s ∧ Yields s m line.command rs' ∧ rs = reduced line.filter rs'

/-- How a command line can be stopped. -/
def LineFails (line : CommandLine) (m : Machine) (failure : Failure) : Prop :=
  settingsFor m line = .error failure ∨
    ∃ s, settingsFor m line = .ok s ∧ Fails s m line.command failure

theorem settings_run : (settings line.config).run m = Action.ending m (settingsFor m line) := by
  rw [settingsFor]
  cases line.config with
  | none => rfl
  | some path => exact Action.attempt_run_ending _ _

theorem records_run_of_error (h : settingsFor m line = .error failure) :
    (records line).run m = .error failure m := by
  refine Action.bind_run_of_error ?_
  rw [settings_run, h, Action.ending]

theorem records_run_of_ok (h : settingsFor m line = .ok s) :
    (records line).run m =
      (recordsOf s line.command >>= fun rs => pure (reduced line.filter rs)).run m := by
  refine Action.bind_run_of_ok ?_
  rw [settings_run, h, Action.ending]

theorem LineFails.not_yields (h : LineFails line m failure) : ¬ LineYields line m rs := by
  rintro ⟨s, rs', hs, hyields, -⟩
  rcases h with h | ⟨s', hs', h⟩
  · rw [hs] at h
    cases h
  · rw [hs] at hs'
    cases hs'
    exact h.not_yields hyields

theorem LineYields.unique (h : LineYields line m rs) (h' : LineYields line m rs') : rs = rs' := by
  obtain ⟨s, found, hs, hyields, rfl⟩ := h
  obtain ⟨s', found', hs', hyields', rfl⟩ := h'
  rw [hs] at hs'
  cases hs'
  rw [hyields.unique hyields']

theorem lineYields_of_records (h : (records line).run m = .ok rs m') : LineYields line m rs := by
  cases hs : settingsFor m line with
  | error failure =>
    rw [records_run_of_error hs] at h
    cases h
  | ok s =>
    rw [records_run_of_ok hs] at h
    obtain ⟨rs', m₁, hrs', h⟩ := Action.bind_run_eq_ok.1 h
    cases h
    exact ⟨s, rs', hs, yields_of_recordsOf hrs', rfl⟩

theorem lineFails_of_records (h : (records line).run m = .error failure m') :
    LineFails line m failure := by
  cases hs : settingsFor m line with
  | error failure' =>
    rw [records_run_of_error hs] at h
    cases h
    exact .inl hs
  | ok s =>
    rw [records_run_of_ok hs] at h
    rcases Action.bind_run_eq_error.1 h with h | ⟨rs, m₁, -, h⟩
    · exact .inr ⟨s, hs, fails_of_recordsOf h⟩
    · cases h

/-! ## How a run ends -/

/-- How a run is stopped, and what it has printed then. The standard output has taken a part of the
report if it refuses the rest, and nothing otherwise. -/
inductive LineStops (line : CommandLine) (m : Machine) : Failure → Bytes → Prop
  | failed {failure : Failure} (h : LineFails line m failure) : LineStops line m failure []
  | refused {rs : List Record} {cause : SystemError} (h : LineYields line m rs)
      (hrefusal : m.outlet.refusal? (Utf8.encode (Record.report rs)) = some cause) :
      LineStops line m (.system cause) (m.outlet.taken (Utf8.encode (Record.report rs)))

theorem LineStops.run_eq (h : LineStops line m failure printed) :
    (run line m).1.exitCode = 1 ∧ (run line m).1.output = printed := by
  cases hrecords : (records line).run m with
  | ok rs m' =>
    have hyields := lineYields_of_records hrecords
    cases h with
    | failed h => exact absurd hyields h.not_yields
    | refused hyields' hrefusal =>
      obtain rfl := hyields'.unique hyields
      have hrun := run_of_records_ok hrecords
      rw [hrefusal] at hrun
      exact ⟨hrun.1.exitCode, hrun.1.output⟩
  | error failure' m' =>
    cases h with
    | failed =>
      obtain ⟨-, hends, -⟩ := run_of_records_error hrecords
      exact ⟨hends.exitCode, hends.output⟩
    | refused hyields => exact absurd hyields (lineFails_of_records hrecords).not_yields

/-- What is printed to the standard error ends with the last message, at the start of a line. -/
theorem errors_of_getLast? {o : Outcome} {message : Text} (h : o.messages.getLast? = some message) :
    ∃ before, (∀ c ∈ before.getLast?, c = '\n') ∧ o.errors = before ++ message ++ ['\n'] := by
  obtain ⟨ahead, hmessages⟩ := List.getLast?_eq_some_iff.1 h
  refine ⟨ahead.flatMap (· ++ ['\n']), ?_, ?_⟩
  · intro c hc
    rcases List.eq_nil_or_concat ahead with rfl | ⟨earlier, last, rfl⟩
    · cases hc
    · simpa using hc.symm
  · rw [Outcome.errors, hmessages, List.flatMap_append, List.flatMap_singleton, List.append_assoc]

theorem errorLine_eq (m : Machine) (failure : Failure) :
    (¬ isColored m → errorLine m failure = "error ".toList ++ failure.message) ∧
      (isColored m →
        errorLine m failure = Color.red.paint "error".toList ++ ' ' :: failure.message) := by
  constructor
  · intro h
    rw [errorLine, headed, if_neg h]
    rfl
  · intro h
    rw [errorLine, headed, if_pos h]

/-- The standard error ends with the failure, at the start of a line. The word at its head is red if
words are coloured. -/
def TellsLast (o : Outcome) (m : Machine) (failure : Failure) : Prop :=
  ∃ before, (∀ c ∈ before.getLast?, c = '\n') ∧
    (¬ isColored m → o.errors = before ++ "error ".toList ++ failure.message ++ ['\n']) ∧
    (isColored m → o.errors =
      before ++ Color.red.paint "error".toList ++ ' ' :: failure.message ++ ['\n'])

theorem EndsInError.tellsLast (h : EndsInError line m failure) :
    TellsLast (run line m).1 m failure := by
  obtain ⟨before, hbefore, herrors⟩ := errors_of_getLast? h
  obtain ⟨hplain, hpainted⟩ := errorLine_eq m failure
  refine ⟨before, hbefore, fun hcolor => ?_, fun hcolor => ?_⟩
  · simp only [herrors, hplain hcolor, List.append_assoc]
  · simp only [herrors, hpainted hcolor, List.append_assoc]

/-- A command line that scans a log of Maven. -/
def scanWords (log : Text) : List Text :=
  ["scan".toList, "--format".toList, "maven".toList, log]

theorem ofWords_scanWords {log : Text} (h : log = "no.log".toList ∨ log = "m.log".toList) :
    CommandLine.ofWords (scanWords log) =
      .ok { lineOf (.scan .maven [⟨log⟩]) with filter := false } := by
  rcases h with rfl | rfl <;> rfl

/-- A machine without logs whose environment asks for colours. -/
def colored : Machine :=
  { Machine.ofLogs [] with environment := [(colorVariable, "1".toList)] }

theorem execute_colored :
    (execute (scanWords "no.log".toList) colored).1 =
      ⟨1, [], [errorLine colored (.file ⟨"no.log".toList⟩ .notFound)]⟩ := by
  have hfile : colored.files.readFile colored.here ⟨"no.log".toList⟩ = .error .notFound := by cbv
  have hread : (scrapeFile .maven Settings.default.skipTasks ⟨"no.log".toList⟩).run colored =
      .error (.file ⟨"no.log".toList⟩ .notFound) colored :=
    Action.bind_run_of_error (Action.attempt_run_eq_error.2 ⟨⟨_, hfile, rfl⟩, rfl⟩)
  have hprint : (printReport { lineOf (.scan .maven [⟨"no.log".toList⟩]) with filter := false }).run
      colored = .error (.file ⟨"no.log".toList⟩ .notFound) colored := by
    refine Action.bind_run_of_error ?_
    rw [records_run_of_ok rfl]
    exact Action.bind_run_of_error (Action.bind_run_of_error (Action.bind_run_of_error hread))
  rw [execute, ofWords_scanWords (.inl rfl)]
  simp only
  rw [(run_of_printReport_error hprint).1]
  rfl

/-- A single line holds no start of a line but its own. -/
theorem eq_nil_of_getLast?_newline {text before rest : Text} (htext : '\n' ∉ text)
    (h : text ++ ['\n'] = before ++ rest) (hbefore : ∀ c ∈ before.getLast?, c = '\n')
    (hrest : rest ≠ []) : before = [] := by
  by_contra hne
  obtain rfl | ⟨ahead, last, rfl⟩ := List.eq_nil_or_concat rest
  · exact hrest rfl
  · rw [List.concat_eq_append, ← List.append_assoc] at h
    obtain ⟨rfl, -⟩ := List.append_inj' h rfl
    have hlast := hbefore _ (List.getLast?_eq_some_getLast hne)
    exact htext (List.mem_append_left ahead (hlast ▸ List.getLast_mem hne))

/-- A machine with a log, and with a standard output that has room for seven bytes. -/
def narrow : Machine :=
  { Machine.ofLogs [("m.log".toList, "[DEBUG] -d /a -parameters\n".toList)] with
    outlet := ⟨false, some (7, .other 28 "No space left on device".toList)⟩ }

theorem execute_narrow :
    (execute (scanWords "m.log".toList) narrow).1.exitCode = 1 ∧
      (execute (scanWords "m.log".toList) narrow).1.output = Utf8.encode "blob 0\n".toList := by
  have hread : narrow.Reads ⟨"m.log".toList⟩ "[DEBUG] -d /a -parameters\n".toList :=
    Machine.reads_of_encode (by cbv)
  have hscrape : scraped Settings.default (.scan .maven [⟨"m.log".toList⟩])
      "[DEBUG] -d /a -parameters\n".toList =
      .ok [⟨"blob 0".toList, "-d /a -parameters".toList⟩] := by cbv
  have hyields : LineYields { lineOf (.scan .maven [⟨"m.log".toList⟩]) with filter := false } narrow
      [⟨"blob 0".toList, "-d /a -parameters".toList⟩] :=
    ⟨Settings.default, _, rfl, .scan (.cons hread .nil) (.cons hscrape .nil), rfl⟩
  have hrefusal : narrow.outlet.refusal? (Utf8.encode (Record.report
      [⟨"blob 0".toList, "-d /a -parameters".toList⟩])) =
      some (.other 28 "No space left on device".toList) := by rfl
  rw [execute, ofWords_scanWords (.inr rfl)]
  exact (LineStops.refused hyields hrefusal).run_eq

end BuildLog.Program
