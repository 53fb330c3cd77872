-- SUMMARY: The whole program: from a command line and a machine to what is printed and how it ends.
import BuildLog.Arguments
import BuildLog.Build.Gradle
import BuildLog.Build.Maven
import BuildLog.CommandLine
import BuildLog.LogLevel
import BuildLog.Notice.Directive
import BuildLog.Text.Color

/-!
# The program

The program reads its settings, obtains one or more logs, recovers their records and
prints the report at its very end. The first failure ends it with a message.
-/

namespace BuildLog

/-- What a run prints, and the code it ends with. -/
structure Outcome where
  exitCode : UInt32
  /-- What the standard output has taken. -/
  output : Bytes
  /-- What is said, message by message. -/
  messages : List Text
  deriving DecidableEq, Repr

/-- What is printed to the standard error. -/
def Outcome.errors (o : Outcome) : Text :=
  o.messages.flatMap fun message => message ++ ['\n']

namespace Program

/-! ## Records of a command -/

/-- The settings in a file, or the defaults. -/
def settings : Option Path → Action Settings
  | none => return Settings.default
  | some path =>
    Action.attempt (fun m => Settings.ofFile m.complaint (m.files.readFile m.here path))
      (.settings path)

/-- The records of a log given by its text. -/
def scrape (layout : Layout) (skip : List Text) (text : Text) : Action (List Record) :=
  Action.attempt (fun _ => layout.scrape text skip) .line

/-- The records of a log in a file. Bytes that are no text are replaced. -/
def scrapeFile (layout : Layout) (skip : List Text) (path : Path) : Action (List Record) := do
  let data ← Action.readFile path
  scrape layout skip (Utf8.decodeLossy data)

/-- The records of several logs in files. -/
def scanLogs (layout : Layout) (skip : List Text) (logs : List Path) : Action (List Record) := do
  let perLog ← logs.mapM (scrapeFile layout skip)
  return layout.gather perLog

/-- Build with Gradle. All tasks are run before the first log is read. -/
def buildGradle (s : Settings) (project : Path) (legacy requireSources : Bool) :
    Action (List Record) := do
  let layout := if legacy then Layout.gradleLegacy else Layout.gradle
  let outputs ← Build.Gradle.run project s.gradleTasks
  let perTask ← outputs.mapM (scrape layout s.skipTasks)
  let records := perTask.flatten
  if requireSources then
    Action.attempt (fun m => m.files.retainWithSources m.refusals m.here project records) id
  else return records

/-- The variable of the environment that says where build outputs are kept. -/
def rootVariable : Text := "ROOT".toList

/-- Build with Maven, with tasks side by side if the layout allows it. -/
def buildMaven (s : Settings) (project : Path) (options : Bool) : Action (List Record) := do
  let layout := if options then Layout.mavenOptions else Layout.maven
  let root ← Action.look fun m => s.outputRoot (m.valueOf? rootVariable)
  let output ← Build.Maven.run root project (!layout.serialized) s.mavenFlags
  scrape layout s.skipTasks output

/-- The records that a command asks for. -/
def recordsOf (s : Settings) : Command → Action (List Record)
  | .gradle project legacy requireSources => buildGradle s project legacy requireSources
  | .maven project options => buildMaven s project options
  | .scan layout logs => scanLogs layout s.skipTasks logs

/-- The records with their arguments reduced, if that is asked for. -/
def reduced (filter : Bool) (records : List Record) : List Record :=
  if filter then records.map fun r => { r with args := Arguments.filterLine r.args } else records

/-- The records that a command line asks for. -/
def records (line : CommandLine) : Action (List Record) := do
  let s ← settings line.config
  let rs ← recordsOf s line.command
  return reduced line.filter rs

/-! ## Messages -/

/-- The variable of the environment that names the log level. -/
def logLevelVariable : Text := "JAVAC_ARGS_LOG_LEVEL".toList

/-- The word that names the log level. The option counts most; the switch for more
messages counts more than the environment. -/
def logLevelWord (line : CommandLine) (m : Machine) : Text :=
  match line.logLevel with
  | some word => word
  | none =>
    if line.verbose then LogLevel.debug.word
    else (m.valueOf? logLevelVariable).getD LogLevel.info.word

/-- The variable of the environment that asks for colours, whatever is printed to. -/
def colorVariable : Text := "CLICOLOR_FORCE".toList

/-- The variable of the environment that forbids colours. -/
def plainVariable : Text := "NO_COLOR".toList

/-- The variable of the environment that switches off colours on a terminal. -/
def terminalVariable : Text := "CLICOLOR".toList

/-- Whether messages are coloured. A terminal is looked for at the standard output, although
the messages go to the standard error. -/
def isColored (m : Machine) : Bool :=
  if (m.valueOf? colorVariable).any (· != "0".toList) then true
  else if (m.valueOf? plainVariable).isSome then false
  else m.outlet.isTerminal && (m.valueOf? terminalVariable).all (· != "0".toList)

/-- A word that heads a message, and the message. -/
def headed (m : Machine) (color : Color) (word message : Text) : Text :=
  (if isColored m then color.paint word else word) ++ ' ' :: message

/-- What is said before the run about the log level. -/
def warnings (line : CommandLine) (m : Machine) : List Text :=
  match LogLevel.warning? (logLevelWord line m) with
  | some warning => [headed m .yellow "warning".toList warning]
  | none => []

/-- The variable of the environment that holds directives about notices. -/
def directivesVariable : Text := "RUST_LOG".toList

/-- What is said before the run about directives that are not understood. -/
def complaints (m : Machine) : List Text :=
  ((m.valueOf? directivesVariable).map Notice.Directive.complaints).getD []

/-- The directives about notices. The log level counts only if the environment holds
none. -/
def directives (line : CommandLine) (m : Machine) : List Notice.Directive :=
  match m.valueOf? directivesVariable with
  | some text => Notice.Directive.directives text
  | none => [⟨some "javac_args".toList, none, false, some (LogLevel.ofWord (logLevelWord line m))⟩]

/-- What is said about a run that leads from one machine to another. -/
def notices (line : CommandLine) (before after : Machine) : List Text :=
  let given := after.notices.drop before.notices.length
  let shown := given.filter (Notice.Directive.shows (directives line before))
  shown.map (Notice.line before.time)

def errorLine (m : Machine) (failure : Failure) : Text :=
  headed m .red "error".toList failure.message

/-! ## Runs -/

/-- What is said before the run. -/
def beforehand (line : CommandLine) (m : Machine) : List Text :=
  warnings line m ++ complaints m

/-- Print the report of the records that a command line asks for. -/
def printReport (line : CommandLine) : Action Unit := do
  let rs ← records line
  Action.note .info "scraped compiler arguments" [("tasks", Nat.toDigits 10 rs.length)]
  Action.print (Utf8.encode (Record.report rs))

/-- What a run prints that leads from one machine to another. -/
def outputOf (before after : Machine) : Bytes :=
  after.printed.drop before.printed.length

/-- Run a command line on a machine. -/
def run (line : CommandLine) (m : Machine) : Outcome × Machine :=
  match (printReport line).run m with
  | .ok _ m' => (⟨0, outputOf m m', beforehand line m ++ notices line m m'⟩, m')
  | .error failure m' =>
    (⟨1, outputOf m m', beforehand line m ++ notices line m m' ++ [errorLine m failure]⟩, m')

/-- The name and the version of the program. -/
def versionLine : Text := "javac-args 0.1.0\n".toList

/-- How the program is used. -/
def usage : Text :=
  ("Recover the javac arguments of every compilation task from a Gradle or Maven build log.\n\n" ++
    "Usage: javac-args [OPTIONS] <COMMAND>\n\n" ++
    "Commands:\n" ++
    "  gradle [--legacy] [--require-sources] <PROJECT>\n" ++
    "  maven [--options] <PROJECT>\n" ++
    "  scan --format <gradle|gradle-legacy|maven|maven-options> <LOGS>...\n" ++
    "  help [COMMAND]\n\n" ++
    "Options:\n" ++
    "  --config <CONFIG>\n" ++
    "  --filter\n" ++
    "  -v, --verbose\n" ++
    "  --log-level <LOG_LEVEL>\n" ++
    "  -h, --help\n" ++
    "  -V, --version\n").toList

/-- What becomes of a command line that is not run. It is of no account whether the help is
taken as a whole. -/
def refuse (outlet : Outlet) : Refusal → Outcome
  | .help => ⟨Refusal.help.exitCode, outlet.taken (Utf8.encode usage), []⟩
  | .version => ⟨Refusal.version.exitCode, outlet.taken (Utf8.encode versionLine), []⟩
  | refusal => ⟨refusal.exitCode, [], ["error: ".toList ++ refusal.message, usage]⟩

/-- Run the words of a command line on a machine. -/
def execute (words : List Text) (m : Machine) : Outcome × Machine :=
  match CommandLine.ofWords words with
  | .error refusal => (refuse m.outlet refusal, m)
  | .ok line => run line m

end Program

end BuildLog
