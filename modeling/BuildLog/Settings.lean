-- SUMMARY: The settings of the program, their defaults, and how a TOML document gives them.
import BuildLog.Path
import BuildLog.SystemError
import BuildLog.Text.Utf8
import BuildLog.Toml.Document

/-!
# Settings

Settings say where build outputs are kept, which tasks are skipped, and how the build
tools are run. A document gives each of them at most once, and gives nothing else.
What it does not give has a default.
-/

namespace BuildLog

structure Settings where
  /-- Where build outputs are kept. -/
  root : Option Path
  /-- Tasks whose name includes one of these words are skipped. -/
  skipTasks : List Text
  /-- The tasks that Gradle runs, each in a build of its own. -/
  gradleTasks : List Text
  /-- What Maven is told besides the goals. -/
  mavenFlags : List Text
  deriving DecidableEq, Repr

namespace Settings

/-! ## Defaults -/

def defaultSkipTasks : List Text := ["compileTestFixturesJava".toList]

def defaultGradleTasks : List Text := ["classes".toList, "testClasses".toList]

/-- Switch off all that is not compilation. -/
def defaultMavenFlags : List Text :=
  ["-Dmaven.javadoc.skip=true".toList, "-DskipTests".toList, "-Dcheckstyle.skip=true".toList,
    "-Drat.skip=true".toList, "-Dcheckbugs.skip=true".toList, "-Dspotbugs.skip=true".toList,
    "-Denforcer.skip=true".toList, "-Dmaven.checkstyle.skip=true".toList,
    "-Dguice.with.jarjar=false".toList, "-Dtidy.skip=true".toList]

def default : Settings where
  root := none
  skipTasks := defaultSkipTasks
  gradleTasks := defaultGradleTasks
  mavenFlags := defaultMavenFlags

/-- Where build outputs are kept if nothing else is said. -/
def defaultRoot : Path := ⟨"/tmp/javac-args".toList⟩

/-- Where build outputs are kept. The variable of the environment wins over the
settings, even if it is empty. -/
def outputRoot (s : Settings) (rootVariable : Option Text) : Path :=
  match rootVariable with
  | some text => ⟨text⟩
  | none => s.root.getD defaultRoot

/-! ## Reading a document -/

/-- What a document gives. -/
structure Given where
  root : Option Path
  skipTasks : Option (List Text)
  gradleTasks : Option (List Text)
  mavenFlags : Option (List Text)
  deriving DecidableEq, Repr

def Given.settings (g : Given) : Settings where
  root := g.root
  skipTasks := g.skipTasks.getD defaultSkipTasks
  gradleTasks := g.gradleTasks.getD defaultGradleTasks
  mavenFlags := g.mavenFlags.getD defaultMavenFlags

def stringOf? : Toml.Value → Option Text
  | .string text => some text
  | _ => none

/-- The strings of an array of strings. -/
def stringsOf? : Toml.Value → Option (List Text)
  | .array items => items.mapM stringOf?
  | _ => none

/-- The strings of the only field of a group of settings, or its default. The group is a
table with at most that field, or an array with at most that value. -/
def group? (field : Text) (default : List Text) : Toml.Value → Option (List Text)
  | .table [] => some default
  | .table [([name], value)] => if name = field then stringsOf? value else none
  | .array [] => some default
  | .array [value] => stringsOf? value
  | _ => none

/-- What is given with one more pair of name and value. A name is refused if it is given
already or has no meaning. -/
def Given.add? (g : Given) (name : Text) (value : Toml.Value) : Option Given :=
  if name = "root".toList then
    if g.root.isSome then none
    else (stringOf? value).map fun text => { g with root := some ⟨text⟩ }
  else if name = "skip_tasks".toList then
    if g.skipTasks.isSome then none
    else (stringsOf? value).map fun words => { g with skipTasks := some words }
  else if name = "gradle".toList then
    if g.gradleTasks.isSome then none
    else (group? "tasks".toList defaultGradleTasks value).map fun tasks =>
      { g with gradleTasks := some tasks }
  else if name = "maven".toList then
    if g.mavenFlags.isSome then none
    else (group? "flags".toList defaultMavenFlags value).map fun flags =>
      { g with mavenFlags := some flags }
  else none

/-- A pair of the first section as name and value. A key of more names gives a table. -/
def topPair? : Toml.Key × Toml.Value → Option (Text × Toml.Value)
  | ([], _) => none
  | ([name], value) => some (name, value)
  | (name :: names, value) => some (name, .table [(names, value)])

/-- A section as pairs of name and value. A section with a header is a table. -/
def sectionPairs? (s : Toml.Section) : Option (List (Text × Toml.Value)) :=
  match s.header with
  | [] => s.pairs.mapM topPair?
  | [name] => if s.isArray then none else some [(name, .table s.pairs)]
  | _ => none

/-- What the pairs give together. -/
def Given.ofPairs? (pairs : List (Text × Toml.Value)) : Option Given :=
  pairs.foldlM (fun g (name, value) => Given.add? g name value) ⟨none, none, none, none⟩

/-- The settings that a document gives. -/
def ofDocument? (document : Text) : Option Settings := do
  let sections ← Toml.sections? document
  let pairs ← sections.mapM sectionPairs?
  let given ← Given.ofPairs? pairs.flatten
  return given.settings

/-- Why settings cannot be had from a file. -/
inductive Problem where
  | unreadable (cause : SystemError)
  | notText
  /-- The document gives no settings. The reader of documents says why. -/
  | malformed (complaint : Text)
  deriving DecidableEq, Repr

def Problem.message : Problem → Text
  | unreadable cause => cause.message
  | notText => "stream did not contain valid UTF-8".toList
  | malformed complaint => complaint

/-- The settings in a file, from what reading the file gave. A document that gives none is
complained about in words of the reader of documents. -/
def ofFile (complaint : Text → Text) : Except SystemError Bytes → Except Problem Settings
  | .error cause => .error (.unreadable cause)
  | .ok data =>
    match Utf8.decode? data with
    | none => .error .notText
    | some document =>
      match ofDocument? document with
      | none => .error (.malformed (complaint document))
      | some settings => .ok settings

end Settings

end BuildLog
