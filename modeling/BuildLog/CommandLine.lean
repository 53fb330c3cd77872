-- SUMMARY: Command lines: what they ask for, and how the words of one are read.
import BuildLog.Layout
import BuildLog.Path

/-!
# Command lines

A command line names a verb and gives options and arguments for it. The options that
all verbs share may also stand before the verb; the value nearer to the end wins. The
words are read one by one. A word that takes a value leaves it pending until the next
word shows that no more values come.
-/

namespace BuildLog

/-! ## What a command line asks for -/

inductive Command where
  | gradle (project : Path) (legacy requireSources : Bool)
  | maven (project : Path) (options : Bool)
  | scan (layout : Layout) (logs : List Path)
  deriving DecidableEq, Repr

structure CommandLine where
  config : Option Path
  filter : Bool
  verbose : Bool
  logLevel : Option Text
  command : Command
  deriving DecidableEq, Repr

/-- Why a command line is not run. Asking for help or for the version is one of the
reasons. -/
inductive Refusal where
  | help
  | version
  /-- The command line is empty. -/
  | nothingGiven
  /-- There are options but no verb. -/
  | noVerb
  | unknownVerb
  | missingArgument
  | unknownArgument
  | invalidValue
  /-- An option stands twice before the verb, or twice behind it. -/
  | repeatedOption
  /-- A switch is given a value. -/
  | unwantedValue
  deriving DecidableEq, Repr

namespace CommandLine

/-! ## Words with a meaning -/

inductive Verb where
  | gradle
  | maven
  | scan
  deriving DecidableEq, Repr

def Verb.name : Verb → Text
  | gradle => "gradle".toList
  | maven => "maven".toList
  | scan => "scan".toList

def Verb.all : List Verb := [gradle, maven, scan]

def Verb.ofName? (s : Text) : Option Verb :=
  all.find? fun verb => verb.name == s

/-- The verb that asks for help about the verb behind it. -/
def helpVerb : Text := "help".toList

def isVerb (s : Text) : Bool :=
  s == helpVerb || (Verb.ofName? s).isSome

inductive Switch where
  | filter
  | verbose
  | legacy
  | requireSources
  | options
  deriving DecidableEq, Repr

/-- What takes values: options with one value, and the arguments of a verb. -/
inductive Slot where
  | config
  | logLevel
  | format
  | project
  | logs
  deriving DecidableEq, Repr

/-- What an option means. -/
inductive Meaning where
  | switch (s : Switch)
  | slot (s : Slot)
  | help
  | version
  deriving DecidableEq, Repr

/-- The options that may stand before and behind the verb. -/
def sharedOptions : List (Text × Meaning) :=
  [("config".toList, .slot .config), ("filter".toList, .switch .filter),
    ("verbose".toList, .switch .verbose), ("log-level".toList, .slot .logLevel),
    ("help".toList, .help)]

/-- The options that may stand only behind a verb, or only before any. -/
def ownOptions : Option Verb → List (Text × Meaning)
  | none => [("version".toList, .version)]
  | some .gradle =>
    [("legacy".toList, .switch .legacy), ("require-sources".toList, .switch .requireSources)]
  | some .maven => [("options".toList, .switch .options)]
  | some .scan => [("format".toList, .slot .format)]

/-- The meaning of an option with a long name. -/
def long? (verb : Option Verb) (name : Text) : Option Meaning :=
  (sharedOptions ++ ownOptions verb).lookup name

/-- The meaning of an option with a short name. -/
def short? (verb : Option Verb) (c : Char) : Option Meaning :=
  if c == 'v' then some (.switch .verbose)
  else if c == 'h' then some .help
  else if c == 'V' && verb.isNone then some .version
  else none

/-- What takes the words that are no options. -/
def argumentSlot? : Option Verb → Option Slot
  | none => none
  | some .gradle => some .project
  | some .maven => some .project
  | some .scan => some .logs

/-! ## What has been given -/

/-- What has been given on one side of the verb. -/
structure Given where
  switches : List Switch := []
  config : Option Path := none
  logLevel : Option Text := none
  layout : Option Layout := none
  project : Option Path := none
  logs : List Path := []
  deriving DecidableEq, Repr

namespace Given

def isEmpty (g : Given) : Bool := g == {}

def has (g : Given) (s : Switch) : Bool := g.switches.contains s

/-- A path must not be empty. -/
def path (value : Text) : Except Refusal Path :=
  if value.isEmpty then .error .invalidValue else .ok ⟨value⟩

/-- Give values to a slot. All but the logs take one value, once. -/
def accept (g : Given) : Slot → List Text → Except Refusal Given
  | .logs, values => do
    let logs ← values.mapM path
    return { g with logs := g.logs ++ logs }
  | _, [] => .error .invalidValue
  | .config, value :: _ =>
    if g.config.isSome then .error .repeatedOption
    else (path value).map fun config => { g with config := some config }
  | .logLevel, value :: _ =>
    if g.logLevel.isSome then .error .repeatedOption
    else .ok { g with logLevel := some value }
  | .format, value :: _ =>
    if g.layout.isSome then .error .repeatedOption
    else
      match Layout.ofName? value with
      | some layout => .ok { g with layout := some layout }
      | none => .error .invalidValue
  | .project, value :: _ =>
    if g.project.isSome then .error .repeatedOption
    else (path value).map fun project => { g with project := some project }

/-- The command of a verb, if its arguments are given. -/
def command (g : Given) : Verb → Except Refusal Command
  | .gradle =>
    match g.project with
    | some project => .ok (.gradle project (g.has .legacy) (g.has .requireSources))
    | none => .error .missingArgument
  | .maven =>
    match g.project with
    | some project => .ok (.maven project (g.has .options))
    | none => .error .missingArgument
  | .scan =>
    match g.layout, g.logs with
    | some layout, log :: logs => .ok (.scan layout (log :: logs))
    | _, _ => .error .missingArgument

end Given

/-- The command line with what was given before and behind the verb. -/
def assemble (before behind : Given) (command : Command) : CommandLine where
  config := behind.config <|> before.config
  filter := before.has .filter || behind.has .filter
  verbose := before.has .verbose || behind.has .verbose
  logLevel := behind.logLevel <|> before.logLevel
  command := command

/-! ## Reading words -/

/-- The state between two words. -/
structure Reading where
  given : Given := {}
  /-- The slot that may take more values, and those it has. -/
  pending : Option (Slot × List Text) := none
  /-- Whether `--` has been read, so that no word is an option any more. -/
  literal : Bool := false
  deriving DecidableEq, Repr

namespace Reading

/-- Whether the word before is an option whose value is still to come. -/
def awaitsValue (r : Reading) : Bool :=
  match r.pending with
  | some (_, []) => true
  | _ => false

/-- Give the pending values to their slot. -/
def commit (r : Reading) : Except Refusal Reading :=
  match r.pending with
  | none => .ok r
  | some (slot, values) =>
    (r.given.accept slot values).map fun given => { r with given, pending := none }

/-- Read an option that has no value attached. -/
def option (r : Reading) (meaning : Meaning) : Except Refusal Reading := do
  let r ← r.commit
  match meaning with
  | .switch s =>
    if r.given.has s then .error .repeatedOption
    else .ok { r with given := { r.given with switches := s :: r.given.switches } }
  | .slot s => .ok { r with pending := some (s, []) }
  | .help => .error .help
  | .version => .error .version

/-- Read an option whose value is attached by an equals sign. -/
def attached (r : Reading) (slot : Slot) (value : Text) : Except Refusal Reading := do
  let r ← r.commit
  let given ← r.given.accept slot [value]
  return { r with given }

/-- Read an option with a long name, given without its dashes. -/
def long (r : Reading) (verb : Option Verb) (word : Text) : Except Refusal Reading :=
  match long? verb (word.takeWhile (· != '=')), word.dropWhile (· != '=') with
  | none, _ => .error .unknownArgument
  | some meaning, [] => r.option meaning
  | some (.slot slot), _ :: value => r.attached slot value
  | some _, _ :: _ => .error .unwantedValue

/-- Read options with short names, given without their dash. -/
def short (r : Reading) (verb : Option Verb) : Text → Except Refusal Reading
  | [] => .ok r
  | c :: rest =>
    match short? verb c with
    | none => .error .unknownArgument
    | some meaning => do
      let r ← r.option meaning
      r.short verb rest

/-- Read a word that is no option and no value of one. -/
def argument (r : Reading) (verb : Option Verb) (word : Text) : Except Refusal Reading :=
  match argumentSlot? verb, r.pending with
  | none, _ => .error (if r.literal && isVerb word then .unknownArgument else .unknownVerb)
  | some .logs, some (.logs, values) => .ok { r with pending := some (.logs, values ++ [word]) }
  | some .project, some (.project, _) => .error .unknownArgument
  | some slot, _ =>
    if slot == .project && r.given.project.isSome then .error .unknownArgument
    else do
      let r ← r.commit
      return { r with pending := some (slot, [word]) }

/-- Read a word that is no option: the awaited value or an argument. -/
def plain (r : Reading) (verb : Option Verb) (word : Text) : Except Refusal Reading :=
  match r.pending with
  | some (slot, []) => .ok { r with pending := some (slot, [word]) }
  | _ => r.argument verb word

/-- Read one word. -/
def step (verb : Option Verb) (r : Reading) (word : Text) : Except Refusal Reading :=
  if r.literal then r.argument verb word
  else
    match word with
    | ['-', '-'] => .ok { r with literal := true }
    | '-' :: '-' :: name => r.long verb name
    | '-' :: c :: rest => r.short verb (c :: rest)
    | _ => r.plain verb word

/-- What all the words behind a verb give. -/
def all (verb : Verb) (words : List Text) : Except Refusal Given := do
  let r ← words.foldlM (step (some verb)) {}
  let r ← r.commit
  return r.given

end Reading

/-! ## Reading a command line -/

/-- What asking for help about the words amounts to: no more than one verb has help. -/
def helpAbout : List Text → Refusal
  | [] => .help
  | [word] => if isVerb word then .help else .unknownVerb
  | _ => .unknownVerb

/-- Read the words from the state before the verb. -/
def ofWordsFrom (r : Reading) : List Text → Except Refusal CommandLine
  | [] => do
    let r ← r.commit
    .error (if r.given.isEmpty then .nothingGiven else .noVerb)
  | word :: words => do
    if r.literal || r.awaitsValue then
      let r ← r.step none word
      ofWordsFrom r words
    else if word == helpVerb then
      .error (helpAbout words)
    else
      match Verb.ofName? word with
      | some verb =>
        let behind ← Reading.all verb words
        let command ← behind.command verb
        let r ← r.commit
        return assemble r.given behind command
      | none =>
        let r ← r.step none word
        ofWordsFrom r words

/-- Read a command line without the name of the program. -/
def ofWords (words : List Text) : Except Refusal CommandLine :=
  ofWordsFrom {} words

end CommandLine

namespace Refusal

/-- A command line that is not understood ends the program with 2. -/
def exitCode : Refusal → UInt32
  | help => 0
  | version => 0
  | _ => 2

def message : Refusal → Text
  | help => "help is asked for".toList
  | version => "the version is asked for".toList
  | nothingGiven => "nothing is asked for".toList
  | noVerb => "a command is missing".toList
  | unknownVerb => "there is no such command".toList
  | missingArgument => "an argument is missing".toList
  | unknownArgument => "there is no such argument".toList
  | invalidValue => "a value is missing or not valid".toList
  | repeatedOption => "an option is given more than once".toList
  | unwantedValue => "a switch takes no value".toList

end Refusal

end BuildLog
