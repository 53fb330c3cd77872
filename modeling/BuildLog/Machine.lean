-- SUMMARY: The machine a command runs on: its files, its environment, the programs on it, the calls made to them, the notices given and what is printed.
import BuildLog.FileTree.JavaSources
import BuildLog.Notice

/-!
# Machines

A machine is all that a command of this program can observe and change. Programs are
told apart by their names. What the n-th call of a program prints and how it ends is
part of the machine. Each call and each notice is kept in order, and so is what the
standard output has taken.
-/

namespace BuildLog

/-- What one call of a program does. -/
structure Run where
  output : Bytes
  exitCode : UInt8
  deriving DecidableEq, Repr

/-- A program that was started, where, and with which arguments. -/
structure Call where
  program : Text
  directory : Location
  arguments : List Text
  deriving DecidableEq, Repr

/-- Where a program prints its results to. -/
structure Outlet where
  isTerminal : Bool
  /-- How many bytes it takes before it refuses more, and why. -/
  limit : Option (Nat × SystemError)
  deriving DecidableEq, Repr

/-- A file or a pipe that takes everything. -/
def Outlet.unlimited : Outlet := ⟨false, none⟩

/-- Why the data is not taken as a whole. -/
def Outlet.refusal? (outlet : Outlet) (data : Bytes) : Option SystemError :=
  outlet.limit.bind fun (room, cause) => if room < data.length then some cause else none

/-- What is taken of the data. -/
def Outlet.taken (outlet : Outlet) (data : Bytes) : Bytes :=
  match outlet.limit with
  | some (room, _) => data.take room
  | none => data

structure Machine where
  files : FileTree
  /-- The current directory. -/
  here : Location
  environment : List (Text × Text)
  /-- The programs that are found by their name. -/
  programs : List Text
  /-- The runs of each program, first call first. -/
  runs : List (Text × List Run)
  /-- The calls so far. -/
  calls : List Call
  /-- A name that no other capture has. -/
  freshName : Text
  /-- The time, as it is written before a notice. -/
  time : Text
  /-- The notices so far. -/
  notices : List Notice
  /-- What is refused to a search through the files. -/
  refusals : FileTree.Refusals := .none
  /-- What the reader of TOML documents says about one that gives no settings. -/
  complaint : Text → Text
  /-- The standard output. -/
  outlet : Outlet := .unlimited
  /-- What the standard output has taken so far. -/
  printed : Bytes := []

namespace Machine

def valueOf? (m : Machine) (name : Text) : Option Text :=
  m.environment.lookup name

/-- What the next call of a program does. A program whose runs are used up prints
nothing and succeeds. -/
def nextRun (m : Machine) (program : Text) : Run :=
  let earlier := m.calls.countP fun call => call.program == program
  (((m.runs.lookup program).getD [])[earlier]?).getD ⟨[], 0⟩

/-- The name of the program that a path means, seen from a directory. A path without a
slash is looked for among the programs. Any other path leads to a file, perhaps through
links, and names the program by its own last name. -/
def programAt (m : Machine) (directory : Location) (program : Path) : Except SystemError Text :=
  if program.text.contains '/' then
    match m.files.locate directory program with
    | .error e => .error e
    | .ok (_, .file true _) => .ok (program.names.getLast?.getD [])
    | .ok _ => .error .permissionDenied
  else if m.programs.contains program.text then .ok program.text
  else .error .notFound

/-- Whether a command can be handed to the system at all. -/
def holdsZero (program directory : Path) (arguments : List Text) : Bool :=
  (program.text :: directory.text :: arguments).any (·.contains '\x00')

/-- How many bytes an argument may have. -/
def argumentLimit : Nat := 131071

def isLongArgument (argument : Text) : Bool :=
  decide (argumentLimit < FileTree.byteLength argument)

/-- Start a program in a directory. The directory is entered before the program is
looked for, so a relative path of a program is seen from there. The arguments are handed
over last. -/
def start (m : Machine) (program directory : Path) (arguments : List Text) :
    Except SystemError (Run × Machine) :=
  if holdsZero program directory arguments then .error .zeroInCommand
  else
    match m.files.directoryAt m.here directory with
    | .error e => .error e
    | .ok place =>
      match m.programAt place program with
      | .error e => .error e
      | .ok name =>
        if arguments.any isLongArgument then .error .argumentTooLong
        else .ok (m.nextRun name, { m with calls := m.calls ++ [⟨name, place, arguments⟩] })

end Machine

/-- A computation on a machine that may fail. What it has changed before a failure stays
changed. -/
abbrev Action := EStateM Failure Machine

namespace Action

/-- Look at the machine. -/
def look (f : Machine → α) : Action α :=
  f <$> get

/-- Look at the machine for something that may fail. -/
def attempt (f : Machine → Except ε α) (failure : ε → Failure) : Action α := do
  match f (← get) with
  | .ok a => return a
  | .error e => throw (failure e)

/-- Change the machine by a step that may fail. -/
def step (f : Machine → Except ε (α × Machine)) (failure : ε → Failure) : Action α := do
  match f (← get) with
  | .ok (a, m) =>
    set m
    return a
  | .error e => throw (failure e)

def readFile (path : Path) : Action Bytes :=
  attempt (fun m => m.files.readFile m.here path) (.file path)

/-- Start a program in a directory and wait for its end. -/
def start (program directory : Path) (arguments : List Text) : Action Run :=
  step (fun m => m.start program directory arguments) (.start program)

/-- Give notice of an event and of the named values that it concerns. -/
def note (level : LogLevel) (event : String) (values : List (String × Text)) : Action Unit := do
  let values := values.map fun (name, value) => (name.toList, value)
  modify fun m => { m with notices := m.notices ++ [⟨level, event.toList, values⟩] }

/-- Run a build in a directory. A failed build has a log, too, so its failure is only
noted. -/
def build (program directory : Path) (arguments : List Text) : Action Run := do
  let run ← start program directory arguments
  if run.exitCode != 0 then
    note .warn "build exited unsuccessfully, scanning its output anyway"
      [("program", program.text),
        ("status", "exit status: ".toList ++ Nat.toDigits 10 run.exitCode.toNat)]
  return run

/-- Print to the standard output. It may take a part of the data before it refuses the
rest. -/
def print (data : Bytes) : Action Unit := do
  let m ← get
  set { m with printed := m.printed ++ m.outlet.taken data }
  match m.outlet.refusal? data with
  | some cause => throw (.system cause)
  | none => return ()

end Action

end BuildLog
