-- SUMMARY: File trees with symbolic links: walking a path, and the operations on files and directories.
import BuildLog.Path
import BuildLog.SystemError
import BuildLog.Text.Utf8

/-!
# File trees

A file tree says what stands at each location. A location lists the names from the
root down, so it passes through no link. `walk` follows a path name by name and
resolves the links on its way. What is done at the last name, and which paths are too
long, depends on the purpose of the walk. The operations below walk a path first and act
on the location where the walk ends. Trees know no permissions but that a file is
executable: each file can be read and written, and each directory can be walked through.
-/

namespace BuildLog

abbrev Location := List Text

inductive Entry where
  | directory
  | file (executable : Bool) (data : Bytes)
  | link (target : Path)
  /-- The device that is empty to read and keeps nothing of what is written. -/
  | sink
  deriving DecidableEq, Repr

/-- Where the device stands, if there is one. -/
def nullDevice : Location := ["dev".toList, "null".toList]

/-- What stands at the locations other than the root. The first pair with a location
counts. -/
structure FileTree where
  entries : List (Location × Entry)
  sink_place : ∀ entry ∈ entries, entry.2 = .sink → entry.1 = nullDevice := by simp
  deriving DecidableEq, Repr

namespace FileTree

/-- What stands at a location. The root is a directory. -/
def entry? (t : FileTree) : Location → Option Entry
  | [] => some .directory
  | name :: names => t.entries.lookup (name :: names)

/-- What can be put anywhere. -/
abbrev Seed := { e : Entry // e ≠ .sink }

def Seed.directory : Seed := ⟨.directory, nofun⟩

def Seed.file (executable : Bool) (data : Bytes) : Seed := ⟨.file executable data, nofun⟩

def Seed.link (target : Path) : Seed := ⟨.link target, nofun⟩

/-- The tree with the seed at the location, and the same elsewhere. -/
def put (t : FileTree) (place : Location) (seed : Seed) : FileTree where
  entries := (place, seed.val) :: t.entries.filter fun (other, _) => other != place
  sink_place := by
    intro entry hentry hsink
    rcases List.mem_cons.1 hentry with rfl | hentry
    · exact absurd hsink seed.property
    · exact t.sink_place entry (List.mem_filter.1 hentry).1 hsink

theorem eq_nullDevice_of_entry? {t : FileTree} {place : Location}
    (h : t.entry? place = some .sink) : place = nullDevice := by
  cases place with
  | nil => cases h
  | cons name names =>
    obtain ⟨ahead, behind, hentries, -⟩ := List.lookup_eq_some_iff.1 h
    exact t.sink_place (name :: names, .sink) (by simp [hentries]) rfl

/-- The absolute path of a location. -/
def pathOf : Location → Path
  | [] => ⟨['/']⟩
  | names => ⟨names.flatMap ('/' :: ·)⟩

/-! ## Limits -/

/-- How many links a walk may follow. -/
def linkLimit : Nat := 40

/-- How many bytes a name may have. -/
def nameLimit : Nat := 255

/-- How many bytes a path may have. -/
def pathLimit : Nat := 4095

def byteLength (s : Text) : Nat :=
  (String.ofList s).utf8ByteSize

def isLongName (name : Text) : Bool :=
  decide (nameLimit < byteLength name)

def isLongPath (path : Path) : Bool :=
  decide (pathLimit < byteLength path.text)

theorem byteLength_append (s s' : Text) : byteLength (s ++ s') = byteLength s + byteLength s' := by
  rw [byteLength, String.ofList_append, String.utf8ByteSize_append]
  rfl

theorem byteLength_pos {s : Text} (h : s ≠ []) : 0 < byteLength s := by
  refine Nat.pos_of_ne_zero fun hzero => h ?_
  simpa [byteLength] using hzero

/-! ## Walking a path -/

/-- Where a walk ends: at an entry, or at a free name in a directory. -/
inductive Found where
  | entry (place : Location) (e : Entry)
  | free (place : Location)
  deriving DecidableEq, Repr

/-- What a path is walked for. -/
inductive Purpose where
  /-- To look at the entry that the path leads to. -/
  | look
  /-- To learn the location of that entry. The path is not handed over as a whole, so
  only the path of each location on the way has to be short enough. -/
  | resolve
  /-- To make an entry. A link at the end is not followed. -/
  | make
  /-- To write a file. A slash behind the last name means a directory, whatever stands
  there. -/
  | write
  deriving DecidableEq, Repr

/-- Walk from the directory `here` along the names. At most `links` links are followed. -/
def walk (t : FileTree) (purpose : Purpose) (links : Nat) (here : Location) :
    List Text → Except SystemError Found
  | [] => .ok (.entry here .directory)
  | name :: rest =>
    if name.isEmpty || name == ".".toList then t.walk purpose links here rest
    else if name = "..".toList then t.walk purpose links here.dropLast rest
    else if purpose = .write && rest == [[]] then .error .isADirectory
    else if isLongName name then .error .nameTooLong
    else
      let place := here ++ [name]
      if purpose = .resolve && isLongPath (pathOf place) then .error .nameTooLong
      else
        match t.entry? place with
        | none => if rest.isEmpty then .ok (.free place) else .error .notFound
        | some .directory => t.walk purpose links place rest
        | some (.link target) =>
          if rest.isEmpty && purpose = .make then .ok (.entry place (.link target))
          else
            match links with
            | 0 => .error .tooManyLinks
            | links + 1 =>
              t.walk purpose links (if target.isAbsolute then [] else here)
                (target.components ++ rest)
        | some e => if rest.isEmpty then .ok (.entry place e) else .error .notADirectory
termination_by names => (links, names.length)

/-- Walk a path from the directory `here`. -/
def find (t : FileTree) (purpose : Purpose) (here : Location) (path : Path) :
    Except SystemError Found :=
  if path.text.contains '\x00' then .error .zeroInPath
  else if path.text.isEmpty then .error .notFound
  else if purpose != .resolve && isLongPath path then .error .nameTooLong
  else t.walk purpose linkLimit (if path.isAbsolute then [] else here) path.components

/-! ## Looking -/

/-- The location and the entry that a path leads to through all links. -/
def locate (t : FileTree) (here : Location) (path : Path) :
    Except SystemError (Location × Entry) :=
  match t.find .look here path with
  | .error e => .error e
  | .ok (.free _) => .error .notFound
  | .ok (.entry place e) => .ok (place, e)

/-- The location that a path of any length leads to through all links. -/
def resolve (t : FileTree) (here : Location) (path : Path) : Except SystemError Location :=
  match t.find .resolve here path with
  | .error e => .error e
  | .ok (.free _) => .error .notFound
  | .ok (.entry place _) => .ok place

def isFile (t : FileTree) (here : Location) (path : Path) : Bool :=
  match t.locate here path with
  | .ok (_, .file _ _) => true
  | _ => false

/-- The location of the directory that a path leads to. -/
def directoryAt (t : FileTree) (here : Location) (path : Path) : Except SystemError Location :=
  match t.locate here path with
  | .error e => .error e
  | .ok (place, .directory) => .ok place
  | .ok _ => .error .notADirectory

theorem not_isLongPath_of_directoryAt {t : FileTree} {here place : Location} {path : Path}
    (h : t.directoryAt here path = .ok place) : ¬ isLongPath path := by
  intro hlong
  have hfind : ∃ e, t.find .look here path = .error e := by
    rw [find]
    split
    · exact ⟨_, rfl⟩
    · split
      · exact ⟨_, rfl⟩
      · exact ⟨.nameTooLong, if_pos (by simp [hlong])⟩
  obtain ⟨e, hfind⟩ := hfind
  rw [directoryAt, locate, hfind] at h
  cases h

def readFile (t : FileTree) (here : Location) (path : Path) : Except SystemError Bytes :=
  match t.locate here path with
  | .error e => .error e
  | .ok (_, .file _ data) => .ok data
  | .ok (_, .sink) => .ok []
  | .ok _ => .error .isADirectory

/-! ## Listing -/

/-- Whether a name can stand in a directory. -/
def isName (name : Text) : Bool :=
  !(name.isEmpty || name == ".".toList || name == "..".toList || name.contains '/' ||
    name.contains '\x00' || isLongName name)

/-- The names that stand in the directory at a location, in the order of the tree. -/
def list (t : FileTree) (place : Location) : List Text :=
  t.entries.filterMap fun (other, _) =>
    match place.isPrefixOf? other with
    | some [name] => if isName name then some name else none
    | _ => none

theorem isName_of_mem_list {t : FileTree} {place : Location} {name : Text}
    (h : name ∈ t.list place) : isName name := by
  obtain ⟨⟨other, e⟩, -, hname⟩ := List.mem_filterMap.1 h
  dsimp only at hname
  split at hname
  · split at hname
    · cases hname
      assumption
    · cases hname
  · cases hname

/-! ## Changing -/

/-- Make a directory. A link at the end of the path is in the way like anything else. -/
def createDirectory (t : FileTree) (here : Location) (path : Path) :
    Except SystemError FileTree :=
  match t.find .make here path with
  | .error e => .error e
  | .ok (.entry _ _) => .error .alreadyExists
  | .ok (.free place) => .ok (t.put place .directory)

/-- Make a file empty, or make an empty file through a link that leads nowhere. The
location written to is returned. -/
def createFile (t : FileTree) (here : Location) (path : Path) :
    Except SystemError (Location × FileTree) :=
  match t.find .write here path with
  | .error e => .error e
  | .ok (.free place) => .ok (place, t.put place (.file false []))
  | .ok (.entry place (.file executable _)) => .ok (place, t.put place (.file executable []))
  | .ok (.entry place .sink) => .ok (place, t)
  | .ok (.entry _ _) => .error .isADirectory

/-- Replace what a file holds. -/
def write (t : FileTree) (place : Location) (data : Bytes) : FileTree :=
  match t.entry? place with
  | some (.file executable _) => t.put place (.file executable data)
  | _ => t

/-! ## Building a tree -/

/-- The tree with an entry at a path, with directories made on the way to it where nothing
stands yet. Links are followed, also at the end of the path. What stands there is
replaced, but not by a directory. -/
def plant (t : FileTree) (here : Location) (seed : Seed) : List Text → FileTree
  | [] => t
  | name :: rest =>
    match t.walk .look linkLimit here [name] with
    | .error _ => t
    | .ok (.entry place _) =>
      if rest.isEmpty then
        if seed = .directory then t else t.put place seed
      else t.plant place seed rest
    | .ok (.free place) =>
      if rest.isEmpty then t.put place seed
      else (t.put place .directory).plant place seed rest

/-! ## Looking below a directory -/

/-- The locations below a directory that hold something other than a directory. -/
def filesBelow (t : FileTree) (top : Location) : List Location :=
  (t.entries.map (·.1)).filter fun place =>
    top.isPrefixOf place && place != top && t.entry? place != some .directory

end FileTree

end BuildLog
