-- SUMMARY: Where the capture of a build is placed, what that leaves on the machine, and when there is a directory for it.
import BuildLog.Build.Capture
import BuildLog.Proofs.Build.Start
import BuildLog.Proofs.FileTree.Written
import Mathlib

/-!
# Places for captures

A capture lies in a directory that is named after the project. The directory is made unless
something stands there already, and the name of the capture is the commit or a fresh name. What
stands there already need not be a directory, and then nothing can be written into it.
-/

namespace BuildLog.Build.Capture

variable {m m' : Machine} {root project p : Path} {place : Location} {e : SystemError}
  {e' : Entry} {files : FileTree}

/-! ## Steps -/

theorem resolve_run (h : m.files.resolve m.here project = .ok place) :
    (Action.attempt (fun m => m.files.resolve m.here project) (.file project)).run m =
      .ok place m :=
  Action.attempt_run_eq_ok.2 ⟨h, rfl⟩

/-- What the files are once something stands at the path: a directory is made, or something stands
there already. -/
inductive Makes (m : Machine) (path : Path) : FileTree → Prop
  | created {files : FileTree} (h : m.files.createDirectory m.here path = .ok files) :
      Makes m path files
  | alreadyThere (h : m.files.createDirectory m.here path = .error .alreadyExists) :
      Makes m path m.files

theorem makes_or_error (m : Machine) (path : Path) :
    (∃ files, Makes m path files) ∨
      ∃ e, e ≠ .alreadyExists ∧ m.files.createDirectory m.here path = .error e := by
  cases h : m.files.createDirectory m.here path with
  | ok files => exact .inl ⟨files, .created h⟩
  | error e =>
    by_cases he : e = .alreadyExists
    · subst he
      exact .inl ⟨m.files, .alreadyThere h⟩
    · exact .inr ⟨e, he, rfl⟩

theorem Makes.run {path : Path} (h : Makes m path files) :
    ∃ notices, (makeDirectory path).run m = .ok () (Machine.after { m with files } [] notices) := by
  rw [makeDirectory, Action.bind_run_of_ok Action.get_run]
  cases h with
  | created h =>
    obtain ⟨notices, hnote⟩ := Action.note_run (m := { m with files }) .debug
      "created capture directory" [("dir", path.text)]
    have hset : (set { m with files } : Action PUnit).run m = .ok ⟨⟩ { m with files } := rfl
    rw [h]
    exact ⟨notices, (Action.bind_run_of_ok hset).trans hnote⟩
  | alreadyThere h =>
    rw [h]
    exact ⟨[], by rw [Machine.after_nil]; rfl⟩

theorem makeDirectory_run_of_error {path : Path} (he : e ≠ .alreadyExists)
    (h : m.files.createDirectory m.here path = .error e) :
    (makeDirectory path).run m = .error (.file path e) m := by
  rw [makeDirectory, Action.bind_run_of_ok Action.get_run, h]
  cases e with
  | alreadyExists => exact absurd rfl he
  | _ => rfl

/-- What the commit is asked of. -/
def commitProgram : Text := "git".toList

theorem commit?_run (m : Machine) (project : Path) :
    ∃ commit asked, (commit? project).run m = .ok commit (m.after asked []) ∧
      (∀ call ∈ asked, call.program = commitProgram) ∧
      ∀ word ∈ commit,
        Text.firstWord? (Utf8.decodeLossy (m.nextRun commitProgram).output) = some word := by
  rw [commit?, Action.bind_run_of_ok Action.get_run]
  split
  · exact ⟨none, [], by rw [Machine.after_nil]; rfl, by simp, by simp⟩
  next run m₁ hstart =>
    obtain ⟨place, name, hcan, rfl, rfl⟩ := Machine.start_eq_ok_iff.1 hstart
    obtain rfl : name = commitProgram := Machine.eq_of_programAt (by decide) hcan.program_at
    refine ⟨_, _, rfl, by simp, fun word hword => ?_⟩
    split at hword
    · exact hword
    · cases hword

theorem freshName_run (m : Machine) :
    ∃ notices, freshName.run m = .ok m.freshName (m.after [] notices) := by
  obtain ⟨notices, hnote⟩ := Action.note_run (m := m) .debug
    "no commit found, using random capture id" [("id", m.freshName)]
  have hlook : (Action.look (·.freshName)).run m = .ok m.freshName m := rfl
  refine ⟨notices, ?_⟩
  rw [freshName, Action.bind_run_of_ok hlook, Action.bind_run_of_ok hnote]
  rfl

/-- A project without commits has a capture of a fresh name, in the directory that stands there. -/
theorem path_run_of_no_commit (hresolve : m.files.resolve m.here project = .ok place)
    (hdirectory : m.files.createDirectory m.here (directory root place) = .error .alreadyExists)
    (hgit : m.start ⟨"git".toList⟩ (FileTree.pathOf place)
      ["log".toList, "-1".toList, "--oneline".toList] = .error e) :
    ∃ notices, (path root project).run m =
      .ok ((directory root place).push ⟨"stdout_".toList ++ m.freshName⟩) (m.after [] notices) := by
  have hmake : (makeDirectory (directory root place)).run m = .ok () m := by
    rw [makeDirectory, Action.bind_run_of_ok Action.get_run, hdirectory]
    rfl
  have hcommit : (commit? (FileTree.pathOf place)).run m = .ok none m := by
    rw [commit?, Action.bind_run_of_ok Action.get_run, hgit]
    rfl
  obtain ⟨notices, hfresh⟩ := freshName_run m
  refine ⟨notices, ?_⟩
  rw [path, Action.bind_run_of_ok (resolve_run hresolve), Action.bind_run_of_ok hmake,
    Action.bind_run_of_ok hcommit, Action.bind_run_of_ok hfresh]
  rfl

/-! ## Captures that are placed -/

/-- What a capture can be named after: the first word about the last commit, or a fresh name. -/
def IsCaptureId (m : Machine) (id : Text) : Prop :=
  Text.firstWord? (Utf8.decodeLossy (m.nextRun commitProgram).output) = some id ∨ id = m.freshName

/-- How a capture is placed: the project leads to a location, something stands where its captures
belong, and the calls that were made asked for the commit. -/
structure Places (m : Machine) (root project : Path) (place : Location) (files : FileTree)
    (id : Text) (asked : List Call) : Prop where
  project : m.files.resolve m.here project = .ok place
  makes : Makes m (directory root place) files
  id : IsCaptureId m id
  asked : ∀ call ∈ asked, call.program = commitProgram

/-- A capture is placed in the directory of the project. Only that directory is made. -/
theorem path_run (hresolve : m.files.resolve m.here project = .ok place)
    (hmakes : Makes m (directory root place) files) :
    ∃ id asked notices, Places m root project place files id asked ∧ (path root project).run m =
      .ok ((directory root place).push ⟨"stdout_".toList ++ id⟩)
        (Machine.after { m with files } asked notices) := by
  obtain ⟨notices, hmake⟩ := hmakes.run
  obtain ⟨commit, asked, hcommit, hasked, hword⟩ :=
    commit?_run (Machine.after { m with files } [] notices) (FileTree.pathOf place)
  rw [Machine.after_after, List.nil_append, List.append_nil] at hcommit
  rw [path, Action.bind_run_of_ok (resolve_run hresolve), Action.bind_run_of_ok hmake,
    Action.bind_run_of_ok hcommit]
  cases commit with
  | some id =>
    have hid := hword id rfl
    rw [Machine.nextRun_after_notices] at hid
    exact ⟨id, asked, notices, ⟨hresolve, hmakes, .inl hid, hasked⟩, rfl⟩
  | none =>
    obtain ⟨noted, hfresh⟩ := freshName_run (Machine.after { m with files } asked notices)
    rw [Machine.after_after, List.append_nil] at hfresh
    rw [Action.bind_run_of_ok hfresh]
    exact ⟨m.freshName, asked, notices ++ noted, ⟨hresolve, hmakes, .inr rfl, hasked⟩, rfl⟩

/-! ## Captures that cannot be placed -/

/-- How a capture cannot be placed: the project leads nowhere, or there is no directory and none
can be made. -/
inductive Fails (m : Machine) (root project : Path) : Failure → Prop
  | project {e : SystemError} (h : m.files.resolve m.here project = .error e) :
      Fails m root project (.file project e)
  | directory {place : Location} {e : SystemError}
      (hplace : m.files.resolve m.here project = .ok place) (he : e ≠ .alreadyExists)
      (h : m.files.createDirectory m.here (directory root place) = .error e) :
      Fails m root project (.file (directory root place) e)

theorem Fails.path_run {failure : Failure} (h : Fails m root project failure) :
    (path root project).run m = .error failure m := by
  cases h with
  | project h =>
    refine Action.bind_run_of_error ?_
    rw [Action.attempt_run, h]
  | directory hplace he h =>
    exact (Action.bind_run_of_ok (resolve_run hplace)).trans
      (Action.bind_run_of_error (makeDirectory_run_of_error he h))

theorem makes_or_fails (m : Machine) (root project : Path) :
    (∃ place files, m.files.resolve m.here project = .ok place ∧
        Makes m (directory root place) files) ∨
      ∃ failure, Fails m root project failure := by
  cases hplace : m.files.resolve m.here project with
  | error e => exact .inr ⟨_, .project hplace⟩
  | ok place =>
    rcases makes_or_error m (directory root place) with ⟨files, hmakes⟩ | ⟨e, he, hmake⟩
    · exact .inl ⟨place, files, rfl, hmakes⟩
    · exact .inr ⟨_, .directory hplace he hmake⟩

theorem path_run_or_fails (m : Machine) (root project : Path) :
    (∃ path m', (Capture.path root project).run m = .ok path m') ∨
      ∃ failure, Fails m root project failure := by
  refine (makes_or_fails m root project).imp_left ?_
  rintro ⟨place, files, hplace, hmakes⟩
  obtain ⟨id, calls, notices, -, hrun⟩ := path_run hplace hmakes
  exact ⟨_, _, hrun⟩

theorem exists_places (h : (path root project).run m = .ok p m') :
    ∃ place files id asked notices, Places m root project place files id asked ∧
      p = (directory root place).push ⟨"stdout_".toList ++ id⟩ ∧
      m' = Machine.after { m with files } asked notices := by
  rcases makes_or_fails m root project with ⟨place, files, hplace, hmakes⟩ | ⟨failure, hfails⟩
  · obtain ⟨id, asked, notices, hplaces, hrun⟩ := path_run hplace hmakes
    rw [h] at hrun
    cases hrun
    exact ⟨place, files, id, asked, notices, hplaces, rfl, rfl⟩
  · rw [hfails.path_run] at h
    cases h

theorem path_run_eq_ok (h : (path root project).run m = .ok p m') :
    ∃ place files id calls notices, m.files.resolve m.here project = .ok place ∧
      Makes m (directory root place) files ∧ IsCaptureId m id ∧
      p = (directory root place).push ⟨"stdout_".toList ++ id⟩ ∧
      m' = Machine.after { m with files } calls notices := by
  obtain ⟨place, files, id, asked, notices, hplaces, rfl, rfl⟩ := exists_places h
  exact ⟨place, files, id, asked, notices, hplaces.project, hplaces.makes, hplaces.id, rfl, rfl⟩

/-! ## Directories to write into -/

/-- After something stands at the path, it is a directory if nothing stood there before or if the
path led to a directory. -/
theorem Makes.exists_directoryAt_iff {path : Path} (h : Makes m path files) :
    (∃ made, files.directoryAt m.here path = .ok made) ↔
      (∃ free, m.files.find .make m.here path = .ok (.free free)) ∨
        ∃ there, m.files.directoryAt m.here path = .ok there := by
  cases h with
  | created h =>
    obtain ⟨free, hfree, -⟩ := FileTree.createDirectory_eq_ok_iff.1 h
    exact iff_of_true (FileTree.exists_directoryAt_of_createDirectory h) (.inl ⟨free, hfree⟩)
  | alreadyThere h =>
    refine (or_iff_right ?_).symm
    rintro ⟨free, hfree⟩
    rw [FileTree.createDirectory_eq_ok_iff.2 ⟨free, hfree, rfl⟩] at h
    cases h

/-- A capture that is placed lies in the directory of the build outputs that is named after the
project. There is such a directory then, perhaps through links, exactly if nothing stood there
before or if a directory did. -/
theorem path_leaves_directory_iff
    (hgit : ∀ word, Text.firstWord? (Utf8.decodeLossy (m.nextRun commitProgram).output) = some word →
      '/' ∉ word)
    (hfresh : '/' ∉ m.freshName) (h : (path root project).run m = .ok p m') :
    ∃ place id, m.files.resolve m.here project = .ok place ∧ '/' ∉ id ∧
      p = (directory root place).push ⟨"stdout_".toList ++ id⟩ ∧
      ((∃ made, m'.files.directoryAt m'.here (directory root place) = .ok made) ↔
        (∃ free, m.files.find .make m.here (directory root place) = .ok (.free free)) ∨
          ∃ there, m.files.directoryAt m.here (directory root place) = .ok there) := by
  obtain ⟨place, files, id, calls, notices, hplace, hmakes, hid, rfl, rfl⟩ := path_run_eq_ok h
  refine ⟨place, id, hplace, ?_, rfl, hmakes.exists_directoryAt_iff⟩
  rcases hid with hid | rfl
  · exact hgit id hid
  · exact hfresh

/-- A machine with a project at a commit, and with an entry where its captures belong. -/
def captureMachine (seed : FileTree.Seed) : Machine where
  files :=
    { entries := [(["proj".toList], .directory), (["out".toList], .directory),
        (["root".toList], .directory), (["root".toList, "build_outputs".toList], .directory),
        (["root".toList, "build_outputs".toList, "proj".toList], seed.val)]
      sink_place := by simp [seed.property] }
  here := []
  environment := []
  programs := [commitProgram]
  runs := [(commitProgram, [⟨"c1 Fix".toUTF8.toList, 0⟩])]
  calls := []
  freshName := "0".toList
  time := []
  notices := []
  complaint _ := []

section

variable {seed : FileTree.Seed}

theorem resolve_captureMachine :
    (captureMachine seed).files.resolve (captureMachine seed).here ⟨"proj".toList⟩ =
      .ok ["proj".toList] := by
  cbv

theorem find_captureMachine {purpose : FileTree.Purpose} {found : FileTree.Found}
    (h : (captureMachine seed).files.walk purpose FileTree.linkLimit []
      ["root".toList, "build_outputs".toList, "proj".toList] = .ok found) :
    (captureMachine seed).files.find purpose (captureMachine seed).here
      (directory ⟨"root".toList⟩ ["proj".toList]) = .ok found := by
  have hrelative : ¬ (directory ⟨"root".toList⟩ ["proj".toList]).isAbsolute := by decide
  have hcomponents : (directory ⟨"root".toList⟩ ["proj".toList]).components =
      ["root".toList, "build_outputs".toList, "proj".toList] := by decide
  rw [FileTree.find_eq_ok_iff, if_neg hrelative, hcomponents, ← FileTree.walk_eq_ok_iff]
  exact ⟨by decide, by decide, fun hlong => absurd hlong.2 (by decide), h⟩

/-- Whatever stands where the captures belong, nothing is made. -/
theorem makes_captureMachine :
    Makes (captureMachine seed) (directory ⟨"root".toList⟩ ["proj".toList])
      (captureMachine seed).files := by
  have hwalk : (captureMachine seed).files.walk .make FileTree.linkLimit []
      ["root".toList, "build_outputs".toList, "proj".toList] =
        .ok (.entry ["root".toList, "build_outputs".toList, "proj".toList] seed.val) := by
    obtain ⟨e, he⟩ := seed
    cases e <;> cbv
  refine .alreadyThere ?_
  rw [FileTree.createDirectory, find_captureMachine hwalk]

end

/-- A link to a directory is as good as a directory. -/
theorem path_leaves_directory_link :
    ∃ p m', (path ⟨"root".toList⟩ ⟨"proj".toList⟩).run (captureMachine (.link ⟨"/out".toList⟩)) =
        .ok p m' ∧
      ∃ made, m'.files.directoryAt m'.here ⟨"root/build_outputs/proj".toList⟩ = .ok made := by
  have hgit : ∀ word, Text.firstWord? (Utf8.decodeLossy
      ((captureMachine (.link ⟨"/out".toList⟩)).nextRun commitProgram).output) = some word →
      '/' ∉ word := by
    have hword : Text.firstWord? (Utf8.decodeLossy
        ((captureMachine (.link ⟨"/out".toList⟩)).nextRun commitProgram).output) =
        some "c1".toList := by cbv
    rw [hword]
    rintro word ⟨⟩
    decide
  obtain ⟨id, calls, notices, -, hrun⟩ :=
    path_run resolve_captureMachine makes_captureMachine
  obtain ⟨place, id', hplace, -, -, hiff⟩ := path_leaves_directory_iff hgit (by decide) hrun
  rw [resolve_captureMachine] at hplace
  cases hplace
  refine ⟨_, _, hrun, hiff.2 (.inr ⟨["out".toList], ?_⟩)⟩
  rw [FileTree.directoryAt, FileTree.locate, find_captureMachine (by cbv)]
  rfl

/-- A file stands where the directory belongs, and a capture is placed in it all the same. -/
theorem path_leaves_no_directory :
    ∃ p m', (path ⟨"root".toList⟩ ⟨"proj".toList⟩).run (captureMachine (.file false [])) =
        .ok p m' ∧
      ¬ ∃ made, m'.files.directoryAt m'.here ⟨"root/build_outputs/proj".toList⟩ = .ok made := by
  obtain ⟨id, calls, notices, -, hrun⟩ :=
    path_run resolve_captureMachine makes_captureMachine
  have hfile : (captureMachine (.file false [])).files.directoryAt
      (captureMachine (.file false [])).here (directory ⟨"root".toList⟩ ["proj".toList]) =
      .error .notADirectory := by
    rw [FileTree.directoryAt, FileTree.locate, find_captureMachine (by cbv)]
  refine ⟨_, _, hrun, ?_⟩
  rintro ⟨made, hmade⟩
  cases hfile.symm.trans hmade

end BuildLog.Build.Capture
