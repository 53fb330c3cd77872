-- SUMMARY: A Maven build changes nothing but its capture and, if it is new, the directory of the capture.
import BuildLog.Proofs.Build.Maven
import BuildLog.Proofs.FileTree.LastName

/-!
# What a Maven build changes

Without links among the build outputs, the directory for captures is made right below the build
outputs and the capture is opened right below that directory. These are the two locations where
the files may be different after a build, however it ends. Each end of a build is then a case:
what stands at the two locations says how far the build got.
-/

namespace BuildLog.Build

variable {m : Machine} {root project path : Path} {place made file : Location} {id : Text}
  {files files' t t' t'' : FileTree} {asked : List Call}

/-! ## Changed trees -/

/-- The tree is as before, or the directory is new. -/
def MakesOnly (made : Location) (t t' : FileTree) : Prop :=
  t' = t ∨ t.entry? made = none ∧ t' = t.put made .directory

/-- The trees hold the same everywhere but at the two locations, and the directory may only be
new. -/
structure ChangesOnly (made file : Location) (t t' : FileTree) : Prop where
  elsewhere : ∀ place, place ≠ made → place ≠ file → t'.entry? place = t.entry? place
  directory : t'.entry? made = t.entry? made ∨
    t.entry? made = none ∧ t'.entry? made = some .directory

theorem MakesOnly.entry?_of_ne (h : MakesOnly made t t') (hne : place ≠ made) :
    t'.entry? place = t.entry? place := by
  obtain rfl | ⟨-, rfl⟩ := h
  · rfl
  · exact FileTree.entry?_put_of_ne hne ..

/-- What stands somewhere still stands there. -/
theorem MakesOnly.entry?_eq_some {e : Entry} (h : MakesOnly made t t')
    (hentry : t.entry? place = some e) : t'.entry? place = some e := by
  by_cases hplace : place = made
  · subst hplace
    obtain rfl | ⟨hfree, -⟩ := h
    · exact hentry
    · rw [hfree] at hentry
      cases hentry
  · rw [h.entry?_of_ne hplace, hentry]

theorem MakesOnly.changesOnly (h : MakesOnly made t t') (hne : made ≠ file)
    (hagree : FileTree.AgreeExceptAt file t' t'') : ChangesOnly made file t t'' where
  elsewhere := fun place hmade hfile => (hagree place hfile).trans (h.entry?_of_ne hmade)
  directory := by
    rw [hagree made hne]
    obtain rfl | ⟨hfree, rfl⟩ := h
    · exact .inl rfl
    · refine .inr ⟨hfree, FileTree.entry?_put_self t ?_ .directory⟩
      rintro rfl
      cases hfree

/-! ## The directory and the capture -/

namespace Capture

/-- What the directories for captures lie in. -/
def outputs (root : Path) : Path := root.push ⟨"build_outputs".toList⟩

/-- The directory for the captures of the project lies right below the build outputs and is named
after the project. -/
def IsDirectoryFor (m : Machine) (root project : Path) (made : Location) : Prop :=
  ∃ top place, m.files.directoryAt m.here (outputs root) = .ok top ∧
    m.files.resolve m.here project = .ok place ∧ made = top ++ [projectName place]

/-- A capture lies right below the directory and is named after the commit or has a fresh name. -/
def IsCaptureIn (m : Machine) (made file : Location) : Prop :=
  ∃ id, IsCaptureId m id ∧ file = made ++ ["stdout_".toList ++ id]

theorem IsCaptureIn.ne (h : IsCaptureIn m made file) : made ≠ file := by
  obtain ⟨id, -, rfl⟩ := h
  simp

/-- No capture is the device. -/
theorem IsCaptureIn.ne_sink (h : IsCaptureIn m made file) (t : FileTree) :
    t.entry? file ≠ some .sink := by
  obtain ⟨id, -, rfl⟩ := h
  intro hsink
  have hname := congrArg List.getLast? (FileTree.eq_nullDevice_of_entry? hsink)
  rw [List.getLast?_concat] at hname
  cases hname

theorem IsCaptureId.slash_not_mem
    (hgit : ∀ word, Text.firstWord? (Utf8.decodeLossy (m.nextRun commitProgram).output) = some word →
      '/' ∉ word)
    (hfresh : '/' ∉ m.freshName) (h : IsCaptureId m id) : '/' ∉ id := by
  rcases h with hid | rfl
  · exact hgit id hid
  · exact hfresh

theorem outputs_ne_nil (root : Path) : (outputs root).text ≠ [] := by
  rw [outputs, Path.push_name (by decide)]
  simp

theorem directory_ne_nil (hname : FileTree.IsStep (projectName place)) :
    (directory root place).text ≠ [] := by
  rw [directory, Path.push_name hname.no_slash]
  exact fun h => outputs_ne_nil root (List.append_eq_nil_iff.1 h).1

theorem isStep_projectName (hhere : FileTree.IsDirectory m.files m.here)
    (hplace : m.files.resolve m.here project = .ok place) : FileTree.IsStep (projectName place) := by
  have hnames := FileTree.isStep_of_resolve (fun name hname => (hhere.names name hname).isStep) hplace
  rw [projectName]
  cases hlast : place.getLast? with
  | none => exact ⟨by decide, by decide, by decide⟩
  | some name => exact hnames name (List.mem_of_getLast? hlast)

theorem isStep_captureName (hslash : '/' ∉ id) : FileTree.IsStep ("stdout_".toList ++ id) where
  ne_stay := by simp [FileTree.IsStay]
  ne_up := by simp
  no_slash := by simpa using hslash

/-- Without links, the path for captures leads right below the build outputs. -/
theorem exists_top_of_find {purpose : FileTree.Purpose} {found : FileTree.Found} {here : Location}
    (hname : FileTree.IsStep (projectName place)) (hlinks : t.HasNoLinksBelow here (outputs root))
    (hpurpose : purpose ≠ .resolve) (h : t.find purpose here (directory root place) = .ok found) :
    ∃ top, t.directoryAt here (outputs root) = .ok top ∧
      ((∃ e, found = .entry (top ++ [projectName place]) e) ∨
        found = .free (top ++ [projectName place])) := by
  obtain ⟨top, spare, htop, hwalks⟩ :=
    FileTree.exists_walks_of_find_push (outputs_ne_nil root) hname hpurpose h
  exact ⟨top, htop, hwalks.right_below hname fun target =>
    hlinks top htop _ target (List.prefix_append ..)⟩

/-- Only a directory right below the build outputs is made, and the path leads there. -/
theorem Makes.eq_or_new (h : Makes m (directory root place) files)
    (hname : FileTree.IsStep (projectName place))
    (hlinks : m.files.HasNoLinksBelow m.here (outputs root)) :
    files = m.files ∨ ∃ top, m.files.directoryAt m.here (outputs root) = .ok top ∧
      m.files.entry? (top ++ [projectName place]) = none ∧
      files = m.files.put (top ++ [projectName place]) .directory ∧
      files.directoryAt m.here (directory root place) = .ok (top ++ [projectName place]) := by
  cases h with
  | created h =>
    obtain ⟨free, hfind, rfl⟩ := FileTree.createDirectory_eq_ok_iff.1 h
    obtain ⟨top, htop, ⟨e, hfound⟩ | hfound⟩ :=
      exists_top_of_find hname hlinks (by decide) hfind
    · cases hfound
    · cases hfound
      obtain ⟨-, -, -, hwalks⟩ := FileTree.find_eq_ok_iff.1 hfind
      exact .inr ⟨top, htop, hwalks.free_eq, rfl, FileTree.directoryAt_put_of_find hfind⟩
  | alreadyThere => exact .inl rfl

/-- The directory for captures lies right below the build outputs, whether it is new or not. -/
theorem Makes.exists_top (h : Makes m (directory root place) files)
    (hname : FileTree.IsStep (projectName place))
    (hlinks : m.files.HasNoLinksBelow m.here (outputs root))
    (hmade : files.directoryAt m.here (directory root place) = .ok made) :
    ∃ top, m.files.directoryAt m.here (outputs root) = .ok top ∧ made = top ++ [projectName place] ∧
      MakesOnly made m.files files := by
  rcases h.eq_or_new hname hlinks with rfl | ⟨top, htop, hfree, hfiles, hnew⟩
  · obtain ⟨top, htop, ⟨e, hfound⟩ | hfound⟩ :=
      exists_top_of_find hname hlinks (by decide) (FileTree.find_of_directoryAt hmade)
    · cases hfound
      exact ⟨top, htop, rfl, .inl rfl⟩
    · cases hfound
  · rw [hnew] at hmade
    cases hmade
    exact ⟨top, htop, rfl, .inr ⟨hfree, hfiles⟩⟩

/-- Without links, a capture is opened right below the directory for captures. -/
theorem Places.exists_isCaptureIn (h : Places m root project place files id asked)
    (hhere : FileTree.IsDirectory m.files m.here)
    (hlinks : m.files.HasNoLinksBelow m.here (outputs root)) (hslash : '/' ∉ id)
    (hcreate : files.createFile m.here ((directory root place).push ⟨"stdout_".toList ++ id⟩) =
      .ok (file, files')) :
    ∃ made, IsDirectoryFor m root project made ∧ IsCaptureIn m made file ∧
      MakesOnly made m.files files := by
  have hname := isStep_projectName hhere h.project
  have hcapture := isStep_captureName hslash
  obtain ⟨found, hfind, hopens⟩ := FileTree.createFile_eq_ok_iff.1 hcreate
  obtain ⟨made, spare, hmade, hwalks⟩ :=
    FileTree.exists_walks_of_find_push (directory_ne_nil hname) hcapture (by decide) hfind
  obtain ⟨top, htop, rfl, honly⟩ := h.makes.exists_top hname hlinks hmade
  refine ⟨_, ⟨top, place, htop, h.project, rfl⟩, ⟨id, h.id, ?_⟩, honly⟩
  have hlink : ∀ target, files.entry? (top ++ [projectName place] ++ ["stdout_".toList ++ id]) ≠
      some (.link target) := by
    intro target
    rw [honly.entry?_of_ne (by simp), List.append_assoc]
    exact hlinks top htop _ target (List.prefix_append ..)
  obtain ⟨e, rfl⟩ | rfl := hwalks.right_below hcapture hlink
  all_goals cases hopens <;> rfl

/-- Besides the calls that asked for the commit, these calls were made. -/
def Calls (m m' : Machine) (calls : List Call) : Prop :=
  ∃ asked, (∀ call ∈ asked, call.program = commitProgram) ∧ m'.calls = m.calls ++ (asked ++ calls)

theorem Fails.exists_file {failure : Failure} (h : Fails m root project failure) :
    ∃ path e, failure = .file path e := by
  cases h with
  | project => exact ⟨_, _, rfl⟩
  | directory => exact ⟨_, _, rfl⟩

end Capture

/-! ## Builds -/

namespace Maven

variable {m' : Machine} {parallel : Bool} {flags : List Text} {data : Bytes}

/-- Nothing is different but at the capture of the project, except that its directory may be new. -/
def ChangesOnlyCapture (m : Machine) (root project : Path) (file : Location) (t : FileTree) :
    Prop :=
  ∃ made, Capture.IsDirectoryFor m root project made ∧ Capture.IsCaptureIn m made file ∧
    ChangesOnly made file m.files t

theorem ChangesOnlyCapture.ne_sink (h : ChangesOnlyCapture m root project file t) (t' : FileTree) :
    t'.entry? file ≠ some .sink := by
  obtain ⟨made, -, hfile, -⟩ := h
  exact hfile.ne_sink t'

/-- A build that gets as far as its capture changes nothing else. To make the directory changes
nothing at the capture. -/
theorem changesOnlyCapture {files₀ : FileTree}
    (hplaces : Capture.Places m root project place files₀ id asked)
    (hhere : FileTree.IsDirectory m.files m.here)
    (hlinks : m.files.HasNoLinksBelow m.here (Capture.outputs root)) (hslash : '/' ∉ id)
    (hcreate : files₀.createFile m.here
      ((Capture.directory root place).push ⟨"stdout_".toList ++ id⟩) = .ok (file, files))
    (hagree : FileTree.AgreeExceptAt file files₀ t) :
    ChangesOnlyCapture m root project file t ∧ files₀.entry? file = m.files.entry? file := by
  obtain ⟨made, hmade, hfile, honly⟩ := hplaces.exists_isCaptureIn hhere hlinks hslash hcreate
  exact ⟨⟨made, hmade, hfile, honly.changesOnly hfile.ne hagree⟩,
    honly.entry?_of_ne hfile.ne.symm⟩

section

variable {e : SystemError} {text : Text} (hhere : FileTree.IsDirectory m.files m.here)
  (hlinks : m.files.HasNoLinksBelow m.here (Capture.outputs root))

include hhere hlinks

/-- A build that fails for a file made at most the directory. -/
theorem makesOnly_of_file_error
    (hrun : (run root project parallel flags).run m = .error (.file path e) m') :
    (m'.files = m.files ∨ ∃ made, Capture.IsDirectoryFor m root project made ∧
      MakesOnly made m.files m'.files) ∧ Capture.Calls m m' [] := by
  have hends := run_ends m root project parallel flags
  rw [hrun] at hends
  cases hends with
  | place => exact ⟨.inl rfl, [], by simp, by simp⟩
  | capture hpath =>
    obtain ⟨place, files, id, asked, noted, hplaces, rfl, rfl⟩ := Capture.exists_places hpath
    refine ⟨?_, asked, hplaces.asked, by simp⟩
    have hname := Capture.isStep_projectName hhere hplaces.project
    obtain hfiles | ⟨top, htop, hfree, hfiles, -⟩ := hplaces.makes.eq_or_new hname hlinks
    · exact .inl hfiles
    · exact .inr ⟨_, ⟨top, place, htop, hplaces.project, rfl⟩, .inr ⟨hfree, hfiles⟩⟩

/-- A build that cannot start Maven leaves an empty capture. -/
theorem empty_of_start_error (hid : ∀ id, Capture.IsCaptureId m id → '/' ∉ id)
    (hrun : (run root project parallel flags).run m = .error (.start program e) m') :
    ∃ file, ChangesOnlyCapture m root project file m'.files ∧ m.files.Keeps m'.files file [] ∧
      Capture.Calls m m' [] := by
  have hends := run_ends m root project parallel flags
  rw [hrun] at hends
  cases hends with
  | place h =>
    obtain ⟨path, e, hfailure⟩ := h.exists_file
    cases hfailure
  | start hpath hcreate =>
    obtain ⟨place, files, id, asked, noted, hplaces, rfl, rfl⟩ := Capture.exists_places hpath
    obtain ⟨hagree, hempty⟩ := FileTree.keeps_of_createFile hcreate
    obtain ⟨honly, hbefore⟩ := changesOnlyCapture hplaces hhere hlinks (hid id hplaces.id) hcreate
      hagree
    have hkeeps := hempty.resolve_right fun hsink => honly.ne_sink _ hsink.1
    exact ⟨_, honly, hkeeps.congr hbefore.symm, asked, hplaces.asked, by simp⟩

/-- A build that succeeds called Maven once and returns what its capture keeps. -/
theorem keeps_of_run (hid : ∀ id, Capture.IsCaptureId m id → '/' ∉ id)
    (hrun : (run root project parallel flags).run m = .ok text m') :
    ∃ file place, ChangesOnlyCapture m root project file m'.files ∧
      m.files.Keeps m'.files file (m.nextRun program.text).output ∧
      text = Utf8.decodeLossy (m.nextRun program.text).output ∧
      Capture.Calls m m' [⟨program.text, place, arguments parallel flags⟩] := by
  have hends := run_ends m root project parallel flags
  rw [hrun] at hends
  cases hends with
  | @done _ _ file place files name data notices hpath hcreate hstart hcaptured =>
    obtain ⟨_, files₀, id, asked, noted, hplaces, rfl, rfl⟩ := Capture.exists_places hpath
    obtain rfl : name = program.text := Machine.eq_of_programAt (by decide) hstart.program_at
    -- To ask for the commit uses up no run of Maven.
    have hasked : ∀ call ∈ asked, call.program ≠ program.text := by
      intro call hcall
      rw [hplaces.asked call hcall]
      decide
    have hnext : (Machine.after { m with files := files₀ } asked noted).nextRun program.text =
        m.nextRun program.text := Machine.nextRun_after hasked noted
    rw [hnext] at hcaptured
    have hagree := (FileTree.keeps_of_createFile hcreate).1.trans
      (FileTree.agreeExceptAt_write files file (m.nextRun program.text).output)
    obtain ⟨honly, hbefore⟩ := changesOnlyCapture hplaces hhere hlinks (hid id hplaces.id) hcreate
      hagree
    rw [hnext]
    cases hcaptured with
    | file hkeeps =>
      exact ⟨file, place, honly, hkeeps.congr hbefore.symm, rfl, asked, hplaces.asked,
        List.append_assoc ..⟩
    | device hsink => exact absurd hsink (honly.ne_sink _)

end

/-- A machine with Maven but without commits, and with the capture of an earlier build. -/
def laterBuild : Machine where
  files :=
    { entries := [(["p".toList], .directory), (["build_outputs".toList], .directory),
        (["build_outputs".toList, "p".toList], .directory),
        (["build_outputs".toList, "p".toList, "stdout_0".toList],
          .file false "yes".toUTF8.toList)] }
  here := []
  environment := []
  programs := [program.text]
  runs := [(program.text, [⟨"no".toUTF8.toList, 1⟩])]
  calls := []
  freshName := "1".toList
  time := []
  notices := []
  complaint _ := []

theorem directoryAt_laterBuild :
    laterBuild.files.directoryAt laterBuild.here (Capture.outputs ⟨"/".toList⟩) =
      .ok ["build_outputs".toList] := by
  cbv

theorem resolve_laterBuild :
    laterBuild.files.resolve laterBuild.here ⟨"/p".toList⟩ = .ok ["p".toList] := by
  cbv

theorem exists_run_laterBuild :
    ∃ text m', (run ⟨"/".toList⟩ ⟨"/p".toList⟩ false []).run laterBuild = .ok text m' := by
  have hdirectory : FileTree.IsDirectory laterBuild.files ["build_outputs".toList, "p".toList] :=
    .concat (.concat .root (by decide) rfl) (by decide) rfl
  have hmake : laterBuild.files.createDirectory laterBuild.here
      (Capture.directory ⟨"/".toList⟩ ["p".toList]) = .error .alreadyExists :=
    FileTree.createDirectory_pathOf hdirectory (by decide)
  have hgit : laterBuild.start ⟨"git".toList⟩ (FileTree.pathOf ["p".toList])
      ["log".toList, "-1".toList, "--oneline".toList] = .error .notFound := by cbv
  obtain ⟨notices, hpath⟩ := Capture.path_run_of_no_commit resolve_laterBuild hmake hgit
  have hcreate : laterBuild.files.createFile laterBuild.here
      (FileTree.pathOf (["build_outputs".toList, "p".toList] ++ ["stdout_1".toList])) =
        .ok (["build_outputs".toList, "p".toList] ++ ["stdout_1".toList],
          laterBuild.files.put _ (.file false [])) :=
    FileTree.createFile_pathOf_concat hdirectory (by decide) (by decide) rfl
  have hstart : laterBuild.CanStart program ⟨"/p".toList⟩ (arguments false []) ["p".toList]
      program.text := ⟨by decide, by cbv, by cbv, by decide⟩
  obtain ⟨data, m', hrun, -⟩ := run_of_canStart hpath hcreate
    ⟨hstart.no_zero, by cbv, hstart.program_at, hstart.short⟩
  exact ⟨_, m', hrun⟩

end Maven

end BuildLog.Build
