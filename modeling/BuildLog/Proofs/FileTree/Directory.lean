-- SUMMARY: Locations that consist of directories, which walks lead to and absolute paths lead back to.
import BuildLog.Proofs.FileTree.Walk
import BuildLog.Proofs.Path
import Mathlib.Data.List.Basic
import Mathlib.Data.List.Induction

/-!
# Directories and their paths

A walk that starts in a directory enters directories only, so all of the location where it ends
consists of directories. The absolute path of such a location leads there without following a
link, unless it is too long to be handed over.
-/

namespace BuildLog.FileTree

variable {t : FileTree} {purpose : Purpose} {links : Nat} {here place : Location} {name : Text}
  {rest names : List Text} {found : Found}

/-! ## Directories -/

/-- A name that an entry of a directory can have. -/
structure IsName (name : Text) : Prop where
  ne_stay : ¬ IsStay name
  ne_up : name ≠ "..".toList
  no_slash : '/' ∉ name
  no_zero : '\x00' ∉ name
  short : ¬ isLongName name

instance : DecidablePred IsName := fun name =>
  decidable_of_iff
    (¬ IsStay name ∧ name ≠ "..".toList ∧ '/' ∉ name ∧ '\x00' ∉ name ∧ ¬ isLongName name)
    ⟨fun ⟨hstay, hup, hslash, hzero, hshort⟩ => ⟨hstay, hup, hslash, hzero, hshort⟩,
      fun h => ⟨h.ne_stay, h.ne_up, h.no_slash, h.no_zero, h.short⟩⟩

theorem isName_iff : isName name ↔ IsName name := by
  rw [isName, Bool.not_eq_true']
  simp only [Bool.or_eq_false_iff, List.isEmpty_eq_false_iff, beq_eq_false_iff_ne,
    List.contains_eq_mem, decide_eq_false_iff_not]
  constructor
  · rintro ⟨⟨⟨⟨⟨hne, hstay⟩, hup⟩, hslash⟩, hzero⟩, hshort⟩
    exact ⟨not_or.2 ⟨hne, hstay⟩, hup, hslash, hzero, Bool.not_eq_true _ ▸ hshort⟩
  · intro h
    obtain ⟨hne, hstay⟩ := not_or.1 h.ne_stay
    exact ⟨⟨⟨⟨⟨hne, hstay⟩, h.ne_up⟩, h.no_slash⟩, h.no_zero⟩, by simpa using h.short⟩

/-- A directory, with a directory at each step down to it. -/
structure IsDirectory (t : FileTree) (place : Location) : Prop where
  names : ∀ name ∈ place, IsName name
  entries : ∀ ahead, ahead <+: place → t.entry? ahead = some .directory

/-- The system makes no link to a path with a zero character. -/
def HasTextLinks (t : FileTree) : Prop :=
  ∀ place target, t.entry? place = some (.link target) → '\x00' ∉ target.text

theorem hasTextLinks_of_entries
    (h : ∀ entry ∈ t.entries, ∀ target, entry.2 = .link target → '\x00' ∉ target.text) :
    HasTextLinks t := by
  intro place target hentry
  cases place with
  | nil => cases hentry
  | cons name names =>
    obtain ⟨ahead, behind, hentries, -⟩ := List.lookup_eq_some_iff.1 hentry
    exact h (name :: names, .link target) (by simp [hentries]) target rfl

theorem IsDirectory.root : IsDirectory t [] where
  names := by simp
  entries := by
    intro ahead h
    obtain rfl := List.prefix_nil.1 h
    rfl

theorem IsDirectory.dropLast (h : IsDirectory t place) : IsDirectory t place.dropLast where
  names := fun name hname => h.names name ((List.dropLast_sublist place).subset hname)
  entries := fun ahead hahead => h.entries ahead (hahead.trans (List.dropLast_prefix place))

theorem IsDirectory.concat (h : IsDirectory t place) (hname : IsName name)
    (hentry : t.entry? (place ++ [name]) = some .directory) : IsDirectory t (place ++ [name]) where
  names := by
    intro other hother
    rcases List.mem_append.1 hother with hother | hother
    · exact h.names other hother
    · obtain rfl := List.mem_singleton.1 hother
      exact hname
  entries := by
    intro ahead hahead
    rcases List.prefix_concat_iff.1 hahead with rfl | hahead
    · exact hentry
    · exact h.entries ahead hahead

/-! ## Walks from directories -/

theorem IsLookedUp.isName (h : IsLookedUp purpose here name rest) (hslash : '/' ∉ name)
    (hzero : '\x00' ∉ name) : IsName name :=
  ⟨h.ne_stay, h.ne_up, hslash, hzero, h.short⟩

/-- Names on which a slash or a zero character does not occur lead from directory to directory. -/
theorem Walks.isDirectory (h : Walks t purpose links here names (.entry place .directory))
    (hhere : IsDirectory t here) (hlinks : HasTextLinks t)
    (hnames : ∀ name ∈ names, '/' ∉ name ∧ '\x00' ∉ name) : IsDirectory t place := by
  generalize hfound : Found.entry place .directory = found at h
  induction h with
  | arrived =>
    cases hfound
    exact hhere
  | stay _ _ ih => exact ih hhere (List.forall_mem_cons.1 hnames).2 hfound
  | up _ ih => exact ih hhere.dropLast (List.forall_mem_cons.1 hnames).2 hfound
  | enter hname hentry _ ih =>
    obtain ⟨⟨hslash, hzero⟩, hrest⟩ := List.forall_mem_cons.1 hnames
    exact ih (hhere.concat (hname.isName hslash hzero) hentry) hrest hfound
  | @follow _ here _ _ _ target _ hentry _ _ ih =>
    have hstart : IsDirectory t (if target.isAbsolute then [] else here) := by
      split
      · exact .root
      · exact hhere
    refine ih hstart ?_ hfound
    rw [List.forall_mem_append]
    refine ⟨?_, (List.forall_mem_cons.1 hnames).2⟩
    intro name hname
    exact ⟨Path.slash_not_mem_of_mem_components hname,
      fun hzero => hlinks _ target hentry (Path.mem_of_mem_components hname hzero)⟩
  | inTheWay => cases hfound
  | free => cases hfound
  | reached _ _ hdirectory =>
    cases hfound
    exact absurd rfl hdirectory

/-- A path leads from a directory to a directory. -/
theorem isDirectory_of_directoryAt {path : Path} (hhere : IsDirectory t here)
    (hlinks : HasTextLinks t) (h : t.directoryAt here path = .ok place) : IsDirectory t place := by
  obtain ⟨hzero, -, -, hwalks⟩ := locate_eq_ok_iff.1 (directoryAt_eq_ok_iff.1 h)
  have hstart : IsDirectory t (if path.isAbsolute then [] else here) := by
    split
    · exact .root
    · exact hhere
  refine hwalks.isDirectory hstart hlinks fun name hname => ?_
  exact ⟨Path.slash_not_mem_of_mem_components hname,
    fun hmem => hzero (Path.mem_of_mem_components hname hmem)⟩

theorem IsName.ne_nil (h : IsName name) : name ≠ [] :=
  fun hname => h.ne_stay (.inl hname)

theorem IsName.isLookedUp (h : IsName name) (hpurpose : purpose ≠ .resolve)
    (hrest : ¬ (purpose = .write ∧ rest = [[]])) : IsLookedUp purpose here name rest where
  ne_stay := h.ne_stay
  ne_up := h.ne_up
  ne_write := hrest
  short := h.short
  short_path := fun hpath => hpurpose hpath.1

/-- The names of a directory lead there. -/
theorem walk_of_isDirectory (h : IsDirectory t (here ++ names)) (hpurpose : purpose ≠ .resolve)
    (hrest : ¬ (purpose = .write ∧ rest = [[]])) :
    t.walk purpose links here (names ++ rest) = t.walk purpose links (here ++ names) rest := by
  induction names generalizing here with
  | nil => rw [List.nil_append, List.append_nil]
  | cons name names ih =>
    have happend : here ++ name :: names = here ++ [name] ++ names := by simp
    rw [happend] at h ⊢
    have hentry : t.entry? (here ++ [name]) = some .directory :=
      h.entries _ (List.prefix_append ..)
    have hnames : ¬ (purpose = .write ∧ names ++ rest = [[]]) := by
      rintro ⟨hwrite, hnil⟩
      rcases List.append_eq_singleton_iff.1 hnil with ⟨-, hrest'⟩ | ⟨rfl, -⟩
      · exact hrest ⟨hwrite, hrest'⟩
      · exact (h.names [] (by simp)).ne_nil rfl
    rw [List.cons_append, walk_lookedUp ((h.names name (by simp)).isLookedUp hpurpose hnames),
      hentry]
    exact ih h

theorem walk_from_root (h : IsDirectory t place) (hpurpose : purpose ≠ .resolve)
    (hrest : ¬ (purpose = .write ∧ rest = [[]])) :
    t.walk purpose links [] (place ++ rest) = t.walk purpose links place rest := by
  have hplace : IsDirectory t ([] ++ place) := h
  exact walk_of_isDirectory hplace hpurpose hrest

/-! ## Absolute paths -/

theorem pathOf_eq (init : Location) (last : Text) :
    pathOf (init ++ [last]) = ⟨init.flatMap ('/' :: ·) ++ ['/'] ++ last⟩ := by
  cases init <;> simp [pathOf]

theorem pathOf_concat (hplace : ∀ name ∈ place, IsName name) (hslash : '/' ∉ name) :
    pathOf (place ++ [name]) = (pathOf place).push ⟨name⟩ := by
  rw [Path.push_name hslash, pathOf_eq]
  rcases List.eq_nil_or_concat' place with rfl | ⟨init, last, rfl⟩
  · rfl
  · have hlast : IsName last := hplace last (by simp)
    have hglue : (pathOf (init ++ [last])).glue = ['/'] := by
      rw [pathOf_eq, Path.glue, if_neg]
      rw [Bool.or_eq_true, not_or]
      exact ⟨by simp, Path.not_endsInSlash_append hlast.ne_nil hlast.no_slash _⟩
    rw [hglue, pathOf_eq]
    simp

theorem isAbsolute_pathOf (place : Location) : (pathOf place).isAbsolute := by
  cases place <;> rfl

theorem pathOf_ne_nil (place : Location) : (pathOf place).text ≠ [] := by
  cases place <;> simp [pathOf]

theorem names_pathOf (hplace : ∀ name ∈ place, IsName name) : (pathOf place).names = place := by
  induction place using List.reverseRecOn with
  | nil => rfl
  | append_singleton place name ih =>
    rw [List.forall_mem_append, List.forall_mem_singleton] at hplace
    obtain ⟨hplace, hname⟩ := hplace
    rw [pathOf_concat hplace hname.no_slash, Path.names_push hname.ne_nil hname.no_slash, ih hplace]

theorem components_pathOf_concat (hplace : ∀ name ∈ place, IsName name) (hname : IsName name) :
    (pathOf (place ++ [name])).components = place ++ [name] := by
  rw [pathOf_concat hplace hname.no_slash, Path.components_push hname.ne_nil hname.no_slash,
    names_pathOf hplace]

theorem zero_not_mem_pathOf (hplace : ∀ name ∈ place, IsName name) :
    '\x00' ∉ (pathOf place).text := by
  induction place using List.reverseRecOn with
  | nil => decide
  | append_singleton place name ih =>
    rw [List.forall_mem_append, List.forall_mem_singleton] at hplace
    obtain ⟨hplace, hname⟩ := hplace
    rw [pathOf_concat hplace hname.no_slash]
    exact Path.not_mem_push (by decide) hname.no_slash (ih hplace) hname.no_zero

theorem not_isLongPath_of_push {path : Path} (hslash : '/' ∉ name)
    (h : ¬ isLongPath (path.push ⟨name⟩)) : ¬ isLongPath path := by
  rw [Path.push_name hslash, isLongPath, decide_eq_true_iff, byteLength_append] at h
  rw [isLongPath, decide_eq_true_iff]
  omega

/-- The absolute path of a directory leads there, whatever the walk is for. -/
theorem find_pathOf (h : IsDirectory t place) (hshort : ¬ isLongPath (pathOf place))
    (hpurpose : purpose ≠ .resolve) :
    t.find purpose here (pathOf place) = .ok (.entry place .directory) := by
  rw [find_eq_ok_iff, if_pos (isAbsolute_pathOf place)]
  refine ⟨zero_not_mem_pathOf h.names, pathOf_ne_nil place, fun hlong => hshort hlong.2, ?_⟩
  rcases List.eq_nil_or_concat' place with rfl | ⟨init, last, rfl⟩
  · exact .stay (.inl rfl) (.arrived linkLimit [])
  · have hnames := h.names
    rw [List.forall_mem_append, List.forall_mem_singleton] at hnames
    have hwalk : t.walk purpose linkLimit [] (init ++ [last] ++ []) =
        .ok (.entry (init ++ [last]) .directory) :=
      (walk_from_root h hpurpose (by simp)).trans walk_nil
    rw [List.append_nil] at hwalk
    rw [components_pathOf_concat hnames.1 hnames.2]
    exact walks_of_walk hwalk

theorem directoryAt_pathOf (h : IsDirectory t place) (hshort : ¬ isLongPath (pathOf place)) :
    t.directoryAt here (pathOf place) = .ok place := by
  rw [directoryAt, locate, find_pathOf h hshort (by decide)]

/-! ## What lies in a directory -/

theorem components_name (hne : name ≠ []) (hslash : '/' ∉ name) :
    Path.components ⟨name⟩ = [name] := by
  have hend : ¬ Path.endsInSlash ⟨name⟩ := Path.not_endsInSlash_append hne hslash []
  rw [Path.components, if_neg hend, Path.names_of_not_mem hne hslash]

/-- A walk along the absolute path of what lies in a directory ends like a walk from there. -/
theorem find_pathOf_concat (h : IsDirectory t place) (hname : IsName name)
    (hshort : ¬ isLongPath (pathOf (place ++ [name]))) (hpurpose : purpose ≠ .resolve)
    (hwalks : Walks t purpose linkLimit place [name] found) :
    t.find purpose here (pathOf (place ++ [name])) = .ok found := by
  have hnames : ∀ other ∈ place ++ [name], IsName other := by
    rw [List.forall_mem_append, List.forall_mem_singleton]
    exact ⟨h.names, hname⟩
  have hrest : ¬ (purpose = .write ∧ [name] = [[]]) := by
    rintro ⟨-, hnil⟩
    exact hname.ne_nil (List.singleton_inj.1 hnil)
  rw [find_eq_ok_iff, if_pos (isAbsolute_pathOf _), components_pathOf_concat h.names hname,
    ← walk_eq_ok_iff]
  refine ⟨zero_not_mem_pathOf hnames, pathOf_ne_nil _, fun hlong => hshort hlong.2, ?_⟩
  exact (walk_from_root h hpurpose hrest).trans hwalks.walk

/-- What lies in a directory is found by its absolute path, too. -/
theorem locate_pathOf_concat {e : Entry} {file : Location} (h : IsDirectory t place)
    (hname : IsName name) (hshort : ¬ isLongPath (pathOf (place ++ [name])))
    (hlocate : t.locate place ⟨name⟩ = .ok (file, e)) :
    t.locate here (pathOf (place ++ [name])) = .ok (file, e) := by
  obtain ⟨-, -, -, hwalks⟩ := locate_eq_ok_iff.1 hlocate
  rw [if_neg (Path.not_isAbsolute hname.no_slash),
    components_name hname.ne_nil hname.no_slash] at hwalks
  rw [locate, find_pathOf_concat h hname hshort (by decide) hwalks]

/-- A walk along a path with one more name goes on from the directory that the path leads to, with
the links that are left. -/
theorem walk_push {path : Path} (hne : name ≠ []) (hslash : '/' ∉ name)
    (hpath : t.directoryAt here path = .ok place) :
    ∃ spare ≤ linkLimit,
      t.walk .look linkLimit (if (path.push ⟨name⟩).isAbsolute then [] else here)
        (path.push ⟨name⟩).components = t.walk .look spare place [name] := by
  obtain ⟨-, -, -, hdirectory⟩ := locate_eq_ok_iff.1 (directoryAt_eq_ok_iff.1 hpath)
  have hnames : Walks t .look linkLimit (if path.isAbsolute then [] else here) path.names
      (.entry place .directory) := by
    by_cases hend : path.endsInSlash
    · rw [Path.components, if_pos hend] at hdirectory
      exact hdirectory.of_trailing
    · rwa [Path.components, if_neg hend] at hdirectory
  obtain ⟨spare, hspare, hwalk⟩ := hnames.append
  rw [Path.isAbsolute_push (ne_nil_of_directoryAt hpath) hslash, Path.components_push hne hslash]
  exact ⟨spare, hspare, hwalk [name]⟩

/-- What a path with one more name leads to lies in the directory that the path leads to. -/
theorem locate_of_push {path : Path} {e : Entry} {file : Location} (hne : name ≠ [])
    (hslash : '/' ∉ name) (hpath : t.directoryAt here path = .ok place)
    (hpush : t.locate here (path.push ⟨name⟩) = .ok (file, e)) :
    t.locate place ⟨name⟩ = .ok (file, e) := by
  obtain ⟨hzero, -, hshort, hfile⟩ := locate_eq_ok_iff.1 hpush
  obtain ⟨spare, hspare, hwalk⟩ := walk_push hne hslash hpath
  rw [← walk_eq_ok_iff, hwalk, walk_eq_ok_iff] at hfile
  rw [Path.push_name hslash] at hzero hshort
  rw [locate_eq_ok_iff, if_neg (Path.not_isAbsolute hslash), components_name hne hslash]
  refine ⟨?_, hne, ?_, hfile.mono hspare⟩
  · simp only [List.mem_append, not_or] at hzero
    exact hzero.2.2
  · simp only [isLongPath, decide_eq_true_iff, byteLength_append] at hshort ⊢
    omega

/-- What a name leads to in a directory is found by every path to the directory. -/
theorem locate_push_of_walks {path : Path} {e : Entry} {file : Location} (hname : IsName name)
    (hpath : t.directoryAt here path = .ok place) (hshort : ¬ isLongPath (path.push ⟨name⟩))
    (hwalks : ∀ spare, Walks t .look spare place [name] (.entry file e)) :
    t.locate here (path.push ⟨name⟩) = .ok (file, e) := by
  obtain ⟨spare, -, hwalk⟩ := walk_push hname.ne_nil hname.no_slash hpath
  refine locate_eq_ok_iff.2 ⟨?_, ?_, hshort, ?_⟩
  · exact Path.not_mem_push (by decide) hname.no_slash (zero_not_mem_of_directoryAt hpath)
      hname.no_zero
  · exact List.ne_nil_of_mem (Path.slash_mem_push (ne_nil_of_directoryAt hpath) hname.no_slash)
  · rw [← walk_eq_ok_iff, hwalk, walk_eq_ok_iff]
    exact hwalks spare

theorem locate_push_of_entry {path : Path} {e : Entry} (hname : IsName name)
    (hpath : t.directoryAt here path = .ok place) (hshort : ¬ isLongPath (path.push ⟨name⟩))
    (hentry : t.entry? (place ++ [name]) = some e) (hdirectory : e ≠ .directory)
    (hlink : ∀ target, e ≠ .link target) :
    t.locate here (path.push ⟨name⟩) = .ok (place ++ [name], e) :=
  locate_push_of_walks hname hpath hshort fun _ =>
    .reached (hname.isLookedUp (by decide) (by simp)) hentry hdirectory hlink

theorem directoryAt_push_of_entry {path : Path} (hname : IsName name)
    (hpath : t.directoryAt here path = .ok place) (hshort : ¬ isLongPath (path.push ⟨name⟩))
    (hentry : t.entry? (place ++ [name]) = some .directory) :
    t.directoryAt here (path.push ⟨name⟩) = .ok (place ++ [name]) :=
  directoryAt_eq_ok_iff.2 <| locate_push_of_walks hname hpath hshort fun spare =>
    .enter (hname.isLookedUp (by decide) (by simp)) hentry (.arrived spare _)

end BuildLog.FileTree
