-- SUMMARY: A file reads back as what was written to it, by the path it was opened by.
import BuildLog.Proofs.FileTree.Directory

/-!
# Written files

A file that is opened to be written is found by its path afterwards. Only the entry where the
walk ended changes, and that entry was no directory and no link, so a walk along the same path
takes the same steps.
-/

namespace BuildLog.FileTree

variable {t t' : FileTree} {links : Nat} {here place other : Location} {names : List Text}
  {found : Found} {e : Entry} {path : Path}

/-! ## Changed trees -/

theorem entry?_put_self (t : FileTree) (hplace : place ≠ []) (seed : Seed) :
    entry? (t.put place seed) place = some seed.val := by
  cases place with
  | nil => exact absurd rfl hplace
  | cons name names => exact List.lookup_cons_self

theorem lookup_filter_of_ne (entries : List (Location × Entry)) (hne : other ≠ place) :
    (entries.filter fun (o, _) => o != place).lookup other = entries.lookup other := by
  induction entries with
  | nil => rfl
  | cons entry entries ih =>
    obtain ⟨o, e⟩ := entry
    by_cases hother : other = o
    · subst hother
      rw [List.filter_cons_of_pos (by simpa using hne), List.lookup_cons_self,
        List.lookup_cons_self]
    · have hskip : (other == o) = false := by simpa using hother
      by_cases hplace : o = place
      · rw [List.filter_cons_of_neg (by simpa using hplace), ih, List.lookup_cons, hskip]
      · rw [List.filter_cons_of_pos (by simpa using hplace), List.lookup_cons, List.lookup_cons,
          hskip, ih]

theorem entry?_put_of_ne (hne : other ≠ place) (seed : Seed) :
    entry? (t.put place seed) other = t.entry? other := by
  cases other with
  | nil => rfl
  | cons name names =>
    have hskip : (name :: names == place) = false := by simpa using hne
    change List.lookup (name :: names) ((place, seed.val) :: _) = _
    rw [List.lookup_cons, hskip]
    exact lookup_filter_of_ne t.entries hne

/-- The trees hold the same everywhere but at the location. -/
def AgreeExceptAt (place : Location) (t t' : FileTree) : Prop :=
  ∀ other, other ≠ place → t'.entry? other = t.entry? other

theorem AgreeExceptAt.refl (place : Location) (t : FileTree) : AgreeExceptAt place t t :=
  fun _ _ => rfl

theorem agreeExceptAt_put (t : FileTree) (place : Location) (seed : Seed) :
    AgreeExceptAt place t (t.put place seed) :=
  fun _ hne => entry?_put_of_ne hne seed

theorem AgreeExceptAt.trans {t'' : FileTree} (h : AgreeExceptAt place t t')
    (h' : AgreeExceptAt place t' t'') : AgreeExceptAt place t t'' :=
  fun other hne => (h' other hne).trans (h other hne)

/-! ## Files that are opened -/

/-- A file to be written can be opened where the walk ends. A file is emptied then, and a device
stays what it is. -/
inductive Opens (t : FileTree) : Found → Location → FileTree → Prop
  | free (place : Location) : Opens t (.free place) place (t.put place (.file false []))
  | file (place : Location) (executable : Bool) (data : Bytes) :
      Opens t (.entry place (.file executable data)) place (t.put place (.file executable []))
  | sink (place : Location) : Opens t (.entry place .sink) place t

theorem createFile_eq_ok_iff :
    t.createFile here path = .ok (place, t') ↔
      ∃ found, t.find .write here path = .ok found ∧ Opens t found place t' := by
  rw [createFile]
  constructor
  · intro h
    split at h
    · cases h
    · cases h
      exact ⟨_, ‹_›, .free place⟩
    · cases h
      exact ⟨_, ‹_›, .file ..⟩
    · cases h
      exact ⟨_, ‹_›, .sink place⟩
    · cases h
  · rintro ⟨found, hfind, hopens⟩
    rw [hfind]
    cases hopens <;> rfl

theorem Opens.agreeExceptAt (h : Opens t found place t') : AgreeExceptAt place t t' := by
  cases h with
  | free | file => exact agreeExceptAt_put _ _ _
  | sink => exact .refl _ _

/-- What stands where a file can be opened is no directory and no link. -/
theorem Walks.entry?_of_opens (h : Walks t .write links here names found)
    (hopens : Opens t found place t') (hplace : t.entry? place = some e) :
    e ≠ .directory ∧ ∀ target, e ≠ .link target := by
  cases hopens with
  | free =>
    rw [h.free_eq] at hplace
    cases hplace
  | file | sink =>
    rw [h.entry_eq.resolve_left (by simp)] at hplace
    cases hplace
    simp

/-- A walk to write a file looks at the file once it is there. -/
theorem Walks.look_of_opens {opened : FileTree} (h : Walks t .write links here names found)
    (hopens : Opens t found place opened) (hagree : AgreeExceptAt place t t')
    (hplace : t'.entry? place = some e) (hdirectory : e ≠ .directory)
    (hlink : ∀ target, e ≠ .link target) : Walks t' .look links here names (.entry place e) := by
  induction h with
  | arrived => cases hopens
  | stay hname _ ih => exact .stay hname (ih hopens)
  | up _ ih => exact .up (ih hopens)
  | @enter _ here name _ _ hname hentry h ih =>
    have hne : here ++ [name] ≠ place := by
      rintro rfl
      exact (h.entry?_of_opens hopens hentry).1 rfl
    exact .enter hname.look ((hagree _ hne).trans hentry) (ih hopens)
  | @follow _ here name _ _ target hname hentry _ h ih =>
    have hne : here ++ [name] ≠ place := by
      rintro rfl
      exact (h.entry?_of_opens hopens hentry).2 target rfl
    exact .follow hname.look ((hagree _ hne).trans hentry) (fun hmake => by cases hmake.2)
      (ih hopens)
  | inTheWay _ _ hmake => cases hmake
  | free hname =>
    cases hopens
    exact .reached hname.look hplace hdirectory hlink
  | reached hname =>
    cases hopens <;> exact .reached hname.look hplace hdirectory hlink

theorem Walks.ne_nil_of_opens (h : Walks t .write links here names found)
    (hopens : Opens t found place t') : place ≠ [] := by
  rintro rfl
  exact (h.entry?_of_opens hopens rfl).1 rfl

/-! ## Directories that are made -/

theorem createDirectory_eq_ok_iff :
    t.createDirectory here path = .ok t' ↔
      ∃ place, t.find .make here path = .ok (.free place) ∧ t' = t.put place .directory := by
  rw [createDirectory]
  constructor
  · intro h
    split at h
    · cases h
    · cases h
    · cases h
      exact ⟨_, ‹_›, rfl⟩
  · rintro ⟨place, hfind, rfl⟩
    rw [hfind]

/-- A walk to make a directory arrives in it once it is there. -/
theorem Walks.look_of_free (h : Walks t .make links here names (.free place))
    (hagree : AgreeExceptAt place t t') (hplace : t'.entry? place = some .directory) :
    Walks t' .look links here names (.entry place .directory) := by
  generalize hfound : Found.free place = found at h
  induction h with
  | arrived => cases hfound
  | stay hname _ ih => exact .stay hname (ih hfound)
  | up _ ih => exact .up (ih hfound)
  | @enter _ here name _ _ hname hentry h ih =>
    subst hfound
    have hne : here ++ [name] ≠ place := by
      rintro rfl
      rw [h.free_eq] at hentry
      cases hentry
    exact .enter hname.look ((hagree _ hne).trans hentry) (ih rfl)
  | @follow _ here name _ _ target hname hentry _ h ih =>
    subst hfound
    have hne : here ++ [name] ≠ place := by
      rintro rfl
      rw [h.free_eq] at hentry
      cases hentry
    exact .follow hname.look ((hagree _ hne).trans hentry) (fun hmake => by cases hmake.2)
      (ih rfl)
  | free hname =>
    cases hfound
    exact .enter hname.look hplace (.arrived ..)
  | inTheWay | reached => cases hfound

/-- The path of a directory that was made leads there. -/
theorem directoryAt_put_of_find (h : t.find .make here path = .ok (.free place)) :
    (t.put place .directory).directoryAt here path = .ok place := by
  obtain ⟨hzero, hne, hshort, hwalks⟩ := find_eq_ok_iff.1 h
  have hplace : place ≠ [] := by
    rintro rfl
    cases hwalks.free_eq
  have hlook := hwalks.look_of_free (agreeExceptAt_put t place .directory)
    (entry?_put_self t hplace .directory)
  exact directoryAt_eq_ok_iff.2
    (locate_eq_ok_iff.2 ⟨hzero, hne, fun hlong => hshort ⟨by decide, hlong⟩, hlook⟩)

theorem exists_directoryAt_of_createDirectory (h : t.createDirectory here path = .ok t') :
    ∃ place, t'.directoryAt here path = .ok place := by
  obtain ⟨place, hfind, rfl⟩ := createDirectory_eq_ok_iff.1 h
  exact ⟨place, directoryAt_put_of_find hfind⟩

/-! ## Making entries by absolute paths -/

theorem createDirectory_pathOf (h : IsDirectory t place) (hshort : ¬ isLongPath (pathOf place)) :
    t.createDirectory here (pathOf place) = .error .alreadyExists := by
  rw [createDirectory, find_pathOf h hshort (by decide)]

theorem createFile_pathOf_concat {name : Text} (h : IsDirectory t place) (hname : IsName name)
    (hshort : ¬ isLongPath (pathOf (place ++ [name])))
    (hfree : t.entry? (place ++ [name]) = none) :
    t.createFile here (pathOf (place ++ [name])) =
      .ok (place ++ [name], t.put (place ++ [name]) (.file false [])) := by
  have hrest : ¬ (Purpose.write = .write ∧ ([] : List Text) = [[]]) := by simp
  have hfind : t.find .write here (pathOf (place ++ [name])) = .ok (.free (place ++ [name])) :=
    find_pathOf_concat h hname hshort (by decide)
      (.free (hname.isLookedUp (by decide) hrest) hfree)
  exact createFile_eq_ok_iff.2 ⟨_, hfind, .free _⟩

/-! ## Reading back -/

/-- The location keeps the data that is written to it, as a file that is new or replaces a
file. -/
inductive Keeps (t t' : FileTree) (place : Location) (data : Bytes) : Prop
  | new (hfree : t.entry? place = none) (h : t'.entry? place = some (.file false data))
  | replaced {executable : Bool} {old : Bytes}
      (hfile : t.entry? place = some (.file executable old))
      (h : t'.entry? place = some (.file executable data))

theorem agreeExceptAt_write (t : FileTree) (place : Location) (data : Bytes) :
    AgreeExceptAt place t (t.write place data) := by
  rw [write]
  split
  · exact agreeExceptAt_put _ _ _
  · exact .refl _ _

/-- A file that is opened to be written is empty at first, unless a device is opened. -/
theorem keeps_of_createFile (h : t.createFile here path = .ok (place, t')) :
    AgreeExceptAt place t t' ∧ (Keeps t t' place [] ∨ t.entry? place = some .sink ∧ t' = t) := by
  obtain ⟨found, hfind, hopens⟩ := createFile_eq_ok_iff.1 h
  obtain ⟨-, -, -, hwalks⟩ := find_eq_ok_iff.1 hfind
  refine ⟨hopens.agreeExceptAt, ?_⟩
  have hplace := hwalks.ne_nil_of_opens hopens
  cases hopens with
  | free => exact .inl (.new hwalks.free_eq (entry?_put_self _ hplace ..))
  | file =>
    exact .inl (.replaced (hwalks.entry_eq.resolve_left (by simp)) (entry?_put_self _ hplace ..))
  | sink => exact .inr ⟨hwalks.entry_eq.resolve_left (by simp), rfl⟩

theorem Keeps.ne_nil {data : Bytes} (h : Keeps t t' place data) : place ≠ [] := by
  rintro rfl
  cases h with
  | new hentry | replaced hentry => cases hentry

theorem Keeps.congr {t₀ : FileTree} {data : Bytes} (h : Keeps t t' place data)
    (hbefore : t₀.entry? place = t.entry? place) : Keeps t₀ t' place data := by
  cases h with
  | new hfree h => exact .new (hbefore.trans hfree) h
  | replaced hfile h => exact .replaced (hbefore.trans hfile) h

/-- What is written to a file replaces what it held. -/
theorem Keeps.write {t₁ : FileTree} {data₁ : Bytes} (h : Keeps t t₁ place data₁) (data : Bytes) :
    Keeps t (t₁.write place data) place data := by
  have hplace := h.ne_nil
  cases h with
  | new hfree h =>
    rw [FileTree.write, h]
    exact .new hfree (entry?_put_self _ hplace ..)
  | replaced hfile h =>
    rw [FileTree.write, h]
    exact .replaced hfile (entry?_put_self _ hplace ..)

/-- Whatever stands by now where a file was opened, the path leads to it. -/
theorem locate_of_createFile {t₁ : FileTree} (hcreate : t.createFile here path = .ok (place, t'))
    (hagree : AgreeExceptAt place t t₁) (hplace : t₁.entry? place = some e)
    (hdirectory : e ≠ .directory) (hlink : ∀ target, e ≠ .link target) :
    t₁.locate here path = .ok (place, e) := by
  obtain ⟨found, hfind, hopens⟩ := createFile_eq_ok_iff.1 hcreate
  obtain ⟨hzero, hne, hshort, hwalks⟩ := find_eq_ok_iff.1 hfind
  have hlook := hwalks.look_of_opens hopens hagree hplace hdirectory hlink
  exact locate_eq_ok_iff.2 ⟨hzero, hne, fun hlong => hshort ⟨by decide, hlong⟩, hlook⟩

/-- A file reads back as what was written to it. -/
theorem Keeps.readFile {t₁ : FileTree} {data : Bytes} (h : Keeps t t₁ place data)
    (hcreate : t.createFile here path = .ok (place, t')) (hagree : AgreeExceptAt place t t₁) :
    t₁.readFile here path = .ok data := by
  cases h with
  | new _ h | replaced _ h =>
    rw [FileTree.readFile, locate_of_createFile hcreate hagree h (by simp) (by simp)]

/-- A device is empty to read, whatever was written to it. -/
theorem readFile_sink (hcreate : t.createFile here path = .ok (place, t'))
    (hsink : t.entry? place = some .sink) (data : Bytes) :
    (t.write place data).readFile here path = .ok [] := by
  have hwrite : t.write place data = t := by rw [FileTree.write, hsink]
  rw [hwrite, FileTree.readFile,
    locate_of_createFile hcreate (.refl _ _) hsink (by simp) (by simp)]

end BuildLog.FileTree
