-- SUMMARY: A directory holds Java sources exactly if directories lead down from it to a Java source file, unless the search is refused something.
import BuildLog.FileTree.JavaSources
import BuildLog.Proofs.FileTree.Directory
import BuildLog.Proofs.Success
import BuildLog.Proofs.Text.Places

/-!
# Java sources and the directories that lead to them

The search looks each directory up by its path, and `LeadsToJava` goes down through the entries of
the tree. Both meet where the paths are short enough to be handed over: from a directory that the
search has found, the name of a directory in it leads one step down in either way. A search that
ends with a failure was refused something in a directory that it had come to by such steps.
-/

namespace BuildLog

/-! ## Names of Java source files -/

/-- A name with the extension `java` behind its last full stop, and with something before it. -/
def HasJavaExtension (name : Text) : Prop :=
  ∃ stem, stem ≠ [] ∧ name = stem ++ '.' :: "java".toList

theorem isJavaName_iff {name : Text} : isJavaName name ↔ HasJavaExtension name := by
  have hjava : ¬ ['.'] <:+: "java".toList := by decide
  rw [isJavaName]
  split
  · next stem extension hsplit =>
    have hplace := (Text.splitLast?_eq_some_iff (by simp)).1 hsplit
    rw [Bool.and_eq_true, Bool.not_eq_true', List.isEmpty_eq_false_iff, beq_iff_eq]
    constructor
    · rintro ⟨hstem, rfl⟩
      exact ⟨stem, hstem, by simpa using hplace.eq⟩
    · rintro ⟨stem', hstem, heq⟩
      have hplace' : Text.IsLastPlace (fun _ => true) ['.'] name stem' "java".toList :=
        Text.isLastPlace_iff.2 ⟨by simpa using heq, hjava⟩
      obtain ⟨rfl, rfl⟩ := hplace.unique (by simp) hplace'
      exact ⟨hstem, rfl⟩
  · next hnone =>
    rw [Text.splitLast?_eq_none_iff (by simp)] at hnone
    simp only [Bool.false_eq_true, false_iff]
    rintro ⟨stem, -, heq⟩
    exact hnone stem "java".toList (by simpa using heq) rfl

namespace FileTree

variable {t : FileTree} {refusals : Refusals} {here place : Location} {path : Path} {name : Text}
  {names : List Text} {failure : Failure}

/-! ## Entries of a directory -/

theorem entry?_concat (t : FileTree) (place : Location) (name : Text) :
    t.entry? (place ++ [name]) = t.entries.lookup (place ++ [name]) := by
  cases place <;> rfl

/-- A directory lists the names at which something stands in it. -/
theorem mem_list_iff :
    name ∈ t.list place ↔ IsName name ∧ ∃ e, t.entry? (place ++ [name]) = some e := by
  have hlisted : name ∈ t.list place ↔
      IsName name ∧ ∃ entry ∈ t.entries, place ++ [name] = entry.1 := by
    rw [list, List.mem_filterMap]
    constructor
    · rintro ⟨⟨other, e⟩, hentry, hname⟩
      dsimp only at hname
      split at hname
      · next hother =>
        obtain ⟨hname, hsome⟩ := Option.ite_none_right_eq_some.1 hname
        cases hsome
        exact ⟨isName_iff.1 hname, (other, e), hentry,
          List.isPrefixOf?_eq_some_iff_append_eq.1 hother⟩
      · cases hname
    · rintro ⟨hname, ⟨other, e⟩, hentry, rfl⟩
      have hother : place.isPrefixOf? (place ++ [name]) = some [name] :=
        List.isPrefixOf?_eq_some_iff_append_eq.2 rfl
      refine ⟨(place ++ [name], e), hentry, ?_⟩
      simp only [hother, isName_iff.2 hname, if_true]
  rw [hlisted, entry?_concat, ← Option.isSome_iff_exists, List.lookup_isSome_iff]
  simp only [beq_iff_eq]

/-! ## Descents -/

/-- Directories with these names lead down from a location, and a Java source file stands in the
last of them. Without names it stands in the location itself. -/
inductive LeadsToJava (t : FileTree) : Location → List Text → Prop
  | file {place : Location} {name : Text} {e : Entry} (hname : IsName name)
      (hentry : t.entry? (place ++ [name]) = some e) (hdirectory : e ≠ .directory)
      (hlink : ∀ target, e ≠ .link target) (hjava : HasJavaExtension name) :
      LeadsToJava t place []
  | descend {place : Location} {name : Text} {names : List Text} (hname : IsName name)
      (hentry : t.entry? (place ++ [name]) = some .directory)
      (h : LeadsToJava t (place ++ [name]) names) : LeadsToJava t place (name :: names)

theorem LeadsToJava.congr {t' : FileTree} (htrees : ∀ place, t'.entry? place = t.entry? place)
    (h : LeadsToJava t place names) : LeadsToJava t' place names := by
  induction h with
  | file hname hentry hdirectory hlink hjava =>
    exact .file hname ((htrees _).trans hentry) hdirectory hlink hjava
  | descend hname hentry _ ih => exact .descend hname ((htrees _).trans hentry) ih

theorem not_isLongPath_of_pushAll (hnames : ∀ name ∈ names, '/' ∉ name)
    (h : ¬ isLongPath (path.pushAll names)) : ¬ isLongPath path := by
  induction names generalizing path with
  | nil => exact h
  | cons name names ih =>
    rw [List.forall_mem_cons] at hnames
    exact not_isLongPath_of_push hnames.1 (ih hnames.2 h)

theorem LeadsToJava.no_slash (h : LeadsToJava t place names) : ∀ name ∈ names, '/' ∉ name := by
  induction h with
  | file => simp
  | descend hname _ _ ih => exact List.forall_mem_cons.2 ⟨hname.no_slash, ih⟩

/-! ## Entries in turn -/

section

variable {α : Type} {refusal : Nat → Option SystemError} {read : Nat} {entries : List α}
  {test : α → Except Failure Bool} {found : Bool}

theorem anyEntry_nil (refusal : Nat → Option SystemError) (read : Nat)
    (test : α → Except Failure Bool) :
    anyEntry refusal read [] test =
      match refusal read with
      | some cause => .error (.system cause)
      | none => .ok false := by
  cases hcause : refusal read <;> simp [anyEntry, hcause]

theorem anyEntry_cons (refusal : Nat → Option SystemError) (read : Nat) (e : α) (entries : List α)
    (test : α → Except Failure Bool) :
    anyEntry refusal read (e :: entries) test =
      match refusal read with
      | some cause => .error (.system cause)
      | none =>
        match test e with
        | .ok false => anyEntry refusal (read + 1) entries test
        | outcome => outcome := by
  cases hcause : refusal read with
  | some cause => simp [anyEntry, hcause]
  | none =>
    cases htest : test e with
    | ok found => cases found <;> simp [anyEntry, hcause, htest]
    | error failure => simp [anyEntry, hcause, htest]

theorem anyEntry_map {β : Type} (f : β → α) (refusal : Nat → Option SystemError) (read : Nat)
    (entries : List β) (test : α → Except Failure Bool) :
    anyEntry refusal read (entries.map f) test = anyEntry refusal read entries (test ∘ f) := by
  induction entries generalizing read with
  | nil => rw [List.map_nil, anyEntry_nil, anyEntry_nil]
  | cons e entries ih =>
    rw [List.map_cons, anyEntry_cons, anyEntry_cons, ih]
    rfl

/-- The entries end in the truth value of the first one that is true, or in false. -/
theorem anyEntry_eq_ok (h : anyEntry refusal read entries test = .ok found) :
    if found then ∃ e ∈ entries, test e = .ok true else ∀ e ∈ entries, test e = .ok false := by
  induction entries generalizing read with
  | nil =>
    rw [anyEntry_nil] at h
    split at h
    · cases h
    · cases h
      simp
  | cons e entries ih =>
    rw [anyEntry_cons] at h
    split at h
    · cases h
    · split at h
      · next htest =>
        have hrest := ih h
        cases found with
        | true =>
          obtain ⟨e', he', htest'⟩ := hrest
          exact ⟨e', List.mem_cons_of_mem e he', htest'⟩
        | false => exact List.forall_mem_cons.2 ⟨htest, hrest⟩
      · next htest =>
        cases found with
        | true => exact ⟨e, List.mem_cons_self, h⟩
        | false => exact absurd h htest

/-- A failure is that of an entry, or of reading on. -/
theorem anyEntry_eq_error (h : anyEntry refusal read entries test = .error failure) :
    (∃ n cause, refusal n = some cause ∧ failure = .system cause) ∨
      ∃ e ∈ entries, test e = .error failure := by
  induction entries generalizing read with
  | nil =>
    rw [anyEntry_nil] at h
    split at h
    · next cause hcause =>
      cases h
      exact .inl ⟨read, cause, hcause, rfl⟩
    · cases h
  | cons e entries ih =>
    rw [anyEntry_cons] at h
    split at h
    · next cause hcause =>
      cases h
      exact .inl ⟨read, cause, hcause, rfl⟩
    · split at h
      · rcases ih h with hread | ⟨e', he', htest⟩
        · exact .inl hread
        · exact .inr ⟨e', List.mem_cons_of_mem e he', htest⟩
      · exact .inr ⟨e, List.mem_cons_self, h⟩

end

/-! ## The search -/

/-- What the search finds at an entry of the directory at a location, which has a path. -/
def atEntry (t : FileTree) (refusals : Refusals) (here : Location) (path : Path) (place : Location)
    (name : Text) : Except Failure Bool :=
  match refusals.kind (path.push ⟨name⟩) with
  | some cause => .error (.system cause)
  | none =>
    match t.entry? (place ++ [name]) with
    | none | some (.link _) => .ok false
    | some .directory => t.hasJavaSources refusals here (path.push ⟨name⟩)
    | some _ => .ok (isJavaName name)

theorem hasJavaSources_eq (hplace : t.directoryAt here path = .ok place) :
    t.hasJavaSources refusals here path =
      match refusals.directory path with
      | some cause => .error (.file path cause)
      | none =>
        anyEntry (refusals.entry path) 0 (t.list place) (t.atEntry refusals here path place) := by
  rw [hasJavaSources]
  split
  · next hplace' => cases hplace.symm.trans hplace'
  · next place' hplace' =>
    cases hplace.symm.trans hplace'
    cases refusals.directory path with
    | some cause => rfl
    | none =>
      have hattach := anyEntry_map Subtype.val (refusals.entry path) 0 (t.list place).attach
        (t.atEntry refusals here path place)
      rw [List.attach_map_subtype_val] at hattach
      exact hattach.symm

theorem atEntry_eq_ok {e : Entry} {found : Bool} (hentry : t.entry? (place ++ [name]) = some e)
    (h : t.atEntry refusals here path place name = .ok found) :
    (e = .directory ∧ t.hasJavaSources refusals here (path.push ⟨name⟩) = .ok found) ∨
      (e ≠ .directory ∧ (found ↔ (∀ target, e ≠ .link target) ∧ HasJavaExtension name)) := by
  rw [atEntry, hentry] at h
  split at h
  · cases h
  · cases e with
    | directory => exact .inl ⟨rfl, h⟩
    | link target =>
      cases h
      exact .inr ⟨by simp, by simp⟩
    | file | sink =>
      cases h
      exact .inr ⟨by simp, by simp [isJavaName_iff]⟩

theorem exists_directoryAt_of_hasJavaSources
    (h : t.hasJavaSources refusals here path ≠ .ok false) :
    ∃ place, t.directoryAt here path = .ok place := by
  rw [hasJavaSources] at h
  split at h
  · exact absurd rfl h
  · next place hplace => exact ⟨place, hplace⟩

/-- A search with a truth value read all entries up to the one that decided it. -/
theorem anyEntry_of_hasJavaSources {found : Bool} (hplace : t.directoryAt here path = .ok place)
    (h : t.hasJavaSources refusals here path = .ok found) :
    anyEntry (refusals.entry path) 0 (t.list place) (t.atEntry refusals here path place) =
      .ok found := by
  rw [hasJavaSources_eq hplace] at h
  split at h
  · cases h
  · exact h

/-- What the search finds can be reached through directories. -/
theorem exists_leadsToJava (h : t.hasJavaSources refusals here path = .ok true)
    (hplace : t.directoryAt here path = .ok place) :
    ∃ names, LeadsToJava t place names ∧ ¬ isLongPath (path.pushAll names) := by
  induction path using FileTree.hasJavaSources.induct t refusals here generalizing place with
  | case1 path e herror => cases hplace.symm.trans herror
  | case2 path place' hplace' cause hcause =>
    rw [hasJavaSources_eq hplace', hcause] at h
    cases h
  | case3 path place' hplace' _ ih =>
    cases hplace.symm.trans hplace'
    obtain ⟨name, hmem, hfound⟩ := anyEntry_eq_ok (anyEntry_of_hasJavaSources hplace h)
    obtain ⟨hname, e, hentry⟩ := mem_list_iff.1 hmem
    obtain ⟨rfl, hsources⟩ | ⟨hdirectory, hjava⟩ := atEntry_eq_ok hentry hfound
    · obtain ⟨below, hbelow⟩ :=
        exists_directoryAt_of_hasJavaSources (by rw [hsources]; simp)
      have hshort := not_isLongPath_of_directoryAt hbelow
      obtain ⟨names, hleads, hlong⟩ := ih name hmem hsources
        (directoryAt_push_of_entry hname hplace hshort hentry)
      exact ⟨name :: names, .descend hname hentry hleads, hlong⟩
    · obtain ⟨hlink, hjava⟩ := hjava.1 rfl
      exact ⟨[], .file hname hentry hdirectory hlink hjava, not_isLongPath_of_directoryAt hplace⟩

/-- The search follows directories down as long as their paths are short enough. -/
theorem hasJavaSources_ne_false (h : LeadsToJava t place names)
    (hplace : t.directoryAt here path = .ok place) (hshort : ¬ isLongPath (path.pushAll names)) :
    t.hasJavaSources refusals here path ≠ .ok false := by
  induction h generalizing path with
  | file hname hentry hdirectory hlink hjava =>
    intro hnone
    have hall := anyEntry_eq_ok (anyEntry_of_hasJavaSources hplace hnone)
    obtain ⟨hdirectory', -⟩ | ⟨-, hnot⟩ :=
      atEntry_eq_ok hentry (hall _ (mem_list_iff.2 ⟨hname, _, hentry⟩))
    · exact hdirectory hdirectory'
    · cases hnot.2 ⟨hlink, hjava⟩
  | descend hname hentry h ih =>
    intro hnone
    have hall := anyEntry_eq_ok (anyEntry_of_hasJavaSources hplace hnone)
    have hbelow := directoryAt_push_of_entry hname hplace
      (not_isLongPath_of_pushAll h.no_slash hshort) hentry
    obtain ⟨-, hsources⟩ | ⟨hdirectory, -⟩ :=
      atEntry_eq_ok hentry (hall _ (mem_list_iff.2 ⟨hname, _, hentry⟩))
    · exact ih hbelow hshort hsources
    · exact hdirectory rfl

/-- Directories with short paths lead down from the path to a Java source file. -/
def ReachesJava (t : FileTree) (here : Location) (path : Path) : Prop :=
  ∃ place names, t.directoryAt here path = .ok place ∧ LeadsToJava t place names ∧
    ¬ isLongPath (path.pushAll names)

theorem hasJavaSources_iff {found : Bool}
    (h : t.hasJavaSources refusals here path = .ok found) :
    found ↔ t.ReachesJava here path := by
  constructor
  · rintro rfl
    obtain ⟨place, hplace⟩ := exists_directoryAt_of_hasJavaSources (by rw [h]; simp)
    obtain ⟨names, hleads, hshort⟩ := exists_leadsToJava h hplace
    exact ⟨place, names, hplace, hleads, hshort⟩
  · rintro ⟨place, names, hplace, hleads, hshort⟩
    cases found with
    | true => rfl
    | false => exact absurd h (hasJavaSources_ne_false hleads hplace hshort)

theorem ReachesJava.congr {t' : FileTree} (htrees : ∀ place, t'.entry? place = t.entry? place)
    (h : t.ReachesJava here path) : t'.ReachesJava here path := by
  obtain ⟨place, names, hplace, hleads, hshort⟩ := h
  exact ⟨place, names, directoryAt_congr htrees hplace, hleads.congr htrees, hshort⟩

/-! ## Failures -/

/-- Directories lead down from a path to where something is refused: a directory, an entry of it or
the kind of an entry. -/
inductive Refuses (t : FileTree) (refusals : Refusals) : Path → Location → Failure → Prop
  | directory {path : Path} {place : Location} {cause : SystemError}
      (h : refusals.directory path = some cause) : Refuses t refusals path place (.file path cause)
  | entry {path : Path} {place : Location} {read : Nat} {cause : SystemError}
      (h : refusals.entry path read = some cause) : Refuses t refusals path place (.system cause)
  | kind {path : Path} {place : Location} {name : Text} {e : Entry} {cause : SystemError}
      (hname : IsName name) (hentry : t.entry? (place ++ [name]) = some e)
      (h : refusals.kind (path.push ⟨name⟩) = some cause) :
      Refuses t refusals path place (.system cause)
  | descend {path : Path} {place : Location} {name : Text} {failure : Failure}
      (hname : IsName name) (hentry : t.entry? (place ++ [name]) = some .directory)
      (h : Refuses t refusals (path.push ⟨name⟩) (place ++ [name]) failure) :
      Refuses t refusals path place failure

theorem atEntry_eq_error {e : Entry} (hentry : t.entry? (place ++ [name]) = some e)
    (h : t.atEntry refusals here path place name = .error failure) :
    (∃ cause, refusals.kind (path.push ⟨name⟩) = some cause ∧ failure = .system cause) ∨
      e = .directory ∧ t.hasJavaSources refusals here (path.push ⟨name⟩) = .error failure := by
  rw [atEntry, hentry] at h
  split at h
  · next cause hcause =>
    cases h
    exact .inl ⟨cause, hcause, rfl⟩
  · cases e with
    | directory => exact .inr ⟨rfl, h⟩
    | link | file | sink => cases h

theorem refuses_of_hasJavaSources (h : t.hasJavaSources refusals here path = .error failure)
    (hplace : t.directoryAt here path = .ok place) : Refuses t refusals path place failure := by
  induction path using FileTree.hasJavaSources.induct t refusals here generalizing place with
  | case1 path e herror => cases hplace.symm.trans herror
  | case2 path place' hplace' cause hcause =>
    rw [hasJavaSources_eq hplace', hcause] at h
    cases h
    exact .directory hcause
  | case3 path place' hplace' hopen ih =>
    cases hplace.symm.trans hplace'
    rw [hasJavaSources_eq hplace, hopen] at h
    rcases anyEntry_eq_error h with ⟨n, cause, hcause, rfl⟩ | ⟨name, hmem, hentryError⟩
    · exact .entry hcause
    · obtain ⟨hname, e, hentry⟩ := mem_list_iff.1 hmem
      rcases atEntry_eq_error hentry hentryError with ⟨cause, hcause, rfl⟩ | ⟨rfl, hbelowError⟩
      · exact .kind hname hentry hcause
      · obtain ⟨below, hbelow⟩ :=
          exists_directoryAt_of_hasJavaSources (by rw [hbelowError]; simp)
        have hshort := not_isLongPath_of_directoryAt hbelow
        exact .descend hname hentry
          (ih name hmem hbelowError (directoryAt_push_of_entry hname hplace hshort hentry))

theorem not_refuses_none : ¬ Refuses t .none path place failure := by
  intro h
  induction h with
  | directory h | entry h | kind _ _ h => cases h
  | descend _ _ _ ih => exact ih

/-- If nothing is refused, the search ends with a truth value. -/
theorem exists_hasJavaSources_none (t : FileTree) (here : Location) (path : Path) :
    ∃ found, t.hasJavaSources .none here path = .ok found := by
  cases hsources : t.hasJavaSources .none here path with
  | ok found => exact ⟨found, rfl⟩
  | error failure =>
    obtain ⟨place, hplace⟩ := exists_directoryAt_of_hasJavaSources (by rw [hsources]; simp)
    exact absurd (refuses_of_hasJavaSources hsources hplace) not_refuses_none

theorem hasJavaSources_congr {t' : FileTree} (htrees : ∀ place, t'.entry? place = t.entry? place)
    (path : Path) : t'.hasJavaSources .none here path = t.hasJavaSources .none here path := by
  obtain ⟨found, hfound⟩ := exists_hasJavaSources_none t here path
  obtain ⟨found', hfound'⟩ := exists_hasJavaSources_none t' here path
  have hreaches : t'.ReachesJava here path ↔ t.ReachesJava here path :=
    ⟨.congr fun place => (htrees place).symm, .congr htrees⟩
  rw [hfound, hfound', Except.ok.injEq, Bool.eq_iff_iff, hasJavaSources_iff hfound,
    hasJavaSources_iff hfound', hreaches]

/-! ## Records whose task has sources -/

section

variable {project : Path} {r : Record} {records kept : List Record}

theorem hasSourcesOf_eq_error_iff :
    t.hasSourcesOf refusals here project r = .error failure ↔
      ∃ directory, SourceSet.directory? project r.name = some directory ∧
        t.hasJavaSources refusals here directory = .error failure := by
  rw [hasSourcesOf]
  cases SourceSet.directory? project r.name <;> simp

theorem exists_hasSourcesOf_iff :
    (∃ found, t.hasSourcesOf refusals here project r = .ok found) ↔
      ∀ directory, SourceSet.directory? project r.name = some directory →
        ∃ found, t.hasJavaSources refusals here directory = .ok found := by
  rw [hasSourcesOf]
  cases SourceSet.directory? project r.name <;> simp

theorem hasSourcesOf_eq_true (t : FileTree) (refusals : Refusals) (here : Location)
    (project : Path) (r : Record) :
    decide (t.hasSourcesOf refusals here project r = .ok true) =
      (SourceSet.directory? project r.name).any fun directory =>
        t.hasJavaSources refusals here directory = .ok true := by
  rw [hasSourcesOf]
  cases SourceSet.directory? project r.name <;> simp

theorem retainWithSources_nil : t.retainWithSources refusals here project [] = .ok [] := rfl

theorem retainWithSources_cons (r : Record) (records : List Record) :
    t.retainWithSources refusals here project (r :: records) = (do
      let found ← t.hasSourcesOf refusals here project r
      let kept ← t.retainWithSources refusals here project records
      return if found then r :: kept else kept) := by
  simp only [retainWithSources, List.mapM_cons, bind_assoc, pure_bind]
  refine bind_congr fun found => bind_congr fun checked => ?_
  cases found <;> rfl

/-- Records are left out only once all of them were looked at. -/
theorem retainWithSources_eq_ok_iff :
    t.retainWithSources refusals here project records = .ok kept ↔
      (∀ r ∈ records, ∃ found, t.hasSourcesOf refusals here project r = .ok found) ∧
        kept = records.filter fun r => t.hasSourcesOf refusals here project r = .ok true := by
  induction records generalizing kept with
  | nil => simp [retainWithSources_nil, eq_comm]
  | cons r records ih =>
    rw [retainWithSources_cons, bind_eq_ok, List.forall_mem_cons]
    simp only [bind_eq_ok, ih]
    constructor
    · rintro ⟨found, hfound, _, ⟨hall, rfl⟩, heq⟩
      cases heq
      refine ⟨⟨⟨found, hfound⟩, hall⟩, ?_⟩
      cases found <;> simp [hfound]
    · rintro ⟨⟨⟨found, hfound⟩, hall⟩, rfl⟩
      refine ⟨found, hfound, _, ⟨hall, rfl⟩, ?_⟩
      cases found <;> simp [hfound, pure, Except.pure]

theorem retainWithSources_eq_ok_iff_directory :
    t.retainWithSources refusals here project records = .ok kept ↔
      (∀ r ∈ records, ∀ directory, SourceSet.directory? project r.name = some directory →
        ∃ found, t.hasJavaSources refusals here directory = .ok found) ∧
      kept = records.filter fun r => (SourceSet.directory? project r.name).any fun directory =>
        t.hasJavaSources refusals here directory = .ok true := by
  simp only [retainWithSources_eq_ok_iff, exists_hasSourcesOf_iff, hasSourcesOf_eq_true]

theorem exists_of_retainWithSources_eq_error
    (h : t.retainWithSources refusals here project records = .error failure) :
    ∃ r ∈ records, t.hasSourcesOf refusals here project r = .error failure := by
  induction records with
  | nil => cases h
  | cons r records ih =>
    rw [retainWithSources_cons] at h
    rcases bind_eq_error.1 h with h | ⟨found, -, h⟩
    · exact ⟨r, List.mem_cons_self, h⟩
    · rcases bind_eq_error.1 h with h | ⟨kept, -, h⟩
      · obtain ⟨r', hr', h⟩ := ih h
        exact ⟨r', List.mem_cons_of_mem r hr', h⟩
      · cases h

end

/-! ## Entries in another order -/

theorem lookup_eq_some_iff_mem {entries : List (Location × Entry)} {e : Entry}
    (hnodup : (entries.map (·.1)).Nodup) :
    entries.lookup place = some e ↔ (place, e) ∈ entries := by
  induction entries with
  | nil => simp
  | cons entry entries ih =>
    obtain ⟨other, e'⟩ := entry
    obtain ⟨hother, hnodup⟩ := List.nodup_cons.1 hnodup
    rw [List.lookup_cons, List.mem_cons, Prod.mk.injEq]
    by_cases hplace : place = other
    · subst hplace
      have hmem : (place, e) ∉ entries := fun hmem => hother (List.mem_map.2 ⟨_, hmem, rfl⟩)
      simp [hmem, eq_comm]
    · rw [beq_eq_false_iff_ne.2 hplace]
      simp [hplace, ih hnodup]

/-- Trees that list the same in another order hold the same, if they list no location twice. -/
theorem entry?_eq_of_perm {t' : FileTree} (hperm : t'.entries.Perm t.entries)
    (hnodup : (t.entries.map (·.1)).Nodup) (place : Location) :
    t'.entry? place = t.entry? place := by
  cases place with
  | nil => rfl
  | cons name names =>
    refine Option.ext fun e => ?_
    have hnodup' : (t'.entries.map (·.1)).Nodup := (hperm.map _).nodup_iff.2 hnodup
    exact (lookup_eq_some_iff_mem hnodup').trans
      (hperm.mem_iff.trans (lookup_eq_some_iff_mem hnodup).symm)

/-! ## A path with many slashes -/

/-- A Java source file in a directory in a directory. -/
def nested : FileTree where
  entries := [(["p".toList], .directory), (["p".toList, "d".toList], .directory),
    (["p".toList, "d".toList, "A.java".toList], .file false [])]

theorem leadsToJava_nested : LeadsToJava nested ["p".toList] ["d".toList] :=
  .descend (by decide) rfl <|
    .file (by decide) rfl (by decide) (by simp) ⟨['A'], by decide, rfl⟩

/-- A path to the outer directory, with slashes behind its name. -/
def slashed (slashes : Nat) : Path :=
  ⟨"p".toList ++ List.replicate slashes '/'⟩

theorem byteLength_slashed (slashes : Nat) : byteLength (slashed slashes).text = slashes + 1 := by
  have hslashes : byteLength (List.replicate slashes '/') = slashes := by
    induction slashes with
    | zero => rfl
    | succ slashes ih =>
      rw [List.replicate_succ', byteLength_append, ih]
      rfl
  rw [slashed, byteLength_append, hslashes, Nat.add_comm]
  rfl

theorem names_slashed (slashes : Nat) : (slashed slashes).names = ["p".toList] := by
  induction slashes with
  | zero => rfl
  | succ slashes ih =>
    rw [slashed, List.replicate_succ', ← List.append_assoc, Path.names_append_slash]
    exact congrArg (· ++ []) ih

theorem directoryAt_slashed (slashes : Nat) (hshort : slashes < pathLimit) :
    nested.directoryAt [] (slashed slashes) = .ok ["p".toList] := by
  have hzero : '\x00' ∉ (slashed slashes).text := by
    simp [slashed]
  have hpath : ¬ isLongPath (slashed slashes) := by
    rw [isLongPath, decide_eq_true_iff, byteLength_slashed]
    exact Nat.not_lt.2 hshort
  have hname : IsName "p".toList := by decide
  have hwalks : Walks nested .look linkLimit [] (slashed slashes).components
      (.entry ["p".toList] .directory) := by
    rw [Path.components, names_slashed]
    split
    · exact .enter (hname.isLookedUp (by decide) (by simp)) rfl (.stay (.inl rfl) (.arrived _ _))
    · exact .enter (hname.isLookedUp (by decide) (by simp)) rfl (.arrived _ _)
  have habsolute : ¬ (slashed slashes).isAbsolute := by
    simp [slashed, Path.isAbsolute]
  rw [directoryAt_eq_ok_iff, locate_eq_ok_iff, if_neg habsolute]
  exact ⟨hzero, by simp [slashed], hpath, hwalks⟩

/-! ## The search and the descents -/

/-- A search that ends with a truth value finds Java sources exactly if its path leads to a
directory from which directories lead down to a Java source file, the path of each of them short
enough. A search that ends with a failure was refused something on its way. If nothing is refused,
the search is right about the tree exactly if some descent to a Java source file is short, when
there is one at all, and in which order a tree lists what it holds does not matter. The records
kept are those whose task compiles a directory with Java sources. -/
theorem hasJavaSources_descent (t : FileTree) (refusals : Refusals) (here : Location) :
    (∀ path found, t.hasJavaSources refusals here path = .ok found →
      (found ↔ t.ReachesJava here path)) ∧
    (∀ path failure, t.hasJavaSources refusals here path = .error failure →
      ∃ place, t.directoryAt here path = .ok place ∧ Refuses t refusals path place failure) ∧
    (∀ path, ∃ found, t.hasJavaSources .none here path = .ok found ∧
      ((found ↔ ∃ place names, t.directoryAt here path = .ok place ∧ LeadsToJava t place names) ↔
        ∀ place names, t.directoryAt here path = .ok place → LeadsToJava t place names →
          ∃ names', LeadsToJava t place names' ∧ ¬ isLongPath (path.pushAll names'))) ∧
    (∀ t' : FileTree, (∀ place, t'.entry? place = t.entry? place) → ∀ path,
      t'.hasJavaSources .none here path = t.hasJavaSources .none here path) ∧
    ∀ project records,
      (∀ kept, t.retainWithSources refusals here project records = .ok kept ↔
        (∀ r ∈ records, ∀ directory, SourceSet.directory? project r.name = some directory →
          ∃ found, t.hasJavaSources refusals here directory = .ok found) ∧
        kept = records.filter fun r => (SourceSet.directory? project r.name).any fun directory =>
          t.hasJavaSources refusals here directory = .ok true) ∧
      ∀ failure, t.retainWithSources refusals here project records = .error failure →
        ∃ r ∈ records, ∃ directory, SourceSet.directory? project r.name = some directory ∧
          t.hasJavaSources refusals here directory = .error failure := by
  refine ⟨fun _ _ => hasJavaSources_iff, ?_, ?_, fun t' => hasJavaSources_congr, ?_⟩
  · intro path failure h
    obtain ⟨place, hplace⟩ := exists_directoryAt_of_hasJavaSources (by rw [h]; simp)
    exact ⟨place, hplace, refuses_of_hasJavaSources h hplace⟩
  · intro path
    obtain ⟨found, hfound⟩ := exists_hasJavaSources_none t here path
    refine ⟨found, hfound, ?_⟩
    rw [hasJavaSources_iff hfound]
    constructor
    · intro hdescent place names hplace hleads
      obtain ⟨place', names', hplace', hleads', hshort⟩ := hdescent.2 ⟨place, names, hplace, hleads⟩
      cases hplace.symm.trans hplace'
      exact ⟨names', hleads', hshort⟩
    · intro hshort
      constructor
      · rintro ⟨place, names, hplace, hleads, -⟩
        exact ⟨place, names, hplace, hleads⟩
      · rintro ⟨place, names, hplace, hleads⟩
        obtain ⟨names', hleads', hshort'⟩ := hshort place names hplace hleads
        exact ⟨place, names', hplace, hleads', hshort'⟩
  · intro project records
    refine ⟨fun _ => retainWithSources_eq_ok_iff_directory, fun failure h => ?_⟩
    obtain ⟨r, hr, hfailure⟩ := exists_of_retainWithSources_eq_error h
    exact ⟨r, hr, hasSourcesOf_eq_error_iff.1 hfailure⟩

theorem hasJavaSources_descent_reverse :
    nested.hasJavaSources .none [] (slashed 0) = .ok true ∧
      FileTree.hasJavaSources ⟨nested.entries.reverse, by decide⟩ .none [] (slashed 0) =
        .ok true := by
  have hplace := directoryAt_slashed 0 (by decide)
  have hreaches : nested.ReachesJava [] (slashed 0) :=
    ⟨_, _, hplace, leadsToJava_nested, by decide⟩
  obtain ⟨hsearch, -, hends, horder, -⟩ := hasJavaSources_descent nested .none []
  obtain ⟨found, hfound, -⟩ := hends (slashed 0)
  obtain rfl := (hsearch _ _ hfound).2 hreaches
  have hreverse := horder ⟨nested.entries.reverse, by decide⟩
    (entry?_eq_of_perm (List.reverse_perm _) (by decide)) (slashed 0)
  exact ⟨hfound, hreverse.trans hfound⟩

/-- The search does not enter a directory by a path that is too long. -/
theorem hasJavaSources_long_path :
    ¬ (nested.hasJavaSources .none [] (slashed 4094) = .ok true ↔ ∃ place names,
      nested.directoryAt [] (slashed 4094) = .ok place ∧ LeadsToJava nested place names) := by
  intro hdescent
  have hplace := directoryAt_slashed 4094 (by decide)
  have hsources := hdescent.2 ⟨_, _, hplace, leadsToJava_nested⟩
  obtain ⟨names, hleads, hshort⟩ := exists_leadsToJava hsources hplace
  cases hleads with
  | file hname hentry hdirectory =>
    -- The directory holds another directory only.
    have hmem := (lookup_eq_some_iff_mem (by decide)).1 hentry
    simp [nested, hdirectory] at hmem
  | @descend _ name names hname hentry h =>
    have hpush := not_isLongPath_of_pushAll h.no_slash hshort
    have hlt := byteLength_lt_push (isName_iff.2 hname) (slashed 4094)
    rw [byteLength_slashed] at hlt
    rw [isLongPath, decide_eq_true_iff, Nat.not_lt] at hpush
    exact absurd (Nat.lt_of_lt_of_le hlt hpush) (by decide)

end FileTree

end BuildLog
