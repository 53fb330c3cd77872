-- SUMMARY: Where a path with one more name leads, and that no link there means right there.
import BuildLog.Proofs.FileTree.Written

/-!
# The last name of a path

A walk along a path with one more name first arrives in the directory that the path leads to, and
the last name is looked up there. Unless a link has that name, the walk ends right below the
directory. Names are looked up if they lead down, and the names of a location do.
-/

namespace BuildLog.FileTree

variable {t : FileTree} {purpose : Purpose} {links : Nat} {here place : Location} {name : Text}
  {names : List Text} {found : Found} {e : Entry} {path : Path}

/-! ## Names that lead down -/

/-- A name between slashes that is looked up in a directory. -/
structure IsStep (name : Text) : Prop where
  ne_stay : ¬ IsStay name
  ne_up : name ≠ "..".toList
  no_slash : '/' ∉ name

theorem IsStep.ne_nil (h : IsStep name) : name ≠ [] :=
  fun hname => h.ne_stay (.inl hname)

theorem IsName.isStep (h : IsName name) : IsStep name :=
  ⟨h.ne_stay, h.ne_up, h.no_slash⟩

/-- A walk along names between slashes ends at a location whose names lead down. -/
theorem Walks.isStep (h : Walks t purpose links here names (.entry place e))
    (hhere : ∀ name ∈ here, IsStep name) (hnames : ∀ name ∈ names, '/' ∉ name) :
    ∀ name ∈ place, IsStep name := by
  generalize hfound : Found.entry place e = found at h
  have hconcat : ∀ {here : Location} {name : Text} {rest : List Text},
      (∀ name ∈ here, IsStep name) → IsLookedUp purpose here name rest → '/' ∉ name →
      ∀ other ∈ here ++ [name], IsStep other := by
    intro here name rest hhere hname hslash
    rw [List.forall_mem_append, List.forall_mem_singleton]
    exact ⟨hhere, hname.ne_stay, hname.ne_up, hslash⟩
  induction h with
  | arrived =>
    cases hfound
    exact hhere
  | stay _ _ ih => exact ih hhere (List.forall_mem_cons.1 hnames).2 hfound
  | up _ ih =>
    refine ih (fun name hname => hhere name ?_) (List.forall_mem_cons.1 hnames).2 hfound
    exact (List.dropLast_sublist _).subset hname
  | enter hname _ _ ih =>
    obtain ⟨hslash, hrest⟩ := List.forall_mem_cons.1 hnames
    exact ih (hconcat hhere hname hslash) hrest hfound
  | @follow _ here _ _ _ target _ _ _ _ ih =>
    refine ih ?_ ?_ hfound
    · split
      · simp
      · exact hhere
    · rw [List.forall_mem_append]
      exact ⟨fun name => Path.slash_not_mem_of_mem_components, (List.forall_mem_cons.1 hnames).2⟩
  | inTheWay hname | reached hname =>
    cases hfound
    exact hconcat hhere hname (List.forall_mem_cons.1 hnames).1
  | free => cases hfound

theorem isStep_of_resolve (hhere : ∀ name ∈ here, IsStep name)
    (h : t.resolve here path = .ok place) : ∀ name ∈ place, IsStep name := by
  obtain ⟨e, hfind⟩ := resolve_eq_ok_iff.1 h
  obtain ⟨-, -, -, hwalks⟩ := find_eq_ok_iff.1 hfind
  refine hwalks.isStep ?_ fun name => Path.slash_not_mem_of_mem_components
  split
  · simp
  · exact hhere

/-! ## The last name of a walk -/

/-- A walk arrives in the directory where its last name is looked up. -/
theorem Walks.split_last (h : Walks t purpose links here (names ++ [name]) found) :
    ∃ place spare, Walks t .look links here names (.entry place .directory) ∧
      Walks t purpose spare place [name] found := by
  generalize hall : names ++ [name] = all at h
  induction h generalizing names with
  | arrived => simp at hall
  | stay hname h ih =>
    cases names with
    | nil =>
      cases hall
      exact ⟨_, _, .arrived .., .stay hname h⟩
    | cons =>
      cases hall
      obtain ⟨place, spare, hnames, hlast⟩ := ih rfl
      exact ⟨place, spare, .stay hname hnames, hlast⟩
  | up h ih =>
    cases names with
    | nil =>
      cases hall
      exact ⟨_, _, .arrived .., .up h⟩
    | cons =>
      cases hall
      obtain ⟨place, spare, hnames, hlast⟩ := ih rfl
      exact ⟨place, spare, .up hnames, hlast⟩
  | enter hname hentry h ih =>
    cases names with
    | nil =>
      cases hall
      exact ⟨_, _, .arrived .., .enter hname hentry h⟩
    | cons =>
      cases hall
      obtain ⟨place, spare, hnames, hlast⟩ := ih rfl
      exact ⟨place, spare, .enter hname.look hentry hnames, hlast⟩
  | follow hname hentry hmake h ih =>
    cases names with
    | nil =>
      cases hall
      exact ⟨_, _, .arrived .., .follow hname hentry hmake h⟩
    | cons =>
      cases hall
      obtain ⟨place, spare, hnames, hlast⟩ := ih (List.append_assoc ..)
      exact ⟨place, spare, .follow hname.look hentry (by simp) hnames, hlast⟩
  | @inTheWay links _ _ _ hname hentry hmake =>
    obtain ⟨rfl, ⟨⟩⟩ := (List.append_eq_singleton_iff.1 hall).resolve_right (by simp)
    exact ⟨_, links, .arrived .., .inTheWay hname hentry hmake⟩
  | @free links _ _ hname hentry =>
    obtain ⟨rfl, ⟨⟩⟩ := (List.append_eq_singleton_iff.1 hall).resolve_right (by simp)
    exact ⟨_, links, .arrived .., .free hname hentry⟩
  | @reached links _ _ _ hname hentry hdirectory hlink =>
    obtain ⟨rfl, ⟨⟩⟩ := (List.append_eq_singleton_iff.1 hall).resolve_right (by simp)
    exact ⟨_, links, .arrived .., .reached hname hentry hdirectory hlink⟩

/-- A walk along one name ends right below the directory where it starts, unless a link has that
name. -/
theorem Walks.right_below (h : Walks t purpose links here [name] found) (hname : IsStep name)
    (hlink : ∀ target, t.entry? (here ++ [name]) ≠ some (.link target)) :
    (∃ e, found = .entry (here ++ [name]) e) ∨ found = .free (here ++ [name]) := by
  cases h with
  | stay hstay => exact absurd hstay hname.ne_stay
  | up => exact absurd rfl hname.ne_up
  | enter _ _ h =>
    cases h
    exact .inl ⟨_, rfl⟩
  | follow _ hentry => exact absurd hentry (hlink _)
  | inTheWay | reached => exact .inl ⟨_, rfl⟩
  | free => exact .inr rfl

/-! ## The last name of a path -/

theorem find_of_directoryAt (h : t.directoryAt here path = .ok place) :
    t.find .look here path = .ok (.entry place .directory) := by
  obtain ⟨hzero, hne, hshort, hwalks⟩ := locate_eq_ok_iff.1 (directoryAt_eq_ok_iff.1 h)
  exact find_eq_ok_iff.2 ⟨hzero, hne, fun hlong => hshort hlong.2, hwalks⟩

/-- A path with one more name leads through the directory that the path leads to. -/
theorem exists_walks_of_find_push (hpath : path.text ≠ []) (hname : IsStep name)
    (hpurpose : purpose ≠ .resolve) (h : t.find purpose here (path.push ⟨name⟩) = .ok found) :
    ∃ place spare, t.directoryAt here path = .ok place ∧
      Walks t purpose spare place [name] found := by
  obtain ⟨hzero, -, hshort, hwalks⟩ := find_eq_ok_iff.1 h
  rw [Path.isAbsolute_push hpath hname.no_slash,
    Path.components_push hname.ne_nil hname.no_slash] at hwalks
  obtain ⟨place, spare, hnames, hlast⟩ := hwalks.split_last
  refine ⟨place, spare, directoryAt_eq_ok_iff.2 (locate_eq_ok_iff.2 ⟨?_, hpath, ?_, ?_⟩), hlast⟩
  · rw [Path.push_name hname.no_slash] at hzero
    exact fun hmem => hzero (List.mem_append_left _ hmem)
  · exact not_isLongPath_of_push hname.no_slash fun hlong => hshort ⟨hpurpose, hlong⟩
  · by_cases hend : path.endsInSlash
    · obtain ⟨spare, -, hwalk⟩ := hnames.append
      rw [Path.components, if_pos hend, ← walk_eq_ok_iff, hwalk, walk_stay (.inl rfl), walk_nil]
    · rwa [Path.components, if_neg hend]

/-! ## Directories without links -/

/-- At the directory that the path leads to, and below it, there are no links. -/
def HasNoLinksBelow (t : FileTree) (here : Location) (path : Path) : Prop :=
  ∀ top, t.directoryAt here path = .ok top →
    ∀ place target, top <+: place → t.entry? place ≠ some (.link target)

theorem hasNoLinksBelow_of_entries
    (h : ∀ entry ∈ t.entries, ∀ target, entry.2 ≠ .link target) :
    HasNoLinksBelow t here path := by
  intro top _ place target _ hentry
  cases place with
  | nil => cases hentry
  | cons name names =>
    obtain ⟨ahead, behind, hentries, -⟩ := List.lookup_eq_some_iff.1 hentry
    exact h (name :: names, .link target) (by simp [hentries]) target rfl

end BuildLog.FileTree
