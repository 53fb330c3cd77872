-- SUMMARY: The steps of a walk that ends well, one rule for each, and walks that go on where another one ended.
import BuildLog.FileTree

/-!
# Walks that end well

`Walks` holds of a walk that ends at an entry or at a free name. It has one rule for each kind of
step, so what walks have in common is proved by one case for each rule. A walk with more links
to spare ends at the same place. A walk along more names goes on from the directory where the
walk along the first names ends.
-/

namespace BuildLog.FileTree

variable {t : FileTree} {purpose : Purpose} {links : Nat} {here place : Location} {name : Text}
  {rest names : List Text} {found : Found}

/-! ## Steps -/

/-- A name that stays in the directory. -/
def IsStay (name : Text) : Prop := name = [] ∨ name = ".".toList

instance : DecidablePred IsStay := fun _ => instDecidableOr

/-- A name that is looked up in the directory, with `rest` behind it. -/
structure IsLookedUp (purpose : Purpose) (here : Location) (name : Text) (rest : List Text) :
    Prop where
  ne_stay : ¬ IsStay name
  ne_up : name ≠ "..".toList
  ne_write : ¬ (purpose = .write ∧ rest = [[]])
  short : ¬ isLongName name
  short_path : ¬ (purpose = .resolve ∧ isLongPath (pathOf (here ++ [name])))

theorem isStay_iff : (name.isEmpty || name == ".".toList) ↔ IsStay name := by
  simp [IsStay]

theorem isLookedUp_of_not (hstay : ¬ (name.isEmpty || name == ".".toList))
    (hup : name ≠ "..".toList) (hwrite : ¬ (purpose = .write && rest == [[]]))
    (hshort : ¬ isLongName name)
    (hpath : ¬ (purpose = .resolve && isLongPath (pathOf (here ++ [name])))) :
    IsLookedUp purpose here name rest where
  ne_stay := by rwa [← isStay_iff]
  ne_up := hup
  ne_write := by simpa using hwrite
  short := hshort
  short_path := by simpa using hpath

theorem walk_nil : t.walk purpose links here [] = .ok (.entry here .directory) := by
  rw [walk]

theorem walk_stay (h : IsStay name) (rest : List Text) :
    t.walk purpose links here (name :: rest) = t.walk purpose links here rest := by
  rw [walk, if_pos (isStay_iff.2 h)]

theorem walk_up (rest : List Text) :
    t.walk purpose links here ("..".toList :: rest) = t.walk purpose links here.dropLast rest := by
  rw [walk, if_neg (by decide), if_pos rfl]

theorem walk_lookedUp (h : IsLookedUp purpose here name rest) :
    t.walk purpose links here (name :: rest) =
      match t.entry? (here ++ [name]) with
      | none => if rest = [] then .ok (.free (here ++ [name])) else .error .notFound
      | some .directory => t.walk purpose links (here ++ [name]) rest
      | some (.link target) =>
        if rest = [] ∧ purpose = .make then .ok (.entry (here ++ [name]) (.link target))
        else
          match links with
          | 0 => .error .tooManyLinks
          | links + 1 =>
            t.walk purpose links (if target.isAbsolute then [] else here)
              (target.components ++ rest)
      | some e => if rest = [] then .ok (.entry (here ++ [name]) e) else .error .notADirectory := by
  have hwrite : ¬ (purpose = .write && rest == [[]]) := by
    simpa using h.ne_write
  rw [walk, if_neg (mt isStay_iff.1 h.ne_stay), if_neg h.ne_up, if_neg hwrite, if_neg h.short]
  simp only [List.isEmpty_iff, Bool.and_eq_true, decide_eq_true_eq]
  exact if_neg h.short_path

/-! ## Walks step by step -/

/-- A walk that ends well. It starts in a directory, may follow a number of links and goes along
the names. -/
inductive Walks (t : FileTree) (purpose : Purpose) : Nat → Location → List Text → Found → Prop
  | arrived (links : Nat) (here : Location) : Walks t purpose links here [] (.entry here .directory)
  | stay {links : Nat} {here : Location} {name : Text} {rest : List Text} {found : Found}
      (hname : IsStay name) (h : Walks t purpose links here rest found) :
      Walks t purpose links here (name :: rest) found
  | up {links : Nat} {here : Location} {rest : List Text} {found : Found}
      (h : Walks t purpose links here.dropLast rest found) :
      Walks t purpose links here ("..".toList :: rest) found
  | enter {links : Nat} {here : Location} {name : Text} {rest : List Text} {found : Found}
      (hname : IsLookedUp purpose here name rest)
      (hentry : t.entry? (here ++ [name]) = some .directory)
      (h : Walks t purpose links (here ++ [name]) rest found) :
      Walks t purpose links here (name :: rest) found
  | follow {links : Nat} {here : Location} {name : Text} {rest : List Text} {found : Found}
      {target : Path} (hname : IsLookedUp purpose here name rest)
      (hentry : t.entry? (here ++ [name]) = some (.link target))
      (hmake : ¬ (rest = [] ∧ purpose = .make))
      (h : Walks t purpose links (if target.isAbsolute then [] else here)
        (target.components ++ rest) found) :
      Walks t purpose (links + 1) here (name :: rest) found
  /-- What is to be made is in the way of itself, also as a link. -/
  | inTheWay {links : Nat} {here : Location} {name : Text} {target : Path}
      (hname : IsLookedUp purpose here name [])
      (hentry : t.entry? (here ++ [name]) = some (.link target)) (hmake : purpose = .make) :
      Walks t purpose links here [name] (.entry (here ++ [name]) (.link target))
  | free {links : Nat} {here : Location} {name : Text} (hname : IsLookedUp purpose here name [])
      (hentry : t.entry? (here ++ [name]) = none) :
      Walks t purpose links here [name] (.free (here ++ [name]))
  | reached {links : Nat} {here : Location} {name : Text} {e : Entry}
      (hname : IsLookedUp purpose here name []) (hentry : t.entry? (here ++ [name]) = some e)
      (hdirectory : e ≠ .directory) (hlink : ∀ target, e ≠ .link target) :
      Walks t purpose links here [name] (.entry (here ++ [name]) e)

theorem Walks.walk (h : Walks t purpose links here names found) :
    t.walk purpose links here names = .ok found := by
  induction h with
  | arrived => exact walk_nil
  | stay hname _ ih => rw [walk_stay hname, ih]
  | up _ ih => rw [walk_up, ih]
  | enter hname hentry _ ih => rw [walk_lookedUp hname, hentry, ih]
  | follow hname hentry hmake _ ih =>
    rw [walk_lookedUp hname, hentry]
    exact (if_neg hmake).trans ih
  | inTheWay hname hentry hmake =>
    rw [walk_lookedUp hname, hentry]
    exact if_pos ⟨rfl, hmake⟩
  | free hname hentry =>
    rw [walk_lookedUp hname, hentry]
    exact if_pos rfl
  | @reached _ _ _ e hname hentry hdirectory hlink =>
    rw [walk_lookedUp hname, hentry]
    cases e with
    | directory => exact absurd rfl hdirectory
    | link target => exact absurd rfl (hlink target)
    | file | sink => exact if_pos rfl

theorem walks_of_walk (h : t.walk purpose links here names = .ok found) :
    Walks t purpose links here names found := by
  fun_induction FileTree.walk t purpose links here names with
  | case1 links here =>
    cases h
    exact .arrived links here
  | case2 links here name rest hstay ih => exact .stay (isStay_iff.1 hstay) (ih h)
  | case3 links here rest _ ih => exact .up (ih h)
  | case7 links here name rest hstay hup hwrite hshort place hpath hentry hrest =>
    cases h
    obtain rfl := List.isEmpty_iff.1 hrest
    exact .free (isLookedUp_of_not hstay hup hwrite hshort hpath) hentry
  | case9 links here name rest hstay hup hwrite hshort place hpath hentry ih =>
    exact .enter (isLookedUp_of_not hstay hup hwrite hshort hpath) hentry (ih h)
  | case10 links here name rest hstay hup hwrite hshort place hpath target hentry hmake =>
    cases h
    rw [Bool.and_eq_true, List.isEmpty_iff, decide_eq_true_iff] at hmake
    obtain ⟨rfl, hmake⟩ := hmake
    exact .inTheWay (isLookedUp_of_not hstay hup hwrite hshort hpath) hentry hmake
  | case12 here name rest hstay hup hwrite hshort place hpath target hentry hmake links ih =>
    rw [Bool.and_eq_true, List.isEmpty_iff, decide_eq_true_iff] at hmake
    exact .follow (isLookedUp_of_not hstay hup hwrite hshort hpath) hentry hmake (ih h)
  | case13 links here name rest hstay hup hwrite hshort place hpath e hdirectory hlink hentry
      hrest =>
    cases h
    obtain rfl := List.isEmpty_iff.1 hrest
    exact .reached (isLookedUp_of_not hstay hup hwrite hshort hpath) hentry hdirectory hlink
  | _ => cases h

theorem walk_eq_ok_iff :
    t.walk purpose links here names = .ok found ↔ Walks t purpose links here names found :=
  ⟨walks_of_walk, Walks.walk⟩

/-! ## Trees that hold the same -/

/-- A walk reads nothing of a tree but what stands at locations. -/
theorem Walks.congr {t' : FileTree} (htrees : ∀ place, t'.entry? place = t.entry? place)
    (h : Walks t purpose links here names found) : Walks t' purpose links here names found := by
  induction h with
  | arrived links here => exact .arrived links here
  | stay hname _ ih => exact .stay hname ih
  | up _ ih => exact .up ih
  | enter hname hentry _ ih => exact .enter hname ((htrees _).trans hentry) ih
  | follow hname hentry hmake _ ih => exact .follow hname ((htrees _).trans hentry) hmake ih
  | inTheWay hname hentry hmake => exact .inTheWay hname ((htrees _).trans hentry) hmake
  | free hname hentry => exact .free hname ((htrees _).trans hentry)
  | reached hname hentry hdirectory hlink =>
    exact .reached hname ((htrees _).trans hentry) hdirectory hlink

/-! ## Ends of walks -/

/-- A walk ends at a directory or at what stands there. -/
theorem Walks.entry_eq {e : Entry} (h : Walks t purpose links here names (.entry place e)) :
    e = .directory ∨ t.entry? place = some e := by
  generalize hfound : Found.entry place e = found at h
  induction h with
  | arrived =>
    cases hfound
    exact .inl rfl
  | stay _ _ ih | up _ ih | enter _ _ _ ih | follow _ _ _ _ ih => exact ih hfound
  | inTheWay _ hentry _ | reached _ hentry =>
    cases hfound
    exact .inr hentry
  | free => cases hfound

theorem Walks.free_eq (h : Walks t purpose links here names (.free place)) :
    t.entry? place = none := by
  generalize hfound : Found.free place = found at h
  induction h with
  | stay _ _ ih | up _ ih | enter _ _ _ ih | follow _ _ _ _ ih => exact ih hfound
  | free _ hentry =>
    cases hfound
    exact hentry
  | arrived | inTheWay | reached => cases hfound

/-! ## Links to spare -/

theorem Walks.mono {links' : Nat} (h : Walks t purpose links here names found)
    (hlinks : links ≤ links') : Walks t purpose links' here names found := by
  induction h generalizing links' with
  | arrived _ here => exact .arrived links' here
  | stay hname _ ih => exact .stay hname (ih hlinks)
  | up _ ih => exact .up (ih hlinks)
  | enter hname hentry _ ih => exact .enter hname hentry (ih hlinks)
  | follow hname hentry hmake _ ih =>
    obtain ⟨spare, rfl⟩ : ∃ spare, links' = spare + 1 :=
      Nat.exists_eq_add_one.2 (Nat.lt_of_lt_of_le (Nat.succ_pos _) hlinks)
    exact .follow hname hentry hmake (ih (Nat.le_of_succ_le_succ hlinks))
  | inTheWay hname hentry hmake => exact .inTheWay hname hentry hmake
  | free hname hentry => exact .free hname hentry
  | reached hname hentry hdirectory hlink => exact .reached hname hentry hdirectory hlink

/-! ## Walks that go on -/

theorem IsLookedUp.look {rest' : List Text} (h : IsLookedUp purpose here name rest) :
    IsLookedUp .look here name rest' where
  ne_stay := h.ne_stay
  ne_up := h.ne_up
  ne_write := fun hwrite => by cases hwrite.1
  short := h.short
  short_path := fun hpath => by cases hpath.1

/-- A walk to look at something goes on from the directory where the walk along the first names
ends, with the links that are left. -/
theorem Walks.append (h : Walks t .look links here names (.entry place .directory)) :
    ∃ spare ≤ links, ∀ rest,
      t.walk .look links here (names ++ rest) = t.walk .look spare place rest := by
  generalize hfound : Found.entry place .directory = found at h
  induction h with
  | arrived links here =>
    cases hfound
    exact ⟨links, Nat.le_refl links, fun rest => rfl⟩
  | stay hname _ ih =>
    obtain ⟨spare, hspare, hwalk⟩ := ih hfound
    refine ⟨spare, hspare, fun rest => ?_⟩
    rw [List.cons_append, walk_stay hname, hwalk]
  | up _ ih =>
    obtain ⟨spare, hspare, hwalk⟩ := ih hfound
    refine ⟨spare, hspare, fun rest => ?_⟩
    rw [List.cons_append, walk_up, hwalk]
  | enter hname hentry _ ih =>
    obtain ⟨spare, hspare, hwalk⟩ := ih hfound
    refine ⟨spare, hspare, fun rest => ?_⟩
    rw [List.cons_append, walk_lookedUp hname.look, hentry]
    exact hwalk rest
  | follow hname hentry _ _ ih =>
    obtain ⟨spare, hspare, hwalk⟩ := ih hfound
    refine ⟨spare, Nat.le_succ_of_le hspare, fun rest => ?_⟩
    rw [List.cons_append, walk_lookedUp hname.look, hentry]
    simp only [reduceCtorEq, and_false, if_false]
    rw [← List.append_assoc, hwalk]
  | inTheWay _ _ hmake => cases hmake
  | free => cases hfound
  | reached _ _ hdirectory =>
    cases hfound
    exact absurd rfl hdirectory

/-- A slash behind the last name only asks for a directory. -/
theorem Walks.of_trailing (h : Walks t .look links here (names ++ [[]]) found) :
    Walks t .look links here names found := by
  generalize hnames : names ++ [[]] = all at h
  induction h generalizing names with
  | arrived => simp at hnames
  | stay hname h ih =>
    cases names with
    | nil =>
      cases hnames
      exact h
    | cons =>
      cases hnames
      exact .stay hname (ih rfl)
  | up h ih =>
    cases names with
    | nil => cases hnames
    | cons =>
      cases hnames
      exact .up (ih rfl)
  | enter hname hentry h ih =>
    cases names with
    | nil =>
      cases hnames
      exact absurd (.inl rfl) hname.ne_stay
    | cons =>
      cases hnames
      exact .enter hname.look hentry (ih rfl)
  | follow hname hentry hmake h ih =>
    cases names with
    | nil =>
      cases hnames
      exact absurd (.inl rfl) hname.ne_stay
    | cons =>
      cases hnames
      refine .follow hname.look hentry (fun hmake => by cases hmake.2) (ih ?_)
      exact List.append_assoc ..
  | inTheWay hname | free hname | reached hname =>
    cases names with
    | nil =>
      cases hnames
      exact absurd (.inl rfl) hname.ne_stay
    | cons => simp at hnames

/-! ## Walks along a path -/

theorem find_eq_ok_iff {path : Path} :
    t.find purpose here path = .ok found ↔
      '\x00' ∉ path.text ∧ path.text ≠ [] ∧ ¬ (purpose ≠ .resolve ∧ isLongPath path) ∧
        Walks t purpose linkLimit (if path.isAbsolute then [] else here) path.components found := by
  rw [find, ← walk_eq_ok_iff]
  by_cases hzero : '\x00' ∈ path.text
  · simp [hzero]
  · by_cases hempty : path.text = []
    · simp [hempty]
    · by_cases hlong : purpose ≠ .resolve ∧ isLongPath path
      · simp [hzero, hempty, hlong]
      · have htest : (purpose != .resolve && isLongPath path) = false := by simpa using hlong
        simp [hzero, hempty, hlong, htest]

theorem locate_eq_ok_iff {path : Path} {e : Entry} :
    t.locate here path = .ok (place, e) ↔
      '\x00' ∉ path.text ∧ path.text ≠ [] ∧ ¬ isLongPath path ∧
        Walks t .look linkLimit (if path.isAbsolute then [] else here) path.components
          (.entry place e) := by
  have hfind :
      t.locate here path = .ok (place, e) ↔ t.find .look here path = .ok (.entry place e) := by
    rw [locate]
    split <;> simp_all
  rw [hfind, find_eq_ok_iff]
  simp

theorem resolve_eq_ok_iff {path : Path} :
    t.resolve here path = .ok place ↔ ∃ e, t.find .resolve here path = .ok (.entry place e) := by
  rw [resolve]
  split <;> simp_all

theorem directoryAt_eq_ok_iff {path : Path} :
    t.directoryAt here path = .ok place ↔ t.locate here path = .ok (place, .directory) := by
  rw [directoryAt]
  split <;> simp_all

theorem locate_of_isAbsolute {path : Path} (h : path.isAbsolute) (here here' : Location) :
    t.locate here path = t.locate here' path := by
  simp only [locate, find, h, if_true]

theorem isFile_iff {path : Path} :
    t.isFile here path ↔ ∃ file executable data,
      t.locate here path = .ok (file, .file executable data) := by
  rw [isFile]
  split <;> simp_all

theorem directoryAt_congr {t' : FileTree} {path : Path}
    (htrees : ∀ place, t'.entry? place = t.entry? place) (h : t.directoryAt here path = .ok place) :
    t'.directoryAt here path = .ok place := by
  rw [directoryAt_eq_ok_iff, locate_eq_ok_iff] at h ⊢
  obtain ⟨hzero, hne, hshort, hwalks⟩ := h
  exact ⟨hzero, hne, hshort, hwalks.congr htrees⟩

theorem zero_not_mem_of_directoryAt {path : Path} (h : t.directoryAt here path = .ok place) :
    '\x00' ∉ path.text :=
  (locate_eq_ok_iff.1 (directoryAt_eq_ok_iff.1 h)).1

theorem ne_nil_of_directoryAt {path : Path} (h : t.directoryAt here path = .ok place) :
    path.text ≠ [] :=
  (locate_eq_ok_iff.1 (directoryAt_eq_ok_iff.1 h)).2.1

end BuildLog.FileTree
