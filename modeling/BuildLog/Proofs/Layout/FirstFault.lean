-- SUMMARY: The first marker of a log whose record cannot be recovered, and the fault that ends the walk there.
import BuildLog.Proofs.Layout.Records

/-!
# The first fault of a log

The walk over the markers of a log ends with a fault exactly if one of them is at fault, and
it returns the fault of the first one. Skip words have no say in that.
-/

namespace BuildLog.Layout

variable {layout : Layout} {lines skip : List Text} {count : Nat} {fault : LineFault}

/-! ## The first position at fault -/

/-- The first of the positions whose record cannot be recovered, and its fault. -/
def faultFrom? (layout : Layout) (lines : List Text) (count : Nat) (is : List Nat) :
    Option (Nat × LineFault) :=
  (is.zip (layout.outcomes lines count is)).findSome? fun (i, outcome) =>
    match outcome with
    | .error fault => some (i, fault)
    | .ok _ => none

/-- The first marker of a log whose record cannot be recovered, and its fault. -/
def firstFault? (layout : Layout) (lines : List Text) : Option (Nat × LineFault) :=
  layout.faultFrom? lines 0 (layout.markers lines)

theorem faultFrom?_cons_of_error {i : Nat} (h : layout.record? lines count i = .error fault)
    (is : List Nat) : layout.faultFrom? lines count (i :: is) = some (i, fault) := by
  simp [faultFrom?, outcomes, h]

theorem faultFrom?_cons_of_ok {i : Nat} {r : Option Record}
    (h : layout.record? lines count i = .ok r) (is : List Nat) :
    layout.faultFrom? lines count (i :: is) =
      layout.faultFrom? lines (count + r.toList.length) is := by
  cases r <;> simp [faultFrom?, outcomes, h, countBehind]

theorem record?_of_faultFrom? {is : List Nat} {m : Nat}
    (h : layout.faultFrom? lines count is = some (m, fault)) :
    m ∈ is ∧ ∃ count', layout.record? lines count' m = .error fault := by
  induction is generalizing count with
  | nil => cases h
  | cons i is ih =>
    cases hrecord : layout.record? lines count i with
    | error fault' =>
      rw [faultFrom?_cons_of_error hrecord] at h
      cases h
      exact ⟨by simp, count, hrecord⟩
    | ok r =>
      rw [faultFrom?_cons_of_ok hrecord] at h
      obtain ⟨hmem, hfault⟩ := ih h
      exact ⟨by simp [hmem], hfault⟩

theorem record?_of_lt_faultFrom? {is : List Nat} {m i : Nat} (hsorted : is.Pairwise (· < ·))
    (h : layout.faultFrom? lines count is = some (m, fault)) (hi : i ∈ is) (hlt : i < m) :
    ∃ count' r, layout.record? lines count' i = .ok r := by
  induction is generalizing count with
  | nil => cases h
  | cons j js ih =>
    obtain ⟨hahead, hsorted⟩ := List.pairwise_cons.1 hsorted
    cases hrecord : layout.record? lines count j with
    | error fault' =>
      rw [faultFrom?_cons_of_error hrecord] at h
      cases h
      -- Nothing in the list is ahead of its first position.
      rcases List.mem_cons.1 hi with rfl | hi
      · exact absurd hlt (Nat.lt_irrefl i)
      · exact absurd hlt (Nat.lt_asymm (hahead i hi))
    | ok r =>
      rw [faultFrom?_cons_of_ok hrecord] at h
      rcases List.mem_cons.1 hi with rfl | hi
      · exact ⟨count, r, hrecord⟩
      · exact ih hsorted h hi

/-- Positions whose records are recovered only move the count on. -/
theorem faultFrom?_append {is : List Nat} {rs : List Record}
    (h : layout.recordsFrom lines [] count is = .ok rs) (js : List Nat) :
    layout.faultFrom? lines count (is ++ js) =
      layout.faultFrom? lines (count + rs.length) js := by
  induction is generalizing count rs with
  | nil =>
    cases h
    rfl
  | cons i is ih =>
    rw [recordsFrom_cons] at h
    obtain ⟨r, hr, h⟩ := bind_eq_ok.1 h
    obtain ⟨rs', hrs, h⟩ := bind_eq_ok.1 h
    cases h
    rw [List.cons_append, faultFrom?_cons_of_ok hr, ih hrs, kept_nil, List.length_append,
      Nat.add_assoc]

/-! ## The fault of a walk -/

theorem recordsFrom_eq_error_iff {is : List Nat} :
    layout.recordsFrom lines skip count is = .error fault ↔
      ∃ m, layout.faultFrom? lines count is = some (m, fault) := by
  induction is generalizing count with
  | nil => simp [recordsFrom, faultFrom?]
  | cons i is ih =>
    rw [recordsFrom_cons, bind_eq_error]
    cases hrecord : layout.record? lines count i with
    | error fault' =>
      rw [faultFrom?_cons_of_error hrecord]
      simp
    | ok r =>
      rw [faultFrom?_cons_of_ok hrecord, ← ih]
      simp [bind_eq_error, pure, Except.pure]

/-- A log has a fault exactly if one of its markers has, and then it has that of the first. -/
theorem records_eq_error_iff :
    layout.records lines skip = .error fault ↔
      ∃ m, layout.firstFault? lines = some (m, fault) :=
  recordsFrom_eq_error_iff

/-- Skip words leave no fault out. -/
theorem records_eq_error_skip (skip' : List Text) :
    layout.records lines skip = .error fault ↔ layout.records lines skip' = .error fault := by
  rw [records_eq_error_iff, records_eq_error_iff]

end BuildLog.Layout
