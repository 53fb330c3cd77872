-- SUMMARY: When a search back from a line finds the nearest line that it looks for, and what such a line is good for.
import BuildLog.Proofs.Log.Positions
import Mathlib.Order.Bounds.Defs

/-!
# The nearest line at or before a line

A search back from a line finds the greatest position up to there at which the test holds. It asks
for the position behind its start, and the greatest machine word has none: from there nothing is
found, whatever the lines.
-/

namespace BuildLog.Log

variable {α β : Type} {p : α → Bool} {xs : List α} {start i : Nat}

/-! ## The nearest position -/

/-- The positions at or before the start whose elements satisfy `p`. -/
def candidates (p : α → Bool) (xs : List α) (start : Nat) : Set Nat :=
  {i | i ≤ start ∧ ∃ x, xs[i]? = some x ∧ p x}

theorem isLastBelow_succ_iff :
    IsLastBelow p xs (start + 1) i ↔ IsGreatest (candidates p xs start) i := by
  constructor
  · rintro ⟨hi, hx, hlast⟩
    refine ⟨⟨Nat.le_of_lt_succ hi, hx⟩, ?_⟩
    rintro j ⟨hj, y, hy, hpy⟩
    exact Nat.le_of_not_lt fun hij => hlast j y hij (Nat.lt_succ_of_le hj) hy hpy
  · rintro ⟨⟨hi, hx⟩, hgreatest⟩
    refine ⟨Nat.lt_succ_of_le hi, hx, ?_⟩
    intro j y hij hj hy hpy
    exact Nat.not_le_of_lt hij (hgreatest ⟨Nat.le_of_lt_succ hj, y, hy, hpy⟩)

theorem lastBelow?_succ_eq_none_iff :
    lastBelow? p xs (start + 1) = none ↔ ¬ (candidates p xs start).Nonempty := by
  rw [lastBelow?_eq_none_iff]
  constructor
  · rintro h ⟨i, hi, x, hx, hpx⟩
    have htake : (xs.take (start + 1))[i]? = some x := by
      rwa [List.getElem?_take_of_lt (Nat.lt_succ_of_le hi)]
    exact h x (List.mem_of_getElem? htake) hpx
  · intro h x hx hpx
    obtain ⟨i, hi⟩ := List.mem_iff_getElem?.1 hx
    rw [List.getElem?_take] at hi
    split at hi
    · next hlt => exact h ⟨i, Nat.le_of_lt_succ hlt, x, hi, hpx⟩
    · cases hi

/-- A search that starts at a candidate or behind it stops at that candidate or behind it. -/
theorem exists_lastBelow?_of_mem (h : i ∈ candidates p xs start) :
    ∃ place, lastBelow? p xs (start + 1) = some place ∧ i ≤ place := by
  cases hplace : lastBelow? p xs (start + 1) with
  | none => exact absurd ⟨i, h⟩ (lastBelow?_succ_eq_none_iff.1 hplace)
  | some place =>
    have hgreatest := isLastBelow_succ_iff.1 (lastBelow?_eq_some_iff.1 hplace)
    exact ⟨place, rfl, hgreatest.2 h⟩

/-! ## What the nearest element yields -/

/-- To look for the last element that yields something is to stop at it and then to read it. -/
theorem findSome?_reverse_take {f : α → Option β} (h : ∀ x ∈ xs, p x = (f x).isSome) (d : α)
    (bound : Nat) :
    (xs.take bound).reverse.findSome? f =
      (lastBelow? p xs bound).bind fun i => f (xs.getD i d) := by
  induction bound with
  | zero => simp [lastBelow?]
  | succ n ih =>
    cases hx : xs[n]? with
    | none =>
      have hn : xs.length ≤ n := List.getElem?_eq_none_iff.1 hx
      rw [lastBelow?_succ_of_none hx, ← ih, List.take_of_length_le hn,
        List.take_of_length_le (Nat.le_succ_of_le hn)]
    | some x =>
      have htake : (xs.take (n + 1)).reverse = x :: (xs.take n).reverse := by
        rw [List.take_add_one, hx, List.reverse_append]
        rfl
      rw [htake, lastBelow?_succ hx, List.findSome?_cons, h x (List.mem_of_getElem? hx)]
      cases hfx : f x with
      | none => exact ih
      | some y => simp [List.getD_eq_getElem?_getD, hx, hfx]

/-! ## Searches from a machine word -/

/-- Only the greatest word has no successor. -/
theorem add_one_eq_zero_iff {start : UInt64} : start + 1 = 0 ↔ start.toNat + 1 = UInt64.size := by
  have hlt := start.toNat_lt
  have hone : (1 : UInt64).toNat = 1 := rfl
  have hzero : (0 : UInt64).toNat = 0 := rfl
  rw [← UInt64.toNat_inj, UInt64.toNat_add, hone, hzero, UInt64.size]
  omega

/-- The search finds the nearest position at or before its start, or none if there is none, exactly
if it does not start from the greatest word or if there is nothing to find. -/
theorem nearest?_isGreatest_iff (p : α → Bool) (xs : List α) (start : UInt64) :
    ((∀ i, nearest? p xs start = some i ↔ IsGreatest (candidates p xs start.toNat) i) ∧
        (nearest? p xs start = none ↔ ¬ (candidates p xs start.toNat).Nonempty)) ↔
      start.toNat + 1 ≠ UInt64.size ∨ ¬ (candidates p xs start.toNat).Nonempty := by
  by_cases hstart : start + 1 = 0
  · have hnone : nearest? p xs start = none := by
      have hnext : Counter.next? start = none := if_pos hstart
      rw [nearest?, hnext, Option.bind_none]
    rw [or_iff_right (not_not.2 (add_one_eq_zero_iff.1 hstart))]
    constructor
    · rintro ⟨-, hempty⟩
      exact hempty.1 hnone
    · intro hempty
      refine ⟨fun i => ?_, iff_of_true hnone hempty⟩
      rw [hnone]
      exact iff_of_false (Option.some_ne_none i).symm fun hi => hempty ⟨i, hi.1⟩
  · have hsearch : nearest? p xs start = lastBelow? p xs (start.toNat + 1) := by
      have hnext : Counter.next? start = some (start.toNat + 1) := if_neg hstart
      rw [nearest?, hnext, Option.bind_some]
    rw [hsearch]
    refine iff_of_true ⟨fun i => ?_, lastBelow?_succ_eq_none_iff⟩ (.inl ?_)
    · rw [lastBelow?_eq_some_iff, isLastBelow_succ_iff]
    · exact mt add_one_eq_zero_iff.2 hstart

/-- The only line is looked for, and a search from the greatest word misses it. -/
theorem nearest?_misses_line :
    let wanted : Text → Bool := (· == "y".toList)
    let start : UInt64 := 18446744073709551615
    nearest? wanted ["y".toList] start = none ∧
      IsGreatest (candidates wanted ["y".toList] start.toNat) 0 := by
  refine ⟨rfl, ⟨Nat.zero_le _, "y".toList, rfl, by decide⟩, ?_⟩
  rintro i ⟨-, x, hx, -⟩
  exact Nat.le_of_lt_succ (List.getElem?_eq_some_iff.1 hx).1

end BuildLog.Log
