-- SUMMARY: Positions in lists that stand one behind the other, and the last position below a bound there.
import BuildLog.Log
import Mathlib.Data.List.GetD

/-!
# Positions in longer logs

A log that stands behind another one keeps its positions, moved on by the number of lines
ahead of it. A search that goes back from a line and succeeds before it leaves its own log
finds the same line in the longer one.
-/

namespace BuildLog.Log

variable {α : Type} {p : α → Bool}

/-! ## All positions -/

theorem mem_positions {xs : List α} {i : Nat} :
    i ∈ positions p xs ↔ ∃ x, xs[i]? = some x ∧ p x := by
  simp [positions, List.mk_mem_zipIdx_iff_getElem?]

theorem lt_of_mem_positions {xs : List α} {i : Nat} (h : i ∈ positions p xs) : i < xs.length := by
  obtain ⟨x, hx, -⟩ := mem_positions.1 h
  exact (List.getElem?_eq_some_iff.1 hx).1

theorem positions_append (xs ys : List α) :
    positions p (xs ++ ys) = positions p xs ++ (positions p ys).map (xs.length + ·) := by
  have hmoved : ys.zipIdx xs.length = ys.zipIdx.map fun (y, i) => (y, xs.length + i) :=
    List.zipIdx_eq_map_add
  simp only [positions, List.zipIdx_append, Nat.zero_add, hmoved, List.filter_append,
    List.map_append, List.filter_map, List.map_map]
  rfl

theorem positions_sorted (p : α → Bool) (xs : List α) : (positions p xs).Pairwise (· < ·) := by
  have hsublist : (positions p xs).Sublist (xs.zipIdx.map (·.2)) :=
    List.filter_sublist.map _
  rw [List.zipIdx_map_snd] at hsublist
  exact List.Pairwise.sublist hsublist List.pairwise_lt_range'

theorem mem_of_mk_mem_zipIdx {xs : List α} {x : α} {i : Nat} (h : (x, i) ∈ xs.zipIdx) (d : α) :
    x ∈ xs ∧ xs.getD i d = x := by
  have hx : xs[i]? = some x := List.mk_mem_zipIdx_iff_getElem?.1 h
  rw [List.getD_eq_getElem?_getD, hx]
  exact ⟨List.mem_of_getElem? hx, rfl⟩

/-- The positions whose elements satisfy another test, too. -/
theorem filter_positions {q r : α → Bool} {xs : List α} (d : α)
    (h : ∀ x ∈ xs, (p x && q x) = r x) :
    ((positions p xs).filter fun i => q (xs.getD i d)) = positions r xs := by
  rw [positions, List.filter_map, List.filter_filter, positions]
  congr 1
  refine List.filter_congr ?_
  rintro ⟨x, i⟩ hmem
  obtain ⟨hx, hget⟩ := mem_of_mk_mem_zipIdx hmem d
  rw [Function.comp_apply, hget, Bool.and_comm, h x hx]

theorem getD_positions (xs : List α) (d : α) :
    (positions p xs).map (xs.getD · d) = xs.filter p := by
  induction xs with
  | nil => rfl
  | cons x xs ih =>
    have hmoved : (fun i => (x :: xs).getD (1 + i) d) = (xs.getD · d) := by
      funext i
      rw [Nat.add_comm, List.getD_cons_succ]
    have hcons := positions_append (p := p) [x] xs
    rw [List.singleton_append] at hcons
    rw [hcons, List.map_append, List.map_map]
    simp only [Function.comp_def, List.length_singleton, hmoved, ih]
    cases hx : p x <;> simp [positions, hx]

/-! ## The last position below a bound -/

theorem lastBelow?_succ {xs : List α} {n : Nat} {x : α} (h : xs[n]? = some x) :
    lastBelow? p xs (n + 1) = if p x then some n else lastBelow? p xs n := by
  have hlt : n < xs.length := (List.getElem?_eq_some_iff.1 h).1
  have htake : (xs.take (n + 1)).reverse = x :: (xs.take n).reverse := by
    rw [List.take_add_one, h, List.reverse_append]
    rfl
  have hmoved : (fun back => n + 1 - 1 - back) ∘ (· + 1) = fun back => n - 1 - back := by
    funext back
    simp only [Function.comp_apply]
    omega
  simp only [lastBelow?, htake, List.findIdx?_cons, List.length_take_of_le hlt,
    List.length_take_of_le (Nat.le_of_lt hlt)]
  cases p x with
  | true => rfl
  | false => simp only [Bool.false_eq_true, if_false, Option.map_map, hmoved]

theorem lastBelow?_succ_of_none {xs : List α} {n : Nat} (h : xs[n]? = none) :
    lastBelow? p xs (n + 1) = lastBelow? p xs n := by
  have hn : xs.length ≤ n := List.getElem?_eq_none_iff.1 h
  rw [lastBelow?, lastBelow?, List.take_of_length_le hn,
    List.take_of_length_le (Nat.le_succ_of_le hn)]

/-- The element at `i` is the last one ahead of `bound` that satisfies `p`. -/
def IsLastBelow (p : α → Bool) (xs : List α) (bound i : Nat) : Prop :=
  i < bound ∧ (∃ x, xs[i]? = some x ∧ p x) ∧
    ∀ j x, i < j → j < bound → xs[j]? = some x → ¬ p x

theorem isLastBelow_succ_of_not {xs : List α} {n i : Nat} (h : ∀ x, xs[n]? = some x → ¬ p x) :
    IsLastBelow p xs (n + 1) i ↔ IsLastBelow p xs n i := by
  constructor
  · rintro ⟨hi, ⟨x, hx, hpx⟩, hlast⟩
    have hne : i ≠ n := by
      rintro rfl
      exact h x hx hpx
    refine ⟨Nat.lt_of_le_of_ne (Nat.le_of_lt_succ hi) hne, ⟨x, hx, hpx⟩, ?_⟩
    intro j y hij hj
    exact hlast j y hij (Nat.lt_succ_of_lt hj)
  · rintro ⟨hi, hx, hlast⟩
    refine ⟨Nat.lt_succ_of_lt hi, hx, ?_⟩
    intro j y hij hj hy
    rcases Nat.lt_succ_iff_lt_or_eq.1 hj with hj | rfl
    · exact hlast j y hij hj hy
    · exact h y hy

theorem isLastBelow_succ_self {xs : List α} {n i : Nat} {x : α} (hx : xs[n]? = some x)
    (hpx : p x) : IsLastBelow p xs (n + 1) i ↔ n = i := by
  constructor
  · rintro ⟨hi, -, hlast⟩
    refine Nat.le_antisymm (Nat.le_of_not_lt ?_) (Nat.le_of_lt_succ hi)
    intro hlt
    exact hlast n x hlt (Nat.lt_succ_self n) hx hpx
  · rintro rfl
    refine ⟨Nat.lt_succ_self n, ⟨x, hx, hpx⟩, ?_⟩
    intro j y hnj hj
    exact absurd hj (Nat.not_lt.2 hnj)

theorem lastBelow?_eq_some_iff {xs : List α} {bound i : Nat} :
    lastBelow? p xs bound = some i ↔ IsLastBelow p xs bound i := by
  induction bound with
  | zero => simp [lastBelow?, IsLastBelow]
  | succ n ih =>
    cases hx : xs[n]? with
    | none => rw [lastBelow?_succ_of_none hx, ih, isLastBelow_succ_of_not (by simp [hx])]
    | some x =>
      rw [lastBelow?_succ hx]
      by_cases hpx : p x
      · rw [if_pos hpx, Option.some.injEq, isLastBelow_succ_self hx hpx]
      · rw [if_neg hpx, ih, isLastBelow_succ_of_not (by simpa [hx] using hpx)]

theorem lastBelow?_eq_none_iff {xs : List α} {bound : Nat} :
    lastBelow? p xs bound = none ↔ ∀ x ∈ xs.take bound, ¬ p x := by
  simp [lastBelow?, List.findIdx?_eq_none_iff]

theorem lt_of_lastBelow? {xs : List α} {bound i : Nat} (h : lastBelow? p xs bound = some i) :
    i < bound ∧ i < xs.length := by
  obtain ⟨hbound, ⟨x, hx, -⟩, -⟩ := lastBelow?_eq_some_iff.1 h
  exact ⟨hbound, (List.getElem?_eq_some_iff.1 hx).1⟩

/-! ## The search in longer logs -/

theorem lastBelow?_append_left {xs : List α} {bound : Nat} (h : bound ≤ xs.length) (ys : List α) :
    lastBelow? p (xs ++ ys) bound = lastBelow? p xs bound := by
  unfold lastBelow?
  rw [List.take_append_of_le_length h]

theorem lastBelow?_append_right {ys : List α} {bound i : Nat} (xs : List α)
    (h : lastBelow? p ys bound = some i) :
    lastBelow? p (xs ++ ys) (xs.length + bound) = some (xs.length + i) := by
  obtain ⟨back, hback, rfl⟩ := Option.map_eq_some_iff.1 h
  have hlt : back < (ys.take bound).reverse.length :=
    (List.findIdx?_eq_some_iff_getElem.1 hback).1
  rw [List.length_reverse] at hlt
  rw [lastBelow?, List.take_length_add_append, List.reverse_append, List.findIdx?_append, hback]
  simp only [Option.some_or, Option.map_some, List.length_append]
  congr 1
  omega

theorem nearest?_eq (p : α → Bool) (xs : List α) (start : Nat) :
    nearest? p xs start = lastBelow? p xs (start + 1) := rfl

theorem nearest?_append_left {xs : List α} {start : Nat} (h : start < xs.length) (ys : List α) :
    nearest? p (xs ++ ys) start = nearest? p xs start :=
  lastBelow?_append_left h ys

theorem nearest?_append_right {ys : List α} {start i : Nat} (xs : List α)
    (h : nearest? p ys start = some i) :
    nearest? p (xs ++ ys) (xs.length + start) = some (xs.length + i) :=
  lastBelow?_append_right xs h

end BuildLog.Log
