-- SUMMARY: The stripped text is what every order of deletions ends in, and the sweeps that lead to it come to an end.
import BuildLog.Proofs.Text.ControlSequence
import Mathlib.Data.List.Infix
import Mathlib.Logic.Function.Iterate

/-!
# The normal form of a text

A text is bare if no control sequence stands in it. Deletions from a text may be made in any
order and may be made in its parts first: as long as they go on until the text is bare, they end
in the stripped text.
-/

namespace BuildLog.Text

open Relation
open scoped List

variable {s s' t t' : Text}

/-! ## Deletions in a part of a text -/

theorem Deletion.append_left (u : Text) (h : Deletion s t) : Deletion (u ++ s) (u ++ t) := by
  induction u with
  | nil => exact h
  | cons c u ih => exact ih.cons c

theorem Deletion.append_right (u : Text) (h : Deletion s t) : Deletion (s ++ u) (t ++ u) := by
  obtain ⟨ahead, behind, he⟩ := h
  rw [List.append_assoc, List.append_assoc ahead behind]
  exact .mk ahead (behind ++ u) he

theorem Deletions.append (hs : Deletions s s') (ht : Deletions t t') :
    Deletions (s ++ t) (s' ++ t') := by
  have hleft : Deletions (s ++ t) (s' ++ t) := hs.lift (· ++ t) fun _ _ h => h.append_right t
  have hright : Deletions (s' ++ t) (s' ++ t') := ht.lift (s' ++ ·) fun _ _ h => h.append_left s'
  exact hleft.trans hright

/-! ## Bare texts -/

theorem isBare_iff : IsBare s ↔ ¬ ∃ e, IsEscape e ∧ e <:+: s := by
  constructor
  · rintro h ⟨e, he, ahead, behind, rfl⟩
    exact h _ (.mk ahead behind he)
  · rintro h _ ⟨ahead, behind, he⟩
    exact h ⟨_, he, ahead, behind, rfl⟩

theorem IsBare.part (ht : IsBare t) (h : s <:+: t) : IsBare s := by
  rw [isBare_iff] at ht ⊢
  rintro ⟨e, he, hs⟩
  exact ht ⟨e, he, hs.trans h⟩

/-- A character that no sequence holds completes none at the end of a text. -/
theorem IsBare.concat {c : Char} (hc : c.toNat < 0x1b) (h : IsBare s) : IsBare (s ++ [c]) := by
  rw [isBare_iff] at h ⊢
  rintro ⟨e, he, hinfix⟩
  rcases List.infix_concat_iff.1 hinfix with hsuffix | hinfix
  · rcases List.suffix_concat_iff.1 hsuffix with rfl | ⟨front, rfl, -⟩
    · obtain ⟨d, tail, hnil, -⟩ := he.eq_cons
      cases hnil
    · exact he.not_mem hc (by simp)
  · exact h ⟨e, he, hinfix⟩

/-! ## Uniqueness -/

/-- Deletions that go on until the text is bare end in the stripped text. -/
theorem eq_strip_of_deletions (h : Deletions s t) (ht : IsBare t) : t = strip s := by
  obtain ⟨u, htu, hu⟩ := h.join (deletions_strip s)
  rw [ht.eq_of_deletions htu, (isBare_strip s).eq_of_deletions hu]

theorem strip_eq_self_iff : strip s = s ↔ IsBare s := by
  constructor
  · intro h
    rw [← h]
    exact isBare_strip s
  · intro h
    exact (eq_strip_of_deletions .refl h).symm

theorem strip_strip (s : Text) : strip (strip s) = strip s :=
  strip_eq_self_iff.2 (isBare_strip s)

theorem strip_append (s t : Text) : strip (s ++ t) = strip (strip s ++ strip t) :=
  strip_eq_of_deletions ((deletions_strip s).append (deletions_strip t))

theorem strip_concat {c : Char} (hc : c.toNat < 0x1b) (s : Text) :
    strip (s ++ [c]) = strip s ++ [c] :=
  (eq_strip_of_deletions ((deletions_strip s).append .refl) ((isBare_strip s).concat hc)).symm

/-! ## Sweeps in turn -/

theorem not_isBare_of_length_sweep (h : (sweep s).length < s.length) : ¬ IsBare s := by
  intro hs
  rw [← hs.eq_of_deletions (deletions_sweep s)] at h
  exact Nat.lt_irrefl _ h

/-- The stripped text is that of the first sweep behind which the text is bare. -/
theorem exists_iterate_sweep (s : Text) :
    ∃ n, strip s = sweep^[n] s ∧ ∀ k < n, ¬ IsBare (sweep^[k] s) := by
  fun_induction strip s with
  | case1 s hlt ih =>
    obtain ⟨n, hn, hbefore⟩ := ih
    refine ⟨n + 1, hn, ?_⟩
    intro k hk
    cases k with
    | zero => exact not_isBare_of_length_sweep hlt
    | succ k => exact hbefore k (Nat.lt_of_succ_lt_succ hk)
  | case2 s _ => exact ⟨0, rfl, by simp⟩

/-- Sweeping a text as long as a sequence stands in it comes to an end. What stays is bare, and
every other way to delete sequences until none is left ends in the same text. -/
theorem strip_normal_form (s : Text) :
    (∃ n, strip s = sweep^[n] s ∧ ∀ k < n, ∃ e, IsEscape e ∧ e <:+: sweep^[k] s) ∧
    (¬ ∃ e, IsEscape e ∧ e <:+: strip s) ∧
    Deletions s (strip s) ∧
    (∀ t, Deletions s t → (¬ ∃ e, IsEscape e ∧ e <:+: t) → t = strip s) ∧
    strip (strip s) = strip s ∧
    (∀ t, strip (s ++ t) = strip (strip s ++ strip t)) ∧
    (strip s = s ↔ ¬ ∃ e, IsEscape e ∧ e <:+: s) := by
  refine ⟨?_, isBare_iff.1 (isBare_strip s), deletions_strip s, ?_, strip_strip s, strip_append s,
    strip_eq_self_iff.trans isBare_iff⟩
  · obtain ⟨n, hn, hbefore⟩ := exists_iterate_sweep s
    refine ⟨n, hn, fun k hk => ?_⟩
    exact not_not.1 fun hnone => hbefore k hk (isBare_iff.2 hnone)
  · intro t h ht
    exact eq_strip_of_deletions h (isBare_iff.2 ht)

/-- The first sweep joins the parts of a sequence that stood around another one. -/
example : strip "\x1b\x1b[31m[0mtext".toList = "text".toList := by cbv

end BuildLog.Text
