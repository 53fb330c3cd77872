-- SUMMARY: Control sequences as a shape, their deletion in any order, and the stripped text as the only one left.
import BuildLog.Text.Escape
import Mathlib.Logic.Relation

/-!
# Deleting control sequences

`strip` sweeps a text from left to right until nothing changes. A deletion takes any one
sequence out of a text. Sequences never overlap, because what starts a sequence stands
nowhere else in one. So deletions commute, and all ways to delete end in the same text.
-/

namespace BuildLog.Text

open Relation

/-! ## Characters of a sequence -/

theorem between_iff {low high c : Char} :
    (low ≤ c && c ≤ high) = true ↔ low.toNat ≤ c.toNat ∧ c.toNat ≤ high.toNat := by
  simp only [Bool.and_eq_true, decide_eq_true_eq, Char.le_def, UInt32.le_iff_toNat_le]
  rfl

theorem isSecond_iff {c : Char} : isSecond c ↔ 0x40 ≤ c.toNat ∧ c.toNat ≤ 0x5f := between_iff

theorem isIntroducer_iff {c : Char} : isIntroducer c ↔ 0x80 ≤ c.toNat ∧ c.toNat ≤ 0x9f :=
  between_iff

theorem isParameter_iff {c : Char} : isParameter c ↔ 0x30 ≤ c.toNat ∧ c.toNat ≤ 0x3f := between_iff

theorem isIntermediate_iff {c : Char} : isIntermediate c ↔ 0x20 ≤ c.toNat ∧ c.toNat ≤ 0x2f :=
  between_iff

theorem isFinal_iff {c : Char} : isFinal c ↔ 0x40 ≤ c.toNat ∧ c.toNat ≤ 0x7e := between_iff

/-- The characters that start a sequence. -/
def IsStart (c : Char) : Prop := c = '\x1b' ∨ isIntroducer c

/-- The characters that a sequence goes on with, from the blank to the tilde. -/
def IsPrintable (c : Char) : Prop := 0x20 ≤ c.toNat ∧ c.toNat ≤ 0x7e

theorem isPrintable {c : Char} (h : isSecond c ∨ isParameter c ∨ isIntermediate c ∨ isFinal c) :
    IsPrintable c := by
  simp only [isSecond_iff, isParameter_iff, isIntermediate_iff, isFinal_iff] at h
  unfold IsPrintable
  omega

theorem IsPrintable.not_isStart {c : Char} (h : IsPrintable c) : ¬ IsStart c := by
  unfold IsPrintable at h
  rintro (rfl | hc)
  · simp at h
  · rw [isIntroducer_iff] at hc
    omega

theorem not_isParameter {c : Char} (h : isIntermediate c ∨ isFinal c) : ¬ isParameter c := by
  simp only [isIntermediate_iff, isFinal_iff] at h
  rw [isParameter_iff]
  omega

theorem not_isIntermediate {c : Char} (h : isFinal c) : ¬ isIntermediate c := by
  rw [isFinal_iff] at h
  rw [isIntermediate_iff]
  omega

/-! ## Sequences -/

/-- What a control sequence starts with: an escape character and a second character, or
one control character. -/
inductive IsIntroduction : Text → Prop
  | escape {c : Char} : isSecond c → IsIntroduction ['\x1b', c]
  | control {c : Char} : isIntroducer c → IsIntroduction [c]

/-- The whole text is one control sequence. -/
inductive IsEscape : Text → Prop
  | mk {introduction parameters intermediates : Text} {final : Char} :
      IsIntroduction introduction →
      (∀ c ∈ parameters, isParameter c) →
      (∀ c ∈ intermediates, isIntermediate c) →
      isFinal final →
      IsEscape (introduction ++ (parameters ++ (intermediates ++ [final])))

theorem behindBody?_eq_some {parameters intermediates rest : Text} {final : Char}
    (hp : ∀ c ∈ parameters, isParameter c) (hi : ∀ c ∈ intermediates, isIntermediate c)
    (hf : isFinal final) :
    behindBody? (parameters ++ (intermediates ++ final :: rest)) = some rest := by
  have hdrop : (intermediates ++ final :: rest).dropWhile isParameter =
      intermediates ++ final :: rest := by
    cases intermediates with
    | nil => exact List.dropWhile_cons_of_neg (not_isParameter (.inr hf))
    | cons c cs => exact List.dropWhile_cons_of_neg (not_isParameter (.inl (hi c (by simp))))
  rw [behindBody?, List.dropWhile_append_of_pos hp, hdrop, List.dropWhile_append_of_pos hi,
    List.dropWhile_cons_of_neg (not_isIntermediate hf)]
  simp [hf]

theorem exists_of_behindBody? {s rest : Text} (h : behindBody? s = some rest) :
    ∃ parameters intermediates final,
      (∀ c ∈ parameters, isParameter c) ∧ (∀ c ∈ intermediates, isIntermediate c) ∧
        isFinal final ∧ s = parameters ++ (intermediates ++ final :: rest) := by
  rw [behindBody?] at h
  split at h
  next c tail heq =>
    split at h
    next hf =>
      cases h
      refine ⟨s.takeWhile isParameter, (s.dropWhile isParameter).takeWhile isIntermediate, c,
        List.all_eq_true.1 List.all_takeWhile, List.all_eq_true.1 List.all_takeWhile, hf, ?_⟩
      rw [← heq, List.takeWhile_append_dropWhile, List.takeWhile_append_dropWhile]
    · cases h
  · cases h

/-- The search for a sequence at the start of a text finds every sequence, and it finds no
other. -/
theorem behindEscape?_eq_some {s rest : Text} :
    behindEscape? s = some rest ↔ ∃ e, IsEscape e ∧ s = e ++ rest := by
  constructor
  · intro h
    unfold behindEscape? at h
    split at h
    next c tail =>
      split at h
      next hc =>
        obtain ⟨ps, is, f, hp, hi, hf, rfl⟩ := exists_of_behindBody? h
        exact ⟨_, .mk (.escape hc) hp hi hf, by simp⟩
      · cases h
    next c tail _ =>
      split at h
      next hc =>
        obtain ⟨ps, is, f, hp, hi, hf, rfl⟩ := exists_of_behindBody? h
        exact ⟨_, .mk (.control hc) hp hi hf, by simp⟩
      · cases h
    · cases h
  · rintro ⟨_, ⟨hintro, hp, hi, hf⟩, rfl⟩
    cases hintro with
    | escape hc => simpa [behindEscape?, hc] using behindBody?_eq_some hp hi hf
    | @control c hc =>
      have hne : c ≠ '\x1b' := by
        rintro rfl
        simp [isIntroducer_iff] at hc
      simpa [behindEscape?, hc, hne] using behindBody?_eq_some hp hi hf

theorem isEscape_iff {e : Text} : IsEscape e ↔ behindEscape? e = some [] := by
  rw [behindEscape?_eq_some]
  constructor
  · intro he
    exact ⟨e, he, (List.append_nil e).symm⟩
  · rintro ⟨e', he, rfl⟩
    rwa [List.append_nil]

instance : DecidablePred IsEscape := fun _ => decidable_of_iff _ isEscape_iff.symm

/-- A sequence starts at its first character and nowhere else. -/
theorem IsEscape.eq_cons {e : Text} (h : IsEscape e) :
    ∃ c tail, e = c :: tail ∧ IsStart c ∧ ∀ d ∈ tail, IsPrintable d := by
  obtain @⟨introduction, ps, is, f, hintro, hp, hi, hf⟩ := h
  have hbody : ∀ d ∈ ps ++ (is ++ [f]), IsPrintable d := by
    intro d hd
    simp only [List.mem_append, List.mem_singleton] at hd
    rcases hd with hd | hd | rfl
    · exact isPrintable (.inr (.inl (hp d hd)))
    · exact isPrintable (.inr (.inr (.inl (hi d hd))))
    · exact isPrintable (.inr (.inr (.inr hf)))
  cases hintro with
  | escape hc =>
    refine ⟨_, _, rfl, .inl rfl, ?_⟩
    intro d hd
    rcases List.mem_cons.1 hd with rfl | hd
    · exact isPrintable (.inl hc)
    · exact hbody d hd
  | control hc => exact ⟨_, _, rfl, .inr hc, hbody⟩

/-- A sequence holds no line feed and no carriage return: the escape character is the
first control character in it. -/
theorem IsEscape.not_mem {e : Text} (h : IsEscape e) {c : Char} (hc : c.toNat < 0x1b) : c ∉ e := by
  obtain ⟨d, tail, rfl, hd, htail⟩ := h.eq_cons
  rw [List.mem_cons]
  rintro (rfl | hmem)
  · rcases hd with rfl | hd
    · simp at hc
    · rw [isIntroducer_iff] at hd
      omega
  · have := (htail c hmem).1
    omega

/-! ## Deletions -/

/-- One sequence is taken out of a text. -/
inductive Deletion : Text → Text → Prop
  | mk {e : Text} (ahead behind : Text) :
      IsEscape e → Deletion (ahead ++ e ++ behind) (ahead ++ behind)

theorem not_deletion_nil {t : Text} : ¬ Deletion [] t := by
  generalize hs : ([] : Text) = s
  rintro ⟨ahead, behind, he⟩
  obtain ⟨c, tail, rfl, -⟩ := he.eq_cons
  simp at hs

theorem Deletion.sublist {s t : Text} (h : Deletion s t) : t.Sublist s := by
  obtain ⟨ahead, behind, -⟩ := h
  exact (List.sublist_append_left ..).append_right behind

theorem Deletion.cons {s t : Text} (c : Char) (h : Deletion s t) : Deletion (c :: s) (c :: t) := by
  obtain ⟨ahead, behind, he⟩ := h
  exact .mk (c :: ahead) behind he

/-- The sequence that is taken out of a text starts at the first character or behind it. -/
theorem deletion_cons_iff {c : Char} {s t : Text} :
    Deletion (c :: s) t ↔
      behindEscape? (c :: s) = some t ∨ ∃ t', Deletion s t' ∧ t = c :: t' := by
  constructor
  · generalize hs : c :: s = s'
    rintro ⟨ahead, behind, he⟩
    cases ahead with
    | nil => exact .inl (behindEscape?_eq_some.2 ⟨_, he, rfl⟩)
    | cons d ahead =>
      cases hs
      exact .inr ⟨_, .mk ahead behind he, rfl⟩
  · rintro (h | ⟨t', h, rfl⟩)
    · obtain ⟨e, he, hs⟩ := behindEscape?_eq_some.1 h
      rw [hs]
      exact .mk [] t he
    · exact h.cons c

theorem Deletion.of_append {plain s t : Text} (hplain : ∀ c ∈ plain, IsPrintable c)
    (h : Deletion (plain ++ s) t) : ∃ s', Deletion s s' ∧ t = plain ++ s' := by
  induction plain generalizing t with
  | nil => exact ⟨t, h, rfl⟩
  | cons c plain ih =>
    rcases deletion_cons_iff.1 h with hc | ⟨t', ht', rfl⟩
    · obtain ⟨e, he, hs⟩ := behindEscape?_eq_some.1 hc
      obtain ⟨d, tail, rfl, hd, -⟩ := he.eq_cons
      rw [(List.cons.inj hs).1] at hplain
      exact absurd hd (hplain d (by simp)).not_isStart
    · obtain ⟨s', hs', rfl⟩ := ih (fun d hd => hplain d (by simp [hd])) ht'
      exact ⟨s', hs', rfl⟩

/-- A sequence at the start of a text stays there when another one is taken out. -/
theorem exists_of_behindEscape?_of_deletion {c : Char} {s t u : Text}
    (ht : behindEscape? (c :: s) = some t) (hu : Deletion s u) :
    ∃ v, Deletion t v ∧ Deletion (c :: u) v := by
  obtain ⟨e, he, hs⟩ := behindEscape?_eq_some.1 ht
  obtain ⟨d, tail, rfl, -, htail⟩ := he.eq_cons
  cases hs
  -- `tail` starts no sequence, so the other deletion takes place behind it.
  obtain ⟨v, hv, rfl⟩ := hu.of_append htail
  exact ⟨v, hv, .mk [] v he⟩

/-- Two deletions from a text take out the same sequence or commute. -/
theorem Deletion.diamond {s t u : Text} (ht : Deletion s t) (hu : Deletion s u) :
    t = u ∨ ∃ v, Deletion t v ∧ Deletion u v := by
  induction s generalizing t u with
  | nil => exact absurd ht not_deletion_nil
  | cons c s ih =>
    -- Each deletion is at `c` or behind it. Only two behind it need the induction.
    rcases deletion_cons_iff.1 ht with ht | ⟨t', ht', rfl⟩ <;>
      rcases deletion_cons_iff.1 hu with hu | ⟨u', hu', rfl⟩
    · exact .inl (Option.some.inj (ht.symm.trans hu))
    · exact .inr (exists_of_behindEscape?_of_deletion ht hu')
    · obtain ⟨v, hv, hv'⟩ := exists_of_behindEscape?_of_deletion hu ht'
      exact .inr ⟨v, hv', hv⟩
    · rcases ih ht' hu' with rfl | ⟨v, hv, hv'⟩
      · exact .inl rfl
      · exact .inr ⟨c :: v, hv.cons c, hv'.cons c⟩

/-- Any number of sequences is taken out of a text one after the other. -/
abbrev Deletions : Text → Text → Prop := ReflTransGen Deletion

theorem Deletions.join {s t u : Text} (ht : Deletions s t) (hu : Deletions s u) :
    ∃ v, Deletions t v ∧ Deletions u v := by
  refine church_rosser ?_ ht hu
  intro s t u ht hu
  rcases ht.diamond hu with rfl | ⟨v, htv, huv⟩
  · exact ⟨t, .refl, .refl⟩
  · exact ⟨v, .single htv, .single huv⟩

theorem Deletions.sublist {s t : Text} (h : Deletions s t) : t.Sublist s := by
  induction h with
  | refl => exact .refl s
  | tail _ hstep ih => exact hstep.sublist.trans ih

/-- No sequence is left in the text. -/
def IsBare (s : Text) : Prop := ∀ t, ¬ Deletion s t

theorem IsBare.eq_of_deletions {s t : Text} (hs : IsBare s) (h : Deletions s t) : s = t := by
  rcases ReflTransGen.cases_head h with rfl | ⟨u, hu, -⟩
  · rfl
  · exact absurd hu (hs u)

/-! ## Sweeping -/

/-- What a sweep does follows the text: a sequence is passed over, any other character is
kept. -/
@[elab_as_elim]
theorem sweep_induction {motive : Text → Prop} (nil : motive [])
    (escape : ∀ s behind, behindEscape? s = some behind → motive behind → motive s)
    (plain : ∀ c rest, behindEscape? (c :: rest) = none → motive rest → motive (c :: rest))
    (s : Text) : motive s := by
  induction h : s.length using Nat.strongRecOn generalizing s with
  | _ n ih =>
    subst h
    cases s with
    | nil => exact nil
    | cons c rest =>
      cases hb : behindEscape? (c :: rest) with
      | some behind => exact escape _ behind hb (ih _ (behindEscape?_length hb) behind rfl)
      | none => exact plain c rest hb (ih _ (by simp) rest rfl)

theorem deletions_sweep (s : Text) : Deletions s (sweep s) := by
  induction s using sweep_induction with
  | nil =>
    rw [sweep_nil]
  | escape s behind h ih =>
    obtain ⟨e, he, rfl⟩ := behindEscape?_eq_some.1 h
    rw [sweep_of_escape h]
    exact .head (.mk [] behind he) ih
  | plain c rest h ih =>
    rw [sweep_of_plain h]
    exact ih.lift (c :: ·) fun _ _ => Deletion.cons c

theorem length_sweep_le (s : Text) : (sweep s).length ≤ s.length :=
  (deletions_sweep s).sublist.length_le

/-- A sweep takes out at least one sequence if there is any. -/
theorem length_sweep_lt {s t : Text} (hs : Deletion s t) : (sweep s).length < s.length := by
  induction s using sweep_induction generalizing t with
  | nil => exact absurd hs not_deletion_nil
  | escape s behind h _ =>
    rw [sweep_of_escape h]
    exact Nat.lt_of_le_of_lt (length_sweep_le behind) (behindEscape?_length h)
  | plain c rest h ih =>
    rw [sweep_of_plain h]
    rcases deletion_cons_iff.1 hs with hs | ⟨t', hs', -⟩
    · cases h.symm.trans hs
    · exact Nat.succ_lt_succ (ih hs')

/-! ## Stripping -/

theorem deletions_strip (s : Text) : Deletions s (strip s) := by
  fun_induction strip s with
  | case1 s _ ih => exact (deletions_sweep s).trans ih
  | case2 s _ => exact .refl

theorem isBare_strip (s : Text) : IsBare (strip s) := by
  fun_induction strip s with
  | case1 s _ ih => exact ih
  | case2 s h =>
    intro t ht
    exact h (length_sweep_lt ht)

theorem strip_sublist (s : Text) : (strip s).Sublist s :=
  (deletions_strip s).sublist

/-- Texts that lead to a common text by deletions have the same stripped text. -/
theorem strip_eq_of_deletions {s t : Text} (h : Deletions s t) : strip s = strip t := by
  obtain ⟨u, hs, ht⟩ := (deletions_strip s).join (h.trans (deletions_strip t))
  rw [(isBare_strip s).eq_of_deletions hs, (isBare_strip t).eq_of_deletions ht]

/-- A sequence put anywhere into a text changes nothing of what stays of it. -/
theorem strip_insert (ahead behind : Text) {e : Text} (he : IsEscape e) :
    strip (ahead ++ e ++ behind) = strip (ahead ++ behind) :=
  strip_eq_of_deletions (.single (.mk ahead behind he))

end BuildLog.Text
