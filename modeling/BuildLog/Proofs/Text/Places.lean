-- SUMMARY: The first and the last place of a word in a text.
import BuildLog.Proofs.Text.Parts

/-!
# Places of a word

The search from the start of a text finds the first place of a word, and the walk to its end finds
the last one. The words that are looked for at the end of a line start with a character that they
have only there. Two places of such a word do not overlap, so the last place is the one without
another place in the text behind it.
-/

namespace BuildLog.Text

variable {s t word before behind : Text} {ok : Text → Bool} {c : Char}

/-! ## The first place -/

/-- What stands before and behind the first place of the word. -/
structure IsFirstPlace (word s before behind : Text) : Prop where
  eq : s = before ++ word ++ behind
  first : ∀ before' behind', s = before' ++ word ++ behind' → before.length ≤ before'.length

theorem exists_isFirstPlace (h : s.after? word = some behind) :
    ∃ before, IsFirstPlace word s before behind := by
  induction s with
  | nil => exact ⟨[], behind?_eq_some.1 h, fun _ _ _ => Nat.zero_le _⟩
  | cons c s ih =>
    simp only [after?] at h
    split at h
    · next rest hrest =>
      cases h
      exact ⟨[], behind?_eq_some.1 hrest, fun _ _ _ => Nat.zero_le _⟩
    · next hnone =>
      obtain ⟨before, heq, hfirst⟩ := ih h
      refine ⟨c :: before, congrArg (c :: ·) heq, ?_⟩
      intro before' behind' heq'
      cases before' with
      | nil => cases hnone.symm.trans (behind?_eq_some.2 heq')
      | cons c' before' =>
        exact Nat.succ_le_succ (hfirst before' behind' (List.cons.inj heq').2)

/-! ## The walk to the last place -/

theorem splitLastFrom_eq_or (seen : Text) (best : Option (Text × Text)) (s : Text) :
    splitLastFrom word ok seen best s = (splitLastFrom word ok seen none s).or best := by
  induction s generalizing seen best with
  | nil => rfl
  | cons c s ih =>
    simp only [splitLastFrom]
    split
    · next behind _ =>
      rw [ih, ih _ (if ok behind then some (seen, behind) else none), Option.or_assoc]
      cases ok behind <;> rfl
    · exact ih (c :: seen) best

theorem splitLastFrom_append (seen ahead : Text) (best : Option (Text × Text)) (s : Text) :
    splitLastFrom word ok (seen ++ ahead) (best.map fun place => (place.1 ++ ahead, place.2)) s =
      (splitLastFrom word ok seen best s).map fun place => (place.1 ++ ahead, place.2) := by
  induction s generalizing seen best with
  | nil => rfl
  | cons c s ih =>
    simp only [splitLastFrom]
    split
    · next behind _ =>
      simp only [← ih, List.cons_append]
      cases ok behind <;> rfl
    · exact ih (c :: seen) best

/-- The last place of a word is that in the rest of the text, unless there is none. -/
theorem splitLast?_cons (c : Char) (s : Text) :
    splitLast? (c :: s) word ok =
      ((splitLast? s word ok).map fun place => (c :: place.1, place.2)).or
        (((behind? (c :: s) word).filter ok).map fun behind => ([], behind)) := by
  have hmoved : splitLastFrom word ok [c] none s =
      (splitLastFrom word ok [] none s).map fun place => (place.1 ++ [c], place.2) :=
    splitLastFrom_append [] [c] none s
  simp only [splitLast?, splitLastFrom]
  split
  · next behind hbehind =>
    rw [splitLastFrom_eq_or, hmoved, hbehind, Option.map_or]
    cases hok : ok behind <;> simp [Option.filter, hok, Function.comp_def]
  · next hbehind =>
    rw [hmoved, hbehind]
    simp [Function.comp_def]

/-! ## The last place -/

/-- A character that the text `a` lacks stands in what follows it. -/
theorem exists_of_append_cons_eq {a b x w : Text} (hc : c ∉ a) (h : x ++ c :: w = a ++ b) :
    ∃ x', x = a ++ x' ∧ b = x' ++ c :: w := by
  rcases List.append_eq_append_iff.1 h with ⟨t, ha, hw⟩ | ⟨t, hx, hb⟩
  · cases t with
    | nil => exact ⟨[], by simpa using ha.symm, hw.symm⟩
    | cons c' t =>
      obtain ⟨rfl, -⟩ := List.cons.inj hw
      exact absurd (by simp [ha]) hc
  · exact ⟨t, hx, hb⟩

/-- What stands before and behind the last place of the word that is followed by a text satisfying
`ok`. -/
structure IsLastPlace (ok : Text → Bool) (word s before behind : Text) : Prop where
  eq : s = before ++ word ++ behind
  follows : ok behind
  last : ∀ x rest, behind = x ++ word ++ rest → ¬ ok rest

theorem isLastPlace_iff :
    IsLastPlace (fun _ => true) word s before behind ↔
      s = before ++ word ++ behind ∧ ¬ word <:+: behind := by
  constructor
  · intro h
    refine ⟨h.eq, ?_⟩
    rintro ⟨x, rest, heq⟩
    exact h.last x rest heq.symm rfl
  · rintro ⟨heq, hinfix⟩
    exact ⟨heq, rfl, fun x rest hbehind _ => hinfix ⟨x, rest, hbehind.symm⟩⟩

theorem IsLastPlace.cons (h : IsLastPlace ok word s before behind) (c : Char) :
    IsLastPlace ok word (c :: s) (c :: before) behind :=
  ⟨congrArg (c :: ·) h.eq, h.follows, h.last⟩

theorem splitLast?_cases (ok : Text → Bool) (hword : word ≠ []) (s : Text) :
    match s.splitLast? word ok with
    | some (before, behind) => IsLastPlace ok word s before behind
    | none => ∀ before behind, s = before ++ word ++ behind → ¬ ok behind := by
  induction s with
  | nil =>
    intro before behind h
    simp [hword] at h
  | cons c s ih =>
    rw [splitLast?_cons]
    cases hs : splitLast? s word ok with
    | some place =>
      rw [hs] at ih
      exact ih.cons c
    | none =>
      rw [hs] at ih
      -- The rest of the text has no place, so there is one at the start or nowhere.
      cases hhead : (behind? (c :: s) word).filter ok with
      | some behind =>
        obtain ⟨hbehind, hok⟩ := Option.filter_eq_some_iff.1 hhead
        have heq := behind?_eq_some.1 hbehind
        refine ⟨heq, hok, ?_⟩
        intro x rest hrest
        obtain ⟨c', word', rfl⟩ := List.exists_cons_of_ne_nil hword
        refine ih (word' ++ x) rest ?_
        rw [(List.cons.inj heq).2, hrest]
        simp
      | none =>
        intro before behind heq hok
        cases before with
        | nil =>
          have hbehind : behind? (c :: s) word = some behind := behind?_eq_some.2 heq
          simp [hbehind, Option.filter, hok] at hhead
        | cons c' before => exact ih before behind (List.cons.inj heq).2 hok

theorem splitLast?_eq_none_iff (hword : word ≠ []) :
    s.splitLast? word ok = none ↔ ∀ before behind, s = before ++ word ++ behind → ¬ ok behind := by
  have hcases := splitLast?_cases ok hword s
  cases hs : s.splitLast? word ok with
  | none => simpa [hs] using hcases
  | some place =>
    rw [hs] at hcases
    simp only [reduceCtorEq, false_iff]
    intro hnone
    exact hnone _ _ hcases.eq hcases.follows

/-- No place of the word is further behind. -/
theorem IsLastPlace.eq_of_append {w behind' : Text} (hc : c ∉ w)
    (h : IsLastPlace ok (c :: w) s before behind) (heq : s = before ++ t ++ c :: w ++ behind')
    (hok : ok behind') : t = [] := by
  cases t with
  | nil => rfl
  | cons c' t =>
    have hplaces : before ++ c :: (w ++ behind) = before ++ c' :: (t ++ c :: (w ++ behind')) := by
      simpa using h.eq.symm.trans heq
    have htail := List.append_cancel_left hplaces
    obtain ⟨x, -, hbehind⟩ := exists_of_append_cons_eq hc (List.cons.inj htail).2.symm
    exact absurd hok (h.last x behind' (by simpa using hbehind))

theorem IsLastPlace.unique {w before' behind' : Text} (hc : c ∉ w)
    (h : IsLastPlace ok (c :: w) s before behind)
    (h' : IsLastPlace ok (c :: w) s before' behind') :
    before = before' ∧ behind = behind' := by
  have hbefore : before = before' := by
    have heq : before ++ (c :: w ++ behind) = before' ++ (c :: w ++ behind') := by
      simpa using h.eq.symm.trans h'.eq
    rcases List.append_eq_append_iff.1 heq with ⟨t, rfl, -⟩ | ⟨t, rfl, -⟩
    · rw [h.eq_of_append hc h'.eq h'.follows, List.append_nil]
    · rw [h'.eq_of_append hc h.eq h.follows, List.append_nil]
  refine ⟨hbefore, ?_⟩
  have heq := h.eq.symm.trans h'.eq
  rw [hbefore] at heq
  exact List.append_cancel_left heq

/-- A word that has its first character only there has one last place. -/
theorem splitLast?_eq_some_iff {w : Text} (hc : c ∉ w) :
    s.splitLast? (c :: w) ok = some (before, behind) ↔
      IsLastPlace ok (c :: w) s before behind := by
  have hcases := splitLast?_cases ok (List.cons_ne_nil c w) s
  constructor
  · intro h
    rwa [h] at hcases
  · intro h
    cases hs : s.splitLast? (c :: w) ok with
    | none =>
      rw [hs] at hcases
      exact absurd h.follows (hcases before behind h.eq)
    | some place =>
      rw [hs] at hcases
      obtain ⟨rfl, rfl⟩ := h.unique hc hcases
      rfl

end BuildLog.Text
