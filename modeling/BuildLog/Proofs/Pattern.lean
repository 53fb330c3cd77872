-- SUMMARY: What patterns match: texts of their language in the first way that is tried, and the last place of a word behind a greedy run.
import BuildLog.Pattern
import BuildLog.Proofs.Text.Places
import Mathlib.Computability.Language

/-!
# Matches of a pattern

A pattern has a language, and it matches where a text of the language stands. Of the ways to match
the first one counts, and a longer run is tried before a shorter one. A greedy run thus gives
characters back until the rest of the pattern matches. If a word stands behind the run in the
pattern, the match takes the last place of that word from which the pattern can go on. No match
goes past a line feed, unless a class of the pattern takes it.
-/

namespace BuildLog

variable {cls : CharClass} {c : Char} {s tail word rest : Text} {β : Type}

namespace CharClass

theorem takes_any (hs : '\n' ∉ s) : ∀ c ∈ s, any.takes c := by
  intro c hc
  simpa [takes] using ne_of_mem_of_not_mem hc hs

theorem restsFrom_eq (cls : CharClass) (shorter : List Text) (s : Text) :
    cls.restsFrom shorter s = cls.rests s ++ shorter := by
  induction s generalizing shorter with
  | nil => rfl
  | cons c s ih =>
    simp only [rests, restsFrom]
    split
    · rw [ih, ih [c :: s], List.append_assoc]
      rfl
    · rfl

theorem rests_cons_of_takes (h : cls.takes c) (s : Text) :
    cls.rests (c :: s) = cls.rests s ++ [c :: s] := by
  rw [rests, restsFrom, if_pos h, restsFrom_eq]

theorem rests_cons_of_not_takes (h : ¬ cls.takes c) (s : Text) : cls.rests (c :: s) = [c :: s] := by
  rw [rests, restsFrom, if_neg h]

/-- A run ends where a character is not taken, whatever stands behind that one. -/
theorem rests_append (hends : ∀ c ∈ tail.head?, ¬ cls.takes c) (s : Text) :
    cls.rests (s ++ tail) = (cls.rests s).map (· ++ tail) := by
  induction s with
  | nil =>
    cases tail with
    | nil => rfl
    | cons c tail => exact rests_cons_of_not_takes (hends c rfl) tail
  | cons c s ih =>
    by_cases hc : cls.takes c
    · rw [List.cons_append, rests_cons_of_takes hc, rests_cons_of_takes hc, ih, List.map_append]
      rfl
    · rw [List.cons_append, rests_cons_of_not_takes hc, rests_cons_of_not_takes hc]
      rfl

/-- The longest run comes first. -/
theorem head?_rests (cls : CharClass) (s : Text) :
    (cls.rests s).head? = some (s.dropWhile cls.takes) := by
  induction s with
  | nil => rfl
  | cons c s ih =>
    by_cases hc : cls.takes c
    · rw [rests_cons_of_takes hc, List.head?_append, ih, List.dropWhile_cons_of_pos hc]
      rfl
    · rw [rests_cons_of_not_takes hc, List.dropWhile_cons_of_neg hc]
      rfl

theorem mem_rests_iff :
    rest ∈ cls.rests s ↔ ∃ taken, (∀ c ∈ taken, cls.takes c) ∧ taken ++ rest = s := by
  induction s with
  | nil =>
    rw [rests, restsFrom, List.mem_singleton]
    constructor
    · rintro rfl
      exact ⟨[], by simp, rfl⟩
    · rintro ⟨taken, -, heq⟩
      exact (List.append_eq_nil_iff.1 heq).2
  | cons c s ih =>
    have hself : ∃ taken : Text, (∀ c ∈ taken, cls.takes c) ∧ taken ++ c :: s = c :: s :=
      ⟨[], by simp, rfl⟩
    by_cases hc : cls.takes c
    · rw [rests_cons_of_takes hc, List.mem_append, List.mem_singleton, ih]
      constructor
      · rintro (⟨taken, htaken, rfl⟩ | rfl)
        · exact ⟨c :: taken, List.forall_mem_cons.2 ⟨hc, htaken⟩, rfl⟩
        · exact hself
      · rintro ⟨taken, htaken, heq⟩
        cases taken with
        | nil => exact .inr heq
        | cons c' taken =>
          obtain ⟨rfl, rfl⟩ := List.cons.inj heq
          exact .inl ⟨taken, (List.forall_mem_cons.1 htaken).2, rfl⟩
    · rw [rests_cons_of_not_takes hc, List.mem_singleton]
      constructor
      · rintro rfl
        exact hself
      · rintro ⟨taken, htaken, heq⟩
        cases taken with
        | nil => exact heq
        | cons c' taken =>
          obtain ⟨rfl, -⟩ := List.cons.inj heq
          exact absurd (htaken c' List.mem_cons_self) hc

/-- A longer run is tried before a shorter one. -/
theorem rests_sorted (cls : CharClass) (s : Text) :
    (cls.rests s).Pairwise (·.length < ·.length) := by
  induction s with
  | nil => exact List.pairwise_singleton ..
  | cons c s ih =>
    by_cases hc : cls.takes c
    · rw [rests_cons_of_takes hc, List.pairwise_append]
      refine ⟨ih, List.pairwise_singleton .., fun rest hrest whole hwhole => ?_⟩
      obtain ⟨taken, -, rfl⟩ := mem_rests_iff.1 hrest
      rw [List.mem_singleton.1 hwhole, List.length_cons, List.length_append]
      exact Nat.lt_succ_of_le (Nat.le_add_left ..)
    · rw [rests_cons_of_not_takes hc]
      exact List.pairwise_singleton ..

/-- A greedy run with a word behind it ends at the last place of the word from which one can go
on. -/
theorem findSome?_rests (hword : word ≠ []) (hs : ∀ c ∈ s, cls.takes c)
    (f : Text → Option β) :
    ((cls.rests s).findSome? fun rest => (rest.behind? word).bind f) =
      (s.splitLast? word fun behind => (f behind).isSome).bind fun place => f place.2 := by
  induction s with
  | nil =>
    have hnone : Text.behind? [] word = none := by
      cases word with
      | nil => exact absurd rfl hword
      | cons c word => rfl
    simp [rests, restsFrom, hnone, Text.splitLast?, Text.splitLastFrom]
  | cons c s ih =>
    obtain ⟨hc, hs⟩ := List.forall_mem_cons.1 hs
    rw [rests_cons_of_takes hc, List.findSome?_append, ih hs, Text.splitLast?_cons]
    have hcases := Text.splitLast?_cases (fun behind => (f behind).isSome) hword s
    cases hplace : Text.splitLast? s word fun behind => (f behind).isSome with
    | some place =>
      rw [hplace] at hcases
      obtain ⟨b, hb⟩ := Option.isSome_iff_exists.1 hcases.follows
      simp [hb]
    | none =>
      cases hbehind : Text.behind? (c :: s) word with
      | none => simp [hbehind]
      | some behind => cases hb : f behind <;> simp [hbehind, hb, Option.filter]

end CharClass

namespace Pattern

variable {p q : Pattern} {groups : List Text} {next : List Text → Text → Option β}

/-! ## One construct at a time -/

theorem first?_empty : empty.first? groups s next = next groups s := rfl

theorem first?_append :
    (p ++ q).first? groups s next =
      p.first? groups s fun groups rest => q.first? groups rest next := rfl

theorem first?_many :
    (many cls).first? groups s next = (cls.rests s).findSome? (next groups) := rfl

theorem first?_alt :
    (alt p q).first? groups s next = (p.first? groups s next <|> q.first? groups s next) := rfl

theorem first?_group :
    (group p).first? groups s next =
      p.first? groups s fun groups rest =>
        next (groups ++ [s.take (s.length - rest.length)]) rest := rfl

theorem first?_word :
    (Pattern.word word).first? groups s next = (s.behind? word).bind (next groups) := by
  induction word generalizing s with
  | nil => simp [Pattern.word, first?_empty, Text.behind?]
  | cons c word ih =>
    rw [Pattern.word, first?_append]
    cases s with
    | nil => rfl
    | cons c' s =>
      by_cases hc : c' = c
      · subst hc
        simp [first?, CharClass.takes, ih, Text.behind?]
      · simp [first?, CharClass.takes, Text.behind?, hc, Ne.symm hc]

/-- Two words to choose from, with the same words around them. -/
theorem first?_alt_words (lead first second gap : Text) :
    (Pattern.word lead ++ alt (Pattern.word first) (Pattern.word second) ++
        Pattern.word gap).first? groups s next =
      ((s.behind? (lead ++ first ++ gap)).bind (next groups) <|>
        (s.behind? (lead ++ second ++ gap)).bind (next groups)) := by
  simp only [first?_append, first?_alt, first?_word, Text.behind?_append, Option.bind_assoc]
  cases s.behind? lead <;> rfl

/-- At the end of a pattern, nothing makes a run give characters back. -/
theorem first?_many_of_some (b : List Text → Text → β) :
    ((many cls).first? groups s fun groups rest => some (b groups rest)) =
      some (b groups (s.dropWhile cls.takes)) := by
  have hlongest := cls.head?_rests s
  rw [first?_many]
  cases hrests : cls.rests s with
  | nil =>
    rw [hrests] at hlongest
    cases hlongest
  | cons rest rests =>
    rw [hrests] at hlongest
    cases hlongest
    rfl

theorem first?_atLeastOne_of_some (b : List Text → Text → β) :
    ((atLeastOne cls).first? groups s fun groups rest => some (b groups rest)) =
      if s.head?.any cls.takes then some (b groups (s.dropWhile cls.takes)) else none := by
  cases s with
  | nil => rfl
  | cons c s =>
    rw [atLeastOne, first?_append]
    by_cases hc : cls.takes c
    · simp [first?, hc, ← first?_many_of_some]
    · simp [first?, hc]

/-- A word at the end of a pattern is captured as a whole. -/
theorem first?_group_atLeastOne :
    ((group (atLeastOne cls)).first? groups s fun groups _ => some groups) =
      if s.head?.any cls.takes then some (groups ++ [s.takeWhile cls.takes]) else none := by
  have htaken : s.take (s.length - (s.dropWhile cls.takes).length) = s.takeWhile cls.takes := by
    have hparts : s.takeWhile cls.takes ++ s.dropWhile cls.takes = s :=
      List.takeWhile_append_dropWhile
    have hlength := congrArg List.length hparts
    rw [List.length_append] at hlength
    rw [← hlength, Nat.add_sub_cancel]
    exact (List.prefix_iff_eq_take.1 ⟨_, hparts⟩).symm
  rw [first?_group, first?_atLeastOne_of_some, htaken]

/-! ## Ways to match -/

/-- The ways to match at the start of a text, in the order in which they are tried: what is
captured, and what stands behind the match. -/
def ways : Pattern → List Text → Text → List (List Text × Text)
  | empty, groups, s => [(groups, s)]
  | one _, _, [] => []
  | one cls, groups, c :: s => if cls.takes c then [(groups, s)] else []
  | many cls, groups, s => (cls.rests s).map fun rest => (groups, rest)
  | seq p q, groups, s => (p.ways groups s).flatMap fun (groups, rest) => q.ways groups rest
  | alt p q, groups, s => p.ways groups s ++ q.ways groups s
  | group p, groups, s =>
    (p.ways groups s).map fun (groups, rest) =>
      (groups ++ [s.take (s.length - rest.length)], rest)

/-- The first way from which one can go on is the one that counts. -/
theorem first?_eq_findSome?_ways :
    p.first? groups s next = (p.ways groups s).findSome? fun (groups, rest) => next groups rest := by
  induction p generalizing groups s next with
  | empty => simp [first?, ways]
  | one cls =>
    cases s with
    | nil => rfl
    | cons c s =>
      rw [first?, ways]
      split <;> simp
  | many cls =>
    rw [first?_many, ways, List.findSome?_map]
    rfl
  | seq p q ihp ihq =>
    have hflat := List.head?_filterMap (l := (seq p q).ways groups s)
      (f := fun (groups, rest) => next groups rest)
    rw [ways, List.filterMap_flatMap, List.head?_flatMap] at hflat
    simp only [List.head?_filterMap] at hflat
    rw [first?, ihp, ways, ← hflat]
    simp only [ihq]
  | alt p q ihp ihq =>
    rw [first?_alt, ways, List.findSome?_append, ihp, ihq]
    exact Option.orElse_eq_or
  | group p ih =>
    rw [first?_group, ways, List.findSome?_map, ih]
    rfl

theorem captures?_eq_head?_ways (p : Pattern) (s : Text) :
    p.captures? s = (p.ways [] s).head?.map (·.1) := by
  rw [captures?, first?_eq_findSome?_ways]
  cases p.ways [] s <;> rfl

/-! ## Languages -/

/-- The texts that a pattern takes as a whole. -/
def language : Pattern → Language Char
  | empty => 1
  | one cls => {s | ∃ c, cls.takes c ∧ s = [c]}
  | many cls => {s | ∀ c ∈ s, cls.takes c}
  | seq p q => p.language * q.language
  | alt p q => p.language + q.language
  | group p => p.language

theorem mem_language_append :
    s ∈ (p ++ q).language ↔ ∃ a ∈ p.language, ∃ b ∈ q.language, a ++ b = s :=
  Language.mem_mul

theorem mem_language_word : s ∈ (Pattern.word word).language ↔ s = word := by
  induction word generalizing s with
  | nil => exact Language.mem_one s
  | cons c word ih =>
    rw [Pattern.word, mem_language_append]
    constructor
    · rintro ⟨_, ⟨c', hc', rfl⟩, b, hb, rfl⟩
      rw [ih.1 hb, beq_iff_eq.1 hc']
      rfl
    · rintro rfl
      exact ⟨[c], ⟨c, beq_self_eq_true c, rfl⟩, word, ih.2 rfl, rfl⟩

/-- Each way takes a text of the language, and each such text is taken in some way. -/
theorem exists_mem_ways_iff :
    (∃ captured, (captured, rest) ∈ p.ways groups s) ↔ ∃ taken ∈ p.language, taken ++ rest = s := by
  induction p generalizing groups s rest with
  | empty =>
    simp [ways, language, Language.mem_one, eq_comm]
  | one cls =>
    cases s with
    | nil =>
      refine iff_of_false (by simp [ways]) ?_
      rintro ⟨_, ⟨c, -, rfl⟩, heq⟩
      cases heq
    | cons c s =>
      by_cases hc : cls.takes c
      · rw [ways, if_pos hc]
        constructor
        · rintro ⟨captured, h⟩
          cases List.mem_singleton.1 h
          exact ⟨[c], ⟨c, hc, rfl⟩, rfl⟩
        · rintro ⟨_, ⟨c', -, rfl⟩, heq⟩
          cases heq
          exact ⟨groups, List.mem_singleton_self _⟩
      · rw [ways, if_neg hc]
        refine iff_of_false (by simp) ?_
        rintro ⟨_, ⟨c', hc', rfl⟩, heq⟩
        cases heq
        exact hc hc'
  | many cls =>
    refine Iff.trans ?_ CharClass.mem_rests_iff
    simp [ways]
  | seq p q ihp ihq =>
    simp only [ways, List.mem_flatMap, Prod.exists]
    constructor
    · rintro ⟨captured, groups', middle, hp, hq⟩
      obtain ⟨a, ha, rfl⟩ := ihp.1 ⟨groups', hp⟩
      obtain ⟨b, hb, rfl⟩ := ihq.1 ⟨captured, hq⟩
      exact ⟨a ++ b, Language.append_mem_mul ha hb, List.append_assoc ..⟩
    · rintro ⟨_, ⟨a, ha, b, hb, rfl⟩, rfl⟩
      obtain ⟨groups', hp⟩ := ihp.2 ⟨a, ha, (List.append_assoc ..).symm⟩
      obtain ⟨captured, hq⟩ := ihq.2 ⟨b, hb, rfl⟩
      exact ⟨captured, groups', _, hp, hq⟩
  | alt p q ihp ihq =>
    simp only [ways, List.mem_append, exists_or, ihp, ihq, language, Language.mem_add, or_and_right]
  | group p ih =>
    rw [language, ← ih]
    simp only [ways, List.mem_map, Prod.mk.injEq, Prod.exists]
    constructor
    · rintro ⟨captured, groups', rest', h, -, rfl⟩
      exact ⟨groups', h⟩
    · rintro ⟨groups', h⟩
      exact ⟨_, groups', rest, h, rfl, rfl⟩

/-- A pattern matches exactly if a text of its language stands at the start. -/
theorem isMatch_iff (p : Pattern) (s : Text) : p.isMatch s ↔ ∃ taken ∈ p.language, taken <+: s := by
  have hsome : p.isMatch s ↔ ∃ rest captured, (captured, rest) ∈ p.ways [] s := by
    rw [isMatch, captures?_eq_head?_ways, Option.isSome_map, List.isSome_head?,
      ← List.isEmpty_eq_false_iff, List.isEmpty_eq_false_iff_exists_mem, Prod.exists, exists_comm]
  simp only [hsome, exists_mem_ways_iff]
  exact ⟨fun ⟨rest, taken, h, heq⟩ => ⟨taken, h, rest, heq⟩, fun ⟨taken, h, rest, heq⟩ => ⟨rest, taken, h, heq⟩⟩

/-! ## A greedy run ahead of a word -/

/-- A run with a word behind it can be matched exactly if the word has a place from which the
pattern can go on. -/
theorem isSome_first?_run_iff (hword : word ≠ []) (hs : ∀ c ∈ s, cls.takes c) :
    ((many cls ++ Pattern.word word).first? groups s next).isSome ↔
      ∃ before behind, s = before ++ word ++ behind ∧ (next groups behind).isSome := by
  rw [first?_append, first?_many]
  simp only [first?_word]
  rw [CharClass.findSome?_rests hword hs]
  have hcases := Text.splitLast?_cases (fun behind => (next groups behind).isSome) hword s
  cases hplace : Text.splitLast? s word fun behind => (next groups behind).isSome with
  | some place =>
    rw [hplace] at hcases
    exact iff_of_true hcases.follows ⟨_, _, hcases.eq, hcases.follows⟩
  | none =>
    rw [hplace] at hcases
    exact iff_of_false Bool.false_ne_true fun ⟨before, behind, heq, hok⟩ =>
      hcases before behind heq hok

/-- A run with a word behind it ends at the last place of the word from which the pattern can go
on. -/
theorem first?_run_eq_some_iff {b : β} (hc : c ∉ word) (hs : ∀ c ∈ s, cls.takes c) :
    (many cls ++ Pattern.word (c :: word)).first? groups s next = some b ↔
      ∃ before behind, Text.IsLastPlace (fun behind => (next groups behind).isSome) (c :: word) s
        before behind ∧ next groups behind = some b := by
  rw [first?_append, first?_many]
  simp only [first?_word]
  rw [CharClass.findSome?_rests (List.cons_ne_nil c word) hs, Option.bind_eq_some_iff]
  constructor
  · rintro ⟨⟨before, behind⟩, hplace, hb⟩
    exact ⟨before, behind, (Text.splitLast?_eq_some_iff hc).1 hplace, hb⟩
  · rintro ⟨before, behind, hplace, hb⟩
    exact ⟨(before, behind), (Text.splitLast?_eq_some_iff hc).2 hplace, hb⟩

theorem take_length_sub (before word behind : Text) :
    (before ++ word ++ behind).take ((before ++ word ++ behind).length - (word ++ behind).length) =
      before := by
  rw [List.append_assoc, List.length_append, Nat.add_sub_cancel, List.take_left]

/-- A run that is captured is matched like any other. -/
theorem first?_group_run :
    (group (many cls) ++ Pattern.word word).first? groups s next =
      (many cls ++ Pattern.word word).first? groups s fun groups behind =>
        next (groups ++ [s.take (s.length - (word ++ behind).length)]) behind := by
  rw [first?_append, first?_append, first?_group, first?_many, first?_many]
  congr 1
  funext rest
  rw [first?_word, first?_word]
  cases hbehind : rest.behind? word with
  | none => rfl
  | some behind =>
    obtain rfl := Text.behind?_eq_some.1 hbehind
    rfl

/-- What a run captures ends at the last place of the word. -/
theorem first?_group_run_eq_some_iff {b : β} {ok : Text → Bool} (hc : c ∉ word)
    (hs : ∀ c ∈ s, cls.takes c) (hok : ∀ groups behind, (next groups behind).isSome = ok behind) :
    (group (many cls) ++ Pattern.word (c :: word)).first? groups s next = some b ↔
      ∃ taken behind, Text.IsLastPlace ok (c :: word) s taken behind ∧
        next (groups ++ [taken]) behind = some b := by
  rw [first?_group_run, first?_run_eq_some_iff hc hs]
  simp only [hok]
  refine exists_congr fun before => exists_congr fun behind => and_congr_right fun hplace => ?_
  rw [hplace.eq, take_length_sub]

/-! ## Matches in one line -/

/-- Whether no class of the pattern takes a line feed. -/
def isOneLine : Pattern → Bool
  | empty => true
  | one cls | many cls => !cls.takes '\n'
  | seq p q | alt p q => p.isOneLine && q.isOneLine
  | group p => p.isOneLine

/-- What stands behind the end of a line has no part in a match. -/
theorem first?_append_tail (h : p.isOneLine) (htail : ∀ c ∈ tail.head?, c = '\n') :
    p.first? groups (s ++ tail) next =
      p.first? groups s fun groups rest => next groups (rest ++ tail) := by
  induction p generalizing groups s next with
  | empty => rfl
  | one cls =>
    cases s with
    | nil =>
      cases tail with
      | nil => rfl
      | cons c tail =>
        obtain rfl := htail c rfl
        exact if_neg (by simpa [isOneLine] using h)
    | cons c s => rfl
  | many cls =>
    have hends : ∀ c ∈ tail.head?, ¬ cls.takes c := by
      intro c hc
      rw [htail c hc]
      simpa [isOneLine] using h
    rw [first?_many, CharClass.rests_append hends, List.findSome?_map]
    rfl
  | seq p q ihp ihq =>
    obtain ⟨hp, hq⟩ := Bool.and_eq_true_iff.1 h
    change p.first? _ _ _ = p.first? _ _ _
    rw [ihp hp]
    congr 1
    funext groups rest
    exact ihq hq
  | alt p q ihp ihq =>
    obtain ⟨hp, hq⟩ := Bool.and_eq_true_iff.1 h
    rw [first?_alt, first?_alt, ihp hp, ihq hq]
  | group p ih =>
    rw [first?_group, first?_group, ih h]
    congr 1
    funext groups rest
    have htaken : (s ++ tail).take ((s ++ tail).length - (rest ++ tail).length) =
        s.take (s.length - rest.length) := by
      rw [List.length_append, List.length_append, Nat.add_sub_add_right,
        List.take_append_of_le_length (Nat.sub_le ..)]
    rw [htaken]

theorem captures?_firstLine (h : p.isOneLine) (s : Text) :
    p.captures? s.firstLine = p.captures? s := by
  obtain ⟨tail, hs, htail⟩ : ∃ tail, s = s.firstLine ++ tail ∧ ∀ c ∈ tail.head?, c = '\n' := by
    refine ⟨s.dropWhile (· != '\n'), (List.takeWhile_append_dropWhile ..).symm, ?_⟩
    intro c hc
    have hstop := List.head?_dropWhile_not (· != '\n') s
    rw [Option.mem_def.1 hc] at hstop
    simpa using hstop
  have hmatch : p.captures? (s.firstLine ++ tail) = p.captures? s.firstLine :=
    first?_append_tail h htail
  rw [← hs] at hmatch
  exact hmatch.symm

end Pattern

end BuildLog
