-- SUMMARY: The one way in which the pattern of targets matches a banner of a Maven log, and that no such banner is passed over.
import BuildLog.Layout.Maven
import BuildLog.Proofs.Log.Nearest
import BuildLog.Proofs.Pattern

/-!
# Targets that a banner names

Behind its rule a banner may have parentheses and signs between them at many places. The module
stands behind the last sign that a word follows, and the execution stands ahead of that sign, behind
the last parenthesis that opens there.
-/

namespace BuildLog.Maven

variable {banner body plugin execution unit tail : Text}

/-! ## Parts of a banner -/

/-- What stands behind the level and the rule of a banner. -/
def behindRule? (line : Text) : Option Text :=
  line.behind? "[INFO] --- ".toList <|> line.behind? "[INFO] >>> ".toList

def startsWithWord (s : Text) : Bool :=
  s.head?.any fun c => !isBlank c

theorem behindRule?_eq_some_iff :
    behindRule? banner = some body ↔
      banner = "[INFO] --- ".toList ++ body ∨ banner = "[INFO] >>> ".toList ++ body := by
  rw [behindRule?, ← Text.behind?_eq_some, ← Text.behind?_eq_some]
  cases hrule : banner.behind? "[INFO] --- ".toList with
  | some rest =>
    -- A banner starts with one of the two rules only.
    have hother : banner.behind? "[INFO] >>> ".toList = none := by
      rw [Text.behind?_eq_some.1 hrule]
      rfl
    rw [hother]
    exact (or_iff_left (Option.some_ne_none body).symm).symm
  | none => exact (or_iff_right (Option.some_ne_none body).symm).symm

/-- What stands behind the rule of a banner that names this target. -/
structure HasTarget (body plugin execution unit tail : Text) : Prop where
  eq : body = plugin ++ " (".toList ++ execution ++ ") @ ".toList ++ (unit ++ tail)
  opening_last : ¬ " (".toList <:+: execution
  unit_word : unit.IsWord
  unit_ends : ∀ c ∈ tail.head?, isBlank c
  sign_last : ∀ x rest, unit ++ tail = x ++ ") @ ".toList ++ rest → ¬ startsWithWord rest

/-! ## The word behind the sign -/

theorem takeWhile_append_of_head? {p : Char → Bool} {word rest : Text} (hword : ∀ c ∈ word, p c)
    (hrest : ∀ c ∈ rest.head?, ¬ p c) : (word ++ rest).takeWhile p = word := by
  have htail : rest.takeWhile p = [] := by
    cases rest with
    | nil => rfl
    | cons c rest => exact List.takeWhile_cons_of_neg (hrest c rfl)
  rw [List.takeWhile_append_of_pos hword, htail, List.append_nil]

theorem takeWhile_ne_nil {s : Text} (h : startsWithWord s) :
    s.takeWhile (fun c => !isBlank c) ≠ [] := by
  cases s with
  | nil => cases h
  | cons c s =>
    have hc : (!isBlank c) = true := by simpa [startsWithWord] using h
    rw [List.takeWhile_cons, if_pos hc]
    exact List.cons_ne_nil _ _

theorem takeWhile_word (hunit : unit.IsWord) (hends : ∀ c ∈ tail.head?, isBlank c) :
    (unit ++ tail).takeWhile (fun c => !isBlank c) = unit :=
  takeWhile_append_of_head? (by simpa using hunit.not_isBlank) (by simpa using hends)

theorem startsWithWord_append (hunit : unit.IsWord) (s : Text) : startsWithWord (unit ++ s) := by
  obtain ⟨c, word, rfl⟩ := List.exists_cons_of_ne_nil hunit.ne_nil
  simpa [startsWithWord] using hunit.not_isBlank c List.mem_cons_self

theorem not_startsWithWord_iff {s : Text} : ¬ startsWithWord s ↔ ∀ c ∈ s.head?, isBlank c := by
  cases s <;> simp [startsWithWord]

/-! ## Matches of the pattern -/

/-- What the pattern takes behind the parenthesis of an execution. -/
def executionPattern : Pattern :=
  .group (.many .any) ++ .word ") @ ".toList ++ .group (.atLeastOne .nonBlank)

/-- What the pattern takes up to the end of the rule. Only one of the rules can be there. -/
theorem first?_rule {β : Type} {groups : List Text} {next : List Text → Text → Option β} :
    (Pattern.word "[INFO] ".toList ++ .alt (.word "---".toList) (.word ">>>".toList) ++
      .word " ".toList).first? groups banner next = (behindRule? banner).bind (next groups) := by
  have hrules : "[INFO] ".toList ++ "---".toList ++ " ".toList = "[INFO] --- ".toList ∧
      "[INFO] ".toList ++ ">>>".toList ++ " ".toList = "[INFO] >>> ".toList := ⟨rfl, rfl⟩
  rw [Pattern.first?_alt_words, behindRule?, hrules.1, hrules.2]
  cases hrule : banner.behind? "[INFO] --- ".toList with
  | none => rfl
  | some rest =>
    have hother : banner.behind? "[INFO] >>> ".toList = none := by
      rw [Text.behind?_eq_some.1 hrule]
      rfl
    rw [hother]
    cases hnext : next groups rest <;> simp [hnext]

theorem captures?_targetPattern (banner : Text) :
    targetPattern.captures? banner = (behindRule? banner).bind fun body =>
      (Pattern.many .any ++ .word " (".toList).first? [] body fun groups behind =>
        executionPattern.first? groups behind fun groups _ => some groups :=
  first?_rule

theorem first?_unit {groups : List Text} {s : Text} :
    ((Pattern.group (.atLeastOne .nonBlank)).first? groups s fun groups _ => some groups) =
      if startsWithWord s then some (groups ++ [s.takeWhile fun c => !isBlank c]) else none :=
  Pattern.first?_group_atLeastOne

theorem isSome_first?_unit (groups : List Text) (s : Text) :
    ((Pattern.group (.atLeastOne .nonBlank)).first? groups s fun groups _ => some groups).isSome =
      startsWithWord s := by
  rw [first?_unit]
  cases startsWithWord s <;> rfl

theorem isSome_executionPattern_iff {groups : List Text} {s : Text} (hs : '\n' ∉ s) :
    (executionPattern.first? groups s fun groups _ => some groups).isSome ↔
      ∃ execution behind, s = execution ++ ") @ ".toList ++ behind ∧ startsWithWord behind := by
  rw [executionPattern, Pattern.first?_append, Pattern.first?_group_run,
    Pattern.isSome_first?_run_iff (by decide) (CharClass.takes_any hs)]
  simp only [isSome_first?_unit]

/-- Behind a parenthesis, the execution is captured up to the last sign that a word follows. -/
theorem executionPattern_eq_some_iff {groups captured : List Text} {s : Text} (hs : '\n' ∉ s) :
    (executionPattern.first? groups s fun groups _ => some groups) = some captured ↔
      ∃ execution behind, Text.IsLastPlace startsWithWord ") @ ".toList s execution behind ∧
        groups ++ [execution, behind.takeWhile fun c => !isBlank c] = captured := by
  have hsign : ") @ ".toList = ')' :: " @ ".toList := rfl
  rw [executionPattern, Pattern.first?_append, hsign,
    Pattern.first?_group_run_eq_some_iff (by decide) (CharClass.takes_any hs) isSome_first?_unit]
  refine exists_congr fun execution => exists_congr fun behind => and_congr_right fun hplace => ?_
  rw [first?_unit, if_pos hplace.follows, Option.some.injEq, List.append_assoc]
  rfl

/-- Behind the parenthesis of an execution, no other one has a sign with a word behind it. -/
theorem not_sign_of_parenthesis {before behind rest : Text}
    (hexecution : ¬ " (".toList <:+: execution)
    (hsign : Text.IsLastPlace startsWithWord ") @ ".toList
      (execution ++ ") @ ".toList ++ behind) execution behind)
    (h : execution ++ ") @ ".toList ++ behind = before ++ " (".toList ++ rest) :
    ¬ ∃ ahead after, rest = ahead ++ ") @ ".toList ++ after ∧ startsWithWord after := by
  rintro ⟨ahead, after, rfl, hafter⟩
  have hplaces : execution ++ (") @ ".toList ++ behind) =
      (before ++ " (".toList ++ ahead) ++ (") @ ".toList ++ after) := by
    simpa using h
  rcases List.append_eq_append_iff.1 hplaces with ⟨t, hahead, -⟩ | ⟨t, hexecution', -⟩
  · -- The sign behind it is the last one.
    obtain rfl : t = [] := by
      refine hsign.eq_of_append (c := ')') (w := " @ ".toList) (by decide) ?_ hafter
      rw [h, ← hahead]
      simp
    exact hexecution ⟨before, ahead, by simpa using hahead⟩
  · exact hexecution ⟨before, ahead ++ t, by simp [hexecution']⟩

/-- The pattern captures the execution and the module: its first run gives characters back until a
parenthesis has a sign with a word behind it, and the second one until it stands at such a
sign. -/
theorem captures?_targetPattern_eq_some_iff {groups : List Text} (hbanner : '\n' ∉ banner) :
    targetPattern.captures? banner = some groups ↔
      ∃ body plugin execution unit tail, behindRule? banner = some body ∧
        HasTarget body plugin execution unit tail ∧ groups = [execution, unit] := by
  have hopening : " (".toList = ' ' :: "(".toList := rfl
  rw [captures?_targetPattern, Option.bind_eq_some_iff]
  refine exists_congr fun body => ?_
  have hline : behindRule? banner = some body → '\n' ∉ body := by
    intro hbody hmem
    rcases behindRule?_eq_some_iff.1 hbody with rfl | rfl
    all_goals exact hbanner (List.mem_append_right _ hmem)
  constructor
  · rintro ⟨hbody, hcaptured⟩
    have hbodyLine := hline hbody
    rw [hopening, Pattern.first?_run_eq_some_iff (by decide) (CharClass.takes_any hbodyLine),
      ← hopening] at hcaptured
    obtain ⟨plugin, s, hplace, hcaptured⟩ := hcaptured
    have hs : '\n' ∉ s := fun hmem => hbodyLine (by rw [hplace.eq]; simp [hmem])
    obtain ⟨execution, behind, hsign, rfl⟩ := (executionPattern_eq_some_iff hs).1 hcaptured
    refine ⟨plugin, execution, _, behind.dropWhile fun c => !isBlank c, hbody,
      ⟨?_, ?_, ⟨takeWhile_ne_nil hsign.follows, ?_⟩, ?_, ?_⟩, rfl⟩
    · rw [List.takeWhile_append_dropWhile, hplace.eq, hsign.eq]
      simp
    · rintro ⟨x, y, rfl⟩
      have hlast := hplace.last x (y ++ ") @ ".toList ++ behind) (by rw [hsign.eq]; simp)
      rw [isSome_executionPattern_iff fun hmem => hs (by rw [hsign.eq]; simp_all)] at hlast
      exact hlast ⟨y, behind, rfl, hsign.follows⟩
    · intro c hc
      simpa using List.mem_takeWhile_imp hc
    · intro c hc
      have hstop := List.head?_dropWhile_not (fun c => !isBlank c) behind
      rw [Option.mem_def.1 hc] at hstop
      simpa using hstop
    · rw [List.takeWhile_append_dropWhile]
      exact hsign.last
  · rintro ⟨plugin, execution, unit, tail, hbody, h, rfl⟩
    have hbodyLine := hline hbody
    have hsign : Text.IsLastPlace startsWithWord ") @ ".toList
        (execution ++ ") @ ".toList ++ (unit ++ tail)) execution (unit ++ tail) :=
      ⟨rfl, startsWithWord_append h.unit_word tail, h.sign_last⟩
    have hs : '\n' ∉ execution ++ ") @ ".toList ++ (unit ++ tail) := by
      intro hmem
      refine hbodyLine ?_
      have hbody : body =
          plugin ++ " (".toList ++ (execution ++ ") @ ".toList ++ (unit ++ tail)) := by
        simp [h.eq]
      rw [hbody]
      exact List.mem_append_right _ hmem
    refine ⟨hbody, ?_⟩
    rw [hopening, Pattern.first?_run_eq_some_iff (by decide) (CharClass.takes_any hbodyLine),
      ← hopening]
    refine ⟨plugin, _, ⟨by simp [h.eq], ?_, ?_⟩,
      (executionPattern_eq_some_iff hs).2 ⟨_, _, hsign, ?_⟩⟩
    · exact (isSome_executionPattern_iff hs).2 ⟨_, _, rfl, hsign.follows⟩
    · intro x rest heq
      rw [isSome_executionPattern_iff fun hmem => hs (by rw [heq]; simp [hmem])]
      exact not_sign_of_parenthesis h.opening_last hsign heq
    · rw [takeWhile_word h.unit_word h.unit_ends]
      rfl

/-! ## The target -/

theorem isOneLine_targetPattern : targetPattern.isOneLine := by decide

theorem target?_eq_some_iff_captures :
    target? banner = some (execution, unit) ↔
      targetPattern.captures? banner = some [execution, unit] := by
  rw [target?, ← Pattern.captures?_firstLine isOneLine_targetPattern]
  cases hcaptured : targetPattern.captures? banner.firstLine with
  | none => simp
  | some groups =>
    obtain ⟨_, _, _, _, _, -, -, rfl⟩ :=
      (captures?_targetPattern_eq_some_iff (Text.not_mem_firstLine banner)).1 hcaptured
    simp

theorem target?_eq_some_iff :
    target? banner = some (execution, unit) ↔
      ∃ body plugin tail, behindRule? banner.firstLine = some body ∧
        HasTarget body plugin execution unit tail := by
  rw [target?_eq_some_iff_captures, ← Pattern.captures?_firstLine isOneLine_targetPattern,
    captures?_targetPattern_eq_some_iff (Text.not_mem_firstLine banner)]
  constructor
  · rintro ⟨body, plugin, execution, unit, tail, hbody, h, heq⟩
    cases heq
    exact ⟨body, plugin, tail, hbody, h⟩
  · rintro ⟨body, plugin, tail, hbody, h⟩
    exact ⟨body, plugin, execution, unit, tail, hbody, h, rfl⟩

/-! ## Banners -/

/-- Each run of the pattern only has to find its word behind the word before. -/
theorem isBanner_iff {line : Text} (hline : '\n' ∉ line) :
    isBanner line ↔ ∃ a b c d e, line = a ++ "[".toList ++ (b ++ "INFO".toList ++
      (c ++ "]".toList ++ (d ++ " @ ".toList ++ e))) := by
  have hstep : ∀ {word s : Text} {next : List Text → Text → Option (List Text)}
      {groups : List Text}, word ≠ [] → '\n' ∉ s →
      (((Pattern.many .any ++ .word word).first? groups s next).isSome ↔
        ∃ before behind, s = before ++ word ++ behind ∧ '\n' ∉ behind ∧
          (next groups behind).isSome) := by
    intro word s next groups hword hs
    rw [Pattern.isSome_first?_run_iff hword (CharClass.takes_any hs)]
    refine exists_congr fun before => exists_congr fun behind => and_congr_right fun heq => ?_
    exact (and_iff_right fun hmem => hs (by rw [heq]; simp [hmem])).symm
  have hmatch : isBanner line = ((Pattern.many .any ++ .word "[".toList).first? [] line
      fun groups s => (Pattern.many .any ++ .word "INFO".toList).first? groups s
        fun groups s => (Pattern.many .any ++ .word "]".toList).first? groups s
          fun groups s => (Pattern.many .any ++ .word " @ ".toList).first? groups s
            fun groups s => (Pattern.many .any).first? groups s
              fun groups _ => some groups).isSome := rfl
  rw [hmatch, hstep (by decide) hline]
  constructor
  · rintro ⟨a, s, rfl, hs, h⟩
    obtain ⟨b, s, rfl, hs, h⟩ := (hstep (by decide) hs).1 h
    obtain ⟨c, s, rfl, hs, h⟩ := (hstep (by decide) hs).1 h
    obtain ⟨d, e, rfl, -, -⟩ := (hstep (by decide) hs).1 h
    exact ⟨a, b, c, d, e, rfl⟩
  · rintro ⟨a, b, c, d, e, rfl⟩
    -- What stands behind each word is a part of the line.
    have hb := fun hmem => hline (List.mem_append_right _ hmem)
    have hc := fun hmem => hb (List.mem_append_right _ hmem)
    have hd := fun hmem => hc (List.mem_append_right _ hmem)
    have he := fun hmem => hd (List.mem_append_right _ hmem)
    refine ⟨a, _, rfl, hb, (hstep (by decide) hb).2 ⟨b, _, rfl, hc, ?_⟩⟩
    refine (hstep (by decide) hc).2 ⟨c, _, rfl, hd, (hstep (by decide) hd).2 ⟨d, e, rfl, he, ?_⟩⟩
    rw [Pattern.first?_many_of_some]
    rfl

/-! ## The one cut -/

/-- A banner with its execution, its module and what stands around them. -/
structure HasParts (banner before execution unit behind : Text) : Prop where
  eq : banner = before ++ " (".toList ++ execution ++ ") @ ".toList ++ unit ++ behind
  rule : "[INFO] --- ".toList <+: before ∨ "[INFO] >>> ".toList <+: before
  opening_last : ¬ " (".toList <:+: execution
  unit_word : unit.IsWord
  unit_ends : ∀ c ∈ behind.head?, isBlank c
  sign_last : ∀ x rest, " @ ".toList ++ unit ++ behind = x ++ ") @ ".toList ++ rest →
    ∀ c ∈ rest.head?, isBlank c

/-- No sign starts in the one ahead of the module. -/
theorem sign_last_iff {s : Text} :
    (∀ x rest, s = x ++ ") @ ".toList ++ rest → ¬ startsWithWord rest) ↔
      ∀ x rest, " @ ".toList ++ s = x ++ ") @ ".toList ++ rest → ∀ c ∈ rest.head?, isBlank c := by
  simp only [not_startsWithWord_iff]
  constructor
  · intro h x rest heq
    have hsplit : x ++ ')' :: (" @ ".toList ++ rest) = " @ ".toList ++ s := by simpa using heq.symm
    obtain ⟨x', -, hs⟩ := Text.exists_of_append_cons_eq (by decide) hsplit
    exact h x' rest (by simpa using hs)
  · intro h x rest heq
    exact h (" @ ".toList ++ x) rest (by simp [heq])

theorem HasTarget.exists_hasParts (h : HasTarget body plugin execution unit tail)
    (hbody : behindRule? banner = some body) :
    ∃ before, HasParts banner before execution unit tail := by
  have hsign := sign_last_iff.1 h.sign_last
  rw [← List.append_assoc] at hsign
  rcases behindRule?_eq_some_iff.1 hbody with rfl | rfl
  · exact ⟨"[INFO] --- ".toList ++ plugin, by simp [h.eq], .inl (List.prefix_append ..),
      h.opening_last, h.unit_word, h.unit_ends, hsign⟩
  · exact ⟨"[INFO] >>> ".toList ++ plugin, by simp [h.eq], .inr (List.prefix_append ..),
      h.opening_last, h.unit_word, h.unit_ends, hsign⟩

section

variable {line before behind : Text}

theorem HasParts.isLastPlace (h : HasParts banner before execution unit behind) :
    Text.IsLastPlace startsWithWord ") @ ".toList banner (before ++ " (".toList ++ execution)
      (unit ++ behind) := by
  refine ⟨by simp [h.eq], startsWithWord_append h.unit_word behind, ?_⟩
  rw [sign_last_iff, ← List.append_assoc]
  exact h.sign_last

theorem HasParts.exists_hasTarget (h : HasParts banner before execution unit behind) :
    ∃ body plugin, behindRule? banner = some body ∧
      HasTarget body plugin execution unit behind := by
  have hsign := h.isLastPlace.last
  rcases h.rule with ⟨plugin, hplugin⟩ | ⟨plugin, hplugin⟩
  · refine ⟨_, plugin, behindRule?_eq_some_iff.2 (.inl ?_), rfl, h.opening_last, h.unit_word,
      h.unit_ends, hsign⟩
    simp [h.eq, ← hplugin]
  · refine ⟨_, plugin, behindRule?_eq_some_iff.2 (.inr ?_), rfl, h.opening_last, h.unit_word,
      h.unit_ends, hsign⟩
    simp [h.eq, ← hplugin]

/-- The last sign and the last parenthesis ahead of it have one place each, and the module is the
word behind the sign. -/
theorem HasParts.unique {before' execution' unit' behind' : Text}
    (h : HasParts banner before execution unit behind)
    (h' : HasParts banner before' execution' unit' behind') :
    before = before' ∧ execution = execution' ∧ unit = unit' ∧ behind = behind' := by
  obtain ⟨hahead, hrest⟩ := h.isLastPlace.unique (c := ')') (by decide) h'.isLastPlace
  have hopening : Text.IsLastPlace (fun _ => true) " (".toList (before ++ " (".toList ++ execution)
      before execution := Text.isLastPlace_iff.2 ⟨rfl, h.opening_last⟩
  have hopening' : Text.IsLastPlace (fun _ => true) " (".toList (before ++ " (".toList ++ execution)
      before' execution' := Text.isLastPlace_iff.2 ⟨hahead, h'.opening_last⟩
  obtain ⟨rfl, rfl⟩ := hopening.unique (c := ' ') (w := "(".toList) (by decide) hopening'
  have hunit := takeWhile_word h.unit_word h.unit_ends
  rw [hrest, takeWhile_word h'.unit_word h'.unit_ends] at hunit
  subst hunit
  exact ⟨rfl, rfl, rfl, List.append_cancel_left hrest⟩

/-- The search for banners finds each line that names a target once it is trimmed. -/
theorem HasParts.isBanner (hline : '\n' ∉ line)
    (h : HasParts (Text.trim line) before execution unit behind) : isBanner line := by
  obtain ⟨ahead, after, htrim⟩ := Text.trim_infix line
  obtain ⟨plugin, hplugin⟩ : ∃ plugin, before = "[INFO]".toList ++ plugin := by
    rcases h.rule with ⟨plugin, rfl⟩ | ⟨plugin, rfl⟩
    · exact ⟨" --- ".toList ++ plugin, rfl⟩
    · exact ⟨" >>> ".toList ++ plugin, rfl⟩
  refine (isBanner_iff hline).2 ⟨ahead, [], [],
    plugin ++ " (".toList ++ execution ++ ")".toList, unit ++ behind ++ after, ?_⟩
  rw [← htrim, h.eq, hplugin]
  simp

theorem captures?_targetPattern_iff_hasParts {groups : List Text} (hbanner : '\n' ∉ banner) :
    targetPattern.captures? banner = some groups ↔
      ∃ before execution unit behind, HasParts banner before execution unit behind ∧
        groups = [execution, unit] := by
  rw [captures?_targetPattern_eq_some_iff hbanner]
  constructor
  · rintro ⟨body, plugin, execution, unit, tail, hbody, h, hgroups⟩
    obtain ⟨before, h⟩ := h.exists_hasParts hbody
    exact ⟨before, execution, unit, tail, h, hgroups⟩
  · rintro ⟨before, execution, unit, behind, h, hgroups⟩
    obtain ⟨body, plugin, hbody, h⟩ := h.exists_hasTarget
    exact ⟨body, plugin, execution, unit, behind, hbody, h, hgroups⟩

/-- The pattern of targets matches a trimmed line in one way: what it captures are the execution
and the module of the one cut. The untrimmed line then matches the pattern of banners, so the
search for the nearest banner stops at it or behind it. -/
theorem target?_trim_decomposition (hline : '\n' ∉ line) :
    (∀ groups, targetPattern.captures? (Text.trim line) = some groups ↔
      ∃ before execution unit behind, HasParts (Text.trim line) before execution unit behind ∧
        groups = [execution, unit]) ∧
    (∀ execution unit, target? (Text.trim line) = some (execution, unit) ↔
      targetPattern.captures? (Text.trim line) = some [execution, unit]) ∧
    (∀ before execution unit behind before' execution' unit' behind',
      HasParts (Text.trim line) before execution unit behind →
      HasParts (Text.trim line) before' execution' unit' behind' →
      before = before' ∧ execution = execution' ∧ unit = unit' ∧ behind = behind') ∧
    (targetPattern.isMatch (Text.trim line) → bannerPattern.isMatch line) ∧
    ∀ lines i index, lines[i]? = some line → i ≤ index → targetPattern.isMatch (Text.trim line) →
      ∃ place, Log.nearest? (bannerPattern.isMatch ·) lines index = some place ∧ i ≤ place := by
  have htrim : '\n' ∉ Text.trim line := fun hmem => hline ((Text.trim_sublist line).subset hmem)
  have hbanner : targetPattern.isMatch (Text.trim line) → bannerPattern.isMatch line := by
    intro h
    obtain ⟨groups, hgroups⟩ := Option.isSome_iff_exists.1 h
    obtain ⟨before, execution, unit, behind, h, -⟩ :=
      (captures?_targetPattern_iff_hasParts htrim).1 hgroups
    exact h.isBanner hline
  refine ⟨fun _ => captures?_targetPattern_iff_hasParts htrim,
    fun _ _ => target?_eq_some_iff_captures, fun _ _ _ _ _ _ _ _ => HasParts.unique, hbanner, ?_⟩
  intro lines i index hi hindex h
  exact Log.exists_lastBelow?_of_mem ⟨hindex, line, hi, hbanner h⟩

/-- There are parentheses and signs ahead of the target and a sign without a word behind it. The
nearest banner is a later line, which names no target. -/
theorem target?_trim_decomposition_signs :
    let line := "  [INFO] >>> jar (x) @ y (b) @ (z) @ core ) @  w ".toList
    let lines := ["noise".toList, line, "[INFO] building @ somewhere".toList]
    '\n' ∉ line ∧ targetPattern.captures? (Text.trim line) = some ["z".toList, "core".toList] ∧
      target? (Text.trim line) = some ("z".toList, "core".toList) ∧
      (∀ before execution unit behind, HasParts (Text.trim line) before execution unit behind →
        execution = "z".toList ∧ unit = "core".toList) ∧
      bannerPattern.isMatch line ∧
      ∃ place, Log.nearest? (bannerPattern.isMatch ·) lines 2 = some place ∧ 1 ≤ place := by
  intro line lines
  have hline : '\n' ∉ line := by decide
  have hcaptured : targetPattern.captures? (Text.trim line) = some ["z".toList, "core".toList] := by
    decide
  have hmatch : targetPattern.isMatch (Text.trim line) := by rw [Pattern.isMatch, hcaptured]; rfl
  obtain ⟨hparts, htarget, hunique, hbanner, hsearch⟩ := target?_trim_decomposition hline
  obtain ⟨before, execution, unit, behind, h, heq⟩ := (hparts _).1 hcaptured
  cases heq
  refine ⟨hline, hcaptured, (htarget _ _).2 hcaptured, fun _ _ _ _ h' => ?_, hbanner hmatch, ?_⟩
  · obtain ⟨-, hexecution, hunit, -⟩ := hunique _ _ _ _ _ _ _ _ h' h
    exact ⟨hexecution, hunit⟩
  · exact hsearch lines 1 2 rfl (by decide) hmatch

end

end BuildLog.Maven
