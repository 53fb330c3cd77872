-- SUMMARY: The one way in which the pattern of tasks matches a line of a Gradle log, and the lines where a search for a task stops.
import BuildLog.Layout.Gradle
import BuildLog.Proofs.Log.Nearest
import BuildLog.Proofs.Pattern
import Mathlib.Data.List.Infix

/-!
# Tasks that a line names

A line names a task if an opening with a quote behind it is somewhere in it. The name then ends at
the last quote of the line and starts at the last opening ahead of it, so a line names one task at
most.
-/

namespace BuildLog.Gradle

variable {line name : Text}

/-! ## Lines that name a task -/

/-- A quote with the name of a task is somewhere in the line. -/
def NamesTask (line : Text) : Prop :=
  ∃ before name behind, line = before ++ taskOpening ++ name ++ '\'' :: behind

/-- The name of the task stands between the last quote of the line and the last opening ahead of
it. -/
def Names (line name : Text) : Prop :=
  ∃ before behind, line = before ++ taskOpening ++ name ++ '\'' :: behind ∧
    '\'' ∉ behind ∧ ¬ taskOpening <:+: name

theorem NamesTask.includes_opening {line : Text} (h : NamesTask line) :
    line.includes taskOpening := by
  obtain ⟨before, name, behind, rfl⟩ := h
  rw [Text.includes_iff, List.append_assoc]
  exact List.infix_append before taskOpening (name ++ '\'' :: behind)

/-! ## Matches of the pattern -/

/-- What the pattern takes behind an opening: the name up to the last quote. -/
def namePattern : Pattern := .group (.many .any) ++ .word ['\'']

theorem captures?_taskPattern (line : Text) :
    taskPattern.captures? line = (Pattern.many .any ++ .word taskOpening).first? [] line
      fun groups behind => namePattern.first? groups behind fun groups _ => some groups := rfl

theorem isOneLine_taskPattern : taskPattern.isOneLine := by decide

/-- A name is found behind an opening if a quote stands there. -/
theorem isSome_namePattern_iff {behind : Text} {groups : List Text} (hbehind : '\n' ∉ behind) :
    (namePattern.first? groups behind fun groups _ => some groups).isSome ↔ '\'' ∈ behind := by
  rw [namePattern, Pattern.first?_group_run,
    Pattern.isSome_first?_run_iff (by simp) (CharClass.takes_any hbehind), List.mem_iff_append]
  simp

theorem namePattern_eq_some_iff {behind : Text} {groups captured : List Text}
    (hbehind : '\n' ∉ behind) :
    (namePattern.first? groups behind fun groups _ => some groups) = some captured ↔
      ∃ name rest, behind = name ++ '\'' :: rest ∧ '\'' ∉ rest ∧ groups ++ [name] = captured := by
  have hfound : ∀ (found : List Text) (_ : Text), (some found).isSome = true := fun _ _ => rfl
  rw [namePattern, Pattern.first?_group_run_eq_some_iff List.not_mem_nil
    (CharClass.takes_any hbehind) hfound]
  simp [Text.isLastPlace_iff, List.singleton_infix_iff, and_assoc]

/-- Behind the opening of a name, no other opening has a quote behind it. -/
theorem not_quote_of_opening {before name behind rest : Text} (hname : ¬ taskOpening <:+: name)
    (hbehind : '\'' ∉ behind) (h : name ++ '\'' :: behind = before ++ taskOpening ++ rest) :
    '\'' ∉ rest := by
  have hopening : taskOpening = '\'' :: "Compile Java for ".toList := rfl
  have hplaces : name ++ '\'' :: behind =
      before ++ '\'' :: ("Compile Java for ".toList ++ rest) := by
    rw [h, hopening]
    simp
  rcases List.append_eq_append_iff.1 hplaces with ⟨t, -, hrest⟩ | ⟨t, hname', hrest⟩
  · -- The opening starts at the last quote or behind it.
    intro hquote
    cases t with
    | nil => exact hbehind (by rw [(List.cons.inj hrest).2]; simp [hquote])
    | cons c t => exact hbehind (by rw [(List.cons.inj hrest).2]; simp)
  · cases t with
    | nil =>
      intro hquote
      exact hbehind (by rw [← (List.cons.inj hrest).2]; simp [hquote])
    | cons c t =>
      obtain ⟨rfl, htail⟩ := List.cons.inj hrest
      -- It starts ahead of the last quote, so all of it is part of the name.
      obtain ⟨t', rfl, -⟩ := Text.exists_of_append_cons_eq (by decide) htail.symm
      exact absurd ⟨before, t', by rw [hname', hopening]; simp⟩ hname

/-- The pattern captures the name between the last quote and the last opening ahead of it: the
first run gives characters back until an opening has a quote behind it, and the second one until
it stands at a quote. -/
theorem captures?_taskPattern_eq_some_iff {groups : List Text} (hline : '\n' ∉ line) :
    taskPattern.captures? line = some groups ↔ ∃ name, Names line name ∧ groups = [name] := by
  have hopening : taskOpening = '\'' :: "Compile Java for ".toList := rfl
  have hword : '\'' ∉ "Compile Java for ".toList := by decide
  rw [captures?_taskPattern, hopening,
    Pattern.first?_run_eq_some_iff hword (CharClass.takes_any hline), ← hopening]
  constructor
  · rintro ⟨before, behind, hplace, hcaptured⟩
    have hbehind : '\n' ∉ behind := fun hmem => hline (by rw [hplace.eq]; simp [hmem])
    obtain ⟨name, rest, rfl, hrest, rfl⟩ := (namePattern_eq_some_iff hbehind).1 hcaptured
    refine ⟨name, ⟨before, rest, by simpa using hplace.eq, hrest, ?_⟩, rfl⟩
    rintro ⟨x, y, rfl⟩
    have hlast := hplace.last x (y ++ '\'' :: rest) (by simp)
    rw [isSome_namePattern_iff fun hmem => hbehind (by simp_all)] at hlast
    exact hlast (by simp)
  · rintro ⟨name, ⟨before, rest, rfl, hrest, hname⟩, rfl⟩
    have hbehind : '\n' ∉ name ++ '\'' :: rest := fun hmem => hline (by simp_all)
    refine ⟨before, name ++ '\'' :: rest, ⟨by simp, ?_, ?_⟩, ?_⟩
    · exact (isSome_namePattern_iff hbehind).2 (by simp)
    · intro x y heq
      rw [isSome_namePattern_iff fun hmem => hbehind (by rw [heq]; simp [hmem])]
      exact not_quote_of_opening hname hrest heq
    · exact (namePattern_eq_some_iff hbehind).2 ⟨name, rest, rfl, hrest, rfl⟩

/-- A line with an opening and with a quote behind it starts with a text of the pattern's
language. -/
theorem isMatch_taskPattern_iff (hline : '\n' ∉ line) :
    taskPattern.isMatch line ↔ NamesTask line := by
  rw [Pattern.isMatch_iff]
  constructor
  · rintro ⟨_, ⟨_, ⟨_, ⟨before, -, opening, hopening, rfl⟩, name, -, rfl⟩, quote, hquote, rfl⟩,
      behind, rfl⟩
    rw [Pattern.mem_language_word.1 hopening, Pattern.mem_language_word.1 hquote]
    exact ⟨before, name, behind, by simp⟩
  · rintro ⟨before, name, behind, rfl⟩
    have hbefore : '\n' ∉ before := fun hmem => hline (by simp [hmem])
    have hname : '\n' ∉ name := fun hmem => hline (by simp [hmem])
    refine ⟨before ++ taskOpening ++ name ++ ['\''], ?_, behind, by simp⟩
    refine Language.append_mem_mul (Language.append_mem_mul (Language.append_mem_mul ?_ ?_) ?_) ?_
    · exact CharClass.takes_any hbefore
    · exact Pattern.mem_language_word.2 rfl
    · exact CharClass.takes_any hname
    · exact Pattern.mem_language_word.2 rfl

/-! ## The task that a line names -/

/-- The pattern has one group, so a line that matches names a task. -/
theorem captures?_taskPattern_eq (line : Text) :
    taskPattern.captures? line = (taskName? line).map ([·]) := by
  rw [taskName?]
  cases hcaptured : taskPattern.captures? line with
  | none => rfl
  | some groups =>
    rw [← Pattern.captures?_firstLine isOneLine_taskPattern] at hcaptured
    obtain ⟨name, -, rfl⟩ :=
      (captures?_taskPattern_eq_some_iff (Text.not_mem_firstLine line)).1 hcaptured
    rfl

theorem isTaskLine_eq_isSome (line : Text) : isTaskLine line = (taskName? line).isSome := by
  rw [isTaskLine, Pattern.isMatch, captures?_taskPattern_eq, Option.isSome_map]

theorem taskName?_eq_some_iff (hline : '\n' ∉ line) :
    taskName? line = some name ↔ Names line name := by
  have hcaptures : taskPattern.captures? line = some [name] ↔
      ∃ name', Names line name' ∧ [name] = [name'] :=
    captures?_taskPattern_eq_some_iff hline
  rw [captures?_taskPattern_eq, Option.map_eq_some_iff] at hcaptures
  simpa using hcaptures

theorem taskName?_firstLine (line : Text) : taskName? line.firstLine = taskName? line := by
  rw [taskName?, Pattern.captures?_firstLine isOneLine_taskPattern, taskName?]

theorem names_firstLine (h : taskName? line = some name) : Names line.firstLine name := by
  rw [← taskName?_firstLine] at h
  exact (taskName?_eq_some_iff (Text.not_mem_firstLine line)).1 h

theorem namesTask_of_taskName? {line name : Text} (h : taskName? line = some name) :
    NamesTask line := by
  obtain ⟨before, behind, heq, -, -⟩ := names_firstLine h
  obtain ⟨rest, hrest⟩ : line.firstLine <+: line := List.takeWhile_prefix _
  exact ⟨before, name, behind ++ rest, by rw [← hrest, heq]; simp⟩

theorem taskName?_eq_none {line : Text} (h : ¬ NamesTask line) : taskName? line = none := by
  cases hname : taskName? line with
  | none => rfl
  | some name => exact absurd (namesTask_of_taskName? hname) h

theorem isTaskLine_iff (hline : '\n' ∉ line) : isTaskLine line ↔ NamesTask line :=
  isMatch_taskPattern_iff hline

theorem exists_taskName? (hline : '\n' ∉ line) (h : NamesTask line) :
    ∃ name, taskName? line = some name := by
  rw [← Option.isSome_iff_exists, ← isTaskLine_eq_isSome]
  exact (isTaskLine_iff hline).2 h

theorem taskName?_eq_none_iff (hline : '\n' ∉ line) : taskName? line = none ↔ ¬ NamesTask line := by
  rw [← isTaskLine_iff hline, isTaskLine_eq_isSome, Option.not_isSome_iff_eq_none]

/-! ## Records -/

/-- A line has arguments if it includes the word that stands before them. -/
theorem arguments?_isSome (line : Text) :
    (arguments? line).isSome = line.includes argumentsWord := by
  rw [arguments?, Option.isSome_map, Bool.eq_iff_iff, Text.after?_isSome_iff, Text.includes_iff]

theorem argumentsAt_eq_ok_iff {lines : List Text} {index : Nat} {args : Text} :
    argumentsAt lines index = .ok args ↔ arguments? (lines.getD index []) = some args := by
  rw [argumentsAt]
  cases arguments? (lines.getD index []) <;> simp

/-- A record has the arguments of its line and the name that comes first on the way back. -/
theorem record?_eq (lines : List Text) (index : Nat) :
    record? lines index =
      match arguments? (lines.getD index []) with
      | none => .ok none
      | some args =>
        match (lines.take (index + 1)).reverse.findSome? taskName? with
        | some name => .ok (some ⟨name, args⟩)
        | none => .error (.noTaskName (index + 1)) := by
  have hsearch : (lines.take (index + 1)).reverse.findSome? taskName? =
      (Log.nearest? isTaskLine lines index).bind fun place => taskName? (lines.getD place []) :=
    Log.findSome?_reverse_take (fun line _ => isTaskLine_eq_isSome line) [] (index + 1)
  rw [record?, hsearch, ← arguments?_isSome]
  cases hargs : arguments? (lines.getD index []) with
  | none => rfl
  | some args =>
    have hargsAt := argumentsAt_eq_ok_iff.2 hargs
    cases hplace : Log.nearest? isTaskLine lines index with
    | none => simp
    | some place =>
      cases hname : taskName? (lines.getD place []) with
      | none => simp only [Option.isSome_some, if_true, hname, Option.bind_some]
      | some name =>
        simp only [Option.isSome_some, if_true, hname, hargsAt, Option.bind_some]
        rfl

/-- The nearest task line names a task, and that is the one of the record. -/
theorem exists_record?_of_nearest? {lines : List Text} {index place : Nat}
    (h : Log.nearest? isTaskLine lines index = some place) :
    ∃ name, taskName? (lines.getD place []) = some name ∧
      ∀ args, arguments? (lines.getD index []) = some args →
        record? lines index = .ok (some ⟨name, args⟩) := by
  obtain ⟨-, ⟨line, hplace, htask⟩, -⟩ := Log.lastBelow?_eq_some_iff.1 h
  have hline : lines.getD place [] = line := by rw [List.getD_eq_getElem?_getD, hplace]; rfl
  rw [isTaskLine_eq_isSome] at htask
  obtain ⟨name, hname⟩ := Option.isSome_iff_exists.1 htask
  refine ⟨name, hline ▸ hname, fun args hargs => ?_⟩
  have hword : (lines.getD index []).includes argumentsWord := by
    rw [← arguments?_isSome, hargs]
    rfl
  rw [record?, if_pos hword, h]
  simp only [hline, hname, argumentsAt_eq_ok_iff.2 hargs]
  rfl

/-! ## The one cut -/

/-- The line is cut at the opening of the name and at the quote that ends it. -/
structure NamesBetween (line before name behind : Text) : Prop where
  eq : line = before ++ taskOpening ++ name ++ '\'' :: behind
  quote_last : '\'' ∉ behind
  opening_last : ¬ taskOpening <:+: name

theorem names_iff_exists :
    Names line name ↔ ∃ before behind, NamesBetween line before name behind :=
  ⟨fun ⟨before, behind, heq, hquote, hopening⟩ => ⟨before, behind, heq, hquote, hopening⟩,
    fun ⟨before, behind, h⟩ => ⟨before, behind, h.eq, h.quote_last, h.opening_last⟩⟩

theorem NamesBetween.quote_place {before behind : Text}
    (h : NamesBetween line before name behind) :
    Text.IsLastPlace (fun _ => true) ['\''] line (before ++ taskOpening ++ name) behind := by
  rw [Text.isLastPlace_iff, List.singleton_infix_iff]
  exact ⟨by simpa using h.eq, h.quote_last⟩

theorem NamesBetween.unique {before behind before' name' behind' : Text}
    (h : NamesBetween line before name behind) (h' : NamesBetween line before' name' behind') :
    before = before' ∧ name = name' ∧ behind = behind' := by
  obtain ⟨hahead, rfl⟩ := h.quote_place.unique List.not_mem_nil h'.quote_place
  have hopening : Text.IsLastPlace (fun _ => true) taskOpening (before ++ taskOpening ++ name)
      before name := Text.isLastPlace_iff.2 ⟨rfl, h.opening_last⟩
  have hopening' : Text.IsLastPlace (fun _ => true) taskOpening (before ++ taskOpening ++ name)
      before' name' := Text.isLastPlace_iff.2 ⟨hahead, h'.opening_last⟩
  obtain ⟨rfl, rfl⟩ := hopening.unique (c := '\'') (w := "Compile Java for ".toList) (by decide)
    hopening'
  exact ⟨rfl, rfl, rfl⟩

/-- The pattern of tasks matches a line in one way: what it captures is the name of the one cut.
The pattern matches exactly if there is a cut, so the search for the nearest line that matches
finds a name. -/
theorem taskName?_decomposition (hline : '\n' ∉ line) :
    (∀ name, taskName? line = some name ↔ ∃ before behind, NamesBetween line before name behind) ∧
    (∀ before name behind before' name' behind', NamesBetween line before name behind →
      NamesBetween line before' name' behind' →
      before = before' ∧ name = name' ∧ behind = behind') ∧
    (taskPattern.isMatch line ↔ ∃ before name behind, NamesBetween line before name behind) ∧
    ∀ lines index place, Log.nearest? (taskPattern.isMatch ·) lines index = some place →
      ∃ name, taskName? (lines.getD place []) = some name ∧
        ∀ args, arguments? (lines.getD index []) = some args →
          record? lines index = .ok (some ⟨name, args⟩) := by
  have hname : ∀ name, taskName? line = some name ↔
      ∃ before behind, NamesBetween line before name behind :=
    fun name => (taskName?_eq_some_iff hline).trans names_iff_exists
  refine ⟨hname, fun _ _ _ _ _ _ => NamesBetween.unique, ?_,
    fun lines index place => exists_record?_of_nearest?⟩
  change isTaskLine line ↔ _
  rw [isTaskLine_eq_isSome, Option.isSome_iff_exists]
  constructor
  · rintro ⟨name, hsome⟩
    obtain ⟨before, behind, h⟩ := (hname name).1 hsome
    exact ⟨before, name, behind, h⟩
  · rintro ⟨before, name, behind, h⟩
    exact ⟨name, (hname name).2 ⟨before, behind, h⟩⟩

/-- The last opening has no quote behind it and is given up for the one ahead of it. The name ends
at the last quote, which is that of the opening that was given up. -/
theorem taskName?_decomposition_nested :
    let line := "a 'Compile Java for b 'Compile Java for it's c 'Compile Java for d".toList
    let lines := [line, "noise".toList, "NormalizingJavaCompiler arguments: -g".toList]
    '\n' ∉ line ∧ taskName? line = some "it's c ".toList ∧
      (∀ before name behind, NamesBetween line before name behind →
        before = "a 'Compile Java for b ".toList ∧ name = "it's c ".toList ∧
          behind = "Compile Java for d".toList) ∧
      taskPattern.isMatch line ∧
      record? lines 2 = .ok (some ⟨"it's c ".toList, "-g".toList⟩) := by
  intro line lines
  have hline : '\n' ∉ line := by decide
  obtain ⟨hname, hunique, htask, hwalk⟩ := taskName?_decomposition hline
  have hcut : NamesBetween line "a 'Compile Java for b ".toList "it's c ".toList
      "Compile Java for d".toList := ⟨rfl, by decide, by decide⟩
  have hnamed := (hname _).2 ⟨_, _, hcut⟩
  have hnearest : Log.nearest? (taskPattern.isMatch ·) lines 2 = some 0 := by decide
  obtain ⟨name, hplace, hrecord⟩ := hwalk lines 2 0 hnearest
  obtain rfl := Option.some.inj (hnamed.symm.trans hplace)
  refine ⟨hline, hnamed, fun before name behind h => hunique _ _ _ _ _ _ h hcut, ?_, ?_⟩
  · exact htask.2 ⟨_, _, _, hcut⟩
  · exact hrecord "-g".toList (by decide)

end BuildLog.Gradle
