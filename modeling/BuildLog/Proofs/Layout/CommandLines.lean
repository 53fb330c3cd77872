-- SUMMARY: The records of a Maven log in closed form: its command lines, numbered in order.
import BuildLog.Proofs.Layout.Records
import BuildLog.Settings

/-!
# Command lines of Maven

A command line is longer than the gutter, so its record never fails. The records of a log
without skip words are therefore its command lines, each named by its number among them.
-/

namespace BuildLog

/-! ## Numbered records -/

namespace Record

variable {words : List Text} {r : Record}

theorem isNamedBy_iff : r.isNamedBy words ↔ ∃ word ∈ words, word <:+: r.name := by
  simp only [isNamedBy, List.any_eq_true, Text.includes_iff]

theorem blobName_injective : Function.Injective blobName := by
  intro m n h
  have hdigits : Nat.toDigits 10 m = Nat.toDigits 10 n := List.append_cancel_left h
  rw [← Nat.ofDigitChars_ten_toDigits (n := m), hdigits, Nat.ofDigitChars_ten_toDigits]

theorem mem_blobName {c : Char} {n : Nat} (h : c ∈ blobName n) :
    c ∈ "blob ".toList ∨ c.isDigit := by
  rcases List.mem_append.1 h with h | h
  · exact .inl h
  · exact .inr (Nat.isDigit_of_mem_toDigits (by decide) (by decide) h)

/-- The records with the given arguments, named by their positions. -/
def numbered (arguments : List Text) : List Record :=
  arguments.mapIdx fun n args => ⟨blobName n, args⟩

theorem numbered_length (arguments : List Text) : (numbered arguments).length = arguments.length :=
  List.length_mapIdx

theorem numbered_args (arguments : List Text) : (numbered arguments).map args = arguments := by
  apply List.ext_getElem <;> simp [numbered]

theorem numbered_names (arguments : List Text) :
    (numbered arguments).map name = (List.range arguments.length).map blobName := by
  apply List.ext_getElem <;> simp [numbered]

theorem forall_mem_numbered {p : Text → Prop} (arguments : List Text) :
    (∀ r ∈ numbered arguments, p r.name) ↔ ∀ n < arguments.length, p (blobName n) := by
  have hnames : (∀ s ∈ (numbered arguments).map name, p s) ↔
      ∀ s ∈ (List.range arguments.length).map blobName, p s := by
    rw [numbered_names]
  simpa only [List.forall_mem_map, List.mem_range] using hnames

theorem renumber_eq_numbered (records : List Record) :
    renumber records = numbered (records.map args) := by
  apply List.ext_getElem <;> simp [renumber, numbered]

/-- Records are named by their positions already exactly if numbering them anew changes
nothing. -/
theorem renumber_eq_self_iff {records : List Record} :
    renumber records = records ↔
      ∀ (i : Nat) (h : i < records.length), records[i].name = blobName i := by
  constructor
  · intro heq i h
    have hi : (renumber records)[i]? = records[i]? := by rw [heq]
    simp only [renumber, List.getElem?_mapIdx, List.getElem?_eq_getElem h, Option.map_some,
      Option.some.injEq] at hi
    exact (congrArg name hi).symm
  · intro hnames
    refine List.ext_getElem (renumber_length records) ?_
    intro i hi h
    simp only [renumber, List.getElem_mapIdx]
    rw [← hnames i h]

end Record

/-! ## Skipped numbers -/

namespace Record

/-- Whether the skip words leave out a record that has this number for a name. -/
def skipsNumber (skip : List Text) (n : Nat) : Bool :=
  skip.any (blobName n).includes

theorem skipsNumber_iff {skip : List Text} {n : Nat} :
    skipsNumber skip n ↔ ∃ word ∈ skip, word <:+: blobName n :=
  isNamedBy_iff (r := ⟨blobName n, []⟩)

/-- The numbers below `count` in which no skip word occurs. -/
def keptNumbers (skip : List Text) (count : Nat) : List Nat :=
  (List.range count).filter fun n => !skipsNumber skip n

/-- The task that is skipped by default has a name that no record gets by its number. -/
theorem not_skipsNumber_default (n : Nat) : ¬ skipsNumber Settings.defaultSkipTasks n := by
  rw [skipsNumber_iff]
  rintro ⟨word, hword, hinfix⟩
  obtain rfl := List.mem_singleton.1 hword
  have hmem : 'c' ∈ blobName n := hinfix.subset (by decide)
  exact absurd (mem_blobName hmem) (by decide)

end Record

/-! ## Command lines -/

namespace Maven

theorem gutterWidth_le {line : Text} (h : isCommandLine line) : gutterWidth ≤ line.length := by
  rw [isCommandLine, Bool.and_eq_true, Text.includes_iff, Text.includes_iff] at h
  exact Nat.le_trans (by decide) h.2.length_le

/-- The arguments of a compilation that stand behind the gutter of a line. -/
def commandArguments (line : Text) : Text :=
  Text.trim (line.drop gutterWidth)

theorem pastGutter_eq_ok {line : Text} (index : Nat) (h : isCommandLine line) :
    pastGutter line index = .ok (commandArguments line) :=
  if_neg (Nat.not_lt.2 (gutterWidth_le h))

/-- The arguments on the command lines of a log. -/
def commands (lines : List Text) : List Text :=
  (lines.filter isCommandLine).map commandArguments

theorem commands_flatten (logs : List (List Text)) :
    commands logs.flatten = (logs.map commands).flatten := by
  rw [commands, List.filter_flatten, List.map_flatten, List.map_map]
  rfl

end Maven

/-! ## Records of command lines -/

namespace Layout

open Maven Record

variable {lines skip : List Text}

theorem recordsFrom_maven {is : List Nat} (his : ∀ i ∈ is, isCommandLine (lines.getD i []))
    (count : Nat) :
    maven.recordsFrom lines [] count is = .ok
      ((is.map fun i => commandArguments (lines.getD i [])).mapIdx fun n args =>
        ⟨blobName (count + n), args⟩) := by
  induction is generalizing count with
  | nil => rfl
  | cons i is ih =>
    have hrecord : maven.record? lines count i =
        .ok (some ⟨blobName count, commandArguments (lines.getD i [])⟩) := by
      rw [record?, commandLine, pastGutter_eq_ok _ (his i (by simp))]
      rfl
    rw [recordsFrom_cons, hrecord]
    refine bind_eq_ok.2 ⟨_, rfl, bind_eq_ok.2 ⟨_, ih (fun j hj => his j (by simp [hj])) _, ?_⟩⟩
    simp [kept_nil, pure, Except.pure, List.mapIdx_cons, Nat.add_assoc, Nat.add_comm 1]

theorem records_maven (lines skip : List Text) :
    maven.records lines skip = .ok (kept skip (numbered (commands lines))) := by
  refine records_skip_eq_ok.2 ⟨_, ?_, rfl⟩
  have hmarkers : ∀ i ∈ maven.markers lines, isCommandLine (lines.getD i []) :=
    fun _ => isMarker_of_mem_markers
  rw [records, recordsFrom_maven hmarkers, markers_eq]
  simp only [Nat.zero_add]
  rw [numbered, commands, ← Log.getD_positions lines [], List.map_map]
  rfl

theorem kept_numbered_names (skip arguments : List Text) :
    (kept skip (numbered arguments)).map Record.name =
      (keptNumbers skip arguments.length).map blobName := by
  calc (kept skip (numbered arguments)).map Record.name
      = ((numbered arguments).map Record.name).filter fun s => !skip.any s.includes := by
        rw [List.filter_map]
        rfl
    _ = ((List.range arguments.length).map blobName).filter fun s => !skip.any s.includes := by
        rw [numbered_names]
    _ = (keptNumbers skip arguments.length).map blobName := List.filter_map

theorem length_kept_numbered (skip arguments : List Text) :
    (kept skip (numbered arguments)).length = (keptNumbers skip arguments.length).length := by
  have hlength := congrArg List.length (kept_numbered_names skip arguments)
  simpa only [List.length_map] using hlength

theorem kept_numbered_of_forall (h : ∀ n, ¬ skipsNumber skip n) (arguments : List Text) :
    kept skip (numbered arguments) = numbered arguments := by
  refine List.filter_eq_self.2 ?_
  intro r hr
  have hname : r.name ∈ (List.range arguments.length).map blobName := by
    rw [← numbered_names]
    exact List.mem_map_of_mem hr
  obtain ⟨n, -, hn⟩ := List.mem_map.1 hname
  rw [isNamedBy, ← hn]
  change (!skipsNumber skip n) = true
  simp [h n]

end Layout

end BuildLog
