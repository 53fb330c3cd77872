-- SUMMARY: How skip words and the numbers of Maven records get in each other's way, and exactly when they do not.
import BuildLog.Proofs.Scan
import Mathlib

/-!
# Numbers and skip words

A record of Maven gets its number before the skip words are applied, and a scan numbers the
records that are left anew. So skip words that occur in a number leave a gap in the records
of one log, and a scan returns names that its skip words occur in.
-/

namespace BuildLog

/-! ## Numbers without a gap -/

/-- A test that holds for a number holds for all smaller ones exactly if the numbers it
holds for are the first ones. -/
theorem filter_range_eq_range_iff {p : Nat → Bool} {n : Nat} :
    (List.range n).filter p = List.range ((List.range n).filter p).length ↔
      ∀ i j, i < j → j < n → p j → p i := by
  constructor
  · intro heq i j hij hj hp
    have hmem : j ∈ (List.range n).filter p := List.mem_filter.2 ⟨List.mem_range.2 hj, hp⟩
    -- `j` is one of the first numbers, and so is `i`.
    rw [heq, List.mem_range] at hmem
    have hi : i ∈ (List.range n).filter p := heq ▸ List.mem_range.2 (Nat.lt_trans hij hmem)
    exact (List.mem_filter.1 hi).2
  · intro h
    induction n with
    | zero => rfl
    | succ n ih =>
      rw [List.range_succ, List.filter_append]
      cases hn : p n with
      | false => simpa [hn] using ih fun i j hij hj => h i j hij (Nat.lt_succ_of_lt hj)
      | true =>
        have hall : (List.range n).filter p = List.range n := by
          refine List.filter_eq_self.2 ?_
          intro i hi
          exact h i n (List.mem_range.1 hi) (Nat.lt_succ_self n) hn
        simp [hall, hn, List.range_succ]

namespace Record

theorem named_by_position_iff {records : List Record} :
    (∀ (i : Nat) (h : i < records.length), records[i].name = blobName i) ↔
      records.map name = (List.range records.length).map blobName := by
  constructor
  · intro h
    apply List.ext_getElem <;> simp_all
  · intro h i hi
    have hnames : (records.map name)[i]? = ((List.range records.length).map blobName)[i]? := by
      rw [h]
    simpa [hi] using hnames

end Record

/-! ## One log of Maven -/

namespace Layout

open Maven Record

/-- A number in which skip words occur is followed, below `count`, by such numbers only. -/
def LeavesNoGap (skip : List Text) (count : Nat) : Prop :=
  ∀ i j, i < j → j < count → skipsNumber skip i → skipsNumber skip j

/-- How many command lines a log has. -/
def commandCount (text : Text) : Nat :=
  (Log.lines text).countP isCommandLine

theorem length_commands (text : Text) : (commands (Log.lines text)).length = commandCount text := by
  rw [commands, List.length_map, commandCount, List.countP_eq_length_filter]

theorem kept_named_by_position_iff (skip arguments : List Text) :
    (∀ (i : Nat) (h : i < (kept skip (numbered arguments)).length),
        (kept skip (numbered arguments))[i].name = blobName i) ↔
      LeavesNoGap skip arguments.length := by
  rw [named_by_position_iff, kept_numbered_names, length_kept_numbered,
    (List.map_injective_iff.2 blobName_injective).eq_iff]
  unfold keptNumbers
  rw [filter_range_eq_range_iff]
  refine forall₄_congr fun i j _ _ => ?_
  rw [Bool.not_eq_true', Bool.not_eq_true', ← Bool.not_eq_true, ← Bool.not_eq_true, not_imp_not]

/-- The records of one log of Maven are numbered without a gap exactly if the skip words leave
none, and exactly then a scan of the log returns the same records. -/
theorem scrape_maven_named_by_position_iff (text : Text) (skip : List Text) :
    ∃ rs, maven.scrape text skip = .ok rs ∧
      ((∀ (i : Nat) (h : i < rs.length), rs[i].name = blobName i) ↔
        LeavesNoGap skip (commandCount text)) ∧
      ∀ (m : Machine) (path : Path), m.Reads path text →
        ((Program.scanLogs maven skip [path]).run m = .ok rs m ↔
          LeavesNoGap skip (commandCount text)) := by
  have hscrape : maven.scrape text skip = .ok (kept skip (numbered (commands (Log.lines text)))) :=
    records_maven (Log.lines text) skip
  have hnames := kept_named_by_position_iff skip (commands (Log.lines text))
  rw [length_commands] at hnames
  refine ⟨_, hscrape, hnames, ?_⟩
  intro m path hread
  rw [← hnames, ← renumber_eq_self_iff,
    Program.scanLogs_run (.cons hread .nil) (.cons hscrape .nil), gather, List.flatten_singleton,
    EStateM.Result.ok.injEq, and_iff_left rfl]

/-- The first of two command lines is left out, and the second is not named by its position,
except in a scan. -/
theorem scrape_maven_gap :
    let text := "[DEBUG] -d 0 -parameters\n[DEBUG] -d 1 -parameters\n".toList
    let skip := ["blob 0".toList]
    let rs : List Record := [⟨"blob 1".toList, "-d 1 -parameters".toList⟩]
    let machine := Machine.ofLogs [("log".toList, text)]
    maven.scrape text skip = .ok rs ∧ (∃ h : 0 < rs.length, rs[0].name ≠ blobName 0) ∧
      (Program.scanLogs maven skip [⟨"log".toList⟩]).run machine =
        .ok [⟨"blob 0".toList, "-d 1 -parameters".toList⟩] machine :=
  ⟨by cbv, ⟨by decide, by decide⟩, by cbv⟩

end Layout

/-! ## Names that a scan returns -/

namespace Program

open Layout Record

variable {layout : Layout} {skip : List Text} {m m' : Machine}

/-- How many command lines the skip words leave in all logs together. -/
def keptCount (skip texts : List Text) : Nat :=
  (texts.flatMap fun text => keptNumbers skip (commandCount text)).length

theorem length_flatten_kept (skip texts : List Text) :
    (texts.map fun text => kept skip (numbered (Maven.commands (Log.lines text)))).flatten.length =
      keptCount skip texts := by
  simp only [keptCount, List.length_flatten, List.length_flatMap, List.map_map, Function.comp_def,
    length_kept_numbered, length_commands]

/-- The skip words occur in no name that is scraped from one log. -/
theorem not_isNamedBy_of_scrape {text : Text} {rs : List Record}
    (h : layout.scrape text skip = .ok rs) : ∀ r ∈ rs, ¬ r.isNamedBy skip := by
  obtain ⟨all, -, rfl⟩ := records_skip_eq_ok.1 h
  intro r hr
  simpa using (List.mem_filter.1 hr).2

/-- A scan of Maven logs returns a name that a skip word occurs in exactly if it occurs in one
of the numbers that are given in the end. With the other layouts that never happens. -/
theorem scanLogs_not_named_iff {logs : List Path} {rs : List Record}
    (h : (scanLogs layout skip logs).run m = .ok rs m') :
    ∃ texts, List.Forall₂ m.Reads logs texts ∧
      ((∀ r ∈ rs, ∀ word ∈ skip, ¬ word <:+: r.name) ↔
        (layout = .maven → ∀ n < keptCount skip texts, ∀ word ∈ skip, ¬ word <:+: blobName n)) := by
  obtain ⟨⟨texts, perLog, hreads, hscrape, rfl⟩, -⟩ := scanLogs_run_eq_ok.1 h
  refine ⟨texts, hreads, ?_⟩
  by_cases hlayout : layout = .maven
  · subst hlayout
    obtain rfl := scrape_maven_forall₂.1 hscrape
    -- The names depend only on how many records are left in all logs together.
    rw [gather, renumber_eq_numbered,
      forall_mem_numbered (p := fun s => ∀ word ∈ skip, ¬ word <:+: s), List.length_map,
      length_flatten_kept]
    exact ⟨fun hnames _ => hnames, fun hnames => hnames rfl⟩
  · rw [gather_of_ne_maven hlayout]
    refine iff_of_true ?_ fun heq => absurd heq hlayout
    intro r hr word hword hinfix
    have hnamed : ¬ r.isNamedBy skip :=
      forall_mem_flatten (fun _ _ => not_isNamedBy_of_scrape) hscrape r hr
    exact hnamed (isNamedBy_iff.2 ⟨word, hword, hinfix⟩)

theorem scanLogs_not_named_one_log :
    let text := "[DEBUG] -d 0 -parameters\n[DEBUG] -d 1 -parameters\n".toList
    let skip := ["blob 1".toList]
    let rs : List Record := [⟨"blob 0".toList, "-d 0 -parameters".toList⟩]
    let machine := Machine.ofLogs [("log".toList, text)]
    (scanLogs .maven skip [⟨"log".toList⟩]).run machine = .ok rs machine ∧
      ∃ texts, List.Forall₂ machine.Reads [⟨"log".toList⟩] texts ∧
        ((∀ r ∈ rs, ∀ word ∈ skip, ¬ word <:+: r.name) ↔
          (Layout.maven = .maven →
            ∀ n < keptCount skip texts, ∀ word ∈ skip, ¬ word <:+: blobName n)) :=
  ⟨by cbv, scanLogs_not_named_iff (by cbv)⟩

/-- The same command lines in two logs. Neither is skipped as the first of its log, and the
second then gets the number that is to be skipped. -/
theorem scanLogs_named_two_logs :
    let skip := ["blob 1".toList]
    let machine := Machine.ofLogs [("first".toList, "[DEBUG] -d 0 -parameters\n".toList),
      ("second".toList, "[DEBUG] -d 1 -parameters\n".toList)]
    let rs : List Record := [⟨"blob 0".toList, "-d 0 -parameters".toList⟩,
      ⟨"blob 1".toList, "-d 1 -parameters".toList⟩]
    (scanLogs .maven skip [⟨"first".toList⟩, ⟨"second".toList⟩]).run machine = .ok rs machine ∧
      ∃ r ∈ rs, ∃ word ∈ skip, word <:+: r.name :=
  ⟨by cbv, by decide⟩

end Program

end BuildLog
