-- SUMMARY: A well-formed Maven log yields the compilations that it announces, each for the target of the banner above.
import BuildLog.Proofs.Layout.Records
import BuildLog.Proofs.Layout.Target
import Mathlib.Data.List.Infix

/-!
# Announced options

A Maven log is written in blocks. Each block starts with a banner, and below it stand announcements,
each with the options on the next line, and other lines. Reading a log that is written so gives back
what was announced in it, under the execution and the module of the banner.
-/

namespace BuildLog

namespace Maven

/-! ## Banners -/

/-- The banner of a plugin execution. -/
structure Banner where
  /-- The spaces ahead of the level. -/
  indent : Nat
  /-- Whether the plugin forks a build of its own, which gives the banner another rule. -/
  forked : Bool
  plugin : Text
  execution : Text
  unit : Text

namespace Banner

variable {b : Banner}

def opening (b : Banner) : Text :=
  if b.forked then "[INFO] >>> ".toList else "[INFO] --- ".toList

/-- What the banner says behind its opening. -/
def body (b : Banner) : Text :=
  b.plugin ++ " (".toList ++ b.execution ++ ") @ ".toList ++ (b.unit ++ " ---".toList)

def line (b : Banner) : Text :=
  List.replicate b.indent ' ' ++ (b.opening ++ b.body)

/-- The name of the records that are announced below the banner. -/
def target (b : Banner) : Text :=
  b.execution ++ ' ' :: b.unit

structure IsWellFormed (b : Banner) : Prop where
  one_line : '\n' ∉ b.line
  no_announcement : ¬ "Command line options:".toList <:+: b.line
  no_parenthesis : ¬ " (".toList <:+: b.execution
  unit_word : b.unit.IsWord

instance (b : Banner) : Decidable b.IsWellFormed :=
  decidable_of_iff ('\n' ∉ b.line ∧ ¬ "Command line options:".toList <:+: b.line ∧
      ¬ " (".toList <:+: b.execution ∧ b.unit.IsWord)
    ⟨fun h => ⟨h.1, h.2.1, h.2.2.1, h.2.2.2⟩,
      fun h => ⟨h.one_line, h.no_announcement, h.no_parenthesis, h.unit_word⟩⟩

theorem isTrimmed (b : Banner) : Text.IsTrimmed (b.opening ++ b.body) where
  head c hc := by
    have hhead : (b.opening ++ b.body).head? = some '[' := by
      cases hforked : b.forked <;> simp [opening, hforked]
    obtain rfl := Option.some.inj (hhead.symm.trans hc)
    decide
  last c hc := by
    have hlast : (b.opening ++ b.body).getLast? = some '-' := by
      rw [body, ← List.append_assoc, ← List.append_assoc, List.getLast?_append]
      rfl
    obtain rfl := Option.some.inj (hlast.symm.trans hc)
    decide

theorem trim_line (b : Banner) : Text.trim b.line = b.opening ++ b.body := by
  have hspaces : ∀ c ∈ List.replicate b.indent ' ', isBlank c := by
    intro c hc
    rw [List.eq_of_mem_replicate hc]
    decide
  rw [line, Text.trim_append hspaces, b.isTrimmed.trim_eq]

/-- The search for banners finds the line, for it has the level and a sign behind it. -/
theorem isBanner_line (h : '\n' ∉ b.line) : isBanner b.line := by
  refine (isBanner_iff h).2 ⟨List.replicate b.indent ' ', [], [],
    (if b.forked then " >>> ".toList else " --- ".toList) ++ b.plugin ++ " (".toList ++
      b.execution ++ ")".toList, b.unit ++ " ---".toList, ?_⟩
  cases hforked : b.forked <;> simp [line, opening, body, hforked]

/-- Behind the sign there is no other one, because the module is a word. -/
theorem ne_append_sign {unit : Text} (hunit : unit.IsWord) (x rest : Text) :
    unit ++ " ---".toList ≠ x ++ ") @ ".toList ++ rest := by
  intro h
  rw [List.append_assoc] at h
  rcases List.append_eq_append_iff.1 h with ⟨t, -, htail⟩ | ⟨t, rfl, htail⟩
  · have hmem : ')' ∈ " ---".toList := by simp [htail]
    exact absurd hmem (by decide)
  · -- The sign would start in the module, but it has a blank.
    match t, htail with
    | [], htail => cases htail
    | [_], htail => cases htail
    | _ :: c :: t, htail =>
      obtain rfl : ' ' = c := (List.cons.inj (List.cons.inj htail).2).1
      exact hunit.not_isBlank ' ' (by simp) (by decide)

theorem target?_eq (h : b.IsWellFormed) :
    target? (b.opening ++ b.body) = some (b.execution, b.unit) := by
  have hline : '\n' ∉ b.opening ++ b.body :=
    fun hmem => h.one_line (List.mem_append_right _ hmem)
  have hbody : behindRule? (b.opening ++ b.body).firstLine = some b.body := by
    rw [Text.firstLine_eq_self hline, behindRule?_eq_some_iff]
    cases hforked : b.forked <;> simp [opening, hforked]
  have htarget : HasTarget b.body b.plugin b.execution b.unit " ---".toList := by
    refine ⟨rfl, h.no_parenthesis, h.unit_word, ?_, ?_⟩
    · intro c hc
      obtain rfl : ' ' = c := Option.some.inj hc
      decide
    · intro x rest heq
      exact absurd heq (ne_append_sign h.unit_word x rest)
  exact target?_eq_some_iff.2 ⟨b.body, b.plugin, " ---".toList, hbody, htarget⟩

end Banner

/-! ## Lines below a banner -/

/-- The line of the options behind an announcement. -/
def optionsLine (debug : Bool) (args : Text) : Text :=
  (if debug then "[DEBUG] ".toList else "[INFO] ".toList) ++ args

/-- The gutter of a debug line is one column wider, and that column is a blank. -/
theorem pastGutter_optionsLine {args : Text} (h : args.IsTrimmed) (debug : Bool) (i : Nat) :
    pastGutter (optionsLine debug args) i = .ok args := by
  cases debug with
  | false =>
    have hargs : pastGutter (optionsLine false args) i = .ok (Text.trim args) := rfl
    rw [hargs, h.trim_eq]
  | true =>
    have hargs : pastGutter (optionsLine true args) i = .ok (Text.trim ([' '] ++ args)) := rfl
    rw [hargs, Text.trim_append (List.forall_mem_singleton.2 rfl), h.trim_eq]

theorem namesOutputDirectory_optionsLine {debug : Bool} {args : Text} :
    namesOutputDirectory (optionsLine debug args) ↔ "-d".toList <:+: args := by
  rw [namesOutputDirectory, Text.includes_iff, optionsLine]
  constructor
  · rintro ⟨x, rest, h⟩
    have hgutter : '-' ∉ if debug then "[DEBUG] ".toList else "[INFO] ".toList := by
      cases debug <;> decide
    rw [List.append_assoc] at h
    obtain ⟨x', -, hargs⟩ := Text.exists_of_append_cons_eq (w := 'd' :: rest) hgutter h
    exact ⟨x', rest, by simp [hargs]⟩
  · intro h
    exact h.trans (List.suffix_append ..).isInfix

/-- What stands below a banner. -/
inductive Passage where
  /-- A line that is neither a banner nor belongs to an announcement. -/
  | noise (line : Text)
  /-- An announcement, and the line with the options behind it. -/
  | options (announcement : Text) (debug : Bool) (args : Text)

namespace Passage

def lines : Passage → List Text
  | noise line => [line]
  | options announcement debug args => [announcement, optionsLine debug args]

/-- The arguments of the compilation that is announced. Options without an output directory
compile nothing. -/
def arguments? : Passage → Option Text
  | noise _ => none
  | options _ _ args => if "-d".toList <:+: args then some args else none

def IsWellFormed : Passage → Prop
  | noise line => ¬ "Command line options:".toList <:+: line ∧ ¬ isBanner line
  | options announcement debug args =>
    ("Command line options:".toList <:+: announcement ∧ ¬ isBanner announcement) ∧
      (¬ "Command line options:".toList <:+: optionsLine debug args ∧
        ¬ isBanner (optionsLine debug args)) ∧ args.IsTrimmed

instance (passage : Passage) : Decidable passage.IsWellFormed :=
  match passage with
  | noise _ => inferInstanceAs (Decidable (_ ∧ _))
  | options .. => inferInstanceAs (Decidable (_ ∧ _))

theorem IsWellFormed.not_isBanner {passage : Passage} (h : passage.IsWellFormed) :
    ∀ line ∈ passage.lines, ¬ isBanner line := by
  cases passage with
  | noise line => exact List.forall_mem_singleton.2 h.2
  | options announcement debug args =>
    exact List.forall_mem_cons.2 ⟨h.1.2, List.forall_mem_singleton.2 h.2.1.2⟩

end Passage

/-! ## Blocks -/

/-- A banner and what stands below it up to the next one. -/
structure Block where
  banner : Banner
  passages : List Passage

namespace Block

def lines (block : Block) : List Text :=
  block.banner.line :: block.passages.flatMap Passage.lines

/-- What is announced in the block. -/
def records (block : Block) : List Record :=
  (block.passages.filterMap Passage.arguments?).map fun args => ⟨block.banner.target, args⟩

structure IsWellFormed (block : Block) : Prop where
  banner : block.banner.IsWellFormed
  passages : ∀ passage ∈ block.passages, passage.IsWellFormed

instance (block : Block) : Decidable block.IsWellFormed :=
  decidable_of_iff (block.banner.IsWellFormed ∧ ∀ passage ∈ block.passages, passage.IsWellFormed)
    ⟨fun h => ⟨h.1, h.2⟩, fun h => ⟨h.banner, h.passages⟩⟩

/-- The banner of a block is the nearest one from each of its lines. -/
theorem targetName_lines {block : Block} (h : block.IsWellFormed) (i : Nat) :
    targetName block.lines i = .ok block.banner.target := by
  have hplace : Log.nearest? isBanner block.lines i = some 0 := by
    refine Log.lastBelow?_eq_some_iff.2 ⟨Nat.succ_pos i, ⟨_, rfl, ?_⟩, ?_⟩
    · exact Banner.isBanner_line h.banner.one_line
    · intro j line hj _ hline
      obtain ⟨j, rfl⟩ := Nat.exists_eq_succ_of_ne_zero (Nat.ne_of_gt hj)
      have hmem : line ∈ block.passages.flatMap Passage.lines := List.mem_of_getElem? hline
      obtain ⟨passage, hpassage, hmem⟩ := List.mem_flatMap.1 hmem
      exact (h.passages passage hpassage).not_isBanner line hmem
  have hbanner : Text.trim (block.lines.getD 0 []) = block.banner.opening ++ block.banner.body :=
    block.banner.trim_line
  simp only [targetName, hplace, hbanner, Banner.target?_eq h.banner]
  rfl

end Block

end Maven

/-! ## Records of a log that is written in blocks -/

namespace Layout

open Maven

theorem isMarker_mavenOptions {line : Text} :
    mavenOptions.isMarker line ↔ "Command line options:".toList <:+: line :=
  Text.includes_iff ..

theorem markers_noise {line : Text} (h : ¬ "Command line options:".toList <:+: line) :
    mavenOptions.markers [line] = [] := by
  have hmarker : ¬ mavenOptions.isMarker line := mt isMarker_mavenOptions.1 h
  simp [markers_eq, Log.positions, hmarker]

theorem markers_options {announcement options : Text}
    (ha : "Command line options:".toList <:+: announcement)
    (ho : ¬ "Command line options:".toList <:+: options) :
    mavenOptions.markers [announcement, options] = [0] := by
  have hmarker : mavenOptions.isMarker announcement := isMarker_mavenOptions.2 ha
  have hother : ¬ mavenOptions.isMarker options := mt isMarker_mavenOptions.1 ho
  simp [markers_eq, Log.positions, hmarker, hother]

/-- An announcement yields the options behind it, for the target of its block. -/
theorem record?_options {ahead rest : List Text} {announcement args name : Text} {debug : Bool}
    {count : Nat} (hargs : args.IsTrimmed)
    (hname : targetName (ahead ++ announcement :: optionsLine debug args :: rest) ahead.length =
      .ok name) :
    mavenOptions.record? (ahead ++ announcement :: optionsLine debug args :: rest) count
        ahead.length =
      .ok ((Passage.options announcement debug args).arguments?.map fun args => ⟨name, args⟩) := by
  have hnext : (ahead ++ announcement :: optionsLine debug args :: rest)[ahead.length + 1]? =
      some (optionsLine debug args) := by
    simp
  simp only [record?, announcedRecord?, hnext, Passage.arguments?]
  by_cases hout : "-d".toList <:+: args
  · rw [if_pos (namesOutputDirectory_optionsLine.2 hout), if_pos hout,
      pastGutter_optionsLine hargs, hname]
    rfl
  · rw [if_neg (mt namesOutputDirectory_optionsLine.1 hout), if_neg hout]
    rfl

/-- The lines of one passage yield its record, if it has one. -/
theorem recordsFrom_passage {ahead rest : List Text} {passage : Passage} {name : Text} {count : Nat}
    (h : passage.IsWellFormed)
    (hname : ∀ i, targetName (ahead ++ (passage.lines ++ rest)) i = .ok name) :
    mavenOptions.recordsFrom (ahead ++ (passage.lines ++ rest)) [] count
        ((mavenOptions.markers passage.lines).map (ahead.length + ·)) =
      .ok (passage.arguments?.map fun args => ⟨name, args⟩).toList := by
  cases passage with
  | noise line =>
    rw [Passage.lines, markers_noise h.1]
    rfl
  | options announcement debug args =>
    obtain ⟨⟨hannouncement, -⟩, ⟨hoptions, -⟩, hargs⟩ := h
    rw [Passage.lines, markers_options hannouncement hoptions]
    have hrecord : List.Forall₂ (fun i r => ∀ count, mavenOptions.record?
          (ahead ++ ((Passage.options announcement debug args).lines ++ rest)) count i = .ok r)
        [ahead.length]
        [(Passage.options announcement debug args).arguments?.map fun args => ⟨name, args⟩] :=
      .cons (fun _ => record?_options hargs (hname _)) .nil
    exact (recordsFrom_of_forall₂ hrecord).trans (by simp)

/-- The lines of the passages below a banner yield their records one after the other. -/
theorem recordsFrom_passages {passages : List Passage} {name : Text}
    (h : ∀ passage ∈ passages, passage.IsWellFormed) (ahead : List Text)
    (hname : ∀ i, targetName (ahead ++ passages.flatMap Passage.lines) i = .ok name) (count : Nat) :
    mavenOptions.recordsFrom (ahead ++ passages.flatMap Passage.lines) [] count
        ((mavenOptions.markers (passages.flatMap Passage.lines)).map (ahead.length + ·)) =
      .ok ((passages.filterMap Passage.arguments?).map fun args => ⟨name, args⟩) := by
  induction passages generalizing ahead count with
  | nil => rfl
  | cons passage passages ih =>
    obtain ⟨hpassage, hpassages⟩ := List.forall_mem_cons.1 h
    rw [List.flatMap_cons] at hname ⊢
    rw [markers_append, List.map_append, List.map_map, recordsFrom_append,
      recordsFrom_passage hpassage hname]
    have hrest := ih hpassages (ahead ++ passage.lines)
      (by simpa only [List.append_assoc] using hname)
    simp only [List.append_assoc, List.length_append, Nat.add_assoc] at hrest
    refine bind_eq_ok.2 ⟨_, rfl, bind_eq_ok.2 ⟨_, hrest _, ?_⟩⟩
    cases hargs : passage.arguments? <;> simp [hargs, pure, Except.pure]

theorem records_block {block : Block} (h : block.IsWellFormed) :
    mavenOptions.records block.lines [] = .ok block.records := by
  have hmarkers : mavenOptions.markers block.lines =
      (mavenOptions.markers (block.passages.flatMap Passage.lines)).map (1 + ·) := by
    calc mavenOptions.markers block.lines
      _ = mavenOptions.markers [block.banner.line] ++
          (mavenOptions.markers (block.passages.flatMap Passage.lines)).map (1 + ·) :=
        markers_append [block.banner.line] _
      _ = _ := by rw [markers_noise h.banner.no_announcement, List.nil_append]
  rw [records, hmarkers]
  exact recordsFrom_passages h.passages [block.banner.line] (Block.targetName_lines h) 0

/-- A log that is written in blocks yields what was announced in them, in order, and nothing
else. -/
theorem records_blocks (blocks : List Block) (h : ∀ block ∈ blocks, block.IsWellFormed) :
    mavenOptions.records (blocks.flatMap Block.lines) [] = .ok (blocks.flatMap Block.records) := by
  refine records_flatten (by decide) ?_
  rw [List.forall₂_map_left_iff, List.forall₂_map_right_iff, List.forall₂_same]
  intro block hblock
  exact records_block (h block hblock)

/-- Parentheses and signs stand in each part of the first banner, and the second options of its
block name no output directory. The second banner is that of a plugin that forks. -/
theorem records_blocks_two_banners :
    let blocks : List Block := [
      ⟨⟨2, false, "a (b) @ c".toList, "x) @ y(z".toList, "core)".toList⟩,
        [.noise "[INFO] Compiling".toList,
          .options "[DEBUG] Command line options:".toList true "-d out (1) @ 2".toList,
          .options "Command line options:".toList false "-g".toList]⟩,
      ⟨⟨0, true, [], "default".toList, "app".toList⟩,
        [.options "Command line options:".toList false "-g -d b".toList]⟩]
    (∀ block ∈ blocks, block.IsWellFormed) ∧
      mavenOptions.records (blocks.flatMap Block.lines) [] =
        .ok [⟨"x) @ y(z core)".toList, "-d out (1) @ 2".toList⟩,
          ⟨"default app".toList, "-g -d b".toList⟩] := by
  intro blocks
  have h : ∀ block ∈ blocks, block.IsWellFormed := by decide
  exact ⟨h, records_blocks blocks h⟩

end Layout

end BuildLog
