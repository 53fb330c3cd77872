-- SUMMARY: Which tokens of an argument line are values, and that a reduction goes by that alone.
import BuildLog.Proofs.ReducedArguments
import Mathlib.Data.List.Induction

/-!
# Options and their values

Whether a token is an option or the value of one depends on all tokens before it. A reduction keeps
that: a token that is left is an option or a value as it was before, and it is left exactly if it
is needed there. Where no option waits for its value, a line can be cut and reduced in two parts.
-/

namespace BuildLog.Arguments

open scoped List

variable {raw token option : Text} {ts us : List Text}

/-! ## Reading from left to right -/

/-- The options that have a value. -/
def valuedOptions : List Text := ["-d".toList, "-source".toList, "-target".toList]

/-- The option whose value the token at a place is. A value stands right behind an option that has
one and that is itself no value. -/
def valueOf? (ts : List Text) : Nat → Option Text
  | 0 => none
  | i + 1 => if valueOf? ts i = none then ts[i]?.filter (· ∈ valuedOptions) else none

/-- The tokens, each behind the option whose value it is. -/
def reading (ts : List Text) : List (Option Text × Text) :=
  ts.mapIdx fun i token => (valueOf? ts i, token)

theorem map_snd_reading (ts : List Text) : (reading ts).map Prod.snd = ts := by
  apply List.ext_getElem <;> simp [reading]

/-- What a token is depends on the tokens before it. -/
theorem valueOf?_append_left {i : Nat} (hi : i ≤ ts.length) :
    valueOf? (ts ++ us) i = valueOf? ts i := by
  induction i with
  | zero => rfl
  | succ i ih =>
    rw [valueOf?, valueOf?, ih (Nat.le_of_succ_le hi), List.getElem?_append_left hi]

/-- Behind tokens that leave no option without its value, the reading starts anew. -/
theorem valueOf?_append_right (hts : valueOf? ts ts.length = none) (i : Nat) :
    valueOf? (ts ++ us) (ts.length + i) = valueOf? us i := by
  induction i with
  | zero => rw [Nat.add_zero, valueOf?_append_left (Nat.le_refl _), hts, valueOf?]
  | succ i ih =>
    rw [← Nat.add_assoc, valueOf?, valueOf?, ih, List.getElem?_append_right (Nat.le_add_right ..),
      Nat.add_sub_cancel_left]

theorem reading_append (hts : valueOf? ts ts.length = none) :
    reading (ts ++ us) = reading ts ++ reading us := by
  rw [reading, List.mapIdx_append]
  congr 1
  · refine List.mapIdx_eq_mapIdx_iff.2 fun i hi => ?_
    rw [valueOf?_append_left (Nat.le_of_lt hi)]
  · refine List.mapIdx_eq_mapIdx_iff.2 fun i hi => ?_
    rw [Nat.add_comm, valueOf?_append_right hts]

theorem reading_cons (h : token ∉ valuedOptions) :
    reading (token :: ts) = (none, token) :: reading ts := by
  have hnone : valueOf? [token] [token].length = none := by simp [valueOf?, h]
  exact reading_append hnone

theorem reading_cons_cons (h : option ∈ valuedOptions) (value : Text) :
    reading (option :: value :: ts) = (none, option) :: (some option, value) :: reading ts := by
  have hnone : valueOf? [option, value] [option, value].length = none := by
    simp [valueOf?, h]
  have hpair : reading [option, value] = [(none, option), (some option, value)] := by
    simp [reading, valueOf?, h]
  calc reading (option :: value :: ts)
    _ = reading [option, value] ++ reading ts := reading_append hnone
    _ = (none, option) :: (some option, value) :: reading ts := by rw [hpair]; rfl

/-! ## What is left of a token -/

/-- A recompilation has no need of the token where it is an option. -/
def IsUnneeded (token : Text) : Prop :=
  token ∈ ["-d".toList, "-nowarn".toList, "-deprecation".toList, "-verbose".toList] ∨
    (∃ opening ∈ ["(".toList, "[".toList, "-Xlint".toList, "-Xdoclint".toList, "-W".toList],
      opening <+: token) ∨
    ".java".toList <:+ token

instance : DecidablePred IsUnneeded := fun _ => instDecidableOr

/-- A release that a current compiler refuses. -/
def IsOldRelease (release : Text) : Prop :=
  release ∈ ["1.5".toList, "1.6".toList, "1.7".toList, "5".toList, "6".toList, "7".toList]

instance : DecidablePred IsOldRelease := fun release =>
  inferInstanceAs (Decidable (release ∈ _))

/-- What is left of a token that is an option, or that is the value of one. -/
def kept : Option Text → Text → Option Text
  | none, token => if IsUnneeded token then none else some token
  | some option, value =>
    if option = "-d".toList then none
    else if IsOldRelease value then some "1.8".toList
    else some value

theorem isIdle_iff :
    isIdle token ↔ token ∈ idleSwitches ∨ (∃ opening ∈ idleOpenings, opening <+: token) ∨
      ".java".toList <:+ token := by
  simp only [isIdle, Bool.or_eq_true, List.contains_iff_mem, List.any_eq_true,
    List.isPrefixOf_iff_prefix, List.isSuffixOf_iff_suffix, or_assoc]

theorem isUnneeded_iff : IsUnneeded token ↔ isIdle token ∨ token = outputOption := by
  rw [IsUnneeded, List.mem_cons, or_assoc, or_comm, isIdle_iff]
  rfl

theorem isOldRelease_iff {release : Text} : IsOldRelease release ↔ oldReleases.contains release :=
  List.contains_iff_mem.symm

theorem kept_option (hidle : ¬ isIdle token) (hout : ¬ token == outputOption) :
    kept none token = some token := by
  refine if_neg (mt isUnneeded_iff.1 ?_)
  simpa using And.intro hidle hout

theorem kept_value (hout : ¬ option == outputOption) (value : Text) :
    kept (some option) value = some (raiseRelease value) := by
  have hout' : option ≠ "-d".toList := fun h => hout (beq_iff_eq.2 h)
  rw [kept, if_neg hout', raiseRelease]
  simp only [isOldRelease_iff, apply_ite some]
  rfl

theorem mem_valuedOptions_iff :
    token ∈ valuedOptions ↔ token = outputOption ∨ isReleaseOption token := by
  simp [valuedOptions, isReleaseOption, releaseOptions, outputOption]

theorem not_isIdle_of_mem_valuedOptions (h : token ∈ valuedOptions) : ¬ isIdle token := by
  revert token
  decide

/-! ## Reductions -/

/-- A reduction leaves tokens where they are needed, and they stay the options and values that they
were. -/
theorem reading_reduce (ts : List Text) :
    reading (reduce ts) =
      (reading ts).filterMap fun (owner, token) => (kept owner token).map (owner, ·) := by
  fun_induction reduce ts with
  | case1 => rfl
  | case2 token h =>
    have hkept : kept none token = none := if_pos (isUnneeded_iff.2 (by simpa using h))
    change [] = [(none, token)].filterMap _
    simp only [List.filterMap_cons, hkept, Option.map_none, List.filterMap_nil]
  | case3 token h =>
    rw [Bool.or_eq_true, not_or] at h
    change [(none, token)] = [(none, token)].filterMap _
    simp only [List.filterMap_cons, kept_option h.1 h.2, Option.map_some, List.filterMap_nil]
  | case4 token value rest hidle ih =>
    have hvalue : token ∉ valuedOptions := fun h => not_isIdle_of_mem_valuedOptions h hidle
    have hkept : kept none token = none := if_pos (isUnneeded_iff.2 (.inl hidle))
    rw [ih, reading_cons hvalue, List.filterMap_cons_none]
    simp only [hkept, Option.map_none]
  | case5 token value rest hidle hout ih =>
    obtain rfl : token = outputOption := by simpa using hout
    rw [ih, reading_cons_cons (by decide), List.filterMap_cons_none rfl,
      List.filterMap_cons_none rfl]
  | case6 token value rest hidle hout hrelease ih =>
    have hvalue : token ∈ valuedOptions := mem_valuedOptions_iff.2 (.inr hrelease)
    rw [reading_cons_cons hvalue, reading_cons_cons hvalue, ih]
    simp only [List.filterMap_cons, kept_option hidle hout, kept_value hout, Option.map_some]
  | case7 token value rest hidle hout hrelease ih =>
    have hvalue : token ∉ valuedOptions := by simp_all [mem_valuedOptions_iff]
    rw [reading_cons hvalue, reading_cons hvalue, ih]
    simp only [List.filterMap_cons, kept_option hidle hout, Option.map_some]

theorem reduce_eq (ts : List Text) :
    reduce ts = (reading ts).filterMap fun (owner, token) => kept owner token := by
  rw [← map_snd_reading (reduce ts), reading_reduce, List.map_filterMap]
  simp [Function.comp_def]

/-- No token is left that is not needed where it stands, and no release that is refused. -/
theorem needed_of_mem_reading_reduce {owner : Option Text}
    (h : (owner, token) ∈ reading (reduce ts)) :
    (owner = none → ¬ IsUnneeded token) ∧ (owner ≠ none → ¬ IsOldRelease token) := by
  rw [reading_reduce, List.mem_filterMap] at h
  obtain ⟨⟨owner', before⟩, -, h⟩ := h
  obtain ⟨left, hleft, heq⟩ := Option.map_eq_some_iff.1 h
  cases heq
  cases owner with
  | none =>
    rw [kept, Option.ite_none_left_eq_some] at hleft
    obtain ⟨hneeded, hleft⟩ := hleft
    cases hleft
    exact ⟨fun _ => hneeded, fun hne => absurd rfl hne⟩
  | some option =>
    rw [kept, Option.ite_none_left_eq_some] at hleft
    refine ⟨fun hnone => (by cases hnone), fun _ => ?_⟩
    obtain ⟨-, hleft⟩ := hleft
    split at hleft
    · cases hleft
      decide
    · cases hleft
      assumption

/-! ## Lines that are cut -/

theorem tokens_append (raw rest : Text) :
    tokens (raw ++ ' ' :: rest) = tokens raw ++ tokens rest := by
  simp only [tokens, List.splitOn_append_cons_self, List.filter_append]

/-- No option waits for its value if the last token is a value or an option that has none. -/
theorem valueOf?_length
    (h : ∀ option ∈ valuedOptions, (reading ts).getLast? ≠ some (none, option)) :
    valueOf? ts ts.length = none := by
  rcases List.eq_nil_or_concat' ts with rfl | ⟨ts, last, rfl⟩
  · rfl
  · have hlast : (reading (ts ++ [last])).getLast? =
        some (valueOf? (ts ++ [last]) ts.length, last) := by
      rw [reading, List.mapIdx_concat, List.getLast?_concat]
    rw [List.length_append, List.length_singleton, valueOf?]
    split
    · next hoption =>
      rw [hoption] at hlast
      have hvalue : last ∉ valuedOptions := fun hmem => h last hmem hlast
      simp [hvalue]
    · rfl

theorem reduce_append
    (h : ∀ option ∈ valuedOptions, (reading ts).getLast? ≠ some (none, option)) :
    reduce (ts ++ us) = reduce ts ++ reduce us := by
  rw [reduce_eq, reduce_eq, reduce_eq, reading_append (valueOf?_length h), List.filterMap_append]

/-- The tokens of a reduced line are those of the line without the options that are not needed,
without output directories, and with each release raised that is refused. Read anew, the reduced
line has none of these. A line is reduced in two parts where it is cut behind a token that has no
value to come. -/
theorem filter_by_position (raw : Text) :
    (∀ token, (none, token) ∈ reading (filter raw) → ¬ IsUnneeded token) ∧
    (∀ option value, (some option, value) ∈ reading (filter raw) → ¬ IsOldRelease value) ∧
    filter raw = (reading (tokens raw)).filterMap (fun (owner, token) => kept owner token) ∧
    ((∀ option ∈ valuedOptions, (reading (tokens raw)).getLast? ≠ some (none, option)) →
      ∀ rest, filter (raw ++ ' ' :: rest) = filter raw ++ filter rest) := by
  refine ⟨?_, ?_, reduce_eq (tokens raw), ?_⟩
  · intro token h
    exact (needed_of_mem_reading_reduce h).1 rfl
  · intro option value h
    exact (needed_of_mem_reading_reduce h).2 (by simp)
  · intro h rest
    calc filter (raw ++ ' ' :: rest)
      _ = reduce (tokens raw ++ tokens rest) := by rw [← tokens_append]; rfl
      _ = filter raw ++ filter rest := reduce_append h

/-- A source file is the value of the output option, the output option is the value of a release
option, and the line is cut behind a release that has the name of an option. -/
theorem filter_by_position_option_as_value :
    let raw := "-d A.java (x -source -d -target 1.6  -g -source -target".toList
    (∀ option ∈ valuedOptions, (reading (tokens raw)).getLast? ≠ some (none, option)) ∧
      filter (raw ++ ' ' :: "7 -target 7".toList) =
        ["-source".toList, "-d".toList, "-target".toList, "1.8".toList, "-g".toList,
          "-source".toList, "-target".toList] ++ ["7".toList, "-target".toList, "1.8".toList] := by
  intro raw
  have hcut : ∀ option ∈ valuedOptions, (reading (tokens raw)).getLast? ≠ some (none, option) := by
    decide
  exact ⟨hcut, (filter_by_position raw).2.2.2 hcut "7 -target 7".toList⟩

end BuildLog.Arguments
