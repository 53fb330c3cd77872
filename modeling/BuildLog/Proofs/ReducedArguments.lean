-- SUMMARY: Reduced arguments are on one line, and they are read back and reduced again without a change.
import BuildLog.Arguments
import BuildLog.Proofs.Text.Parts
import Mathlib.Data.List.Basic

/-!
# Reduced arguments

The reduction takes its tokens one by one, or two by two where an option has a value. What it keeps
of one step, the next reduction takes in one step as well. So reduced arguments stay as they are,
also when they are printed on a line and cut into tokens again.
-/

namespace BuildLog.Arguments

variable {raw token : Text} {ts : List Text}

/-! ## Tokens -/

theorem not_mem_of_mem_tokens {raw token : Text} (hraw : '\n' ∉ raw) (h : token ∈ tokens raw) :
    '\n' ∉ token := by
  have hpieces : [' '].intercalate (raw.splitOn ' ') = raw := List.intercalate_splitOn ' '
  intro hmem
  rw [← hpieces, Text.mem_intercalate_iff (by decide)] at hraw
  exact hraw ⟨token, List.mem_of_mem_filter h, hmem⟩

/-- A token is not empty, and no space is in it. -/
def IsToken (token : Text) : Prop := token ≠ [] ∧ ' ' ∉ token

theorem isToken_of_mem_tokens (h : token ∈ tokens raw) : IsToken token := by
  obtain ⟨hpiece, hne⟩ := List.mem_filter.1 h
  exact ⟨by simpa using hne, Text.not_mem_of_mem_splitOn hpiece⟩

theorem splitOn_intercalate (hts : ∀ token ∈ ts, IsToken token) :
    ([' '].intercalate ts).splitOn ' ' = if ts = [] then [[]] else ts := by
  split
  · next hnil => rw [hnil]; rfl
  · next hne => exact List.splitOn_intercalate ' ' (fun token h => (hts token h).2) hne

/-- Tokens that are printed with spaces between them are read back. -/
theorem tokens_intercalate (hts : ∀ token ∈ ts, IsToken token) :
    tokens ([' '].intercalate ts) = ts := by
  rw [tokens, splitOn_intercalate hts]
  split
  · next hnil => rw [hnil]; rfl
  · refine List.filter_eq_self.2 ?_
    intro token h
    simpa using (hts token h).1

/-! ## Tokens that are kept -/

theorem mem_reduce {token : Text} {ts : List Text} (h : token ∈ reduce ts) :
    token ∈ ts ∨ token = oldestRelease := by
  fun_induction reduce ts with
  | case1 => cases h
  | case2 => cases h
  | case3 => exact .inl h
  | case4 t value rest _ ih => exact (ih h).imp_left (List.mem_cons_of_mem t)
  | case5 t value rest _ _ ih =>
    exact (ih h).imp_left fun hmem => List.mem_cons_of_mem t (List.mem_cons_of_mem value hmem)
  | case6 t value rest _ _ _ ih =>
    rcases List.mem_cons.1 h with rfl | h
    · exact .inl List.mem_cons_self
    · rcases List.mem_cons.1 h with rfl | h
      · unfold raiseRelease
        split
        · exact .inr rfl
        · exact .inl (by simp)
      · exact (ih h).imp_left fun hmem => List.mem_cons_of_mem t (List.mem_cons_of_mem value hmem)
  | case7 t value rest _ _ _ ih =>
    rcases List.mem_cons.1 h with rfl | h
    · exact .inl List.mem_cons_self
    · exact (ih h).imp_left (List.mem_cons_of_mem t)

theorem isToken_of_mem_filter (h : token ∈ filter raw) : IsToken token := by
  rcases mem_reduce h with h | rfl
  · exact isToken_of_mem_tokens h
  · exact ⟨by decide, by decide⟩

theorem not_mem_filterLine {raw : Text} (hraw : '\n' ∉ raw) : '\n' ∉ filterLine raw := by
  rw [filterLine, Text.mem_intercalate_iff (by decide)]
  rintro ⟨token, htoken, hmem⟩
  rcases mem_reduce htoken with h | rfl
  · exact not_mem_of_mem_tokens hraw h hmem
  · exact absurd hmem (by decide)

/-! ## Reduction of what is reduced -/

/-- A token that is kept and has no value is taken by itself, whatever follows it. -/
theorem reduce_cons (hidle : ¬ isIdle token) (hout : ¬ token == outputOption)
    (hrelease : ¬ isReleaseOption token) (ts : List Text) :
    reduce (token :: ts) = token :: reduce ts := by
  cases ts with
  | nil =>
    have hkept : ¬ (isIdle token || token == outputOption) := by simp [hidle, hout]
    exact if_neg hkept
  | cons value rest => simp only [reduce, if_neg hidle, if_neg hout, if_neg hrelease]

/-- A release that was raised is not raised again. -/
theorem raiseRelease_raiseRelease (release : Text) :
    raiseRelease (raiseRelease release) = raiseRelease release := by
  by_cases hold : oldReleases.contains release
  · have hraised : raiseRelease release = oldestRelease := if_pos hold
    rw [hraised]
    decide
  · have hkept : raiseRelease release = release := if_neg hold
    rw [hkept, hkept]

/-- Each step of a reduction is a step of the reduction of its result. -/
theorem reduce_reduce (ts : List Text) : reduce (reduce ts) = reduce ts := by
  fun_induction reduce ts with
  | case1 => rfl
  | case2 => rfl
  | case3 token hkept => simp only [reduce, if_neg hkept]
  | case4 token value rest _ ih => exact ih
  | case5 token value rest _ _ ih => exact ih
  | case6 token value rest hidle hout hrelease ih =>
    simp only [reduce, if_neg hidle, if_neg hout, if_pos hrelease, raiseRelease_raiseRelease, ih]
  | case7 token value rest hidle hout hrelease ih =>
    rw [reduce_cons hidle hout hrelease, ih]

/-- The tokens of a reduced line are the tokens that were kept, one between each two spaces, and
reducing the line again changes nothing. -/
theorem filter_filterLine (raw : Text) :
    tokens (filterLine raw) = filter raw ∧
    (filterLine raw).splitOn ' ' = (if filter raw = [] then [[]] else filter raw) ∧
    filter (filterLine raw) = filter raw := by
  have htokens : tokens (filterLine raw) = filter raw :=
    tokens_intercalate fun _ => isToken_of_mem_filter
  refine ⟨htokens, splitOn_intercalate fun _ => isToken_of_mem_filter, ?_⟩
  calc filter (filterLine raw)
    _ = reduce (tokens (filterLine raw)) := rfl
    _ = reduce (reduce (tokens raw)) := by rw [htokens]; rfl
    _ = filter raw := reduce_reduce (tokens raw)

end BuildLog.Arguments
