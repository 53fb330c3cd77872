-- SUMMARY: The names by which a path is walked, of joined paths and of paths put together from names.
import BuildLog.Path
import BuildLog.Proofs.Text.Parts

/-!
# Names of a path

The names of a path are what stands between its slashes. A path that is joined with a name has
that name behind its own, whether it ends in a slash or not.
-/

namespace BuildLog

namespace Path

variable {p : Path} {name : Text}

/-! ## Names -/

theorem names_append_slash (s s' : Text) : names ⟨s ++ '/' :: s'⟩ = names ⟨s⟩ ++ names ⟨s'⟩ := by
  simp only [names, List.splitOn_append_cons_self, List.filter_append]

theorem names_of_not_mem (hne : name ≠ []) (hslash : '/' ∉ name) : names ⟨name⟩ = [name] := by
  simp [names, List.splitOn_eq_singleton hslash, hne]

theorem not_mem_of_mem_names (h : name ∈ p.names) : '/' ∉ name :=
  Text.not_mem_of_mem_splitOn ((List.mem_filter.1 h).1)

/-- The characters of a name are characters of the path. -/
theorem mem_of_mem_names {c : Char} (h : name ∈ p.names) (hc : c ∈ name) : c ∈ p.text := by
  have hslash : c ≠ '/' := by
    rintro rfl
    exact not_mem_of_mem_names h hc
  have htext : List.intercalate ['/'] (p.text.splitOn '/') = p.text := List.intercalate_splitOn '/'
  rw [← htext, Text.mem_intercalate_iff (by simpa using hslash)]
  exact ⟨name, (List.mem_filter.1 h).1, hc⟩

theorem mem_components (h : name ∈ p.components) : name ∈ p.names ∨ name = [] := by
  rw [components] at h
  split at h
  · simpa using h
  · exact .inl h

theorem slash_not_mem_of_mem_components (h : name ∈ p.components) : '/' ∉ name := by
  rcases mem_components h with h | rfl
  · exact not_mem_of_mem_names h
  · simp

theorem mem_of_mem_components {c : Char} (h : name ∈ p.components) (hc : c ∈ name) :
    c ∈ p.text := by
  rcases mem_components h with h | rfl
  · exact mem_of_mem_names h hc
  · cases hc

/-! ## Joined paths -/

theorem not_endsInSlash_append (hne : name ≠ []) (hslash : '/' ∉ name) (s : Text) :
    ¬ endsInSlash ⟨s ++ name⟩ := by
  intro h
  have hlast : (s ++ name).getLast? = some '/' := by simpa only [endsInSlash, beq_iff_eq] using h
  rw [List.getLast?_append, List.getLast?_eq_some_getLast hne, Option.some_or,
    Option.some.injEq] at hlast
  exact hslash (hlast ▸ List.getLast_mem hne)

theorem glue_eq (hp : p.text ≠ []) (hend : ¬ p.endsInSlash) : p.glue = ['/'] := by
  rw [glue, if_neg]
  simpa using And.intro hp hend

theorem eq_append_slash (h : p.endsInSlash) : ∃ s, p.text = s ++ ['/'] := by
  have hlast : p.text.getLast? = some '/' := by simpa [endsInSlash] using h
  exact List.getLast?_eq_some_iff.1 hlast

theorem slash_mem_push (hp : p.text ≠ []) (hslash : '/' ∉ name) :
    '/' ∈ (p.push ⟨name⟩).text := by
  rw [push_name hslash, glue]
  split
  · next h =>
    rw [Bool.or_eq_true, List.isEmpty_iff, or_iff_right hp] at h
    obtain ⟨s, hs⟩ := eq_append_slash h
    simp [hs]
  · simp

theorem not_mem_push {c : Char} (hc : c ≠ '/') (hslash : '/' ∉ name) (hp : c ∉ p.text)
    (hname : c ∉ name) : c ∉ (p.push ⟨name⟩).text := by
  rw [push_name hslash, glue]
  split <;> simp [hp, hname, hc]

theorem isAbsolute_push (hp : p.text ≠ []) (hslash : '/' ∉ name) :
    (p.push ⟨name⟩).isAbsolute = p.isAbsolute := by
  rw [push_name hslash, isAbsolute, isAbsolute, List.head?_append]
  cases htext : p.text with
  | nil => exact absurd htext hp
  | cons c text => rfl

theorem names_push (hne : name ≠ []) (hslash : '/' ∉ name) :
    (p.push ⟨name⟩).names = p.names ++ [name] := by
  rw [push_name hslash, ← names_of_not_mem hne hslash, glue]
  split
  · next h =>
    rcases Bool.or_eq_true_iff.1 h with hempty | hend
    · obtain ⟨text⟩ := p
      obtain rfl := List.isEmpty_iff.1 hempty
      rfl
    · obtain ⟨s, hs⟩ := eq_append_slash hend
      have hp : p.names = names ⟨s⟩ := by
        rw [show p = ⟨s ++ '/' :: []⟩ from congrArg Path.mk hs, names_append_slash]
        exact List.append_nil _
      rw [hs, List.append_assoc, List.nil_append, List.singleton_append, names_append_slash, hp]
  · exact names_append_slash p.text name

theorem not_endsInSlash_push (hne : name ≠ []) (hslash : '/' ∉ name) :
    ¬ (p.push ⟨name⟩).endsInSlash := by
  rw [push_name hslash, ← List.append_assoc]
  exact not_endsInSlash_append hne hslash _

theorem components_push (hne : name ≠ []) (hslash : '/' ∉ name) :
    (p.push ⟨name⟩).components = p.names ++ [name] := by
  rw [components, if_neg (not_endsInSlash_push hne hslash), names_push hne hslash]

end Path

end BuildLog
