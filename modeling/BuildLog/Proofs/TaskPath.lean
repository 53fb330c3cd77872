-- SUMMARY: The directory of the sources of a task follows the projects of the task path one by one.
import BuildLog.Proofs.Path
import BuildLog.SourceSet

/-!
# Task paths

A task path names projects, each ended by a colon, and a task. Its first project leads into the
directory from which the rest of the path is followed, and a colon with no name before it leads
nowhere. So the directory of the sources is found project by project.
-/

namespace BuildLog.SourceSet

variable {project : Path} {task name part : Text}

/-! ## Parts of a task path -/

/-- The colons that a task path starts with end no name. -/
theorem getLast?_parts (task : Text) : (parts task).getLast? = (task.splitOn ':').getLast? := by
  induction task with
  | nil => rfl
  | cons c task ih =>
    by_cases hc : c = ':'
    · subst hc
      rw [List.splitOn_cons_eq_if_modifyHead, if_pos BEq.rfl,
        List.getLast?_cons_of_ne_nil (List.splitOn_ne_nil ':' task), ← ih]
      rfl
    · rw [parts, List.dropWhile_cons_of_neg (by simpa using hc)]

theorem filter_dropLast_parts (task : Text) :
    ((parts task).dropLast.filter fun part => !part.isEmpty) =
      (task.splitOn ':').dropLast.filter fun part => !part.isEmpty := by
  induction task with
  | nil => rfl
  | cons c task ih =>
    by_cases hc : c = ':'
    · subst hc
      rw [List.splitOn_cons_eq_if_modifyHead, if_pos BEq.rfl,
        List.dropLast_cons_of_ne_nil (List.splitOn_ne_nil ':' task),
        List.filter_cons_of_neg (by simp), ← ih]
      rfl
    · rw [parts, List.dropWhile_cons_of_neg (by simpa using hc)]

/-! ## Part by part -/

theorem directory?_name (h : ':' ∉ name) :
    directory? project name = if name = [] then none else some (project.push (sourcesOf name)) := by
  have hlast : (parts name).getLast? = some name := by
    rw [getLast?_parts, List.splitOn_eq_singleton h]
    rfl
  have hprojects : ((parts name).dropLast.filter fun part => !part.isEmpty) = [] := by
    rw [filter_dropLast_parts, List.splitOn_eq_singleton h]
    rfl
  simp only [directory?, hlast, hprojects, List.isEmpty_iff]
  rfl

theorem directory?_colon (rest : Text) :
    directory? project (':' :: rest) = directory? project rest :=
  rfl

theorem directory?_part (hne : part ≠ []) (hcolon : ':' ∉ part) (rest : Text) :
    directory? project (part ++ ':' :: rest) = directory? (project.push ⟨part⟩) rest := by
  have hrest : rest.splitOn ':' ≠ [] := List.splitOn_ne_nil ':' rest
  have hlast : (parts (part ++ ':' :: rest)).getLast? = (parts rest).getLast? := by
    rw [getLast?_parts, getLast?_parts, List.splitOn_append_cons_self_of_not_mem hcolon,
      List.getLast?_cons_of_ne_nil hrest]
  have hprojects : ((parts (part ++ ':' :: rest)).dropLast.filter fun part => !part.isEmpty) =
      part :: (parts rest).dropLast.filter fun part => !part.isEmpty := by
    rw [filter_dropLast_parts, filter_dropLast_parts,
      List.splitOn_append_cons_self_of_not_mem hcolon, List.dropLast_cons_of_ne_nil hrest,
      List.filter_cons_of_pos (by simpa using hne)]
  simp only [directory?, hlast, hprojects]
  rfl

/-! ## Whole task paths -/

theorem directory?_eq_none_iff :
    directory? project task = none ↔ task = [] ∨ task.getLast? = some ':' := by
  induction task using Text.piece_induction ':' generalizing project with
  | last name hname =>
    have hlast : name.getLast? ≠ some ':' := fun h => hname (List.mem_of_getLast? h)
    rw [directory?_name hname]
    simp [hlast]
  | more part rest hpart ih =>
    have hlast : (part ++ ':' :: rest).getLast? = some ':' ↔
        rest = [] ∨ rest.getLast? = some ':' := by
      rw [List.getLast?_append_of_ne_nil part (List.cons_ne_nil ':' rest)]
      cases rest with
      | nil => simp
      | cons c rest => simp [List.getLast?_cons_cons]
    have hne : part ++ ':' :: rest ≠ [] := by simp
    rw [or_iff_right hne, hlast]
    by_cases hempty : part = []
    · subst hempty
      exact ih
    · rw [directory?_part hempty hpart]
      exact ih

theorem text_push_sourcesOf (hp : project.text ≠ []) (hend : ¬ project.endsInSlash) (name : Text) :
    (project.push (sourcesOf name)).text = project.text ++
      if name = "compileJava".toList then "/src/main".toList else "/src/test".toList := by
  have hrelative : ¬ (sourcesOf name).isAbsolute := by
    rw [sourcesOf]
    split <;> decide
  rw [Path.push_of_not_isAbsolute hrelative, Path.glue_eq hp hend, sourcesOf]
  simp only [beq_iff_eq]
  split <;> rfl

/-- Names without slashes are joined to a project by one slash each. -/
theorem text_of_directory? {directory : Path} (hp : project.text ≠ [])
    (hend : ¬ project.endsInSlash) (hparts : ∀ part ∈ task.splitOn ':', '/' ∉ part)
    (h : directory? project task = some directory) :
    directory.text = project.text ++
      ((task.splitOn ':').dropLast.filter fun part => !part.isEmpty).flatMap ('/' :: ·) ++
      if (task.splitOn ':').getLast? = some "compileJava".toList then "/src/main".toList
      else "/src/test".toList := by
  induction task using Text.piece_induction ':' generalizing project with
  | last name hname =>
    rw [directory?_name hname, Option.ite_none_left_eq_some] at h
    obtain ⟨-, h⟩ := h
    cases h
    rw [List.splitOn_eq_singleton hname, text_push_sourcesOf hp hend]
    simp only [List.dropLast_singleton, List.filter_nil, List.flatMap_nil, List.append_nil,
      List.getLast?_singleton, Option.some.injEq]
  | more part rest hpart ih =>
    have hrest : rest.splitOn ':' ≠ [] := List.splitOn_ne_nil ':' rest
    rw [List.splitOn_append_cons_self_of_not_mem hpart, List.forall_mem_cons] at hparts
    rw [List.splitOn_append_cons_self_of_not_mem hpart, List.dropLast_cons_of_ne_nil hrest,
      List.getLast?_cons_of_ne_nil hrest]
    by_cases hempty : part = []
    · subst hempty
      exact ih hp hend hparts.2 h
    · have hpush : project.push ⟨part⟩ = ⟨project.text ++ '/' :: part⟩ := by
        rw [Path.push_name hparts.1, Path.glue_eq hp hend]
        rfl
      have hend' := Path.not_endsInSlash_push (p := project) hempty hparts.1
      rw [directory?_part hempty hpart] at h
      rw [ih (by simp [hpush]) hend' hparts.2 h, List.filter_cons_of_pos (by simpa using hempty),
        List.flatMap_cons, hpush, List.append_assoc project.text]

/-- There is a directory for each task path that ends in a name. It is found project by project,
and a project whose path is not empty and ends in no slash is followed by the names in it, each
behind a slash. -/
theorem directory?_recursive (project : Path) (task : Text) :
    (directory? project task = none ↔ task = [] ∨ task.getLast? = some ':') ∧
    (∀ part rest, part ≠ [] → ':' ∉ part →
      directory? project (part ++ ':' :: rest) = directory? (project.push ⟨part⟩) rest) ∧
    (∀ rest, directory? project (':' :: rest) = directory? project rest) ∧
    (project.text ≠ [] → ¬ project.endsInSlash → (∀ part ∈ task.splitOn ':', '/' ∉ part) →
      ∀ directory, directory? project task = some directory →
        directory.text = project.text ++
          ((task.splitOn ':').dropLast.filter fun part => !part.isEmpty).flatMap ('/' :: ·) ++
          if (task.splitOn ':').getLast? = some "compileJava".toList then "/src/main".toList
          else "/src/test".toList) := by
  refine ⟨directory?_eq_none_iff, ?_, directory?_colon, ?_⟩
  · intro part rest hne hcolon
    exact directory?_part hne hcolon rest
  · intro hp hend hparts directory h
    exact text_of_directory? hp hend hparts h

/-- An absolute part replaces the project, and colons may stand together. -/
theorem directory?_recursive_absolute_part :
    directory? ⟨"/p".toList⟩ ("/q".toList ++ ':' :: ":b:compileJava".toList) =
        directory? ⟨"/q".toList⟩ ":b:compileJava".toList ∧
      ∃ directory, directory? ⟨"/q".toList⟩ ":b::compileJava".toList = some directory ∧
        directory.text = "/q/b/src/main".toList := by
  obtain ⟨-, hpart, -, -⟩ := directory?_recursive ⟨"/p".toList⟩ []
  obtain ⟨-, -, -, htext⟩ := directory?_recursive ⟨"/q".toList⟩ ":b::compileJava".toList
  refine ⟨hpart "/q".toList ":b:compileJava".toList (by decide) (by decide), _, rfl, ?_⟩
  exact htext (by decide) (by decide) (by decide) _ rfl

end BuildLog.SourceSet
