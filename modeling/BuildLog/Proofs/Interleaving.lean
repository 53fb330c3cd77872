-- SUMMARY: A layout without task names recovers from mixed output what it recovers from each build alone.
import BuildLog.Proofs.Layout.CommandLines

/-!
# Mixed output

Builds that run side by side mix their lines, and each build keeps the order of its own. A
command line of Maven is a record by itself. So the records of mixed output are the mixed
records of the builds, and only their numbers depend on the order.
-/

namespace BuildLog

/-! ## Interleavings -/

/-- The third list consists of the elements of the first and those of the second. Each list
keeps its order. -/
inductive Interleaving {α : Type} : List α → List α → List α → Prop
  | nil : Interleaving [] [] []
  /-- The next element comes from the first list. -/
  | left (x : α) {xs ys zs : List α} (h : Interleaving xs ys zs) :
    Interleaving (x :: xs) ys (x :: zs)
  /-- The next element comes from the second list. -/
  | right (y : α) {xs ys zs : List α} (h : Interleaving xs ys zs) :
    Interleaving xs (y :: ys) (y :: zs)

namespace Interleaving

variable {α β : Type} {xs ys zs : List α}

theorem map (f : α → β) (h : Interleaving xs ys zs) :
    Interleaving (xs.map f) (ys.map f) (zs.map f) := by
  induction h with
  | nil => exact .nil
  | left x _ ih => exact .left (f x) ih
  | right y _ ih => exact .right (f y) ih

theorem filter (p : α → Bool) (h : Interleaving xs ys zs) :
    Interleaving (xs.filter p) (ys.filter p) (zs.filter p) := by
  induction h with
  | nil => exact .nil
  | left x _ ih =>
    cases hx : p x with
    | true => simpa only [List.filter_cons_of_pos hx] using ih.left x
    | false => simpa [hx] using ih
  | right y _ ih =>
    cases hy : p y with
    | true => simpa only [List.filter_cons_of_pos hy] using ih.right y
    | false => simpa [hy] using ih

end Interleaving

/-! ## Records of mixed output -/

theorem Maven.commands_interleaving {a b c : List Text} (h : Interleaving a b c) :
    Interleaving (commands a) (commands b) (commands c) :=
  (h.filter isCommandLine).map commandArguments

namespace Layout

open Maven Record

theorem eq_maven_of_not_serialized {layout : Layout} (h : layout.serialized = false) :
    layout = maven := by
  cases layout with
  | maven => rfl
  | _ => cases h

/-- A layout that does not need its lines in the order of one build loses nothing and makes up
nothing when the lines of two builds are mixed. -/
theorem records_interleaving {layout : Layout} (hlayout : layout.serialized = false)
    {a b c : List Text} (h : Interleaving a b c) :
    ∃ ra rb rc, layout.records a [] = .ok ra ∧ layout.records b [] = .ok rb ∧
      layout.records c [] = .ok rc ∧
      Interleaving (ra.map Record.args) (rb.map Record.args) (rc.map Record.args) ∧
      rc.map Record.name = (List.range rc.length).map blobName := by
  obtain rfl := eq_maven_of_not_serialized hlayout
  have hrecords : ∀ lines, maven.records lines [] = .ok (numbered (commands lines)) := by
    intro lines
    rw [records_maven, kept_nil]
  refine ⟨_, _, _, hrecords a, hrecords b, hrecords c, ?_, ?_⟩
  · simp only [numbered_args]
    exact commands_interleaving h
  · rw [numbered_names, numbered_length]

/-- Two modules that are built side by side. The second line of the first build stands behind
all lines of the second. -/
theorem records_interleaving_two_modules :
    let a := ["[DEBUG] -d 0 -parameters".toList, "[INFO] -d 1 -parameters".toList]
    let b := ["[INFO] Building b".toList, "[DEBUG] -d 2 -parameters".toList]
    let c := ["[DEBUG] -d 0 -parameters".toList, "[INFO] Building b".toList,
      "[DEBUG] -d 2 -parameters".toList, "[INFO] -d 1 -parameters".toList]
    (maven.serialized = false ∧ Interleaving a b c) ∧
      ∃ ra rb rc, maven.records a [] = .ok ra ∧ maven.records b [] = .ok rb ∧
        maven.records c [] = .ok rc ∧
        Interleaving (ra.map Record.args) (rb.map Record.args) (rc.map Record.args) ∧
        rc.map Record.name = (List.range rc.length).map blobName := by
  intro a b c
  have h : Interleaving a b c := .left _ (.right _ (.right _ (.left _ .nil)))
  exact ⟨⟨rfl, h⟩, records_interleaving rfl h⟩

end Layout

end BuildLog
