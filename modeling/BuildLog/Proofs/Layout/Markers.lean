-- SUMMARY: The markers of a layout are the lines that satisfy one test.
import BuildLog.Layout
import BuildLog.Proofs.Log.Positions

/-!
# Markers

The search for markers looks for words. The marker lines of the Maven layout need a second word,
which is looked for where the first one is found. So each layout has one test for its markers.
-/

namespace BuildLog

variable {lines : List Text}

/-! ## One test for each layout -/

/-- The compiler logs under its own name, and logs other messages too. -/
def Gradle.isCompilerLine (line : Text) : Bool :=
  line.includes "NormalizingJavaCompiler".toList

def Gradle.isArgumentsLine (line : Text) : Bool :=
  line.includes "Compiler arguments:".toList

/-- A command line with an output directory and parameter names kept. -/
def Maven.isCommandLine (line : Text) : Bool :=
  line.includes " -d ".toList && line.includes "-parameters".toList

def Maven.isAnnouncement (line : Text) : Bool :=
  line.includes "Command line options:".toList

/-- Whether a line announces a compilation. -/
def Layout.isMarker : Layout → Text → Bool
  | gradle => Gradle.isCompilerLine
  | gradleLegacy => Gradle.isArgumentsLine
  | maven => Maven.isCommandLine
  | mavenOptions => Maven.isAnnouncement

/-! ## The search finds them -/

theorem Log.marked_singleton (lines : List Text) (word : Text) :
    Log.marked lines [word] = Log.positions (·.includes word) lines := by
  simp [Log.marked]

namespace Layout

variable {layout : Layout}

theorem markers_eq (layout : Layout) (lines : List Text) :
    layout.markers lines = Log.positions layout.isMarker lines := by
  cases layout with
  | maven =>
    rw [markers, Log.marked_singleton]
    exact Log.filter_positions (q := (Text.includes · Maven.parametersWord)) [] fun _ _ => rfl
  | gradle | gradleLegacy | mavenOptions => exact Log.marked_singleton ..

theorem isMarker_of_mem_markers {i : Nat} (h : i ∈ layout.markers lines) :
    layout.isMarker (lines.getD i []) := by
  rw [markers_eq] at h
  obtain ⟨line, hline, hmarker⟩ := Log.mem_positions.1 h
  rwa [List.getD_eq_getElem?_getD, hline]

/-- The markers that satisfy another test, too. -/
theorem filter_markers {q r : Text → Bool}
    (h : ∀ line ∈ lines, (layout.isMarker line && q line) = r line) :
    ((layout.markers lines).filter fun i => q (lines.getD i [])) = Log.positions r lines := by
  rw [markers_eq]
  exact Log.filter_positions [] h

theorem lt_of_mem_markers {i : Nat} (h : i ∈ layout.markers lines) : i < lines.length := by
  rw [markers_eq] at h
  exact Log.lt_of_mem_positions h

theorem markers_sorted (layout : Layout) (lines : List Text) :
    (layout.markers lines).Pairwise (· < ·) := by
  rw [markers_eq]
  exact Log.positions_sorted ..

theorem markers_append (a b : List Text) :
    layout.markers (a ++ b) = layout.markers a ++ (layout.markers b).map (a.length + ·) := by
  rw [markers_eq, markers_eq, markers_eq, Log.positions_append]

end Layout

end BuildLog
