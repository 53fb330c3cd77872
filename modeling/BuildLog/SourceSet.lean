-- SUMMARY: The directory whose sources a Gradle task compiles.
import BuildLog.Path

/-!
# Source sets

The path of a Gradle task names projects inside projects and ends in the name of
the task. The directories of the sources follow that path.
-/

namespace BuildLog.SourceSet

/-- The parts of a task path between colons, without the colons it starts with. -/
def parts (task : Text) : List Text :=
  (task.dropWhile (· == ':')).splitOn ':'

/-- Where the sources of a task lie in its project. Only `compileJava` compiles the
main sources. -/
def sourcesOf (taskName : Text) : Path :=
  if taskName == "compileJava".toList then ⟨"src/main".toList⟩ else ⟨"src/test".toList⟩

/-- The directory of the sources that a task compiles, if the task path ends in a
name. Empty parts are passed over. -/
def directory? (project : Path) (task : Text) : Option Path :=
  match (parts task).getLast? with
  | none => none
  | some taskName =>
    if taskName.isEmpty then none
    else
      let projects := (parts task).dropLast.filter fun part => !part.isEmpty
      some ((project.pushAll projects).push (sourcesOf taskName))

end BuildLog.SourceSet
