-- SUMMARY: Compiler arguments as tokens, and their reduction to what a recompilation needs.
import BuildLog.Text.Basic

/-!
# Compiler arguments

The arguments of a compilation stand on one line, separated by spaces. To compile
again one needs neither source files, nor the old output directory, nor switches
about warnings, and a release that a current compiler refuses is raised to the
oldest that it accepts.
-/

namespace BuildLog.Arguments

/-- The tokens between spaces. Other blanks belong to a token. -/
def tokens (raw : Text) : List Text :=
  (raw.splitOn ' ').filter fun token => !token.isEmpty

/-! ## Kinds of tokens -/

/-- The option whose value is the output directory. -/
def outputOption : Text := "-d".toList

/-- The options whose value is a release of the language. -/
def releaseOptions : List Text := ["-source".toList, "-target".toList]

def isReleaseOption (token : Text) : Bool :=
  releaseOptions.contains token

/-- The switches that are no use to a recompilation. -/
def idleSwitches : List Text := ["-nowarn".toList, "-deprecation".toList, "-verbose".toList]

/-- How a token starts that is a remark of the build tool or a switch about warnings. -/
def idleOpenings : List Text :=
  ["(".toList, "[".toList, "-Xlint".toList, "-Xdoclint".toList, "-W".toList]

/-- Whether a token is left out on its own: a switch or remark of no use, or a source
file. -/
def isIdle (token : Text) : Bool :=
  idleSwitches.contains token || idleOpenings.any (·.isPrefixOf token) ||
    ".java".toList.isSuffixOf token

/-! ## Releases -/

/-- The releases that a current compiler refuses. -/
def oldReleases : List Text :=
  ["1.5".toList, "1.6".toList, "1.7".toList, "5".toList, "6".toList, "7".toList]

/-- The oldest release that a current compiler accepts. -/
def oldestRelease : Text := "1.8".toList

def raiseRelease (release : Text) : Text :=
  if oldReleases.contains release then oldestRelease else release

/-! ## Reduction -/

/-- The tokens that a recompilation needs. The token behind the output option or a
release option is its value and is not looked at as an option. -/
def reduce : List Text → List Text
  | [] => []
  | [token] => if isIdle token || token == outputOption then [] else [token]
  | token :: value :: rest =>
    if isIdle token then reduce (value :: rest)
    else if token == outputOption then reduce rest
    else if isReleaseOption token then token :: raiseRelease value :: reduce rest
    else token :: reduce (value :: rest)

/-- The tokens of an argument line that a recompilation needs. -/
def filter (raw : Text) : List Text :=
  reduce (tokens raw)

/-- The reduced argument line. -/
def filterLine (raw : Text) : Text :=
  [' '].intercalate (filter raw)

end BuildLog.Arguments
