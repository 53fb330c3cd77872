-- SUMMARY: Terminal control sequences and their removal until none is left.
import BuildLog.Text.Basic

/-!
# Terminal control sequences

A build tool colours its output with control sequences. A sequence starts with
an escape character and a second character, or with one control character of the
upper half of the code page. Parameters, intermediates and one final character
follow. `sweep` removes the sequences of a text from left to right. Removing a
sequence can join its neighbours to a new one, so `strip` sweeps until nothing
changes.
-/

namespace BuildLog.Text

/-! ## The shape of a sequence -/

/-- The characters that may follow an escape character. -/
def isSecond (c : Char) : Bool := '@' ≤ c && c ≤ '_'

/-- The control characters that start a sequence on their own. -/
def isIntroducer (c : Char) : Bool := '\u0080' ≤ c && c ≤ '\u009f'

def isParameter (c : Char) : Bool := '0' ≤ c && c ≤ '?'

def isIntermediate (c : Char) : Bool := ' ' ≤ c && c ≤ '/'

def isFinal (c : Char) : Bool := '@' ≤ c && c ≤ '~'

/-- The text behind the parameters, intermediates and final character of a
sequence whose introducer has been read. -/
def behindBody? (s : Text) : Option Text :=
  match (s.dropWhile isParameter).dropWhile isIntermediate with
  | c :: rest => if isFinal c then some rest else none
  | [] => none

/-- The text behind the control sequence that `s` starts with. -/
def behindEscape? : Text → Option Text
  | '\x1b' :: c :: rest => if isSecond c then behindBody? rest else none
  | c :: rest => if isIntroducer c then behindBody? rest else none
  | [] => none

theorem behindBody?_length {s rest : Text} (h : behindBody? s = some rest) :
    rest.length < s.length := by
  simp only [behindBody?] at h
  split at h
  · next c tail heq =>
    split at h
    · cases h
      have h₁ := length_dropWhile_le isIntermediate (s.dropWhile isParameter)
      have h₂ := length_dropWhile_le isParameter s
      rw [heq, List.length_cons] at h₁
      omega
    · cases h
  · cases h

theorem behindEscape?_length {s rest : Text} (h : behindEscape? s = some rest) :
    rest.length < s.length := by
  unfold behindEscape? at h
  split at h
  · split at h
    · have := behindBody?_length h
      simp only [List.length_cons]
      omega
    · cases h
  · split at h
    · have := behindBody?_length h
      simp only [List.length_cons]
      omega
    · cases h
  · cases h

/-! ## Removal -/

/-- The walk behind `sweep`: `kept` is what stays of the text walked over, last
character first. -/
def sweepFrom (kept : Text) (s : Text) : Text :=
  match s with
  | [] => kept.reverse
  | c :: rest =>
    match _h : behindEscape? (c :: rest) with
    | some behind => sweepFrom kept behind
    | none => sweepFrom (c :: kept) rest
termination_by s.length
decreasing_by
  · exact behindEscape?_length _h
  · simp

/-- The text without the control sequences met in one walk from left to right. -/
def sweep (s : Text) : Text :=
  sweepFrom [] s

/-- The text swept until a sweep removes nothing. -/
def strip (s : Text) : Text :=
  if (sweep s).length < s.length then strip (sweep s) else s
termination_by s.length

theorem sweepFrom_eq (kept s : Text) : sweepFrom kept s = kept.reverse ++ sweep s := by
  induction h : s.length using Nat.strongRecOn generalizing kept s with
  | _ n ih =>
    subst h
    cases s with
    | nil => simp [sweep, sweepFrom]
    | cons c rest =>
      unfold sweep
      rw [sweepFrom, sweepFrom]
      split
      · next behind heq => exact ih _ (behindEscape?_length heq) _ _ rfl
      · rw [ih _ (by simp) (c :: kept) rest rfl, ih _ (by simp) [c] rest rfl]
        simp

@[simp]
theorem sweep_nil : sweep [] = [] := by
  simp [sweep, sweepFrom]

theorem sweep_of_escape {s behind : Text} (h : behindEscape? s = some behind) :
    sweep s = sweep behind := by
  cases s with
  | nil => simp [behindEscape?] at h
  | cons c rest =>
    unfold sweep
    rw [sweepFrom]
    split
    · next b heq => rw [h] at heq; cases heq; rfl
    · next heq => rw [h] at heq; cases heq

theorem sweep_of_plain {c : Char} {rest : Text} (h : behindEscape? (c :: rest) = none) :
    sweep (c :: rest) = c :: sweep rest := by
  rw [sweep, sweepFrom]
  split
  · next b heq => rw [h] at heq; cases heq
  · rw [sweepFrom_eq]; rfl

end BuildLog.Text
