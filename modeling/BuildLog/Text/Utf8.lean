-- SUMMARY: Reading bytes as UTF-8, strictly or with a replacement character for each part that is not, and the bytes of a text.
import BuildLog.Text.Basic

/-!
# UTF-8

Bytes are read as a list of characters and gaps. A gap is a maximal part that no
continuation could complete: the bytes of a sequence up to the first that does not fit.
`decodeLossy` writes the replacement character for each gap, `decode?` refuses
bytes with a gap.
-/

namespace BuildLog

abbrev Bytes := List UInt8

namespace Utf8

/-- What a leading byte announces: its share of the value, how many bytes follow,
and between which bounds the first of them lies. -/
structure Lead where
  value : Nat
  follows : Nat
  low : UInt8
  high : UInt8

/-- The sequence that a byte leads, if it can lead one. The bounds of the second
byte exclude overlong forms, surrogates and values past the last code point. -/
def lead? (b : UInt8) : Option Lead :=
  if b < 0x80 then some ⟨b.toNat, 0, 0x80, 0xbf⟩
  else if b < 0xc2 then none
  else if b < 0xe0 then some ⟨b.toNat - 0xc0, 1, 0x80, 0xbf⟩
  else if b = 0xe0 then some ⟨0, 2, 0xa0, 0xbf⟩
  else if b = 0xed then some ⟨13, 2, 0x80, 0x9f⟩
  else if b < 0xf0 then some ⟨b.toNat - 0xe0, 2, 0x80, 0xbf⟩
  else if b = 0xf0 then some ⟨0, 3, 0x90, 0xbf⟩
  else if b < 0xf4 then some ⟨b.toNat - 0xf0, 3, 0x80, 0xbf⟩
  else if b = 0xf4 then some ⟨4, 3, 0x80, 0x8f⟩
  else none

/-- Read `n` more bytes of a sequence, the first of them between `low` and `high`.
The rest starts at the first byte that does not fit. -/
def follow (value : Nat) (low high : UInt8) : Nat → Bytes → Option Nat × Bytes
  | 0, rest => (some value, rest)
  | _ + 1, [] => (none, [])
  | n + 1, b :: rest =>
    if low ≤ b && b ≤ high then follow (value * 64 + (b.toNat - 0x80)) 0x80 0xbf n rest
    else (none, b :: rest)

theorem follow_length (value : Nat) (low high : UInt8) (n : Nat) (bytes : Bytes) :
    (follow value low high n bytes).2.length ≤ bytes.length := by
  induction n generalizing value low high bytes with
  | zero => simp [follow]
  | succ n ih =>
    cases bytes with
    | nil => simp [follow]
    | cons b rest =>
      simp only [follow]
      split
      · exact Nat.le_succ_of_le (ih ..)
      · simp

/-- The character or gap that starts with the byte `b`, and the bytes behind it. -/
def next (b : UInt8) (rest : Bytes) : Option Char × Bytes :=
  match lead? b with
  | none => (none, rest)
  | some lead =>
    let (value, behind) := follow lead.value lead.low lead.high lead.follows rest
    (value.map Char.ofNat, behind)

theorem next_length (b : UInt8) (rest : Bytes) : (next b rest).2.length ≤ rest.length := by
  simp only [next]
  split
  · simp
  · exact follow_length ..

/-- The walk behind `scalars`: `done` is what has been read, last first. -/
def scalarsFrom (done : List (Option Char)) (bytes : Bytes) : List (Option Char) :=
  match bytes with
  | [] => done.reverse
  | b :: rest => scalarsFrom ((next b rest).1 :: done) (next b rest).2
termination_by bytes.length
decreasing_by
  have := next_length b rest
  simp only [List.length_cons]
  omega

/-- The characters of the bytes in order, with `none` for each gap. -/
def scalars (bytes : Bytes) : List (Option Char) :=
  scalarsFrom [] bytes

/-- The text that stands for a gap. -/
def replacement : Char := '\ufffd'

/-- The bytes as text, with one replacement character for each gap. -/
def decodeLossy (bytes : Bytes) : Text :=
  (scalars bytes).map (·.getD replacement)

/-- The bytes as text, if they have no gap. -/
def decode? (bytes : Bytes) : Option Text :=
  (scalars bytes).mapM id

/-- The bytes of a text. -/
def encode (t : Text) : Bytes := t.flatMap String.utf8EncodeChar

end Utf8

end BuildLog
