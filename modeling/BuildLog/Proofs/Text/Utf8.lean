-- SUMMARY: Every text is read back from its bytes, so a file can hold any log.
import BuildLog.Text.Utf8
import Mathlib.Tactic.SplitIfs

/-!
# Bytes of a text

The bytes of a text are those of its characters in order. Reading them back goes character
by character: the leading byte of each announces the bytes that follow it.
-/

namespace BuildLog.Utf8

/-! ## Leading bytes -/

theorem lead?_one {b : UInt8} (h : b.toNat < 0x80) : lead? b = some ⟨b.toNat, 0, 0x80, 0xbf⟩ :=
  if_pos (UInt8.lt_iff_toNat_lt.2 h)

theorem lead?_two {b : UInt8} (h : 0xc2 ≤ b.toNat) (h' : b.toNat < 0xe0) :
    lead? b = some ⟨b.toNat - 0xc0, 1, 0x80, 0xbf⟩ := by
  simp only [lead?, UInt8.lt_iff_toNat_lt, ← UInt8.toNat_inj, UInt8.reduceToNat]
  rw [if_neg (by omega), if_neg (by omega), if_pos h']

theorem lead?_three {b : UInt8} (h : 0xe0 ≤ b.toNat) (h' : b.toNat < 0xf0) :
    lead? b = some ⟨b.toNat - 0xe0, 2, if b.toNat = 0xe0 then 0xa0 else 0x80,
      if b.toNat = 0xed then 0x9f else 0xbf⟩ := by
  simp only [lead?, UInt8.lt_iff_toNat_lt, ← UInt8.toNat_inj, UInt8.reduceToNat]
  rw [if_neg (by omega), if_neg (by omega), if_neg (by omega)]
  by_cases he0 : b.toNat = 0xe0
  · simp [he0]
  · by_cases hed : b.toNat = 0xed
    · simp [hed]
    · rw [if_neg he0, if_neg hed, if_pos h', if_neg he0, if_neg hed]

theorem lead?_four {b : UInt8} (h : 0xf0 ≤ b.toNat) (h' : b.toNat < 0xf5) :
    lead? b = some ⟨b.toNat - 0xf0, 3, if b.toNat = 0xf0 then 0x90 else 0x80,
      if b.toNat = 0xf4 then 0x8f else 0xbf⟩ := by
  simp only [lead?, UInt8.lt_iff_toNat_lt, ← UInt8.toNat_inj, UInt8.reduceToNat]
  rw [if_neg (by omega), if_neg (by omega), if_neg (by omega), if_neg (by omega),
    if_neg (by omega), if_neg (by omega)]
  by_cases hf0 : b.toNat = 0xf0
  · simp [hf0]
  · by_cases hf4 : b.toNat = 0xf4
    · simp [hf4]
    · rw [if_neg hf0, if_pos (by omega), if_neg hf0, if_neg hf4]

/-! ## Following bytes -/

theorem toNat_ofNat {n : Nat} (h : n < 0x100) : (UInt8.ofNat n).toNat = n :=
  UInt8.toNat_ofNat_of_lt' h

theorem follow_zero {value : Nat} {low high : UInt8} {rest : Bytes} :
    follow value low high 0 rest = (some value, rest) := rfl

/-- A byte that follows carries six bits of the value. -/
theorem follow_continuation {value v n : Nat} {low high : UInt8} {rest : Bytes}
    (hlow : low.toNat ≤ v % 0x40 + 0x80) (hhigh : v % 0x40 + 0x80 ≤ high.toNat) :
    follow value low high (n + 1) (UInt8.ofNat (v % 0x40 + 0x80) :: rest) =
      follow (value * 64 + v % 0x40) 0x80 0xbf n rest := by
  have hb : (UInt8.ofNat (v % 0x40 + 0x80)).toNat = v % 0x40 + 0x80 := toNat_ofNat (by omega)
  rw [← hb, ← UInt8.le_iff_toNat_le] at hlow hhigh
  simp only [follow, hlow, hhigh, decide_true, Bool.and_self, if_true, hb, Nat.add_sub_cancel]

theorem follow_plain {value v n : Nat} {rest : Bytes} :
    follow value 0x80 0xbf (n + 1) (UInt8.ofNat (v % 0x40 + 0x80) :: rest) =
      follow (value * 64 + v % 0x40) 0x80 0xbf n rest := by
  apply follow_continuation
  · exact Nat.le_add_left 0x80 _
  · exact Nat.add_le_add_right (Nat.le_of_lt_succ (Nat.mod_lt v (by decide))) 0x80

/-! ## Sequences of each length -/

variable {v : Nat} {rest : Bytes}

theorem next_one (h : v < 0x80) : next (UInt8.ofNat v) rest = (some (Char.ofNat v), rest) := by
  have hb : (UInt8.ofNat v).toNat = v := toNat_ofNat (by omega)
  rw [next, lead?_one (by omega)]
  simp only [follow_zero, hb, Option.map_some]

theorem next_two (h : 0x80 ≤ v) (h' : v < 0x800) :
    next (UInt8.ofNat (v / 64 % 0x20 + 0xc0)) (UInt8.ofNat (v % 0x40 + 0x80) :: rest) =
      (some (Char.ofNat v), rest) := by
  have hb : (UInt8.ofNat (v / 64 % 0x20 + 0xc0)).toNat = v / 64 + 0xc0 :=
    (toNat_ofNat (by omega)).trans (by omega)
  have hv : v / 64 * 64 + v % 0x40 = v := by omega
  rw [next, lead?_two (by omega) (by omega)]
  simp only [hb, Nat.add_sub_cancel, follow_plain, follow_zero, hv, Option.map_some]

/-- A second byte below the lower bound belongs to a value that two bytes are enough for, one
above the upper bound to a surrogate. -/
theorem next_three (h : 0x800 ≤ v) (h' : v < 0xd800 ∨ 0xdfff < v ∧ v < 0x10000) :
    next (UInt8.ofNat (v / 4096 % 0x10 + 0xe0)) (UInt8.ofNat (v / 64 % 0x40 + 0x80) ::
      UInt8.ofNat (v % 0x40 + 0x80) :: rest) = (some (Char.ofNat v), rest) := by
  have hb : (UInt8.ofNat (v / 4096 % 0x10 + 0xe0)).toNat = v / 4096 + 0xe0 :=
    (toNat_ofNat (by omega)).trans (by omega)
  have hlow : (if v / 4096 + 0xe0 = 0xe0 then 0xa0 else 0x80 : UInt8).toNat ≤
      v / 64 % 0x40 + 0x80 := by
    split_ifs
    · change 0xa0 ≤ _
      omega
    · exact Nat.le_add_left 0x80 _
  have hhigh : v / 64 % 0x40 + 0x80 ≤
      (if v / 4096 + 0xe0 = 0xed then 0x9f else 0xbf : UInt8).toNat := by
    split_ifs
    · change _ ≤ 0x9f
      omega
    · change _ ≤ 0xbf
      omega
  have hv : (v / 4096 * 64 + v / 64 % 0x40) * 64 + v % 0x40 = v := by omega
  rw [next, lead?_three (by omega) (by omega), hb]
  simp only [Nat.add_sub_cancel, follow_continuation hlow hhigh, follow_plain, follow_zero, hv,
    Option.map_some]

/-- A second byte below the lower bound belongs to a value that three bytes are enough for, one
above the upper bound to a value past the last code point. -/
theorem next_four (h : 0x10000 ≤ v) (h' : v < 0x110000) :
    next (UInt8.ofNat (v / 262144 % 0x08 + 0xf0)) (UInt8.ofNat (v / 4096 % 0x40 + 0x80) ::
      UInt8.ofNat (v / 64 % 0x40 + 0x80) :: UInt8.ofNat (v % 0x40 + 0x80) :: rest) =
      (some (Char.ofNat v), rest) := by
  have hb : (UInt8.ofNat (v / 262144 % 0x08 + 0xf0)).toNat = v / 262144 + 0xf0 :=
    (toNat_ofNat (by omega)).trans (by omega)
  have hlow : (if v / 262144 + 0xf0 = 0xf0 then 0x90 else 0x80 : UInt8).toNat ≤
      v / 4096 % 0x40 + 0x80 := by
    split_ifs
    · change 0x90 ≤ _
      omega
    · exact Nat.le_add_left 0x80 _
  have hhigh : v / 4096 % 0x40 + 0x80 ≤
      (if v / 262144 + 0xf0 = 0xf4 then 0x8f else 0xbf : UInt8).toNat := by
    split_ifs
    · change _ ≤ 0x8f
      omega
    · change _ ≤ 0xbf
      omega
  have hv : ((v / 262144 * 64 + v / 4096 % 0x40) * 64 + v / 64 % 0x40) * 64 + v % 0x40 = v := by
    omega
  rw [next, lead?_four (by omega) (by omega), hb]
  simp only [Nat.add_sub_cancel, follow_continuation hlow hhigh, follow_plain, follow_zero, hv,
    Option.map_some]

/-! ## Reading back -/

/-- The bytes of a character are read as that character, whatever follows them. -/
theorem next_encodeChar (c : Char) :
    ∃ b tail, String.utf8EncodeChar c = b :: tail ∧
      ∀ rest, next b (tail ++ rest) = (some c, rest) := by
  have hvalid : c.val.toNat < 0xd800 ∨ 0xdfff < c.val.toNat ∧ c.val.toNat < 0x110000 := c.valid
  have hc : Char.ofNat c.val.toNat = c := Char.ofNat_toNat c
  simp only [String.utf8EncodeChar]
  split_ifs with h1 h2 h3 <;> refine ⟨_, _, rfl, fun rest => ?_⟩ <;>
    simp only [List.cons_append, List.nil_append]
  · rw [next_one (by omega), hc]
  · rw [next_two (by omega) (by omega), hc]
  · rw [next_three (by omega) (by omega), hc]
  · rw [next_four (by omega) (by omega), hc]

theorem scalarsFrom_encode (done : List (Option Char)) (t : Text) :
    scalarsFrom done (encode t) = done.reverse ++ t.map some := by
  induction t generalizing done with
  | nil =>
    rw [encode, List.flatMap_nil, scalarsFrom]
    simp
  | cons c t ih =>
    obtain ⟨b, tail, hb, hnext⟩ := next_encodeChar c
    rw [encode, List.flatMap_cons, hb, List.cons_append, scalarsFrom, hnext, ← encode, ih]
    simp

theorem decodeLossy_encode (t : Text) : decodeLossy (encode t) = t := by
  rw [decodeLossy, scalars, scalarsFrom_encode, List.reverse_nil, List.nil_append, List.map_map]
  exact List.map_id t

end BuildLog.Utf8
