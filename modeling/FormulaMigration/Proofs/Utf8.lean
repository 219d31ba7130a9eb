import FormulaMigration.Text.Utf8
import Mathlib.Tactic.Common

namespace FormulaMigration

namespace Text

section Byte

variable {n : Nat}

theorem toNat_byte (h : n < 256) : (UInt8.ofNat n).toNat = n :=
  UInt8.toNat_ofNat_of_lt' h

theorem lt_byte {limit : UInt8} (h : n < 256) : UInt8.ofNat n < limit ↔ n < limit.toNat := by
  rw [UInt8.lt_iff_toNat_lt, toNat_byte h]

theorem le_byte {least : UInt8} (h : n < 256) : least ≤ UInt8.ofNat n ↔ least.toNat ≤ n := by
  rw [UInt8.le_iff_toNat_le, toNat_byte h]

theorem not_lt_byte {limit : UInt8} (h : n < 256) (past : limit.toNat ≤ n) :
    ¬ UInt8.ofNat n < limit := by
  rw [lt_byte h]
  omega

theorem isContinuation_byte (h : n < 64) : isContinuation (UInt8.ofNat (0x80 + n)) := by
  simp only [isContinuation, Bool.and_eq_true, decide_eq_true_eq]
  rw [le_byte (by omega), lt_byte (by omega)]
  change 0x80 ≤ 0x80 + n ∧ 0x80 + n < 0xC0
  omega

theorem lowBits_byte (h : n < 64) : lowBits (UInt8.ofNat (0x80 + n)) = n := by
  rw [lowBits, toNat_byte (by omega)]
  omega

end Byte

theorem ofCodePoint?_toNat {least : Nat} {c : Char} (h : least ≤ c.toNat) :
    ofCodePoint? least c.toNat = some c := by
  rw [ofCodePoint?, if_pos ⟨h, c.valid⟩, Char.ofNat_toNat]

section Length

variable {i j k l : Nat} {c : Char}

theorem decode?_one (h : c.toNat < 0x80) (rest : Bytes) :
    decode? (UInt8.ofNat c.toNat :: rest) = (decode? rest).map (c :: ·) := by
  have small : UInt8.ofNat c.toNat < 0x80 := (lt_byte (by omega)).mpr h
  rw [decode?.eq_def]
  simp only [if_pos small, toNat_byte (show c.toNat < 256 by omega), Char.ofNat_toNat]
  cases decode? rest <;> rfl

theorem decode?_two (hi : i < 32) (hj : j < 64) (code : i * 64 + j = c.toNat)
    (long : 0x80 ≤ c.toNat) (rest : Bytes) :
    decode? (UInt8.ofNat (0xC0 + i) :: UInt8.ofNat (0x80 + j) :: rest) =
      (decode? rest).map (c :: ·) := by
  have byte : 0xC0 + i < 256 := by omega
  have large : ¬ UInt8.ofNat (0xC0 + i) < 0x80 :=
    not_lt_byte byte (Nat.le_add_right_of_le (by decide))
  have two : 0xC0 ≤ UInt8.ofNat (0xC0 + i) ∧ UInt8.ofNat (0xC0 + i) < 0xE0 :=
    ⟨(le_byte byte).mpr (Nat.le_add_right _ _), (lt_byte byte).mpr (Nat.add_lt_add_left hi _)⟩
  have bits : (0xC0 + i) % 32 = i := by omega
  rw [decode?.eq_def]
  simp only [if_neg large, isContinuation_byte hj, Bool.not_true, Bool.false_eq_true, if_false,
    if_pos two, toNat_byte byte, lowBits_byte hj, bits, code, ofCodePoint?_toNat long]
  cases decode? rest <;> rfl

theorem decode?_three (hi : i < 16) (hj : j < 64) (hk : k < 64)
    (code : (i * 64 + j) * 64 + k = c.toNat) (long : 0x800 ≤ c.toNat) (rest : Bytes) :
    decode? (UInt8.ofNat (0xE0 + i) :: UInt8.ofNat (0x80 + j) :: UInt8.ofNat (0x80 + k) :: rest) =
      (decode? rest).map (c :: ·) := by
  have byte : 0xE0 + i < 256 := by omega
  have large : ¬ UInt8.ofNat (0xE0 + i) < 0x80 :=
    not_lt_byte byte (Nat.le_add_right_of_le (by decide))
  have notTwo : ¬ (0xC0 ≤ UInt8.ofNat (0xE0 + i) ∧ UInt8.ofNat (0xE0 + i) < 0xE0) :=
    fun two => not_lt_byte byte (Nat.le_add_right_of_le (by decide)) two.2
  have three : 0xE0 ≤ UInt8.ofNat (0xE0 + i) ∧ UInt8.ofNat (0xE0 + i) < 0xF0 :=
    ⟨(le_byte byte).mpr (Nat.le_add_right _ _), (lt_byte byte).mpr (Nat.add_lt_add_left hi _)⟩
  have bits : (0xE0 + i) % 16 = i := by omega
  rw [decode?.eq_def]
  simp only [if_neg large, isContinuation_byte hj, isContinuation_byte hk, Bool.not_true,
    Bool.false_eq_true, if_false, if_neg notTwo, if_pos three, toNat_byte byte, lowBits_byte hj,
    lowBits_byte hk, bits, code, ofCodePoint?_toNat long]
  cases decode? rest <;> rfl

theorem decode?_four (hi : i < 8) (hj : j < 64) (hk : k < 64) (hl : l < 64)
    (code : ((i * 64 + j) * 64 + k) * 64 + l = c.toNat) (long : 0x10000 ≤ c.toNat) (rest : Bytes) :
    decode? (UInt8.ofNat (0xF0 + i) :: UInt8.ofNat (0x80 + j) :: UInt8.ofNat (0x80 + k) ::
      UInt8.ofNat (0x80 + l) :: rest) = (decode? rest).map (c :: ·) := by
  have byte : 0xF0 + i < 256 := by omega
  have large : ¬ UInt8.ofNat (0xF0 + i) < 0x80 :=
    not_lt_byte byte (Nat.le_add_right_of_le (by decide))
  have notTwo : ¬ (0xC0 ≤ UInt8.ofNat (0xF0 + i) ∧ UInt8.ofNat (0xF0 + i) < 0xE0) :=
    fun two => not_lt_byte byte (Nat.le_add_right_of_le (by decide)) two.2
  have notThree : ¬ (0xE0 ≤ UInt8.ofNat (0xF0 + i) ∧ UInt8.ofNat (0xF0 + i) < 0xF0) :=
    fun three => not_lt_byte byte (Nat.le_add_right_of_le (by decide)) three.2
  have four : 0xF0 ≤ UInt8.ofNat (0xF0 + i) ∧ UInt8.ofNat (0xF0 + i) < 0xF8 :=
    ⟨(le_byte byte).mpr (Nat.le_add_right _ _), (lt_byte byte).mpr (Nat.add_lt_add_left hi _)⟩
  have bits : (0xF0 + i) % 8 = i := by omega
  rw [decode?.eq_def]
  simp only [if_neg large, isContinuation_byte hj, isContinuation_byte hk, isContinuation_byte hl,
    Bool.not_true, Bool.false_eq_true, if_false, if_neg notTwo, if_neg notThree, if_pos four,
    toNat_byte byte, lowBits_byte hj, lowBits_byte hk, lowBits_byte hl, bits, code,
    ofCodePoint?_toNat long]
  cases decode? rest <;> rfl

end Length

theorem toNat_lt (c : Char) : c.toNat < 0x110000 := by
  have := c.valid
  simp only [UInt32.isValidChar, Nat.isValidChar] at this
  change c.val.toNat < _
  omega

theorem decode?_encodeChar (c : Char) (rest : Bytes) :
    decode? (encodeChar c ++ rest) = (decode? rest).map (c :: ·) := by
  have valid := toNat_lt c
  simp only [encodeChar]
  split_ifs with one two three
  · exact decode?_one one rest
  · exact decode?_two (by omega) (by omega) (by omega) (by omega) rest
  · exact decode?_three (by omega) (by omega) (by omega) (by omega) (by omega) rest
  · exact decode?_four (by omega) (by omega) (by omega) (by omega) (by omega) (by omega) rest

theorem decode?_encode (t : Text) : decode? (encode t) = some t := by
  induction t with
  | nil => rfl
  | cons c t ih =>
    rw [encode, List.flatMap_cons, decode?_encodeChar, ← encode, ih]
    rfl

theorem encode_append (s t : Text) : encode (s ++ t) = encode s ++ encode t :=
  List.flatMap_append

theorem encode_cons (c : Char) (t : Text) : encode (c :: t) = encodeChar c ++ encode t := rfl

theorem length_encodeChar (c : Char) : (encodeChar c).length = c.utf8Size := by
  have size : c.utf8Size = if c.toNat < 0x80 then 1 else if c.toNat < 0x800 then 2
      else if c.toNat < 0x10000 then 3 else 4 := by
    simp only [Char.utf8Size, UInt32.le_iff_toNat_le, ← Nat.lt_succ_iff]
    rfl
  rw [size]
  simp only [encodeChar]
  split_ifs <;> rfl

theorem length_encode (t : Text) : (encode t).length = byteLength t := by
  induction t with
  | nil => rfl
  | cons c t ih => rw [encode_cons, List.length_append, length_encodeChar, ih, byteLength]

theorem toNat_of_mem_encodeChar {c : Char} {b : UInt8} (mem : b ∈ encodeChar c)
    (ascii : b.toNat < 0x80) : c.toNat = b.toNat := by
  have large {n : Nat} (h : 0x80 ≤ n ∧ n < 256) : b ≠ UInt8.ofNat n := by
    rintro rfl
    rw [UInt8.toNat_ofNat_of_lt' h.2] at ascii
    omega
  have valid := toNat_lt c
  simp only [encodeChar] at mem
  split_ifs at mem with one two three
  · rw [List.mem_singleton.mp mem, UInt8.toNat_ofNat_of_lt' (by simp [UInt8.size]; omega)]
  all_goals
    simp only [List.mem_cons, List.not_mem_nil, or_false] at mem
    grind

end Text

end FormulaMigration
