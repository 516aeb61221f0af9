import Mathlib

/-!
# Bytes and words

A 16-bit lane pair: `pairWord hi lo` is `{hi, lo}`, `highByte` and `lowByte` its two halves.
-/

abbrev Byte := BitVec 8

abbrev Word := BitVec 16

/-- `{hi, lo}`. -/
def pairWord (hi lo : Byte) : Word := hi ++ lo

/-- `w[15:8]`. -/
def highByte (w : Word) : Byte := w.extractLsb' 8 8

/-- `w[7:0]`. -/
def lowByte (w : Word) : Byte := w.extractLsb' 0 8

@[simp] theorem highByte_pairWord (hi lo : Byte) : highByte (pairWord hi lo) = hi :=
  BitVec.extractLsb'_append_eq_left

@[simp] theorem lowByte_pairWord (hi lo : Byte) : lowByte (pairWord hi lo) = lo :=
  BitVec.extractLsb'_append_eq_right

theorem pairWord_highByte_lowByte (w : Word) : pairWord (highByte w) (lowByte w) = w := by
  refine BitVec.eq_of_toNat_eq ?_
  have hw := w.isLt
  simp only [pairWord, highByte, lowByte, BitVec.toNat_append, BitVec.extractLsb'_toNat,
    Nat.shiftLeft_eq, Nat.shiftRight_eq_div_pow]
  rw [← Nat.shiftLeft_eq, ← Nat.shiftLeft_add_eq_or_of_lt (by omega), Nat.shiftLeft_eq]
  omega

/-- `{b7, b6, b5, b4, b3, b2, b1, b0}`. -/
def packByte (b7 b6 b5 b4 b3 b2 b1 b0 : Bool) : Byte :=
  BitVec.ofBool b7 ++ BitVec.ofBool b6 ++ BitVec.ofBool b5 ++ BitVec.ofBool b4 ++
    BitVec.ofBool b3 ++ BitVec.ofBool b2 ++ BitVec.ofBool b1 ++ BitVec.ofBool b0
