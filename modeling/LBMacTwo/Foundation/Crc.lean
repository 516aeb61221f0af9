import LBMacTwo.Foundation.Bits

/-!
# Cyclic redundancy codes, most significant bit first

The remainder is a register of 16 bits; the polynomial is a parameter.

* `shift`: one step of the register;
* `byte`: the register after a byte, `ofBytes`: after a list of bytes;
* `residue`: a message followed by its own remainder leaves zero.
-/

namespace Crc

variable (poly : BitVec 16)

/-- One step of the register. -/
def shift (c : BitVec 16) : BitVec 16 := if c.msb then (c <<< 1) ^^^ poly else c <<< 1

def shifts : ℕ → BitVec 16 → BitVec 16
  | 0, c => c
  | n + 1, c => shift poly (shifts n c)

/-- The register after a byte. -/
def byte (c : BitVec 16) (d : Byte) : BitVec 16 := shifts poly 8 (c ^^^ (d ++ (0 : Byte)))

/-- The register after a list of bytes. -/
def ofBytes (c : BitVec 16) (ds : List Byte) : BitVec 16 := ds.foldl (byte poly) c

@[simp] theorem ofBytes_nil (c : BitVec 16) : ofBytes poly c [] = c := rfl

theorem ofBytes_singleton (c : BitVec 16) (d : Byte) : ofBytes poly c [d] = byte poly c d := rfl

theorem ofBytes_append (c : BitVec 16) (ds es : List Byte) :
    ofBytes poly c (ds ++ es) = ofBytes poly (ofBytes poly c ds) es := List.foldl_append

theorem ofBytes_concat (c : BitVec 16) (ds : List Byte) (d : Byte) :
    ofBytes poly c (ds ++ [d]) = byte poly (ofBytes poly c ds) d := by
  rw [ofBytes_append]
  rfl

/-- As long as the leading bits are clear the register only moves up. -/
theorem shifts_of_clear {c : BitVec 16} {n : ℕ} (h : ∀ i < n, c.getMsbD i = false) :
    shifts poly n c = c <<< n := by
  induction n with
  | zero => simp [shifts]
  | succ n ih =>
    have hmsb : (c <<< n).msb = false := by
      rw [BitVec.msb, BitVec.getMsbD_shiftLeft, Nat.zero_add]
      exact h n (by omega)
    rw [shifts, ih fun i hi => h i (by omega), shift, hmsb, if_neg (by decide),
      ← BitVec.shiftLeft_add]

/-- A register that meets its own leading byte moves up by eight. -/
theorem byte_highByte (c : BitVec 16) : byte poly c (highByte c) = lowByte c ++ (0 : Byte) := by
  have hclear : c ^^^ (highByte c ++ (0 : Byte)) = (0 : Byte) ++ lowByte c := by
    apply BitVec.eq_of_getLsbD_eq
    intro i hi
    simp only [highByte, lowByte, BitVec.getLsbD_xor, BitVec.getLsbD_append,
      BitVec.getLsbD_extractLsb']
    by_cases h8 : i < 8
    · simp [h8]
    · simp [h8, show 8 + (i - 8) = i by omega, show i - 8 < 8 by omega]
  rw [byte, hclear, shifts_of_clear]
  · apply BitVec.eq_of_getLsbD_eq
    intro i hi
    simp only [BitVec.getLsbD_shiftLeft, BitVec.getLsbD_append]
    by_cases h8 : i < 8
    · simp [h8]
    · simp [h8, hi, show i - 8 < 8 by omega]
  · intro i hi
    rw [BitVec.getMsbD, BitVec.getLsbD_append]
    simp [show ¬ 15 - i < 8 by omega]

/-- A message followed by its own remainder leaves zero. -/
theorem residue (c : BitVec 16) : ofBytes poly c [highByte c, lowByte c] = 0 := by
  change byte poly (byte poly c (highByte c)) (lowByte c) = 0
  rw [byte_highByte, byte, BitVec.xor_self, shifts_of_clear]
  · simp
  · intro i _
    simp

end Crc
