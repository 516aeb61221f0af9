import LBMacTwo.Foundation.Rounding

/-!
# Extended precision of the 68881, from `mc68881_pkg.vhd`

The 80-bit format, the count of leading zeros and the rounding procedure that the arithmetic units
share or inline.

* `clz_spec`: the shift by `clz` brings the leading one to the top;
* `applyRounding_spec`: the mantissa that `apply_rounding` leaves is the rounded significand.
-/

namespace Fpu
open Rounding

/-- `fp80_t`. -/
abbrev Fp80 := BitVec 80

/-- `fp_unpacked_t`. -/
structure Unpacked where
  sign : Bool
  exp : BitVec 15
  mant : BitVec 64
  deriving DecidableEq

def unpack (v : Fp80) : Unpacked := ⟨v.getLsbD 79, v.extractLsb' 64 15, v.extractLsb' 0 64⟩

def pack (u : Unpacked) : Fp80 := BitVec.ofBool u.sign ++ u.exp ++ u.mant

theorem getLsbD_pack (u : Unpacked) (i : ℕ) : (pack u).getLsbD i =
    if i < 64 then u.mant.getLsbD i else if i - 64 < 15 then u.exp.getLsbD (i - 64)
      else (BitVec.ofBool u.sign).getLsbD (i - 64 - 15) :=
  (BitVec.getLsbD_append ..).trans (by rw [BitVec.getLsbD_append])

@[simp] theorem unpack_pack (u : Unpacked) : unpack (pack u) = u := by
  obtain ⟨s, e, m⟩ := u
  simp only [unpack, Unpacked.mk.injEq]
  refine ⟨?_, ?_, ?_⟩
  · exact (getLsbD_pack _ 79).trans (by simp)
  · apply BitVec.eq_of_getLsbD_eq
    intro i hi
    simp [getLsbD_pack, hi]
  · apply BitVec.eq_of_getLsbD_eq
    intro i hi
    simp [getLsbD_pack, hi]

/-- `FP_EXP_ALL_ONES`. -/
def expAllOnes : BitVec 15 := BitVec.allOnes 15

def canonicalMant : BitVec 64 := 1#64 <<< 63

def isZero (v : Fp80) : Bool := (unpack v).exp == 0 && (unpack v).mant == 0

def isInf (v : Fp80) : Bool :=
  (unpack v).exp == expAllOnes && ((unpack v).mant == 0 || (unpack v).mant == canonicalMant)

def isNan (v : Fp80) : Bool := (unpack v).exp == expAllOnes && !isInf v

/-- Exponent all ones, integer bit clear, and a payload. -/
def isSnan (v : Fp80) : Bool :=
  (unpack v).exp == expAllOnes && !(unpack v).mant.msb && (unpack v).mant.extractLsb' 0 63 != 0

/-- `fp80_quiet_nan`. -/
def quietNan (v : Fp80) : Fp80 := v ||| 1#80 <<< 63

/-- `fp80_propagate_nan`: the invalid flag, and the quieted operand. -/
def propagateNan (a b : Fp80) (aNan bNan : Bool) : Bool × Fp80 :=
  (isSnan a || isSnan b,
    quietNan (if aNan && bNan then if isSnan a then a else if isSnan b then b else a
      else if aNan then a else b))

def inf (sign : Bool) : Fp80 := pack ⟨sign, expAllOnes, 0⟩

def canonicalQnan : Fp80 := pack ⟨false, expAllOnes, BitVec.allOnes 64⟩

section LeadingZeros

variable {w : ℕ}

/-- Shift left by `s` if the top `s` bits are clear. -/
def clzStage (s : ℕ) (x : ℕ × BitVec w) : ℕ × BitVec w :=
  if x.2.extractLsb' (w - s) s = 0 then (x.1 + s, x.2 <<< s) else x

/-- `clz`. -/
def clz (value : BitVec w) : ℕ :=
  let x := (0, value)
  let x := if 64 < w then clzStage 64 x else x
  let x := clzStage 2 (clzStage 4 (clzStage 8 (clzStage 16 (clzStage 32 x))))
  if x.2.msb then x.1 else x.1 + 1

/-- Nothing is lost on the way, and one of the top `s` bits is set. -/
structure ClzStage (v : BitVec w) (s : ℕ) (x : ℕ × BitVec w) : Prop where
  shifted : x.2.toNat = v.toNat * 2 ^ x.1
  top : 2 ^ (w - s) ≤ x.2.toNat

theorem extractLsb'_eq_zero_iff (v : BitVec w) {s : ℕ} (hs : s ≤ w) :
    v.extractLsb' (w - s) s = 0 ↔ v.toNat < 2 ^ (w - s) := by
  have hlt : v.toNat / 2 ^ (w - s) < 2 ^ s := by
    rw [Nat.div_lt_iff_lt_mul (by positivity), ← pow_add, show s + (w - s) = w by omega]
    exact v.isLt
  rw [← BitVec.toNat_inj, BitVec.extractLsb'_toNat, Nat.shiftRight_eq_div_pow,
    Nat.mod_eq_of_lt hlt]
  exact Nat.div_eq_zero_iff_lt (by positivity)

theorem ClzStage.next {v : BitVec w} {s : ℕ} {x : ℕ × BitVec w} (h : ClzStage v (2 * s) x)
    (hs : s ≤ w) : ClzStage v s (clzStage s x) := by
  rw [clzStage]
  split_ifs with hz
  · rw [extractLsb'_eq_zero_iff _ hs] at hz
    have hlt : x.2.toNat * 2 ^ s < 2 ^ w := by
      calc x.2.toNat * 2 ^ s < 2 ^ (w - s) * 2 ^ s := by gcongr
        _ = 2 ^ w := by rw [← pow_add, Nat.sub_add_cancel hs]
    have hshift : (x.2 <<< s).toNat = x.2.toNat * 2 ^ s := by
      rw [BitVec.toNat_shiftLeft, Nat.shiftLeft_eq, Nat.mod_eq_of_lt hlt]
    refine ⟨by rw [hshift, h.shifted, mul_assoc, ← pow_add], ?_⟩
    rw [hshift]
    calc 2 ^ (w - s) ≤ 2 ^ (w - 2 * s + s) := Nat.pow_le_pow_right two_pos (by omega)
      _ = 2 ^ (w - 2 * s) * 2 ^ s := pow_add ..
      _ ≤ x.2.toNat * 2 ^ s := Nat.mul_le_mul_right _ h.top
  · rw [extractLsb'_eq_zero_iff _ hs, not_lt] at hz
    exact ⟨h.shifted, hz⟩

/-- The widths that the units count in. -/
theorem clz_spec {v : BitVec w} (hv : v ≠ 0) (hw : 64 ≤ w) (hw' : w < 128) :
    v.toNat * 2 ^ clz v < 2 ^ w ∧ 2 ^ (w - 1) ≤ v.toNat * 2 ^ clz v := by
  have hpos : 1 ≤ v.toNat := by
    have : v.toNat ≠ 0 := fun h => hv (BitVec.eq_of_toNat_eq (by simpa using h))
    omega
  have h64 : ClzStage v 64 (if 64 < w then clzStage 64 (0, v) else (0, v)) := by
    split_ifs with hlt
    · exact ClzStage.next ⟨by simp, by simpa [show w - 2 * 64 = 0 by omega] using hpos⟩ hw
    · exact ⟨by simp, by simpa [show w - 64 = 0 by omega] using hpos⟩
  have h2 := ((((h64.next (s := 32) (by omega)).next (s := 16) (by omega)).next
    (s := 8) (by omega)).next (s := 4) (by omega)).next (s := 2) (by omega)
  simp only [clz]
  generalize clzStage 2 _ = x at h2
  have hmsb : x.2.msb = true ↔ 2 ^ (w - 1) ≤ x.2.toNat := by
    rw [BitVec.msb_eq_decide, decide_eq_true_eq]
  have hlt := x.2.isLt
  have htop := h2.top
  have hw1 : 2 ^ (w - 1) * 2 = 2 ^ w := by rw [← pow_succ, Nat.sub_add_cancel (by omega)]
  have hw2 : 2 ^ (w - 2) * 2 = 2 ^ (w - 1) := by rw [← pow_succ, show w - 2 + 1 = w - 1 by omega]
  split_ifs with hb
  · rw [← h2.shifted]
    exact ⟨hlt, hmsb.mp hb⟩
  · rw [hmsb] at hb
    rw [pow_succ, ← mul_assoc, ← h2.shifted]
    omega

end LeadingZeros

/-- `fp_round_prec_t`. -/
inductive Precision
  | extended
  | single
  | double
  | reserved
  deriving DecidableEq

namespace Precision

/-- The bit of the mantissa that is the last one kept. -/
def lsb : Precision → ℕ
  | .single => 40
  | .double => 11
  | .extended => 0
  | .reserved => 0

theorem lsb_le (p : Precision) : p.lsb ≤ 40 := by
  cases p <;> decide

/-- The number of bits kept, `prec_bits`. -/
def bits (p : Precision) : ℕ := 64 - p.lsb

theorem two_le_bits (p : Precision) : 2 ≤ p.bits := by
  cases p <;> decide

/-- The format that a rounding precision asks for. -/
def format (p : Precision) (emin : WithBot ℤ) : Format := ⟨p.bits, emin, p.two_le_bits⟩

theorem format_scaled (p : Precision) {mantExt : BitVec 67} (htop : 2 ^ 66 ≤ mantExt.toNat)
    {emin : WithBot ℤ} {f : ℤ} (he : emin ≤ f) :
    (p.format emin).Scaled (mantExt.toNat / 2 ^ (p.lsb + 3)) f := by
  have hl := p.lsb_le
  refine ⟨?_, he, .inl ?_⟩
  · change mantExt.toNat / 2 ^ (p.lsb + 3) < 2 ^ (64 - p.lsb)
    rw [Nat.div_lt_iff_lt_mul (by positivity), ← pow_add,
      show 64 - p.lsb + (p.lsb + 3) = 67 by omega]
    exact mantExt.isLt
  · have hle : 2 ^ (63 - p.lsb) ≤ mantExt.toNat / 2 ^ (p.lsb + 3) := by
      rwa [Nat.le_div_iff_mul_le (by positivity), ← pow_add,
        show 63 - p.lsb + (p.lsb + 3) = 66 by omega]
    calc 2 ^ (64 - p.lsb) = 2 * 2 ^ (63 - p.lsb) := by
          rw [← pow_succ', show 63 - p.lsb + 1 = 64 - p.lsb by omega]
      _ ≤ 2 * (mantExt.toNat / 2 ^ (p.lsb + 3)) := by omega

end Precision

section Rounding

variable (sign : Bool) (mantExt : BitVec 67) (exp : ℤ) (mode : Mode) (prec : Precision)

/-- Guard, round bit and sticky: something is discarded. -/
def anyDisc : Bool :=
  mantExt.getLsbD (prec.lsb + 2) || mantExt.getLsbD (prec.lsb + 1) ||
    mantExt.extractLsb' 0 (prec.lsb + 1) != 0

def roundIncrement : Bool :=
  match mode with
  | .nearest => mantExt.getLsbD (prec.lsb + 2) &&
      (mantExt.getLsbD (prec.lsb + 1) || mantExt.extractLsb' 0 (prec.lsb + 1) != 0 ||
        (mantExt.extractLsb' 3 64).getLsbD prec.lsb)
  | .towardZero => false
  | .towardNegative => sign && anyDisc mantExt prec
  | .towardPositive => !sign && anyDisc mantExt prec

/-- The mantissa and the exponent before the low bits are cleared. -/
def roundMain : BitVec 64 × ℤ :=
  let mantMain := mantExt.extractLsb' 3 64
  if roundIncrement sign mantExt mode prec then
    let mantRound : BitVec 65 := mantMain.setWidth 65 + 1#65 <<< prec.lsb
    if mantRound.msb then
      let low := mantRound.setWidth 64
      ((if low.getLsbD 0 then low >>> 1 ||| 1#64 else low >>> 1) ||| 1#64 <<< 63, exp + 1)
    else (mantRound.setWidth 64, exp)
  else (mantMain, exp)

/-- `apply_rounding`. -/
def applyRounding : BitVec 64 × ℤ :=
  let main := roundMain sign mantExt exp mode prec
  ((main.1 >>> prec.lsb) <<< prec.lsb, main.2)

theorem getLsbD_toNat {w : ℕ} (v : BitVec w) (i : ℕ) :
    v.getLsbD i = decide (v.toNat / 2 ^ i % 2 = 1) := by
  rw [← BitVec.testBit_toNat, Nat.testBit_eq_decide_div_mod_eq]

/-- Set the last bit. -/
theorem toNat_or_one {w : ℕ} (hw : 0 < w) (v : BitVec w) : (v ||| 1#w).toNat = lastSet v.toNat := by
  rw [BitVec.toNat_or, BitVec.toNat_ofNat, Nat.mod_eq_of_lt (Nat.one_lt_two_pow hw.ne')]
  refine Nat.eq_of_testBit_eq fun i => ?_
  cases i with
  | zero => simp [lastSet, Nat.testBit_zero, Nat.add_mod]
  | succ i =>
    rw [Nat.testBit_or, Nat.testBit_succ, Nat.testBit_succ, Nat.testBit_succ, lastSet]
    rw [show (v.toNat / 2 * 2 + 1) / 2 = v.toNat / 2 by omega]
    simp

theorem extractLsb'_ne_zero {w : ℕ} (v : BitVec w) (n : ℕ) :
    (v.extractLsb' 0 n != 0) = decide (v.toNat % 2 ^ n ≠ 0) := by
  have h : v.extractLsb' 0 n = 0 ↔ v.toNat % 2 ^ n = 0 := by
    rw [← BitVec.toNat_inj, BitVec.extractLsb'_toNat, Nat.shiftRight_zero]
    exact Iff.rfl
  rw [Bool.eq_iff_iff, bne_iff_ne, decide_eq_true_eq, ne_eq, h]

/-- `shift_right_with_sticky`. -/
def shiftRightWithSticky {w : ℕ} (value : BitVec w) (shift : ℕ) : BitVec w :=
  if shift = 0 then value
  else if w ≤ shift then if value != 0 then 1#w else 0
  else if value.extractLsb' 0 shift != 0 then value >>> shift ||| 1#w else value >>> shift

theorem toNat_shiftRightWithSticky {w : ℕ} (hw : 0 < w) (v : BitVec w) (d : ℕ) :
    (shiftRightWithSticky v d).toNat = shiftSticky v.toNat d := by
  rw [shiftRightWithSticky]
  split_ifs with h0 hd hv hlow
  · rw [h0, shiftSticky, pow_zero, Nat.mod_one, if_pos rfl, Nat.div_one]
  · have hlt : v.toNat < 2 ^ d := v.isLt.trans_le (Nat.pow_le_pow_right two_pos hd)
    have hne : v.toNat ≠ 0 := fun hc => (bne_iff_ne.mp hv) (BitVec.eq_of_toNat_eq hc)
    rw [shiftSticky, Nat.mod_eq_of_lt hlt, if_neg hne, Nat.div_eq_of_lt hlt, BitVec.toNat_ofNat,
      Nat.mod_eq_of_lt (Nat.one_lt_two_pow hw.ne')]
    rfl
  · have hz : v = 0 := by simpa using hv
    rw [hz, shiftSticky]
    simp
  · rw [extractLsb'_ne_zero, decide_eq_true_eq] at hlow
    rw [shiftSticky, if_neg hlow, toNat_or_one hw, BitVec.toNat_ushiftRight, Nat.shiftRight_eq_div_pow]
  · rw [extractLsb'_ne_zero, decide_eq_true_eq, not_not] at hlow
    rw [shiftSticky, if_pos hlow, BitVec.toNat_ushiftRight, Nat.shiftRight_eq_div_pow]

/-- The guard bit is worth half of the last bit kept, the round bit half of that, and the bits below
them are the rest. -/
theorem mod_grs (n l : ℕ) : n % 2 ^ (l + 3) = n % 2 ^ (l + 1) + 2 ^ (l + 1) * (n / 2 ^ (l + 1) % 2) +
    2 * 2 ^ (l + 1) * (n / 2 ^ (l + 2) % 2) := by
  rw [Nat.mod_pow_succ, Nat.mod_pow_succ (k := l + 1), pow_succ' 2 (l + 1)]

theorem anyDisc_eq : anyDisc mantExt prec = decide (mantExt.toNat % 2 ^ (prec.lsb + 3) ≠ 0) := by
  have hpos : 0 < 2 ^ (prec.lsb + 1) := by positivity
  rw [anyDisc, getLsbD_toNat, getLsbD_toNat, extractLsb'_ne_zero, mod_grs]
  rcases Nat.mod_two_eq_zero_or_one (mantExt.toNat / 2 ^ (prec.lsb + 1)) with hr | hr <;>
    rcases Nat.mod_two_eq_zero_or_one (mantExt.toNat / 2 ^ (prec.lsb + 2)) with hg | hg <;>
      simp [hr, hg]

theorem roundIncrement_eq : roundIncrement sign mantExt mode prec =
    increment mode sign (prec.lsb + 3) mantExt.toNat := by
  cases mode with
  | nearest =>
    have hlt : mantExt.toNat % 2 ^ (prec.lsb + 1) < 2 ^ (prec.lsb + 1) := Nat.mod_lt _ (by positivity)
    have hpow : 2 ^ (prec.lsb + 3) = 4 * 2 ^ (prec.lsb + 1) := by rw [pow_add, pow_add]; ring
    have hmain : (mantExt.extractLsb' 3 64).getLsbD prec.lsb = mantExt.getLsbD (prec.lsb + 3) := by
      have := prec.lsb_le
      rw [BitVec.getLsbD_extractLsb', decide_eq_true (by omega), Bool.true_and, Nat.add_comm]
    simp only [roundIncrement, increment, hmain, getLsbD_toNat, extractLsb'_ne_zero]
    rw [mod_grs, hpow]
    rcases Nat.mod_two_eq_zero_or_one (mantExt.toNat / 2 ^ (prec.lsb + 1)) with hr | hr <;>
      rcases Nat.mod_two_eq_zero_or_one (mantExt.toNat / 2 ^ (prec.lsb + 2)) with hg | hg <;>
        simp only [hr, hg] <;> rw [Bool.eq_iff_iff] <;> simp <;> omega
  | towardZero => rfl
  | towardNegative => rw [roundIncrement, anyDisc_eq]; rfl
  | towardPositive => rw [roundIncrement, anyDisc_eq]; rfl

theorem toNat_mantMain : (mantExt.extractLsb' 3 64).toNat = mantExt.toNat / 2 ^ 3 := by
  have hlt := mantExt.isLt
  rw [BitVec.extractLsb'_toNat, Nat.shiftRight_eq_div_pow, Nat.mod_eq_of_lt (by omega)]

/-- Clearing the low bits of a mantissa. -/
theorem toNat_clearLow (m : BitVec 64) (l : ℕ) : ((m >>> l) <<< l).toNat = m.toNat / 2 ^ l * 2 ^ l := by
  rw [BitVec.toNat_shiftLeft, BitVec.toNat_ushiftRight, Nat.shiftRight_eq_div_pow, Nat.shiftLeft_eq,
    Nat.mod_eq_of_lt ((Nat.div_mul_le_self _ _).trans_lt m.isLt)]

/-- When the carry leaves the mantissa, only the leading one is above the bits that are cleared. -/
theorem clearLow_carry (low : BitVec 64) {l : ℕ} (hl : l ≤ 40) (hlow : low.toNat < 2 ^ l) :
    ((((if low.getLsbD 0 then low >>> 1 ||| 1#64 else low >>> 1) ||| 1#64 <<< 63) >>> l) <<< l).toNat =
      2 ^ 63 := by
  have hy : (if low.getLsbD 0 then low >>> 1 ||| 1#64 else low >>> 1).toNat < 2 ^ l := by
    have hshift : (low >>> 1).toNat < 2 ^ l := by
      rw [BitVec.toNat_ushiftRight, Nat.shiftRight_eq_div_pow]
      exact (Nat.div_le_self _ _).trans_lt hlow
    split_ifs with hb
    · rw [BitVec.toNat_or]
      refine Nat.or_lt_two_pow hshift ?_
      rw [getLsbD_toNat, decide_eq_true_eq] at hb
      rcases l with - | l
      · rw [pow_zero, Nat.lt_one_iff] at hlow
        rw [hlow] at hb
        exact absurd hb (by decide)
      · exact (show 1 < 2 by decide).trans_le (Nat.le_self_pow l.succ_ne_zero 2)
    · exact hshift
  generalize (if low.getLsbD 0 then low >>> 1 ||| 1#64 else low >>> 1) = y at hy
  have hz : y >>> l = 0#64 := by
    apply BitVec.eq_of_toNat_eq
    rw [BitVec.toNat_ushiftRight, Nat.shiftRight_eq_div_pow, Nat.div_eq_of_lt hy]
    rfl
  rw [BitVec.ushiftRight_or_distrib, hz, BitVec.zero_or, toNat_clearLow]
  exact Nat.div_mul_cancel (pow_dvd_pow 2 (by omega : l ≤ 63))

theorem applyRounding_spec : ((applyRounding sign mantExt exp mode prec).1.toNat,
      (applyRounding sign mantExt exp mode prec).2) =
    if significand mode sign (prec.lsb + 3) mantExt.toNat < 2 ^ (64 - prec.lsb)
      then (significand mode sign (prec.lsb + 3) mantExt.toNat * 2 ^ prec.lsb, exp)
      else (2 ^ 63, exp + 1) := by
  have hl := prec.lsb_le
  have hN := mantExt.isLt
  have hpos : 0 < 2 ^ prec.lsb := by positivity
  have h64 : 2 ^ (64 - prec.lsb) * 2 ^ prec.lsb = 2 ^ 64 := by
    rw [← pow_add, Nat.sub_add_cancel (by omega)]
  have hq : mantExt.toNat / 2 ^ (prec.lsb + 3) = mantExt.toNat / 2 ^ 3 / 2 ^ prec.lsb := by
    rw [Nat.div_div_eq_div_mul, ← pow_add, Nat.add_comm 3]
  have hlt : mantExt.toNat / 2 ^ 3 / 2 ^ prec.lsb < 2 ^ (64 - prec.lsb) := by
    rw [Nat.div_lt_iff_lt_mul hpos, h64]
    omega
  rw [applyRounding, roundMain, roundIncrement_eq, significand, hq]
  cases hinc : increment mode sign (prec.lsb + 3) mantExt.toNat with
  | false =>
    rw [Bool.toNat_false, add_zero, if_pos hlt]
    simp only [Bool.false_eq_true, ↓reduceIte, toNat_clearLow, toNat_mantMain]
  | true =>
    have hone : (1#65 <<< prec.lsb).toNat = 2 ^ prec.lsb := by
      rw [BitVec.toNat_shiftLeft, Nat.shiftLeft_eq, BitVec.toNat_ofNat]
      have : 2 ^ prec.lsb ≤ 2 ^ 40 := Nat.pow_le_pow_right two_pos hl
      omega
    have hround : ((mantExt.extractLsb' 3 64).setWidth 65 + 1#65 <<< prec.lsb).toNat =
        mantExt.toNat / 2 ^ 3 + 2 ^ prec.lsb := by
      have : 2 ^ prec.lsb ≤ 2 ^ 40 := Nat.pow_le_pow_right two_pos hl
      rw [BitVec.toNat_add, BitVec.toNat_setWidth, toNat_mantMain, hone]
      omega
    have hsucc : (mantExt.toNat / 2 ^ 3 + 2 ^ prec.lsb) / 2 ^ prec.lsb =
        mantExt.toNat / 2 ^ 3 / 2 ^ prec.lsb + 1 := Nat.add_div_right _ hpos
    have hcarry : mantExt.toNat / 2 ^ 3 / 2 ^ prec.lsb + 1 < 2 ^ (64 - prec.lsb) ↔
        mantExt.toNat / 2 ^ 3 + 2 ^ prec.lsb < 2 ^ 64 := by
      rw [← hsucc, Nat.div_lt_iff_lt_mul hpos, h64]
    simp only [↓reduceIte, Bool.toNat_true]
    generalize (mantExt.extractLsb' 3 64).setWidth 65 + 1#65 <<< prec.lsb = mantRound at hround
    by_cases hc : mantExt.toNat / 2 ^ 3 / 2 ^ prec.lsb + 1 < 2 ^ (64 - prec.lsb)
    · have hmsb : mantRound.msb = false := by
        rw [BitVec.msb_eq_decide, hround]
        exact decide_eq_false (not_le.mpr (hcarry.mp hc))
      rw [if_pos hc, hmsb]
      simp only [Bool.false_eq_true, ↓reduceIte, toNat_clearLow]
      rw [BitVec.toNat_setWidth, hround, Nat.mod_eq_of_lt (hcarry.mp hc), hsucc]
    · have hge : 2 ^ 64 ≤ mantExt.toNat / 2 ^ 3 + 2 ^ prec.lsb := not_lt.mp (hcarry.not.mp hc)
      have hmsb : mantRound.msb = true := by
        rw [BitVec.msb_eq_decide, hround]
        exact decide_eq_true hge
      rw [if_neg hc, hmsb]
      simp only [↓reduceIte]
      rw [clearLow_carry _ hl]
      rw [BitVec.toNat_setWidth, hround]
      omega

/-- A mantissa whose leading one is at the top keeps it. -/
theorem applyRounding_top (htop : 2 ^ 66 ≤ mantExt.toNat) :
    2 ^ 63 ≤ (applyRounding sign mantExt exp mode prec).1.toNat := by
  have hl := prec.lsb_le
  have hspec := applyRounding_spec sign mantExt exp mode prec
  split_ifs at hspec with hlt
  · obtain ⟨hm, -⟩ := Prod.mk.inj hspec
    have hle : 2 ^ (63 - prec.lsb) ≤ significand mode sign (prec.lsb + 3) mantExt.toNat := by
      refine le_trans ?_ (Nat.le_add_right ..)
      rwa [Nat.le_div_iff_mul_le (by positivity), ← pow_add,
        show 63 - prec.lsb + (prec.lsb + 3) = 66 by omega]
    rw [hm]
    calc 2 ^ 63 = 2 ^ (63 - prec.lsb) * 2 ^ prec.lsb := by
          rw [← pow_add, Nat.sub_add_cancel (by omega)]
      _ ≤ _ := Nat.mul_le_mul_right _ hle
  · exact (Prod.mk.inj hspec).1.ge

end Rounding

section Value

/-- `FP_EXP_BIAS`. -/
def expBias : ℤ := 16383

/-- The bias of the exponent of the last bit. -/
def mantBias : ℤ := expBias + 63

/-- The exponent that the arithmetic gives to a value: subnormals share the least one. -/
def exponent (v : Fp80) : ℤ := if (unpack v).exp = 0 then 1 else (unpack v).exp.toNat

noncomputable def value (v : Fp80) : ℝ :=
  ofSignificand (unpack v).sign (unpack v).mant.toNat (exponent v - mantBias)

/-- A finite value other than zero, its integer bit set unless it is subnormal. -/
structure IsNumber (v : Fp80) : Prop where
  finite : (unpack v).exp ≠ expAllOnes
  nonzero : (unpack v).mant ≠ 0
  integer : (unpack v).exp ≠ 0 → (unpack v).mant.msb = true

theorem IsNumber.top {v : Fp80} (h : IsNumber v) (he : (unpack v).exp ≠ 0) :
    2 ^ 63 ≤ (unpack v).mant.toNat := by
  have hmsb := h.integer he
  rwa [BitVec.msb_eq_decide, decide_eq_true_eq] at hmsb

theorem IsNumber.isInf {v : Fp80} (h : IsNumber v) : isInf v = false := by
  simp [Fpu.isInf, h.finite]

theorem IsNumber.isNan {v : Fp80} (h : IsNumber v) : isNan v = false := by
  simp [Fpu.isNan, h.finite]

theorem IsNumber.isZero {v : Fp80} (h : IsNumber v) : isZero v = false := by
  have hne : (unpack v).mant ≠ 0#64 := h.nonzero
  simp [Fpu.isZero, hne]

/-- Subnormal operands are normalized before the arithmetic: the mantissa and the exponent. -/
def normalize (v : Fp80) : BitVec 64 × ℤ :=
  if (unpack v).exp = 0 ∧ (unpack v).mant ≠ 0 then
    ((unpack v).mant <<< clz (unpack v).mant, 1 - clz (unpack v).mant)
  else ((unpack v).mant, (unpack v).exp.toNat)

theorem normalize_top {v : Fp80} (h : IsNumber v) : 2 ^ 63 ≤ (normalize v).1.toNat := by
  rw [normalize]
  split_ifs with hz
  · obtain ⟨hlt, hge⟩ := clz_spec hz.2 le_rfl (by decide)
    rwa [BitVec.toNat_shiftLeft, Nat.shiftLeft_eq, Nat.mod_eq_of_lt hlt]
  · exact h.top fun h0 => hz ⟨h0, h.nonzero⟩

theorem normalize_exp_lt {v : Fp80} (h : IsNumber v) : (normalize v).2 < 32767 := by
  rw [normalize]
  split_ifs with hz
  · change 1 - (clz (unpack v).mant : ℤ) < 32767
    omega
  · have hne : (unpack v).exp.toNat ≠ 32767 := fun hc => h.finite (BitVec.eq_of_toNat_eq hc)
    have hlt := (unpack v).exp.isLt
    change ((unpack v).exp.toNat : ℤ) < 32767
    omega

theorem value_normalize {v : Fp80} (h : IsNumber v) : value v =
    signed (unpack v).sign ((normalize v).1.toNat * (2 : ℝ) ^ ((normalize v).2 - mantBias)) := by
  rw [value, ofSignificand, exponent, normalize]
  by_cases hz : (unpack v).exp = 0
  · obtain ⟨hlt, -⟩ := clz_spec h.nonzero le_rfl (by decide)
    rw [if_pos hz, if_pos ⟨hz, h.nonzero⟩, BitVec.toNat_shiftLeft, Nat.shiftLeft_eq,
      Nat.mod_eq_of_lt hlt]
    push_cast
    rw [mul_assoc, ← zpow_natCast, ← zpow_add₀ two_ne_zero]
    congr 3
    omega
  · rw [if_neg hz, if_neg fun hc => hz hc.1]

/-- The mantissa and the exponent that are left stand for the rounded significand. -/
theorem applyRounding_value (sign : Bool) (mantExt : BitVec 67) (exp : ℤ) (mode : Mode)
    (prec : Precision) :
    ((applyRounding sign mantExt exp mode prec).1.toNat : ℝ) *
        2 ^ ((applyRounding sign mantExt exp mode prec).2 - mantBias) =
      significand mode sign (prec.lsb + 3) mantExt.toNat * 2 ^ (exp - mantBias + prec.lsb) := by
  have hspec := applyRounding_spec sign mantExt exp mode prec
  generalize applyRounding sign mantExt exp mode prec = m at hspec
  split_ifs at hspec with hlt
  · obtain ⟨hm, he⟩ := Prod.mk.inj hspec
    rw [hm, he, zpow_add₀ two_ne_zero, zpow_natCast]
    push_cast
    ring
  · obtain ⟨hm, he⟩ := Prod.mk.inj hspec
    have hl := prec.lsb_le
    have hle := significand_le mode sign (k := prec.lsb + 3) (n := 64 - prec.lsb)
      (by rw [← pow_add, show 64 - prec.lsb + (prec.lsb + 3) = 67 by omega]; exact mantExt.isLt)
    have hsig : significand mode sign (prec.lsb + 3) mantExt.toNat * 2 ^ prec.lsb = 2 ^ 63 * 2 := by
      rw [le_antisymm hle (not_lt.mp hlt), ← pow_add, Nat.sub_add_cancel (by omega), ← pow_succ]
    have hsig' : (significand mode sign (prec.lsb + 3) mantExt.toNat : ℝ) * 2 ^ prec.lsb =
        (2 ^ 63 : ℕ) * 2 := by exact_mod_cast hsig
    rw [hm, he, add_sub_right_comm, zpow_add_one₀ two_ne_zero, zpow_add₀ two_ne_zero, zpow_natCast]
    linear_combination -(2 : ℝ) ^ (exp - mantBias) * hsig'

/-- A rounding of the exact value, from the integer that the unit has left of it. -/
theorem applyRounding_rounds {F : Format} {x : ℝ} {mantExt : BitVec 67} {prec : Precision} {exp : ℤ}
    (h : Agrees (prec.lsb + 2) x mantExt.toNat)
    (hs : F.Scaled (mantExt.toNat / 2 ^ (prec.lsb + 3)) (exp - mantBias + prec.lsb))
    (sign : Bool) (mode : Mode) :
    RoundsTo F mode (signed sign (x * 2 ^ (exp - mantBias - 3)))
      (signed sign ((applyRounding sign mantExt exp mode prec).1.toNat *
        2 ^ ((applyRounding sign mantExt exp mode prec).2 - mantBias) : ℝ)) := by
  have hk : exp - mantBias - 3 + ((prec.lsb + 2 : ℕ) + 1) = exp - mantBias + prec.lsb := by
    push_cast
    ring
  have hr := RoundsTo.of_agrees (e := exp - mantBias - 3) h (by rwa [hk]) mode sign
  rwa [hk, ← applyRounding_value] at hr

end Value

section Delivery

/-- Extended precision with gradual underflow. -/
def extendedFormat : Format := ⟨64, (1 - mantBias : ℤ), by decide⟩

/-- What the multiplier and the adder leave of a mantissa and an exponent: an infinity above the largest
exponent, a mantissa cut off below the least. -/
def packNumber (sign : Bool) (mant : BitVec 64) (exp : ℤ) : Fp80 :=
  if exp ≤ 0 then
    if 64 ≤ 1 - exp ∨ mant = 0 then 0 else pack ⟨sign, 0, mant >>> (1 - exp).toNat⟩
  else if 32767 ≤ exp then inf sign
  else pack ⟨sign, BitVec.ofInt 15 exp, mant⟩

/-- `v` stands for `r`: itself in the normal range, an infinity above it, and cut off towards zero
below it; the integer bit of a finite `v` is clear where its exponent is zero only. -/
structure Delivered (r : ℝ) (v : Fp80) : Prop where
  finite : |r| < 2 ^ (expBias + 1) → (unpack v).exp ≠ expAllOnes ∧
    RoundsTo extendedFormat .towardZero r (value v)
  normalized : |r| < 2 ^ (expBias + 1) → ((unpack v).mant.msb = true ↔ (unpack v).exp ≠ 0)
  exact : 2 ^ (1 - expBias) ≤ |r| → |r| < 2 ^ (expBias + 1) → value v = r
  overflow_pos : 2 ^ (expBias + 1) ≤ r → v = inf false
  overflow_neg : r ≤ -2 ^ (expBias + 1) → v = inf true

theorem value_pack_subnormal (sign : Bool) (mant : BitVec 64) :
    value (pack ⟨sign, 0, mant⟩) = signed sign (mant.toNat * (2 : ℝ) ^ (1 - mantBias)) := by
  simp [value, ofSignificand, exponent]

theorem toNat_ofInt_exp {exp : ℤ} (h0 : 0 < exp) (h1 : exp < 32767) :
    ((BitVec.ofInt 15 exp).toNat : ℤ) = exp := by
  rw [BitVec.toNat_ofInt]
  omega

theorem value_pack_normal (sign : Bool) (mant : BitVec 64) {exp : ℤ} (h0 : 0 < exp) (h1 : exp < 32767) :
    value (pack ⟨sign, BitVec.ofInt 15 exp, mant⟩) =
      signed sign (mant.toNat * (2 : ℝ) ^ (exp - mantBias)) := by
  have hexp := toNat_ofInt_exp h0 h1
  have hne : BitVec.ofInt 15 exp ≠ 0 := fun h => by
    rw [h] at hexp
    exact h0.ne hexp
  rw [value, ofSignificand, exponent, unpack_pack, if_neg hne, hexp]

@[simp] theorem value_zero : value 0 = 0 := by
  have hmant : (unpack 0).mant.toNat = 0 := by decide
  rw [value, ofSignificand, hmant]
  simp [signed]

@[simp] theorem abs_signed {𝕜 : Type*} [Field 𝕜] [LinearOrder 𝕜] [IsStrictOrderedRing 𝕜] (neg : Bool)
    (x : 𝕜) : |signed neg x| = |x| := by
  cases neg <;> simp [signed]

/-- Below the least exponent the low bits are cut off. -/
theorem packNumber_subnormal (sign : Bool) (mant : BitVec 64) {exp : ℤ} (h : exp ≤ 0) :
    (unpack (packNumber sign mant exp)).exp = 0 ∧ value (packNumber sign mant exp) =
      signed sign ((mant.toNat / 2 ^ (1 - exp).toNat : ℕ) * (2 : ℝ) ^ (1 - mantBias)) := by
  rw [packNumber, if_pos h]
  split_ifs with hz
  · have hq : mant.toNat / 2 ^ (1 - exp).toNat = 0 := by
      rcases hz with hz | rfl
      · refine Nat.div_eq_of_lt (mant.isLt.trans_le (Nat.pow_le_pow_right two_pos ?_))
        omega
      · exact Nat.zero_div _
    rw [hq, value_zero]
    exact ⟨by decide, by simp [signed]⟩
  · rw [value_pack_subnormal, BitVec.toNat_ushiftRight, Nat.shiftRight_eq_div_pow, unpack_pack]
    exact ⟨rfl, rfl⟩

theorem msb_packNumber_subnormal (sign : Bool) (mant : BitVec 64) {exp : ℤ} (h : exp ≤ 0) :
    (unpack (packNumber sign mant exp)).mant.msb = false := by
  rw [packNumber, if_pos h]
  split_ifs
  · decide
  · have hlt := mant.isLt
    have hhalf : mant.toNat / 2 ^ (1 - exp).toNat ≤ mant.toNat / 2 ^ 1 :=
      Nat.div_le_div_left (Nat.pow_le_pow_right two_pos (by omega)) (by decide)
    rw [unpack_pack, BitVec.msb_eq_decide, decide_eq_false_iff_not, BitVec.toNat_ushiftRight,
      Nat.shiftRight_eq_div_pow]
    omega

/-- Cutting bits off a mantissa rounds it towards zero. -/
theorem roundsTo_towardZero_div (sign : Bool) (mant : BitVec 64) (s : ℕ) (e : ℤ)
    (he : e + s = 1 - mantBias) :
    RoundsTo extendedFormat .towardZero (signed sign (mant.toNat * (2 : ℝ) ^ e))
      (signed sign ((mant.toNat / 2 ^ s : ℕ) * (2 : ℝ) ^ (1 - mantBias))) := by
  have hscaled : extendedFormat.Scaled (mant.toNat / 2 ^ s) (1 - mantBias) :=
    ⟨(Nat.div_le_self _ _).trans_lt mant.isLt, le_rfl, .inr rfl⟩
  have hE : (0 : ℝ) < 2 ^ e := by positivity
  have hpow : (2 : ℝ) ^ (1 - mantBias) = 2 ^ s * 2 ^ e := by
    rw [← he, zpow_add₀ two_ne_zero, zpow_natCast, mul_comm]
  have hlo : ((mant.toNat / 2 ^ s : ℕ) : ℝ) * 2 ^ (1 - mantBias) ≤ mant.toNat * 2 ^ e := by
    rw [hpow, ← mul_assoc]
    refine mul_le_mul_of_nonneg_right ?_ hE.le
    exact_mod_cast Nat.div_mul_le_self _ _
  have hhi : (mant.toNat : ℝ) * 2 ^ e < ((mant.toNat / 2 ^ s : ℕ) + 1) * 2 ^ (1 - mantBias) := by
    rw [hpow, ← mul_assoc]
    refine mul_lt_mul_of_pos_right ?_ hE
    rw [mul_comm]
    exact_mod_cast Nat.lt_mul_div_succ mant.toNat (by positivity : 0 < 2 ^ s)
  have h := roundsTo_towardZero hscaled.representable hscaled.gap (by positivity) hlo hhi
  cases sign with
  | false => exact h
  | true =>
    have hflip : RoundsTo _ (Mode.flip .towardZero) _ _ := h
    exact hflip.neg

/-- A normalized mantissa is in the binade of its exponent. -/
theorem mant_bounds {mant : BitVec 64} (exp : ℤ) (hm : 2 ^ 63 ≤ mant.toNat) :
    (2 : ℝ) ^ (exp - expBias) ≤ mant.toNat * (2 : ℝ) ^ (exp - mantBias) ∧
      mant.toNat * (2 : ℝ) ^ (exp - mantBias) < 2 ^ (exp - expBias + 1) := by
  have hpow : ∀ n : ℕ, (2 : ℝ) ^ n * 2 ^ (exp - mantBias) = 2 ^ (exp - expBias + (n - 63)) := fun n => by
    rw [← zpow_natCast, ← zpow_add₀ two_ne_zero]
    congr 1
    rw [mantBias]
    ring
  have hlo : ((2 : ℝ) ^ 63) ≤ mant.toNat := by exact_mod_cast hm
  have hhi : (mant.toNat : ℝ) < 2 ^ 64 := by exact_mod_cast mant.isLt
  constructor
  · calc (2 : ℝ) ^ (exp - expBias) = 2 ^ 63 * 2 ^ (exp - mantBias) := by
          rw [hpow]
          norm_num
      _ ≤ _ := by gcongr
  · calc (mant.toNat : ℝ) * 2 ^ (exp - mantBias) < 2 ^ 64 * 2 ^ (exp - mantBias) := by gcongr
      _ = _ := by
          rw [hpow]
          norm_num

theorem packNumber_delivered (sign : Bool) {mant : BitVec 64} (exp : ℤ) (hm : 2 ^ 63 ≤ mant.toNat) :
    Delivered (signed sign (mant.toNat * (2 : ℝ) ^ (exp - mantBias))) (packNumber sign mant exp) := by
  set R : ℝ := mant.toNat * (2 : ℝ) ^ (exp - mantBias) with hR
  have hpos : 0 < R := by
    have : 0 < mant.toNat := (by decide : 0 < 2 ^ 63).trans_le hm
    positivity
  obtain ⟨hlo, hhi⟩ := mant_bounds exp hm
  have habs : |signed sign R| = R := by rw [abs_signed, abs_of_pos hpos]
  have hsigned : ∀ x, 0 < x → (x ≤ signed sign R → sign = false ∧ x ≤ R) ∧
      (signed sign R ≤ -x → sign = true ∧ x ≤ R) := by
    intro x hx
    cases sign <;> simp only [signed, Bool.false_eq_true, ↓reduceIte, true_and, false_and]
    · exact ⟨id, fun h => by linarith⟩
    · exact ⟨fun h => by linarith, fun h => by linarith⟩
  have hbound : ∀ n : ℤ, 2 ^ n ≤ R → n ≤ exp - expBias := fun n h => by
    by_contra! hc
    exact absurd (hhi.trans_le (zpow_le_zpow_right₀ one_le_two (by omega))) h.not_gt
  have hbig : 2 ^ (expBias + 1) ≤ R → packNumber sign mant exp = inf sign := fun h => by
    have := hbound _ h
    rw [expBias] at this
    rw [packNumber, if_neg (by omega), if_pos (by omega)]
  rcases le_or_gt exp 0 with h0 | h0
  · obtain ⟨hfin, hval⟩ := packNumber_subnormal sign mant h0
    refine ⟨fun _ => ⟨by rw [hfin]; decide, ?_⟩, fun _ => ?_, fun h => ?_, fun h => ?_, fun h => ?_⟩
    · rw [hval]
      refine roundsTo_towardZero_div sign mant _ _ ?_
      omega
    · simp [hfin, msb_packNumber_subnormal sign mant h0]
    · rw [habs] at h
      have := hbound _ h
      omega
    · obtain ⟨rfl, hR'⟩ := (hsigned _ (by positivity)).1 h
      exact hbig hR'
    · obtain ⟨rfl, hR'⟩ := (hsigned _ (by positivity)).2 h
      exact hbig hR'
  · have hnormal : exp < 32767 → unpack (packNumber sign mant exp) = ⟨sign, BitVec.ofInt 15 exp, mant⟩ ∧
        value (packNumber sign mant exp) = signed sign R := fun h => by
      rw [packNumber, if_neg (by omega), if_neg (by omega)]
      exact ⟨unpack_pack _, value_pack_normal sign mant h0 h⟩
    have hsmall : R < 2 ^ (expBias + 1) → exp < 32767 := fun h => by
      by_contra! hc
      exact absurd ((zpow_le_zpow_right₀ one_le_two (by rw [expBias]; omega)).trans hlo) h.not_ge
    refine ⟨fun h => ?_, fun h => ?_, fun _ h => ?_, fun h => ?_, fun h => ?_⟩
    · rw [habs] at h
      obtain ⟨hu, hval⟩ := hnormal (hsmall h)
      have hexp := toNat_ofInt_exp h0 (hsmall h)
      rw [hu, hval]
      refine ⟨fun hc => ?_, .of_representable ?_ _⟩
      · rw [show BitVec.ofInt 15 exp = expAllOnes from hc] at hexp
        exact absurd (hsmall h) (by rw [← hexp]; decide)
      · have hrep : extendedFormat.Representable R :=
          ⟨mant.toNat, exp - mantBias, by rw [Nat.abs_cast]; exact_mod_cast mant.isLt,
            WithBot.coe_le_coe.mpr (by omega), by norm_cast⟩
        cases sign
        exacts [hrep, hrep.neg]
    · rw [habs] at h
      have hexp := toNat_ofInt_exp h0 (hsmall h)
      have hne : BitVec.ofInt 15 exp ≠ 0 := fun hc => by
        rw [hc] at hexp
        exact h0.ne hexp
      rw [(hnormal (hsmall h)).1, BitVec.msb_eq_decide, decide_eq_true_eq]
      exact ⟨fun _ => hne, fun _ => hm⟩
    · rw [habs] at h
      exact (hnormal (hsmall h)).2
    · obtain ⟨rfl, hR'⟩ := (hsigned _ (by positivity)).1 h
      exact hbig hR'
    · obtain ⟨rfl, hR'⟩ := (hsigned _ (by positivity)).2 h
      exact hbig hR'

theorem representable_subnormal {v : Fp80} (h : (unpack v).exp = 0) :
    extendedFormat.Representable (value v) := by
  have hrep : extendedFormat.Representable ((unpack v).mant.toNat * (2 : ℝ) ^ (1 - mantBias)) :=
    ⟨(unpack v).mant.toNat, 1 - mantBias, by rw [Nat.abs_cast]; exact_mod_cast (unpack v).mant.isLt,
      le_rfl, by norm_cast⟩
  rw [value, ofSignificand, exponent, if_pos h]
  cases (unpack v).sign
  exacts [hrep, hrep.neg]

/-- The integer bit of a value below the normal range is clear. -/
theorem msb_of_subnormal {v : Fp80} (h : (unpack v).exp = 0) (hv : |value v| < 2 ^ (1 - expBias)) :
    (unpack v).mant.msb = false := by
  rw [value, ofSignificand, exponent, if_pos h, abs_signed, abs_of_nonneg (by positivity)] at hv
  rw [BitVec.msb_eq_decide, decide_eq_false_iff_not]
  exact fun hm => (mant_bounds 1 hm).1.not_gt hv

/-- Zeros and subnormals stand for themselves. -/
theorem Delivered.of_subnormal {v : Fp80} (h : (unpack v).exp = 0)
    (hv : |value v| < 2 ^ (1 - expBias)) : Delivered (value v) v := by
  have hlt : |value v| < 2 ^ (expBias + 1) :=
    hv.trans_le (zpow_le_zpow_right₀ one_le_two (by rw [expBias]; norm_num))
  refine ⟨fun _ => ⟨by rw [h]; decide, .of_representable (representable_subnormal h) _⟩,
    fun _ => by simp [h, msb_of_subnormal h hv], fun _ _ => rfl, fun hc => ?_, fun hc => ?_⟩
  · exact absurd (hc.trans (le_abs_self _)) hlt.not_ge
  · exact absurd ((le_neg.mpr hc).trans (neg_le_abs _)) hlt.not_ge

/-- Rounding and packing the integer that a unit has left of a value. -/
theorem packNumber_rounds {x : ℝ} {mantExt : BitVec 67} {prec : Precision}
    (h : Agrees (prec.lsb + 2) x mantExt.toNat) (htop : 2 ^ 66 ≤ mantExt.toNat) (sign : Bool) (exp : ℤ)
    (mode : Mode) : ∃ r, RoundsTo (prec.format ⊥) mode (signed sign (x * 2 ^ (exp - mantBias - 3))) r ∧
      Delivered r (packNumber sign (applyRounding sign mantExt exp mode prec).1
        (applyRounding sign mantExt exp mode prec).2) :=
  ⟨_, applyRounding_rounds h (prec.format_scaled htop bot_le) sign mode,
    packNumber_delivered _ _ (applyRounding_top _ _ _ _ _ htop)⟩

end Delivery

/-- A unit that is started in clock `t` is busy until clock `t + n`, in which it is done with `v`. -/
structure Answers (busy done : ℕ → Bool) (result : ℕ → Fp80) (t n : ℕ) (v : Fp80) : Prop where
  pending : ∀ j, 0 < j → j < n → busy (t + j) = true ∧ done (t + j) = false
  idle : busy (t + n) = false
  done : done (t + n) = true
  result : result (t + n) = v

end Fpu
