import LBMacTwo.Fpu.DivRem

/-!
# The memory formats of `mc68881_top.vhd`

Single and double precision as the coprocessor reads and writes them. The two are converted alike, with
the widths of their fields.

* `sigRound_eq`: guard bit and sticky bit round a mantissa as its exact value is rounded;
* `narrow_rounds`: what is written is the correctly rounded value, down to the least subnormal;
* `value_widen`: what is read is the value in memory;
* `reads_back`: every bit pattern that is read is written back unchanged.
-/

namespace Fpu
open Rounding

/-- The formats narrower than extended precision. -/
inductive Layout
  | single
  | double

namespace Layout

def expWidth : Layout → ℕ
  | single => 8
  | double => 11

def fracWidth : Layout → ℕ
  | single => 23
  | double => 52

variable (L : Layout)

/-- 127 or 1023. -/
def bias : ℤ := 2 ^ (L.expWidth - 1) - 1

theorem fracWidth_bounds : 2 ≤ L.fracWidth ∧ L.fracWidth ≤ 52 := by
  cases L <;> decide

theorem two_le_precision : 2 ≤ L.fracWidth + 1 := by
  have := L.fracWidth_bounds
  omega

theorem two_pow_expWidth : (2 : ℤ) ^ L.expWidth - 1 = 2 * L.bias + 1 := by
  cases L <;> decide

theorem bias_bounds : 127 ≤ L.bias ∧ L.bias ≤ 1023 := by
  cases L <;> decide

/-- The format with gradual underflow. -/
def format : Format := ⟨L.fracWidth + 1, (1 - L.bias - L.fracWidth : ℤ), L.two_le_precision⟩

end Layout

/-- The fields of a single or a double. -/
structure Fields (L : Layout) where
  sign : Bool
  exp : BitVec L.expWidth
  frac : BitVec L.fracWidth

variable {L : Layout}

/-- An integer bit and the fraction behind it. -/
def mantissa (frac : BitVec L.fracWidth) : BitVec 64 :=
  1#64 <<< 63 ||| frac.setWidth 64 <<< (63 - L.fracWidth)

/-- `fp80_from_single`, `fp80_from_double`. -/
def widen (x : Fields L) : Fp80 :=
  if x.exp = 0 then
    if x.frac = 0 then pack ⟨x.sign, 0, 0⟩
    else
      let lz := L.fracWidth - 1 - Div.highestOne x.frac L.fracWidth
      -- The leading one leaves the fraction for the integer bit.
      pack ⟨x.sign, BitVec.ofInt 15 (expBias - L.bias - lz), mantissa (x.frac <<< lz <<< 1)⟩
  else if x.exp = BitVec.allOnes L.expWidth then
    pack ⟨x.sign, expAllOnes, if x.frac ≠ 0 then mantissa x.frac else 0⟩
  else pack ⟨x.sign, BitVec.ofInt 15 (x.exp.toNat - L.bias + expBias), mantissa x.frac⟩

/-- `should_round_up`. -/
def shouldRoundUp (sign lsb guard sticky : Bool) (mode : Mode) : Bool :=
  if mode = .nearest then guard && (sticky || lsb)
  else if mode = .towardNegative then sign && (guard || sticky)
  else if mode = .towardPositive then !sign && (guard || sticky)
  else false

/-- `sig_round`: the mantissa shifted right and rounded. -/
def sigRound (sign : Bool) (mode : Mode) (mant : BitVec 64) (shift : ℕ) : ℕ :=
  let sigBase := (mant >>> shift).toNat
  sigBase + (shouldRoundUp sign (sigBase % 2 == 1) (mant.getLsbD (shift - 1))
    (mant.extractLsb' 0 (shift - 1) != 0) mode).toNat

/-- An infinity or the largest finite value, by the direction of rounding. -/
def overflowed (L : Layout) (sign : Bool) (mode : Mode) : Fields L :=
  if mode = .nearest ∨ mode = .towardNegative ∧ sign = true ∨
      mode = .towardPositive ∧ sign = false then
    ⟨sign, BitVec.allOnes L.expWidth, 0⟩
  else ⟨sign, BitVec.allOnes L.expWidth - 1, BitVec.allOnes L.fracWidth⟩

/-- The branch of normal results. -/
def narrowNormal (L : Layout) (sign : Bool) (mode : Mode) (mant : BitVec 64) (exp : ℤ) : Fields L :=
  let sig := sigRound sign mode mant (63 - L.fracWidth)
  let s := if 2 ^ (L.fracWidth + 1) ≤ sig then (sig / 2, exp + 1) else (sig, exp)
  if 2 ^ L.expWidth - 1 ≤ s.2 then overflowed L sign mode
  else ⟨sign, BitVec.ofInt L.expWidth s.2, BitVec.ofNat L.fracWidth s.1⟩

/-- Gradual underflow. -/
def narrowSubnormal (L : Layout) (sign : Bool) (mode : Mode) (mant : BitVec 64) (exp : ℤ) : Fields L :=
  let sig := sigRound sign mode mant (63 - L.fracWidth + (1 - exp).toNat)
  if sig.testBit L.fracWidth then ⟨sign, 1, 0⟩ else ⟨sign, 0, BitVec.ofNat L.fracWidth sig⟩

/-- `fp80_to_single`, `fp80_to_double`. -/
def narrow (L : Layout) (v : Fp80) (mode : Mode) : Fields L :=
  let u := unpack v
  if u.exp = 0 then
    ⟨u.sign, 0, if u.mant ≠ 0 ∧ (mode = .towardPositive ∧ u.sign = false ∨
      mode = .towardNegative ∧ u.sign = true) then 1 else 0⟩
  else if u.exp = expAllOnes then
    if u.mant.extractLsb' 0 63 = 0 then ⟨u.sign, BitVec.allOnes L.expWidth, 0⟩
    else
      let frac := u.mant.extractLsb' (63 - L.fracWidth) L.fracWidth
      ⟨u.sign, BitVec.allOnes L.expWidth, if frac = 0 then 1#L.fracWidth <<< (L.fracWidth - 1) else frac⟩
  else
    let exp : ℤ := u.exp.toNat - expBias + L.bias
    if 0 < exp then narrowNormal L u.sign mode u.mant exp else narrowSubnormal L u.sign mode u.mant exp

namespace Fields

variable (x : Fields L)

def toBits : BitVec (1 + L.expWidth + L.fracWidth) := BitVec.ofBool x.sign ++ x.exp ++ x.frac

def ofBits (b : BitVec (1 + L.expWidth + L.fracWidth)) : Fields L :=
  ⟨b.getLsbD (L.expWidth + L.fracWidth), b.extractLsb' L.fracWidth L.expWidth,
    b.extractLsb' 0 L.fracWidth⟩

noncomputable def value : ℝ :=
  if x.exp = 0 then ofSignificand x.sign x.frac.toNat (1 - L.bias - L.fracWidth)
  else ofSignificand x.sign (2 ^ L.fracWidth + x.frac.toNat) (x.exp.toNat - L.bias - L.fracWidth)

end Fields

def fp80FromSingle (bits : BitVec 32) : Fp80 := widen (L := .single) (.ofBits bits)

def fp80FromDouble (bits : BitVec 64) : Fp80 := widen (L := .double) (.ofBits bits)

def fp80ToSingle (value : Fp80) (mode : Mode) : BitVec 32 := (narrow .single value mode).toBits

def fp80ToDouble (value : Fp80) (mode : Mode) : BitVec 64 := (narrow .double value mode).toBits

/-! ### Rounding -/

/-- Guard bit and sticky bit round as the exact value is rounded. -/
theorem sigRound_eq (sign : Bool) (mode : Mode) (mant : BitVec 64) {shift : ℕ} (hs : 1 ≤ shift) :
    sigRound sign mode mant shift = significand mode sign shift mant.toNat := by
  obtain ⟨k, rfl⟩ : ∃ k, shift = k + 1 := ⟨shift - 1, by omega⟩
  have hsplit := Nat.mod_pow_succ (x := mant.toNat) (b := 2) (k := k)
  have hlow : mant.toNat % 2 ^ k < 2 ^ k := Nat.mod_lt _ (by positivity)
  have hpow : 2 ^ (k + 1) = 2 * 2 ^ k := pow_succ' 2 k
  have hbase : (mant >>> (k + 1)).toNat = mant.toNat / 2 ^ (k + 1) := by
    rw [BitVec.toNat_ushiftRight, Nat.shiftRight_eq_div_pow]
  rw [sigRound, significand, hbase]
  congr 2
  rw [hpow] at hsplit
  simp only [Nat.add_sub_cancel, getLsbD_toNat, extractLsb'_ne_zero, shouldRoundUp, increment, hpow, hsplit]
  generalize mant.toNat % 2 ^ k = low at hlow
  generalize mant.toNat / (2 * 2 ^ k) = base
  generalize 2 ^ k = half at *
  rcases Nat.mod_two_eq_zero_or_one (mant.toNat / half) with hg | hg <;> rw [hg, Bool.eq_iff_iff] <;>
    cases mode <;> cases sign <;> simp <;> omega

theorem two_pow_mul_zpow (n : ℕ) (e : ℤ) : (2 : ℝ) ^ n * 2 ^ e = 2 ^ (n + e) := by
  rw [← zpow_natCast, ← zpow_add₀ two_ne_zero]

theorem decide_signed_neg (sign : Bool) {x : ℝ} (hx : 0 < x) : decide (signed sign x < 0) = sign := by
  cases sign with
  | false => exact decide_eq_false hx.not_gt
  | true => exact decide_eq_true (neg_lt_zero.mpr hx)

/-- A value stored in a format. Where it is too large it is the infinity of its sign, if that is nearest
or away from zero in the direction of rounding, and else the largest finite value of its sign. -/
structure Stored (mode : Mode) (r : ℝ) (x : Fields L) : Prop where
  finite : |r| < 2 ^ (L.bias + 1) → x.exp ≠ BitVec.allOnes L.expWidth ∧ x.value = r
  infinite : 2 ^ (L.bias + 1) ≤ |r| →
    mode = .nearest ∨ mode = .towardNegative ∧ r < 0 ∨ mode = .towardPositive ∧ 0 < r →
    x = ⟨decide (r < 0), BitVec.allOnes L.expWidth, 0⟩
  largest : 2 ^ (L.bias + 1) ≤ |r| →
    mode = .towardZero ∨ mode = .towardNegative ∧ 0 < r ∨ mode = .towardPositive ∧ r < 0 →
    x.exp ≠ BitVec.allOnes L.expWidth ∧
      x.value = signed (decide (r < 0)) ((2 ^ (L.fracWidth + 1) - 1) * 2 ^ (L.bias - L.fracWidth))

theorem toNat_allOnes_exp : ((BitVec.allOnes L.expWidth).toNat : ℤ) = 2 * L.bias + 1 := by
  cases L <;> decide

theorem exp_lt {exp : BitVec L.expWidth} (h : exp ≠ BitVec.allOnes L.expWidth) :
    (exp.toNat : ℤ) < 2 * L.bias + 1 := by
  have hle : exp.toNat < 2 ^ L.expWidth := exp.isLt
  have hle' : (exp.toNat : ℤ) < 2 ^ L.expWidth := by exact_mod_cast hle
  have hne : (exp.toNat : ℤ) ≠ 2 * L.bias + 1 := fun hc => h <| BitVec.eq_of_toNat_eq <| by
    exact_mod_cast hc.trans toNat_allOnes_exp.symm
  have := L.two_pow_expWidth
  omega

/-- Fields with an exponent between zero and all ones. -/
theorem value_normal (sign : Bool) {m : ℕ} {e : ℤ} (h0 : 0 < e) (h1 : e < 2 * L.bias + 1)
    (hm : 2 ^ L.fracWidth ≤ m) (hm' : m < 2 ^ (L.fracWidth + 1)) :
    BitVec.ofInt L.expWidth e ≠ BitVec.allOnes L.expWidth ∧
      (⟨sign, BitVec.ofInt L.expWidth e, BitVec.ofNat L.fracWidth m⟩ : Fields L).value =
        signed sign (m * (2 : ℝ) ^ (e - L.bias - L.fracWidth)) := by
  have hexp : ((BitVec.ofInt L.expWidth e).toNat : ℤ) = e := by
    have := L.two_pow_expWidth
    rw [BitVec.toNat_ofInt]
    push_cast
    rw [Int.emod_eq_of_lt h0.le (by omega)]
    omega
  have hne : BitVec.ofInt L.expWidth e ≠ 0 := fun hc => by
    rw [hc] at hexp
    simp at hexp
    omega
  have hfrac : 2 ^ L.fracWidth + (BitVec.ofNat L.fracWidth m).toNat = m := by
    rw [pow_succ] at hm'
    rw [BitVec.toNat_ofNat, Nat.mod_eq_sub_mod hm, Nat.mod_eq_of_lt (by omega)]
    omega
  refine ⟨fun hc => ?_, ?_⟩
  · rw [hc, toNat_allOnes_exp] at hexp
    omega
  · rw [Fields.value, if_neg hne, ofSignificand, hfrac, hexp]

theorem value_subnormal (sign : Bool) (frac : BitVec L.fracWidth) :
    (⟨sign, 0, frac⟩ : Fields L).value =
      signed sign (frac.toNat * (2 : ℝ) ^ (1 - L.bias - L.fracWidth)) := by
  rw [Fields.value, if_pos rfl, ofSignificand]

/-- A significand with its leading one in place, in the binade of its exponent. -/
theorem significand_bounds {m : ℕ} (e : ℤ) (hm : 2 ^ L.fracWidth ≤ m)
    (hm' : m < 2 ^ (L.fracWidth + 1)) :
    (2 : ℝ) ^ (e - L.bias) ≤ m * (2 : ℝ) ^ (e - L.bias - L.fracWidth) ∧
      m * (2 : ℝ) ^ (e - L.bias - L.fracWidth) < 2 ^ (e - L.bias + 1) := by
  have hE : (0 : ℝ) < 2 ^ (e - L.bias - L.fracWidth) := by positivity
  have hlo : ((2 ^ L.fracWidth : ℕ) : ℝ) ≤ m := by exact_mod_cast hm
  have hhi : (m : ℝ) < (2 ^ (L.fracWidth + 1) : ℕ) := by exact_mod_cast hm'
  constructor
  · calc (2 : ℝ) ^ (e - L.bias) = (2 ^ L.fracWidth : ℕ) * 2 ^ (e - L.bias - L.fracWidth) := by
          push_cast
          rw [two_pow_mul_zpow]
          congr 1
          ring
      _ ≤ m * 2 ^ (e - L.bias - L.fracWidth) := by gcongr
  · calc m * (2 : ℝ) ^ (e - L.bias - L.fracWidth)
          < (2 ^ (L.fracWidth + 1) : ℕ) * 2 ^ (e - L.bias - L.fracWidth) := by gcongr
      _ = 2 ^ (e - L.bias + 1) := by
          push_cast
          rw [two_pow_mul_zpow]
          congr 1
          push_cast
          ring

/-- The significand and the exponent behind the carry. -/
theorem carry_cases {sig : ℕ} (hge : 2 ^ L.fracWidth ≤ sig) (hle : sig ≤ 2 ^ (L.fracWidth + 1))
    (exp : ℤ) :
    ∃ (m : ℕ) (e : ℤ),
      (if 2 ^ (L.fracWidth + 1) ≤ sig then (sig / 2, exp + 1) else (sig, exp)) = (m, e) ∧
      2 ^ L.fracWidth ≤ m ∧ m < 2 ^ (L.fracWidth + 1) ∧ exp ≤ e ∧
      (sig : ℝ) * 2 ^ (exp - L.bias - L.fracWidth) = m * 2 ^ (e - L.bias - L.fracWidth) := by
  have hpow : 2 ^ (L.fracWidth + 1) = 2 ^ L.fracWidth * 2 := pow_succ ..
  split_ifs with hc
  · have hsig : sig = 2 ^ L.fracWidth * 2 := le_antisymm (hle.trans_eq hpow) (hpow.symm.trans_le hc)
    have hhalf : sig / 2 = 2 ^ L.fracWidth := by rw [hsig, Nat.mul_div_cancel _ two_pos]
    refine ⟨sig / 2, exp + 1, rfl, hhalf.ge, ?_, by omega, ?_⟩
    · rw [hhalf]
      exact Nat.pow_lt_pow_succ one_lt_two
    · rw [hhalf, hsig, show exp + 1 - L.bias - L.fracWidth = exp - L.bias - L.fracWidth + 1 by ring,
        zpow_add_one₀ two_ne_zero]
      push_cast
      ring
  · exact ⟨_, _, rfl, hge, not_le.mp hc, le_rfl, rfl⟩

/-- The fields of the largest finite value. -/
theorem value_largest (sign : Bool) : BitVec.allOnes L.expWidth - 1 ≠ BitVec.allOnes L.expWidth ∧
    (⟨sign, BitVec.allOnes L.expWidth - 1, BitVec.allOnes L.fracWidth⟩ : Fields L).value =
      signed sign ((2 ^ (L.fracWidth + 1) - 1) * (2 : ℝ) ^ (L.bias - L.fracWidth)) := by
  have hb := L.bias_bounds
  have hpow : 2 ^ (L.fracWidth + 1) = 2 * 2 ^ L.fracWidth := pow_succ' 2 _
  have hpos := Nat.two_pow_pos L.fracWidth
  have h := value_normal (L := L) sign (m := 2 ^ (L.fracWidth + 1) - 1) (e := 2 * L.bias) (by omega)
    (by omega) (by omega) (by omega)
  have hexp : BitVec.ofInt L.expWidth (2 * L.bias) = BitVec.allOnes L.expWidth - 1 := by
    cases L <;> decide
  have hfrac : BitVec.ofNat L.fracWidth (2 ^ (L.fracWidth + 1) - 1) = BitVec.allOnes L.fracWidth := by
    cases L <;> decide
  rw [hexp, hfrac, show 2 * L.bias - L.bias - L.fracWidth = L.bias - L.fracWidth by ring,
    Nat.cast_sub Nat.one_le_two_pow] at h
  push_cast at h
  exact h

/-- What a value that is too large becomes. -/
theorem Stored.of_overflow {sign : Bool} (mode : Mode) {y : ℝ} (hy : 2 ^ (L.bias + 1) ≤ y) :
    Stored mode (signed sign y) (overflowed L sign mode) := by
  have hpos : 0 < y := (zpow_pos two_pos _).trans_le hy
  have hneg : signed sign y < 0 ↔ sign = true := by
    cases sign <;> simp [signed, hpos, hpos.le]
  have hpos' : 0 < signed sign y ↔ sign = false := by
    cases sign <;> simp [signed, hpos, hpos.le]
  refine ⟨fun h => ?_, fun _ h => ?_, fun _ h => ?_⟩
  · rw [abs_signed, abs_of_pos hpos] at h
    exact absurd h hy.not_gt
  · rw [hneg, hpos'] at h
    rw [overflowed, if_pos h, decide_signed_neg sign hpos]
  · rw [hneg, hpos'] at h
    rw [decide_signed_neg sign hpos, overflowed, if_neg (by cases mode <;> cases sign <;> simp_all)]
    exact value_largest sign

/-- A significand with its leading one in place, before the carry. -/
theorem Stored.normal (sign : Bool) (mode : Mode) {sig : ℕ} {exp : ℤ} (h0 : 0 < exp)
    (hge : 2 ^ L.fracWidth ≤ sig) (hle : sig ≤ 2 ^ (L.fracWidth + 1)) :
    let s := if 2 ^ (L.fracWidth + 1) ≤ sig then (sig / 2, exp + 1) else (sig, exp)
    Stored mode (signed sign (sig * (2 : ℝ) ^ (exp - L.bias - L.fracWidth)))
      (if 2 ^ L.expWidth - 1 ≤ s.2 then overflowed L sign mode
        else ⟨sign, BitVec.ofInt L.expWidth s.2, BitVec.ofNat L.fracWidth s.1⟩) := by
  obtain ⟨m, e, hs, hm, hm', he, hval⟩ := carry_cases hge hle exp
  rw [hs, hval]
  obtain ⟨hlo, hhi⟩ := significand_bounds e hm hm'
  have hpos : (0 : ℝ) < m * 2 ^ (e - L.bias - L.fracWidth) := lt_of_lt_of_le (by positivity) hlo
  have habs : |signed sign (m * (2 : ℝ) ^ (e - L.bias - L.fracWidth))| =
      m * 2 ^ (e - L.bias - L.fracWidth) := by
    rw [abs_signed, abs_of_pos hpos]
  have hwidth := L.two_pow_expWidth
  change Stored mode _ (if (2 : ℤ) ^ L.expWidth - 1 ≤ e then _ else _)
  rcases lt_or_ge (m * (2 : ℝ) ^ (e - L.bias - L.fracWidth)) (2 ^ (L.bias + 1)) with h | h
  · have he' : e - L.bias < L.bias + 1 := (zpow_lt_zpow_iff_right₀ one_lt_two).mp (hlo.trans_lt h)
    rw [if_neg (by omega)]
    have hbig : ¬ (2 : ℝ) ^ (L.bias + 1) ≤ |signed sign (m * (2 : ℝ) ^ (e - L.bias - L.fracWidth))| := by
      rw [habs]
      exact h.not_ge
    exact ⟨fun _ => value_normal sign (h0.trans_le he) (by omega) hm hm', fun hc => absurd hc hbig,
      fun hc => absurd hc hbig⟩
  · have he' : L.bias + 1 < e - L.bias + 1 := (zpow_lt_zpow_iff_right₀ one_lt_two).mp (h.trans_lt hhi)
    rw [if_pos (by omega)]
    exact .of_overflow mode h

/-- Rounding a mantissa with its leading one in place. -/
theorem normal_rounds {N : ℕ} (htop : 2 ^ 63 ≤ N) (hN : N < 2 ^ 64) {exp : ℤ} (h0 : 0 < exp)
    (sign : Bool) (mode : Mode) :
    2 ^ L.fracWidth ≤ significand mode sign (63 - L.fracWidth) N ∧
      significand mode sign (63 - L.fracWidth) N ≤ 2 ^ (L.fracWidth + 1) ∧
      RoundsTo L.format mode (signed sign (N * (2 : ℝ) ^ (exp - L.bias - 63)))
        (signed sign (significand mode sign (63 - L.fracWidth) N *
          (2 : ℝ) ^ (exp - L.bias - L.fracWidth))) := by
  obtain ⟨hf2, hf⟩ := L.fracWidth_bounds
  obtain ⟨k, hk⟩ : ∃ k, 63 - L.fracWidth = k + 1 := ⟨62 - L.fracWidth, by omega⟩
  rw [hk]
  have hdiv : 2 ^ L.fracWidth ≤ N / 2 ^ (k + 1) := by
    rwa [Nat.le_div_iff_mul_le (by positivity), ← pow_add, show L.fracWidth + (k + 1) = 63 by omega]
  have hlt : N < 2 ^ (L.fracWidth + 1) * 2 ^ (k + 1) := by
    rwa [← pow_add, show L.fracWidth + 1 + (k + 1) = 64 by omega]
  have he : exp - L.bias - 63 + (k + 1) = exp - L.bias - L.fracWidth := by omega
  have hscaled : L.format.Scaled (N / 2 ^ (k + 1)) (exp - L.bias - 63 + (k + 1)) := by
    rw [he]
    refine ⟨(Nat.div_lt_iff_lt_mul (by positivity)).mpr hlt, WithBot.coe_le_coe.mpr (by omega), .inl ?_⟩
    change 2 ^ (L.fracWidth + 1) ≤ _
    rw [pow_succ']
    exact Nat.mul_le_mul_left 2 hdiv
  refine ⟨hdiv.trans (Nat.le_add_right ..), significand_le mode sign hlt, ?_⟩
  rw [← he]
  exact .of_agrees (.of_eq rfl _) hscaled mode sign

/-- A normal result. -/
theorem narrowNormal_rounds {mant : BitVec 64} (htop : 2 ^ 63 ≤ mant.toNat) {exp : ℤ} (h0 : 0 < exp)
    (sign : Bool) (mode : Mode) :
    ∃ r, RoundsTo L.format mode (signed sign (mant.toNat * (2 : ℝ) ^ (exp - L.bias - 63))) r ∧
      Stored mode r (narrowNormal L sign mode mant exp) := by
  obtain ⟨hf2, hf⟩ := L.fracWidth_bounds
  obtain ⟨hge, hle, hround⟩ := normal_rounds (L := L) htop mant.isLt h0 sign mode
  refine ⟨_, hround, ?_⟩
  rw [narrowNormal, sigRound_eq _ _ _ (by omega)]
  exact .normal sign mode h0 hge hle

/-- A significand no longer than the least exponent leaves room for, carry included. -/
theorem Stored.gradual (sign : Bool) (mode : Mode) {m : ℕ} (hm : m ≤ 2 ^ L.fracWidth) :
    Stored mode (signed sign (m * (2 : ℝ) ^ (1 - L.bias - L.fracWidth)))
      (if m.testBit L.fracWidth then ⟨sign, 1, 0⟩
        else ⟨sign, 0, BitVec.ofNat L.fracWidth m⟩ : Fields L) := by
  have hb := L.bias_bounds
  have hlt : |signed sign (m * (2 : ℝ) ^ (1 - L.bias - L.fracWidth))| < 2 ^ (L.bias + 1) := by
    have hm' : (m : ℝ) ≤ 2 ^ L.fracWidth := by exact_mod_cast hm
    rw [abs_signed, abs_of_nonneg (by positivity)]
    calc (m : ℝ) * 2 ^ (1 - L.bias - L.fracWidth)
        ≤ 2 ^ L.fracWidth * 2 ^ (1 - L.bias - L.fracWidth) := by gcongr
      _ = 2 ^ (1 - L.bias) := by
          rw [two_pow_mul_zpow]
          congr 1
          ring
      _ < 2 ^ (L.bias + 1) := zpow_lt_zpow_right₀ one_lt_two (by omega)
  refine ⟨fun _ => ?_, fun h => absurd h hlt.not_ge, fun h => absurd h hlt.not_ge⟩
  rw [Nat.testBit_eq_decide_div_mod_eq]
  by_cases hc : m = 2 ^ L.fracWidth
  · rw [hc, Nat.div_self (by positivity)]
    have h1 := value_normal (L := L) sign one_pos (by omega) le_rfl (Nat.pow_lt_pow_succ one_lt_two)
    have hfrac : BitVec.ofNat L.fracWidth (2 ^ L.fracWidth) = 0 := by
      apply BitVec.eq_of_toNat_eq
      rw [BitVec.toNat_ofNat, Nat.mod_self]
      rfl
    have hexp : BitVec.ofInt L.expWidth 1 = 1 := by cases L <;> decide
    rw [hfrac, hexp] at h1
    exact h1
  · have hlt' : m < 2 ^ L.fracWidth := lt_of_le_of_ne hm hc
    have hne : (0 : BitVec L.expWidth) ≠ BitVec.allOnes L.expWidth := by cases L <;> decide
    rw [Nat.div_eq_of_lt hlt']
    refine ⟨hne, ?_⟩
    rw [if_neg (by decide), value_subnormal, BitVec.toNat_ofNat, Nat.mod_eq_of_lt hlt']

/-- Rounding at the least exponent. -/
theorem gradual_rounds {N k : ℕ} {e : ℤ} (hN : N < 2 ^ L.fracWidth * 2 ^ (k + 1))
    (he : e + (k + 1) = 1 - L.bias - L.fracWidth) (sign : Bool) (mode : Mode) :
    RoundsTo L.format mode (signed sign (N * (2 : ℝ) ^ e))
      (signed sign (significand mode sign (k + 1) N * (2 : ℝ) ^ (1 - L.bias - L.fracWidth))) := by
  have hscaled : L.format.Scaled (N / 2 ^ (k + 1)) (e + (k + 1)) := by
    have hlt : N / 2 ^ (k + 1) < 2 ^ L.fracWidth := (Nat.div_lt_iff_lt_mul (by positivity)).mpr hN
    exact ⟨hlt.trans (Nat.pow_lt_pow_succ one_lt_two), by rw [he]; rfl, .inr (by rw [he]; rfl)⟩
  rw [← he]
  exact .of_agrees (.of_eq rfl _) hscaled mode sign

/-- A subnormal result. -/
theorem narrowSubnormal_rounds {mant : BitVec 64} {exp : ℤ} (h0 : exp ≤ 0) (sign : Bool) (mode : Mode) :
    ∃ r, RoundsTo L.format mode (signed sign (mant.toNat * (2 : ℝ) ^ (exp - L.bias - 63))) r ∧
      Stored mode r (narrowSubnormal L sign mode mant exp) := by
  obtain ⟨hf2, hf⟩ := L.fracWidth_bounds
  obtain ⟨k, hk⟩ : ∃ k, 63 - L.fracWidth + (1 - exp).toNat = k + 1 :=
    ⟨63 - L.fracWidth + (1 - exp).toNat - 1, by omega⟩
  have hN : mant.toNat < 2 ^ L.fracWidth * 2 ^ (k + 1) := by
    rw [← pow_add]
    exact mant.isLt.trans_le (Nat.pow_le_pow_right two_pos (by omega))
  refine ⟨_, gradual_rounds hN (by omega) sign mode, ?_⟩
  rw [narrowSubnormal, hk, sigRound_eq _ _ _ k.succ_pos]
  exact .gradual sign mode (significand_le mode sign hN)

/-- What is written is the correctly rounded value. -/
theorem narrow_rounds {v : Fp80} (hv : IsNumber v) (mode : Mode) :
    ∃ r, RoundsTo L.format mode (value v) r ∧ Stored mode r (narrow L v mode) := by
  obtain ⟨hf2, hf⟩ := L.fracWidth_bounds
  have hb := L.bias_bounds
  have hmant0 : (unpack v).mant.toNat ≠ 0 := fun hc => hv.nonzero (BitVec.eq_of_toNat_eq hc)
  have hlt := (unpack v).mant.isLt
  rw [value, ofSignificand, exponent, mantBias]
  simp only [narrow]
  by_cases hz : (unpack v).exp = 0
  · obtain ⟨k, hk⟩ : ∃ k : ℕ, 1 - (expBias + 63) + (k + 1) = 1 - L.bias - L.fracWidth :=
      ⟨(expBias + 62 - L.bias - L.fracWidth).toNat, by rw [expBias]; omega⟩
    have hk65 : 65 ≤ k + 1 := by
      rw [expBias] at hk
      omega
    have htiny : 2 * (unpack v).mant.toNat < 2 ^ (k + 1) :=
      lt_of_lt_of_le (by omega) (Nat.pow_le_pow_right two_pos hk65)
    have hN : (unpack v).mant.toNat < 2 ^ L.fracWidth * 2 ^ (k + 1) := by
      have := Nat.le_mul_of_pos_left (2 ^ (k + 1)) (Nat.two_pow_pos L.fracWidth)
      omega
    rw [if_pos hz, if_pos hz]
    refine ⟨_, gradual_rounds hN hk (unpack v).sign mode, ?_⟩
    have hstored := Stored.gradual (L := L) (unpack v).sign mode (significand_le mode (unpack v).sign hN)
    -- Nothing but the direction can lift it to the least subnormal, whose fraction is 1.
    have hbit : Nat.testBit 1 L.fracWidth = false := by cases L <;> rfl
    have hne : (unpack v).mant ≠ 0 := hv.nonzero
    rw [significand_tiny hmant0 htiny] at hstored ⊢
    simp only [ne_eq, hne, not_false_eq_true, true_and]
    by_cases hdir : mode = .towardPositive ∧ (unpack v).sign = false ∨
        mode = .towardNegative ∧ (unpack v).sign = true
    · rw [if_pos hdir, if_neg (by rw [hbit]; decide)] at hstored
      rwa [if_pos hdir, if_pos hdir]
    · rw [if_neg hdir, if_neg (by rw [Nat.zero_testBit]; decide)] at hstored
      rwa [if_neg hdir, if_neg hdir]
  · have htop := hv.top hz
    rw [if_neg hz, if_neg hz, if_neg hv.finite,
      show ((unpack v).exp.toNat : ℤ) - (expBias + 63) =
        (unpack v).exp.toNat - expBias + L.bias - L.bias - 63 by ring]
    split_ifs with hpos
    · exact narrowNormal_rounds htop hpos _ mode
    · exact narrowSubnormal_rounds (not_lt.mp hpos) _ mode

/-- The least normal double and one of the largest, written as singles. -/
theorem narrow_rounds_ends : (∃ r, RoundsTo Layout.single.format .towardPositive
      (value (fp80FromDouble 0x0010000000000000)) r ∧
      Stored .towardPositive r (narrow .single (fp80FromDouble 0x0010000000000000) .towardPositive)) ∧
    (narrow .single (fp80FromDouble 0x7FE0000000000000) .towardZero).value = (2 ^ 24 - 1) * 2 ^ (104 : ℤ) := by
  refine ⟨narrow_rounds ⟨by decide, by decide, fun _ => by decide⟩ .towardPositive, ?_⟩
  obtain ⟨r, hround, hstored⟩ := narrow_rounds (L := .single) (v := fp80FromDouble 0x7FE0000000000000)
    ⟨by decide, by decide, fun _ => by decide⟩ .towardZero
  have hu : unpack (fp80FromDouble 0x7FE0000000000000) = ⟨false, 17406, 0x8000000000000000⟩ := by decide
  have hv : value (fp80FromDouble 0x7FE0000000000000) = 2 ^ (1023 : ℤ) := by
    have hmant : (0x8000000000000000 : BitVec 64).toNat = 2 ^ 63 := rfl
    have hexp : (17406 : BitVec 15).toNat = 17406 := rfl
    rw [value, ofSignificand, exponent, hu, if_neg (by decide), hmant, hexp, mantBias, expBias]
    simp only [signed, Bool.false_eq_true, ↓reduceIte, Nat.cast_pow, Nat.cast_ofNat]
    rw [two_pow_mul_zpow]
    norm_num
  have hrep : Layout.single.format.Representable ((2 : ℝ) ^ (128 : ℤ)) :=
    ⟨1, 128, by decide, WithBot.coe_le_coe.mpr (by decide), by norm_num⟩
  have hle : (2 : ℝ) ^ (128 : ℤ) ≤ r :=
    hround.le_of_le hrep (by rw [hv]; exact zpow_le_zpow_right₀ one_le_two (by decide))
  have hpos : 0 < r := (by positivity : (0 : ℝ) < 2 ^ (128 : ℤ)).trans_le hle
  have hbig : (2 : ℝ) ^ (Layout.single.bias + 1) ≤ |r| := by
    rw [abs_of_pos hpos]
    exact hle
  rw [(hstored.largest hbig (.inl rfl)).2, decide_eq_false hpos.not_gt]
  rfl

/-- A NaN stays one when the bits of its payload that are set are cut off. -/
theorem narrow_nan {v : Fp80} (he : (unpack v).exp = expAllOnes) (hf : (unpack v).mant.extractLsb' 0 63 ≠ 0)
    (mode : Mode) :
    (narrow L v mode).exp = BitVec.allOnes L.expWidth ∧ (narrow L v mode).frac ≠ 0 := by
  have hquiet : 1#L.fracWidth <<< (L.fracWidth - 1) ≠ 0 := by cases L <;> decide
  simp only [narrow]
  rw [if_neg (by rw [he]; decide), if_pos he, if_neg hf]
  refine ⟨rfl, ?_⟩
  change (if _ then _ else _) ≠ _
  split_ifs with hz
  · exact hquiet
  · exact hz

/-! ### Reading and writing back -/

theorem toNat_mantissa (frac : BitVec L.fracWidth) :
    (mantissa frac).toNat = (2 ^ L.fracWidth + frac.toNat) * 2 ^ (63 - L.fracWidth) := by
  obtain ⟨hf2, hf⟩ := L.fracWidth_bounds
  have h63 : 2 ^ L.fracWidth * 2 ^ (63 - L.fracWidth) = 2 ^ 63 := by
    rw [← pow_add, show L.fracWidth + (63 - L.fracWidth) = 63 by omega]
  have hlt : frac.toNat * 2 ^ (63 - L.fracWidth) < 2 ^ 63 := by
    rw [← h63]
    exact Nat.mul_lt_mul_of_pos_right frac.isLt (Nat.two_pow_pos _)
  have hwide : frac.toNat < 2 ^ 64 := frac.isLt.trans_le (Nat.pow_le_pow_right two_pos (by omega))
  have hshift : (frac.setWidth 64 <<< (63 - L.fracWidth)).toNat = frac.toNat * 2 ^ (63 - L.fracWidth) := by
    rw [BitVec.toNat_shiftLeft, BitVec.toNat_setWidth, Nat.mod_eq_of_lt hwide, Nat.shiftLeft_eq,
      Nat.mod_eq_of_lt (hlt.trans (by decide))]
  have hor := Nat.two_pow_add_eq_or_of_lt hlt 1
  rw [mul_one] at hor
  rw [mantissa, BitVec.toNat_or, hshift, show (1#64 <<< 63).toNat = 2 ^ 63 from rfl, ← hor, add_mul, h63]

/-- Nothing is rounded off a significand that was shifted in. -/
theorem sigRound_exact (sign : Bool) (mode : Mode) {mant : BitVec 64} {m shift : ℕ} (hs : 1 ≤ shift)
    (hm : mant.toNat = m * 2 ^ shift) : sigRound sign mode mant shift = m := by
  rw [sigRound_eq _ _ _ hs, hm, significand_of_mod_eq_zero (Nat.mul_mod_left ..),
    Nat.mul_div_cancel _ (Nat.two_pow_pos _)]

/-- The leading one of a subnormal fraction moved to the integer bit. -/
theorem toNat_mantissa_shifted (frac : BitVec L.fracWidth) (h0 : frac.toNat ≠ 0) :
    ∃ lz < L.fracWidth, L.fracWidth - 1 - Div.highestOne frac L.fracWidth = lz ∧
      (mantissa (frac <<< lz <<< 1)).toNat = frac.toNat * 2 ^ (64 - L.fracWidth + lz) := by
  obtain ⟨hf2, hf⟩ := L.fracWidth_bounds
  obtain ⟨hlo, hhi⟩ := Div.highestOne_spec h0 frac.isLt
  have hlead : Div.highestOne frac L.fracWidth < L.fracWidth :=
    (Nat.pow_lt_pow_iff_right one_lt_two).mp (hlo.trans_lt frac.isLt)
  obtain ⟨lz, hlz⟩ : ∃ lz, Div.highestOne frac L.fracWidth + (lz + 1) = L.fracWidth :=
    ⟨L.fracWidth - 1 - Div.highestOne frac L.fracWidth, by omega⟩
  have hpow : 2 ^ Div.highestOne frac L.fracWidth * 2 ^ (lz + 1) = 2 ^ L.fracWidth := by rw [← pow_add, hlz]
  have hge : 2 ^ L.fracWidth ≤ frac.toNat * 2 ^ (lz + 1) := by
    rw [← hpow]
    exact Nat.mul_le_mul_right _ hlo
  have hlt : frac.toNat * 2 ^ (lz + 1) < 2 ^ L.fracWidth * 2 := by
    rw [← hpow, mul_right_comm, ← pow_succ]
    exact Nat.mul_lt_mul_of_pos_right hhi (Nat.two_pow_pos _)
  refine ⟨lz, by omega, by omega, ?_⟩
  have hshift : (frac <<< lz <<< 1).toNat = frac.toNat * 2 ^ (lz + 1) - 2 ^ L.fracWidth := by
    rw [← BitVec.shiftLeft_add, BitVec.toNat_shiftLeft, Nat.shiftLeft_eq, Nat.mod_eq_sub_mod hge,
      Nat.mod_eq_of_lt (by omega)]
  rw [toNat_mantissa, hshift, Nat.add_sub_cancel' hge, mul_assoc, ← pow_add]
  congr 2
  omega

theorem narrow_pack (sign : Bool) (mant : BitVec 64) {exp : ℤ} (h0 : 0 < exp) (h1 : exp < 32767)
    (mode : Mode) :
    narrow L (pack ⟨sign, BitVec.ofInt 15 exp, mant⟩) mode =
      if 0 < exp - expBias + L.bias then narrowNormal L sign mode mant (exp - expBias + L.bias)
      else narrowSubnormal L sign mode mant (exp - expBias + L.bias) := by
  have hexp := toNat_ofInt_exp h0 h1
  have hne : BitVec.ofInt 15 exp ≠ 0 := fun hc => by
    rw [hc] at hexp
    exact h0.ne hexp
  have hne' : BitVec.ofInt 15 exp ≠ expAllOnes := fun hc => by
    rw [hc, show expAllOnes.toNat = 32767 from rfl] at hexp
    exact h1.ne hexp.symm
  simp only [narrow, unpack_pack]
  rw [if_neg hne, if_neg hne', hexp]

theorem narrow_widen_subnormal (x : Fields L) (he : x.exp = 0) (hf : x.frac ≠ 0) (mode : Mode) :
    narrow L (widen x) mode = x := by
  obtain ⟨sign, exp, frac⟩ := x
  obtain rfl : exp = 0 := he
  obtain ⟨hw2, hw⟩ := L.fracWidth_bounds
  have hb := L.bias_bounds
  obtain ⟨lz, hlt, hlz, hmant⟩ := toNat_mantissa_shifted frac fun hc =>
    hf (BitVec.eq_of_toNat_eq hc)
  simp only [widen, ↓reduceIte]
  rw [if_neg hf, hlz, narrow_pack _ _ (by rw [expBias]; omega) (by rw [expBias]; omega), if_neg (by omega),
    narrowSubnormal, show 63 - L.fracWidth + (1 - (expBias - L.bias - lz - expBias + L.bias)).toNat =
      64 - L.fracWidth + lz by omega, sigRound_exact _ _ (by omega) hmant]
  rw [Nat.testBit_lt_two_pow frac.isLt, if_neg (by decide), BitVec.ofNat_toNat, BitVec.setWidth_eq]

theorem narrow_widen_normal (x : Fields L) (he : x.exp ≠ 0) (he' : x.exp ≠ BitVec.allOnes L.expWidth)
    (mode : Mode) : narrow L (widen x) mode = x := by
  obtain ⟨sign, exp, frac⟩ := x
  obtain ⟨hw2, hw⟩ := L.fracWidth_bounds
  have hb := L.bias_bounds
  have hpos : exp.toNat ≠ 0 := fun hc => he (BitVec.eq_of_toNat_eq hc)
  have hmax : (exp.toNat : ℤ) < 2 * L.bias + 1 := exp_lt he'
  have hpow : 2 ^ (L.fracWidth + 1) = 2 ^ L.fracWidth * 2 := pow_succ ..
  have hfrac := frac.isLt
  have hcarry : ¬ 2 ^ (L.fracWidth + 1) ≤ 2 ^ L.fracWidth + frac.toNat := by omega
  simp only [widen]
  rw [if_neg he, if_neg he', narrow_pack _ _ (by rw [expBias]; omega) (by rw [expBias]; omega),
    if_pos (by omega), narrowNormal, sigRound_exact _ _ (by omega) (toNat_mantissa frac)]
  simp only [if_neg hcarry]
  rw [if_neg (by rw [L.two_pow_expWidth]; omega),
    show (exp.toNat : ℤ) - L.bias + expBias - expBias + L.bias = exp.toNat by ring]
  congr 1
  · rw [BitVec.ofInt_natCast, BitVec.ofNat_toNat, BitVec.setWidth_eq]
  · apply BitVec.eq_of_toNat_eq
    rw [BitVec.toNat_ofNat, Nat.add_mod_left, Nat.mod_eq_of_lt hfrac]

/-- The payload of a NaN. -/
theorem extractLsb'_mantissa (frac : BitVec L.fracWidth) :
    (mantissa frac).extractLsb' (63 - L.fracWidth) L.fracWidth = frac := by
  apply BitVec.eq_of_toNat_eq
  rw [BitVec.extractLsb'_toNat, toNat_mantissa, Nat.shiftRight_eq_div_pow,
    Nat.mul_div_cancel _ (Nat.two_pow_pos _), Nat.add_mod_left, Nat.mod_eq_of_lt frac.isLt]

/-- `frac80` of a mantissa. -/
theorem extractLsb'_mantissa_eq_zero {frac : BitVec L.fracWidth} (h : (mantissa frac).extractLsb' 0 63 = 0) :
    frac = 0 := by
  obtain ⟨-, hf⟩ := L.fracWidth_bounds
  apply BitVec.eq_of_getLsbD_eq
  intro i hi
  have hbit : (mantissa frac).getLsbD (63 - L.fracWidth + i) = frac.getLsbD i := by
    have := congrArg (BitVec.getLsbD · i) (extractLsb'_mantissa frac)
    simpa [hi] using this
  have hzero : ((mantissa frac).extractLsb' 0 63).getLsbD (63 - L.fracWidth + i) = false := by rw [h]; simp
  rw [← hbit]
  refine Eq.trans ?_ BitVec.getLsbD_zero.symm
  simpa [show 63 - L.fracWidth + i < 63 by omega] using hzero

theorem narrow_widen_allOnes (x : Fields L) (he : x.exp = BitVec.allOnes L.expWidth) (mode : Mode) :
    narrow L (widen x) mode = x := by
  obtain ⟨sign, exp, frac⟩ := x
  obtain rfl : exp = BitVec.allOnes L.expWidth := he
  have hne : BitVec.allOnes L.expWidth ≠ 0 := by cases L <;> decide
  have hne' : expAllOnes ≠ 0 := by decide
  simp only [narrow, widen, if_neg hne, ↓reduceIte, unpack_pack, if_neg hne']
  by_cases hf : frac = 0
  · rw [if_neg (not_not.mpr hf), hf]
    exact if_pos (by decide)
  · rw [if_pos hf, if_neg fun hc => hf (extractLsb'_mantissa_eq_zero hc), extractLsb'_mantissa, if_neg hf]

theorem narrow_widen (x : Fields L) (mode : Mode) : narrow L (widen x) mode = x := by
  by_cases he : x.exp = 0
  · by_cases hf : x.frac = 0
    · obtain ⟨sign, exp, frac⟩ := x
      obtain rfl : exp = 0 := he
      obtain rfl : frac = 0 := hf
      simp [narrow, widen]
    · exact narrow_widen_subnormal x he hf mode
  by_cases he' : x.exp = BitVec.allOnes L.expWidth
  · exact narrow_widen_allOnes x he' mode
  · exact narrow_widen_normal x he he' mode

/-- Nothing is lost in reading. -/
theorem value_widen {x : Fields L} (hx : x.exp ≠ BitVec.allOnes L.expWidth) :
    value (widen x) = x.value := by
  obtain ⟨sign, exp, frac⟩ := x
  obtain ⟨hw2, hw⟩ := L.fracWidth_bounds
  have hb := L.bias_bounds
  by_cases he : exp = 0
  · obtain rfl : exp = 0 := he
    rw [value_subnormal]
    simp only [widen, ↓reduceIte]
    by_cases hf : frac = 0
    · rw [if_pos hf, hf, value_pack_subnormal]
      simp
    · obtain ⟨lz, hlt, hlz, hmant⟩ := toNat_mantissa_shifted frac fun hc =>
        hf (BitVec.eq_of_toNat_eq hc)
      rw [if_neg hf, hlz, value_pack_normal _ _ (by rw [expBias]; omega) (by rw [expBias]; omega), hmant,
        mantBias]
      push_cast
      rw [mul_assoc, two_pow_mul_zpow]
      congr 3
      push_cast
      omega
  · have hmax : (exp.toNat : ℤ) < 2 * L.bias + 1 := exp_lt hx
    have hpos : exp.toNat ≠ 0 := fun hc => he (BitVec.eq_of_toNat_eq hc)
    rw [Fields.value, if_neg he, ofSignificand]
    simp only [widen]
    rw [if_neg he, if_neg hx, value_pack_normal _ _ (by rw [expBias]; omega) (by rw [expBias]; omega),
      toNat_mantissa, mantBias]
    push_cast
    rw [mul_assoc, two_pow_mul_zpow]
    congr 3
    omega

namespace Fields

@[simp] theorem toBits_ofBits (b : BitVec (1 + L.expWidth + L.fracWidth)) : (ofBits b).toBits = b := by
  apply BitVec.eq_of_getLsbD_eq
  intro i hi
  rw [toBits, BitVec.getLsbD_append, BitVec.getLsbD_append]
  split_ifs with h1 h2
  · simp [ofBits, h1]
  · simp [ofBits, h2, show L.fracWidth + (i - L.fracWidth) = i by omega]
  · simp [ofBits, show i = L.expWidth + L.fracWidth by omega]

@[simp] theorem ofBits_toBits (x : Fields L) : ofBits x.toBits = x := by
  obtain ⟨sign, exp, frac⟩ := x
  simp only [ofBits, toBits, mk.injEq]
  refine ⟨?_, ?_, ?_⟩
  · rw [BitVec.getLsbD_append, BitVec.getLsbD_append]
    simp
  · apply BitVec.eq_of_getLsbD_eq
    intro i hi
    simp [BitVec.getLsbD_append, hi]
  · apply BitVec.eq_of_getLsbD_eq
    intro i hi
    simp [BitVec.getLsbD_append, hi]

end Fields

/-- Whatever is read from memory is written back as it was, the payload of a NaN included. -/
theorem reads_back (mode : Mode) :
    (∀ bits, fp80ToSingle (fp80FromSingle bits) mode = bits) ∧
      ∀ bits, fp80ToDouble (fp80FromDouble bits) mode = bits := by
  refine ⟨fun bits => ?_, fun bits => ?_⟩
  · have h := congrArg Fields.toBits (narrow_widen (L := .single) (.ofBits bits) mode)
    exact h.trans (Fields.toBits_ofBits (L := .single) bits)
  · have h := congrArg Fields.toBits (narrow_widen (L := .double) (.ofBits bits) mode)
    exact h.trans (Fields.toBits_ofBits (L := .double) bits)

end Fpu
