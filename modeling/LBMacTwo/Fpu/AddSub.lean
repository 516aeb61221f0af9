import LBMacTwo.Fpu.Multiply

/-!
# The adder `mc68881_fp80_addsub_unit.vhd`

* `Add.sum_rounds`: the unit's sum or difference of two numbers stands for a correctly rounded one,
  unless it is subnormal;
* `Add.adds`: a start in the idle state is answered by one `done`, with that sum.

The operand with the smaller exponent is shifted with a sticky bit, and a difference is moved back by one
bit at most where that bit is in use.
-/

namespace Fpu
open Rounding Clocked

namespace Add

/-- `addsub_state_t`. -/
inductive State
  | idle
  | unpack
  | align
  | addsub
  | normalize
  | normRound
  deriving DecidableEq

/-- The second operand of a difference is negated. -/
def signB (b : Fp80) (subtract : Bool) : Bool := if subtract then !(unpack b).sign else (unpack b).sign

def negated (b : Fp80) (subtract : Bool) : Fp80 :=
  pack ⟨signB b subtract, (unpack b).exp, (unpack b).mant⟩

/-- The early exits for NaNs, infinities and zeros. -/
def early (a b : Fp80) (subtract : Bool) : Option Fp80 :=
  if isNan a || isNan b then some (propagateNan a b (isNan a) (isNan b)).2
  else if isInf a || isInf b then
    if isInf a && isInf b then
      if (unpack a).sign = signB b subtract then some (inf (unpack a).sign) else some canonicalQnan
    else if isInf a then some a
    else some (negated b subtract)
  else if isZero a then some (negated b subtract)
  else if isZero b then some a
  else none

/-- The mantissa with room for guard, round bit and sticky. -/
def extend (mant : BitVec 64) : BitVec 67 := mant ++ 0#3

/-- `ST_ALIGN`: the mantissas at the larger exponent. -/
def align (mantA mantB : BitVec 67) (expA expB : ℤ) : BitVec 67 × BitVec 67 × ℤ :=
  if expB < expA then (mantA, shiftRightWithSticky mantB (expA - expB).toNat, expA)
  else if expA < expB then (shiftRightWithSticky mantA (expB - expA).toNat, mantB, expB)
  else (mantA, mantB, expA)

/-- What `ST_ADDSUB` leaves: the sum, its sign and its exponent, and whether it was a difference. -/
structure Sum where
  mantSum : BitVec 68
  sign : Bool
  exp : ℤ
  needNormalize : Bool

/-- `ST_ADDSUB`. -/
def addsub (sameSign : Bool) (mantA mantB : BitVec 67) (signA signB : Bool) (exp : ℤ) : Sum :=
  if sameSign then
    let sum := mantA.setWidth 68 + mantB.setWidth 68
    if sum.msb then
      let carry := shiftRightWithSticky (sum.setWidth 67) 1 ||| 1#67 <<< 66
      ⟨carry.setWidth 68, signA, if exp < 32767 then exp + 1 else exp, false⟩
    else ⟨sum, signA, exp, false⟩
  else if mantB ≤ mantA then ⟨mantA.setWidth 68 - mantB.setWidth 68, signA, exp, true⟩
  else ⟨mantB.setWidth 68 - mantA.setWidth 68, signB, exp, true⟩

/-- `ST_NORMALIZE`: the mantissa, the leading one of a difference moved to the top. -/
def normalizeSum (s : Sum) : BitVec 67 × ℤ :=
  let mant := s.mantSum.setWidth 67
  if s.needNormalize && mant != 0 && !mant.msb && decide (0 < s.exp) then
    let shift := if s.exp < clz mant then s.exp.toNat else clz mant
    (mant <<< shift, s.exp - shift)
  else (mant, s.exp)

/-- `ST_NORM_ROUND`. -/
def normRound (sign : Bool) (mant : BitVec 67) (exp : ℤ) (mode : Mode) (prec : Precision) : Fp80 :=
  let m := applyRounding sign mant exp mode prec
  if m.1 = 0 then 0 else packNumber sign m.1 m.2

/-- The sum of the unit. -/
def sum (a b : Fp80) (subtract : Bool) (mode : Mode) (prec : Precision) : Fp80 :=
  (early a b subtract).getD <|
    let al := align (extend (normalize a).1) (extend (normalize b).1) (normalize a).2 (normalize b).2
    let s := addsub ((unpack a).sign == signB b subtract) al.1 al.2.1 (unpack a).sign (signB b subtract) al.2.2
    let n := normalizeSum s
    normRound s.sign n.1 n.2 mode prec

end Add

namespace Add

theorem toNat_extend (mant : BitVec 64) : (extend mant).toNat = mant.toNat * 8 := by
  rw [extend, BitVec.toNat_append, Nat.shiftLeft_eq]
  simp

/-- The operand that is not shifted. -/
structure Exact (x : ℝ) (m : ℕ) : Prop where
  eq : x = m
  even : m % 2 = 0
  top : 2 ^ 66 ≤ m

/-- The other operand: it has lost bits only if it is much smaller. -/
structure Shifted (x : ℝ) (m : ℕ) : Prop where
  sticky : Sticky x m
  small : x = m ∨ m < 2 ^ 65

theorem exact_extend {v : Fp80} (hv : IsNumber v) :
    Exact ((normalize v).1.toNat * 8) (extend (normalize v).1).toNat := by
  have htop := normalize_top hv
  rw [toNat_extend]
  exact ⟨by push_cast; rfl, by omega, by omega⟩

theorem shifted_extend (mant : BitVec 64) {d : ℕ} :
    Shifted (mant.toNat * 8 / 2 ^ d) (shiftRightWithSticky (extend mant) d).toNat := by
  have hlt := mant.isLt
  rw [toNat_shiftRightWithSticky (by decide), toNat_extend]
  have hst : Sticky ((mant.toNat : ℝ) * 8) (mant.toNat * 8) := .inl (by push_cast; rfl)
  refine ⟨hst.shift d, ?_⟩
  rcases Nat.lt_or_ge d 2 with hd | hd
  · left
    have hmod : mant.toNat * 8 % 2 ^ d = 0 := by
      obtain rfl | rfl : d = 0 ∨ d = 1 := by omega
      all_goals omega
    rw [shiftSticky, if_pos hmod, Nat.cast_div (Nat.dvd_of_mod_eq_zero hmod) (by positivity)]
    push_cast
    rfl
  · right
    have hq : mant.toNat * 8 / 2 ^ d < 2 ^ 65 := by
      calc mant.toNat * 8 / 2 ^ d ≤ mant.toNat * 8 / 2 ^ 2 :=
            Nat.div_le_div_left (Nat.pow_le_pow_right two_pos hd) (by decide)
        _ < 2 ^ 65 := by omega
    rw [shiftSticky]
    split_ifs
    · exact hq
    · rw [lastSet]
      omega

/-- A value at a larger exponent. -/
theorem value_shifted {v : Fp80} (hv : IsNumber v) {e : ℤ} (he : (normalize v).2 ≤ e) :
    value v = signed (unpack v).sign ((normalize v).1.toNat * 8 / 2 ^ (e - (normalize v).2).toNat *
      (2 : ℝ) ^ (e - mantBias - 3)) := by
  obtain ⟨d, rfl⟩ := Int.le.dest he
  rw [value_normalize hv, add_sub_cancel_left, Int.toNat_natCast, show (normalize v).2 + d - mantBias - 3 =
    (normalize v).2 - mantBias + (-3) + d by ring, zpow_add₀ two_ne_zero, zpow_add₀ two_ne_zero,
    zpow_natCast]
  congr 1
  field_simp
  norm_num

theorem value_extended {v : Fp80} (hv : IsNumber v) : value v =
    signed (unpack v).sign ((normalize v).1.toNat * 8 * (2 : ℝ) ^ ((normalize v).2 - mantBias - 3)) := by
  have h := value_shifted hv le_rfl
  rwa [sub_self, Int.toNat_zero, pow_zero, div_one] at h

/-- The mantissas at the larger exponent, one of them as it was. -/
structure Aligned (a b : Fp80) (xA xB : ℝ) (al : BitVec 67 × BitVec 67 × ℤ) : Prop where
  valueA : value a = signed (unpack a).sign (xA * 2 ^ (al.2.2 - mantBias - 3))
  valueB : value b = signed (unpack b).sign (xB * 2 ^ (al.2.2 - mantBias - 3))
  exp_lt : al.2.2 < 32767
  place : Exact xA al.1.toNat ∧ Shifted xB al.2.1.toNat ∨
    Shifted xA al.1.toNat ∧ Exact xB al.2.1.toNat

theorem align_spec {a b : Fp80} (ha : IsNumber a) (hb : IsNumber b) : ∃ xA xB, Aligned a b xA xB
    (align (extend (normalize a).1) (extend (normalize b).1) (normalize a).2 (normalize b).2) := by
  rw [align]
  split_ifs with hlt hgt
  · exact ⟨_, _, value_extended ha, value_shifted hb hlt.le, normalize_exp_lt ha,
      .inl ⟨exact_extend ha, shifted_extend _⟩⟩
  · exact ⟨_, _, value_shifted ha hgt.le, value_extended hb, normalize_exp_lt hb,
      .inr ⟨shifted_extend _, exact_extend hb⟩⟩
  · have heq : (normalize b).2 = (normalize a).2 := by omega
    refine ⟨_, _, value_extended ha, value_shifted hb heq.le, normalize_exp_lt ha,
      .inl ⟨exact_extend ha, ?_⟩⟩
    have h := shifted_extend (normalize b).1 (d := 0)
    rwa [heq, sub_self, Int.toNat_zero]

/-- The places of two aligned mantissas, whichever of them was shifted. -/
theorem Exact.sub {x y : ℝ} {m n : ℕ} (hx : Exact x m) (hy : Shifted y n) :
    (n ≤ m → Sticky (x - y) (m - n) ∧ (x - y = (m - n : ℕ) ∨ 2 ^ 65 < m - n)) ∧
      (m ≤ n → y - x = (n - m : ℕ)) := by
  obtain ⟨rfl, heven, htop⟩ := hx
  obtain ⟨hst, hsmall⟩ := hy
  refine ⟨fun hle => ⟨hst.even_sub heven hle, ?_⟩, fun hle => ?_⟩
  · rcases hsmall with hy | hsmall
    · exact .inl (by rw [hy, Nat.cast_sub hle])
    · exact .inr (by omega)
  · rw [hsmall.resolve_right (by omega), Nat.cast_sub hle]

/-- A sum that is not cancelled: its integer has lost bits only if its leading one is near the top. -/
structure Difference (x : ℝ) (n : ℕ) : Prop where
  sticky : Sticky x n
  large : x = n ∨ 2 ^ 65 < n

theorem Difference.nonneg {x : ℝ} {n : ℕ} (h : Difference x n) : 0 ≤ x := by
  rcases h.large with rfl | hbig
  · positivity
  · exact_mod_cast ((h.sticky.agrees le_rfl) 0 (dvd_zero _)).1.mpr (Nat.zero_le n)

theorem difference {xA xB : ℝ} {mA mB : ℕ}
    (h : Exact xA mA ∧ Shifted xB mB ∨ Shifted xA mA ∧ Exact xB mB) :
    (mB ≤ mA → Difference (xA - xB) (mA - mB)) ∧ (mA ≤ mB → Difference (xB - xA) (mB - mA)) := by
  rcases h with ⟨hA, hB⟩ | ⟨hA, hB⟩
  · obtain ⟨h1, h2⟩ := hA.sub hB
    exact ⟨fun hle => ⟨(h1 hle).1, (h1 hle).2⟩, fun hle => ⟨.inl (h2 hle), .inl (h2 hle)⟩⟩
  · obtain ⟨h1, h2⟩ := hB.sub hA
    exact ⟨fun hle => ⟨.inl (h2 hle), .inl (h2 hle)⟩, fun hle => ⟨(h1 hle).1, (h1 hle).2⟩⟩

theorem sum_sticky {xA xB : ℝ} {mA mB : ℕ}
    (h : Exact xA mA ∧ Shifted xB mB ∨ Shifted xA mA ∧ Exact xB mB) :
    Sticky (xA + xB) (mA + mB) ∧ 2 ^ 66 ≤ mA + mB := by
  rcases h with ⟨⟨rfl, heven, htop⟩, hB⟩ | ⟨hA, ⟨rfl, heven, htop⟩⟩
  · exact ⟨hB.sticky.add_even heven, by omega⟩
  · rw [add_comm xA, Nat.add_comm mA]
    exact ⟨hA.sticky.add_even heven, by omega⟩

/-- The carry of a sum is moved into the mantissa. -/
theorem toNat_carry {v : BitVec 68} (hv : 2 ^ 67 ≤ v.toNat) :
    (shiftRightWithSticky (v.setWidth 67) 1 ||| 1#67 <<< 66).toNat = shiftSticky v.toNat 1 := by
  have hlt := v.isLt
  have hlow : (v.setWidth 67).toNat = v.toNat - 2 ^ 67 := by
    rw [BitVec.toNat_setWidth]
    omega
  have hshift : shiftSticky (v.toNat - 2 ^ 67) 1 < 2 ^ 66 ∧
      shiftSticky v.toNat 1 = 2 ^ 66 * 1 + shiftSticky (v.toNat - 2 ^ 67) 1 := by
    simp only [shiftSticky, lastSet, pow_one]
    split_ifs <;> omega
  rw [BitVec.toNat_or, toNat_shiftRightWithSticky (by decide), hlow, hshift.2,
    Nat.two_pow_add_eq_or_of_lt hshift.1, Nat.or_comm]
  rfl

theorem addsub_same {xA xB : ℝ} {mA mB : BitVec 67} {exp : ℤ} (sA sB : Bool) (hexp : exp < 32767)
    (h : Exact xA mA.toNat ∧ Shifted xB mB.toNat ∨ Shifted xA mA.toNat ∧ Exact xB mB.toNat) :
    ∃ j : ℕ, (addsub true mA mB sA sB exp).exp = exp + j ∧ (addsub true mA mB sA sB exp).sign = sA ∧
      (addsub true mA mB sA sB exp).needNormalize = false ∧
      Sticky ((xA + xB) / 2 ^ j) ((addsub true mA mB sA sB exp).mantSum.setWidth 67).toNat ∧
      2 ^ 66 ≤ ((addsub true mA mB sA sB exp).mantSum.setWidth 67).toNat := by
  obtain ⟨hst, hge⟩ := sum_sticky h
  have hA := mA.isLt
  have hB := mB.isLt
  have hsum : (mA.setWidth 68 + mB.setWidth 68).toNat = mA.toNat + mB.toNat := by
    rw [BitVec.toNat_add, BitVec.toNat_setWidth_of_le (by decide),
      BitVec.toNat_setWidth_of_le (by decide)]
    omega
  have hmsb : (mA.setWidth 68 + mB.setWidth 68).msb = decide (2 ^ 67 ≤ mA.toNat + mB.toNat) := by
    rw [BitVec.msb_eq_decide, hsum]
  rw [addsub, if_pos rfl]
  simp only [hmsb, decide_eq_true_eq]
  split_ifs with hc
  · refine ⟨1, by push_cast; rfl, rfl, rfl, ?_⟩
    rw [BitVec.setWidth_setWidth_of_le _ (by decide), BitVec.setWidth_eq, toNat_carry (by rwa [hsum]), hsum]
    refine ⟨hst.shift 1, ?_⟩
    simp only [shiftSticky, lastSet, pow_one]
    split_ifs <;> omega
  · refine ⟨0, by simp, rfl, rfl, ?_⟩
    rw [BitVec.toNat_setWidth, hsum, Nat.mod_eq_of_lt (by omega), pow_zero, div_one]
    exact ⟨hst, hge⟩

theorem toNat_sub68 {m n : BitVec 67} (h : n.toNat ≤ m.toNat) :
    ((m.setWidth 68 - n.setWidth 68).setWidth 67).toNat = m.toNat - n.toNat := by
  have hm := m.isLt
  rw [BitVec.toNat_setWidth, BitVec.toNat_sub, BitVec.toNat_setWidth_of_le (by decide),
    BitVec.toNat_setWidth_of_le (by decide)]
  omega

/-- A difference is normalized by the leading zeros, which the exponent has room for. -/
theorem normalizeSum_spec {s : Sum} (hn : s.needNormalize = true)
    (h0 : (s.mantSum.setWidth 67).toNat ≠ 0)
    (hroom : ∀ d : ℕ, (s.mantSum.setWidth 67).toNat < 2 ^ d → 67 < s.exp + d) :
    ∃ j : ℕ, (normalizeSum s).1.toNat = (s.mantSum.setWidth 67).toNat * 2 ^ j ∧
      (normalizeSum s).2 = s.exp - j ∧ 2 ^ 66 ≤ (normalizeSum s).1.toNat ∧
      (2 ^ 65 < (s.mantSum.setWidth 67).toNat → j ≤ 1) := by
  rw [normalizeSum, hn]
  simp only
  generalize s.mantSum.setWidth 67 = mant at h0 hroom
  have hne : mant ≠ 0 := fun hc => h0 (by rw [hc]; rfl)
  have hmsb : mant.msb = decide (2 ^ 66 ≤ mant.toNat) := BitVec.msb_eq_decide ..
  obtain ⟨hlt, hge⟩ := clz_spec hne (by decide) (by decide)
  by_cases htop : 2 ^ 66 ≤ mant.toNat
  · rw [hmsb, decide_eq_true htop]
    simp only [Bool.not_true, Bool.and_false, Bool.false_and, Bool.false_eq_true, ↓reduceIte]
    exact ⟨0, by simp, by simp, htop, fun _ => by omega⟩
  · have hclz : clz mant ≤ 67 := by
      by_contra! hc
      have : 2 ^ 67 ≤ mant.toNat * 2 ^ clz mant :=
        (Nat.pow_le_pow_right two_pos hc.le).trans (Nat.le_mul_of_pos_left _ (by omega))
      omega
    have hbound : mant.toNat < 2 ^ (67 - clz mant) := by
      have h67 : 2 ^ (67 - clz mant) * 2 ^ clz mant = 2 ^ 67 := by
        rw [← pow_add, Nat.sub_add_cancel hclz]
      exact Nat.lt_of_mul_lt_mul_right (h67 ▸ hlt)
    have hexp := hroom _ hbound
    have hpos : 0 < s.exp ∧ ¬ s.exp < clz mant := by omega
    have hshift : (mant <<< clz mant).toNat = mant.toNat * 2 ^ clz mant := by
      rw [BitVec.toNat_shiftLeft, Nat.shiftLeft_eq, Nat.mod_eq_of_lt hlt]
    rw [hmsb, decide_eq_false htop, bne_iff_ne.mpr hne, decide_eq_true hpos.1, if_neg hpos.2]
    refine ⟨clz mant, hshift, rfl, hshift ▸ hge, fun hbig => ?_⟩
    by_contra! hc
    have : mant.toNat * 2 ^ 2 ≤ mant.toNat * 2 ^ clz mant :=
      Nat.mul_le_mul_left _ (Nat.pow_le_pow_right two_pos hc)
    omega

theorem value_difference {a b : Fp80} {xA xB W : ℝ} (subtract : Bool)
    (hA : value a = signed (unpack a).sign (xA * W)) (hB : value b = signed (unpack b).sign (xB * W)) :
    value a + signed subtract (value b) =
      if (unpack a).sign = signB b subtract then signed (unpack a).sign ((xA + xB) * W)
      else signed (unpack a).sign ((xA - xB) * W) := by
  rw [hA, hB, signB]
  cases subtract <;> cases (unpack a).sign <;> cases (unpack b).sign <;> simp [signed] <;> ring

theorem early_eq_none {a b : Fp80} (ha : IsNumber a) (hb : IsNumber b) (subtract : Bool) :
    early a b subtract = none := by
  simp [early, ha.isNan, hb.isNan, ha.isInf, hb.isInf, ha.isZero, hb.isZero]

theorem signed_not_sub (s : Bool) (x y W : ℝ) : signed (!s) ((x - y) * W) = signed s ((y - x) * W) := by
  cases s <;> simp [signed] <;> ring

theorem normRound_rounds {x : ℝ} {mant : BitVec 67} {prec : Precision}
    (h : Agrees (prec.lsb + 2) x mant.toNat) (htop : 2 ^ 66 ≤ mant.toNat) (sign : Bool) (exp : ℤ)
    (mode : Mode) : ∃ r, RoundsTo (prec.format ⊥) mode (signed sign (x * 2 ^ (exp - mantBias - 3))) r ∧
      Delivered r (normRound sign mant exp mode prec) := by
  have hne := applyRounding_top sign mant exp mode prec htop
  rw [normRound, if_neg fun hc => by rw [hc] at hne; exact absurd hne (by decide)]
  exact packNumber_rounds h htop sign exp mode

/-- What is left to round of a difference that is not subnormal. -/
theorem normRound_difference {x : ℝ} {s : Sum} {n : ℕ} {prec : Precision} (hn : s.needNormalize = true)
    (hmant : (s.mantSum.setWidth 67).toNat = n) (hx : Difference x n)
    (hnormal : 2 ^ (1 - expBias) ≤ x * 2 ^ (s.exp - mantBias - 3)) (mode : Mode) :
    ∃ r, RoundsTo (prec.format ⊥) mode (signed s.sign (x * 2 ^ (s.exp - mantBias - 3))) r ∧
      Delivered r (normRound s.sign (normalizeSum s).1 (normalizeSum s).2 mode prec) := by
  have hx67 : (2 : ℝ) ^ (67 - s.exp) ≤ x := by
    have hW : (0 : ℝ) < 2 ^ (s.exp - mantBias - 3) := by positivity
    rwa [← mul_le_mul_iff_left₀ hW, ← zpow_add₀ two_ne_zero,
      show 67 - s.exp + (s.exp - mantBias - 3) = 1 - expBias by rw [mantBias]; ring]
  have hpos : 0 < x := lt_of_lt_of_le (by positivity) hx67
  have h0 : n ≠ 0 := fun hc => by
    rcases hx.large with h | h
    · rw [hc, Nat.cast_zero] at h
      exact hpos.ne' h
    · omega
  have hroom : ∀ d : ℕ, n < 2 ^ d → 67 < s.exp + d := fun d hd => by
    have hd0 : d ≠ 0 := fun hc => by
      rw [hc] at hd
      omega
    have hlt : x < 2 ^ d := by
      have := ((hx.sticky.agrees le_rfl) (2 ^ d) (pow_dvd_pow 2 (by omega))).1.not.mpr (by omega)
      push_cast at this
      exact not_le.mp this
    have := hx67.trans_lt hlt
    rw [← zpow_natCast, zpow_lt_zpow_iff_right₀ one_lt_two] at this
    omega
  obtain ⟨j, hm, hexp, htop, hj⟩ := normalizeSum_spec hn (by rwa [hmant]) (by rwa [hmant])
  rw [hmant] at hm hj
  have hagrees : Agrees (prec.lsb + 2) (x * 2 ^ j) (normalizeSum s).1.toNat := by
    rw [hm]
    rcases hx.large with h | h
    · exact .of_eq (by rw [h]; push_cast; rfl) _
    · exact ((hx.sticky.agrees le_rfl).shiftLeft j).mono (by have := hj h; omega)
  obtain ⟨r, hr, hdel⟩ := normRound_rounds hagrees htop s.sign (normalizeSum s).2 mode
  refine ⟨r, ?_, hdel⟩
  rw [hexp, show s.exp - j - mantBias - 3 = s.exp - mantBias - 3 - j by ring, zpow_sub₀ two_ne_zero,
    zpow_natCast, mul_assoc, mul_div_cancel₀ _ (by positivity)] at hr
  exact hr

/-- The sum is correctly rounded, unless it is subnormal. -/
theorem sum_rounds {a b : Fp80} (ha : IsNumber a) (hb : IsNumber b) (subtract : Bool) (mode : Mode)
    (prec : Precision) (hnormal : 2 ^ (1 - expBias) ≤ |value a + signed subtract (value b)|) :
    ∃ r, RoundsTo (prec.format ⊥) mode (value a + signed subtract (value b)) r ∧
      Delivered r (sum a b subtract mode prec) := by
  obtain ⟨xA, xB, hal⟩ := align_spec ha hb
  rw [sum, early_eq_none ha hb, Option.getD_none]
  simp only
  generalize align _ _ _ _ = al at hal
  have hval := value_difference subtract hal.valueA hal.valueB
  rw [hval] at hnormal ⊢
  have hW : (0 : ℝ) < 2 ^ (al.2.2 - mantBias - 3) := by positivity
  by_cases hs : (unpack a).sign = signB b subtract
  · rw [if_pos hs, beq_iff_eq.mpr hs]
    obtain ⟨j, hexp, hsign, hneed, hst, htop⟩ :=
      addsub_same (unpack a).sign (signB b subtract) hal.exp_lt hal.place
    generalize addsub true al.1 al.2.1 (unpack a).sign (signB b subtract) al.2.2 = s at *
    have hn : normalizeSum s = (s.mantSum.setWidth 67, s.exp) := by
      rw [normalizeSum, hneed]
      rfl
    rw [hn]
    obtain ⟨r, hr, hdel⟩ := normRound_rounds (hst.agrees (by omega)) htop s.sign s.exp mode
    refine ⟨r, ?_, hdel⟩
    rw [hsign, hexp, show al.2.2 + j - mantBias - 3 = al.2.2 - mantBias - 3 + j by ring,
      zpow_add₀ two_ne_zero, zpow_natCast, mul_comm (_ ^ _), ← mul_assoc,
      div_mul_cancel₀ _ (by positivity)] at hr
    exact hr
  · rw [if_neg hs] at hnormal ⊢
    rw [beq_eq_false_iff_ne.mpr hs, addsub, if_neg Bool.false_ne_true]
    rw [abs_signed, abs_mul, abs_of_pos hW] at hnormal
    obtain ⟨hA, hB⟩ := difference hal.place
    have hsign : signB b subtract = !(unpack a).sign := Bool.eq_not.mpr (Ne.symm hs)
    split_ifs with hle
    · have hx := hA (BitVec.le_def.mp hle)
      rw [abs_of_nonneg hx.nonneg] at hnormal
      exact normRound_difference (s := ⟨_, _, al.2.2, true⟩) rfl (toNat_sub68 (BitVec.le_def.mp hle)) hx
        hnormal mode
    · have hle' : al.1.toNat ≤ al.2.1.toNat := by
        rw [BitVec.le_def] at hle
        omega
      have hx := hB hle'
      rw [abs_sub_comm, abs_of_nonneg hx.nonneg] at hnormal
      rw [hsign, ← signed_not_sub]
      exact normRound_difference (s := ⟨_, _, al.2.2, true⟩) rfl (toNat_sub68 hle') hx hnormal mode

/-! ### Subnormal sums -/

/-- A number is a multiple of the least subnormal. -/
theorem value_multiple (v : Fp80) : ∃ k : ℤ, value v = k * (2 : ℝ) ^ (1 - mantBias) := by
  have hexp : 1 ≤ exponent v := by
    rw [exponent]
    split_ifs with h
    · exact le_rfl
    · have : (unpack v).exp.toNat ≠ 0 := fun hc => h (BitVec.eq_of_toNat_eq hc)
      omega
  obtain ⟨d, hd⟩ := Int.le.dest hexp
  refine ⟨if (unpack v).sign then -((unpack v).mant.toNat * 2 ^ d : ℕ) else ((unpack v).mant.toNat * 2 ^ d : ℕ), ?_⟩
  rw [value, ofSignificand, ← hd, show 1 + (d : ℤ) - mantBias = d + (1 - mantBias) by ring, zpow_add₀ two_ne_zero,
    zpow_natCast]
  cases (unpack v).sign <;> simp [signed] <;> ring

/-- A sticky integer has not lost anything of a natural number. -/
theorem eq_of_sticky_natCast {n N : ℕ} (h : Sticky (n : ℝ) N) : N = n := by
  rcases h with h | ⟨-, hlo, hhi⟩
  · exact_mod_cast h.symm
  · have h1 : N < n + 1 := by exact_mod_cast (by linarith : (N : ℝ) < n + 1)
    have h2 : n < N + 1 := by exact_mod_cast hhi
    omega

/-- A mantissa that is a multiple of the least subnormal is neither rounded nor cut. -/
theorem normRound_exact {sign : Bool} {mant : BitVec 67} {e : ℕ} {k : ℕ} {prec : Precision}
    (hp : prec.lsb = 0) (hk : mant.toNat = k * 2 ^ (4 + e)) (mode : Mode) :
    value (normRound sign mant (-e) mode prec) = signed sign (k * (2 : ℝ) ^ (1 - mantBias)) ∧
      (unpack (normRound sign mant (-e) mode prec)).exp = 0 := by
  have hlt := mant.isLt
  have h8 : mant.toNat = 8 * (k * 2 ^ (1 + e)) := by rw [hk, pow_add, pow_add]; ring
  have hspec := applyRounding_spec sign mant (-e) mode prec
  have hsig : significand mode sign (prec.lsb + 3) mant.toNat = k * 2 ^ (1 + e) := by
    have hmod : mant.toNat % 2 ^ 3 = 0 := by omega
    have hdiv : mant.toNat / 2 ^ 3 = k * 2 ^ (1 + e) := by omega
    rw [hp, significand_of_mod_eq_zero hmod, hdiv]
  rw [hsig, hp, if_pos (by omega), pow_zero, mul_one] at hspec
  obtain ⟨hm, he⟩ := Prod.mk.inj hspec
  rw [normRound]
  split_ifs with hz
  · rw [hz] at hm
    have hk0 : k = 0 := by
      have : 0 = k * 2 ^ (1 + e) := hm
      have hpos : 0 < 2 ^ (1 + e) := by positivity
      exact (Nat.mul_eq_zero.mp this.symm).resolve_right hpos.ne'
    rw [hk0, value_zero]
    exact ⟨by simp [signed], by decide⟩
  · obtain ⟨hexp, hval⟩ := packNumber_subnormal sign (applyRounding sign mant (-e) mode prec).1
      (show (applyRounding sign mant (-e) mode prec).2 ≤ 0 by rw [he]; omega)
    refine ⟨?_, hexp⟩
    rw [hval, hm, he, show (1 - -(e : ℤ)).toNat = 1 + e by omega, Nat.mul_div_cancel _ (by positivity)]

theorem normRound_zero (sign : Bool) (exp : ℤ) (mode : Mode) (prec : Precision) :
    normRound sign 0 exp mode prec = 0 := by
  have hspec := applyRounding_spec sign 0 exp mode prec
  have hpos : 0 < 2 ^ (64 - prec.lsb) := by positivity
  rw [show (0 : BitVec 67).toNat = 0 from rfl, significand_of_mod_eq_zero (Nat.zero_mod _), Nat.zero_div,
    if_pos hpos, zero_mul] at hspec
  have hm : (applyRounding sign 0 exp mode prec).1 = 0 :=
    BitVec.eq_of_toNat_eq (Prod.mk.inj hspec).1
  rw [normRound, if_pos hm]

theorem two_zpow_cancel {x y : ℝ} {e f : ℤ} (h : x * 2 ^ e = y * 2 ^ f) : x * 2 ^ (e - f) = y := by
  rw [zpow_sub₀ two_ne_zero, ← mul_div_assoc, h, mul_div_cancel_right₀ _ (by positivity)]

/-- The shift of a subnormal difference stops at the exponent. -/
theorem normalizeSum_clamped {s : Sum} {n E : ℕ} (hn : s.needNormalize = true)
    (hmant : (s.mantSum.setWidth 67).toNat = n) (hn0 : 0 < n) (hE : s.exp = E) (hlt : n * 2 ^ E < 2 ^ 67)
    (hE0 : 0 < E) : (normalizeSum s).1.toNat = n * 2 ^ E ∧ (normalizeSum s).2 = 0 := by
  rw [normalizeSum, hn, hE]
  simp only
  generalize s.mantSum.setWidth 67 = mant at hmant
  subst hmant
  have hne : mant ≠ 0 := fun hc => by
    rw [hc] at hn0
    exact absurd hn0 (by decide)
  have hmsb : mant.msb = false := by
    rw [BitVec.msb_eq_decide, decide_eq_false]
    have : mant.toNat * 2 ≤ mant.toNat * 2 ^ E :=
      Nat.mul_le_mul_left _ (Nat.le_self_pow (by omega) 2)
    omega
  obtain ⟨-, hge⟩ := clz_spec hne (by decide) (by decide)
  have hclz : E ≤ clz mant := by
    by_contra! hc
    have : mant.toNat * 2 ^ clz mant * 2 ≤ mant.toNat * 2 ^ E := by
      rw [mul_assoc, ← pow_succ]
      exact Nat.mul_le_mul_left _ (Nat.pow_le_pow_right two_pos hc)
    omega
  have hshift : (if (E : ℤ) < clz mant then (E : ℤ).toNat else clz mant) = E := by
    split_ifs with h
    · exact Int.toNat_natCast E
    · omega
  rw [hmsb, bne_iff_ne.mpr hne, decide_eq_true (by omega), hshift]
  refine ⟨?_, by simp⟩
  simp only [Bool.and_true, Bool.not_false, ↓reduceIte, BitVec.toNat_shiftLeft, Nat.shiftLeft_eq]
  exact Nat.mod_eq_of_lt hlt

/-- A subnormal difference is exact: its exponent comes down to the least one and no further. -/
theorem normRound_difference_exact {x : ℝ} {s : Sum} {n k : ℕ} {prec : Precision} (hp : prec.lsb = 0)
    (hn : s.needNormalize = true) (hmant : (s.mantSum.setWidth 67).toNat = n) (hx : Difference x n)
    (hk : x * 2 ^ (s.exp - mantBias - 3) = k * (2 : ℝ) ^ (1 - mantBias)) (hlt : k < 2 ^ 63) (mode : Mode) :
    value (normRound s.sign (normalizeSum s).1 (normalizeSum s).2 mode prec) =
        signed s.sign (k * (2 : ℝ) ^ (1 - mantBias)) ∧
      (unpack (normRound s.sign (normalizeSum s).1 (normalizeSum s).2 mode prec)).exp = 0 := by
  have hx16 : x * 2 ^ (s.exp - 4) = k := by
    have h := two_zpow_cancel hk
    rwa [show s.exp - mantBias - 3 - (1 - mantBias) = s.exp - 4 by ring] at h
  rcases le_or_gt s.exp 0 with hexp | hexp
  · obtain ⟨e, he⟩ := Int.eq_ofNat_of_zero_le (neg_nonneg.mpr hexp)
    obtain rfl : x = (k * 2 ^ (4 + e) : ℕ) := by
      push_cast
      rw [← hx16, show s.exp - 4 = -((4 + e : ℕ) : ℤ) by push_cast; omega, zpow_neg, zpow_natCast]
      field_simp
    have hnorm : normalizeSum s = (s.mantSum.setWidth 67, -(e : ℤ)) := by
      rw [normalizeSum, decide_eq_false (by omega), Bool.and_false, if_neg Bool.false_ne_true,
        show s.exp = -(e : ℤ) by omega]
    rw [hnorm]
    exact normRound_exact hp (by rw [hmant, eq_of_sticky_natCast hx.sticky]) mode
  · obtain ⟨E, hE⟩ := Int.eq_ofNat_of_zero_le hexp.le
    have hxE : x * 2 ^ E = 16 * k := by
      rw [← hx16, hE, zpow_sub₀ two_ne_zero, zpow_natCast]
      norm_num
      ring
    have hxn : x = n := by
      rcases hx.large with h | hbig
      · exact h
      · have hge : (2 : ℝ) ^ 65 ≤ x := by
          have := (hx.sticky.even_le_iff (M := 2 ^ 65) (by decide)).mpr hbig.le
          exact_mod_cast this
        have hE1 : E = 1 := by
          by_contra! hc
          have h4 : (2 : ℝ) ^ 2 ≤ 2 ^ E := pow_le_pow_right₀ one_le_two (by omega)
          have hmul : (2 : ℝ) ^ 65 * 2 ^ 2 ≤ x * 2 ^ E := by gcongr
          have hk63 : (k : ℝ) < 2 ^ 63 := by exact_mod_cast hlt
          rw [hxE] at hmul
          have h67 : (2 : ℝ) ^ 65 * 2 ^ 2 = 16 * 2 ^ 63 := by norm_num
          linarith
        obtain rfl : x = (8 * k : ℕ) := by
          rw [hE1] at hxE
          push_cast
          linarith
        rw [eq_of_sticky_natCast hx.sticky]
    have hnE : n * 2 ^ E = 16 * k := by
      rw [hxn] at hxE
      exact_mod_cast hxE
    rcases Nat.eq_zero_or_pos n with hn0 | hn0
    · obtain rfl : k = 0 := by
        rw [hn0, Nat.zero_mul] at hnE
        omega
      have hm0 : s.mantSum.setWidth 67 = 0 := BitVec.eq_of_toNat_eq (hmant.trans hn0)
      have hnorm : normalizeSum s = (0, s.exp) := by
        rw [normalizeSum, hm0]
        simp
      rw [hnorm, normRound_zero, value_zero]
      exact ⟨by simp [signed], by decide⟩
    · have hnorm := normalizeSum_clamped hn hmant hn0 hE (by omega : n * 2 ^ E < 2 ^ 67) (by omega)
      have := @normRound_exact s.sign _ 0 k _ hp (hnorm.1.trans (by rw [hnE]; ring)) mode
      rwa [Nat.cast_zero, neg_zero, ← hnorm.2] at this

/-- A subnormal sum is exact. -/
theorem normRound_sum_exact {x : ℝ} {mant : BitVec 67} {exp : ℤ} {k : ℕ} {prec : Precision}
    (hp : prec.lsb = 0) (hx : Sticky x mant.toNat) (htop : 2 ^ 66 ≤ mant.toNat)
    (hk : x * 2 ^ (exp - mantBias - 3) = k * (2 : ℝ) ^ (1 - mantBias)) (hlt : k < 2 ^ 63) (sign : Bool)
    (mode : Mode) : value (normRound sign mant exp mode prec) = signed sign (k * (2 : ℝ) ^ (1 - mantBias)) ∧
      (unpack (normRound sign mant exp mode prec)).exp = 0 := by
  have hx16 : x * 2 ^ (exp - 4) = k := by
    have h := two_zpow_cancel hk
    rwa [show exp - mantBias - 3 - (1 - mantBias) = exp - 4 by ring] at h
  have hge : (2 : ℝ) ^ 66 ≤ x := by
    have := (hx.even_le_iff (M := 2 ^ 66) (by decide)).mpr htop
    exact_mod_cast this
  have hexp : exp ≤ 0 := by
    by_contra! hc
    have hpow : (2 : ℝ) ^ (-3 : ℤ) ≤ 2 ^ (exp - 4) := zpow_le_zpow_right₀ one_le_two (by omega)
    have hmul : (2 : ℝ) ^ 66 * 2 ^ (-3 : ℤ) ≤ x * 2 ^ (exp - 4) := by gcongr
    have hk63 : (k : ℝ) < 2 ^ 63 := by exact_mod_cast hlt
    have h63 : (2 : ℝ) ^ 66 * 2 ^ (-3 : ℤ) = 2 ^ 63 := by norm_num
    linarith
  obtain ⟨e, he⟩ := Int.eq_ofNat_of_zero_le (neg_nonneg.mpr hexp)
  obtain rfl : exp = -(e : ℤ) := by omega
  obtain rfl : x = (k * 2 ^ (4 + e) : ℕ) := by
    push_cast
    rw [← hx16, show -(e : ℤ) - 4 = -((4 + e : ℕ) : ℤ) by push_cast; omega, zpow_neg, zpow_natCast]
    field_simp
  exact normRound_exact hp (eq_of_sticky_natCast hx) mode

/-- In extended precision a subnormal sum is exact. -/
theorem sum_exact {a b : Fp80} (ha : IsNumber a) (hb : IsNumber b) (subtract : Bool) (mode : Mode)
    {prec : Precision} (hp : prec.lsb = 0)
    (hsub : |value a + signed subtract (value b)| < 2 ^ (1 - expBias)) :
    value (sum a b subtract mode prec) = value a + signed subtract (value b) ∧
      (unpack (sum a b subtract mode prec)).exp = 0 := by
  obtain ⟨K, hK⟩ : ∃ K : ℤ, value a + signed subtract (value b) = K * (2 : ℝ) ^ (1 - mantBias) := by
    obtain ⟨kA, hA⟩ := value_multiple a
    obtain ⟨kB, hB⟩ := value_multiple b
    refine ⟨kA + if subtract then -kB else kB, ?_⟩
    rw [hA, hB]
    cases subtract <;> simp [signed] <;> ring
  have hmag : ∀ (sign : Bool) {y : ℝ}, value a + signed subtract (value b) = signed sign y → 0 ≤ y →
      y = K.natAbs * (2 : ℝ) ^ (1 - mantBias) := by
    intro sign y hy hpos
    rw [← abs_of_nonneg hpos, ← abs_signed sign y, ← hy, hK, abs_mul,
      abs_of_pos (by positivity : (0 : ℝ) < 2 ^ (1 - mantBias)), Nat.cast_natAbs, Int.cast_abs]
  have hlt : K.natAbs < 2 ^ 63 := by
    rw [hmag (decide (value a + signed subtract (value b) < 0)) ?_ (abs_nonneg _),
      show 1 - expBias = 63 + (1 - mantBias) by rw [mantBias]; ring, zpow_add₀ two_ne_zero,
      mul_lt_mul_iff_left₀ (by positivity)] at hsub
    · exact_mod_cast hsub
    · rcases lt_or_ge (value a + signed subtract (value b)) 0 with h | h
      · rw [decide_eq_true h, abs_of_neg h]
        simp [signed]
      · rw [decide_eq_false h.not_gt, abs_of_nonneg h]
        simp [signed]
  obtain ⟨xA, xB, hal⟩ := align_spec ha hb
  rw [sum, early_eq_none ha hb, Option.getD_none]
  simp only
  generalize align _ _ _ _ = al at hal
  have hval := value_difference subtract hal.valueA hal.valueB
  have hW : (0 : ℝ) < 2 ^ (al.2.2 - mantBias - 3) := by positivity
  by_cases hs : (unpack a).sign = signB b subtract
  · rw [if_pos hs] at hval
    obtain ⟨j, hexp, hsign, hneed, hst, htop⟩ :=
      addsub_same (unpack a).sign (signB b subtract) hal.exp_lt hal.place
    rw [beq_iff_eq.mpr hs]
    generalize addsub true al.1 al.2.1 (unpack a).sign (signB b subtract) al.2.2 = s at *
    have hn : normalizeSum s = (s.mantSum.setWidth 67, s.exp) := by
      rw [normalizeSum, hneed]
      rfl
    have hpos : 0 ≤ xA + xB := by
      have h0 : 0 ≤ (xA + xB) / 2 ^ j := by
        exact_mod_cast ((hst.agrees le_rfl) 0 (dvd_zero _)).1.mpr (Nat.zero_le _)
      rwa [le_div_iff₀ (by positivity), zero_mul] at h0
    have hy := hmag _ hval (mul_nonneg hpos hW.le)
    have hy' : (xA + xB) / 2 ^ j * 2 ^ (s.exp - mantBias - 3) = K.natAbs * (2 : ℝ) ^ (1 - mantBias) := by
      rw [← hy, hexp, show al.2.2 + j - mantBias - 3 = al.2.2 - mantBias - 3 + j by ring,
        zpow_add₀ two_ne_zero, zpow_natCast, mul_comm (_ ^ _), ← mul_assoc,
        div_mul_cancel₀ _ (by positivity)]
    rw [hn, hval, hy, ← hsign]
    exact normRound_sum_exact hp hst htop hy' hlt s.sign mode
  · rw [if_neg hs] at hval
    rw [beq_eq_false_iff_ne.mpr hs, addsub, if_neg Bool.false_ne_true]
    obtain ⟨hA, hB⟩ := difference hal.place
    have hsign : signB b subtract = !(unpack a).sign := Bool.eq_not.mpr (Ne.symm hs)
    split_ifs with hle
    · have hx := hA (BitVec.le_def.mp hle)
      have hy := hmag _ hval (mul_nonneg hx.nonneg hW.le)
      rw [hval, hy]
      exact normRound_difference_exact (s := ⟨_, _, al.2.2, true⟩) hp rfl
        (toNat_sub68 (BitVec.le_def.mp hle)) hx hy hlt mode
    · have hle' : al.1.toNat ≤ al.2.1.toNat := by
        rw [BitVec.le_def] at hle
        omega
      have hx := hB hle'
      rw [← signed_not_sub, ← hsign] at hval
      have hy := hmag _ hval (mul_nonneg hx.nonneg hW.le)
      rw [hval, hy]
      exact normRound_difference_exact (s := ⟨_, _, al.2.2, true⟩) hp rfl (toNat_sub68 hle') hx hy hlt mode

/-- What is cancelled is zero, in every precision. -/
theorem sum_cancelled {a b : Fp80} (ha : IsNumber a) (hb : IsNumber b) (subtract : Bool) (mode : Mode)
    (prec : Precision) (h0 : value a + signed subtract (value b) = 0) :
    sum a b subtract mode prec = 0 := by
  obtain ⟨xA, xB, hal⟩ := align_spec ha hb
  rw [sum, early_eq_none ha hb, Option.getD_none]
  simp only
  generalize align _ _ _ _ = al at hal
  rw [value_difference subtract hal.valueA hal.valueB] at h0
  have hzero : ∀ {sign : Bool} {y : ℝ}, signed sign (y * 2 ^ (al.2.2 - mantBias - 3)) = 0 → y = 0 := by
    intro sign y h
    rw [← abs_eq_zero, abs_signed, abs_eq_zero] at h
    exact (mul_eq_zero.mp h).resolve_right (by positivity)
  by_cases hs : (unpack a).sign = signB b subtract
  · rw [if_pos hs] at h0
    obtain ⟨hst, htop⟩ := sum_sticky hal.place
    have hge := (hst.even_le_iff (M := 2 ^ 66) (by decide)).mpr htop
    rw [hzero h0] at hge
    exact absurd hge (by norm_num)
  · rw [if_neg hs] at h0
    obtain ⟨hA, hB⟩ := difference hal.place
    have hx : ∀ {n : ℕ}, Difference 0 n → n = 0 := by
      intro n hn
      have := (hn.sticky.le_even_iff (M := 0) rfl).mp (by norm_num)
      omega
    rw [beq_eq_false_iff_ne.mpr hs, addsub, if_neg Bool.false_ne_true]
    split_ifs with hle
    · have hle' := BitVec.le_def.mp hle
      have h := hA hle'
      rw [hzero h0] at h
      have hm : (al.1.setWidth 68 - al.2.1.setWidth 68).setWidth 67 = 0 :=
        BitVec.eq_of_toNat_eq ((toNat_sub68 hle').trans (hx h))
      simpa [normalizeSum, hm] using normRound_zero (unpack a).sign al.2.2 mode prec
    · have h := hB (by rw [BitVec.le_def] at hle; omega)
      rw [← neg_sub, hzero h0, neg_zero] at h
      rw [BitVec.le_def] at hle
      have := hx h
      omega

/-- The sum is correctly rounded: in extended precision always, in the others unless it is subnormal. -/
theorem sum_delivered {a b : Fp80} (ha : IsNumber a) (hb : IsNumber b) {subtract : Bool} (mode : Mode)
    {prec : Precision} (h : prec.lsb = 0 ∨ value a + signed subtract (value b) = 0 ∨
      2 ^ (1 - expBias) ≤ |value a + signed subtract (value b)|) :
    ∃ r, RoundsTo (prec.format ⊥) mode (value a + signed subtract (value b)) r ∧
      Delivered r (sum a b subtract mode prec) := by
  by_cases hnormal : 2 ^ (1 - expBias) ≤ |value a + signed subtract (value b)|
  · exact sum_rounds ha hb subtract mode prec hnormal
  · obtain ⟨hv, he, hrep⟩ : value (sum a b subtract mode prec) = value a + signed subtract (value b) ∧
        (unpack (sum a b subtract mode prec)).exp = 0 ∧
        (prec.format ⊥).Representable (value a + signed subtract (value b)) := by
      rcases h with hp | h0 | hn
      · obtain ⟨hv, he⟩ := sum_exact ha hb subtract mode hp (not_le.mp hnormal)
        obtain ⟨m, e, hm, -, heq⟩ := representable_subnormal he
        have hbits : (prec.format ⊥).precision = 64 := by
          change 64 - prec.lsb = 64
          rw [hp]
        exact ⟨hv, he, m, e, hbits ▸ hm, bot_le, hv ▸ heq⟩
      · rw [sum_cancelled ha hb subtract mode prec h0, h0]
        exact ⟨value_zero, by decide, 0, 0, by simp, bot_le, by simp⟩
      · exact absurd hn hnormal
    exact ⟨_, .of_representable hrep mode, hv ▸ Delivered.of_subnormal he (hv ▸ not_le.mp hnormal)⟩

end Add

structure AddUnit where
  state : Add.State
  aReg : Fp80
  bReg : Fp80
  subReg : Bool
  rmReg : Mode
  rpReg : Precision
  aSign : Bool
  aExp : ℤ
  bExp : ℤ
  signB : Bool
  mantAExt : BitVec 67
  mantBExt : BitVec 67
  expRes : ℤ
  earlyExit : Bool
  earlyResult : Fp80
  mantSum : BitVec 68
  resSign : Bool
  sameSign : Bool
  needNormalize : Bool
  done : Bool
  result : Fp80

namespace AddUnit

variable (x : AddUnit) (i : UnitIn)

/-- The reset state. -/
def init : AddUnit where
  state := .idle
  aReg := 0
  bReg := 0
  subReg := false
  rmReg := .nearest
  rpReg := .extended
  aSign := false
  aExp := 0
  bExp := 0
  signB := false
  mantAExt := 0
  mantBExt := 0
  expRes := 0
  earlyExit := false
  earlyResult := 0
  mantSum := 0
  resSign := false
  sameSign := false
  needNormalize := false
  done := false
  result := 0

/-- The registers of `ST_ADDSUB`. -/
def sumReg : Add.Sum := ⟨x.mantSum, x.resSign, x.expRes, x.needNormalize⟩

def clock : AddUnit :=
  if !i.resetN then init
  else match x.state with
    | .idle =>
      if i.start then
        { x with state := .unpack, aReg := i.aIn, bReg := i.bIn, subReg := i.subtract
                 rmReg := i.roundMode, rpReg := i.roundPrec, done := false }
      else { x with done := false }
    | .unpack =>
      { x with state := .align
               aSign := (unpack x.aReg).sign
               aExp := (normalize x.aReg).2
               bExp := (normalize x.bReg).2
               signB := Add.signB x.bReg x.subReg
               mantAExt := Add.extend (normalize x.aReg).1
               mantBExt := Add.extend (normalize x.bReg).1
               earlyExit := (Add.early x.aReg x.bReg x.subReg).isSome
               earlyResult := (Add.early x.aReg x.bReg x.subReg).getD x.earlyResult
               done := false }
    | .align =>
      if x.earlyExit then { x with state := .idle, result := x.earlyResult, done := true }
      else
        let al := Add.align x.mantAExt x.mantBExt x.aExp x.bExp
        { x with state := .addsub, mantAExt := al.1, mantBExt := al.2.1, expRes := al.2.2
                 sameSign := x.aSign == x.signB, done := false }
    | .addsub =>
      let s := Add.addsub x.sameSign x.mantAExt x.mantBExt x.aSign x.signB x.expRes
      { x with state := .normalize, mantSum := s.mantSum, resSign := s.sign, expRes := s.exp
               needNormalize := s.needNormalize, done := false }
    | .normalize =>
      if x.needNormalize then
        let n := Add.normalizeSum x.sumReg
        { x with state := .normRound, mantSum := n.1.setWidth 68, expRes := n.2, done := false }
      else { x with state := .normRound, done := false }
    | .normRound =>
      { x with state := .idle, done := true
               result := Add.normRound x.resSign (x.mantSum.setWidth 67) x.expRes x.rmReg x.rpReg }

def busy : Bool := x.state != .idle

def run (u : ℕ → UnitIn) : ℕ → AddUnit := Clocked.run clock x u

end AddUnit

namespace Add

/-! ### Runs -/

/-- The clocks from the start to the result. -/
def latency (a b : Fp80) (subtract : Bool) : ℕ := if (early a b subtract).isSome then 3 else 6

/-- The aligned mantissas and the sum of two operands. -/
def aligned (a b : Fp80) : BitVec 67 × BitVec 67 × ℤ :=
  align (extend (normalize a).1) (extend (normalize b).1) (normalize a).2 (normalize b).2

def summed (a b : Fp80) (subtract : Bool) : Sum :=
  addsub ((unpack a).sign == signB b subtract) (aligned a b).1 (aligned a b).2.1 (unpack a).sign
    (signB b subtract) (aligned a b).2.2

/-- The registers between a start and the result, `j` clocks later. -/
def Stage (a b : Fp80) (subtract : Bool) (mode : Mode) (prec : Precision) (j : ℕ) (x : AddUnit) : Prop :=
  x.done = false ∧ x.rmReg = mode ∧ x.rpReg = prec ∧
  match j with
  | 1 => x.state = .unpack ∧ x.aReg = a ∧ x.bReg = b ∧ x.subReg = subtract
  | 2 => x.state = .align ∧ x.aSign = (unpack a).sign ∧ x.signB = signB b subtract ∧
      x.mantAExt = extend (normalize a).1 ∧ x.mantBExt = extend (normalize b).1 ∧
      x.aExp = (normalize a).2 ∧ x.bExp = (normalize b).2 ∧
      x.earlyExit = (early a b subtract).isSome ∧ ∀ v, early a b subtract = some v → x.earlyResult = v
  | 3 => x.state = .addsub ∧ x.aSign = (unpack a).sign ∧ x.signB = signB b subtract ∧
      (x.mantAExt, x.mantBExt, x.expRes) = aligned a b ∧
      x.sameSign = ((unpack a).sign == signB b subtract)
  | 4 => x.state = .normalize ∧ x.sumReg = summed a b subtract
  | 5 => x.state = .normRound ∧ x.resSign = (summed a b subtract).sign ∧
      (x.mantSum.setWidth 67, x.expRes) = normalizeSum (summed a b subtract)
  | _ => False

variable {x : AddUnit} {i : UnitIn} {a b : Fp80} {subtract : Bool} {mode : Mode} {prec : Precision}

theorem stage_start (hx : x.state = .idle) (hr : i.resetN = true) (hs : i.start = true) :
    Stage i.aIn i.bIn i.subtract i.roundMode i.roundPrec 1 (x.clock i) := by
  simp [AddUnit.clock, Stage, hx, hr, hs]

theorem stage_unpack (h : Stage a b subtract mode prec 1 x) (hr : i.resetN = true) :
    Stage a b subtract mode prec 2 (x.clock i) := by
  obtain ⟨hd, rfl, rfl, hx, rfl, rfl, rfl⟩ := h
  simp +contextual [AddUnit.clock, Stage, hx, hr]

theorem stage_early {v : Fp80} (h : Stage a b subtract mode prec 2 x) (hr : i.resetN = true)
    (he : early a b subtract = some v) :
    (x.clock i).state = .idle ∧ (x.clock i).done = true ∧ (x.clock i).result = v := by
  obtain ⟨hd, hm, hp, hx, -, -, -, -, -, -, hearly, hres⟩ := h
  rw [he, Option.isSome_some] at hearly
  simp [AddUnit.clock, hx, hr, hearly, hres v he]

theorem stage_align (h : Stage a b subtract mode prec 2 x) (hr : i.resetN = true)
    (he : early a b subtract = none) : Stage a b subtract mode prec 3 (x.clock i) := by
  obtain ⟨hd, hm, hp, hx, hsA, hsB, hA, hB, heA, heB, hearly, -⟩ := h
  rw [he, Option.isSome_none] at hearly
  simp [AddUnit.clock, Stage, hx, hr, hearly, hm, hp, hsA, hsB, hA, hB, heA, heB, aligned]

theorem stage_addsub (h : Stage a b subtract mode prec 3 x) (hr : i.resetN = true) :
    Stage a b subtract mode prec 4 (x.clock i) := by
  obtain ⟨hd, hm, hp, hx, hsA, hsB, hal, hsame⟩ := h
  obtain ⟨hA, hB, hE⟩ : x.mantAExt = (aligned a b).1 ∧ x.mantBExt = (aligned a b).2.1 ∧
      x.expRes = (aligned a b).2.2 := by rw [← hal]; exact ⟨rfl, rfl, rfl⟩
  simp [AddUnit.clock, Stage, hx, hr, hm, hp, hsA, hsB, hA, hB, hE, hsame, AddUnit.sumReg, summed]

theorem stage_normalize (h : Stage a b subtract mode prec 4 x) (hr : i.resetN = true) :
    Stage a b subtract mode prec 5 (x.clock i) := by
  obtain ⟨hd, hm, hp, hx, hsum⟩ := h
  have hneed : x.needNormalize = (summed a b subtract).needNormalize := by rw [← hsum]; rfl
  have hsign : x.resSign = (summed a b subtract).sign := by rw [← hsum]; rfl
  cases hn : (summed a b subtract).needNormalize with
  | true =>
    rw [hn] at hneed
    simp [AddUnit.clock, Stage, hx, hr, hm, hp, hneed, hsum, hsign,
      BitVec.setWidth_setWidth_of_le]
  | false =>
    rw [hn] at hneed
    have hmant : x.mantSum = (summed a b subtract).mantSum := by rw [← hsum]; rfl
    have hexp : x.expRes = (summed a b subtract).exp := by rw [← hsum]; rfl
    simp [AddUnit.clock, Stage, hx, hr, hm, hp, hneed, hsign, hmant, hexp, normalizeSum, hn]

theorem stage_normRound (h : Stage a b subtract mode prec 5 x) (hr : i.resetN = true)
    (he : early a b subtract = none) :
    (x.clock i).state = .idle ∧ (x.clock i).done = true ∧
      (x.clock i).result = sum a b subtract mode prec := by
  obtain ⟨hd, rfl, rfl, hx, hsign, hnorm⟩ := h
  obtain ⟨hmant, hexp⟩ := Prod.mk.inj hnorm
  simp only [AddUnit.clock, hx, hr, Bool.not_true, Bool.false_eq_true, ↓reduceIte, true_and]
  rw [hsign, hmant, hexp, sum, he]
  rfl

theorem idle_not_busy (h : x.state = .idle) : x.busy = false := by
  rw [AddUnit.busy, h]
  rfl

theorem busy_of_ne (h : x.state ≠ .idle) : x.busy = true := bne_iff_ne.mpr h

/-- A start in the idle state is answered with the sum, whatever the inputs are meanwhile. -/
theorem answers {u : ℕ → UnitIn} {t : ℕ} (hx : (x.run u t).state = .idle)
    (hs : (u t).start = true) (hr : ∀ j < 6, (u (t + j)).resetN = true) :
    Answers (fun n => (x.run u n).busy) (fun n => (x.run u n).done) (fun n => (x.run u n).result) t
      (latency (u t).aIn (u t).bIn (u t).subtract)
      (sum (u t).aIn (u t).bIn (u t).subtract (u t).roundMode (u t).roundPrec) := by
  have h1 : Stage (u t).aIn (u t).bIn (u t).subtract (u t).roundMode (u t).roundPrec 1 (x.run u (t + 1)) :=
    stage_start hx (hr 0 (by decide)) hs
  have h2 : Stage (u t).aIn (u t).bIn (u t).subtract (u t).roundMode (u t).roundPrec 2 (x.run u (t + 2)) :=
    stage_unpack h1 (hr 1 (by decide))
  have b1 : (x.run u (t + 1)).busy = true := busy_of_ne (by rw [h1.2.2.2.1]; decide)
  have b2 : (x.run u (t + 2)).busy = true := busy_of_ne (by rw [h2.2.2.2.1]; decide)
  cases he : early (u t).aIn (u t).bIn (u t).subtract with
  | some v =>
    obtain ⟨h3, hd, hres⟩ := stage_early h2 (hr 2 (by decide)) he
    have hlat : latency (u t).aIn (u t).bIn (u t).subtract = 3 := by rw [latency, he]; rfl
    rw [hlat]
    refine ⟨fun j h0 hj => ?_, idle_not_busy h3, hd, by rw [sum, he]; exact hres⟩
    obtain rfl | rfl : j = 1 ∨ j = 2 := by omega
    · exact ⟨b1, h1.1⟩
    · exact ⟨b2, h2.1⟩
  | none =>
    have h3 : Stage (u t).aIn (u t).bIn (u t).subtract (u t).roundMode (u t).roundPrec 3 (x.run u (t + 3)) :=
      stage_align h2 (hr 2 (by decide)) he
    have h4 : Stage (u t).aIn (u t).bIn (u t).subtract (u t).roundMode (u t).roundPrec 4 (x.run u (t + 4)) :=
      stage_addsub h3 (hr 3 (by decide))
    have h5 : Stage (u t).aIn (u t).bIn (u t).subtract (u t).roundMode (u t).roundPrec 5 (x.run u (t + 5)) :=
      stage_normalize h4 (hr 4 (by decide))
    obtain ⟨h6, hd, hres⟩ := stage_normRound h5 (hr 5 (by decide)) he
    have hlat : latency (u t).aIn (u t).bIn (u t).subtract = 6 := by rw [latency, he]; rfl
    rw [hlat]
    refine ⟨fun j h0 hj => ?_, idle_not_busy h6, hd, hres⟩
    obtain rfl | rfl | rfl | rfl | rfl : j = 1 ∨ j = 2 ∨ j = 3 ∨ j = 4 ∨ j = 5 := by omega
    · exact ⟨b1, h1.1⟩
    · exact ⟨b2, h2.1⟩
    · exact ⟨busy_of_ne (by rw [h3.2.2.2.1]; decide), h3.1⟩
    · exact ⟨busy_of_ne (by rw [h4.2.2.2.1]; decide), h4.1⟩
    · exact ⟨busy_of_ne (by rw [h5.2.2.2.1]; decide), h5.1⟩

/-- The run answers a start on two numbers with their correctly rounded sum or difference. -/
theorem adds {u : ℕ → UnitIn} {t : ℕ} (hx : (x.run u t).state = .idle)
    (hs : (u t).start = true) (hr : ∀ j < 6, (u (t + j)).resetN = true) (ha : IsNumber (u t).aIn)
    (hb : IsNumber (u t).bIn)
    (h : (u t).roundPrec.lsb = 0 ∨ value (u t).aIn + signed (u t).subtract (value (u t).bIn) = 0 ∨
      2 ^ (1 - expBias) ≤ |value (u t).aIn + signed (u t).subtract (value (u t).bIn)|) :
    ∃ r v, RoundsTo ((u t).roundPrec.format ⊥) (u t).roundMode
        (value (u t).aIn + signed (u t).subtract (value (u t).bIn)) r ∧ Delivered r v ∧
      Answers (fun n => (x.run u n).busy) (fun n => (x.run u n).done) (fun n => (x.run u n).result) t 6 v := by
  obtain ⟨r, hround, hdel⟩ := sum_delivered ha hb (u t).roundMode h
  have hlat : latency (u t).aIn (u t).bIn (u t).subtract = 6 := by rw [latency, early_eq_none ha hb]; rfl
  exact ⟨r, _, hround, hdel, hlat ▸ answers hx hs hr⟩

/-- Three less a third, rounded up. -/
def threeLessThird : UnitIn where
  resetN := true
  start := true
  aIn := 0x4000C000000000000000
  bIn := 0x3FFDAAAAAAAAAAAAAAAB
  subtract := true
  roundMode := .towardPositive
  roundPrec := .extended

theorem adds_threeLessThird : ∃ r v, RoundsTo (Precision.extended.format ⊥) .towardPositive
    (value 0x4000C000000000000000 + signed true (value 0x3FFDAAAAAAAAAAAAAAAB)) r ∧ Delivered r v ∧
      Answers (fun n => (AddUnit.init.run (fun _ => threeLessThird) n).busy)
        (fun n => (AddUnit.init.run (fun _ => threeLessThird) n).done)
        (fun n => (AddUnit.init.run (fun _ => threeLessThird) n).result) 0 6 v :=
  adds (x := .init) (u := fun _ => threeLessThird) (t := 0) rfl rfl (fun _ _ => rfl)
    ⟨by decide, by decide, fun _ => by decide⟩ ⟨by decide, by decide, fun _ => by decide⟩ (.inl rfl)

end Add

end Fpu
