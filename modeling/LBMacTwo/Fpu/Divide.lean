import LBMacTwo.Fpu.DivRem

/-!
# Division

* `Div.iterated`: the iteration leaves the integer quotient and the remainder;
* `Div.quotient_rounds`: what is packed is the correctly rounded quotient, down to the least subnormal;
* `Div.divides`: a start in the idle state is answered with it.

The quotient has 67 or 68 bits. In the second case its last bit is dropped without a trace, which is
safe: where the remainder is zero the quotient is even.
-/

namespace Fpu
open Rounding Clocked DigitRecurrence

namespace Div

/-! ### The iteration -/

/-- The division of the operand above bit `n`. -/
structure Divided (D d n : ℕ) (s : BitVec 69 × BitVec 131) : Prop where
  rem : s.1.toNat = D / 2 ^ n % d
  quot : s.2.toNat = D / 2 ^ n / d * 2 ^ n

variable {divisor : BitVec 64} {dividend : BitVec 131} {s : BitVec 69 × BitVec 131}

theorem toNat_setWidth69 (v : BitVec 64) : (v.setWidth 69).toNat = v.toNat :=
  BitVec.toNat_setWidth_of_le (by decide)

theorem Divided.low {D d n : ℕ} (h : Divided D d n s) : s.2.toNat % 2 ^ n = 0 := by
  rw [h.quot, Nat.mul_mod_left]

/-- The two bits of the quotient below those that are there. -/
theorem toNat_quotPair {q : BitVec 131} {i : ℕ} (hi : 1 ≤ i) (hi' : i < 131) (hq : q.toNat % 2 ^ (i + 1) = 0)
    (b1 b0 : Bool) : (setBit (setBit q i b1) (i - 1) b0).toNat =
      q.toNat + (2 * b1.toNat + b0.toNat) * 2 ^ (i - 1) := by
  obtain ⟨k, rfl⟩ : ∃ k, i = k + 1 := ⟨i - 1, by omega⟩
  have h1 := toNat_setBit hi' hq b1
  have hmod : (setBit q (k + 1) b1).toNat % 2 ^ (k + 1) = 0 := by
    rw [h1, Nat.add_mod, Nat.mul_mod_left, add_zero, Nat.mod_mod,
      Nat.mod_eq_zero_of_dvd ((pow_dvd_pow 2 (k + 1).le_succ).trans (Nat.dvd_of_mod_eq_zero hq))]
  rw [Nat.add_sub_cancel, toNat_setBit (by omega) hmod, h1]
  ring

/-- A clock that does two bits. -/
theorem divStep_pair (hd : 0 < divisor.toNat) {idx : ℕ} (h1 : 1 ≤ idx) (h130 : idx < 130)
    (h : Divided dividend.toNat divisor.toNat (idx + 1) s) :
    Divided dividend.toNat divisor.toNat (idx - 1) (divStep divisor dividend idx s) := by
  have hdiv := divisor.isLt
  have hrlt : s.1.toNat < divisor.toNat := by
    rw [h.rem]
    exact Nat.mod_lt _ hd
  have hrem := toNat_pair (r := s.1) (by omega) (dividend.getLsbD idx) (dividend.getLsbD (idx - 1))
  have hquot := toNat_quotPair h1 (by omega) h.low
  have hbits := div_two_pow_pred dividend h1
  have hb4 : 2 * (dividend.getLsbD idx).toNat + (dividend.getLsbD (idx - 1)).toNat < 4 := by
    have := Bool.toNat_le (dividend.getLsbD idx)
    have := Bool.toNat_le (dividend.getLsbD (idx - 1))
    omega
  have hpow : 2 ^ (idx + 1) = 4 * 2 ^ (idx - 1) := by
    rw [show idx + 1 = idx - 1 + 2 by omega, pow_add]
    ring
  -- Appending two bits to the dividend appends the digit `k` to the quotient.
  have key : ∀ {k : ℕ} {r' : BitVec 69} {q' : BitVec 131},
      k * divisor.toNat ≤ 4 * s.1.toNat + (2 * (dividend.getLsbD idx).toNat + (dividend.getLsbD (idx - 1)).toNat) →
      4 * s.1.toNat + (2 * (dividend.getLsbD idx).toNat + (dividend.getLsbD (idx - 1)).toNat) <
        (k + 1) * divisor.toNat →
      r'.toNat = 4 * s.1.toNat + (2 * (dividend.getLsbD idx).toNat + (dividend.getLsbD (idx - 1)).toNat) -
        k * divisor.toNat →
      q'.toNat = s.2.toNat + k * 2 ^ (idx - 1) → Divided dividend.toNat divisor.toNat (idx - 1) (r', q') := by
    intro k r' q' h0 hlt hr' hq'
    obtain ⟨hdig, hmod⟩ := digit_eq h0 hlt
    refine ⟨?_, ?_⟩
    · rw [hbits, mod_append, ← h.rem, hmod, hr']
    · rw [hbits, div_append hd, ← h.rem, hdig, hq', h.quot, hpow]
      ring
  have hext : (divisor.setWidth 69).toNat = divisor.toNat := toNat_setWidth69 divisor
  have h2 : (divisor.setWidth 69 <<< 1).toNat = 2 * divisor.toNat := by
    rw [BitVec.toNat_shiftLeft, hext, Nat.shiftLeft_eq]
    omega
  have h3 : (divisor.setWidth 69 + divisor.setWidth 69 <<< 1).toNat = 3 * divisor.toNat := by
    rw [BitVec.toNat_add, hext, h2]
    omega
  rw [divStep, if_neg (by omega)]
  simp only [BitVec.le_def, hrem, hext, h2, h3]
  split_ifs with hc3 hc2 hc1
  · exact key (k := 3) hc3 (by omega)
      (by rw [BitVec.toNat_sub_of_le (by rw [BitVec.le_def, hrem, h3]; exact hc3), hrem, h3])
      (hquot true true)
  · exact key (k := 2) hc2 (by omega)
      (by rw [BitVec.toNat_sub_of_le (by rw [BitVec.le_def, hrem, h2]; exact hc2), hrem, h2])
      (hquot true false)
  · exact key (k := 1) (by omega) (by omega)
      (by rw [BitVec.toNat_sub_of_le (by rw [BitVec.le_def, hrem, hext]; exact hc1), hrem, hext, one_mul])
      (hquot false true)
  · exact key (k := 0) (by omega) (by omega) (by rw [hrem, zero_mul, Nat.sub_zero])
      (hquot false false)

/-- The clock at the top, which does one bit. -/
theorem divStep_top (hd : 0 < divisor.toNat) (h : Divided dividend.toNat divisor.toNat 131 s) :
    Divided dividend.toNat divisor.toNat 130 (divStep divisor dividend 130 s) := by
  have hzero : dividend.toNat / 2 ^ 131 = 0 := Nat.div_eq_of_lt dividend.isLt
  obtain rfl : s = (0, 0) := by
    refine Prod.ext (BitVec.eq_of_toNat_eq ?_) (BitVec.eq_of_toNat_eq ?_)
    · rw [h.rem, hzero, Nat.zero_mod]
      rfl
    · rw [h.quot, hzero, Nat.zero_div, zero_mul]
      rfl
  have hlt := dividend.isLt
  have hbit : (dividend.getLsbD 130).toNat = dividend.toNat / 2 ^ 130 := by
    rw [getLsbD_toNat]
    have : dividend.toNat / 2 ^ 130 < 2 := by omega
    generalize dividend.toNat / 2 ^ 130 = n at this
    obtain rfl | rfl : n = 0 ∨ n = 1 := by omega
    all_goals rfl
  have hrem : (setBit ((0 : BitVec 69) <<< 1) 0 (dividend.getLsbD 130)).toNat = dividend.toNat / 2 ^ 130 := by
    rw [toNat_setBit (by decide) (by simp), hbit]
    simp
  have hquot : ∀ b, (setBit (0 : BitVec 131) 130 b).toNat = b.toNat * 2 ^ 130 := fun b => by
    rw [toNat_setBit (by decide) (by simp)]
    simp
  have hext : (divisor.setWidth 69).toNat = divisor.toNat := toNat_setWidth69 divisor
  rw [divStep, if_pos rfl]
  simp only [BitVec.le_def, hrem, hext]
  split_ifs with hle
  · obtain ⟨hdig, hmod⟩ := digit_eq (d := divisor.toNat) (q := 1) (r := dividend.toNat / 2 ^ 130)
      (by omega) (by omega)
    refine ⟨?_, ?_⟩
    · rw [hmod, BitVec.toNat_sub_of_le (by rw [BitVec.le_def, hrem, hext]; exact hle), hrem, hext, one_mul]
    · rw [hdig, hquot]
      rfl
  · refine ⟨?_, ?_⟩
    · rw [hrem, Nat.mod_eq_of_lt (by omega)]
    · rw [Nat.div_eq_of_lt (by omega), hquot]
      rfl

/-! ### The quotient -/

/-- With the top bit of the divisor above its last, a quotient without remainder is even. -/
theorem even_quotient {m d : ℕ} (hd : d < 2 ^ 67) (hd0 : 0 < d) (hrem : m * 2 ^ 67 % d = 0) :
    m * 2 ^ 67 / d % 2 = 0 := by
  by_contra hodd
  have hq : m * 2 ^ 67 / d * d = m * 2 ^ 67 := Nat.div_mul_cancel (Nat.dvd_of_mod_eq_zero hrem)
  have hcop : Nat.Coprime (2 ^ 67) (m * 2 ^ 67 / d) :=
    Nat.Coprime.pow_left _ (Nat.coprime_two_left.mpr (Nat.odd_iff.mpr (by omega)))
  have hdvd : 2 ^ 67 ∣ d := hcop.dvd_of_dvd_mul_left ⟨m, by rw [hq, mul_comm]⟩
  exact absurd (Nat.le_of_dvd hd0 hdvd) hd.not_ge

/-- A quotient of 67 or 68 bits is cut at its leading one. -/
theorem quotMant_eq {quot : BitVec 131} {j : ℕ} (rem : BitVec 69) (hj : j ≤ 1)
    (hlead : highestOne quot 131 = 66 + j) : quotMant quot rem =
      if rem != 0 then quot.extractLsb' j 67 ||| 1#67 else quot.extractLsb' j 67 := by
  rw [quotMant, hlead]
  simp only [show 66 ≤ 66 + j by omega, show ¬ 67 < 66 + j by omega, ↓reduceIte, decide_false,
    Bool.false_and, Bool.false_eq_true, Nat.add_sub_cancel_left]

/-- A quotient and the integer below it. -/
theorem quotient_floor (m : ℕ) {d : ℕ} (hd : 0 < d) :
    ((m / d : ℕ) : ℝ) ≤ (m : ℝ) / d ∧ (m : ℝ) / d < (m / d : ℕ) + 1 ∧
      (m % d = 0 ↔ (m : ℝ) / d = (m / d : ℕ)) := by
  have hdpos : (0 : ℝ) < d := by exact_mod_cast hd
  have hsplit := Nat.div_add_mod m d
  refine ⟨Nat.cast_div_le, ?_, ?_⟩
  · rw [div_lt_iff₀ hdpos, mul_comm (_ + 1) (d : ℝ)]
    exact_mod_cast Nat.lt_mul_div_succ m hd
  · rw [div_eq_iff hdpos.ne', mul_comm _ (d : ℝ)]
    norm_cast
    omega

/-- The quotient of two normalized mantissas is a sticky integer with its leading one at the top. -/
theorem quotMant_spec {quot : BitVec 131} {rem : BitVec 69} {m d : ℕ} (hm : 2 ^ 63 ≤ m) (hm' : m < 2 ^ 64)
    (hd : 2 ^ 63 ≤ d) (hd' : d < 2 ^ 64) (hq : quot.toNat = m * 2 ^ 67 / d)
    (hr : rem.toNat = m * 2 ^ 67 % d) :
    ∃ j : ℕ, highestOne quot 131 = 66 + j ∧
      Sticky (((m * 2 ^ 67 : ℕ) : ℝ) / d / 2 ^ j) (quotMant quot rem).toNat ∧
      2 ^ 66 ≤ (quotMant quot rem).toNat := by
  have hd0 : 0 < d := by omega
  have hlo : 2 ^ 66 ≤ quot.toNat := by
    rw [hq, Nat.le_div_iff_mul_le hd0]
    omega
  have hhi : quot.toNat < 2 ^ 68 := by
    rw [hq, Nat.div_lt_iff_lt_mul hd0]
    omega
  obtain ⟨hfloor, hceil, hexact⟩ := quotient_floor (m * 2 ^ 67) hd0
  rw [← hq] at hfloor hceil hexact
  rw [← hr] at hexact
  generalize ((m * 2 ^ 67 : ℕ) : ℝ) / d = x at *
  -- One bit of the quotient may be cut, which is zero where the remainder is.
  obtain ⟨j, hj, h1, h2⟩ : ∃ j, j ≤ 1 ∧ 2 ^ (66 + j) ≤ quot.toNat ∧ quot.toNat < 2 ^ (66 + j + 1) := by
    rcases Nat.lt_or_ge quot.toNat (2 ^ 67) with h67 | h67
    · exact ⟨0, by omega, hlo, h67⟩
    · exact ⟨1, le_rfl, h67, hhi⟩
  have hlead : highestOne quot 131 = 66 + j := highestOne_eq quot.isLt h1 h2
  have htop : (quot.extractLsb' j 67).toNat = quot.toNat / 2 ^ j := by
    rw [BitVec.extractLsb'_toNat, Nat.shiftRight_eq_div_pow, Nat.mod_eq_of_lt]
    rw [Nat.div_lt_iff_lt_mul (by positivity), ← pow_add]
    exact h2.trans_eq (by congr 1; omega)
  have heven : rem.toNat = 0 → quot.toNat % 2 ^ j = 0 := by
    intro h0
    obtain rfl | rfl : j = 0 ∨ j = 1 := by omega
    · rw [pow_zero, Nat.mod_one]
    · rw [pow_one, hq]
      exact even_quotient (by omega) hd0 (hr ▸ h0)
  have hN : 2 ^ 66 ≤ quot.toNat / 2 ^ j := by
    rw [Nat.le_div_iff_mul_le (by positivity), ← pow_add]
    exact h1
  refine ⟨j, hlead, ?_⟩
  rw [quotMant_eq rem hj hlead, toNat_or_rem, htop]
  refine ⟨.of_floor_shift hfloor hceil hexact heven, ?_⟩
  split_ifs
  · exact hN
  · rw [lastSet]
    omega

theorem signed_div (s t : Bool) (x y : ℝ) : signed s x / signed t y = signed (s ^^ t) (x / y) := by
  cases s <;> cases t <;> simp [signed, neg_div, div_neg]

theorem quotient_scale (m d j : ℕ) (e f : ℤ) : (m : ℝ) * 2 ^ e / (d * 2 ^ f) =
    ((m * 2 ^ 67 : ℕ) : ℝ) / d / 2 ^ j * 2 ^ (e - f - 67 + j) := by
  have hpow : (2 : ℝ) ^ (e - f - 67 + j) = 2 ^ e / 2 ^ f / 2 ^ 67 * 2 ^ j := by
    rw [zpow_add₀ two_ne_zero, zpow_sub₀ two_ne_zero, zpow_sub₀ two_ne_zero, zpow_natCast]
    norm_num
  rw [hpow]
  push_cast
  field_simp
  norm_num

/-- The exponent of a quotient with its leading one at bit 67. -/
def expDiff (a b : Fp80) : ℤ := (normalize a).2 - (normalize b).2 + expBias

/-- What is packed of the quotient and the remainder is the correctly rounded quotient. -/
theorem quotient_rounds {a b : Fp80} (ha : IsNumber a) (hb : IsNumber b)
    (h : Divided ((normalize a).1 ++ 0#67).toNat (normalize b).1.toNat 0 s) (mode : Mode) (prec : Precision) :
    ∃ r, RoundsTo (gradual prec) mode (value a / value b) r ∧
      Encodes r (postRound ((unpack a).sign ^^ (unpack b).sign) (postDiv s.2 s.1 (expDiff a b)).1
        (postDiv s.2 s.1 (expDiff a b)).2 mode prec .none).1 ∧
      Raised (value a / value b) r (postRound ((unpack a).sign ^^ (unpack b).sign)
        (postDiv s.2 s.1 (expDiff a b)).1 (postDiv s.2 s.1 (expDiff a b)).2 mode prec .none).2 := by
  have hdividend : ((normalize a).1 ++ 0#67).toNat = (normalize a).1.toNat * 2 ^ 67 := by
    rw [BitVec.toNat_append, BitVec.toNat_ofNat, Nat.zero_mod, Nat.or_zero, Nat.shiftLeft_eq]
  have hrem := h.rem
  have hquot := h.quot
  rw [pow_zero, Nat.div_one, hdividend] at hrem hquot
  rw [mul_one] at hquot
  obtain ⟨j, hlead, hsticky, htop⟩ := quotMant_spec (normalize_top ha) (normalize a).1.isLt
    (normalize_top hb) (normalize b).1.isLt hquot hrem
  have hround := postRound_rounds hsticky htop ((unpack a).sign ^^ (unpack b).sign)
    (expDiff a b + (highestOne s.2 131 - 67)) mode prec
  have hval : value a / value b = signed ((unpack a).sign ^^ (unpack b).sign)
      ((((normalize a).1.toNat * 2 ^ 67 : ℕ) : ℝ) / (normalize b).1.toNat / 2 ^ j *
        2 ^ (expDiff a b + (highestOne s.2 131 - 67) - mantBias - 3)) := by
    rw [value_normalize ha, value_normalize hb, signed_div, hlead, expDiff, mantBias]
    congr 1
    rw [quotient_scale _ _ j]
    congr 2
    push_cast
    ring
  rw [hval]
  exact hround

/-! ### Runs -/

/-- The iteration down to bit `idx`. -/
structure Dividing (q : Request) (idx : ℕ) (x : DivUnit) : Prop extends Held q x where
  state : x.state = .divIter
  iterIdx : x.iterIdx = idx
  divisor : x.divisor = (normalize q.b).1
  dividend : x.dividend = (normalize q.a).1 ++ 0#67
  sign : x.divSign = ((unpack q.a).sign ^^ (unpack q.b).sign)
  expBase : x.divExpBase = expDiff q.a q.b
  divided : Divided ((normalize q.a).1 ++ 0#67).toNat (normalize q.b).1.toNat (idx + 1) (x.rem, x.quot)

/-- The iteration is over. -/
structure Quotient (q : Request) (x : DivUnit) : Prop extends Held q x where
  sign : x.divSign = ((unpack q.a).sign ^^ (unpack q.b).sign)
  expBase : x.divExpBase = expDiff q.a q.b
  divided : Divided ((normalize q.a).1 ++ 0#67).toNat (normalize q.b).1.toNat 0 (x.rem, x.quot)

variable {x : DivUnit} {i : UnitIn} {q : Request} (op : DivOp)

theorem dividing_start (h : Held q x) (hx : x.state = .classify) (hr : i.resetN = true) (hop : q.op = .div)
    (he : early .div q.a q.b = none) : Dividing q 130 (x.clock op i) := by
  have hzero : ((normalize q.a).1 ++ 0#67).toNat / 2 ^ 131 = 0 := Nat.div_eq_of_lt (BitVec.isLt _)
  simp only [DivUnit.clock, hx, hr, Bool.not_true, Bool.false_eq_true, ↓reduceIte, DivUnit.classify, h.op,
    h.a, h.b, he, hop]
  exact {
    toHeld := ⟨hop.symm, rfl, rfl, h.mode, h.prec, h.flags, rfl⟩
    state := rfl, iterIdx := rfl, divisor := rfl, dividend := rfl, sign := rfl, expBase := rfl
    divided := ⟨by rw [hzero]; rfl, by rw [hzero]; simp⟩ }

variable {idx : ℕ}

/-- A clock of the iteration. -/
theorem Dividing.clock_top (h : Dividing q 130 x) (hr : i.resetN = true) (hb : IsNumber q.b) :
    Dividing q 129 (x.clock op i) := by
  have hstep := divStep_top ((Nat.two_pow_pos 63).trans_le (normalize_top hb)) h.divided
  simp only [DivUnit.clock, h.state, hr, Bool.not_true, Bool.false_eq_true, ↓reduceIte, h.iterIdx,
    h.divisor, h.dividend]
  exact {
    toHeld := ⟨h.op, h.a, h.b, h.mode, h.prec, h.flags, rfl⟩
    state := rfl, iterIdx := rfl, divisor := rfl, dividend := rfl
    sign := h.sign, expBase := h.expBase, divided := hstep }

theorem Dividing.clock (h : Dividing q (idx + 2) x) (h130 : idx + 2 < 130) (h0 : 0 < idx)
    (hr : i.resetN = true) (hb : IsNumber q.b) : Dividing q idx (x.clock op i) := by
  have hstep := divStep_pair ((Nat.two_pow_pos 63).trans_le (normalize_top hb)) (by omega) h130 h.divided
  simp only [DivUnit.clock, h.state, hr, Bool.not_true, Bool.false_eq_true, ↓reduceIte, h.iterIdx,
    h.divisor, h.dividend, show idx + 2 ≠ 130 by omega, show ¬ idx + 2 ≤ 1 by omega]
  exact {
    toHeld := ⟨h.op, h.a, h.b, h.mode, h.prec, h.flags, rfl⟩
    state := rfl, iterIdx := rfl, divisor := rfl, dividend := rfl
    sign := h.sign, expBase := h.expBase, divided := hstep }

theorem Dividing.clock_last (h : Dividing q 1 x) (hr : i.resetN = true) (hb : IsNumber q.b) :
    (x.clock op i).state = .postDivPre ∧ Quotient q (x.clock op i) := by
  have hstep := divStep_pair ((Nat.two_pow_pos 63).trans_le (normalize_top hb)) le_rfl (by decide) h.divided
  simp only [DivUnit.clock, h.state, hr, Bool.not_true, Bool.false_eq_true, ↓reduceIte, h.iterIdx,
    h.divisor, h.dividend, show (1 : ℕ) ≠ 130 by decide, le_refl]
  exact ⟨trivial, {
    toHeld := ⟨h.op, h.a, h.b, h.mode, h.prec, h.flags, rfl⟩
    sign := h.sign, expBase := h.expBase, divided := hstep }⟩

theorem Quotient.clock (h : Quotient q x) (hx : x.state = .postDivPre) (hr : i.resetN = true) :
    (x.clock op i).state = .postDiv ∧ Quotient q (x.clock op i) := by
  simp only [DivUnit.clock, hx, hr, Bool.not_true, Bool.false_eq_true, ↓reduceIte]
  exact ⟨trivial, {
    toHeld := ⟨h.op, h.a, h.b, h.mode, h.prec, h.flags, rfl⟩
    sign := h.sign, expBase := h.expBase, divided := h.divided }⟩

theorem Quotient.finishing (h : Quotient q x) (hx : x.state = .postDiv) (hr : i.resetN = true) :
    Finishing q ((unpack q.a).sign ^^ (unpack q.b).sign) (postDiv x.quot x.rem (expDiff q.a q.b))
      (x.clock op i) := by
  simp only [DivUnit.clock, hx, hr, Bool.not_true, Bool.false_eq_true, ↓reduceIte]
  exact {
    toHeld := ⟨h.op, h.a, h.b, h.mode, h.prec, h.flags, rfl⟩
    state := rfl, sign := h.sign, mant := by rw [h.expBase], exp := by rw [h.expBase]
    postRm := h.mode, postRp := h.prec }

/-- The iteration of a run, from the second clock of it on. -/
theorem run_dividing {u : ℕ → DivOp × UnitIn} {t : ℕ} (h : Dividing q 130 (x.run u (t + 2))) (hb : IsNumber q.b)
    (hr : ∀ j < 72, (u (t + j)).2.resetN = true) {k : ℕ} (hk : k < 65) :
    Dividing q (129 - 2 * k) (x.run u (t + 3 + k)) := by
  induction k with
  | zero => exact h.clock_top _ (hr 2 (by decide)) hb
  | succ k ih =>
    have hprev := ih (by omega)
    rw [show 129 - 2 * k = 129 - 2 * (k + 1) + 2 by omega] at hprev
    have hreset := hr (3 + k) (by omega)
    rw [← add_assoc] at hreset
    exact hprev.clock _ (by omega) (by omega) hreset hb

theorem divEarly_eq_none {a b : Fp80} (ha : IsNumber a) (hb : IsNumber b) : divEarly a b = none := by
  simp [divEarly, ha.isNan, hb.isNan, ha.isZero, hb.isZero, ha.finite, hb.finite]

/-- The run answers a start on two numbers with their correctly rounded quotient. -/
theorem divides {u : ℕ → DivOp × UnitIn} {t : ℕ} (hx : (x.run u t).state = .idle) (hop : (u t).1 = .div)
    (hs : (u t).2.start = true) (hr : ∀ j < 72, (u (t + j)).2.resetN = true)
    (ha : IsNumber (u t).2.aIn) (hb : IsNumber (u t).2.bIn) :
    ∃ r v, RoundsTo (gradual (u t).2.roundPrec) (u t).2.roundMode
        (value (u t).2.aIn / value (u t).2.bIn) r ∧
      Encodes r v ∧ Raised (value (u t).2.aIn / value (u t).2.bIn) r (x.run u (t + 72)).flags ∧
      Answers (fun n => (x.run u n).busy) (fun n => (x.run u n).done) (fun n => (x.run u n).result) t 72 v := by
  obtain ⟨hx1, h1⟩ := held_start (u t).1 hx (hr 0 (by decide)) hs
  have h2 : Dividing _ 130 (x.run u (t + 2)) :=
    dividing_start _ h1 hx1 (hr 1 (by decide)) hop (divEarly_eq_none ha hb)
  have hiter {k : ℕ} (hk : k < 65) := run_dividing h2 hb hr hk
  obtain ⟨hx68, h68⟩ := (hiter (k := 64) (by decide)).clock_last (u (t + 67)).1 (hr 67 (by decide)) hb
  obtain ⟨hx69, h69⟩ := h68.clock (u (t + 68)).1 hx68 (hr 68 (by decide))
  have h70 := h69.finishing (u (t + 69)).1 hx69 (hr 69 (by decide))
  have h71 := h70.finished (u (t + 70)).1 (hr 70 (by decide))
  obtain ⟨hidle, hdone, hres, hflags⟩ := h71.done (u (t + 71)).1 (hr 71 (by decide))
  obtain ⟨r, hround, henc, hraised⟩ := quotient_rounds ha hb h69.divided (u t).2.roundMode (u t).2.roundPrec
  refine ⟨r, _, hround, henc, hflags.symm ▸ hraised, fun j h0 hj => ?_, hidle, hdone, hres⟩
  have hk : j = 1 ∨ j = 2 ∨ (∃ k < 65, j = 3 + k) ∨ j = 68 ∨ j = 69 ∨ j = 70 ∨ j = 71 := by
    by_cases hmid : 3 ≤ j ∧ j < 68
    · exact .inr (.inr (.inl ⟨j - 3, by omega, by omega⟩))
    · omega
  obtain rfl | rfl | ⟨k, hk, rfl⟩ | rfl | rfl | rfl | rfl := hk
  · exact h1.working (by rw [hx1]; decide)
  · exact h2.working (by rw [h2.state]; decide)
  · rw [← add_assoc]
    exact (hiter hk).working (by rw [(hiter hk).state]; decide)
  · exact h68.working (by rw [hx68]; decide)
  · exact h69.working (by rw [hx69]; decide)
  · exact h70.working (by rw [h70.state]; decide)
  · exact h71.working

/-- One by three, with the start held. -/
def oneByThree : UnitIn where
  resetN := true
  start := true
  aIn := 0x3FFF8000000000000000
  bIn := 0x4000C000000000000000
  subtract := false
  roundMode := .towardPositive
  roundPrec := .double

theorem divides_oneByThree : ∃ r v, RoundsTo (gradual .double) .towardPositive
    (value 0x3FFF8000000000000000 / value 0x4000C000000000000000) r ∧ Encodes r v ∧
      Raised (value 0x3FFF8000000000000000 / value 0x4000C000000000000000) r
        (DivUnit.init.run (fun _ => (.div, oneByThree)) 72).flags ∧
      Answers (fun n => (DivUnit.init.run (fun _ => (.div, oneByThree)) n).busy)
        (fun n => (DivUnit.init.run (fun _ => (.div, oneByThree)) n).done)
        (fun n => (DivUnit.init.run (fun _ => (.div, oneByThree)) n).result) 0 72 v :=
  divides (x := .init) (u := fun _ => (.div, oneByThree)) (t := 0) rfl rfl rfl (fun _ _ => rfl)
    ⟨by decide, by decide, fun _ => by decide⟩ ⟨by decide, by decide, fun _ => by decide⟩

end Div

end Fpu
