import LBMacTwo.Fpu.DivRem

/-!
# The square root

* `Div.sqrtStep_rooted`: a clock of the iteration finds one bit of the root;
* `Div.root_rounds`: what is packed is the correctly rounded root;
* `Div.root_bounds`: it is far from both ends of the range;
* `Div.roots`: a start in the idle state is answered with it.
-/

namespace Fpu
open Rounding Clocked DigitRecurrence

namespace Div

/-! ### The iteration -/

/-- The root of the `k` highest pairs of bits, and what is left of them. -/
structure Rooted (D k : ℕ) (s : BitVec 69 × BitVec 67) : Prop where
  root : s.2.toNat = Nat.sqrt (D / 2 ^ (134 - 2 * k))
  rem : s.1.toNat = D / 2 ^ (134 - 2 * k) - Nat.sqrt (D / 2 ^ (134 - 2 * k)) ^ 2

variable {radicand : BitVec 134} {s : BitVec 69 × BitVec 67} {k : ℕ}

/-- The root of the pairs that are done has no more bits than there are pairs. -/
theorem sqrt_lt (hk : k ≤ 67) : Nat.sqrt (radicand.toNat / 2 ^ (134 - 2 * k)) < 2 ^ k := by
  rw [Nat.sqrt_lt', Nat.div_lt_iff_lt_mul (by positivity), ← pow_mul, ← pow_add,
    show k * 2 + (134 - 2 * k) = 134 by omega]
  exact radicand.isLt

/-- A clock of the iteration. -/
theorem sqrtStep_rooted (h : Rooted radicand.toNat k s) (hk : k ≤ 66) :
    Rooted radicand.toNat (k + 1) (sqrtStep radicand k s) := by
  have hroot : s.2.toNat < 2 ^ 66 := by
    rw [h.root]
    exact (sqrt_lt (by omega)).trans_le (Nat.pow_le_pow_right two_pos hk)
  have hrem : s.1.toNat ≤ 2 * s.2.toNat := by
    rw [h.rem, h.root]
    exact sub_sqrt_le _
  have hpair := toNat_pair (r := s.1) (by omega) (radicand.getLsbD (133 - k * 2))
    (radicand.getLsbD (133 - k * 2 - 1))
  have hbits := div_two_pow_pred radicand (i := 133 - k * 2) (by omega)
  have hb4 : 2 * (radicand.getLsbD (133 - k * 2)).toNat + (radicand.getLsbD (133 - k * 2 - 1)).toNat < 4 := by
    have := Bool.toNat_le (radicand.getLsbD (133 - k * 2))
    have := Bool.toNat_le (radicand.getLsbD (133 - k * 2 - 1))
    omega
  rw [show 133 - k * 2 - 1 = 134 - 2 * (k + 1) by omega, show 133 - k * 2 + 1 = 134 - 2 * k by omega] at hbits
  rw [show 133 - k * 2 - 1 = 134 - 2 * (k + 1) by omega] at hpair hb4
  have htrial : (s.2.setWidth 69 <<< 2 + 1#69).toNat = 4 * s.2.toNat + 1 := by
    rw [BitVec.toNat_add, BitVec.toNat_shiftLeft, Nat.shiftLeft_eq, BitVec.toNat_setWidth_of_le (by decide)]
    simp only [BitVec.toNat_ofNat]
    omega
  have hdouble : (s.2 <<< 1).toNat = 2 * s.2.toNat := by
    rw [BitVec.toNat_shiftLeft, Nat.shiftLeft_eq]
    omega
  obtain ⟨happend, happend'⟩ := sqrt_append (radicand.toNat / 2 ^ (134 - 2 * k)) hb4
  rw [← h.rem, ← h.root, ← hbits] at happend happend'
  rw [sqrtStep, show 133 - k * 2 - 1 = 134 - 2 * (k + 1) by omega]
  simp only [BitVec.le_def, hpair, htrial]
  split_ifs with hle
  · obtain ⟨h1, h2⟩ := happend hle
    refine ⟨?_, ?_⟩
    · rw [toNat_or_one (by decide), hdouble, h1, lastSet]
      omega
    · rw [BitVec.toNat_sub_of_le (by rw [BitVec.le_def, hpair, htrial]; exact hle), hpair, htrial, h2]
  · obtain ⟨h1, h2⟩ := happend' (not_le.mp hle)
    exact ⟨hdouble.trans h1.symm, hpair.trans h2.symm⟩

theorem rooted_zero : Rooted radicand.toNat 0 (0, 0) := by
  have hzero : radicand.toNat / 2 ^ (134 - 2 * 0) = 0 := Nat.div_eq_of_lt radicand.isLt
  exact ⟨by rw [hzero]; rfl, by rw [hzero]; rfl⟩

/-! ### The root -/

/-- A root and the integer below it. -/
theorem sqrt_floor (n : ℕ) : (Nat.sqrt n : ℝ) ≤ √n ∧ √n < Nat.sqrt n + 1 ∧
    (n - Nat.sqrt n ^ 2 = 0 ↔ √n = Nat.sqrt n) := by
  refine ⟨Real.nat_sqrt_le_real_sqrt, Real.real_sqrt_lt_nat_sqrt_succ, ?_⟩
  have hle := Nat.sqrt_le' n
  rw [Real.sqrt_eq_iff_eq_sq (by positivity) (by positivity)]
  norm_cast
  omega

theorem value_positive {a : Fp80} (hexp : (unpack a).exp ≠ 0) (hsign : (unpack a).sign = false) :
    value a = (unpack a).mant.toNat * (2 : ℝ) ^ ((unpack a).exp.toNat - mantBias) := by
  rw [value, ofSignificand, exponent, if_neg hexp, hsign]
  simp only [signed, Bool.false_eq_true, ↓reduceIte]

/-- A normal number that is not negative, at an even exponent. -/
theorem value_sqrtEven {a : Fp80} (ha : IsNumber a) (hexp : (unpack a).exp ≠ 0) (hsign : (unpack a).sign = false) :
    2 ^ 64 ≤ (sqrtEven a).2.toNat ∧ 2 ∣ (sqrtEven a).1 ∧
      value a = (sqrtEven a).2.toNat * (2 : ℝ) ^ ((sqrtEven a).1 - 64) := by
  have htop := ha.top hexp
  have hlt := (unpack a).mant.isLt
  have hshift : ∀ k ≤ 2, ((unpack a).mant.setWidth 66 <<< k).toNat = (unpack a).mant.toNat * 2 ^ k := by
    intro k hk
    rw [BitVec.toNat_shiftLeft, BitVec.toNat_setWidth_of_le (by decide), Nat.shiftLeft_eq, Nat.mod_eq_of_lt]
    calc (unpack a).mant.toNat * 2 ^ k ≤ (unpack a).mant.toNat * 2 ^ 2 :=
          Nat.mul_le_mul_left _ (Nat.pow_le_pow_right two_pos hk)
      _ < 2 ^ 66 := by omega
  have hval : ∀ k : ℕ, ∀ e : ℤ, (unpack a).exp.toNat - mantBias = k + e → value a =
      ((unpack a).mant.toNat * 2 ^ k : ℕ) * (2 : ℝ) ^ e := by
    intro k e he
    rw [value_positive hexp hsign, he, zpow_add₀ two_ne_zero, zpow_natCast]
    push_cast
    ring
  rw [sqrtEven, sqrtUnbiased, if_neg hexp]
  simp only
  split_ifs with hodd
  · rw [hshift 2 le_rfl]
    refine ⟨by omega, by omega, hval 2 _ ?_⟩
    rw [mantBias]
    push_cast
    ring
  · rw [hshift 1 (by decide)]
    refine ⟨by omega, by omega, hval 1 _ ?_⟩
    rw [mantBias]
    push_cast
    ring

/-- What is packed of the root is the correctly rounded root. -/
theorem root_rounds {a : Fp80} (ha : IsNumber a) (hexp : (unpack a).exp ≠ 0) (hsign : (unpack a).sign = false)
    (h : Rooted (sqrtRadicand a).toNat 67 s) (mode : Mode) (prec : Precision) :
    ∃ r, RoundsTo (gradual prec) mode √(value a) r ∧
      Encodes r (postRound false (sqrtPost s.2 s.1 (sqrtExpOut a)).1 (sqrtPost s.2 s.1 (sqrtExpOut a)).2
        mode prec .none).1 ∧
      Raised √(value a) r (postRound false (sqrtPost s.2 s.1 (sqrtExpOut a)).1
        (sqrtPost s.2 s.1 (sqrtExpOut a)).2 mode prec .none).2 := by
  obtain ⟨hlo, heven, hval⟩ := value_sqrtEven ha hexp hsign
  have hrad : (sqrtRadicand a).toNat = (sqrtEven a).2.toNat * 2 ^ 68 := by
    have hlt := (sqrtEven a).2.isLt
    rw [sqrtRadicand, BitVec.toNat_shiftLeft, BitVec.toNat_setWidth_of_le (by decide), Nat.shiftLeft_eq]
    omega
  obtain ⟨hroot, hrem⟩ := h
  rw [Nat.mul_comm, show 134 - 67 * 2 = 0 by decide, pow_zero, Nat.div_one] at hroot hrem
  obtain ⟨hfloor, hceil, hexact⟩ := sqrt_floor (sqrtRadicand a).toNat
  rw [← hroot] at hfloor hceil hexact hrem
  rw [← hrem] at hexact
  have hsticky : Sticky √((sqrtRadicand a).toNat : ℝ) (if s.1 != 0 then s.2 ||| 1#67 else s.2).toNat := by
    rw [toNat_or_rem]
    exact .of_floor hfloor hceil hexact
  have htop : 2 ^ 66 ≤ s.2.toNat := by
    rw [hroot, Nat.le_sqrt', hrad]
    omega
  have htop' : 2 ^ 66 ≤ (if s.1 != 0 then s.2 ||| 1#67 else s.2).toNat := by
    rw [toNat_or_rem, lastSet]
    split_ifs <;> omega
  have hround := postRound_rounds hsticky htop' false (sqrtExpOut a) mode prec
  have hsqrt : √(value a) = signed false (√((sqrtRadicand a).toNat : ℝ) * 2 ^ (sqrtExpOut a - mantBias - 3)) := by
    obtain ⟨e, he⟩ := heven
    have hscale : value a = (sqrtRadicand a).toNat * ((2 : ℝ) ^ (sqrtExpOut a - mantBias - 3)) ^ 2 := by
      rw [hval, hrad, sqrtExpOut, mantBias, he, Int.mul_ediv_cancel_left _ two_ne_zero, ← zpow_natCast,
        ← zpow_mul, show 2 * e - 64 = ((68 : ℕ) : ℤ) + (e + expBias - (expBias + 63) - 3) * ((2 : ℕ) : ℤ) by
          push_cast; ring, zpow_add₀ two_ne_zero, zpow_natCast]
      push_cast
      ring
    rw [hscale, Real.sqrt_mul (Nat.cast_nonneg _), Real.sqrt_sq (zpow_nonneg zero_le_two _)]
    simp only [signed, Bool.false_eq_true, ↓reduceIte]
  rw [hsqrt]
  exact hround

theorem representable_two_zpow (prec : Precision) {e : ℤ} (he : -16382 ≤ e) :
    (gradual prec).Representable ((2 : ℝ) ^ e) := by
  have hl := prec.lsb_le
  refine ⟨1, e, ?_, ?_, by simp⟩
  · rw [abs_one]
    exact one_lt_pow₀ one_lt_two (by have := (gradual prec).two_le; omega)
  · exact WithBot.coe_le_coe.mpr (by rw [mantBias, expBias]; omega)

/-- The root of a normal number is far from both ends of the range, and so is what it is rounded to. -/
theorem root_bounds {a : Fp80} (ha : IsNumber a) (hexp : (unpack a).exp ≠ 0)
    (hsign : (unpack a).sign = false) {mode : Mode} {prec : Precision} {r : ℝ}
    (h : RoundsTo (gradual prec) mode √(value a) r) : (2 : ℝ) ^ (-8191 : ℤ) ≤ r ∧ r ≤ 2 ^ (8192 : ℤ) := by
  have htop := ha.top hexp
  have hval := value_positive hexp hsign
  obtain ⟨hlo, hhi⟩ := mant_bounds (unpack a).exp.toNat htop
  rw [← hval] at hlo hhi
  have hpos : 0 < (unpack a).exp.toNat :=
    Nat.pos_of_ne_zero fun hc => hexp (BitVec.eq_of_toNat_eq hc)
  have hmax : (unpack a).exp.toNat < 32767 := by
    have hne : (unpack a).exp.toNat ≠ 32767 := fun hc => ha.finite (BitVec.eq_of_toNat_eq hc)
    have := (unpack a).exp.isLt
    omega
  refine ⟨h.le_of_le (representable_two_zpow prec (by decide)) ?_,
    h.ge_of_ge (representable_two_zpow prec (by decide)) ?_⟩
  · rw [Real.le_sqrt (by positivity) ((zpow_pos two_pos _).le.trans hlo), ← zpow_natCast, ← zpow_mul]
    exact (zpow_le_zpow_right₀ one_le_two (by rw [expBias]; omega)).trans hlo
  · rw [Real.sqrt_le_left (by positivity), ← zpow_natCast, ← zpow_mul]
    exact hhi.le.trans (zpow_le_zpow_right₀ one_le_two (by rw [expBias]; omega))

/-- A root neither overflows nor underflows. -/
theorem Raised.within {exact r : ℝ} {f : Flags} (h : Raised exact r f) (hlo : (2 : ℝ) ^ (-8191 : ℤ) ≤ r)
    (hhi : r ≤ 2 ^ (8192 : ℤ)) : f.overflow = false ∧ f.underflow = false := by
  have habs : |r| = r := abs_of_pos ((zpow_pos two_pos _).trans_le hlo)
  rw [Bool.eq_false_iff, Bool.eq_false_iff, Ne, Ne, h.overflow, h.underflow, habs, not_le, not_and, not_lt]
  constructor
  · exact hhi.trans_lt (zpow_lt_zpow_right₀ one_lt_two (by rw [expBias]; norm_num))
  · exact fun _ => (zpow_le_zpow_right₀ one_le_two (by rw [expBias]; norm_num)).trans hlo

/-! ### Runs -/

/-- The iteration after `k` bits of the root. -/
structure Rooting (q : Request) (k : ℕ) (x : DivUnit) : Prop extends Held q x where
  state : x.state = .sqrtIter
  iterIdx : x.sqrtIterIdx = k
  radicand : x.sqrtRadicand = sqrtRadicand q.a
  sign : x.divSign = false
  expOut : x.sqrtExpOut = sqrtExpOut q.a
  rooted : Rooted (sqrtRadicand q.a).toNat k (x.rem, x.sqrtRoot)

/-- The iteration is over. -/
structure Root (q : Request) (x : DivUnit) : Prop extends Held q x where
  state : x.state = .sqrtPost
  sign : x.divSign = false
  expOut : x.sqrtExpOut = sqrtExpOut q.a
  rooted : Rooted (sqrtRadicand q.a).toNat 67 (x.rem, x.sqrtRoot)

variable {x : DivUnit} {i : UnitIn} {q : Request} (op : DivOp)

theorem rooting_start (h : Held q x) (hx : x.state = .classify) (hr : i.resetN = true) (hop : q.op = .sqrt)
    (he : early .sqrt q.a q.b = none) : Rooting q 0 (x.clock op i) := by
  simp only [DivUnit.clock, hx, hr, Bool.not_true, Bool.false_eq_true, ↓reduceIte, DivUnit.classify, h.op,
    h.a, h.b, he, hop]
  exact {
    toHeld := ⟨hop.symm, rfl, rfl, h.mode, h.prec, h.flags, rfl⟩
    state := rfl, iterIdx := rfl, radicand := rfl, sign := rfl, expOut := rfl
    rooted := rooted_zero }

theorem Rooting.clock (h : Rooting q k x) (hk : k < 66) (hr : i.resetN = true) :
    Rooting q (k + 1) (x.clock op i) := by
  have hstep := sqrtStep_rooted h.rooted hk.le
  simp only [DivUnit.clock, h.state, hr, Bool.not_true, Bool.false_eq_true, ↓reduceIte, h.iterIdx,
    h.radicand, hk.ne]
  exact {
    toHeld := ⟨h.op, h.a, h.b, h.mode, h.prec, h.flags, rfl⟩
    state := rfl, iterIdx := rfl, radicand := rfl, sign := h.sign, expOut := h.expOut
    rooted := hstep }

theorem Rooting.clock_last (h : Rooting q 66 x) (hr : i.resetN = true) : Root q (x.clock op i) := by
  have hstep := sqrtStep_rooted h.rooted le_rfl
  simp only [DivUnit.clock, h.state, hr, Bool.not_true, Bool.false_eq_true, ↓reduceIte, h.iterIdx,
    h.radicand]
  exact {
    toHeld := ⟨h.op, h.a, h.b, h.mode, h.prec, h.flags, rfl⟩
    state := rfl, sign := h.sign, expOut := h.expOut, rooted := hstep }

theorem Root.finishing (h : Root q x) (hr : i.resetN = true) :
    Finishing q false (sqrtPost x.sqrtRoot x.rem (sqrtExpOut q.a)) (x.clock op i) := by
  simp only [DivUnit.clock, h.state, hr, Bool.not_true, Bool.false_eq_true, ↓reduceIte]
  exact {
    toHeld := ⟨h.op, h.a, h.b, h.mode, h.prec, h.flags, rfl⟩
    state := rfl, sign := h.sign, mant := by rw [h.expOut], exp := by rw [h.expOut]
    postRm := h.mode, postRp := h.prec }

/-- The iteration of a run. -/
theorem run_rooting {u : ℕ → DivOp × UnitIn} {t : ℕ} (h : Rooting q 0 (x.run u (t + 2)))
    (hr : ∀ j < 72, (u (t + j)).2.resetN = true) (hk : k ≤ 66) : Rooting q k (x.run u (t + 2 + k)) := by
  induction k with
  | zero => exact h
  | succ k ih =>
    have hreset := hr (2 + k) (by omega)
    rw [← add_assoc] at hreset
    exact (ih (by omega)).clock _ hk hreset

theorem sqrtEarly_eq_none {a : Fp80} (ha : IsNumber a) (hsign : (unpack a).sign = false) : sqrtEarly a = none := by
  simp [sqrtEarly, ha.isNan, ha.isInf, ha.isZero, hsign]

/-- A start on a positive number that is not subnormal is answered with the answer that its root
gives, whatever the inputs are meanwhile. -/
theorem answers_root {u : ℕ → DivOp × UnitIn} {t : ℕ} (hx : (x.run u t).state = .idle) (hop : (u t).1 = .sqrt)
    (hs : (u t).2.start = true) (hr : ∀ j < 72, (u (t + j)).2.resetN = true)
    (he : sqrtEarly (u t).2.aIn = none) : ∃ s : BitVec 69 × BitVec 67,
      Rooted (sqrtRadicand (u t).2.aIn).toNat 67 s ∧
      (x.run u (t + 72)).flags = (postRound false (sqrtPost s.2 s.1 (sqrtExpOut (u t).2.aIn)).1
        (sqrtPost s.2 s.1 (sqrtExpOut (u t).2.aIn)).2 (u t).2.roundMode (u t).2.roundPrec .none).2 ∧
      Answers (fun n => (x.run u n).busy) (fun n => (x.run u n).done) (fun n => (x.run u n).result) t 72
        (postRound false (sqrtPost s.2 s.1 (sqrtExpOut (u t).2.aIn)).1
          (sqrtPost s.2 s.1 (sqrtExpOut (u t).2.aIn)).2 (u t).2.roundMode (u t).2.roundPrec .none).1 := by
  obtain ⟨hx1, h1⟩ := held_start (u t).1 hx (hr 0 (by decide)) hs
  have h2 : Rooting _ 0 (x.run u (t + 2)) := rooting_start _ h1 hx1 (hr 1 (by decide)) hop he
  have hiter {k : ℕ} (hk : k ≤ 66) := run_rooting h2 hr hk
  have h69 := (hiter (k := 66) le_rfl).clock_last (u (t + 68)).1 (hr 68 (by decide))
  have h70 := h69.finishing (u (t + 69)).1 (hr 69 (by decide))
  have h71 := h70.finished (u (t + 70)).1 (hr 70 (by decide))
  obtain ⟨hidle, hdone, hres, hflags⟩ := h71.done (u (t + 71)).1 (hr 71 (by decide))
  refine ⟨_, h69.rooted, hflags, fun j h0 hj => ?_, hidle, hdone, hres⟩
  have hk : j = 1 ∨ (∃ k ≤ 66, j = 2 + k) ∨ j = 69 ∨ j = 70 ∨ j = 71 := by
    by_cases hmid : 2 ≤ j ∧ j < 69
    · exact .inr (.inl ⟨j - 2, by omega, by omega⟩)
    · omega
  obtain rfl | ⟨k, hk, rfl⟩ | rfl | rfl | rfl := hk
  · exact h1.working (by rw [hx1]; decide)
  · rw [← add_assoc]
    exact (hiter hk).working (by rw [(hiter hk).state]; decide)
  · exact h69.working (by rw [h69.state]; decide)
  · exact h70.working (by rw [h70.state]; decide)
  · exact h71.working

/-- The run answers a start on a positive number that is not subnormal with its correctly rounded
root, which never overflows or underflows. -/
theorem roots {u : ℕ → DivOp × UnitIn} {t : ℕ} (hx : (x.run u t).state = .idle) (hop : (u t).1 = .sqrt)
    (hs : (u t).2.start = true) (hr : ∀ j < 72, (u (t + j)).2.resetN = true) (ha : IsNumber (u t).2.aIn)
    (hexp : (unpack (u t).2.aIn).exp ≠ 0) (hsign : (unpack (u t).2.aIn).sign = false) :
    ∃ r v, RoundsTo (gradual (u t).2.roundPrec) (u t).2.roundMode √(value (u t).2.aIn) r ∧
      Encodes r v ∧ Raised √(value (u t).2.aIn) r (x.run u (t + 72)).flags ∧
      (x.run u (t + 72)).flags.overflow = false ∧ (x.run u (t + 72)).flags.underflow = false ∧
      Answers (fun n => (x.run u n).busy) (fun n => (x.run u n).done) (fun n => (x.run u n).result) t 72 v := by
  obtain ⟨s, hrooted, hflags, hanswers⟩ := answers_root hx hop hs hr (sqrtEarly_eq_none ha hsign)
  obtain ⟨r, hround, henc, hraised⟩ := root_rounds ha hexp hsign hrooted (u t).2.roundMode (u t).2.roundPrec
  rw [← hflags] at hraised
  obtain ⟨hlo, hhi⟩ := root_bounds ha hexp hsign hround
  obtain ⟨hover, hunder⟩ := hraised.within hlo hhi
  exact ⟨r, _, hround, henc, hraised, hover, hunder, hanswers⟩

/-- Two, with the start held. -/
def two : UnitIn where
  resetN := true
  start := true
  aIn := 0x40008000000000000000
  bIn := 0
  subtract := false
  roundMode := .nearest
  roundPrec := .extended

theorem roots_two : ∃ r v, RoundsTo (gradual .extended) .nearest √(value 0x40008000000000000000) r ∧
    Encodes r v ∧
      Raised √(value 0x40008000000000000000) r (DivUnit.init.run (fun _ => (.sqrt, two)) 72).flags ∧
      (DivUnit.init.run (fun _ => (.sqrt, two)) 72).flags.overflow = false ∧
      (DivUnit.init.run (fun _ => (.sqrt, two)) 72).flags.underflow = false ∧
      Answers (fun n => (DivUnit.init.run (fun _ => (.sqrt, two)) n).busy)
        (fun n => (DivUnit.init.run (fun _ => (.sqrt, two)) n).done)
        (fun n => (DivUnit.init.run (fun _ => (.sqrt, two)) n).result) 0 72 v := by
  have h := roots (x := .init) (u := fun _ => (.sqrt, two)) (t := 0) rfl rfl rfl (fun _ _ => rfl)
    ⟨by decide, by decide, fun _ => by decide⟩ (by decide) (by decide)
  rw [Nat.zero_add] at h
  exact h

end Div

end Fpu
