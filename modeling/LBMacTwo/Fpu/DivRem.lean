import LBMacTwo.Foundation.DigitRecurrence
import LBMacTwo.Fpu.AddSub

/-!
# The divider `mc68881_divrem_unit.vhd`

`FPU_OP_DIV` and `FPU_OP_SQRT`: a radix-4 restoring division and a root bit by bit, which share the
registers of the rounding.
-/

namespace Fpu
open Rounding Clocked

/-- The two operations, of `fpu_op_t`. -/
inductive DivOp
  | div
  | sqrt
  deriving DecidableEq

namespace Div

/-- `state_t`. -/
inductive State
  | idle
  | classify
  | divIter
  | postDivPre
  | postDiv
  | postDivRound
  | sqrtIter
  | sqrtPost
  | done
  deriving DecidableEq

/-- The exception flags. -/
structure Flags where
  invalid : Bool
  divzero : Bool
  overflow : Bool
  underflow : Bool
  inexact : Bool
  deriving DecidableEq

def Flags.none : Flags := ⟨false, false, false, false, false⟩

/-- The quotients that need no division. -/
def divEarly (a b : Fp80) : Option (Fp80 × Flags) :=
  let sign := (unpack a).sign ^^ (unpack b).sign
  if isNan a || isNan b then
    let nan := propagateNan a b (isNan a) (isNan b)
    some (nan.2, { Flags.none with invalid := nan.1 })
  else if isZero b then
    if isZero a then some (canonicalQnan, { Flags.none with invalid := true })
    else some (inf sign, { Flags.none with divzero := true })
  else if isZero a then some (pack ⟨sign, 0, 0⟩, .none)
  else if (unpack b).exp = expAllOnes ∧ (unpack a).exp ≠ expAllOnes then some (pack ⟨sign, 0, 0⟩, .none)
  else if (unpack a).exp = expAllOnes ∨ (unpack b).exp = expAllOnes then
    if (unpack a).exp = expAllOnes ∧ (unpack b).exp = expAllOnes then
      some (canonicalQnan, { Flags.none with invalid := true })
    else some (inf sign, .none)
  else none

/-- The roots that need no iteration. -/
def sqrtEarly (a : Fp80) : Option (Fp80 × Flags) :=
  if isNan a then some (quietNan a, { Flags.none with invalid := isSnan a })
  else if isInf a then
    if (unpack a).sign then some (canonicalQnan, { Flags.none with invalid := true }) else some (a, .none)
  else if isZero a then some (a, .none)
  else if (unpack a).sign then some (canonicalQnan, { Flags.none with invalid := true })
  else none

def early (op : DivOp) (a b : Fp80) : Option (Fp80 × Flags) :=
  match op with
  | .div => divEarly a b
  | .sqrt => sqrtEarly a

/-- The highest bit that is set below bit `n`. -/
def highestOne {w : ℕ} (v : BitVec w) : ℕ → ℕ
  | 0 => 0
  | n + 1 => if v.getLsbD n then n else highestOne v n

/-- The exponent of a root and the mantissa that goes with it, before the exponent is made even. -/
def sqrtUnbiased (a : Fp80) : ℤ × BitVec 66 :=
  if (unpack a).exp = 0 then
    let shift := min (65 - highestOne (unpack a).mant 64) 64
    (1 - expBias - shift, (unpack a).mant.setWidth 66 <<< shift)
  else ((unpack a).exp.toNat - expBias, (unpack a).mant.setWidth 66)

/-- The even exponent, and the mantissa at it. -/
def sqrtEven (a : Fp80) : ℤ × BitVec 66 :=
  let e := sqrtUnbiased a
  if e.1 % 2 ≠ 0 then (e.1 - 1, e.2 <<< 2) else (e.1, e.2 <<< 1)

def sqrtExpOut (a : Fp80) : ℤ := (sqrtEven a).1 / 2 + expBias

def sqrtRadicand (a : Fp80) : BitVec 134 := (sqrtEven a).2.setWidth 134 <<< 68

def setBit {w : ℕ} (v : BitVec w) (i : ℕ) (b : Bool) : BitVec w :=
  if b then v ||| 1#w <<< i else v &&& ~~~(1#w <<< i)

/-- `ST_DIV_ITER`: one bit of the quotient at the top, two of them below. -/
def divStep (divisor : BitVec 64) (dividend : BitVec 131) (idx : ℕ) (s : BitVec 69 × BitVec 131) :
    BitVec 69 × BitVec 131 :=
  let divisorExt := divisor.setWidth 69
  if idx = 130 then
    let rem := setBit (s.1 <<< 1) 0 (dividend.getLsbD idx)
    if divisorExt ≤ rem then (rem - divisorExt, setBit s.2 idx true) else (rem, setBit s.2 idx false)
  else
    let rem := setBit (setBit (s.1 <<< 2) 1 (dividend.getLsbD idx)) 0 (dividend.getLsbD (idx - 1))
    let mul2 := divisorExt <<< 1
    let mul3 := divisorExt + mul2
    if mul3 ≤ rem then (rem - mul3, setBit (setBit s.2 idx true) (idx - 1) true)
    else if mul2 ≤ rem then (rem - mul2, setBit (setBit s.2 idx true) (idx - 1) false)
    else if divisorExt ≤ rem then (rem - divisorExt, setBit (setBit s.2 idx false) (idx - 1) true)
    else (rem, setBit (setBit s.2 idx false) (idx - 1) false)

/-- `ST_SQRT_ITER`. -/
def sqrtStep (radicand : BitVec 134) (idx : ℕ) (s : BitVec 69 × BitVec 67) : BitVec 69 × BitVec 67 :=
  let pairHi := 133 - idx * 2
  let rem := setBit (setBit (s.1 <<< 2) 1 (radicand.getLsbD pairHi)) 0 (radicand.getLsbD (pairHi - 1))
  let trial := s.2.setWidth 69 <<< 2 + 1#69
  if trial ≤ rem then (rem - trial, s.2 <<< 1 ||| 1#67) else (rem, s.2 <<< 1)

/-- Gradual underflow. -/
def denormalize (mantExt : BitVec 67) (exp : ℤ) : BitVec 67 × ℤ :=
  if exp ≤ 0 then (shiftRightWithSticky mantExt (1 - exp).toNat, 0) else (mantExt, exp)

/-- The top of the quotient, all that is below it and the remainder gathered in its last bit. -/
def quotMant (quot : BitVec 131) (rem : BitVec 69) : BitVec 67 :=
  let lead := highestOne quot 131
  let mant :=
    if 66 ≤ lead then
      let top := quot.extractLsb' (lead - 66) 67
      if decide (67 < lead) && quot.extractLsb' 0 (lead - 67) != 0 then top ||| 1#67 else top
    else (quot <<< (66 - lead)).setWidth 67
  if rem != 0 then mant ||| 1#67 else mant

/-- `ST_POST_DIV`. -/
def postDiv (quot : BitVec 131) (rem : BitVec 69) (expBase : ℤ) : BitVec 67 × ℤ :=
  denormalize (quotMant quot rem) (expBase + (highestOne quot 131 - 67))

/-- `ST_SQRT_POST`. -/
def sqrtPost (root : BitVec 67) (rem : BitVec 69) (expOut : ℤ) : BitVec 67 × ℤ :=
  denormalize (if rem != 0 then root ||| 1#67 else root) expOut

/-- `ST_POST_DIV_ROUND`: the result, and the flags for overflow, underflow and inexactness. -/
def postRound (sign : Bool) (mantExt : BitVec 67) (exp : ℤ) (mode : Mode) (prec : Precision)
    (flags : Flags) : Fp80 × Flags :=
  let m := applyRounding sign mantExt exp mode prec
  let e := if m.2 = 0 ∧ m.1.msb then 1 else m.2
  let flags := { flags with inexact := anyDisc mantExt prec }
  if m.1 = 0 then (0, flags)
  else if e ≤ 0 then (pack ⟨sign, 0, m.1⟩, { flags with underflow := true })
  else if 32767 ≤ e then (inf sign, { flags with overflow := true })
  else (pack ⟨sign, BitVec.ofInt 15 e, m.1⟩, flags)

end Div

structure DivUnit where
  state : Div.State
  opReg : DivOp
  aReg : Fp80
  bReg : Fp80
  rmReg : Mode
  rpReg : Precision
  divisor : BitVec 64
  dividend : BitVec 131
  rem : BitVec 69
  quot : BitVec 131
  iterIdx : ℕ
  divSign : Bool
  divExpBase : ℤ
  sqrtRadicand : BitVec 134
  sqrtRoot : BitVec 67
  sqrtIterIdx : ℕ
  sqrtExpOut : ℤ
  postMantExt : BitVec 67
  postExp : ℤ
  postRm : Mode
  postRp : Precision
  flags : Div.Flags
  done : Bool
  result : Fp80

namespace DivUnit

variable (x : DivUnit) (op : DivOp) (i : UnitIn)

/-- The reset state; what operation is latched does not matter before a start. -/
def init : DivUnit where
  state := .idle
  opReg := .div
  aReg := 0
  bReg := 0
  rmReg := .nearest
  rpReg := .extended
  divisor := 0
  dividend := 0
  rem := 0
  quot := 0
  iterIdx := 0
  divSign := false
  divExpBase := 0
  sqrtRadicand := 0
  sqrtRoot := 0
  sqrtIterIdx := 0
  sqrtExpOut := 0
  postMantExt := 0
  postExp := 0
  postRm := .nearest
  postRp := .extended
  flags := .none
  done := false
  result := 0

def classify : DivUnit :=
  match Div.early x.opReg x.aReg x.bReg with
  | some (v, flags) => { x with state := .done, result := v, flags := flags, done := false }
  | none =>
    match x.opReg with
    | .div =>
      { x with state := .divIter
               divisor := (normalize x.bReg).1
               dividend := (normalize x.aReg).1 ++ 0#67
               rem := 0, quot := 0, iterIdx := 130
               divSign := (unpack x.aReg).sign ^^ (unpack x.bReg).sign
               divExpBase := (normalize x.aReg).2 - (normalize x.bReg).2 + expBias
               done := false }
    | .sqrt =>
      { x with state := .sqrtIter
               sqrtExpOut := Div.sqrtExpOut x.aReg
               sqrtRadicand := Div.sqrtRadicand x.aReg
               sqrtRoot := 0, rem := 0, sqrtIterIdx := 0, divSign := false, done := false }

def clock : DivUnit :=
  if !i.resetN then { x with state := .idle, result := 0, flags := .none, done := false }
  else match x.state with
    | .idle =>
      if i.start then
        { x with state := .classify, opReg := op, aReg := i.aIn, bReg := i.bIn
                 rmReg := i.roundMode, rpReg := i.roundPrec, flags := .none, done := false }
      else { x with done := false }
    | .classify => x.classify
    | .divIter =>
      let s := Div.divStep x.divisor x.dividend x.iterIdx (x.rem, x.quot)
      if x.iterIdx = 130 then
        { x with rem := s.1, quot := s.2, iterIdx := x.iterIdx - 1, done := false }
      else if x.iterIdx ≤ 1 then { x with state := .postDivPre, rem := s.1, quot := s.2, done := false }
      else { x with rem := s.1, quot := s.2, iterIdx := x.iterIdx - 2, done := false }
    | .sqrtIter =>
      let s := Div.sqrtStep x.sqrtRadicand x.sqrtIterIdx (x.rem, x.sqrtRoot)
      if x.sqrtIterIdx = 66 then
        { x with state := .sqrtPost, rem := s.1, sqrtRoot := s.2, done := false }
      else { x with rem := s.1, sqrtRoot := s.2, sqrtIterIdx := x.sqrtIterIdx + 1, done := false }
    | .sqrtPost =>
      let p := Div.sqrtPost x.sqrtRoot x.rem x.sqrtExpOut
      { x with state := .postDivRound, postMantExt := p.1, postExp := p.2
               postRm := x.rmReg, postRp := x.rpReg, done := false }
    | .postDivPre => { x with state := .postDiv, done := false }
    | .postDiv =>
      let p := Div.postDiv x.quot x.rem x.divExpBase
      { x with state := .postDivRound, postMantExt := p.1, postExp := p.2
               postRm := x.rmReg, postRp := x.rpReg, done := false }
    | .postDivRound =>
      let r := Div.postRound x.divSign x.postMantExt x.postExp x.postRm x.postRp x.flags
      { x with state := .done, result := r.1, flags := r.2, done := false }
    | .done => { x with state := .idle, done := true }

def busy : Bool := x.state != .idle

/-- The operation is sampled with the operands. -/
def run (u : ℕ → DivOp × UnitIn) : ℕ → DivUnit := Clocked.run (fun x i => clock x i.1 i.2) x u

theorem run_succ (u : ℕ → DivOp × UnitIn) (t : ℕ) :
    x.run u (t + 1) = (x.run u t).clock (u t).1 (u t).2 := rfl

end DivUnit

namespace Div

/-! ### Bits -/

/-- Setting a bit of a number that has nothing at or below it. -/
theorem toNat_setBit {w : ℕ} {v : BitVec w} {i : ℕ} (hi : i < w) (hv : v.toNat % 2 ^ (i + 1) = 0)
    (b : Bool) : (setBit v i b).toNat = v.toNat + b.toNat * 2 ^ i := by
  cases b with
  | true =>
    have hone : (1#w <<< i).toNat = 2 ^ i := by
      rw [BitVec.toNat_shiftLeft, BitVec.toNat_ofNat, Nat.mod_eq_of_lt (Nat.one_lt_two_pow (by omega)),
        Nat.shiftLeft_eq, one_mul, Nat.mod_eq_of_lt (Nat.pow_lt_pow_right one_lt_two hi)]
    have hsplit := Nat.div_add_mod v.toNat (2 ^ (i + 1))
    rw [hv, add_zero] at hsplit
    rw [setBit, if_pos rfl, BitVec.toNat_or, hone, ← hsplit, Bool.toNat_true, one_mul]
    exact (Nat.two_pow_add_eq_or_of_lt (Nat.pow_lt_pow_right one_lt_two i.lt_succ_self) _).symm
  | false =>
    have hbit : v.getLsbD i = false := by
      rw [getLsbD_toNat, decide_eq_false_iff_not]
      have := Nat.mod_pow_succ (x := v.toNat) (b := 2) (k := i)
      rw [hv] at this
      have hpos : 0 < 2 ^ i := by positivity
      intro hc
      rw [hc] at this
      omega
    rw [setBit, if_neg Bool.false_ne_true, Bool.toNat_false, zero_mul, add_zero]
    congr 1
    refine BitVec.eq_of_getLsbD_eq fun j hj => ?_
    by_cases hji : j = i
    · simp [hji, hbit]
    · rcases Nat.lt_or_gt_of_ne hji with h | h
      · simp [hj, h]
      · simp [hj, show ¬ j < i by omega, show j - i ≠ 0 by omega]

theorem highestOne_spec {w : ℕ} {v : BitVec w} {n : ℕ} (h0 : v.toNat ≠ 0) (hn : v.toNat < 2 ^ n) :
    2 ^ highestOne v n ≤ v.toNat ∧ v.toNat < 2 ^ (highestOne v n + 1) := by
  induction n with
  | zero =>
    rw [pow_zero] at hn
    omega
  | succ n ih =>
    rw [highestOne, getLsbD_toNat]
    have hdiv : v.toNat / 2 ^ n < 2 := by
      rw [Nat.div_lt_iff_lt_mul (by positivity), ← pow_succ']
      exact hn
    split_ifs with hb
    · rw [decide_eq_true_eq] at hb
      refine ⟨?_, hn⟩
      have hq : 1 ≤ v.toNat / 2 ^ n := Nat.one_le_iff_ne_zero.mpr fun hc => by
        rw [hc] at hb
        exact absurd hb (by decide)
      rwa [Nat.le_div_iff_mul_le (by positivity), one_mul] at hq
    · rw [decide_eq_true_eq] at hb
      exact ih (by
        have : v.toNat / 2 ^ n < 1 := by omega
        rwa [Nat.div_lt_iff_lt_mul (by positivity), one_mul] at this)

/-- The highest bit, from its bounds. -/
theorem highestOne_eq {w : ℕ} {v : BitVec w} {n k : ℕ} (hn : v.toNat < 2 ^ n) (hlo : 2 ^ k ≤ v.toNat)
    (hhi : v.toNat < 2 ^ (k + 1)) : highestOne v n = k := by
  have hpos : 0 < 2 ^ k := by positivity
  obtain ⟨h1, h2⟩ := highestOne_spec (v := v) (n := n) (by omega) hn
  have hle : k < highestOne v n + 1 := (Nat.pow_lt_pow_iff_right one_lt_two).mp (hlo.trans_lt h2)
  have hge : highestOne v n < k + 1 := (Nat.pow_lt_pow_iff_right one_lt_two).mp (h1.trans_lt hhi)
  omega

/-- The remainder with the next two bits of the operand. -/
theorem toNat_pair {r : BitVec 69} (hr : r.toNat * 4 + 3 < 2 ^ 69) (b1 b0 : Bool) :
    (setBit (setBit (r <<< 2) 1 b1) 0 b0).toNat = 4 * r.toNat + (2 * b1.toNat + b0.toNat) := by
  have hshift : (r <<< 2).toNat = r.toNat * 4 := by
    rw [BitVec.toNat_shiftLeft, Nat.shiftLeft_eq]
    exact Nat.mod_eq_of_lt (by omega)
  have h1 : (setBit (r <<< 2) 1 b1).toNat = r.toNat * 4 + b1.toNat * 2 := by
    rw [toNat_setBit (by decide) (by rw [hshift]; omega), hshift, pow_one]
  rw [toNat_setBit (by decide) (by rw [h1]; omega), h1]
  omega

/-- The next two bits of an operand. -/
theorem div_two_pow_pred {w : ℕ} (v : BitVec w) {i : ℕ} (hi : 1 ≤ i) : v.toNat / 2 ^ (i - 1) =
    4 * (v.toNat / 2 ^ (i + 1)) + (2 * (v.getLsbD i).toNat + (v.getLsbD (i - 1)).toNat) := by
  obtain ⟨k, rfl⟩ : ∃ k, i = k + 1 := ⟨i - 1, by omega⟩
  have hbit : ∀ n : ℕ, (decide (n % 2 = 1)).toNat = n % 2 := fun n => by
    rcases Nat.mod_two_eq_zero_or_one n with h | h <;> simp [h]
  rw [Nat.add_sub_cancel, getLsbD_toNat, getLsbD_toNat, hbit, hbit,
    show 2 ^ (k + 1 + 1) = 2 ^ k * 2 * 2 by ring, ← Nat.div_div_eq_div_mul, ← Nat.div_div_eq_div_mul,
    pow_succ, ← Nat.div_div_eq_div_mul]
  omega

/-! ### Rounding and packing -/

/-- The last bit gathers the remainder. -/
theorem toNat_or_rem {w : ℕ} (v : BitVec 67) (rem : BitVec w) :
    (if rem != 0 then v ||| 1#67 else v).toNat = if rem.toNat = 0 then v.toNat else lastSet v.toNat := by
  by_cases h : rem = 0
  · rw [if_neg (by simp [h]), if_pos (by simp [h])]
  · have h0 : rem.toNat ≠ 0 := fun hc => h (BitVec.eq_of_toNat_eq (by simpa using hc))
    rw [if_pos (by simpa using h), if_neg h0, toNat_or_one (by decide)]

/-- `v` is `r`, or an infinity where `r` is too large; the integer bit of a finite `v` is clear where
its exponent is zero only. -/
structure Encodes (r : ℝ) (v : Fp80) : Prop where
  finite : |r| < 2 ^ (expBias + 1) → (unpack v).exp ≠ expAllOnes ∧ value v = r
  normalized : |r| < 2 ^ (expBias + 1) → ((unpack v).mant.msb = true ↔ (unpack v).exp ≠ 0)
  overflow_pos : 2 ^ (expBias + 1) ≤ r → v = inf false
  overflow_neg : r ≤ -2 ^ (expBias + 1) → v = inf true

/-- The flags of a result `r` that is rounded from `exact`. -/
structure Raised (exact r : ℝ) (f : Flags) : Prop where
  invalid : f.invalid = false
  divzero : f.divzero = false
  overflow : f.overflow = true ↔ 2 ^ (expBias + 1) ≤ |r|
  underflow : f.underflow = true ↔ r ≠ 0 ∧ |r| < 2 ^ (1 - expBias)
  inexact : f.inexact = true ↔ r ≠ exact

/-- Gradual underflow at the precision of the result. -/
def gradual (prec : Precision) : Format := prec.format (1 - mantBias + prec.lsb : ℤ)

theorem applyRounding_fst (sign : Bool) (mantExt : BitVec 67) (e f : ℤ) (mode : Mode)
    (prec : Precision) :
    (applyRounding sign mantExt e mode prec).1 = (applyRounding sign mantExt f mode prec).1 := by
  simp only [applyRounding, roundMain]
  split_ifs <;> rfl

/-- In the normal range the divider packs as the multiplier does. -/
theorem postRound_normal {sign : Bool} {mantExt : BitVec 67} {exp : ℤ} {mode : Mode} {prec : Precision}
    {flags : Flags} (htop : 2 ^ 66 ≤ mantExt.toNat) (hexp : 0 < exp) :
    (postRound sign mantExt exp mode prec flags).1 =
        packNumber sign (applyRounding sign mantExt exp mode prec).1
          (applyRounding sign mantExt exp mode prec).2 ∧
      (postRound sign mantExt exp mode prec flags).2 =
        { flags with inexact := anyDisc mantExt prec
                     overflow := flags.overflow || decide (32767 ≤ (applyRounding sign mantExt exp mode prec).2) } := by
  have hm := applyRounding_top sign mantExt exp mode prec htop
  have hspec := applyRounding_spec sign mantExt exp mode prec
  have he : 0 < (applyRounding sign mantExt exp mode prec).2 := by
    split_ifs at hspec
    · rw [(Prod.mk.inj hspec).2]
      exact hexp
    · rw [(Prod.mk.inj hspec).2]
      omega
  have hne : (applyRounding sign mantExt exp mode prec).1 ≠ 0 := fun hc => by
    rw [hc] at hm
    exact absurd hm (by decide)
  have he0 : ¬ ((applyRounding sign mantExt exp mode prec).2 = 0 ∧
      (applyRounding sign mantExt exp mode prec).1.msb = true) := fun hc => he.ne' hc.1
  rw [postRound]
  simp only [he0, hne, not_le.mpr he, ↓reduceIte, packNumber]
  split_ifs with hbig
  · simp [hbig]
  · simp [hbig]

theorem signed_injective (sign : Bool) : Function.Injective (signed sign : ℝ → ℝ) := by
  intro x y h
  cases sign
  · exact h
  · exact neg_injective h

/-- The inexact flag tells whether anything was rounded off. -/
theorem anyDisc_iff {x : ℝ} {mantExt : BitVec 67} {prec : Precision}
    (h : Agrees (prec.lsb + 2) x mantExt.toNat) (sign : Bool) (exp : ℤ) (mode : Mode) :
    anyDisc mantExt prec = true ↔ signed sign ((applyRounding sign mantExt exp mode prec).1.toNat *
        2 ^ ((applyRounding sign mantExt exp mode prec).2 - mantBias) : ℝ) ≠
      signed sign (x * 2 ^ (exp - mantBias - 3)) := by
  have hW : (2 : ℝ) ^ (exp - mantBias - 3) ≠ 0 := by positivity
  rw [anyDisc_eq, decide_eq_true_eq, ne_eq, ne_eq, not_iff_not, (signed_injective sign).eq_iff,
    applyRounding_value, ← significand_exact_iff h mode sign,
    show exp - mantBias + prec.lsb = exp - mantBias - 3 + ((prec.lsb + 2 + 1 : ℕ) : ℤ) by push_cast; ring,
    zpow_add₀ two_ne_zero, zpow_natCast, mul_left_comm, mul_comm x, mul_right_inj' hW]

theorem Raised.of_flags {exact r : ℝ} {o un inex : Bool} (ho : o = true ↔ 2 ^ (expBias + 1) ≤ |r|)
    (hu : un = true ↔ r ≠ 0 ∧ |r| < 2 ^ (1 - expBias)) (hi : inex = true ↔ r ≠ exact) :
    Raised exact r ⟨false, false, o, un, inex⟩ := ⟨rfl, rfl, ho, hu, hi⟩

/-- A result that is not subnormal. -/
theorem postRound_rounds_normal {x : ℝ} {mantExt : BitVec 67} (hx : Sticky x mantExt.toNat)
    (htop : 2 ^ 66 ≤ mantExt.toNat) (sign : Bool) {exp : ℤ} (hexp : 0 < exp) (mode : Mode)
    (prec : Precision) : ∃ r, RoundsTo (gradual prec) mode (signed sign (x * 2 ^ (exp - mantBias - 3))) r ∧
      Encodes r (postRound sign mantExt exp mode prec .none).1 ∧
      Raised (signed sign (x * 2 ^ (exp - mantBias - 3))) r (postRound sign mantExt exp mode prec .none).2 := by
  have hagrees := hx.agrees (g := prec.lsb + 2) (by omega)
  have hscaled : (gradual prec).Scaled (mantExt.toNat / 2 ^ (prec.lsb + 3)) (exp - mantBias + prec.lsb) :=
    prec.format_scaled htop (WithBot.coe_le_coe.mpr (by omega))
  have hround := applyRounding_rounds hagrees hscaled sign mode
  have hinexact := anyDisc_iff hagrees sign exp mode
  have hm := applyRounding_top sign mantExt exp mode prec htop
  have he : 0 < (applyRounding sign mantExt exp mode prec).2 := by
    have hspec := applyRounding_spec sign mantExt exp mode prec
    split_ifs at hspec <;> rw [(Prod.mk.inj hspec).2] <;> omega
  obtain ⟨hres, hflags⟩ := @postRound_normal sign mantExt exp mode prec .none htop hexp
  have hdel := packNumber_delivered sign (applyRounding sign mantExt exp mode prec).2 hm
  rw [hres, hflags]
  generalize applyRounding sign mantExt exp mode prec = m at *
  obtain ⟨hlo, hhi⟩ := mant_bounds m.2 hm
  have hnormal : (2 : ℝ) ^ (1 - expBias) ≤ m.1.toNat * 2 ^ (m.2 - mantBias) :=
    (zpow_le_zpow_right₀ one_le_two (by omega)).trans hlo
  have habs : |signed sign (m.1.toNat * (2 : ℝ) ^ (m.2 - mantBias))| = m.1.toNat * (2 : ℝ) ^ (m.2 - mantBias) := by
    rw [abs_signed, abs_of_nonneg (by positivity)]
  have hover : 32767 ≤ m.2 ↔ (2 : ℝ) ^ (expBias + 1) ≤ m.1.toNat * 2 ^ (m.2 - mantBias) := by
    constructor
    · intro h
      exact (zpow_le_zpow_right₀ one_le_two (by rw [expBias]; omega)).trans hlo
    · intro h
      have := (zpow_lt_zpow_iff_right₀ one_lt_two).mp (h.trans_lt hhi)
      rw [expBias] at this
      omega
  refine ⟨_, hround, ⟨fun h => ⟨(hdel.finite h).1, hdel.exact (by rwa [habs]) h⟩, hdel.normalized,
    hdel.overflow_pos, hdel.overflow_neg⟩, .of_flags ?_ ?_ hinexact⟩
  · rw [habs, ← hover]
    simp [Flags.none]
  · rw [habs]
    exact ⟨fun h => absurd h Bool.false_ne_true, fun h => absurd h.2 hnormal.not_gt⟩

/-- Below the normal range the mantissa is shifted before it is rounded. -/
theorem toNat_denormalize {mantExt : BitVec 67} {s : ℕ} (hs : 1 ≤ s) :
    shiftSticky mantExt.toNat s < 2 ^ 66 := by
  have hlt := mantExt.isLt
  have hq : mantExt.toNat / 2 ^ s < 2 ^ 66 := by
    calc mantExt.toNat / 2 ^ s ≤ mantExt.toNat / 2 ^ 1 :=
          Nat.div_le_div_left (Nat.pow_le_pow_right two_pos hs) (by decide)
      _ < 2 ^ 66 := by omega
  rw [shiftSticky]
  split_ifs
  · exact hq
  · rw [lastSet]
    omega

/-- The rounding of a mantissa below the top carries no further than the top. -/
theorem applyRounding_low {sign : Bool} {mantExt : BitVec 67} (exp : ℤ) {mode : Mode} {prec : Precision}
    (hlow : mantExt.toNat < 2 ^ 66) : (applyRounding sign mantExt exp mode prec).1.toNat ≤ 2 ^ 63 ∧
      (applyRounding sign mantExt exp mode prec).2 = exp := by
  have hl := prec.lsb_le
  have hle := significand_le mode sign (k := prec.lsb + 3) (n := 63 - prec.lsb)
    (by rw [← pow_add, show 63 - prec.lsb + (prec.lsb + 3) = 66 by omega]; exact hlow)
  have hspec := applyRounding_spec sign mantExt exp mode prec
  rw [if_pos (hle.trans_lt (Nat.pow_lt_pow_right one_lt_two (by omega)))] at hspec
  obtain ⟨hm, he⟩ := Prod.mk.inj hspec
  refine ⟨?_, he⟩
  rw [hm]
  calc _ ≤ 2 ^ (63 - prec.lsb) * 2 ^ prec.lsb := Nat.mul_le_mul_right _ hle
    _ = 2 ^ 63 := by rw [← pow_add, Nat.sub_add_cancel (by omega)]

/-- A result below the normal range, rounded at the place of the least subnormal. -/
theorem postRound_rounds_low {x : ℝ} {mantExt : BitVec 67} (hx : Sticky x mantExt.toNat)
    (hlow : mantExt.toNat < 2 ^ 66) (sign : Bool) (mode : Mode) (prec : Precision) :
    ∃ r, RoundsTo (gradual prec) mode (signed sign (x * 2 ^ (1 - mantBias - 3))) r ∧
      Encodes r (postRound sign mantExt 0 mode prec .none).1 ∧
      Raised (signed sign (x * 2 ^ (1 - mantBias - 3))) r (postRound sign mantExt 0 mode prec .none).2 := by
  have hl := prec.lsb_le
  have hagrees := hx.agrees (g := prec.lsb + 2) (by omega)
  have hscaled : (gradual prec).Scaled (mantExt.toNat / 2 ^ (prec.lsb + 3)) (1 - mantBias + prec.lsb) := by
    refine ⟨?_, le_rfl, .inr rfl⟩
    change mantExt.toNat / 2 ^ (prec.lsb + 3) < 2 ^ (64 - prec.lsb)
    rw [Nat.div_lt_iff_lt_mul (by positivity), ← pow_add, show 64 - prec.lsb + (prec.lsb + 3) = 67 by omega]
    exact mantExt.isLt
  have hround := applyRounding_rounds hagrees hscaled sign mode
  have hinexact := anyDisc_iff hagrees sign 1 mode
  obtain ⟨hle, he1⟩ := @applyRounding_low sign mantExt 1 mode prec hlow
  obtain ⟨-, he0⟩ := @applyRounding_low sign mantExt 0 mode prec hlow
  rw [he1] at hround hinexact
  rw [postRound, applyRounding_fst sign mantExt 0 1 mode prec, he0]
  generalize (applyRounding sign mantExt 1 mode prec).1 = m at *
  have hu : (0 : ℝ) < 2 ^ (1 - mantBias) := by positivity
  have habs : |signed sign (m.toNat * (2 : ℝ) ^ (1 - mantBias))| = m.toNat * (2 : ℝ) ^ (1 - mantBias) := by
    rw [abs_signed, abs_of_nonneg (by positivity)]
  have hsub : m.toNat * (2 : ℝ) ^ (1 - mantBias) < 2 ^ (1 - expBias) ↔ m.toNat < 2 ^ 63 := by
    rw [show 1 - expBias = (63 : ℕ) + (1 - mantBias) by rw [mantBias]; push_cast; ring,
      zpow_add₀ two_ne_zero, mul_lt_mul_iff_left₀ hu, zpow_natCast]
    norm_cast
  have hmax : m.toNat * (2 : ℝ) ^ (1 - mantBias) < 2 ^ (expBias + 1) := by
    have h63 : (m.toNat : ℝ) ≤ 2 ^ 63 := by exact_mod_cast hle
    calc m.toNat * (2 : ℝ) ^ (1 - mantBias) ≤ 2 ^ 63 * 2 ^ (1 - mantBias) := by gcongr
      _ = 2 ^ (1 - expBias) := by
          rw [← zpow_natCast, ← zpow_add₀ two_ne_zero, mantBias]
          congr 1
      _ < 2 ^ (expBias + 1) := zpow_lt_zpow_right₀ one_lt_two (by rw [expBias]; norm_num)
  have hencodes : ∀ {v : Fp80}, (unpack v).exp ≠ expAllOnes →
      ((unpack v).mant.msb = true ↔ (unpack v).exp ≠ 0) →
      value v = signed sign (m.toNat * (2 : ℝ) ^ (1 - mantBias)) →
      Encodes (signed sign (m.toNat * (2 : ℝ) ^ (1 - mantBias))) v := by
    intro v hv hn hval
    refine ⟨fun _ => ⟨hv, hval⟩, fun _ => hn, fun h => ?_, fun h => ?_⟩
    · exact absurd (h.trans (le_abs_self _)) (by rw [habs]; exact hmax.not_ge)
    · exact absurd ((le_neg.mpr h).trans (neg_le_abs _)) (by rw [habs]; exact hmax.not_ge)
  have hover : false = true ↔ 2 ^ (expBias + 1) ≤ |signed sign (m.toNat * (2 : ℝ) ^ (1 - mantBias))| := by
    rw [habs]
    exact ⟨fun h => absurd h Bool.false_ne_true, fun h => absurd h hmax.not_ge⟩
  have hmsb : m.msb = true ↔ ¬ m.toNat < 2 ^ 63 := by
    rw [BitVec.msb_eq_decide, decide_eq_true_eq, not_lt]
  refine ⟨_, hround, ?_⟩
  by_cases hz : m = 0
  · simp only [hz, ↓reduceIte]
    have hzero := hencodes (v := 0) (by decide) (by decide) (by rw [hz, value_zero]; simp [signed])
    refine ⟨hz ▸ hzero, .of_flags (hz ▸ hover) ?_ (hz ▸ hinexact)⟩
    simp [Flags.none, signed]
  · have hne : signed sign (m.toNat * (2 : ℝ) ^ (1 - mantBias)) ≠ 0 := fun hc => by
      rw [← abs_eq_zero, habs] at hc
      have h0 : (m.toNat : ℝ) = 0 := (mul_eq_zero.mp hc).resolve_right hu.ne'
      exact hz (BitVec.eq_of_toNat_eq (by exact_mod_cast h0))
    by_cases hb : m.msb = true
    · simp only [hz, hb, and_self, ↓reduceIte]
      refine ⟨hencodes ?_ ?_ ?_, .of_flags hover ?_ hinexact⟩
      · rw [if_neg (by decide), if_neg (by decide), unpack_pack]
        exact (by decide : BitVec.ofInt 15 1 ≠ expAllOnes)
      · rw [if_neg (by decide), if_neg (by decide), unpack_pack]
        exact ⟨fun _ => (by decide : BitVec.ofInt 15 1 ≠ 0), fun _ => hb⟩
      · exact value_pack_normal sign m (show (0 : ℤ) < 1 by decide) (by decide)
      · rw [habs, hsub]
        exact ⟨fun h => absurd h Bool.false_ne_true, fun h => absurd h.2 (hmsb.mp hb)⟩
    · simp only [hz, hb, Bool.false_eq_true, and_false, le_refl, ↓reduceIte]
      refine ⟨hencodes ?_ ?_ (value_pack_subnormal sign m), .of_flags hover ?_ hinexact⟩
      · rw [unpack_pack]
        exact (by decide : (0 : BitVec 15) ≠ expAllOnes)
      · rw [unpack_pack]
        exact ⟨fun h => absurd h hb, fun h => absurd rfl h⟩
      · rw [habs, hsub]
        exact ⟨fun _ => ⟨hne, not_not.mp (hmsb.not.mp hb)⟩, fun _ => rfl⟩

/-- What is packed of a sticky integer is the correctly rounded value, and the flags tell what was lost. -/
theorem postRound_rounds {x : ℝ} {mantExt : BitVec 67} (hx : Sticky x mantExt.toNat)
    (htop : 2 ^ 66 ≤ mantExt.toNat) (sign : Bool) (exp : ℤ) (mode : Mode) (prec : Precision) :
    ∃ r, RoundsTo (gradual prec) mode (signed sign (x * 2 ^ (exp - mantBias - 3))) r ∧
      Encodes r (postRound sign (denormalize mantExt exp).1 (denormalize mantExt exp).2 mode prec .none).1 ∧
      Raised (signed sign (x * 2 ^ (exp - mantBias - 3))) r
        (postRound sign (denormalize mantExt exp).1 (denormalize mantExt exp).2 mode prec .none).2 := by
  rw [denormalize]
  split_ifs with hexp
  · have hshift : (shiftRightWithSticky mantExt (1 - exp).toNat).toNat =
        shiftSticky mantExt.toNat (1 - exp).toNat := toNat_shiftRightWithSticky (by decide) _ _
    have hx' := hx.shift (1 - exp).toNat
    rw [← hshift] at hx'
    have h := postRound_rounds_low hx' (by rw [hshift]; exact toNat_denormalize (by omega)) sign mode prec
    have hval : x / 2 ^ (1 - exp).toNat * (2 : ℝ) ^ (1 - mantBias - 3) = x * 2 ^ (exp - mantBias - 3) := by
      rw [show 1 - mantBias - 3 = exp - mantBias - 3 + ((1 - exp).toNat : ℤ) by omega,
        zpow_add₀ two_ne_zero, zpow_natCast]
      field_simp
    rwa [hval] at h
  · exact postRound_rounds_normal hx htop sign (by omega) mode prec

/-! ### Runs -/

/-- An operation on two operands, as it is latched. -/
structure Request where
  op : DivOp
  a : Fp80
  b : Fp80
  mode : Mode
  prec : Precision

/-- A request is in the registers, and not done. -/
structure Held (q : Request) (x : DivUnit) : Prop where
  op : x.opReg = q.op
  a : x.aReg = q.a
  b : x.bReg = q.b
  mode : x.rmReg = q.mode
  prec : x.rpReg = q.prec
  flags : x.flags = .none
  pending : x.done = false

/-- The mantissa and the exponent of a result are registered. -/
structure Finishing (q : Request) (sign : Bool) (m : BitVec 67 × ℤ) (x : DivUnit) : Prop extends Held q x where
  state : x.state = .postDivRound
  sign : x.divSign = sign
  mant : x.postMantExt = m.1
  exp : x.postExp = m.2
  postRm : x.postRm = q.mode
  postRp : x.postRp = q.prec

/-- A result is registered, a clock before `done`. -/
structure Finished (v : Fp80 × Flags) (x : DivUnit) : Prop where
  state : x.state = .done
  pending : x.done = false
  result : x.result = v.1
  flags : x.flags = v.2

variable {x : DivUnit} {i : UnitIn} {q : Request} {sign : Bool} {m : BitVec 67 × ℤ} (op : DivOp)

theorem held_start (hx : x.state = .idle) (hr : i.resetN = true) (hs : i.start = true) :
    (x.clock op i).state = .classify ∧ Held ⟨op, i.aIn, i.bIn, i.roundMode, i.roundPrec⟩ (x.clock op i) := by
  simp only [DivUnit.clock, hx, hr, hs, Bool.not_true, Bool.false_eq_true, ↓reduceIte]
  exact ⟨trivial, rfl, rfl, rfl, rfl, rfl, rfl, rfl⟩

theorem Held.working (h : Held q x) (hx : x.state ≠ .idle) : x.busy = true ∧ x.done = false :=
  ⟨bne_iff_ne.mpr hx, h.pending⟩

theorem Finished.working {v : Fp80 × Flags} (h : Finished v x) : x.busy = true ∧ x.done = false :=
  ⟨bne_iff_ne.mpr (by rw [h.state]; decide), h.pending⟩

theorem Finishing.finished (h : Finishing q sign m x) (hr : i.resetN = true) :
    Finished (postRound sign m.1 m.2 q.mode q.prec .none) (x.clock op i) := by
  simp only [DivUnit.clock, h.state, hr, Bool.not_true, Bool.false_eq_true, ↓reduceIte, h.sign, h.mant,
    h.exp, h.postRm, h.postRp, h.flags]
  exact ⟨rfl, rfl, rfl, rfl⟩

theorem Finished.done {v : Fp80 × Flags} (h : Finished v x) (hr : i.resetN = true) :
    (x.clock op i).busy = false ∧ (x.clock op i).done = true ∧ (x.clock op i).result = v.1 ∧
      (x.clock op i).flags = v.2 := by
  simp only [DivUnit.clock, h.state, hr, Bool.not_true, Bool.false_eq_true, ↓reduceIte]
  exact ⟨rfl, trivial, h.result, h.flags⟩

end Div

end Fpu
