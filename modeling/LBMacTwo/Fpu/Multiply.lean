import LBMacTwo.Foundation.Clocked
import LBMacTwo.Fpu.Format

/-!
# The multiplier `mc68881_fp80_mul_unit.vhd`

* `Mul.product_rounds`: the unit's product of two numbers stands for a correctly rounded one;
* `Mul.multiplies`: a start in the idle state is answered by one `done`, with that product.

Below the normal range the rounded product is cut off once more, and above it every rounding direction
gives an infinity.
-/

namespace Fpu
open Rounding Clocked

/-- The inputs of the arithmetic units. -/
structure UnitIn where
  resetN : Bool
  start : Bool
  aIn : Fp80
  bIn : Fp80
  subtract : Bool
  roundMode : Mode
  roundPrec : Precision

namespace Mul

/-- `mul_state_t`. -/
inductive State
  | idle
  | unpack
  | multiply
  | normRound
  deriving DecidableEq

/-- The early exits for NaNs, infinities and zeros. -/
def early (a b : Fp80) : Option Fp80 :=
  if isNan a || isNan b then some (propagateNan a b (isNan a) (isNan b)).2
  else if isInf a || isInf b then
    if isZero a || isZero b then some canonicalQnan
    else some (inf ((unpack a).sign ^^ (unpack b).sign))
  else if isZero a || isZero b then some 0
  else none

/-- The exponent of the product, its leading one in bit 126. -/
def expSum (a b : Fp80) : ℤ := (normalize a).2 + (normalize b).2 - expBias

/-- The top of the product, all that is below it gathered in its last bit. -/
def mantExt (prod : BitVec 128) : BitVec 67 :=
  let mantHi := if prod.msb then 127 else 126
  let top := prod.extractLsb' (mantHi - 66) 67
  if prod.extractLsb' 0 (mantHi - 66) != 0 then top ||| 1#67 else top

/-- `ST_NORM_ROUND`. -/
def normRound (sign : Bool) (expRes : ℤ) (prod : BitVec 128) (mode : Mode) (prec : Precision) : Fp80 :=
  let m := applyRounding sign (mantExt prod) (if prod.msb then expRes + 1 else expRes) mode prec
  packNumber sign m.1 m.2

end Mul

structure MulUnit where
  state : Mul.State
  aReg : Fp80
  bReg : Fp80
  rmReg : Mode
  rpReg : Precision
  aMant : BitVec 64
  bMant : BitVec 64
  resSign : Bool
  expRes : ℤ
  earlyExit : Bool
  earlyResult : Fp80
  mantProd : BitVec 128
  done : Bool
  result : Fp80

namespace MulUnit

variable (x : MulUnit) (i : UnitIn)

/-- The reset state. -/
def init : MulUnit where
  state := .idle
  aReg := 0
  bReg := 0
  rmReg := .nearest
  rpReg := .extended
  aMant := 0
  bMant := 0
  resSign := false
  expRes := 0
  earlyExit := false
  earlyResult := 0
  mantProd := 0
  done := false
  result := 0

def clock : MulUnit :=
  if !i.resetN then init
  else match x.state with
    | .idle =>
      if i.start then
        { x with state := .unpack, aReg := i.aIn, bReg := i.bIn, rmReg := i.roundMode, rpReg := i.roundPrec,
                 done := false }
      else { x with done := false }
    | .unpack =>
      { x with state := .multiply,
               aMant := (normalize x.aReg).1
               bMant := (normalize x.bReg).1
               resSign := (unpack x.aReg).sign ^^ (unpack x.bReg).sign
               expRes := Mul.expSum x.aReg x.bReg
               earlyExit := (Mul.early x.aReg x.bReg).isSome
               earlyResult := (Mul.early x.aReg x.bReg).getD x.earlyResult
               done := false }
    | .multiply =>
      if x.earlyExit then { x with state := .idle, result := x.earlyResult, done := true }
      else { x with state := .normRound, done := false
                    mantProd := x.aMant.setWidth 128 * x.bMant.setWidth 128 }
    | .normRound =>
      { x with state := .idle, done := true
               result := Mul.normRound x.resSign x.expRes x.mantProd x.rmReg x.rpReg }

def busy : Bool := x.state != .idle

def run (u : ℕ → UnitIn) : ℕ → MulUnit := Clocked.run clock x u

theorem run_succ (u : ℕ → UnitIn) (t : ℕ) : x.run u (t + 1) = (x.run u t).clock (u t) := rfl

end MulUnit

namespace Mul

/-- The product of the unit. -/
def product (a b : Fp80) (mode : Mode) (prec : Precision) : Fp80 :=
  (early a b).getD (normRound ((unpack a).sign ^^ (unpack b).sign) (expSum a b)
    ((normalize a).1.setWidth 128 * (normalize b).1.setWidth 128) mode prec)

/-- The clocks from the start to the result. -/
def latency (a b : Fp80) : ℕ := if (early a b).isSome then 3 else 4

theorem early_eq_none {a b : Fp80} (ha : IsNumber a) (hb : IsNumber b) : early a b = none := by
  simp [early, ha.isNan, hb.isNan, ha.isInf, hb.isInf, ha.isZero, hb.isZero]

theorem toNat_mantExt {prod : BitVec 128} (hprod : 2 ^ 126 ≤ prod.toNat) :
    (mantExt prod).toNat = shiftSticky prod.toNat (if prod.msb then 61 else 60) ∧
      2 ^ 66 ≤ (mantExt prod).toNat := by
  have hmsb : prod.msb = decide (2 ^ 127 ≤ prod.toNat) := BitVec.msb_eq_decide ..
  -- The top of the product, and what is gathered in its last bit, for either place of the leading one.
  have key : ∀ d, prod.toNat / 2 ^ d < 2 ^ 67 → 2 ^ 66 ≤ prod.toNat / 2 ^ d →
      (if prod.extractLsb' 0 d != 0 then prod.extractLsb' d 67 ||| 1#67
        else prod.extractLsb' d 67).toNat = shiftSticky prod.toNat d ∧
      2 ^ 66 ≤ shiftSticky prod.toNat d := by
    intro d hlt hge
    have htop : (prod.extractLsb' d 67).toNat = prod.toNat / 2 ^ d := by
      rw [BitVec.extractLsb'_toNat, Nat.shiftRight_eq_div_pow, Nat.mod_eq_of_lt hlt]
    rw [extractLsb'_ne_zero, shiftSticky]
    by_cases hz : prod.toNat % 2 ^ d = 0
    · simp only [hz, ne_eq, not_true_eq_false, decide_false, Bool.false_eq_true, ↓reduceIte]
      exact ⟨htop, hge⟩
    · simp only [hz, ne_eq, not_false_eq_true, decide_true, ↓reduceIte]
      rw [toNat_or_one (by decide), htop]
      refine ⟨rfl, ?_⟩
      rw [lastSet]
      omega
  have hlt := prod.isLt
  by_cases hb : 2 ^ 127 ≤ prod.toNat
  · rw [decide_eq_true hb] at hmsb
    obtain ⟨heq, hle⟩ := key 61 (by omega) (by omega)
    unfold mantExt
    rw [hmsb]
    exact ⟨heq, hle.trans heq.ge⟩
  · rw [decide_eq_false hb] at hmsb
    obtain ⟨heq, hle⟩ := key 60 (by omega) (by omega)
    unfold mantExt
    rw [hmsb]
    exact ⟨heq, hle.trans heq.ge⟩

theorem signed_mul (s t : Bool) (x y : ℝ) : signed s x * signed t y = signed (s ^^ t) (x * y) := by
  cases s <;> cases t <;> simp [signed]

/-- The product of the mantissas is the exact product, and its leading one is one of two bits. -/
theorem value_mul {a b : Fp80} (ha : IsNumber a) (hb : IsNumber b) :
    2 ^ 126 ≤ ((normalize a).1.setWidth 128 * (normalize b).1.setWidth 128).toNat ∧
    value a * value b = signed ((unpack a).sign ^^ (unpack b).sign)
      (((normalize a).1.setWidth 128 * (normalize b).1.setWidth 128).toNat *
        (2 : ℝ) ^ (expSum a b - mantBias - 63)) := by
  have htopA := normalize_top ha
  have htopB := normalize_top hb
  have hprod : ((normalize a).1.setWidth 128 * (normalize b).1.setWidth 128).toNat =
      (normalize a).1.toNat * (normalize b).1.toNat := by
    have hA := (normalize a).1.isLt
    have hB := (normalize b).1.isLt
    rw [BitVec.toNat_mul, BitVec.toNat_setWidth_of_le (by decide),
      BitVec.toNat_setWidth_of_le (by decide)]
    have hlt : (normalize a).1.toNat * (normalize b).1.toNat < 2 ^ 64 * 2 ^ 64 :=
      Nat.mul_lt_mul'' hA hB
    exact Nat.mod_eq_of_lt hlt
  refine ⟨?_, ?_⟩
  · rw [hprod]
    calc 2 ^ 126 = 2 ^ 63 * 2 ^ 63 := by decide
      _ ≤ _ := Nat.mul_le_mul htopA htopB
  · rw [value_normalize ha, value_normalize hb, signed_mul, hprod]
    congr 1
    have hexp : expSum a b - mantBias - 63 =
        (normalize a).2 - mantBias + ((normalize b).2 - mantBias) := by
      rw [expSum, mantBias]
      ring
    rw [hexp, zpow_add₀ two_ne_zero]
    push_cast
    ring

/-- The product is correctly rounded. -/
theorem product_rounds {a b : Fp80} (ha : IsNumber a) (hb : IsNumber b) (mode : Mode)
    (prec : Precision) : ∃ r, RoundsTo (prec.format ⊥) mode (value a * value b) r ∧
      Delivered r (product a b mode prec) := by
  obtain ⟨hprod, hval⟩ := value_mul ha hb
  rw [product, early_eq_none ha hb, Option.getD_none, normRound, hval]
  generalize (normalize a).1.setWidth 128 * (normalize b).1.setWidth 128 = prod at hprod
  obtain ⟨hext, htop⟩ := toNat_mantExt hprod
  set exp := if prod.msb then expSum a b + 1 else expSum a b with hexp
  have hsticky : Sticky ((prod.toNat : ℝ) / 2 ^ (if prod.msb then 61 else 60)) (mantExt prod).toNat := by
    rw [hext]
    exact Sticky.shift (.inl rfl) _
  obtain ⟨r, hr, hdel⟩ := packNumber_rounds (hsticky.agrees (by omega)) htop
    ((unpack a).sign ^^ (unpack b).sign) exp mode
  refine ⟨r, ?_, hdel⟩
  convert hr using 2
  have hpow : exp - mantBias - 3 =
      expSum a b - mantBias - 63 + ((if prod.msb then 61 else 60 : ℕ) : ℤ) := by
    rw [hexp]
    split_ifs <;> push_cast <;> ring
  rw [hpow, zpow_add₀ two_ne_zero, zpow_natCast]
  field_simp

/-! ### Runs -/

/-- The registers between a start with `a` and `b` and the result, `j` clocks later. -/
def Stage (a b : Fp80) (mode : Mode) (prec : Precision) : ℕ → MulUnit → Prop
  | 1, x => x.state = .unpack ∧ x.done = false ∧ x.aReg = a ∧ x.bReg = b ∧ x.rmReg = mode ∧ x.rpReg = prec
  | 2, x => x.state = .multiply ∧ x.done = false ∧ x.rmReg = mode ∧ x.rpReg = prec ∧
      x.aMant = (normalize a).1 ∧ x.bMant = (normalize b).1 ∧
      x.resSign = ((unpack a).sign ^^ (unpack b).sign) ∧ x.expRes = expSum a b ∧
      x.earlyExit = (early a b).isSome ∧ ∀ v, early a b = some v → x.earlyResult = v
  | 3, x => x.state = .normRound ∧ x.done = false ∧ x.rmReg = mode ∧ x.rpReg = prec ∧
      x.resSign = ((unpack a).sign ^^ (unpack b).sign) ∧ x.expRes = expSum a b ∧
      x.mantProd = (normalize a).1.setWidth 128 * (normalize b).1.setWidth 128
  | _, _ => False

variable {x : MulUnit} {i : UnitIn} {a b : Fp80} {mode : Mode} {prec : Precision}

theorem stage_start (hx : x.state = .idle) (hr : i.resetN = true) (hs : i.start = true) :
    Stage i.aIn i.bIn i.roundMode i.roundPrec 1 (x.clock i) := by
  simp [MulUnit.clock, Stage, hx, hr, hs]

theorem stage_unpack (h : Stage a b mode prec 1 x) (hr : i.resetN = true) :
    Stage a b mode prec 2 (x.clock i) := by
  obtain ⟨hx, hd, rfl, rfl, rfl, rfl⟩ := h
  simp +contextual [MulUnit.clock, Stage, hx, hr]

theorem stage_early {v : Fp80} (h : Stage a b mode prec 2 x) (hr : i.resetN = true)
    (he : early a b = some v) :
    (x.clock i).state = .idle ∧ (x.clock i).done = true ∧ (x.clock i).result = v := by
  obtain ⟨hx, hd, hm, hp, hA, hB, hs, hE, hearly, hres⟩ := h
  rw [he, Option.isSome_some] at hearly
  simp [MulUnit.clock, hx, hr, hearly, hres v he]

theorem stage_multiply (h : Stage a b mode prec 2 x) (hr : i.resetN = true) (he : early a b = none) :
    Stage a b mode prec 3 (x.clock i) := by
  obtain ⟨hx, hd, hm, hp, hA, hB, hs, hE, hearly, -⟩ := h
  rw [he, Option.isSome_none] at hearly
  simp [MulUnit.clock, Stage, hx, hr, hearly, hm, hp, hA, hB, hs, hE]

theorem stage_normRound (h : Stage a b mode prec 3 x) (hr : i.resetN = true) (he : early a b = none) :
    (x.clock i).state = .idle ∧ (x.clock i).done = true ∧
      (x.clock i).result = product a b mode prec := by
  obtain ⟨hx, hd, rfl, rfl, hs, hE, hP⟩ := h
  simp [MulUnit.clock, hx, hr, hs, hE, hP, product, he]

theorem idle_not_busy (h : x.state = .idle) : x.busy = false := by
  rw [MulUnit.busy, h]
  rfl

/-- A start in the idle state is answered with the product, whatever the inputs are meanwhile. -/
theorem answers {u : ℕ → UnitIn} {t : ℕ} (hx : (x.run u t).state = .idle)
    (hs : (u t).start = true) (hr : ∀ j < 4, (u (t + j)).resetN = true) :
    Answers (fun n => (x.run u n).busy) (fun n => (x.run u n).done) (fun n => (x.run u n).result) t
      (latency (u t).aIn (u t).bIn)
      (product (u t).aIn (u t).bIn (u t).roundMode (u t).roundPrec) := by
  have h1 : Stage (u t).aIn (u t).bIn (u t).roundMode (u t).roundPrec 1 (x.run u (t + 1)) :=
    stage_start hx (hr 0 (by decide)) hs
  have h2 : Stage (u t).aIn (u t).bIn (u t).roundMode (u t).roundPrec 2 (x.run u (t + 2)) :=
    stage_unpack h1 (hr 1 (by decide))
  cases he : early (u t).aIn (u t).bIn with
  | some v =>
    obtain ⟨h3, hd, hres⟩ := stage_early h2 (hr 2 (by decide)) he
    have hlat : latency (u t).aIn (u t).bIn = 3 := by rw [latency, he]; rfl
    rw [hlat]
    refine ⟨fun j h0 hj => ?_, idle_not_busy h3, hd, by rw [product, he]; exact hres⟩
    obtain rfl | rfl : j = 1 ∨ j = 2 := by omega
    · exact ⟨by simp [MulUnit.busy, h1.1], h1.2.1⟩
    · exact ⟨by simp [MulUnit.busy, h2.1], h2.2.1⟩
  | none =>
    have h3 : Stage (u t).aIn (u t).bIn (u t).roundMode (u t).roundPrec 3 (x.run u (t + 3)) :=
      stage_multiply h2 (hr 2 (by decide)) he
    obtain ⟨h4, hd, hres⟩ := stage_normRound h3 (hr 3 (by decide)) he
    have hlat : latency (u t).aIn (u t).bIn = 4 := by rw [latency, he]; rfl
    rw [hlat]
    refine ⟨fun j h0 hj => ?_, idle_not_busy h4, hd, hres⟩
    obtain rfl | rfl | rfl : j = 1 ∨ j = 2 ∨ j = 3 := by omega
    · exact ⟨by simp [MulUnit.busy, h1.1], h1.2.1⟩
    · exact ⟨by simp [MulUnit.busy, h2.1], h2.2.1⟩
    · exact ⟨by simp [MulUnit.busy, h3.1], h3.2.1⟩

/-- The run answers a start on two numbers with their correctly rounded product. -/
theorem multiplies {u : ℕ → UnitIn} {t : ℕ} (hx : (x.run u t).state = .idle)
    (hs : (u t).start = true) (hr : ∀ j < 4, (u (t + j)).resetN = true) (ha : IsNumber (u t).aIn)
    (hb : IsNumber (u t).bIn) :
    ∃ r v, RoundsTo ((u t).roundPrec.format ⊥) (u t).roundMode (value (u t).aIn * value (u t).bIn) r ∧
      Delivered r v ∧
      Answers (fun n => (x.run u n).busy) (fun n => (x.run u n).done) (fun n => (x.run u n).result) t 4 v := by
  obtain ⟨r, hround, hdel⟩ := product_rounds ha hb (u t).roundMode (u t).roundPrec
  have hlat : latency (u t).aIn (u t).bIn = 4 := by rw [latency, early_eq_none ha hb]; rfl
  exact ⟨r, _, hround, hdel, hlat ▸ answers hx hs hr⟩

/-- A third of three, with the start held. -/
def thirdOfThree : UnitIn where
  resetN := true
  start := true
  aIn := 0x3FFDAAAAAAAAAAAAAAAB
  bIn := 0x4000C000000000000000
  subtract := false
  roundMode := .towardZero
  roundPrec := .single

theorem multiplies_third : ∃ r v, RoundsTo (Precision.single.format ⊥) .towardZero
    (value 0x3FFDAAAAAAAAAAAAAAAB * value 0x4000C000000000000000) r ∧ Delivered r v ∧
      Answers (fun n => (MulUnit.init.run (fun _ => thirdOfThree) n).busy)
        (fun n => (MulUnit.init.run (fun _ => thirdOfThree) n).done)
        (fun n => (MulUnit.init.run (fun _ => thirdOfThree) n).result) 0 4 v :=
  multiplies (x := .init) (u := fun _ => thirdOfThree) (t := 0) rfl rfl (fun _ _ => rfl)
    ⟨by decide, by decide, fun _ => by decide⟩ ⟨by decide, by decide, fun _ => by decide⟩

end Mul

end Fpu
