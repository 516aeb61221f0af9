import Mathlib

/-!
# Rounding to a binary format

A format is a number of significant bits and, for gradual underflow, a least exponent. `RoundsTo` says
what each rounding direction asks of a result, in the order of the values alone.

A machine rounds an integer that has lost bits of the exact value. `Agrees` is all that the rounding
needs of it, the place of the value among the significands and their middles. `Sticky` is what the
machine keeps: the bits that are left, the last of which also tells whether any that were lost was set.

* `RoundsTo.of_agrees`: the rounded integer rounds the exact value;
* `RoundsTo.le_of_le`, `RoundsTo.ge_of_ge`: rounding does not pass a value of the format;
* `Sticky.shift`: a shift keeps an integer sticky.
-/

namespace Rounding

/-- The directions of rounding. -/
inductive Mode
  | nearest
  | towardZero
  | towardNegative
  | towardPositive
  deriving DecidableEq

/-- The direction that the opposite value is rounded in. -/
def Mode.flip : Mode → Mode
  | .nearest => .nearest
  | .towardZero => .towardZero
  | .towardNegative => .towardPositive
  | .towardPositive => .towardNegative

/-- The number of significant bits, and the least exponent of the last of them. -/
structure Format where
  precision : ℕ
  emin : WithBot ℤ
  two_le : 2 ≤ precision

variable {𝕜 : Type*} [Field 𝕜]

namespace Format

variable (F : Format)

def Representable (y : 𝕜) : Prop :=
  ∃ m e : ℤ, |m| < 2 ^ F.precision ∧ F.emin ≤ e ∧ y = m * 2 ^ e

/-- The last bit of the significand is clear. -/
def EvenSignificand (y : 𝕜) : Prop :=
  ∃ m e : ℤ, Even m ∧ |m| < 2 ^ F.precision ∧ F.emin ≤ e ∧
    (2 ^ F.precision ≤ 2 * |m| ∨ F.emin = e) ∧ y = m * 2 ^ e

/-- `q * 2 ^ f` is written with `f` as the exponent of its last bit. -/
structure Scaled (q : ℕ) (f : ℤ) : Prop where
  lt : q < 2 ^ F.precision
  emin_le : F.emin ≤ f
  normal : 2 ^ F.precision ≤ 2 * q ∨ F.emin = f

variable {F} {y : 𝕜} {q : ℕ} {f : ℤ}

theorem Representable.neg (h : F.Representable y) : F.Representable (-y) := by
  obtain ⟨m, e, hm, he, rfl⟩ := h
  exact ⟨-m, e, by rwa [abs_neg], he, by push_cast; ring⟩

theorem EvenSignificand.neg (h : F.EvenSignificand y) : F.EvenSignificand (-y) := by
  obtain ⟨m, e, hev, hm, he, hn, rfl⟩ := h
  exact ⟨-m, e, hev.neg, by rwa [abs_neg], he, by rwa [abs_neg], by push_cast; ring⟩

theorem Scaled.representable (h : F.Scaled q f) : F.Representable ((q : 𝕜) * 2 ^ f) :=
  ⟨q, f, by rw [Nat.abs_cast]; exact_mod_cast h.lt, h.emin_le, by norm_cast⟩

theorem Scaled.even (h : F.Scaled q f) (hq : Even q) : F.EvenSignificand ((q : 𝕜) * 2 ^ f) := by
  refine ⟨q, f, by exact_mod_cast hq, ?_, h.emin_le, ?_, by norm_cast⟩
  · rw [Nat.abs_cast]
    exact_mod_cast h.lt
  · rw [Nat.abs_cast]
    exact h.normal.imp_left fun hn => by exact_mod_cast hn

end Format

variable [LinearOrder 𝕜]

/-- `r` is the value of the format that `x` is rounded to. -/
def RoundsTo (F : Format) : Mode → 𝕜 → 𝕜 → Prop
  | .nearest, x, r => F.Representable r ∧ ∀ y, F.Representable y →
      |x - r| ≤ |x - y| ∧ (|x - y| = |x - r| → y ≠ r → F.EvenSignificand r)
  | .towardZero, x, r => F.Representable r ∧ 0 ≤ x * r ∧ |r| ≤ |x| ∧
      ∀ y, F.Representable y → |y| ≤ |x| → |y| ≤ |r|
  | .towardNegative, x, r => IsGreatest {y | F.Representable y ∧ y ≤ x} r
  | .towardPositive, x, r => IsLeast {y | F.Representable y ∧ x ≤ y} r

/-- `N` is where `x` is among the multiples of `2 ^ g`. -/
def Agrees (g : ℕ) (x : 𝕜) (N : ℕ) : Prop :=
  ∀ M : ℕ, 2 ^ g ∣ M → ((M : 𝕜) ≤ x ↔ M ≤ N) ∧ (x ≤ M ↔ N ≤ M)

theorem Agrees.mono {g h N : ℕ} {x : 𝕜} (hx : Agrees g x N) (hgh : g ≤ h) : Agrees h x N :=
  fun M hM => hx M ((pow_dvd_pow 2 hgh).trans hM)

section Directed

variable {F : Format} {x lo hi : 𝕜}

theorem roundsTo_towardNegative (hlo : F.Representable lo)
    (gap : ∀ y, F.Representable y → y ≤ lo ∨ hi ≤ y) (h0 : lo ≤ x) (h1 : x < hi) :
    RoundsTo F .towardNegative x lo :=
  ⟨⟨hlo, h0⟩, fun y hy => (gap y hy.1).resolve_right fun hge => absurd (hge.trans hy.2) h1.not_ge⟩

theorem roundsTo_towardPositive (hhi : F.Representable hi)
    (gap : ∀ y, F.Representable y → y ≤ lo ∨ hi ≤ y) (h0 : lo < x) (h1 : x ≤ hi) :
    RoundsTo F .towardPositive x hi :=
  ⟨⟨hhi, h1⟩, fun y hy => (gap y hy.1).resolve_left fun hle => absurd (hy.2.trans hle) h0.not_ge⟩

end Directed

variable [IsStrictOrderedRing 𝕜]

section Negation

variable {F : Format} {x r y : 𝕜}

/-- Rounding commutes with the sign. -/
theorem RoundsTo.neg {mode : Mode} (h : RoundsTo F mode.flip x r) : RoundsTo F mode (-x) (-r) := by
  cases mode with
  | nearest =>
    refine ⟨h.1.neg, fun y hy => ?_⟩
    have hd := h.2 (-y) hy.neg
    have hr : |-x - -r| = |x - r| := by rw [← abs_neg]; congr 1; ring
    have hy' : |-x - y| = |x - -y| := by rw [← abs_neg]; congr 1; ring
    rw [hr, hy']
    exact ⟨hd.1, fun heq hne => (hd.2 heq fun hc => hne (by rw [← hc, neg_neg])).neg⟩
  | towardZero =>
    obtain ⟨hrep, hsign, hle, hmax⟩ := h
    exact ⟨hrep.neg, by rwa [neg_mul_neg], by rwa [abs_neg, abs_neg],
      fun y hy hyx => by rw [abs_neg]; exact hmax y hy (by rwa [abs_neg] at hyx)⟩
  | towardNegative =>
    obtain ⟨⟨hrep, hle⟩, hmin⟩ := h
    exact ⟨⟨hrep.neg, neg_le_neg hle⟩,
      fun y hy => le_neg.mpr (hmin ⟨hy.1.neg, le_neg.mpr hy.2⟩)⟩
  | towardPositive =>
    obtain ⟨⟨hrep, hle⟩, hmax⟩ := h
    exact ⟨⟨hrep.neg, neg_le_neg hle⟩,
      fun y hy => neg_le.mpr (hmax ⟨hy.1.neg, neg_le.mpr hy.2⟩)⟩

end Negation

section Neighbours

variable {F : Format} {x lo hi : 𝕜}

/-- Below the middle of two neighbours, and in the middle if the lower one is even. -/
theorem roundsTo_nearest_lower (hlo : F.Representable lo)
    (gap : ∀ y, F.Representable y → y ≤ lo ∨ hi ≤ y) (h0 : lo ≤ x)
    (hmid : x - lo ≤ hi - x) (heven : x - lo = hi - x → F.EvenSignificand lo) :
    RoundsTo F .nearest x lo := by
  refine ⟨hlo, fun y hy => ?_⟩
  rw [abs_of_nonneg (sub_nonneg.mpr h0)]
  rcases gap y hy with hle | hge
  · have hxy : |x - y| = x - y := abs_of_nonneg (by linarith)
    exact ⟨by rw [hxy]; linarith, fun heq hne => absurd (by rw [hxy] at heq; linarith) hne⟩
  · have hxy : |x - y| = y - x := by rw [abs_sub_comm]; exact abs_of_nonneg (by linarith)
    refine ⟨by rw [hxy]; linarith, fun heq _ => heven ?_⟩
    rw [hxy] at heq
    linarith

theorem roundsTo_nearest_upper (hhi : F.Representable hi)
    (gap : ∀ y, F.Representable y → y ≤ lo ∨ hi ≤ y) (h1 : x ≤ hi)
    (hmid : hi - x ≤ x - lo) (heven : x - lo = hi - x → F.EvenSignificand hi) :
    RoundsTo F .nearest x hi := by
  refine ⟨hhi, fun y hy => ?_⟩
  rw [abs_sub_comm x hi, abs_of_nonneg (sub_nonneg.mpr h1)]
  rcases gap y hy with hle | hge
  · have hxy : |x - y| = x - y := abs_of_nonneg (by linarith)
    refine ⟨by rw [hxy]; linarith, fun heq _ => heven ?_⟩
    rw [hxy] at heq
    linarith
  · have hxy : |x - y| = y - x := by rw [abs_sub_comm]; exact abs_of_nonneg (by linarith)
    exact ⟨by rw [hxy]; linarith, fun heq hne => absurd (by rw [hxy] at heq; linarith) hne⟩

theorem roundsTo_towardZero (hlo : F.Representable lo)
    (gap : ∀ y, F.Representable y → y ≤ lo ∨ hi ≤ y) (hpos : 0 ≤ lo) (h0 : lo ≤ x) (h1 : x < hi) :
    RoundsTo F .towardZero x lo := by
  have hx : 0 ≤ x := hpos.trans h0
  refine ⟨hlo, mul_nonneg hx hpos, by rwa [abs_of_nonneg hpos, abs_of_nonneg hx], fun y hy hyx => ?_⟩
  rw [abs_of_nonneg hx] at hyx
  rw [abs_of_nonneg hpos]
  have hrep : F.Representable |y| := by
    rcases abs_choice y with h | h <;> rw [h]
    exacts [hy, hy.neg]
  rcases gap _ hrep with hle | hge
  · exact hle
  · linarith

/-- A value of the format is rounded to itself. -/
theorem RoundsTo.of_representable (hx : F.Representable x) (mode : Mode) : RoundsTo F mode x x := by
  cases mode with
  | nearest =>
    refine ⟨hx, fun y hy => ?_⟩
    rw [sub_self, abs_zero]
    exact ⟨abs_nonneg _, fun h hne => absurd (sub_eq_zero.mp (abs_eq_zero.mp h)).symm hne⟩
  | towardZero => exact ⟨hx, mul_self_nonneg x, le_rfl, fun y _ h => h⟩
  | towardNegative => exact ⟨⟨hx, le_rfl⟩, fun y hy => hy.2⟩
  | towardPositive => exact ⟨⟨hx, le_rfl⟩, fun y hy => hy.2⟩

end Neighbours

section Monotone

variable {F : Format} {mode : Mode} {x r y : 𝕜}

/-- Rounding does not pass a value of the format. -/
theorem RoundsTo.le_of_le (h : RoundsTo F mode x r) (hy : F.Representable y) (hyx : y ≤ x) : y ≤ r := by
  cases mode with
  | nearest =>
    by_contra hr
    have hdist := (h.2 y hy).1
    rw [abs_of_nonneg (by linarith), abs_of_nonneg (by linarith)] at hdist
    linarith
  | towardZero =>
    obtain ⟨-, hsign, hle, hmax⟩ := h
    rcases lt_trichotomy x 0 with hx | rfl | hx
    · -- The result is no further from zero.
      have hr : r ≤ 0 := nonpos_of_mul_nonneg_right hsign hx
      rw [abs_of_nonpos hr, abs_of_neg hx] at hle
      linarith
    · rw [abs_zero] at hle
      rwa [abs_nonpos_iff.mp hle]
    · have hr : 0 ≤ r := nonneg_of_mul_nonneg_right hsign hx
      rcases le_total y 0 with hy0 | hy0
      · exact hy0.trans hr
      · have hmax' := hmax y hy (by rwa [abs_of_nonneg hy0, abs_of_pos hx])
        rwa [abs_of_nonneg hy0, abs_of_nonneg hr] at hmax'
  | towardNegative => exact h.2 ⟨hy, hyx⟩
  | towardPositive => exact hyx.trans h.1.2

theorem RoundsTo.ge_of_ge (h : RoundsTo F mode x r) (hy : F.Representable y) (hxy : x ≤ y) : r ≤ y := by
  have hflip : RoundsTo F mode.flip (-x) (-r) := .neg (by cases mode <;> exact h)
  exact neg_le_neg_iff.mp (hflip.le_of_le hy.neg (neg_le_neg hxy))

end Monotone

namespace Format.Scaled

variable {F : Format} {q : ℕ} {f : ℤ}

/-- The successor of the last significand of an exponent is the first one of the next. -/
theorem succ_cases (h : F.Scaled q f) :
    q + 1 < 2 ^ F.precision ∨ ((q : 𝕜) + 1) * 2 ^ f = (2 ^ (F.precision - 1) : ℤ) * 2 ^ (f + 1) := by
  rcases Nat.lt_or_ge (q + 1) (2 ^ F.precision) with hlt | hge
  · exact .inl hlt
  · have hp := F.two_le
    have hq : q + 1 = 2 ^ F.precision := le_antisymm h.lt hge
    have hq' : (q : 𝕜) + 1 = 2 ^ (F.precision - 1) * 2 := by
      rw [← pow_succ, show F.precision - 1 + 1 = F.precision by omega]
      exact_mod_cast hq
    rw [hq', zpow_add_one₀ two_ne_zero]
    right
    push_cast
    ring

theorem two_pow_pred_lt : |(2 ^ (F.precision - 1) : ℤ)| < 2 ^ F.precision := by
  have hp := F.two_le
  rw [abs_of_nonneg (by positivity)]
  exact pow_lt_pow_right₀ one_lt_two (by omega)

theorem succ_representable (h : F.Scaled q f) : F.Representable (((q : 𝕜) + 1) * 2 ^ f) := by
  rcases h.succ_cases (𝕜 := 𝕜) with hlt | heq
  · exact ⟨q + 1, f, by rw [abs_of_nonneg (by positivity)]; exact_mod_cast hlt, h.emin_le,
      by push_cast; ring⟩
  · exact ⟨_, f + 1, two_pow_pred_lt, h.emin_le.trans (by exact_mod_cast (lt_add_one f).le), heq⟩

theorem succ_even (h : F.Scaled q f) (hq : ¬ Even q) :
    F.EvenSignificand (((q : 𝕜) + 1) * 2 ^ f) := by
  have hp := F.two_le
  rcases h.succ_cases (𝕜 := 𝕜) with hlt | heq
  · have habs : |(q : ℤ) + 1| = q + 1 := abs_of_nonneg (by positivity)
    refine ⟨q + 1, f, ?_, by rw [habs]; exact_mod_cast hlt, h.emin_le, ?_, by push_cast; ring⟩
    · have := Nat.even_add_one.mpr hq
      exact_mod_cast this
    · rw [habs]
      exact h.normal.imp_left fun hn => by
        have : 2 ^ F.precision ≤ 2 * (q + 1) := by omega
        exact_mod_cast this
  · refine ⟨_, f + 1, ?_, two_pow_pred_lt, h.emin_le.trans (by exact_mod_cast (lt_add_one f).le),
      .inl ?_, heq⟩
    · exact (even_two.pow_of_ne_zero (by omega))
    · rw [abs_of_nonneg (by positivity), ← pow_succ', show F.precision - 1 + 1 = F.precision by omega]

/-- Nothing of the format lies between two consecutive significands. -/
theorem gap (h : F.Scaled q f) (y : 𝕜) (hy : F.Representable y) :
    y ≤ (q : 𝕜) * 2 ^ f ∨ ((q : 𝕜) + 1) * 2 ^ f ≤ y := by
  obtain ⟨m, e, hm, he, rfl⟩ := hy
  have hf : (0 : 𝕜) < 2 ^ f := by positivity
  rcases le_or_gt f e with hfe | hef
  · obtain ⟨d, rfl⟩ := Int.le.dest hfe
    have hy : (m : 𝕜) * 2 ^ (f + d) = (m * 2 ^ d : ℤ) * 2 ^ f := by
      rw [zpow_add₀ two_ne_zero, zpow_natCast]
      push_cast
      ring
    rw [hy, mul_le_mul_iff_left₀ hf, mul_le_mul_iff_left₀ hf]
    have hcases : m * 2 ^ d ≤ (q : ℤ) ∨ (q : ℤ) + 1 ≤ m * 2 ^ d := by omega
    exact hcases.imp (fun h => by exact_mod_cast h) fun h => by exact_mod_cast h
  · left
    have hn : 2 ^ F.precision ≤ 2 * q := h.normal.resolve_right fun hc => by
      rw [hc] at he
      exact absurd (by exact_mod_cast he : f ≤ e) hef.not_ge
    have hm' : (m : 𝕜) ≤ 2 * q := by
      have : m ≤ 2 * q := (le_abs_self m).trans (hm.le.trans (by exact_mod_cast hn))
      exact_mod_cast this
    calc (m : 𝕜) * 2 ^ e ≤ 2 * q * 2 ^ e := by gcongr
      _ = q * 2 ^ (e + 1) := by rw [zpow_add_one₀ two_ne_zero]; ring
      _ ≤ q * 2 ^ f := by gcongr; exacts [one_le_two, hef]

end Format.Scaled

/-- The bit that a machine adds to the last one it keeps, `k` bits above the last one it has. -/
def increment (mode : Mode) (neg : Bool) (k N : ℕ) : Bool :=
  match mode with
  | .nearest => decide (2 ^ k < 2 * (N % 2 ^ k)) ||
      decide (2 * (N % 2 ^ k) = 2 ^ k) && decide (N / 2 ^ k % 2 = 1)
  | .towardZero => false
  | .towardNegative => neg && decide (N % 2 ^ k ≠ 0)
  | .towardPositive => !neg && decide (N % 2 ^ k ≠ 0)

/-- The significand that is left of `N` when `k` bits are rounded off. -/
def significand (mode : Mode) (neg : Bool) (k N : ℕ) : ℕ :=
  N / 2 ^ k + (increment mode neg k N).toNat

theorem significand_le (mode : Mode) (neg : Bool) {k n N : ℕ} (h : N < 2 ^ n * 2 ^ k) :
    significand mode neg k N ≤ 2 ^ n := by
  have hlt : N / 2 ^ k < 2 ^ n := (Nat.div_lt_iff_lt_mul (by positivity)).mpr h
  have hb := Bool.toNat_le (increment mode neg k N)
  rw [significand]
  omega

/-- Nothing is added where nothing is lost. -/
theorem significand_of_mod_eq_zero {k N : ℕ} (h : N % 2 ^ k = 0) (mode : Mode) (neg : Bool) :
    significand mode neg k N = N / 2 ^ k := by
  have hne : 0 ≠ 2 ^ k := (Nat.two_pow_pos k).ne
  cases mode <;> simp [significand, increment, h, hne]

/-- Far below the last bit that is kept, only the direction decides. -/
theorem significand_tiny {N k : ℕ} (h0 : N ≠ 0) (h : 2 * N < 2 ^ k) (mode : Mode) (neg : Bool) :
    significand mode neg k N =
      if mode = .towardPositive ∧ neg = false ∨ mode = .towardNegative ∧ neg = true then 1 else 0 := by
  have hmod : N % 2 ^ k = N := Nat.mod_eq_of_lt (by omega)
  rw [significand, Nat.div_eq_of_lt (by omega), zero_add]
  cases mode <;> cases neg <;> simp [increment, hmod, h0] <;> omega

/-- A value from its sign and its magnitude. -/
def signed (neg : Bool) (x : 𝕜) : 𝕜 := if neg then -x else x

/-- A value from its sign, its integer significand and the exponent of its last bit. -/
def ofSignificand (neg : Bool) (m : ℕ) (e : ℤ) : 𝕜 := signed neg (m * 2 ^ e)

@[simp] theorem increment_flip (mode : Mode) (k N : ℕ) :
    increment mode.flip false k N = increment mode true k N := by
  cases mode <;> simp [increment, Mode.flip]

namespace Agrees

variable {x : 𝕜} {N g : ℕ}

theorem of_eq (hx : x = N) (g : ℕ) : Agrees g x N := by
  rintro M -
  rw [hx]
  exact ⟨Nat.cast_le, Nat.cast_le⟩

theorem shiftLeft (hx : Agrees g x N) (d : ℕ) : Agrees (g + d) (x * 2 ^ d) (N * 2 ^ d) := by
  rintro M ⟨m, rfl⟩
  have hd : (0 : 𝕜) < 2 ^ d := by positivity
  have hd' : 0 < 2 ^ d := by positivity
  obtain ⟨h1, h2⟩ := hx (2 ^ g * m) (dvd_mul_right ..)
  have hM : 2 ^ (g + d) * m = 2 ^ g * m * 2 ^ d := by rw [pow_add]; ring
  have hM' : ((2 ^ (g + d) * m : ℕ) : 𝕜) = (2 ^ g * m : ℕ) * 2 ^ d := by rw [hM]; push_cast; rfl
  rw [hM', hM, mul_le_mul_iff_left₀ hd, mul_le_mul_iff_left₀ hd, Nat.mul_le_mul_right_iff hd',
    Nat.mul_le_mul_right_iff hd']
  exact ⟨h1, h2⟩

end Agrees

/-- `N` is `x`, or, where bits of `x` are lost, the odd neighbour of `x`. -/
def Sticky (x : 𝕜) (N : ℕ) : Prop :=
  x = N ∨ N % 2 = 1 ∧ (N : 𝕜) - 1 < x ∧ x < N + 1

/-- The last bit set. -/
def lastSet (n : ℕ) : ℕ := n / 2 * 2 + 1

/-- Shift right, the last bit gathering those that fall out. -/
def shiftSticky (N d : ℕ) : ℕ := if N % 2 ^ d = 0 then N / 2 ^ d else lastSet (N / 2 ^ d)

namespace Sticky

variable {x : 𝕜} {n N M : ℕ}

theorem of_lt (h0 : (n : 𝕜) < x) (h1 : x < n + 1) : Sticky x (lastSet n) := by
  right
  refine ⟨by simp [lastSet, Nat.add_mod], ?_⟩
  rcases Nat.even_or_odd' n with ⟨k, rfl | rfl⟩
  · rw [lastSet, Nat.mul_div_cancel_left k two_pos]
    push_cast at h0 h1 ⊢
    constructor <;> linarith
  · rw [lastSet, show (2 * k + 1) / 2 = k by omega]
    push_cast at h0 h1 ⊢
    constructor <;> linarith

/-- The integer part of a value and whether anything is left make a sticky integer. -/
theorem of_floor (h0 : (n : 𝕜) ≤ x) (h1 : x < n + 1) {p : Prop} [Decidable p] (hp : p ↔ x = n) :
    Sticky x (if p then n else lastSet n) := by
  split_ifs with h
  · exact .inl (hp.mp h)
  · exact of_lt (lt_of_le_of_ne h0 fun hc => h (hp.mpr hc.symm)) h1

/-- Bits may be cut without a trace where they are zero whenever the integer is exact. -/
theorem of_floor_shift (h0 : (n : 𝕜) ≤ x) (h1 : x < n + 1) {p : Prop} [Decidable p] (hp : p ↔ x = n)
    {d : ℕ} (hd : p → n % 2 ^ d = 0) :
    Sticky (x / 2 ^ d) (if p then n / 2 ^ d else lastSet (n / 2 ^ d)) := by
  have hpos : (0 : 𝕜) < 2 ^ d := by positivity
  have hpos' : 0 < 2 ^ d := by positivity
  have hle : n / 2 ^ d * 2 ^ d ≤ n := Nat.div_mul_le_self ..
  have hlt : n + 1 ≤ (n / 2 ^ d + 1) * 2 ^ d := by
    have := Nat.lt_mul_div_succ n hpos'
    rw [mul_comm] at this
    exact this
  have hle' : ((n / 2 ^ d : ℕ) : 𝕜) * 2 ^ d ≤ n := by exact_mod_cast hle
  have hlt' : (n : 𝕜) + 1 ≤ ((n / 2 ^ d : ℕ) + 1) * 2 ^ d := by exact_mod_cast hlt
  refine of_floor ((le_div_iff₀ hpos).mpr (hle'.trans h0)) ((div_lt_iff₀ hpos).mpr (h1.trans_le hlt')) ?_
  rw [div_eq_iff hpos.ne', hp]
  constructor
  · intro hx
    rw [hx]
    exact_mod_cast (Nat.div_mul_cancel (Nat.dvd_of_mod_eq_zero (hd (hp.mpr hx)))).symm
  · intro hx
    exact le_antisymm (hx.trans_le hle') h0

/-- An even number is on the same side of `x` and of `N`. -/
theorem even_le_iff (h : Sticky x N) (hM : M % 2 = 0) : (M : 𝕜) ≤ x ↔ M ≤ N := by
  rcases h with rfl | ⟨hodd, hlo, hhi⟩
  · exact Nat.cast_le
  · constructor
    · intro hMx
      have hlt : (M : 𝕜) < N + 1 := hMx.trans_lt hhi
      exact Nat.lt_succ_iff.mp (by exact_mod_cast hlt)
    · intro hMN
      have hle : (M : 𝕜) + 1 ≤ N := by exact_mod_cast (show M + 1 ≤ N by omega)
      linarith

theorem le_even_iff (h : Sticky x N) (hM : M % 2 = 0) : x ≤ M ↔ N ≤ M := by
  rcases h with rfl | ⟨hodd, hlo, hhi⟩
  · exact Nat.cast_le
  · constructor
    · intro hMx
      have hlt : (N : 𝕜) < M + 1 := by linarith
      exact Nat.lt_succ_iff.mp (by exact_mod_cast hlt)
    · intro hMN
      have hle : (N : 𝕜) + 1 ≤ M := by exact_mod_cast (show N + 1 ≤ M by omega)
      linarith

theorem agrees (h : Sticky x N) {g : ℕ} (hg : 1 ≤ g) : Agrees g x N := fun M hM =>
  have hM' : M % 2 = 0 := Nat.mod_eq_zero_of_dvd ((dvd_pow_self 2 (by omega)).trans hM)
  ⟨h.even_le_iff hM', h.le_even_iff hM'⟩

theorem add_even (h : Sticky x N) (hM : M % 2 = 0) : Sticky (M + x) (M + N) := by
  rcases h with rfl | ⟨hodd, hlo, hhi⟩
  · exact .inl (by push_cast; rfl)
  · refine .inr ⟨by omega, ?_, ?_⟩ <;> push_cast <;> linarith

theorem even_sub (h : Sticky x N) (hM : M % 2 = 0) (hle : N ≤ M) : Sticky (M - x) (M - N) := by
  rcases h with rfl | ⟨hodd, hlo, hhi⟩
  · exact .inl (by rw [Nat.cast_sub hle])
  · refine .inr ⟨by omega, ?_, ?_⟩ <;> rw [Nat.cast_sub hle] <;> linarith

/-- A shift right keeps what an integer says of a value. -/
theorem shift (h : Sticky x N) (d : ℕ) : Sticky (x / 2 ^ d) (shiftSticky N d) := by
  cases d with
  | zero => simpa [shiftSticky, Nat.mod_one] using h
  | succ d =>
    have hpos : (0 : 𝕜) < 2 ^ (d + 1) := by positivity
    have hsplit : N / 2 ^ (d + 1) * 2 ^ (d + 1) + N % 2 ^ (d + 1) = N := Nat.div_add_mod' ..
    have hmod : N % 2 ^ (d + 1) < 2 ^ (d + 1) := Nat.mod_lt _ (by positivity)
    have heven : ∀ m, m * 2 ^ (d + 1) % 2 = 0 := fun m => by
      rw [pow_succ, ← mul_assoc, Nat.mul_mod_left]
    set n := N / 2 ^ (d + 1) with hn
    have h0 : (n : 𝕜) * 2 ^ (d + 1) ≤ x := by
      have := (h.even_le_iff (heven n)).mpr (by omega)
      exact_mod_cast this
    have h1 : x < ((n : 𝕜) + 1) * 2 ^ (d + 1) := by
      have := (h.even_le_iff (heven (n + 1))).not.mpr (by rw [add_mul, one_mul]; omega)
      push_cast at this
      exact not_le.mp this
    refine of_floor ((le_div_iff₀ hpos).mpr h0) ((div_lt_iff₀ hpos).mpr h1) ?_
    rw [div_eq_iff hpos.ne']
    constructor
    · intro hz
      have hN : N = n * 2 ^ (d + 1) := by omega
      rcases h with rfl | ⟨hodd, -, -⟩
      · exact_mod_cast hN
      · exact absurd hodd (by rw [hN, heven]; decide)
    · intro hx
      have := (h.le_even_iff (heven n)).mp (by push_cast; exact hx.le)
      omega

end Sticky

/-- The rounded integer rounds the exact value, where the result is positive. -/
theorem RoundsTo.of_agrees_pos {F : Format} {x : 𝕜} {N k : ℕ} {e : ℤ} (h : Agrees k x N)
    (hs : F.Scaled (N / 2 ^ (k + 1)) (e + (k + 1))) (mode : Mode) :
    RoundsTo F mode (x * 2 ^ e) (significand mode false (k + 1) N * 2 ^ (e + (k + 1))) := by
  have hE : (0 : 𝕜) < 2 ^ e := by positivity
  have hhalf : 2 * 2 ^ k = 2 ^ (k + 1) := (pow_succ' 2 k).symm
  have hsplit : N / 2 ^ (k + 1) * 2 ^ (k + 1) + N % 2 ^ (k + 1) = N := Nat.div_add_mod' ..
  have hmod : N % 2 ^ (k + 1) < 2 ^ (k + 1) := Nat.mod_lt _ (by positivity)
  have hdvd : ∀ m, 2 ^ k ∣ m * 2 ^ (k + 1) := fun m =>
    (pow_dvd_pow 2 k.le_succ).trans (dvd_mul_left ..)
  simp only [significand]
  set q := N / 2 ^ (k + 1) with hq
  set r := N % 2 ^ (k + 1) with hr
  -- Both neighbours and their middle are among the multiples that tell where `x` is.
  have hlo : (q : 𝕜) * 2 ^ (k + 1) ≤ x := by
    have := (h _ (hdvd q)).1.mpr (by omega)
    exact_mod_cast this
  have hhi : x < ((q : 𝕜) + 1) * 2 ^ (k + 1) := by
    have := (h _ (hdvd (q + 1))).1.not.mpr (by rw [add_mul, one_mul]; omega)
    push_cast at this
    exact not_le.mp this
  have hne : r ≠ 0 → (q : 𝕜) * 2 ^ (k + 1) < x := fun h0 => by
    have := (h _ (hdvd q)).2.not.mpr (by omega)
    push_cast at this
    exact not_le.mp this
  have hmidDvd : 2 ^ k ∣ q * 2 ^ (k + 1) + 2 ^ k := (hdvd q).add dvd_rfl
  have hmid : ((q * 2 ^ (k + 1) + 2 ^ k : ℕ) : 𝕜) = ((q : 𝕜) + 1 / 2) * 2 ^ (k + 1) := by
    have : (2 : 𝕜) * 2 ^ k = 2 ^ (k + 1) := by exact_mod_cast hhalf
    push_cast
    rw [← this]
    ring
  have hmidLe : ((q : 𝕜) + 1 / 2) * 2 ^ (k + 1) ≤ x ↔ 2 ^ (k + 1) ≤ 2 * r := by
    rw [← hmid, (h _ hmidDvd).1]
    omega
  have hleMid : x ≤ ((q : 𝕜) + 1 / 2) * 2 ^ (k + 1) ↔ 2 * r ≤ 2 ^ (k + 1) := by
    rw [← hmid, (h _ hmidDvd).2]
    omega
  have hpow : (2 : 𝕜) ^ (e + (k + 1)) = 2 ^ (k + 1) * 2 ^ e := by
    rw [zpow_add₀ two_ne_zero, ← Nat.cast_add_one, zpow_natCast, mul_comm]
  have hlo' : (q : 𝕜) * 2 ^ (e + (k + 1)) ≤ x * 2 ^ e := by
    rw [hpow, ← mul_assoc]
    exact mul_le_mul_of_nonneg_right hlo hE.le
  have hhi' : x * 2 ^ e < ((q : 𝕜) + 1) * 2 ^ (e + (k + 1)) := by
    rw [hpow, ← mul_assoc]
    exact mul_lt_mul_of_pos_right hhi hE
  have hscale : ∀ a b : 𝕜, a * 2 ^ e ≤ b * 2 ^ e ↔ a ≤ b := fun a b => mul_le_mul_iff_left₀ hE
  have hlow : x * 2 ^ e - (q : 𝕜) * 2 ^ (e + (k + 1)) ≤ ((q : 𝕜) + 1) * 2 ^ (e + (k + 1)) - x * 2 ^ e ↔
      2 * r ≤ 2 ^ (k + 1) := by
    rw [← hleMid, hpow, ← hscale x]
    constructor <;> intro hx <;> linarith
  have hup : ((q : 𝕜) + 1) * 2 ^ (e + (k + 1)) - x * 2 ^ e ≤ x * 2 ^ e - (q : 𝕜) * 2 ^ (e + (k + 1)) ↔
      2 ^ (k + 1) ≤ 2 * r := by
    rw [← hmidLe, hpow, ← hscale _ x]
    constructor <;> intro hx <;> linarith
  cases mode with
  | nearest =>
    by_cases hinc : increment .nearest false (k + 1) N = true
    · rw [hinc, Bool.toNat_true, Nat.cast_add, Nat.cast_one]
      simp only [increment, Bool.or_eq_true, Bool.and_eq_true, decide_eq_true_eq] at hinc
      refine roundsTo_nearest_upper hs.succ_representable hs.gap hhi'.le
        (hup.mpr (by omega)) fun htie => hs.succ_even ?_
      have := hlow.mp htie.le
      rw [Nat.not_even_iff]
      omega
    · rw [Bool.not_eq_true] at hinc
      rw [hinc, Bool.toNat_false, add_zero]
      simp only [increment, Bool.or_eq_false_iff, Bool.and_eq_false_iff, decide_eq_false_iff_not]
        at hinc
      refine roundsTo_nearest_lower hs.representable hs.gap hlo' (hlow.mpr (by omega))
        fun htie => hs.even ?_
      have := hup.mp htie.ge
      rw [Nat.even_iff]
      omega
  | towardZero =>
    simp only [increment, Bool.toNat_false, add_zero]
    exact roundsTo_towardZero hs.representable hs.gap (by positivity) hlo' hhi'
  | towardNegative =>
    simp only [increment, Bool.false_and, Bool.toNat_false, add_zero]
    exact roundsTo_towardNegative hs.representable hs.gap hlo' hhi'
  | towardPositive =>
    by_cases h0 : r = 0
    · have hx : x = (q : 𝕜) * 2 ^ (k + 1) := by
        refine le_antisymm ?_ hlo
        have := (h _ (hdvd q)).2.mpr (by omega)
        exact_mod_cast this
      simp only [increment, ← hr, h0, ne_eq, not_true_eq_false, decide_false, Bool.and_false,
        Bool.toNat_false, add_zero]
      rw [hx, mul_assoc, ← hpow]
      exact .of_representable hs.representable _
    · simp only [increment, ← hr, ne_eq, h0, not_false_eq_true, decide_true, Bool.not_false,
        Bool.and_self, Bool.toNat_true, Nat.cast_add, Nat.cast_one]
      refine roundsTo_towardPositive hs.succ_representable hs.gap ?_ hhi'.le
      rw [hpow, ← mul_assoc]
      exact mul_lt_mul_of_pos_right (hne h0) hE

/-- The rounded integer is the exact value if nothing is rounded off. -/
theorem significand_exact_iff {x : 𝕜} {N k : ℕ} (h : Agrees k x N) (mode : Mode) (neg : Bool) :
    (significand mode neg (k + 1) N : 𝕜) * 2 ^ (k + 1) = x ↔ N % 2 ^ (k + 1) = 0 := by
  have hdvd : (2 : ℕ) ^ k ∣ 2 ^ (k + 1) := pow_dvd_pow 2 k.le_succ
  constructor
  · intro hx
    have hx' : ((significand mode neg (k + 1) N * 2 ^ (k + 1) : ℕ) : 𝕜) = x := by exact_mod_cast hx
    obtain ⟨h1, h2⟩ := h (significand mode neg (k + 1) N * 2 ^ (k + 1)) (hdvd.mul_left _)
    rw [hx'] at h1 h2
    rw [le_antisymm (h2.mp le_rfl) (h1.mp le_rfl), Nat.mul_mod_left]
  · intro hN
    obtain ⟨h1, h2⟩ := h N (hdvd.trans (Nat.dvd_of_mod_eq_zero hN))
    rw [significand_of_mod_eq_zero hN, le_antisymm (h2.mpr le_rfl) (h1.mpr le_rfl)]
    exact_mod_cast Nat.div_mul_cancel (Nat.dvd_of_mod_eq_zero hN)

/-- The rounded integer rounds the exact value. -/
theorem RoundsTo.of_agrees {F : Format} {x : 𝕜} {N k : ℕ} {e : ℤ} (h : Agrees k x N)
    (hs : F.Scaled (N / 2 ^ (k + 1)) (e + (k + 1))) (mode : Mode) (neg : Bool) :
    RoundsTo F mode (signed neg (x * 2 ^ e))
      (signed neg (significand mode neg (k + 1) N * 2 ^ (e + (k + 1)) : 𝕜)) := by
  cases neg with
  | false => exact of_agrees_pos h hs mode
  | true =>
    have := of_agrees_pos h hs mode.flip
    rw [significand, increment_flip] at this
    exact this.neg

end Rounding
