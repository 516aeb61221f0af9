import Mathlib

/-!
# Pulses on a wire

A wire is a function of the clock.

* `Rises`, `Up`: a rising edge, and a stretch of clocks in which the wire is high;
* `exists_rise`, `exists_fall`: a wire that is high rose before, and one that is low later fell;
* `Sampling`: one clock of every pulse, in which the wire is looked at.
-/

namespace Wire

/-- The wire is high, and was not before. -/
def Rises (w : ℕ → Bool) (t : ℕ) : Prop := w t = true ∧ ∀ s, t = s + 1 → w s = false

/-- The wire is high from `a` to `z`. -/
def Up (w : ℕ → Bool) (a z : ℕ) : Prop := ∀ t, a ≤ t → t ≤ z → w t = true

/-- The pulse that rises in clock `a` has clock `z` as its last one. -/
structure Pulse (w : ℕ → Bool) (a z : ℕ) : Prop where
  rises : Rises w a
  le : a ≤ z
  up : Up w a z
  falls : w (z + 1) = false

/-- The clock in which each pulse is looked at. -/
structure Sampling (w : ℕ → Bool) where
  sample : ℕ → ℕ
  le : ∀ a, Rises w a → a ≤ sample a
  up : ∀ a, Rises w a → Up w a (sample a)

variable {w : ℕ → Bool} {a b c t z : ℕ}

theorem Up.mono (h : Up w a z) (hb : a ≤ b) (ht : t ≤ z) : Up w b t :=
  fun k hk hkt => h k (by omega) (by omega)

theorem Up.snoc (h : Up w a z) (hz : w (z + 1) = true) : Up w a (z + 1) := by
  intro k hk hkz
  rcases Nat.lt_succ_iff_lt_or_eq.mp (Nat.lt_succ_of_le hkz) with hlt | rfl
  · exact h k hk (by omega)
  · exact hz

/-- A wire that is high has risen. -/
theorem exists_rise (h : w t = true) : ∃ a ≤ t, Rises w a ∧ Up w a t := by
  induction t with
  | zero =>
    refine ⟨0, le_rfl, ⟨h, fun s hs => absurd hs (by omega)⟩, fun k _ hk => ?_⟩
    rwa [Nat.le_zero.mp hk]
  | succ t ih =>
    cases ht : w t with
    | true =>
      obtain ⟨a, hat, hrise, hup⟩ := ih ht
      exact ⟨a, by omega, hrise, hup.snoc h⟩
    | false =>
      refine ⟨t + 1, le_rfl, ⟨h, fun s hs => ?_⟩, fun k hk hkt => ?_⟩
      · rwa [show s = t by omega]
      · rwa [show k = t + 1 by omega]

theorem Up.cons (ha : w a = true) (h : Up w (a + 1) z) : Up w a z := by
  intro k hk hkz
  rcases Nat.eq_or_lt_of_le hk with rfl | hlt
  · exact ha
  · exact h k hlt hkz

/-- A wire that is high, and low later, falls between. -/
theorem exists_fall (h : w a = true) (hab : a < b) (hb : w b = false) :
    ∃ z, a ≤ z ∧ z < b ∧ Up w a z ∧ w (z + 1) = false := by
  obtain ⟨d, rfl⟩ := Nat.exists_eq_add_of_lt hab
  induction d generalizing a with
  | zero => exact ⟨a, le_rfl, by omega, fun t h1 h2 => by rwa [show t = a by omega], hb⟩
  | succ d ih =>
    cases hnext : w (a + 1) with
    | false => exact ⟨a, le_rfl, by omega, fun t h1 h2 => by rwa [show t = a by omega], hnext⟩
    | true =>
      obtain ⟨z, haz, hzb, hup, hfall⟩ := ih hnext (by omega)
        (by rwa [show a + 1 + d + 1 = a + (d + 1) + 1 by omega])
      exact ⟨z, by omega, by omega, hup.cons h, hfall⟩

/-- No edge stands inside a stretch. -/
theorem Up.not_rises (h : Up w a t) (hab : a < b) (hbt : b ≤ t) : ¬ Rises w b := by
  intro hb
  obtain ⟨c, rfl⟩ : ∃ c, b = c + 1 := ⟨b - 1, by omega⟩
  have hc := h c (by omega) (by omega)
  rw [hb.2 c rfl] at hc
  cases hc

/-- Two stretches that end together and start with an edge are one. -/
theorem rises_unique (ha : Rises w a) (hb : Rises w b) (hat : Up w a t) (hbt : Up w b t)
    (hta : a ≤ t) (htb : b ≤ t) : a = b := by
  rcases Nat.lt_trichotomy a b with hlt | heq | hgt
  · exact absurd hb (hat.not_rises hlt htb)
  · exact heq
  · exact absurd ha (hbt.not_rises hgt hta)

/-- A pulse in progress in clock `b` that is over before clock `c` ends between. -/
theorem exists_pulse (ha : Rises w a) (hab : a ≤ b) (hup : Up w a b) (hbc : b < c)
    (hc : w c = false) : ∃ z, b ≤ z ∧ z < c ∧ Pulse w a z := by
  obtain ⟨z, hbz, hzc, hupz, hfall⟩ := exists_fall (hup b hab le_rfl) hbc hc
  refine ⟨z, hbz, hzc, ha, by omega, fun k hk hkz => ?_, hfall⟩
  rcases Nat.lt_or_ge k b with hkb | hkb
  · exact hup k hk hkb.le
  · exact hupz k hkb hkz

/-- A pulse is over before the next one rises. -/
theorem Pulse.lt_rise (h : Pulse w a z) (hb : Rises w b) (hz : z < b) : z + 1 < b := by
  have hne : b ≠ z + 1 := by
    rintro rfl
    have hw := hb.1
    rw [h.falls] at hw
    cases hw
  omega

/-- A pulse that is looked at is not over before. -/
theorem Pulse.lt_of_lt_sample (h : Pulse w a z) (s : Sampling w) (hb : Rises w b)
    (hz : z < s.sample b) : z < b := by
  by_contra hlt
  have hw := s.up b hb (z + 1) (by omega) (by omega)
  rw [h.falls] at hw
  cases hw

/-- The pulse is looked at by its last clock. -/
theorem Pulse.sample_le (h : Pulse w a z) (s : Sampling w) : s.sample a ≤ z := by
  by_contra hlt
  have hw := s.up a h.rises (z + 1) (by have := h.le; omega) (by omega)
  rw [h.falls] at hw
  cases hw

end Wire
