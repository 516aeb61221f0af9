import Mathlib

/-!
# Digit recurrences

Quotients and square roots that are found digit by digit, from the top of the operand down.

* `div_append`, `mod_append`: a digit appended to the dividend is divided with the remainder;
* `sqrt_append`: two bits appended to the radicand decide one bit of the root.
-/

namespace DigitRecurrence

variable {d h b s : ℕ}

theorem div_append (hd : 0 < d) (B h b : ℕ) :
    (B * h + b) / d = B * (h / d) + (B * (h % d) + b) / d := by
  have hsplit : B * h + b = d * (B * (h / d)) + (B * (h % d) + b) := by
    conv_lhs => rw [← Nat.div_add_mod h d]
    ring
  rw [hsplit, Nat.mul_add_div hd]

theorem mod_append (d B h b : ℕ) : (B * h + b) % d = (B * (h % d) + b) % d := by
  have hsplit : B * h + b = d * (B * (h / d)) + (B * (h % d) + b) := by
    conv_lhs => rw [← Nat.div_add_mod h d]
    ring
  rw [hsplit, Nat.mul_add_mod]

/-- A digit is found by subtraction. -/
theorem digit_eq {r q : ℕ} (h0 : q * d ≤ r) (h1 : r < (q + 1) * d) : r / d = q ∧ r % d = r - q * d := by
  have hd : 0 < d := Nat.pos_of_ne_zero fun hc => by simp [hc] at h1
  have hq : r / d = q := Nat.div_eq_of_lt_le h0 h1
  refine ⟨hq, ?_⟩
  have := Nat.div_add_mod r d
  rw [hq, Nat.mul_comm] at this
  omega

/-- What is left of a radicand is at most twice the root. -/
theorem sub_sqrt_le (n : ℕ) : n - Nat.sqrt n ^ 2 ≤ 2 * Nat.sqrt n := by
  have h := Nat.lt_succ_sqrt' n
  rw [Nat.succ_eq_add_one, show (Nat.sqrt n + 1) ^ 2 = Nat.sqrt n ^ 2 + (2 * Nat.sqrt n + 1) by ring] at h
  omega

/-- The next bit of a root, and what is left. -/
theorem sqrt_append (h : ℕ) (hb : b < 4) :
    (4 * Nat.sqrt h + 1 ≤ 4 * (h - Nat.sqrt h ^ 2) + b →
      Nat.sqrt (4 * h + b) = 2 * Nat.sqrt h + 1 ∧
        4 * h + b - Nat.sqrt (4 * h + b) ^ 2 = 4 * (h - Nat.sqrt h ^ 2) + b - (4 * Nat.sqrt h + 1)) ∧
    (4 * (h - Nat.sqrt h ^ 2) + b < 4 * Nat.sqrt h + 1 →
      Nat.sqrt (4 * h + b) = 2 * Nat.sqrt h ∧
        4 * h + b - Nat.sqrt (4 * h + b) ^ 2 = 4 * (h - Nat.sqrt h ^ 2) + b) := by
  have hle := Nat.sqrt_le' h
  have hlt := Nat.lt_succ_sqrt' h
  generalize Nat.sqrt h = s at *
  have h1 : (2 * s + 1) ^ 2 = 4 * s ^ 2 + (4 * s + 1) := by ring
  have h2 : (2 * s) ^ 2 = 4 * s ^ 2 := by ring
  have h3 : (2 * s + 1 + 1) ^ 2 = 4 * (s + 1) ^ 2 := by ring
  constructor <;> intro hs
  · have hroot : Nat.sqrt (4 * h + b) = 2 * s + 1 :=
      (Nat.eq_sqrt'.mpr ⟨by omega, by rw [h3]; rw [Nat.succ_eq_add_one] at hlt; omega⟩).symm
    rw [hroot]
    exact ⟨rfl, by omega⟩
  · have hroot : Nat.sqrt (4 * h + b) = 2 * s := (Nat.eq_sqrt'.mpr ⟨by omega, by omega⟩).symm
    rw [hroot]
    exact ⟨rfl, by omega⟩

end DigitRecurrence
