import Mathlib

/-!
# Latches and ticked machines

Sequences of registers that are described by what happened to them.

* `latch_iff`: a latch is set exactly if it was set and has not been cleared since;
* `ticked_run`: a register that moves only in some clocks is iterated once for each of them.
-/

namespace Latch

variable {x a k : ℕ → Bool}

/-- A latch that is set by `a` and cleared by `k`, with priority: it is on if it was set, in a clock that did not clear it,
and no later clock did, or if it was on all along. -/
theorem latch_iff (h : ∀ t, x (t + 1) = (!k t && (x t || a t))) (t : ℕ) :
    x t = true ↔ (∃ s < t, a s = true ∧ ∀ r, s ≤ r → r < t → k r = false) ∨
      (x 0 = true ∧ ∀ r < t, k r = false) := by
  induction t with
  | zero => simp
  | succ t ih =>
    rw [h, Bool.and_eq_true, Bool.or_eq_true, Bool.not_eq_true', ih]
    constructor
    · rintro ⟨hc, ⟨⟨s, hs, hset, hclr⟩ | ⟨h0, hclr⟩⟩ | hset⟩
      · refine .inl ⟨s, by omega, hset, fun r h1 h2 => ?_⟩
        rcases Nat.lt_succ_iff_lt_or_eq.mp h2 with h3 | rfl
        · exact hclr r h1 h3
        · exact hc
      · refine .inr ⟨h0, fun r h2 => ?_⟩
        rcases Nat.lt_succ_iff_lt_or_eq.mp h2 with h3 | rfl
        · exact hclr r h3
        · exact hc
      · refine .inl ⟨t, by omega, hset, fun r h1 h2 => ?_⟩
        rwa [show r = t by omega]
    · rintro (⟨s, hs, hset, hclr⟩ | ⟨h0, hclr⟩)
      · refine ⟨hclr t (by omega) (by omega), ?_⟩
        rcases Nat.lt_succ_iff_lt_or_eq.mp hs with h3 | rfl
        · exact .inl (.inl ⟨s, h3, hset, fun r h1 h2 => hclr r h1 (by omega)⟩)
        · exact .inr hset
      · exact ⟨hclr t (by omega), .inl (.inr ⟨h0, fun r h2 => hclr r (by omega)⟩)⟩

variable {α : Type*} {y : ℕ → α} {f : α → α} {p : ℕ → Prop} [DecidablePred p]

/-- A register that moves by `f` in the clocks that meet `p` and holds in the others. -/
theorem ticked_run {n : ℕ} (h : ∀ t < n, y (t + 1) = if p t then f (y t) else y t) :
    y n = f^[Nat.count p n] (y 0) := by
  induction n with
  | zero => simp
  | succ n ih =>
    rw [h n (by omega), ih fun t ht => h t (by omega), Nat.count_succ]
    split_ifs with hp
    · rw [Function.iterate_succ_apply']
    · rfl

end Latch
