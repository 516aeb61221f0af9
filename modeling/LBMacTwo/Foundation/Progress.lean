import Mathlib

/-!
# Progress along a sequence

Rules for what a run must reach, on sequences indexed by clock:

* `eventually_of_rank`: a rank that does not grow and drops again and again reaches the goal;
* `stable_of_bounded`: a count that does not shrink and is bounded comes to rest;
* `invariant_from`: an invariant kept from some clock on.
-/

namespace Progress

variable {p : ℕ → Prop} {f : ℕ → ℕ} {T B : ℕ}

theorem invariant_from (h0 : p T) (hstep : ∀ t ≥ T, p t → p (t + 1)) {t : ℕ} (ht : T ≤ t) :
    p t := by
  obtain ⟨d, rfl⟩ := Nat.exists_eq_add_of_le ht
  clear ht
  induction d with
  | zero => exact h0
  | succ d ih => exact hstep (T + d) (by omega) ih

/-- A rank that does not grow before the goal is reached, and drops at some later clock of every
clock, reaches the goal. -/
theorem eventually_of_rank
    (hmono : ∀ t ≥ T, ¬ p t → p (t + 1) ∨ f (t + 1) ≤ f t)
    (hdrop : ∀ t ≥ T, ∃ t' ≥ t, p t' ∨ p (t' + 1) ∨ f (t' + 1) < f t') :
    ∃ t ≥ T, p t := by
  by_contra hnone
  have hno : ∀ t ≥ T, ¬ p t := fun t ht hg => hnone ⟨t, ht, hg⟩
  have hle : ∀ t ≥ T, ∀ t' ≥ t, f t' ≤ f t := fun t ht t' ht' =>
    invariant_from (p := fun k => f k ≤ f t) (Nat.le_refl _)
      (fun k hk h => by
        have := (hmono k (by omega) (hno k (by omega))).resolve_left (hno (k + 1) (by omega))
        omega) ht'
  have hneg : ∀ m, ∀ t ≥ T, f t ≤ m → False := by
    intro m
    induction m with
    | zero =>
      intro t ht h0
      obtain ⟨t', ht', hg | hg | hlt⟩ := hdrop t ht
      · exact hno t' (by omega) hg
      · exact hno (t' + 1) (by omega) hg
      · have := hle t ht t' ht'
        omega
    | succ m ih =>
      intro t ht hm
      obtain ⟨t', ht', hg | hg | hlt⟩ := hdrop t ht
      · exact hno t' (by omega) hg
      · exact hno (t' + 1) (by omega) hg
      · have := hle t ht t' ht'
        exact ih (t' + 1) (by omega) (by omega)
  exact hneg (f T) T (Nat.le_refl T) (Nat.le_refl _)

/-- A bounded count that does not shrink comes to rest. -/
theorem stable_of_bounded (hmono : ∀ t, f t ≤ f (t + 1)) (hB : ∀ t, f t ≤ B) :
    ∃ T, ∀ t ≥ T, f (t + 1) = f t := by
  by_contra hnone
  simp only [not_exists, not_forall] at hnone
  obtain ⟨t, -, ht⟩ := eventually_of_rank (T := 0) (p := fun _ => False)
    (f := fun t => B - f t)
    (fun t _ _ => .inr (by have := hmono t; omega))
    (fun t _ => by
      obtain ⟨t', ht', hne⟩ := hnone t
      have := hmono t'; have := hB (t' + 1)
      exact ⟨t', ht', .inr (.inr (by omega))⟩)
  exact ht

end Progress
