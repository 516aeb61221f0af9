import Mathlib

/-!
# Clocked machines

A clocked machine is a step function `S → I → S`: one application is one clock edge, the input is
what the wires carry during the clock before it.

* `run step s u t`: the state after `t` clocks of the input stream `u`;
* `run_inv`, `run_inv_of`: the induction over clocks, for an invariant every step keeps and for one
  kept by the steps that meet a side condition;
* `loop`, `scan`: a machine whose input is chosen from its state, and the check of such a run clock
  by clock.
-/

namespace Clocked

variable {S I : Type*} (step : S → I → S)

/-- The state after `t` clocks of the input stream `u`. -/
def run (s : S) (u : ℕ → I) : ℕ → S
  | 0 => s
  | t + 1 => step (run s u t) (u t)

@[simp] theorem run_zero (s : S) (u : ℕ → I) : run step s u 0 = s := rfl

theorem run_succ (s : S) (u : ℕ → I) (t : ℕ) :
    run step s u (t + 1) = step (run step s u t) (u t) := rfl

theorem run_add (s : S) (u : ℕ → I) (a b : ℕ) :
    run step s u (a + b) = run step (run step s u a) (fun t => u (a + t)) b := by
  induction b with
  | zero => rfl
  | succ b ih => rw [← Nat.add_assoc, run_succ, ih, run_succ]

/-- A run depends only on the inputs it has consumed. -/
theorem run_congr {s : S} {u v : ℕ → I} {t : ℕ} (h : ∀ k < t, u k = v k) :
    run step s u t = run step s v t := by
  induction t with
  | zero => rfl
  | succ t ih =>
    rw [run_succ, run_succ, ih fun k hk => h k (by omega), h t (by omega)]

/-- An invariant kept by every step holds along every run. -/
theorem run_inv {Inv : S → Prop} (hstep : ∀ s i, Inv s → Inv (step s i)) {s : S} (h0 : Inv s)
    (u : ℕ → I) (t : ℕ) : Inv (run step s u t) := by
  induction t with
  | zero => exact h0
  | succ t ih => exact hstep _ _ ih

/-- An invariant kept by the steps that meet `Ok` holds as long as all steps meet it. -/
theorem run_inv_of {Inv : S → Prop} {Ok : S → I → Prop}
    (hstep : ∀ s i, Inv s → Ok s i → Inv (step s i)) {s : S} (h0 : Inv s) (u : ℕ → I) (t : ℕ)
    (hok : ∀ k < t, Ok (run step s u k) (u k)) : Inv (run step s u t) := by
  induction t with
  | zero => exact h0
  | succ t ih => exact hstep _ _ (ih fun k hk => hok k (by omega)) (hok t (by omega))

/-! ### Closed loops -/

section Loop

variable (pol : ℕ → S → I)

/-- The state after `t` clocks in which the input is chosen from the time and the state. -/
def loop (s : S) : ℕ → S
  | 0 => s
  | t + 1 => step (loop s t) (pol t (loop s t))

/-- The inputs of a closed loop. -/
def loopStream (s : S) : ℕ → I := fun t => pol t (loop step pol s t)

theorem run_loopStream (s : S) (t : ℕ) :
    run step s (loopStream step pol s) t = loop step pol s t := by
  induction t with
  | zero => rfl
  | succ t ih => rw [run_succ, ih]; rfl

/-- Every one of `n` clocks from clock `t` on passes `ok`, and the last state passes `fin`. -/
def scan (ok : S → I → Bool) (fin : S → Bool) : ℕ → ℕ → S → Bool
  | 0, _, s => fin s
  | n + 1, t, s => ok s (pol t s) && scan ok fin n (t + 1) (step s (pol t s))

variable {step pol} {ok : S → I → Bool} {fin : S → Bool}

theorem scan_spec {s : S} {n t : ℕ} (h : scan step pol ok fin n t (loop step pol s t) = true) :
    (∀ k < n, ok (loop step pol s (t + k)) (pol (t + k) (loop step pol s (t + k))) = true) ∧
      fin (loop step pol s (t + n)) = true := by
  induction n generalizing t with
  | zero => exact ⟨fun k hk => absurd hk (by omega), h⟩
  | succ n ih =>
    rw [scan, Bool.and_eq_true] at h
    obtain ⟨h0, hn⟩ := h
    obtain ⟨ihk, ihf⟩ := ih (t := t + 1) hn
    refine ⟨fun k hk => ?_, by rw [show t + (n + 1) = t + 1 + n by omega]; exact ihf⟩
    cases k with
    | zero => exact h0
    | succ k => rw [show t + (k + 1) = t + 1 + k by omega]; exact ihk k (by omega)

/-- A scan that succeeds is a run whose clocks pass `ok` and whose last state passes `fin`. -/
theorem run_of_scan {s : S} {n : ℕ} (h : scan step pol ok fin n 0 s = true) :
    (∀ k < n, ok (run step s (loopStream step pol s) k) (loopStream step pol s k) = true) ∧
      fin (run step s (loopStream step pol s) n) = true := by
  obtain ⟨h1, h2⟩ := scan_spec (t := 0) h
  simp only [Nat.zero_add] at h1 h2
  refine ⟨fun k hk => ?_, by rw [run_loopStream]; exact h2⟩
  rw [run_loopStream]
  exact h1 k hk

end Loop

end Clocked
