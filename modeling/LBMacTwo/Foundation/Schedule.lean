import Mathlib

/-!
# Stints counted out one after the other

A sequencer stays `lenM1 s + 1` ticks in state `s`, counting them, and goes on to `next s`.

* `tick`: one tick of the state and its count;
* `stint`: the ticks of one state;
* `iterate_stints`: the ticks of a run of states are their stints, one after the other.
-/

namespace Schedule

variable {σ : Type*} (lenM1 : σ → ℕ) (next : σ → σ)

/-- One tick. -/
def tick (p : σ × ℕ) : σ × ℕ := if p.2 = lenM1 p.1 then (next p.1, 0) else (p.1, p.2 + 1)

/-- The ticks spent in a state. -/
def stint (s : σ) : List (σ × ℕ) := (List.range (lenM1 s + 1)).map fun k => (s, k)

/-- The number of ticks of `n` states from `s` on. -/
def ticks (s : σ) (n : ℕ) : ℕ := ((List.iterate next s n).map fun s => lenM1 s + 1).sum

variable {lenM1 next}

theorem tick_iterate {s : σ} {k : ℕ} (h : k ≤ lenM1 s) : (tick lenM1 next)^[k] (s, 0) = (s, k) := by
  induction k with
  | zero => rfl
  | succ k ih =>
    rw [Function.iterate_succ_apply', ih (by omega), tick, if_neg (by simp only; omega)]

theorem tick_stint (s : σ) : (tick lenM1 next)^[lenM1 s + 1] (s, 0) = (next s, 0) := by
  rw [Function.iterate_succ_apply', tick_iterate le_rfl, tick, if_pos rfl]

theorem iterate_stint (s : σ) :
    List.iterate (tick lenM1 next) (s, 0) (lenM1 s + 1) = stint lenM1 s := by
  rw [← List.range_map_iterate, stint]
  apply List.map_congr_left
  intro k hk
  rw [List.mem_range] at hk
  exact tick_iterate (by omega)

theorem ticks_succ (s : σ) (n : ℕ) :
    ticks lenM1 next s (n + 1) = lenM1 s + 1 + ticks lenM1 next (next s) n := by
  simp [ticks, List.iterate]

theorem tick_stints (s : σ) (n : ℕ) :
    (tick lenM1 next)^[ticks lenM1 next s n] (s, 0) = (next^[n] s, 0) := by
  induction n generalizing s with
  | zero => rfl
  | succ n ih =>
    rw [ticks_succ, Nat.add_comm, Function.iterate_add_apply, tick_stint, ih,
      Function.iterate_succ_apply]

/-- The ticks of a run of states. -/
theorem iterate_stints (s : σ) (n : ℕ) :
    List.iterate (tick lenM1 next) (s, 0) (ticks lenM1 next s n) =
      (List.iterate next s n).flatMap (stint lenM1) := by
  induction n generalizing s with
  | zero => rfl
  | succ n ih =>
    rw [ticks_succ, List.iterate_add, iterate_stint, tick_stint, ih, List.iterate,
      List.flatMap_cons]

end Schedule
