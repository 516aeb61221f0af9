import LBMacTwo.Asc.Fifo

/-!
# Occupancy of the sample FIFOs

* `Chan.Occupied`: the count and the pointers of a channel agree;
* `Counted`: a clock changes the count by the pushes it accepts and the samples it drains, or clears
  it;
* `Clashes`: the clocks that break one of them, told from the state before and the bus;
* `occupied_iff`: a run from the reset keeps both exactly as long as no clock clashes.
-/

namespace Asc
open Clocked

/-- The count is in range, and the write pointer stands `count` cells behind the read pointer. -/
structure Chan.Occupied (c : Chan) : Prop where
  count_le : c.count ≤ 1024
  wrPtr : c.wrPtr = (c.rdPtr + c.count) % 1024

/-- The CPU's push is accepted: the FIFO has room for it. -/
def accepts (side : Side) (s : State) (i : In) : Bool :=
  fifoWrite side.bank s i && decide ((s.chan side).count < 1024)

/-- A sample is drained in this clock. -/
def drainsAt (side : Side) (s : State) : Bool := (s.chan side).drains (s.enabled side) s

/-- The count law of one clock. -/
def Counted (side : Side) (s : State) (i : In) : Prop :=
  if clears s i then ((step s i).chan side).count = 0
  else ((step s i).chan side).count + (drainsAt side s).toNat =
    (s.chan side).count + (accepts side s i).toNat

/-- A push meets a drain or a full FIFO, or a clear meets a drain that does not empty the FIFO at
cell 0. -/
def Clashes (side : Side) (s : State) (i : In) : Prop :=
  (fifoWrite side.bank s i = true ∧ (drainsAt side s = true ∨ (s.chan side).count = 1024)) ∨
    (clears s i = true ∧ drainsAt side s = true ∧
      ¬ ((s.chan side).count = 1 ∧ (s.chan side).wrPtr = 0))

variable {side : Side} {s : State} {i : In} {u : ℕ → In}

/-- A push and a clear go to different addresses. -/
theorem not_clears_of_fifoWrite (hw : fifoWrite side.bank s i = true) : clears s i = false := by
  have hbank : ascWriteAddr s i / 1024 = side.bank := by
    simp only [fifoWrite, bankWrite, Bool.and_eq_true, beq_iff_eq] at hw
    exact hw.1.2
  have hlow : ascWriteAddr s i / 2048 ≠ 1 := by
    intro h
    have hside : side.bank ≤ 1 := by cases side <;> decide
    omega
  have hreg : regWrite s i = false := by
    rw [regWrite, beq_eq_false_iff_ne.mpr hlow, Bool.and_false]
  simp [clears, modeChange, fifoClear, regWriteAt, hreg]

/-- The pointers and the count after a clock. -/
theorem chan_next (side : Side) (s : State) (i : In) :
    ((step s i).chan side).wrPtr = wrPtrNext side.bank (s.chan side) s i ∧
      ((step s i).chan side).rdPtr = rdPtrNext (s.enabled side) (s.chan side) s i ∧
      ((step s i).chan side).count = countNext side.bank (s.enabled side) (s.chan side) s i := by
  obtain ⟨addrB, hstep⟩ := chan_step side s i
  rw [hstep]
  exact ⟨rfl, rfl, rfl⟩

theorem count_pos_of_drains (hd : drainsAt side s = true) : 0 < (s.chan side).count := by
  unfold drainsAt Chan.drains at hd
  exact of_decide_eq_true ((Bool.and_eq_true _ _).mp hd).2

/-- A clock keeps the pointers and the count together exactly if it does not clash. -/
theorem occupied_step (h : (s.chan side).Occupied) :
    (((step s i).chan side).Occupied ∧ Counted side s i) ↔ ¬ Clashes side s i := by
  obtain ⟨hwr, hrd, hcount⟩ := chan_next side s i
  have hle := h.count_le
  have hptr := h.wrPtr
  have hpos := @count_pos_of_drains side s
  unfold drainsAt at hpos
  unfold Counted Clashes accepts drainsAt
  unfold wrPtrNext at hwr
  unfold rdPtrNext at hrd
  unfold countNext at hcount
  cases hw : fifoWrite side.bank s i
  case true =>
    have hclear := not_clears_of_fifoWrite hw
    have hclear' : (modeChange s i || fifoClear s i) = false := hclear
    rw [hw, if_pos rfl] at hwr
    cases hd : (s.chan side).drains (s.enabled side) s
    case true =>
      -- the drain is assigned last: the push is not counted
      rw [if_pos hd] at hrd hcount
      refine iff_of_false ?_ (fun hn => hn (.inl ⟨rfl, .inl rfl⟩))
      rintro ⟨hocc, -⟩
      have hwr' := hocc.wrPtr
      have := hpos hd
      rw [hwr, hrd, hcount, hptr] at hwr'
      omega
    case false =>
      simp only [hd, hw, hclear', Bool.false_eq_true, if_true, if_false] at hrd hcount
      by_cases hfull : (s.chan side).count = 1024
      · -- a full FIFO takes the byte but does not count it
        rw [if_neg (by omega)] at hcount
        refine iff_of_false ?_ (fun hn => hn (.inl ⟨rfl, .inr hfull⟩))
        rintro ⟨hocc, -⟩
        have hwr' := hocc.wrPtr
        rw [hwr, hrd, hcount, hptr] at hwr'
        omega
      · have hroom : (s.chan side).count < 1024 := by omega
        rw [if_pos hroom] at hcount
        refine iff_of_true ⟨⟨by omega, ?_⟩, ?_⟩ ?_
        · rw [hwr, hrd, hcount, hptr]
          omega
        · rw [hclear, if_neg Bool.false_ne_true, hcount]
          simp [hroom]
        · rintro (⟨-, hd' | hfull'⟩ | ⟨hc, -⟩)
          · cases hd'
          · exact hfull hfull'
          · rw [hclear] at hc
            cases hc
  case false =>
    simp only [hw, Bool.false_eq_true, if_false] at hwr hcount
    cases hclear : clears s i
    case true =>
      have hclear' : (modeChange s i || fifoClear s i) = true := hclear
      rw [if_pos hclear'] at hwr hcount hrd
      cases hd : (s.chan side).drains (s.enabled side) s
      case true =>
        rw [if_pos hd] at hcount hrd
        have hpos' := hpos hd
        by_cases hlast : (s.chan side).count = 1 ∧ (s.chan side).wrPtr = 0
        · obtain ⟨hone, hzero⟩ := hlast
          refine iff_of_true ⟨⟨by omega, ?_⟩, ?_⟩ ?_
          · rw [hwr, hrd, hcount]
            omega
          · rw [if_pos rfl]
            omega
          · rintro (⟨hw', -⟩ | ⟨-, -, hne⟩)
            · cases hw'
            · exact hne ⟨hone, hzero⟩
        · refine iff_of_false ?_ (fun hn => hn (.inr ⟨rfl, rfl, hlast⟩))
          rintro ⟨hocc, hlaw⟩
          rw [if_pos rfl] at hlaw
          have hwr' := hocc.wrPtr
          rw [hwr, hrd, hcount] at hwr'
          have hone : (s.chan side).count = 1 := by omega
          exact hlast ⟨hone, by omega⟩
      case false =>
        simp only [hd, Bool.false_eq_true, if_false] at hcount hrd
        refine iff_of_true ⟨⟨by omega, ?_⟩, ?_⟩ ?_
        · rw [hwr, hrd, hcount]
        · rw [if_pos rfl]
          exact hcount
        · rintro (⟨hw', -⟩ | ⟨-, hd', -⟩)
          · cases hw'
          · cases hd'
    case false =>
      have hclear' : (modeChange s i || fifoClear s i) = false := hclear
      simp only [hclear', Bool.false_eq_true, if_false] at hwr hcount hrd
      refine iff_of_true ⟨⟨?_, ?_⟩, ?_⟩ ?_
      · rw [hcount]
        split_ifs <;> omega
      · rw [hwr, hrd, hcount, hptr]
        split_ifs with hd
        · have := hpos hd
          omega
        · rfl
      · rw [if_neg Bool.false_ne_true, hcount]
        cases hd : (s.chan side).drains (s.enabled side) s
        case true =>
          have := hpos hd
          simp only [if_true, Bool.false_and, Bool.toNat_true, Bool.toNat_false]
          omega
        case false => simp
      · rintro (⟨hw', -⟩ | ⟨hc, -⟩)
        · cases hw'
        · cases hc

/-- The invariant holds in every state up to clock `n`, and the count law in every clock before. -/
def Accounted (s : State) (u : ℕ → In) (n : ℕ) : Prop :=
  ∀ side, (∀ t ≤ n, ((run step s u t).chan side).Occupied) ∧
    ∀ t < n, Counted side (run step s u t) (u t)

theorem occupied_init (side : Side) : (State.init.chan side).Occupied := by
  cases side <;> exact ⟨Nat.zero_le _, rfl⟩

/-- After the reset the counts and the pointers agree, and the counts change by what is accepted and
drained, exactly as long as no clock clashes. -/
theorem occupied_iff (u : ℕ → In) (n : ℕ) :
    Accounted State.init u n ↔
      ∀ side, ∀ t < n, ¬ Clashes side (run step State.init u t) (u t) := by
  constructor
  · intro h side t ht
    exact (occupied_step ((h side).1 t (by omega))).mp
      ⟨(h side).1 (t + 1) ht, (h side).2 t ht⟩
  · intro h side
    have hocc : ∀ t ≤ n, ((run step State.init u t).chan side).Occupied := by
      intro t
      induction t with
      | zero => exact fun _ => occupied_init side
      | succ t ih =>
        intro ht
        exact ((occupied_step (ih (by omega))).mpr (h side t (by omega))).1
    exact ⟨hocc, fun t ht => ((occupied_step (hocc t (by omega))).mpr (h side t ht)).2⟩

/-- From reset, FIFO mode is entered after `n` clocks; then the bus carries `v`. -/
def enterThen (n : ℕ) (v : ℕ → In) (t : ℕ) : In :=
  if t < n then idleAt 0 else if t = n then writeLower 0x801 1 else v (t - (n + 1))

theorem run_enterThen (n : ℕ) (v : ℕ → In) (m : ℕ) :
    run step .init (enterThen n v) (n + 1 + m) = run step (enterFifo n) v m := by
  have hidle : run step .init (enterThen n v) n = run step .init (fun _ => idleAt 0) n :=
    run_congr step fun k hk => if_pos hk
  have henter : run step .init (enterThen n v) (n + 1) = enterFifo n := by
    rw [run_succ, hidle, enterFifo, enterThen, if_neg (Nat.lt_irrefl n), if_pos rfl]
  rw [run_add, henter]
  apply run_congr
  intro k _
  rw [enterThen, if_neg (by omega), if_neg (by omega), Nat.add_sub_cancel_left]

/-- Two bytes are pushed, the second in clock 4. -/
def pushTwo : ℕ → In
  | 1 => writeUpper 0 0xAB
  | 4 => writeUpper 0 0xCD
  | _ => idleAt 0

/-- A byte pushed in the clock of a tick moves the write pointer, but is not counted. -/
theorem push_on_tick : ¬ Accounted .init (enterThen 1402 pushTwo) 1408 := by
  intro h
  have hocc := ((h .left).1 1408 le_rfl).wrPtr
  rw [show 1408 = 1402 + 1 + 5 from rfl, run_enterThen, enterFifo, run_idle (by omega)] at hocc
  revert hocc
  decide +kernel

end Asc
