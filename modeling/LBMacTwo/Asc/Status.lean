import LBMacTwo.Asc.Occupancy

/-!
# The FIFO status register

* `Taken`: the last clock of a read of the status, in which the CPU takes the data;
* `StatusKept`: no bit is cleared unless the CPU takes it in that clock, and every bit a tick sets
  is taken exactly once or is still pending;
* `statusKept_iff`: this holds exactly as long as the register is clear in every clock of a read but
  the last.
-/

namespace Asc
open Clocked

/-- Every read of the status lasts two clocks or more. -/
def ReadsLast (u : ℕ → In) : Prop :=
  ∀ j, irqRead (u j) = true →
    irqRead (u (j + 1)) = true ∨ ∃ i, j = i + 1 ∧ irqRead (u i) = true

/-- Clock `j` is the last one of a read of the status. -/
def Taken (u : ℕ → In) (j : ℕ) : Prop := irqRead (u j) = true ∧ irqRead (u (j + 1)) = false

/-- The read that ends in clock `j` is the first to see bit `b` as set in clock `k`, and returns
it. -/
def Returns (s : State) (u : ℕ → In) (b k j : ℕ) : Prop :=
  k < j ∧ Taken u j ∧ (dataOut (run step s u j)).getLsbD b = true ∧
    ∀ m, k < m → m < j → irqRead (u m) = false

/-- Bit `b` as set in clock `k` is pending at clock `n`. -/
def Pending (s : State) (u : ℕ → In) (b k n : ℕ) : Prop :=
  (run step s u n).ascFifoIrq.getLsbD b = true ∧ ∀ m, k < m → m < n → irqRead (u m) = false

/-- In the first `n` clocks no status bit is lost. -/
structure StatusKept (s : State) (u : ℕ → In) (n : ℕ) : Prop where
  cleared : ∀ m < n, ∀ b, (run step s u m).ascFifoIrq.getLsbD b = true → irqRead (u m) = true →
    Taken u m ∧ (dataOut (run step s u m)).getLsbD b = true
  delivered : ∀ k < n, ∀ b, (statusSet (run step s u k)).getLsbD b = true →
    Pending s u b k n ∨ ∃! j, j < n ∧ Returns s u b k j

variable {s : State} {i : In} {u : ℕ → In} {b k m n : ℕ}

theorem getLsbD_zero_byte (b : ℕ) : (0 : Byte).getLsbD b = false := BitVec.getLsbD_zero

theorem ascFifoIrq_step (s : State) (i : In) :
    (step s i).ascFifoIrq = (if irqRead i then 0 else s.ascFifoIrq) ||| statusSet s := rfl

/-- A read of the status shows the register one clock later. -/
theorem dataOut_of_irqRead (h : irqRead i = true) :
    dataOut (step s i) = (step s i).ascFifoIrq := by
  unfold irqRead at h
  simp only [Bool.and_eq_true, beq_iff_eq] at h
  obtain ⟨⟨hread, hblock⟩, hreg⟩ := h
  have hread' : (step s i).cpuReadD = true := hread
  have haddr : (step s i).addrD = i.addr := rfl
  have hA : ¬ i.addr / 1024 = 0 := by omega
  have hB : ¬ i.addr / 1024 = 1 := by omega
  simp [dataOut, hread', haddr, hA, hB, hblock, hreg]

/-- A bit that is pending, or set in this clock, is pending after a clock without a read. -/
theorem pending_step (hread : irqRead i = false) (h : s.ascFifoIrq.getLsbD b = true) :
    (step s i).ascFifoIrq.getLsbD b = true := by
  rw [ascFifoIrq_step, hread, if_neg Bool.false_ne_true, BitVec.getLsbD_or, h, Bool.true_or]

theorem pending_of_set (h : (statusSet s).getLsbD b = true) :
    (step s i).ascFifoIrq.getLsbD b = true := by
  rw [ascFifoIrq_step, BitVec.getLsbD_or, h, Bool.or_true]

/-- A bit set in clock `k` stays until the first read. -/
theorem pending_of_not_read (hset : (statusSet (run step s u k)).getLsbD b = true) (hk : k < n)
    (hread : ∀ m, k < m → m < n → irqRead (u m) = false) : Pending s u b k n := by
  refine ⟨?_, hread⟩
  induction n with
  | zero => exact absurd hk (Nat.not_lt_zero k)
  | succ n ih =>
    rw [run_succ]
    rcases Nat.lt_succ_iff_lt_or_eq.mp hk with hlt | rfl
    · have hprev := ih hlt fun m hkm hmn => hread m hkm (by omega)
      exact pending_step (hread n hlt n.lt_succ_self) hprev
    · exact pending_of_set hset

/-- No status bit is lost exactly if the register is clear in every clock of a read that is not its
last. -/
theorem statusKept_iff (hu : ReadsLast u) :
    StatusKept s u n ↔ ∀ m < n, irqRead (u m) = true → irqRead (u (m + 1)) = true →
      (run step s u m).ascFifoIrq = 0 := by
  constructor
  · intro h m hm hread hnext
    apply BitVec.eq_of_getLsbD_eq
    intro b _
    have hb : ¬ (run step s u m).ascFifoIrq.getLsbD b = true := by
      intro hb
      obtain ⟨htaken, -⟩ := h.cleared m hm b hb hread
      rw [htaken.2] at hnext
      cases hnext
    rw [getLsbD_zero_byte]
    simpa using hb
  · intro h
    have hcleared : ∀ m < n, ∀ b, (run step s u m).ascFifoIrq.getLsbD b = true →
        irqRead (u m) = true → Taken u m ∧ (dataOut (run step s u m)).getLsbD b = true := by
      intro m hm b hb hread
      have hlast : irqRead (u (m + 1)) = false := by
        by_contra hnext
        rw [h m hm hread (by simpa using hnext), getLsbD_zero_byte] at hb
        cases hb
      rcases hu m hread with hnext | ⟨m, rfl, hprev⟩
      · rw [hlast] at hnext
        cases hnext
      · rw [run_succ] at hb ⊢
        rw [dataOut_of_irqRead hprev]
        exact ⟨⟨hread, hlast⟩, hb⟩
    refine ⟨hcleared, fun k hk b hset => ?_⟩
    by_cases hread : ∃ m, k < m ∧ m < n ∧ irqRead (u m) = true
    · -- the first read after the tick takes the bit
      right
      classical
      obtain ⟨hkm, hmn, hm⟩ := Nat.find_spec hread
      have hfirst : ∀ j, k < j → j < Nat.find hread → irqRead (u j) = false := by
        intro j hkj hj
        have := Nat.find_min hread hj
        simp only [not_and, Bool.not_eq_true] at this
        exact this hkj (by omega)
      have hpend := (pending_of_not_read hset hkm hfirst).1
      obtain ⟨htaken, hdata⟩ := hcleared _ hmn b hpend hm
      refine ⟨Nat.find hread, ⟨hmn, hkm, htaken, hdata, hfirst⟩, ?_⟩
      rintro j ⟨-, hkj, hj, -, hbefore⟩
      rcases Nat.lt_trichotomy j (Nat.find hread) with hlt | heq | hgt
      · exact absurd hj.1 (by rw [hfirst j hkj hlt]; exact Bool.false_ne_true)
      · exact heq
      · rw [hbefore _ hkm hgt] at hm
        cases hm
    · left
      apply pending_of_not_read hset hk
      intro m hkm hmn
      by_contra hm
      exact hread ⟨m, hkm, hmn, by simpa using hm⟩

/-- A read of the status on the upper lane. -/
def readStatus : In := ⟨0x804, 0, true, true, true, false⟩

/-- One byte is pushed; the status is read in clocks 6 and 7. -/
def pushAndRead : ℕ → In
  | 1 => writeUpper 0 0xAB
  | 6 => readStatus
  | 7 => readStatus
  | _ => idleAt 0

theorem readsLast_pushAndRead : ReadsLast pushAndRead := by
  intro j hj
  match j with
  | 6 => exact .inl rfl
  | 7 => exact .inr ⟨6, rfl, rfl⟩
  | 0 | 1 | 2 | 3 | 4 | 5 => exact absurd hj (by decide)
  | _ + 8 => cases hj

/-- The tick comes right after the read, and leaves "A empty" pending. -/
theorem statusKept_iff_tick : ReadsLast pushAndRead ∧ StatusKept (enterFifo 1398) pushAndRead 12 ∧
    (run step (enterFifo 1398) pushAndRead 12).ascFifoIrq.getLsbD 1 = true := by
  rw [enterFifo, run_idle (by omega)]
  refine ⟨readsLast_pushAndRead, (statusKept_iff readsLast_pushAndRead).mpr ?_, ?_⟩
  · decide +kernel
  · decide +kernel

/-- The tick in clock 4 after FIFO mode is entered sets "A empty"; the read that follows clears it
in its first clock and returns 0. -/
theorem read_returns_zero : ¬ StatusKept .init (enterThen 1402 pushAndRead) 1412 ∧
    (dataOut (run step .init (enterThen 1402 pushAndRead) 1410)) = 0 := by
  have hrun : ∀ t, run step .init (enterThen 1402 pushAndRead) (1403 + t) =
      run step (step (waiting 1402) (writeLower 0x801 1)) pushAndRead t := by
    intro t
    rw [show 1403 = 1402 + 1 from rfl, run_enterThen, enterFifo, run_idle (by omega)]
  constructor
  · intro h
    have htaken := h.cleared 1409 (by decide) 1
    rw [show 1409 = 1403 + 6 from rfl, hrun] at htaken
    have hnext : irqRead (enterThen 1402 pushAndRead (1403 + 6 + 1)) = true := by decide
    have hlast := (htaken (by decide +kernel) (by decide)).1.2
    rw [hnext] at hlast
    cases hlast
  · rw [show 1410 = 1403 + 7 from rfl, hrun]
    decide +kernel

end Asc
