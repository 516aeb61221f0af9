import LBMacTwo.Scc.Chip
import LBMacTwo.Foundation.Clocked

/-!
# Read cycles of the serial controller

* `Access`, `Cycle`: what the CPU holds on the bus, and the clocks of an access, the first with `cen`
  among them;
* `Cycle.active`: the access is visible up to that clock;
* `Settled`: a channel that waits for a WR0 write has its pointer at 0;
* `ReadOk`: a read returns what it consumes, and leaves the pointers as it should;
* `readOk_iff`: it does if the first `cen` is the last clock of the cycle, and else by coincidence;
* `vector_as_rr0`: a read of RR2 that holds on for another clock.
-/

namespace Scc
open Clocked

variable {s : State} {i : In} {u : ℕ → In} {f n k : ℕ}

/-! ### Bus cycles -/

structure Access where
  we : Bool
  data : Bool
  side : Side
  wdata : Byte

variable {x : Access}

structure Access.Holds (x : Access) (i : In) : Prop where
  cs : i.cs = true
  we : i.we = x.we
  data : i.data = x.data
  side : i.side = x.side
  wdata : i.wdata = x.wdata

/-- From `s` on the access is held for the clocks 0 to `n`, and `cen` is up first in clock `f`. -/
structure Cycle (s : State) (u : ℕ → In) (x : Access) (f n : ℕ) : Prop where
  fresh : s.csConsumed = false
  holds : ∀ k ≤ n, x.Holds (u k)
  noCen : ∀ k < f, (u k).cen = false
  cen : (u f).cen = true
  le : f ≤ n

/-- What no clock changes stays. -/
theorem stays {α : Type*} {P : ℕ → α} {a b : ℕ} (h : ∀ k, a ≤ k → k < b → P (k + 1) = P k)
    (ha : a ≤ k) (hb : k ≤ b) : P k = P a := by
  induction k, ha using Nat.le_induction with
  | base => rfl
  | succ k ha ih => rw [h k ha (by omega), ih (by omega)]

namespace Cycle

variable (hc : Cycle s u x f n)
include hc

theorem consumed (hk : k ≤ n + 1) : (run step s u k).csConsumed = decide (f < k) := by
  induction k with
  | zero => exact hc.fresh
  | succ k ih =>
    change ((u k).cs && ((u k).cen || (run step s u k).csConsumed)) = _
    rw [ih (by omega), (hc.holds k (by omega)).cs, Bool.true_and]
    rcases Nat.lt_trichotomy k f with hlt | rfl | hgt
    · have hle : ¬ f < k + 1 := by omega
      simp [hc.noCen k hlt, hle, hlt.le]
    · simp [hc.cen]
    · have hlt : f < k + 1 := by omega
      simp [hgt, hlt]

/-- The access is visible up to the first `cen`. -/
theorem active (hk : k ≤ n) : csActive (run step s u k) (u k) = decide (k ≤ f) := by
  rw [csActive, (hc.holds k hk).cs, hc.consumed (by omega), Bool.true_and, ← decide_not]
  exact decide_eq_decide.mpr not_lt

/-- It is carried out in that clock. -/
theorem access_eq (c : Side) (hk : k ≤ n) :
    access c (run step s u k) (u k) = (decide (k = f) && decide (x.side = c)) := by
  rw [access, hc.active hk, (hc.holds k hk).side]
  rcases Nat.lt_trichotomy k f with hlt | rfl | hgt
  · simp [hc.noCen k hlt, hlt.ne]
  · simp [hc.cen]
  · simp [hgt.ne', not_le.mpr hgt]

end Cycle

/-! ### Pointers -/

theorem wreg_of_read (c : Side) (h : i.we = false) : wreg c s i = false := by
  rw [wreg, h, Bool.and_false]
  rfl

/-- A read writes no register. -/
theorem reset_of_read (h : i.we = false) : reset s i = false := by
  rw [reset, wselAny, wsel, wsel, wreg_of_read .a h, wreg_of_read .b h]
  rfl

theorem wreg_of_data (c : Side) (h : i.data = true) : wreg c s i = false := by
  rw [wreg, h, Bool.not_true, Bool.and_false]
  rfl

/-- Nor does an access to the data port. -/
theorem resetChan_of_data (c : Side) (h : i.data = true) : resetChan c s i = false := by
  rw [resetChan, wselAny, wsel, wsel, wreg_of_data .a h, wreg_of_data .b h]
  rfl

theorem reset_of_data (h : i.data = true) : reset s i = false := by
  rw [reset, wselAny, wsel, wsel, wreg_of_data .a h, wreg_of_data .b h]
  rfl

theorem step_rindex (c : Side) : ((step s i).chan c).rindex = rindexNext c s i := by
  rw [step_chan]
  rfl

theorem step_sccState (c : Side) : ((step s i).chan c).sccState = sccStateNext c s i := by
  rw [step_chan]
  rfl

/-- The pointer is 0 where the next write is to WR0. -/
def Settled (s : State) : Prop := ∀ c, (s.chan c).sccState = false → (s.chan c).rindex = 0

theorem Settled.step (h : Settled s) (i : In) : Settled (step s i) := by
  intro c
  rw [step_rindex, step_sccState, rindexNext, sccStateNext]
  cases hr : reset s i
  case true => exact fun _ => rfl
  case false =>
    cases hp : pointing c s i
    case true => simp
    case false =>
      cases ha : access c s i && !i.data
      case true =>
        cases hst : (s.chan c).sccState
        case true => simp
        case false => simpa using h c hst
      case false => simpa using h c

theorem settled_init : Settled .init := by
  intro c _
  cases c <;> rfl

theorem settled_run (v : ℕ → In) (t : ℕ) : Settled (run step .init v t) :=
  @run_inv _ _ step Settled (fun _ i h => h.step i) .init settled_init v t

/-- A clock that carries nothing out leaves the pointer. -/
theorem rindex_of_idle (c : Side) (hr : reset s i = false) (ha : access c s i = false) :
    ((step s i).chan c).rindex = (s.chan c).rindex ∧
      ((step s i).chan c).sccState = (s.chan c).sccState := by
  rw [step_rindex, step_sccState, rindexNext, sccStateNext, hr, pointing, ha]
  exact ⟨rfl, rfl⟩

/-- So does an access to the data port. -/
theorem rindex_of_data (c : Side) (hr : reset s i = false) (hd : i.data = true) :
    ((step s i).chan c).rindex = (s.chan c).rindex := by
  rw [step_rindex, rindexNext, hr, pointing, hd]
  simp

/-- A control read takes the pointer back to 0. -/
theorem rindex_of_read (h : Settled s) (hw : i.we = false) (hd : i.data = false)
    (ha : access i.side s i = true) : ((step s i).chan i.side).rindex = 0 := by
  rw [step_rindex, rindexNext, reset_of_read hw, pointing, ha, hw, hd]
  cases hst : (s.chan i.side).sccState
  case true => rfl
  case false => simpa using h i.side hst

namespace Cycle

variable (hc : Cycle s u x f n)
include hc

section Reads

variable (hw : x.we = false)
include hw

theorem no_reset (hk : k ≤ n) : reset (run step s u k) (u k) = false :=
  reset_of_read ((hc.holds k hk).we.trans hw)

theorem rindex_before (c : Side) (hk : k ≤ f) :
    ((run step s u k).chan c).rindex = (s.chan c).rindex := by
  have hle := hc.le
  refine stays (P := fun k => ((run step s u k).chan c).rindex) (a := 0) (b := f)
    (fun j _ hj => ?_) (Nat.zero_le k) hk
  have hidle : access c (run step s u j) (u j) = false := by
    rw [hc.access_eq c (by omega), decide_eq_false (by omega), Bool.false_and]
  exact (rindex_of_idle c (hc.no_reset hw (by omega)) hidle).1

/-- The pointer of the channel of a control read is back at 0, every other pointer is kept. -/
theorem rindex_after (h : Settled s) (c : Side) (hk : f < k) (hk' : k ≤ n + 1) :
    ((run step s u k).chan c).rindex =
      if x.data = false ∧ c = x.side then 0 else (s.chan c).rindex := by
  have hle := hc.le
  have hrest := stays (P := fun k => ((run step s u k).chan c).rindex) (a := f + 1) (b := n + 1)
    (fun j ha hj => by
      have hidle : access c (run step s u j) (u j) = false := by
        rw [hc.access_eq c (by omega), decide_eq_false (by omega), Bool.false_and]
      exact (rindex_of_idle c (hc.no_reset hw (by omega)) hidle).1) hk hk'
  have hreset := hc.no_reset hw hle
  have hbefore := hc.rindex_before hw c le_rfl
  have hholds := hc.holds f hle
  refine hrest.trans ?_
  change ((step (run step s u f) (u f)).chan c).rindex = _
  rw [← hbefore]
  cases hd : x.data
  case true =>
    rw [if_neg (by simp)]
    exact rindex_of_data c hreset (hholds.data.trans hd)
  case false =>
    by_cases hside : c = x.side
    · rw [if_pos ⟨rfl, hside⟩, hside, ← hholds.side]
      have hsettled : Settled (run step s u f) :=
        @run_inv _ _ step Settled (fun _ i h => h.step i) s h u f
      refine rindex_of_read hsettled (hholds.we.trans hw) (hholds.data.trans hd) ?_
      rw [hc.access_eq _ hle, decide_eq_true rfl, decide_eq_true hholds.side.symm]
      rfl
    · have hidle : access c (run step s u f) (u f) = false := by
        rw [hc.access_eq c hle, decide_eq_false (Ne.symm hside), Bool.and_false]
      rw [if_neg (by simp [hside])]
      exact (rindex_of_idle c hreset hidle).1

/-- What a control read puts on the bus. -/
theorem rdata_control (h : Settled s) (hd : x.data = false) (hk : k ≤ n) :
    rdata (run step s u k) (u k) =
      readReg x.side (if k ≤ f then (s.chan x.side).rindex else 0) (run step s u k) (u k) := by
  have hholds := hc.holds k hk
  have hlatch : rindexLatch (run step s u k) (u k) = ((run step s u k).chan x.side).rindex := by
    rw [rindexLatch, hholds.cs, hholds.data, hd, hholds.side]
    rfl
  rw [rdata, hholds.data, hd, if_neg Bool.false_ne_true, hholds.side, hlatch]
  by_cases hf : k ≤ f
  · rw [if_pos hf, hc.rindex_before hw _ hf]
  · rw [if_neg hf, hc.rindex_after hw h _ (not_le.mp hf) (by omega), if_pos ⟨hd, rfl⟩]

/-- A data read takes a byte out in clock `f` and in no other, if there is one by then. -/
theorem dequeue_eq (hd : x.data = true) (hpos : ((run step s u f).chan x.side).rxQueuePos ≠ 0)
    (hk : k ≤ n) : dequeue x.side (run step s u k) (u k) = decide (k = f) := by
  have hholds := hc.holds k hk
  rw [dequeue, hc.access_eq _ hk, hholds.data, hholds.we, hd, hw]
  by_cases hkf : k = f
  · subst hkf
    simp [hpos]
  · simp [hkf]

end Reads

end Cycle

/-! ### Reads -/

/-- A control read returns the register that the pointer selects, as it is at some clock of the
cycle, and takes the pointer back to 0; a data read that finds a byte at its first `cen`, which may have
arrived in an earlier clock of the cycle, takes out one byte and returns it, and leaves the pointer. The
pointer of the other channel stays. -/
structure ReadOk (s : State) (u : ℕ → In) (x : Access) (f n : ℕ) : Prop where
  control : x.data = false → ∃ k ≤ n, rdata (run step s u n) (u n) =
    readReg x.side (s.chan x.side).rindex (run step s u k) (u k)
  byte : x.data = true → ((run step s u f).chan x.side).rxQueuePos ≠ 0 → ∃ k ≤ n,
    (∀ j ≤ n, dequeue x.side (run step s u j) (u j) = true ↔ j = k) ∧
      rdata (run step s u n) (u n) = ((run step s u k).chan x.side).rxQueue 0
  pointer : ((run step s u (n + 1)).chan x.side).rindex =
    if x.data then (s.chan x.side).rindex else 0
  other : ∀ c ≠ x.side, ((run step s u (n + 1)).chan c).rindex = (s.chan c).rindex

/-- From every state the chip can be in: a read returns what it consumes exactly if its first `cen`
is in the last clock of the cycle, or it is a control read of RR0, or of a register that RR0 happens
to agree with, or a data read of a queue that is empty at the first `cen`, or of a byte that the next one is
equal to. -/
theorem readOk_iff {v : ℕ → In} {b : ℕ} (hs : run step .init v b = s) (hc : Cycle s u x f n)
    (hw : x.we = false) :
    ReadOk s u x f n ↔ f = n ∨
      x.data = false ∧ ((s.chan x.side).rindex = 0 ∨ (s.chan x.side).rindex = 4 ∨
        ∃ k ≤ n, rr0 x.side (run step s u n) (u n) =
          readReg x.side (s.chan x.side).rindex (run step s u k) (u k)) ∨
      x.data = true ∧ (((run step s u f).chan x.side).rxQueuePos = 0 ∨
        ((run step s u n).chan x.side).rxQueue 0 = ((run step s u f).chan x.side).rxQueue 0) := by
  have hsettled : Settled s := hs ▸ settled_run v b
  have hle := hc.le
  have hafter := fun c => hc.rindex_after hw hsettled c (Nat.lt_succ_of_le hle) le_rfl
  have hpointer : ((run step s u (n + 1)).chan x.side).rindex =
      if x.data then (s.chan x.side).rindex else 0 := by
    rw [hafter]
    cases x.data <;> simp
  have hother : ∀ c ≠ x.side, ((run step s u (n + 1)).chan c).rindex = (s.chan c).rindex := by
    intro c hne
    rw [hafter, if_neg (by simp [hne])]
  cases hd : x.data
  case false =>
    have hrdata := hc.rdata_control hw hsettled hd le_rfl
    constructor
    · intro hok
      by_cases hfn : f = n
      · exact .inl hfn
      · obtain ⟨k, hk, heq⟩ := hok.control hd
        rw [hrdata, if_neg (by omega)] at heq
        exact .inr (.inl ⟨rfl, .inr (.inr ⟨k, hk, heq⟩)⟩)
    · intro hcond
      refine ⟨fun _ => ?_, fun hd' => ?_, hpointer, hother⟩
      · by_cases hfn : f = n
        · exact ⟨n, le_rfl, by rw [hrdata, if_pos (by omega)]⟩
        · rw [hrdata, if_neg (by omega)]
          rcases hcond with hfn' | ⟨-, h0 | h4 | hsame⟩ | ⟨hd', -⟩
          · exact absurd hfn' hfn
          · exact ⟨n, le_rfl, by rw [h0]⟩
          · exact ⟨n, le_rfl, by rw [h4]; rfl⟩
          · exact hsame
          · cases hd'
      · rw [hd] at hd'
        cases hd'
  case true =>
    have hrdata : rdata (run step s u n) (u n) = ((run step s u n).chan x.side).rxQueue 0 := by
      rw [rdata, (hc.holds n le_rfl).data, hd, if_pos rfl, (hc.holds n le_rfl).side]
    constructor
    · intro hok
      by_cases hpos : ((run step s u f).chan x.side).rxQueuePos = 0
      · exact .inr (.inr ⟨rfl, .inl hpos⟩)
      · obtain ⟨k, hk, hall, heq⟩ := hok.byte hd hpos
        have hkf : f = k := (hall f hle).mp (by rw [hc.dequeue_eq hw hd hpos hle, decide_eq_true rfl])
        rw [← hkf, hrdata] at heq
        exact .inr (.inr ⟨rfl, .inr heq⟩)
    · intro hcond
      refine ⟨fun hd' => ?_, fun _ hpos => ⟨f, hle, fun j hj => ?_, ?_⟩, hpointer, hother⟩
      · rw [hd] at hd'
        cases hd'
      · rw [hc.dequeue_eq hw hd hpos hj, decide_eq_true_eq]
      · rw [hrdata]
        rcases hcond with hfn | ⟨hd', -⟩ | ⟨-, hpos' | heq⟩
        · rw [hfn]
        · cases hd'
        · exact absurd hpos' hpos
        · exact heq

/-! ### Runs -/

/-- A line on which nothing happens. -/
def quiet : Line := ⟨false, false, 0, true⟩

def idle : In := ⟨false, false, false, false, false, .a, 0, fun _ => quiet⟩

/-- A clock of an access. -/
def Access.clock (x : Access) (cep cen : Bool) : In :=
  ⟨cep, cen, true, x.we, x.data, x.side, x.wdata, fun _ => quiet⟩

theorem Access.holds_clock (x : Access) (cep cen : Bool) : x.Holds (x.clock cep cen) :=
  ⟨rfl, rfl, rfl, rfl, rfl⟩

/-- A control write to channel A, and a control read of it. -/
def writeA (d : Byte) : Access := ⟨true, false, .a, d⟩
def readA : Access := ⟨false, false, .a, 0⟩

/-- WR2 is set to `$55`, and the pointer to 2. -/
def setVector (t : ℕ) : In :=
  [(writeA 2).clock true true, idle, (writeA 0x55).clock true true, idle,
    (writeA 2).clock true true].getD t idle

def vectorSet : State := run step .init setVector 6

/-- The read cycle whose clock `f` has `cen`. -/
def readClock (f k : ℕ) : In := readA.clock true (k == f)

theorem cycle_readClock {f n : ℕ} (hf : f ≤ n) : Cycle vectorSet (readClock f) readA f n where
  fresh := by decide +kernel
  holds _ _ := readA.holds_clock _ _
  noCen k hk := beq_eq_false_iff_ne.mpr hk.ne
  cen := beq_self_eq_true f
  le := hf

/-- A data read of channel A, in whose first clock a byte arrives. -/
def readDataA : Access := ⟨false, true, .a, 0⟩

def arrival (k : ℕ) : In :=
  { readDataA.clock true (k == 1) with line := fun _ => ⟨false, k == 0, 0x41, true⟩ }

theorem cycle_arrival : Cycle .init arrival readDataA 1 1 where
  fresh := rfl
  holds _ _ := ⟨rfl, rfl, rfl, rfl, rfl⟩
  noCen _ hk := beq_eq_false_iff_ne.mpr hk.ne
  cen := rfl
  le := le_rfl

/-- The vector in the clock of `cen`, and a byte that came in the clock before it. -/
theorem vector_at_cen :
    (rdata (run step vectorSet (readClock 1) 1) (readClock 1 1) = 0x55 ∧
      ReadOk vectorSet (readClock 1) readA 1 1) ∧
    rdata (run step .init arrival 1) (arrival 1) = 0x41 ∧ ReadOk .init arrival readDataA 1 1 :=
  ⟨⟨by decide +kernel, (readOk_iff rfl (cycle_readClock le_rfl) rfl).mpr (.inl rfl)⟩,
    by decide +kernel, (readOk_iff (v := arrival) (b := 0) rfl cycle_arrival rfl).mpr (.inl rfl)⟩

/-- One clock after `cen` the vector has gone, and RR0 is read. -/
theorem vector_as_rr0 :
    Cycle vectorSet (readClock 0) readA 0 1 ∧ ¬ ReadOk vectorSet (readClock 0) readA 0 1 := by
  refine ⟨cycle_readClock (by omega), fun h => ?_⟩
  obtain ⟨k, hk, heq⟩ := h.control rfl
  have hne : ∀ k < 2, rdata (run step vectorSet (readClock 0) 1) (readClock 0 1) ≠
      readReg .a (vectorSet.chan .a).rindex (run step vectorSet (readClock 0) k) (readClock 0 k) := by
    decide +kernel
  exact hne k (by omega) heq

end Scc
