import LBMacTwo.Scsi.Ncr5380
import LBMacTwo.Foundation.Clocked
import LBMacTwo.Foundation.Wire

/-!
# The completion interrupt

The adapter beside a target that goes through any sequence of states.

* `Ncr.clock`, `chipAt`: the adapter alone, clocked, and the chip in a clock of such a run;
* `run_ncr`: the adapter of a chip with its own target is such a run;
* `IrqLaw`: what a transfer started in clock `k` does to the interrupt latch, with `Stays` for what
  it waits to end;
* `irq_of_match`: the law holds with `Stays` the match of the bus and TCR.
-/

namespace Scsi
open Clocked Wire

/-- The adapter in a clock, with the target's state and the host bus as inputs. -/
def Ncr.clock (P : Params) (n : Ncr) (i : Sys × Host) : Ncr := Ncr.step P ⟨n, i.1⟩ i.2

/-- The adapter and its target in clock `t`. -/
def chipAt (P : Params) (n : Ncr) (u : ℕ → Sys × Host) (t : ℕ) : Chip :=
  ⟨run (Ncr.clock P) n u t, (u t).1⟩

variable {P : Params} {E : Env} {n : Ncr} {u : ℕ → Sys × Host} {k m t : ℕ}

/-- The adapter of a running chip. -/
theorem run_ncr (c : Chip) (v : ℕ → Clock) (t : ℕ) :
    (run (Chip.step P E) c v t).ncr =
      run (Ncr.clock P) c.ncr (fun t => ((run (Chip.step P E) c v t).sys, (v t).host)) t := by
  induction t with
  | zero => rfl
  | succ t ih =>
    rw [run_succ, run_succ, ← ih]
    rfl

/-- A Start-DMA register is written in this clock. -/
def Ncr.startsDma (n : Ncr) (h : Host) : Bool := n.writes h wregDmas || n.writes h wregIdmar

/-- The phase lines of the bus: `msg`, `cd` and `io`. -/
def Sys.lines (x : Sys) : Bool × Bool × Bool := (x.tgt.msg, x.tgt.cd, x.tgt.io)

/-- The reads of register 7. -/
def rstReads (u : ℕ → Sys × Host) (t : ℕ) : Bool := (u t).2.rstRd

/-- What a Start-DMA write in clock `k` does to the interrupt latch: it is not set while `Stays`
holds, is set by the first clock in which it does not, stays set until a read of register 7 that
begins later, and is not set again before another Start-DMA write. -/
structure IrqLaw (P : Params) (n : Ncr) (u : ℕ → Sys × Host) (k : ℕ) (Stays : ℕ → Prop) :
    Prop where
  notBefore : ∀ t, k ≤ t → (∀ j, k ≤ j → j ≤ t → Stays j) →
    (chipAt P n u (t + 1)).ncr.irqLatch = true → (chipAt P n u t).ncr.irqLatch = true
  prompt : ∀ m, k < m → (∀ j, k ≤ j → j < m → Stays j) → ¬ Stays m →
    (chipAt P n u (m + 1)).ncr.irqLatch = true
  kept : ∀ m, k < m → (∀ j, k ≤ j → j < m → Stays j) → ¬ Stays m → ∀ t, m < t →
    (∀ j, m < j → j < t → ¬ Rises (rstReads u) j) → (chipAt P n u t).ncr.irqLatch = true
  once : ∀ m, k < m → (∀ j, k ≤ j → j < m → Stays j) → ¬ Stays m → ∀ t, m < t →
    (∀ j, m < j → j < t → (chipAt P n u j).ncr.startsDma (u j).2 = false) →
    (chipAt P n u (t + 1)).ncr.irqLatch = true → (chipAt P n u t).ncr.irqLatch = true

/-! ### One clock -/

theorem irqLatch_succ (hr : (chipAt P n u t).ncr.icrARst = false) :
    (chipAt P n u (t + 1)).ncr.irqLatch =
      if (chipAt P n u t).pmatchFall then true
      else if !(chipAt P n u t).ncr.oldRstRd && rstReads u t then false
      else (chipAt P n u t).ncr.irqLatch := by
  change irqLatchNext (chipAt P n u t) (u t).2 = _
  rw [irqLatchNext, hr, if_neg Bool.false_ne_true]
  rfl

theorem dmaArmed_succ (hr : (chipAt P n u t).ncr.icrARst = false) :
    (chipAt P n u (t + 1)).ncr.dmaArmed =
      if (chipAt P n u t).pmatchFall then false
      else (chipAt P n u t).ncr.startsDma (u t).2 || (chipAt P n u t).ncr.dmaArmed := by
  change dmaArmedNext (chipAt P n u t) (u t).2 = _
  rw [dmaArmedNext, hr, if_neg Bool.false_ne_true]
  rfl

theorem pmatchFall_of_match (h : (chipAt P n u t).bsrPmatch = true) :
    (chipAt P n u t).pmatchFall = false := by
  rw [Chip.pmatchFall, h, Bool.not_true, Bool.and_false]

theorem irqLatch_of_not_fall (hr : (chipAt P n u t).ncr.icrARst = false)
    (hf : (chipAt P n u t).pmatchFall = false)
    (h : (chipAt P n u (t + 1)).ncr.irqLatch = true) : (chipAt P n u t).ncr.irqLatch = true := by
  rw [irqLatch_succ hr, hf, if_neg Bool.false_ne_true] at h
  split_ifs at h
  exact h

/-! ### A transfer -/

section Transfer

variable (hr : ∀ t, (chipAt P n u t).ncr.icrARst = false)
include hr

/-- A Start-DMA write in a matching phase arms the monitor until the match is lost. -/
theorem armed_of_match (hk : (chipAt P n u k).ncr.startsDma (u k).2 = true)
    (hm : ∀ j, k ≤ j → j < m → (chipAt P n u j).bsrPmatch = true) (hkm : k < m) :
    (chipAt P n u m).ncr.dmaArmed = true := by
  induction m, hkm using Nat.le_induction with
  | base =>
    rw [dmaArmed_succ (hr k), pmatchFall_of_match (hm k le_rfl k.lt_succ_self),
      if_neg Bool.false_ne_true, hk, Bool.true_or]
  | succ m hkm ih =>
    have harmed := ih fun j hj hjm => hm j hj (by omega)
    rw [dmaArmed_succ (hr m), pmatchFall_of_match (hm m (by omega) m.lt_succ_self),
      if_neg Bool.false_ne_true, harmed, Bool.or_true]

/-- The clock in which the match is lost sees it fall. -/
theorem pmatchFall_of_lost (hk : (chipAt P n u k).ncr.startsDma (u k).2 = true)
    (hm : ∀ j, k ≤ j → j < m → (chipAt P n u j).bsrPmatch = true) (hkm : k < m)
    (hlost : ¬ (chipAt P n u m).bsrPmatch = true) : (chipAt P n u m).pmatchFall = true := by
  have harmed := armed_of_match hr hk hm hkm
  obtain ⟨p, rfl⟩ : ∃ p, m = p + 1 := ⟨m - 1, by omega⟩
  have hprev : (chipAt P n u (p + 1)).ncr.pmatchD = true := hm p (by omega) p.lt_succ_self
  rw [Bool.not_eq_true] at hlost
  rw [Chip.pmatchFall, harmed, hprev, hlost]
  rfl

/-- The latch is set by the fall and cleared only by a read that begins later. -/
theorem irqLatch_kept (hf : (chipAt P n u m).pmatchFall = true) (hmt : m < t)
    (hread : ∀ j, m < j → j < t → ¬ Rises (rstReads u) j) :
    (chipAt P n u t).ncr.irqLatch = true := by
  induction t, hmt using Nat.le_induction with
  | base => rw [irqLatch_succ (hr m), hf, if_pos rfl]
  | succ t hmt ih =>
    have hset := ih fun j hj hjt => hread j hj (by omega)
    obtain ⟨p, rfl⟩ : ∃ p, t = p + 1 := ⟨t - 1, by omega⟩
    have hold : (chipAt P n u (p + 1)).ncr.oldRstRd = rstReads u p := rfl
    have hno : (!rstReads u p && rstReads u (p + 1)) = false := by
      by_contra hrise
      rw [Bool.not_eq_false, Bool.and_eq_true, Bool.not_eq_true'] at hrise
      refine hread (p + 1) (by omega) (by omega) ⟨hrise.2, fun s hs => ?_⟩
      rw [show s = p by omega]
      exact hrise.1
    rw [irqLatch_succ (hr _), hold, hno, hset, if_neg Bool.false_ne_true]
    split_ifs <;> rfl

/-- After the fall the monitor is not armed until the next Start-DMA write. -/
theorem not_armed (hf : (chipAt P n u m).pmatchFall = true) (hmt : m < t)
    (hstart : ∀ j, m < j → j < t → (chipAt P n u j).ncr.startsDma (u j).2 = false) :
    (chipAt P n u t).ncr.dmaArmed = false := by
  induction t, hmt using Nat.le_induction with
  | base => rw [dmaArmed_succ (hr m), hf, if_pos rfl]
  | succ t hmt ih =>
    have hidle := ih fun j hj hjt => hstart j hj (by omega)
    rw [dmaArmed_succ (hr t), hidle, hstart t (by omega) t.lt_succ_self]
    split_ifs <;> rfl

/-- Without a bus reset, a Start-DMA write in a matching phase raises the interrupt in the clock in
which bus and TCR stop matching, and in no other. -/
theorem irq_of_match (hk : (chipAt P n u k).ncr.startsDma (u k).2 = true) :
    IrqLaw P n u k fun t => (chipAt P n u t).bsrPmatch = true := by
  constructor
  · intro t hkt hstay hset
    exact irqLatch_of_not_fall (hr t) (pmatchFall_of_match (hstay t hkt le_rfl)) hset
  · intro m hkm hstay hlost
    rw [irqLatch_succ (hr m), pmatchFall_of_lost hr hk hstay hkm hlost, if_pos rfl]
  · intro m hkm hstay hlost t hmt hread
    exact irqLatch_kept hr (pmatchFall_of_lost hr hk hstay hkm hlost) hmt hread
  · intro m hkm hstay hlost t hmt hstart hset
    have harmed := not_armed hr (pmatchFall_of_lost hr hk hstay hkm hlost) hmt hstart
    have hf : (chipAt P n u t).pmatchFall = false := by rw [Chip.pmatchFall, harmed]; rfl
    exact irqLatch_of_not_fall (hr t) hf hset

end Transfer

/-! ### TCR rewritten during a transfer -/

/-- A host that writes neither ICR nor MR. -/
def quiet (h : Host) : Bool := h.busRs != wregIcr && h.busRs != wregMr

theorem icr_of_quiet (hq : ∀ t, quiet (u t).2 = true) (t : ℕ) :
    (chipAt P .init u t).ncr.icr = 0 ∧ (chipAt P .init u t).ncr.arbActive = false := by
  induction t with
  | zero => exact ⟨rfl, rfl⟩
  | succ t ih =>
    obtain ⟨hicr, harb⟩ := ih
    have hwq := hq t
    unfold quiet at hwq
    simp only [Bool.and_eq_true, bne_iff_ne] at hwq
    have hw : ∀ rs, (u t).2.busRs ≠ rs → (chipAt P .init u t).ncr.writes (u t).2 rs = false := by
      intro rs hrs
      rw [Ncr.writes, beq_false_of_ne hrs, Bool.and_false]
    constructor
    · change icrNext (chipAt P .init u t).ncr (u t).2 = 0
      rw [icrNext, hw _ hwq.1, harb, if_neg Bool.false_ne_true, Bool.false_and,
        if_neg Bool.false_ne_true, hicr]
    · change arbActiveNext (chipAt P .init u t).ncr (u t).2 = false
      rw [arbActiveNext, hw _ hwq.2, harb, if_neg Bool.false_ne_true, Bool.false_and]

/-- A target in the data-out phase. -/
def sending : Sys := ⟨{ State.init with phase := .dataOut }, .idle⟩

/-- TCR is set to the data-in phase of the bus, a transfer is started, and TCR is set to 0 while the
target stays in its phase. -/
def retarget : ℕ → Sys × Host
  | 0 | 1 => (sending, ⟨true, wregTcr, false, true, false, false, false, false, 1⟩)
  | 3 | 4 => (sending, ⟨true, wregIdmar, false, true, false, false, false, false, 0⟩)
  | 6 | 7 => (sending, ⟨true, wregTcr, false, true, false, false, false, false, 0⟩)
  | _ => (sending, ⟨false, 0, false, false, false, false, false, false, 0⟩)

theorem retarget_noReset (t : ℕ) : (chipAt .least .init retarget t).ncr.icrARst = false := by
  have hq : ∀ t, quiet (retarget t).2 = true := by
    intro t
    match t with
    | 0 | 1 | 2 | 3 | 4 | 5 | 6 | 7 => rfl
    | _ + 8 => rfl
  rw [Ncr.icrARst, (icr_of_quiet hq t).1]
  rfl

theorem irq_of_match_retarget :
    IrqLaw .least .init retarget 4 fun t => (chipAt .least .init retarget t).bsrPmatch = true :=
  irq_of_match retarget_noReset (by decide +kernel)

/-- The interrupt is raised when TCR is rewritten, while the target is still in the phase. -/
theorem irq_on_retarget :
    (∀ t, (chipAt .least .init retarget t).ncr.icrARst = false) ∧
      (chipAt .least .init retarget 4).ncr.startsDma (retarget 4).2 = true ∧
      (chipAt .least .init retarget 4).bsrPmatch = true ∧
      ¬ IrqLaw .least .init retarget 4 fun t => (retarget t).1.lines = (retarget 4).1.lines := by
  refine ⟨retarget_noReset, by decide +kernel, by decide +kernel, fun h => ?_⟩
  have hstay : ∀ j, (retarget j).1.lines = (retarget 4).1.lines := by
    intro j
    match j with
    | 0 | 1 | 2 | 3 | 4 | 5 | 6 | 7 => rfl
    | _ + 8 => rfl
  have hset := h.notBefore 8 (by decide) fun j _ _ => hstay j
  revert hset
  decide +kernel

end Scsi
