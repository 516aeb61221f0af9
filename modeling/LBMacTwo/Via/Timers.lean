import LBMacTwo.Foundation.Latch
import LBMacTwo.Via.Chip

/-!
# The timers of the VIA

The counters move on `timer_tick` only, so that a run of a timer is an iteration, once for each tick.

* `Timer.tick`: timer A between two ticks, `Timer.period`: from one load to the next;
* `timerA_freerun`, `timerA_oneshot`: when timer A interrupts after it is loaded, and the wave on PB7;
* `pb6Ticks`, `counts`: what timer B counts, read off the pins;
* `timerB_oneshot`: when timer B interrupts after it is loaded, in both of its count modes.
-/

namespace Via
open Clocked

variable {c : Chip} {i : Pins}

/-! ### Timer A from tick to tick -/

/-- The registers of timer A. -/
structure Timer where
  count : Word
  reload : Bool
  mayInterrupt : Bool
  toggle : Bool

def Chip.timerA (c : Chip) : Timer :=
  ⟨c.timerACount, c.timerAReload, c.timerAMayInterrupt, c.timerAToggle⟩

namespace Timer

variable (latch : Word) (freerun output : Bool) (x : Timer)

/-- One tick of a timer that is not written. -/
def tick : Timer where
  count := if x.reload then latch else x.count - 1
  reload := !x.reload && x.count == 0
  mayInterrupt := if x.reload then x.mayInterrupt && freerun else x.mayInterrupt
  toggle := if x.reload && x.mayInterrupt && output then !x.toggle else x.toggle

variable {latch freerun output}

/-- The ticks before the reload. -/
theorem count_down {n : Word} {may tg : Bool} {m : ℕ} (hm : m ≤ n.toNat + 1) :
    (tick latch freerun output)^[m] ⟨n, false, may, tg⟩ =
      ⟨n - BitVec.ofNat 16 m, decide (m = n.toNat + 1), may, tg⟩ := by
  induction m with
  | zero => simp
  | succ m ih =>
    have hn := n.isLt
    have hzero : (n - BitVec.ofNat 16 m == 0) = decide (m + 1 = n.toNat + 1) := by
      rw [Bool.eq_iff_iff, beq_iff_eq, decide_eq_true_eq, ← BitVec.toNat_inj, BitVec.toNat_sub,
        BitVec.toNat_ofNat]
      have h0 : (0 : Word).toNat = 0 := rfl
      omega
    have hsucc : n - BitVec.ofNat 16 m - 1 = n - BitVec.ofNat 16 (m + 1) := by
      rw [BitVec.sub_sub, BitVec.ofNat_add]
      rfl
    rw [Function.iterate_succ_apply', ih (by omega), decide_eq_false (by omega), tick, hzero, hsucc]
    simp

/-- From one load to the next. -/
theorem period (n : Word) (may tg : Bool) :
    (tick latch freerun output)^[n.toNat + 2] ⟨n, false, may, tg⟩ =
      ⟨latch, false, may && freerun, if may && output then !tg else tg⟩ := by
  rw [Function.iterate_succ_apply', count_down (Nat.le_refl _), decide_eq_true rfl]
  simp [tick]

/-- A timer in free run whose latch holds what it was loaded with. -/
theorem periods (n : Word) (tg : Bool) (q : ℕ) :
    (tick n true output)^[q * (n.toNat + 2)] ⟨n, false, true, tg⟩ =
      ⟨n, false, true, tg ^^ (output && decide (q % 2 = 1))⟩ := by
  induction q with
  | zero => simp
  | succ q ih =>
    rw [Nat.succ_mul, Nat.add_comm, Function.iterate_add_apply, ih, period]
    rcases Nat.mod_two_eq_zero_or_one q with h | h <;> cases output <;> cases tg <;>
      simp [h, Nat.succ_mod_two_eq_one_iff]

/-- A timer that may not interrupt stays so. -/
theorem idle {m : ℕ} {x : Timer} (hx : x.mayInterrupt = false) :
    ((tick latch freerun output)^[m] x).mayInterrupt = false ∧
      ((tick latch freerun output)^[m] x).toggle = x.toggle := by
  induction m with
  | zero => exact ⟨hx, rfl⟩
  | succ m ih =>
    rw [Function.iterate_succ_apply']
    simp [tick, ih]

end Timer

/-! ### Timer A -/

/-- The registers of timer A and the ACR are left alone. -/
structure Pins.Undisturbed (i : Pins) : Prop where
  reset : i.reset = false
  low : i.writeT1cL = false
  high : i.writeT1cH = false
  latch : i.writes 7 = false
  acr : i.writes 0xB = false

namespace Pins.Undisturbed

theorem timerALatch (h : i.Undisturbed) : (c.step i).timerALatch = c.timerALatch := by
  have h5 : i.writes 5 = false := h.high
  change c.timerALatchNext i = _
  rw [Chip.timerALatchNext, h.reset, h.low, h5, h.latch]
  rfl

theorem acr_step (h : i.Undisturbed) : (c.step i).acr = c.acr := by
  change Chip.register i 0xB c.acr = _
  rw [Chip.register, h.reset, h.acr]
  rfl

/-- Timer A moves by one tick or not at all. -/
theorem timerA (h : i.Undisturbed) : (c.step i).timerA =
    if i.timerTick then c.timerA.tick c.timerALatch c.tmrAFreerun c.tmrAOutputEn else c.timerA := by
  cases ht : i.timerTick with
  | false =>
    simp [Chip.timerA, Chip.step, Chip.timerACountNext, Chip.timerAReloadNext,
      Chip.timerAMayInterruptNext, Chip.timerAToggleNext, Chip.timerAEvent, h.reset, h.high, ht]
  | true =>
    rw [if_pos rfl, Chip.timerA, Chip.timerA, Timer.tick]
    congr 1
    · change c.timerACountNext i = _
      rw [Chip.timerACountNext, h.reset, h.high, ht, h.low]
      rfl
    · change c.timerAReloadNext i = _
      rw [Chip.timerAReloadNext, h.reset, h.high, ht]
      rfl
    · change c.timerAMayInterruptNext i = _
      rw [Chip.timerAMayInterruptNext, h.reset, h.high, ht]
      rfl
    · change c.timerAToggleNext i = _
      rw [Chip.timerAToggleNext, h.reset, h.high, Chip.timerAEvent, ht]
      rfl

end Pins.Undisturbed

/-- Timer A as a write of its counter leaves it. -/
theorem Chip.timerA_load (hw : i.writeT1cH = true) (hr : i.reset = false) :
    (c.step i).timerA = ⟨pairWord i.dataIn (lowByte c.timerALatch), false, true, !c.tmrAOutputEn⟩ ∧
      (c.step i).timerALatch = pairWord i.dataIn (lowByte c.timerALatch) ∧
      (c.step i).acr = c.acr := by
  have haddr : i.wen = true ∧ i.falling = true ∧ i.addr = 5 := by
    simpa [Pins.writeT1cH, Pins.writes, and_assoc] using hw
  refine ⟨?_, ?_, ?_⟩
  · simp [timerA, step, timerACountNext, timerAReloadNext, timerAMayInterruptNext,
      timerAToggleNext, hw, hr]
  · simp [step, timerALatchNext, Pins.writeT1cL, Pins.writes, hr, haddr]
  · simp [step, register, Pins.writes, hr, haddr]

section TimerA

variable {u : ℕ → Pins}

/-- The ticks in the clocks from 1 up to `t`. -/
def ticks (u : ℕ → Pins) (t : ℕ) : ℕ := Nat.count (fun k => (u (k + 1)).timerTick = true) t

variable (hw : (u 0).writeT1cH = true) (hr : (u 0).reset = false)
  (hu : ∀ t, (u (t + 1)).Undisturbed)
include hw hr hu

theorem kept_run (t : ℕ) :
    (c.run u (t + 1)).timerALatch = pairWord (u 0).dataIn (lowByte c.timerALatch) ∧
      (c.run u (t + 1)).acr = c.acr := by
  induction t with
  | zero => exact (Chip.timerA_load hw hr).2
  | succ t ih => exact ⟨(hu t).timerALatch.trans ih.1, (hu t).acr_step.trans ih.2⟩

/-- A run of timer A after a write of its counter. -/
theorem timerA_run (t : ℕ) : (c.run u (t + 1)).timerA =
    (Timer.tick (pairWord (u 0).dataIn (lowByte c.timerALatch)) c.tmrAFreerun c.tmrAOutputEn)^[ticks u t]
      ⟨pairWord (u 0).dataIn (lowByte c.timerALatch), false, true, !c.tmrAOutputEn⟩ := by
  have h := Latch.ticked_run (y := fun t => (c.run u (t + 1)).timerA)
    (p := fun k => (u (k + 1)).timerTick = true) (n := t)
    (f := Timer.tick (pairWord (u 0).dataIn (lowByte c.timerALatch)) c.tmrAFreerun c.tmrAOutputEn)
    fun k _ => by
      obtain ⟨h1, h2⟩ := kept_run (c := c) hw hr hu k
      have hstep := (hu k).timerA (c := c.run u (k + 1))
      rw [h1, Chip.tmrAFreerun, Chip.tmrAOutputEn, h2] at hstep
      exact hstep
  rw [h]
  exact congrArg _ (Chip.timerA_load hw hr).1

omit hw hr hu in
theorem timerAEvent_eq : c.timerAEvent i =
    (i.timerTick && c.timerA.reload && c.timerA.mayInterrupt) := rfl

omit hw hr hu in
theorem portBO_timer (ho : c.tmrAOutputEn = true) : c.portBO.getLsbD 7 = c.timerA.toggle := by
  rw [Chip.portBO, Chip.withTimer, if_pos ho, BitVec.getLsbD_cons, if_pos rfl]
  rfl

/-- In free run timer A, loaded with `n`, interrupts in every tick that is a multiple of `n + 2`, and
with its output on PB7 carries a square wave of that half period, low first. -/
theorem timerA_freerun (hf : c.tmrAFreerun = true) (t : ℕ) :
    ((c.run u (t + 1)).timerAEvent (u (t + 1)) = true ↔ (u (t + 1)).timerTick = true ∧
      (pairWord (u 0).dataIn (lowByte c.timerALatch)).toNat + 2 ∣ ticks u t + 1) ∧
    (c.tmrAOutputEn = true → (c.run u (t + 1)).portBO.getLsbD 7 =
      decide (ticks u t / ((pairWord (u 0).dataIn (lowByte c.timerALatch)).toNat + 2) % 2 = 1)) := by
  have hrun := timerA_run (c := c) hw hr hu t
  have hacr := (kept_run (c := c) hw hr hu t).2
  generalize pairWord (u 0).dataIn (lowByte c.timerALatch) = n at hrun ⊢
  have hmod := Nat.mod_lt (ticks u t) (show 0 < n.toNat + 2 by omega)
  have hsplit : (Timer.tick n true c.tmrAOutputEn)^[ticks u t] ⟨n, false, true, !c.tmrAOutputEn⟩ =
      ⟨n - BitVec.ofNat 16 (ticks u t % (n.toNat + 2)),
        decide (ticks u t % (n.toNat + 2) = n.toNat + 1), true,
        !c.tmrAOutputEn ^^ (c.tmrAOutputEn && decide (ticks u t / (n.toNat + 2) % 2 = 1))⟩ := by
    conv_lhs => rw [← Nat.mod_add_div' (ticks u t) (n.toNat + 2)]
    rw [Function.iterate_add_apply, Timer.periods, Timer.count_down (by omega)]
  rw [hf, hsplit] at hrun
  constructor
  · rw [timerAEvent_eq, hrun, Bool.and_true, Bool.and_eq_true, decide_eq_true_eq,
      Nat.dvd_iff_mod_eq_zero, ← Nat.mod_add_mod]
    refine and_congr_right fun _ => ?_
    rcases Nat.lt_or_ge (ticks u t % (n.toNat + 2) + 1) (n.toNat + 2) with hlt | hge
    · rw [Nat.mod_eq_of_lt hlt]
      omega
    · rw [show ticks u t % (n.toNat + 2) + 1 = n.toNat + 2 by omega, Nat.mod_self]
      simp
      omega
  · intro ho
    rw [portBO_timer (by rwa [Chip.tmrAOutputEn, hacr]), hrun, ho]
    simp

/-- In one-shot mode timer A, loaded with `n`, interrupts once, in tick `n + 2`, and its output on PB7
is low until then. -/
theorem timerA_oneshot (hf : c.tmrAFreerun = false) (t : ℕ) :
    ((c.run u (t + 1)).timerAEvent (u (t + 1)) = true ↔ (u (t + 1)).timerTick = true ∧
      ticks u t = (pairWord (u 0).dataIn (lowByte c.timerALatch)).toNat + 1) ∧
    (c.tmrAOutputEn = true → (c.run u (t + 1)).portBO.getLsbD 7 =
      decide ((pairWord (u 0).dataIn (lowByte c.timerALatch)).toNat + 2 ≤ ticks u t)) := by
  have hrun := timerA_run (c := c) hw hr hu t
  have hacr := (kept_run (c := c) hw hr hu t).2
  generalize pairWord (u 0).dataIn (lowByte c.timerALatch) = n at hrun ⊢
  rw [hf] at hrun
  rcases Nat.lt_or_ge (ticks u t) (n.toNat + 2) with hlt | hge
  · rw [Timer.count_down (by omega)] at hrun
    constructor
    · rw [timerAEvent_eq, hrun, Bool.and_true, Bool.and_eq_true, decide_eq_true_eq]
    · intro ho
      rw [portBO_timer (by rwa [Chip.tmrAOutputEn, hacr]), hrun, ho,
        show decide (n.toNat + 2 ≤ ticks u t) = false from decide_eq_false (by omega)]
      rfl
  · obtain ⟨m, hm⟩ := Nat.exists_eq_add_of_le' hge
    rw [hm, Function.iterate_add_apply, Timer.period] at hrun
    have hidle := @Timer.idle n false c.tmrAOutputEn m ⟨n, false, true && false,
      if true && c.tmrAOutputEn then !!c.tmrAOutputEn else !c.tmrAOutputEn⟩ rfl
    rw [← hrun] at hidle
    constructor
    · rw [timerAEvent_eq, hidle.1, Bool.and_false]
      simp
      omega
    · intro ho
      rw [portBO_timer (by rwa [Chip.tmrAOutputEn, hacr]), hidle.2, ho, decide_eq_true hge]
      rfl

end TimerA

/-- A chip whose ACR is `x` and whose latches are 2. -/
def Chip.latched (x : Byte) : Chip := { Chip.cleared with acr := x, timerALatch := 2, timerBLatch := 2 }

/-- A write of register `a`, and ticks. -/
def loadAt (a : BitVec 4) : ℕ → Pins
  | 0 => Pins.write a 0
  | _ => Pins.idle

theorem undisturbed_idle : Pins.idle.Undisturbed := ⟨rfl, rfl, rfl, rfl, rfl⟩

theorem timerA_freerun_two :
    ((Chip.latched 0xC0).run (loadAt 5) 8).timerAEvent Pins.idle = true ∧
      ((Chip.latched 0xC0).run (loadAt 5) 8).portBO.getLsbD 7 = true := by
  have h := timerA_freerun (c := .latched 0xC0) (u := loadAt 5) rfl rfl
    (fun _ => undisturbed_idle) rfl 7
  exact ⟨h.1.mpr ⟨rfl, by decide⟩, (h.2 rfl).trans (by decide)⟩

theorem timerA_oneshot_two :
    ((Chip.latched 0x80).run (loadAt 5) 4).timerAEvent Pins.idle = true ∧
      ((Chip.latched 0x80).run (loadAt 5) 4).portBO.getLsbD 7 = false := by
  have h := timerA_oneshot (c := .latched 0x80) (u := loadAt 5) rfl rfl
    (fun _ => undisturbed_idle) rfl 3
  exact ⟨h.1.mpr ⟨rfl, by decide⟩, (h.2 rfl).trans (by decide)⟩

/-! ### Timer B -/

/-- The registers of timer B as a one-shot. -/
structure OneShot where
  count : Word
  trig : Bool

def Chip.timerB (c : Chip) : OneShot := ⟨c.timerBCount, c.timerBOneshotTrig⟩

/-- One decrement. -/
def OneShot.decrement (x : OneShot) : OneShot := ⟨x.count - 1, x.trig && x.count != 0⟩

theorem OneShot.iterate (n : Word) (m : ℕ) :
    decrement^[m] ⟨n, true⟩ = ⟨n - BitVec.ofNat 16 m, decide (m ≤ n.toNat)⟩ := by
  induction m with
  | zero => simp
  | succ m ih =>
    have hn := n.isLt
    have hsucc : n - BitVec.ofNat 16 m - 1 = n - BitVec.ofNat 16 (m + 1) := by
      rw [BitVec.sub_sub, BitVec.ofNat_add]
      rfl
    have hzero : (decide (m ≤ n.toNat) && n - BitVec.ofNat 16 m != 0) =
        decide (m + 1 ≤ n.toNat) := by
      have h0 : (0 : Word).toNat = 0 := rfl
      rw [Bool.eq_iff_iff, Bool.and_eq_true, bne_iff_ne, Ne, ← BitVec.toNat_inj, BitVec.toNat_sub,
        BitVec.toNat_ofNat, decide_eq_true_eq, decide_eq_true_eq]
      omega
    rw [Function.iterate_succ_apply', ih, decrement, hsucc, hzero]

/-- The counter of timer B and the ACR are left alone. -/
structure Pins.KeepsB (i : Pins) : Prop where
  reset : i.reset = false
  high : i.writeT2cH = false
  acr : i.writes 0xB = false

namespace Chip

theorem acr_keepsB (h : i.KeepsB) : (c.step i).acr = c.acr := by
  change register i 0xB c.acr = _
  rw [register, h.reset, h.acr]
  rfl

theorem timerBShifts_eq {d : Chip} (h : d.acr = c.acr) : d.timerBShifts = c.timerBShifts := by
  rw [timerBShifts, timerBShifts, shiftModeControl, shiftModeControl, h]

theorem reloadLo_step (h : c.timerBReloadLo = false) (hs : c.timerBShifts = false) :
    (c.step i).timerBReloadLo = false := by
  change c.timerBReloadLoNext i = _
  rw [timerBReloadLoNext, timerBLowOut, hs, h, Bool.and_false, Bool.and_false]
  split_ifs <;> rfl

/-- A decrement of timer B. -/
def decrements (c : Chip) (i : Pins) : Bool := i.timerTick && c.timerBDecrement

theorem timerB_step (h : i.KeepsB) (hl : c.timerBReloadLo = false) :
    (c.step i).timerB = if c.decrements i then c.timerB.decrement else c.timerB := by
  have hcount : (c.step i).timerBCount =
      if c.decrements i then c.timerBCount - 1 else c.timerBCount := by
    change c.timerBCountNext i = _
    rw [timerBCountNext, h.reset, h.high, hl, decrements]
    cases i.timerTick <;> cases c.timerBDecrement <;> rfl
  have htrig : (c.step i).timerBOneshotTrig =
      if c.decrements i then c.timerBOneshotTrig && c.timerBCount != 0
      else c.timerBOneshotTrig := by
    change c.timerBOneshotTrigNext i = _
    rw [timerBOneshotTrigNext, h.reset, h.high, timerBOut, decrements, bne]
    cases i.timerTick <;> cases c.timerBDecrement <;> cases c.timerBCount == 0 <;>
      cases c.timerBOneshotTrig <;> rfl
  rw [timerB, hcount, htrig]
  split_ifs <;> rfl

theorem timerB_load (hw : i.writeT2cH = true) (hr : i.reset = false) :
    (c.step i).timerB = ⟨pairWord i.dataIn (lowByte c.timerBLatch), true⟩ ∧
      (c.step i).acr = c.acr := by
  have haddr : i.wen = true ∧ i.falling = true ∧ i.addr = 9 := by
    simpa [Pins.writeT2cH, Pins.writes, and_assoc] using hw
  constructor
  · simp [timerB, step, timerBCountNext, timerBOneshotTrigNext, hw, hr]
  · simp [step, register, Pins.writes, hr, haddr]

end Chip

section TimerB

variable {u : ℕ → Pins}

/-- The PB6 pin as the ticks before clock `t` found it, the latest first; the chip has the two before. -/
def pb6Ticks (c : Chip) (u : ℕ → Pins) : ℕ → List Bool
  | 0 => [c.pb6C, c.pb6D]
  | t + 1 => if (u t).timerTick then (u t).portBI.getLsbD 6 :: pb6Ticks c u t else pb6Ticks c u t

/-- Clock `k + 1` is a tick of timer B; when it counts pulses, one after two between which PB6 fell. -/
def counts (c : Chip) (u : ℕ → Pins) (k : ℕ) : Bool :=
  (u (k + 1)).timerTick && (!c.tmrBCountMode || (pb6Ticks c u (k + 1)).take 2 == [false, true])

/-- The decrements of timer B in the clocks from 1 up to `t`. -/
def decrements (c : Chip) (u : ℕ → Pins) (t : ℕ) : ℕ := Nat.count (fun k => counts c u k = true) t

theorem pb6Ticks_run (t : ℕ) :
    ∃ rest, pb6Ticks c u t = (c.run u t).pb6C :: (c.run u t).pb6D :: rest := by
  induction t with
  | zero => exact ⟨[], rfl⟩
  | succ t ih =>
    obtain ⟨rest, hrest⟩ := ih
    have hc : (c.run u (t + 1)).pb6C =
        if (u t).timerTick then (u t).portBI.getLsbD 6 else (c.run u t).pb6C := rfl
    have hd : (c.run u (t + 1)).pb6D =
        if (u t).timerTick then (c.run u t).pb6C else (c.run u t).pb6D := rfl
    rw [pb6Ticks, hrest, hc, hd]
    cases (u t).timerTick with
    | false => exact ⟨rest, rfl⟩
    | true => exact ⟨(c.run u t).pb6D :: rest, rfl⟩

theorem counts_run {k : ℕ} (h : (c.run u (k + 1)).acr = c.acr) :
    (c.run u (k + 1)).decrements (u (k + 1)) = counts c u k := by
  obtain ⟨rest, hrest⟩ := pb6Ticks_run (c := c) (u := u) (k + 1)
  have hmode : (c.run u (k + 1)).tmrBCountMode = c.tmrBCountMode := by
    rw [Chip.tmrBCountMode, h]
    rfl
  rw [Chip.decrements, counts, Chip.timerBDecrement, hmode, hrest]
  cases c.tmrBCountMode <;> cases (c.run u (k + 1)).pb6C <;> cases (c.run u (k + 1)).pb6D <;> rfl

variable (hw : (u 0).writeT2cH = true) (hr : (u 0).reset = false)
  (hu : ∀ t, (u (t + 1)).KeepsB) (hs : c.timerBShifts = false) (hl : c.timerBReloadLo = false)
include hw hr hu hs hl

theorem reloadLo_run (t : ℕ) :
    (c.run u (t + 1)).timerBReloadLo = false ∧ (c.run u (t + 1)).acr = c.acr := by
  induction t with
  | zero => exact ⟨Chip.reloadLo_step hl hs, (Chip.timerB_load hw hr).2⟩
  | succ t ih =>
    exact ⟨Chip.reloadLo_step ih.1 ((Chip.timerBShifts_eq ih.2).trans hs),
      (Chip.acr_keepsB (hu t)).trans ih.2⟩

theorem timerB_run (t : ℕ) : (c.run u (t + 1)).timerB =
    OneShot.decrement^[decrements c u t] ⟨pairWord (u 0).dataIn (lowByte c.timerBLatch), true⟩ := by
  have h := Latch.ticked_run (y := fun t => (c.run u (t + 1)).timerB) (f := OneShot.decrement)
    (p := fun k => counts c u k = true) (n := t) fun k _ => by
      rw [← counts_run (reloadLo_run hw hr hu hs hl k).2]
      exact Chip.timerB_step (hu k) (reloadLo_run hw hr hu hs hl k).1
  rw [h]
  exact congrArg _ (Chip.timerB_load hw hr).1

theorem timerBOut_run (t : ℕ) : (c.run u (t + 1)).timerBOut = true ↔
    (c.run u (t + 1)).timerBDecrement = true ∧
      decrements c u t = (pairWord (u 0).dataIn (lowByte c.timerBLatch)).toNat := by
  have hrun := timerB_run hw hr hu hs hl t
  rw [OneShot.iterate, Chip.timerB, OneShot.mk.injEq] at hrun
  have hn := (pairWord (u 0).dataIn (lowByte c.timerBLatch)).isLt
  have h0 : (0 : Word).toNat = 0 := rfl
  rw [Chip.timerBOut, hrun.1, hrun.2, Bool.and_eq_true, Bool.and_eq_true, beq_iff_eq,
    ← BitVec.toNat_inj, BitVec.toNat_sub, BitVec.toNat_ofNat, decide_eq_true_eq, and_assoc]
  refine and_congr_right fun _ => ?_
  omega

/-- Timer B, loaded with `n`, interrupts once: in the tick after its decrement `n + 1`, which is a tick
or, in the mode that counts pulses, one that finds that PB6 fell between the two ticks before it. -/
theorem timerB_oneshot (h0 : (c.run u 1).timerBTimeout = false) (t : ℕ) :
    (c.run u (t + 1)).timerBEvent (u (t + 1)) = true ↔ (u (t + 1)).timerTick = true ∧
      ∃ k < t, counts c u k = true ∧
        decrements c u k = (pairWord (u 0).dataIn (lowByte c.timerBLatch)).toNat ∧
        ∀ r, k < r → r < t → (u (r + 1)).timerTick = false := by
  rw [Chip.timerBEvent, Bool.and_eq_true]
  refine and_congr_right fun _ => ?_
  have hout := fun k => timerBOut_run hw hr hu hs hl k
  have hlatch := Latch.latch_iff (x := fun k => (c.run u (k + 1)).timerBTimeout)
    (a := fun k => (u (k + 1)).timerTick && (c.run u (k + 1)).timerBOut)
    (k := fun k => (u (k + 1)).timerTick && !(c.run u (k + 1)).timerBOut) (fun k => by
      change (c.run u (k + 1)).timerBTimeoutNext (u (k + 1)) = _
      rw [Chip.timerBTimeoutNext]
      cases (u (k + 1)).timerTick <;> cases (c.run u (k + 1)).timerBOut <;> simp) t
  rw [hlatch, or_iff_left fun h => Bool.false_ne_true (h0.symm.trans h.1)]
  refine exists_congr fun k => and_congr_right fun hk => ?_
  rw [Bool.and_eq_true, hout, ← counts_run (reloadLo_run hw hr hu hs hl k).2, Chip.decrements,
    Bool.and_eq_true]
  constructor
  · rintro ⟨⟨htick, hdec, hcount⟩, hclr⟩
    refine ⟨⟨htick, hdec⟩, hcount, fun r hkr hrt => ?_⟩
    -- a later tick finds the count past zero
    by_contra htr
    have hafter := hclr r (by omega) hrt
    rw [Bool.not_eq_false] at htr
    rw [htr, Bool.true_and, Bool.not_eq_false'] at hafter
    have hcount' := ((hout r).mp hafter).2
    have hmono : decrements c u (k + 1) ≤ decrements c u r := Nat.count_monotone _ (by omega)
    have hcounts : counts c u k = true := by
      rw [← counts_run (reloadLo_run hw hr hu hs hl k).2, Chip.decrements, htick, hdec]
      rfl
    rw [decrements, Nat.count_succ, if_pos hcounts] at hmono
    rw [decrements] at hcount hcount' hmono
    omega
  · rintro ⟨⟨htick, hdec⟩, hcount, hquiet⟩
    refine ⟨⟨htick, hdec, hcount⟩, fun r hkr hrt => ?_⟩
    rcases Nat.eq_or_lt_of_le hkr with rfl | hlt
    · rw [(hout k).mpr ⟨hdec, hcount⟩, Bool.not_true, Bool.and_false]
    · rw [hquiet r hlt hrt, Bool.false_and]

end TimerB

/-- `loadAt` with a pulse on PB6 every two clocks. -/
def pulsesAt (a : BitVec 4) (t : ℕ) : Pins :=
  { loadAt a t with portBI := if t % 2 = 1 then 0x40 else 0 }

theorem timerB_oneshot_two :
    ((Chip.latched 0).run (loadAt 9) 4).timerBEvent Pins.idle = true ∧
      ((Chip.latched 0x20).run (pulsesAt 9) 8).timerBEvent (pulsesAt 9 8) = true := by
  refine ⟨?_, ?_⟩
  · exact (timerB_oneshot (c := .latched 0) (u := loadAt 9) rfl rfl (fun _ => ⟨rfl, rfl, rfl⟩) rfl
      rfl rfl 3).mpr ⟨rfl, 2, by decide, by decide, by decide, fun r h1 h2 => by omega⟩
  · exact (timerB_oneshot (c := .latched 0x20) (u := pulsesAt 9) rfl rfl
      (fun _ => ⟨rfl, rfl, rfl⟩) rfl rfl rfl 7).mpr
      ⟨rfl, 6, by decide, by decide, by decide, fun r h1 h2 => by omega⟩

end Via
