import LBMacTwo.Foundation.Bits
import LBMacTwo.Foundation.Clocked
import LBMacTwo.Memory.Slots

/-!
# The shift register of VIA1

`dataController_top.sv` replaces the bit clock of the VIA1 shift register by a timer: a shift-out
hands its byte to the ADB transceiver when the timer ends, a shift-in is completed by the byte the
transceiver strobes, or by the timer. The keyboard path of the Mac Plus is off on this machine.

* `Shim`: the registers of the shim, `Shim.step` one clock of it;
* `Shim.delivers`, `Shim.expires`: the two ways a shift-in is completed;
* `ShiftsIn`: strobed bytes are loaded once and in order, and a completion that loads anything else
  is the timer's, which loads the last of them again;
* `shiftsIn_of_inward`: this holds as long as every byte is strobed in the shift-in direction;
* `Exact`, `not_exact`: a completion of the timer loads an old byte.
-/

namespace Adb
open Clocked

def shiftDelay : ℕ := 100000

def idleDelay : ℕ := 357500

/-- The registers of the shift register shim, and those of the keyboard control beside it. -/
structure Shim where
  slots : Memory.Slots
  acrShiftMode : BitVec 3
  srShadow : Byte
  shiftTimer : ℕ
  /-- Shift out. -/
  shiftDir : Bool
  srExtComplete : Bool
  srExtLoad : Bool
  srExtData : Byte
  srOutPending : Bool
  srOutAck : Bool
  kbdToMacFresh : Bool
  kbdToMac : Byte
  adbDinStrobe : Bool
  adbDin : Byte

/-- The wires into the shim: the CPU's access to VIA1 and the transceiver. `data` is
`cpuDataIn[15:8]`. -/
structure Wires where
  reset : Bool
  viaWr : Bool
  viaRd : Bool
  addr : BitVec 4
  data : Byte
  adbDoutStrobe : Bool
  adbDout : Byte
  adbRespPending : Bool
  adbBusIdle : Bool

namespace Wires

variable (i : Wires)

def srWr : Bool := i.viaWr && i.addr == 0xA

def acrWr : Bool := i.viaWr && i.addr == 0xB

def srRd : Bool := i.viaRd && i.addr == 0xA

/-- The shift mode in a byte for the ACR. -/
def mode : BitVec 3 := i.data.extractLsb' 2 3

end Wires

namespace Shim

variable (s n : Shim) (i : Wires)

def clk8EnP : Bool := s.slots.clk8EnP

/-- A byte of the transceiver arrives. -/
def strobed : Bool := !i.reset && s.clk8EnP && i.adbDoutStrobe

/-- `via1_kbd_to_mac_fresh <= 1`. -/
def latchFresh : Shim := if s.clk8EnP && i.adbDoutStrobe then { n with kbdToMacFresh := true } else n

/-- A write of the ACR. -/
def acrWrite : Shim :=
  if i.acrWr then
    let n := { n with acrShiftMode := i.mode }
    if i.mode = 7 ∧ s.acrShiftMode ≠ 7 then { n with shiftTimer := shiftDelay, shiftDir := true }
    else if i.mode = 3 ∧ s.acrShiftMode ≠ 3 then
      { n with shiftTimer := shiftDelay, shiftDir := false }
    else if i.mode = 0 then { n with shiftTimer := 0 }
    else n
  else n

/-- A read of the SR. -/
def srRead : Shim :=
  if i.srRd && s.acrShiftMode == 3 then
    { n with
      shiftTimer := if i.adbRespPending then shiftDelay else idleDelay, shiftDir := false }
  else n

/-- A write of the SR. -/
def srWrite : Shim :=
  if i.srWr then
    let n := { n with srShadow := i.data }
    if s.acrShiftMode = 7 then { n with shiftTimer := shiftDelay, shiftDir := true }
    else if s.acrShiftMode = 3 then { n with shiftTimer := shiftDelay, shiftDir := false }
    else n
  else n

/-- A running timer counts, whatever the CPU writes. -/
def countdown : Shim := if 1 < s.shiftTimer then { n with shiftTimer := s.shiftTimer - 1 } else n

/-- The shift-in is completed by a byte that waits. -/
def delivers : Bool := !i.reset && !s.shiftDir && s.kbdToMacFresh

/-- The shift-in is completed by the timer, with the last byte. -/
def expires : Bool :=
  !i.reset && !s.shiftDir && !s.kbdToMacFresh && s.shiftTimer == 1 &&
    (!i.adbRespPending || i.adbBusIdle)

/-- `via1_sr_ext_load <= 1`. -/
def load : Shim :=
  { n with shiftTimer := 0, srExtComplete := true, srExtLoad := true, srExtData := s.kbdToMac }

def completion : Shim :=
  if s.shiftDir then
    if s.shiftTimer = 1 then
      { n with shiftTimer := 0, srExtComplete := true, srOutPending := true }
    else n
  else if s.kbdToMacFresh then { s.load n with kbdToMacFresh := false }
  else if s.shiftTimer = 1 then
    if !i.adbRespPending || i.adbBusIdle then s.load n else n
  else n

/-- The keyboard control, clocked by `clk8_en_p`. -/
def keyboardControl : Shim :=
  if i.reset then { n with srOutAck := false }
  else if s.clk8EnP then
    { n with
      kbdToMac := if i.adbDoutStrobe then i.adbDout else n.kbdToMac
      adbDinStrobe := s.srOutPending
      adbDin := if s.srOutPending then s.srShadow else n.adbDin
      srOutAck := s.srOutPending }
  else n

/-- The registers the reset sets. -/
def init : Shim :=
  { s with
    acrShiftMode := 0, srShadow := 0, shiftTimer := 0, shiftDir := false, srExtComplete := false
    srExtLoad := false, srExtData := 0, srOutPending := false, kbdToMacFresh := false }

/-- The shim in a clock without reset. -/
def shift : Shim :=
  let n := { s with
    srExtComplete := false, srExtLoad := false, srOutPending := s.srOutPending && !s.srOutAck }
  let n := srRead s (acrWrite s (latchFresh s n i) i) i
  completion s (countdown s (srWrite s n i)) i

/-- One clock. -/
def step : Shim :=
  { keyboardControl s (if i.reset then s.init else s.shift i) i with slots := s.slots.step }

/-- The CPU starts a shift-out. -/
def turnsOut : Bool :=
  (i.acrWr && i.mode == 7 && s.acrShiftMode != 7) || (i.srWr && s.acrShiftMode == 7)

/-- The CPU starts a shift-in. -/
def turnsIn : Bool :=
  (i.acrWr && i.mode == 3 && s.acrShiftMode != 3) || ((i.srWr || i.srRd) && s.acrShiftMode == 3)

/-! ### One clock -/

variable {s n : Shim} {i : Wires}

/-- What the stages before the completion leave alone. -/
structure Kept (s n : Shim) (i : Wires) : Prop where
  fresh : n.kbdToMacFresh = ((s.clk8EnP && i.adbDoutStrobe) || s.kbdToMacFresh)
  load : n.srExtLoad = false
  kbdToMac : n.kbdToMac = s.kbdToMac
  shiftDir : s.shiftDir = false → s.turnsOut i = false → n.shiftDir = false

theorem Kept.countdown (h : Kept s n i) : Kept s (s.countdown n) i := by
  unfold Shim.countdown
  split_ifs
  · exact ⟨h.fresh, h.load, h.kbdToMac, h.shiftDir⟩
  · exact h

theorem Kept.srRead (h : Kept s n i) : Kept s (s.srRead n i) i := by
  unfold Shim.srRead
  by_cases hr : (i.srRd && s.acrShiftMode == 3) = true
  · rw [if_pos hr]
    exact ⟨h.fresh, h.load, h.kbdToMac, fun _ _ => rfl⟩
  · rw [if_neg hr]
    exact h

theorem Kept.srWrite (h : Kept s n i) : Kept s (s.srWrite n i) i := by
  unfold Shim.srWrite
  split_ifs with hw h7
  · refine ⟨h.fresh, h.load, h.kbdToMac, fun _ hout => ?_⟩
    rw [turnsOut, hw, h7] at hout
    simp at hout
  · exact ⟨h.fresh, h.load, h.kbdToMac, fun _ _ => rfl⟩
  · exact ⟨h.fresh, h.load, h.kbdToMac, h.shiftDir⟩
  · exact h

theorem Kept.acrWrite (h : Kept s n i) : Kept s (s.acrWrite n i) i := by
  unfold Shim.acrWrite
  split_ifs with hw h7
  · refine ⟨h.fresh, h.load, h.kbdToMac, fun _ hout => ?_⟩
    rw [turnsOut, hw, h7.1, Bool.true_and, bne_iff_ne.mpr h7.2] at hout
    exact absurd hout (by simp)
  · exact ⟨h.fresh, h.load, h.kbdToMac, fun _ _ => rfl⟩
  · exact ⟨h.fresh, h.load, h.kbdToMac, h.shiftDir⟩
  · exact ⟨h.fresh, h.load, h.kbdToMac, h.shiftDir⟩
  · exact h

/-- The shim before the completion. -/
def accessed (s : Shim) (i : Wires) : Shim :=
  let n := { s with
    srExtComplete := false, srExtLoad := false, srOutPending := s.srOutPending && !s.srOutAck }
  countdown s (srWrite s (srRead s (acrWrite s (latchFresh s n i) i) i) i)

theorem kept_accessed : Kept s (s.accessed i) i := by
  refine ((Kept.acrWrite ?_).srRead.srWrite).countdown
  unfold latchFresh
  split_ifs with h
  · exact ⟨by rw [h, Bool.true_or], rfl, rfl, fun hd _ => hd⟩
  · exact ⟨by rw [eq_false_of_ne_true h, Bool.false_or], rfl, rfl, fun hd _ => hd⟩

theorem step_eq (hr : i.reset = false) :
    s.step i = { keyboardControl s (s.completion (s.accessed i) i) i with slots := s.slots.step } := by
  rw [step, hr, if_neg Bool.false_ne_true]
  rfl

theorem slots_step : (s.step i).slots = s.slots.step := rfl

theorem fresh_keyboardControl : (keyboardControl s n i).kbdToMacFresh = n.kbdToMacFresh := by
  unfold keyboardControl
  split_ifs <;> rfl

theorem load_keyboardControl :
    (keyboardControl s n i).srExtLoad = n.srExtLoad ∧
      (keyboardControl s n i).srExtComplete = n.srExtComplete ∧
      (keyboardControl s n i).srExtData = n.srExtData := by
  unfold keyboardControl
  split_ifs <;> exact ⟨rfl, rfl, rfl⟩

/-- The completion is a delivery, an expiry or none. -/
theorem completion_cases (hr : i.reset = false) :
    s.delivers i = true ∧ s.completion n i = { s.load n with kbdToMacFresh := false } ∨
      s.delivers i = false ∧ s.expires i = true ∧ s.completion n i = s.load n ∨
      s.delivers i = false ∧ s.expires i = false ∧
        (s.completion n i).kbdToMacFresh = n.kbdToMacFresh ∧
        (s.completion n i).srExtLoad = n.srExtLoad := by
  unfold delivers expires completion
  rw [hr]
  cases s.shiftDir with
  | true =>
    refine .inr (.inr ⟨rfl, rfl, ?_⟩)
    simp only [if_true]
    split_ifs <;> exact ⟨rfl, rfl⟩
  | false =>
    simp only [Bool.false_eq_true, if_false]
    cases s.kbdToMacFresh with
    | true => exact .inl ⟨rfl, rfl⟩
    | false =>
      simp only [Bool.false_eq_true, if_false]
      by_cases ht : s.shiftTimer = 1
      · rw [if_pos ht, beq_iff_eq.mpr ht]
        cases hsafe : (!i.adbRespPending || i.adbBusIdle) with
        | true => exact .inr (.inl ⟨rfl, rfl, rfl⟩)
        | false => exact .inr (.inr ⟨rfl, rfl, rfl, rfl⟩)
      · rw [if_neg ht, beq_false_of_ne ht]
        exact .inr (.inr ⟨rfl, rfl, rfl, rfl⟩)

/-- The shift register is loaded from `kbd_to_mac`. -/
def Loads (s s' : Shim) : Prop :=
  s'.srExtLoad = true ∧ s'.srExtComplete = true ∧ s'.srExtData = s.kbdToMac

/-- What a clock does to the waiting byte and the shift register. -/
theorem step_cases (hr : i.reset = false) :
    s.delivers i = true ∧ Loads s (s.step i) ∧ (s.step i).kbdToMacFresh = false ∨
      s.delivers i = false ∧ s.expires i = true ∧ Loads s (s.step i) ∧
        (s.step i).kbdToMacFresh = (s.strobed i || s.kbdToMacFresh) ∨
      s.delivers i = false ∧ s.expires i = false ∧ (s.step i).srExtLoad = false ∧
        (s.step i).kbdToMacFresh = (s.strobed i || s.kbdToMacFresh) := by
  have hkept := @kept_accessed s i
  have hfresh : (s.accessed i).kbdToMacFresh = (s.strobed i || s.kbdToMacFresh) := by
    rw [hkept.fresh, strobed, hr, Bool.not_false, Bool.true_and]
  obtain ⟨hl, hc, hd⟩ := @load_keyboardControl s (s.completion (s.accessed i) i) i
  have hf := @fresh_keyboardControl s (s.completion (s.accessed i) i) i
  rw [step_eq hr]
  rcases completion_cases hr with ⟨h, he⟩ | ⟨h, hx, he⟩ | ⟨h, hx, hfr, hlo⟩
  · rw [he] at hl hc hd hf ⊢
    exact .inl ⟨h, ⟨hl, hc, hd⟩, hf⟩
  · rw [he] at hl hc hd hf ⊢
    exact .inr (.inl ⟨h, hx, ⟨hl, hc, hd⟩, hf.trans hfresh⟩)
  · exact .inr (.inr ⟨h, hx, hl.trans (hlo.trans hkept.load), hf.trans (hfr.trans hfresh)⟩)

theorem fresh_step_reset (hr : i.reset = true) : (s.step i).kbdToMacFresh = false := by
  rw [step, hr, if_pos rfl]
  exact fresh_keyboardControl

theorem load_step_reset (hr : i.reset = true) : (s.step i).srExtLoad = false := by
  rw [step, hr, if_pos rfl]
  exact load_keyboardControl.1

theorem not_expires_of_fresh (h : s.kbdToMacFresh = true) : s.expires i = false := by
  rw [expires, h, Bool.not_true, Bool.and_false, Bool.false_and, Bool.false_and]

/-- Two bytes are not strobed in consecutive clocks. -/
theorem not_strobed_step {j : Wires} (h : s.strobed i = true) : (s.step i).strobed j = false := by
  rw [strobed, Bool.and_eq_true, Bool.and_eq_true, clk8EnP, Memory.Slots.clk8EnP, beq_iff_eq] at h
  rw [strobed, clk8EnP, Memory.Slots.clk8EnP, slots_step, Memory.Slots.step_busPhase, h.1.2]
  simp

theorem completion_kept :
    (s.completion n i).kbdToMac = n.kbdToMac ∧ (s.completion n i).shiftDir = n.shiftDir := by
  unfold completion load
  split_ifs <;> exact ⟨rfl, rfl⟩

theorem shiftDir_keyboardControl : (keyboardControl s n i).shiftDir = n.shiftDir := by
  unfold keyboardControl
  split_ifs <;> rfl

theorem kbdToMac_step :
    (s.step i).kbdToMac = if s.strobed i then i.adbDout else s.kbdToMac := by
  unfold strobed
  cases hr : i.reset with
  | true =>
    rw [step, hr, if_pos rfl, keyboardControl, hr, if_pos rfl]
    rfl
  | false =>
    have hkeep := (@completion_kept s (s.accessed i) i).1.trans (@kept_accessed s i).kbdToMac
    rw [step_eq hr, keyboardControl, hr, if_neg Bool.false_ne_true]
    cases s.clk8EnP with
    | false => exact hkeep
    | true =>
      cases i.adbDoutStrobe with
      | false => exact hkeep
      | true => rfl

/-- The direction stays inward unless the CPU starts a shift-out. -/
theorem shiftDir_step (hd : s.shiftDir = false) (hout : s.turnsOut i = false) :
    (s.step i).shiftDir = false := by
  refine shiftDir_keyboardControl.trans ?_
  split_ifs
  · rfl
  · exact completion_kept.2.trans (kept_accessed.shiftDir hd hout)

end Shim

/-! ### Runs -/

section Run
open Shim

variable (s : Shim) (u : ℕ → Wires)

/-- The bytes strobed since the last reset. -/
def strobedBytes : ℕ → List Byte
  | 0 => []
  | t + 1 =>
    if (u t).reset then []
    else if (run Shim.step s u t).strobed (u t) then strobedBytes t ++ [(u t).adbDout]
    else strobedBytes t

/-- The bytes loaded into the shift register since the last reset, by anything but the timer. -/
def loadedBytes : ℕ → List Byte
  | 0 => []
  | t + 1 =>
    if (u t).reset then []
    else if (run Shim.step s u (t + 1)).srExtLoad && !(run Shim.step s u t).expires (u t) then
      loadedBytes t ++ [(run Shim.step s u (t + 1)).srExtData]
    else loadedBytes t

/-- The byte that waits for the next clock. -/
def Shim.waiting (s : Shim) : List Byte := if s.kbdToMacFresh then [s.kbdToMac] else []

/-- The byte of clock `b` is strobed and nothing else. -/
def Strobes (b : ℕ) : Prop := (run Shim.step s u b).strobed (u b) = true

/-- The byte strobed last before clock `t`, or what `kbd_to_mac` held at the start. -/
def lastStrobed : ℕ → Byte
  | 0 => s.kbdToMac
  | t + 1 => if (run Shim.step s u t).strobed (u t) then (u t).adbDout else lastStrobed t

/-- Up to clock `m` every strobed byte is loaded, once and in order, by a completion in the next
clock; a completion loads the byte strobed in the clock before, or it is the timer's and loads the byte
strobed last again. -/
structure ShiftsIn (m : ℕ) : Prop where
  once : ∀ t ≤ m, loadedBytes s u t ++ (run Shim.step s u t).waiting = strobedBytes s u t
  prompt : ∀ t < m, Strobes s u t → (u (t + 1)).reset = false →
    (run Shim.step s u (t + 2)).srExtLoad = true ∧
      (run Shim.step s u (t + 2)).srExtComplete = true ∧
      (run Shim.step s u (t + 2)).srExtData = (u t).adbDout
  source : ∀ t ≤ m, (run Shim.step s u (t + 1)).srExtLoad = true →
    (∃ b, t = b + 1 ∧ Strobes s u b ∧ (run Shim.step s u (t + 1)).srExtData = (u b).adbDout) ∨
      (run Shim.step s u t).expires (u t) = true ∧
        (run Shim.step s u (t + 1)).srExtData = lastStrobed s u t

variable {s u} {m t : ℕ}

theorem kbdToMac_run (t : ℕ) : (run Shim.step s u t).kbdToMac = lastStrobed s u t := by
  induction t with
  | zero => rfl
  | succ t ih => rw [run_succ, kbdToMac_step, lastStrobed, ih]

/-- No byte waits while another one is strobed, and one that waits was strobed in the clock
before, in the shift-in direction. -/
theorem waiting_inv (hs : s.kbdToMacFresh = false)
    (hin : ∀ t < m, Strobes s u t → (run Shim.step s u t).shiftDir = false ∧
      (run Shim.step s u t).turnsOut (u t) = false) (ht : t ≤ m)
    (hw : (run Shim.step s u t).kbdToMacFresh = true) :
    (run Shim.step s u t).shiftDir = false ∧
      ∃ b, t = b + 1 ∧ Strobes s u b ∧ (run Shim.step s u t).kbdToMac = (u b).adbDout := by
  induction t with
  | zero => exact absurd (hs.symm.trans hw) Bool.false_ne_true
  | succ t ih =>
    rw [run_succ] at hw ⊢
    cases hr : (u t).reset with
    | true => exact absurd ((fresh_step_reset hr).symm.trans hw) Bool.false_ne_true
    | false =>
      have hfresh : (run Shim.step s u t).delivers (u t) = false ∧
          ((run Shim.step s u t).strobed (u t) || (run Shim.step s u t).kbdToMacFresh) = true := by
        rcases step_cases hr with ⟨-, -, hf⟩ | ⟨hd, -, -, hf⟩ | ⟨hd, -, -, hf⟩
        · exact absurd (hf.symm.trans hw) Bool.false_ne_true
        · exact ⟨hd, hf.symm.trans hw⟩
        · exact ⟨hd, hf.symm.trans hw⟩
      cases hst : (run Shim.step s u t).strobed (u t) with
      | true =>
        obtain ⟨hdir, hout⟩ := hin t (by omega) hst
        exact ⟨shiftDir_step hdir hout, t, rfl, hst, by rw [kbdToMac_step, hst, if_pos rfl]⟩
      | false =>
        -- a byte that waited before this clock would have been taken in it
        have hold := hfresh.2
        rw [hst, Bool.false_or] at hold
        have hdir := (ih (by omega) hold).1
        have htaken := hfresh.1
        rw [Shim.delivers, hr, hdir, hold] at htaken
        exact absurd htaken (by decide)

/-- A clock that takes no byte. -/
theorem waiting_step {q q' : List Byte} (hw : (run Shim.step s u t).kbdToMacFresh = false)
    (hold : q = q')
    (hf : ((run Shim.step s u t).step (u t)).kbdToMacFresh =
      ((run Shim.step s u t).strobed (u t) || (run Shim.step s u t).kbdToMacFresh)) :
    q ++ (run Shim.step s u (t + 1)).waiting =
      if (run Shim.step s u t).strobed (u t) then q' ++ [(u t).adbDout] else q' := by
  rw [run_succ, Shim.waiting, hf, hw, Bool.or_false, hold, kbdToMac_step]
  split_ifs
  · rfl
  · exact List.append_nil _

section Inward

variable (hs : s.kbdToMacFresh = false)
  (hin : ∀ t < m, Strobes s u t → (run Shim.step s u t).shiftDir = false ∧
    (run Shim.step s u t).turnsOut (u t) = false)
include hs hin

/-- A byte that waits is taken. -/
theorem delivers_of_waiting (ht : t ≤ m) (hr : (u t).reset = false)
    (hw : (run Shim.step s u t).kbdToMacFresh = true) :
    (run Shim.step s u t).delivers (u t) = true := by
  rw [Shim.delivers, hr, (waiting_inv hs hin ht hw).1, hw]
  rfl

theorem not_strobed_of_waiting (ht : t ≤ m) (hw : (run Shim.step s u t).kbdToMacFresh = true) :
    (run Shim.step s u t).strobed (u t) = false := by
  obtain ⟨-, b, rfl, hb, -⟩ := waiting_inv hs hin ht hw
  exact not_strobed_step hb

theorem not_waiting (ht : t ≤ m) (hr : (u t).reset = false)
    (hd : (run Shim.step s u t).delivers (u t) = false) :
    (run Shim.step s u t).kbdToMacFresh = false := by
  by_contra hw
  have htaken := delivers_of_waiting hs hin ht hr (eq_true_of_ne_false hw)
  exact absurd (hd.symm.trans htaken) Bool.false_ne_true

theorem once_of_inward (ht : t ≤ m) :
    loadedBytes s u t ++ (run Shim.step s u t).waiting = strobedBytes s u t := by
  induction t with
  | zero =>
    change [] ++ s.waiting = []
    rw [Shim.waiting, hs]
    rfl
  | succ t ih =>
    have hold := ih (by omega)
    cases hr : (u t).reset with
    | true =>
      rw [loadedBytes, strobedBytes, hr, if_pos rfl, if_pos rfl, run_succ, Shim.waiting,
        fresh_step_reset hr]
      rfl
    | false =>
      rw [loadedBytes, strobedBytes, hr, if_neg Bool.false_ne_true, if_neg Bool.false_ne_true]
      rcases step_cases hr with ⟨hd, ⟨hl, -, hdata⟩, hf⟩ | ⟨hd, hx, hl, hf⟩ | ⟨hd, hx, hl, hf⟩
      · have hw : (run Shim.step s u t).kbdToMacFresh = true := by
          rw [Shim.delivers, Bool.and_eq_true] at hd
          exact hd.2
        rw [Shim.waiting, hw, if_pos rfl] at hold
        rw [not_strobed_of_waiting hs hin (by omega) hw, if_neg Bool.false_ne_true, run_succ, hl,
          not_expires_of_fresh hw, hdata, Shim.waiting, hf, if_neg Bool.false_ne_true,
          List.append_nil, ← hold]
        rfl
      · have hw := not_waiting hs hin (by omega) hr hd
        rw [Shim.waiting, hw, if_neg Bool.false_ne_true, List.append_nil] at hold
        rw [hx, Bool.not_true, Bool.and_false, if_neg Bool.false_ne_true]
        exact waiting_step hw hold hf
      · have hw := not_waiting hs hin (by omega) hr hd
        rw [Shim.waiting, hw, if_neg Bool.false_ne_true, List.append_nil] at hold
        rw [run_succ, hl, Bool.false_and, if_neg Bool.false_ne_true]
        exact waiting_step hw hold hf

/-- A strobed byte waits in the next clock. -/
theorem waiting_of_strobe (ht : t < m) (hst : Strobes s u t) :
    (run Shim.step s u (t + 1)).kbdToMacFresh = true ∧
      (run Shim.step s u (t + 1)).kbdToMac = (u t).adbDout := by
  have hstrobed : (run Shim.step s u t).strobed (u t) = true := hst
  have hr : (u t).reset = false := by
    rw [Shim.strobed, Bool.and_eq_true, Bool.and_eq_true, Bool.not_eq_true'] at hstrobed
    exact hstrobed.1.1
  refine ⟨?_, by rw [run_succ, kbdToMac_step, hstrobed, if_pos rfl]⟩
  rw [run_succ]
  rcases step_cases hr with ⟨hd, -, -⟩ | ⟨-, -, -, hf⟩ | ⟨-, -, -, hf⟩
  · have hw : (run Shim.step s u t).kbdToMacFresh = true := by
      rw [Shim.delivers, Bool.and_eq_true] at hd
      exact hd.2
    have hno := not_strobed_of_waiting hs hin ht.le hw
    exact absurd (hno.symm.trans hstrobed) Bool.false_ne_true
  · rw [hf, hstrobed, Bool.true_or]
  · rw [hf, hstrobed, Bool.true_or]

/-- Bytes strobed in the shift-in direction are loaded once and in order. -/
theorem shiftsIn_of_inward : ShiftsIn s u m := by
  refine ⟨fun t => once_of_inward hs hin, fun t ht hst hr => ?_, fun t ht hload => ?_⟩
  · obtain ⟨hw, hbyte⟩ := waiting_of_strobe hs hin ht hst
    have hd := delivers_of_waiting hs hin (by omega) hr hw
    rw [← hbyte, run_succ _ _ _ (t + 1)]
    rcases step_cases hr with ⟨-, hl, -⟩ | ⟨hno, -⟩ | ⟨hno, -⟩
    · exact hl
    · exact absurd (hno.symm.trans hd) Bool.false_ne_true
    · exact absurd (hno.symm.trans hd) Bool.false_ne_true
  · rw [run_succ] at hload ⊢
    cases hr : (u t).reset with
    | true => exact absurd ((load_step_reset hr).symm.trans hload) Bool.false_ne_true
    | false =>
      rcases step_cases hr with ⟨hd, hl, -⟩ | ⟨-, hx, hl, -⟩ | ⟨-, -, hl, -⟩
      · rw [Shim.delivers, Bool.and_eq_true] at hd
        obtain ⟨-, b, hb, hst, hbyte⟩ := waiting_inv hs hin ht hd.2
        exact .inl ⟨b, hb, hst, hl.2.2.trans hbyte⟩
      · exact .inr ⟨hx, hl.2.2.trans (kbdToMac_run t)⟩
      · exact absurd (hl.symm.trans hload) Bool.false_ne_true

end Inward

/-- A shift-in is armed. -/
def Shim.Armed (s : Shim) : Prop := s.shiftDir = false ∧ 0 < s.shiftTimer

/-- The bytes strobed while a shift-in is armed are loaded, each by a completion of its own and in
order, and every completion loads a byte strobed after its shift-in was armed. -/
structure Exact (s : Shim) (u : ℕ → Wires) : Prop where
  once : ∃ f : ℕ → ℕ,
    (∀ t, Strobes s u t → (run Shim.step s u t).Armed →
      t < f t ∧ (run Shim.step s u (f t + 1)).srExtLoad = true ∧
        (run Shim.step s u (f t + 1)).srExtData = (u t).adbDout) ∧
    ∀ t t', Strobes s u t → Strobes s u t' → (run Shim.step s u t).Armed →
      (run Shim.step s u t').Armed → t < t' → f t < f t'
  recent : ∀ c, (run Shim.step s u (c + 1)).srExtLoad = true →
    ∃ b < c, Strobes s u b ∧ (run Shim.step s u (c + 1)).srExtData = (u b).adbDout ∧
      ∀ a, b < a → a < c → (run Shim.step s u a).turnsIn (u a) = false

/-- No access and no byte. -/
def quiet : Wires := ⟨false, false, false, 0, 0, false, 0, false, false⟩

/-- The timer of an armed shift-in counts. -/
theorem step_quiet {k : ℕ} (hd : s.shiftDir = false) (hf : s.kbdToMacFresh = false)
    (ht : s.shiftTimer = k + 2) :
    (s.step quiet).shiftDir = false ∧ (s.step quiet).kbdToMacFresh = false ∧
      (s.step quiet).shiftTimer = k + 1 := by
  have hacc : s.accessed quiet = { s with
      srExtComplete := false, srExtLoad := false, srOutPending := s.srOutPending && !s.srOutAck
      shiftTimer := k + 1 } := by
    simp [accessed, latchFresh, acrWrite, srRead, srWrite, countdown, quiet, Wires.acrWr,
      Wires.srRd, Wires.srWr, ht]
  have hne : s.shiftTimer ≠ 1 := by omega
  rw [step_eq rfl, completion, hd, if_neg Bool.false_ne_true, hf, if_neg Bool.false_ne_true,
    if_neg hne, hacc, keyboardControl, if_neg (by decide)]
  split_ifs <;> exact ⟨hd, hf, rfl⟩

theorem run_quiet {n k : ℕ} (hu : ∀ j, u (t + j) = quiet)
    (hd : (run Shim.step s u t).shiftDir = false)
    (hf : (run Shim.step s u t).kbdToMacFresh = false)
    (ht : (run Shim.step s u t).shiftTimer = n + 1) (hk : k ≤ n) :
    (run Shim.step s u (t + k)).shiftDir = false ∧
      (run Shim.step s u (t + k)).kbdToMacFresh = false ∧
      (run Shim.step s u (t + k)).shiftTimer = n + 1 - k := by
  induction k with
  | zero => exact ⟨hd, hf, ht⟩
  | succ k ih =>
    obtain ⟨h1, h2, h3⟩ := ih (by omega)
    rw [← Nat.add_assoc, run_succ, hu k]
    have hq := step_quiet (k := n - 1 - k) h1 h2 (by omega)
    exact ⟨hq.1, hq.2.1, hq.2.2.trans (by omega)⟩

end Run

/-- A shim just after a reset, two clocks before the next `clk8_en_p`. -/
def cleared : Shim where
  slots := ⟨2, 0, 0, false⟩
  acrShiftMode := 0
  srShadow := 0
  shiftTimer := 0
  shiftDir := false
  srExtComplete := false
  srExtLoad := false
  srExtData := 0
  srOutPending := false
  srOutAck := false
  kbdToMacFresh := false
  kbdToMac := 0
  adbDinStrobe := false
  adbDin := 0

/-- The ACR is set to shift in, a byte is strobed, and the CPU reads it. -/
def poll : ℕ → Wires
  | 0 => { quiet with viaWr := true, addr := 0xB, data := 0x0C }
  | 1 => { quiet with adbDoutStrobe := true, adbDout := 0x55 }
  | 3 => { quiet with viaRd := true, addr := 0xA }
  | _ => quiet

theorem poll_strobe {b : ℕ} (h : (poll b).adbDoutStrobe = true) : b = 1 := by
  rcases b with _ | _ | _ | _ | b
  · exact absurd h Bool.false_ne_true
  · rfl
  · exact absurd h Bool.false_ne_true
  · exact absurd h Bool.false_ne_true
  · exact absurd h Bool.false_ne_true

/-- The byte of such a poll is loaded once; what the timer does later is its own. -/
theorem shiftsIn_poll : ShiftsIn cleared poll 400000 :=
  shiftsIn_of_inward rfl fun t _ hst => by
    rw [Strobes, Shim.strobed, Bool.and_eq_true] at hst
    rw [poll_strobe hst.2]
    exact ⟨by decide, by decide⟩

/-- The shift-in that the read armed is completed by the timer, with the byte of the one before. -/
theorem not_exact : ¬ Exact cleared poll := by
  intro h
  have hu : ∀ j, poll (4 + j) = quiet := fun j => by
    rw [Nat.add_comm]
    rfl
  obtain ⟨hd, hf, ht⟩ := run_quiet (n := 357499) hu (s := cleared) rfl rfl (by decide) le_rfl
  have hload : (run Shim.step cleared poll (4 + 357499 + 1)).srExtLoad = true := by
    rw [run_succ]
    have hr : (poll (4 + 357499)).reset = false := by rw [hu]; rfl
    rcases Shim.step_cases hr with ⟨hno, -⟩ | ⟨-, -, hl, -⟩ | ⟨-, hno, -⟩
    · rw [Shim.delivers, hf, Bool.and_false] at hno
      exact absurd hno Bool.false_ne_true
    · exact hl.1
    · rw [Shim.expires, hd, hf, ht, hu] at hno
      exact absurd hno (by decide)
  obtain ⟨b, hb, hst, -, harm⟩ := h.recent _ hload
  have hb1 : b = 1 := by
    rw [Strobes, Shim.strobed, Bool.and_eq_true] at hst
    exact poll_strobe hst.2
  have hread := harm 3 (by omega) (by omega)
  exact absurd hread (by decide)

end Adb
