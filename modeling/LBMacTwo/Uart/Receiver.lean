import LBMacTwo.Uart.Transmitter

/-!
# The receiver `rxuart.v`

One definition per register. `Hears s d i c` holds in a frame of which `i` bits are sampled, `c`
clocks before the next sample: the first half of the start bit is passed in `IDLE`, and the samples
come a bit apart from then on.

* `Setup.Tolerates`: the bit times that keep every sample in its bit;
* `Rx.receives`: a receiver whose line carries frames strobes once for each, with its data bits.
-/

namespace Uart
open Clocked

/-- The states `RXU_BIT_ZERO` to `RXU_BIT_SEVEN`, and the others. -/
inductive RxState
  | bit (k : ℕ)
  | parity
  | stop
  | secondStop
  | brk
  | resetIdle
  | idle
  deriving DecidableEq

structure Rx where
  qUart : Bool
  qqUart : Bool
  ckUart : Bool
  chgCounter : ℕ
  oBreak : Bool
  lineSynch : Bool
  halfBaudTime : Bool
  rSetup : Setup
  state : RxState
  dataReg : Byte
  calcParity : Bool
  oParityErr : Bool
  oFrameErr : Bool
  preWr : Bool
  oData : Byte
  oWr : Bool
  baudCounter : ℕ
  zeroBaudCounter : Bool

structure RxIn where
  reset : Bool
  setup : Setup
  uartRx : Bool

namespace RxState

/-- `state >= RXU_RESET_IDLE`. -/
def betweenBytes : RxState → Bool
  | .resetIdle | .idle => true
  | _ => false

/-- `state >= RXU_BREAK`. -/
def outOfFrame : RxState → Bool
  | .brk | .resetIdle | .idle => true
  | _ => false

end RxState

/-- `half_baud`, of 28 bits. -/
def Setup.halfBaud (s : Setup) : ℕ := (s.clocksPerBaud / 2 + 2 ^ 28 - 1) % 2 ^ 28

namespace Rx

variable (y : Rx) (i : RxIn)

def chgCounterNext : ℕ :=
  if i.reset then 0
  else if y.qqUart != y.ckUart then 0
  else if y.chgCounter < y.rSetup.breakCondition then y.chgCounter + 1 else y.chgCounter

def atBreakCondition : Bool := decide (y.rSetup.breakCondition ≤ y.chgCounter)

/-- A framing error sends the receiver to `RESET_IDLE`, where it waits for an idle line. -/
def stateNext : RxState :=
  if i.reset then .resetIdle
  else if y.state = .resetIdle then if y.lineSynch then .idle else .resetIdle
  else if y.oBreak then .brk
  else if y.state = .brk then if y.ckUart then .idle else .brk
  else if y.state = .idle then
    if !y.ckUart && y.halfBaudTime then .bit y.rSetup.dataBits else .idle
  else if y.zeroBaudCounter then
    match y.state with
    | .bit k => if k < 7 then .bit (k + 1) else if y.rSetup.useParity then .parity else .stop
    | .parity => .stop
    | .stop =>
      if !y.ckUart then .resetIdle else if y.rSetup.dblstop then .secondStop else .idle
    | _ => if !y.ckUart then .resetIdle else .idle
  else y.state

/-- `{ ck_uart, data_reg[7:1] }` -/
def dataRegNext : Byte :=
  if y.zeroBaudCounter && y.state != .parity then
    BitVec.cons y.ckUart (y.dataReg.extractLsb' 1 7) else y.dataReg

def calcParityNext : Bool :=
  if y.state = .idle then false
  else if y.zeroBaudCounter then y.calcParity ^^ y.ckUart else y.calcParity

def oParityErrNext : Bool :=
  if y.zeroBaudCounter && y.state == .parity then
    if y.rSetup.fixdParity then y.ckUart ^^ y.rSetup.parity
    else if y.rSetup.parity then y.calcParity != y.ckUart else y.calcParity == y.ckUart
  else if y.state.outOfFrame then false else y.oParityErr

def oFrameErrNext : Bool :=
  if y.zeroBaudCounter && (y.state == .stop || y.state == .secondStop) then
    y.oFrameErr || !y.ckUart
  else if y.zeroBaudCounter || y.state.outOfFrame then false else y.oFrameErr

def preWrNext : Bool :=
  if i.reset then false
  else if y.zeroBaudCounter && y.state == .stop then true
  else if y.zeroBaudCounter || y.state == .idle then false else y.preWr

def oDataNext : Byte :=
  if i.reset then 0
  else if y.zeroBaudCounter && y.state == .stop then y.dataReg >>> y.rSetup.dataBits.val
  else y.oData

def oWrNext : Bool :=
  if y.zeroBaudCounter || y.state == .idle then y.preWr && !i.reset else false

/-- The counter has 28 bits. -/
def baudCounterNext : ℕ :=
  if i.reset || y.zeroBaudCounter || y.state.outOfFrame then
    (y.rSetup.clocksPerBaud + 2 ^ 28 - 1) % 2 ^ 28
  else (y.baudCounter + 2 ^ 28 - 1) % 2 ^ 28

def step : Rx where
  qUart := i.uartRx
  qqUart := y.qUart
  ckUart := y.qqUart
  chgCounter := y.chgCounterNext i
  oBreak := y.atBreakCondition && !y.ckUart
  lineSynch := y.atBreakCondition && y.ckUart
  halfBaudTime := !y.ckUart && decide (y.rSetup.halfBaud ≤ y.chgCounter)
  rSetup := if y.state.betweenBytes then i.setup else y.rSetup
  state := y.stateNext i
  dataReg := y.dataRegNext
  calcParity := y.calcParityNext
  oParityErr := y.oParityErrNext
  oFrameErr := y.oFrameErrNext
  preWr := y.preWrNext i
  oData := y.oDataNext i
  oWr := y.oWrNext i
  baudCounter := y.baudCounterNext i
  zeroBaudCounter := y.state != .idle && y.baudCounter == 1

end Rx

/-- The receiver as it powers up. -/
def Rx.init : Rx where
  qUart := false
  qqUart := false
  ckUart := false
  chgCounter := 0
  oBreak := false
  lineSynch := false
  halfBaudTime := false
  rSetup := .initial
  state := .resetIdle
  dataReg := 0
  calcParity := false
  oParityErr := false
  oFrameErr := false
  preWr := false
  oData := 0
  oWr := false
  baudCounter := 0
  zeroBaudCounter := false

/-- The receiver after `t` clocks. -/
abbrev Rx.run (y : Rx) (u : ℕ → RxIn) (t : ℕ) : Rx := Clocked.run Rx.step y u t

variable {s : Setup} {d : Byte} {y : Rx} {i : RxIn} {j c b : ℕ}

/-! ### Setups and bit times -/

namespace Setup

/-- The data bits of a byte, the rest cleared. -/
def clip (s : Setup) (d : Byte) : Byte := d <<< s.dataBits.val >>> s.dataBits.val

/-- Samples that start half a bit into the start bit and come `clocksPerBaud` clocks apart fall in
their bits when these last `b` clocks, and the strobe comes before the frame is over. -/
structure Tolerates (s : Setup) (b : ℕ) : Prop where
  clocks : 3 ≤ s.clocksPerBaud
  early : (s.length - 1) * b ≤ s.clocksPerBaud / 2 + (s.length - 1) * s.clocksPerBaud
  late : s.clocksPerBaud / 2 + (s.length - 1) * s.clocksPerBaud + 2 ≤ s.length * b

/-- The clocks from the first clock of a frame to its strobe. -/
def delay (s : Setup) : ℕ :=
  s.clocksPerBaud / 2 + (s.length - 1) * s.clocksPerBaud + if s.dblstop then 1 else 2

theorem tolerates_self (h : 3 ≤ s.clocksPerBaud) : s.Tolerates s.clocksPerBaud := by
  have hlen := s.le_length
  have hmul : (s.length - 1) * s.clocksPerBaud + s.clocksPerBaud = s.length * s.clocksPerBaud := by
    rw [← Nat.succ_mul, show (s.length - 1).succ = s.length by omega]
  exact ⟨h, by omega, by omega⟩

/-- The sample that is due `j` bits after the first half of the start bit falls in bit `j`. -/
theorem Tolerates.sample (h : s.Tolerates b) (hj : j < s.length) :
    (s.clocksPerBaud / 2 + j * s.clocksPerBaud) / b = j := by
  obtain ⟨m, hm⟩ := Nat.exists_eq_add_of_le (show j ≤ s.length - 1 by omega)
  have hsplit : ∀ x, (s.length - 1) * x = j * x + m * x := fun x => by rw [hm, Nat.add_mul]
  have hlen : s.length * b = j * b + m * b + b := by
    rw [← hsplit, ← Nat.succ_mul, show (s.length - 1).succ = s.length by omega]
  have hclocks := h.clocks
  have hearly := h.early
  have hlate := h.late
  rw [hsplit, hsplit] at hearly
  rw [hsplit, hlen] at hlate
  refine Nat.div_eq_of_lt_le ?_ ?_
  · rcases Nat.le_total b s.clocksPerBaud with hle | hle
    · have := Nat.mul_le_mul_left j hle
      omega
    · have := Nat.mul_le_mul_left m hle
      omega
  · rw [Nat.succ_mul]
    rcases Nat.le_total b s.clocksPerBaud with hle | hle
    · have := Nat.mul_le_mul_left m hle
      omega
    · have := Nat.mul_le_mul_left j hle
      omega

theorem Tolerates.delay_le (h : s.Tolerates b) : s.delay ≤ s.length * b := by
  have := h.late
  rw [delay]
  split_ifs <;> omega

theorem halfBaud_eq (h : 3 ≤ s.clocksPerBaud) : s.halfBaud = s.clocksPerBaud / 2 - 1 := by
  have := s.clocksPerBaud_lt
  rw [halfBaud]
  omega

end Setup

/-! ### Between frames -/

/-- The receiver waits for a start bit. -/
structure Rx.Ready (s : Setup) (y : Rx) : Prop where
  state : y.state = .idle
  setup : y.rSetup = s
  noBreak : y.oBreak = false
  half : y.halfBaudTime = false
  preWr : y.preWr = false
  chg : y.ckUart = false → y.chgCounter = 0

/-- The receiver is in clock `k` of a start bit. -/
structure Starts (s : Setup) (k : ℕ) (y : Rx) : Prop where
  state : y.state = .idle
  setup : y.rSetup = s
  noBreak : y.oBreak = false
  half : y.halfBaudTime = decide (s.clocksPerBaud / 2 ≤ k)
  preWr : y.preWr = false
  chg : y.chgCounter = k

theorem Rx.idle_step (hst : y.state = .idle) (hbrk : y.oBreak = false) (hi : i.reset = false)
    (hs : i.setup = s) (hck : y.ckUart = true) :
    (y.step i).Ready s ∧ (y.step i).oWr = y.preWr ∧ (y.step i).oData = y.oData := by
  refine ⟨⟨?_, ?_, ?_, ?_, ?_, fun hq => ?_⟩, ?_, ?_⟩
  · simp [Rx.step, Rx.stateNext, hi, hst, hbrk, hck]
  · simp [Rx.step, hst, RxState.betweenBytes, hs]
  · simp [Rx.step, hck]
  · simp [Rx.step, hck]
  · simp [Rx.step, Rx.preWrNext, hi, hst]
  · have hqq : y.qqUart = false := hq
    simp [Rx.step, Rx.chgCounterNext, hi, hqq, hck]
  · simp [Rx.step, Rx.oWrNext, hi, hst]
  · simp [Rx.step, Rx.oDataNext, hi, hst]

theorem Rx.Ready.starts (h : y.Ready s) (hck : y.ckUart = false) (hb : 3 ≤ s.clocksPerBaud) :
    Starts s 0 y :=
  ⟨h.state, h.setup, h.noBreak, h.half.trans (decide_eq_false (by omega)).symm, h.preWr, h.chg hck⟩

theorem Starts.step {k : ℕ} (h : Starts s k y) (hi : i.reset = false) (hs : i.setup = s)
    (hck : y.ckUart = false) (hqq : y.qqUart = false) (hb : 3 ≤ s.clocksPerBaud)
    (hk : k < s.clocksPerBaud / 2) : Starts s (k + 1) (y.step i) ∧ (y.step i).oWr = false := by
  have hbreak : k < s.breakCondition := by
    rw [Setup.clocksPerBaud] at hb hk
    rw [Setup.breakCondition]
    omega
  refine ⟨⟨?_, ?_, ?_, ?_, ?_, ?_⟩, ?_⟩
  · simp [Rx.step, Rx.stateNext, hi, h.state, h.noBreak, h.half, hk]
  · simp [Rx.step, h.state, RxState.betweenBytes, hs]
  · simp [Rx.step, Rx.atBreakCondition, h.setup, h.chg, hbreak]
  · have hhalf := Setup.halfBaud_eq hb
    simp only [Rx.step, hck, h.setup, h.chg, hhalf, Bool.not_false, Bool.true_and, decide_eq_decide]
    omega
  · simp [Rx.step, Rx.preWrNext, hi, h.state]
  · simp [Rx.step, Rx.chgCounterNext, hi, hqq, hck, h.setup, h.chg, hbreak]
  · simp [Rx.step, Rx.oWrNext, h.preWr]

/-! ### Within a frame -/

/-- The state of the receiver after `j` samples. -/
def Setup.rxState (s : Setup) (j : ℕ) : RxState :=
  if j < s.width then .bit (s.dataBits + j)
  else if j < s.width + s.useParity.toNat then .parity
  else if j = s.width + s.useParity.toNat then .stop else .secondStop

/-- The receiver has sampled `j` bits of the frame of `d` and takes the next sample in `c` clocks. -/
structure Hears (s : Setup) (d : Byte) (j c : ℕ) (y : Rx) : Prop where
  state : y.state = s.rxState j
  setup : y.rSetup = s
  noBreak : y.oBreak = false
  chg : y.chgCounter + c ≤ s.clocksPerBaud / 2 + (j + 1) * s.clocksPerBaud
  data : ∀ k < min j s.width, j ≤ s.width + s.useParity.toNat →
    y.dataReg.getLsbD (8 - min j s.width + k) = d.getLsbD k
  parity : j ≤ s.width → y.calcParity = (s.parityOf d j ^^ s.parity)
  preWr : y.preWr = decide (s.width + s.useParity.toNat < j)
  oData : s.width + s.useParity.toNat < j → y.oData = s.clip d
  frameErr : y.oFrameErr = false
  count : y.baudCounter = c
  bound : c < s.clocksPerBaud
  zero : y.zeroBaudCounter = decide (c = 0)

theorem Rx.chgCounterNext_le : y.chgCounterNext i ≤ y.chgCounter + 1 := by
  rw [Rx.chgCounterNext]
  split_ifs <;> omega

/-- No start bit and no data are long enough for a break. -/
theorem Setup.lt_breakCondition (hb : 0 < s.clocksPerBaud) (hj : j + 1 < s.length) {n : ℕ}
    (hn : n ≤ s.clocksPerBaud / 2 + (j + 1) * s.clocksPerBaud) : n < s.breakCondition := by
  have hlen := s.length_le
  have hmul := Nat.mul_le_mul_right s.clocksPerBaud (show j + 1 ≤ 11 by omega)
  rw [Setup.breakCondition, ← Setup.clocksPerBaud]
  omega

theorem Starts.hears {k : ℕ} (h : Starts s k y) (hi : i.reset = false) (hs : i.setup = s)
    (hck : y.ckUart = false) (hb : 3 ≤ s.clocksPerBaud) (hk : k = s.clocksPerBaud / 2) :
    Hears s d 0 (s.clocksPerBaud - 1) (y.step i) ∧ (y.step i).oWr = false := by
  have hwidth := s.le_width
  have hlt := s.clocksPerBaud_lt
  have hbreak : k < s.breakCondition := by
    rw [Setup.clocksPerBaud] at hb hk
    rw [Setup.breakCondition]
    omega
  have hchg := y.chgCounterNext_le (i := i)
  rw [h.chg] at hchg
  refine ⟨⟨?_, ?_, ?_, ?_, fun k hk => ?_, fun _ => ?_, ?_, fun hj => ?_, ?_, ?_, ?_, ?_⟩, ?_⟩
  · simp [Rx.step, Rx.stateNext, hi, h.state, h.noBreak, h.half, hck, hk, h.setup, Setup.rxState,
      show 0 < s.width by omega]
  · simp [Rx.step, h.state, RxState.betweenBytes, hs]
  · simp [Rx.step, Rx.atBreakCondition, h.setup, h.chg, hbreak]
  · change y.chgCounterNext i + _ ≤ _
    omega
  · rw [Nat.zero_min] at hk
    exact absurd hk (Nat.not_lt_zero _)
  · simp [Rx.step, Rx.calcParityNext, h.state, Setup.parityOf]
  · simp [Rx.step, Rx.preWrNext, hi, h.state]
  · exact absurd hj (Nat.not_lt_zero _)
  · simp [Rx.step, Rx.oFrameErrNext, h.state, RxState.outOfFrame]
  · simp only [Rx.step, Rx.baudCounterNext, h.state, RxState.outOfFrame, Bool.or_true, if_true,
      h.setup]
    omega
  · omega
  · rw [decide_eq_false (by omega)]
    simp [Rx.step, h.state]
  · simp [Rx.step, Rx.oWrNext, h.preWr]

theorem Setup.rxState_inFrame (s : Setup) (j : ℕ) : s.rxState j ≠ .idle ∧ s.rxState j ≠ .brk ∧
    s.rxState j ≠ .resetIdle := by
  rw [rxState]
  split_ifs <;> simp

theorem Setup.rxState_eq_stop (s : Setup) :
    s.rxState j = .stop ↔ j = s.width + s.useParity.toNat := by
  rw [rxState]
  split_ifs <;> simp <;> omega

theorem Setup.rxState_eq_parity (s : Setup) :
    s.rxState j = .parity ↔ s.width ≤ j ∧ j < s.width + s.useParity.toNat := by
  rw [rxState]
  split_ifs <;> simp <;> omega

theorem Setup.rxState_betweenBytes (s : Setup) (j : ℕ) : (s.rxState j).betweenBytes = false := by
  rw [rxState]
  split_ifs <;> rfl

theorem Setup.rxState_outOfFrame (s : Setup) (j : ℕ) : (s.rxState j).outOfFrame = false := by
  rw [rxState]
  split_ifs <;> rfl

/-- The states from the one after `j` samples to the one after the next. -/
theorem Setup.rxState_cases (s : Setup) (hj : j + 2 < s.length) :
    (j + 1 < s.width ∧ s.rxState j = .bit (s.dataBits + j) ∧
      s.rxState (j + 1) = .bit (s.dataBits + j + 1)) ∨
    (j + 1 = s.width ∧ s.rxState j = .bit 7 ∧
      s.rxState (j + 1) = if s.useParity then .parity else .stop) ∨
    (j = s.width ∧ s.useParity = true ∧ s.rxState j = .parity ∧ s.rxState (j + 1) = .stop) ∨
    (j = s.width + s.useParity.toNat ∧ s.dblstop = true ∧ s.rxState j = .stop ∧
      s.rxState (j + 1) = .secondStop) := by
  have h1 := s.dataBits_add_width
  rw [length] at hj
  by_cases h2 : j + 1 < s.width
  · left
    simp [rxState, h2, show j < s.width by omega, Nat.add_assoc]
  right
  by_cases h3 : j + 1 = s.width
  · left
    cases hp : s.useParity <;> simp [rxState, h3, hp, show j < s.width by omega] <;> omega
  right
  obtain ⟨e, rfl⟩ := Nat.exists_eq_add_of_le (show s.width ≤ j by omega)
  cases hp : s.useParity <;> cases hs : s.dblstop <;> rw [hp, hs] at hj <;>
    simp only [Bool.toNat_false, Bool.toNat_true] at hj <;>
    rcases e with _ | _ | e <;>
    first
    | omega
    | simp [rxState, hp, Nat.add_assoc]

namespace Hears

theorem preWr_eq (h : Hears s d j c y) (hj : j + 2 < s.length) : y.preWr = false := by
  have := s.dblstop.toNat_le
  rw [Setup.length] at hj
  rw [h.preWr, decide_eq_false_iff_not]
  omega

theorem noBreak_step (h : Hears s d j c y) (hj : j + 1 < s.length) (hb : 0 < s.clocksPerBaud) :
    (y.step i).oBreak = false := by
  have hlt := s.lt_breakCondition hb hj (n := y.chgCounter) (by
    have := h.chg
    omega)
  simp [Rx.step, Rx.atBreakCondition, h.setup, hlt]

theorem wait (h : Hears s d j (c + 1) y) (hi : i.reset = false) (hj : j + 1 < s.length) :
    Hears s d j c (y.step i) ∧ (y.step i).oWr = false := by
  have hz : y.zeroBaudCounter = false := by
    rw [h.zero]
    simp
  obtain ⟨h1, h2, h3⟩ := s.rxState_inFrame j
  have hlt := s.clocksPerBaud_lt
  have hbound := h.bound
  have hchg := y.chgCounterNext_le (i := i)
  have hle := h.chg
  refine ⟨⟨?_, ?_, ?_, ?_, ?_, ?_, ?_, ?_, ?_, ?_, ?_, ?_⟩, ?_⟩
  · simp [Rx.step, Rx.stateNext, hi, h.state, h1, h2, h3, h.noBreak, hz]
  · simp [Rx.step, h.state, s.rxState_betweenBytes, h.setup]
  · exact h.noBreak_step hj (by omega)
  · change y.chgCounterNext i + _ ≤ _
    omega
  · simpa [Rx.step, Rx.dataRegNext, hz] using h.data
  · simpa [Rx.step, Rx.calcParityNext, hz, h.state, h1] using h.parity
  · simpa [Rx.step, Rx.preWrNext, hi, hz, h.state, h1] using h.preWr
  · simpa [Rx.step, Rx.oDataNext, hi, hz] using h.oData
  · simpa [Rx.step, Rx.oFrameErrNext, hz, h.state, s.rxState_outOfFrame] using h.frameErr
  · simp only [Rx.step, Rx.baudCounterNext, hi, hz, h.state, s.rxState_outOfFrame, h.count,
      Bool.or_self, Bool.false_eq_true, if_false]
    omega
  · omega
  · rw [Bool.eq_iff_iff]
    simp [Rx.step, h.state, h1, h.count]
  · simp [Rx.step, Rx.oWrNext, hz, h.state, h1]

theorem data_next (h : Hears s d j 0 y) (hck : y.ckUart = s.lineBit d (j + 1)) :
    ∀ k < min (j + 1) s.width, j + 1 ≤ s.width + s.useParity.toNat →
      (y.step i).dataReg.getLsbD (8 - min (j + 1) s.width + k) = d.getLsbD k := by
  intro k hk hle
  change y.dataRegNext.getLsbD _ = _
  have hz : y.zeroBaudCounter = true := h.zero
  have h8 := s.width_le
  have hdata := h.data
  rw [Rx.dataRegNext, hz, h.state]
  rcases Nat.lt_or_ge j s.width with hj | hj
  · have hst : s.rxState j ≠ .parity := fun hp => by
      have := (s.rxState_eq_parity.mp hp).1
      omega
    rw [if_pos (by simp [hst]), Nat.min_eq_left hj] at *
    rw [BitVec.getLsbD_cons]
    split_ifs with h7
    · rw [hck, s.lineBit_data d hj, show k = j by omega]
    · rw [BitVec.getLsbD_extractLsb', ← hdata k (by omega) (by omega), Nat.min_eq_left (by omega)]
      simp only [show 8 - (j + 1) + k < 7 by omega, decide_true, Bool.true_and]
      congr 1
      omega
  · have hst : s.rxState j = .parity := s.rxState_eq_parity.mpr ⟨hj, by omega⟩
    rw [if_neg (by simp [hst]), Nat.min_eq_right (by omega)] at *
    exact hdata k (by omega) (by omega)

theorem oData_next (h : Hears s d j 0 y) (hi : i.reset = false)
    (hj : s.width + s.useParity.toNat < j + 1) : (y.step i).oData = s.clip d := by
  change y.oDataNext i = _
  have hz : y.zeroBaudCounter = true := h.zero
  rw [Rx.oDataNext, hi, hz, h.state, h.setup, if_neg Bool.false_ne_true]
  split_ifs with hstop
  · have hst : s.rxState j = .stop := by simpa using hstop
    have hjs := s.rxState_eq_stop.mp hst
    have h8 := s.dataBits_add_width
    have hdata := h.data
    rw [hjs, Nat.min_eq_right (by omega)] at hdata
    refine BitVec.eq_of_getLsbD_eq fun k hk => ?_
    rw [Setup.clip, BitVec.getLsbD_ushiftRight, BitVec.getLsbD_ushiftRight, BitVec.getLsbD_shiftLeft]
    rcases Nat.lt_or_ge (s.dataBits + k) 8 with h9 | h9
    · have hbit := hdata k (by omega) (by omega)
      rw [show 8 - s.width = s.dataBits by omega] at hbit
      rw [hbit]
      simp [h9]
    · rw [BitVec.getLsbD_of_ge _ _ h9]
      simp [show ¬ s.dataBits.val + k < 8 by omega]
  · have hst : s.rxState j ≠ .stop := by simpa using hstop
    rw [Ne, s.rxState_eq_stop] at hst
    exact h.oData (by omega)

/-- A sample is taken. -/
theorem next (h : Hears s d j 0 y) (hi : i.reset = false) (hck : y.ckUart = s.lineBit d (j + 1))
    (hj : j + 2 < s.length) (hb : 3 ≤ s.clocksPerBaud) :
    Hears s d (j + 1) (s.clocksPerBaud - 1) (y.step i) ∧ (y.step i).oWr = false := by
  have hz : y.zeroBaudCounter = true := h.zero
  obtain ⟨h1, h2, h3⟩ := s.rxState_inFrame j
  have hlt := s.clocksPerBaud_lt
  have hchg := y.chgCounterNext_le (i := i)
  have hle := h.chg
  have hpre := h.preWr_eq hj
  refine ⟨⟨?_, ?_, ?_, ?_, ?_, fun hle => ?_, ?_, ?_, ?_, ?_, ?_, ?_⟩, ?_⟩
  · change y.stateNext i = _
    rw [Rx.stateNext, hi, h.state, if_neg Bool.false_ne_true, if_neg h3, h.noBreak,
      if_neg Bool.false_ne_true, if_neg h2, if_neg h1, hz, if_pos rfl, h.setup]
    obtain ⟨hw, e1, e2⟩ | ⟨-, e1, e2⟩ | ⟨-, -, e1, e2⟩ | ⟨hw, hd, e1, e2⟩ := s.rxState_cases hj
    · have := s.dataBits_add_width
      simp [e1, e2, show s.dataBits + j < 7 by omega]
    · simp [e1, e2]
    · simp [e1, e2]
    · simp [e1, e2, hd, hck, s.lineBit_stop d (show s.width + s.useParity.toNat < j + 1 by omega)]
  · simp [Rx.step, h.state, s.rxState_betweenBytes, h.setup]
  · exact h.noBreak_step (by omega) (by omega)
  · change y.chgCounterNext i + _ ≤ _
    rw [Nat.succ_mul]
    omega
  · exact h.data_next hck
  · change y.calcParityNext = _
    rw [Rx.calcParityNext, h.state, if_neg h1, hz, if_pos rfl, hck, h.parity (by omega),
      s.lineBit_data d (by omega), Setup.parityOf, Bool.xor_right_comm]
  · change y.preWrNext i = _
    rw [Rx.preWrNext, hi, hz, h.state, hpre, Bool.eq_iff_iff]
    have := s.dblstop.toNat_le
    rw [Setup.length] at hj
    simp [s.rxState_eq_stop]
    omega
  · exact fun hlt => h.oData_next hi hlt
  · change y.oFrameErrNext = _
    rcases Nat.lt_or_ge j (s.width + s.useParity.toNat) with hlt | hge
    · have hst : s.rxState j ≠ .stop ∧ s.rxState j ≠ .secondStop := by
        rw [Setup.rxState]
        split_ifs <;> simp
      simp [Rx.oFrameErrNext, hz, h.state, hst]
    · simp [Rx.oFrameErrNext, hz, h.frameErr, hck,
        s.lineBit_stop d (show s.width + s.useParity.toNat < j + 1 by omega)]
  · simp only [Rx.step, Rx.baudCounterNext, hz, Bool.or_true, Bool.true_or, if_true, h.setup]
    omega
  · omega
  · rw [decide_eq_false (by omega)]
    simp [Rx.step, h.count]
  · simp [Rx.step, Rx.oWrNext, hpre]

/-- The two modules read bit 24 of the setup the other way round: the parity of a byte is found wrong
by a receiver of the setup it was sent with. -/
theorem parityErr (h : Hears s d s.width 0 y) (hp : s.useParity = true)
    (hck : y.ckUart = s.lineBit d (s.width + 1)) : (y.step i).oParityErr = !s.fixdParity := by
  have hz : y.zeroBaudCounter = true := h.zero
  have hst : s.rxState s.width = .parity := s.rxState_eq_parity.mpr ⟨le_refl _, by simp [hp]⟩
  change y.oParityErrNext = _
  rw [Rx.oParityErrNext, hz, h.state, hst, h.setup, hck, s.lineBit_parity d hp, Setup.parityBit,
    h.parity (le_refl _)]
  cases s.fixdParity <;> cases s.parity <;> cases s.parityOf d s.width <;> rfl

/-- The last sample is taken: with one stop bit the strobe comes a clock later. -/
theorem done (h : Hears s d j 0 y) (hi : i.reset = false) (hck : y.ckUart = true)
    (hj : j + 2 = s.length) :
    (y.step i).state = .idle ∧ (y.step i).rSetup = s ∧ (y.step i).oBreak = false ∧
      (y.step i).halfBaudTime = false ∧ (y.step i).oData = s.clip d ∧
      (y.step i).preWr = (!s.dblstop) ∧ (y.step i).oWr = s.dblstop ∧
      ((y.step i).ckUart = false → (y.step i).chgCounter = 0) := by
  have hz : y.zeroBaudCounter = true := h.zero
  obtain ⟨h1, h2, h3⟩ := s.rxState_inFrame j
  have hle := s.dblstop.toNat_le
  rw [Setup.length] at hj
  have hpre := h.preWr
  refine ⟨?_, ?_, ?_, ?_, h.oData_next hi (by omega), ?_, ?_, fun hq => ?_⟩
  · change y.stateNext i = _
    rw [Rx.stateNext, hi, h.state, if_neg Bool.false_ne_true, if_neg h3, h.noBreak,
      if_neg Bool.false_ne_true, if_neg h2, if_neg h1, hz, if_pos rfl, h.setup, Setup.rxState]
    cases hd : s.dblstop
    · rw [hd, Bool.toNat_false] at hj
      simp [hck, show j = s.width + s.useParity.toNat by omega]
    · rw [hd, Bool.toNat_true] at hj
      rw [show j = s.width + s.useParity.toNat + 1 by omega, if_neg (by omega), if_neg (by omega),
        if_neg (by omega)]
      simp [hck]
  · simp [Rx.step, h.state, s.rxState_betweenBytes, h.setup]
  · simp [Rx.step, hck]
  · simp [Rx.step, hck]
  · change y.preWrNext i = _
    rw [Rx.preWrNext, hi, hz, h.state, Bool.eq_iff_iff]
    simp [s.rxState_eq_stop]
    cases hd : s.dblstop <;> rw [hd] at hj <;> simp at hj ⊢ <;> omega
  · simp [Rx.step, Rx.oWrNext, hz, hi, hpre]
    cases hd : s.dblstop <;> rw [hd] at hj <;> simp at hj ⊢ <;> omega
  · have hqq : y.qqUart = false := hq
    simp [Rx.step, Rx.chgCounterNext, hi, hqq, hck]

end Hears

/-! ### Runs -/

section Runs

variable {u : ℕ → RxIn} {f : ℕ → Option Byte} {t : ℕ} (hu : ∀ t, (u t).reset = false)
  (hs : ∀ t, (u t).setup = s)
include hu

theorem Hears.run_wait (h : Hears s d j c (y.run u t)) (hw : (y.run u t).oWr = false)
    (hj : j + 1 < s.length) {k : ℕ} (hk : k ≤ c) :
    Hears s d j (c - k) (y.run u (t + k)) ∧ (y.run u (t + k)).oWr = false := by
  induction k with
  | zero => exact ⟨h, hw⟩
  | succ k ih =>
    have ih := (ih (by omega)).1
    rw [show c - k = c - (k + 1) + 1 by omega] at ih
    exact ih.wait (hu _) hj

/-- The clock after sample `j`. -/
theorem Hears.run_first (h : Hears s d 0 (s.clocksPerBaud - 1) (y.run u t))
    (hw : (y.run u t).oWr = false) (hb : 3 ≤ s.clocksPerBaud) (hj : j + 1 < s.length)
    (hck : ∀ i, i < j → (y.run u (t + (i * s.clocksPerBaud + (s.clocksPerBaud - 1)))).ckUart =
      s.lineBit d (i + 1)) :
    Hears s d j (s.clocksPerBaud - 1) (y.run u (t + j * s.clocksPerBaud)) ∧
      (y.run u (t + j * s.clocksPerBaud)).oWr = false := by
  induction j with
  | zero =>
    rw [Nat.zero_mul]
    exact ⟨h, hw⟩
  | succ j ih =>
    obtain ⟨ih, hwr⟩ := ih (by omega) fun i hi => hck i (by omega)
    have hwait := (ih.run_wait hu hwr (by omega) (le_refl _)).1
    rw [Nat.sub_self, Nat.add_assoc] at hwait
    have hnext := hwait.next (i := u (t + (j * s.clocksPerBaud + (s.clocksPerBaud - 1)))) (hu _)
      (hck j (by omega)) (by omega) hb
    rwa [show t + (j + 1) * s.clocksPerBaud =
      t + (j * s.clocksPerBaud + (s.clocksPerBaud - 1)) + 1 by rw [Nat.succ_mul]; omega]

theorem Hears.run (h : Hears s d 0 (s.clocksPerBaud - 1) (y.run u t))
    (hw : (y.run u t).oWr = false) (hb : 3 ≤ s.clocksPerBaud)
    (hck : ∀ i, i + 1 < s.length →
      (y.run u (t + (i * s.clocksPerBaud + (s.clocksPerBaud - 1)))).ckUart = s.lineBit d (i + 1))
    {m : ℕ} (hm : m < (s.length - 1) * s.clocksPerBaud) :
    Hears s d (m / s.clocksPerBaud) (s.clocksPerBaud - 1 - m % s.clocksPerBaud)
      (y.run u (t + m)) ∧ (y.run u (t + m)).oWr = false := by
  have hdm := Nat.div_add_mod' m s.clocksPerBaud
  have hmod := Nat.mod_lt m (show 0 < s.clocksPerBaud by omega)
  have hj : m / s.clocksPerBaud + 1 < s.length := by
    have := Nat.div_lt_of_lt_mul (show m < s.clocksPerBaud * (s.length - 1) by rwa [Nat.mul_comm])
    exact Nat.add_lt_of_lt_sub this
  have hfirst := h.run_first hu hw hb hj fun i hi => hck i (by omega)
  have hwait := hfirst.1.run_wait hu hfirst.2 hj
    (show m % s.clocksPerBaud ≤ s.clocksPerBaud - 1 by omega)
  rwa [Nat.add_assoc, hdm] at hwait

include hs

theorem Rx.Ready.run_starts (h : (y.run u t).Ready s) (hb : 3 ≤ s.clocksPerBaud) {k : ℕ}
    (hk : k ≤ s.clocksPerBaud / 2) (hck : ∀ i ≤ k, (y.run u (t + i)).ckUart = false) :
    Starts s k (y.run u (t + k)) ∧ (0 < k → (y.run u (t + k)).oWr = false) := by
  induction k with
  | zero => exact ⟨h.starts (hck 0 (le_refl 0)) hb, fun h => absurd h (Nat.lt_irrefl 0)⟩
  | succ k ih =>
    have hstep := (ih (by omega) fun i hi => hck i (by omega)).1.step (hu (t + k)) (hs (t + k))
      (hck k (by omega)) (hck (k + 1) (le_refl _)) hb (by omega)
    exact ⟨hstep.1, fun _ => hstep.2⟩

section Frame

variable (h : (y.run u t).Ready s) (hb : s.Tolerates b)
  (hw : ∀ i < s.length * b, (y.run u (t + i)).ckUart = s.lineBit d (i / b))
include hb hw

omit hu hs in
/-- The samples fall in their bits. -/
theorem Setup.Tolerates.ckUart_sample (hj : j < s.length) :
    (y.run u (t + (s.clocksPerBaud / 2 + j * s.clocksPerBaud))).ckUart = s.lineBit d j := by
  have hle := Nat.mul_le_mul_right s.clocksPerBaud (show j ≤ s.length - 1 by omega)
  have hlate := hb.late
  rw [hw _ (by omega), hb.sample hj]

include h

/-- The first half of the start bit, and the frame from its first sample on. -/
theorem Rx.Ready.run_hears :
    (∀ k, 0 < k → k ≤ s.clocksPerBaud / 2 → (y.run u (t + k)).oWr = false) ∧
    ∀ m < (s.length - 1) * s.clocksPerBaud,
      Hears s d (m / s.clocksPerBaud) (s.clocksPerBaud - 1 - m % s.clocksPerBaud)
        (y.run u (t + s.clocksPerBaud / 2 + 1 + m)) ∧
      (y.run u (t + s.clocksPerBaud / 2 + 1 + m)).oWr = false := by
  have hlen := s.le_length
  have hclocks := hb.clocks
  have hlate := hb.late
  have hlow : ∀ i ≤ s.clocksPerBaud / 2, (y.run u (t + i)).ckUart = false := fun i hi => by
    have hzero := hb.sample (j := 0) (by omega)
    rw [Nat.zero_mul, Nat.add_zero] at hzero
    have hdiv : i / b = 0 := Nat.le_zero.mp (hzero ▸ Nat.div_le_div_right hi)
    rw [hw i (by omega), hdiv, Setup.lineBit_zero]
  have hstart := h.run_starts hu hs hclocks (le_refl _) hlow
  obtain ⟨hhear, hwr⟩ := hstart.1.hears (d := d) (hu _) (hs _) (hlow _ (le_refl _)) hclocks rfl
  refine ⟨fun k h0 hk => (h.run_starts hu hs hclocks hk fun i hi => hlow i (by omega)).2 h0,
    fun m hm => ?_⟩
  refine Hears.run (t := t + s.clocksPerBaud / 2 + 1) hu hhear hwr hclocks (fun i hi => ?_) hm
  rw [← hb.ckUart_sample hw hi, Nat.succ_mul]
  congr 2
  omega

/-- A frame: the strobe comes `s.delay` clocks after its first clock, and no other one before. -/
theorem Rx.Ready.run_frame :
    (y.run u (t + s.delay)).Ready s ∧ (y.run u (t + s.delay)).oWr = true ∧
      (y.run u (t + s.delay)).oData = s.clip d ∧
      (∀ k, 0 < k → k < s.delay → (y.run u (t + k)).oWr = false) := by
  have hlen := s.le_length
  have hmul : (s.length - 1) * s.clocksPerBaud =
      (s.length - 2) * s.clocksPerBaud + s.clocksPerBaud := by
    rw [← Nat.succ_mul, show (s.length - 2).succ = s.length - 1 by omega]
  have hclocks := hb.clocks
  have hlate := hb.late
  obtain ⟨hfirst, hrun⟩ := h.run_hears hu hs hb hw
  have hlast := (hrun (s.clocksPerBaud - 1 + (s.length - 2) * s.clocksPerBaud) (by omega)).1
  rw [Nat.add_mul_div_right _ _ (by omega), Nat.add_mul_mod_self_right, Nat.div_eq_of_lt (by omega),
    Nat.mod_eq_of_lt (by omega), Nat.sub_self, Nat.zero_add] at hlast
  have hstop : (y.run u (t + s.clocksPerBaud / 2 + 1 +
      (s.clocksPerBaud - 1 + (s.length - 2) * s.clocksPerBaud))).ckUart = true := by
    rw [show t + s.clocksPerBaud / 2 + 1 +
      (s.clocksPerBaud - 1 + (s.length - 2) * s.clocksPerBaud) =
        t + (s.clocksPerBaud / 2 + (s.length - 1) * s.clocksPerBaud) by omega,
      hb.ckUart_sample hw (by omega), s.lineBit_stop d (by rw [Setup.length]; omega)]
  have hdone := hlast.done (i := u (t + s.clocksPerBaud / 2 + 1 +
    (s.clocksPerBaud - 1 + (s.length - 2) * s.clocksPerBaud))) (hu _) hstop (by omega)
  rw [show (y.run u _).step (u _) = y.run u (t + s.clocksPerBaud / 2 + 1 +
    (s.clocksPerBaud - 1 + (s.length - 2) * s.clocksPerBaud) + 1) from rfl,
    show t + s.clocksPerBaud / 2 + 1 + (s.clocksPerBaud - 1 + (s.length - 2) * s.clocksPerBaud) + 1 =
      t + (s.clocksPerBaud / 2 + (s.length - 1) * s.clocksPerBaud + 1) by omega] at hdone
  obtain ⟨hst, hset, hbrk, hhalf, hdata, hpre, hstrobe, hchg⟩ := hdone
  have hquiet : ∀ k, 0 < k → k < s.clocksPerBaud / 2 + (s.length - 1) * s.clocksPerBaud + 1 →
      (y.run u (t + k)).oWr = false := fun k h0 hk => by
    rcases Nat.lt_or_ge (s.clocksPerBaud / 2) k with hgt | hle
    · have := (hrun (k - (s.clocksPerBaud / 2 + 1)) (by omega)).2
      rwa [show t + s.clocksPerBaud / 2 + 1 + (k - (s.clocksPerBaud / 2 + 1)) = t + k by omega] at this
    · exact hfirst k h0 hle
  cases hd : s.dblstop with
  | true =>
    rw [hd] at hpre hstrobe
    rw [Setup.delay, hd, if_pos rfl]
    exact ⟨⟨hst, hset, hbrk, hhalf, hpre, hchg⟩, hstrobe, hdata, hquiet⟩
  | false =>
    rw [hd] at hpre hstrobe
    rw [Setup.delay, hd, if_neg Bool.false_ne_true]
    have hck : (y.run u (t + (s.clocksPerBaud / 2 + (s.length - 1) * s.clocksPerBaud + 1))).ckUart =
        true := by
      rw [hw _ (by omega)]
      refine s.lineBit_stop d ?_
      have hmono := Nat.div_le_div_right (c := b) (show s.clocksPerBaud / 2 +
        (s.length - 1) * s.clocksPerBaud ≤ s.clocksPerBaud / 2 +
        (s.length - 1) * s.clocksPerBaud + 1 by omega)
      rw [hb.sample (by omega), Setup.length] at hmono
      rw [Setup.length]
      omega
    obtain ⟨hready, hwr', hdata'⟩ := Rx.idle_step hst hbrk (hu _) (hs _) hck
    refine ⟨hready, hwr'.trans hpre, hdata'.trans hdata, fun k h0 hk => ?_⟩
    rcases Nat.lt_or_ge k (s.clocksPerBaud / 2 + (s.length - 1) * s.clocksPerBaud + 1) with hlt | hge
    · exact hquiet k h0 hlt
    · rwa [show k = s.clocksPerBaud / 2 + (s.length - 1) * s.clocksPerBaud + 1 by omega]

/-- A receiver flags the parity of every byte that is sent with its own setup, unless it is fixed. -/
theorem Rx.Ready.run_parityErr (hp : s.useParity = true) :
    (y.run u (t + (s.clocksPerBaud / 2 + (s.width + 1) * s.clocksPerBaud) + 1)).oParityErr =
      !s.fixdParity := by
  have hclocks := hb.clocks
  have hlen : s.width + 1 < s.length := by
    rw [Setup.length]
    omega
  have hle := Nat.mul_le_mul_right s.clocksPerBaud (show s.width + 1 ≤ s.length - 1 by omega)
  have hmul : (s.width + 1) * s.clocksPerBaud = s.width * s.clocksPerBaud + s.clocksPerBaud :=
    Nat.succ_mul ..
  have hlast := ((h.run_hears hu hs hb hw).2
    (s.clocksPerBaud - 1 + s.width * s.clocksPerBaud) (by omega)).1
  rw [Nat.add_mul_div_right _ _ (by omega), Nat.add_mul_mod_self_right, Nat.div_eq_of_lt (by omega),
    Nat.mod_eq_of_lt (by omega), Nat.sub_self, Nat.zero_add,
    show t + s.clocksPerBaud / 2 + 1 + (s.clocksPerBaud - 1 + s.width * s.clocksPerBaud) =
      t + (s.clocksPerBaud / 2 + (s.width + 1) * s.clocksPerBaud) by omega] at hlast
  exact hlast.parityErr hp (hb.ckUart_sample hw hlen)

end Frame

variable (h0 : y.Ready s) (hw0 : y.oWr = false) (hb : s.Tolerates b)
  (hc : Carries s b f fun t => (y.run u t).ckUart)
include h0 hw0 hb hc

/-- Between frames the receiver waits, and it strobes only for the one that came before. -/
theorem Rx.ready_run (hdone : ∀ τ d, f τ = some d → τ < t → τ + s.delay ≤ t) :
    (y.run u t).Ready s ∧
      ((y.run u t).oWr = true → ∃ τ d, f τ = some d ∧ t = τ + s.delay) := by
  have hdelay := hb.delay_le
  have hpos : s.clocksPerBaud / 2 + (s.length - 1) * s.clocksPerBaud < s.delay := by
    rw [Setup.delay]
    split_ifs <;> omega
  induction t using Nat.strong_induction_on with
  | _ t ih =>
    by_cases hnow : ∃ τ d, f τ = some d ∧ t = τ + s.delay
    · obtain ⟨τ, d, hτ, rfl⟩ := hnow
      have hready := (ih τ (by omega) fun τ' d' hτ' hlt => by
        have := hc.apart τ' τ d' d hτ' hτ hlt
        omega).1
      exact ⟨(hready.run_frame hu hs hb fun i hi => hc.bits τ d i hτ hi).1, fun _ => ⟨τ, d, hτ, rfl⟩⟩
    cases t with
    | zero => exact ⟨h0, fun h => absurd (hw0.symm.trans h) Bool.false_ne_true⟩
    | succ t =>
      have hbefore : ∀ τ d, f τ = some d → τ ≤ t → τ + s.delay ≤ t := fun τ d hτ hle => by
        have := hdone τ d hτ (by omega)
        have : t + 1 ≠ τ + s.delay := fun h => hnow ⟨τ, d, hτ, h⟩
        omega
      have hready := (ih t (by omega) fun τ d hτ hlt => hbefore τ d hτ (by omega)).1
      have hck : (y.run u t).ckUart = true := by
        by_cases hover : ∀ τ d, f τ = some d → τ ≤ t → τ + s.length * b ≤ t
        · exact hc.rest t hover
        · push Not at hover
          obtain ⟨τ, d, hτ, hle, hlt⟩ := hover
          have hbit := hc.bits τ d (t - τ) hτ (by omega)
          have hmono := Nat.div_le_div_right (c := b) (show s.clocksPerBaud / 2 +
            (s.length - 1) * s.clocksPerBaud ≤ t - τ by
              have := hbefore τ d hτ hle
              omega)
          have hlen := s.le_length
          rw [hb.sample (by omega), Setup.length] at hmono
          rw [show τ + (t - τ) = t by omega, s.lineBit_stop d (by omega)] at hbit
          exact hbit
      obtain ⟨hnext, hstrobe, -⟩ := Rx.idle_step hready.state hready.noBreak (hu t) (hs t) hck
      exact ⟨hnext, fun h => absurd (hready.preWr.symm.trans (hstrobe.symm.trans h))
        Bool.false_ne_true⟩

/-- At the first clock of a frame the receiver waits for it. -/
theorem Rx.ready_frame {τ : ℕ} (hτ : f τ = some d) : (y.run u τ).Ready s :=
  (Rx.ready_run hu hs h0 hw0 hb hc fun τ' d' hτ' hlt => by
    have := hc.apart τ' τ d' d hτ' hτ hlt
    have := hb.delay_le
    omega).1

/-- A receiver whose line carries frames strobes once for each of them, with its data bits. -/
theorem Rx.receives :
    (∀ t, (y.run u t).oWr = true ↔ ∃ τ d, f τ = some d ∧ t = τ + s.delay) ∧
      ∀ τ d, f τ = some d → (y.run u (τ + s.delay)).oData = s.clip d := by
  have hdelay := hb.delay_le
  have hframe : ∀ τ d, f τ = some d → _ := fun τ d hτ =>
    ((Rx.ready_frame hu hs h0 hw0 hb hc hτ).run_frame hu hs hb fun i hi => hc.bits τ d i hτ hi).2
  refine ⟨fun t => ⟨fun h => ?_, ?_⟩, fun τ d hτ => (hframe τ d hτ).2.1⟩
  · by_cases hin : ∃ τ d, f τ = some d ∧ τ < t ∧ t < τ + s.delay
    · obtain ⟨τ, d, hτ, h1, h2⟩ := hin
      have hlow := (hframe τ d hτ).2.2 (t - τ) (by omega) (by omega)
      rw [show τ + (t - τ) = t by omega, h] at hlow
      cases hlow
    · exact (Rx.ready_run hu hs h0 hw0 hb hc fun τ d hτ hlt => by
        by_contra hno
        exact hin ⟨τ, d, hτ, hlt, by omega⟩).2 h
  · rintro ⟨τ, d, hτ, rfl⟩
    exact (hframe τ d hτ).1

end Runs

/-- A receiver that waits for a start bit. -/
def Rx.ready (s : Setup) : Rx :=
  { Rx.init with qUart := true, qqUart := true, ckUart := true, state := .idle, rSetup := s }

theorem Rx.ready_ready (s : Setup) : (Rx.ready s).Ready s := by
  constructor <;> first | rfl | exact fun h => absurd h Bool.true_eq_false_eq_False

end Uart
