import LBMacTwo.Foundation.Bits
import LBMacTwo.Foundation.Clocked
import LBMacTwo.Uart.Frame

/-!
# The transmitter `txuart.v`

One definition per register. `Sends s d j c` holds in interval `j` of the frame of a byte, `c` clocks
before its end: the state machine is one bit ahead of the line, and the last interval is a clock
short, which the transmitter spends to become ready.

* `frame_sent`: from a byte that is taken to the last stop bit the line carries its frame, and the
  transmitter is busy;
* `Tx.carries`: a run of the transmitter carries the bytes that it takes.
-/

namespace Uart
open Clocked

/-- The states `TXU_BIT_ZERO` to `TXU_BIT_SEVEN`, and the others. -/
inductive TxState
  | bit (k : ℕ)
  | parity
  | stop
  | secondStop
  | brk
  | idle
  deriving DecidableEq

structure Tx where
  state : TxState
  rSetup : Setup
  lclData : Byte
  calcParity : Bool
  rBusy : Bool
  oUartTx : Bool
  baudCounter : ℕ
  zeroBaudCounter : Bool
  lastState : Bool
  qCtsN : Bool
  qqCtsN : Bool
  ckCts : Bool

structure TxIn where
  reset : Bool
  brk : Bool
  wr : Bool
  data : Byte
  ctsN : Bool
  setup : Setup

namespace Tx

variable (x : Tx) (i : TxIn)

/-- A byte is taken. -/
def starts : Bool := i.wr && !x.rBusy

def stateNext : TxState :=
  if i.reset then .idle
  else if i.brk then .brk
  else if !x.zeroBaudCounter then x.state
  else match x.state with
    | .brk => .idle
    | .idle => if x.starts i then .bit i.setup.dataBits else .idle
    | .bit k => if k = 7 then if x.rSetup.useParity then .parity else .stop else .bit (k + 1)
    | .parity => .stop
    | .stop => if x.rSetup.dblstop then .secondStop else .idle
    | .secondStop => .idle

def rBusyNext : Bool :=
  if i.reset then true
  else if i.brk then true
  else if !x.zeroBaudCounter then true
  else match x.state with
    | .brk => !x.ckCts
    | .idle => if x.starts i then true else !x.ckCts
    | _ => true

def lclDataNext : Byte :=
  if !x.rBusy then i.data else if x.zeroBaudCounter then x.lclData >>> 1 else x.lclData

def oUartTxNext : Bool :=
  if i.reset then true
  else if i.brk || x.starts i then false
  else if x.zeroBaudCounter then
    match x.state with
    | .bit _ => x.lclData.getLsbD 0
    | .parity => x.calcParity
    | _ => true
  else x.oUartTx

def calcParityNext : Bool :=
  if !x.rBusy then i.setup.parity
  else if x.rSetup.fixdParity then x.rSetup.parity
  else if x.zeroBaudCounter then
    match x.state with
    | .bit _ => x.calcParity ^^ x.lclData.getLsbD 0
    | .idle => x.rSetup.parity
    | _ => x.calcParity
  else x.calcParity

/-- The counter has 28 bits. -/
def baudCounterNext : ℕ :=
  if i.reset || i.brk then x.rSetup.breakCondition
  else if !x.zeroBaudCounter then (x.baudCounter + 2 ^ 28 - 1) % 2 ^ 28
  else match x.state with
    | .brk => 0
    | .idle => if x.starts i then (i.setup.clocksPerBaud + 2 ^ 28 - 1) % 2 ^ 28 else 0
    | _ => (x.rSetup.clocksPerBaud + 2 ^ 28 - if x.lastState then 2 else 1) % 2 ^ 28

def zeroBaudCounterNext : Bool :=
  if i.reset || i.brk then false
  else if !x.zeroBaudCounter then x.baudCounter == 1
  else match x.state with
    | .brk => true
    | .idle => !x.starts i
    | _ => x.baudCounter == 1

def step : Tx where
  state := x.stateNext i
  rSetup := if !x.rBusy then i.setup else x.rSetup
  lclData := x.lclDataNext i
  calcParity := x.calcParityNext i
  rBusy := x.rBusyNext i
  oUartTx := x.oUartTxNext i
  baudCounter := x.baudCounterNext i
  zeroBaudCounter := x.zeroBaudCounterNext i
  lastState := if x.rSetup.dblstop then x.state == .secondStop else x.state == .stop
  qCtsN := i.ctsN
  qqCtsN := x.qCtsN
  ckCts := !x.qqCtsN || !x.rSetup.hwFlowControl

end Tx

/-- The transmitter as it powers up. -/
def Tx.init : Tx where
  state := .idle
  rSetup := .initial
  lclData := 0xFF
  calcParity := false
  rBusy := true
  oUartTx := true
  baudCounter := 5
  zeroBaudCounter := false
  lastState := false
  qCtsN := false
  qqCtsN := false
  ckCts := false

/-- The transmitter after `t` clocks. -/
abbrev Tx.run (x : Tx) (u : ℕ → TxIn) (t : ℕ) : Tx := Clocked.run Tx.step x u t

/-- No reset and no break. -/
structure TxIn.Plain (i : TxIn) : Prop where
  reset : i.reset = false
  brk : i.brk = false

variable {s : Setup} {d : Byte} {x : Tx} {i : TxIn} {j c : ℕ}

/-! ### At rest -/

/-- A transmitter that takes bytes has nothing to finish. -/
structure Tx.Sound (x : Tx) : Prop where
  state : x.rBusy = false → x.state = .idle
  zero : x.rBusy = false → x.zeroBaudCounter = true

/-- A transmitter has no bits left to send; it may still wait for its counter or for `ck_cts`. -/
structure Tx.Rests (x : Tx) : Prop where
  state : x.state = .idle
  line : x.oUartTx = true

theorem Tx.Sound.step : (x.step i).Sound := by
  suffices h : x.rBusyNext i = false → x.stateNext i = .idle ∧ x.zeroBaudCounterNext i = true from
    ⟨fun hb => (h hb).1, fun hb => (h hb).2⟩
  intro hb
  cases hr : i.reset with
  | true => simp [Tx.rBusyNext, hr] at hb
  | false =>
    cases hk : i.brk with
    | true => simp [Tx.rBusyNext, hr, hk] at hb
    | false =>
      cases hz : x.zeroBaudCounter with
      | false => simp [Tx.rBusyNext, hr, hk, hz] at hb
      | true =>
        cases hs : x.state <;>
          simp [Tx.rBusyNext, Tx.stateNext, Tx.zeroBaudCounterNext, hr, hk, hz, hs] at hb ⊢
        simp [hb]

theorem Tx.Rests.step (h : x.Rests) (hi : i.Plain) (hs : x.starts i = false) :
    (x.step i).Rests := by
  cases hz : x.zeroBaudCounter <;> constructor <;>
    simp [Tx.step, Tx.stateNext, Tx.oUartTxNext, hi.reset, hi.brk, hz, h.state, h.line, hs]

theorem Tx.starts_eq_false (hb : x.rBusy = true) : x.starts i = false := by
  rw [Tx.starts, hb, Bool.not_true, Bool.and_false]

/-! ### The intervals of a frame -/

/-- The state of the transmitter while bit `j` of a frame is on the line. -/
def Setup.txState (s : Setup) (j : ℕ) : TxState :=
  if j < s.width then .bit (s.dataBits + j)
  else if j < s.width + s.useParity.toNat then .parity
  else if j = s.width + s.useParity.toNat then .stop
  else if j < s.width + s.useParity.toNat + 1 + s.dblstop.toNat then .secondStop else .idle

/-- The clocks of bit `j` after its first one that the transmitter spends on it: in the last bit
there is one less. -/
def Setup.lastClock (s : Setup) (j : ℕ) : ℕ :=
  s.clocksPerBaud - if j + 1 = s.length then 2 else 1

/-- The transmitter sends bit `j` of the frame of `d` for another `c + 1` clocks. -/
structure Sends (s : Setup) (d : Byte) (j c : ℕ) (x : Tx) : Prop where
  setup : x.rSetup = s
  busy : x.rBusy = true
  state : x.state = s.txState j
  line : x.oUartTx = s.lineBit d j
  data : x.lclData = d >>> j
  parity : x.calcParity = if s.fixdParity then s.parity else s.parityOf d (min j s.width)
  count : x.baudCounter = c
  bound : c < s.clocksPerBaud
  zero : x.zeroBaudCounter = decide (c = 0)
  last : c < s.lastClock j → x.lastState = decide (j + 2 = s.length)

theorem Setup.clocksPerBaud_lt (s : Setup) : s.clocksPerBaud < 2 ^ 24 := s.baud.isLt

theorem Setup.last_iff (s : Setup) (j : ℕ) :
    (if s.dblstop then s.txState j == .secondStop else s.txState j == .stop) =
      decide (j + 2 = s.length) := by
  have h1 := s.useParity.toNat_le
  cases hs : s.dblstop <;> rw [Bool.eq_iff_iff] <;>
    simp only [Bool.false_eq_true, if_false, if_true, beq_iff_eq, decide_eq_true_eq, Setup.txState,
      Setup.length, hs, Bool.toNat_false, Bool.toNat_true] <;>
    split_ifs <;> simp <;> omega

theorem Setup.lastClock_lt (s : Setup) (h : 0 < s.clocksPerBaud) : s.lastClock j < s.clocksPerBaud := by
  rw [lastClock]
  split_ifs <;> omega

theorem Tx.baudCounterNext_count (hi : i.Plain) (hz : x.zeroBaudCounter = false)
    (hc : x.baudCounter = c + 1) (hlt : c < 2 ^ 24) : x.baudCounterNext i = c := by
  simp only [Tx.baudCounterNext, hi.reset, hi.brk, hz, hc, Bool.or_self, Bool.not_false,
    Bool.false_eq_true, if_false, if_true]
  omega

theorem Tx.zeroBaudCounterNext_count (hi : i.Plain) (hz : x.zeroBaudCounter = false)
    (hc : x.baudCounter = c + 1) : x.zeroBaudCounterNext i = decide (c = 0) := by
  rw [Bool.eq_iff_iff]
  simp [Tx.zeroBaudCounterNext, hi.reset, hi.brk, hz, hc]

/-- The state machine moves within a frame at the end of an interval. -/
theorem Tx.next_inFrame (hi : i.Plain) (hz : x.zeroBaudCounter = true) (h1 : x.state ≠ .idle)
    (h2 : x.state ≠ .brk) : x.rBusyNext i = true ∧ x.zeroBaudCounterNext i = (x.baudCounter == 1) ∧
      x.baudCounterNext i =
        (x.rSetup.clocksPerBaud + 2 ^ 28 - if x.lastState then 2 else 1) % 2 ^ 28 := by
  cases hs : x.state with
  | idle => exact absurd hs h1
  | brk => exact absurd hs h2
  | bit | parity | stop | secondStop =>
    simp [Tx.rBusyNext, Tx.zeroBaudCounterNext, Tx.baudCounterNext, hi.reset, hi.brk, hz, hs]

/-- The states from the one of bit `j` to the one of bit `j + 1`. -/
theorem Setup.txState_cases (s : Setup) (hj : j + 1 < s.length) :
    (j + 1 < s.width ∧ s.txState j = .bit (s.dataBits + j) ∧
      s.txState (j + 1) = .bit (s.dataBits + j + 1)) ∨
    (j + 1 = s.width ∧ s.txState j = .bit 7 ∧
      s.txState (j + 1) = if s.useParity then .parity else .stop) ∨
    (j = s.width ∧ s.useParity = true ∧ s.txState j = .parity ∧ s.txState (j + 1) = .stop) ∨
    (j = s.width + s.useParity.toNat ∧ s.txState j = .stop ∧
      s.txState (j + 1) = if s.dblstop then .secondStop else .idle) ∨
    (j = s.width + s.useParity.toNat + 1 ∧ s.txState j = .secondStop ∧
      s.txState (j + 1) = .idle) := by
  have h1 := s.dataBits_add_width
  rw [length] at hj
  by_cases h2 : j + 1 < s.width
  · left
    simp [txState, h2, show j < s.width by omega, Nat.add_assoc]
  right
  by_cases h3 : j + 1 = s.width
  · left
    cases hp : s.useParity <;> simp [txState, h3, hp, show j < s.width by omega] <;> omega
  right
  obtain ⟨e, rfl⟩ := Nat.exists_eq_add_of_le (show s.width ≤ j by omega)
  cases hp : s.useParity <;> cases hs : s.dblstop <;> rw [hp, hs] at hj <;>
    simp only [Bool.toNat_false, Bool.toNat_true] at hj <;>
    rcases e with _ | _ | _ | e <;>
    first
    | omega
    | simp [txState, hp, hs, Nat.add_assoc]

namespace Sends

/-- Within an interval nothing but the counter moves. -/
theorem wait (h : Sends s d j (c + 1) x) (hi : i.Plain) : Sends s d j c (x.step i) := by
  have hz : x.zeroBaudCounter = false := by
    rw [h.zero]
    simp
  have hst := Tx.starts_eq_false (i := i) h.busy
  have hlt := h.bound
  have hclocks := s.clocksPerBaud_lt
  constructor
  · simp [Tx.step, h.busy, h.setup]
  · simp [Tx.step, Tx.rBusyNext, hi.reset, hi.brk, hz]
  · simpa [Tx.step, Tx.stateNext, hi.reset, hi.brk, hz] using h.state
  · simpa [Tx.step, Tx.oUartTxNext, hi.reset, hi.brk, hz, hst] using h.line
  · simpa [Tx.step, Tx.lclDataNext, h.busy, hz] using h.data
  · cases hf : s.fixdParity <;> simp [Tx.step, Tx.calcParityNext, h.busy, hz, h.setup, hf, h.parity]
  · exact Tx.baudCounterNext_count hi hz h.count (by omega)
  · omega
  · exact Tx.zeroBaudCounterNext_count hi hz h.count
  · intro _
    change (if x.rSetup.dblstop then x.state == .secondStop else x.state == .stop) = _
    rw [h.setup, h.state, s.last_iff]

/-- At the end of an interval the next bit is put on the line. -/
theorem next (h : Sends s d j 0 x) (hi : i.Plain) (hj : j + 1 < s.length)
    (hb : 3 ≤ s.clocksPerBaud) : Sends s d (j + 1) (s.lastClock (j + 1)) (x.step i) := by
  have hz : x.zeroBaudCounter = true := h.zero
  have hst := Tx.starts_eq_false (i := i) h.busy
  have hclocks := s.clocksPerBaud_lt
  have hlast := h.last (by rw [Setup.lastClock]; split_ifs <;> omega)
  have hcases := s.txState_cases hj
  have hframe : x.state ≠ .idle ∧ x.state ≠ .brk := by
    rw [h.state]
    obtain ⟨-, h1, -⟩ | ⟨-, h1, -⟩ | ⟨-, -, h1, -⟩ | ⟨-, h1, -⟩ | ⟨-, h1, -⟩ := hcases <;> simp [h1]
  obtain ⟨hbusy, hzero, hcount⟩ := Tx.next_inFrame hi hz hframe.1 hframe.2
  have hlt := s.lastClock_lt (j := j + 1) (by omega)
  constructor
  · simp [Tx.step, h.busy, h.setup]
  · exact hbusy
  · change x.stateNext i = _
    rw [Tx.stateNext, hi.reset, hi.brk, hz, h.state, h.setup]
    obtain ⟨hw, h1, h2⟩ | ⟨-, h1, h2⟩ | ⟨-, -, h1, h2⟩ | ⟨-, h1, h2⟩ | ⟨-, h1, h2⟩ := hcases
    · have := s.dataBits_add_width
      simp [h1, h2, show s.dataBits + j ≠ 7 by omega]
    all_goals simp [h1, h2]
  · change x.oUartTxNext i = _
    rw [Tx.oUartTxNext, hi.reset, hi.brk, hst, hz, h.state]
    obtain ⟨hw, h1, -⟩ | ⟨hw, h1, -⟩ | ⟨rfl, hp, h1, -⟩ | ⟨hw, h1, -⟩ | ⟨hw, h1, -⟩ := hcases
    · simp [h1, h.data, s.lineBit_data d (show j < s.width by omega)]
    · simp [h1, h.data, s.lineBit_data d (show j < s.width by omega)]
    · simp [h1, h.parity, s.lineBit_parity d hp, Setup.parityBit]
    all_goals simp [h1, s.lineBit_stop d (show s.width + s.useParity.toNat < j + 1 by omega)]
  · change x.lclDataNext i = _
    rw [Tx.lclDataNext, h.busy, hz, h.data, BitVec.shiftRight_add]
    rfl
  · change x.calcParityNext i = _
    rw [Tx.calcParityNext, h.busy, hz, h.state, h.setup, h.parity]
    cases hf : s.fixdParity
    · obtain ⟨hw, h1, -⟩ | ⟨hw, h1, -⟩ | ⟨hw, -, h1, -⟩ | ⟨hw, h1, -⟩ | ⟨hw, h1, -⟩ := hcases
      · simp [h1, h.data, show min j s.width = j by omega,
          show min (j + 1) s.width = j + 1 by omega, Setup.parityOf]
      · simp [h1, h.data, show min j s.width = j by omega,
          show min (j + 1) s.width = j + 1 by omega, Setup.parityOf]
      all_goals simp [h1, show min j s.width = s.width by omega,
        show min (j + 1) s.width = s.width by omega]
    · simp
  · change x.baudCounterNext i = _
    rw [hcount, hlast, h.setup, Setup.lastClock]
    simp only [decide_eq_true_eq]
    split_ifs <;> omega
  · exact hlt
  · change x.zeroBaudCounterNext i = _
    have hpos : s.lastClock (j + 1) ≠ 0 := by
      rw [Setup.lastClock]
      split_ifs <;> omega
    rw [hzero, h.count, decide_eq_false hpos]
    rfl
  · exact fun hlt => absurd hlt (Nat.lt_irrefl _)

/-- In the last bit the state machine is idle already. -/
theorem atRest (h : Sends s d j c x) (hj : j + 1 = s.length) : x.state = .idle ∧ x.oUartTx = true := by
  rw [Setup.length] at hj
  constructor
  · rw [h.state, Setup.txState, if_neg (by omega), if_neg (by omega), if_neg (by omega),
      if_neg (by omega)]
  · rw [h.line, s.lineBit_stop d (by omega)]

theorem rests (h : Sends s d j 0 x) (hi : i.Plain) (hj : j + 1 = s.length) :
    (x.step i).state = .idle ∧ (x.step i).oUartTx = true ∧ (x.step i).rBusy = !x.ckCts := by
  have hz : x.zeroBaudCounter = true := h.zero
  have hst := Tx.starts_eq_false (i := i) h.busy
  have hs := (h.atRest hj).1
  refine ⟨?_, ?_, ?_⟩
  · simp [Tx.step, Tx.stateNext, hi.reset, hi.brk, hz, hs, hst]
  · simp [Tx.step, Tx.oUartTxNext, hi.reset, hi.brk, hz, hs, hst]
  · simp [Tx.step, Tx.rBusyNext, hi.reset, hi.brk, hz, hs, hst]

/-- A byte that is taken is sent. -/
theorem of_starts (hx : x.Sound) (hi : i.Plain) (hs : x.starts i = true)
    (hb : 3 ≤ i.setup.clocksPerBaud) : Sends i.setup i.data 0 (i.setup.lastClock 0) (x.step i) := by
  obtain ⟨-, hbusy⟩ : i.wr = true ∧ x.rBusy = false := by simpa [Tx.starts] using hs
  have hstate := hx.state hbusy
  have hz := hx.zero hbusy
  have hwidth := i.setup.le_width
  have hlast : i.setup.lastClock 0 = i.setup.clocksPerBaud - 1 := by
    rw [Setup.lastClock, if_neg (by rw [Setup.length]; omega)]
  have hlt := i.setup.clocksPerBaud_lt
  constructor
  · simp [Tx.step, hbusy]
  · simp [Tx.step, Tx.rBusyNext, hi.reset, hi.brk, hz, hstate, hs]
  · simp [Tx.step, Tx.stateNext, hi.reset, hi.brk, hz, hstate, hs, Setup.txState,
      show 0 < i.setup.width by omega]
  · simp [Tx.step, Tx.oUartTxNext, hi.reset, hi.brk, hs, Setup.lineBit_zero]
  · simp [Tx.step, Tx.lclDataNext, hbusy]
  · simp [Tx.step, Tx.calcParityNext, hbusy, Setup.parityOf]
  · simp only [Tx.step, Tx.baudCounterNext, hi.reset, hi.brk, hz, hstate, hs, hlast, Bool.or_self,
      Bool.not_true, Bool.false_eq_true, if_false, if_true]
    omega
  · rw [hlast]
    omega
  · rw [hlast, decide_eq_false (by omega)]
    simp [Tx.step, Tx.zeroBaudCounterNext, hi.reset, hi.brk, hz, hstate, hs]
  · exact fun h => absurd h (Nat.lt_irrefl _)

end Sends

/-! ### Runs -/

section Runs

variable {u : ℕ → TxIn} {t : ℕ}

theorem Sends.run_wait (h : Sends s d j c (x.run u t)) {k : ℕ} (hk : k ≤ c)
    (hu : ∀ n, t ≤ n → n < t + k → (u n).Plain) : Sends s d j (c - k) (x.run u (t + k)) := by
  induction k with
  | zero => exact h
  | succ k ih =>
    have ih := ih (by omega) fun n h1 h2 => hu n h1 (by omega)
    rw [show c - k = c - (k + 1) + 1 by omega] at ih
    exact ih.wait (hu (t + k) (by omega) (by omega))

/-- The first clock of bit `j` of a frame. -/
theorem Sends.run_first (h : Sends s d 0 (s.lastClock 0) (x.run u t)) (hb : 3 ≤ s.clocksPerBaud)
    (hj : j < s.length) (hu : ∀ n, t ≤ n → n < t + j * s.clocksPerBaud → (u n).Plain) :
    Sends s d j (s.lastClock j) (x.run u (t + j * s.clocksPerBaud)) := by
  induction j with
  | zero => simpa using h
  | succ j ih =>
    rw [Nat.succ_mul] at hu ⊢
    have ih := ih (by omega) fun n h1 h2 => hu n h1 (by omega)
    have hlast : s.lastClock j = s.clocksPerBaud - 1 := by
      rw [Setup.lastClock, if_neg (by omega)]
    have hwait := ih.run_wait (le_refl _) fun n h1 h2 => hu n (by omega) (by omega)
    rw [Nat.sub_self] at hwait
    have hnext := hwait.next (hu (t + j * s.clocksPerBaud + s.lastClock j) (by omega) (by omega))
      hj hb
    rwa [show t + (j * s.clocksPerBaud + s.clocksPerBaud) =
      t + j * s.clocksPerBaud + s.lastClock j + 1 by omega]

/-- What the transmitter does in clock `i` after it took a byte. -/
theorem Sends.run (h : Sends s d 0 (s.lastClock 0) (x.run u t)) (hb : 3 ≤ s.clocksPerBaud) {i : ℕ}
    (hi : i + 1 < s.length * s.clocksPerBaud)
    (hu : ∀ n, t ≤ n → n < t + i → (u n).Plain) :
    Sends s d (i / s.clocksPerBaud) (s.lastClock (i / s.clocksPerBaud) - i % s.clocksPerBaud)
      (x.run u (t + i)) := by
  have hdm := Nat.div_add_mod' i s.clocksPerBaud
  have hmod := Nat.mod_lt i (show 0 < s.clocksPerBaud by omega)
  have hj : i / s.clocksPerBaud < s.length := Nat.div_lt_of_lt_mul (by rw [Nat.mul_comm]; omega)
  have hfirst := h.run_first hb hj fun n h1 h2 => hu n h1 (by omega)
  have hle : i % s.clocksPerBaud ≤ s.lastClock (i / s.clocksPerBaud) := by
    rw [Setup.lastClock]
    split_ifs with hl
    · have : (i / s.clocksPerBaud + 1) * s.clocksPerBaud = s.length * s.clocksPerBaud := by rw [hl]
      rw [Nat.succ_mul] at this
      omega
    · omega
  have hwait := hfirst.run_wait hle fun n h1 h2 => hu n (by omega) (by omega)
  rwa [Nat.add_assoc, hdm] at hwait

/-- The last clock of a frame but one. -/
theorem Sends.run_last (h : Sends s d 0 (s.lastClock 0) (x.run u t)) (hb : 3 ≤ s.clocksPerBaud)
    (hu : ∀ n, t ≤ n → n + 2 < t + s.length * s.clocksPerBaud → (u n).Plain) :
    Sends s d (s.length - 1) 0 (x.run u (t + (s.length * s.clocksPerBaud - 2))) := by
  have hlen := s.le_length
  obtain ⟨n, hn⟩ := Nat.exists_eq_add_of_le' (show 1 ≤ s.length by omega)
  have hmul : s.length * s.clocksPerBaud = n * s.clocksPerBaud + s.clocksPerBaud := by
    rw [hn, Nat.succ_mul]
  have hfirst := h.run_first (j := n) hb (by omega) fun k h1 h2 => hu k h1 (by omega)
  have hlast : s.lastClock n = s.clocksPerBaud - 2 := by
    rw [Setup.lastClock, if_pos hn.symm]
  have hwait := hfirst.run_wait (le_refl _) fun k h1 h2 => hu k (by omega) (by omega)
  rw [Nat.sub_self, hlast] at hwait
  rwa [hmul, show s.length - 1 = n by omega, show t + (n * s.clocksPerBaud + s.clocksPerBaud - 2) =
    t + n * s.clocksPerBaud + (s.clocksPerBaud - 2) by omega]

/-- The transmitter is at rest when the last clock of a frame comes. -/
theorem Sends.run_rests (h : Sends s d 0 (s.lastClock 0) (x.run u (t + 1)))
    (hb : 3 ≤ s.clocksPerBaud)
    (hu : ∀ n, t ≤ n → n < t + s.length * s.clocksPerBaud → (u n).Plain) :
    (x.run u (t + s.length * s.clocksPerBaud)).state = .idle ∧
      (x.run u (t + s.length * s.clocksPerBaud)).oUartTx = true ∧
      (x.run u (t + s.length * s.clocksPerBaud)).rBusy =
        !(x.run u (t + s.length * s.clocksPerBaud - 1)).ckCts := by
  have hlen := s.le_length
  have h7 : 7 * 3 ≤ s.length * s.clocksPerBaud := Nat.mul_le_mul hlen hb
  have hlast := h.run_last hb fun n h1 h2 => hu n (by omega) (by omega)
  have hrest := hlast.rests (hu (t + 1 + (s.length * s.clocksPerBaud - 2)) (by omega) (by omega))
    (by omega)
  rwa [show t + s.length * s.clocksPerBaud = t + 1 + (s.length * s.clocksPerBaud - 2) + 1 by omega]

/-- A byte that is taken is sent bit by bit, each bit for `clocksPerBaud` clocks, and no other byte is
taken until the last clock of its frame, when the transmitter is ready unless it has to wait for
`ck_cts`. -/
theorem frame_sent (hx : (x.run u t).Sound) (hs : (x.run u t).starts (u t) = true)
    (hb : 3 ≤ (u t).setup.clocksPerBaud)
    (hu : ∀ n, t ≤ n → n < t + (u t).setup.length * (u t).setup.clocksPerBaud → (u n).Plain) :
    (∀ i < (u t).setup.length * (u t).setup.clocksPerBaud, (x.run u (t + 1 + i)).oUartTx =
      (u t).setup.lineBit (u t).data (i / (u t).setup.clocksPerBaud)) ∧
    (∀ i, i + 1 < (u t).setup.length * (u t).setup.clocksPerBaud →
      (x.run u (t + 1 + i)).rBusy = true) ∧
    (x.run u (t + (u t).setup.length * (u t).setup.clocksPerBaud)).rBusy =
      !(x.run u (t + (u t).setup.length * (u t).setup.clocksPerBaud - 1)).ckCts := by
  have hlen := (u t).setup.le_length
  have h7 : 7 * 3 ≤ (u t).setup.length * (u t).setup.clocksPerBaud := Nat.mul_le_mul hlen hb
  have hsend : Sends (u t).setup (u t).data 0 ((u t).setup.lastClock 0) (x.run u (t + 1)) :=
    .of_starts hx (hu t (le_refl t) (by omega)) hs hb
  have hrest := hsend.run_rests hb hu
  generalize hs' : (u t).setup = s at hb hu hlen h7 hsend hrest ⊢
  have hmid : ∀ i, i + 1 < s.length * s.clocksPerBaud → Sends s (u t).data (i / s.clocksPerBaud)
      (s.lastClock (i / s.clocksPerBaud) - i % s.clocksPerBaud) (x.run u (t + 1 + i)) :=
    fun i hi => hsend.run hb hi fun n h1 h2 => hu n (by omega) (by omega)
  refine ⟨fun i hi => ?_, fun i hi => (hmid i hi).busy, hrest.2.2⟩
  rcases Nat.lt_or_ge (i + 1) (s.length * s.clocksPerBaud) with h1 | h1
  · exact (hmid i h1).line
  · have hsub : (s.length - 1) * s.clocksPerBaud + s.clocksPerBaud = s.length * s.clocksPerBaud := by
      rw [← Nat.succ_mul, show (s.length - 1).succ = s.length by omega]
    have hdiv : i / s.clocksPerBaud = s.length - 1 := by
      rw [show i = (s.clocksPerBaud - 1) + (s.length - 1) * s.clocksPerBaud by omega,
        Nat.add_mul_div_right _ _ (by omega), Nat.div_eq_of_lt (by omega), zero_add]
    rw [hdiv, s.lineBit_stop _ (by rw [Setup.length]; omega),
      show t + 1 + i = t + s.length * s.clocksPerBaud by omega]
    exact hrest.2.1

/-- A transmitter that is ready. -/
def Tx.ready : Tx :=
  { Tx.init with rBusy := false, zeroBaudCounter := true, baudCounter := 0, ckCts := true }

theorem frame_sent_selfTest :
    (Tx.ready.run (fun _ => ⟨false, false, true, 0x55, false, .selfTest⟩) 6).oUartTx = true :=
  (frame_sent (x := Tx.ready) (t := 0) (u := fun _ => ⟨false, false, true, 0x55, false, .selfTest⟩)
    ⟨fun _ => rfl, fun _ => rfl⟩ rfl (by decide) fun _ _ _ => ⟨rfl, rfl⟩).1 5 (by decide)

/-! ### Runs with one setup -/

/-- The byte taken in the clock before clock `t`. -/
def Tx.taken (x : Tx) (u : ℕ → TxIn) : ℕ → Option Byte
  | 0 => none
  | t + 1 => if (x.run u t).starts (u t) then some (u t).data else none

theorem Tx.taken_eq_some (h : x.taken u t = some d) :
    ∃ n, t = n + 1 ∧ (x.run u n).starts (u n) = true ∧ (u n).data = d := by
  cases t with
  | zero => cases h
  | succ n =>
    rw [Tx.taken] at h
    split_ifs at h with hs
    exact ⟨n, rfl, hs, Option.some.inj h⟩

theorem Tx.Sound.run (h : x.Sound) (t : ℕ) : (x.run u t).Sound := by
  cases t with
  | zero => exact h
  | succ t => exact Tx.Sound.step

variable (hx : x.Sound) (hb : 3 ≤ s.clocksPerBaud) (hu : ∀ t, (u t).Plain)
  (hs : ∀ t, (u t).setup = s)
include hx hb hu hs

theorem Tx.rests_run (h0 : x.Rests)
    (hdone : ∀ τ d, x.taken u τ = some d → τ ≤ t → τ + s.length * s.clocksPerBaud ≤ t) :
    (x.run u t).Rests := by
  induction t with
  | zero => exact h0
  | succ t ih =>
    have hrests : (x.run u t).Rests := by
      by_cases hall : ∀ τ d, x.taken u τ = some d → τ ≤ t → τ + s.length * s.clocksPerBaud ≤ t
      · exact ih hall
      · push Not at hall
        obtain ⟨τ, d, hτ, hle, hlt⟩ := hall
        have hend := hdone τ d hτ (by omega)
        obtain ⟨n, rfl, hst, -⟩ := Tx.taken_eq_some hτ
        have hsend : Sends (u n).setup (u n).data 0 ((u n).setup.lastClock 0) (x.run u (n + 1)) :=
          .of_starts (hx.run n) (hu n) hst (by rwa [hs])
        rw [hs] at hsend
        have hrest := hsend.run_rests hb fun k _ _ => hu k
        rw [show n + s.length * s.clocksPerBaud = t by omega] at hrest
        exact ⟨hrest.1, hrest.2.1⟩
    refine hrests.step (hu t) (Bool.eq_false_iff.mpr fun hst => ?_)
    have hnew := hdone (t + 1) (u t).data (if_pos hst) (le_refl _)
    have h7 : 7 * 3 ≤ s.length * s.clocksPerBaud := Nat.mul_le_mul s.le_length hb
    omega

/-- A run of the transmitter carries the bytes that it takes. -/
theorem Tx.carries (h0 : x.Rests) :
    Carries s s.clocksPerBaud (x.taken u) fun t => (x.run u t).oUartTx := by
  have hframe : ∀ n, (x.run u n).starts (u n) = true → _ := fun n hst =>
    frame_sent (hx.run n) hst (by rwa [hs]) fun k _ _ => hu k
  simp only [hs] at hframe
  refine ⟨fun t d i ht hi => ?_, fun t t' d d' ht ht' hlt => ?_, fun t hdone =>
    (Tx.rests_run hx hb hu hs h0 hdone).line⟩
  · obtain ⟨n, rfl, hst, rfl⟩ := Tx.taken_eq_some ht
    exact (hframe n hst).1 i hi
  · obtain ⟨n, rfl, hst, -⟩ := Tx.taken_eq_some ht
    obtain ⟨n', rfl, hst', -⟩ := Tx.taken_eq_some ht'
    by_contra hlt'
    have hbusy := (hframe n hst).2.1 (n' - (n + 1)) (by omega)
    rw [show n + 1 + (n' - (n + 1)) = n' by omega] at hbusy
    rw [Tx.starts_eq_false hbusy] at hst'
    cases hst'

end Runs

end Uart
