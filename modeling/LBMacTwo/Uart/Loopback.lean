import LBMacTwo.Uart.Receiver

/-!
# The serial line

* `Carries.delay`, `Carries.drop`: a line that is registered, and the part of a line from a clock on;
* `Rx.decodes`: a receiver at rest delivers every frame that comes on its pin;
* `Loopback`: a transmitter whose line is the receiver's pin, as the SCC connects them for a local
  loopback;
* `loopback`: from a reset on every byte taken is delivered once, after a fixed time.
-/

namespace Uart
open Clocked

variable {s : Setup} {d : Byte} {b : ℕ} {f : ℕ → Option Byte} {w : ℕ → Bool}

/-! ### Lines -/

/-- A line seen through `n` registers that were high. -/
theorem Carries.delay (h : Carries s b f w) (n : ℕ) :
    Carries s b (fun t => if t < n then none else f (t - n))
      fun t => if t < n then true else w (t - n) := by
  refine ⟨fun t d i ht hi => ?_, fun t t' d d' ht ht' hlt => ?_, fun t hdone => ?_⟩
  · split_ifs at ht with hn
    rw [if_neg (by omega), show t + i - n = t - n + i by omega]
    exact h.bits _ d i ht hi
  · split_ifs at ht ht' with hn hn'
    have := h.apart _ _ d d' ht ht' (by omega)
    omega
  · split_ifs with hn
    · rfl
    · refine h.rest _ fun τ d hτ hle => ?_
      have := hdone (τ + n) d (by rwa [if_neg (by omega), Nat.add_sub_cancel]) (by omega)
      omega

/-- A line from a clock on before which no frame begins. -/
theorem Carries.drop (h : Carries s b f w) {n : ℕ} (hn : ∀ t < n, f t = none) :
    Carries s b (fun t => f (n + t)) fun t => w (n + t) := by
  refine ⟨fun t d i ht hi => ?_, fun t t' d d' ht ht' hlt => ?_, fun t hdone => ?_⟩
  · rw [← Nat.add_assoc]
    exact h.bits _ d i ht hi
  · have := h.apart _ _ d d' ht ht' (by omega)
    omega
  · refine h.rest _ fun τ d hτ hle => ?_
    rcases Nat.lt_or_ge τ n with hlt | hge
    · rw [hn τ hlt] at hτ
      cases hτ
    · have := hdone (τ - n) d (by rwa [show n + (τ - n) = τ by omega]) (by omega)
      omega

/-- The setup with another bit 30. -/
def Setup.flow (s : Setup) (x : Bool) : Setup := { s with noFlowControl := x }

theorem Setup.parityOf_flow (x : Bool) (k : ℕ) : (s.flow x).parityOf d k = s.parityOf d k := by
  induction k with
  | zero => rfl
  | succ k ih => rw [parityOf, ih, parityOf]

theorem Setup.lineBit_flow (x : Bool) (j : ℕ) : (s.flow x).lineBit d j = s.lineBit d j := by
  have hp : (s.flow x).parityBit d = s.parityBit d := by
    rw [parityBit, parityOf_flow]
    rfl
  rw [lineBit, frame, payload, hp]
  rfl

/-- Flow control is not the line's. -/
theorem Carries.flow (h : Carries s b f w) (x : Bool) : Carries (s.flow x) b f w :=
  ⟨fun t d i ht hi => (h.bits t d i ht hi).trans (Setup.lineBit_flow ..).symm, h.apart, h.rest⟩

/-! ### The receiver's pin -/

/-- The byte strobed in a clock. -/
def Rx.strobed (y : Rx) : Option Byte := if y.oWr then some y.oData else none

theorem Rx.strobed_eq_none {y : Rx} (h : y.oWr = false) : y.strobed = none := by
  rw [strobed, h, if_neg Bool.false_ne_true]

section Pin

variable {y : Rx} {u : ℕ → RxIn}

/-- The receiver sees its pin three clocks later. -/
theorem Rx.ckUart_run (h1 : y.qUart = true) (h2 : y.qqUart = true) (h3 : y.ckUart = true) (t : ℕ) :
    (y.run u t).ckUart = if t < 3 then true else (u (t - 3)).uartRx := by
  match t with
  | 0 => exact h3
  | 1 => exact h2
  | 2 => exact h1
  | t + 3 => rfl

/-- What a receiver strobes for the frames on its synchronised line. -/
theorem Rx.strobed_run (hu : ∀ t, (u t).reset = false) (hs : ∀ t, (u t).setup = s)
    (h0 : y.Ready s) (hw0 : y.oWr = false) (hb : s.Tolerates b)
    (hc : Carries s b f fun t => (y.run u t).ckUart) (t : ℕ) :
    (y.run u t).strobed = if t < s.delay then none else (f (t - s.delay)).map s.clip := by
  obtain ⟨hwr, hdata⟩ := Rx.receives hu hs h0 hw0 hb hc
  cases hx : (y.run u t).oWr with
  | true =>
    obtain ⟨τ, d, hτ, rfl⟩ := (hwr t).mp hx
    rw [if_neg (by omega), Nat.add_sub_cancel, hτ, Option.map_some, strobed, hx, if_pos rfl,
      hdata τ d hτ]
  | false =>
    rw [strobed_eq_none hx]
    split_ifs with hlt
    · rfl
    · cases hf : f (t - s.delay) with
      | none => rfl
      | some d =>
        have := (hwr t).mpr ⟨t - s.delay, d, hf, by omega⟩
        rw [hx] at this
        cases this

/-- A receiver at rest delivers the data bits of every frame on its pin once and in order, and
nothing else. -/
theorem Rx.decodes (hu : ∀ t, (u t).reset = false) (hs : ∀ t, (u t).setup = s) (h0 : y.Ready s)
    (hw0 : y.oWr = false) (h1 : y.qUart = true) (h2 : y.qqUart = true) (h3 : y.ckUart = true)
    (hb : s.Tolerates b) (hc : Carries s b f fun t => (u t).uartRx) :
    (∀ t, (y.run u (t + (s.delay + 3))).strobed = (f t).map s.clip) ∧
      ∀ t < s.delay + 3, (y.run u t).strobed = none := by
  have hck : Carries s b (fun t => if t < 3 then none else f (t - 3))
      fun t => (y.run u t).ckUart := by
    simpa only [Rx.ckUart_run h1 h2 h3] using hc.delay 3
  have hstrobe := Rx.strobed_run hu hs h0 hw0 hb hck
  refine ⟨fun t => ?_, fun t ht => ?_⟩
  · rw [hstrobe, if_neg (by omega), if_neg (by omega),
      show t + (s.delay + 3) - s.delay - 3 = t by omega]
  · rw [hstrobe]
    split_ifs with h1 h2
    · rfl
    · rfl
    · omega

/-- A sender whose bits are a twenty-fifth longer. -/
theorem Rx.decodes_diagnostic : ((Rx.ready .diagnostic).run
    (fun t => ⟨false, .diagnostic, Setup.diagnostic.lineBit 0xC1 (t / 104)⟩)
      (0 + (Setup.diagnostic.delay + 3))).strobed = some 0x41 := by
  have h := (Rx.decodes (s := .diagnostic) (y := .ready .diagnostic)
    (u := fun t => ⟨false, .diagnostic, Setup.diagnostic.lineBit 0xC1 (t / 104)⟩)
    (fun _ => rfl) (fun _ => rfl) (Rx.ready_ready _) rfl rfl rfl rfl
    ⟨by decide, by decide, by decide⟩ (Carries.single .diagnostic 104 0xC1 (by decide))).1 0
  rw [h]
  decide

/-- The two modules read bit 24 of the setup the other way round: with a parity bit that is not fixed
the receiver flags an error in every byte that is sent with its own setup. -/
theorem Rx.parity_flagged (hu : ∀ t, (u t).reset = false) (hs : ∀ t, (u t).setup = s)
    (h0 : y.Ready s) (hw0 : y.oWr = false) (h1 : y.qUart = true) (h2 : y.qqUart = true)
    (h3 : y.ckUart = true) (hb : s.Tolerates b) (hc : Carries s b f fun t => (u t).uartRx)
    (hp : s.useParity = true) (t : ℕ) (d : Byte) (ht : f t = some d) :
    (y.run u (t + 3 + (s.clocksPerBaud / 2 + (s.width + 1) * s.clocksPerBaud) + 1)).oParityErr =
      !s.fixdParity := by
  have hck : Carries s b (fun t => if t < 3 then none else f (t - 3))
      fun t => (y.run u t).ckUart := by
    simpa only [Rx.ckUart_run h1 h2 h3] using hc.delay 3
  have hf : (if t + 3 < 3 then none else f (t + 3 - 3)) = some d := by
    rwa [if_neg (by omega), Nat.add_sub_cancel]
  exact (Rx.ready_frame hu hs h0 hw0 hb hck hf).run_parityErr hu hs hb
    (fun i hi => hck.bits _ d i hf hi) hp

theorem Rx.parity_flagged_diagnostic : ((Rx.ready .diagnostic).run
    (fun t => ⟨false, .diagnostic, Setup.diagnostic.lineBit 0xC1 (t / 100)⟩) 854).oParityErr =
      true :=
  Rx.parity_flagged (s := .diagnostic) (y := .ready .diagnostic)
    (u := fun t => ⟨false, .diagnostic, Setup.diagnostic.lineBit 0xC1 (t / 100)⟩)
    (fun _ => rfl) (fun _ => rfl) (Rx.ready_ready _) rfl rfl rfl rfl
    (Setup.tolerates_self (by decide)) (Carries.single .diagnostic 100 0xC1 (by decide)) rfl 0 0xC1
    rfl

end Pin

/-! ### After a reset -/

/-- The transmitter counts down the pause that follows a reset. -/
structure Tx.Pauses (c : ℕ) (x : Tx) : Prop extends x.Rests where
  busy : x.rBusy = true
  count : x.baudCounter = c
  bound : c < 2 ^ 28
  zero : x.zeroBaudCounter = decide (c = 0)

section Transmitter

variable {x : Tx} {u : ℕ → TxIn} {c : ℕ}

theorem Tx.Pauses.step {i : TxIn} (h : x.Pauses (c + 1)) (hi : i.Plain) : (x.step i).Pauses c := by
  have hz : x.zeroBaudCounter = false := by
    rw [h.zero]
    simp
  have hlt := h.bound
  refine ⟨h.toRests.step hi (starts_eq_false h.busy), ?_, ?_, by omega,
    zeroBaudCounterNext_count hi hz h.count⟩
  · simp [Tx.step, rBusyNext, hi.reset, hi.brk, hz]
  · simp only [Tx.step, baudCounterNext, hi.reset, hi.brk, hz, h.count, Bool.or_self,
      Bool.not_false, Bool.false_eq_true, if_false, if_true]
    omega

theorem Tx.Pauses.run (h : x.Pauses c) (hu : ∀ t, (u t).Plain) {t : ℕ} (ht : t ≤ c) :
    (x.run u t).Pauses (c - t) := by
  induction t with
  | zero => exact h
  | succ t ih =>
    have ih := ih (by omega)
    rw [show c - t = c - (t + 1) + 1 by omega] at ih
    exact ih.step (hu t)

/-- No byte is taken in the pause. -/
theorem Tx.Pauses.taken_eq_none (h : x.Pauses c) (hu : ∀ t, (u t).Plain) {t : ℕ} (ht : t < c + 2) :
    x.taken u t = none := by
  cases t with
  | zero => rfl
  | succ t =>
    rw [Tx.taken, starts_eq_false (h.run hu (t := t) (by omega)).busy, if_neg Bool.false_ne_true]

theorem Tx.clocksPerBaud_run (hs : ∀ t, (u t).setup = s)
    (hbaud : s.clocksPerBaud ≤ x.rSetup.clocksPerBaud) (t : ℕ) :
    s.clocksPerBaud ≤ (x.run u t).rSetup.clocksPerBaud := by
  induction t with
  | zero => exact hbaud
  | succ t ih =>
    change _ ≤ (if !(x.run u t).rBusy then (u t).setup else (x.run u t).rSetup).clocksPerBaud
    split_ifs
    · rw [hs]
    · exact ih

/-- A reset starts a pause of sixteen bits of the setup in force. -/
theorem Tx.pauses_of_reset {i : TxIn} (hi : i.reset = true) (hb : 0 < x.rSetup.clocksPerBaud) :
    (x.step i).Pauses (16 * x.rSetup.clocksPerBaud) := by
  have hlt := x.rSetup.clocksPerBaud_lt
  refine ⟨⟨?_, ?_⟩, ?_, ?_, by omega, ?_⟩
  · simp [Tx.step, stateNext, hi]
  · simp [Tx.step, oUartTxNext, hi]
  · simp [Tx.step, rBusyNext, hi]
  · simp [Tx.step, baudCounterNext, hi, Setup.breakCondition, Setup.clocksPerBaud, Nat.mul_comm]
  · rw [decide_eq_false (by omega)]
    simp [Tx.step, zeroBaudCounterNext, hi]

end Transmitter

/-- The receiver waits for the line to be idle, high for `n` clocks so far. -/
structure Rx.Syncs (s : Setup) (n : ℕ) (y : Rx) : Prop where
  state : y.state = .resetIdle
  setup : y.rSetup = s
  chg : y.chgCounter = n
  lineSynch : y.lineSynch = false
  noBreak : y.oBreak = false
  preWr : y.preWr = false
  oWr : y.oWr = false
  qUart : y.qUart = true
  qqUart : y.qqUart = true
  ckUart : y.ckUart = true

section Receiver

variable {y : Rx} {u : ℕ → RxIn} {n : ℕ}

theorem Rx.Syncs.step {i : RxIn} (h : y.Syncs s n) (hi : i.reset = false) (hs : i.setup = s)
    (hx : i.uartRx = true) (hn : n < 16 * s.clocksPerBaud) : (y.step i).Syncs s (n + 1) := by
  have hbreak : n < s.breakCondition := by
    rw [Setup.breakCondition, Nat.mul_comm]
    exact hn
  constructor
  · simp [Rx.step, stateNext, hi, h.state, h.lineSynch]
  · simp [Rx.step, h.state, RxState.betweenBytes, hs]
  · simp [Rx.step, chgCounterNext, hi, h.qqUart, h.ckUart, h.setup, h.chg, hbreak]
  · simp [Rx.step, atBreakCondition, h.setup, h.chg, hbreak]
  · simp [Rx.step, h.ckUart]
  · simp [Rx.step, preWrNext, h.state, h.preWr]
  · simp [Rx.step, oWrNext, h.state, h.preWr]
  · exact hx
  · exact h.qUart
  · exact h.qqUart

theorem Rx.Syncs.run (h : y.Syncs s 0) (hu : ∀ t, (u t).reset = false) (hs : ∀ t, (u t).setup = s)
    {t : ℕ} (ht : t ≤ 16 * s.clocksPerBaud) (hx : ∀ k < t, (u k).uartRx = true) :
    (y.run u t).Syncs s t := by
  induction t with
  | zero => exact h
  | succ t ih =>
    have ih := ih (by omega) fun k hk => hx k (by omega)
    exact ih.step (hu t) (hs t) (hx t (by omega)) (by omega)

/-- After sixteen bits of an idle line the receiver waits for a start bit. -/
theorem Rx.Syncs.ready {i j : RxIn} (h : y.Syncs s (16 * s.clocksPerBaud)) (hi : i.reset = false)
    (hj : j.reset = false) (hjs : j.setup = s) :
    (y.step i).oWr = false ∧ ((y.step i).step j).Ready s ∧ ((y.step i).step j).oWr = false := by
  have hbreak : s.breakCondition ≤ 16 * s.clocksPerBaud := by
    rw [Setup.breakCondition, Nat.mul_comm]
    exact le_refl _
  have hstate : (y.step i).state = .resetIdle := by
    simp [Rx.step, stateNext, hi, h.state, h.lineSynch]
  have hsynch : (y.step i).lineSynch = true := by
    simp [Rx.step, atBreakCondition, h.setup, h.chg, h.ckUart, hbreak]
  have hck : (y.step i).ckUart = true := h.qqUart
  have hpre : (y.step i).preWr = false := by
    simp [Rx.step, preWrNext, h.state, h.preWr]
  refine ⟨?_, ⟨?_, ?_, ?_, ?_, ?_, fun hq => ?_⟩, ?_⟩
  · simp [Rx.step, oWrNext, h.state, h.preWr]
  · change (y.step i).stateNext j = _
    simp [stateNext, hj, hstate, hsynch]
  · change (if (y.step i).state.betweenBytes then j.setup else _) = s
    rw [hstate, RxState.betweenBytes, if_pos rfl, hjs]
  · change ((y.step i).atBreakCondition && !(y.step i).ckUart) = false
    rw [hck, Bool.not_true, Bool.and_false]
  · change (!(y.step i).ckUart && _) = false
    rw [hck, Bool.not_true, Bool.false_and]
  · change (y.step i).preWrNext j = false
    simp [preWrNext, hj, hstate, hpre]
  · have hqq : (y.step i).qqUart = false := hq
    change (y.step i).chgCounterNext j = 0
    simp [chgCounterNext, hj, hqq, hck]
  · change (y.step i).oWrNext j = false
    simp [oWrNext, hstate, hpre]

/-- A receiver that comes out of reset and whose line is idle for sixteen bits delivers every frame on
its pin, as `Rx.decodes` says. -/
theorem Rx.Syncs.strobed_run (h : y.Syncs s 0) (hu : ∀ t, (u t).reset = false)
    (hs : ∀ t, (u t).setup = s) (hb : s.Tolerates b) (hc : Carries s b f fun t => (u t).uartRx)
    (hidle : ∀ t < 16 * s.clocksPerBaud, f t = none) (t : ℕ) :
    (y.run u t).strobed =
      if t < s.delay + 3 then none else (f (t - (s.delay + 3))).map s.clip := by
  have hpin : ∀ k < 16 * s.clocksPerBaud, (u k).uartRx = true := fun k hk =>
    hc.rest k fun τ d hτ hle => by
      rw [hidle τ (by omega)] at hτ
      cases hτ
  have hck : Carries s b (fun t => if t < 3 then none else f (t - 3))
      fun t => (y.run u t).ckUart := by
    simpa only [Rx.ckUart_run h.qUart h.qqUart h.ckUart] using hc.delay 3
  have hsyncs := fun t (ht : t ≤ 16 * s.clocksPerBaud) => h.run hu hs ht fun k hk =>
    hpin k (by omega)
  obtain ⟨hlow, hready, hlow'⟩ := (hsyncs _ (le_refl _)).ready (hu (16 * s.clocksPerBaud))
    (hu (16 * s.clocksPerBaud + 1)) (hs _)
  have hdrop := hck.drop (n := 16 * s.clocksPerBaud + 2) fun t ht => by
    split_ifs
    · rfl
    · exact hidle _ (by omega)
  have hT := fun t => Rx.strobed_run (y := y.run u (16 * s.clocksPerBaud + 2))
    (u := fun t => u (16 * s.clocksPerBaud + 2 + t)) (fun t => hu _) (fun t => hs _) hready hlow' hb
    (by simpa only [← run_add] using hdrop) t
  simp only [← run_add] at hT
  rcases Nat.lt_or_ge t (16 * s.clocksPerBaud + 2) with hlt | hge
  · have hstrobe : (y.run u t).oWr = false := by
      rcases Nat.lt_or_ge t (16 * s.clocksPerBaud + 1) with h1 | h1
      · exact (hsyncs t (by omega)).oWr
      · rwa [show t = 16 * s.clocksPerBaud + 1 by omega]
    rw [strobed_eq_none hstrobe]
    split_ifs
    · rfl
    · rw [hidle _ (by omega)]
      rfl
  · obtain ⟨m, rfl⟩ := Nat.exists_eq_add_of_le hge
    rw [hT]
    split_ifs with h1 h2 h3 h4
    · rfl
    · rw [hidle _ (by omega)]
      rfl
    · rfl
    · omega
    · omega
    · rw [show 16 * s.clocksPerBaud + 2 + (m - s.delay) - 3 =
        16 * s.clocksPerBaud + 2 + m - (s.delay + 3) by omega]

/-- A reset of four clocks of a receiver whose line is high from its second one on. -/
theorem Rx.syncs_of_reset (hu : ∀ t < n + 4, (u t).reset = true) (hs : ∀ t, (u t).setup = s)
    (hb : 0 < s.clocksPerBaud) (hx : ∀ t, 0 < t → t < n + 4 → (u t).uartRx = true) :
    (y.run u (n + 4)).Syncs s 0 := by
  have hstate : ∀ t, t < n + 4 → (y.run u (t + 1)).state = .resetIdle := fun t ht => by
    change (y.run u t).stateNext (u t) = _
    rw [stateNext, hu t ht, if_pos rfl]
  have hchg : ∀ t, t < n + 4 → (y.run u (t + 1)).chgCounter = 0 := fun t ht => by
    change (y.run u t).chgCounterNext (u t) = _
    rw [chgCounterNext, hu t ht, if_pos rfl]
  have hset : ∀ t, t + 1 < n + 4 → (y.run u (t + 2)).rSetup = s := fun t ht => by
    change (if (y.run u (t + 1)).state.betweenBytes then (u (t + 1)).setup else _) = _
    rw [hstate t (by omega), RxState.betweenBytes, if_pos rfl, hs]
  have hpre : (y.run u (n + 4)).preWr = false := by
    change (y.run u (n + 3)).preWrNext (u (n + 3)) = _
    rw [preWrNext, hu _ (by omega), if_pos rfl]
  have hnot : (y.run u (n + 3)).atBreakCondition = false := by
    rw [atBreakCondition, hchg (n + 2) (by omega), hset (n + 1) (by omega), Setup.breakCondition,
      ← Setup.clocksPerBaud]
    simp
    omega
  constructor
  · exact hstate (n + 3) (by omega)
  · exact hset (n + 2) (by omega)
  · exact hchg (n + 3) (by omega)
  · change ((y.run u (n + 3)).atBreakCondition && _) = false
    rw [hnot, Bool.false_and]
  · change ((y.run u (n + 3)).atBreakCondition && _) = false
    rw [hnot, Bool.false_and]
  · exact hpre
  · change (y.run u (n + 3)).oWrNext (u (n + 3)) = false
    rw [oWrNext, hu _ (by omega)]
    simp
  · exact hx (n + 3) (by omega) (by omega)
  · exact hx (n + 2) (by omega) (by omega)
  · exact hx (n + 1) (by omega) (by omega)

end Receiver

/-! ### The loopback -/

structure LoopbackIn where
  txReset : Bool
  rxReset : Bool
  wr : Bool
  data : Byte
  setup : Setup

/-- A channel of the SCC in local loopback: a transmitter without flow control and a receiver with the
same setup. -/
structure Loopback where
  tx : Tx
  rx : Rx

namespace LoopbackIn

variable (i : LoopbackIn)

def toTx : TxIn := ⟨i.txReset, false, i.wr, i.data, false, i.setup.flow true⟩

def toRx (line : Bool) : RxIn := ⟨i.rxReset, i.setup.flow false, line⟩

end LoopbackIn

namespace Loopback

def step (l : Loopback) (i : LoopbackIn) : Loopback :=
  ⟨l.tx.step i.toTx, l.rx.step (i.toRx l.tx.oUartTx)⟩

/-- The channel after `t` clocks. -/
abbrev run (l : Loopback) (u : ℕ → LoopbackIn) (t : ℕ) : Loopback := Clocked.run Loopback.step l u t

variable {l : Loopback} {u : ℕ → LoopbackIn}

theorem run_tx (t : ℕ) : (l.run u t).tx = l.tx.run (fun t => (u t).toTx) t := by
  induction t with
  | zero => rfl
  | succ t ih =>
    change (l.run u t).tx.step (u t).toTx = _
    rw [ih]
    rfl

theorem run_rx (t : ℕ) :
    (l.run u t).rx = l.rx.run (fun t => (u t).toRx (l.run u t).tx.oUartTx) t := by
  induction t with
  | zero => rfl
  | succ t ih =>
    change (l.run u t).rx.step _ = _
    rw [ih]
    rfl

end Loopback

/-- The clocks from taking a byte to its strobe. -/
def Setup.latency (s : Setup) : ℕ := s.delay + 4

/-- A channel in local loopback at the end of a reset: the strobes are the bytes taken, with their
data bits, a while later. -/
theorem Loopback.strobed_run {l : Loopback} {u : ℕ → LoopbackIn} {c : ℕ} (hu : ∀ t, (u t).txReset = false ∧ (u t).rxReset = false)
    (hs : ∀ t, (u t).setup = s) (hb : 3 ≤ s.clocksPerBaud) (hx : l.tx.Pauses c)
    (hc : 16 * s.clocksPerBaud ≤ c) (hy : l.rx.Syncs (s.flow false) 0) (n : ℕ) :
    (l.run u n).rx.strobed = if n < s.delay + 3 then none else
      (l.tx.taken (fun t => (u t).toTx) (n - (s.delay + 3))).map s.clip := by
  have hplain : ∀ t, (u t).toTx.Plain := fun t => ⟨(hu t).1, rfl⟩
  have hsound : l.tx.Sound := by constructor <;> intro h <;> cases hx.busy.symm.trans h
  have hnone := fun t => hx.taken_eq_none (t := t) hplain
  have hcar := (Tx.carries (s := s.flow true) hsound hb hplain (fun t => by
    change (u t).setup.flow true = _
    rw [hs]) hx.toRests).flow false
  rw [Loopback.run_rx]
  refine hy.strobed_run (fun t => (hu t).2) (fun t => ?_)
    ((s.flow false).tolerates_self hb) ?_ (fun t ht => hnone t ?_) n
  · change (u t).setup.flow false = _
    rw [hs]
  · simp only [LoopbackIn.toRx, Loopback.run_tx]
    exact hcar
  · have : t < 16 * s.clocksPerBaud := ht
    omega

/-- A channel in local loopback delivers every byte it takes after a reset once, in order and after a
fixed time, and nothing else. -/
theorem loopback (l : Loopback) (u : ℕ → LoopbackIn) (s : Setup) (k : ℕ) (hk : 4 ≤ k)
    (hreset : ∀ t < k, (u t).txReset = true ∧ (u t).rxReset = true)
    (hrun : ∀ t ≥ k, (u t).txReset = false ∧ (u t).rxReset = false) (hs : ∀ t, (u t).setup = s)
    (hb : 3 ≤ s.clocksPerBaud) (hbaud : s.clocksPerBaud ≤ l.tx.rSetup.clocksPerBaud) :
    (∀ t ≥ k, (l.run u (t + s.latency)).rx.strobed =
      if (l.run u t).tx.starts (u t).toTx then some (s.clip (u t).data) else none) ∧
    ∀ t ≥ k, t < k + s.latency → (l.run u t).rx.strobed = none := by
  obtain ⟨n, rfl⟩ := Nat.exists_eq_add_of_le' hk
  have hset : ∀ t x, ((u t).setup.flow x) = s.flow x := fun t x => by rw [hs]
  -- the transmitter and the receiver at the end of the reset
  have hx : (l.run u (n + 4)).tx.Pauses (16 * (l.run u (n + 3)).tx.rSetup.clocksPerBaud) ∧
      s.clocksPerBaud ≤ (l.run u (n + 3)).tx.rSetup.clocksPerBaud := by
    have hle := Tx.clocksPerBaud_run (s := s.flow true) (u := fun t => (u t).toTx)
      (fun t => hset t true) hbaud (n + 3)
    rw [← Loopback.run_tx] at hle
    have hle' : s.clocksPerBaud ≤ (l.run u (n + 3)).tx.rSetup.clocksPerBaud := hle
    exact ⟨Tx.pauses_of_reset (hreset (n + 3) (by omega)).1 (by omega), hle'⟩
  have hy : (l.run u (n + 4)).rx.Syncs (s.flow false) 0 := by
    rw [Loopback.run_rx]
    refine Rx.syncs_of_reset (fun t ht => (hreset t ht).2) (fun t => hset t false)
      (show 0 < s.clocksPerBaud by omega) fun t h0 ht => ?_
    obtain ⟨t, rfl⟩ := Nat.exists_eq_add_of_le' h0
    change (l.run u t).tx.oUartTxNext (u t).toTx = true
    rw [Tx.oUartTxNext, show (u t).toTx.reset = true from (hreset t (by omega)).1, if_pos rfl]
  -- and the run after it
  have hrest := fun m => Loopback.strobed_run (l := l.run u (n + 4)) (u := fun t => u (n + 4 + t))
    (s := s) (fun t => hrun _ (by omega)) (fun t => hs _) hb hx.1 (by omega) hy m
  simp only [← run_add] at hrest
  refine ⟨fun t ht => ?_, fun t ht hlt => ?_⟩
  · obtain ⟨m, rfl⟩ := Nat.exists_eq_add_of_le ht
    rw [Setup.latency, Nat.add_assoc, hrest, if_neg (by omega),
      show m + (s.delay + 4) - (s.delay + 3) = m + 1 by omega, Tx.taken,
      ← Loopback.run_tx (l := l.run u (n + 4)) (u := fun t => u (n + 4 + t))]
    simp only [← run_add]
    split_ifs <;> rfl
  · obtain ⟨m, rfl⟩ := Nat.exists_eq_add_of_le ht
    rw [Setup.latency] at hlt
    rw [hrest]
    split_ifs
    · rfl
    · rw [show m - (s.delay + 3) = 0 by omega]
      rfl

/-- A reset of four clocks, and a byte as soon as one is taken. -/
def sendOnce (t : ℕ) : LoopbackIn := ⟨t < 4, t < 4, t == 69, 0x55, .selfTest⟩

def Loopback.selfTest : Loopback := ⟨{ Tx.init with rSetup := .selfTest }, .init⟩

theorem loopback_selfTest :
    (Loopback.selfTest.run sendOnce (69 + Setup.selfTest.latency)).rx.strobed = some 0x55 := by
  have h := (loopback .selfTest sendOnce .selfTest 4 (le_refl 4)
    (fun t ht => ⟨decide_eq_true ht, decide_eq_true ht⟩)
    (fun t ht => ⟨decide_eq_false (by omega), decide_eq_false (by omega)⟩) (fun _ => rfl)
    (by decide) (by decide)).1 69 (by decide)
  rw [h]
  decide +kernel

end Uart
