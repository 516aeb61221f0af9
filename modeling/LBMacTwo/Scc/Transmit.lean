import LBMacTwo.Scc.Reads

/-!
# The transmit path of the serial controller

* `Serial`: the chip with the strobes `uart_tx_wr` of its two transmitters;
* `written`, `accepted`, `ready`: the bytes written to a channel, those its transmitter has taken, and
  whether RR0 has shown Tx Empty since the last write;
* `Driven`: a driver that polls RR0, and a transmitter that is busy behind a byte and behind a reset;
* `Delivers`: what has been written has been taken or is still held;
* `Held`: where the byte on its way may be, kept as long as no byte is written over it;
* `delivers_iff`: channel A loses nothing, channel B exactly the byte that is written over;
* `overwritten`: channel B shows Tx Empty behind a byte that waits.
-/

namespace Scc
open Clocked

variable {c : Side} {u : ℕ → In} {t : ℕ}

/-! ### The transmitters -/

structure Serial where
  chip : State
  uartTxWr : Side → Bool

namespace Serial

def init : Serial := ⟨.init, fun _ => false⟩

/-- The buffer is given to a transmitter that is not busy. -/
def uartTxWrNext (x : Serial) (c : Side) (i : In) : Bool :=
  !reset x.chip i && (x.chip.chan c).txBufferFull && !(i.line c).txBusy

def step (x : Serial) (i : In) : Serial := ⟨Scc.step x.chip i, fun c => x.uartTxWrNext c i⟩

/-- `auto_echo_tx_wr_a` and `auto_echo_tx_wr_b`. -/
def autoEchoTxWr (x : Serial) (c : Side) : Bool := (x.chip.chan c).wrData || x.uartTxWr c

/-- The transmitter takes `tx_data`. -/
def accepts (x : Serial) (c : Side) (i : In) : Bool := x.autoEchoTxWr c && !(i.line c).txBusy

/-- The byte that has been written and not been taken. -/
def unsent (x : Serial) (c : Side) : List Byte :=
  if (x.chip.chan c).txBufferFull || x.autoEchoTxWr c then [(x.chip.chan c).txData] else []

end Serial

/-- The write registers behind the setup of a transmitter. -/
def setupRegs : List ℕ := [4, 5, 11, 12, 13, 14]

/-- `txuart_reset_a` and `txuart_reset_b`. -/
def txuartReset (c : Side) (s : State) (i : In) : Bool :=
  resetChan c s i || i.cen && wreg c s i && setupRegs.contains (rindexLatch s i)

/-- RR0 of the channel is on the bus, with Tx Empty up. -/
def readsTxEmpty (c : Side) (s : State) (i : In) : Bool :=
  i.cs && !i.we && !i.data && decide (i.side = c) && rindexLatch s i == 0 && (rdata s i).getLsbD 2

/-! ### Runs -/

/-- The controller in clock `t` behind its reset. -/
abbrev serial (u : ℕ → In) (t : ℕ) : Serial := run Serial.step .init u t

def busy (c : Side) (u : ℕ → In) (t : ℕ) : Bool := ((u t).line c).txBusy

/-- The bytes written to the data port before clock `t`. -/
def written (c : Side) (u : ℕ → In) : ℕ → List Byte
  | 0 => []
  | t + 1 => written c u t ++ if dataWrite c (serial u t).chip (u t) then [(u t).wdata] else []

/-- The bytes taken by the transmitter before clock `t`. -/
def accepted (c : Side) (u : ℕ → In) : ℕ → List Byte
  | 0 => []
  | t + 1 => accepted c u t ++
      if (serial u t).accepts c (u t) then [((serial u t).chip.chan c).txData] else []

/-- Tx Empty has been read since the last write. -/
def ready (c : Side) (u : ℕ → In) : ℕ → Bool
  | 0 => false
  | t + 1 => !dataWrite c (serial u t).chip (u t) &&
      (ready c u t || readsTxEmpty c (serial u t).chip (u t))

/-- A byte is written only where Tx Empty has been read since the one before, and the transmitter is
set up only where nothing is unsent. The transmitter is busy behind a byte it takes and behind a
reset, and stays at rest else. -/
structure Driven (c : Side) (u : ℕ → In) : Prop where
  polled : ∀ t, dataWrite c (serial u t).chip (u t) = true → ready c u t = true
  config : ∀ t, txuartReset c (serial u t).chip (u t) = true → written c u t = accepted c u t
  raises : ∀ t, (serial u t).accepts c (u t) = true ∨ txuartReset c (serial u t).chip (u t) = true →
    busy c u (t + 1) = true
  rests : ∀ t, busy c u t = false → (serial u t).accepts c (u t) = false →
    txuartReset c (serial u t).chip (u t) = false → busy c u (t + 1) = false

/-- The bytes written are those taken, in order, and the one on its way, which a transmitter at rest
takes in the next clock. -/
structure Delivers (c : Side) (u : ℕ → In) (t : ℕ) : Prop where
  sent : written c u t = accepted c u t ++ (serial u t).unsent c
  rest : busy c u t = false → accepted c u (t + 2) = written c u (t + 1)

/-- No byte is written while the one before waits in the buffer or is being handed over. -/
def Spaced (c : Side) (u : ℕ → In) : Prop :=
  ∀ t, dataWrite c (serial u t).chip (u t) = true →
    ((serial u t).chip.chan c).txBufferFull = false ∧ (serial u t).uartTxWr c = false

/-! ### One clock -/

section Clock

theorem dataWrite_wires {s : State} {i : In} (h : dataWrite c s i = true) :
    i.data = true ∧ dataPortWrite c i = true := by
  simp only [dataWrite, access, csActive, Bool.and_eq_true, decide_eq_true_eq] at h
  refine ⟨h.1.2, ?_⟩
  simp [dataPortWrite, h]

theorem txuartReset_of_data {s : State} {i : In} (h : i.data = true) :
    txuartReset c s i = false := by
  rw [txuartReset, resetChan_of_data c h, wreg_of_data c h, Bool.and_false]
  rfl

theorem txuartReset_of_reset {s : State} {i : In} (h : reset s i = true) :
    txuartReset c s i = true := by
  simp only [reset, Bool.and_eq_true] at h
  simp [txuartReset, resetChan, h]

theorem chan_succ (c : Side) (u : ℕ → In) (t : ℕ) :
    (serial u (t + 1)).chip.chan c = chanNext c (serial u t).chip (u t) := step_chan c

/-- Tx Empty is read off its latch. -/
theorem readsTxEmpty_latch {s : State} {i : In} (h : readsTxEmpty c s i = true) :
    (s.chan c).txEmptyLatch = true := by
  simp only [readsTxEmpty, Bool.and_eq_true, decide_eq_true_eq, beq_iff_eq,
    Bool.not_eq_true'] at h
  obtain ⟨⟨⟨⟨-, hdata⟩, hside⟩, hpointer⟩, hbit⟩ := h
  rw [rdata, hdata, if_neg Bool.false_ne_true, hside, hpointer] at hbit
  have htwo : ∀ b7 b6 b5 b4 b3 b2 b1 b0 : Bool,
      (packByte b7 b6 b5 b4 b3 b2 b1 b0).getLsbD 2 = b2 := by decide
  cases c <;> exact (htwo _ _ _ _ _ _ _ _).symm.trans hbit

end Clock

/-! ### Where the byte on its way may be -/

/-- A strobe meets a transmitter at rest and finds nothing behind it; on channel A Tx Empty is down,
and has been, while the buffer is full. -/
structure Held (c : Side) (u : ℕ → In) (t : ℕ) : Prop where
  full : ((serial u t).chip.chan c).txBufferFull = true → c = .a →
    ready c u t = false ∧ ((serial u t).chip.chan c).txEmptyLatch = false
  wr : ((serial u t).chip.chan c).wrData = true → busy c u t = false ∧
    ((serial u t).chip.chan c).txBufferFull = false ∧ (serial u t).uartTxWr c = false ∧
      ready c u t = false
  deferred : (serial u t).uartTxWr c = true → busy c u t = false ∧
    ((serial u t).chip.chan c).txBufferFull = false ∧ (c = .a → ready c u t = false)

theorem held_zero (c : Side) (u : ℕ → In) : Held c u 0 := by
  constructor <;> cases c <;> simp [serial, Serial.init, State.init, State.chan, Chan.init]

namespace Held

/-- Every strobe is taken. -/
theorem accepts_eq (h : Held c u t) :
    (serial u t).accepts c (u t) = (serial u t).autoEchoTxWr c := by
  cases hs : (serial u t).autoEchoTxWr c
  case false => rw [Serial.accepts, hs, Bool.false_and]
  case true =>
    have hrest : busy c u t = false := by
      rw [Serial.autoEchoTxWr, Bool.or_eq_true] at hs
      rcases hs with hw | hd
      · exact (h.wr hw).1
      · exact (h.deferred hd).1
    rw [busy] at hrest
    rw [Serial.accepts, hs, hrest]
    rfl

/-- A byte in the buffer is the only one on its way. -/
theorem not_strobe (h : Held c u t)
    (hf : ((serial u t).chip.chan c).txBufferFull = true) : (serial u t).autoEchoTxWr c = false := by
  by_contra hs
  rw [Bool.not_eq_false, Serial.autoEchoTxWr, Bool.or_eq_true] at hs
  rcases hs with hw | hd
  · rw [(h.wr hw).2.1] at hf
    cases hf
  · rw [(h.deferred hd).2.1] at hf
    cases hf

/-- On channel A Tx Empty is down while a byte is on its way. -/
theorem spaced (d : Driven c u) (h : Held c u t) (hc : c = .a)
    (hw : dataWrite c (serial u t).chip (u t) = true) :
    ((serial u t).chip.chan c).txBufferFull = false ∧ (serial u t).uartTxWr c = false := by
  have hready := d.polled t hw
  constructor
  · by_contra hf
    rw [(h.full (by simpa using hf) hc).1] at hready
    cases hready
  · by_contra hd
    rw [(h.deferred (by simpa using hd)).2.2 hc] at hready
    cases hready

end Held

/-! ### One clock of the path -/

section Path

variable (d : Driven c u) (h : Held c u t)
  (hsent : written c u t = accepted c u t ++ (serial u t).unsent c)

include d hsent in
/-- A transmitter is not set up while a byte is on its way. -/
theorem txuartReset_of_unsent (hx : ((serial u t).chip.chan c).txBufferFull = true ∨
    (serial u t).autoEchoTxWr c = true) : txuartReset c (serial u t).chip (u t) = false := by
  by_contra hr
  rw [d.config t (by simpa using hr), Serial.unsent, if_pos (by simpa using hx)] at hsent
  simp at hsent

/-- Nothing but a write opens the way to the next one. -/
theorem ready_next (hlatch : ((serial u t).chip.chan c).txEmptyLatch = false)
    (hready : ready c u t = false) : ready c u (t + 1) = false := by
  have hread : readsTxEmpty c (serial u t).chip (u t) = false := by
    by_contra hread
    rw [readsTxEmpty_latch (by simpa using hread)] at hlatch
    cases hlatch
  rw [ready, hready, hread, Bool.or_false, Bool.and_false]

theorem ready_of_write (hw : dataWrite c (serial u t).chip (u t) = true) :
    ready c u (t + 1) = false := by
  rw [ready, hw]
  rfl

/-- The latch of channel A stays down behind a busy transmitter. -/
theorem latch_next (hbusy : busy c u t = true)
    (hr : txuartReset c (serial u t).chip (u t) = false)
    (hdown : txEmptyClear c (serial u t).chip (u t) = true ∨
      ((serial u t).chip.chan c).txEmptyLatch = false) :
    ((serial u (t + 1)).chip.chan c).txEmptyLatch = false := by
  have hreset : resetChan c (serial u t).chip (u t) = false := by
    rw [txuartReset, Bool.or_eq_false_iff] at hr
    exact hr.1
  have hdone : txDone c (serial u t).chip (u t) = false := by
    rw [busy] at hbusy
    rw [txDone, hbusy, Bool.not_true, Bool.and_false]
  rw [chan_succ]
  change txEmptyLatchNext c _ _ = false
  rw [txEmptyLatchNext, hreset, hdone]
  rcases hdown with hclear | hlatch
  · rw [hclear]
    rfl
  · rw [hlatch]
    simp

theorem full_succ (c : Side) (u : ℕ → In) (t : ℕ) :
    ((serial u (t + 1)).chip.chan c).txBufferFull = txBufferFullNext c (serial u t).chip (u t) := by
  rw [chan_succ]
  rfl

theorem wrData_succ (c : Side) (u : ℕ → In) (t : ℕ) :
    ((serial u (t + 1)).chip.chan c).wrData = wrDataNext c (serial u t).chip (u t) := by
  rw [chan_succ]
  rfl

theorem uartTxWr_succ (c : Side) (u : ℕ → In) (t : ℕ) :
    (serial u (t + 1)).uartTxWr c = (serial u t).uartTxWrNext c (u t) := rfl

/-- The buffer is emptied where the transmitter is at rest. -/
theorem full_of_rest (hbusy : busy c u t = false) :
    ((serial u (t + 1)).chip.chan c).txBufferFull = false := by
  rw [busy] at hbusy
  rw [full_succ, txBufferFullNext, hbusy]
  cases ((serial u t).chip.chan c).txBufferFull <;> simp

include d h hsent in
theorem Held.step (hspaced : dataWrite c (serial u t).chip (u t) = true →
    ((serial u t).chip.chan c).txBufferFull = false ∧ (serial u t).uartTxWr c = false) :
    Held c u (t + 1) := by
  refine ⟨fun hf hc => ?_, fun hw => ?_, fun hd => ?_⟩
  · -- a byte is in the buffer behind a busy transmitter, just written or still
    rw [full_succ, txBufferFullNext] at hf
    split_ifs at hf with hreset hgone hwrite
    · have hdata := (dataWrite_wires hwrite).1
      have hclear : txEmptyClear c (serial u t).chip (u t) = true := by
        subst hc
        rw [txEmptyClear, (dataWrite_wires hwrite).2, Bool.true_or]
      exact ⟨ready_of_write hwrite, latch_next hf (txuartReset_of_data hdata) (.inl hclear)⟩
    · have hbusy : busy c u t = true := by
        rw [hf, Bool.true_and, Bool.not_eq_true', Bool.not_eq_false] at hgone
        exact hgone
      obtain ⟨hready, hlatch⟩ := h.full hf hc
      exact ⟨ready_next hlatch hready,
        latch_next hbusy (txuartReset_of_unsent d hsent (.inl hf)) (.inr hlatch)⟩
  · -- the byte has just been written to a transmitter at rest
    rw [wrData_succ, wrDataNext, Bool.and_eq_true, Bool.and_eq_true] at hw
    obtain ⟨⟨-, hwrite⟩, hrest⟩ := hw
    have hbusy : busy c u t = false := (Bool.not_eq_true' _).mp hrest
    obtain ⟨hfull, hdeferred⟩ := hspaced hwrite
    have hwr : ((serial u t).chip.chan c).wrData = false := by
      by_contra hwr
      have hready := d.polled t hwrite
      rw [(h.wr (by simpa using hwr)).2.2.2] at hready
      cases hready
    have haccepts : (serial u t).accepts c (u t) = false := by
      rw [h.accepts_eq, Serial.autoEchoTxWr, hwr, hdeferred]
      rfl
    refine ⟨d.rests t hbusy haccepts (txuartReset_of_data (dataWrite_wires hwrite).1),
      full_of_rest hbusy, ?_, ready_of_write hwrite⟩
    rw [uartTxWr_succ, Serial.uartTxWrNext, hfull, Bool.and_false, Bool.false_and]
  · -- the buffer has just been given to a transmitter at rest
    rw [uartTxWr_succ, Serial.uartTxWrNext, Bool.and_eq_true, Bool.and_eq_true] at hd
    obtain ⟨⟨-, hfull⟩, hrest⟩ := hd
    have hbusy : busy c u t = false := (Bool.not_eq_true' _).mp hrest
    have haccepts : (serial u t).accepts c (u t) = false := by
      rw [h.accepts_eq, h.not_strobe hfull]
    refine ⟨d.rests t hbusy haccepts (txuartReset_of_unsent d hsent (.inl hfull)),
      full_of_rest hbusy, fun hc => ?_⟩
    obtain ⟨hready, hlatch⟩ := h.full hfull hc
    exact ready_next hlatch hready

/-- No strobe comes out of an empty buffer. -/
theorem strobe_of_empty (hfull : ((serial u t).chip.chan c).txBufferFull = false)
    (hw : dataWrite c (serial u t).chip (u t) = false) :
    (serial u (t + 1)).autoEchoTxWr c = false := by
  rw [Serial.autoEchoTxWr, wrData_succ, wrDataNext, uartTxWr_succ, Serial.uartTxWrNext, hfull, hw]
  simp

theorem txData_succ (c : Side) (u : ℕ → In) (t : ℕ) :
    ((serial u (t + 1)).chip.chan c).txData = txDataNext c (serial u t).chip (u t) := by
  rw [chan_succ]
  rfl

include d h hsent in
/-- What is written is put behind what is on its way, and what is taken is the front of it. -/
theorem sent_succ (hspaced : dataWrite c (serial u t).chip (u t) = true →
    ((serial u t).chip.chan c).txBufferFull = false ∧ (serial u t).uartTxWr c = false) :
    written c u (t + 1) = accepted c u (t + 1) ++ (serial u (t + 1)).unsent c := by
  have haccepts := h.accepts_eq
  rw [written, accepted, hsent, haccepts]
  cases hw : dataWrite c (serial u t).chip (u t)
  case true =>
    -- nothing is on its way
    obtain ⟨hfull, hdeferred⟩ := hspaced hw
    have hreset := reset_of_data (s := (serial u t).chip) (dataWrite_wires hw).1
    have hwr : ((serial u t).chip.chan c).wrData = false := by
      by_contra hwr
      have hready := d.polled t hw
      rw [(h.wr (by simpa using hwr)).2.2.2] at hready
      cases hready
    have hstrobe : (serial u t).autoEchoTxWr c = false := by
      rw [Serial.autoEchoTxWr, hwr, hdeferred]
      rfl
    have hnext : ((serial u (t + 1)).chip.chan c).txBufferFull = busy c u t ∧
        ((serial u (t + 1)).chip.chan c).wrData = !busy c u t := by
      rw [full_succ, wrData_succ, txBufferFullNext, wrDataNext, hreset, hfull, hw, busy]
      simp
    have hheld : (((serial u (t + 1)).chip.chan c).txBufferFull ||
        (serial u (t + 1)).autoEchoTxWr c) = true := by
      rw [Serial.autoEchoTxWr, hnext.1, hnext.2]
      cases busy c u t <;> rfl
    rw [Serial.unsent, Serial.unsent, hfull, hstrobe, hheld, txData_succ, txDataNext, hreset, hw]
    simp
  case false =>
    cases hs : (serial u t).autoEchoTxWr c
    case true =>
      -- the byte is taken
      have hfull : ((serial u t).chip.chan c).txBufferFull = false := by
        by_contra hfull
        rw [h.not_strobe (by simpa using hfull)] at hs
        cases hs
      have hnext : ((serial u (t + 1)).chip.chan c).txBufferFull = false := by
        rw [full_succ, txBufferFullNext, hfull, hw]
        simp
      rw [Serial.unsent, Serial.unsent, hfull, hs, hnext, strobe_of_empty hfull hw]
      simp
    case false =>
      cases hfull : ((serial u t).chip.chan c).txBufferFull
      case false =>
        have hnext : ((serial u (t + 1)).chip.chan c).txBufferFull = false := by
          rw [full_succ, txBufferFullNext, hfull, hw]
          simp
        rw [Serial.unsent, Serial.unsent, hfull, hs, hnext, strobe_of_empty hfull hw]
        simp
      case true =>
        -- the byte waits, or is given to the transmitter
        have hreset : reset (serial u t).chip (u t) = false := by
          by_contra hr
          have hunsent := txuartReset_of_unsent d hsent (.inl hfull)
          rw [txuartReset_of_reset (by simpa using hr)] at hunsent
          cases hunsent
        have hnext : ((serial u (t + 1)).chip.chan c).txBufferFull = busy c u t ∧
            (serial u (t + 1)).uartTxWr c = !busy c u t := by
          rw [full_succ, uartTxWr_succ, txBufferFullNext, Serial.uartTxWrNext, hreset, hfull, hw,
            busy]
          cases ((u t).line c).txBusy <;> simp
        have hheld : (((serial u (t + 1)).chip.chan c).txBufferFull ||
            (serial u (t + 1)).autoEchoTxWr c) = true := by
          rw [Serial.autoEchoTxWr, hnext.1, hnext.2]
          cases busy c u t <;> simp
        rw [Serial.unsent, Serial.unsent, hfull, hheld, txData_succ, txDataNext, hreset, hw]
        simp

/-- What a transmitter at rest finds on its way is taken in the next clock. -/
theorem accepted_of_rest (h' : Held c u (t + 1)) (hbusy : busy c u t = false)
    (hsent' : written c u (t + 1) = accepted c u (t + 1) ++ (serial u (t + 1)).unsent c) :
    accepted c u (t + 2) = written c u (t + 1) := by
  rw [hsent', accepted, h'.accepts_eq, Serial.unsent, full_of_rest hbusy, Bool.false_or]

end Path

/-! ### Runs -/

theorem held_run (d : Driven c u) (hspaced : c = .a ∨ Spaced c u) (t : ℕ) :
    Held c u t ∧ written c u t = accepted c u t ++ (serial u t).unsent c := by
  induction t with
  | zero =>
    refine ⟨held_zero c u, ?_⟩
    cases c <;> rfl
  | succ t ih =>
    obtain ⟨hheld, hsent⟩ := ih
    have hclear : dataWrite c (serial u t).chip (u t) = true →
        ((serial u t).chip.chan c).txBufferFull = false ∧ (serial u t).uartTxWr c = false := by
      intro hw
      rcases hspaced with hc | hspaced
      · exact hheld.spaced d hc hw
      · exact hspaced t hw
    exact ⟨hheld.step d hsent hclear, sent_succ d hheld hsent hclear⟩

theorem length_unsent_le (x : Serial) (c : Side) : (x.unsent c).length ≤ 1 := by
  rw [Serial.unsent]
  split_ifs
  · exact Nat.le_refl 1
  · exact Nat.zero_le 1

/-- A byte written over another is one too many. -/
theorem not_delivers (d : Driven c u) (hw : dataWrite c (serial u t).chip (u t) = true)
    (hon : ((serial u t).chip.chan c).txBufferFull = true ∨ (serial u t).uartTxWr c = true) :
    ¬ ∀ t, Delivers c u t := by
  intro h
  have hunsent : ((serial u t).unsent c).length = 1 := by
    rw [Serial.unsent, if_pos]
    · rfl
    · rcases hon with hfull | hdeferred
      · rw [hfull, Bool.true_or]
      · rw [Serial.autoEchoTxWr, hdeferred, Bool.or_true, Bool.or_true]
  have hlen0 := congrArg List.length (h t).sent
  have hlen1 := congrArg List.length (h (t + 1)).sent
  have hlen2 := congrArg List.length (h (t + 2)).sent
  rw [List.length_append] at hlen0 hlen1 hlen2
  have hone := length_unsent_le (serial u (t + 1)) c
  have hwritten : (written c u (t + 1)).length = (written c u t).length + 1 := by
    rw [written, hw]
    simp
  have haccepted : ∀ t, (accepted c u (t + 1)).length =
      (accepted c u t).length + ((serial u t).accepts c (u t)).toNat := by
    intro t
    rw [accepted]
    cases (serial u t).accepts c (u t) <;> simp
  -- the byte before is taken in this very clock, so that the transmitter is busy in the next
  have htaken : (serial u t).accepts c (u t) = true := by
    by_contra hno
    rw [haccepted t, Bool.eq_false_iff.mpr hno, Bool.toNat_false] at hlen1
    omega
  have hbusy : busy c u t = false := by
    rw [Serial.accepts, Bool.and_eq_true] at htaken
    exact (Bool.not_eq_true' _).mp htaken.2
  have hbusy' : busy c u (t + 1) = true := d.raises t (.inl htaken)
  have hnone : dataWrite c (serial u (t + 1)).chip (u (t + 1)) = false := by
    by_contra hw'
    have hready := d.polled (t + 1) (by simpa using hw')
    rw [ready_of_write hw] at hready
    cases hready
  have hrefused : (serial u (t + 1)).accepts c (u (t + 1)) = false := by
    rw [busy] at hbusy'
    rw [Serial.accepts, hbusy', Bool.not_true, Bool.and_false]
  -- and the byte just written is gone in the one behind
  have hgone : ((serial u (t + 2)).unsent c).length = 0 := by
    have hfull := full_of_rest hbusy
    have hnext : ((serial u (t + 2)).chip.chan c).txBufferFull = false := by
      rw [full_succ, txBufferFullNext, hfull, hnone]
      simp
    rw [Serial.unsent, hnext, strobe_of_empty hfull hnone]
    rfl
  have hsame : (written c u (t + 2)).length = (written c u (t + 1)).length := by
    rw [written, hnone]
    simp
  rw [hsame, hgone, haccepted (t + 1), hrefused, Bool.toNat_false, haccepted t, htaken,
    Bool.toNat_true] at hlen2
  omega

/-- Behind a driver that polls Tx Empty before every byte, for every pattern of a transmitter that is
busy behind a byte and behind a reset: the bytes taken are the bytes written, each once and in order,
on channel A always, and on channel B exactly if no byte is written while the one before waits in the
buffer or is being handed over. -/
theorem delivers_iff (d : Driven c u) : (∀ t, Delivers c u t) ↔ c = .a ∨ Spaced c u := by
  constructor
  · intro h
    refine .inr fun t hw => ?_
    by_contra hon
    refine not_delivers d hw ?_ h
    rw [not_and_or, Bool.not_eq_false, Bool.not_eq_false] at hon
    exact hon
  · intro hspaced t
    obtain ⟨-, hsent⟩ := held_run d hspaced t
    obtain ⟨hheld, hsent'⟩ := held_run d hspaced (t + 1)
    exact ⟨hsent, fun hbusy => accepted_of_rest hheld hbusy hsent'⟩

/-! ### Sessions -/

/-- The checks of `Driven` in a clock. -/
def drivenAt (c : Side) (u : ℕ → In) (t : ℕ) : Bool :=
  let x := serial u t
  let taken := x.accepts c (u t)
  let setup := txuartReset c x.chip (u t)
  (!dataWrite c x.chip (u t) || ready c u t) && (!setup || written c u t == accepted c u t) &&
    (!(taken || setup) || busy c u (t + 1)) && (busy c u t || taken || setup || !busy c u (t + 1))

theorem driven_of_checks (h : ∀ t, drivenAt c u t = true) : Driven c u := by
  have hall := fun t => h t
  simp only [drivenAt, Bool.and_eq_true, Bool.or_eq_true, Bool.not_eq_true'] at hall
  refine ⟨fun t hw => ?_, fun t hr => ?_, fun t hx => ?_, fun t hb ha hr => ?_⟩
  · simpa [hw] using (hall t).1.1.1
  · simpa [hr] using (hall t).1.1.2
  · rcases hx with ha | hr
    · simpa [ha] using (hall t).1.2
    · simpa [hr] using (hall t).1.2
  · simpa [hb, ha, hr] using (hall t).2

/-- A clock with or without an access, and with busy transmitters or without. -/
def session (l : List (Option Access × Bool)) (t : ℕ) : In :=
  { (l.getD t (none, false)).1.elim idle fun x => x.clock true true with
    line := fun _ => { quiet with txBusy := (l.getD t (none, false)).2 } }

theorem session_of_le {l : List (Option Access × Bool)} (h : l.length ≤ t) :
    (session l t).cs = false ∧ busy c (session l) t = false := by
  have hnone : l.getD t (none, false) = (none, false) := by
    rw [List.getD_eq_getElem?_getD, List.getElem?_eq_none h]
    rfl
  rw [busy, session, hnone]
  exact ⟨rfl, rfl⟩

/-- A session that leaves nothing on its way. -/
theorem driven_session {l : List (Option Access × Bool)}
    (h : ∀ t < l.length, drivenAt c (session l) t = true)
    (hend : (serial (session l) l.length).unsent c = []) : Driven c (session l) := by
  have hquiet : ∀ t, l.length ≤ t → dataWrite c (serial (session l) t).chip (session l t) = false ∧
      txuartReset c (serial (session l) t).chip (session l t) = false := by
    intro t ht
    have hcs := (@session_of_le .a t l ht).1
    simp [dataWrite, access, txuartReset, resetChan, wselAny, wsel, wreg, csActive, hcs]
  have hrest : ∀ t, l.length ≤ t → ((serial (session l) t).chip.chan c).txBufferFull = false ∧
      (serial (session l) t).autoEchoTxWr c = false := by
    intro t ht
    induction t, ht using Nat.le_induction with
    | base =>
      rw [Serial.unsent] at hend
      split_ifs at hend with hnone
      rwa [Bool.or_eq_true, not_or, Bool.not_eq_true, Bool.not_eq_true] at hnone
    | succ t ht ih =>
      refine ⟨?_, strobe_of_empty ih.1 (hquiet t ht).1⟩
      rw [full_succ, txBufferFullNext, ih.1, (hquiet t ht).1]
      simp
  refine driven_of_checks fun t => ?_
  rcases Nat.lt_or_ge t l.length with hlt | hge
  · exact h t hlt
  · have hbusy := (@session_of_le c (t + 1) l (by omega)).2
    rw [drivenAt, Serial.accepts, (hrest t hge).2, (hquiet t hge).1, (hquiet t hge).2, hbusy]
    simp

/-- The transmitter is set up, and while it is busy a byte is written and Tx Empty read again. -/
def setUp (c : Side) : List (Option Access × Bool) :=
  [(some ⟨true, false, c, 4⟩, false), (none, false), (some ⟨true, false, c, 0x44⟩, false),
    (none, true), (some ⟨false, false, c, 0⟩, true), (none, true),
    (some ⟨true, true, c, 0x11⟩, true), (none, true), (some ⟨false, false, c, 0⟩, true),
    (none, true)]

/-- The second byte follows when Tx Empty is read as 1. -/
def patient : List (Option Access × Bool) :=
  setUp .a ++ [(none, false), (none, false), (none, true), (some ⟨false, false, .a, 0⟩, true),
    (none, true), (some ⟨true, true, .a, 0x22⟩, true), (none, true), (none, false), (none, false),
    (none, true)]

theorem driven_patient : Driven .a (session patient) :=
  driven_session (by decide +kernel) (by decide +kernel)

theorem delivers_patient : (∀ t, Delivers .a (session patient) t) ∧
    accepted .a (session patient) 20 = [0x11, 0x22] :=
  ⟨(delivers_iff driven_patient).mpr (.inl rfl), by decide +kernel⟩

/-- On channel B Tx Empty is up behind the first byte. -/
def hasty : List (Option Access × Bool) :=
  setUp .b ++ [(some ⟨true, true, .b, 0x22⟩, true), (none, true), (none, false), (none, false),
    (none, true)]

theorem driven_hasty : Driven .b (session hasty) :=
  driven_session (by decide +kernel) (by decide +kernel)

theorem overwritten : Driven .b (session hasty) ∧ written .b (session hasty) 15 = [0x11, 0x22] ∧
    accepted .b (session hasty) 15 = [0x22] ∧ ¬ ∀ t, Delivers .b (session hasty) t := by
  have hwritten : written .b (session hasty) 15 = [0x11, 0x22] := by decide +kernel
  have haccepted : accepted .b (session hasty) 15 = [0x22] := by decide +kernel
  refine ⟨driven_hasty, hwritten, haccepted, fun h => ?_⟩
  have hsent := (h 15).sent
  have hnone : (serial (session hasty) 15).unsent .b = [] := by decide +kernel
  rw [hwritten, haccepted, hnone] at hsent
  cases hsent

end Scc
