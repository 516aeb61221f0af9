import LBMacTwo.Foundation.Bits

/-!
# The serial controller `scc.v`

One `Chan` field per register of a channel, one definition per wire and per register of the
`always` blocks. The blocks of the two channels are the same but where a definition looks at its
side. The receivers and transmitters are outside: what they put on their wires is part of the input.
A reset takes effect at the end of the clock in which its wire is up, which is when the registers
that are reset at once are next looked at. `reset_hw` is the start of a run.
-/

namespace Scc

inductive Side
  | a
  | b
  deriving DecidableEq

/-- The registers of a channel. -/
structure Chan where
  rindex : ℕ
  sccState : Bool
  rxQueue : ℕ → Byte
  rxQueuePos : ℕ
  rxFirst : Bool
  txData : Byte
  txBufferFull : Bool
  wrData : Bool
  wr1 : Byte
  wr3 : Byte
  wr4 : Byte
  wr5 : Byte
  wr10 : Byte
  wr12 : Byte
  wr13 : Byte
  wr14 : Byte
  wr15 : Byte
  latchOpen : Bool
  dcdLatch : Bool
  exIrqIp : Bool
  eomLatch : Bool
  syncHunt : Bool
  txEmptyLatch : Bool
  txIntLatch : Bool
  txBusyR : Bool

structure State where
  csConsumed : Bool
  wr2 : Byte
  wr9 : Byte
  ctsLatchA : Bool
  a : Chan
  b : Chan

def State.chan (s : State) : Side → Chan
  | .a => s.a
  | .b => s.b

/-- A channel under `reset_hw`. -/
def Chan.init : Chan where
  rindex := 0
  sccState := false
  rxQueue := fun _ => 0
  rxQueuePos := 0
  rxFirst := true
  txData := 0
  txBufferFull := false
  wrData := false
  wr1 := 0
  wr3 := 0
  wr4 := 0
  wr5 := 0
  wr10 := 0
  wr12 := 0
  wr13 := 0
  wr14 := 0
  wr15 := 0xF8
  latchOpen := true
  dcdLatch := true
  exIrqIp := false
  eomLatch := false
  syncHunt := true
  txEmptyLatch := true
  txIntLatch := false
  txBusyR := false

def State.init : State := ⟨false, 0, 0, true, .init, .init⟩

/-- The wires of a channel's transmitter, receiver and modem inputs. -/
structure Line where
  txBusy : Bool
  rxWr : Bool
  data : Byte
  dcd : Bool

/-- The wires in a clock: `data` is `rs[1]`, and `side` is `a` where `rs[0]` is up. -/
structure In where
  cep : Bool
  cen : Bool
  cs : Bool
  we : Bool
  data : Bool
  side : Side
  wdata : Byte
  line : Side → Line

/-- `wdata[5:3]`, the command of a WR0 write. -/
def command (d : Byte) : ℕ := d.toNat / 8 % 8

/-- `wdata[7:6]`, the second command of a WR0 write, or the reset of a WR9 write. -/
def topBits (d : Byte) : ℕ := d.toNat / 64

/-- The pointer that a WR0 write sets: command 1 is Point High. -/
def nextPointer (d : Byte) : ℕ := (if command d = 1 then 8 else 0) + d.toNat % 8

/-! ### Bus accesses -/

def csActive (s : State) (i : In) : Bool := i.cs && !s.csConsumed

def wreg (c : Side) (s : State) (i : In) : Bool :=
  csActive s i && i.we && !i.data && decide (i.side = c)

/-- The pointer of the channel on the bus. -/
def rindexLatch (s : State) (i : In) : ℕ := if i.cs && !i.data then (s.chan i.side).rindex else 0

/-- The write is to register `n` of channel `c`. -/
def wsel (c : Side) (n : ℕ) (s : State) (i : In) : Bool := wreg c s i && rindexLatch s i == n

/-- The write is to a register that both channels share. -/
def wselAny (n : ℕ) (s : State) (i : In) : Bool := wsel .a n s i || wsel .b n s i

def reset (s : State) (i : In) : Bool := wselAny 9 s i && topBits i.wdata == 3

/-- The value of `wdata[7:6]` that resets one channel. -/
def Side.resetBits : Side → ℕ
  | a => 2
  | b => 1

/-- `reset_a` and `reset_b`. -/
def resetChan (c : Side) (s : State) (i : In) : Bool :=
  wselAny 9 s i && (topBits i.wdata == c.resetBits || topBits i.wdata == 3)

/-- The clock in which an access to a port of channel `c` is carried out. -/
def access (c : Side) (s : State) (i : In) : Bool :=
  i.cen && csActive s i && decide (i.side = c)

/-! ### The register pointers -/

/-- The write is taken as a WR0 write. -/
def pointing (c : Side) (s : State) (i : In) : Bool :=
  access c s i && !i.data && i.we && (!(s.chan c).sccState || (s.chan c).rindex == 0)

def rindexNext (c : Side) (s : State) (i : In) : ℕ :=
  if reset s i then 0
  else if pointing c s i then nextPointer i.wdata
  else if access c s i && !i.data && (s.chan c).sccState then 0 else (s.chan c).rindex

def sccStateNext (c : Side) (s : State) (i : In) : Bool :=
  if reset s i then false
  else if pointing c s i then true
  else if access c s i && !i.data then false else (s.chan c).sccState

/-! ### The receive queue -/

/-- A data read takes a byte out. -/
def dequeue (c : Side) (s : State) (i : In) : Bool :=
  access c s i && i.data && !i.we && (s.chan c).rxQueuePos != 0

def enqueue (c : Side) (s : State) (i : In) : Bool :=
  (i.line c).rxWr && decide ((s.chan c).rxQueuePos < 3)

/-- The queue after its first byte has been taken. -/
def shiftQueue (q : ℕ → Byte) (k : ℕ) : Byte := if k < 2 then q (k + 1) else 0

/-- The shift is assigned last and wins over an arrival. -/
def rxQueueNext (c : Side) (s : State) (i : In) : ℕ → Byte :=
  if dequeue c s i then shiftQueue (s.chan c).rxQueue
  else if enqueue c s i then
    Function.update (s.chan c).rxQueue (s.chan c).rxQueuePos (i.line c).data
  else (s.chan c).rxQueue

def rxQueuePosNext (c : Side) (s : State) (i : In) : ℕ :=
  if reset s i then 0
  else if dequeue c s i then (s.chan c).rxQueuePos - 1
  else if enqueue c s i then (s.chan c).rxQueuePos + 1 else (s.chan c).rxQueuePos

/-- Command 4 enables an interrupt on the next character. -/
def rxFirstNext (c : Side) (s : State) (i : In) : Bool :=
  if reset s i then true
  else if pointing c s i && command i.wdata == 4 then true
  else if dequeue c s i then false else (s.chan c).rxFirst

/-! ### The transmit buffer -/

def dataWrite (c : Side) (s : State) (i : In) : Bool := access c s i && i.data && i.we

@[simp] def txDataNext (c : Side) (s : State) (i : In) : Byte :=
  if reset s i then 0 else if dataWrite c s i then i.wdata else (s.chan c).txData

def txBufferFullNext (c : Side) (s : State) (i : In) : Bool :=
  if reset s i then false
  else if (s.chan c).txBufferFull && !(i.line c).txBusy then false
  else if dataWrite c s i then (i.line c).txBusy else (s.chan c).txBufferFull

def wrDataNext (c : Side) (s : State) (i : In) : Bool :=
  !reset s i && dataWrite c s i && !(i.line c).txBusy

/-! ### The write registers -/

/-- A register that only writes change. -/
@[simp] def wrNext (n : ℕ) (r : Byte) (c : Side) (s : State) (i : In) : Byte :=
  if i.cen && wsel c n s i then i.wdata else r

@[simp] def wr1Next (c : Side) (s : State) (i : In) : Byte :=
  if i.cen && resetChan c s i then (s.chan c).wr1 &&& 0x24 else wrNext 1 (s.chan c).wr1 c s i

@[simp] def wr2Next (s : State) (i : In) : Byte := if i.cen && wselAny 2 s i then i.wdata else s.wr2

@[simp] def wr3Next (c : Side) (s : State) (i : In) : Byte := wrNext 3 (s.chan c).wr3 c s i

@[simp] def wr4Next (c : Side) (s : State) (i : In) : Byte := wrNext 4 (s.chan c).wr4 c s i

@[simp] def wr5Next (c : Side) (s : State) (i : In) : Byte :=
  if i.cen && resetChan c s i then (s.chan c).wr5 &&& 0x61 else wrNext 5 (s.chan c).wr5 c s i

/-- The low six bits. -/
@[simp] def wr9Next (s : State) (i : In) : Byte :=
  if i.cen && wselAny 9 s i then i.wdata &&& 0x3F else s.wr9

@[simp] def wr10Next (c : Side) (s : State) (i : In) : Byte :=
  if reset s i then 0
  else if i.cen && resetChan c s i then (s.chan c).wr10 &&& 0x60
  else wrNext 10 (s.chan c).wr10 c s i

@[simp] def wr12Next (c : Side) (s : State) (i : In) : Byte := wrNext 12 (s.chan c).wr12 c s i

@[simp] def wr13Next (c : Side) (s : State) (i : In) : Byte := wrNext 13 (s.chan c).wr13 c s i

@[simp] def wr14Next (c : Side) (s : State) (i : In) : Byte :=
  if i.cen && reset s i then (s.chan c).wr14 &&& 0xC0 ||| 0x30
  else if i.cen && resetChan c s i then (s.chan c).wr14 &&& 0xC3 ||| 0x20
  else wrNext 14 (s.chan c).wr14 c s i

@[simp] def wr15Next (c : Side) (s : State) (i : In) : Byte :=
  if reset s i then 0xF8 else wrNext 15 (s.chan c).wr15 c s i

/-! ### External and status latches -/

/-- Reset Ext/Status Interrupts. -/
def doExtreset (c : Side) (s : State) (i : In) : Bool := wsel c 0 s i && command i.wdata == 2

def dcdIp (c : Side) (s : State) (i : In) : Bool :=
  ((i.line c).dcd != (s.chan c).dcdLatch) && (s.chan c).wr15.getLsbD 3

/-- `cts_a` is `~tx_busy_a`. -/
def ctsIpA (s : State) (i : In) : Bool :=
  ((!(i.line .a).txBusy) != s.ctsLatchA) && s.a.wr15.getLsbD 5

/-- Channel B has no CTS. -/
def doLatch (c : Side) (s : State) (i : In) : Bool :=
  (s.chan c).latchOpen && (dcdIp c s i || decide (c = .a) && ctsIpA s i)

def exIrqIpNext (c : Side) (s : State) (i : In) : Bool :=
  if reset s i then false
  else if i.cep && doExtreset c s i then false
  else if i.cep && doLatch c s i && (s.chan c).wr1.getLsbD 0 then true else (s.chan c).exIrqIp

def latchOpenNext (c : Side) (s : State) (i : In) : Bool :=
  if reset s i then true
  else if i.cep && doExtreset c s i then true
  else if i.cep && doLatch c s i then false else (s.chan c).latchOpen

def dcdLatchNext (c : Side) (s : State) (i : In) : Bool :=
  if resetChan c s i then true
  else if i.cep && doLatch c s i then (i.line c).dcd else (s.chan c).dcdLatch

/-- Follows CTS, also while the latches are closed. -/
def ctsLatchANext (s : State) (i : In) : Bool :=
  if resetChan .a s i then true else if i.cep then !(i.line .a).txBusy else s.ctsLatchA

/-- The transmitter is empty, and so is its buffer. -/
def txIdle (c : Side) (s : State) (i : In) : Bool :=
  !(i.line c).txBusy && !(s.chan c).txBufferFull

/-- The set on an underrun comes after the clear and wins. -/
def eomLatchNext (c : Side) (s : State) (i : In) : Bool :=
  if resetChan c s i then false
  else if i.cep && txIdle c s i then true
  else if i.cep && wsel c 0 s i && topBits i.wdata == 3 then false else (s.chan c).eomLatch

/-- WR3 with Enter Hunt Mode, or with the receiver off. -/
def hunt (c : Side) (s : State) (i : In) : Bool :=
  wsel c 3 s i && (i.wdata.getLsbD 4 || !i.wdata.getLsbD 0)

@[simp] def syncHuntNext (c : Side) (s : State) (i : In) : Bool :=
  if i.cen && (resetChan c s i || hunt c s i) then true
  else if i.cen && doExtreset c s i then false else (s.chan c).syncHunt

/-! ### Transmitter latches -/

/-- The transmitter has become idle. -/
def txDone (c : Side) (s : State) (i : In) : Bool := (s.chan c).txBusyR && !(i.line c).txBusy

/-- The data port is written, at any clock of the access. -/
def dataPortWrite (c : Side) (i : In) : Bool := i.cs && i.we && i.data && decide (i.side = c)

def txEmptyClear (c : Side) (s : State) (i : In) : Bool :=
  match c with
  | .a => dataPortWrite .a i || i.cep && wsel .a 8 s i
  | .b => wsel .b 8 s i || s.b.wrData

def txEmptyLatchNext (c : Side) (s : State) (i : In) : Bool :=
  if resetChan c s i || txDone c s i then true
  else if txEmptyClear c s i then false else (s.chan c).txEmptyLatch

/-- Reset Tx Int Pending, and what else clears the latch. -/
def txIntClear (c : Side) (s : State) (i : In) : Bool :=
  dataPortWrite c i || i.cep && wsel c 8 s i || wsel c 0 s i && command i.wdata == 5

def txIntLatchNext (c : Side) (s : State) (i : In) : Bool :=
  if resetChan c s i then false
  else if txDone c s i then true
  else if txIntClear c s i then false else (s.chan c).txIntLatch

/-! ### Reads -/

def rxIrqPend (c : Chan) : Bool :=
  c.wr3.getLsbD 0 && c.rxQueuePos != 0 && (c.wr1.getLsbD 3 ^^ c.wr1.getLsbD 4) &&
    (c.wr1.getLsbD 3 && c.rxFirst || c.wr1.getLsbD 4)

def txIrqPend (c : Chan) : Bool := c.wr1.getLsbD 1 && c.txIntLatch

/-- `rr0_a` and `rr0_b`: channel B has no DCD. -/
def rr0 (c : Side) (s : State) (i : In) : Byte :=
  packByte false (s.chan c).eomLatch true (s.chan c).syncHunt
    (match c with
      | .a => if s.a.wr15.getLsbD 3 then s.a.dcdLatch else (i.line .a).dcd
      | .b => true)
    (s.chan c).txEmptyLatch false ((s.chan c).rxQueuePos != 0)

def rr1 (c : Side) (i : In) : Byte :=
  packByte false false false false false false false (!(i.line c).txBusy)

def rr2VecStat (s : State) : BitVec 3 :=
  if rxIrqPend s.a then 6
  else if txIrqPend s.a then 4
  else if s.a.exIrqIp then 5
  else if rxIrqPend s.b then 2
  else if txIrqPend s.b then 0
  else if s.b.exIrqIp then 1 else 3

def rr2B (s : State) : Byte :=
  if s.wr9.getLsbD 4 then s.wr2.extractLsb' 7 1 ++ rr2VecStat s ++ s.wr2.extractLsb' 0 4 else s.wr2

/-- Channel A has the vector as it was written. -/
def rr2 (c : Side) (s : State) : Byte :=
  match c with
  | .a => s.wr2
  | .b => rr2B s

def rr3A (s : State) : Byte :=
  packByte false false (rxIrqPend s.a) (txIrqPend s.a) s.a.exIrqIp (rxIrqPend s.b) (txIrqPend s.b)
    s.b.exIrqIp

def rr3 (c : Side) (s : State) : Byte :=
  match c with
  | .a => rr3A s
  | .b => 0

/-- `local_loopback_a` and `local_loopback_b`. -/
def localLoopback (c : Side) (s : State) : Bool := (s.chan c).wr14.getLsbD 4

def rr10 (c : Side) (s : State) (i : In) : Byte :=
  packByte false false false (localLoopback c s && (i.line c).txBusy) false false
    (localLoopback c s) false

def rr15 (c : Side) (s : State) : Byte := (s.chan c).wr15 &&& 0xFA

/-- The read register that a pointer selects. -/
def readReg (c : Side) (n : ℕ) (s : State) (i : In) : Byte :=
  match n with
  | 0 | 4 => rr0 c s i
  | 1 | 5 => rr1 c i
  | 2 | 6 => rr2 c s
  | 3 | 7 => rr3 c s
  | 8 => (s.chan c).rxQueue 0
  | 9 | 13 => (s.chan c).wr13
  | 10 | 14 => rr10 c s i
  | 11 | 15 => rr15 c s
  | 12 => (s.chan c).wr12
  | _ => 0xFF

def rdata (s : State) (i : In) : Byte :=
  if i.data then (s.chan i.side).rxQueue 0 else readReg i.side (rindexLatch s i) s i

/-! ### One clock -/

def chanNext (c : Side) (s : State) (i : In) : Chan where
  rindex := rindexNext c s i
  sccState := sccStateNext c s i
  rxQueue := rxQueueNext c s i
  rxQueuePos := rxQueuePosNext c s i
  rxFirst := rxFirstNext c s i
  txData := txDataNext c s i
  txBufferFull := txBufferFullNext c s i
  wrData := wrDataNext c s i
  wr1 := wr1Next c s i
  wr3 := wr3Next c s i
  wr4 := wr4Next c s i
  wr5 := wr5Next c s i
  wr10 := wr10Next c s i
  wr12 := wr12Next c s i
  wr13 := wr13Next c s i
  wr14 := wr14Next c s i
  wr15 := wr15Next c s i
  latchOpen := latchOpenNext c s i
  dcdLatch := dcdLatchNext c s i
  exIrqIp := exIrqIpNext c s i
  eomLatch := eomLatchNext c s i
  syncHunt := syncHuntNext c s i
  txEmptyLatch := txEmptyLatchNext c s i
  txIntLatch := txIntLatchNext c s i
  txBusyR := (i.line c).txBusy

def step (s : State) (i : In) : State where
  csConsumed := i.cs && (i.cen || s.csConsumed)
  wr2 := wr2Next s i
  wr9 := wr9Next s i
  ctsLatchA := ctsLatchANext s i
  a := chanNext .a s i
  b := chanNext .b s i

variable {s : State} {i : In}

/-- Each channel moves by the same definitions. -/
theorem step_chan (c : Side) : (step s i).chan c = chanNext c s i := by
  cases c <;> rfl

end Scc
