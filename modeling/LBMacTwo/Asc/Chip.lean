import LBMacTwo.Foundation.Bits

/-!
# The sound chip `asc.sv`

One `State` field per register, one definition per wire and per register of the `always` blocks.
The registers of a FIFO channel and its sample memory are a `Chan`; the two channels differ in the
bank of the address space they answer to and in that channel B drains in stereo only.
-/

namespace Asc

/-- A sample memory with its registered read ports and FIFO pointers. -/
structure Chan where
  ram : ℕ → Byte
  rdataA : Byte
  addrB : ℕ
  rdataB : Byte
  wrPtr : ℕ
  rdPtr : ℕ
  count : ℕ
  last : Byte

def Chan.init : Chan := ⟨fun _ => 0, 0, 0, 0, 0, 0, 0, 0⟩

structure State where
  a : Chan
  b : Chan
  ascMode : Byte
  ascControl : Byte
  ascFifoMode : Byte
  ascFifoIrq : Byte
  ascWtControl : Byte
  ascVolume : Byte
  ascClockRate : Byte
  phase : Fin 4 → BitVec 32
  freq : Fin 4 → BitVec 32
  sampleCounter : ℕ
  cpuWriteD1 : Bool
  byteWritePending : Bool
  byteWriteAddr : ℕ
  byteWriteData : Byte
  cpuReadD : Bool
  addrD : ℕ
  wtState : ℕ
  wtSample : Fin 4 → Byte
  wtDone : Bool
  audioLeft : Word
  audioRight : Word

/-- The registers after reset. -/
def State.init : State where
  a := .init
  b := .init
  ascMode := 0
  ascControl := 0
  ascFifoMode := 0
  ascFifoIrq := 0
  ascWtControl := 0
  ascVolume := 0
  ascClockRate := 0
  phase := fun _ => 0
  freq := fun _ => 0
  sampleCounter := 0
  cpuWriteD1 := false
  byteWritePending := false
  byteWriteAddr := 0
  byteWriteData := 0
  cpuReadD := false
  addrD := 0
  wtState := 0
  wtSample := fun _ => 0
  wtDone := false
  audioLeft := 0
  audioRight := 0

/-- The CPU bus. -/
structure In where
  addr : ℕ
  dataIn : Word
  cs : Bool
  rw : Bool
  uds : Bool
  lds : Bool

/-! ### Sample clock -/

def State.sampleDiv (s : State) : ℕ := if s.ascClockRate = 0 then 1408 else 2817

def State.sampleTick (s : State) : Bool := decide (s.sampleDiv - 1 ≤ s.sampleCounter)

def sampleCounterNext (s : State) : ℕ := if s.sampleTick then 0 else (s.sampleCounter + 1) % 65536

/-- `ctrl_stereo`. -/
def State.ctrlStereo (s : State) : Bool := s.ascControl.getLsbD 1

/-- A sample is taken from the FIFOs in this clock. -/
def State.fifoTick (s : State) : Bool := s.ascMode == 1 && s.sampleTick

/-! ### CPU accesses -/

def In.cpuAccess (i : In) : Bool := i.cs && (i.uds || i.lds)
def In.cpuRead (i : In) : Bool := i.cpuAccess && i.rw
def In.cpuWrite (i : In) : Bool := i.cpuAccess && !i.rw

def cpuWriteStrobe (s : State) (i : In) : Bool := i.cpuWrite && !s.cpuWriteD1

def cpuWordWrite (s : State) (i : In) : Bool := cpuWriteStrobe s i && i.uds && i.lds

def cpuByteWriteAddr (i : In) : ℕ :=
  if !i.uds && i.lds && i.addr % 2 == 0 then (i.addr + 1) % 8192 else i.addr % 8192

def cpuByteWriteData (i : In) : Byte := if i.uds then highByte i.dataIn else lowByte i.dataIn

def ascWriteStrobe (s : State) (i : In) : Bool := cpuWriteStrobe s i || s.byteWritePending

def ascWriteAddr (s : State) (i : In) : ℕ :=
  if s.byteWritePending then s.byteWriteAddr else cpuByteWriteAddr i

def ascWriteData (s : State) (i : In) : Byte :=
  if s.byteWritePending then s.byteWriteData else cpuByteWriteData i

/-- A write to bank 0 (memory A) or 1 (memory B). -/
def bankWrite (bank : ℕ) (s : State) (i : In) : Bool :=
  ascWriteStrobe s i && ascWriteAddr s i / 1024 == bank

/-- A byte is pushed into the FIFO of a bank. -/
def fifoWrite (bank : ℕ) (s : State) (i : In) : Bool := bankWrite bank s i && s.ascMode == 1

/-- A write to the register block, and its register number. -/
def regWrite (s : State) (i : In) : Bool := ascWriteStrobe s i && ascWriteAddr s i / 2048 == 1

def regWriteAt (n : ℕ) (s : State) (i : In) : Bool :=
  regWrite s i && ascWriteAddr s i % 64 == n

/-- The mode register changes, which clears the FIFOs and the phases. -/
def modeChange (s : State) (i : In) : Bool := regWriteAt 1 s i && ascWriteData s i != s.ascMode

/-- Bit 7 of the FIFO mode register clears the FIFOs. -/
def fifoClear (s : State) (i : In) : Bool := regWriteAt 3 s i && (ascWriteData s i).getLsbD 7

/-! ### Memory port A -/

def portAddr (bank : ℕ) (c : Chan) (s : State) (i : In) : ℕ :=
  if s.fifoTick then c.rdPtr
  else if bankWrite bank s i then
    (if s.ascMode == 1 then c.wrPtr else ascWriteAddr s i % 1024)
  else i.addr % 1024

def portWe (bank : ℕ) (s : State) (i : In) : Bool := !s.fifoTick && bankWrite bank s i

/-! ### The FIFOs -/

/-- A channel drains at this tick. -/
def Chan.drains (enabled : Bool) (c : Chan) (s : State) : Bool :=
  s.fifoTick && enabled && decide (0 < c.count)

def wrPtrNext (bank : ℕ) (c : Chan) (s : State) (i : In) : ℕ :=
  if fifoWrite bank s i then (c.wrPtr + 1) % 1024
  else if modeChange s i || fifoClear s i then 0 else c.wrPtr

def rdPtrNext (enabled : Bool) (c : Chan) (s : State) (i : In) : ℕ :=
  if c.drains enabled s then (c.rdPtr + 1) % 1024
  else if modeChange s i || fifoClear s i then 0 else c.rdPtr

/-- The drain is assigned last and wins over a write in the same clock. -/
def countNext (bank : ℕ) (enabled : Bool) (c : Chan) (s : State) (i : In) : ℕ :=
  if c.drains enabled s then c.count - 1
  else if fifoWrite bank s i then (if c.count < 1024 then c.count + 1 else c.count)
  else if modeChange s i || fifoClear s i then 0 else c.count

def Chan.step (bank : ℕ) (enabled : Bool) (addrB : ℕ) (c : Chan) (s : State) (i : In) : Chan where
  ram := if portWe bank s i then
      Function.update c.ram (portAddr bank c s i) (ascWriteData s i) else c.ram
  rdataA := c.ram (portAddr bank c s i)
  addrB := addrB
  rdataB := c.ram c.addrB
  wrPtr := wrPtrNext bank c s i
  rdPtr := rdPtrNext enabled c s i
  count := countNext bank enabled c s i
  last := if c.drains enabled s then c.rdataA else c.last

/-! ### Wavetable -/

def State.wtIdx (s : State) (n : Fin 4) : ℕ := (s.phase n).toNat / 32768 % 512

/-- The address of port B of a memory that holds the tables of voices `lo` and `hi`. -/
def wtAddrNext (lo hi : Fin 4) (c : Chan) (s : State) : ℕ :=
  if s.wtState == 0 then
    (if s.sampleTick && s.ascMode == 2 then s.wtIdx lo else c.addrB)
  else if s.wtState == 1 then 512 + s.wtIdx hi
  else c.addrB

def wtStateNext (s : State) : ℕ :=
  match s.wtState with
  | 0 => if s.sampleTick && s.ascMode == 2 then 1 else 0
  | 1 => 2
  | 2 => 3
  | _ => 0

def wtSampleNext (s : State) : Fin 4 → Byte :=
  match s.wtState with
  | 2 => Function.update (Function.update s.wtSample 0 s.a.rdataB) 2 s.b.rdataB
  | 3 => Function.update (Function.update s.wtSample 1 s.a.rdataB) 3 s.b.rdataB
  | _ => s.wtSample

def State.wtSum (s : State) : ℕ :=
  (s.wtSample 0).toNat + (s.wtSample 1).toNat + (s.wtSample 2).toNat + (s.wtSample 3).toNat

/-- A sample byte in offset binary as a 16-bit output. -/
def pcm (b : Byte) : Word := pairWord (b ^^^ 0x80) 0

def State.wtMix (s : State) : Word := pcm (BitVec.ofNat 8 (s.wtSum / 4))

/-! ### Channel registers -/

/-- A 32-bit register with byte `k`, counted from the most significant, replaced. -/
def setByte (r : BitVec 32) (k : ℕ) (d : Byte) : BitVec 32 :=
  match k with
  | 1 => BitVec.extractLsb' 24 8 r ++ d ++ BitVec.extractLsb' 0 16 r
  | 2 => BitVec.extractLsb' 16 16 r ++ d ++ BitVec.extractLsb' 0 8 r
  | 3 => BitVec.extractLsb' 8 24 r ++ d
  | _ => r

def channelWrite (s : State) (i : In) : Bool :=
  regWrite s i && decide (16 ≤ ascWriteAddr s i % 64) && decide (ascWriteAddr s i % 64 ≤ 47)

/-- The field of `phase` or `freq` a channel register write goes to. -/
def channelOf (a : ℕ) : Fin 4 := ⟨a / 8 % 4, Nat.mod_lt _ (by decide)⟩

def phaseNext (s : State) (i : In) : Fin 4 → BitVec 32 :=
  if s.ascMode == 2 && s.sampleTick then fun n => s.phase n + s.freq n
  else if modeChange s i then fun _ => 0
  else if channelWrite s i && ascWriteAddr s i / 4 % 2 == 0 then
    Function.update s.phase (channelOf (ascWriteAddr s i))
      (setByte (s.phase (channelOf (ascWriteAddr s i))) (ascWriteAddr s i % 4) (ascWriteData s i))
  else s.phase

def freqNext (s : State) (i : In) : Fin 4 → BitVec 32 :=
  if channelWrite s i && ascWriteAddr s i / 4 % 2 == 1 then
    Function.update s.freq (channelOf (ascWriteAddr s i))
      (setByte (s.freq (channelOf (ascWriteAddr s i))) (ascWriteAddr s i % 4) (ascWriteData s i))
  else s.freq

/-! ### Control registers and interrupt -/

/-- A register that is written by its number. -/
def regNext (n : ℕ) (r : Byte) (s : State) (i : In) : Byte :=
  if regWriteAt n s i then ascWriteData s i else r

/-- A read of the FIFO status, which clears it. -/
def irqRead (i : In) : Bool := i.cpuRead && i.addr / 2048 == 1 && i.addr % 64 == 4

/-- The status bits set in this clock: half-empty and empty of A, then of B. -/
def statusSet (s : State) : Byte :=
  packByte false false false false
    (s.fifoTick && s.ctrlStereo && s.b.count == 1) (s.fifoTick && s.ctrlStereo && s.b.count == 512)
    (s.fifoTick && s.a.count == 1) (s.fifoTick && s.a.count == 512)

/-- A bit set in the clock of a read stays. -/
def ascFifoIrqNext (s : State) (i : In) : Byte :=
  (if irqRead i then 0 else s.ascFifoIrq) ||| statusSet s

/-- `irq_n`, active low. -/
def State.irqN (s : State) : Bool := s.ascFifoIrq == 0

/-! ### Audio output -/

/-- The sample a channel plays at a tick: the memory read, or the last one when it is empty. -/
def Chan.sample (c : Chan) : Byte := if 0 < c.count then c.rdataA else c.last

def audioLeftNext (s : State) : Word :=
  if s.fifoTick then pcm s.a.sample
  else if s.wtDone then s.wtMix
  else if s.ascMode == 0 && s.sampleTick then 0 else s.audioLeft

def audioRightNext (s : State) : Word :=
  if s.fifoTick then (if s.ctrlStereo then pcm s.b.sample else pcm s.a.sample)
  else if s.wtDone then s.wtMix
  else if s.ascMode == 0 && s.sampleTick then 0 else s.audioRight

/-- `data_out`: a memory byte or a register, for the address of the last clock. -/
def dataOut (s : State) : Byte :=
  if !s.cpuReadD then 0
  else if s.addrD / 1024 == 0 then s.a.rdataA
  else if s.addrD / 1024 == 1 then s.b.rdataA
  else if s.addrD / 2048 == 1 then
    match s.addrD % 64 with
    | 1 => s.ascMode
    | 2 => s.ascControl
    | 3 => s.ascFifoMode
    | 4 => s.ascFifoIrq
    | 5 => s.ascWtControl
    | 6 => s.ascVolume
    | 7 => s.ascClockRate
    | a =>
      if 16 ≤ a ∧ a ≤ 47 then
        let r := if a / 4 % 2 == 1 then s.freq (channelOf a) else s.phase (channelOf a)
        match a % 4 with
        | 1 => BitVec.extractLsb' 16 8 r
        | 2 => BitVec.extractLsb' 8 8 r
        | 3 => BitVec.extractLsb' 0 8 r
        | _ => 0
      else 0
  else 0

/-! ### One clock -/

def step (s : State) (i : In) : State where
  a := s.a.step 0 true (wtAddrNext 0 1 s.a s) s i
  b := s.b.step 1 s.ctrlStereo (wtAddrNext 2 3 s.b s) s i
  ascMode := regNext 1 s.ascMode s i
  ascControl := regNext 2 s.ascControl s i
  ascFifoMode := regNext 3 s.ascFifoMode s i
  ascFifoIrq := ascFifoIrqNext s i
  ascWtControl := regNext 5 s.ascWtControl s i
  ascVolume := regNext 6 s.ascVolume s i
  ascClockRate := regNext 7 s.ascClockRate s i
  phase := phaseNext s i
  freq := freqNext s i
  sampleCounter := sampleCounterNext s
  cpuWriteD1 := i.cpuWrite
  byteWritePending := !s.byteWritePending && cpuWordWrite s i
  byteWriteAddr := if !s.byteWritePending && cpuWordWrite s i then (i.addr + 1) % 8192
    else s.byteWriteAddr
  byteWriteData := if !s.byteWritePending && cpuWordWrite s i then lowByte i.dataIn
    else s.byteWriteData
  cpuReadD := i.cpuRead
  addrD := i.addr
  wtState := wtStateNext s
  wtSample := wtSampleNext s
  wtDone := s.wtState == 3
  audioLeft := audioLeftNext s
  audioRight := audioRightNext s

end Asc
