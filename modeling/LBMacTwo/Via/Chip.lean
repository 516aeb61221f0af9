import LBMacTwo.Foundation.Bits
import LBMacTwo.Foundation.Clocked

/-!
# The VIA, `via6522.sv`

One definition per wire and per register. `dataController_top.sv` has two of these chips: VIA1 with the
shift register completed from outside, VIA2 with the level overlays of SCSI on CA2 and CB2.
-/

namespace Via
open Clocked

/-- The registers of the chip. -/
structure Chip where
  pra : Byte
  ddra : Byte
  prb : Byte
  ddrb : Byte
  portAC : Byte
  portBC : Byte
  irqMask : BitVec 7
  irqFlags : BitVec 7
  timerALatch : Word
  timerBLatch : Word
  timerACount : Word
  timerBCount : Word
  timerBTick : Bool
  acr : Byte
  pcr : Byte
  shiftReg : Byte
  ira : Byte
  irb : Byte
  ca1C : Bool
  ca2C : Bool
  cb1C : Bool
  cb2C : Bool
  ca1D : Bool
  ca2D : Bool
  cb1D : Bool
  cb2D : Bool
  ca2HandshakeO : Bool
  ca2PulseO : Bool
  cb2HandshakeO : Bool
  cb2PulseO : Bool
  dataOut : Byte
  phi2Ref : Bool
  timerAReload : Bool
  timerAToggle : Bool
  timerAMayInterrupt : Bool
  timerBReloadLo : Bool
  timerBOneshotTrig : Bool
  timerBTimeout : Bool
  pb6C : Bool
  pb6D : Bool
  shiftActive : Bool
  shiftActiveD : Bool
  shiftClock : Bool
  shiftClockD : Bool
  shiftTimerTick : Bool
  serCb2C : Bool
  bitCnt : BitVec 3
  triggerAcrShift : Bool

/-- The inputs of the chip. -/
structure Pins where
  rising : Bool
  falling : Bool
  timerTick : Bool
  reset : Bool
  addr : BitVec 4
  wen : Bool
  ren : Bool
  dataIn : Byte
  portAI : Byte
  portBI : Byte
  ca1I : Bool
  ca2I : Bool
  cb1I : Bool
  cb2I : Bool
  ca2LvlI : Bool
  cb2LvlI : Bool
  srExtComplete : Bool
  srExtLoad : Bool
  srExtData : Byte

namespace Pins

variable (i : Pins)

/-- The CPU writes register `a` in this clock. -/
def writes (a : BitVec 4) : Bool := i.wen && i.falling && i.addr == a

/-- The CPU reads register `a` in this clock. -/
def reads (a : BitVec 4) : Bool := i.ren && i.falling && i.addr == a

def accesses (a : BitVec 4) : Bool := (i.ren || i.wen) && i.addr == a && i.falling

def writeT1cL : Bool := i.writes 4 || i.writes 6

def writeT1cH : Bool := i.writes 5

def writeT2cH : Bool := i.writes 9

def triggerSerial : Bool := (i.ren || i.wen) && i.addr == 0xA

end Pins

namespace Chip

variable (c : Chip) (i : Pins)

/-! ### Fields of ACR and PCR -/

def tmrAOutputEn : Bool := c.acr.getLsbD 7

def tmrAFreerun : Bool := c.acr.getLsbD 6

def tmrBCountMode : Bool := c.acr.getLsbD 5

def shiftDir : Bool := c.acr.getLsbD 4

def shiftClkSel : BitVec 2 := c.acr.extractLsb' 2 2

def shiftModeControl : BitVec 3 := c.acr.extractLsb' 2 3

def pbLatchEn : Bool := c.acr.getLsbD 1

def paLatchEn : Bool := c.acr.getLsbD 0

def cb2IsOutput : Bool := c.pcr.getLsbD 7

def cb2EdgeSelect : Bool := c.pcr.getLsbD 6

def cb2NoIrqClr : Bool := c.pcr.getLsbD 5

def cb2OutMode : BitVec 2 := c.pcr.extractLsb' 5 2

def cb1EdgeSelect : Bool := c.pcr.getLsbD 4

def ca2IsOutput : Bool := c.pcr.getLsbD 3

def ca2EdgeSelect : Bool := c.pcr.getLsbD 2

def ca2NoIrqClr : Bool := c.pcr.getLsbD 1

def ca2OutMode : BitVec 2 := c.pcr.extractLsb' 1 2

def ca1EdgeSelect : Bool := c.pcr.getLsbD 0

/-! ### The shift register's wires -/

def serportEn : Bool := c.shiftDir || c.shiftClkSel.getLsbD 1 || c.shiftClkSel.getLsbD 0

def shiftTickR : Bool := !c.shiftClockD && c.shiftClock

def shiftTickF : Bool := c.shiftClockD && !c.shiftClock

def shiftPulse : Bool :=
  if !c.shiftActive then c.shiftModeControl == 0 && c.shiftTickR
  else if c.shiftClkSel = 2 then true
  else if c.shiftClkSel = 3 then c.shiftTickR
  else c.shiftTimerTick

def serialEvent : Bool :=
  (c.shiftActiveD || c.shiftTickR) && !c.shiftActive && i.rising && c.serportEn

/-! ### The handshake pins -/

/-- The level of an output pin of the port in its four modes. -/
def handshakeLevel (mode : BitVec 2) (handshake pulse : Bool) : Bool :=
  if mode = 0 then handshake else if mode = 1 then pulse else mode != 2

def ca2O : Bool := handshakeLevel c.ca2OutMode c.ca2HandshakeO c.ca2PulseO

def hsCb2O : Bool := handshakeLevel c.cb2OutMode c.cb2HandshakeO c.cb2PulseO

def cb1T : Bool := if c.shiftClkSel = 3 then false else c.serportEn

def cb1O : Bool := c.shiftClockD

def cb2T : Bool := if c.serportEn then c.shiftDir else c.cb2IsOutput

def cb2O : Bool := if c.serportEn then c.shiftReg.getLsbD 7 else c.hsCb2O

/-- The selected edge of a pin, seen between two registers. -/
def edge (new old select : Bool) : Bool := (new ^^ old) && (old ^^ select)

def ca2Event : Bool := !c.ca2IsOutput && edge c.ca2C c.ca2D c.ca2EdgeSelect

def ca1Event : Bool := edge c.ca1C c.ca1D c.ca1EdgeSelect

def cb2Event : Bool := !c.cb2IsOutput && edge c.cb2C c.cb2D c.cb2EdgeSelect

def cb1Event : Bool := edge c.cb1C c.cb1D c.cb1EdgeSelect

def timerBEvent : Bool := i.timerTick && c.timerBTimeout

def timerAEvent : Bool := i.timerTick && c.timerAReload && c.timerAMayInterrupt

/-! ### Interrupts -/

/-- `irq_events`: CA2, CA1, the shift register, CB2, CB1, timer B and timer A, from bit 0 up. -/
def irqEvents : BitVec 7 :=
  BitVec.ofBool (c.timerAEvent i) ++ BitVec.ofBool (c.timerBEvent i) ++ BitVec.ofBool c.cb1Event ++
    BitVec.ofBool c.cb2Event ++ BitVec.ofBool (c.serialEvent i || i.srExtComplete) ++
    BitVec.ofBool c.ca1Event ++ BitVec.ofBool c.ca2Event

/-- The flags of the two handshake pins of port B, cleared by an access to it. -/
def clearB : BitVec 7 := if c.cb2NoIrqClr then 0x10 else 0x18

def clearA : BitVec 7 := if c.ca2NoIrqClr then 0x02 else 0x03

/-- The flags that a write clears; a write of the IFR is another matter. -/
def writeClears : BitVec 7 :=
  if i.wen && i.falling then
    match i.addr with
    | 0x0 => c.clearB
    | 0x1 => c.clearA
    | 0x5 => 0x40
    | 0x7 => 0x40
    | 0x9 => 0x20
    | 0xA => 0x04
    | _ => 0
  else 0

/-- The flags that a read clears. -/
def readClears : BitVec 7 :=
  if i.ren && i.falling then
    match i.addr with
    | 0x0 => c.clearB
    | 0x1 => c.clearA
    | 0xF => c.clearA
    | 0x4 => 0x40
    | 0x8 => 0x20
    | 0xA => 0x04
    | _ => 0
  else 0

/-- A write of the IFR takes the flags as they were: it drops the events of its clock. -/
def irqFlagsNext : BitVec 7 :=
  if i.reset then 0
  else
    (if i.writes 0xD then c.irqFlags &&& ~~~i.dataIn.truncate 7
      else (c.irqFlags ||| c.irqEvents i) &&& ~~~c.writeClears i) &&& ~~~c.readClears i

def irqMaskNext : BitVec 7 :=
  if i.reset then 0
  else if i.writes 0xE then
    if i.dataIn.getLsbD 7 then c.irqMask ||| i.dataIn.truncate 7
    else c.irqMask &&& ~~~i.dataIn.truncate 7
  else c.irqMask

/-- `irq_flags_eff`: the flags with the level overlays of CA2 and CB2. -/
def irqFlagsEff : BitVec 7 :=
  c.irqFlags ||| ((if i.cb2LvlI then 0x08 else 0) ||| if i.ca2LvlI then 0x01 else 0)

def irq : Bool := c.irqFlagsEff i &&& c.irqMask != 0

/-! ### The ports -/

def praMasked : Byte := (c.ira &&& ~~~c.ddra) ||| (c.pra &&& c.ddra)

/-- Bit 7 of port A is always read from the pin. -/
def praRead : Byte := BitVec.cons (c.ira.getLsbD 7) (c.praMasked.truncate 7)

def prbRead : Byte := (c.prb &&& c.ddrb) ||| (c.irb &&& ~~~c.ddrb)

/-- Port B with the output of timer A on bit 7, if that is on. -/
def withTimer (x : Byte) : Byte :=
  if c.tmrAOutputEn then BitVec.cons c.timerAToggle (x.truncate 7) else x

def portBO : Byte := c.withTimer c.prb

def portBT : Byte := BitVec.cons (c.ddrb.getLsbD 7 || c.tmrAOutputEn) (c.ddrb.truncate 7)

def dataOutNext : Byte :=
  match i.addr with
  | 0x0 => c.withTimer c.prbRead
  | 0x1 => c.praRead
  | 0x2 => c.ddrb
  | 0x3 => c.ddra
  | 0x4 => lowByte c.timerACount
  | 0x5 => highByte c.timerACount
  | 0x6 => lowByte c.timerALatch
  | 0x7 => highByte c.timerALatch
  | 0x8 => lowByte c.timerBCount
  | 0x9 => highByte c.timerBCount
  | 0xA => c.shiftReg
  | 0xB => c.acr
  | 0xC => c.pcr
  | 0xD => BitVec.cons (c.irq i) (c.irqFlagsEff i)
  | 0xE => BitVec.cons true c.irqMask
  | _ => c.praRead

/-- A register that the CPU writes as a whole. -/
def register (a : BitVec 4) (x : Byte) : Byte :=
  if i.reset then 0 else if i.writes a then i.dataIn else x

def praNext : Byte :=
  if i.reset then 0 else if i.writes 0x1 || i.writes 0xF then i.dataIn else c.pra

def timerALatchNext : Word :=
  if i.reset then 0x5550
  else if i.writeT1cL then pairWord (highByte c.timerALatch) i.dataIn
  else if i.writes 5 || i.writes 7 then pairWord i.dataIn (lowByte c.timerALatch)
  else c.timerALatch

def timerBLatchNext : Word :=
  if i.reset then 0x5550
  else if i.writes 8 then pairWord (highByte c.timerBLatch) i.dataIn else c.timerBLatch

def handshakeNext (event access old : Bool) : Bool :=
  if i.reset then true else if event then true else if access then false else old

def pulseNext (access old : Bool) : Bool :=
  if i.reset then true else if i.falling then !access else old

/-! ### Timer A -/

def timerACountNext : Word :=
  if i.reset then 0x5550
  else if i.writeT1cH then pairWord i.dataIn (lowByte c.timerALatch)
  else if i.timerTick then
    if c.timerAReload then
      if i.writeT1cL then pairWord (highByte c.timerALatch) i.dataIn else c.timerALatch
    else c.timerACount - 1
  else c.timerACount

def timerAReloadNext : Bool :=
  if i.reset || i.writeT1cH then false
  else if i.timerTick then !c.timerAReload && c.timerACount == 0 else c.timerAReload

def timerAMayInterruptNext : Bool :=
  if i.reset then false
  else if i.writeT1cH then true
  else if i.timerTick && c.timerAReload then c.timerAMayInterrupt && c.tmrAFreerun
  else c.timerAMayInterrupt

def timerAToggleNext : Bool :=
  if i.reset then true
  else if i.writeT1cH then !c.tmrAOutputEn
  else if c.timerAEvent i && c.tmrAOutputEn then !c.timerAToggle else c.timerAToggle

/-! ### Timer B -/

/-- `timer_b_decrement` -/
def timerBDecrement : Bool := if c.tmrBCountMode then c.pb6D && !c.pb6C else true

/-- Timer B clocks the shift register. -/
def timerBShifts : Bool :=
  c.shiftModeControl == 1 || c.shiftModeControl == 5 || c.shiftModeControl == 4

/-- The low byte runs out under a shift mode. -/
def timerBLowOut : Bool :=
  c.timerBDecrement && lowByte c.timerBCount == 0 && c.timerBShifts

def timerBCountNext : Word :=
  if i.reset then 0x5550
  else if i.writeT2cH then pairWord i.dataIn (lowByte c.timerBLatch)
  else if i.timerTick then
    let n := if c.timerBDecrement then c.timerBCount - 1 else c.timerBCount
    if c.timerBReloadLo then pairWord (highByte n) (lowByte c.timerBLatch) else n
  else c.timerBCount

def timerBReloadLoNext : Bool :=
  if i.reset then false
  else if i.timerTick then !c.timerBReloadLo && c.timerBLowOut else c.timerBReloadLo

/-- The one-shot of timer B runs out. -/
def timerBOut : Bool := c.timerBDecrement && c.timerBCount == 0 && c.timerBOneshotTrig

def timerBOneshotTrigNext : Bool :=
  if i.reset then false
  else if i.writeT2cH then true
  else if i.timerTick && c.timerBOut then false else c.timerBOneshotTrig

/-- The timeout is not reset. -/
def timerBTimeoutNext : Bool := if i.timerTick then c.timerBOut else c.timerBTimeout

/-! ### The shift register -/

def shiftClockNext : Bool :=
  if i.reset then true
  else if i.rising then
    if !c.shiftActive then if c.shiftModeControl = 0 then i.cb1I else true
    else if c.shiftClkSel = 3 then i.cb1I
    else if c.shiftPulse then !c.shiftClock else c.shiftClock
  else c.shiftClock

def shiftRegNext : Byte :=
  if i.srExtComplete && i.srExtLoad then i.srExtData
  else if i.reset then 0xFF
  else if i.falling then
    if i.wen && i.addr == 0xA then i.dataIn
    else if c.shiftDir && c.shiftTickF then c.shiftReg.rotateLeft 1
    else if !c.shiftDir && c.shiftTickR then
      (c.shiftReg.extractLsb' 0 7).concat c.serCb2C
    else c.shiftReg
  else c.shiftReg

def triggerAcrShiftNext : Bool :=
  if i.reset then false
  else if i.falling then i.wen && i.addr == 0xB && i.dataIn.extractLsb' 2 3 != (0 : BitVec 3)
  else c.triggerAcrShift

/-- The shift register is armed by an access, or by a write of the ACR. -/
def arms : Bool :=
  !c.shiftActive && c.shiftModeControl != 0 && (i.triggerSerial || c.triggerAcrShift)

/-- The last bit is shifted when the count is 0. -/
def shifts : Bool :=
  !(!c.shiftActive && c.shiftModeControl != 0) && c.shiftClkSel != 0 && c.shiftPulse && c.shiftClock

def shiftActiveNext : Bool :=
  if i.reset || i.srExtComplete then false
  else if i.falling then
    if !c.shiftActive && c.shiftModeControl != 0 then c.arms i
    else if c.shiftClkSel = 0 then c.shiftDir
    else if c.shifts && c.bitCnt == 0 then false
    else c.shiftActive
  else c.shiftActive

def bitCntNext : BitVec 3 :=
  if i.reset || i.srExtComplete then 0
  else if i.falling then
    if c.arms i then 7
    else if c.shifts && c.bitCnt != 0 then c.bitCnt - 1
    else c.bitCnt
  else c.bitCnt

/-! ### One clock -/

def step : Chip where
  pra := c.praNext i
  ddra := register i 0x3 c.ddra
  prb := register i 0x0 c.prb
  ddrb := register i 0x2 c.ddrb
  portAC := i.portAI
  portBC := i.portBI
  irqMask := c.irqMaskNext i
  irqFlags := c.irqFlagsNext i
  timerALatch := c.timerALatchNext i
  timerBLatch := c.timerBLatchNext i
  timerACount := c.timerACountNext i
  timerBCount := c.timerBCountNext i
  timerBTick := if i.timerTick then c.timerBLowOut else c.timerBTick
  acr := register i 0xB c.acr
  pcr := register i 0xC c.pcr
  shiftReg := c.shiftRegNext i
  ira := if !c.paLatchEn || c.ca1Event then c.portAC else c.ira
  irb := if !c.pbLatchEn || c.cb1Event then c.portBC else c.irb
  ca1C := i.ca1I
  ca2C := i.ca2I
  cb1C := if c.cb1T then c.cb1O else i.cb1I
  cb2C := if c.cb2T then c.cb2O else i.cb2I
  ca1D := c.ca1C
  ca2D := c.ca2C
  cb1D := c.cb1C
  cb2D := c.cb2C
  ca2HandshakeO := handshakeNext i c.ca1Event (i.accesses 1) c.ca2HandshakeO
  ca2PulseO := pulseNext i (i.accesses 1) c.ca2PulseO
  cb2HandshakeO := handshakeNext i c.cb1Event (i.accesses 0) c.cb2HandshakeO
  cb2PulseO := pulseNext i (i.accesses 0) c.cb2PulseO
  dataOut := c.dataOutNext i
  phi2Ref := if i.rising then true else if i.falling then false else c.phi2Ref
  timerAReload := c.timerAReloadNext i
  timerAToggle := c.timerAToggleNext i
  timerAMayInterrupt := c.timerAMayInterruptNext i
  timerBReloadLo := c.timerBReloadLoNext i
  timerBOneshotTrig := c.timerBOneshotTrigNext i
  timerBTimeout := c.timerBTimeoutNext i
  pb6C := if i.timerTick then i.portBI.getLsbD 6 else c.pb6C
  pb6D := if i.timerTick then c.pb6C else c.pb6D
  shiftActive := c.shiftActiveNext i
  shiftActiveD := if i.reset then false else if i.rising then c.shiftActive else c.shiftActiveD
  shiftClock := c.shiftClockNext i
  shiftClockD := if i.reset then true else if i.rising then c.shiftClock else c.shiftClockD
  shiftTimerTick := if i.falling then c.timerBTick else c.shiftTimerTick
  serCb2C := i.cb2I
  bitCnt := c.bitCntNext i
  triggerAcrShift := c.triggerAcrShiftNext i

end Chip

/-- A chip with all registers clear. -/
def Chip.cleared : Chip where
  pra := 0
  ddra := 0
  prb := 0
  ddrb := 0
  portAC := 0
  portBC := 0
  irqMask := 0
  irqFlags := 0
  timerALatch := 0
  timerBLatch := 0
  timerACount := 0
  timerBCount := 0
  timerBTick := false
  acr := 0
  pcr := 0
  shiftReg := 0
  ira := 0
  irb := 0
  ca1C := false
  ca2C := false
  cb1C := false
  cb2C := false
  ca1D := false
  ca2D := false
  cb1D := false
  cb2D := false
  ca2HandshakeO := true
  ca2PulseO := true
  cb2HandshakeO := true
  cb2PulseO := true
  dataOut := 0
  phi2Ref := false
  timerAReload := false
  timerAToggle := true
  timerAMayInterrupt := false
  timerBReloadLo := false
  timerBOneshotTrig := false
  timerBTimeout := false
  pb6C := false
  pb6D := false
  shiftActive := false
  shiftActiveD := false
  shiftClock := true
  shiftClockD := true
  shiftTimerTick := false
  serCb2C := false
  bitCnt := 0
  triggerAcrShift := false

/-- A clock without an access, with a tick of the timers. -/
def Pins.idle : Pins where
  rising := false
  falling := true
  timerTick := true
  reset := false
  addr := 0
  wen := false
  ren := false
  dataIn := 0
  portAI := 0
  portBI := 0
  ca1I := false
  ca2I := false
  cb1I := false
  cb2I := false
  ca2LvlI := false
  cb2LvlI := false
  srExtComplete := false
  srExtLoad := false
  srExtData := 0

/-- A write of the CPU. -/
def Pins.write (a : BitVec 4) (d : Byte) : Pins :=
  { Pins.idle with addr := a, wen := true, dataIn := d }

/-- The chip after `t` clocks. -/
abbrev Chip.run (c : Chip) (u : ℕ → Pins) (t : ℕ) : Chip := Clocked.run Chip.step c u t

end Via
