import LBMacTwo.Foundation.Bits

/-!
# The ADB transceiver

`adb.sv`: the modem chip between VIA1 and the two devices of the bus, a keyboard and a mouse.
Everything is clocked; an assignment to a register reads the old values, and of several
assignments to one register in a clock the last one counts, so every stage below takes the old
state `s` and the state `n` the stages before it have assigned.

* `processCommand`: the `process_command` task;
* `finishListen`, `deliver`: what a change of the bus state does;
* `transition`, `receive`, `execute`, `receiveListen`, `storeKey`, `moveMouse`: the stages of the
  clocked block, in the order of the source;
* `step`: one clock.
-/

namespace Adb

/-- The bus state on ST1 and ST0. -/
inductive BusState
  | command
  | data1
  | data2
  | idle
  deriving DecidableEq

def addrKeyboard : BitVec 4 := 2

def addrMouse : BitVec 4 := 3

/-- The registers. The cells of `response` and `listenData` above 7 do not exist. -/
structure State where
  cmdByte : Byte
  cmdValid : Bool
  cmdProcessed : Bool
  response : BitVec 4 → Byte
  respLen : BitVec 4
  respIdx : BitVec 4
  listenData : BitVec 4 → Byte
  listenLen : BitVec 4
  stPrev : BusState
  kbdAddr : BitVec 4
  mouseAddr : BitVec 4
  kbdReg2 : Word
  kbdFifo : BitVec 3 → Byte
  kbdFifoRd : BitVec 3
  kbdFifoWr : BitVec 3
  mouseX : BitVec 7
  mouseY : BitVec 7
  mouseButton : Bool
  mouseHasEvent : Bool
  listen : Bool
  adbDout : Byte
  adbDoutStrobe : Bool

/-- The wires into the chip: the bus state and the byte shifted out from VIA1, a key event and a
mouse event from the decoders. -/
structure Input where
  reset : Bool
  clkEn : Bool
  st : BusState
  adbDin : Byte
  adbDinStrobe : Bool
  keyStrobe : Bool
  keyData : Byte
  mouseStrobe : Bool
  mouseXraw : BitVec 9
  mouseYraw : BitVec 9
  mouseBtn : Bool

variable (s n : State) (i : Input)

namespace State

def cmdAddr : BitVec 4 := s.cmdByte.extractLsb' 4 4

/-- 0 is Reset, 1 Flush, 2 Listen and 3 Talk. -/
def cmdType : BitVec 2 := s.cmdByte.extractLsb' 2 2

def cmdReg : BitVec 2 := s.cmdByte.extractLsb' 0 2

def kbdFifoEmpty : Bool := s.kbdFifoRd == s.kbdFifoWr

def respEmpty : Bool := s.respLen ≤ s.respIdx

def respPending : Bool := !s.respEmpty

end State

/-- `{1'b0, 1'b1, 1'b1, 1'b0, addr}`. -/
def reg3 (addr : BitVec 4) : Byte := (6 : BitVec 4) ++ addr

/-- `response[0] <= b0; response[1] <= b1; resp_len <= 2`. -/
def State.respond (b0 b1 : Byte) : State :=
  { n with response := Function.update (Function.update n.response 0 b0) 1 b1, respLen := 2 }

/-- Listen register 3 with handler `$FE`: the new address of the device. -/
def State.newAddr : Option (BitVec 4) :=
  if s.cmdReg = 3 ∧ 2 ≤ s.listenLen ∧ s.listenData 1 = 0xFE then
    some ((s.listenData 0).extractLsb' 0 4)
  else none

/-- Talk register 0 of the keyboard: up to two keys leave the FIFO. -/
def talkKeys : State :=
  if s.kbdFifoEmpty then n
  else if s.kbdFifoRd + 1 ≠ s.kbdFifoWr then
    { n.respond (s.kbdFifo s.kbdFifoRd) (s.kbdFifo (s.kbdFifoRd + 1)) with
      kbdFifoRd := s.kbdFifoRd + 2 }
  else { n.respond (s.kbdFifo s.kbdFifoRd) 0xFF with kbdFifoRd := s.kbdFifoRd + 1 }

/-- A command to the keyboard. -/
def keyboardCommand (doFinish : Bool) : State :=
  if s.cmdType = 1 then { n with kbdFifoRd := 0, kbdFifoWr := 0, cmdProcessed := true }
  else if s.cmdType = 2 then
    if !doFinish then n
    else if s.cmdReg = 2 ∧ 1 ≤ s.listenLen then
      { n with
        kbdReg2 := s.kbdReg2.extractLsb' 3 13 ++ (s.listenData 0).extractLsb' 0 3
        cmdProcessed := true }
    else { n with kbdAddr := s.newAddr.getD n.kbdAddr, cmdProcessed := true }
  else if s.cmdReg = 0 then { talkKeys s n with cmdProcessed := true }
  else if s.cmdReg = 2 then
    { n.respond (highByte s.kbdReg2) (lowByte s.kbdReg2) with cmdProcessed := true }
  else if s.cmdReg = 3 then { n.respond (reg3 s.kbdAddr) 2 with cmdProcessed := true }
  else { n with cmdProcessed := true }

/-- A command to the mouse. -/
def mouseCommand (doFinish : Bool) : State :=
  if s.cmdType = 1 then
    { n with mouseX := 0, mouseY := 0, mouseHasEvent := false, cmdProcessed := true }
  else if s.cmdType = 2 then
    if !doFinish then n
    else { n with mouseAddr := s.newAddr.getD n.mouseAddr, cmdProcessed := true }
  else if s.cmdReg = 0 then
    if s.mouseHasEvent then
      { n.respond (BitVec.ofBool (!s.mouseButton) ++ s.mouseY) (BitVec.ofBool true ++ s.mouseX) with
        mouseX := 0, mouseY := 0, mouseHasEvent := false, cmdProcessed := true }
    else { n with cmdProcessed := true }
  else if s.cmdReg = 3 then { n.respond (reg3 s.mouseAddr) 1 with cmdProcessed := true }
  else { n with cmdProcessed := true }

/-- `process_command`; `doFinish` when a data phase ends. -/
def processCommand (doFinish : Bool) : State :=
  let n := { n with respLen := 0, respIdx := 0 }
  if s.cmdType = 0 then
    { n with
      kbdAddr := addrKeyboard, mouseAddr := addrMouse, kbdReg2 := 0xFFFF
      kbdFifoRd := 0, kbdFifoWr := 0
      mouseX := 0, mouseY := 0, mouseButton := false, mouseHasEvent := false
      cmdProcessed := true }
  else if s.cmdAddr = s.kbdAddr then keyboardCommand s n doFinish
  else if s.cmdAddr = s.mouseAddr then mouseCommand s n doFinish
  else { n with cmdProcessed := true }

/-- A pending Listen is applied. -/
def finishListen : State :=
  if s.cmdValid && s.cmdType = 2 && !s.cmdProcessed then processCommand s n true else n

/-- The next response byte, or 0 when there is none, is strobed. -/
def deliver : State :=
  if s.respEmpty then { n with adbDout := 0, adbDoutStrobe := true }
  else { n with
    adbDout := s.response s.respIdx, adbDoutStrobe := true, respIdx := s.respIdx + 1 }

/-- The bus goes to another state. -/
def transition : State :=
  if i.st = s.stPrev then n
  else
    match i.st with
    | .idle => { n with stPrev := .idle }
    | .command =>
      { finishListen s { n with stPrev := .command } with
        cmdValid := false, cmdProcessed := false, respLen := 0, respIdx := 0, listenLen := 0 }
    | .data1 => deliver s { n with stPrev := .data1 }
    | .data2 => deliver s { n with stPrev := .data2 }

/-- `listen_data[listen_len] <= adb_din`. -/
def takeListen : State :=
  { n with
    listenData := Function.update n.listenData s.listenLen i.adbDin, listenLen := s.listenLen + 1 }

/-- A byte shifted out in the command state. -/
def receive : State :=
  if i.st = .command ∧ i.adbDinStrobe then
    if s.cmdValid then takeListen s n i
    else { n with cmdByte := i.adbDin, cmdValid := true, cmdProcessed := false, listenLen := 0 }
  else n

/-- The command byte has settled and is not a Listen. -/
def State.executes : Bool :=
  s.cmdValid && !s.cmdProcessed && i.st = .command && s.cmdType ≠ 2

def execute : State :=
  if s.executes i then { processCommand s n false with cmdValid := false } else n

/-- A Listen byte shifted out in a data phase. -/
def receiveListen : State :=
  if (i.st = .data1 ∨ i.st = .data2) ∧ i.adbDinStrobe ∧ s.cmdValid ∧ s.cmdType = 2 then
    { takeListen s n i with listen := true }
  else n

/-- A key event other than the "no key" code `$7F`. -/
def Input.keyEvent : Bool := i.keyStrobe && i.keyData.extractLsb' 0 7 ≠ 0x7F

def storeKey : State :=
  if i.keyEvent then
    { n with
      kbdFifo := Function.update n.kbdFifo s.kbdFifoWr i.keyData, kbdFifoWr := s.kbdFifoWr + 1 }
  else n

/-- A mouse delta in seven bits: `high` and `low` stand for what is too large and too small. -/
def clamp (raw : BitVec 9) (high low mid : BitVec 7) : BitVec 7 :=
  if !raw.getLsbD 8 && (raw.getLsbD 7 || raw.getLsbD 6) then high
  else if raw.getLsbD 8 && !raw.getLsbD 6 then low
  else mid

def moveMouse : State :=
  if i.mouseStrobe && (i.mouseXraw ≠ 0 || i.mouseYraw ≠ 0 || i.mouseBtn != s.mouseButton) then
    { n with
      mouseX := clamp i.mouseXraw 0x3F 0x40 (i.mouseXraw.extractLsb' 0 7)
      mouseY := clamp i.mouseYraw 0x40 0x3F (-i.mouseYraw.extractLsb' 0 7)
      mouseButton := i.mouseBtn, mouseHasEvent := true }
  else n

/-- The registers the reset input sets. -/
def State.init : State :=
  { s with
    stPrev := .idle, cmdValid := false, cmdProcessed := false, respLen := 0, respIdx := 0
    listen := false, listenLen := 0, adbDout := 0, adbDoutStrobe := false
    kbdAddr := addrKeyboard, mouseAddr := addrMouse, kbdReg2 := 0xFFFF
    kbdFifoRd := 0, kbdFifoWr := 0
    mouseX := 0, mouseY := 0, mouseButton := false, mouseHasEvent := false }

/-- The bus and the commands in an enabled clock. -/
def State.commanded : State :=
  let n := transition s { s with adbDoutStrobe := false, listen := false } i
  receiveListen s (execute s (receive s n i) i) i

/-- An enabled clock. -/
def State.enabled : State := moveMouse s (storeKey s (s.commanded i) i) i

/-- One clock. -/
def step : State := if i.reset then s.init else if i.clkEn then s.enabled i else s

end Adb
