import LBMacTwo.Foundation.Clocked
import LBMacTwo.Memory.Sdram

/-!
# Downloads and the clearing of RAM: `LBMacTwo.sv`

Two engines write the SDRAM through the extra slot: a download, one word for each `ioctl_wr`, and
the cold-boot clear, which walks through RAM once `boot0.rom` is in and stands back while
`dio_download` is high.

* `Loader`: the registers of both engines; `Loader.step` one system clock;
* `command`: what the SDRAM controller is given, with the clear's slots;
* `Ram`: the controller with its start-up ladder, during which it takes no command;
* `Board`: all of it together; `Board.store` is the write the chip performs in a clock.
-/

namespace Memory.Load
open Clocked

/-- The highest word of the RAM, `clear_limit`. -/
def clearLimit : ℕ := 0x3FFFFF

structure Loader where
  dioA : ℕ
  dioData : Word
  dioWrite : Bool
  ioctlWait : Bool
  oldCyc : Bool
  romLoaded : Bool
  oldDown : Bool
  sawRom0 : Bool
  clearAddr : ℕ
  clearActive : Bool
  clearDone : Bool
  clearWrite : Bool
  clearOldCyc : Bool

/-- The lock of the clocks and the download port of the host. -/
structure Host where
  sysLocked : Bool
  dioDownload : Bool
  ioctlWrite : Bool
  dioIndex : Byte
  dioAddr : ℕ
  ioctlData : Word

/-- `dio_a`: the word above `0x400000` a download index and address name. -/
def Host.target (h : Host) : ℕ :=
  if h.dioIndex = 0 then h.dioAddr % 2 ^ 18
  else if h.dioIndex.extractLsb' 0 2 = 1 ∨ h.dioIndex.extractLsb' 0 2 = 2 then
    (h.dioIndex.extractLsb' 0 2).toNat * 2 ^ 20 + h.dioAddr % 2 ^ 20
  else (h.dioIndex.extractLsb' 6 1).toNat * 2 ^ 18 + h.dioAddr % 2 ^ 18

/-- `{ioctl_data[7:0], ioctl_data[15:8]}`. -/
def Host.swapped (h : Host) : Word := pairWord (lowByte h.ioctlData) (highByte h.ioctlData)

namespace Loader

variable (l : Loader) (h : Host) (dioBusControl : Bool)

/-- The extra slot has just ended. -/
def slotEnds (oldCyc : Bool) : Bool := oldCyc && !dioBusControl

/-- The slot that ends is counted by the clear. -/
def counts : Bool :=
  h.sysLocked && l.clearActive && !h.dioDownload && slotEnds dioBusControl l.clearOldCyc &&
    l.clearWrite

def clearCycle : Bool := l.clearActive && dioBusControl && !h.dioDownload

/-- One system clock. -/
def step : Loader where
  dioA := if h.ioctlWrite then h.target else l.dioA
  dioData := if h.ioctlWrite then h.swapped else l.dioData
  dioWrite := if !dioBusControl then l.ioctlWait else l.dioWrite
  ioctlWait :=
    if slotEnds dioBusControl l.oldCyc && l.dioWrite then false
    else if h.ioctlWrite then true
    else l.ioctlWait
  oldCyc := dioBusControl
  romLoaded := if l.oldDown && !h.dioDownload && l.sawRom0 then true else l.romLoaded
  oldDown := h.dioDownload
  sawRom0 := if h.dioDownload && h.dioIndex == 0 then true else l.sawRom0
  clearAddr :=
    if !h.sysLocked then 0
    else if l.counts h dioBusControl && l.clearAddr != clearLimit then l.clearAddr + 1
    else l.clearAddr
  clearActive :=
    if !h.sysLocked then false
    else if l.counts h dioBusControl && l.clearAddr == clearLimit then false
    else if !l.clearDone && !l.clearActive && l.romLoaded then true
    else l.clearActive
  clearDone :=
    if !h.sysLocked then false
    else if l.counts h dioBusControl && l.clearAddr == clearLimit then true
    else l.clearDone
  clearWrite :=
    if !h.sysLocked then false
    else if l.counts h dioBusControl then false
    else if l.clearActive && !h.dioDownload && !dioBusControl then true
    else l.clearWrite
  clearOldCyc := if !h.sysLocked then false else dioBusControl

end Loader

/-- `arb_mac_addr`, `arb_mac_din`, `arb_mac_ds`, `arb_mac_we` and `arb_mac_oe`; `r` is what the
machine asks for. -/
def command (s : Slots) (l : Loader) (h : Host) (r : Request) : Command :=
  if l.clearCycle h s.extraBusControl then
    { addr := l.clearAddr, din := 0, uds := true, lds := true, we := l.clearWrite, oe := false }
  else
    Memory.command s { r with
      dioDownload := h.dioDownload, dioWrite := l.dioWrite, dioA := l.dioA, dioData := l.dioData }

/-- The SDRAM controller with its start-up ladder. -/
structure Ram where
  sdram : Sdram
  reset : ℕ

namespace Ram

variable (m : Ram) (init clk8 : Bool) (c : Command)

/-- One clock of the controller: commands are taken when the ladder is over. -/
def tick : Ram where
  sdram := if m.reset = 0 then m.sdram.tick clk8 c else { m.sdram with t := tNext m.sdram.t clk8 }
  reset :=
    if init then 0x3FF else if m.sdram.t = 7 ∧ m.reset ≠ 0 then m.reset - 1 else m.reset

/-- One system clock. -/
def clock : Ram := (m.tick init clk8 c).tick init clk8 c

end Ram

structure Board where
  slots : Slots
  loader : Loader
  ram : Ram

/-- A word written to a cell of the chip, with its byte strobes. -/
structure Store where
  addr : ℕ
  data : Word
  uds : Bool
  lds : Bool
  deriving DecidableEq

namespace Board

variable (b : Board) (h : Host) (r : Request)

def command : Command := Load.command b.slots b.loader h r

def step (i : Host × Request) : Board where
  slots := b.slots.step
  loader := b.loader.step i.1 b.slots.extraBusControl
  ram := b.ram.clock (!i.1.sysLocked) b.slots.clk8 (b.command i.1 i.2)

/-- The write the chip performs in this clock: the column command of a slot that has latched `we`.
The counter stands at 2 at the start of that clock. -/
def store : Option Store :=
  if b.ram.reset = 0 ∧ b.ram.sdram.t = 2 ∧ b.ram.sdram.weLatch = true then
    some ⟨cell b.ram.sdram.row (b.command h r).addr, (b.command h r).din, (b.command h r).uds,
      (b.command h r).lds⟩
  else none

end Board

end Memory.Load
