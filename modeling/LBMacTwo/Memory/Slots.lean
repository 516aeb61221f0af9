import LBMacTwo.Cpu.Decode

/-!
# The slots of the memory bus: `addrController_top.v`

The system clock is divided into slots of four clocks (`busPhase`), and the slots rotate
(`busCycle`): video, CPU, extra (floppy and download), CPU. Active-low wires are modelled by what
they assert.

* `Slots`: the slot counters;
* `Request`: what the bus masters ask for in one clock;
* `Command`: what the SDRAM controller is given, `command` the multiplexers of
  `addrController_top.v` and `LBMacTwo.sv` that select it.
-/

namespace Memory
open Cpu

/-- The slot counters. -/
structure Slots where
  busPhase : BitVec 2
  busCycle : BitVec 2
  extraSlotCount : BitVec 2
  extraSlotAdvance : Bool

namespace Slots

variable (s : Slots)

/-- `clk8`. -/
def clk8 : Bool := decide (s.busPhase < 2)

/-- `clk8_en_p` and `memoryLatch`: the last clock of a slot. -/
def clk8EnP : Bool := s.busPhase == 3

/-- `clk8_en_n`. -/
def clk8EnN : Bool := s.busPhase == 1

def videoBusControl : Bool := s.busCycle == 0

def cpuBusControl : Bool := s.busCycle == 1 || s.busCycle == 3

/-- `extraBusControl` and `dioBusControl`. -/
def extraBusControl : Bool := s.busCycle == 2

def dskReadAckInt : Bool := s.extraBusControl && s.extraSlotCount == 0

def dskReadAckExt : Bool := s.extraBusControl && s.extraSlotCount == 1

/-- One system clock. -/
def step : Slots where
  busPhase := s.busPhase + 1
  busCycle := if s.busPhase = 3 then s.busCycle + 1 else s.busCycle
  extraSlotCount :=
    if s.clk8EnP && s.extraSlotAdvance then s.extraSlotCount + 1 else s.extraSlotCount
  extraSlotAdvance := if s.clk8EnN then s.busCycle == 3 else s.extraSlotAdvance

@[simp] theorem step_busPhase : s.step.busPhase = s.busPhase + 1 := rfl

theorem step_busCycle :
    s.step.busCycle = if s.busPhase = 3 then s.busCycle + 1 else s.busCycle := rfl

end Slots

/-- What the masters of the memory bus ask for. The CPU's part is the bus cycle it drives, `ram` and
`rom` being the select lines gated with AS. -/
structure Request where
  config : Config
  cpuAddr : ℕ
  cpuRam : Bool
  cpuRom : Bool
  cpuRW : Bool
  cpuUDS : Bool
  cpuLDS : Bool
  cpuDataOut : Word
  videoAddr : ℕ
  hblank : Bool
  dskReadAddrInt : ℕ
  dskReadAddrExt : ℕ
  dioDownload : Bool
  dioWrite : Bool
  dioA : ℕ
  dioData : Word

/-- The inputs of the SDRAM controller. -/
structure Command where
  addr : ℕ
  din : Word
  uds : Bool
  lds : Bool
  we : Bool
  oe : Bool

/-- The address bits `rom_access` forces. -/
def romAddr (configROMSize a : ℕ) : ℕ :=
  match configROMSize with
  | 0 => a % 2 ^ 16 + 2 ^ 17
  | 1 => a % 2 ^ 17
  | 2 => a % 2 ^ 18
  | _ => a % 2 ^ 19

/-- `ram2m_bank_a_mirror`: the third megabyte of a 2MB machine is the first one again. -/
def ram2mMirror (c : Config) (a : ℕ) : Bool :=
  c.configRAMSize == 1 && decide (c.glueRAMSize ≤ 1) && field a 23 20 == 2

/-- `macAddr` in a CPU slot. -/
def cpuMacAddr (r : Request) : ℕ :=
  if r.cpuRom then romAddr r.config.configROMSize r.cpuAddr
  else if r.cpuRam && ram2mMirror r.config r.cpuAddr then
    r.cpuAddr % 2 ^ 23 - 2 ^ 21 * field r.cpuAddr 21 21
  else r.cpuAddr % 2 ^ 23

/-- `memoryAddr`. -/
def memoryAddr (s : Slots) (r : Request) : ℕ :=
  if s.dskReadAckInt then (r.dskReadAddrInt + 0x200000) % 2 ^ 23
  else if s.dskReadAckExt then (r.dskReadAddrExt + 0x400000) % 2 ^ 23
  else if s.videoBusControl then r.videoAddr
  else if s.cpuBusControl then cpuMacAddr r
  else r.cpuAddr % 2 ^ 23

def romOE (s : Slots) (r : Request) : Bool := s.cpuBusControl && r.cpuRom && r.cpuRW

def ramOE (s : Slots) (r : Request) : Bool :=
  (s.videoBusControl && r.hblank) || (s.cpuBusControl && r.cpuRam && r.cpuRW)

def ramWE (s : Slots) (r : Request) : Bool := s.cpuBusControl && r.cpuRam && !r.cpuRW

/-- `download_cycle`. -/
def downloadCycle (s : Slots) (r : Request) : Bool := r.dioDownload && s.extraBusControl

/-- `arb_mac_addr`, `arb_mac_din`, `arb_mac_ds`, `arb_mac_we` and `arb_mac_oe`. The video port of
the arbiter is tied off, and the RAM clear runs only while the machine is held in reset. -/
def command (s : Slots) (r : Request) : Command where
  addr :=
    if downloadCycle s r then 0x400000 + r.dioA % 2 ^ 22
    else if romOE s r then 0x400000 + memoryAddr s r / 2 % 2 ^ 18
    else if s.dskReadAckInt || s.dskReadAckExt then 0x400000 + memoryAddr s r / 2
    else memoryAddr s r / 2
  din := if downloadCycle s r then r.dioData else r.cpuDataOut
  uds := if downloadCycle s r then true else if s.cpuBusControl then r.cpuUDS else true
  lds := if downloadCycle s r then true else if s.cpuBusControl then r.cpuLDS else true
  we := if downloadCycle s r then r.dioWrite else ramWE s r
  oe :=
    if downloadCycle s r then false
    else ramOE s r || romOE s r || s.dskReadAckInt || s.dskReadAckExt

/-- The word of the SDRAM the CPU's address selects. -/
def cpuWord (r : Request) : ℕ :=
  if r.cpuRom && r.cpuRW then 0x400000 + cpuMacAddr r / 2 % 2 ^ 18 else cpuMacAddr r / 2

variable {s : Slots} {r : Request}

theorem extraBusControl_of_cpu (h : s.cpuBusControl = true) :
    s.extraBusControl = false ∧ s.videoBusControl = false := by
  unfold Slots.cpuBusControl at h
  unfold Slots.extraBusControl Slots.videoBusControl
  generalize s.busCycle = c at *
  revert c
  decide

/-- In a CPU slot the controller is given the CPU's cycle. -/
theorem command_of_cpu (h : s.cpuBusControl = true) :
    command s r = {
      addr := cpuWord r
      din := r.cpuDataOut
      uds := r.cpuUDS
      lds := r.cpuLDS
      we := r.cpuRam && !r.cpuRW
      oe := (r.cpuRam || r.cpuRom) && r.cpuRW } := by
  obtain ⟨hextra, hvideo⟩ := extraBusControl_of_cpu h
  have haddr : memoryAddr s r = cpuMacAddr r := by
    simp [memoryAddr, Slots.dskReadAckInt, Slots.dskReadAckExt, hextra, hvideo, h]
  simp only [command, downloadCycle, romOE, ramOE, ramWE, Slots.dskReadAckInt,
    Slots.dskReadAckExt, hextra, hvideo, h, haddr, cpuWord, Bool.and_false, Bool.false_and,
    Bool.true_and, Bool.or_false, Bool.false_or, if_false, if_true, Bool.false_eq_true]
  congr 1
  cases r.cpuRam <;> cases r.cpuRom <;> cases r.cpuRW <;> rfl

end Memory
