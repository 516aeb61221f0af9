import LBMacTwo.Cpu.Wrapper
import LBMacTwo.Memory.Sdram
import LBMacTwo.Foundation.Clocked

/-!
# The CPU on its bus: `LBMacTwo.sv`

The wrapper, the address decoding, the release of a bus cycle by DTACK, VPA or BERR, the two
handshakes of the SDRAM slots and the latch of the read data. The reset is over.

The devices are taken by their answers: the DSACK of the FPU, the acknowledge of the NuBus, the DREQ
of the SCSI chip and the words they drive are arbitrary in every clock. So are the decoding's
configuration lines, which the VIAs drive, the match of the format $B fixup engine, and what the
other masters of the memory bus ask for.

* `Machine`, `In`: the registers and the wires of one clock;
* `Machine.dtack`, `Machine.vpa`: `!_cpuDTACK` and `!_cpuVPA`;
* `Machine.step`: one system clock, with `status_turbo` as a parameter.
-/

namespace Cpu
open Memory

/-- `clk16_en_p` or `clk8_en_p`. -/
def cpuEnP (turbo : Bool) (busPhase : BitVec 2) : Bool :=
  if turbo then busPhase == 0 || busPhase == 2 else busPhase == 3

/-- `clk16_en_n` or `clk8_en_n`. -/
def cpuEnN (turbo : Bool) (busPhase : BitVec 2) : Bool :=
  if turbo then busPhase == 1 || busPhase == 3 else busPhase == 1

structure Machine where
  slots : Slots
  cpu : Wrapper
  sdram : Sdram
  turboDtackEn : Bool
  cpuBusControlD : Bool
  slot0Mark : Bool
  sdramSlotCpuRd : Bool
  cpuSdramRdDone : Bool
  cpuRdWait : BitVec 3
  sdramSlotCpuWr : Bool
  cpuSdramWrDone : Bool
  cpuWrWait : BitVec 3
  cpuData : Word
  fpuDataHoldValid : Bool
  berrCounter : ℕ
  berrOut : Bool
  fixupTake : Bool

/-- The inputs of one clock. -/
structure In where
  config : Config
  kernelNext : Kernel
  fpuDsack : Bool
  nubusAck : Bool
  scsiDREQ : Bool
  fixupMatch : Bool
  fixupData : Word
  fpuData : Word
  fpuDataHold : Word
  deviceData : Word
  videoAddr : ℕ
  hblank : Bool
  dskReadAddrInt : ℕ
  dskReadAddrExt : ℕ
  dioDownload : Bool
  dioWrite : Bool
  dioA : ℕ
  dioData : Word

namespace Machine

variable (turbo : Bool) (s : Machine) (i : In)

/-- The address after the HMMU, which CPU space bypasses. -/
def cpuAddr : ℕ :=
  if s.cpu.kernel.fc = 7 then s.cpu.addr else hmmu i.config.hmmuActive s.cpu.addr

/-- The select lines of `addrDecoder`. -/
def sel : Selects := if s.cpu.asR then decode i.config (s.cpuAddr i) else Selects.none

def selectFPU : Bool :=
  s.cpu.asR && s.cpu.kernel.fc == 7 && field (s.cpuAddr i) 31 16 == 2 &&
    field (s.cpuAddr i) 15 13 == 1

/-- `_cpuVPA` is low. -/
def vpa : Bool :=
  if s.cpu.kernel.fc = 7 ∧ s.selectFPU i = false then true
  else if (s.sel i).viaAccess then s.cpu.asR
  else s.cpu.asR && field (s.cpuAddr i) 23 21 == 7

def rdCycle : Bool := ((s.sel i).ram || (s.sel i).rom) && s.cpu.rwR && s.cpu.asR

def wrCycle : Bool := ((s.sel i).ram || (s.sel i).rom) && !s.cpu.rwR && s.cpu.asR

/-- `ram_or_rom_dtack_raw` is low. -/
def dtackRaw : Bool :=
  s.cpu.asR && field (s.cpuAddr i) 23 21 != 7 && !(turbo && !s.turboDtackEn)

/-- `ram_or_rom_dtack` is low. -/
def ramOrRomDtack : Bool :=
  if s.rdCycle i && !s.cpuSdramRdDone then false
  else if s.wrCycle i && !s.cpuSdramWrDone then false
  else s.dtackRaw turbo i

/-- `_cpuDTACK` is low. -/
def dtack : Bool :=
  if s.selectFPU i then i.fpuDsack
  else if (s.sel i).nubus then i.nubusAck
  else if (s.sel i).scsiDMA then i.scsiDREQ
  else if (s.sel i).viaAccess then false
  else if s.fixupTake then true
  else s.ramOrRomDtack turbo i

def isCpuSpace : Bool := s.cpu.kernel.fc == 7

def anySelect : Bool :=
  (s.sel i).ram || (s.sel i).rom || (s.sel i).via || (s.sel i).via2 || (s.sel i).scc ||
    (s.sel i).scsi || (s.sel i).iwm || (s.sel i).asc || ((s.sel i).nubus && i.nubusAck) ||
    (s.sel i).seOverlay || s.selectFPU i

/-- What the memory bus is asked for. -/
def request : Request where
  config := i.config
  cpuAddr := s.cpuAddr i
  cpuRam := (s.sel i).ram
  cpuRom := (s.sel i).rom
  cpuRW := s.cpu.rwR
  cpuUDS := s.cpu.udsR
  cpuLDS := s.cpu.ldsR
  cpuDataOut := s.cpu.kernel.dout
  videoAddr := i.videoAddr
  hblank := i.hblank
  dskReadAddrInt := i.dskReadAddrInt
  dskReadAddrExt := i.dskReadAddrExt
  dioDownload := i.dioDownload
  dioWrite := i.dioWrite
  dioA := i.dioA
  dioData := i.dioData

/-- The command on the wires of the SDRAM controller. -/
def cmd : Command := command s.slots (s.request i)

/-- `cpu_rd_addr_match`. -/
def cpuRdAddrMatch : Bool := s.sdram.doutAddr == (s.cmd i).addr

/-- `cpu_rd_take`: a match, or the timeout `cpu_rd_wait[2]`. -/
def cpuRdTake : Bool := s.cpuRdAddrMatch i || decide (4 ≤ s.cpuRdWait)

/-- A byte of the disk image on both lanes. -/
def extraRomDataDemux : Word :=
  if memoryAddr s.slots (s.request i) % 2 = 1 then
    pairWord (lowByte s.sdram.dout) (lowByte s.sdram.dout)
  else pairWord (highByte s.sdram.dout) (highByte s.sdram.dout)

/-- `sdram_do`. -/
def sdramDo : Word :=
  if downloadCycle s.slots (s.request i) then 0xFFFF
  else if s.slots.dskReadAckInt || s.slots.dskReadAckExt then s.extraRomDataDemux i
  else s.sdram.dout

/-- The slot's word is latched in this clock. -/
def latchesData : Bool := s.sdramSlotCpuRd && s.slots.clk8EnP && s.cpuRdTake i

/-- `dataControllerDataOut`. -/
def dataControllerDataOut : Word :=
  if (s.sel i).asc || (s.sel i).iwm || (s.sel i).via || (s.sel i).via2 || (s.sel i).nubus ||
      (s.sel i).scc || (s.sel i).scsi then i.deviceData
  else if s.latchesData i then s.sdramDo i
  else s.cpuData

/-- `cpu_data_in`. -/
def cpuDataIn : Word :=
  if s.fixupTake then i.fixupData
  else if s.selectFPU i then i.fpuData
  else if s.fpuDataHoldValid then i.fpuDataHold
  else if !s.anySelect i && !s.isCpuSpace then 0xFFFF
  else s.dataControllerDataOut i

/-- The wires of the wrapper. -/
def wires : Wires where
  phi1 := cpuEnP turbo s.slots.busPhase
  phi2 := cpuEnN turbo s.slots.busPhase
  dtack := s.dtack turbo i
  berr := s.berrOut
  vpa := s.vpa i
  eDiv := turbo
  din := s.cpuDataIn i
  kernelNext := i.kernelNext

def turboDtackEnNext : Bool :=
  if s.cpu.asR && ((!s.cpuBusControlD && s.slots.cpuBusControl) ||
      (!(s.sel i).rom && !(s.sel i).ram)) then true
  else if !s.cpu.asR then false
  else s.turboDtackEn

def cpuSdramRdDoneNext : Bool :=
  if !s.cpu.asR then false
  else if s.sdramSlotCpuRd && s.slots.clk8EnP && s.cpuRdTake i then true
  else s.cpuSdramRdDone

def cpuRdWaitNext : BitVec 3 :=
  if !s.cpu.asR then 0
  else if s.sdramSlotCpuRd && s.slots.clk8EnP && decide (s.cpuRdWait < 4) then s.cpuRdWait + 1
  else s.cpuRdWait

def cpuSdramWrDoneNext : Bool :=
  if !s.cpu.asR then false
  else if (s.sdramSlotCpuWr && s.slots.clk8EnP) || decide (4 ≤ s.cpuWrWait) then true
  else s.cpuSdramWrDone

def cpuWrWaitNext : BitVec 3 :=
  if !s.cpu.asR then 0
  else if s.slots.clk8EnP && decide (s.cpuWrWait < 4) then s.cpuWrWait + 1
  else s.cpuWrWait

/-- The cycle has met nothing for 8 µs. -/
def berrExpires : Bool :=
  s.cpu.asR && !(s.berrOut || s.fixupTake) && !(s.isCpuSpace || s.anySelect i) &&
    s.berrCounter == 251

def berrCounterNext : ℕ :=
  if !s.cpu.asR then 0
  else if s.berrOut || s.fixupTake then s.berrCounter
  else if s.isCpuSpace || s.anySelect i then 0
  else if s.berrCounter = 251 then 0
  else s.berrCounter + 1

def berrOutNext : Bool :=
  if !s.cpu.asR then false else if s.berrExpires i && !i.fixupMatch then true else s.berrOut

def fixupTakeNext : Bool :=
  if !s.cpu.asR then false else if s.berrExpires i && i.fixupMatch then true else s.fixupTake

/-- One system clock. -/
def step : Machine where
  slots := s.slots.step
  cpu := s.cpu.step (s.wires turbo i)
  sdram := s.sdram.clock s.slots.clk8 (s.cmd i)
  turboDtackEn := s.turboDtackEnNext i
  cpuBusControlD := s.slots.cpuBusControl
  slot0Mark := s.slots.clk8EnP
  sdramSlotCpuRd :=
    if s.slot0Mark then s.slots.cpuBusControl && s.rdCycle i else s.sdramSlotCpuRd
  cpuSdramRdDone := s.cpuSdramRdDoneNext i
  cpuRdWait := s.cpuRdWaitNext
  sdramSlotCpuWr :=
    if s.slot0Mark then s.slots.cpuBusControl && s.wrCycle i else s.sdramSlotCpuWr
  cpuSdramWrDone := s.cpuSdramWrDoneNext
  cpuWrWait := s.cpuWrWaitNext
  cpuData := if s.latchesData i then s.sdramDo i else s.cpuData
  fpuDataHoldValid :=
    if s.cpu.asR && s.selectFPU i && s.cpu.rwR then true
    else if s.cpu.asR && !s.selectFPU i then false
    else s.fpuDataHoldValid
  berrCounter := s.berrCounterNext i
  berrOut := s.berrOutNext i
  fixupTake := s.fixupTakeNext i

end Machine

end Cpu
