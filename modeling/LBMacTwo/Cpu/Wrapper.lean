import LBMacTwo.Foundation.Bits

/-!
# The bus wrapper of the CPU: `tg68k.v`

Active-low registers are modelled by what they assert: `as` is `!as_n_r`, `vma` is `!rVma`, `vpai`
is `!Vpai`. The bus request input is tied off, so the arbitration registers stay clear and are left
out, and so are the `E` output and the reset.

The kernel TG68KdotC is taken by its outputs: they are a register that takes an arbitrary value at
every clock of `tg68_clkena` and holds at every other.

* `Kernel`, `Wrapper`, `In`: the kernel's outputs, the registers, the wires of one clock;
* `Wrapper.step`: one system clock.
-/

namespace Cpu

/-- `tg68_busstate`. -/
inductive BusState
  | fetch
  | idle
  | read
  | write
  deriving DecidableEq

/-- The outputs of the kernel. -/
structure Kernel where
  addr : ℕ
  busstate : BusState
  uds : Bool
  lds : Bool
  fc : BitVec 3
  dout : Word

/-- `nWr`. -/
def Kernel.rw (k : Kernel) : Bool := k.busstate != .write

def Kernel.idle (k : Kernel) : Bool := k.busstate == .idle

structure Wrapper where
  kernel : Kernel
  sState : BitVec 3
  asR : Bool
  rwR : Bool
  udsR : Bool
  ldsR : Bool
  addr : ℕ
  dinR : Word
  eCntr : BitVec 4
  vma : Bool
  vpai : Bool
  enE : Bool

/-- The wires of the wrapper in one clock. -/
structure Wires where
  phi1 : Bool
  phi2 : Bool
  dtack : Bool
  berr : Bool
  vpa : Bool
  eDiv : Bool
  din : Word
  kernelNext : Kernel

namespace Wrapper

variable (s : Wrapper) (i : Wires)

/-- `tg68_clkena`: the kernel goes on to its next bus or internal cycle. -/
def clkena : Bool := i.phi1 && (s.sState == 7 || s.kernel.idle)

/-- `xVma`: the stop of an E cycle one count before the edge. -/
def xVma : Bool := s.vma && s.eCntr == 8 && s.enE

/-- `E_PosClkEn`, wired to the `falling` enable of the VIAs. -/
def eFalling : Bool := i.phi2 && s.eCntr == 5 && s.enE

/-- The wait state ends in this clock. -/
def leaves : Bool :=
  !i.phi1 && i.phi2 && s.sState == 4 && !s.kernel.idle && (i.dtack || s.xVma || i.berr)

/-- `rVma` is pulled low in this clock. -/
def assertsVma : Bool := i.phi2 && s.sState != 0 && s.vpai && s.eCntr == 3 && s.enE

/-- `tg68_din`: the autovector of an interrupt acknowledge, else the data bus. -/
def tg68Din : Word :=
  if s.kernel.fc = 7 ∧ i.vpa = true then
    let v : Byte := BitVec.ofNat 8 (0x18 + s.addr / 2 % 8)
    pairWord v v
  else i.din

def sStateNext : BitVec 3 :=
  if i.phi1 then
    if s.kernel.idle then 0 else if s.sState = 4 then 4 else s.sState + 1
  else if i.phi2 then
    if s.kernel.idle then 0
    else if s.sState != 4 || i.dtack || s.xVma || i.berr then s.sState + 1
    else 4
  else s.sState

/-- The strobes fall in state 1, a write's data strobes in state 3, and rise in state 6. -/
def asNext : Bool :=
  if i.phi1 then if s.sState = 1 ∧ s.kernel.idle = false then true else s.asR
  else if i.phi2 && s.sState == 6 then false
  else s.asR

def rwNext : Bool :=
  if i.phi1 then
    if s.sState = 1 ∧ s.kernel.idle = false then s.kernel.rw
    else if s.sState = 7 then true
    else s.rwR
  else s.rwR

def strobeNext (strobe now : Bool) : Bool :=
  if i.phi1 then
    if s.kernel.idle = false ∧ (s.sState = 1 ∧ s.kernel.rw = true ∨
      s.sState = 3 ∧ s.kernel.rw = false) then strobe
    else now
  else if i.phi2 && s.sState == 6 then false
  else now

def eCntrNext : BitVec 4 :=
  if i.phi2 && s.enE then if s.eCntr = 9 then 0 else s.eCntr + 1 else s.eCntr

def vmaNext : Bool :=
  if s.assertsVma i then true
  else if i.phi1 && s.eCntr == 0 && s.enE then false
  else s.vma

/-- One system clock. -/
def step : Wrapper where
  kernel := if s.clkena i then i.kernelNext else s.kernel
  sState := s.sStateNext i
  asR := s.asNext i
  rwR := s.rwNext i
  udsR := s.strobeNext i s.kernel.uds s.udsR
  ldsR := s.strobeNext i s.kernel.lds s.ldsR
  addr := s.kernel.addr
  dinR := if !i.phi1 && i.phi2 && s.sState == 6 then s.tg68Din i else s.dinR
  eCntr := s.eCntrNext i
  vma := s.vmaNext i
  vpai := if i.phi1 then i.vpa else s.vpai
  enE := if i.phi1 then if i.eDiv then !s.enE else true else s.enE

end Wrapper

end Cpu
