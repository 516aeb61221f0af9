import LBMacTwo.Scsi.Hps

/-!
# The host adapter `ncr5380.sv`

The register file and the pseudo-DMA engine in front of a target. One `Ncr` field per register, one
definition per wire and per `always` block. The second target of the pair, which is never selected
together with the first, and the disabled `scsi_empty_cd` are left out: a target that is not busy
drives none of the bus signals. So are the JTAG probes and the power-on reset, after which the
registers are those of `Ncr.init`.
-/

namespace Scsi

/-! ### Registers -/

structure Ncr where
  mr : Byte
  icr : Byte
  tcr : BitVec 4
  arbActive : Bool
  arbCount : ℕ
  dout : Byte
  dmaEn : Bool
  dmaWr : Bool
  regWr : Bool
  dmaAck : Bool
  dmaAckHoldoff : ℕ
  dmaSettle : ℕ
  dmaWordLatched : Bool
  dmaLongwordLatched : Bool
  dmaSecondWordLatched : Bool
  dmaSuppressAckLatched : Bool
  dmaLongwordSecondPending : Bool
  dmaSecondWordData : Word
  dmaWriteLowByte : Byte
  oldDmaRd : Bool
  oldDmaWr : Bool
  oldRegWr : Bool
  irqLatch : Bool
  dmaArmed : Bool
  pmatchD : Bool
  oldRstRd : Bool
  reqDeferred : Bool
  oldReqBusD : Bool
  oldCsrRdD : Bool

def Ncr.init : Ncr where
  mr := 0
  icr := 0
  tcr := 0
  arbActive := false
  arbCount := 0
  dout := 0
  dmaEn := false
  dmaWr := false
  regWr := false
  dmaAck := false
  dmaAckHoldoff := 0
  dmaSettle := 0
  dmaWordLatched := false
  dmaLongwordLatched := false
  dmaSecondWordLatched := false
  dmaSuppressAckLatched := false
  dmaLongwordSecondPending := false
  dmaSecondWordData := 0
  dmaWriteLowByte := 0
  oldDmaRd := false
  oldDmaWr := false
  oldRegWr := false
  irqLatch := false
  dmaArmed := false
  pmatchD := true
  oldRstRd := false
  reqDeferred := false
  oldReqBusD := false
  oldCsrRdD := false

/-- The host bus in one clock. -/
structure Host where
  busCs : Bool
  busRs : ℕ
  ior : Bool
  iow : Bool
  dack : Bool
  dmaWord : Bool
  dmaLongword : Bool
  dmaSecondWord : Bool
  wdata : Word

/-- The adapter with its target and the block device behind it. -/
structure Chip where
  ncr : Ncr
  sys : Sys

/-- What comes from outside in one clock. -/
structure Clock where
  host : Host
  hps : HpsMove
  imgMounted : Bool
  imgBlocks : ℕ

/-! ### Register numbers and bits -/

def wregOdr : ℕ := 0
def wregIcr : ℕ := 1
def wregMr : ℕ := 2
def wregTcr : ℕ := 3
def wregDmas : ℕ := 5
def wregIdmar : ℕ := 7
def rregCsr : ℕ := 4
def rregRst : ℕ := 7

def Ncr.mrDmaMode (n : Ncr) : Bool := n.mr.getLsbD 1
def Ncr.mrArb (n : Ncr) : Bool := n.mr.getLsbD 0

def Ncr.icrARst (n : Ncr) : Bool := n.icr.getLsbD 7
def Ncr.icrAAck (n : Ncr) : Bool := n.icr.getLsbD 4
def Ncr.icrABsy (n : Ncr) : Bool := n.icr.getLsbD 3
def Ncr.icrASel (n : Ncr) : Bool := n.icr.getLsbD 2
def Ncr.icrAAtn (n : Ncr) : Bool := n.icr.getLsbD 1
def Ncr.icrAData (n : Ncr) : Bool := n.icr.getLsbD 0

def Ncr.tcrAMsg (n : Ncr) : Bool := n.tcr.getLsbD 2
def Ncr.tcrACd (n : Ncr) : Bool := n.tcr.getLsbD 1
def Ncr.tcrAIo (n : Ncr) : Bool := n.tcr.getLsbD 0

/-! ### Access decodes -/

def Host.iDmaRd (h : Host) : Bool := h.busCs && h.dack && h.ior
def Host.iDmaWr (h : Host) : Bool := h.busCs && h.dack && h.iow
def Host.iRegWr (h : Host) : Bool := h.busCs && !h.dack && h.iow
def Host.csrRd (h : Host) : Bool := h.busCs && !h.dack && h.ior && h.busRs == rregCsr
def Host.rstRd (h : Host) : Bool := h.busCs && !h.dack && h.ior && h.busRs == rregRst

/-- A register write takes effect, one clock after its strobe was seen. -/
def Ncr.writes (n : Ncr) (h : Host) (rs : ℕ) : Bool := n.regWr && h.busRs == rs

/-! ### The SCSI bus -/

def Ncr.scsiAck (n : Ncr) : Bool := n.icrAAck || n.dmaAck

def Chip.scsiReq (c : Chip) : Bool := c.sys.tgt.bsy && req c.sys.tgt c.ncr.scsiAck c.sys.ioAck

def Chip.scsiReqBus (c : Chip) : Bool := c.sys.tgt.bsy && reqBus c.sys.tgt c.ncr.scsiAck c.sys.ioAck

def Chip.scsiBsy (c : Chip) : Bool := c.ncr.icrABsy || c.sys.tgt.bsy || c.ncr.mrArb

/-- `bsr_pmatch`: the bus is in the phase that TCR names. -/
def Chip.bsrPmatch (c : Chip) : Bool :=
  c.ncr.tcrAMsg == c.sys.tgt.msg && c.ncr.tcrACd == c.sys.tgt.cd && c.ncr.tcrAIo == c.sys.tgt.io

/-- The target's `dout`, as the bus carries it. -/
def Chip.din (P : Params) (c : Chip) : Byte := if c.sys.tgt.bsy then dout P c.sys.tgt else 0

def Chip.dinPair (P : Params) (c : Chip) : Word := if c.sys.tgt.bsy then doutPair P c.sys.tgt else 0

def Chip.dinPairNext (P : Params) (c : Chip) : Word :=
  if c.sys.tgt.bsy then doutPairNext P c.sys.tgt else 0

/-- The initiator drives the data bus. -/
def Ncr.outEn (n : Ncr) : Bool := n.icrAData || n.mrArb

/-- The low byte of a word is on the bus for one clock, before its `ack`. -/
def Ncr.dmaWriteData (n : Ncr) : Byte :=
  if n.dmaAckHoldoff == 1 && n.dmaWordLatched then n.dmaWriteLowByte else n.dout

def Chip.scsiBusData (P : Params) (c : Chip) : Byte :=
  (if c.ncr.outEn then c.ncr.dmaWriteData else 0) ||| c.din P

/-! ### DREQ and reads -/

def Ncr.dmaAckBusy (n : Ncr) : Bool := n.dmaAck || n.dmaAckHoldoff != 0 || n.dmaSettle != 0

def Chip.dreq (c : Chip) : Bool := c.scsiReq && c.ncr.dmaEn && !c.ncr.dmaAckBusy

/-- The REQ bit of the CSR. -/
def Chip.csrReq (c : Chip) : Bool := c.scsiReqBus && !c.ncr.reqDeferred

def Chip.csr (c : Chip) : Byte :=
  packByte c.ncr.icrARst c.scsiBsy c.csrReq c.sys.tgt.msg c.sys.tgt.cd c.sys.tgt.io c.ncr.icrASel
    false

/-- `bsr_eodma`: the bus is not in a data phase. -/
def Chip.bsrEodma (c : Chip) : Bool := !(c.scsiBsy && !c.sys.tgt.cd && !c.sys.tgt.msg)

def Chip.bsr (c : Chip) : Byte :=
  packByte c.bsrEodma (c.scsiReqBus && c.ncr.dmaEn) false c.ncr.irqLatch c.bsrPmatch false
    c.ncr.icrAAtn c.ncr.scsiAck

def Ncr.icrRead (n : Ncr) : Byte :=
  packByte n.icrARst n.mrArb false n.icrAAck n.icrABsy n.icrASel n.icrAAtn n.icrAData

def Chip.rdata8 (P : Params) (c : Chip) (h : Host) : Byte :=
  if h.dack then c.scsiBusData P
  else match h.busRs with
    | 0 => c.scsiBusData P
    | 1 => c.ncr.icrRead
    | 2 => c.ncr.mr
    | 3 => c.ncr.tcr.setWidth 8
    | 4 => c.csr
    | 5 => c.bsr
    | 6 => c.scsiBusData P
    | 7 => 0
    | _ => 0xff

def Chip.curDataPair (P : Params) (c : Chip) : Word :=
  if c.ncr.outEn then pairWord c.ncr.dout c.ncr.dout
  else if c.ncr.dmaSuppressAckLatched then c.ncr.dmaSecondWordData
  else c.dinPair P

def Chip.rdata (P : Params) (c : Chip) (h : Host) : Word :=
  if h.dack && h.dmaWord then c.curDataPair P else pairWord (c.rdata8 P h) (c.rdata8 P h)

/-! ### The pseudo-DMA engine -/

def Ncr.rdRise (n : Ncr) (h : Host) : Bool := !n.oldDmaRd && h.iDmaRd
def Ncr.wrRise (n : Ncr) (h : Host) : Bool := !n.oldDmaWr && h.iDmaWr
def Ncr.rdFall (n : Ncr) (h : Host) : Bool := n.oldDmaRd && !h.iDmaRd
def Ncr.wrFall (n : Ncr) (h : Host) : Bool := n.oldDmaWr && !h.iDmaWr

/-- An access has ended that is acknowledged to the target. -/
def Ncr.accessEnd (n : Ncr) (h : Host) : Bool :=
  n.dmaAckHoldoff == 0 && (n.wrFall h || (n.rdFall h && !n.dmaSuppressAckLatched))

/-- The train of `ack` pulses starts. -/
def Chip.trainStart (c : Chip) (h : Host) : Bool :=
  c.ncr.accessEnd h && c.ncr.dmaEn && c.bsrPmatch

/-- What `dma_ack_holdoff` is set to: a pulse takes two clocks, the first of them is free. -/
def Ncr.trainHoldoff (n : Ncr) (h : Host) : ℕ :=
  if n.rdFall h then (if n.dmaLongwordLatched then 6 else if n.dmaWordLatched then 2 else 0)
  else if n.dmaWordLatched then 2 else 0

def dmaSettleNext (n : Ncr) : ℕ := if n.dmaAck then 4 else n.dmaSettle - 1

def dmaAckNext (c : Chip) (h : Host) : Bool :=
  if c.ncr.dmaAckHoldoff != 0 then c.ncr.dmaAckHoldoff % 2 == 1 else c.trainStart h

def dmaAckHoldoffNext (c : Chip) (h : Host) : ℕ :=
  if c.ncr.dmaAckHoldoff != 0 then c.ncr.dmaAckHoldoff - 1
  else if c.trainStart h then c.ncr.trainHoldoff h else 0

def dmaWordLatchedNext (n : Ncr) (h : Host) : Bool :=
  if n.rdRise h || n.wrRise h then h.dmaWord else n.dmaWordLatched

def dmaLongwordLatchedNext (n : Ncr) (h : Host) : Bool :=
  if n.rdRise h || n.wrRise h then h.dmaLongword else n.dmaLongwordLatched

def dmaSecondWordLatchedNext (n : Ncr) (h : Host) : Bool :=
  if n.rdRise h || n.wrRise h then h.dmaSecondWord else n.dmaSecondWordLatched

def dmaSuppressAckLatchedNext (n : Ncr) (h : Host) : Bool :=
  if n.rdRise h then n.dmaLongwordSecondPending && h.dmaSecondWord else n.dmaSuppressAckLatched

def dmaLongwordSecondPendingNext (n : Ncr) (h : Host) : Bool :=
  if n.rdRise h then
    (if n.dmaLongwordSecondPending && h.dmaSecondWord then false
     else h.dmaWord && h.dmaLongword && !h.dmaSecondWord)
  else n.dmaLongwordSecondPending

/-- The second word of a longword is kept when its first cycle ends. -/
def dmaSecondWordDataNext (P : Params) (c : Chip) (h : Host) : Word :=
  if c.ncr.accessEnd h && c.ncr.rdFall h && c.ncr.dmaLongwordLatched && c.ncr.dmaWordLatched &&
      !c.ncr.dmaSecondWordLatched then c.dinPairNext P
  else c.ncr.dmaSecondWordData

def dmaWriteLowByteNext (n : Ncr) (h : Host) : Byte :=
  if n.wrRise h then lowByte h.wdata else n.dmaWriteLowByte

/-! ### Registers written by the host -/

def doutNext (n : Ncr) (h : Host) : Byte :=
  if n.writes h wregOdr then highByte h.wdata else if n.dmaWr then highByte h.wdata else n.dout

def icrNext (n : Ncr) (h : Host) : Byte :=
  if n.writes h wregIcr then lowByte h.wdata
  else if n.arbActive && n.arbCount == 0 then n.icr ||| 0x08 else n.icr

def mrNext (n : Ncr) (h : Host) : Byte :=
  if n.icrARst then n.mr &&& 0xfd else if n.writes h wregMr then lowByte h.wdata else n.mr

def arbActiveNext (n : Ncr) (h : Host) : Bool :=
  if n.writes h wregMr then
    (if h.wdata.getLsbD 0 && !n.mrArb then true
     else if !h.wdata.getLsbD 0 then false else n.arbActive)
  else n.arbActive && n.arbCount != 0

def arbCountNext (n : Ncr) (h : Host) : ℕ :=
  if n.writes h wregMr then
    (if h.wdata.getLsbD 0 && !n.mrArb then 64
     else if !h.wdata.getLsbD 0 then 0 else n.arbCount)
  else if n.arbActive then n.arbCount - 1 else n.arbCount

def tcrNext (n : Ncr) (h : Host) : BitVec 4 :=
  if n.writes h wregTcr then h.wdata.setWidth 4 else n.tcr

def dmaEnNext (n : Ncr) (h : Host) : Bool :=
  n.mrDmaMode && (n.writes h wregDmas || n.writes h wregIdmar || n.dmaEn)

/-! ### The completion interrupt -/

/-- The phase stops matching during an armed transfer. -/
def Chip.pmatchFall (c : Chip) : Bool := c.ncr.dmaArmed && c.ncr.pmatchD && !c.bsrPmatch

def irqLatchNext (c : Chip) (h : Host) : Bool :=
  if c.ncr.icrARst then false
  else if c.pmatchFall then true
  else if !c.ncr.oldRstRd && h.rstRd then false else c.ncr.irqLatch

def dmaArmedNext (c : Chip) (h : Host) : Bool :=
  if c.ncr.icrARst then false
  else if c.pmatchFall then false
  else c.ncr.writes h wregDmas || c.ncr.writes h wregIdmar || c.ncr.dmaArmed

/-! ### Deferred REQ -/

def reqDeferredNext (c : Chip) (h : Host) : Bool :=
  if !c.scsiReqBus then false
  else if !c.ncr.oldReqBusD then true
  else if c.ncr.reqDeferred && c.ncr.oldCsrRdD && !h.csrRd then false else c.ncr.reqDeferred

/-! ### One clock -/

def Ncr.step (P : Params) (c : Chip) (h : Host) : Ncr where
  mr := mrNext c.ncr h
  icr := icrNext c.ncr h
  tcr := tcrNext c.ncr h
  arbActive := arbActiveNext c.ncr h
  arbCount := arbCountNext c.ncr h
  dout := doutNext c.ncr h
  dmaEn := dmaEnNext c.ncr h
  dmaWr := c.ncr.wrRise h
  regWr := !c.ncr.oldRegWr && h.iRegWr
  dmaAck := dmaAckNext c h
  dmaAckHoldoff := dmaAckHoldoffNext c h
  dmaSettle := dmaSettleNext c.ncr
  dmaWordLatched := dmaWordLatchedNext c.ncr h
  dmaLongwordLatched := dmaLongwordLatchedNext c.ncr h
  dmaSecondWordLatched := dmaSecondWordLatchedNext c.ncr h
  dmaSuppressAckLatched := dmaSuppressAckLatchedNext c.ncr h
  dmaLongwordSecondPending := dmaLongwordSecondPendingNext c.ncr h
  dmaSecondWordData := dmaSecondWordDataNext P c h
  dmaWriteLowByte := dmaWriteLowByteNext c.ncr h
  oldDmaRd := h.iDmaRd
  oldDmaWr := h.iDmaWr
  oldRegWr := h.iRegWr
  irqLatch := irqLatchNext c h
  dmaArmed := dmaArmedNext c h
  pmatchD := c.bsrPmatch
  oldRstRd := h.rstRd
  reqDeferred := reqDeferredNext c h
  oldReqBusD := c.scsiReqBus
  oldCsrRdD := h.csrRd

/-- The wires from the adapter to its target. -/
def Chip.bus (P : Params) (c : Chip) (k : Clock) : Bus where
  rst := c.ncr.icrARst
  sel := c.ncr.icrASel
  busBusy := c.sys.tgt.bsy
  ack := c.ncr.scsiAck
  din := c.scsiBusData P
  imgMounted := k.imgMounted
  imgBlocks := k.imgBlocks
  dbgDmaWord := c.ncr.dmaWordLatched
  dbgDmaLowbyte := c.ncr.dmaWriteLowByte

def Chip.step (P : Params) (E : Env) (c : Chip) (k : Clock) : Chip where
  ncr := Ncr.step P c k.host
  sys := c.sys.step P E (c.bus P k) k.hps

end Scsi
