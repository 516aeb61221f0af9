import LBMacTwo.Scsi.Dpram

/-!
# The SCSI target `scsi.v`

One `State` field per register, one `In` field per input wire, one definition per wire and per
`always` block; `step` is one edge of `clk`. Counters are natural numbers reduced modulo the width
of their register. The hardware build is modelled: `sd_buff_dout` carries the even byte of the
disk in its low half. The JTAG probes (`dbg_*`, the history rings) drive nothing and are left out.
-/

namespace Scsi

/-- The `PHASE_*` codes. -/
inductive Phase
  | idle
  | cmdIn
  | dataOut
  | dataIn
  | statusOut
  | messageOut
  deriving DecidableEq, Repr

/-- The parameters of a target: its bus ID and the depth of its read ring. -/
structure Params where
  id : Fin 8
  ringLog : ℕ
  one_le_ringLog : 1 ≤ ringLog

/-- Target 0 with the shallowest ring. -/
def Params.least : Params := ⟨0, 1, Nat.le_refl 1⟩

/-- `RING_BLOCKS`. -/
def Params.ringBlocks (P : Params) : ℕ := 2 ^ P.ringLog

/-- `1 << BUF_AW`, the number of words of the sector buffer. -/
def Params.bufWords (P : Params) : ℕ := 2 ^ (8 + P.ringLog)

/-- The registers. -/
structure State where
  phase : Phase
  sdBuffSel : Bool
  rdHpsBlk : ℕ
  fillWords : ℕ
  rdFlushPending : Bool
  oddByteR : Byte
  wmBeat2 : Bool
  storeLow : Bool
  oldIoAck : Bool
  status : Byte
  wrPending : Bool
  capacity : ℕ
  mounted : Bool
  cmdCnt : ℕ
  cmd : ℕ → Byte
  oldWr : Bool
  rdBusy : Bool
  ioRd : Bool
  ioWr : Bool
  oldAck : Bool
  stbAck : Bool
  stbAdv : Bool
  buffer0Wr : Bool
  buffer1Wr : Bool
  dataCnt : ℕ
  dataComplete : Bool
  statusSent : Bool
  messageSent : Bool
  lba : ℕ
  tlen : ℕ
  buffer0 : Dpram
  buffer1 : Dpram

/-- The registers at power-up. -/
def State.init : State where
  phase := .idle
  sdBuffSel := false
  rdHpsBlk := 0
  fillWords := 0
  rdFlushPending := false
  oddByteR := 0
  wmBeat2 := false
  storeLow := false
  oldIoAck := false
  status := 0
  wrPending := false
  capacity := 0
  mounted := false
  cmdCnt := 0
  cmd := fun _ => 0
  oldWr := false
  rdBusy := false
  ioRd := false
  ioWr := false
  oldAck := false
  stbAck := false
  stbAdv := false
  buffer0Wr := false
  buffer1Wr := false
  dataCnt := 0
  dataComplete := false
  statusSent := false
  messageSent := false
  lba := 0
  tlen := 0
  buffer0 := .init
  buffer1 := .init

/-- A target with a disk, just selected. -/
def State.selected : State := { State.init with phase := .cmdIn, mounted := true }

/-- `buffer1` holds the odd bytes, `buffer0` the even ones. -/
def State.lane (s : State) (parity : ℕ) : Dpram := if parity = 1 then s.buffer1 else s.buffer0

/-- The input wires. -/
structure In where
  rst : Bool
  sel : Bool
  busBusy : Bool
  ack : Bool
  din : Byte
  imgMounted : Bool
  imgBlocks : ℕ
  ioAck : Bool
  sdBuffAddr : ℕ
  sdBuffDout : Word
  sdBuffWr : Bool
  dbgDmaWord : Bool
  dbgDmaLowbyte : Byte

/-! ### Command decoding -/

def State.opCode (s : State) : ℕ := (s.cmd 0).toNat

def State.cmdGroup (s : State) : ℕ := s.opCode / 32

def State.cmd6Cpl (s : State) : Bool := s.cmdGroup == 0 && s.cmdCnt == 6

def State.cmd10Cpl (s : State) : Bool := (s.cmdGroup == 2 || s.cmdGroup == 1) && s.cmdCnt == 10

def State.cmd12Cpl (s : State) : Bool := s.cmdGroup == 5 && s.cmdCnt == 12

/-- A complete command has been received. -/
def State.cmdCpl (s : State) : Bool := s.cmd6Cpl || s.cmd10Cpl || s.cmd12Cpl

def State.cmdRead6 (s : State) : Bool := s.opCode == 0x08
def State.cmdRead10 (s : State) : Bool := s.opCode == 0x28
def State.cmdRead (s : State) : Bool := s.cmdRead6 || s.cmdRead10
def State.cmdWrite6 (s : State) : Bool := s.opCode == 0x0a
def State.cmdWrite10 (s : State) : Bool := s.opCode == 0x2a
def State.cmdWrite (s : State) : Bool := s.cmdWrite6 || s.cmdWrite10
def State.cmdInquiry (s : State) : Bool := s.opCode == 0x12
def State.cmdFormat (s : State) : Bool := s.opCode == 0x04
def State.cmdModeSelect (s : State) : Bool := s.opCode == 0x15
def State.cmdModeSense (s : State) : Bool := s.opCode == 0x1a
def State.cmdTestUnitReady (s : State) : Bool := s.opCode == 0x00
def State.cmdReadCapacity (s : State) : Bool := s.opCode == 0x25
def State.cmdReadBuffer (s : State) : Bool := s.opCode == 0x3b
def State.cmdWriteBuffer (s : State) : Bool := s.opCode == 0x3c
def State.cmdVerify6 (s : State) : Bool := s.opCode == 0x13
def State.cmdVerify10 (s : State) : Bool := s.opCode == 0x2f
def State.cmdRequestSense (s : State) : Bool := s.opCode == 0x03

/-- The opcode is one the target supports. -/
def State.cmdOk (s : State) : Bool :=
  s.cmdRead || s.cmdWrite || s.cmdInquiry || s.cmdTestUnitReady || s.cmdReadCapacity ||
    s.cmdModeSelect || s.cmdFormat || s.cmdModeSense || s.cmdReadBuffer || s.cmdWriteBuffer ||
    s.cmdVerify6 || s.cmdVerify10 || s.cmdRequestSense

/-- The commands that return data. -/
def State.cmdReturnsData (s : State) : Bool :=
  s.cmdRead || s.cmdInquiry || s.cmdReadCapacity || s.cmdModeSense || s.cmdReadBuffer ||
    s.cmdRequestSense

/-- The commands that receive data. -/
def State.cmdReceivesData (s : State) : Bool :=
  s.cmdWrite || s.cmdModeSelect || s.cmdWriteBuffer

def State.lba6 (s : State) : ℕ :=
  (s.cmd 1).toNat % 32 * 65536 + (s.cmd 2).toNat * 256 + (s.cmd 3).toNat

def State.lba10 (s : State) : ℕ :=
  (s.cmd 2).toNat * 16777216 + (s.cmd 3).toNat * 65536 + (s.cmd 4).toNat * 256 + (s.cmd 5).toNat

def State.tlen6 (s : State) : ℕ := if (s.cmd 4).toNat = 0 then 256 else (s.cmd 4).toNat

def State.tlen10 (s : State) : ℕ := (s.cmd 7).toNat * 256 + (s.cmd 8).toNat

/-! ### Transfer length -/

def State.allocLen (s : State) : ℕ := if s.tlen = 256 then 0 else s.tlen

def State.senseLen (s : State) : ℕ := if s.tlen = 256 then 4 else s.tlen

/-- The number of bytes of the data phase. -/
def State.dataLen (s : State) : ℕ :=
  if s.cmdReadCapacity then 8
  else if s.cmdRead then s.tlen * 512
  else if s.cmdWrite then s.tlen * 512
  else if s.cmdInquiry then (if s.allocLen < 36 then s.allocLen else 36)
  else if s.cmdModeSense then (if s.allocLen < 12 then s.allocLen else 12)
  else if s.cmdRequestSense then (if s.senseLen < 18 then s.senseLen else 18)
  else s.tlen

/-! ### Sector buffer addressing -/

/-- The sector the initiator is reading. -/
def State.rdCurBlk (s : State) : ℕ := s.dataCnt / 512

def rdHpsSlot (P : Params) (s : State) : ℕ := s.rdHpsBlk % P.ringBlocks

def hpsAddrWr (s : State) (i : In) : ℕ := s.sdBuffSel.toNat * 256 + i.sdBuffAddr % 256

def State.macAddrWr (s : State) : ℕ := s.dataCnt / 2 % 512

def hpsAddr (P : Params) (s : State) (i : In) : ℕ :=
  if s.cmdWrite then hpsAddrWr s i else rdHpsSlot P s * 256 + i.sdBuffAddr % 256

def macAddr (P : Params) (s : State) : ℕ :=
  if s.phase == .dataIn then s.macAddrWr else s.dataCnt / 2 % P.bufWords

def hpsFillWr (i : In) : Bool := i.sdBuffWr && i.ioAck

/-! ### Flow control -/

/-- The bit `data_cnt[9]`. -/
def State.dataCntHalf (s : State) : Bool := s.dataCnt / 512 % 2 == 1

def ioBusy (s : State) (ioAck : Bool) : Bool :=
  (s.phase == .dataOut && s.cmdRead && decide (s.rdHpsBlk ≤ s.rdCurBlk)) ||
  (s.phase == .dataIn && (s.ioWr || ioAck || s.wrPending) && s.dataCntHalf == s.sdBuffSel) ||
  (s.phase != .dataOut && s.phase != .dataIn && (s.ioRd || s.ioWr || ioAck || s.wrPending))

def State.dataDone (s : State) : Bool := s.dataComplete || s.dataLen == 0

def State.dataPhaseComplete (s : State) : Bool :=
  (s.phase == .dataOut || s.phase == .dataIn) && s.dataDone

/-- `req`, the flow-controlled request. -/
def req (s : State) (ack ioAck : Bool) : Bool :=
  s.phase != .idle && !ack && !ioBusy s ioAck && !s.dataPhaseComplete

/-- `req_bus`, the bus-visible request. -/
def reqBus (s : State) (ack ioAck : Bool) : Bool :=
  s.phase != .idle && !ack && !s.dataPhaseComplete &&
    (if s.phase == .dataOut then !s.cmdRead || decide (s.rdCurBlk < s.rdHpsBlk)
     else if s.phase == .dataIn then true else !ioBusy s ioAck)

def State.bsy (s : State) : Bool := s.phase != .idle

def State.msg (s : State) : Bool := s.phase == .messageOut

def State.cd (s : State) : Bool :=
  s.phase == .cmdIn || s.phase == .statusOut || s.phase == .messageOut

def State.io (s : State) : Bool :=
  s.phase == .dataOut || s.phase == .statusOut || s.phase == .messageOut

/-! ### Data presented to the initiator -/

def requestSenseByte (cnt : ℕ) : Byte := if cnt = 0 then 0x70 else if cnt = 7 then 0x0a else 0

/-- The INQUIRY response, `"MiSTer  VIRTUAL DISKx"`. -/
def inquiryByte (P : Params) (cnt : ℕ) : Byte :=
  if cnt = 28 then 0x30 + BitVec.ofNat 8 P.id
  else match cnt with
    | 4 => 31
    | 8 => 0x4d | 9 => 0x69 | 10 => 0x53 | 11 => 0x54 | 12 => 0x65 | 13 => 0x72
    | 14 => 0x20 | 15 => 0x20
    | 16 => 0x56 | 17 => 0x49 | 18 => 0x52 | 19 => 0x54 | 20 => 0x55 | 21 => 0x41 | 22 => 0x4c
    | 23 => 0x20 | 24 => 0x44 | 25 => 0x49 | 26 => 0x53 | 27 => 0x4b
    | 29 => 0x20 | 30 => 0x20 | 31 => 0x20
    | _ => 0

/-- Byte `k` of the 32-bit register `capacity`, counted from the least significant. -/
def State.capacityByte (s : State) (k : ℕ) : Byte := BitVec.ofNat 8 (s.capacity / 256 ^ k)

def readCapacityByte (s : State) (cnt : ℕ) : Byte :=
  match cnt with
  | 0 => s.capacityByte 3
  | 1 => s.capacityByte 2
  | 2 => s.capacityByte 1
  | 3 => s.capacityByte 0
  | 6 => 2
  | _ => 0

def modeSenseByte (s : State) (cnt : ℕ) : Byte :=
  match cnt with
  | 0 => 11
  | 3 => 8
  | 5 => s.capacityByte 2
  | 6 => s.capacityByte 1
  | 7 => s.capacityByte 0
  | 10 => 2
  | _ => 0

/-- The byte a command other than READ serves at `data_cnt + k`. -/
def responseByte (P : Params) (s : State) (k : ℕ) : Byte :=
  let cnt := (s.dataCnt + k) % 2 ^ 32
  if s.cmdInquiry then inquiryByte P cnt
  else if s.cmdReadCapacity then readCapacityByte s cnt
  else if s.cmdModeSense then modeSenseByte s cnt
  else if s.cmdRequestSense then requestSenseByte cnt
  else 0

def State.dataCntOdd (s : State) : Bool := s.dataCnt % 2 == 1

def cmdDout (P : Params) (s : State) : Byte :=
  if s.cmdRead then (if s.dataCntOdd then s.buffer1.qB else s.buffer0.qB) else responseByte P s 0

def cmdDoutPair (P : Params) (s : State) : Word :=
  if s.cmdRead then
    (if s.dataCntOdd then pairWord s.buffer1.qB s.buffer0.qC else pairWord s.buffer0.qB s.buffer1.qB)
  else pairWord (responseByte P s 0) (responseByte P s 1)

def cmdDoutPairNext (P : Params) (s : State) : Word :=
  if s.cmdRead then
    (if s.dataCntOdd then pairWord s.buffer1.qC s.buffer0.qD else pairWord s.buffer0.qC s.buffer1.qC)
  else pairWord (responseByte P s 2) (responseByte P s 3)

def statusOk : Byte := 0x00
def statusCheckCondition : Byte := 0x02
def msgCmdComplete : Byte := 0x00

def dout (P : Params) (s : State) : Byte :=
  match s.phase with
  | .statusOut => s.status
  | .messageOut => msgCmdComplete
  | .dataOut => cmdDout P s
  | _ => 0

def doutPair (P : Params) (s : State) : Word :=
  match s.phase with
  | .statusOut => pairWord s.status s.status
  | .messageOut => pairWord msgCmdComplete msgCmdComplete
  | .dataOut => cmdDoutPair P s
  | _ => 0

def doutPairNext (P : Params) (s : State) : Word :=
  match s.phase with
  | .statusOut => pairWord s.status s.status
  | .messageOut => pairWord msgCmdComplete msgCmdComplete
  | .dataOut => cmdDoutPairNext P s
  | _ => 0

/-- The word presented to the HPS during a flush. -/
def State.sdBuffDin (s : State) : Word := pairWord s.buffer1.qA s.buffer0.qA

/-! ### The `always` blocks -/

/-- The transfer phases: the counters of the data path run in these. -/
def Phase.transfers : Phase → Bool
  | .dataOut | .dataIn | .statusOut | .messageOut => true
  | _ => false

/-- The falling edge of the HPS acknowledge. -/
def ioAckFall (s : State) (i : In) : Bool := s.oldIoAck && !i.ioAck

def sdBuffSelNext (s : State) (i : In) : Bool :=
  if s.phase == .idle then false else if ioAckFall s i then !s.sdBuffSel else s.sdBuffSel

/-- A fetched sector is counted: its ack window carried all 256 words and is not an orphan's. -/
def rdCredit (s : State) (i : In) : Bool :=
  ioAckFall s i && s.cmdRead && s.fillWords == 256 && !s.rdFlushPending

def rdHpsBlkNext (s : State) (i : In) : ℕ :=
  if !s.phase.transfers then 0
  else if rdCredit s i then (s.rdHpsBlk + 1) % 2 ^ 23 else s.rdHpsBlk

def fillWordsNext (s : State) (i : In) : ℕ :=
  if !i.ioAck then 0
  else if i.sdBuffWr && s.fillWords != 511 then s.fillWords + 1 else s.fillWords

def oddByteRNext (s : State) (i : In) : Byte :=
  if i.rst then 0
  else if s.phase == .dataIn && s.stbAck && !s.wmBeat2 && i.dbgDmaWord then i.dbgDmaLowbyte
  else s.oddByteR

def wmBeat2Next (s : State) (i : In) : Bool :=
  if i.rst then false
  else if s.phase != .dataIn then false
  else if s.stbAck then (if s.wmBeat2 then false else i.dbgDmaWord)
  else s.wmBeat2

def storeLowNext (s : State) (i : In) : Bool :=
  !i.rst && s.phase == .dataIn && s.stbAck && s.wmBeat2

/-- `rd_blk_total` is `tlen`; the subtraction is made at 32 bits. -/
def rdRingSpace (P : Params) (s : State) : Bool :=
  decide ((s.rdHpsBlk + 2 ^ 32 - s.rdCurBlk) % 2 ^ 32 < P.ringBlocks)

def reqRd (P : Params) (s : State) : Bool :=
  s.phase == .dataOut && s.cmdRead && s.dataLen != 0 && !s.dataComplete &&
    decide (s.rdHpsBlk < s.tlen) && rdRingSpace P s

def reqWr (s : State) : Bool :=
  ((s.phase == .dataIn && s.dataCnt % 512 == 0 && s.dataCnt != 0) || s.phase == .statusOut) &&
    s.cmdWrite && s.dataLen != 0

def rdFlushPendingNext (s : State) (i : In) : Bool :=
  if i.rst then s.rdFlushPending || s.ioRd || s.rdBusy
  else if ioAckFall s i && s.rdFlushPending then false else s.rdFlushPending

/-- A sector fetch is issued on this clock. -/
def issueRd (P : Params) (s : State) (i : In) : Bool :=
  !i.ioAck && reqRd P s && !s.ioRd && !s.rdBusy

def ioRdNext (P : Params) (s : State) (i : In) : Bool :=
  if i.rst then false else if i.ioAck then false else if issueRd P s i then true else s.ioRd

def rdBusyNext (P : Params) (s : State) (i : In) : Bool :=
  if i.rst then false
  else if ioAckFall s i then false else if issueRd P s i then true else s.rdBusy

def oldWrNext (s : State) (i : In) : Bool := !i.rst && reqWr s

/-- A block flush is issued on this clock. -/
def issueWr (s : State) (i : In) : Bool := !i.ioAck && s.wrPending && !s.ioWr

def wrPendingNext (s : State) (i : In) : Bool :=
  if i.rst then false
  else if issueWr s i then false else if !s.oldWr && reqWr s then true else s.wrPending

def ioWrNext (s : State) (i : In) : Bool :=
  if i.rst then false else if i.ioAck then false else if issueWr s i then true else s.ioWr

def stbAckNext (s : State) (i : In) : Bool := !s.oldAck && i.ack

def stbAdvNext (s : State) (i : In) : Bool := s.oldAck && !i.ack

/-- `cmd` has ten bytes; a write beyond them is discarded. -/
def cmdNext (s : State) (i : In) : ℕ → Byte :=
  store s.cmd (s.stbAck && s.phase == .cmdIn && decide (s.cmdCnt < 10)) s.cmdCnt i.din

def buffer0WrNext (s : State) : Bool := s.stbAck && s.phase == .dataIn && !s.dataCntOdd

def buffer1WrNext (s : State) : Bool := s.stbAck && s.phase == .dataIn && s.dataCntOdd

def cmdCntNext (s : State) : ℕ :=
  if s.phase == .idle then 0
  else if s.stbAdv && s.phase == .cmdIn && s.cmdCnt != 15 then s.cmdCnt + 1 else s.cmdCnt

def dataCntNext (s : State) : ℕ :=
  if !s.phase.transfers then 0
  else if s.stbAdv && !s.dataComplete then (s.dataCnt + 1) % 2 ^ 32 else s.dataCnt

def dataCompleteNext (s : State) : Bool :=
  if !s.phase.transfers then false
  else if s.stbAdv then decide ((s.dataLen + 2 ^ 32 - 1) % 2 ^ 32 = s.dataCnt)
  else s.dataComplete

def statusSentNext (s : State) : Bool := s.phase == .statusOut && (s.stbAdv || s.statusSent)

def messageSentNext (s : State) : Bool := s.phase == .messageOut && (s.stbAdv || s.messageSent)

def capacityNext (s : State) (i : In) : ℕ :=
  if i.imgMounted && i.imgBlocks != 0 then i.imgBlocks - 1 else s.capacity

def mountedNext (s : State) (i : In) : Bool := if i.imgMounted then i.imgBlocks != 0 else s.mounted

/-- The parameters of the command are latched in this clock. -/
def State.cmdAccept (s : State) : Bool := s.cmdCpl && s.phase == .cmdIn

def lbaNext (s : State) (i : In) : ℕ :=
  if s.cmdAccept then (if s.cmd6Cpl then s.lba6 else s.lba10)
  else if ioAckFall s i && !s.rdFlushPending then (s.lba + 1) % 2 ^ 32 else s.lba

def tlenNext (s : State) : ℕ :=
  if s.cmdAccept then (if s.cmd6Cpl then s.tlen6 else s.tlen10) else s.tlen

def statusNext (s : State) (i : In) : Byte :=
  if !i.rst && s.cmdAccept then (if s.cmdOk then statusOk else statusCheckCondition) else s.status

/-- The phase that follows an accepted command. -/
def State.cmdPhase (s : State) : Phase :=
  if !s.cmdOk then .statusOut
  else if s.cmdReturnsData then .dataOut
  else if s.cmdReceivesData then .dataIn
  else .statusOut

/-- The target is selected in this clock. -/
def selected (P : Params) (s : State) (i : In) : Bool :=
  i.sel && i.din.getLsbD P.id && s.mounted && !i.busBusy

def phaseNext (P : Params) (s : State) (i : In) : Phase :=
  if i.rst then .idle
  else match s.phase with
    | .idle => if selected P s i then .cmdIn else .idle
    | .cmdIn => if s.cmdCpl then s.cmdPhase else .cmdIn
    | .dataOut => if s.dataDone then .statusOut else .dataOut
    | .dataIn => if s.dataDone then .statusOut else .dataIn
    | .statusOut => if s.statusSent then .messageOut else .statusOut
    | .messageOut => if s.messageSent then .idle else .messageOut

/-- The ports of `buffer0`, the even bytes. -/
def buffer0In (P : Params) (s : State) (i : In) : DpramIn where
  addressA := hpsAddr P s i
  dataA := lowByte i.sdBuffDout
  wrenA := hpsFillWr i
  addressB := macAddr P s
  dataB := i.din
  wrenB := s.buffer0Wr
  addressC := (macAddr P s + 1) % P.bufWords
  addressD := (macAddr P s + 2) % P.bufWords

/-- The ports of `buffer1`, the odd bytes. Only this buffer has the beat-role multiplexer. -/
def buffer1In (P : Params) (s : State) (i : In) : DpramIn where
  addressA := hpsAddr P s i
  dataA := highByte i.sdBuffDout
  wrenA := hpsFillWr i
  addressB := macAddr P s
  dataB := if s.storeLow then s.oddByteR else i.din
  wrenB := s.buffer1Wr
  addressC := (macAddr P s + 1) % P.bufWords
  addressD := (macAddr P s + 2) % P.bufWords

/-- One edge of `clk`. -/
def step (P : Params) (s : State) (i : In) : State where
  phase := phaseNext P s i
  sdBuffSel := sdBuffSelNext s i
  rdHpsBlk := rdHpsBlkNext s i
  fillWords := fillWordsNext s i
  rdFlushPending := rdFlushPendingNext s i
  oddByteR := oddByteRNext s i
  wmBeat2 := wmBeat2Next s i
  storeLow := storeLowNext s i
  oldIoAck := i.ioAck
  status := statusNext s i
  wrPending := wrPendingNext s i
  capacity := capacityNext s i
  mounted := mountedNext s i
  cmdCnt := cmdCntNext s
  cmd := cmdNext s i
  oldWr := oldWrNext s i
  rdBusy := rdBusyNext P s i
  ioRd := ioRdNext P s i
  ioWr := ioWrNext s i
  oldAck := i.ack
  stbAck := stbAckNext s i
  stbAdv := stbAdvNext s i
  buffer0Wr := buffer0WrNext s
  buffer1Wr := buffer1WrNext s
  dataCnt := dataCntNext s
  dataComplete := dataCompleteNext s
  statusSent := statusSentNext s
  messageSent := messageSentNext s
  lba := lbaNext s i
  tlen := tlenNext s
  buffer0 := s.buffer0.step (buffer0In P s i)
  buffer1 := s.buffer1.step (buffer1In P s i)

end Scsi
