import LBMacTwo.Foundation.Bits

/-!
# The floppy controller `swim.v`

The registers of the controller and its combinational wires, one definition each. One step is one
clock with `cen` high. The two drives are outside: what they put on their wires is part of the
input. Signals the source has active low (`_cpuUDS`, `_cpuLDS`) are positive here.
-/

namespace Swim

/-- An entry of the ISM FIFO: the data byte, MARK, the CRC token of the CPU and CRC0. -/
structure FifoWord where
  data : Byte
  mark : Bool
  crc : Bool
  crc0 : Bool
  deriving DecidableEq

instance : Inhabited FifoWord := ⟨⟨0, false, false, false⟩⟩

structure State where
  ismMode : Bool
  ismModeReg : Byte
  ismSetup : Byte
  ismError : Byte
  ismParam : ℕ → Byte
  ismParamIdx : ℕ
  ismFifo0 : FifoWord
  ismFifo1 : FifoWord
  ismFifoPos : ℕ
  ismStage : ℕ → FifoWord
  ismStageRd : ℕ
  ismStageWr : ℕ
  ismStageCnt : ℕ
  iwmToIsmCounter : ℕ
  ca0 : Bool
  ca1 : Bool
  ca2 : Bool
  lstrb : Bool
  selectExternalDrive : Bool
  q6 : Bool
  q7 : Bool
  diskEnableExt : Bool
  diskEnableInt : Bool
  writeData : Byte
  iwmMode : BitVec 5
  swimAccD : Bool
  accAddrL : ℕ
  accRwL : Bool
  accDataL : Byte
  ismPhaseOe : BitVec 4
  mfmSynced : Bool
  ismArmD : Bool
  iwmReadD : Bool
  readDataLatch : Byte
  readLatchClearTimer : ℕ
  readDataArmDelay : ℕ
  anyDiskEnableD : Bool

/-- The registers after reset. -/
def State.init : State where
  ismMode := false
  ismModeReg := 0
  ismSetup := 0
  ismError := 0
  ismParam := fun _ => 0
  ismParamIdx := 0
  ismFifo0 := default
  ismFifo1 := default
  ismFifoPos := 0
  ismStage := fun _ => default
  ismStageRd := 0
  ismStageWr := 0
  ismStageCnt := 0
  iwmToIsmCounter := 0
  ca0 := false
  ca1 := false
  ca2 := false
  lstrb := false
  selectExternalDrive := false
  q6 := false
  q7 := false
  diskEnableExt := false
  diskEnableInt := false
  writeData := 0
  iwmMode := 0
  swimAccD := false
  accAddrL := 0
  accRwL := true
  accDataL := 0
  ismPhaseOe := 0
  mfmSynced := false
  ismArmD := false
  iwmReadD := false
  readDataLatch := 0
  readLatchClearTimer := 0
  readDataArmDelay := 0
  anyDiskEnableD := false

/-- The wires of a drive: the MFM delivery and the IWM read data. -/
structure Drive where
  mfmStb : Bool
  mfmByte : Byte
  mfmMark : Bool
  mfmCrc0 : Bool
  readData : Byte
  newByteReady : Bool

/-- `readData[7]` doubles as the sense line. -/
def Drive.sense (d : Drive) : Bool := d.readData.getLsbD 7

structure In where
  selectSWIM : Bool
  cpuRW : Bool
  uds : Bool
  lds : Bool
  dataIn : Word
  cpuAddrRegHi : ℕ
  int : Drive
  ext : Drive

/-- The byte on the active lane. -/
def In.dataInLo (i : In) : Byte := if i.lds then lowByte i.dataIn else highByte i.dataIn

/-! ### Drive select and the read datapath -/

/-- `ism_mode_reg[2:1]`. -/
def State.devsel (s : State) : ℕ := s.ismModeReg.toNat / 2 % 4

def State.ismDevselExt (s : State) : Bool :=
  s.ismMode && s.ismModeReg.getLsbD 7 && s.devsel == 2

/-- The drive whose MFM delivery and sense line the ISM sees. -/
def ismDrive (s : State) (i : In) : Drive := if s.ismDevselExt then i.ext else i.int

/-- ACTION on, WRITE off. -/
def State.ismArm (s : State) : Bool :=
  s.ismMode && s.ismModeReg.getLsbD 3 && !s.ismModeReg.getLsbD 4

def State.ismReadActive (s : State) : Bool := s.ismArm && !s.ismSetup.getLsbD 2

/-- The rising edge of `ism_arm`. -/
def State.armEdge (s : State) : Bool := s.ismArm && !s.ismArmD

/-! ### Bus accesses -/

def In.swimAcc (i : In) : Bool := i.selectSWIM && (i.uds || i.lds)

def accEnd (s : State) (i : In) : Bool := s.swimAccD && !i.swimAcc

/-- The ISM register of the access that ends. -/
def State.accReg (s : State) : ℕ := s.accAddrL % 8

def ismPopReq (s : State) (i : In) : Bool :=
  accEnd s i && s.ismMode && s.accRwL && s.ismModeReg.getLsbD 3 &&
    (s.accReg == 0 || s.accReg == 1)

def ismCpuPush (s : State) (i : In) : Bool :=
  accEnd s i && s.ismMode && !s.accRwL && (s.accReg == 0 || s.accReg == 1 || s.accReg == 2)

/-- An ISM register read or write ends. -/
def ismRead (n : ℕ) (s : State) (i : In) : Bool :=
  accEnd s i && s.ismMode && s.accRwL && s.accReg == n

def ismWrite (n : ℕ) (s : State) (i : In) : Bool :=
  accEnd s i && s.ismMode && !s.accRwL && s.accReg == n

/-- The mode register after a mode clear, and after a mode set. -/
def State.modeCleared (s : State) : Byte := s.ismModeReg &&& ~~~s.accDataL
def State.modeSet (s : State) : Byte := s.ismModeReg ||| s.accDataL

/-- A mode write that leaves bit 0 set clears the FIFO. -/
def clearFifo (s : State) (i : In) : Bool :=
  (ismWrite 6 s i && s.modeCleared.getLsbD 0) || (ismWrite 7 s i && s.modeSet.getLsbD 0)

/-- The fourth access of the pattern 1, 0, 1, 1 enters ISM mode. -/
def enterIsm (s : State) (i : In) : Bool :=
  accEnd s i && !s.ismMode && s.accAddrL == 15 && !s.accRwL && s.accDataL.getLsbD 6 &&
    s.iwmToIsmCounter == 3

/-! ### Deliveries and the staging ring -/

/-- The word of the delivery on the wires. -/
def ismGenWord (s : State) (i : In) : FifoWord :=
  ⟨(ismDrive s i).mfmByte, (ismDrive s i).mfmMark, false, (ismDrive s i).mfmCrc0⟩

def ismGenPush (s : State) (i : In) : Bool :=
  s.ismReadActive && (ismDrive s i).mfmStb && (s.mfmSynced || (ismDrive s i).mfmMark)

def stagePush (s : State) (i : In) : Bool := ismGenPush s i && s.ismStageCnt != 16

def stageDrain (s : State) (i : In) : Bool :=
  s.ismStageCnt != 0 && decide (s.ismFifoPos < 2) && !accEnd s i

/-- A delivery meets a full ring and is lost. -/
def overrun (s : State) (i : In) : Bool := ismGenPush s i && s.ismStageCnt == 16

def ismCpuWord (s : State) : FifoWord :=
  if s.accReg == 2 then ⟨0, false, true, false⟩ else ⟨s.accDataL, s.accReg == 1, false, false⟩

def ismStageNext (s : State) (i : In) : ℕ → FifoWord :=
  if stagePush s i then Function.update s.ismStage s.ismStageWr (ismGenWord s i) else s.ismStage

/-- Mode writes and the read-arm edge empty the ring; the switch to ISM mode does not. -/
def ismStageCntNext (s : State) (i : In) : ℕ :=
  if s.armEdge || clearFifo s i then 0
  else s.ismStageCnt + (stagePush s i).toNat - (stageDrain s i).toNat

def ismStageRdNext (s : State) (i : In) : ℕ :=
  if s.armEdge || clearFifo s i then 0 else (s.ismStageRd + (stageDrain s i).toNat) % 16

def ismStageWrNext (s : State) (i : In) : ℕ :=
  if s.armEdge || clearFifo s i then 0 else (s.ismStageWr + (stagePush s i).toNat) % 16

/-! ### The two-entry FIFO -/

/-- The word written into the entry behind the last one: a drained or a pushed word. -/
def fifoFill (s : State) (i : In) : Option FifoWord :=
  if ismCpuPush s i && decide (s.ismFifoPos < 2) then some (ismCpuWord s)
  else if stageDrain s i then some (s.ismStage s.ismStageRd)
  else none

def ismFifo0Next (s : State) (i : In) : FifoWord :=
  if ismPopReq s i && s.ismFifoPos != 0 then s.ismFifo1
  else match fifoFill s i with
    | some w => if s.ismFifoPos % 2 == 0 then w else s.ismFifo0
    | none => s.ismFifo0

def ismFifo1Next (s : State) (i : In) : FifoWord :=
  match fifoFill s i with
  | some w => if s.ismFifoPos % 2 == 1 then w else s.ismFifo1
  | none => s.ismFifo1

def ismFifoPosNext (s : State) (i : In) : ℕ :=
  if s.armEdge || clearFifo s i || enterIsm s i then 0
  else if ismPopReq s i && s.ismFifoPos != 0 then s.ismFifoPos - 1
  else match fifoFill s i with
    | some _ => s.ismFifoPos + 1
    | none => s.ismFifoPos

/-- The mark hunt ends at the first mark after a read-arm. -/
def mfmSyncedNext (s : State) (i : In) : Bool :=
  if s.armEdge || enterIsm s i then false
  else s.mfmSynced || (s.ismReadActive && (ismDrive s i).mfmStb && (ismDrive s i).mfmMark)

/-! ### The error register -/

/-- The error bits raised in this clock: overrun, a MARK popped as data, underrun or a push into the
full FIFO. -/
def errorBits (s : State) (i : In) : Byte :=
  packByte false false false false false
    ((ismPopReq s i && s.ismFifoPos == 0) || (ismCpuPush s i && !decide (s.ismFifoPos < 2)))
    (ismPopReq s i && s.ismFifoPos != 0 && s.accReg == 0 && s.ismFifo0.mark)
    (overrun s i)

/-- The clear at the end of a read comes last in the block and wins. -/
def ismErrorNext (s : State) (i : In) : Byte :=
  if ismRead 2 s i || enterIsm s i then 0 else s.ismError ||| errorBits s i

/-! ### The other ISM registers -/

def ismModeNext (s : State) (i : In) : Bool :=
  if enterIsm s i then true else if ismWrite 6 s i && s.accDataL.getLsbD 6 then false else s.ismMode

def ismModeRegNext (s : State) (i : In) : Byte :=
  if enterIsm s i then 0x40
  else if ismWrite 6 s i then s.modeCleared
  else if ismWrite 7 s i then s.modeSet else s.ismModeReg

def ismSetupNext (s : State) (i : In) : Byte := if ismWrite 5 s i then s.accDataL else s.ismSetup

def ismParamNext (s : State) (i : In) : ℕ → Byte :=
  if ismWrite 3 s i then Function.update s.ismParam s.ismParamIdx s.accDataL else s.ismParam

def ismParamIdxNext (s : State) (i : In) : ℕ :=
  if ismWrite 6 s i || enterIsm s i then 0
  else if ismWrite 3 s i || ismRead 3 s i then (s.ismParamIdx + 1) % 16 else s.ismParamIdx

def ismPhaseOeNext (s : State) (i : In) : BitVec 4 :=
  if ismWrite 4 s i then s.accDataL.extractLsb' 4 4 else s.ismPhaseOe

/-- An access in IWM mode to another register restarts the pattern, at any clock of the access. -/
def iwmToIsmCounterNext (s : State) (i : In) : ℕ :=
  if accEnd s i && !s.ismMode then
    if s.accAddrL == 15 then
      if !s.accRwL && s.accDataL.getLsbD 6 then
        match s.iwmToIsmCounter with
        | 0 => 1
        | 2 => 3
        | _ => 0
      else if s.iwmToIsmCounter == 1 then 2 else 0
    else 0
  else if ismWrite 6 s i && s.accDataL.getLsbD 6 then 0
  else if i.swimAcc && !s.ismMode && i.cpuAddrRegHi != 15 then 0 else s.iwmToIsmCounter

/-! ### The IWM registers -/

/-- An IWM access to the bit register pair `n`: only the upper strobe is looked at. -/
def iwmBit (n : ℕ) (s : State) (i : In) : Bool :=
  !s.ismMode && i.selectSWIM && i.uds && i.cpuAddrRegHi / 2 == n

def In.regBit (i : In) : Bool := i.cpuAddrRegHi % 2 == 1

def iwmBitNext (n : ℕ) (r : Bool) (s : State) (i : In) : Bool :=
  if iwmBit n s i then i.regBit else r

/-- A phase line: the ISM phases register writes it as well. -/
def phaseNext (n : ℕ) (r : Bool) (s : State) (i : In) : Bool :=
  if ismWrite 4 s i then s.accDataL.getLsbD n else iwmBitNext n r s i

def diskEnableExtNext (s : State) (i : In) : Bool :=
  if s.selectExternalDrive then iwmBitNext 4 s.diskEnableExt s i else s.diskEnableExt

def diskEnableIntNext (s : State) (i : In) : Bool :=
  if s.selectExternalDrive then s.diskEnableInt else iwmBitNext 4 s.diskEnableInt s i

def q6Next (s : State) (i : In) : Bool := iwmBitNext 6 s.q6 s i
def q7Next (s : State) (i : In) : Bool := iwmBitNext 7 s.q7 s i

def State.anyDiskEnable (s : State) : Bool := s.diskEnableExt || s.diskEnableInt

/-- A write with `q7` and `q6` set goes to the data register or to the IWM mode register. -/
def iwmWrite (s : State) (i : In) : Bool :=
  !i.cpuRW && i.selectSWIM && i.uds && !s.ismMode && q7Next s i && q6Next s i

def writeDataNext (s : State) (i : In) : Byte :=
  if iwmWrite s i && s.anyDiskEnable then i.dataInLo else s.writeData

def iwmModeNext (s : State) (i : In) : BitVec 5 :=
  if iwmWrite s i && !s.anyDiskEnable then i.dataInLo.extractLsb' 0 5 else s.iwmMode

/-! ### The IWM read data latch -/

def iwmReadNow (s : State) (i : In) : Bool := i.cpuRW && i.selectSWIM && i.uds && !s.ismMode

def iwmReadEnd (s : State) (i : In) : Bool := s.iwmReadD && !iwmReadNow s i

/-- The drive whose bytes the IWM latches. -/
def iwmDrive (s : State) (i : In) : Drive := if s.selectExternalDrive then i.ext else i.int

def State.enableEdge (s : State) : Bool := s.anyDiskEnable && !s.anyDiskEnableD

def readDataArmDelayNext (s : State) : ℕ := if s.enableEdge then 0x400 else s.readDataArmDelay - 1

def readLatchClearTimerNext (s : State) (i : In) : ℕ :=
  if s.enableEdge then 0
  else if iwmReadEnd s i && s.readDataLatch.getLsbD 7 then 13 else s.readLatchClearTimer - 1

def readDataLatchNext (s : State) (i : In) : Byte :=
  if s.anyDiskEnable && s.readDataArmDelay == 0 && (iwmDrive s i).newByteReady then
    (iwmDrive s i).readData
  else if s.readLatchClearTimer == 1 then 0
  else if s.enableEdge then 0 else s.readDataLatch

/-! ### Reads -/

/-- The newest entry of the FIFO. -/
def State.newest (s : State) : FifoWord := if s.ismFifoPos == 2 then s.ismFifo1 else s.ismFifo0

/-- The handshake register: in read mode b7 is data available and b6 full, in write mode space. -/
def handshake (s : State) (i : In) : Byte :=
  packByte
    (if s.ismModeReg.getLsbD 4 then decide (s.ismFifoPos ≤ 1) else s.ismFifoPos != 0)
    (if s.ismModeReg.getLsbD 4 then s.ismFifoPos == 0 else s.ismFifoPos == 2)
    (s.ismError != 0)
    false
    (ismDrive s i).sense
    false
    (s.ismFifoPos != 0 && !s.newest.crc0)
    (s.ismFifoPos != 0 && s.newest.mark)

def ismDataOut (s : State) (i : In) : Byte :=
  match i.cpuAddrRegHi % 8 with
  | 2 => s.ismError
  | 3 => s.ismParam s.ismParamIdx
  | 4 => s.ismPhaseOe ++ (BitVec.ofBool s.lstrb ++ BitVec.ofBool s.ca2 ++ BitVec.ofBool s.ca1 ++
      BitVec.ofBool s.ca0)
  | 5 => s.ismSetup
  | 6 => s.ismModeReg
  | 7 => handshake s i
  | _ => if !s.ismModeReg.getLsbD 3 || s.ismFifoPos == 0 then 0xFF else s.ismFifo0.data

def iwmDataOut (s : State) (i : In) : Byte :=
  match q7Next s i, q6Next s i with
  | false, false => if s.anyDiskEnable then s.readDataLatch else 0xFF
  | false, true =>
    BitVec.ofBool (if iwmBitNext 5 s.selectExternalDrive s i then i.ext.sense else i.int.sense) ++
      BitVec.ofBool false ++ BitVec.ofBool s.anyDiskEnable ++ s.iwmMode
  | true, false => 0xC0
  | true, true => 0

/-- `dataOutLo`. -/
def dataOut (s : State) (i : In) : Byte := if s.ismMode then ismDataOut s i else iwmDataOut s i

/-! ### One clock -/

def step (s : State) (i : In) : State where
  ismMode := ismModeNext s i
  ismModeReg := ismModeRegNext s i
  ismSetup := ismSetupNext s i
  ismError := ismErrorNext s i
  ismParam := ismParamNext s i
  ismParamIdx := ismParamIdxNext s i
  ismFifo0 := ismFifo0Next s i
  ismFifo1 := ismFifo1Next s i
  ismFifoPos := ismFifoPosNext s i
  ismStage := ismStageNext s i
  ismStageRd := ismStageRdNext s i
  ismStageWr := ismStageWrNext s i
  ismStageCnt := ismStageCntNext s i
  iwmToIsmCounter := iwmToIsmCounterNext s i
  ca0 := phaseNext 0 s.ca0 s i
  ca1 := phaseNext 1 s.ca1 s i
  ca2 := phaseNext 2 s.ca2 s i
  lstrb := phaseNext 3 s.lstrb s i
  selectExternalDrive := iwmBitNext 5 s.selectExternalDrive s i
  q6 := q6Next s i
  q7 := q7Next s i
  diskEnableExt := diskEnableExtNext s i
  diskEnableInt := diskEnableIntNext s i
  writeData := writeDataNext s i
  iwmMode := iwmModeNext s i
  swimAccD := i.swimAcc
  accAddrL := if i.swimAcc then i.cpuAddrRegHi else s.accAddrL
  accRwL := if i.swimAcc then i.cpuRW else s.accRwL
  accDataL := if i.swimAcc then i.dataInLo else s.accDataL
  ismPhaseOe := ismPhaseOeNext s i
  mfmSynced := mfmSyncedNext s i
  ismArmD := s.ismArm
  iwmReadD := iwmReadNow s i
  readDataLatch := readDataLatchNext s i
  readLatchClearTimer := readLatchClearTimerNext s i
  readDataArmDelay := readDataArmDelayNext s
  anyDiskEnableD := s.anyDiskEnable

end Swim
