import LBMacTwo.Foundation.Bits

/-!
# The clock chip `rtc.v`

The registers of the serial engine, the 256-byte parameter RAM with its two ports and the seconds
counter, one definition per wire and per register. `_cs` is the negation of `cs` here. Where both
ports write one cell in the same clock the host's port wins.
-/

namespace Rtc

structure State where
  bitCnt : ℕ
  ckD : Bool
  din : Byte
  dout : Byte
  receiving : Bool
  secs : BitVec 32
  clocktoseconds : ℕ
  cmd0 : Byte
  cmd1 : Byte
  cmdBytes : ℕ
  cmdLen : ℕ
  writeprotect : Bool
  pram : ℕ → Byte
  serRaddr : ℕ
  serRpend : ℕ
  serWe : Bool
  serWaddr : ℕ
  serWdata : Byte
  serQ : Byte
  pramSaveQ : Byte
  datO : Bool
  cko : Bool
  pramWrStb : Bool

structure In where
  reset : Bool
  timestamp : BitVec 33
  cs : Bool
  ck : Bool
  datI : Bool
  pramLoadWr : Bool
  pramLoadAddr : ℕ
  pramLoadData : Byte
  pramSaveAddr : ℕ

/-! ### Command bytes -/

/-- `cmd[6:3] = 0111`. -/
def isExtended (c : Byte) : Bool := c.toNat / 8 % 16 == 7

def isRead (c : Byte) : Bool := c.getLsbD 7

/-- `cmd[6:2]`. -/
def scmd (c : Byte) : ℕ := c.toNat / 4 % 32

/-- `{cmd0[2:0], cmd1[6:2]}`. -/
def extAddr (c0 c1 : Byte) : ℕ := c0.toNat % 8 * 32 + c1.toNat / 4 % 32

/-- The seconds registers, and the two groups of parameter RAM registers. -/
def isSecsReg (r : ℕ) : Bool := decide (r < 8)
def isPramReg (r : ℕ) : Bool := (decide (8 ≤ r) && decide (r < 12)) || decide (16 ≤ r)

/-- Byte `k` of the seconds, and the seconds with it replaced. -/
def secsByte (secs : BitVec 32) (k : ℕ) : Byte := secs.extractLsb' (8 * (k % 4)) 8

def setSecsByte (secs : BitVec 32) (k : ℕ) (d : Byte) : BitVec 32 :=
  match k % 4 with
  | 0 => secs.extractLsb' 8 24 ++ d
  | 1 => secs.extractLsb' 16 16 ++ d ++ secs.extractLsb' 0 8
  | 2 => secs.extractLsb' 24 8 ++ d ++ secs.extractLsb' 0 16
  | _ => d ++ secs.extractLsb' 0 24

/-! ### The seconds counter -/

def State.halfSecond (s : State) : Bool := s.clocktoseconds == 16249999

/-- The counter runs on the rising edge of `cko`; a zero is loaded from the timestamp. -/
def secsTick (s : State) (i : In) : BitVec 32 :=
  if s.halfSecond && !s.cko then s.secs + 1
  else if s.secs = 0 then i.timestamp.extractLsb' 0 32 + 2082844800 else s.secs

/-! ### The serial shifter -/

/-- A falling edge of `ck` against the level stored while the chip was selected last. -/
def shiftEdge (s : State) (i : In) : Bool := !i.reset && i.cs && s.ckD && !i.ck

/-- `{din[6:0], dat_i}`. -/
def byteIn (s : State) (i : In) : Byte := s.din.extractLsb' 0 7 ++ BitVec.ofBool i.datI

/-- The eighth bit of a byte from the host. -/
def byteDone (s : State) (i : In) : Bool := shiftEdge s i && s.bitCnt == 7 && s.receiving

/-! ### Commands -/

def stdRead (s : State) (i : In) : Bool :=
  byteDone s i && s.cmdBytes == 0 && isRead (byteIn s i) && !isExtended (byteIn s i)

def extRead (s : State) (i : In) : Bool :=
  byteDone s i && s.cmdBytes == 1 && s.cmdLen == 2 && isExtended s.cmd0

def stdWrite (s : State) (i : In) : Bool :=
  byteDone s i && s.cmdBytes == 1 && s.cmdLen == 2 && !isExtended s.cmd0

/-- The third byte is written to the extended address, whatever the first byte was. -/
def thirdByte (s : State) (i : In) : Bool := byteDone s i && s.cmdBytes == 2

/-- A read of the parameter RAM is issued on port A. -/
def issueRead (s : State) (i : In) : Bool :=
  (stdRead s i && isPramReg (scmd (byteIn s i))) || extRead s i

/-- A write of the parameter RAM is issued on port A. -/
def issueWrite (s : State) (i : In) : Bool :=
  !s.writeprotect && ((stdWrite s i && isPramReg (scmd s.cmd0)) || thirdByte s i)

def serRaddrNext (s : State) (i : In) : ℕ :=
  if stdRead s i && isPramReg (scmd (byteIn s i)) then scmd (byteIn s i)
  else if extRead s i then extAddr s.cmd0 (byteIn s i) else s.serRaddr

def serRpendNext (s : State) (i : In) : ℕ :=
  if i.reset then 0 else if issueRead s i then 2 else s.serRpend - 1

def serWaddrNext (s : State) (i : In) : ℕ :=
  if issueWrite s i then (if stdWrite s i then scmd s.cmd0 else extAddr s.cmd0 s.cmd1)
  else s.serWaddr

/-- The response: a seconds byte or zero at once, a RAM byte when its read comes back. -/
def doutNext (s : State) (i : In) : Byte :=
  if stdRead s i && isSecsReg (scmd (byteIn s i)) then secsByte s.secs (scmd (byteIn s i))
  else if stdRead s i && !isPramReg (scmd (byteIn s i)) then 0
  else if s.serRpend == 1 then s.serQ else s.dout

def secsNext (s : State) (i : In) : BitVec 32 :=
  if i.reset then s.secs
  else if stdWrite s i && !s.writeprotect && isSecsReg (scmd s.cmd0) then
    setSecsByte (secsTick s i) (scmd s.cmd0) (byteIn s i)
  else secsTick s i

def writeprotectNext (s : State) (i : In) : Bool :=
  if i.reset then false
  else if stdWrite s i && scmd s.cmd0 == 13 then (byteIn s i).getLsbD 7 else s.writeprotect

def cmdLenNext (s : State) (i : In) : ℕ :=
  if i.reset || !i.cs then 1
  else if byteDone s i && s.cmdBytes == 0 then
    (if isExtended (byteIn s i) then (if isRead (byteIn s i) then 2 else 3)
      else (if isRead (byteIn s i) then 1 else 2))
  else s.cmdLen

def cmdBytesNext (s : State) (i : In) : ℕ :=
  if i.reset || !i.cs then 0
  else if byteDone s i && decide (s.cmdBytes < 3) then s.cmdBytes + 1 else s.cmdBytes

def datONext (s : State) (i : In) : Bool :=
  if i.reset || !i.cs then true
  else if shiftEdge s i && !s.receiving then s.dout.getLsbD (7 - s.bitCnt) else s.datO

/-! ### The parameter RAM -/

def State.aAddr (s : State) : ℕ := if s.serWe then s.serWaddr else s.serRaddr

def bAddr (i : In) : ℕ := if i.pramLoadWr then i.pramLoadAddr else i.pramSaveAddr

/-- What port A leaves in the RAM. -/
def State.portA (s : State) : ℕ → Byte :=
  if s.serWe then Function.update s.pram s.serWaddr s.serWdata else s.pram

/-- What port B leaves in a RAM. -/
def portB (m : ℕ → Byte) (i : In) : ℕ → Byte :=
  if i.pramLoadWr then Function.update m i.pramLoadAddr i.pramLoadData else m

/-! ### One clock -/

def step (s : State) (i : In) : State where
  bitCnt := if i.reset || !i.cs then 0
    else if shiftEdge s i then (s.bitCnt + 1) % 8 else s.bitCnt
  ckD := if i.reset then false else if i.cs then i.ck else s.ckD
  din := if shiftEdge s i && s.receiving then byteIn s i else s.din
  dout := doutNext s i
  receiving := if i.reset || !i.cs then true
    else s.receiving && !stdRead s i && !extRead s i
  secs := secsNext s i
  clocktoseconds := if i.reset then s.clocktoseconds
    else if s.halfSecond then 0 else (s.clocktoseconds + 1) % 2 ^ 25
  cmd0 := if byteDone s i && s.cmdBytes == 0 then byteIn s i else s.cmd0
  cmd1 := if byteDone s i && s.cmdBytes == 1 then byteIn s i else s.cmd1
  cmdBytes := cmdBytesNext s i
  cmdLen := cmdLenNext s i
  writeprotect := writeprotectNext s i
  pram := portB s.portA i
  serRaddr := serRaddrNext s i
  serRpend := serRpendNext s i
  serWe := issueWrite s i
  serWaddr := serWaddrNext s i
  serWdata := if issueWrite s i then byteIn s i else s.serWdata
  serQ := s.pram s.aAddr
  pramSaveQ := s.pram (bAddr i)
  datO := datONext s i
  cko := if i.reset then true else if s.halfSecond then !s.cko else s.cko
  pramWrStb := issueWrite s i

end Rtc
