import LBMacTwo.Foundation.Clocked
import LBMacTwo.Foundation.Crc

/-!
# The MFM track encoder: `mfm_track_encoder.v`

The encoder emits one decoded byte of a System/34 track at each pulse of `ready`. The byte and its
flags are wires of its registers and of `idata`, the image byte at `addr`.

* `Head`: the position of the head and the density of the disk;
* `MfmEncoder`, `MfmEncoder.step`: the registers, one clock;
* `MfmEncoder.out`: the byte on the wires.
-/

namespace Floppy

/-- The head over the disk. -/
structure Head where
  side : Bool
  track : BitVec 7
  hd : Bool

/-- `track_side`. -/
def Head.trackSide (h : Head) : ℕ := 2 * h.track.toNat + h.side.toNat

/-- `spt_max`. -/
def Head.sptMax (h : Head) : ℕ := if h.hd then 17 else 8

inductive MfmState
  | preGap
  | preSync
  | preIam
  | preGap1
  | idSync
  | idA1
  | idAm
  | idChrn
  | idCrc
  | gap2
  | daSync
  | daA1
  | daAm
  | data
  | daCrc
  | gap3
  deriving DecidableEq

/-- `state_len_m1`. -/
def MfmState.lenM1 : MfmState → ℕ
  | preGap => 79
  | preSync => 11
  | preIam => 3
  | preGap1 => 49
  | idSync => 11
  | idA1 => 2
  | idAm => 0
  | idChrn => 3
  | idCrc => 1
  | gap2 => 21
  | daSync => 11
  | daA1 => 2
  | daAm => 0
  | data => 511
  | daCrc => 1
  | gap3 => 107

/-- `state + 1`, for the states before `S_GAP3`. -/
def MfmState.next : MfmState → MfmState
  | preGap => preSync
  | preSync => preIam
  | preIam => preGap1
  | preGap1 => idSync
  | idSync => idA1
  | idA1 => idAm
  | idAm => idChrn
  | idChrn => idCrc
  | idCrc => gap2
  | gap2 => daSync
  | daSync => daA1
  | daA1 => daAm
  | daAm => data
  | data => daCrc
  | daCrc => gap3
  | gap3 => preGap

/-- The CRC-16-CCITT of `crc16`. -/
def crcPoly : BitVec 16 := 0x1021

/-- `CRC_SEED`. -/
def crcSeed : BitVec 16 := 0xCDB4

/-- A byte on its way to the SWIM. -/
structure MfmByte where
  data : Byte
  mark : Bool
  crc0 : Bool
  deriving DecidableEq

structure MfmIn where
  ready : Bool
  head : Head
  idata : Byte

structure MfmEncoder where
  state : MfmState
  cnt : ℕ
  sector : ℕ
  srcOffset : ℕ
  crc : BitVec 16

namespace MfmEncoder

variable (e : MfmEncoder) (h : Head) (idata : Byte)

/-- `sector_block`. -/
def sectorBlock : ℕ :=
  ((if h.hd then h.trackSide * 2 ^ 4 + h.trackSide * 2 else h.trackSide * 2 ^ 3 + h.trackSide) +
    e.sector) % 2 ^ 13

def addr : ℕ := e.sectorBlock h * 2 ^ 9 + e.srcOffset

/-- The bytes `C`, `H`, `R`, `N` of the ID field. -/
def chrn : Byte :=
  match e.cnt % 4 with
  | 0 => h.track.setWidth 8
  | 1 => (BitVec.ofBool h.side).setWidth 8
  | 2 => BitVec.ofNat 8 ((e.sector + 1) % 2 ^ 5)
  | _ => 2

def odata : Byte :=
  match e.state with
  | .preSync | .idSync | .daSync => 0x00
  | .preGap | .preGap1 | .gap2 | .gap3 => 0x4E
  | .preIam => if e.cnt = 3 then 0xFC else 0xC2
  | .idA1 | .daA1 => 0xA1
  | .idAm => 0xFE
  | .daAm => 0xFB
  | .idChrn => e.chrn h
  | .data => idata
  | .idCrc | .daCrc => if e.cnt % 2 = 0 then highByte e.crc else lowByte e.crc

def omark : Bool := e.state == .idA1 || e.state == .daA1

def ocrc0 : Bool := (e.state == .idCrc || e.state == .daCrc) && e.cnt % 2 == 1

/-- The byte is sector payload. -/
def oneeds : Bool := e.state == .data

/-- The byte and its flags. -/
def out : MfmByte := ⟨e.odata h idata, e.omark, e.ocrc0⟩

/-- The CRC is seeded at the third A1 and takes the bytes of the field. -/
def crcNext : BitVec 16 :=
  if (e.state = .idA1 ∨ e.state = .daA1) ∧ e.cnt = 2 then crcSeed
  else if e.state = .idAm ∨ e.state = .idChrn ∨ e.state = .daAm ∨ e.state = .data then
    Crc.byte crcPoly e.crc (e.odata h idata)
  else e.crc

/-- The registers after a pulse of `ready`. -/
def advance : MfmEncoder where
  crc := e.crcNext h idata
  srcOffset := if e.state = .data then (e.srcOffset + 1) % 2 ^ 9 else 0
  cnt := if e.cnt = e.state.lenM1 then 0 else (e.cnt + 1) % 2 ^ 10
  state :=
    if e.cnt = e.state.lenM1 then
      if e.state = .gap3 then if e.sector = h.sptMax then .preGap else .idSync
      else e.state.next
    else e.state
  sector :=
    if e.cnt = e.state.lenM1 ∧ e.state = .gap3 then
      if e.sector = h.sptMax then 0 else (e.sector + 1) % 2 ^ 5
    else e.sector

/-- One clock. -/
def step (i : MfmIn) : MfmEncoder := if i.ready then e.advance i.head i.idata else e

/-- The state after the reset. -/
def reset : MfmEncoder := ⟨.preGap, 0, 0, 0, crcSeed⟩

end MfmEncoder

end Floppy
