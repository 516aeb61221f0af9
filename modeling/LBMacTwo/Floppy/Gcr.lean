import LBMacTwo.Foundation.Clocked
import LBMacTwo.Foundation.Gcr

/-!
# The GCR track encoder: `floppy_track_encoder.v`

The encoder emits one disk byte of a 400K or 800K track at each pulse of `ready`, which the drive
derives from the rising edges of `newByteReady`. It fetches the image four disk bytes ahead of what
it emits, from an address that is registered.

* `GcrHead`: the position of the head and the kind of disk;
* `GcrEncoder.advance`: the registers after a pulse of `ready`;
* `GcrEncoder.odata`, `GcrEncoder.fetch`: the byte on the wires, and the next value of `addr`;
* `GcrDrive.step`: one clock of the encoder in its drive.
-/

namespace Floppy
open Gcr (Sums Nibble)

/-- The head over the disk; `sides` is up on a double-sided one. -/
structure GcrHead where
  side : Bool
  sides : Bool
  track : BitVec 7

/-- `spt`: the sectors of a track. -/
def sptOf (track : ℕ) : ℕ :=
  match track / 16 % 8 with
  | 0 => 12
  | 1 => 11
  | 2 => 10
  | 3 => 9
  | _ => 8

/-- `soff`: the sectors of a side before a track, as the encoder multiplies them out. -/
def soffOf (track : ℕ) : ℕ :=
  if track = 0 then 0
  else match (track + 127) % 128 / 16 % 8 with
    | 0 => track * 12 % 2 ^ 10
    | 1 => (track * 11 + 16) % 2 ^ 10
    | 2 => (track * 10 + 32 + 16) % 2 ^ 10
    | 3 => (track * 9 + 48 + 32 + 16) % 2 ^ 10
    | _ => (track * 8 + 64 + 48 + 32 + 16) % 2 ^ 10

def GcrHead.spt (h : GcrHead) : ℕ := sptOf h.track.toNat

def GcrHead.soff (h : GcrHead) : ℕ := soffOf h.track.toNat

def GcrHead.trackLow (h : GcrHead) : Nibble := h.track.setWidth 6

/-- `track_hi`. -/
def GcrHead.trackHi (h : GcrHead) : Nibble :=
  (BitVec.ofBool h.side ++ (0 : BitVec 4)) ++ h.track.extractLsb' 6 1

def GcrHead.format (h : GcrHead) : Nibble := BitVec.ofBool h.sides ++ (2 : BitVec 5)

/-- `sec_in_tr`. -/
def secInTr (sector : ℕ) : Nibble := BitVec.ofNat 6 sector

def GcrHead.checksum (h : GcrHead) (sector : ℕ) : Nibble :=
  ((h.trackLow ^^^ secInTr sector) ^^^ h.trackHi) ^^^ h.format

/-- The encoder table. -/
def sonyTable : List Byte :=
  [0x96, 0x97, 0x9A, 0x9B, 0x9D, 0x9E, 0x9F, 0xA6, 0xA7, 0xAB, 0xAC, 0xAD, 0xAE, 0xAF, 0xB2, 0xB3,
    0xB4, 0xB5, 0xB6, 0xB7, 0xB9, 0xBA, 0xBB, 0xBC, 0xBD, 0xBE, 0xBF, 0xCB, 0xCD, 0xCE, 0xCF, 0xD3,
    0xD6, 0xD7, 0xD9, 0xDA, 0xDB, 0xDC, 0xDD, 0xDE, 0xDF, 0xE5, 0xE6, 0xE7, 0xE9, 0xEA, 0xEB, 0xEC,
    0xED, 0xEE, 0xEF, 0xF2, 0xF3, 0xF4, 0xF5, 0xF6, 0xF7, 0xF9, 0xFA, 0xFB, 0xFC, 0xFD, 0xFE, 0xFF]

/-- `sony_to_disk_byte`. -/
def sonyToDiskByte (si : Nibble) : Byte := sonyTable.getD si.toNat 0xFF

inductive GcrState
  | syn0
  | addr
  | syn1
  | dhdr
  | dzro
  | dpre
  | data
  | dsum
  | dtrl
  | wait
  deriving DecidableEq

/-- The last count of a state. -/
def GcrState.lenM1 : GcrState → ℕ
  | syn0 => 55
  | addr => 9
  | syn1 => 4
  | dhdr => 3
  | dzro => 11
  | dpre => 3
  | data => 682
  | dsum => 3
  | dtrl => 2
  | wait => 0

def GcrState.next : GcrState → GcrState
  | syn0 => addr
  | addr => syn1
  | syn1 => dhdr
  | dhdr => dzro
  | dzro => dpre
  | dpre => data
  | data => dsum
  | dsum => dtrl
  | dtrl => wait
  | wait => syn0

/-! ### The nibbler -/

structure Nibbler where
  sums : Sums
  cnt : ℕ
  x0 : Byte
  x1 : Byte
  x2 : Byte

namespace Nibbler

variable (n : Nibbler) (nibIn : Byte)

def reset : Nibbler := ⟨Sums.zero, 0, 0, 0, 0⟩

/-- `nib_out`. -/
def out : Nibble :=
  match n.cnt with
  | 1 => Gcr.lowNibble n.x0
  | 2 => Gcr.lowNibble n.x1
  | 3 => Gcr.lowNibble n.x2
  | _ => Gcr.topNibble n.x0 n.x1 n.x2

/-- A pulse of `ready` in the prefetch or in the payload. -/
def advance (count : ℕ) : Nibbler :=
  let n' := { n with cnt := (n.cnt + 1) % 4 }
  if count < 683 - 4 then
    match n.cnt with
    | 1 => { n' with sums := n.sums.first nibIn, x0 := nibIn ^^^ n.sums.c1.rotateLeft 1 }
    | 2 => { n' with sums := n.sums.second nibIn, x1 := nibIn ^^^ n.sums.c3 }
    | 3 => { n' with sums := n.sums.third nibIn, x2 := nibIn ^^^ n.sums.c2 }
    | _ => n'
  else if n.cnt = 3 then { n' with x2 := 0 }
  else n'

end Nibbler

/-! ### The encoder -/

structure GcrEncoder where
  state : GcrState
  count : ℕ
  sector : ℕ
  srcOffset : ℕ
  nibbler : Nibbler
  dataLatch : Byte

namespace GcrEncoder

variable (e : GcrEncoder) (h : GcrHead) (idata : Byte)

/-- `strobe`: an image byte is taken, three in four disk bytes. -/
def strobe : Bool :=
  (e.state == .dpre || e.state == .data && decide (e.count < 683 - 4 - 1)) && e.nibbler.cnt != 3

/-- The next value of `addr`. -/
def fetch : ℕ :=
  (h.soff * 2 ^ 9 + (if h.sides then h.soff * 2 ^ 9 else 0) + (if h.side then h.spt * 2 ^ 9 else 0) +
    (e.sector * 2 ^ 9 + e.srcOffset)) % 2 ^ 22

def sonyAddrIn : Nibble :=
  match e.count with
  | 3 => h.trackLow
  | 4 => secInTr e.sector
  | 5 => h.trackHi
  | 6 => h.format
  | _ => h.checksum e.sector

def sonyDsumIn : Nibble :=
  match e.count with
  | 0 => Gcr.topNibble e.nibbler.sums.c3 e.nibbler.sums.c2 e.nibbler.sums.c1
  | 1 => Gcr.lowNibble e.nibbler.sums.c3
  | 2 => Gcr.lowNibble e.nibbler.sums.c2
  | _ => Gcr.lowNibble e.nibbler.sums.c1

/-- `si`. -/
def si : Nibble :=
  match e.state with
  | .addr => e.sonyAddrIn h
  | .dhdr => secInTr e.sector
  | .dzro | .dpre | .data => e.nibbler.out
  | .dsum => e.sonyDsumIn
  | _ => 0x3F

def odata : Byte :=
  match e.state with
  | .addr =>
    match e.count with
    | 0 => 0xD5
    | 1 => 0xAA
    | 2 => 0x96
    | 8 => 0xDE
    | 9 => 0xAA
    | _ => sonyToDiskByte (e.si h)
  | .dhdr =>
    match e.count with
    | 0 => 0xD5
    | 1 => 0xAA
    | 2 => 0xAD
    | _ => sonyToDiskByte (e.si h)
  | .dzro | .dpre | .data | .dsum => sonyToDiskByte (e.si h)
  | .dtrl =>
    match e.count with
    | 0 => 0xDE
    | 1 => 0xAA
    | _ => 0xFF
  | _ => 0xFF

/-- The interleave of 2. -/
def nextSector (spt s : ℕ) : ℕ :=
  if s = (spt + 14) % 16 ∨ s = (spt + 15) % 16 then 1 - s % 2 else (s + 2) % 16

/-- The registers after a pulse of `ready`. -/
def advance : GcrEncoder where
  state := if e.count = e.state.lenM1 ∨ e.state = .wait then e.state.next else e.state
  count := if e.count = e.state.lenM1 ∨ e.state = .wait then 0 else (e.count + 1) % 2 ^ 10
  sector := if e.state = .wait then nextSector h.spt e.sector else e.sector
  srcOffset :=
    if e.state = .wait then 0 else if e.strobe then (e.srcOffset + 1) % 2 ^ 9 else e.srcOffset
  nibbler :=
    if e.state = .dhdr then Nibbler.reset
    else if e.state = .dpre ∨ e.state = .data then e.nibbler.advance e.dataLatch e.count
    else e.nibbler
  dataLatch := if e.strobe then idata else e.dataLatch

/-- A clock without `ready`; the reset of the nibbler does not wait for it. -/
def idle : GcrEncoder :=
  { e with nibbler := if e.state = .dhdr then Nibbler.reset else e.nibbler }

end GcrEncoder

/-! ### The encoder in its drive -/

structure GcrIn where
  newByteReady : Bool
  head : GcrHead
  idata : Byte

structure GcrDrive where
  enc : GcrEncoder
  addr : ℕ
  oldNewByteReady : Bool

namespace GcrDrive

variable (d : GcrDrive) (i : GcrIn)

/-- The encoder's `ready`. -/
def ready : Bool := !d.oldNewByteReady && i.newByteReady

/-- One clock. -/
def step : GcrDrive where
  enc := if d.ready i then d.enc.advance i.head i.idata else d.enc.idle
  addr := d.enc.fetch i.head
  oldNewByteReady := i.newByteReady

end GcrDrive

end Floppy
