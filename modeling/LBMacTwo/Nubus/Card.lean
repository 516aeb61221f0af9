import LBMacTwo.Cpu.Decode
import LBMacTwo.Memory.Sdram

/-!
# The NuBus video card on the bus: `nubus_video_mdc824.sv`, `vram_ram.sv`

The CPU's side of the card: the address decoding, the registers with the palette, the bus FSM with
its delayed acknowledge, and port A of the VRAM. The scanout only reads, from port B, and is left
out; what the vertical blanking does to the interrupt comes from outside. `ack` is `!ack_n`.

* `Key`, `Bus`: a request as the card compares it, and the wires of one clock;
* `Regs.write`, `Regs.read`: the two lanes of a register access;
* `Card.step`, `Vram.step`: one clock, with the contents of the ROM and the monitor as parameters;
* `step_rest`, `step_take`, `step_count`, `step_hold`, `step_rearm`, `step_release`: what a clock
  does to a card whose FSM is idle.
-/

namespace Nubus
open Cpu (field)

/-- What `bus_key_changed` compares. -/
structure Key where
  addr : ℕ
  dataIn : Word
  uds : Bool
  lds : Bool
  rw : Bool
  deriving DecidableEq

/-- The wires of the card in one clock. -/
structure Bus where
  key : Key
  as : Bool
  select : Bool
  vramDin : Word
  vramReady : Bool
  vblPulse : Bool

/-! ### The address decoding -/

/-- The slot `$E`, in the standard and in the super slot space. -/
def inOurSlot (a : ℕ) : Bool := field a 31 28 == 14 || field a 31 28 == 15 && field a 27 24 == 14

def addrIsVram (a : ℕ) : Bool := field a 23 21 == 0

def addrIsRegs (a : ℕ) : Bool := field a 23 16 == 0x20

def addrIsRom (a : ℕ) : Bool := field a 23 17 == 0x7F

def cpuVramWord (a : ℕ) : ℕ := field a 20 1

/-- `VRAM_WORDS`. -/
def vramWords : ℕ := 196608

/-- The card has the VRAM of the address. -/
def inVram (a : ℕ) : Bool := addrIsVram a && decide (cpuVramWord a < vramWords)

/-- `VRAM_BASE`. -/
def vramBase : ℕ := 0x300000

/-- The word of VRAM at an index: port A decodes the low 18 bits. -/
def vramIndex (addr : ℕ) : ℕ := addr % 2 ^ 18

/-! ### The registers -/

structure Regs where
  ctrl : Word
  base : BitVec 32
  stride : BitVec 32
  ramdacCtrl : Byte
  paletteAddr : BitVec 32
  palWr : BitVec 32
  palCnt : BitVec 2
  vblankEnable : Bool
  beamToggle : Bool
  clut : Byte → BitVec 24

/-- Byte `n` of a register. -/
def byteOf (r : BitVec 32) (n : ℕ) : Byte := r.extractLsb' (8 * n) 8

/-- A register with byte `n` written. -/
def setByte (r : BitVec 32) (n : ℕ) (v : Byte) : BitVec 32 :=
  r &&& ~~~((0xFF : BitVec 32) <<< (8 * n)) ||| v.setWidth 32 <<< (8 * n)

namespace Regs

variable (monitor512 : Bool) (r : Regs)

/-- `sense_val`: the sense lines of the monitor. -/
def senseVal : BitVec 3 :=
  let sense (n m : BitVec 3) : BitVec 3 := if monitor512 then n else m
  sense 2 6 &&& (if r.ctrl.getLsbD 11 then sense 2 2 else 7) &&&
    (if r.ctrl.getLsbD 10 then sense 0 4 else 7) &&& (if r.ctrl.getLsbD 9 then sense 2 6 else 7)

/-- `ctrl_high_sense`. -/
def ctrlHighSense : Byte :=
  (r.ctrl.extractLsb' 12 4 ++ r.senseVal monitor512) ++ r.ctrl.extractLsb' 8 1

/-- `rd_reg_byte`. -/
def readByte (ba : ℕ) : Byte :=
  match ba with
  | 0x0002 => r.ctrlHighSense monitor512
  | 0x0003 => lowByte r.ctrl
  | 0x0008 => byteOf r.base 3
  | 0x0009 => byteOf r.base 2
  | 0x000A => byteOf r.base 1
  | 0x000B => byteOf r.base 0
  | 0x000C => byteOf r.stride 3
  | 0x000D => byteOf r.stride 2
  | 0x000E => byteOf r.stride 1
  | 0x000F => byteOf r.stride 0
  | 0x0200 => byteOf r.paletteAddr 3
  | 0x0201 => byteOf r.paletteAddr 2
  | 0x0202 => byteOf r.paletteAddr 1
  | 0x0203 => byteOf r.paletteAddr 0
  | 0x020B => r.ramdacCtrl
  | _ => if 0x01C0 ≤ ba ∧ ba ≤ 0x01C3 then (if r.beamToggle then 0 else 4) else 0

/-- `reg_read_data`. -/
def read (a : ℕ) : Word :=
  pairWord (r.readByte monitor512 (2 * field a 15 1)) (r.readByte monitor512 (2 * field a 15 1 + 1))

/-- A byte of a palette entry: red, green, and blue, which commits the three. -/
def writePalette (v : Byte) : Regs :=
  if r.palCnt = 2 then
    { r with
      clut := Function.update r.clut (r.paletteAddr.setWidth 8) (v ++ r.palWr.extractLsb' 16 16)
      palWr := 0
      paletteAddr := r.paletteAddr + 1
      palCnt := 0 }
  else { r with palWr := v ++ r.palWr.extractLsb' 8 24, palCnt := r.palCnt + 1 }

/-- `wr_reg_byte`, but for `irq_clear`. Bit 15 of the control register reads as zero. -/
def writeByte (ba : ℕ) (v : Byte) : Regs :=
  match ba with
  | 0x0002 => { r with ctrl := pairWord (v &&& 0x7F) (lowByte r.ctrl) }
  | 0x0003 => { r with ctrl := pairWord (highByte r.ctrl &&& 0x7F) v }
  | 0x0008 => { r with base := setByte r.base 3 v }
  | 0x0009 => { r with base := setByte r.base 2 v }
  | 0x000A => { r with base := setByte r.base 1 v }
  | 0x000B => { r with base := setByte r.base 0 v }
  | 0x000C => { r with stride := setByte r.stride 3 v }
  | 0x000D => { r with stride := setByte r.stride 2 v }
  | 0x000E => { r with stride := setByte r.stride 1 v }
  | 0x000F => { r with stride := setByte r.stride 0 v }
  | 0x013C => { r with vblankEnable := !v.getLsbD 1 }
  | 0x0200 => { r with paletteAddr := setByte r.paletteAddr 3 v }
  | 0x0201 => { r with paletteAddr := setByte r.paletteAddr 2 v }
  | 0x0202 => { r with paletteAddr := setByte r.paletteAddr 1 v }
  | 0x0203 => { r with paletteAddr := setByte r.paletteAddr 0 v }
  | 0x0207 => r.writePalette v
  | 0x020B => { r with ramdacCtrl := v }
  | _ => r

/-- The strobed lanes of a register write. -/
def write (q : Key) : Regs :=
  let even := if q.uds then r.writeByte (2 * field q.addr 15 1) (highByte q.dataIn) else r
  if q.lds then even.writeByte (2 * field q.addr 15 1 + 1) (lowByte q.dataIn) else even

/-- A read of the beam position toggles it. -/
def touch (a : ℕ) : Regs :=
  if field a 15 1 = 0xE1 then { r with beamToggle := !r.beamToggle } else r

end Regs

/-- `irq_clear`: the upper lane of `$0148` is written. -/
def Key.clearsIrq (q : Key) : Bool :=
  !q.rw && addrIsRegs q.addr && q.uds && 2 * field q.addr 15 1 == 0x0148

/-! ### The card -/

/-- The states of the bus FSM. -/
inductive State
  | idle
  | cpuWrite
  | cpuWriteWait
  | cpuRead
  | cpuReadWait
  | cpuRmwRead
  | cpuRmwReadWait
  | cpuRmwWrite
  deriving DecidableEq

structure Card where
  regs : Regs
  irqClear : Bool
  irqActive : Bool
  state : State
  vramRd : Bool
  vramWr : Bool
  vramAddr : ℕ
  vramDout : Word
  write : Key
  merged : Word
  ack : Bool
  ackDelay : ℕ
  romReadPending : Bool
  romWord : Word
  key : Key
  dataOut : Word

/-- `bus_key_changed`: `old` is the request the card has taken last. -/
def keyChanged (old new : Key) : Bool :=
  new.addr != old.addr || (!new.rw && new.dataIn != old.dataIn) || new.uds != old.uds ||
    new.lds != old.lds || new.rw != old.rw

/-- `rom_rdata` on lane 3, `$FF` on the others. -/
def romData (w : Word) (a : ℕ) : Word :=
  if field a 1 0 = 3 then pairWord 0xFF (if field a 2 2 = 1 then lowByte w else highByte w)
  else 0xFFFF

namespace Card

variable (rom : ℕ → Word) (monitor512 : Bool) (c : Card) (b : Bus)

/-- What every clock does: the ROM is read, the delay of the acknowledge counts. -/
def tick : Card :=
  { c with
    irqClear := false
    irqActive :=
      if c.irqClear then false else c.irqActive || (b.vblPulse && c.regs.vblankEnable)
    romWord := rom (field b.key.addr 16 3)
    ackDelay := c.ackDelay - 1
    ack := c.ack || c.ackDelay == 1 }

/-- The request is taken in this clock. -/
def takes : Bool := b.as && b.select && inOurSlot b.key.addr && !c.ack && c.ackDelay == 0

/-- The acknowledge is withdrawn from a request that has changed. -/
def rearms : Bool :=
  b.select && inOurSlot b.key.addr && c.ack && c.ackDelay == 0 && keyChanged c.key b.key

/-- A write to the VRAM: of both bytes at once, or of one by a read-modify-write. -/
def takeVramWrite (d : Card) : Card :=
  let d := { d with vramAddr := vramBase + cpuVramWord b.key.addr, write := b.key }
  if b.key.uds && b.key.lds then
    { d with merged := b.key.dataIn, vramDout := b.key.dataIn, state := .cpuWrite }
  else if b.key.uds || b.key.lds then { d with state := .cpuRmwRead }
  else { d with ackDelay := 2 }

/-- The request `b.key` is taken; `c` is the card before the clock, `d` with what every clock
does. -/
def take (d : Card) : Card :=
  let a := b.key.addr
  let d := { d with key := b.key }
  if !b.key.rw && addrIsVram a then
    if cpuVramWord a < vramWords then takeVramWrite b d else { d with ackDelay := 2 }
  else if b.key.rw && addrIsVram a then
    if cpuVramWord a < vramWords then
      { d with vramAddr := vramBase + cpuVramWord a, state := .cpuRead }
    else { d with dataOut := 0xFFFF, ackDelay := 2 }
  else if !b.key.rw && addrIsRegs a then
    { d with regs := c.regs.write b.key, irqClear := b.key.clearsIrq, ackDelay := 2 }
  else if b.key.rw && addrIsRegs a then
    { d with dataOut := c.regs.read monitor512 a, regs := c.regs.touch a, ackDelay := 2 }
  else if b.key.rw && addrIsRom a then { d with ackDelay := 3, romReadPending := true }
  else if b.key.rw then { d with dataOut := 0xFFFF, ackDelay := 2 }
  else { d with ackDelay := 2 }

/-- `S_IDLE`. -/
def idleStep : Card :=
  let d := { c.tick rom b with vramRd := false, vramWr := false }
  let d :=
    if !b.as && c.ack then { d with ack := false, ackDelay := 0 }
    else if c.rearms b then { d with ack := false }
    else d
  if c.takes b then c.take monitor512 b d
  else if (!b.select || !b.as) && c.ack then { d with ack := false, ackDelay := 0 }
  else d

/-- The FSM. -/
def fsm : Card :=
  let d := c.tick rom b
  match c.state with
  | .idle => c.idleStep rom monitor512 b
  | .cpuWrite => { d with vramWr := true, state := .cpuWriteWait }
  | .cpuWriteWait =>
    if b.vramReady then { d with vramWr := false, ackDelay := 2, state := .idle } else d
  | .cpuRead => { d with vramRd := true, state := .cpuReadWait }
  | .cpuReadWait =>
    if b.vramReady then
      { d with dataOut := b.vramDin, vramRd := false, ackDelay := 2, state := .idle }
    else d
  | .cpuRmwRead => { d with vramRd := true, state := .cpuRmwReadWait }
  | .cpuRmwReadWait =>
    if b.vramReady then
      { d with
        vramRd := false
        merged := Memory.merge c.write.uds c.write.lds b.vramDin c.write.dataIn
        state := .cpuRmwWrite }
    else d
  | .cpuRmwWrite => { d with vramDout := c.merged, vramWr := true, state := .cpuWriteWait }

/-- One clock; the ROM's word is latched before the acknowledge. -/
def step : Card :=
  let d := c.fsm rom monitor512 b
  if c.ackDelay = 2 ∧ c.romReadPending = true then
    { d with dataOut := romData c.romWord b.key.addr, romReadPending := false }
  else d

end Card

/-! ### The card with an idle FSM -/

/-- What goes on whatever the bus does. -/
def Card.scan (rom : ℕ → Word) (c : Card) (b : Bus) : Card :=
  { c with
    irqClear := false
    irqActive :=
      if c.irqClear then false else c.irqActive || (b.vblPulse && c.regs.vblankEnable)
    romWord := rom (field b.key.addr 16 3) }

/-- The FSM is idle and drives nothing. -/
structure Card.Idle (c : Card) : Prop where
  state : c.state = .idle
  vramRd : c.vramRd = false
  vramWr : c.vramWr = false

/-- The card has nothing to do and acknowledges nothing. -/
structure Card.Rest (c : Card) : Prop extends c.Idle where
  ack : c.ack = false
  ackDelay : c.ackDelay = 0
  pending : c.romReadPending = false

/-- The bus addresses the card. -/
def Bus.ours (b : Bus) : Bool := b.as && b.select && inOurSlot b.key.addr

section Idle

variable {rom : ℕ → Word} {monitor512 : Bool} {c : Card} {b : Bus}

theorem step_rest (h : c.Rest) (hb : b.ours = false) : c.step rom monitor512 b = c.scan rom b := by
  obtain ⟨⟨hstate, hrd, hwr⟩, hack, hdelay, hpending⟩ := h
  have htakes : c.takes b = false := by
    unfold Bus.ours at hb
    simp [Card.takes, hb]
  have hrearms : c.rearms b = false := by simp [Card.rearms, hack]
  cases c
  simp only at hstate hrd hwr hack hdelay hpending
  subst hstate hrd hwr hack hdelay hpending
  simp [Card.step, Card.fsm, Card.idleStep, Card.tick, Card.scan, htakes, hrearms]

theorem step_take (h : c.Rest) (hb : b.ours = true) :
    c.step rom monitor512 b = c.take monitor512 b (c.scan rom b) := by
  obtain ⟨⟨hstate, hrd, hwr⟩, hack, hdelay, hpending⟩ := h
  have htakes : c.takes b = true := by
    unfold Bus.ours at hb
    simp [Card.takes, hb, hack, hdelay]
  have hrearms : c.rearms b = false := by simp [Card.rearms, hack]
  cases c
  simp only at hstate hrd hwr hack hdelay hpending
  subst hstate hrd hwr hack hdelay hpending
  simp [Card.step, Card.fsm, Card.idleStep, Card.tick, Card.scan, htakes, hrearms]

/-- The delay counts, and the ROM's word is latched one clock before it ends. -/
theorem step_count {d : ℕ} (h : c.Idle) (hack : c.ack = false) (hdelay : c.ackDelay = d + 1) :
    c.step rom monitor512 b =
      { c.scan rom b with
        ackDelay := d
        ack := d == 0
        dataOut := if d = 1 ∧ c.romReadPending = true then romData c.romWord b.key.addr
          else c.dataOut
        romReadPending := if d = 1 then false else c.romReadPending } := by
  obtain ⟨hstate, hrd, hwr⟩ := h
  have htakes : c.takes b = false := by simp [Card.takes, hdelay]
  have hrearms : c.rearms b = false := by simp [Card.rearms, hack]
  cases c
  simp only at hstate hrd hwr hack hdelay
  subst hstate hrd hwr hack hdelay
  by_cases hd : d = 1
  · subst hd
    rename_i pending _ _ _
    cases pending <;>
      simp [Card.step, Card.fsm, Card.idleStep, Card.tick, Card.scan, htakes, hrearms]
  · have hd0 : (d + 1 == 1) = (d == 0) := by
      rw [Bool.eq_iff_iff]
      simp
    simp [Card.step, Card.fsm, Card.idleStep, Card.tick, Card.scan, htakes, hrearms, hd, hd0]

theorem step_hold (h : c.Idle) (hack : c.ack = true) (hdelay : c.ackDelay = 0)
    (hpending : c.romReadPending = false) (hb : b.ours = true)
    (hkey : keyChanged c.key b.key = false) : c.step rom monitor512 b = c.scan rom b := by
  obtain ⟨hstate, hrd, hwr⟩ := h
  simp only [Bus.ours, Bool.and_eq_true] at hb
  have htakes : c.takes b = false := by simp [Card.takes, hack]
  have hrearms : c.rearms b = false := by simp [Card.rearms, hkey]
  cases c
  simp only at hstate hrd hwr hack hdelay hpending
  subst hstate hrd hwr hack hdelay hpending
  simp [Card.step, Card.fsm, Card.idleStep, Card.tick, Card.scan, htakes, hrearms, hb]

theorem step_rearm (h : c.Idle) (hack : c.ack = true) (hdelay : c.ackDelay = 0)
    (hpending : c.romReadPending = false) (hb : b.ours = true)
    (hkey : keyChanged c.key b.key = true) :
    c.step rom monitor512 b = { c.scan rom b with ack := false } := by
  obtain ⟨hstate, hrd, hwr⟩ := h
  simp only [Bus.ours, Bool.and_eq_true] at hb
  have htakes : c.takes b = false := by simp [Card.takes, hack]
  have hrearms : c.rearms b = true := by simp [Card.rearms, hkey, hb, hack, hdelay]
  cases c
  simp only at hstate hrd hwr hack hdelay hpending
  subst hstate hrd hwr hack hdelay hpending
  simp [Card.step, Card.fsm, Card.idleStep, Card.tick, Card.scan, htakes, hrearms, hb]

theorem step_release (h : c.Idle) (hack : c.ack = true) (hdelay : c.ackDelay = 0)
    (hpending : c.romReadPending = false) (has : b.as = false) :
    c.step rom monitor512 b = { c.scan rom b with ack := false } := by
  obtain ⟨hstate, hrd, hwr⟩ := h
  have htakes : c.takes b = false := by simp [Card.takes, hack]
  cases c
  simp only at hstate hrd hwr hack hdelay hpending
  subst hstate hrd hwr hack hdelay hpending
  simp [Card.step, Card.fsm, Card.idleStep, Card.tick, Card.scan, htakes, has]

end Idle

/-! ### Port A of the VRAM -/

structure Vram where
  mem : ℕ → Word
  dout : Word
  ready : Bool

/-- One clock of `vram_ram`. -/
def Vram.step (v : Vram) (addr : ℕ) (din : Word) (rd wr : Bool) : Vram where
  mem := if wr then Function.update v.mem (vramIndex addr) din else v.mem
  dout := if wr then din else v.mem (vramIndex addr)
  ready := rd || wr

end Nubus
