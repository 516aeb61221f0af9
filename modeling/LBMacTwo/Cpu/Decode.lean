import LBMacTwo.Foundation.Bits

/-!
# Address decoding: `addrDecoder.v`, `hmmu.v`

Addresses are natural numbers below `2 ^ 32`, `field a hi lo` is the bit field `a[hi:lo]`. The
select lines are those of an asserted `_cpuAS`.
-/

namespace Cpu

/-- `a[hi:lo]`. -/
def field (a hi lo : ℕ) : ℕ := a / 2 ^ lo % 2 ^ (hi + 1 - lo)

/-- What the decoding depends on besides the address. -/
structure Config where
  configROMSize : ℕ
  configRAMSize : ℕ
  glueRAMSize : ℕ
  memoryOverlayOn : Bool
  hmmuActive : Bool

/-- The select lines. -/
structure Selects where
  ram : Bool
  rom : Bool
  scsi : Bool
  scsiDMA : Bool
  scc : Bool
  iwm : Bool
  via : Bool
  via2 : Bool
  seOverlay : Bool
  nubus : Bool
  asc : Bool
  deriving DecidableEq

def Selects.none : Selects :=
  ⟨false, false, false, false, false, false, false, false, false, false, false⟩

/-- The devices in the megabyte `$50F` of the 32-bit space and `$F` of the 24-bit space. -/
def decodeDevices (a : ℕ) : Selects :=
  if field a 19 13 = 0 then { Selects.none with via := true }
  else if field a 19 13 = 1 then { Selects.none with via2 := true }
  else if field a 19 13 = 2 then { Selects.none with scc := true }
  else if field a 19 12 = 6 then { Selects.none with scsi := true, scsiDMA := true }
  else if field a 19 14 = 4 then { Selects.none with scsi := true, scsiDMA := field a 19 13 == 9 }
  else if field a 19 13 = 10 then { Selects.none with asc := true }
  else if field a 19 13 = 11 then { Selects.none with iwm := true }
  else if field a 19 13 = 32 then { Selects.none with via := true }
  else Selects.none

/-- The 32-bit address space. -/
def decode32 (a : ℕ) : Selects :=
  if 9 ≤ field a 31 28 ∧ field a 31 28 ≤ 14 then { Selects.none with nubus := field a 27 24 ≤ 14 }
  else if field a 31 28 = 15 ∧ 9 ≤ field a 27 24 ∧ field a 27 24 ≤ 14 then
    { Selects.none with nubus := true }
  else if field a 31 24 = 0x40 then { Selects.none with rom := true }
  else if field a 31 20 = 0x50F then decodeDevices a
  else Selects.none

/-- The address lies in the installed RAM or its mirror. -/
def inRam (c : Config) (a : ℕ) : Bool :=
  match c.configRAMSize with
  | 0 => field a 23 20 == 0
  | 1 => if c.glueRAMSize ≤ 1 then decide (field a 23 20 ≤ 2) else field a 23 20 == 0
  | 2 => field a 23 22 == 0
  | _ => if c.glueRAMSize = 3 then field a 23 20 == 0 else field a 23 22 != 3

/-- `configROMSize[1]`: a ROM of 256K or more. -/
def Config.bigRom (c : Config) : Bool := decide (2 ≤ c.configROMSize)

/-- The 24-bit address space: RAM first, the devices where there is none. -/
def decode24 (c : Config) (a : ℕ) : Selects :=
  if !c.memoryOverlayOn && inRam c a then { Selects.none with ram := true }
  else match field a 23 20 with
    | 0 =>
      if c.memoryOverlayOn then
        if c.bigRom && field a 19 18 != 0 then { Selects.none with ram := true }
        else { Selects.none with rom := true }
      else Selects.none
    | 1 | 2 | 3 => if c.memoryOverlayOn then { Selects.none with ram := true } else Selects.none
    | 4 => { Selects.none with rom := c.bigRom || field a 17 17 == 0, seOverlay := true }
    | 5 => { Selects.none with scsi := field a 19 19 == 1, seOverlay := true }
    | 6 => { Selects.none with ram := c.memoryOverlayOn }
    | 9 | 11 => { Selects.none with scc := true }
    | 12 => { Selects.none with iwm := !c.bigRom }
    | 13 => { Selects.none with iwm := true }
    | 14 => { Selects.none with via := field a 19 19 == 1 }
    | 15 => decodeDevices a
    | _ => Selects.none

/-- `addrDecoder`. -/
def decode (c : Config) (a : ℕ) : Selects :=
  if field a 31 24 = 0 ∨ field a 31 24 = 0xFF ∨ field a 31 24 = 0x80 then decode24 c a
  else decode32 a

/-- `hmmu`: in 24-bit mode the low 24 bits are mapped into the 32-bit space. -/
def hmmu (active : Bool) (a : ℕ) : ℕ :=
  if active then
    if field a 23 20 < 8 then a % 2 ^ 24
    else if field a 23 20 = 8 then 0x40000000 + a % 2 ^ 20
    else if field a 23 20 = 15 then 0x50F00000 + a % 2 ^ 20
    else 0xF0000000 + field a 23 20 * 2 ^ 24 + a % 2 ^ 20
  else a

/-- A VIA is selected. -/
def Selects.viaAccess (s : Selects) : Bool := s.via || s.via2

/-- The lines that decide how a cycle is answered exclude each other. -/
structure Selects.Exclusive (s : Selects) : Prop where
  via : s.viaAccess = true → s.via ≠ s.via2 ∧ s.nubus = false ∧ s.scsiDMA = false
  mem : (s.ram || s.rom) = true → s.viaAccess = false ∧ s.nubus = false ∧ s.scsi = false ∧
    s.scsiDMA = false ∧ s.scc = false ∧ s.iwm = false ∧ s.asc = false
  dma : s.scsiDMA = true → s.scsi = true ∧ s.nubus = false
  ram : s.ram = true → s.rom = false

theorem decodeDevices_exclusive (a : ℕ) : (decodeDevices a).Exclusive := by
  unfold decodeDevices
  split_ifs <;> constructor <;> simp [Selects.none, Selects.viaAccess]

theorem decode32_exclusive (a : ℕ) : (decode32 a).Exclusive := by
  unfold decode32
  repeat' split
  all_goals first
    | exact decodeDevices_exclusive a
    | constructor <;> simp [Selects.none, Selects.viaAccess]

theorem decode24_exclusive (c : Config) (a : ℕ) : (decode24 c a).Exclusive := by
  unfold decode24
  repeat' split
  all_goals first
    | exact decodeDevices_exclusive a
    | constructor <;> simp [Selects.none, Selects.viaAccess]

theorem decode_exclusive (c : Config) (a : ℕ) : (decode c a).Exclusive := by
  unfold decode
  split_ifs
  · exact decode24_exclusive c a
  · exact decode32_exclusive a

/-- The VIAs and the pseudo-DMA windows lie in the last megabytes of their 16, where `A23-A21` are
ones, and no RAM does. -/
structure Selects.High (s : Selects) (a : ℕ) : Prop where
  via : s.viaAccess = true → 14 ≤ field a 23 20
  dma : s.scsiDMA = true → field a 23 20 = 15
  ram : s.ram = true → field a 23 20 < 12

theorem decodeDevices_high {a : ℕ} (h : field a 23 20 = 15) : (decodeDevices a).High a := by
  constructor
  · intro _
    omega
  · intro _
    exact h
  · unfold decodeDevices
    split_ifs <;> simp [Selects.none]

theorem inRam_lt {c : Config} {a : ℕ} (h : inRam c a = true) : field a 23 20 < 12 := by
  unfold inRam at h
  split at h
  all_goals repeat' split at h
  all_goals simp only [beq_iff_eq, bne_iff_ne, ne_eq, decide_eq_true_eq] at h
  all_goals (unfold field at *; omega)

theorem decode32_high (a : ℕ) : (decode32 a).High a := by
  unfold decode32
  repeat' split
  all_goals first
    | (constructor <;> simp [Selects.none, Selects.viaAccess])
    | skip
  case isTrue h =>
    apply decodeDevices_high
    unfold field at h ⊢
    omega

theorem decode24_high (c : Config) (a : ℕ) : (decode24 c a).High a := by
  unfold decode24
  split
  case isTrue h =>
    have := inRam_lt ((Bool.and_eq_true _ _).mp h).2
    constructor <;> simp [Selects.none, Selects.viaAccess, this]
  case isFalse =>
    split
    case h_12 h => constructor <;> simp [Selects.none, Selects.viaAccess, h]
    case h_13 h => exact decodeDevices_high h
    all_goals repeat' split
    all_goals constructor <;> simp [Selects.none, Selects.viaAccess]
    all_goals omega

theorem decode_high (c : Config) (a : ℕ) : (decode c a).High a := by
  unfold decode
  split_ifs
  · exact decode24_high c a
  · exact decode32_high a

end Cpu
