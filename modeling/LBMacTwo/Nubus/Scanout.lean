import LBMacTwo.Nubus.Card

/-!
# The scanout of the video card

The beam of `nubus_video_mdc824.sv` over constant registers and a constant memory: the pixel clock,
the counters, the fetch from port B of the VRAM and the pixel pipeline behind it.

* `Screen`, `Beam`, `Screen.step`: what is held constant, the registers of the beam, and one clock;
* `Screen.vga`: the colour put out;
* `Screen.pixelAt`, `Screen.colourAt`: the pixel and the colour of a column and a row in the frame
  buffer;
* `shown`: the column and row that the output stands for;
* `Latched`: the pipeline one pixel after a position of the beam;
* `vga_iff`: the output is the colour of its column and row everywhere but in column 0.
-/

namespace Nubus
open Cpu (field)

/-- The registers, the memory and the settings; of the registers the palette, the base, the stride
and the RAMDAC mode count. -/
structure Screen where
  regs : Regs
  mem : ℕ → Word
  monitor512 : Bool
  monochrome : Bool
  defaultMonochrome : Bool

/-- The registers of the beam and of the pixel pipeline, with port B of the VRAM. -/
structure Beam where
  clkVideoAcc : ℕ
  clkVideoEn : Bool
  hCnt : ℕ
  vCnt : ℕ
  blanking : Bool
  hCntD : ℕ
  byteSelD : Bool
  blankingD : Bool
  scanData : Word

namespace Screen

variable (c : Screen) (s : Beam)

/-! ### The beam -/

def clkVideoInc : ℕ := if c.monitor512 then 15667 else 30240

def hTotal : ℕ := if c.monitor512 then 640 else 896
def hRes : ℕ := if c.monitor512 then 512 else 640
def vTotal : ℕ := if c.monitor512 then 407 else 525
def vRes : ℕ := if c.monitor512 then 384 else 480

/-- The pipeline mode from bits 4 to 1 of the RAMDAC control register: 1, 2, 4 and 8 bits. -/
def mode : ℕ :=
  let rmode := c.regs.ramdacCtrl.toNat / 2 % 16
  if rmode = 0 then 0 else if rmode = 4 then 1 else if rmode = 8 then 2 else 3

def hByte (h : ℕ) : ℕ :=
  match c.mode with
  | 0 => h % 1024 / 8
  | 1 => h % 1024 / 4
  | 2 => h % 1024 / 2
  | _ => h % 1024

def fetchByteAddr (h v : ℕ) : ℕ :=
  (field c.regs.base.toNat 19 0 * 32 + v % 1024 * (field c.regs.stride.toNat 11 0 * 4) +
    c.hByte h) % 2 ^ 25

/-- The word that port B reads. -/
def fetched (h v : ℕ) : Word := c.mem (vramIndex (vramBase + c.fetchByteAddr h v / 2))

/-- The position of the beam after another. -/
def advance (p : ℕ × ℕ) : ℕ × ℕ :=
  if c.hTotal - 1 ≤ p.1 then (0, if c.vTotal - 1 ≤ p.2 then 0 else p.2 + 1) else (p.1 + 1, p.2)

def blanks (p : ℕ × ℕ) : Bool := decide (c.hRes ≤ p.1) || decide (c.vRes ≤ p.2)

/-- One clock. -/
def step : Beam where
  clkVideoAcc :=
    if 31334 ≤ (s.clkVideoAcc + c.clkVideoInc) % 65536 then
      (s.clkVideoAcc + c.clkVideoInc) % 65536 - 31334
    else (s.clkVideoAcc + c.clkVideoInc) % 65536
  clkVideoEn := decide (31334 ≤ (s.clkVideoAcc + c.clkVideoInc) % 65536)
  hCnt := if s.clkVideoEn then (c.advance (s.hCnt, s.vCnt)).1 else s.hCnt
  vCnt := if s.clkVideoEn then (c.advance (s.hCnt, s.vCnt)).2 else s.vCnt
  blanking := if s.clkVideoEn then c.blanks (s.hCnt, s.vCnt) else s.blanking
  hCntD := if s.clkVideoEn then s.hCnt % 8 else s.hCntD
  byteSelD := if s.clkVideoEn then c.fetchByteAddr s.hCnt s.vCnt % 2 == 1 else s.byteSelD
  blankingD := if s.clkVideoEn then s.blanking else s.blankingD
  scanData := if s.clkVideoEn then c.fetched s.hCnt s.vCnt else s.scanData

/-! ### The pixel -/

end Screen

/-- Data enable, `vga_blank`. -/
def Beam.dataEnable (s : Beam) : Bool := !s.blanking

def Beam.vramByte (s : Beam) : Byte :=
  if s.byteSelD then lowByte s.scanData else highByte s.scanData

namespace Screen

variable (c : Screen) (s : Beam)

/-- `pixel_idx`: the bits of the byte, the most significant first. -/
def pixelIdx : Byte :=
  match c.mode with
  | 0 => (s.vramByte.extractLsb' (7 - s.hCntD % 8) 1).setWidth 8
  | 1 => (s.vramByte.extractLsb' (6 - 2 * (s.hCntD % 4)) 2).setWidth 8
  | 2 => (s.vramByte.extractLsb' (if s.hCntD % 2 = 1 then 0 else 4) 4).setWidth 8
  | _ => s.vramByte

def monoMode : Bool := c.defaultMonochrome || c.monochrome || c.mode == 0

/-- Red, green and blue of a pixel: light or dark in monochrome, else from the palette. -/
def colourOf (p : Byte) : Byte × Byte × Byte :=
  let mono : Byte := if p.getLsbD 0 then 0x22 else 0xEE
  if c.monoMode then (mono, mono, mono)
  else ((c.regs.clut p).extractLsb' 0 8, (c.regs.clut p).extractLsb' 8 8,
    (c.regs.clut p).extractLsb' 16 8)

/-- `vga_r`, `vga_g` and `vga_b`. -/
def vga : Byte × Byte × Byte := if s.blankingD then (0, 0, 0) else c.colourOf (c.pixelIdx s)

/-! ### The frame buffer -/

/-- The bits of a pixel. -/
def bpp : ℕ := 2 ^ c.mode

/-- The byte of the frame buffer that holds column `x` of row `y`. -/
def byteAddr (x y : ℕ) : ℕ :=
  c.regs.base.toNat * 32 + y * (c.regs.stride.toNat * 4) + x * c.bpp / 8

/-- A byte of the memory, big-endian. -/
def byteAt (a : ℕ) : Byte := if a % 2 = 0 then highByte (c.mem (a / 2)) else lowByte (c.mem (a / 2))

/-- The pixel of column `x` of row `y`: the leftmost is in the most significant bits. -/
def pixelAt (x y : ℕ) : Byte :=
  BitVec.ofNat 8 ((c.byteAt (c.byteAddr x y)).toNat /
    2 ^ (8 - c.bpp * (x % (8 / c.bpp) + 1)) % 2 ^ c.bpp)

def colourAt (x y : ℕ) : Byte × Byte × Byte := c.colourOf (c.pixelAt x y)

/-- Every word of the picture is in the VRAM. -/
def Fits : Prop := ∀ x < c.hRes, ∀ y < c.vRes, c.byteAddr x y / 2 < vramWords

section Picture

variable {c : Screen} {x y : ℕ}

theorem mode_cases (c : Screen) : c.mode = 0 ∨ c.mode = 1 ∨ c.mode = 2 ∨ c.mode = 3 := by
  unfold mode
  simp only
  split_ifs <;> simp

theorem resolution (c : Screen) :
    c.hRes < c.hTotal ∧ c.hRes ≤ 640 ∧ 384 ≤ c.vRes ∧ c.vRes ≤ 480 := by
  unfold hRes hTotal vRes
  cases c.monitor512 <;> decide

/-- The base and the stride of a picture that fits are not cut off. -/
theorem Fits.registers (h : c.Fits) :
    field c.regs.base.toNat 19 0 = c.regs.base.toNat ∧
      field c.regs.stride.toNat 11 0 = c.regs.stride.toNat := by
  obtain ⟨-, hh, hv, -⟩ := c.resolution
  have hpos : 0 < c.hRes := by
    unfold hRes
    split_ifs <;> decide
  have hfirst := h 0 hpos 0 (by omega)
  have hlast := h 0 hpos 383 (by omega)
  unfold byteAddr vramWords at hfirst hlast
  unfold field
  omega

theorem hByte_eq (hx : x < c.hRes) : c.hByte x = x * c.bpp / 8 := by
  have hh := c.resolution.2.1
  unfold hByte bpp
  rcases c.mode_cases with hm | hm | hm | hm <;> rw [hm] <;> simp only <;> omega

/-- In the picture the address is that of the frame buffer. -/
theorem fetchByteAddr_eq (h : c.Fits) (hx : x < c.hRes) (hy : y < c.vRes) :
    c.fetchByteAddr x y = c.byteAddr x y := by
  obtain ⟨hbase, hstride⟩ := h.registers
  have hv := c.resolution.2.2.2
  have hword := h x hx y hy
  unfold vramWords at hword
  rw [fetchByteAddr, hbase, hstride, hByte_eq hx, Nat.mod_eq_of_lt (show y < 1024 by omega)]
  exact Nat.mod_eq_of_lt (by unfold byteAddr at hword; omega)

theorem fetched_eq (h : c.Fits) (hx : x < c.hRes) (hy : y < c.vRes) :
    c.fetched x y = c.mem (c.byteAddr x y / 2) := by
  have hword := h x hx y hy
  unfold vramWords at hword
  rw [fetched, fetchByteAddr_eq h hx hy]
  congr 1
  unfold vramIndex vramBase
  omega

theorem setWidth_bits (b : Byte) (n w : ℕ) :
    (b.extractLsb' n w).setWidth 8 = BitVec.ofNat 8 (b.toNat / 2 ^ n % 2 ^ w) := by
  apply BitVec.eq_of_toNat_eq
  rw [BitVec.toNat_setWidth, BitVec.extractLsb'_toNat, BitVec.toNat_ofNat, Nat.shiftRight_eq_div_pow]

/-- The pixel of a byte and of the low bits of the column. -/
theorem pixelIdx_eq {s : Beam} (hcol : s.hCntD = x % 8) (hbyte : s.vramByte = c.byteAt (c.byteAddr x y)) :
    c.pixelIdx s = c.pixelAt x y := by
  unfold pixelIdx pixelAt bpp
  rw [hbyte, hcol]
  generalize c.byteAt (c.byteAddr x y) = b
  rcases c.mode_cases with hm | hm | hm | hm
  · rw [hm]
    simp only
    rw [setWidth_bits]
    have hshift : 7 - x % 8 % 8 = 8 - 2 ^ 0 * (x % (8 / 2 ^ 0) + 1) := by omega
    rw [hshift]
    rfl
  · rw [hm]
    simp only
    rw [setWidth_bits]
    have hshift : 6 - 2 * (x % 8 % 4) = 8 - 2 ^ 1 * (x % (8 / 2 ^ 1) + 1) := by omega
    rw [hshift]
    rfl
  · rw [hm]
    simp only
    rw [setWidth_bits]
    have hshift : (if x % 8 % 2 = 1 then 0 else 4) = 8 - 2 ^ 2 * (x % (8 / 2 ^ 2) + 1) := by
      split_ifs <;> omega
    rw [hshift]
    rfl
  · rw [hm]
    simp only
    have hshift : 8 - 2 ^ 3 * (x % (8 / 2 ^ 3) + 1) = 0 := by omega
    rw [hshift]
    apply BitVec.eq_of_toNat_eq
    rw [BitVec.toNat_ofNat, Nat.pow_zero, Nat.div_one]
    have hb := b.isLt
    omega

end Picture

/-! ### The pipeline -/

section Pipeline

variable {c : Screen} {s : Beam} {p : ℕ × ℕ}

/-- The pixel registers hold the position `p`, and the beam has gone on from it. -/
structure Latched (c : Screen) (s : Beam) (p : ℕ × ℕ) : Prop where
  position : (s.hCnt, s.vCnt) = c.advance p
  blanking : s.blanking = c.blanks p
  column : s.hCntD = p.1 % 8
  byteSel : s.byteSelD = (c.fetchByteAddr p.1 p.2 % 2 == 1)
  word : s.scanData = c.fetched p.1 p.2

theorem step_idle (hen : s.clkVideoEn = false) :
    (c.step s).hCnt = s.hCnt ∧ (c.step s).vCnt = s.vCnt ∧ (c.step s).blanking = s.blanking ∧
      (c.step s).hCntD = s.hCntD ∧ (c.step s).byteSelD = s.byteSelD ∧
      (c.step s).blankingD = s.blankingD ∧ (c.step s).scanData = s.scanData := by
  simp [step, hen]

/-- A pulse of the pixel clock takes the position of the beam into the pixel registers. -/
theorem latched_step (hen : s.clkVideoEn = true) :
    Latched c (c.step s) (s.hCnt, s.vCnt) ∧ (c.step s).blankingD = s.blanking := by
  refine ⟨⟨?_, ?_, ?_, ?_, ?_⟩, ?_⟩ <;> simp [step, hen]

theorem Latched.idle (h : Latched c s p) (hen : s.clkVideoEn = false) : Latched c (c.step s) p := by
  obtain ⟨hh, hv, hb, hc, hsel, -, hw⟩ := step_idle (c := c) hen
  exact ⟨by rw [hh, hv, h.position], by rw [hb, h.blanking], by rw [hc, h.column],
    by rw [hsel, h.byteSel], by rw [hw, h.word]⟩

/-- The position before a visible one is visible, unless it is the end of the row before. -/
theorem blanks_advance (h : c.blanks (c.advance p) = false) :
    c.blanks p = decide ((c.advance p).1 = 0) := by
  have hlt := c.resolution.1
  unfold advance blanks at h ⊢
  rw [Bool.or_eq_false_iff, decide_eq_false_iff_not, decide_eq_false_iff_not] at h
  by_cases hend : c.hTotal - 1 ≤ p.1
  · rw [if_pos hend] at h ⊢
    have hres : c.hRes ≤ p.1 := by omega
    simp [hres]
  · rw [if_neg hend] at h ⊢
    have hx : ¬ c.hRes ≤ p.1 := by simp only at h; omega
    simp [hx, h.2]

end Pipeline

/-! ### Runs -/

section Runs

variable {c : Screen} {s : Beam} {t : ℕ}

/-- The position of the beam at the last pulse of the pixel clock. -/
def shown (c : Screen) (s : Beam) : ℕ → ℕ × ℕ
  | 0 => (0, 0)
  | t + 1 =>
    if (c.step^[t] s).clkVideoEn then ((c.step^[t] s).hCnt, (c.step^[t] s).vCnt) else shown c s t

/-- The pulses in the first clocks. -/
def pulses (c : Screen) (s : Beam) : ℕ → ℕ
  | 0 => 0
  | t + 1 => pulses c s t + (c.step^[t] s).clkVideoEn.toNat

/-- After a pulse the pixel registers hold the position shown, and after two the blanking of the
position before it. -/
theorem latched_run (c : Screen) (s : Beam) (t : ℕ) :
    (1 ≤ pulses c s t → Latched c (c.step^[t] s) (shown c s t)) ∧
      (2 ≤ pulses c s t → ∃ q, shown c s t = c.advance q ∧
        (c.step^[t] s).blankingD = c.blanks q) := by
  induction t with
  | zero => exact ⟨fun h => absurd h (Nat.not_succ_le_zero 0), fun h => absurd h (Nat.not_succ_le_zero 1)⟩
  | succ t ih =>
    obtain ⟨hone, htwo⟩ := ih
    rw [Function.iterate_succ_apply', pulses, shown]
    cases hen : (c.step^[t] s).clkVideoEn with
    | false =>
      rw [Bool.toNat_false, Nat.add_zero, if_neg Bool.false_ne_true]
      refine ⟨fun h => (hone h).idle hen, fun h => ?_⟩
      rw [(step_idle hen).2.2.2.2.2.1]
      exact htwo h
    | true =>
      rw [Bool.toNat_true, if_pos rfl]
      obtain ⟨hnew, hblank⟩ := @latched_step c _ hen
      refine ⟨fun _ => hnew, fun h => ?_⟩
      have hold := hone (by omega)
      exact ⟨shown c s t, hold.position, hblank.trans hold.blanking⟩

/-- The registers of the beam after a reset, which leaves those of the pixel. -/
def afterReset (s : Beam) : Beam :=
  { s with clkVideoAcc := 0, clkVideoEn := false, hCnt := 0, vCnt := 0, blanking := true }

/-- After a reset the first position shown is the first of the picture, behind a blanked one. -/
theorem first_run (c : Screen) (s : Beam) (t : ℕ) :
    (pulses c (afterReset s) t = 0 → (c.step^[t] (afterReset s)).hCnt = 0 ∧
      (c.step^[t] (afterReset s)).vCnt = 0 ∧ (c.step^[t] (afterReset s)).blanking = true) ∧
    (pulses c (afterReset s) t = 1 → shown c (afterReset s) t = (0, 0) ∧
      (c.step^[t] (afterReset s)).blankingD = true) := by
  induction t with
  | zero => exact ⟨fun _ => ⟨rfl, rfl, rfl⟩, fun h => absurd h Nat.zero_ne_one⟩
  | succ t ih =>
    obtain ⟨hzero, hone⟩ := ih
    rw [Function.iterate_succ_apply', pulses, shown]
    cases hen : (c.step^[t] (afterReset s)).clkVideoEn with
    | false =>
      rw [Bool.toNat_false, Nat.add_zero, if_neg Bool.false_ne_true]
      obtain ⟨hh, hv, hb, -, -, hd, -⟩ := @step_idle c _ hen
      rw [hh, hv, hb, hd]
      exact ⟨hzero, hone⟩
    | true =>
      rw [Bool.toNat_true, if_pos rfl]
      refine ⟨fun h => absurd h (Nat.succ_ne_zero _), fun h => ?_⟩
      obtain ⟨hh, hv, hb⟩ := hzero (by omega)
      rw [hh, hv, (@latched_step c _ hen).2, hb]
      exact ⟨rfl, rfl⟩

/-- Where data enable is on, the pixel is blanked in column 0 and nowhere else. -/
theorem blankingD_eq (hs : 2 ≤ pulses c s t ∨ ∃ b, s = afterReset b)
    (hde : (c.step^[t] s).dataEnable = true) :
    Latched c (c.step^[t] s) (shown c s t) ∧
      (c.step^[t] s).blankingD = decide ((shown c s t).1 = 0) := by
  have hblank : (c.step^[t] s).blanking = false := by simpa [Beam.dataEnable] using hde
  have hpulse : 2 ≤ pulses c s t ∨ pulses c s t = 1 ∧ ∃ b, s = afterReset b := by
    rcases hs with h2 | ⟨b, rfl⟩
    · exact .inl h2
    · have hne : pulses c (afterReset b) t ≠ 0 := by
        intro h0
        rw [((first_run c b t).1 h0).2.2] at hblank
        cases hblank
      by_cases h1 : pulses c (afterReset b) t = 1
      · exact .inr ⟨h1, b, rfl⟩
      · exact .inl (by omega)
  rcases hpulse with h2 | ⟨h1, b, rfl⟩
  · have hl := (latched_run c s t).1 (by omega)
    obtain ⟨q, hq, hd⟩ := (latched_run c s t).2 h2
    refine ⟨hl, ?_⟩
    rw [hl.blanking, hq] at hblank
    rw [hd, blanks_advance hblank, hq]
  · obtain ⟨hshown, hd⟩ := (first_run c b t).2 h1
    refine ⟨(latched_run c _ t).1 (by omega), ?_⟩
    rw [hd, hshown]
    rfl

/-- With data enable on, at a pulse of the pixel clock or between two, the output is the colour of
its column and row, unless the column is 0, which is black. -/
theorem vga_iff (hs : 2 ≤ pulses c s t ∨ ∃ b, s = afterReset b) (hfit : c.Fits)
    (hde : (c.step^[t] s).dataEnable = true) :
    c.vga (c.step^[t] s) = c.colourAt (shown c s t).1 (shown c s t).2 ↔
      (shown c s t).1 ≠ 0 ∨ c.colourAt (shown c s t).1 (shown c s t).2 = (0, 0, 0) := by
  obtain ⟨hl, hd⟩ := blankingD_eq hs hde
  have hblank : c.blanks (shown c s t) = false := by
    rw [← hl.blanking]
    simpa [Beam.dataEnable] using hde
  rw [blanks, Bool.or_eq_false_iff, decide_eq_false_iff_not, decide_eq_false_iff_not, not_le,
    not_le] at hblank
  obtain ⟨hx, hy⟩ := hblank
  have hbyte : (c.step^[t] s).vramByte =
      c.byteAt (c.byteAddr (shown c s t).1 (shown c s t).2) := by
    rw [Beam.vramByte, hl.byteSel, hl.word, fetched_eq hfit hx hy, fetchByteAddr_eq hfit hx hy, byteAt]
    rcases Nat.mod_two_eq_zero_or_one (c.byteAddr (shown c s t).1 (shown c s t).2) with h0 | h1
    · rw [h0]
      rfl
    · rw [h1]
      rfl
  have hpixel := pixelIdx_eq hl.column hbyte
  rw [vga, hd, hpixel]
  by_cases h0 : (shown c s t).1 = 0
  · rw [decide_eq_true h0, if_pos rfl]
    constructor
    · exact fun h => .inr h.symm
    · exact fun h => (h.resolve_left (not_not.mpr h0)).symm
  · rw [decide_eq_false h0, if_neg Bool.false_ne_true]
    exact iff_of_true rfl (.inl h0)

end Runs

/-- A white screen of one bit a pixel, from address 0 on. -/
def white : Screen where
  regs :=
    { ctrl := 0, base := 0, stride := 20, ramdacCtrl := 0, paletteAddr := 0, palWr := 0, palCnt := 0
      vblankEnable := false, beamToggle := false, clut := fun _ => 0 }
  mem := fun _ => 0
  monitor512 := false
  monochrome := false
  defaultMonochrome := false

theorem fits_white : white.Fits := by
  intro x hx y hy
  have hx' : x < 640 := hx
  have hy' : y < 480 := hy
  change (0 * 32 + y * (20 * 4) + x * 1 / 8) / 2 < 196608
  omega

/-- The registers of the beam when the power comes on. -/
def powerOn : Beam := ⟨0, false, 0, 0, true, 0, false, true, 0⟩

theorem vga_white :
    (white.step^[4] (afterReset powerOn)).dataEnable = true ∧
      shown white (afterReset powerOn) 4 = (1, 0) ∧
      white.vga (white.step^[4] (afterReset powerOn)) = white.colourAt 1 0 := by
  have hde : (white.step^[4] (afterReset powerOn)).dataEnable = true := by decide +kernel
  have hshown : shown white (afterReset powerOn) 4 = (1, 0) := by decide +kernel
  have hiff := vga_iff (.inr ⟨powerOn, rfl⟩) fits_white hde
  rw [hshown] at hiff
  exact ⟨hde, hshown, hiff.mpr (.inl (by decide))⟩

/-- Column 0 of the white screen is black. -/
theorem black_column :
    white.Fits ∧ (white.step^[3] (afterReset powerOn)).clkVideoEn = true ∧
      (white.step^[3] (afterReset powerOn)).dataEnable = true ∧
      shown white (afterReset powerOn) 3 = (0, 0) ∧
      white.vga (white.step^[3] (afterReset powerOn)) ≠ white.colourAt 0 0 :=
  ⟨fits_white, by decide +kernel, by decide +kernel, by decide +kernel, by decide +kernel⟩

end Screen

end Nubus
