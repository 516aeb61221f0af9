import LBMacTwo.Foundation.Bits

/-!
# Setups and frames of the serial line

* `Setup`: the fields of `i_setup`;
* `Setup.frame`, `Setup.lineBit`: the bits of a byte on the line, start and stop bits included;
* `Carries`: a line on which frames begin in given clocks and which is high between them.
-/

namespace Uart

/-- `i_setup`: flow control, the number of data bits short of eight, stop bits, parity and the clocks
of a bit. -/
structure Setup where
  noFlowControl : Bool
  dataBits : Fin 4
  dblstop : Bool
  useParity : Bool
  fixdParity : Bool
  parity : Bool
  baud : BitVec 24

namespace Setup

/-- `INITIAL_SETUP`. -/
def initial : Setup := ⟨false, ⟨0, by decide⟩, false, false, false, false, 868⟩

variable (s : Setup) (d : Byte)

def hwFlowControl : Bool := !s.noFlowControl

def clocksPerBaud : ℕ := s.baud.toNat

def breakCondition : ℕ := s.baud.toNat * 16

/-- The data bits of a frame. -/
def width : ℕ := 8 - s.dataBits

/-- The parity of the first `k` data bits. -/
def parityOf : ℕ → Bool
  | 0 => s.parity
  | k + 1 => parityOf k ^^ d.getLsbD k

def parityBit : Bool := if s.fixdParity then s.parity else s.parityOf d s.width

/-- The bits between the start bit and the stop bits. -/
def payload : List Bool :=
  (List.range s.width).map d.getLsbD ++ if s.useParity then [s.parityBit d] else []

def stopBits : List Bool := if s.dblstop then [true, true] else [true]

/-- The bits of a frame, in the order of the line. -/
def frame : List Bool := false :: (s.payload d ++ s.stopBits)

end Setup

namespace Setup

variable (s : Setup) (d : Byte)

/-- The number of bits of a frame. -/
def length : ℕ := s.width + s.useParity.toNat + 2 + s.dblstop.toNat

theorem width_le : s.width ≤ 8 := Nat.sub_le _ _

theorem le_width : 5 ≤ s.width := by
  have := s.dataBits.isLt
  rw [width]
  omega

theorem dataBits_add_width : s.dataBits + s.width = 8 := by
  have := s.dataBits.isLt
  rw [width]
  omega

theorem le_length : 7 ≤ s.length := by
  have := s.le_width
  rw [length]
  omega

theorem length_le : s.length ≤ 12 := by
  have := s.width_le
  have := s.useParity.toNat_le
  have := s.dblstop.toNat_le
  rw [length]
  omega

/-- Bit `j` of a frame; the line is high after it. -/
def lineBit (j : ℕ) : Bool := (s.frame d).getD j true

theorem lineBit_zero : s.lineBit d 0 = false := rfl

theorem lineBit_data {k : ℕ} (hk : k < s.width) : s.lineBit d (k + 1) = d.getLsbD k := by
  rw [lineBit, frame, List.getD_cons_succ, payload, List.append_assoc,
    List.getD_append _ _ _ _ (by simpa), List.getD_eq_getElem _ _ (by simpa), List.getElem_map,
    List.getElem_range]

theorem lineBit_parity (hp : s.useParity = true) :
    s.lineBit d (s.width + 1) = s.parityBit d := by
  rw [lineBit, frame, List.getD_cons_succ, payload, hp, if_pos rfl, List.append_assoc,
    List.getD_append_right _ _ _ _ (by simp)]
  simp

theorem lineBit_stop {i : ℕ} (hi : s.width + s.useParity.toNat < i) : s.lineBit d i = true := by
  obtain ⟨k, rfl⟩ := Nat.exists_eq_add_of_le' (show 1 ≤ i by omega)
  have hlen : (s.payload d).length ≤ k := by
    cases hp : s.useParity <;> rw [hp] at hi <;> simp [payload, hp] at hi ⊢ <;> omega
  rw [lineBit, frame, List.getD_cons_succ, List.getD_append_right _ _ _ _ hlen]
  generalize k - (s.payload d).length = j
  unfold stopBits
  split_ifs
  · rcases j with _ | _ | j <;> rfl
  · rcases j with _ | j <;> rfl

end Setup

/-- Frames of `b` clocks a bit begin on the line `w` in the clocks in which `f` gives their bytes, and
the line is high between them. -/
structure Carries (s : Setup) (b : ℕ) (f : ℕ → Option Byte) (w : ℕ → Bool) : Prop where
  bits : ∀ t d i, f t = some d → i < s.length * b → w (t + i) = s.lineBit d (i / b)
  apart : ∀ t t' d d', f t = some d → f t' = some d' → t < t' → t + s.length * b ≤ t'
  rest : ∀ t, (∀ τ d, f τ = some d → τ ≤ t → τ + s.length * b ≤ t) → w t = true

/-- Eight bits of four clocks, without parity: the setup for the self-test of the ROM. -/
def Setup.selfTest : Setup := ⟨true, ⟨0, by decide⟩, false, false, false, false, 4⟩

/-- Seven bits of a hundred clocks, and a parity bit. -/
def Setup.diagnostic : Setup := ⟨true, ⟨1, by decide⟩, false, true, false, true, 100⟩

/-- A line with one frame. -/
theorem Carries.single (s : Setup) (b : ℕ) (d : Byte) (hb : 0 < b) :
    Carries s b (fun t => if t = 0 then some d else none) fun t => s.lineBit d (t / b) := by
  refine ⟨fun t d' i ht hi => ?_, fun t t' d' d'' ht ht' hlt => ?_, fun t hdone => ?_⟩
  · split_ifs at ht with h0
    obtain rfl := Option.some.inj ht
    rw [h0, Nat.zero_add]
  · split_ifs at ht' with h0
    omega
  · have := hdone 0 d (if_pos rfl) (Nat.zero_le t)
    have hle : s.length ≤ t / b := (Nat.le_div_iff_mul_le hb).mpr (by omega)
    rw [Setup.length] at hle
    exact s.lineBit_stop d (by omega)

end Uart
