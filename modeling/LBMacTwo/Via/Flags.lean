import LBMacTwo.Foundation.Latch
import LBMacTwo.Via.Chip

/-!
# The interrupt flags of the VIA

* `flag_next`, `mask_next`: the IFR and the IER bit by bit, as latches;
* `irq_iff`: the interrupt line as a function of the whole history of the chip.
-/

namespace Via
open Clocked

variable {c : Chip} {i : Pins} {b : ℕ}

namespace Chip

/-- Flag `b` is set by an event, except in a clock in which the IFR is written. -/
def sets (c : Chip) (i : Pins) (b : ℕ) : Bool := (c.irqEvents i).getLsbD b && !i.writes 0xD

/-- Flag `b` is cleared. -/
def clears (c : Chip) (i : Pins) (b : ℕ) : Bool :=
  i.reset || (i.writes 0xD && i.dataIn.getLsbD b) || (c.writeClears i).getLsbD b ||
    (c.readClears i).getLsbD b

/-- Interrupt `b` is enabled by a write of the IER. -/
def enables (i : Pins) (b : ℕ) : Bool := i.writes 0xE && i.dataIn.getLsbD 7 && i.dataIn.getLsbD b

def disables (i : Pins) (b : ℕ) : Bool :=
  i.reset || (i.writes 0xE && !i.dataIn.getLsbD 7 && i.dataIn.getLsbD b)

/-- The level overlay of flag `b`. -/
def level (i : Pins) (b : ℕ) : Bool := (i.ca2LvlI && b == 0) || (i.cb2LvlI && b == 3)

theorem writeClears_ifr (h : i.writes 0xD = true) : c.writeClears i = 0 := by
  simp only [Pins.writes, Bool.and_eq_true, beq_iff_eq] at h
  simp [writeClears, h]

theorem zero_bit : (0 : BitVec 7).getLsbD b = false := BitVec.getLsbD_zero

theorem flag_next (hb : b < 7) : (c.step i).irqFlags.getLsbD b =
    (!c.clears i b && (c.irqFlags.getLsbD b || c.sets i b)) := by
  change (c.irqFlagsNext i).getLsbD b = _
  rw [irqFlagsNext, clears, sets]
  cases hr : i.reset
  · cases hw : i.writes 0xD
    · simp only [Bool.false_eq_true, if_false, BitVec.getLsbD_and, BitVec.getLsbD_or,
        BitVec.getLsbD_not, hb, decide_true, Bool.true_and, Bool.not_false, Bool.and_true,
        Bool.false_and, Bool.false_or, Bool.not_or]
      ac_rfl
    · rw [writeClears_ifr hw]
      simp only [Bool.false_eq_true, if_false, if_true, BitVec.getLsbD_and, BitVec.getLsbD_not, hb,
        zero_bit, BitVec.truncate_eq_setWidth, BitVec.getLsbD_setWidth, decide_true,
        Bool.true_and, Bool.not_true, Bool.and_false, Bool.or_false, Bool.false_or, Bool.not_or]
      ac_rfl
  · simp

theorem mask_next (hb : b < 7) : (c.step i).irqMask.getLsbD b =
    (!disables i b && (c.irqMask.getLsbD b || enables i b)) := by
  change (c.irqMaskNext i).getLsbD b = _
  rw [irqMaskNext, disables, enables]
  cases hr : i.reset
  · cases hw : i.writes 0xE
    · simp
    · cases i.dataIn.getLsbD 7 <;> simp [hb, Bool.and_comm]
  · simp

theorem level_bit (hb : b < 7) :
    ((if i.cb2LvlI then 0x08 else 0) ||| (if i.ca2LvlI then 0x01 else 0) : BitVec 7).getLsbD b =
      level i b := by
  rw [level]
  interval_cases b <;> cases i.ca2LvlI <;> cases i.cb2LvlI <;> rfl

theorem irq_bit : c.irq i = true ↔ ∃ b < 7, c.irqMask.getLsbD b = true ∧
    (c.irqFlags.getLsbD b = true ∨ level i b = true) := by
  rw [irq, irqFlagsEff, bne_iff_ne, Ne, ← not_iff_not, not_not]
  constructor
  · rintro h ⟨b, hb, hm, hf⟩
    have hbit := congrArg (fun x => x.getLsbD b) h
    simp only [BitVec.getLsbD_and, BitVec.getLsbD_or (x := c.irqFlags), level_bit hb, hm,
      zero_bit, Bool.and_true, Bool.or_eq_false_iff] at hbit
    rcases hf with hf | hf
    · exact absurd (hf.symm.trans hbit.1) Bool.true_eq_false_eq_False
    · exact absurd (hf.symm.trans hbit.2) Bool.true_eq_false_eq_False
  · intro h
    refine BitVec.eq_of_getLsbD_eq fun b hb => ?_
    rw [BitVec.getLsbD_and, BitVec.getLsbD_or, level_bit hb, zero_bit]
    by_contra hne
    rw [Bool.not_eq_false, Bool.and_eq_true, Bool.or_eq_true] at hne
    exact h ⟨b, hb, hne.2, hne.1⟩

end Chip

section Runs

variable (c : Chip) (u : ℕ → Pins)

/-- Event `b` was recorded in a clock before `t` and its flag has not been cleared since. -/
def Pending (b t : ℕ) : Prop :=
  ∃ s < t, (c.run u s).sets (u s) b = true ∧
    ∀ r, s ≤ r → r < t → (c.run u r).clears (u r) b = false

/-- Interrupt `b` was enabled in a clock before `t` and has not been disabled since. -/
def Enabled (b t : ℕ) : Prop :=
  ∃ s < t, Chip.enables (u s) b = true ∧ ∀ r, s ≤ r → r < t → Chip.disables (u r) b = false

/-- After a reset, the interrupt line is on exactly if an enabled interrupt is pending or has its
level on. -/
theorem irq_iff (h0 : (u 0).reset = true) {t : ℕ} (ht : 0 < t) :
    (c.run u t).irq (u t) = true ↔
      ∃ b < 7, Enabled u b t ∧ (Pending c u b t ∨ Chip.level (u t) b = true) := by
  have hflag : ∀ b < 7, ((c.run u t).irqFlags.getLsbD b = true ↔ Pending c u b t) := fun b hb => by
    rw [Latch.latch_iff (x := fun t => (c.run u t).irqFlags.getLsbD b)
      (a := fun t => (c.run u t).sets (u t) b) (k := fun t => (c.run u t).clears (u t) b)
      (fun t => Chip.flag_next hb) t, or_iff_left]
    · rfl
    · rintro ⟨-, h⟩
      have := h 0 ht
      simp [Chip.clears, h0] at this
  have hmask : ∀ b < 7, ((c.run u t).irqMask.getLsbD b = true ↔ Enabled u b t) := fun b hb => by
    rw [Latch.latch_iff (x := fun t => (c.run u t).irqMask.getLsbD b)
      (a := fun t => Chip.enables (u t) b) (k := fun t => Chip.disables (u t) b)
      (fun t => Chip.mask_next hb) t, or_iff_left]
    · rfl
    · rintro ⟨-, h⟩
      have := h 0 ht
      simp [Chip.disables, h0] at this
  rw [Chip.irq_bit]
  constructor
  · rintro ⟨b, hb, h1, h2⟩
    exact ⟨b, hb, (hmask b hb).mp h1, h2.imp_left (hflag b hb).mp⟩
  · rintro ⟨b, hb, h1, h2⟩
    exact ⟨b, hb, (hmask b hb).mpr h1, h2.imp_left (hflag b hb).mpr⟩

end Runs

/-- CA1 is enabled after a reset, and falls. -/
def fallCa1 : ℕ → Pins
  | 0 => { Pins.idle with reset := true }
  | 1 => Pins.write 0xE 0x82
  | 2 => { Pins.idle with ca1I := true }
  | _ => Pins.idle

theorem irq_iff_fallCa1 : (Chip.cleared.run fallCa1 5).irq (fallCa1 5) = true := by
  refine (irq_iff .cleared fallCa1 rfl (show 0 < 5 by decide)).mpr
    ⟨1, by decide, ⟨1, by decide, by decide, fun r h1 h2 => ?_⟩,
      .inl ⟨4, by decide, by decide, fun r h1 h2 => ?_⟩⟩
  · interval_cases r <;> rfl
  · interval_cases r
    rfl

end Via
