import LBMacTwo.Scc.Reads

/-!
# The register file of the serial controller

What a program sees of the chip when every access is one event.

* `Regs`, `Regs.access`: the pointers and the write registers, and what an access does to them;
* `State.regs`: the register file of the chip;
* `regs_of_rest`: a clock that carries nothing out keeps it;
* `regs_of_access`: the clock that carries an access out does what the access does.
-/

namespace Scc

/-! ### The abstract register file -/

/-- The pointer and the write registers of a channel; WR8 is the transmit buffer. -/
@[ext] structure ChanRegs where
  pointer : ℕ
  wr1 : Byte
  wr3 : Byte
  wr4 : Byte
  wr5 : Byte
  wr8 : Byte
  wr10 : Byte
  wr12 : Byte
  wr13 : Byte
  wr14 : Byte
  wr15 : Byte
  hunting : Bool

namespace ChanRegs

variable (r : ChanRegs)

/-- WR`n` is set to `d`; WR6, WR7 and WR11 are not there. WR3 with Enter Hunt Mode, or with the
receiver off, starts the hunt. -/
def store (n : ℕ) (d : Byte) : ChanRegs where
  pointer := r.pointer
  wr1 := if n = 1 then d else r.wr1
  wr3 := if n = 3 then d else r.wr3
  wr4 := if n = 4 then d else r.wr4
  wr5 := if n = 5 then d else r.wr5
  wr8 := if n = 8 then d else r.wr8
  wr10 := if n = 10 then d else r.wr10
  wr12 := if n = 12 then d else r.wr12
  wr13 := if n = 13 then d else r.wr13
  wr14 := if n = 14 then d else r.wr14
  wr15 := if n = 15 then d else r.wr15
  hunting := if n = 3 ∧ (d.getLsbD 4 = true ∨ d.getLsbD 0 = false) then true else r.hunting

/-- A channel reset. -/
def reset : ChanRegs :=
  { r with
    wr1 := r.wr1 &&& 0x24, wr5 := r.wr5 &&& 0x61, wr10 := r.wr10 &&& 0x60
    wr14 := r.wr14 &&& 0xC3 ||| 0x20, hunting := true }

/-- The share of a channel in a hardware reset. -/
def hardReset : ChanRegs :=
  { r with
    pointer := 0, wr1 := r.wr1 &&& 0x24, wr5 := r.wr5 &&& 0x61, wr8 := 0, wr10 := 0
    wr14 := r.wr14 &&& 0xC0 ||| 0x30, wr15 := 0xF8, hunting := true }

end ChanRegs

@[ext] structure Regs where
  wr2 : Byte
  wr9 : Byte
  chan : Side → ChanRegs

namespace Regs

variable (r : Regs)

def setChan (c : Side) (q : ChanRegs) : Regs := { r with chan := Function.update r.chan c q }

@[simp] theorem setChan_wr2 (c : Side) (q : ChanRegs) : (r.setChan c q).wr2 = r.wr2 := rfl

@[simp] theorem setChan_wr9 (c : Side) (q : ChanRegs) : (r.setChan c q).wr9 = r.wr9 := rfl

@[simp] theorem setChan_chan (c c' : Side) (q : ChanRegs) :
    (r.setChan c q).chan c' = if c' = c then q else r.chan c' := Function.update_apply ..

/-- A WR0 write sets the pointer, and Reset Ext/Status ends the hunt. -/
def point (c : Side) (d : Byte) : Regs :=
  r.setChan c
    { r.chan c with pointer := nextPointer d, hunting := (r.chan c).hunting && command d != 2 }

/-- The pointer goes back to 0. -/
def unpoint (c : Side) : Regs := r.setChan c { r.chan c with pointer := 0 }

/-- A write to the data port. -/
def send (c : Side) (d : Byte) : Regs := r.setChan c { r.chan c with wr8 := d }

/-- A WR9 write stores the low bits and resets one channel or both. -/
def master (d : Byte) : Regs where
  wr2 := r.wr2
  wr9 := d &&& 0x3F
  chan c :=
    if topBits d = 3 then (r.chan c).hardReset
    else if topBits d = c.resetBits then (r.chan c).reset else r.chan c

/-- A write to the register that the pointer selects. -/
def store (c : Side) (n : ℕ) (d : Byte) : Regs :=
  if n = 2 then { r with wr2 := d }
  else if n = 9 then r.master d
  else r.setChan c ((r.chan c).store n d)

/-- What an access does. -/
def access (x : Access) : Regs :=
  if x.data then
    if x.we then r.send x.side x.wdata else r
  else if x.we then
    if (r.chan x.side).pointer = 0 then r.point x.side x.wdata
    else (r.unpoint x.side).store x.side (r.chan x.side).pointer x.wdata
  else r.unpoint x.side

end Regs

/-! ### The register file of the chip -/

def Chan.regs (c : Chan) : ChanRegs :=
  ⟨c.rindex, c.wr1, c.wr3, c.wr4, c.wr5, c.txData, c.wr10, c.wr12, c.wr13, c.wr14, c.wr15,
    c.syncHunt⟩

def State.regs (s : State) : Regs := ⟨s.wr2, s.wr9, fun c => (s.chan c).regs⟩

variable {s : State} {i : In} {x : Access}

theorem step_regs_chan (c : Side) : (step s i).regs.chan c = (chanNext c s i).regs := by
  change ((step s i).chan c).regs = _
  rw [step_chan]

theorem wreg_of_inactive (c : Side) (h : csActive s i = false) : wreg c s i = false := by
  rw [wreg, h]
  rfl

/-- A clock that does not carry out an access, and resets nothing, keeps the registers. -/
theorem regs_of_rest (hr : reset s i = false) (h : i.cen = false ∨ csActive s i = false) :
    (step s i).regs = s.regs := by
  have hacc : ∀ c, access c s i = false := by
    intro c
    rcases h with hcen | hact
    · rw [access, hcen]
      rfl
    · rw [access, hact, Bool.and_false]
      rfl
  have hsel : ∀ c n, (i.cen && wsel c n s i) = false := by
    intro c n
    rcases h with hcen | hact
    · rw [hcen, Bool.false_and]
    · rw [wsel, wreg_of_inactive c hact, Bool.false_and, Bool.and_false]
  have hany : ∀ n, (i.cen && wselAny n s i) = false := by
    intro n
    rw [wselAny, Bool.and_or_distrib_left, hsel, hsel]
    rfl
  have hreset : ∀ c, (i.cen && resetChan c s i) = false := by
    intro c
    rw [resetChan, ← Bool.and_assoc, hany, Bool.false_and]
  have hext : ∀ c, (i.cen && doExtreset c s i) = false := by
    intro c
    rw [doExtreset, ← Bool.and_assoc, hsel, Bool.false_and]
  have hhunt : ∀ c, (i.cen && (resetChan c s i || hunt c s i)) = false := by
    intro c
    rw [Bool.and_or_distrib_left, hreset, hunt, ← Bool.and_assoc, hsel, Bool.false_and]
    rfl
  apply Regs.ext
  · change wr2Next s i = s.wr2
    simp [hany]
  · change wr9Next s i = s.wr9
    simp [hany]
  · funext c
    rw [step_regs_chan]
    change _ = (s.chan c).regs
    simp [Chan.regs, chanNext, rindexNext, pointing, dataWrite, hr, hacc, hsel, hreset, hext, hhunt]

/-! ### The clock that carries an access out -/

/-- The wires of an access that is visible. -/
theorem wsel_eq (hx : x.Holds i) (hact : csActive s i = true) (c : Side) (n : ℕ) :
    wsel c n s i = (x.we && !x.data && decide (x.side = c) && (s.chan x.side).rindex == n) := by
  rw [wsel, wreg, rindexLatch, hact, hx.cs, hx.we, hx.data, hx.side, Bool.true_and, Bool.true_and]
  cases x.data <;> simp

theorem access_eq (hx : x.Holds i) (hcen : i.cen = true) (hact : csActive s i = true) (c : Side) :
    access c s i = decide (x.side = c) := by
  rw [access, hcen, hact, hx.side]
  rfl

section Carried

variable (hx : x.Holds i) (hcen : i.cen = true) (hact : csActive s i = true)
include hx hcen hact

/-- A data write goes into the transmit buffer, a data read changes no register. -/
theorem regs_of_data (hd : x.data = true) : (step s i).regs = s.regs.access x := by
  have hsel : ∀ c n, wsel c n s i = false := by
    intro c n
    rw [wsel_eq hx hact, hd, Bool.not_true, Bool.and_false]
    rfl
  have hacc := access_eq hx hcen hact
  have hnone : reset s i = false ∧ ∀ c, resetChan c s i = false := by
    simp [reset, resetChan, wselAny, hsel]
  have hregs : s.regs.access x = if x.we then s.regs.send x.side x.wdata else s.regs := by
    rw [Regs.access, hd, if_pos rfl]
  rw [hregs]
  apply Regs.ext
  · change wr2Next s i = _
    cases x.we <;> simp [wselAny, hsel, Regs.send, State.regs]
  · change wr9Next s i = _
    cases x.we <;> simp [wselAny, hsel, Regs.send, State.regs]
  · funext c
    rw [step_regs_chan]
    have hchan : (chanNext c s i).regs =
        { (s.chan c).regs with wr8 := if dataWrite c s i then i.wdata else (s.chan c).txData } := by
      simp [Chan.regs, chanNext, rindexNext, pointing, doExtreset, hunt, hsel, hnone, hx.data, hd]
    rw [hchan, dataWrite, hacc, hx.data, hd, hx.we, hx.wdata]
    by_cases hc : c = x.side
    · cases x.we <;> simp [hc, Regs.send, State.regs, Chan.regs]
    · cases x.we <;> simp [hc, Ne.symm hc, Regs.send, State.regs, Chan.regs]

/-- A control read takes the pointer back to 0. -/
theorem regs_of_read (h : Settled s) (hd : x.data = false) (hw : x.we = false) :
    (step s i).regs = s.regs.access x := by
  have hsel : ∀ c n, wsel c n s i = false := by
    intro c n
    rw [wsel_eq hx hact, hw]
    rfl
  have hacc := access_eq hx hcen hact
  have hnone : reset s i = false ∧ ∀ c, resetChan c s i = false := by
    simp [reset, resetChan, wselAny, hsel]
  have hregs : s.regs.access x = s.regs.unpoint x.side := by
    rw [Regs.access, hd, hw]
    rfl
  rw [hregs]
  apply Regs.ext
  · change wr2Next s i = _
    simp [wselAny, hsel, Regs.unpoint, State.regs]
  · change wr9Next s i = _
    simp [wselAny, hsel, Regs.unpoint, State.regs]
  · funext c
    rw [step_regs_chan]
    have hchan : (chanNext c s i).regs = { (s.chan c).regs with pointer := rindexNext c s i } := by
      simp [Chan.regs, chanNext, doExtreset, hunt, dataWrite, hsel, hnone, hx.data, hd]
    rw [hchan]
    by_cases hc : c = x.side
    · have hpointer : rindexNext c s i = 0 := by
        rw [← step_rindex, hc, ← hx.side]
        refine rindex_of_read h (hx.we.trans hw) (hx.data.trans hd) ?_
        rw [hacc, hx.side, decide_eq_true rfl]
      subst hc
      simp [hpointer, Regs.unpoint, State.regs, Chan.regs]
    · have hkept : rindexNext c s i = (s.chan c).rindex := by
        simp [rindexNext, hnone, pointing, hacc, Ne.symm hc]
      rw [hkept]
      simp [hc, Regs.unpoint, State.regs, Chan.regs]

/-- A WR0 write. -/
theorem regs_of_point (hd : x.data = false) (hw : x.we = true)
    (h0 : (s.chan x.side).rindex = 0) : (step s i).regs = s.regs.access x := by
  have hsel : ∀ c n, wsel c n s i = (decide (x.side = c) && 0 == n) := by
    intro c n
    rw [wsel_eq hx hact, hd, hw, h0]
    rfl
  have hacc := access_eq hx hcen hact
  have hnone : reset s i = false ∧ ∀ c, resetChan c s i = false := by
    simp [reset, resetChan, wselAny, hsel]
  have hregs : s.regs.access x = s.regs.point x.side x.wdata := by
    have hp : (s.regs.chan x.side).pointer = 0 := h0
    rw [Regs.access, hd, hw, if_neg Bool.false_ne_true, if_pos rfl, if_pos hp]
  rw [hregs]
  apply Regs.ext
  · change wr2Next s i = _
    simp [wselAny, hsel, Regs.point, State.regs]
  · change wr9Next s i = _
    simp [wselAny, hsel, Regs.point, State.regs]
  · funext c
    rw [step_regs_chan]
    by_cases hc : c = x.side
    · subst hc
      cases hcmd : command x.wdata == 2 <;>
        simp [Chan.regs, chanNext, rindexNext, pointing, dataWrite, doExtreset, hunt, hsel, hacc, hnone, h0, hcen,
          hx.data, hd, hx.we, hw, hx.wdata, hcmd, bne, Regs.point, State.regs]
    · simp [Chan.regs, chanNext, rindexNext, pointing, dataWrite, doExtreset, hunt, hsel, hacc, hnone, hx.data,
        hd, hc, Ne.symm hc, Regs.point, State.regs]

section Pointed

variable (h : Settled s) (hd : x.data = false) (hw : x.we = true)
  (h0 : (s.chan x.side).rindex ≠ 0)
include h hd hw h0

omit hx hcen hact h in
theorem regs_access_pointed : s.regs.access x =
    (s.regs.unpoint x.side).store x.side (s.chan x.side).rindex x.wdata := by
  have hp : (s.regs.chan x.side).pointer ≠ 0 := h0
  rw [Regs.access, hd, hw, if_neg Bool.false_ne_true, if_pos rfl, if_neg hp]
  rfl

/-- The wires of a write through the pointer. -/
theorem pointed_wires :
    (∀ c n, wsel c n s i = (decide (x.side = c) && (s.chan x.side).rindex == n)) ∧
      (∀ n, wselAny n s i = ((s.chan x.side).rindex == n)) ∧
      (s.chan x.side).sccState = true ∧ (∀ c, pointing c s i = false) ∧
      ∀ c, dataWrite c s i = false := by
  have hsel : ∀ c n, wsel c n s i = (decide (x.side = c) && (s.chan x.side).rindex == n) := by
    intro c n
    rw [wsel_eq hx hact, hd, hw]
    rfl
  have hst : (s.chan x.side).sccState = true := by
    by_contra hst
    exact h0 (h x.side (Bool.not_eq_true _ ▸ hst))
  refine ⟨hsel, fun n => ?_, hst, fun c => ?_, fun c => ?_⟩
  · rw [wselAny, hsel, hsel]
    cases x.side <;> simp
  · rw [pointing, access_eq hx hcen hact]
    by_cases hc : x.side = c
    · rw [← hc, hst, beq_false_of_ne h0]
      simp
    · simp [hc]
  · rw [dataWrite, hx.data, hd, Bool.and_false]
    rfl

/-- A WR9 write. -/
theorem regs_of_master (h9 : (s.chan x.side).rindex = 9) : (step s i).regs = s.regs.access x := by
  obtain ⟨hsel, hany, hst, hpoint, hsend⟩ := pointed_wires hx hcen hact h hd hw h0
  have hacc := access_eq hx hcen hact
  have hreset : reset s i = (topBits x.wdata == 3) := by
    rw [reset, hany, h9, hx.wdata]
    rfl
  have hchan : ∀ c, resetChan c s i =
      (topBits x.wdata == c.resetBits || topBits x.wdata == 3) := by
    intro c
    rw [resetChan, hany, h9, hx.wdata]
    rfl
  rw [regs_access_pointed hd hw h0, Regs.store, if_neg (by omega), if_pos h9]
  apply Regs.ext
  · change wr2Next s i = _
    simp [hany, h9, Regs.master, Regs.unpoint, State.regs]
  · change wr9Next s i = _
    simp [hany, h9, hcen, hx.wdata, Regs.master]
  · funext c
    rw [step_regs_chan, Regs.master]
    have hpointer : rindexNext c s i =
        if topBits x.wdata = 3 ∨ c = x.side then 0 else (s.chan c).rindex := by
      by_cases hc : c = x.side
      · rw [hc, if_pos (.inr rfl)]
        simp [rindexNext, hpoint, hacc, hst, hx.data, hd]
      · simp [rindexNext, hreset, hpoint, hacc, hc, Ne.symm hc]
    by_cases h3 : topBits x.wdata = 3
    · by_cases hc : c = x.side
      · subst hc
        simp [Chan.regs, chanNext, hpointer, hreset, hchan, hsel, h3, h9, hcen, ChanRegs.hardReset,
          Regs.unpoint, State.regs]
      · simp [Chan.regs, chanNext, hpointer, hreset, hchan, hsel, h3, h9, hcen, hc,
          ChanRegs.hardReset, Regs.unpoint, State.regs]
    · by_cases hb : topBits x.wdata = c.resetBits
      · have hb' : c.resetBits ≠ 3 := hb ▸ h3
        by_cases hc : c = x.side
        · subst hc
          simp [Chan.regs, chanNext, hpointer, hreset, hchan, hsel, hsend, hunt, hb, hb', h9, hcen,
            ChanRegs.reset, Regs.unpoint, State.regs]
        · simp [Chan.regs, chanNext, hpointer, hreset, hchan, hsel, hsend, hunt, hb, hb', h9, hcen,
            hc, ChanRegs.reset, Regs.unpoint, State.regs]
      · by_cases hc : c = x.side
        · subst hc
          simp [Chan.regs, chanNext, hpointer, hreset, hchan, hsel, hsend, doExtreset, hunt, h3, hb,
            h9, hcen, Regs.unpoint, State.regs]
        · simp [Chan.regs, chanNext, hpointer, hreset, hchan, hsel, hsend, doExtreset, hunt, h3, hb,
            h9, hcen, hc, Regs.unpoint, State.regs]

/-- Any other. -/
theorem regs_of_store (h8 : (s.chan x.side).rindex ≠ 8) (h9 : (s.chan x.side).rindex ≠ 9) :
    (step s i).regs = s.regs.access x := by
  obtain ⟨hsel, hany, hst, hpoint, hsend⟩ := pointed_wires hx hcen hact h hd hw h0
  have hacc := access_eq hx hcen hact
  have hnone : reset s i = false ∧ ∀ c, resetChan c s i = false := by
    simp [reset, resetChan, hany, h9]
  rw [regs_access_pointed hd hw h0, Regs.store, if_neg h9]
  by_cases h2 : (s.chan x.side).rindex = 2
  · rw [if_pos h2]
    apply Regs.ext
    · change wr2Next s i = _
      simp [hany, h2, hcen, hx.wdata]
    · change wr9Next s i = _
      simp [hany, h2, Regs.unpoint, State.regs]
    · funext c
      rw [step_regs_chan]
      by_cases hc : c = x.side
      · subst hc
        simp [Chan.regs, chanNext, rindexNext, doExtreset, hunt, hsel, hacc, hnone, hpoint, hsend, hst,
          h2, hx.data, hd, Regs.unpoint, State.regs]
      · simp [Chan.regs, chanNext, rindexNext, doExtreset, hunt, hsel, hacc, hnone, hpoint, hsend,
          hc, Ne.symm hc, Regs.unpoint, State.regs]
  · rw [if_neg h2]
    apply Regs.ext
    · change wr2Next s i = _
      simp [hany, h2, Regs.unpoint, State.regs]
    · change wr9Next s i = _
      simp [hany, h9, Regs.unpoint, State.regs]
    · funext c
      rw [step_regs_chan]
      by_cases hc : c = x.side
      · subst hc
        simp [Chan.regs, chanNext, rindexNext, doExtreset, hunt, hsel, hacc, hnone, hpoint, hsend, hst,
          h0, h8, hcen, hx.data, hd, hx.wdata, Regs.unpoint, ChanRegs.store, State.regs]
      · simp [Chan.regs, chanNext, rindexNext, doExtreset, hunt, hsel, hacc, hnone, hpoint, hsend,
          hc, Ne.symm hc, Regs.unpoint, State.regs]

end Pointed

end Carried

/-- The clock that carries an access out does what the access does, but that a control write to WR8
does not get to the transmit buffer. -/
theorem regs_of_access (h : Settled s) (hx : x.Holds i) (hcen : i.cen = true)
    (hact : csActive s i = true)
    (h8 : x.we = true → x.data = false → (s.chan x.side).rindex ≠ 8) :
    (step s i).regs = s.regs.access x := by
  cases hd : x.data
  case true => exact regs_of_data hx hcen hact hd
  case false =>
    cases hw : x.we
    case false => exact regs_of_read hx hcen hact h hd hw
    case true =>
      by_cases h0 : (s.chan x.side).rindex = 0
      · exact regs_of_point hx hcen hact hd hw h0
      · by_cases h9 : (s.chan x.side).rindex = 9
        · exact regs_of_master hx hcen hact h hd hw h0 h9
        · exact regs_of_store hx hcen hact h hd hw h0 (h8 hw hd) h9

end Scc
