import LBMacTwo.Cpu.Vma

/-!
# The hold of a pseudo-DMA cycle

* `scsiDMA_of_window`: the two windows, in the address after the HMMU;
* `DmaAt`: the running bus cycle has selected a window since AS fell;
* `dmaAt_of_asks`: so has every cycle whose address lies in a window, in either mode of the HMMU;
* `held_iff`: the wait states of the pseudo-DMA cycles of a run end only with DREQ if and only if
  no VMA stop meets one of them with DREQ low.
-/

namespace Cpu
open Memory Clocked

/-- `$50F06xxx` and `$50F12xxx` to `$50F13xxx`. -/
def inWindow (a : ℕ) : Prop := field a 31 12 = 0x50F06 ∨ field a 31 13 = 0x50F12 / 2

theorem scsiDMA_of_window (c : Config) {a : ℕ} (h : inWindow a) :
    (decode c a).scsiDMA = true := by
  have h32 : (decode c a) = decodeDevices a := by
    unfold decode decode32
    rw [if_neg, if_neg, if_neg, if_neg, if_pos] <;>
      (unfold inWindow field at h; unfold field; omega)
  rw [h32]
  unfold decodeDevices
  unfold inWindow at h
  rcases h with h | h
  · rw [if_neg, if_neg, if_neg, if_pos] <;> (unfold field at h ⊢; omega)
  · rw [if_neg, if_neg, if_neg, if_neg, if_pos]
    · rw [beq_iff_eq]
      unfold field at h ⊢
      omega
    all_goals (unfold field at h ⊢; omega)

/-- The HMMU maps the last megabyte of the 24-bit space into the one of the windows. -/
theorem inWindow_hmmu {a : ℕ} (h : field a 23 12 = 0xF06 ∨ field a 23 13 = 0xF12 / 2) :
    inWindow (hmmu true a) := by
  have h15 : field a 23 20 = 15 := by
    unfold field at h ⊢
    omega
  unfold hmmu
  rw [if_pos rfl, if_neg (by omega), if_neg (by omega), if_pos h15]
  unfold inWindow field at *
  omega

/-- A pseudo-DMA cycle meets DTACK with DREQ, VPA from AS on, and no bus error. -/
theorem dtack_of_scsiDMA (turbo : Bool) {m : Machine} {i : In}
    (h : (m.sel i).scsiDMA = true) :
    m.dtack turbo i = i.scsiDREQ ∧ m.vpa i = true ∧ m.anySelect i = true := by
  have has : m.cpu.asR = true := by
    by_contra has
    simp [Machine.sel, has, Selects.none] at h
  have hsel : m.sel i = decode i.config (m.cpuAddr i) := by rw [Machine.sel, if_pos has]
  have hex := (decode_exclusive i.config (m.cpuAddr i)).dma
  have hvia := (decode_exclusive i.config (m.cpuAddr i)).via
  have hhigh := (decode_high i.config (m.cpuAddr i)).dma
  rw [← hsel] at hex hhigh hvia
  obtain ⟨hscsi, hnubus⟩ := hex h
  have h15 := hhigh h
  have hfpu : m.selectFPU i = false := by
    by_contra hf
    simp only [Machine.selectFPU, Bool.not_eq_false, Bool.and_eq_true, beq_iff_eq] at hf
    have h2 := hf.1.2
    unfold field at h15 h2
    omega
  have h7 : field (m.cpuAddr i) 23 21 = 7 := by
    unfold field at h15 ⊢
    omega
  have hnovia : (m.sel i).viaAccess = false := by
    by_contra hv
    have := (hvia (by simpa using hv)).2.2
    rw [h] at this
    cases this
  refine ⟨by simp [Machine.dtack, hfpu, hnubus, h], ?_, by simp [Machine.anySelect, hscsi]⟩
  simp [Machine.vpa, hfpu, hnovia, has, h7]

section Run

variable {turbo : Bool} {s : Machine} {u : ℕ → In} {t : ℕ}

/-- Clock `t` lies in a bus cycle that has selected a pseudo-DMA window since AS fell. -/
def DmaAt (turbo : Bool) (s : Machine) (u : ℕ → In) (t : ℕ) : Prop :=
  ∃ a, (a = 0 ∨ ∃ a', a = a' + 1 ∧ clkenaAt turbo s u a' = true) ∧ SameCycle turbo s u a t ∧
    ∀ k, a ≤ k → k ≤ t → (after turbo s u k).cpu.asR = true →
      ((after turbo s u k).sel (u k)).scsiDMA = true

/-- The CPU's address is in a window, as its 32-bit or its 24-bit mode has them. -/
def Machine.asksWindow (m : Machine) (i : In) : Prop :=
  m.cpu.kernel.fc ≠ 7 ∧
    if i.config.hmmuActive then field m.cpu.addr 23 12 = 0xF06 ∨ field m.cpu.addr 23 13 = 0xF12 / 2
    else inWindow m.cpu.addr

theorem scsiDMA_of_asks {m : Machine} {i : In} (has : m.cpu.asR = true) (h : m.asksWindow i) :
    (m.sel i).scsiDMA = true := by
  obtain ⟨hfc, haddr⟩ := h
  rw [Machine.sel, if_pos has, Machine.cpuAddr, if_neg hfc]
  refine scsiDMA_of_window _ ?_
  cases hmode : i.config.hmmuActive with
  | true =>
    rw [hmode, if_pos rfl] at haddr
    exact inWindow_hmmu haddr
  | false =>
    rw [hmode, if_neg Bool.false_ne_true] at haddr
    exact haddr

/-- A bus cycle that addresses a window is a pseudo-DMA cycle. -/
theorem dmaAt_of_asks {a : ℕ} (hstart : a = 0 ∨ ∃ a', a = a' + 1 ∧ clkenaAt turbo s u a' = true)
    (hsame : SameCycle turbo s u a t)
    (hasks : ∀ k, a ≤ k → k ≤ t → (after turbo s u k).asksWindow (u k)) : DmaAt turbo s u t :=
  ⟨a, hstart, hsame, fun k h1 h2 has => scsiDMA_of_asks has (hasks k h1 h2)⟩

/-- The wait state ends in clock `t`. -/
def leavesAt (turbo : Bool) (s : Machine) (u : ℕ → In) (t : ℕ) : Bool :=
  (after turbo s u t).cpu.leaves ((after turbo s u t).wires turbo (u t))

/-- The VMA stop meets the wait state in clock `t`. -/
def stopsAt (turbo : Bool) (s : Machine) (u : ℕ → In) (t : ℕ) : Bool :=
  cpuEnN turbo (after turbo s u t).slots.busPhase && (after turbo s u t).cpu.sState == 4 &&
    (after turbo s u t).cpu.xVma

/-- No bus error is pending in a pseudo-DMA cycle. -/
theorem berrOut_of_dma (h0 : Reset s) (h : DmaAt turbo s u t) :
    (after turbo s u t).cpu.asR = true → (after turbo s u t).berrOut = false := by
  obtain ⟨a, hstart, ⟨hat, -⟩, hsel⟩ := h
  have h00 : (after turbo s u a).cpu.sState = 0 := by
    rcases hstart with rfl | ⟨a', rfl, ha⟩
    · exact h0.sState
    · exact sState_of_clkena ha
  have has := (shape_run turbo h0 u a).as
  rw [h00] at has
  induction t, hat using Nat.le_induction with
  | base =>
    intro h
    rw [has] at h
    exact absurd h (by decide)
  | succ t hat ih =>
    intro _
    refine berrOut_step (ih fun k h1 h2 => hsel k h1 (by omega)) fun h => ?_
    exact (dtack_of_scsiDMA turbo (hsel t hat (by omega) h)).2.2

/-- The wait state of a pseudo-DMA cycle ends with DREQ or at the VMA stop. -/
theorem leaves_of_dma (h0 : Reset s) (h : DmaAt turbo s u t) :
    leavesAt turbo s u t = true ↔
      cpuEnN turbo (after turbo s u t).slots.busPhase = true ∧
        (after turbo s u t).cpu.sState = 4 ∧
        ((u t).scsiDREQ = true ∨ (after turbo s u t).cpu.xVma = true) := by
  have hsh := shape_run turbo h0 u t
  have hberr := berrOut_of_dma h0 h
  obtain ⟨a, -, ⟨hat, -⟩, hsel⟩ := h
  have hsel := hsel t hat le_rfl
  have has := hsh.as
  have hidle := hsh.idle
  unfold leavesAt
  generalize after turbo s u t = m at *
  simp only [Wrapper.leaves, Machine.wires, Bool.and_eq_true, Bool.not_eq_true', Bool.or_eq_true,
    beq_iff_eq]
  constructor
  · rintro ⟨⟨⟨⟨-, h2⟩, h4⟩, -⟩, hl⟩
    rw [h4] at has
    rw [(dtack_of_scsiDMA turbo (hsel has)).1, hberr has] at hl
    exact ⟨h2, h4, by simpa using hl⟩
  · rintro ⟨h2, h4, hl⟩
    rw [h4] at has
    refine ⟨⟨⟨⟨cpuEnP_of_cpuEnN _ _ h2, h2⟩, h4⟩, ?_⟩, .inl (by rw [(dtack_of_scsiDMA turbo (hsel has)).1]; exact hl)⟩
    by_contra hi
    have := hidle (by simpa using hi)
    rw [h4] at this
    cases this

/-- The CPU is held on its pseudo-DMA cycles until DREQ if and only if no VMA stop meets the wait
state of one with DREQ low. -/
theorem held_iff (h0 : Reset s) :
    (∀ t, DmaAt turbo s u t → leavesAt turbo s u t = true → (u t).scsiDREQ = true) ↔
      ∀ t, DmaAt turbo s u t → stopsAt turbo s u t = true → (u t).scsiDREQ = true := by
  constructor
  · intro h t hd hs
    simp only [stopsAt, Bool.and_eq_true, beq_iff_eq] at hs
    exact h t hd ((leaves_of_dma h0 hd).mpr ⟨hs.1.1, hs.1.2, .inr hs.2⟩)
  · intro h t hd hl
    obtain ⟨h2, h4, hd' | hx⟩ := (leaves_of_dma h0 hd).mp hl
    · exact hd'
    · exact h t hd (by simp [stopsAt, h2, h4, hx])

end Run

/-- Reads of the first window, the target silent. -/
def silentTarget : ℕ → In := fun _ => { quietIn with kernelNext := readAt 0x50F06000 }

/-- The same with DREQ up. -/
def readyTarget : ℕ → In := fun t => { silentTarget t with scsiDREQ := true }

theorem held_iff_ready :
    (∀ t, DmaAt true (resetState 0) readyTarget t →
      leavesAt true (resetState 0) readyTarget t = true →
      (readyTarget t).scsiDREQ = true) ∧
    leavesAt true (resetState 0) readyTarget 5 = true ∧
    ((after true (resetState 0) readyTarget 5).sel (readyTarget 5)).scsiDMA = true :=
  ⟨(held_iff (reset_resetState 0)).mpr fun _ _ _ => rfl, by decide +kernel, by decide +kernel⟩

/-- The cycle is released with DREQ low, and the CPU latches what the chip does not offer. -/
theorem released_without_dreq :
    DmaAt true (resetState 0) silentTarget 35 ∧
      leavesAt true (resetState 0) silentTarget 35 = true ∧
      (silentTarget 35).scsiDREQ = false := by
  have hsame : ∀ k < 35, 1 ≤ k → clkenaAt true (resetState 0) silentTarget k = false := by
    decide +kernel
  have hsel : ∀ k < 36, (after true (resetState 0) silentTarget k).cpu.asR = true →
      ((after true (resetState 0) silentTarget k).sel (silentTarget k)).scsiDMA = true := by
    decide +kernel
  exact ⟨⟨1, .inr ⟨0, rfl, by decide +kernel⟩, ⟨by omega, fun k h1 h2 => hsame k h2 h1⟩,
    fun k _ h2 => hsel k (by omega)⟩, by decide +kernel, rfl⟩

end Cpu
