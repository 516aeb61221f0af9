import LBMacTwo.Cpu.Machine

/-!
# The grid of the two CPU enables

* `Edge`: a clock carries an edge of `phi1`, one of `phi2` or none, and they alternate;
* `Shape`: where the states of a bus cycle stand on the grid, kept by every clock;
* `Reset`: the state in which the machine leaves its reset;
* `SameCycle`, `Cycle`: the clocks of one bus cycle.
-/

namespace Cpu
open Memory Clocked

/-- The next enabled edge is one of `phi2`. -/
def beforePhi2 (turbo : Bool) (busPhase : BitVec 2) : Bool :=
  if turbo then busPhase == 1 || busPhase == 3 else decide (busPhase < 2)

/-- The kinds of clock on the grid of the enables. -/
inductive Edge (turbo : Bool) (p : BitVec 2) : Prop
  | none (h1 : cpuEnP turbo p = false) (h2 : cpuEnN turbo p = false)
      (h : beforePhi2 turbo (p + 1) = beforePhi2 turbo p)
  | phi1 (h1 : cpuEnP turbo p = true) (h2 : cpuEnN turbo p = false)
      (h : beforePhi2 turbo p = false) (h' : beforePhi2 turbo (p + 1) = true)
  | phi2 (h1 : cpuEnP turbo p = false) (h2 : cpuEnN turbo p = true)
      (h : beforePhi2 turbo p = true) (h' : beforePhi2 turbo (p + 1) = false)

theorem edge (turbo : Bool) (p : BitVec 2) : Edge turbo p := by
  by_cases h1 : cpuEnP turbo p = true
  · apply Edge.phi1 h1 <;> revert h1 <;> revert turbo p <;> decide
  · by_cases h2 : cpuEnN turbo p = true
    · apply Edge.phi2 (by simpa using h1) h2 <;> revert h2 <;> revert turbo p <;> decide
    · apply Edge.none (by simpa using h1) (by simpa using h2)
      revert h1 h2
      revert turbo p
      decide

theorem cpuEnP_of_cpuEnN (turbo : Bool) (p : BitVec 2) (h : cpuEnN turbo p = true) :
    cpuEnP turbo p = false := by
  revert turbo p
  decide

/-! ### Where the states stand -/

/-- The states of the wrapper between two enabled edges. -/
structure Shape (turbo : Bool) (p : BitVec 2) (w : Wrapper) : Prop where
  idle : w.kernel.idle = true → w.sState = 0
  as : w.asR = decide (2 ≤ w.sState ∧ w.sState ≤ 6)
  even : beforePhi2 turbo p = true →
    w.sState = 0 ∨ w.sState = 2 ∨ w.sState = 4 ∨ w.sState = 6
  odd : beforePhi2 turbo p = false → w.kernel.idle = false →
    w.sState = 1 ∨ w.sState = 3 ∨ w.sState = 4 ∨ w.sState = 5 ∨ w.sState = 7
  enE : turbo = false → w.enE = true

section Step

variable {turbo : Bool} {p : BitVec 2} {w : Wrapper} {i : Wires}

theorem Shape.step_none (h : Shape turbo p w) (h1 : i.phi1 = false) (h2 : i.phi2 = false)
    (hp : beforePhi2 turbo (p + 1) = beforePhi2 turbo p) : Shape turbo (p + 1) (w.step i) := by
  have hk : (w.step i).kernel = w.kernel := by simp [Wrapper.step, Wrapper.clkena, h1]
  have hs : (w.step i).sState = w.sState := by simp [Wrapper.step, Wrapper.sStateNext, h1, h2]
  have ha : (w.step i).asR = w.asR := by simp [Wrapper.step, Wrapper.asNext, h1, h2]
  have he : (w.step i).enE = w.enE := by simp [Wrapper.step, h1]
  constructor
  · rw [hk, hs]
    exact h.idle
  · rw [ha, hs]
    exact h.as
  · rw [hp, hs]
    exact h.even
  · rw [hp, hs, hk]
    exact h.odd
  · rw [he]
    exact h.enE

/-- The state after an edge of `phi1`. -/
theorem sState_phi1 (h1 : i.phi1 = true) (hidle : w.kernel.idle = false) :
    (w.step i).sState = if w.sState = 4 then 4 else w.sState + 1 := by
  simp [Wrapper.step, Wrapper.sStateNext, h1, hidle]

/-- The state after an edge of `phi2`. -/
theorem sState_phi2 (h1 : i.phi1 = false) (h2 : i.phi2 = true) (hidle : w.kernel.idle = false) :
    (w.step i).sState = if w.sState = 4 ∧ w.leaves i = false then 4 else w.sState + 1 := by
  unfold Wrapper.leaves
  by_cases h4 : w.sState = 4
  · by_cases hl : (i.dtack || w.xVma || i.berr) = true
    · simp only [Wrapper.step, Wrapper.sStateNext, h1, h2, hidle, h4, hl]
      grind
    · simp only [Wrapper.step, Wrapper.sStateNext, h1, h2, hidle, h4]
      grind
  · have h4' : (w.sState == 4) = false := beq_eq_false_iff_ne.mpr h4
    simp only [Wrapper.step, Wrapper.sStateNext, h1, h2, hidle, h4, h4', bne]
    grind

theorem sState_phi2_of_ne (h1 : i.phi1 = false) (h2 : i.phi2 = true)
    (hidle : w.kernel.idle = false) (h4 : w.sState ≠ 4) : (w.step i).sState = w.sState + 1 := by
  rw [sState_phi2 h1 h2 hidle, if_neg fun h => h4 h.1]

theorem sState_idle (hedge : i.phi1 = true ∨ i.phi2 = true) (hidle : w.kernel.idle = true) :
    (w.step i).sState = 0 := by
  rcases hedge with h | h <;> cases h1 : i.phi1 <;>
    simp_all [Wrapper.step, Wrapper.sStateNext]

theorem Shape.step_phi1 (h : Shape turbo p w) (h1 : i.phi1 = true)
    (hd : i.eDiv = turbo) (hp : beforePhi2 turbo p = false)
    (hp' : beforePhi2 turbo (p + 1) = true) : Shape turbo (p + 1) (w.step i) := by
  have hen : turbo = false → (w.step i).enE = true := by
    intro ht
    simp [Wrapper.step, h1, hd, ht]
  cases hidle : w.kernel.idle
  case true =>
    have hs := sState_idle (i := i) (.inl h1) hidle
    have ha : (w.step i).asR = false := by
      have := h.as
      rw [h.idle hidle] at this
      simpa [Wrapper.step, Wrapper.asNext, h1, hidle] using this
    exact ⟨fun _ => hs, by rw [ha, hs]; rfl, fun _ => .inl hs,
      fun hn => absurd hn (by rw [hp']; decide), hen⟩
  case false =>
    have hs := sState_phi1 h1 hidle
    have ha : (w.step i).asR = if w.sState = 1 then true else w.asR := by
      simp [Wrapper.step, Wrapper.asNext, h1, hidle]
    have hk : w.sState ≠ 7 → (w.step i).kernel = w.kernel := by
      intro h7
      have h7' : (w.sState == 7) = false := beq_eq_false_iff_ne.mpr h7
      simp only [Wrapper.step, Wrapper.clkena, h7', hidle, Bool.or_self, Bool.and_false,
        Bool.false_eq_true, if_false]
    rw [h.as] at ha
    refine ⟨?_, ?_, ?_, fun hn => absurd hn (by rw [hp']; decide), hen⟩
    · intro hi
      by_cases h7 : w.sState = 7
      · rw [hs, h7]
        decide
      · rw [hk h7, hidle] at hi
        cases hi
    · rw [ha, hs]
      rcases h.odd hp hidle with h | h | h | h | h <;> rw [h] <;> decide
    · intro _
      rw [hs]
      rcases h.odd hp hidle with h | h | h | h | h <;> rw [h] <;> decide

theorem Shape.step_phi2 (h : Shape turbo p w) (h1 : i.phi1 = false) (h2 : i.phi2 = true)
    (hp : beforePhi2 turbo p = true) (hp' : beforePhi2 turbo (p + 1) = false) :
    Shape turbo (p + 1) (w.step i) := by
  have hk : (w.step i).kernel = w.kernel := by simp [Wrapper.step, Wrapper.clkena, h1]
  have ha : (w.step i).asR = if w.sState = 6 then false else w.asR := by
    simp [Wrapper.step, Wrapper.asNext, h1, h2]
  have he : (w.step i).enE = w.enE := by simp [Wrapper.step, h1]
  rw [h.as] at ha
  cases hidle : w.kernel.idle
  case true =>
    have hs := sState_idle (i := i) (.inr h2) hidle
    rw [h.idle hidle] at ha
    exact ⟨fun _ => hs, by rw [ha, hs]; rfl, fun hn => absurd hn (by rw [hp']; decide),
      fun _ hn => absurd hn (by rw [hk, hidle]; decide), by rw [he]; exact h.enE⟩
  case false =>
    have hs := sState_phi2 h1 h2 hidle
    refine ⟨fun hi => absurd hi (by rw [hk, hidle]; decide), ?_,
      fun hn => absurd hn (by rw [hp']; decide), fun _ _ => ?_, by rw [he]; exact h.enE⟩
    · rw [ha, hs]
      rcases h.even hp with h | h | h | h <;> rw [h] <;> cases w.leaves i <;> decide
    · rw [hs]
      rcases h.even hp with h | h | h | h <;> rw [h] <;> cases w.leaves i <;> decide

end Step

/-! ### Runs -/

section Run

variable {turbo : Bool} {s : Machine} {i : In} {u : ℕ → In} {t : ℕ}

theorem shape_step (h : Shape turbo s.slots.busPhase s.cpu) :
    Shape turbo (s.step turbo i).slots.busPhase (s.step turbo i).cpu := by
  change Shape turbo (s.slots.busPhase + 1) (s.cpu.step (s.wires turbo i))
  cases edge turbo s.slots.busPhase with
  | none h1 h2 hp => exact h.step_none h1 h2 hp
  | phi1 h1 _ hp hp' => exact h.step_phi1 h1 rfl hp hp'
  | phi2 h1 h2 hp hp' => exact h.step_phi2 h1 h2 hp hp'

/-- The state after `t` clocks. -/
abbrev after (turbo : Bool) (s : Machine) (u : ℕ → In) (t : ℕ) : Machine :=
  run (Machine.step turbo) s u t

theorem after_succ : after turbo s u (t + 1) = (after turbo s u t).step turbo (u t) := rfl

/-- The reset, which lasts longer than a slot, is over. -/
structure Reset (s : Machine) : Prop where
  sState : s.cpu.sState = 0
  idle : s.cpu.kernel.idle = true
  as : s.cpu.asR = false
  rw : s.cpu.rwR = true
  uds : s.cpu.udsR = false
  lds : s.cpu.ldsR = false
  eCntr : s.cpu.eCntr = 0
  vma : s.cpu.vma = false
  enE : s.cpu.enE = true
  turboDtackEn : s.turboDtackEn = false
  slot0Mark : s.slot0Mark = (s.slots.busPhase == 0)
  slotRd : s.sdramSlotCpuRd = false
  slotWr : s.sdramSlotCpuWr = false
  rdDone : s.cpuSdramRdDone = false
  wrDone : s.cpuSdramWrDone = false
  rdWait : s.cpuRdWait = 0
  wrWait : s.cpuWrWait = 0
  sdram : s.sdram.t = inStep s.slots.busPhase
  berr : s.berrOut = false
  fixup : s.fixupTake = false

theorem Reset.shape (h : Reset s) : Shape turbo s.slots.busPhase s.cpu where
  idle _ := h.sState
  as := by rw [h.as, h.sState]; rfl
  even _ := .inl h.sState
  odd _ hidle := absurd h.idle (by rw [hidle]; decide)
  enE _ := h.enE

theorem shape_run (turbo : Bool) (h : Reset s) (u : ℕ → In) (t : ℕ) :
    Shape turbo (after turbo s u t).slots.busPhase (after turbo s u t).cpu := by
  induction t with
  | zero => exact h.shape
  | succ t ih => exact shape_step ih

/-- The kernel is enabled in clock `t`. -/
def clkenaAt (turbo : Bool) (s : Machine) (u : ℕ → In) (t : ℕ) : Bool :=
  (after turbo s u t).cpu.clkena ((after turbo s u t).wires turbo (u t))

/-- Clocks `p` and `t` lie in one cycle of the kernel. -/
def SameCycle (turbo : Bool) (s : Machine) (u : ℕ → In) (p t : ℕ) : Prop :=
  p ≤ t ∧ ∀ k, p ≤ k → k < t → clkenaAt turbo s u k = false

/-- The clocks from `a` to `b` are those of a bus cycle that runs to its end. -/
structure Cycle (turbo : Bool) (s : Machine) (u : ℕ → In) (a b : ℕ) : Prop where
  start : a = 0 ∨ ∃ a', a = a' + 1 ∧ clkenaAt turbo s u a' = true
  same : SameCycle turbo s u a b
  ends : clkenaAt turbo s u b = true
  last : (after turbo s u b).cpu.sState = 7

theorem SameCycle.refl : SameCycle turbo s u t t := ⟨le_rfl, fun k h1 h2 => by omega⟩

theorem SameCycle.succ {p : ℕ} (h : SameCycle turbo s u p t) (ht : clkenaAt turbo s u t = false) :
    SameCycle turbo s u p (t + 1) := by
  refine ⟨by have := h.1; omega, fun k h1 h2 => ?_⟩
  by_cases hk : k = t
  · rw [hk]
    exact ht
  · exact h.2 k h1 (by omega)

theorem clkenaAt_of_not_phi1 (h : cpuEnP turbo (after turbo s u t).slots.busPhase = false) :
    clkenaAt turbo s u t = false := by
  simp [clkenaAt, Wrapper.clkena, Machine.wires, h]

/-- Where the kernel is enabled the states start again. -/
theorem sState_of_clkena (h : clkenaAt turbo s u t = true) :
    (after turbo s u (t + 1)).cpu.sState = 0 := by
  obtain ⟨h1, h7⟩ := (Bool.and_eq_true _ _).mp h
  rw [after_succ]
  generalize after turbo s u t = m at *
  cases hidle : m.cpu.kernel.idle
  case true => exact sState_idle (i := m.wires turbo (u t)) (.inl h1) hidle
  case false =>
    rw [hidle, Bool.or_false, beq_iff_eq] at h7
    change (m.cpu.step (m.wires turbo (u t))).sState = 0
    rw [sState_phi1 h1 hidle, h7]
    rfl

/-- A bus cycle starts in state 0. -/
theorem Cycle.sState_start {a b : ℕ} (h0 : Reset s) (h : Cycle turbo s u a b) :
    (after turbo s u a).cpu.sState = 0 := by
  rcases h.start with rfl | ⟨a', rfl, ha⟩
  · exact h0.sState
  · exact sState_of_clkena ha

/-- In a bus cycle that ends in state 7 the kernel is not idle. -/
theorem Cycle.busy {a b k : ℕ} (h0 : Reset s) (h : Cycle turbo s u a b) (hk : a ≤ k) (hb : k ≤ b) :
    (after turbo s u k).cpu.kernel.idle = false := by
  have hlast : (after turbo s u b).cpu.kernel.idle = false := by
    by_contra hi
    have := (shape_run turbo h0 u b).idle (by simpa using hi)
    rw [h.last] at this
    cases this
  obtain ⟨d, rfl⟩ := Nat.exists_eq_add_of_le hb
  clear hb
  have hsame := h.same.2
  have hmono : ∀ d, (∀ j, k ≤ j → j < k + d → clkenaAt turbo s u j = false) →
      (after turbo s u (k + d)).cpu.kernel = (after turbo s u k).cpu.kernel := by
    intro d
    induction d with
    | zero => exact fun _ => rfl
    | succ d ih =>
      intro hj
      rw [← ih fun j h1 h2 => hj j h1 (by omega), ← Nat.add_assoc, after_succ]
      have := hj (k + d) (by omega) (by omega)
      unfold clkenaAt at this
      simp [Machine.step, Wrapper.step, this]
  rw [← hmono d fun j h1 h2 => hsame j (by omega) h2]
  exact hlast

end Run

end Cpu
