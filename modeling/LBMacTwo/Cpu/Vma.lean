import LBMacTwo.Cpu.Grid

/-!
# The VMA handshake and the bus cycle it belongs to

* `strands`: the clocks in which a cycle ends, or is about to end, with VMA asserted for it and not
  yet at its stop;
* `Own`: VMA is asserted because `_cpuVPA` was sampled low in the running bus cycle;
* `strobes`: the register strobes of a VIA in a range of clocks;
* `vma_own`: in a run without stranded VMA every release by `xVma` is one of the cycle's own VMA,
  and every access of a VIA meets exactly one register strobe.
-/

namespace Cpu
open Memory Clocked

/-- A cycle leaves its wait state by DTACK or BERR alone while VMA is asserted or being asserted, or
VMA is asserted after it has left. -/
def Wrapper.strands (w : Wrapper) (i : Wires) : Bool :=
  i.phi2 && ((w.sState == 4 && (i.dtack || i.berr) && !w.xVma && (w.vma || w.assertsVma i)) ||
    (w.sState == 6 && w.assertsVma i))

section Definitions

variable (turbo : Bool) (s : Machine) (u : ℕ → In)

def strandsAt (t : ℕ) : Bool :=
  (after turbo s u t).cpu.strands ((after turbo s u t).wires turbo (u t))

def phi1At (t : ℕ) : Bool := cpuEnP turbo (after turbo s u t).slots.busPhase

def vpaAt (t : ℕ) : Bool := (after turbo s u t).vpa (u t)

def assertsAt (t : ℕ) : Bool :=
  (after turbo s u t).cpu.assertsVma ((after turbo s u t).wires turbo (u t))

/-- The wait state ends in clock `t` with `xVma` up. -/
def leavesByVma (t : ℕ) : Bool :=
  (after turbo s u t).cpu.leaves ((after turbo s u t).wires turbo (u t)) &&
    (after turbo s u t).cpu.xVma

/-- The last sample of `_cpuVPA` before clock `q` was taken at clock `p`, and it was low. -/
structure SampledLow (p q : ℕ) : Prop where
  before : p < q
  edge : phi1At turbo s u p = true
  low : vpaAt turbo s u p = true
  last : ∀ k, p < k → k < q → phi1At turbo s u k = false

/-- VMA is asserted at clock `t`, and the sample of `_cpuVPA` behind it belongs to the bus cycle of
clock `t`. -/
def Own (t : ℕ) : Prop :=
  ∃ p q, SampledLow turbo s u p q ∧ assertsAt turbo s u q = true ∧ q < t ∧
    (∀ k, q < k → k ≤ t → (after turbo s u k).cpu.vma = true) ∧ SameCycle turbo s u p t

end Definitions

/-! ### The wrapper's E counter on the grid -/

section Edges

variable {w : Wrapper} {i : Wires}

theorem vma_none (h1 : i.phi1 = false) (h2 : i.phi2 = false) :
    (w.step i).vma = w.vma ∧ (w.step i).eCntr = w.eCntr ∧ (w.step i).enE = w.enE ∧
      (w.step i).vpai = w.vpai ∧ (w.step i).sState = w.sState := by
  simp [Wrapper.step, Wrapper.vmaNext, Wrapper.eCntrNext, Wrapper.assertsVma, Wrapper.sStateNext,
    h1, h2]

theorem vma_phi1 (h1 : i.phi1 = true) (h2 : i.phi2 = false) :
    (w.step i).vma = (w.vma && !(w.eCntr == 0 && w.enE)) ∧ (w.step i).eCntr = w.eCntr ∧
      (w.step i).enE = (if i.eDiv then !w.enE else true) ∧ (w.step i).vpai = i.vpa := by
  refine ⟨?_, ?_, ?_, ?_⟩
  · simp only [Wrapper.step, Wrapper.vmaNext, Wrapper.assertsVma, h1, h2]
    cases w.eCntr == 0 <;> cases w.enE <;> cases w.vma <;> rfl
  · simp [Wrapper.step, Wrapper.eCntrNext, h2]
  · simp [Wrapper.step, h1]
  · simp [Wrapper.step, h1]

theorem vma_phi2 (h1 : i.phi1 = false) :
    (w.step i).vma = (w.assertsVma i || w.vma) ∧ (w.step i).eCntr = w.eCntrNext i ∧
      (w.step i).enE = w.enE ∧ (w.step i).vpai = w.vpai := by
  refine ⟨?_, rfl, ?_, ?_⟩
  · simp only [Wrapper.step, Wrapper.vmaNext, h1]
    cases w.assertsVma i <;> simp
  · simp [Wrapper.step, h1]
  · simp [Wrapper.step, h1]

/-- A cycle that meets neither DTACK nor BERR leaves its wait state at the stop. -/
theorem leaves_of_quiet (h1 : i.phi1 = false) (h2 : i.phi2 = true) (h4 : w.sState = 4)
    (hidle : w.kernel.idle = false) (hd : i.dtack = false) (hb : i.berr = false) :
    w.leaves i = w.xVma := by
  simp [Wrapper.leaves, h1, h2, h4, hidle, hd, hb]

/-- What VMA asserted says of the E counter: the counts of its cycle's wait, the count after the
stop, the count in which it is withdrawn. -/
inductive Stage (turbo : Bool) (p : BitVec 2) (w : Wrapper) (own : Prop) : Prop
  | waits (hw : (w.sState = 3 ∧ w.eCntr = 4) ∨
      (w.sState = 4 ∧ (w.eCntr = 4 ∨ w.eCntr = 5 ∨ w.eCntr = 6 ∨ w.eCntr = 7 ∨ w.eCntr = 8)))
      (ho : own)
  | stopped (hc : w.eCntr = 9)
      (hs : (w.sState = 5 ∧ w.enE = true) ∨ (w.sState = 6 ∧ w.enE = !turbo) ∨
        (w.sState = 7 ∧ turbo = true ∧ w.enE = false) ∨
        (w.sState = 0 ∧ turbo = true ∧ w.enE = true ∧ beforePhi2 turbo p = true))
  | withdrawn (hc : w.eCntr = 0) (he : w.enE = true) (hp : beforePhi2 turbo p = false)

variable {turbo : Bool} {p : BitVec 2} {own own' : Prop}

theorem Stage.step_none (h : Stage turbo p w own) (ho : own → own') (h1 : i.phi1 = false)
    (h2 : i.phi2 = false) (hp : beforePhi2 turbo (p + 1) = beforePhi2 turbo p) :
    Stage turbo (p + 1) (w.step i) own' := by
  obtain ⟨-, hc, he, -, hs⟩ := vma_none (w := w) h1 h2
  cases h with
  | waits hw h => exact .waits (by rw [hs, hc]; exact hw) (ho h)
  | stopped h9 h => exact .stopped (by rw [hc]; exact h9) (by rw [hs, he, hp]; exact h)
  | withdrawn h0 hen h =>
    exact .withdrawn (by rw [hc]; exact h0) (by rw [he]; exact hen) (by rw [hp]; exact h)

/-- An edge of `phi1` withdraws VMA in count 0. -/
theorem Stage.step_phi1 (h : Stage turbo p w own) (ho : w.clkena i = false → own → own')
    (hsh : Shape turbo p w) (h1 : i.phi1 = true) (h2 : i.phi2 = false) (hd : i.eDiv = turbo)
    (hp : beforePhi2 turbo p = false) (hp'' : beforePhi2 turbo (p + 1) = true)
    (hv : (w.step i).vma = true) :
    Stage turbo (p + 1) (w.step i) own' := by
  obtain ⟨hvma, hc, he, -⟩ := vma_phi1 (w := w) h1 h2
  rw [hvma, Bool.and_eq_true] at hv
  cases h with
  | waits hw h =>
    have hs : w.sState = 3 ∨ w.sState = 4 := hw.imp (·.1) (·.1)
    have hidle : w.kernel.idle = false := by
      by_contra hi
      have := hsh.idle (by simpa using hi)
      rw [this] at hs
      revert hs
      decide
    have hk : w.clkena i = false := by
      unfold Wrapper.clkena
      rcases hs with hs | hs <;> rw [hs, hidle] <;> simp
    have hs' := sState_phi1 (w := w) h1 hidle
    refine .waits (.inr ?_) (ho hk h)
    rw [hs', hc]
    rcases hw with ⟨h3, h4⟩ | ⟨h4, hw⟩
    · rw [h3, h4]
      exact ⟨by decide, .inl rfl⟩
    · rw [h4]
      exact ⟨rfl, hw⟩
  | stopped h9 h =>
    have hidle : w.kernel.idle = false := by
      by_contra hi
      have h0 := hsh.idle (by simpa using hi)
      rw [h0, hp] at h
      simp at h
    have hodd := hsh.odd hp hidle
    refine .stopped (by rw [hc]; exact h9) ?_
    rw [sState_phi1 h1 hidle, he, hd]
    rcases h with ⟨h, he⟩ | ⟨h, he⟩ | ⟨h, ht, he⟩ | ⟨h, ht, he, hp'⟩
    · rw [h, he]
      cases turbo <;> simp
    · rw [h] at hodd
      exact absurd hodd (by decide)
    · subst ht
      rw [h, he, hp'']
      decide
    · rw [hp] at hp'
      cases hp'
  | withdrawn h0 hen _ =>
    rw [h0, hen] at hv
    exact absurd hv.2 (by decide)

/-- At an edge of `phi2` VMA moves on with the E counter, unless the cycle is left. -/
theorem Stage.step_phi2 (h : Stage turbo p w own) (ho : own → own') (hsh : Shape turbo p w)
    (h1 : i.phi1 = false) (h2 : i.phi2 = true) (hp : beforePhi2 turbo p = true)
    (hp' : beforePhi2 turbo (p + 1) = false) (hv : w.vma = true)
    (hns : w.strands i = false) : Stage turbo (p + 1) (w.step i) own' := by
  obtain ⟨-, hc, he, -⟩ := vma_phi2 (w := w) (i := i) h1
  have hcn : w.eCntrNext i = if w.enE then if w.eCntr = 9 then 0 else w.eCntr + 1 else w.eCntr := by
    simp [Wrapper.eCntrNext, h2]
  rw [hcn] at hc
  cases h with
  | waits hw h =>
    have heven := hsh.even hp
    have h4 : w.sState = 4 := by
      rcases hw with ⟨h3, -⟩ | ⟨h4, -⟩
      · rw [h3] at heven
        exact absurd heven (by decide)
      · exact h4
    have hidle : w.kernel.idle = false := by
      by_contra hi
      have := hsh.idle (by simpa using hi)
      rw [this] at h4
      cases h4
    have hs' := sState_phi2 (w := w) h1 h2 hidle
    have hcount := (hw.resolve_left fun h => by rw [h4] at h; exact absurd h.1 (by decide)).2
    cases hx : w.xVma
    case true =>
      -- the stop: the count goes to 9 and the cycle to state 5
      have hx' := hx
      unfold Wrapper.xVma at hx'
      simp only [Bool.and_eq_true, beq_iff_eq] at hx'
      refine .stopped (by rw [hc, hx'.2, hx'.1.2]; rfl) (.inl ⟨?_, by rw [he]; exact hx'.2⟩)
      rw [hs', h4, if_neg]
      · rfl
      · simp [Wrapper.leaves, h1, h2, h4, hidle, hx]
    case false =>
      have hstay : w.leaves i = false := by
        simp only [Wrapper.strands, h2, h4, hx, hv, Bool.true_and, Bool.true_or, Bool.not_false,
          Bool.and_true, beq_self_eq_true] at hns
        simp only [Wrapper.leaves, hx, Bool.or_false]
        have : (i.dtack || i.berr) = false := by
          revert hns
          cases (i.dtack || i.berr) <;> simp
        rw [this, Bool.and_false]
      refine .waits (.inr ⟨by rw [hs', if_pos ⟨h4, hstay⟩], ?_⟩) (ho h)
      rw [hc]
      unfold Wrapper.xVma at hx
      rw [hv, Bool.true_and] at hx
      cases hen : w.enE
      case false => simpa using hcount
      case true =>
        rw [hen, Bool.and_true, beq_eq_false_iff_ne] at hx
        rcases hcount with h | h | h | h | h
        · rw [h]; decide
        · rw [h]; decide
        · rw [h]; decide
        · rw [h]; decide
        · exact absurd h hx
  | stopped h9 h =>
    have heven := hsh.even hp
    cases hen : w.enE
    case true => exact .withdrawn (by rw [hc, hen, h9]; rfl) (by rw [he]; exact hen) hp'
    case false =>
      refine .stopped (by rw [hc, hen]; exact h9) ?_
      have hturbo : turbo = true := by
        by_contra ht
        have := hsh.enE (by simpa using ht)
        rw [hen] at this
        cases this
      have h6 : w.sState = 6 := by
        rcases h with ⟨h, -⟩ | ⟨h, -⟩ | ⟨h, -⟩ | ⟨-, -, h, -⟩
        · rw [h] at heven
          exact absurd heven (by decide)
        · exact h
        · rw [h] at heven
          exact absurd heven (by decide)
        · rw [hen] at h
          cases h
      have hidle : w.kernel.idle = false := by
        by_contra hi
        have := hsh.idle (by simpa using hi)
        rw [this] at h6
        cases h6
      refine .inr (.inr (.inl ⟨?_, hturbo, by rw [he]; exact hen⟩))
      rw [sState_phi2 h1 h2 hidle, h6]
      rfl
  | withdrawn _ _ h =>
    rw [hp] at h
    cases h

/-- Where VMA is asserted its cycle is in, or about to enter, the wait state. -/
theorem stage_of_asserts (hsh : Shape turbo p w) (h1 : i.phi1 = false)
    (hp : beforePhi2 turbo p = true) (ha : w.assertsVma i = true) (hns : w.strands i = false)
    (ho : own') : Stage turbo (p + 1) (w.step i) own' := by
  obtain ⟨-, hc, -⟩ := vma_phi2 (w := w) (i := i) h1
  have ha' := ha
  simp only [Wrapper.assertsVma, Bool.and_eq_true, beq_iff_eq, bne_iff_ne, ne_eq] at ha'
  obtain ⟨⟨⟨⟨h2, h0⟩, -⟩, h3⟩, hen⟩ := ha'
  have hc' : (w.step i).eCntr = 4 := by
    rw [hc]
    simp only [Wrapper.eCntrNext, h2, hen, h3]
    rfl
  have hidle : w.kernel.idle = false := by
    by_contra hi
    exact h0 (hsh.idle (by simpa using hi))
  have hs' := sState_phi2 (w := w) h1 h2 hidle
  have hx : w.xVma = false := by
    simp only [Wrapper.xVma, h3]
    cases w.vma <;> rfl
  simp only [Wrapper.strands, h2, ha, hx, Bool.or_true, Bool.not_false, Bool.and_true,
    Bool.true_and, Bool.or_eq_false_iff, beq_eq_false_iff_ne] at hns
  rcases hsh.even hp with h | h | h | h
  · exact absurd h h0
  · exact .waits (.inl ⟨by rw [hs', h]; rfl, hc'⟩) ho
  · refine .waits (.inr ⟨?_, .inl hc'⟩) ho
    have hstay : w.leaves i = false := by
      have := hns.1
      rw [h] at this
      simp only [Wrapper.leaves, hx, Bool.or_false]
      have : (i.dtack || i.berr) = false := by simpa using this
      rw [this, Bool.and_false]
    rw [hs', if_pos ⟨h, hstay⟩]
  · exact absurd h hns.2

end Edges

/-! ### The invariant along a run -/

section Run

variable {turbo : Bool} {s : Machine} {u : ℕ → In} {t : ℕ}

/-- What holds of VMA and its request at clock `t` of a run without stranded VMA. -/
structure VmaInv (turbo : Bool) (s : Machine) (u : ℕ → In) (t : ℕ) : Prop where
  sample : beforePhi2 turbo (after turbo s u t).slots.busPhase = true →
    (after turbo s u t).cpu.vpai = true → (after turbo s u t).cpu.sState ≠ 0 →
    ∃ p, SampledLow turbo s u p t ∧ SameCycle turbo s u p t
  stage : (after turbo s u t).cpu.vma = true →
    Stage turbo (after turbo s u t).slots.busPhase (after turbo s u t).cpu (Own turbo s u t)

theorem Own.succ (h : Own turbo s u t) (hk : clkenaAt turbo s u t = false)
    (hv : (after turbo s u (t + 1)).cpu.vma = true) : Own turbo s u (t + 1) := by
  obtain ⟨p, q, hp, hq, hqt, hvma, hsame⟩ := h
  refine ⟨p, q, hp, hq, by omega, fun k h1 h2 => ?_, hsame.succ hk⟩
  by_cases ht : k = t + 1
  · rw [ht]
    exact hv
  · exact hvma k h1 (by omega)

theorem SampledLow.succ {p : ℕ} (h : SampledLow turbo s u p t)
    (ht : phi1At turbo s u t = false) : SampledLow turbo s u p (t + 1) := by
  refine ⟨by have := h.before; omega, h.edge, h.low, fun k h1 h2 => ?_⟩
  by_cases hk : k = t
  · rw [hk]
    exact ht
  · exact h.last k h1 (by omega)

theorem VmaInv.zero (h : Reset s) : VmaInv turbo s u 0 where
  sample _ _ hs := absurd h.sState hs
  stage hv := absurd hv (by rw [after, run_zero, h.vma]; decide)

theorem VmaInv.succ (h0 : Reset s) (h : VmaInv turbo s u t) (hns : strandsAt turbo s u t = false) :
    VmaInv turbo s u (t + 1) := by
  have hsh := shape_run turbo h0 u t
  have hp1 : (after turbo s u (t + 1)).slots.busPhase = (after turbo s u t).slots.busPhase + 1 :=
    rfl
  have hw : (after turbo s u (t + 1)).cpu =
      (after turbo s u t).cpu.step ((after turbo s u t).wires turbo (u t)) := rfl
  unfold strandsAt at hns
  cases edge turbo (after turbo s u t).slots.busPhase with
  | none h1 h2 hp =>
    have hk : clkenaAt turbo s u t = false := clkenaAt_of_not_phi1 h1
    obtain ⟨hv, -, -, hvpai, hs⟩ :=
      vma_none (w := (after turbo s u t).cpu) (i := (after turbo s u t).wires turbo (u t)) h1 h2
    constructor
    · rw [hp1, hp, hw, hvpai, hs]
      intro hb hl hne
      obtain ⟨p, hlow, hsame⟩ := h.sample hb hl hne
      exact ⟨p, hlow.succ h1, hsame.succ hk⟩
    · intro hv'
      have hv'' := hv'
      rw [hw, hv] at hv''
      exact (h.stage hv'').step_none (fun ho => ho.succ hk hv') h1 h2 hp
  | phi1 h1 h2 hp hp' =>
    obtain ⟨hv, -, -, hvpai⟩ :=
      vma_phi1 (w := (after turbo s u t).cpu) (i := (after turbo s u t).wires turbo (u t)) h1 h2
    constructor
    · rw [hw, hvpai]
      intro _ hl hne
      -- the sample just taken: the kernel was not enabled, or the state would be 0
      refine ⟨t, ⟨by omega, h1, hl, fun k h1 h2 => by omega⟩, SameCycle.refl.succ ?_⟩
      by_contra hk
      exact hne (sState_of_clkena (by simpa using hk))
    · intro hv'
      have hv'' := hv'
      rw [hw, hv, Bool.and_eq_true] at hv''
      exact (h.stage hv''.1).step_phi1 (fun hk ho => ho.succ hk hv') hsh h1 h2 rfl hp hp' hv'
  | phi2 h1 h2 hp hp' =>
    have hk : clkenaAt turbo s u t = false := clkenaAt_of_not_phi1 h1
    obtain ⟨hv, -⟩ :=
      vma_phi2 (w := (after turbo s u t).cpu) (i := (after turbo s u t).wires turbo (u t)) h1
    constructor
    · intro hb
      rw [hp1, hp'] at hb
      cases hb
    · intro hv'
      cases ha : assertsAt turbo s u t
      case true =>
        apply stage_of_asserts hsh h1 hp ha hns
        have ha' := ha
        simp only [assertsAt, Wrapper.assertsVma, Bool.and_eq_true, bne_iff_ne, ne_eq] at ha'
        obtain ⟨p, hlow, hsame⟩ := h.sample hp ha'.1.1.2 ha'.1.1.1.2
        exact ⟨p, t, hlow, ha, by omega, fun k hk1 hk2 => by
          rw [show k = t + 1 by omega]; exact hv', hsame.succ hk⟩
      case false =>
        have hv'' := hv'
        unfold assertsAt at ha
        rw [hw, hv, ha, Bool.false_or] at hv''
        exact (h.stage hv'').step_phi2 (fun ho => ho.succ hk hv') hsh h1 h2 hp hp' hv'' hns

theorem vmaInv_run (h0 : Reset s) (hns : ∀ k < t, strandsAt turbo s u k = false) :
    VmaInv turbo s u t := by
  induction t with
  | zero => exact VmaInv.zero h0
  | succ t ih => exact (ih fun k hk => hns k (by omega)).succ h0 (hns t (by omega))

/-- A release by `xVma` is one of the cycle's own VMA. -/
theorem own_of_leavesByVma (h0 : Reset s) (hns : ∀ k < t, strandsAt turbo s u k = false)
    (hl : leavesByVma turbo s u t = true) : Own turbo s u t := by
  obtain ⟨hl, hx⟩ := (Bool.and_eq_true _ _).mp hl
  simp only [Wrapper.leaves, Bool.and_eq_true, beq_iff_eq] at hl
  simp only [Wrapper.xVma, Bool.and_eq_true, beq_iff_eq] at hx
  cases (vmaInv_run h0 hns).stage hx.1.1 with
  | waits _ ho => exact ho
  | stopped h9 _ =>
    rw [hx.1.2] at h9
    cases h9
  | withdrawn h0 _ _ =>
    rw [hx.1.2] at h0
    cases h0

/-! ### The register strobes of an access -/

inductive Via
  | via1
  | via2
  deriving DecidableEq

def Selects.selects (l : Selects) : Via → Bool
  | .via1 => l.via
  | .via2 => l.via2

/-- `ren` or `wen` of the VIA meets its `falling` enable in clock `t`. -/
def strobeAt (turbo : Bool) (s : Machine) (u : ℕ → In) (v : Via) (t : ℕ) : Bool :=
  (after turbo s u t).cpu.eFalling ((after turbo s u t).wires turbo (u t)) &&
    ((after turbo s u t).sel (u t)).selects v && (after turbo s u t).cpu.vma

/-- The register strobes of the VIA from clock `a` to before clock `t`. -/
def strobes (turbo : Bool) (s : Machine) (u : ℕ → In) (v : Via) (a t : ℕ) : ℕ :=
  ((Finset.Ico a t).filter fun k => strobeAt turbo s u v k = true).card

/-- A bus cycle that selects the VIA as long as AS is asserted. -/
structure Access (turbo : Bool) (s : Machine) (u : ℕ → In) (v : Via) (a b : ℕ) : Prop where
  cycle : Cycle turbo s u a b
  selected : ∀ k, a ≤ k → k ≤ b → (after turbo s u k).cpu.asR = true →
    ((after turbo s u k).sel (u k)).selects v = true

variable {v : Via} {a b : ℕ}

@[simp] theorem strobes_self : strobes turbo s u v a a = 0 := by simp [strobes]

theorem strobes_succ (h : a ≤ t) :
    strobes turbo s u v a (t + 1) =
      strobes turbo s u v a t + if strobeAt turbo s u v t = true then 1 else 0 := by
  unfold strobes
  rw [← Finset.insert_Ico_right_eq_Ico_add_one h, Finset.filter_insert]
  split_ifs
  · rw [Finset.card_insert_of_notMem (by simp)]
  · rfl

theorem viaAccess_of_selects {l : Selects} (h : l.selects v = true) : l.viaAccess = true := by
  cases v with
  | via1 => simp [Selects.viaAccess, show l.via = true from h]
  | via2 => simp [Selects.viaAccess, show l.via2 = true from h]

/-- A cycle on a VIA is not ended by DTACK. -/
theorem dtack_of_via (turbo : Bool) {m : Machine} {i : In} (h : (m.sel i).viaAccess = true) :
    m.dtack turbo i = false ∧ m.anySelect i = true := by
  have has : m.cpu.asR = true := by
    by_contra has
    simp [Machine.sel, has, Selects.none, Selects.viaAccess] at h
  have hsel : m.sel i = decode i.config (m.cpuAddr i) := by rw [Machine.sel, if_pos has]
  have hex := (decode_exclusive i.config (m.cpuAddr i)).via
  have hhigh := (decode_high i.config (m.cpuAddr i)).via
  rw [← hsel] at hex hhigh
  obtain ⟨-, hnubus, hdma⟩ := hex h
  have hfpu : m.selectFPU i = false := by
    have h14 := hhigh h
    by_contra hf
    simp only [Machine.selectFPU, Bool.not_eq_false, Bool.and_eq_true, beq_iff_eq] at hf
    have h2 := hf.1.2
    unfold field at h14 h2
    omega
  constructor
  · simp [Machine.dtack, hfpu, hnubus, hdma, h]
  · unfold Selects.viaAccess at h
    simp only [Machine.anySelect]
    cases hv1 : (m.sel i).via
    · rw [hv1, Bool.false_or] at h
      simp [h]
    · simp

/-- The strobes a cycle on a VIA has met, read off its state and the E count. -/
def passed (w : Wrapper) : ℕ :=
  if w.sState < 4 then 0
  else if w.sState = 4 then if w.vma = true ∧ 6 ≤ w.eCntr then 1 else 0
  else 1

theorem passed_of_lt {w : Wrapper} (h : w.sState < 4) : passed w = 0 := if_pos h

theorem passed_of_gt {w : Wrapper} (h : 4 < w.sState) : passed w = 1 := by
  rw [passed, if_neg (by bv_omega), if_neg (by bv_omega)]

theorem passed_of_eq {w : Wrapper} (h : w.sState = 4) :
    passed w = if w.vma = true ∧ 6 ≤ w.eCntr then 1 else 0 := by
  rw [passed, if_neg (by rw [h]; decide), if_pos h]

/-- The count of the strobes goes on in the wait state of a cycle on a VIA. -/
theorem passed_wait {w : Wrapper} {i : Wires} {p : BitVec 2} {own st : Prop} [Decidable st]
    (h1 : i.phi1 = false) (h2 : i.phi2 = true) (h4 : w.sState = 4)
    (hidle : w.kernel.idle = false) (hd : i.dtack = false) (hb : i.berr = false)
    (hp : beforePhi2 turbo p = true) (hstage : w.vma = true → Stage turbo p w own)
    (hst : st ↔ w.sState = 4 ∧ w.vma = true ∧ w.eCntr = 5 ∧ w.enE = true) :
    passed w + (if st then 1 else 0) = passed (w.step i) := by
  obtain ⟨hv, hc, -⟩ := vma_phi2 (w := w) (i := i) h1
  have hleaves := leaves_of_quiet h1 h2 h4 hidle hd hb
  have hs := sState_phi2 (w := w) h1 h2 hidle
  rw [hleaves] at hs
  have hcn : w.eCntrNext i =
      if w.enE then if w.eCntr = 9 then 0 else w.eCntr + 1 else w.eCntr := by
    simp [Wrapper.eCntrNext, h2]
  rw [hcn] at hc
  cases hvma : w.vma
  case false =>
    have hx : w.xVma = false := by simp [Wrapper.xVma, hvma]
    rw [if_pos ⟨h4, hx⟩] at hs
    rw [passed_of_eq h4, passed_of_eq hs, hvma, if_neg (by simp),
      if_neg (by rw [hst, hvma]; simp), if_neg]
    rintro ⟨hv', h6⟩
    rw [hv, hvma, Bool.or_false] at hv'
    simp only [Wrapper.assertsVma, Bool.and_eq_true, beq_iff_eq] at hv'
    rw [hc, hv'.2, hv'.1.2] at h6
    exact absurd h6 (by decide)
  case true =>
    rw [hvma, Bool.or_true] at hv
    have hcount : w.eCntr = 4 ∨ w.eCntr = 5 ∨ w.eCntr = 6 ∨ w.eCntr = 7 ∨ w.eCntr = 8 := by
      cases hstage hvma with
      | waits hw _ =>
        rcases hw with ⟨h3, -⟩ | ⟨-, hw⟩
        · rw [h4] at h3
          cases h3
        · exact hw
      | stopped _ h =>
        rw [h4] at h
        simp at h
      | withdrawn _ _ h =>
        rw [hp] at h
        cases h
    have hx : w.xVma = (w.eCntr == 8 && w.enE) := by simp [Wrapper.xVma, hvma]
    rw [passed_of_eq h4, hvma]
    cases hen : w.enE
    case false =>
      rw [hx, hen, Bool.and_false] at hs
      rw [hen] at hc
      rw [passed_of_eq (by rw [hs]; simp [h4]), hv, hc, if_neg (c := st) (by rw [hst, hen]; simp)]
      rfl
    case true =>
      rw [hx, hen, h4] at hs
      rw [hen] at hc
      rw [passed]
      rw [hs, hv, hc]
      simp only [hst, h4, hvma, hen, and_true, true_and]
      rcases hcount with h | h | h | h | h <;> rw [h] <;> decide

/-- What holds within an access of a VIA. -/
structure AccessInv (turbo : Bool) (s : Machine) (u : ℕ → In) (v : Via) (a t : ℕ) : Prop where
  count : strobes turbo s u v a t = passed (after turbo s u t).cpu
  berr : (after turbo s u t).cpu.asR = true → (after turbo s u t).berrOut = false

theorem berrOut_step {m : Machine} {i : In} (hb : m.cpu.asR = true → m.berrOut = false)
    (hs : m.cpu.asR = true → m.anySelect i = true) : (m.step turbo i).berrOut = false := by
  change m.berrOutNext i = false
  unfold Machine.berrOutNext
  cases has : m.cpu.asR
  · rfl
  · simp [Machine.berrExpires, hs has, hb has]

/-- A strobe falls into the wait state, on count 5 of the VMA. -/
theorem strobe_iff (hinv : VmaInv turbo s u t)
    (hsel : (after turbo s u t).cpu.asR = true →
      ((after turbo s u t).sel (u t)).selects v = true)
    (hsh : Shape turbo (after turbo s u t).slots.busPhase (after turbo s u t).cpu)
    (hp : beforePhi2 turbo (after turbo s u t).slots.busPhase = true)
    (h2 : cpuEnN turbo (after turbo s u t).slots.busPhase = true) :
    strobeAt turbo s u v t = true ↔ (after turbo s u t).cpu.sState = 4 ∧
      (after turbo s u t).cpu.vma = true ∧ (after turbo s u t).cpu.eCntr = 5 ∧
      (after turbo s u t).cpu.enE = true := by
  have heven := hsh.even hp
  have has := hsh.as
  have hstage := hinv.stage
  unfold strobeAt Wrapper.eFalling
  have hw : ((after turbo s u t).wires turbo (u t)).phi2 = true := h2
  rw [hw, Bool.true_and]
  generalize after turbo s u t = m at *
  constructor
  · intro h
    simp only [Bool.and_eq_true, beq_iff_eq] at h
    refine ⟨?_, h.2, h.1.1.1, h.1.1.2⟩
    cases hstage h.2 with
    | waits hw _ =>
      rcases hw with ⟨-, h4⟩ | ⟨h4, -⟩
      · rw [h.1.1.1] at h4
        cases h4
      · exact h4
    | stopped h9 _ =>
      rw [h.1.1.1] at h9
      cases h9
    | withdrawn h0 _ _ =>
      rw [h.1.1.1] at h0
      cases h0
  · rintro ⟨h4, hv, h5, he⟩
    rw [h4] at has
    simp [h5, he, hv, hsel has]

theorem AccessInv.succ (h0 : Reset s) (h : AccessInv turbo s u v a t) (hinv : VmaInv turbo s u t)
    (hat : a ≤ t) (hbusy : (after turbo s u t).cpu.kernel.idle = false)
    (hsel : (after turbo s u t).cpu.asR = true →
      ((after turbo s u t).sel (u t)).selects v = true)
    (hk : clkenaAt turbo s u t = false) : AccessInv turbo s u v a (t + 1) := by
  have hsh := shape_run turbo h0 u t
  have hw : (after turbo s u (t + 1)).cpu =
      (after turbo s u t).cpu.step ((after turbo s u t).wires turbo (u t)) := rfl
  refine ⟨?_, fun _ => berrOut_step h.berr fun has =>
    (dtack_of_via turbo (viaAccess_of_selects (hsel has))).2⟩
  rw [strobes_succ hat, h.count, hw]
  cases edge turbo (after turbo s u t).slots.busPhase with
  | none h1 h2 hp =>
    have hno : strobeAt turbo s u v t = false := by
      simp [strobeAt, Wrapper.eFalling, Machine.wires, h2]
    obtain ⟨hv, hc, -, -, hs⟩ :=
      vma_none (w := (after turbo s u t).cpu) (i := (after turbo s u t).wires turbo (u t)) h1 h2
    simp [hno, passed, hv, hc, hs]
  | phi1 h1 h2 hp hp' =>
    have hno : strobeAt turbo s u v t = false := by
      simp [strobeAt, Wrapper.eFalling, Machine.wires, h2]
    obtain ⟨hv, hc, -⟩ :=
      vma_phi1 (w := (after turbo s u t).cpu) (i := (after turbo s u t).wires turbo (u t)) h1 h2
    have hs := sState_phi1 (w := (after turbo s u t).cpu)
      (i := (after turbo s u t).wires turbo (u t)) h1 hbusy
    have hodd := hsh.odd hp hbusy
    have hstage := hinv.stage
    unfold clkenaAt Wrapper.clkena at hk
    have h1' : ((after turbo s u t).wires turbo (u t)).phi1 = true := h1
    rw [h1', hbusy, Bool.true_and, Bool.or_false, beq_eq_false_iff_ne] at hk
    rw [hno, if_neg (by decide), Nat.add_zero]
    generalize after turbo s u t = m at *
    rcases hodd with h | h | h | h | h
    · rw [passed_of_lt (by rw [h]; decide), passed_of_lt (by rw [hs, h]; decide)]
    · -- entering the wait state: VMA can only be on its first count
      rw [passed_of_lt (by rw [h]; decide), passed_of_eq (by rw [hs, h]; rfl), if_neg]
      rintro ⟨hv', h6⟩
      rw [hv, Bool.and_eq_true] at hv'
      rw [hc] at h6
      cases hstage hv'.1 with
      | waits hw _ =>
        rcases hw with ⟨-, h4⟩ | ⟨h4, -⟩
        · rw [h4] at h6
          exact absurd h6 (by decide)
        · rw [h] at h4
          cases h4
      | stopped _ hst =>
        rw [h] at hst
        simp at hst
      | withdrawn hz _ _ =>
        rw [hz] at h6
        exact absurd h6 (by decide)
    · rw [passed_of_eq h, passed_of_eq (by rw [hs, h]; rfl), hv, hc]
      congr 1
      rw [eq_iff_iff]
      constructor
      · rintro ⟨hv', h6⟩
        refine ⟨?_, h6⟩
        have hne : (m.cpu.eCntr == 0) = false := by
          rw [beq_eq_false_iff_ne]
          intro hz
          rw [hz] at h6
          exact absurd h6 (by decide)
        rw [hv', hne]
        rfl
      · rintro ⟨hv', h6⟩
        rw [Bool.and_eq_true] at hv'
        exact ⟨hv'.1, h6⟩
    · rw [passed_of_gt (by rw [h]; decide), passed_of_gt (by rw [hs, h]; decide)]
    · exact absurd h hk
  | phi2 h1 h2 hp hp' =>
    have hiff := strobe_iff hinv hsel hsh hp h2
    obtain ⟨hv, hc, -⟩ :=
      vma_phi2 (w := (after turbo s u t).cpu) (i := (after turbo s u t).wires turbo (u t)) h1
    have hs := sState_phi2_of_ne (w := (after turbo s u t).cpu)
      (i := (after turbo s u t).wires turbo (u t)) h1 h2 hbusy
    have hother : (after turbo s u t).cpu.sState ≠ 4 → strobeAt turbo s u v t = false := by
      intro hne
      by_contra hst
      exact hne (hiff.mp (by simpa using hst)).1
    rcases hsh.even hp with h4 | h4 | h4 | h4
    · rw [hother (by rw [h4]; decide), passed_of_lt (by rw [h4]; decide),
        passed_of_lt (by rw [hs (by rw [h4]; decide), h4]; decide), if_neg (by decide)]
    · rw [hother (by rw [h4]; decide), passed_of_lt (by rw [h4]; decide),
        passed_of_lt (by rw [hs (by rw [h4]; decide), h4]; decide), if_neg (by decide)]
    · -- the wait state of a VIA is left by its own VMA only
      have has : (after turbo s u t).cpu.asR = true := by
        rw [hsh.as, h4]
        decide
      have hdtack := (dtack_of_via turbo (viaAccess_of_selects (hsel has))).1
      exact passed_wait h1 h2 h4 hbusy hdtack (h.berr has) hp hinv.stage hiff
    · rw [hother (by rw [h4]; decide), passed_of_gt (by rw [h4]; decide),
        passed_of_gt (by rw [hs (by rw [h4]; decide), h4]; decide), if_neg (by decide)]

theorem accessInv_run (h0 : Reset s) (ha : Access turbo s u v a b)
    (hns : ∀ k < b, strandsAt turbo s u k = false) (hat : a ≤ t) (htb : t ≤ b) :
    AccessInv turbo s u v a t := by
  induction t, hat using Nat.le_induction with
  | base =>
    have hs := ha.cycle.sState_start h0
    have has := (shape_run turbo h0 u a).as
    rw [hs] at has
    refine ⟨?_, fun h => ?_⟩
    · rw [strobes_self, passed_of_lt (by rw [hs]; decide)]
    · rw [has] at h
      exact absurd h (by decide)
  | succ t hat ih =>
    exact (ih (by omega)).succ h0 (vmaInv_run h0 fun k hk => hns k (by omega)) hat
      (ha.cycle.busy h0 hat (by omega)) (ha.selected t hat (by omega))
      (ha.cycle.same.2 t hat (by omega))

/-- An access of a VIA meets exactly one register strobe. -/
theorem strobes_access (h0 : Reset s) (ha : Access turbo s u v a b)
    (hns : ∀ k < b, strandsAt turbo s u k = false) : strobes turbo s u v a (b + 1) = 1 := by
  have hab := ha.cycle.same.1
  have h7 := ha.cycle.last
  have hno : strobeAt turbo s u v b = false := by
    obtain ⟨h1, -⟩ := (Bool.and_eq_true _ _).mp ha.cycle.ends
    cases edge turbo (after turbo s u b).slots.busPhase with
    | none _ h2 _ => simp [strobeAt, Wrapper.eFalling, Machine.wires, h2]
    | phi1 _ h2 _ _ => simp [strobeAt, Wrapper.eFalling, Machine.wires, h2]
    | phi2 h1' _ _ _ =>
      change cpuEnP turbo _ = true at h1
      rw [h1'] at h1
      cases h1
  rw [strobes_succ hab, hno, (accessInv_run h0 ha hns hab le_rfl).count,
    passed_of_gt (by rw [h7]; decide), if_neg (by decide)]

/-- In every run from the reset in which no cycle strands its VMA: a wait state that ends with
`xVma` up is that of the cycle in which `_cpuVPA` was sampled low, and a bus cycle on a VIA meets
exactly one register strobe. -/
theorem vma_own {n : ℕ} (h0 : Reset s) (hns : ∀ k < n, strandsAt turbo s u k = false) :
    (∀ t ≤ n, leavesByVma turbo s u t = true → Own turbo s u t) ∧
      ∀ v a b, b ≤ n → Access turbo s u v a b → strobes turbo s u v a (b + 1) = 1 :=
  ⟨fun _ ht hl => own_of_leavesByVma h0 (fun k hk => hns k (by omega)) hl,
    fun _ _ _ hb ha => strobes_access h0 ha fun k hk => hns k (by omega)⟩

/-- No VMA has been asserted since the cycle began. -/
theorem not_own {c : ℕ} (hc : clkenaAt turbo s u c = true) (hct : c < t)
    (hno : ∀ q < t, c < q → assertsAt turbo s u q = false) : ¬ Own turbo s u t := by
  rintro ⟨p, q, hp, hq, hqt, -, hsame⟩
  have hcp : c < p := by
    by_contra hle
    have := hsame.2 c (by omega) hct
    rw [hc] at this
    cases this
  rw [hno q hqt (by have := hp.before; omega)] at hq
  cases hq

end Run

/-! ### Runs -/

/-- A machine with 4MB of RAM, the ROM overlay off. -/
def config : Config := ⟨2, 2, 0, false, false⟩

/-- Word reads and writes, in supervisor data space. -/
def readAt (addr : ℕ) : Kernel := ⟨addr, .read, true, true, 5, 0⟩
def writeAt (addr : ℕ) (d : Word) : Kernel := ⟨addr, .write, true, true, 5, d⟩

def quietIn : In where
  config := config
  kernelNext := readAt 0
  fpuDsack := false
  nubusAck := false
  scsiDREQ := false
  fixupMatch := false
  fixupData := 0
  fpuData := 0
  fpuDataHold := 0
  deviceData := 0
  videoAddr := 0
  hblank := false
  dskReadAddrInt := 0
  dskReadAddrExt := 0
  dioDownload := false
  dioWrite := false
  dioA := 0
  dioData := 0

/-- The state after the reset, at the start of a slot. -/
def resetState (busCycle : BitVec 2) : Machine where
  slots := ⟨0, busCycle, 0, false⟩
  cpu := ⟨⟨0, .idle, false, false, 5, 0⟩, 0, false, true, false, false, 0, 0, 0, false, false, true⟩
  sdram := ⟨0, false, false, 0, 0, 0, 0, 0, fun _ => 0⟩
  turboDtackEn := false
  cpuBusControlD := false
  slot0Mark := true
  sdramSlotCpuRd := false
  cpuSdramRdDone := false
  cpuRdWait := 0
  sdramSlotCpuWr := false
  cpuSdramWrDone := false
  cpuWrWait := 0
  cpuData := 0
  fpuDataHoldValid := false
  berrCounter := 0
  berrOut := false
  fixupTake := false

theorem reset_resetState (c : BitVec 2) : Reset (resetState c) := by
  constructor <;> rfl

/-- Reads of a VIA1 register, one after the other. -/
def viaReads : ℕ → In := fun _ => { quietIn with kernelNext := readAt 0x50F00000 }

theorem vma_own_viaReads :
    (∀ k < 38, strandsAt true (resetState 0) viaReads k = false) ∧
      leavesByVma true (resetState 0) viaReads 35 = true ∧
      Own true (resetState 0) viaReads 35 ∧
      Access true (resetState 0) viaReads .via1 1 38 ∧
      strobes true (resetState 0) viaReads .via1 1 39 = 1 := by
  have hns : ∀ k < 38, strandsAt true (resetState 0) viaReads k = false := by decide +kernel
  have hl : leavesByVma true (resetState 0) viaReads 35 = true := by decide +kernel
  have hsame : ∀ k < 38, 1 ≤ k → clkenaAt true (resetState 0) viaReads k = false := by
    decide +kernel
  have hsel : ∀ k < 39, (after true (resetState 0) viaReads k).cpu.asR = true →
      ((after true (resetState 0) viaReads k).sel (viaReads k)).selects .via1 = true := by
    decide +kernel
  have ha : Access true (resetState 0) viaReads .via1 1 38 :=
    ⟨⟨.inr ⟨0, rfl, by decide +kernel⟩, ⟨by omega, fun k h1 h2 => hsame k h2 h1⟩,
      by decide +kernel, by decide +kernel⟩, fun k _ h2 => hsel k (by omega)⟩
  have h := vma_own (reset_resetState 0) hns
  exact ⟨hns, hl, h.1 35 (by omega) hl, ha, h.2 .via1 1 38 le_rfl ha⟩

/-- A pseudo-DMA read whose DREQ comes while VMA is asserted, then a read of RAM. -/
def lateDreq (t : ℕ) : In :=
  { quietIn with
    kernelNext := if t < 26 then readAt 0x50F06000 else readAt 0x1000
    scsiDREQ := decide (23 ≤ t) }

/-- The read of RAM is released by the VMA of the pseudo-DMA read, before its word has come. -/
theorem foreign_vma :
    leavesByVma true (resetState 0) lateDreq 35 = true ∧
      ((after true (resetState 0) lateDreq 35).sel (lateDreq 35)).ram = true ∧
      (after true (resetState 0) lateDreq 35).cpuSdramRdDone = false ∧
      ¬ Own true (resetState 0) lateDreq 35 :=
  ⟨by decide +kernel, by decide +kernel, by decide +kernel,
    not_own (c := 26) (by decide +kernel) (by omega) (by decide +kernel)⟩

end Cpu
