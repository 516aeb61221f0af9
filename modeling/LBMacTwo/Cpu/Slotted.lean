import LBMacTwo.Cpu.MemoryCycle

/-!
# The memory cycles and their slots

* `tails`: the ends of slots up to and including that of the first slot a waiting cycle owns,
  `stopIn`: the clocks up to the VMA stop;
* `Slotted`: the handshake of the running cycle with the slots, and what the SDRAM controller has
  latched for it, kept by every clock;
* `slotted_run`: it holds along the runs of `MemoryCycle`.
-/

namespace Cpu
open Memory Clocked

/-- The slot in progress started with the running cycle's command. -/
def Machine.owned (m : Machine) : Bool :=
  if m.cpu.kernel.rw then m.sdramSlotCpuRd else m.sdramSlotCpuWr

/-- An owned slot has completed for the running cycle. -/
def Machine.done (m : Machine) : Bool :=
  if m.cpu.kernel.rw then m.cpuSdramRdDone else m.cpuSdramWrDone

/-- The slot ends to come until an owned slot has ended. -/
def tails (busPhase : BitVec 2) (cpuSlot owned : Bool) : ℕ :=
  if busPhase ≠ 0 ∧ owned = true then 1
  else if cpuSlot then if busPhase = 0 then 1 else 3
  else 2

/-- The clocks until the VMA stop, on the counts 4 to 8. -/
def stopIn (busPhase : BitVec 2) (eCntr : BitVec 4) (enE : Bool) : ℕ :=
  4 * (8 - eCntr.toNat) +
    if beforePhi2 true busPhase then if enE then 0 else 2 else if enE then 3 else 1

/-- A count on which VMA waits for its stop. -/
def waitCount (e : BitVec 4) : Bool := decide (4 ≤ e ∧ e ≤ 8)

/-- The handshake of a memory cycle. -/
structure Slotted (c : Config) (m : Machine) : Prop where
  /-- CPU slots and other slots alternate. -/
  prev : m.cpu.asR = true → m.slots.busPhase = 0 → m.cpuBusControlD = !m.slots.cpuBusControl
  /-- A cycle that has ended leaves its slot behind in the clocks after AS has risen. -/
  released : m.cpu.asR = false → m.slots.busPhase ≠ 0 →
    (m.sdramSlotCpuRd || m.sdramSlotCpuWr) = true →
    (m.slots.busPhase = 2 ∧ m.cpu.sState = 7) ∨ (m.slots.busPhase = 3 ∧ m.cpu.sState = 0)
  slot : m.cpu.asR = true → m.slots.busPhase ≠ 0 → m.owned = true →
    m.slots.cpuBusControl = true ∧ m.turboDtackEn = true ∧ 4 ≤ m.cpu.sState
  waiting : m.cpu.asR = true → m.done = false → m.cpu.sState ≤ 4
  dtackEn : m.cpu.asR = true → m.done = true → m.turboDtackEn = true
  near : m.cpu.asR = true → m.done = true → m.cpu.kernel.far c = false →
    m.slots.cpuBusControl = false ∧
      ((m.slots.busPhase = 0 ∧ m.cpu.sState = 4) ∨ (m.slots.busPhase = 1 ∧ m.cpu.sState = 4) ∨
        (m.slots.busPhase = 2 ∧ m.cpu.sState = 5) ∨ (m.slots.busPhase = 3 ∧ m.cpu.sState = 6))
  /-- A cycle answered by VPA leaves its wait state at the VMA stop. -/
  stopped : m.cpu.asR = true → m.cpu.kernel.far c = true → 5 ≤ m.cpu.sState → m.cpu.eCntr = 9
  sample : beforePhi2 true m.slots.busPhase = true → m.cpu.vpai = true → m.cpu.sState ≠ 0 →
    m.cpu.kernel.far c = true
  stage : m.cpu.vma = true →
    Stage true m.slots.busPhase m.cpu (m.cpu.kernel.far c = true)
  /-- The owned slot ends before the VMA stop. -/
  race : m.cpu.asR = true → m.done = false → m.cpu.vma = true → waitCount m.cpu.eCntr = true →
    4 * tails m.slots.busPhase m.slots.cpuBusControl m.owned <
      stopIn m.slots.busPhase m.cpu.eCntr m.cpu.enE + m.slots.busPhase.toNat
  /-- The owned slot ends before the write timeout. -/
  count : m.cpu.asR = true → m.done = false → m.cpu.kernel.rw = false →
    m.cpuWrWait.toNat + tails m.slots.busPhase m.slots.cpuBusControl m.owned ≤ 3
  /-- What an owned slot has latched. -/
  latched : m.cpu.asR = true → m.slots.busPhase = 1 → m.owned = true →
    m.sdram.oeLatch = m.cpu.kernel.rw ∧ m.sdram.weLatch = !m.cpu.kernel.rw ∧
      m.sdram.addrLatch = m.cpu.kernel.word c ∧ m.sdram.row = rowOf (m.cpu.kernel.word c)
  tagged : m.cpu.asR = true → m.slots.busPhase = 2 → m.owned = true → m.cpu.kernel.rw = true →
    m.sdram.oeLatch = true ∧ m.sdram.addrLatch = m.cpu.kernel.word c
  matched : m.cpu.asR = true → m.slots.busPhase = 3 → m.owned = true → m.cpu.kernel.rw = true →
    m.sdram.doutAddr = m.cpu.kernel.word c

/-! ### The counts to come -/

theorem tails_step {p : BitVec 2} {c : BitVec 2} {owned owned' : Bool}
    (ho : owned' = if p = 0 then (c == 1 || c == 3) else owned) (h3 : p = 3 → owned = false) :
    4 * tails (p + 1) ((if p = 3 then c + 1 else c) == 1 || (if p = 3 then c + 1 else c) == 3)
        owned' + p.toNat + 1 = 4 * tails p (c == 1 || c == 3) owned + (p + 1).toNat := by
  subst ho
  revert h3
  revert p c owned
  decide

theorem stopIn_even {p : BitVec 2} {e : BitVec 4} {enE : Bool} (hp : beforePhi2 true p = false) :
    stopIn (p + 1) e (!enE) + 1 = stopIn p e enE := by
  unfold stopIn
  have hp' : beforePhi2 true (p + 1) = true := by
    revert hp
    revert p
    decide
  rw [hp, hp']
  cases enE <;> rfl

theorem stopIn_odd {p : BitVec 2} {e : BitVec 4} {enE : Bool} (hp : beforePhi2 true p = true)
    (he : waitCount e = true) (hstop : (e == 8 && enE) = false) :
    stopIn (p + 1) (if enE then e + 1 else e) enE + 1 = stopIn p e enE := by
  revert hp he hstop
  revert p e enE
  decide

/-- From the count after the assertion there is time for every owned slot. -/
theorem tails_lt_stopIn (p : BitVec 2) (cpuSlot owned : Bool) (hp : beforePhi2 true p = false) :
    4 * tails p cpuSlot owned < stopIn p 4 true + p.toNat := by
  revert hp
  revert p cpuSlot owned
  decide

/-! ### A clock of a running cycle -/

section Running

variable {c : Config} {m : Machine} {i : In}

theorem far_of_write {k : Kernel} (h : k.Memory c) (hw : k.rw = false) : k.far c = false := by
  have hram := (decode_high c (k.busAddr c)).ram (h.write hw)
  rw [Kernel.far, beq_eq_false_iff_ne]
  unfold field at hram ⊢
  omega

/-- The states AS is low in. -/
theorem states_of_as (h : Basic c m) (has : m.cpu.asR = true) :
    (beforePhi2 true m.slots.busPhase = true →
      m.cpu.sState = 2 ∨ m.cpu.sState = 4 ∨ m.cpu.sState = 6) ∧
    (beforePhi2 true m.slots.busPhase = false →
      m.cpu.sState = 3 ∨ m.cpu.sState = 4 ∨ m.cpu.sState = 5) := by
  have hs := h.shape.as
  rw [has] at hs
  constructor
  · intro hp
    rcases h.shape.even hp with h | h | h | h
    · rw [h] at hs
      exact absurd hs (by decide)
    · exact .inl h
    · exact .inr (.inl h)
    · exact .inr (.inr h)
  · intro hp
    rcases h.shape.odd hp (busy_of_as h has).1 with h | h | h | h | h
    · rw [h] at hs
      exact absurd hs (by decide)
    · exact .inl h
    · exact .inr (.inl h)
    · exact .inr (.inr h)
    · rw [h] at hs
      exact absurd hs (by decide)

theorem kernel_of_as (h : Basic c m) (has : m.cpu.asR = true) :
    (m.step true i).cpu.kernel = m.cpu.kernel := by
  have hk : m.cpu.clkena (m.wires true i) = false := by
    have hidle := (busy_of_as h has).1
    have h7 : (m.cpu.sState == 7) = false := by
      rw [beq_eq_false_iff_ne]
      intro h7
      have hs := h.shape.as
      rw [has, h7] at hs
      exact absurd hs (by decide)
    rw [Wrapper.clkena, h7, hidle]
    simp
  exact if_neg (by rw [hk]; decide)

/-- The slot in progress belongs to the cycle if it started with AS low. -/
theorem owned_of_as (h : Basic c m) (has : m.cpu.asR = true) (hi : i.config = c) :
    (m.step true i).owned =
      if m.slots.busPhase = 0 then m.slots.cpuBusControl else m.owned := by
  have hw := memoryWires h has hi
  have hrd : (m.step true i).sdramSlotCpuRd =
      if m.slot0Mark then m.slots.cpuBusControl && m.rdCycle i else m.sdramSlotCpuRd := rfl
  have hwr : (m.step true i).sdramSlotCpuWr =
      if m.slot0Mark then m.slots.cpuBusControl && m.wrCycle i else m.sdramSlotCpuWr := rfl
  rw [Machine.owned, kernel_of_as h has, hrd, hwr, h.mark, hw.rd, hw.wr, Machine.owned]
  by_cases hp : m.slots.busPhase = 0
  · rw [hp]
    cases m.cpu.kernel.rw <;> simp
  · have hp' : (m.slots.busPhase == 0) = false := beq_eq_false_iff_ne.mpr hp
    rw [hp', if_neg hp]
    rfl

/-- A clock before AS falls owns no slot. -/
theorem owned_of_fall (hs : Slotted c m) (hb : Basic c m) (has : m.cpu.asR = false)
    (h1 : m.cpu.sState = 1) (hp : cpuEnP true m.slots.busPhase = true) :
    (m.step true i).sdramSlotCpuRd = false ∧ (m.step true i).sdramSlotCpuWr = false := by
  have hrd : (m.step true i).sdramSlotCpuRd =
      if m.slot0Mark then m.slots.cpuBusControl && m.rdCycle i else m.sdramSlotCpuRd := rfl
  have hwr : (m.step true i).sdramSlotCpuWr =
      if m.slot0Mark then m.slots.cpuBusControl && m.wrCycle i else m.sdramSlotCpuWr := rfl
  rw [hrd, hwr, hb.mark]
  rcases phase_cases m.slots.busPhase with ⟨-, -, -, -, h0 | h2⟩ | ⟨hn, -⟩
  · simp [h0, Machine.rdCycle, Machine.wrCycle, has]
  · have hno : (m.sdramSlotCpuRd || m.sdramSlotCpuWr) = false := by
      by_contra ho
      rcases hs.released has (by rw [h2]; decide) (Bool.not_eq_false _ ▸ ho) with h | h
      · rw [h1] at h
        exact absurd h.2 (by decide)
      · rw [h1] at h
        exact absurd h.2 (by decide)
    rw [Bool.or_eq_false_iff] at hno
    rw [hno.1, hno.2, h2]
    exact ⟨rfl, rfl⟩
  · rw [hp] at hn
    cases hn

/-- A read's slot has returned the cycle's own word. -/
theorem take_of_owned (h : Basic c m) (hs : Slotted c m) (has : m.cpu.asR = true)
    (hi : i.config = c) (hp : m.slots.busPhase = 3) (ho : m.owned = true)
    (hrw : m.cpu.kernel.rw = true) : m.cpuRdAddrMatch i = true := by
  have hslot := (hs.slot has (by rw [hp]; decide) ho).1
  rw [Machine.cpuRdAddrMatch, cmd_of_as h has hi hslot, hs.matched has hp ho hrw]
  exact beq_self_eq_true _

theorem rdDoneNext_of_as (has : m.cpu.asR = true) :
    m.cpuSdramRdDoneNext i =
      (m.cpuSdramRdDone || (m.sdramSlotCpuRd && m.slots.busPhase == 3 && m.cpuRdTake i)) := by
  unfold Machine.cpuSdramRdDoneNext Slots.clk8EnP
  rw [has]
  generalize (m.sdramSlotCpuRd && m.slots.busPhase == 3 && m.cpuRdTake i) = b
  cases b <;> simp

theorem wrDoneNext_of_as (has : m.cpu.asR = true) :
    m.cpuSdramWrDoneNext = (m.cpuSdramWrDone ||
      ((m.sdramSlotCpuWr && m.slots.busPhase == 3) || decide (4 ≤ m.cpuWrWait))) := by
  unfold Machine.cpuSdramWrDoneNext Slots.clk8EnP
  rw [has]
  generalize ((m.sdramSlotCpuWr && m.slots.busPhase == 3) || decide (4 ≤ m.cpuWrWait)) = b
  cases b <;> simp

/-- The cycle is done when an owned slot ends, and by nothing else. -/
theorem done_of_as (h : Basic c m) (hs : Slotted c m) (has : m.cpu.asR = true)
    (hi : i.config = c) :
    (m.step true i).done = (m.done || (m.owned && m.slots.busPhase == 3)) := by
  have hrd : (m.step true i).cpuSdramRdDone = m.cpuSdramRdDoneNext i := rfl
  have hwr : (m.step true i).cpuSdramWrDone = m.cpuSdramWrDoneNext := rfl
  rw [Machine.done, kernel_of_as h has, hrd, hwr, rdDoneNext_of_as has, wrDoneNext_of_as has,
    Machine.done, Machine.owned]
  have htake := take_of_owned h hs has hi
  have hcount := hs.count has
  rw [Machine.owned] at htake
  rw [Machine.done] at hcount
  cases hrw : m.cpu.kernel.rw
  case true =>
    rw [hrw] at htake
    cases hown : m.sdramSlotCpuRd && m.slots.busPhase == 3
    case false => simp only [if_true, hown, Bool.false_and]
    case true =>
      obtain ⟨ho, hp⟩ := (Bool.and_eq_true _ _).mp hown
      have := htake (beq_iff_eq.mp hp) ho rfl
      simp only [if_true, Machine.cpuRdTake, this, hown, Bool.true_or, Bool.and_self, Bool.or_true]
  case false =>
    rw [hrw] at hcount
    cases hd : m.cpuSdramWrDone
    case true => rfl
    case false =>
      have hle := hcount hd rfl
      have hwait : decide ((4 : BitVec 3) ≤ m.cpuWrWait) = false := by
        rw [decide_eq_false_iff_not, BitVec.le_def]
        change ¬ 4 ≤ m.cpuWrWait.toNat
        omega
      rw [hwait, Bool.or_false]
      rfl

/-- VMA is asserted, or about to be, for cycles answered by VPA only. -/
theorem far_of_vma (hs : Slotted c m) (hp : beforePhi2 true m.slots.busPhase = true)
    (h4 : m.cpu.sState = 4)
    (hv : m.cpu.vma = true ∨ m.cpu.assertsVma (m.wires true i) = true) :
    m.cpu.kernel.far c = true := by
  rcases hv with hv | ha
  · cases hs.stage hv with
    | waits _ ho => exact ho
    | stopped _ h =>
      rw [h4] at h
      simp at h
    | withdrawn _ _ h =>
      rw [hp] at h
      cases h
  · simp only [Wrapper.assertsVma, Bool.and_eq_true, bne_iff_ne, ne_eq] at ha
    exact hs.sample hp ha.1.1.2 ha.1.1.1.2

theorem no_strands (h : Basic c m) (hs : Slotted c m) (hi : i.config = c) :
    m.cpu.strands (m.wires true i) = false := by
  by_contra hst
  rw [Bool.not_eq_false, Wrapper.strands, Bool.and_eq_true, Bool.or_eq_true] at hst
  obtain ⟨h2, hst⟩ := hst
  have hp : beforePhi2 true m.slots.busPhase = true := by
    rcases phase_cases m.slots.busPhase with ⟨-, hn, -⟩ | ⟨-, -, hp, -⟩
    · rw [wires_phi2, hn] at h2
      cases h2
    · exact hp
  have has : m.cpu.sState = 4 ∨ m.cpu.sState = 6 → m.cpu.asR = true := by
    intro h46
    rw [h.shape.as]
    rcases h46 with h' | h' <;> rw [h'] <;> decide
  rcases hst with hst | hst
  · simp only [Bool.and_eq_true, beq_iff_eq, Bool.or_eq_true] at hst
    obtain ⟨⟨⟨h4, hd⟩, -⟩, hv⟩ := hst
    have hfar := far_of_vma hs hp h4 hv
    have hd' : (m.wires true i).dtack = m.dtack true i := rfl
    have hb' : (m.wires true i).berr = m.berrOut := rfl
    rw [hd', hb', (memoryWires h (has (.inl h4)) hi).dtack, hfar, h.berr] at hd
    simp at hd
  · simp only [Bool.and_eq_true, beq_iff_eq] at hst
    obtain ⟨h6, ha⟩ := hst
    have ha' := ha
    simp only [Wrapper.assertsVma, Bool.and_eq_true, bne_iff_ne, ne_eq, beq_iff_eq] at ha'
    have hfar := hs.sample hp ha'.1.1.2 ha'.1.1.1.2
    have h9 := hs.stopped (has (.inr h6)) hfar (by rw [h6]; decide)
    rw [ha'.1.2] at h9
    cases h9

/-- A waiting cycle does not leave its wait state. -/
theorem not_leaves (h : Basic c m) (hs : Slotted c m) (hi : i.config = c)
    (has : m.cpu.asR = true) (hd : m.done = false) :
    m.cpu.leaves (m.wires true i) = false := by
  by_contra hl
  simp only [Wrapper.leaves, Bool.not_eq_false, Bool.and_eq_true, Bool.or_eq_true] at hl
  obtain ⟨⟨⟨⟨h1, h2⟩, -⟩, -⟩, hl⟩ := hl
  have hdt : (m.wires true i).dtack = false := by
    change m.dtack true i = false
    rw [(memoryWires h has hi).dtack]
    rw [Machine.done] at hd
    rw [hd]
    rfl
  have hb : (m.wires true i).berr = false := h.berr
  rw [hdt, hb] at hl
  have hx : m.cpu.xVma = true := by simpa using hl
  simp only [Wrapper.xVma, Bool.and_eq_true, beq_iff_eq] at hx
  have hrace := hs.race has hd hx.1.1 (by rw [hx.1.2]; decide)
  rw [hx.1.2, hx.2] at hrace
  rcases phase_cases m.slots.busPhase with ⟨-, hn, -⟩ | ⟨-, -, hp, -⟩
  · rw [wires_phi2, hn] at h2
    cases h2
  · revert hp hrace
    generalize m.slots.busPhase = p
    generalize m.slots.cpuBusControl = cs
    generalize m.owned = o
    revert p cs o
    decide

/-- The states of a running cycle after a clock. -/
theorem sState_of_as (h : Basic c m) (has : m.cpu.asR = true) :
    (m.step true i).cpu.sState =
      if m.cpu.sState = 4 ∧ m.cpu.leaves (m.wires true i) = false then 4
      else m.cpu.sState + 1 := by
  have hidle := (busy_of_as h has).1
  change (m.cpu.step (m.wires true i)).sState = _
  rcases phase_cases m.slots.busPhase with ⟨h1, h2, -⟩ | ⟨h1, h2, -⟩
  · have hl : m.cpu.leaves (m.wires true i) = false := by
      rw [Wrapper.leaves, wires_phi1, h1]
      rfl
    rw [sState_phi1 (i := m.wires true i) h1 hidle, hl]
    simp
  · exact sState_phi2 (i := m.wires true i) h1 h2 hidle

theorem as_of_as (h : Basic c m) (has : m.cpu.asR = true) (h' : (m.step true i).cpu.asR = true) :
    m.cpu.sState ≠ 6 := by
  intro h6
  have hs := (shape_step (i := i) h.shape).as
  rw [h', sState_of_as h has, h6, if_neg (fun h => absurd h.1 (by decide))] at hs
  exact absurd hs (by decide)

theorem turboDtackEn_of_as (has : m.cpu.asR = true)
    (h : m.turboDtackEn = true ∨ (m.cpuBusControlD = false ∧ m.slots.cpuBusControl = true)) :
    (m.step true i).turboDtackEn = true := by
  change m.turboDtackEnNext i = true
  unfold Machine.turboDtackEnNext
  rw [has]
  rcases h with h | ⟨h1, h2⟩
  · split_ifs <;> simp_all
  · rw [h1, h2]
    simp

end Running

/-! ### One clock -/

section Step

variable {c : Config} {m : Machine} {i : In}

/-- The clock in which AS falls. -/
theorem fall_step (hs : Slotted c m) (hb : Basic c m) (h1 : m.cpu.sState = 1)
    (hp : cpuEnP true m.slots.busPhase = true) :
    (m.step true i).owned = false ∧ (m.step true i).done = false ∧
      (m.step true i).cpuWrWait = 0 := by
  have has : m.cpu.asR = false := by
    rw [hb.shape.as, h1]
    decide
  obtain ⟨hrd, hwr⟩ := owned_of_fall (i := i) hs hb has h1 hp
  have hdrd : (m.step true i).cpuSdramRdDone = m.cpuSdramRdDoneNext i := rfl
  have hdwr : (m.step true i).cpuSdramWrDone = m.cpuSdramWrDoneNext := rfl
  have hwait : (m.step true i).cpuWrWait = m.cpuWrWaitNext := rfl
  refine ⟨?_, ?_, ?_⟩
  · rw [Machine.owned, hrd, hwr, ite_self]
  · rw [Machine.done, hdrd, hdwr, Machine.cpuSdramRdDoneNext, Machine.cpuSdramWrDoneNext, has]
    exact ite_self _
  · rw [hwait, Machine.cpuWrWaitNext, has]
    rfl

/-- A cycle that owns a slot, or is done, has been running in the clock before. -/
theorem as_of_owned (hs : Slotted c m) (hb : Basic c m) (has : (m.step true i).cpu.asR = true)
    (ho : (m.step true i).owned = true ∨ (m.step true i).done = true) : m.cpu.asR = true := by
  refine (as_step has).resolve_right fun hfall => ?_
  obtain ⟨hown, hdone, -⟩ := fall_step (i := i) hs hb hfall.1 hfall.2.2.1
  rw [hown, hdone] at ho
  simp at ho

theorem cpuBusControl_step :
    (m.step true i).slots.cpuBusControl =
      if m.slots.busPhase = 3 then !m.slots.cpuBusControl else m.slots.cpuBusControl := by
  change ((if m.slots.busPhase = 3 then m.slots.busCycle + 1 else m.slots.busCycle) == 1 ||
    (if m.slots.busPhase = 3 then m.slots.busCycle + 1 else m.slots.busCycle) == 3) = _
  unfold Slots.cpuBusControl
  generalize m.slots.busCycle = b
  by_cases hp : m.slots.busPhase = 3
  · simp only [hp, if_true]
    revert b
    decide
  · simp only [hp, if_false]

theorem busPhase_step : (m.step true i).slots.busPhase = m.slots.busPhase + 1 := rfl

theorem released_step (hs : Slotted c m) (hb : Basic c m) (has : (m.step true i).cpu.asR = false)
    (hp : (m.step true i).slots.busPhase ≠ 0)
    (ho : ((m.step true i).sdramSlotCpuRd || (m.step true i).sdramSlotCpuWr) = true) :
    ((m.step true i).slots.busPhase = 2 ∧ (m.step true i).cpu.sState = 7) ∨
      ((m.step true i).slots.busPhase = 3 ∧ (m.step true i).cpu.sState = 0) := by
  have hrd : (m.step true i).sdramSlotCpuRd =
      if m.slot0Mark then m.slots.cpuBusControl && m.rdCycle i else m.sdramSlotCpuRd := rfl
  have hwr : (m.step true i).sdramSlotCpuWr =
      if m.slot0Mark then m.slots.cpuBusControl && m.wrCycle i else m.sdramSlotCpuWr := rfl
  have hnext : (m.step true i).cpu.asR = m.cpu.asNext (m.wires true i) := rfl
  rw [busPhase_step] at hp ⊢
  rw [hrd, hwr, hb.mark] at ho
  rw [hnext, Wrapper.asNext, wires_phi1, wires_phi2] at has
  have hcases : ∀ p : BitVec 2, p + 1 ≠ 0 → p = 0 ∨ p = 1 ∨ p = 2 := by decide
  rcases hcases _ hp with h | h | h
  · -- the flags are set for a cycle with AS low, and AS does not rise in this clock
    have has' : m.cpu.asR = false := by
      rw [h] at has
      split_ifs at has with h1 h2 h3
      · exact has
      · exact absurd rfl h1
      · exact absurd rfl h1
    simp [h, Machine.rdCycle, Machine.wrCycle, has'] at ho
  · rw [h] at ho has ⊢
    have ho' : (m.sdramSlotCpuRd || m.sdramSlotCpuWr) = true := by simpa using ho
    cases ha : m.cpu.asR
    case false =>
      have := hs.released ha (by rw [h]; decide) ho'
      rw [h] at this
      exact absurd this (by simp)
    case true =>
      left
      refine ⟨rfl, ?_⟩
      have h6 : m.cpu.sState = 6 := by
        split_ifs at has with h1 h2 h3
        · rw [ha] at has
          cases has
        · exact beq_iff_eq.mp ((Bool.and_eq_true _ _).mp h3).2
        · rw [ha] at has
          cases has
      rw [sState_of_as hb ha, h6, if_neg fun h => absurd h.1 (by decide)]
      rfl
  · rw [h] at ho has ⊢
    have ho' : (m.sdramSlotCpuRd || m.sdramSlotCpuWr) = true := by simpa using ho
    have ha : m.cpu.asR = false := by
      split_ifs at has with h1 h2 h3
      · exact has
      · exact absurd rfl h1
      · exact absurd rfl h1
    have h7 : m.cpu.sState = 7 := by
      rcases hs.released ha (by rw [h]; decide) ho' with h' | h'
      · exact h'.2
      · rw [h] at h'
        exact absurd h'.1 (by decide)
    right
    refine ⟨rfl, ?_⟩
    change (m.cpu.step (m.wires true i)).sState = 0
    have h1 : (m.wires true i).phi1 = true := by
      rw [wires_phi1, h]
      rfl
    cases hidle : m.cpu.kernel.idle
    case true => exact sState_idle (.inl h1) hidle
    case false =>
      rw [sState_phi1 h1 hidle, h7]
      rfl

theorem slot_step (hs : Slotted c m) (hb : Basic c m) (hi : i.config = c)
    (has : (m.step true i).cpu.asR = true) (hp : (m.step true i).slots.busPhase ≠ 0)
    (ho : (m.step true i).owned = true) :
    (m.step true i).slots.cpuBusControl = true ∧ (m.step true i).turboDtackEn = true ∧
      4 ≤ (m.step true i).cpu.sState := by
  have has' := as_of_owned hs hb has (.inl ho)
  have h6 := as_of_as hb has' has
  have hst := states_of_as hb has'
  have hp3 : m.slots.busPhase ≠ 3 := by
    intro h3
    rw [busPhase_step, h3] at hp
    exact hp rfl
  rw [owned_of_as hb has' hi] at ho
  rw [cpuBusControl_step, if_neg hp3, sState_of_as hb has']
  by_cases h0 : m.slots.busPhase = 0
  · rw [if_pos h0] at ho
    have hprev := hs.prev has' h0
    rw [ho] at hprev
    refine ⟨ho, turboDtackEn_of_as has' (.inr ⟨hprev, ho⟩), ?_⟩
    rw [h0] at hst
    split_ifs with h4
    · decide
    · rcases hst.2 rfl with h | h | h <;> rw [h] <;> decide
  · rw [if_neg h0] at ho
    obtain ⟨hcpu, hen, h4⟩ := hs.slot has' h0 ho
    refine ⟨hcpu, turboDtackEn_of_as has' (.inl hen), ?_⟩
    split_ifs
    · decide
    · have h46 : m.cpu.sState = 4 ∨ m.cpu.sState = 5 := by
        cases hp : beforePhi2 true m.slots.busPhase
        · rcases hst.2 hp with h | h | h
          · rw [h] at h4
            exact absurd h4 (by decide)
          · exact .inl h
          · exact .inr h
        · rcases hst.1 hp with h | h | h
          · rw [h] at h4
            exact absurd h4 (by decide)
          · exact .inl h
          · exact absurd h h6
      rcases h46 with h | h <;> rw [h] <;> decide

theorem waiting_step (hs : Slotted c m) (hb : Basic c m) (hi : i.config = c)
    (has : (m.step true i).cpu.asR = true) (hd : (m.step true i).done = false) :
    (m.step true i).cpu.sState ≤ 4 := by
  rcases as_step has with has' | ⟨-, -, -, h2⟩
  · rw [done_of_as hb hs has' hi, Bool.or_eq_false_iff] at hd
    have hle := hs.waiting has' hd.1
    rw [sState_of_as hb has', not_leaves hb hs hi has' hd.1]
    by_cases h4 : m.cpu.sState = 4
    · rw [if_pos ⟨h4, rfl⟩]
      decide
    · rw [if_neg fun h => h4 h.1]
      bv_omega
  · rw [h2]
    decide

theorem dtackEn_step (hs : Slotted c m) (hb : Basic c m) (hi : i.config = c)
    (has : (m.step true i).cpu.asR = true) (hd : (m.step true i).done = true) :
    (m.step true i).turboDtackEn = true := by
  have has' := as_of_owned hs hb has (.inr hd)
  apply turboDtackEn_of_as has'
  rw [done_of_as hb hs has' hi, Bool.or_eq_true, Bool.and_eq_true, beq_iff_eq] at hd
  rcases hd with hd | ⟨ho, h3⟩
  · exact .inl (hs.dtackEn has' hd)
  · exact .inl (hs.slot has' (by rw [h3]; decide) ho).2.1

/-- From the end of its slot a cycle answered by DTACK has four clocks to rise AS. -/
theorem near_step (hs : Slotted c m) (hb : Basic c m) (hi : i.config = c)
    (has : (m.step true i).cpu.asR = true) (hd : (m.step true i).done = true)
    (hf : (m.step true i).cpu.kernel.far c = false) :
    (m.step true i).slots.cpuBusControl = false ∧
      (((m.step true i).slots.busPhase = 0 ∧ (m.step true i).cpu.sState = 4) ∨
        ((m.step true i).slots.busPhase = 1 ∧ (m.step true i).cpu.sState = 4) ∨
        ((m.step true i).slots.busPhase = 2 ∧ (m.step true i).cpu.sState = 5) ∨
        ((m.step true i).slots.busPhase = 3 ∧ (m.step true i).cpu.sState = 6)) := by
  have has' := as_of_owned hs hb has (.inr hd)
  rw [kernel_of_as hb has'] at hf
  rw [done_of_as hb hs has' hi] at hd
  have hstep := sState_of_as (i := i) hb has'
  rw [cpuBusControl_step, busPhase_step]
  cases hd0 : m.done
  case true =>
    obtain ⟨hcpu, hnear⟩ := hs.near has' hd0 hf
    rcases hnear with ⟨hp, h4⟩ | ⟨hp, h4⟩ | ⟨hp, h5⟩ | ⟨-, h6⟩
    · have hl : m.cpu.leaves (m.wires true i) = false := by
        rw [Wrapper.leaves, wires_phi1, hp]
        rfl
      rw [if_pos ⟨h4, hl⟩] at hstep
      rw [hp, hcpu, hstep]
      exact ⟨rfl, .inr (.inl ⟨rfl, rfl⟩)⟩
    · have hdt : (m.wires true i).dtack = true := by
        change m.dtack true i = true
        rw [(memoryWires hb has' hi).dtack, hf, hs.dtackEn has' hd0]
        rw [Machine.done] at hd0
        rw [hd0]
        rfl
      have hl : m.cpu.leaves (m.wires true i) = true := by
        rw [Wrapper.leaves, wires_phi1, wires_phi2, hp, h4, hdt, (busy_of_as hb has').1]
        rfl
      rw [if_neg (by rw [hl]; simp), h4] at hstep
      rw [hp, hcpu, hstep]
      exact ⟨rfl, .inr (.inr (.inl ⟨rfl, rfl⟩))⟩
    · rw [if_neg (by rw [h5]; simp), h5] at hstep
      rw [hp, hcpu, hstep]
      exact ⟨rfl, .inr (.inr (.inr ⟨rfl, rfl⟩))⟩
    · exact absurd h6 (as_of_as hb has' has)
  case false =>
    rw [hd0, Bool.false_or, Bool.and_eq_true, beq_iff_eq] at hd
    obtain ⟨ho, h3⟩ := hd
    obtain ⟨hcpu, -, h4⟩ := hs.slot has' (by rw [h3]; decide) ho
    have h4' : m.cpu.sState = 4 := by
      have := hs.waiting has' hd0
      bv_omega
    rw [if_pos ⟨h4', not_leaves hb hs hi has' hd0⟩] at hstep
    rw [h3, hcpu, hstep]
    exact ⟨rfl, .inl ⟨rfl, rfl⟩⟩

/-- The VMA stop is the only way out of the wait state for a cycle answered by VPA. -/
theorem stopped_step (hs : Slotted c m) (hb : Basic c m) (hi : i.config = c)
    (has : (m.step true i).cpu.asR = true) (hf : (m.step true i).cpu.kernel.far c = true)
    (h5 : 5 ≤ (m.step true i).cpu.sState) : (m.step true i).cpu.eCntr = 9 := by
  have has' : m.cpu.asR = true := by
    refine (as_step has).resolve_right fun hfall => ?_
    rw [hfall.2.2.2] at h5
    exact absurd h5 (by decide)
  rw [kernel_of_as hb has'] at hf
  have h6 := as_of_as hb has' has
  have hst := states_of_as hb has'
  rw [sState_of_as hb has'] at h5
  change m.cpu.eCntrNext (m.wires true i) = 9
  rw [Wrapper.eCntrNext, wires_phi2]
  rcases phase_cases m.slots.busPhase with ⟨-, h2, hp, -⟩ | ⟨h1, h2, hp, -⟩
  · rw [h2]
    rcases hst.2 hp with h | h | h
    · rw [h, if_neg (by simp)] at h5
      exact absurd h5 (by decide)
    · have hl : m.cpu.leaves (m.wires true i) = false := by
        rw [Wrapper.leaves, wires_phi2, h2, Bool.and_false]
        rfl
      rw [if_pos ⟨h, hl⟩] at h5
      exact absurd h5 (by decide)
    · exact hs.stopped has' hf (by rw [h]; decide)
  · rcases hst.1 hp with h | h | h
    · rw [h, if_neg (by simp)] at h5
      exact absurd h5 (by decide)
    · have hl : m.cpu.leaves (m.wires true i) = true := by
        by_contra hl
        rw [if_pos ⟨h, by simpa using hl⟩] at h5
        exact absurd h5 (by decide)
      have hdt : (m.wires true i).dtack = false := by
        change m.dtack true i = false
        rw [(memoryWires hb has' hi).dtack, hf]
        simp
      have hberr : (m.wires true i).berr = false := hb.berr
      have hx : m.cpu.xVma = true := by
        rw [Wrapper.leaves, hdt, hberr, Bool.and_eq_true] at hl
        simpa using hl.2
      simp only [Wrapper.xVma, Bool.and_eq_true, beq_iff_eq] at hx
      rw [h2, hx.2, hx.1.2]
      rfl
    · exact absurd h h6

theorem sample_step (hb : Basic c m) (hi : i.config = c)
    (hp : beforePhi2 true (m.step true i).slots.busPhase = true)
    (hv : (m.step true i).cpu.vpai = true) (h0 : (m.step true i).cpu.sState ≠ 0) :
    (m.step true i).cpu.kernel.far c = true := by
  rw [kernel_step_of_ne h0]
  rw [busPhase_step] at hp
  rcases phase_cases m.slots.busPhase with ⟨h1, -⟩ | ⟨-, -, -, hp', -⟩
  · have hv' : m.vpa i = true := by
      change (if cpuEnP true m.slots.busPhase = true then m.vpa i else m.cpu.vpai) = true at hv
      rwa [if_pos h1] at hv
    have hidle : m.cpu.kernel.idle = false := by
      by_contra hi
      exact h0 (sState_idle (.inl h1) (by simpa using hi))
    have hk := hb.kernel.resolve_left (by rw [hidle]; decide)
    cases has : m.cpu.asR
    case true =>
      rw [(memoryWires hb has hi).vpa] at hv'
      exact hv'
    case false =>
      rw [Machine.vpa, if_neg fun h => hk.space h.1, sel_of_not_as has, has] at hv'
      simp [Selects.none, Selects.viaAccess] at hv'
  · rw [hp'] at hp
    cases hp

theorem stage_step (hs : Slotted c m) (hb : Basic c m) (hi : i.config = c)
    (hv : (m.step true i).cpu.vma = true) :
    Stage true (m.step true i).slots.busPhase (m.step true i).cpu
      ((m.step true i).cpu.kernel.far c = true) := by
  have hns := no_strands hb hs hi
  change (m.cpu.step (m.wires true i)).vma = true at hv
  change Stage true (m.slots.busPhase + 1) (m.cpu.step (m.wires true i))
    ((m.cpu.step (m.wires true i)).kernel.far c = true)
  rcases phase_cases m.slots.busPhase with ⟨h1, h2, hp, hp', -⟩ | ⟨h1, h2, hp, hp', -⟩
  · have hv0 := hv
    rw [(vma_phi1 h1 h2).1, Bool.and_eq_true] at hv0
    refine (hs.stage hv0.1).step_phi1 (fun hk hf => ?_) hb.shape h1 h2 rfl hp hp' hv
    have hkernel : (m.cpu.step (m.wires true i)).kernel = m.cpu.kernel :=
      if_neg (by rw [hk]; decide)
    rw [hkernel]
    exact hf
  · have hkernel : (m.cpu.step (m.wires true i)).kernel = m.cpu.kernel := by
      refine if_neg ?_
      rw [Wrapper.clkena, wires_phi1, h1, Bool.false_and]
      decide
    rw [hkernel]
    cases ha : m.cpu.assertsVma (m.wires true i)
    case true =>
      have ha' := ha
      simp only [Wrapper.assertsVma, Bool.and_eq_true, bne_iff_ne, ne_eq] at ha'
      exact stage_of_asserts hb.shape h1 hp ha hns (hs.sample hp ha'.1.1.2 ha'.1.1.1.2)
    case false =>
      have hv0 := hv
      rw [(vma_phi2 h1).1, ha, Bool.false_or] at hv0
      exact (hs.stage hv0).step_phi2 id hb.shape h1 h2 hp hp' hv0 hns

/-- The slot ends that a waiting cycle has to wait for. -/
theorem tails_of_as (hs : Slotted c m) (hb : Basic c m) (hi : i.config = c)
    (has : m.cpu.asR = true) (hd : (m.step true i).done = false) :
    4 * tails (m.step true i).slots.busPhase (m.step true i).slots.cpuBusControl
        (m.step true i).owned + m.slots.busPhase.toNat + 1 =
      4 * tails m.slots.busPhase m.slots.cpuBusControl m.owned +
        (m.slots.busPhase + 1).toNat := by
  rw [done_of_as hb hs has hi, Bool.or_eq_false_iff] at hd
  refine tails_step (owned_of_as hb has hi) fun h3 => ?_
  have := hd.2
  rw [h3] at this
  simpa using this

theorem race_step (hs : Slotted c m) (hb : Basic c m) (hi : i.config = c)
    (has : (m.step true i).cpu.asR = true) (hd : (m.step true i).done = false)
    (hv : (m.step true i).cpu.vma = true) (hw : waitCount (m.step true i).cpu.eCntr = true) :
    4 * tails (m.step true i).slots.busPhase (m.step true i).slots.cpuBusControl
        (m.step true i).owned <
      stopIn (m.step true i).slots.busPhase (m.step true i).cpu.eCntr (m.step true i).cpu.enE +
        (m.step true i).slots.busPhase.toNat := by
  rcases as_step has with has' | ⟨-, -, -, h2⟩
  · have htails := tails_of_as hs hb hi has' hd
    have hd0 : m.done = false := by
      rw [done_of_as hb hs has' hi, Bool.or_eq_false_iff] at hd
      exact hd.1
    have hrace := hs.race has' hd0
    rw [busPhase_step] at htails ⊢
    change (m.cpu.step (m.wires true i)).vma = true at hv
    change waitCount (m.cpu.step (m.wires true i)).eCntr = true at hw
    change _ < stopIn _ (m.cpu.step (m.wires true i)).eCntr (m.cpu.step (m.wires true i)).enE + _
    rcases phase_cases m.slots.busPhase with ⟨h1, h2, hp, -⟩ | ⟨h1, h2, hp, hp', -⟩
    · obtain ⟨hvma, hc, he, -⟩ := vma_phi1 (w := m.cpu) (i := m.wires true i) h1 h2
      rw [hvma, Bool.and_eq_true] at hv
      have heDiv : (m.wires true i).eDiv = true := rfl
      rw [heDiv, if_pos rfl] at he
      rw [hc] at hw ⊢
      rw [he]
      have hstop := @stopIn_even _ m.cpu.eCntr m.cpu.enE hp
      have := hrace hv.1 hw
      omega
    · obtain ⟨hvma, hc, he, -⟩ := vma_phi2 (w := m.cpu) (i := m.wires true i) h1
      have hcn : m.cpu.eCntrNext (m.wires true i) =
          if m.cpu.enE then if m.cpu.eCntr = 9 then 0 else m.cpu.eCntr + 1 else m.cpu.eCntr := by
        rw [Wrapper.eCntrNext, wires_phi2, h2, Bool.true_and]
      rw [hc, hcn] at hw
      rw [hc, he, hcn]
      cases ha : m.cpu.assertsVma (m.wires true i)
      case true =>
        simp only [Wrapper.assertsVma, Bool.and_eq_true, beq_iff_eq] at ha
        rw [ha.1.2, ha.2]
        exact tails_lt_stopIn _ _ _ hp'
      case false =>
        rw [hvma, ha, Bool.false_or] at hv
        have h9 : m.cpu.eCntr ≠ 9 := by
          intro h9
          rw [h9] at hw
          revert hw
          generalize m.cpu.enE = e
          revert e
          decide
        rw [if_neg h9] at hw ⊢
        have hcount : waitCount m.cpu.eCntr = true := by
          cases hs.stage hv with
          | waits hw' _ =>
            rcases hw' with ⟨-, h⟩ | ⟨-, h | h | h | h | h⟩ <;> rw [h] <;> decide
          | stopped h _ => exact absurd h h9
          | withdrawn h he' _ =>
            rw [h, he'] at hw
            exact absurd hw (by decide)
        have hstop : (m.cpu.eCntr == 8 && m.cpu.enE) = false := by
          by_contra hx
          simp only [Bool.not_eq_false, Bool.and_eq_true, beq_iff_eq] at hx
          rw [hx.1, hx.2] at hw
          exact absurd hw (by decide)
        have hodd := stopIn_odd hp hcount hstop
        have := hrace hv hcount
        omega
  · -- in the first state of a cycle VMA is past its stop
    cases stage_step hs hb hi hv with
    | waits hw' _ =>
      rw [h2] at hw'
      simp at hw'
    | stopped h9 _ =>
      rw [h9] at hw
      exact absurd hw (by decide)
    | withdrawn h0 _ _ =>
      rw [h0] at hw
      exact absurd hw (by decide)

theorem count_step (hs : Slotted c m) (hb : Basic c m) (hi : i.config = c)
    (has : (m.step true i).cpu.asR = true) (hd : (m.step true i).done = false)
    (hrw : (m.step true i).cpu.kernel.rw = false) :
    (m.step true i).cpuWrWait.toNat + tails (m.step true i).slots.busPhase
      (m.step true i).slots.cpuBusControl (m.step true i).owned ≤ 3 := by
  rcases as_step has with has' | ⟨h1, -, hp, -⟩
  · have htails := tails_of_as hs hb hi has' hd
    rw [done_of_as hb hs has' hi, Bool.or_eq_false_iff] at hd
    rw [kernel_of_as hb has'] at hrw
    have hle := hs.count has' hd.1 hrw
    have hwait : (m.step true i).cpuWrWait = m.cpuWrWaitNext := rfl
    rw [hwait, Machine.cpuWrWaitNext, has', Slots.clk8EnP]
    by_cases h3 : m.slots.busPhase = 3
    · rw [h3] at htails hle ⊢
      have hlt : m.cpuWrWait.toNat < 4 := by omega
      have hlt' : m.cpuWrWait < 4 := by
        rw [BitVec.lt_def]
        exact hlt
      have hadd : (m.cpuWrWait + 1).toNat = m.cpuWrWait.toNat + 1 := by bv_omega
      simp only [Bool.not_true, Bool.false_eq_true, if_false, beq_self_eq_true, Bool.true_and,
        hlt', decide_true, if_true, hadd]
      change 4 * _ + 3 + 1 = 4 * _ + 0 at htails
      omega
    · have h3' : (m.slots.busPhase == 3) = false := beq_eq_false_iff_ne.mpr h3
      simp only [Bool.not_true, Bool.false_eq_true, if_false, h3', Bool.false_and]
      have hadd : (m.slots.busPhase + 1).toNat = m.slots.busPhase.toNat + 1 := by bv_omega
      omega
  · obtain ⟨hown, -, hwait⟩ := fall_step (i := i) hs hb h1 hp
    rw [hwait, hown]
    generalize (m.step true i).slots.busPhase = p
    generalize (m.step true i).slots.cpuBusControl = cs
    revert p cs
    decide

/-! ### What an owned slot latches -/

theorem latched_step (hs : Slotted c m) (hb : Basic c m) (hi : i.config = c)
    (has : (m.step true i).cpu.asR = true) (hp : (m.step true i).slots.busPhase = 1)
    (ho : (m.step true i).owned = true) :
    (m.step true i).sdram.oeLatch = (m.step true i).cpu.kernel.rw ∧
      (m.step true i).sdram.weLatch = !(m.step true i).cpu.kernel.rw ∧
      (m.step true i).sdram.addrLatch = (m.step true i).cpu.kernel.word c ∧
      (m.step true i).sdram.row = rowOf ((m.step true i).cpu.kernel.word c) := by
  have has' := as_of_owned hs hb has (.inl ho)
  have hp0 : m.slots.busPhase = 0 := by
    rw [busPhase_step] at hp
    bv_omega
  rw [owned_of_as hb has' hi, if_pos hp0] at ho
  have ht : m.sdram.t = 0 := by
    rw [hb.inStep, hp0]
    rfl
  have hclk : m.slots.clk8 = true := by
    rw [Slots.clk8, hp0]
    rfl
  have hsd : (m.step true i).sdram = m.sdram.clock true (m.cmd i) := by rw [← hclk]; rfl
  rw [hsd, clock_zero _ ht, cmd_of_as hb has' hi ho, kernel_of_as hb has']
  refine ⟨rfl, rfl, rfl, if_pos ?_⟩
  cases m.cpu.kernel.rw <;> rfl

theorem tagged_step (hs : Slotted c m) (hb : Basic c m) (hi : i.config = c)
    (has : (m.step true i).cpu.asR = true) (hp : (m.step true i).slots.busPhase = 2)
    (ho : (m.step true i).owned = true) (hrw : (m.step true i).cpu.kernel.rw = true) :
    (m.step true i).sdram.oeLatch = true ∧
      (m.step true i).sdram.addrLatch = (m.step true i).cpu.kernel.word c := by
  have has' := as_of_owned hs hb has (.inl ho)
  have hp1 : m.slots.busPhase = 1 := by
    rw [busPhase_step] at hp
    bv_omega
  rw [owned_of_as hb has' hi, if_neg (by rw [hp1]; decide)] at ho
  rw [kernel_of_as hb has'] at hrw ⊢
  obtain ⟨hoe, -, haddr, -⟩ := hs.latched has' hp1 ho
  have ht : m.sdram.t = 2 := by
    rw [hb.inStep, hp1]
    rfl
  have hclk : m.slots.clk8 = true := by
    rw [Slots.clk8, hp1]
    rfl
  have hsd : (m.step true i).sdram = m.sdram.clock true (m.cmd i) := by rw [← hclk]; rfl
  rw [hsd, clock_two _ ht]
  exact ⟨hoe.trans hrw, haddr⟩

theorem matched_step (hs : Slotted c m) (hb : Basic c m) (hi : i.config = c)
    (has : (m.step true i).cpu.asR = true) (hp : (m.step true i).slots.busPhase = 3)
    (ho : (m.step true i).owned = true) (hrw : (m.step true i).cpu.kernel.rw = true) :
    (m.step true i).sdram.doutAddr = (m.step true i).cpu.kernel.word c := by
  have has' := as_of_owned hs hb has (.inl ho)
  have hp2 : m.slots.busPhase = 2 := by
    rw [busPhase_step] at hp
    bv_omega
  rw [owned_of_as hb has' hi, if_neg (by rw [hp2]; decide)] at ho
  rw [kernel_of_as hb has'] at hrw ⊢
  obtain ⟨hoe, haddr⟩ := hs.tagged has' hp2 ho hrw
  have ht : m.sdram.t = 4 := by
    rw [hb.inStep, hp2]
    rfl
  have hclk : m.slots.clk8 = false := by
    rw [Slots.clk8, hp2]
    rfl
  have hsd : (m.step true i).sdram = m.sdram.clock false (m.cmd i) := by rw [← hclk]; rfl
  rw [hsd, clock_four _ ht, hoe]
  exact haddr

theorem Slotted.step (hs : Slotted c m) (hb : Basic c m) (hi : i.config = c) :
    Slotted c (m.step true i) where
  prev _ hp := by
    have h3 : m.slots.busPhase = 3 := by
      rw [busPhase_step] at hp
      bv_omega
    rw [cpuBusControl_step, if_pos h3, Bool.not_not]
    rfl
  released := released_step hs hb
  slot := slot_step hs hb hi
  waiting := waiting_step hs hb hi
  dtackEn := dtackEn_step hs hb hi
  near := near_step hs hb hi
  stopped := stopped_step hs hb hi
  sample := sample_step hb hi
  stage := stage_step hs hb hi
  race := race_step hs hb hi
  count := count_step hs hb hi
  latched := latched_step hs hb hi
  tagged := tagged_step hs hb hi
  matched := matched_step hs hb hi

theorem Reset.slotted (h : Reset m) : Slotted c m where
  prev has := absurd has (by rw [h.as]; decide)
  released _ _ ho := absurd ho (by rw [h.slotRd, h.slotWr]; decide)
  slot has := absurd has (by rw [h.as]; decide)
  waiting has := absurd has (by rw [h.as]; decide)
  dtackEn has := absurd has (by rw [h.as]; decide)
  near has := absurd has (by rw [h.as]; decide)
  stopped has := absurd has (by rw [h.as]; decide)
  sample _ _ hs := absurd h.sState hs
  stage hv := absurd hv (by rw [h.vma]; decide)
  race has := absurd has (by rw [h.as]; decide)
  count has := absurd has (by rw [h.as]; decide)
  latched has := absurd has (by rw [h.as]; decide)
  tagged has := absurd has (by rw [h.as]; decide)
  matched has := absurd has (by rw [h.as]; decide)

theorem slotted_run {u : ℕ → In} (h0 : Reset m) (hu : Stream c u) (t : ℕ) :
    Slotted c (after true m u t) := by
  induction t with
  | zero => exact h0.slotted
  | succ t ih => exact ih.step (basic_run h0 hu t) (hu.config t)

end Step

end Cpu
