import LBMacTwo.Cpu.Slotted

/-!
# Reads of the SDRAM

* `OwnSlot`: an SDRAM slot that has latched the address of the running bus cycle;
* `Fetched`: the word such slots bring, up to the latch `cpu_data`, kept by every clock;
* `read_word`: DTACK follows an own slot, the CPU latches the word of an own slot, and a read is
  never completed by the address mismatch timeout.
-/

namespace Cpu
open Memory Clocked

/-- The slot that starts in clock `j` has latched the address of the bus cycle of clock `t`, and
that bus cycle was running when it started. -/
structure OwnSlot (c : Config) (s : Machine) (u : ℕ → In) (j t : ℕ) : Prop where
  phase : (after true s u j).slots.busPhase = 0
  latch : (after true s u (j + 1)).sdram.addrLatch = (after true s u t).cpu.kernel.word c
  same : SameCycle true s u j t

/-- The word of the running cycle, as the slot that started in clock `j` has found it. -/
def slotWord (c : Config) (s : Machine) (u : ℕ → In) (j t : ℕ) : Word :=
  (after true s u (j + 1)).sdram.mem ((after true s u t).cpu.kernel.word c)

/-- The words of a read cycle, in the slot in progress and after a slot that has ended. -/
structure Fetched (c : Config) (s : Machine) (u : ℕ → In) (t : ℕ) : Prop where
  slot : (after true s u t).cpu.asR = true → (after true s u t).cpu.kernel.rw = true →
    (after true s u t).slots.busPhase ≠ 0 → (after true s u t).owned = true →
    ∃ j, t = j + (after true s u t).slots.busPhase.toNat ∧ OwnSlot c s u j t ∧
      ((after true s u t).slots.busPhase = 2 →
        (after true s u t).sdram.fetched = slotWord c s u j t) ∧
      ((after true s u t).slots.busPhase = 3 → (after true s u t).sdram.dout = slotWord c s u j t)
  done : (after true s u t).cpu.asR = true → (after true s u t).cpu.kernel.rw = true →
    (after true s u t).done = true →
    ∃ j, j + 4 ≤ t ∧ OwnSlot c s u j t ∧ (after true s u t).cpuData = slotWord c s u j t

theorem cpuMacAddr_lt (r : Request) : cpuMacAddr r < 2 ^ 23 := by
  unfold cpuMacAddr romAddr
  split_ifs
  · split <;> omega
  · omega
  · omega

theorem word_lt (c : Config) (k : Kernel) : k.word c < 2 ^ 23 := by
  have := cpuMacAddr_lt (k.request c)
  unfold Kernel.word cpuWord
  split_ifs <;> omega

section Clock

variable {c : Config} {m : Machine} {i : In}

/-- The command of an owned slot opens and reads the cell of the running cycle. -/
theorem cell_of_owned (h : Basic c m) (hs : Slotted c m) (has : m.cpu.asR = true)
    (hi : i.config = c) (hp : m.slots.busPhase = 1) (ho : m.owned = true) :
    cell m.sdram.row (m.cmd i).addr = m.cpu.kernel.word c := by
  have hslot := (hs.slot has (by rw [hp]; decide) ho).1
  rw [cmd_of_as h has hi hslot, (hs.latched has hp ho).2.2.2, cell_rowOf]
  exact Nat.mod_eq_of_lt (word_lt c _)

theorem sdram_step : (m.step true i).sdram = m.sdram.clock m.slots.clk8 (m.cmd i) := rfl

theorem fetched_step (h : Basic c m) (hs : Slotted c m) (has : m.cpu.asR = true)
    (hi : i.config = c) (hp : m.slots.busPhase = 1) (ho : m.owned = true)
    (hrw : m.cpu.kernel.rw = true) :
    (m.step true i).sdram.fetched = m.sdram.mem (m.cpu.kernel.word c) := by
  have ht : m.sdram.t = 2 := by
    rw [h.inStep, hp]
    rfl
  have hclk : m.slots.clk8 = true := by
    rw [Slots.clk8, hp]
    rfl
  obtain ⟨hoe, hwe, -⟩ := hs.latched has hp ho
  rw [sdram_step, hclk, clock_two _ ht, hoe, hwe, hrw, cell_of_owned h hs has hi hp ho]
  rfl

theorem dout_step (h : Basic c m) (hs : Slotted c m) (has : m.cpu.asR = true)
    (hp : m.slots.busPhase = 2) (ho : m.owned = true) (hrw : m.cpu.kernel.rw = true) :
    (m.step true i).sdram.dout = m.sdram.fetched := by
  have ht : m.sdram.t = 4 := by
    rw [h.inStep, hp]
    rfl
  have hclk : m.slots.clk8 = false := by
    rw [Slots.clk8, hp]
    rfl
  rw [sdram_step, hclk, clock_four _ ht, (hs.tagged has hp ho hrw).1]
  rfl

/-- In the last clock of an owned slot the word on the controller's output is the CPU's. -/
theorem sdramDo_of_owned (hs : Slotted c m) (has : m.cpu.asR = true)
    (hp : m.slots.busPhase = 3) (ho : m.owned = true) :
    m.sdramDo i = m.sdram.dout := by
  obtain ⟨hextra, -⟩ := extraBusControl_of_cpu (hs.slot has (by rw [hp]; decide) ho).1
  rw [Machine.sdramDo, downloadCycle, Slots.dskReadAckInt, Slots.dskReadAckExt, hextra]
  simp

/-- The clock in which `cpu_data` is loaded for a read. -/
theorem latchesData_of_as (h : Basic c m) (hs : Slotted c m) (has : m.cpu.asR = true)
    (hi : i.config = c) (hrw : m.cpu.kernel.rw = true) :
    m.latchesData i = (m.owned && m.slots.busPhase == 3) := by
  rw [Machine.latchesData, Slots.clk8EnP, Machine.owned, hrw, if_pos rfl]
  cases ho : m.sdramSlotCpuRd && m.slots.busPhase == 3
  · rfl
  · obtain ⟨hrd, hp⟩ := (Bool.and_eq_true _ _).mp ho
    have howned : m.owned = true := by rw [Machine.owned, hrw, if_pos rfl, hrd]
    rw [Machine.cpuRdTake, take_of_owned h hs has hi (beq_iff_eq.mp hp) howned hrw]
    rfl

end Clock

section Run

variable {c : Config} {s : Machine} {u : ℕ → In} {j t : ℕ}

theorem clkenaAt_of_as (hb : Basic c (after true s u t)) (has : (after true s u t).cpu.asR = true) :
    clkenaAt true s u t = false := by
  have hs : (after true s u t).cpu.sState ≠ 7 := by
    intro h7
    have := hb.shape.as
    rw [has, h7] at this
    exact absurd this (by decide)
  rw [clkenaAt, Wrapper.clkena, (busy_of_as hb has).1, Bool.or_false, beq_eq_false_iff_ne.mpr hs,
    Bool.and_false]

theorem OwnSlot.succ (h : OwnSlot c s u j t) (hb : Basic c (after true s u t))
    (has : (after true s u t).cpu.asR = true) : OwnSlot c s u j (t + 1) where
  phase := h.phase
  latch := by rw [h.latch, after_succ, kernel_of_as hb has]
  same := h.same.succ (clkenaAt_of_as hb has)

theorem slotWord_succ (hb : Basic c (after true s u t))
    (has : (after true s u t).cpu.asR = true) :
    slotWord c s u j (t + 1) = slotWord c s u j t := by
  rw [slotWord, slotWord, after_succ (t := t), kernel_of_as hb has]

theorem Fetched.succ (h : Fetched c s u t) (hb : Basic c (after true s u t))
    (hs : Slotted c (after true s u t)) (hs' : Slotted c (after true s u (t + 1)))
    (hi : (u t).config = c) : Fetched c s u (t + 1) := by
  constructor
  · intro has hrw hp ho
    have has' := as_of_owned hs hb has (.inl ho)
    have hkernel := kernel_of_as (i := u t) hb has'
    have hlatch := hs'.latched has
    rw [after_succ, busPhase_step] at hp ⊢
    rw [after_succ, hkernel] at hrw
    have hcases : ∀ p : BitVec 2, p + 1 ≠ 0 → p = 0 ∨ p = 1 ∨ p = 2 := by decide
    have ho' := ho
    rw [after_succ, owned_of_as hb has' hi] at ho'
    rcases hcases _ hp with h0 | h1 | h2
    · refine ⟨t, by rw [h0]; rfl, ⟨h0, ?_, SameCycle.refl.succ (clkenaAt_of_as hb has')⟩, ?_, ?_⟩
      · refine (hlatch ?_ ho).2.2.1
        rw [after_succ, busPhase_step, h0]
        rfl
      · intro h
        rw [h0] at h
        exact absurd h (by decide)
      · intro h
        rw [h0] at h
        exact absurd h (by decide)
    · rw [if_neg (by rw [h1]; decide)] at ho'
      obtain ⟨j, hj, hown, -⟩ := h.slot has' hrw (by rw [h1]; decide) ho'
      rw [h1] at hj ⊢
      have hj' : t = j + 1 := hj
      refine ⟨j, by rw [hj']; rfl, hown.succ hb has', fun _ => ?_, fun h => absurd h (by decide)⟩
      rw [fetched_step hb hs has' hi h1 ho' hrw, slotWord_succ hb has', slotWord, ← hj']
    · rw [if_neg (by rw [h2]; decide)] at ho'
      obtain ⟨j, hj, hown, hfetched, -⟩ := h.slot has' hrw (by rw [h2]; decide) ho'
      rw [h2] at hj ⊢
      have hj' : t = j + 2 := hj
      refine ⟨j, by rw [hj']; rfl, hown.succ hb has', fun h => absurd h (by decide), fun _ => ?_⟩
      rw [dout_step hb hs has' h2 ho' hrw, hfetched h2, slotWord_succ hb has']
  · intro has hrw hd
    have has' := as_of_owned hs hb has (.inr hd)
    rw [after_succ, kernel_of_as hb has'] at hrw
    rw [after_succ, done_of_as hb hs has' hi] at hd
    have hdata : (after true s u (t + 1)).cpuData =
        if (after true s u t).latchesData (u t) then (after true s u t).sdramDo (u t)
        else (after true s u t).cpuData := rfl
    rw [latchesData_of_as hb hs has' hi hrw] at hdata
    cases hend : (after true s u t).owned && (after true s u t).slots.busPhase == 3
    case true =>
      -- an owned slot ends: its word is latched
      obtain ⟨ho, hp⟩ := (Bool.and_eq_true _ _).mp hend
      have hp3 := beq_iff_eq.mp hp
      obtain ⟨j, hj, hown, -, hdout⟩ := h.slot has' hrw (by rw [hp3]; decide) ho
      rw [hp3] at hj
      have hj' : t = j + 3 := hj
      refine ⟨j, by omega, hown.succ hb has', ?_⟩
      rw [hdata, hend, if_pos rfl, sdramDo_of_owned hs has' hp3 ho, hdout hp3,
        slotWord_succ hb has']
    case false =>
      rw [hend, Bool.or_false] at hd
      obtain ⟨j, hj, hown, hword⟩ := h.done has' hrw hd
      refine ⟨j, by omega, hown.succ hb has', ?_⟩
      rw [hdata, hend, if_neg (by decide), hword, slotWord_succ hb has']

theorem fetched_run (h0 : Reset s) (hu : Stream c u) (t : ℕ) : Fetched c s u t := by
  induction t with
  | zero =>
    constructor
    · exact fun has => absurd has (by rw [after, run_zero, h0.as]; decide)
    · exact fun has => absurd has (by rw [after, run_zero, h0.as]; decide)
  | succ t ih =>
    exact ih.succ (basic_run h0 hu t) (slotted_run h0 hu t) (slotted_run h0 hu (t + 1))
      (hu.config t)

/-- DTACK answers nothing but a running cycle. -/
theorem as_of_dtack {m : Machine} {i : In} (h : Basic c m) (hd : m.dtack true i = true) :
    m.cpu.asR = true := by
  by_contra has
  rw [Bool.not_eq_true] at has
  simp [Machine.dtack, Machine.selectFPU, Machine.ramOrRomDtack, Machine.rdCycle, Machine.wrCycle,
    Machine.dtackRaw, sel_of_not_as has, has, Selects.none, Selects.viaAccess, h.fixup] at hd

theorem own_of_dtack (h0 : Reset s) (hu : Stream c u)
    (hrw : (after true s u t).cpu.kernel.rw = true)
    (hd : (after true s u t).dtack true (u t) = true) : ∃ j, j + 4 ≤ t ∧ OwnSlot c s u j t := by
  have hb := basic_run h0 hu t
  have has := as_of_dtack hb hd
  rw [(memoryWires hb has (hu.config t)).dtack, hrw, if_pos rfl, Bool.and_eq_true,
    Bool.and_eq_true] at hd
  have hdone : (after true s u t).done = true := by
    rw [Machine.done, hrw, if_pos rfl]
    exact hd.1.1
  obtain ⟨j, hj, hown, -⟩ := (fetched_run h0 hu t).done has hrw hdone
  exact ⟨j, hj, hown⟩

/-- In state 6 the CPU takes the word of an own slot. -/
theorem din_of_own (h0 : Reset s) (hu : Stream c u)
    (hrw : (after true s u t).cpu.kernel.rw = true) (h6 : (after true s u t).cpu.sState = 6) :
    ∃ j, j + 3 ≤ t ∧ OwnSlot c s u j t ∧
      (after true s u t).cpu.tg68Din ((after true s u t).wires true (u t)) =
        slotWord c s u j t := by
  have hb := basic_run h0 hu t
  have hs := slotted_run h0 hu t
  have hf := fetched_run h0 hu t
  have hi := hu.config t
  have has : (after true s u t).cpu.asR = true := by
    rw [hb.shape.as, h6]
    decide
  have hdone : (after true s u t).done = true := by
    by_contra hd
    have := hs.waiting has (by simpa using hd)
    rw [h6] at this
    exact absurd this (by decide)
  have hdin : (after true s u t).cpu.tg68Din ((after true s u t).wires true (u t)) =
      if (after true s u t).latchesData (u t) then (after true s u t).sdramDo (u t)
      else (after true s u t).cpuData := by
    rw [Wrapper.tg68Din, if_neg fun h => (memory_of_as hb has).space h.1]
    change (after true s u t).cpuDataIn (u t) = _
    rw [(memoryWires hb has hi).data, hb.hold has (by rw [h6]; decide)]
    rfl
  rw [latchesData_of_as hb hs has hi hrw] at hdin
  cases hend : (after true s u t).owned && (after true s u t).slots.busPhase == 3
  case true =>
    obtain ⟨ho, hp⟩ := (Bool.and_eq_true _ _).mp hend
    have hp3 := beq_iff_eq.mp hp
    obtain ⟨j, hj, hown, -, hdout⟩ := hf.slot has hrw (by rw [hp3]; decide) ho
    rw [hp3] at hj
    have hj' : t = j + 3 := hj
    refine ⟨j, by omega, hown, ?_⟩
    rw [hdin, hend, if_pos rfl, sdramDo_of_owned hs has hp3 ho, hdout hp3]
  case false =>
    obtain ⟨j, hj, hown, hword⟩ := hf.done has hrw hdone
    refine ⟨j, by omega, hown, ?_⟩
    rw [hdin, hend, if_neg (by decide), hword]

/-- The read handshake is completed by the end of an own slot, whose address tag matches. -/
theorem match_of_done (h0 : Reset s) (hu : Stream c u)
    (hrw : (after true s u t).cpu.kernel.rw = true)
    (hd : (after true s u t).cpuSdramRdDone = false)
    (hd' : (after true s u (t + 1)).cpuSdramRdDone = true) :
    (after true s u t).cpuRdAddrMatch (u t) = true := by
  have hb := basic_run h0 hu t
  have hs := slotted_run h0 hu t
  have hnext : (after true s u (t + 1)).cpuSdramRdDone =
      (after true s u t).cpuSdramRdDoneNext (u t) := rfl
  rw [hnext] at hd'
  have has : (after true s u t).cpu.asR = true := by
    by_contra has
    simp [Machine.cpuSdramRdDoneNext, has] at hd'
  rw [rdDoneNext_of_as has, hd, Bool.false_or, Bool.and_eq_true, Bool.and_eq_true,
    beq_iff_eq] at hd'
  have ho : (after true s u t).owned = true := by rw [Machine.owned, hrw, if_pos rfl, hd'.1.1]
  exact take_of_owned hb hs has (hu.config t) hd'.1.2 ho hrw

/-- In every run of reads of RAM and ROM and writes of RAM, at any alignment to the slots and
whatever the other slots carry, for every read: DTACK is up only after a slot that has latched the
cycle's address has completed; the word the CPU latches is the one such a slot has found in memory;
and the handshake is completed with matching addresses. -/
theorem read_word (h0 : Reset s) (hu : Stream c u)
    (hrw : (after true s u t).cpu.kernel.rw = true) :
    ((after true s u t).dtack true (u t) = true → ∃ j, j + 4 ≤ t ∧ OwnSlot c s u j t) ∧
      ((after true s u t).cpu.sState = 6 → cpuEnN true (after true s u t).slots.busPhase = true →
        ∃ j, j + 3 ≤ t ∧ OwnSlot c s u j t ∧
          (after true s u (t + 1)).cpu.dinR = slotWord c s u j t) ∧
      ((after true s u t).cpuSdramRdDone = false →
        (after true s u (t + 1)).cpuSdramRdDone = true →
        (after true s u t).cpuRdAddrMatch (u t) = true) := by
  refine ⟨own_of_dtack h0 hu hrw, fun h6 h2 => ?_, match_of_done h0 hu hrw⟩
  obtain ⟨j, hj, hown, hdin⟩ := din_of_own h0 hu hrw h6
  refine ⟨j, hj, hown, ?_⟩
  have hnext : (after true s u (t + 1)).cpu.dinR =
      if !cpuEnP true (after true s u t).slots.busPhase &&
          cpuEnN true (after true s u t).slots.busPhase && (after true s u t).cpu.sState == 6
      then (after true s u t).cpu.tg68Din ((after true s u t).wires true (u t))
      else (after true s u t).cpu.dinR := rfl
  rw [hnext, cpuEnP_of_cpuEnN true _ h2, h2, h6, ← hdin]
  rfl

end Run

/-! ### Runs -/

/-- A word read of RAM is a memory cycle. -/
theorem memory_readAt : (readAt 0x1000).Memory config := by
  constructor
  · decide
  · decide
  · intro h
    cases h

/-- Reads of one word of RAM, one after the other. -/
def ramReads : ℕ → In := fun _ => { quietIn with kernelNext := readAt 0x1000 }

theorem stream_ramReads : Stream config ramReads := ⟨fun _ => rfl, fun _ => .inr memory_readAt⟩

/-- The state after the reset, every word of memory holding its own address. -/
def filledState : Machine :=
  { resetState 0 with
    sdram := { (resetState 0).sdram with mem := fun a => BitVec.ofNat 16 a } }

theorem reset_filledState : Reset filledState := by
  constructor <;> rfl

theorem read_word_ramReads :
    (∃ j, j + 4 ≤ 9 ∧ OwnSlot config filledState ramReads j 9) ∧
      ∃ j, j + 3 ≤ 11 ∧ OwnSlot config filledState ramReads j 11 ∧
        (after true filledState ramReads 12).cpu.dinR = slotWord config filledState ramReads j 11 ∧
        (after true filledState ramReads 12).cpu.dinR = 0x800 := by
  obtain ⟨j, hj, hown, hword⟩ :=
    (read_word (t := 11) reset_filledState stream_ramReads (by decide +kernel)).2.1
      (by decide +kernel) (by decide +kernel)
  refine ⟨?_, j, hj, hown, hword, by decide +kernel⟩
  exact (read_word (t := 9) reset_filledState stream_ramReads (by decide +kernel)).1
    (by decide +kernel)

end Cpu
