import LBMacTwo.Cpu.Vma

/-!
# Bus cycles on the RAM and the ROM

Streams of reads of RAM and ROM and of writes of RAM, with `status_turbo` as it is wired. No VIA is
met in them, so the configuration lines stand.

* `Kernel.Memory`, `Stream`: the cycles, and the runs;
* `Kernel.word`: the word of the SDRAM a cycle is about;
* `Basic`: what the wrapper and the slot grid keep in every clock.
-/

namespace Cpu
open Memory Clocked

/-- The address of a cycle after the HMMU. -/
def Kernel.busAddr (c : Config) (k : Kernel) : ℕ := hmmu c.hmmuActive k.addr

def Kernel.sel (c : Config) (k : Kernel) : Selects := decode c (k.busAddr c)

/-- A read of RAM or ROM, or a write of RAM. -/
structure Kernel.Memory (c : Config) (k : Kernel) : Prop where
  space : k.fc ≠ 7
  selected : ((k.sel c).ram || (k.sel c).rom) = true
  write : k.rw = false → (k.sel c).ram = true

/-- `A23-A21` are ones: the cycle is answered by VPA. -/
def Kernel.far (c : Config) (k : Kernel) : Bool := field (k.busAddr c) 23 21 == 7

/-- What a cycle asks of the memory bus. -/
def Kernel.request (c : Config) (k : Kernel) : Request where
  config := c
  cpuAddr := k.busAddr c
  cpuRam := (k.sel c).ram
  cpuRom := (k.sel c).rom
  cpuRW := k.rw
  cpuUDS := k.uds
  cpuLDS := k.lds
  cpuDataOut := k.dout
  videoAddr := 0
  hblank := false
  dskReadAddrInt := 0
  dskReadAddrExt := 0
  dioDownload := false
  dioWrite := false
  dioA := 0
  dioData := 0

/-- The word of the SDRAM the cycle is about. -/
def Kernel.word (c : Config) (k : Kernel) : ℕ := cpuWord (k.request c)

/-- The kernel issues nothing but cycles on the memory, under one configuration. -/
structure Stream (c : Config) (u : ℕ → In) : Prop where
  config : ∀ t, (u t).config = c
  kernel : ∀ t, (u t).kernelNext.idle = true ∨ (u t).kernelNext.Memory c

/-- What holds of the wrapper and the slots in every clock of such a run. -/
structure Basic (c : Config) (m : Machine) : Prop where
  shape : Shape true m.slots.busPhase m.cpu
  kernel : m.cpu.kernel.idle = true ∨ m.cpu.kernel.Memory c
  addr : m.cpu.sState ≠ 0 → m.cpu.addr = m.cpu.kernel.addr
  rw : m.cpu.asR = true → m.cpu.rwR = m.cpu.kernel.rw
  strobes : m.cpu.asR = true → m.cpu.kernel.rw = true ∨ 4 ≤ m.cpu.sState →
    m.cpu.udsR = m.cpu.kernel.uds ∧ m.cpu.ldsR = m.cpu.kernel.lds
  mark : m.slot0Mark = (m.slots.busPhase == 0)
  inStep : m.sdram.t = inStep m.slots.busPhase
  berr : m.berrOut = false
  fixup : m.fixupTake = false
  hold : m.cpu.asR = true → m.cpu.sState ≠ 2 → m.fpuDataHoldValid = false

section Wires

variable {c : Config} {m : Machine} {i : In}

theorem busy_of_as (h : Basic c m) (has : m.cpu.asR = true) :
    m.cpu.kernel.idle = false ∧ m.cpu.sState ≠ 0 := by
  have hs : m.cpu.sState ≠ 0 := by
    intro h0
    have := h.shape.as
    rw [has, h0] at this
    exact absurd this (by decide)
  refine ⟨?_, hs⟩
  by_contra hi
  exact hs (h.shape.idle (by simpa using hi))

theorem memory_of_as (h : Basic c m) (has : m.cpu.asR = true) : m.cpu.kernel.Memory c :=
  h.kernel.resolve_left (by rw [(busy_of_as h has).1]; decide)

theorem cpuAddr_of_as (h : Basic c m) (has : m.cpu.asR = true) (hi : i.config = c) :
    m.cpuAddr i = m.cpu.kernel.busAddr c := by
  rw [Machine.cpuAddr, if_neg (memory_of_as h has).space, hi, h.addr (busy_of_as h has).2]
  rfl

theorem sel_of_as (h : Basic c m) (has : m.cpu.asR = true) (hi : i.config = c) :
    m.sel i = m.cpu.kernel.sel c := by
  rw [Machine.sel, if_pos has, cpuAddr_of_as h has hi, hi]
  rfl

theorem sel_of_not_as (has : m.cpu.asR = false) : m.sel i = Selects.none := by
  rw [Machine.sel, has]
  rfl

/-- The wires of a memory cycle. -/
structure MemoryWires (c : Config) (m : Machine) (i : In) : Prop where
  fpu : m.selectFPU i = false
  any : m.anySelect i = true
  vpa : m.vpa i = m.cpu.kernel.far c
  rd : m.rdCycle i = m.cpu.kernel.rw
  wr : m.wrCycle i = !m.cpu.kernel.rw
  dtack : m.dtack true i =
    ((if m.cpu.kernel.rw then m.cpuSdramRdDone else m.cpuSdramWrDone) &&
      !m.cpu.kernel.far c && m.turboDtackEn)
  data : m.cpuDataIn i =
    if m.fpuDataHoldValid then i.fpuDataHold
    else if m.latchesData i then m.sdramDo i else m.cpuData

theorem memoryWires (h : Basic c m) (has : m.cpu.asR = true) (hi : i.config = c) :
    MemoryWires c m i := by
  have hk := memory_of_as h has
  have hsel := sel_of_as h has hi
  have haddr := cpuAddr_of_as h has hi
  have hex := (decode_exclusive c (m.cpu.kernel.busAddr c)).mem
  rw [← Kernel.sel] at hex
  have hany := hk.selected
  obtain ⟨hvia, hnubus, hscsi, hdma, hscc, hiwm, hasc⟩ := hex hany
  have hfc : (m.cpu.kernel.fc == 7) = false := beq_eq_false_iff_ne.mpr hk.space
  have hfpu : m.selectFPU i = false := by
    simp only [Machine.selectFPU, hfc, Bool.and_false, Bool.false_and]
  have hvias : (m.cpu.kernel.sel c).via = false ∧ (m.cpu.kernel.sel c).via2 = false :=
    (Bool.or_eq_false_iff).mp hvia
  have hanysel : m.anySelect i = true := by
    rcases (Bool.or_eq_true _ _).mp hany with h | h <;> simp [Machine.anySelect, hsel, h]
  have hrd : m.rdCycle i = m.cpu.kernel.rw := by
    rw [Machine.rdCycle, hsel, hany, has, h.rw has]
    simp
  have hwr : m.wrCycle i = !m.cpu.kernel.rw := by
    rw [Machine.wrCycle, hsel, hany, has, h.rw has]
    simp
  refine ⟨hfpu, hanysel, ?_, hrd, hwr, ?_, ?_⟩
  · rw [Machine.vpa, if_neg fun hf => hk.space hf.1, hsel, hvia, has, haddr]
    simp [Kernel.far]
  · rw [Machine.dtack, hfpu, hsel, hnubus, hdma, hvia, h.fixup]
    simp only [Machine.ramOrRomDtack, hrd, hwr, Machine.dtackRaw, has, haddr, Kernel.far,
      Bool.false_eq_true, if_false]
    cases m.cpu.kernel.rw <;> cases m.cpuSdramRdDone <;> cases m.cpuSdramWrDone <;>
      simp [bne]
  · rw [Machine.cpuDataIn, h.fixup, hfpu, hanysel, Machine.dataControllerDataOut, hsel, hasc, hiwm,
      hvias.1, hvias.2, hnubus, hscc, hscsi]
    simp

/-- In a CPU slot the SDRAM controller is given the running cycle. -/
theorem cmd_of_as (h : Basic c m) (has : m.cpu.asR = true) (hi : i.config = c)
    (hslot : m.slots.cpuBusControl = true) :
    m.cmd i = {
      addr := m.cpu.kernel.word c
      din := m.cpu.kernel.dout
      uds := m.cpu.udsR
      lds := m.cpu.ldsR
      we := !m.cpu.kernel.rw
      oe := m.cpu.kernel.rw } := by
  have hk := memory_of_as h has
  have hsel := sel_of_as h has hi
  have haddr := cpuAddr_of_as h has hi
  have hrw := h.rw has
  have hword : cpuWord (m.request i) = m.cpu.kernel.word c := by
    simp only [Kernel.word, cpuWord, cpuMacAddr, Machine.request, Kernel.request, hsel, haddr, hrw,
      hi]
    rfl
  have hwe : ((m.cpu.kernel.sel c).ram && !m.cpu.kernel.rw) = !m.cpu.kernel.rw := by
    cases hw : m.cpu.kernel.rw
    · rw [hk.write hw]
      rfl
    · exact Bool.and_false _
  rw [Machine.cmd, command_of_cpu hslot, hword]
  simp only [Machine.request, hsel, hrw, hk.selected, Bool.true_and, hwe]

end Wires

/-! ### One clock -/

section Step

variable {c : Config} {m : Machine} {i : In}

/-- With turbo every clock carries an edge: of `phi1` in the even phases, of `phi2` in the odd. -/
theorem phase_cases (p : BitVec 2) :
    (cpuEnP true p = true ∧ cpuEnN true p = false ∧ beforePhi2 true p = false ∧
      beforePhi2 true (p + 1) = true ∧ (p = 0 ∨ p = 2)) ∨
    (cpuEnP true p = false ∧ cpuEnN true p = true ∧ beforePhi2 true p = true ∧
      beforePhi2 true (p + 1) = false ∧ (p = 1 ∨ p = 3)) := by
  revert p
  decide

theorem wires_phi1 : (m.wires true i).phi1 = cpuEnP true m.slots.busPhase := rfl

theorem wires_phi2 : (m.wires true i).phi2 = cpuEnN true m.slots.busPhase := rfl

/-- The kernel's outputs stand unless it is enabled, and then the states start again. -/
theorem kernel_step :
    (m.step true i).cpu.kernel = m.cpu.kernel ∨
      (m.step true i).cpu.kernel = i.kernelNext ∧ (m.step true i).cpu.sState = 0 := by
  cases hk : m.cpu.clkena (m.wires true i)
  case false =>
    left
    simp [Machine.step, Wrapper.step, hk]
  case true =>
    right
    refine ⟨if_pos hk, ?_⟩
    obtain ⟨h1, h7⟩ := (Bool.and_eq_true _ _).mp hk
    change (m.cpu.step (m.wires true i)).sState = 0
    cases hidle : m.cpu.kernel.idle
    case true => exact sState_idle (.inl h1) hidle
    case false =>
      rw [hidle, Bool.or_false, beq_iff_eq] at h7
      rw [sState_phi1 h1 hidle, h7]
      rfl

theorem kernel_step_of_ne (h : (m.step true i).cpu.sState ≠ 0) :
    (m.step true i).cpu.kernel = m.cpu.kernel :=
  kernel_step.resolve_right fun hk => h hk.2

/-- AS after a clock: it falls out of state 1 and rises out of state 6. -/
theorem as_step :
    (m.step true i).cpu.asR = true → m.cpu.asR = true ∨
      (m.cpu.sState = 1 ∧ m.cpu.kernel.idle = false ∧ cpuEnP true m.slots.busPhase = true ∧
        (m.step true i).cpu.sState = 2) := by
  intro has
  by_cases h1 : m.cpu.sState = 1 ∧ m.cpu.kernel.idle = false ∧
      cpuEnP true m.slots.busPhase = true
  · right
    refine ⟨h1.1, h1.2.1, h1.2.2, ?_⟩
    change (m.cpu.step (m.wires true i)).sState = 2
    rw [sState_phi1 h1.2.2 h1.2.1, h1.1]
    rfl
  · left
    have hnext : (m.step true i).cpu.asR = m.cpu.asNext (m.wires true i) := rfl
    rw [hnext, Wrapper.asNext, wires_phi1, wires_phi2] at has
    split_ifs at has with hp hs h2
    · exact absurd ⟨hs.1, hs.2, hp⟩ h1
    · exact has
    · exact has

theorem strobe_step (h : Basic c m) {strobe now : Bool}
    (hold : m.cpu.asR = true → m.cpu.kernel.rw = true ∨ 4 ≤ m.cpu.sState → now = strobe)
    (has : (m.step true i).cpu.asR = true)
    (hrw : m.cpu.kernel.rw = true ∨ 4 ≤ (m.step true i).cpu.sState) :
    m.cpu.strobeNext (m.wires true i) strobe now = strobe := by
  have hs' := (shape_step (i := i) h.shape).as
  rw [has] at hs'
  rw [Wrapper.strobeNext, wires_phi1, wires_phi2]
  rcases as_step has with h1 | ⟨h1, hidle, hp, h2⟩
  · have hidle := (busy_of_as h h1).1
    have hs := h.shape.as
    rw [h1] at hs
    rcases phase_cases m.slots.busPhase with ⟨hp1, hp2, hp, -⟩ | ⟨hp1, hp2, hp, -⟩
    · rw [hp1, if_pos rfl]
      split_ifs with hst
      · rfl
      · apply hold h1
        -- in states 1 and 3 the strobe is set, or a read's has been set before
        rcases h.shape.odd hp hidle with h | h | h | h | h
        · rw [h] at hs
          exact absurd hs (by decide)
        · left
          by_contra hw
          exact hst ⟨hidle, .inr ⟨h, by simpa using hw⟩⟩
        · exact .inr (by rw [h]; decide)
        · exact .inr (by rw [h]; decide)
        · rw [h] at hs
          exact absurd hs (by decide)
    · have h6 : m.cpu.sState ≠ 6 := by
        intro h6
        have h1' : (m.wires true i).phi1 = false := hp1
        have h2' : (m.wires true i).phi2 = true := hp2
        have : (m.step true i).cpu.sState = 7 := by
          change (m.cpu.step (m.wires true i)).sState = 7
          rw [sState_phi2_of_ne h1' h2' hidle (by rw [h6]; decide), h6]
          rfl
        rw [this] at hs'
        exact absurd hs' (by decide)
      have h6' : (m.cpu.sState == 6) = false := beq_eq_false_iff_ne.mpr h6
      rw [hp1, if_neg (by decide), hp2, h6', if_neg (by decide)]
      apply hold h1
      rcases h.shape.even hp with h0 | h0 | h0 | h0
      · rw [h0] at hs
        exact absurd hs (by decide)
      · refine hrw.imp_right fun h4 => ?_
        have h1' : (m.wires true i).phi1 = false := hp1
        have h2' : (m.wires true i).phi2 = true := hp2
        have : (m.step true i).cpu.sState = 3 := by
          change (m.cpu.step (m.wires true i)).sState = 3
          rw [sState_phi2_of_ne h1' h2' hidle (by rw [h0]; decide), h0]
          rfl
        rw [this] at h4
        exact absurd h4 (by decide)
      · exact .inr (by rw [h0]; decide)
      · exact absurd h0 h6
  · rw [h2] at hrw
    rw [hp, if_pos rfl, if_pos ⟨hidle, .inl ⟨h1, hrw.resolve_right (by decide)⟩⟩]

theorem Basic.step (h : Basic c m) (hi : i.config = c)
    (hk : i.kernelNext.idle = true ∨ i.kernelNext.Memory c) : Basic c (m.step true i) := by
  have hshape := shape_step (i := i) h.shape
  refine ⟨hshape, ?_, ?_, ?_, ?_, ?_, inStep_clock h.inStep, ?_, ?_, ?_⟩
  · rcases kernel_step (m := m) (i := i) with h' | h'
    · rw [h']
      exact h.kernel
    · rw [h'.1]
      exact hk
  · intro hs
    rw [kernel_step_of_ne hs]
    rfl
  · intro has
    have hs := (shape_step (i := i) h.shape).as
    rw [has] at hs
    have hne : (m.step true i).cpu.sState ≠ 0 := by
      intro h0
      rw [h0] at hs
      exact absurd hs (by decide)
    rw [kernel_step_of_ne hne]
    have hnext : (m.step true i).cpu.rwR = m.cpu.rwNext (m.wires true i) := rfl
    rw [hnext, Wrapper.rwNext]
    rcases as_step has with h1 | ⟨h1, hidle, hp, -⟩
    · have hs := h.shape.as
      rw [h1] at hs
      split_ifs with _ _ h7
      · rfl
      · rw [h7] at hs
        exact absurd hs (by decide)
      · exact h.rw h1
      · exact h.rw h1
    · rw [wires_phi1, hp, if_pos rfl, if_pos ⟨h1, hidle⟩]
  · intro has hrw
    have hs := hshape.as
    rw [has] at hs
    have hne : (m.step true i).cpu.sState ≠ 0 := by
      intro h0
      rw [h0] at hs
      exact absurd hs (by decide)
    rw [kernel_step_of_ne hne] at hrw ⊢
    exact ⟨strobe_step h (fun h1 h2 => (h.strobes h1 h2).1) has hrw,
      strobe_step h (fun h1 h2 => (h.strobes h1 h2).2) has hrw⟩
  · change m.slots.clk8EnP = (m.slots.busPhase + 1 == 0)
    unfold Slots.clk8EnP
    generalize m.slots.busPhase = p
    revert p
    decide
  · exact berrOut_step (fun _ => h.berr) fun has => (memoryWires h has hi).any
  · change m.fixupTakeNext i = false
    unfold Machine.fixupTakeNext
    cases has : m.cpu.asR
    · rfl
    · simp [Machine.berrExpires, (memoryWires h has hi).any, h.fixup]
  · intro has h2
    have has' := (as_step has).resolve_right fun h' => h2 h'.2.2.2
    simp [Machine.step, has', (memoryWires h has' hi).fpu]

theorem Reset.basic (h : Reset m) : Basic c m where
  shape := h.shape
  kernel := .inl h.idle
  addr hs := absurd h.sState hs
  rw has := absurd has (by rw [h.as]; decide)
  strobes has := absurd has (by rw [h.as]; decide)
  mark := h.slot0Mark
  inStep := h.sdram
  berr := h.berr
  fixup := h.fixup
  hold has := absurd has (by rw [h.as]; decide)

theorem basic_run {u : ℕ → In} (h0 : Reset m) (hu : Stream c u) (t : ℕ) :
    Basic c (after true m u t) := by
  induction t with
  | zero => exact h0.basic
  | succ t ih => exact ih.step (hu.config t) (hu.kernel t)

end Step

end Cpu
