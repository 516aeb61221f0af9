import LBMacTwo.Cpu.SdramRead

/-!
# Writes of the SDRAM

* `Steady`: a download that writes in a slot stays up in it;
* `cpu_slot_mem`: what a CPU slot changes in memory, `ram_step_of_not_cpu`: the other slots do not
  change the RAM;
* `Committed`: the word of a write cycle, from its first clock to its last;
* `write_commits`: a write cycle leaves its bytes in its word and the other byte as it was, a CPU slot
  changes no other word, and no write is completed by the timeout.
-/

namespace Cpu
open Memory Clocked

/-- `ioctl_wait` is up as long as a word waits for its slot, and it keeps the HPS from ending the
download. -/
def Steady (s : Machine) (u : ℕ → In) : Prop :=
  ∀ t, (after true s u t).slots.extraBusControl = true → (after true s u t).slots.busPhase = 0 →
    (u t).dioDownload = true → (u t).dioWrite = true → (u (t + 1)).dioDownload = true

@[simp] theorem merge_merge (uds lds : Bool) (old new : Word) :
    merge uds lds (merge uds lds old new) new = merge uds lds old new := by
  cases uds <;> cases lds <;> simp [merge]

theorem word_lt_of_write {c : Config} {k : Kernel} (hw : k.rw = false) : k.word c < 2 ^ 22 := by
  have := cpuMacAddr_lt (k.request c)
  have hrw : (k.request c).cpuRW = false := hw
  rw [Kernel.word, cpuWord, hrw, Bool.and_false, if_neg (by decide)]
  omega

theorem two_pow_le_cell {row addr : ℕ} (h : addr / 2 ^ 22 % 2 = 1) : 2 ^ 22 ≤ cell row addr := by
  rw [cell, h]
  omega

section Clock

variable {c : Config} {m : Machine} {i : In}

/-- Memory changes in the second clock of a slot only. -/
theorem mem_step_of_ne (h : Basic c m) (hp : m.slots.busPhase ≠ 1) :
    (m.step true i).sdram.mem = m.sdram.mem := by
  have hcases : ∀ p : BitVec 2, p ≠ 1 → p = 0 ∨ p = 2 ∨ p = 3 := by decide
  have ht := h.inStep
  have hclk : m.slots.clk8 = decide (m.slots.busPhase < 2) := rfl
  rcases hcases _ hp with hp | hp | hp
  · rw [hp] at ht hclk
    rw [sdram_step, hclk]
    change (m.sdram.clock true (m.cmd i)).mem = _
    rw [clock_zero _ ht]
  · rw [hp] at ht hclk
    rw [sdram_step, hclk]
    change (m.sdram.clock false (m.cmd i)).mem = _
    rw [clock_four _ ht]
  · rw [hp] at ht hclk
    rw [sdram_step, hclk]
    change (m.sdram.clock false (m.cmd i)).mem = _
    rw [clock_six _ ht]

theorem mem_step_of_one (h : Basic c m) (hp : m.slots.busPhase = 1) :
    (m.step true i).sdram.mem =
      if m.sdram.weLatch then
        Function.update m.sdram.mem (cell m.sdram.row (m.cmd i).addr)
          (merge (m.cmd i).uds (m.cmd i).lds (m.sdram.mem (cell m.sdram.row (m.cmd i).addr))
            (m.cmd i).din)
      else m.sdram.mem := by
  have ht := h.inStep
  rw [sdram_step, Slots.clk8]
  rw [hp] at ht ⊢
  exact congrArg Sdram.mem (clock_two (m.cmd i) ht)

/-- The write enable of a slot is latched in its first clock. -/
theorem weLatch_step (h : Basic c m) (hp : m.slots.busPhase = 0) :
    (m.step true i).sdram.weLatch = (m.cmd i).we := by
  have ht := h.inStep
  rw [sdram_step, Slots.clk8]
  rw [hp] at ht ⊢
  exact congrArg Sdram.weLatch (clock_zero (m.cmd i) ht)

/-- In a CPU slot nothing but a running write cycle raises the write enable. -/
theorem write_of_we (h : Basic c m) (hi : i.config = c) (hslot : m.slots.cpuBusControl = true)
    (hwe : (m.cmd i).we = true) : m.cpu.asR = true ∧ m.cpu.kernel.rw = false := by
  cases has : m.cpu.asR
  case true =>
    rw [cmd_of_as h has hi hslot] at hwe
    exact ⟨rfl, by simpa using hwe⟩
  case false =>
    rw [Machine.cmd, command_of_cpu hslot] at hwe
    simp [Machine.request, sel_of_not_as has, Selects.none] at hwe

/-- AS does not rise in the first clock of a slot. -/
theorem as_step_of_zero (hp : m.slots.busPhase = 0) (has : m.cpu.asR = true) :
    (m.step true i).cpu.asR = true := by
  change m.cpu.asNext (m.wires true i) = true
  rw [Wrapper.asNext, wires_phi1, hp, has]
  exact ite_self _

/-- AS rises out of state 6. -/
theorem rise_of_as (h : Basic c m) (has : m.cpu.asR = true)
    (has' : (m.step true i).cpu.asR = false) :
    m.cpu.sState = 6 ∧ (m.step true i).cpu.sState = 7 := by
  have h6 : m.cpu.sState = 6 := by
    have hnext : (m.step true i).cpu.asR = m.cpu.asNext (m.wires true i) := rfl
    rw [hnext, Wrapper.asNext] at has'
    split_ifs at has' with h1 h2 h3
    · rw [has] at has'
      cases has'
    · exact beq_iff_eq.mp ((Bool.and_eq_true _ _).mp h3).2
    · rw [has] at has'
      cases has'
  refine ⟨h6, ?_⟩
  rw [sState_of_as h has, h6, if_neg fun h => absurd h.1 (by decide)]
  rfl

/-- The second clock of an owned slot of a write cycle. -/
theorem mem_step_of_owned (h : Basic c m) (hs : Slotted c m) (has : m.cpu.asR = true)
    (hi : i.config = c) (hp : m.slots.busPhase = 1) (ho : m.owned = true)
    (hw : m.cpu.kernel.rw = false) :
    (m.step true i).sdram.mem =
      Function.update m.sdram.mem (m.cpu.kernel.word c)
        (merge m.cpu.kernel.uds m.cpu.kernel.lds (m.sdram.mem (m.cpu.kernel.word c))
          m.cpu.kernel.dout) := by
  obtain ⟨hslot, -, h4⟩ := hs.slot has (by rw [hp]; decide) ho
  obtain ⟨huds, hlds⟩ := h.strobes has (.inr h4)
  obtain ⟨-, hwe, -⟩ := hs.latched has hp ho
  rw [mem_step_of_one h hp, hwe, hw, cell_of_owned h hs has hi hp ho, cmd_of_as h has hi hslot,
    huds, hlds]
  rfl

end Clock

section Run

variable {c : Config} {s : Machine} {u : ℕ → In} {a b t : ℕ}

/-- The second clock of a slot whose first clock lies in the run. -/
theorem owned_of_weLatch (h0 : Reset s) (hu : Stream c u)
    (hp : (after true s u t).slots.busPhase = 0)
    (hslot : (after true s u t).slots.cpuBusControl = true)
    (hwe : (after true s u (t + 1)).sdram.weLatch = true) :
    (after true s u t).cpu.asR = true ∧ (after true s u t).cpu.kernel.rw = false ∧
      (after true s u (t + 1)).cpu.asR = true ∧ (after true s u (t + 1)).owned = true := by
  have hb := basic_run h0 hu t
  rw [after_succ, weLatch_step hb hp] at hwe
  obtain ⟨has, hw⟩ := write_of_we hb (hu.config t) hslot hwe
  refine ⟨has, hw, as_step_of_zero hp has, ?_⟩
  rw [after_succ, owned_of_as hb has (hu.config t), if_pos hp]
  exact hslot

/-- What a CPU slot changes in memory is the word of the write cycle that was running when it
started. -/
theorem cpu_slot_mem (h0 : Reset s) (hu : Stream c u)
    (hp : (after true s u t).slots.busPhase = 0)
    (hslot : (after true s u t).slots.cpuBusControl = true) (w : ℕ)
    (hne : (after true s u (t + 4)).sdram.mem w ≠ (after true s u t).sdram.mem w) :
    (after true s u t).cpu.asR = true ∧ (after true s u t).cpu.kernel.rw = false ∧
      w = (after true s u t).cpu.kernel.word c := by
  have hb := basic_run h0 hu
  have hp1 : (after true s u (t + 1)).slots.busPhase = 1 := by
    rw [after_succ, busPhase_step, hp]
    rfl
  have hp2 : (after true s u (t + 2)).slots.busPhase = 2 := by
    rw [after_succ, busPhase_step, hp1]
    rfl
  have hp3 : (after true s u (t + 3)).slots.busPhase = 3 := by
    rw [after_succ, busPhase_step, hp2]
    rfl
  rw [after_succ (t := t + 3), mem_step_of_ne (hb (t + 3)) (by rw [hp3]; decide),
    after_succ (t := t + 2), mem_step_of_ne (hb (t + 2)) (by rw [hp2]; decide),
    after_succ (t := t + 1)] at hne
  have hzero : (after true s u (t + 1)).sdram.mem = (after true s u t).sdram.mem := by
    rw [after_succ, mem_step_of_ne (hb t) (by rw [hp]; decide)]
  cases hwe : (after true s u (t + 1)).sdram.weLatch
  case false =>
    rw [mem_step_of_one (hb (t + 1)) hp1, hwe, if_neg (by decide), hzero] at hne
    exact absurd rfl hne
  case true =>
    obtain ⟨has, hw, has', ho⟩ := owned_of_weLatch h0 hu hp hslot hwe
    have hkernel : (after true s u (t + 1)).cpu.kernel = (after true s u t).cpu.kernel :=
      kernel_of_as (hb t) has
    refine ⟨has, hw, ?_⟩
    by_contra hword
    rw [mem_step_of_owned (hb (t + 1)) (slotted_run h0 hu (t + 1)) has' (hu.config (t + 1)) hp1 ho
      (by rw [hkernel]; exact hw), hkernel, Function.update_of_ne hword, hzero] at hne
    exact absurd rfl hne

/-- What the controller latches in the first clock of a slot that is not the CPU's lets it write
into the images and the ROM only. -/
theorem ram_le_cell (h0 : Reset s) (hu : Stream c u) (hsteady : Steady s u)
    (hp : (after true s u t).slots.busPhase = 0)
    (hslot : (after true s u t).slots.cpuBusControl = false)
    (hwe : (after true s u (t + 1)).sdram.weLatch = true) :
    2 ^ 22 ≤ cell (after true s u (t + 1)).sdram.row
      ((after true s u (t + 1)).cmd (u (t + 1))).addr := by
  rw [after_succ, weLatch_step (basic_run h0 hu t) hp] at hwe
  have hdown : downloadCycle (after true s u t).slots ((after true s u t).request (u t)) =
      true := by
    by_contra hd
    rw [Machine.cmd, command] at hwe
    simp [hd, ramWE, hslot] at hwe
  have hwrite : (u t).dioWrite = true := by
    rw [Machine.cmd, command] at hwe
    simp only [hdown, if_true] at hwe
    exact hwe
  obtain ⟨hd, hextra⟩ := (Bool.and_eq_true _ _).mp hdown
  have hextra' : (after true s u (t + 1)).slots.extraBusControl = true := by
    have hcycle : (after true s u (t + 1)).slots.busCycle =
        if (after true s u t).slots.busPhase = 3 then (after true s u t).slots.busCycle + 1
        else (after true s u t).slots.busCycle := rfl
    rw [Slots.extraBusControl, hcycle, hp, if_neg (by decide)]
    exact hextra
  have hdown' : downloadCycle (after true s u (t + 1)).slots
      ((after true s u (t + 1)).request (u (t + 1))) = true :=
    (Bool.and_eq_true _ _).mpr ⟨hsteady t hextra hp hd hwrite, hextra'⟩
  apply two_pow_le_cell
  rw [Machine.cmd, command]
  simp only [hdown', if_true]
  omega

/-- The RAM stands but for the owned slots of write cycles. -/
theorem ram_step (h0 : Reset s) (hu : Stream c u) (hsteady : Steady s u) (t : ℕ) {w : ℕ}
    (hw : w < 2 ^ 22) :
    (after true s u (t + 2)).sdram.mem w = (after true s u (t + 1)).sdram.mem w ∨
      ((after true s u (t + 1)).slots.busPhase = 1 ∧ (after true s u (t + 1)).cpu.asR = true ∧
        (after true s u (t + 1)).owned = true) := by
  have hb := basic_run h0 hu (t + 1)
  by_cases hp1 : (after true s u (t + 1)).slots.busPhase = 1
  · have hp : (after true s u t).slots.busPhase = 0 := by
      rw [after_succ, busPhase_step] at hp1
      bv_omega
    have hmem := mem_step_of_one (i := u (t + 1)) hb hp1
    rw [← after_succ] at hmem
    rw [hmem]
    cases hwe : (after true s u (t + 1)).sdram.weLatch
    case false =>
      left
      rw [if_neg (by decide)]
    case true =>
      rw [if_pos rfl]
      cases hslot : (after true s u t).slots.cpuBusControl
      case false =>
        left
        have hcell := ram_le_cell h0 hu hsteady hp hslot hwe
        exact Function.update_of_ne (by omega) _ _
      case true =>
        right
        exact ⟨hp1, (owned_of_weLatch h0 hu hp hslot hwe).2.2⟩
  · left
    rw [after_succ (t := t + 1), mem_step_of_ne hb hp1]

/-! ### A write cycle -/

/-- The running cycle has had the second clock of an owned slot. -/
def Machine.committed (m : Machine) : Bool :=
  if m.cpu.asR then m.done || (m.owned && (m.slots.busPhase == 2 || m.slots.busPhase == 3))
  else m.cpu.sState == 7

/-- Before a write commits its word is the old one, then the one written. -/
structure Committed (c : Config) (s : Machine) (u : ℕ → In) (a t : ℕ) : Prop where
  word : (after true s u t).sdram.mem ((after true s u t).cpu.kernel.word c) =
    if (after true s u t).committed then
      merge (after true s u t).cpu.kernel.uds (after true s u t).cpu.kernel.lds
        ((after true s u a).sdram.mem ((after true s u t).cpu.kernel.word c))
        (after true s u t).cpu.kernel.dout
    else (after true s u a).sdram.mem ((after true s u t).cpu.kernel.word c)

/-- Where the second clock of no owned slot passes, a running cycle commits nothing. -/
theorem committed_step {m : Machine} {i : In} (hs : Slotted c m) (hb : Basic c m)
    (hi : i.config = c) (has : m.cpu.asR = true) (hno : ¬ (m.slots.busPhase = 1 ∧ m.owned = true)) :
    (m.step true i).committed = m.committed := by
  have hdone := done_of_as hb hs has hi
  have howned := owned_of_as hb has hi
  have hold : m.committed =
      (m.done || (m.owned && (m.slots.busPhase == 2 || m.slots.busPhase == 3))) := by
    rw [Machine.committed, if_pos has]
  cases has' : (m.step true i).cpu.asR
  case true =>
    have hnew : (m.step true i).committed = ((m.step true i).done || ((m.step true i).owned &&
        (m.slots.busPhase + 1 == 2 || m.slots.busPhase + 1 == 3))) := by
      rw [Machine.committed, if_pos has']
      rfl
    rw [hnew, hold, hdone, howned]
    revert hno
    generalize m.done = d
    generalize m.owned = o
    generalize m.slots.cpuBusControl = cs
    generalize m.slots.busPhase = p
    revert p cs o d
    decide
  case false =>
    -- a waiting cycle does not get to state 6
    obtain ⟨h6, h7⟩ := rise_of_as hb has has'
    have hd : m.done = true := by
      by_contra hd
      have := hs.waiting has (by simpa using hd)
      rw [h6] at this
      exact absurd this (by decide)
    rw [Machine.committed, has', h7, hold, hd]
    rfl

theorem committed_of_owned {m : Machine} {i : In} (hb : Basic c m)
    (hi : i.config = c) (has : m.cpu.asR = true) (hp : m.slots.busPhase = 1)
    (ho : m.owned = true) : (m.step true i).committed = true := by
  cases has' : (m.step true i).cpu.asR
  case true =>
    have hnew : (m.step true i).owned = true := by
      rw [owned_of_as hb has hi, if_neg (by rw [hp]; decide)]
      exact ho
    rw [Machine.committed, if_pos has', hnew, busPhase_step, hp]
    exact Bool.or_true _
  case false =>
    rw [Machine.committed, has', (rise_of_as hb has has').2]
    rfl

/-- Before its AS has fallen a cycle has committed nothing. -/
theorem not_committed_of_not_as {m : Machine} {i : In} (hs : Slotted c m) (hb : Basic c m)
    (has : m.cpu.asR = false) (hidle : m.cpu.kernel.idle = false)
    (hk : m.cpu.clkena (m.wires true i) = false) :
    m.committed = false ∧ (m.step true i).committed = false := by
  have has0 := hb.shape.as
  rw [has] at has0
  have hnot7 : m.cpu.sState ≠ 7 := by
    intro h7
    have hp : beforePhi2 true m.slots.busPhase = false := by
      by_contra hp
      rcases hb.shape.even (by simpa using hp) with h | h | h | h <;> rw [h7] at h <;>
        exact absurd h (by decide)
    rcases phase_cases m.slots.busPhase with ⟨h1, -⟩ | ⟨-, -, hp', -⟩
    · rw [Wrapper.clkena, wires_phi1, h1, h7] at hk
      exact absurd hk (by simp)
    · rw [hp] at hp'
      cases hp'
  have h01 : m.cpu.sState = 0 ∨ m.cpu.sState = 1 := by
    revert has0 hnot7
    generalize m.cpu.sState = st
    revert st
    decide
  refine ⟨?_, ?_⟩
  · rw [Machine.committed, has]
    rcases h01 with h | h <;> rw [h] <;> rfl
  · cases has' : (m.step true i).cpu.asR
    case true =>
      have hfall := (as_step has').resolve_left (by rw [has]; decide)
      obtain ⟨hown, hdone, -⟩ := fall_step (i := i) hs hb hfall.1 hfall.2.2.1
      rw [Machine.committed, has', hown, hdone]
      rfl
    case false =>
      rw [Machine.committed, has']
      have hs' : (m.step true i).cpu.sState = m.cpu.sState + 1 := by
        have h4 : m.cpu.sState ≠ 4 := by
          rcases h01 with h | h <;> rw [h] <;> decide
        change (m.cpu.step (m.wires true i)).sState = _
        rcases phase_cases m.slots.busPhase with ⟨h1, -⟩ | ⟨h1, h2, -⟩
        · rw [sState_phi1 (i := m.wires true i) h1 hidle, if_neg h4]
        · exact sState_phi2_of_ne (i := m.wires true i) h1 h2 hidle h4
      rw [hs']
      rcases h01 with h | h <;> rw [h] <;> rfl

/-- The kernel's outputs stand in a bus cycle. -/
theorem kernel_of_not_clkena (hk : clkenaAt true s u t = false) :
    (after true s u (t + 1)).cpu.kernel = (after true s u t).cpu.kernel :=
  if_neg (by
    unfold clkenaAt at hk
    rw [hk]
    decide)

theorem Committed.succ (h : Committed c s u a (t + 1)) (h0 : Reset s) (hu : Stream c u)
    (hsteady : Steady s u) (hidle : (after true s u (t + 1)).cpu.kernel.idle = false)
    (hk : clkenaAt true s u (t + 1) = false)
    (hw : (after true s u (t + 1)).cpu.kernel.rw = false) : Committed c s u a (t + 2) := by
  have hb := basic_run h0 hu (t + 1)
  have hs := slotted_run h0 hu (t + 1)
  have hi := hu.config (t + 1)
  have hkernel : (after true s u (t + 2)).cpu.kernel = (after true s u (t + 1)).cpu.kernel :=
    kernel_of_not_clkena hk
  have hstep : after true s u (t + 2) = (after true s u (t + 1)).step true (u (t + 1)) := rfl
  constructor
  rw [hkernel]
  have hword := h.word
  cases has : (after true s u (t + 1)).cpu.asR
  case false =>
    obtain ⟨hno, hno'⟩ := not_committed_of_not_as (i := u (t + 1)) hs hb has hidle hk
    rw [hno] at hword
    rw [hstep, hno', ← hstep]
    rcases ram_step h0 hu hsteady t (word_lt_of_write hw) with hmem | ⟨-, has', -⟩
    · rw [hmem, hword]
    · rw [has] at has'
      cases has'
  case true =>
    by_cases hown : (after true s u (t + 1)).slots.busPhase = 1 ∧
        (after true s u (t + 1)).owned = true
    · -- the second clock of an owned slot
      have hmem := mem_step_of_owned hb hs has hi hown.1 hown.2 hw
      rw [← hstep] at hmem
      have hcom := committed_of_owned hb hi has hown.1 hown.2
      rw [← hstep] at hcom
      rw [hcom, if_pos rfl, hmem, Function.update_self, hword]
      split_ifs
      · exact merge_merge _ _ _ _
      · rfl
    · have hcom := committed_step hs hb hi has hown
      rw [← hstep] at hcom
      rw [hcom]
      rcases ram_step h0 hu hsteady t (word_lt_of_write hw) with hmem | ⟨hp, -, ho⟩
      · rw [hmem, hword]
      · exact absurd ⟨hp, ho⟩ hown

/-- A write cycle leaves its bytes in its word, the other lanes as they were. -/
theorem word_of_write (h0 : Reset s) (hu : Stream c u) (hsteady : Steady s u)
    (hcycle : Cycle true s u a b) (hw : (after true s u b).cpu.kernel.rw = false) :
    (after true s u b).sdram.mem ((after true s u b).cpu.kernel.word c) =
      merge (after true s u b).cpu.kernel.uds (after true s u b).cpu.kernel.lds
        ((after true s u a).sdram.mem ((after true s u b).cpu.kernel.word c))
        (after true s u b).cpu.kernel.dout := by
  have hsame : ∀ t, a ≤ t → t ≤ b →
      (after true s u t).cpu.kernel = (after true s u b).cpu.kernel := by
    intro t hat htb
    induction htb using Nat.decreasingInduction with
    | self => rfl
    | of_succ t htb ih =>
      rw [← ih (by omega), kernel_of_not_clkena (hcycle.same.2 t hat htb)]
  have hrun : ∀ t, a ≤ t → t ≤ b → Committed c s u a t := by
    intro t hat
    induction t, hat using Nat.le_induction with
    | base =>
      intro _
      have h00 := hcycle.sState_start h0
      have has : (after true s u a).cpu.asR = false := by
        rw [((basic_run h0 hu a).shape).as, h00]
        decide
      constructor
      rw [Machine.committed, has, h00]
      rfl
    | succ t hat ih =>
      intro htb
      -- the machine leaves its reset with the kernel idle
      cases t with
      | zero =>
        have hbusy := hcycle.busy h0 hat (by omega)
        have hidle : (after true s u 0).cpu.kernel.idle = true := h0.idle
        rw [hidle] at hbusy
        cases hbusy
      | succ t =>
        exact (ih (by omega)).succ h0 hu hsteady (hcycle.busy h0 hat (by omega))
          (hcycle.same.2 (t + 1) hat (by omega)) (by rw [hsame (t + 1) hat (by omega)]; exact hw)
  have has : (after true s u b).cpu.asR = false := by
    rw [((basic_run h0 hu b).shape).as, hcycle.last]
    decide
  have hend : (after true s u b).committed = true := by
    rw [Machine.committed, has, hcycle.last]
    rfl
  have hword := (hrun b hcycle.same.1 le_rfl).word
  rw [hend, if_pos rfl] at hword
  exact hword

theorem bytes_of_write (h0 : Reset s) (hu : Stream c u) (hsteady : Steady s u)
    (hcycle : Cycle true s u a b) (hw : (after true s u b).cpu.kernel.rw = false) :
    highByte ((after true s u b).sdram.mem ((after true s u b).cpu.kernel.word c)) =
        (if (after true s u b).cpu.kernel.uds then highByte (after true s u b).cpu.kernel.dout
          else highByte ((after true s u a).sdram.mem ((after true s u b).cpu.kernel.word c))) ∧
      lowByte ((after true s u b).sdram.mem ((after true s u b).cpu.kernel.word c)) =
        if (after true s u b).cpu.kernel.lds then lowByte (after true s u b).cpu.kernel.dout
          else lowByte ((after true s u a).sdram.mem ((after true s u b).cpu.kernel.word c)) := by
  rw [word_of_write h0 hu hsteady hcycle hw, merge, highByte_pairWord, lowByte_pairWord]
  exact ⟨rfl, rfl⟩

/-- The write handshake is completed by the end of an own slot, before the timeout. -/
theorem own_of_wrDone (h0 : Reset s) (hu : Stream c u)
    (hw : (after true s u t).cpu.kernel.rw = false)
    (hd : (after true s u t).cpuSdramWrDone = false)
    (hd' : (after true s u (t + 1)).cpuSdramWrDone = true) :
    (after true s u t).sdramSlotCpuWr = true ∧ (after true s u t).slots.clk8EnP = true ∧
      (after true s u t).cpuWrWait < 4 := by
  have hb := basic_run h0 hu t
  have hs := slotted_run h0 hu t
  have hnext : (after true s u (t + 1)).cpuSdramWrDone =
      (after true s u t).cpuSdramWrDoneNext := rfl
  have has : (after true s u t).cpu.asR = true := by
    by_contra has
    rw [hnext] at hd'
    simp [Machine.cpuSdramWrDoneNext, has] at hd'
  have hdone : (after true s u t).done = false := by
    rw [Machine.done, hw, if_neg (by decide), hd]
  have hdone' : ((after true s u t).step true (u t)).done = true := by
    rw [Machine.done, kernel_of_as hb has, hw, if_neg (by decide)]
    exact hd'
  rw [done_of_as hb hs has (hu.config t), hdone, Bool.false_or, Bool.and_eq_true] at hdone'
  have hcount := hs.count has hdone hw
  refine ⟨?_, hdone'.2, ?_⟩
  · have ho := hdone'.1
    rw [Machine.owned, hw, if_neg (by decide)] at ho
    exact ho
  · rw [BitVec.lt_def]
    change _ < 4
    omega

/-- In every run of reads of RAM and ROM and writes of RAM, at any alignment to the slots: at the
end of a write its word holds the CPU's data in the strobed lanes and the old data in the others; a
CPU slot changes no word but that of the write cycle it started in; and a write is completed by its
own slot, before the timeout. -/
theorem write_commits (h0 : Reset s) (hu : Stream c u) (hsteady : Steady s u) :
    (∀ a b, Cycle true s u a b → (after true s u b).cpu.kernel.rw = false →
      highByte ((after true s u b).sdram.mem ((after true s u b).cpu.kernel.word c)) =
          (if (after true s u b).cpu.kernel.uds then highByte (after true s u b).cpu.kernel.dout
            else highByte ((after true s u a).sdram.mem ((after true s u b).cpu.kernel.word c))) ∧
        lowByte ((after true s u b).sdram.mem ((after true s u b).cpu.kernel.word c)) =
          if (after true s u b).cpu.kernel.lds then lowByte (after true s u b).cpu.kernel.dout
            else lowByte ((after true s u a).sdram.mem ((after true s u b).cpu.kernel.word c))) ∧
      (∀ t w, (after true s u t).slots.busPhase = 0 →
        (after true s u t).slots.cpuBusControl = true →
        (after true s u (t + 4)).sdram.mem w ≠ (after true s u t).sdram.mem w →
        (after true s u t).cpu.asR = true ∧ (after true s u t).cpu.kernel.rw = false ∧
          w = (after true s u t).cpu.kernel.word c) ∧
      ∀ t, (after true s u t).cpu.kernel.rw = false → (after true s u t).cpuSdramWrDone = false →
        (after true s u (t + 1)).cpuSdramWrDone = true →
        (after true s u t).sdramSlotCpuWr = true ∧ (after true s u t).slots.clk8EnP = true ∧
          (after true s u t).cpuWrWait < 4 :=
  ⟨fun _ _ hcycle hw => bytes_of_write h0 hu hsteady hcycle hw,
    fun _ w hp hslot hne => cpu_slot_mem h0 hu hp hslot w hne,
    fun _ hw hd hd' => own_of_wrDone h0 hu hw hd hd'⟩

end Run

/-! ### Runs -/

/-- A write of the upper byte of a word of RAM, or of the lower one. -/
def writeLane (uds : Bool) : Kernel :=
  { writeAt 0x1000 (if uds then 0xABCD else 0x1234) with uds := uds, lds := !uds }

theorem memory_writeLane (uds : Bool) : (writeLane uds).Memory config := by
  cases uds
  all_goals
    constructor
    · decide
    · decide
    · intro _
      decide

/-- The upper byte is written, then the lower one. -/
def ramWrites (t : ℕ) : In := { quietIn with kernelNext := writeLane (decide (t < 12)) }

theorem stream_ramWrites : Stream config ramWrites :=
  ⟨fun _ => rfl, fun t => .inr (memory_writeLane (decide (t < 12)))⟩

theorem steady_ramWrites : Steady filledState ramWrites := by
  intro t _ _ hd
  cases hd

theorem write_commits_ramWrites :
    (Cycle true filledState ramWrites 1 12 ∧
      (after true filledState ramWrites 1).sdram.mem 0x800 = 0x0800 ∧
      highByte ((after true filledState ramWrites 12).sdram.mem 0x800) = 0xAB ∧
      lowByte ((after true filledState ramWrites 12).sdram.mem 0x800) =
        lowByte ((after true filledState ramWrites 1).sdram.mem 0x800)) ∧
    Cycle true filledState ramWrites 13 28 ∧
      (after true filledState ramWrites 13).sdram.mem 0x800 = 0xAB00 ∧
      lowByte ((after true filledState ramWrites 28).sdram.mem 0x800) = 0x34 ∧
      highByte ((after true filledState ramWrites 28).sdram.mem 0x800) =
        highByte ((after true filledState ramWrites 13).sdram.mem 0x800) := by
  have hsame : ∀ k < 12, 1 ≤ k → clkenaAt true filledState ramWrites k = false := by
    decide +kernel
  have hsame' : ∀ k < 28, 13 ≤ k → clkenaAt true filledState ramWrites k = false := by
    decide +kernel
  have hupper : Cycle true filledState ramWrites 1 12 :=
    ⟨.inr ⟨0, rfl, by decide +kernel⟩, ⟨by omega, fun k h1 h2 => hsame k h2 h1⟩,
      by decide +kernel, by decide +kernel⟩
  have hlower : Cycle true filledState ramWrites 13 28 :=
    ⟨.inr ⟨12, rfl, by decide +kernel⟩, ⟨by omega, fun k h1 h2 => hsame' k h2 h1⟩,
      by decide +kernel, by decide +kernel⟩
  have hk : ∀ t uds, t = 12 ∧ uds = true ∨ t = 28 ∧ uds = false →
      (after true filledState ramWrites t).cpu.kernel.word config = 0x800 ∧
        (after true filledState ramWrites t).cpu.kernel.rw = false ∧
        (after true filledState ramWrites t).cpu.kernel.uds = uds ∧
        (after true filledState ramWrites t).cpu.kernel.lds = !uds ∧
        (after true filledState ramWrites t).cpu.kernel.dout = if uds then 0xABCD else 0x1234 := by
    rintro t uds (⟨rfl, rfl⟩ | ⟨rfl, rfl⟩) <;> decide +kernel
  obtain ⟨hword, hrw, huds, hlds, hdout⟩ := hk 12 true (.inl ⟨rfl, rfl⟩)
  obtain ⟨hword', hrw', huds', hlds', hdout'⟩ := hk 28 false (.inr ⟨rfl, rfl⟩)
  have hwrite := (write_commits reset_filledState stream_ramWrites steady_ramWrites).1
  obtain ⟨hhigh, hlow⟩ := hwrite 1 12 hupper hrw
  obtain ⟨hhigh', hlow'⟩ := hwrite 13 28 hlower hrw'
  rw [hword, huds, hdout, if_pos rfl] at hhigh
  rw [hword, hlds, if_neg (by decide)] at hlow
  rw [hword', huds', if_neg (by decide)] at hhigh'
  rw [hword', hlds', hdout', Bool.not_false, if_pos rfl] at hlow'
  exact ⟨⟨hupper, by decide +kernel, hhigh, hlow⟩, hlower, by decide +kernel, hlow', hhigh'⟩

end Cpu
