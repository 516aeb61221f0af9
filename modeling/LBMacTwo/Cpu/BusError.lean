import LBMacTwo.Cpu.PseudoDma

/-!
# The bus error

* `Board`: the machine with the open-bus timeout of the NuBus, which answers for the empty slots;
* `BusCycle`: a bus cycle with the decoding's configuration at rest;
* `BerrLaw`: an undecoded cycle is released by `berr_out` alone, a decoded one never meets it;
* `released`: an undecoded cycle leaves its wait state within 80 clocks, by DTACK or by VMA;
* `berr_iff`: the law holds for the decoded cycles only.
-/

namespace Cpu
open Memory Clocked

/-! ### The open-bus timeout -/

structure Board where
  machine : Machine
  nubusTimeout : ℕ

namespace Board

variable (turbo : Bool) (b : Board) (i : In)

/-- `nubus_no_card`: the NuBus is selected and no card answers. -/
def nubusNoCard : Bool := (b.machine.sel i).nubus && !i.nubusAck

/-- `!nubusAck`: the answer of the card, or of the open bus after 4 clocks. -/
def nubusAck : Bool :=
  if b.nubusNoCard i && decide (4 ≤ b.nubusTimeout) then true else i.nubusAck

/-- The inputs of the machine, with `In.nubusAck` the card's own answer. -/
def inputs : In := { i with nubusAck := b.nubusAck i }

def nubusTimeoutNext : ℕ :=
  if !b.machine.cpu.asR then 0
  else if b.nubusNoCard i && decide (b.nubusTimeout < 15) then b.nubusTimeout + 1
  else b.nubusTimeout

/-- One system clock. -/
def step : Board := ⟨b.machine.step turbo (b.inputs i), b.nubusTimeoutNext i⟩

end Board

variable {turbo : Bool} {b : Board} {u : ℕ → In} {c : Config} {a k t : ℕ}

/-- The inputs of the machine in a run of the board. -/
def busIn (turbo : Bool) (b : Board) (u : ℕ → In) (t : ℕ) : In :=
  (run (Board.step turbo) b u t).inputs (u t)

theorem machine_run (t : ℕ) : (run (Board.step turbo) b u t).machine =
    after turbo b.machine (busIn turbo b u) t := by
  induction t with
  | zero => rfl
  | succ t ih =>
    rw [run_succ, after_succ, ← ih]
    rfl

/-! ### The law -/

/-- The decoder raises no select, in data or program space. -/
def Undecoded (c : Config) (k : Kernel) : Prop :=
  k.fc ≠ 7 ∧ decode c (hmmu c.hmmuActive k.addr) = Selects.none

/-- The decoder raises a select, or the address is the FPU's in CPU space. -/
def Decodes (c : Config) (k : Kernel) : Prop :=
  (k.fc ≠ 7 ∧ decode c (hmmu c.hmmuActive k.addr) ≠ Selects.none) ∨
    (k.fc = 7 ∧ field k.addr 31 16 = 2 ∧ field k.addr 15 13 = 1)

/-- The machine `t` clocks after `b`. -/
abbrev mach (turbo : Bool) (b : Board) (u : ℕ → In) (t : ℕ) : Machine :=
  after turbo b.machine (busIn turbo b u) t

/-- A bus cycle starts in clock `a`; as long as it lasts the configuration is `c` and no DIB
substitution is pending for its address. -/
structure BusCycle (turbo : Bool) (b : Board) (u : ℕ → In) (c : Config) (a : ℕ) : Prop where
  start : ∃ a', a = a' + 1 ∧ clkenaAt turbo b.machine (busIn turbo b u) a' = true
  busy : (mach turbo b u a).cpu.kernel.idle = false
  config : ∀ k, SameCycle turbo b.machine (busIn turbo b u) a k → (u k).config = c
  noDib : ∀ k, SameCycle turbo b.machine (busIn turbo b u) a k → (u k).fixupMatch = false

/-- The cycle leaves its wait state, and `berr_out` is what it leaves by. -/
structure ReleasedByBerr (turbo : Bool) (b : Board) (u : ℕ → In) (a : ℕ) : Prop where
  released : ∃ t, SameCycle turbo b.machine (busIn turbo b u) a t ∧
    leavesAt turbo b.machine (busIn turbo b u) t = true
  only : ∀ t, SameCycle turbo b.machine (busIn turbo b u) a t →
    leavesAt turbo b.machine (busIn turbo b u) t = true → (mach turbo b u t).berrOut = true ∧
      (mach turbo b u t).dtack turbo (busIn turbo b u t) = false ∧
      (mach turbo b u t).cpu.xVma = false

/-- The bus error's share in a cycle. -/
structure BerrLaw (turbo : Bool) (b : Board) (u : ℕ → In) (c : Config) (a : ℕ) : Prop where
  undecoded : Undecoded c (mach turbo b u a).cpu.kernel → ReleasedByBerr turbo b u a
  decoded : Decodes c (mach turbo b u a).cpu.kernel → ∀ t,
    SameCycle turbo b.machine (busIn turbo b u) a t → (mach turbo b u t).cpu.asR = true →
      (mach turbo b u t).berrOut = false

/-! ### What holds throughout a cycle -/

theorem kernel_same (h : SameCycle turbo b.machine (busIn turbo b u) a k) :
    (mach turbo b u k).cpu.kernel = (mach turbo b u a).cpu.kernel := by
  obtain ⟨hak, hsame⟩ := h
  induction k, hak using Nat.le_induction with
  | base => rfl
  | succ k hak ih =>
    have hk := hsame k hak k.lt_succ_self
    unfold clkenaAt at hk
    rw [← ih fun j h1 h2 => hsame j h1 (by omega)]
    change (if _ then _ else _) = _
    rw [if_neg (by rw [hk]; exact Bool.false_ne_true)]

theorem SameCycle.prev {s : Machine} {v : ℕ → In} (h : SameCycle turbo s v a (k + 1))
    (hak : a ≤ k) : SameCycle turbo s v a k :=
  ⟨hak, fun j h1 h2 => h.2 j h1 (by omega)⟩

theorem addr_same (h : SameCycle turbo b.machine (busIn turbo b u) a k) (hak : a < k) :
    (mach turbo b u k).cpu.addr = (mach turbo b u a).cpu.kernel.addr := by
  obtain ⟨j, rfl⟩ : ∃ j, k = j + 1 := ⟨k - 1, by omega⟩
  rw [← kernel_same (h.prev (by omega))]
  rfl

section Cycle

variable (h0 : Reset b.machine) (h : BusCycle turbo b u c a)
include h0 h

omit h0 in
theorem sState_first : (mach turbo b u a).cpu.sState = 0 := by
  obtain ⟨a', rfl, ha⟩ := h.start
  exact sState_of_clkena ha

theorem asR_first : (mach turbo b u a).cpu.asR = false := by
  rw [(shape_run turbo h0 (busIn turbo b u) a).as, sState_first h]
  rfl

/-- AS is low later than in the first clock. -/
theorem lt_of_asR (hak : a ≤ k) (has : (mach turbo b u k).cpu.asR = true) : a < k := by
  rcases Nat.eq_or_lt_of_le hak with rfl | hlt
  · rw [asR_first h0 h] at has
    cases has
  · exact hlt

/-- The select lines while AS is low. -/
theorem sel_same (hk : SameCycle turbo b.machine (busIn turbo b u) a k)
    (has : (mach turbo b u k).cpu.asR = true)
    (hfc : (mach turbo b u a).cpu.kernel.fc ≠ 7) :
    (mach turbo b u k).sel (busIn turbo b u k) =
      decode c (hmmu c.hmmuActive (mach turbo b u a).cpu.kernel.addr) ∧
    (mach turbo b u k).cpuAddr (busIn turbo b u k) =
      hmmu c.hmmuActive (mach turbo b u a).cpu.kernel.addr := by
  have hconfig : (busIn turbo b u k).config = c := h.config k hk
  have haddr : (mach turbo b u k).cpuAddr (busIn turbo b u k) =
      hmmu c.hmmuActive (mach turbo b u a).cpu.kernel.addr := by
    rw [Machine.cpuAddr, kernel_same hk, if_neg hfc, hconfig,
      addr_same hk (lt_of_asR h0 h hk.1 has)]
  refine ⟨?_, haddr⟩
  rw [Machine.sel, if_pos has, haddr, hconfig]

/-! ### Decoded cycles -/

omit h0 h in
/-- Some select line besides the NuBus's keeps the counter clear. -/
theorem anySelect_of_sel {m : Machine} {i : In}
    (hne : m.sel i ≠ Selects.none) (hsel : m.sel i = decode i.config (m.cpuAddr i))
    (hack : (m.sel i).nubus = true → i.nubusAck = true) : m.anySelect i = true := by
  by_contra hno
  rw [Bool.not_eq_true] at hno
  unfold Machine.anySelect at hno
  simp only [Bool.or_eq_false_iff, Bool.and_eq_false_iff] at hno
  obtain ⟨⟨⟨⟨⟨⟨⟨⟨⟨⟨h1, h2⟩, h3⟩, h4⟩, h5⟩, h6⟩, h7⟩, h8⟩, h9⟩, h10⟩, -⟩ := hno
  have hdma : (m.sel i).scsiDMA = false := by
    by_contra hd
    have := ((hsel ▸ decode_exclusive i.config (m.cpuAddr i)).dma (by simpa using hd)).1
    rw [h6] at this
    cases this
  have hnubus : (m.sel i).nubus = false := by
    by_contra hn
    rw [Bool.not_eq_false] at hn
    rw [hn, hack hn] at h9
    exact absurd h9 (by decide)
  apply hne
  generalize m.sel i = l at *
  cases l
  simp_all [Selects.none]

/-- What a clock of a decoded cycle finds: at most four clocks without an answer. -/
structure Answered (b : Board) : Prop where
  berr : b.machine.berrOut = false
  le_timeout : b.machine.berrCounter ≤ b.nubusTimeout
  le_four : b.machine.berrCounter ≤ 4

omit h0 h in
theorem Answered.of_idle {i : In} (has : b.machine.cpu.asR = false) :
    Answered (b.step turbo i) := by
  have hcount : (b.step turbo i).machine.berrCounter = 0 := by
    change b.machine.berrCounterNext (b.inputs i) = 0
    rw [Machine.berrCounterNext, has]
    rfl
  refine ⟨?_, by rw [hcount]; exact Nat.zero_le _, by rw [hcount]; exact Nat.zero_le _⟩
  change b.machine.berrOutNext (b.inputs i) = false
  rw [Machine.berrOutNext, has]
  rfl

omit h0 h in
/-- The counter runs only while the open bus has not answered yet. -/
theorem Answered.step {i : In} (hb : Answered b) (has : b.machine.cpu.asR = true)
    (hsel : b.machine.isCpuSpace = true ∨ b.machine.anySelect (b.inputs i) = true ∨
      (b.machine.sel i).nubus = true ∧ b.nubusAck i = false) : Answered (b.step turbo i) := by
  obtain ⟨hberr, hle, h4⟩ := hb
  have hexp : b.machine.berrExpires (b.inputs i) = false := by
    rw [Machine.berrExpires, beq_false_of_ne (by omega : b.machine.berrCounter ≠ 251),
      Bool.and_false]
  have hberr' : (b.step turbo i).machine.berrOut = false := by
    change b.machine.berrOutNext (b.inputs i) = false
    rw [Machine.berrOutNext, has, hexp, hberr]
    rfl
  have hcount : (b.step turbo i).machine.berrCounter = b.machine.berrCounterNext (b.inputs i) := rfl
  have htime : (b.step turbo i).nubusTimeout = b.nubusTimeoutNext i := rfl
  have hmono : b.nubusTimeout ≤ b.nubusTimeoutNext i := by
    rw [Board.nubusTimeoutNext, has]
    simp only [Bool.not_true, Bool.false_eq_true, if_false]
    split_ifs <;> omega
  rw [Machine.berrCounterNext, has] at hcount
  simp only [Bool.not_true, Bool.false_eq_true, if_false] at hcount
  rcases hsel with hs | hs | ⟨hnubus, hack⟩
  · rw [hs] at hcount
    simp only [Bool.true_or, if_true] at hcount
    split_ifs at hcount <;> exact ⟨hberr', by omega, by omega⟩
  · rw [hs] at hcount
    simp only [Bool.or_true, if_true] at hcount
    split_ifs at hcount <;> exact ⟨hberr', by omega, by omega⟩
  · -- the open bus answers from its fifth clock on
    have hnocard : b.nubusNoCard i = true ∧ b.nubusTimeout < 4 := by
      unfold Board.nubusAck at hack
      split_ifs at hack with hopen
      have hno : b.nubusNoCard i = true := by
        rw [Board.nubusNoCard, hnubus, hack]
        rfl
      rw [hno, Bool.true_and, decide_eq_true_eq] at hopen
      exact ⟨hno, by omega⟩
    have htime' : b.nubusTimeoutNext i = b.nubusTimeout + 1 := by
      rw [Board.nubusTimeoutNext, has, hnocard.1]
      simp only [Bool.not_true, Bool.false_eq_true, if_false, Bool.true_and]
      rw [if_pos (decide_eq_true (by omega))]
    rw [← htime] at htime'
    split_ifs at hcount <;> exact ⟨hberr', by omega, by omega⟩

/-- Something answers in a decoded cycle, or is about to. -/
theorem answer_of_decodes (hd : Decodes c (mach turbo b u a).cpu.kernel)
    (hk : SameCycle turbo b.machine (busIn turbo b u) a k)
    (has : (mach turbo b u k).cpu.asR = true) :
    (mach turbo b u k).isCpuSpace = true ∨
      (mach turbo b u k).anySelect (busIn turbo b u k) = true ∨
        ((mach turbo b u k).sel (busIn turbo b u k)).nubus = true ∧
          (busIn turbo b u k).nubusAck = false := by
  rcases hd with ⟨hfc, hne⟩ | ⟨hfc, -⟩
  · right
    have hsel := (sel_same h0 h hk has hfc).1
    cases hack : (busIn turbo b u k).nubusAck with
    | true =>
      refine .inl (anySelect_of_sel (by rwa [hsel]) ?_ fun _ => hack)
      rw [Machine.sel, if_pos has]
    | false =>
      cases hn : ((mach turbo b u k).sel (busIn turbo b u k)).nubus with
      | true => exact .inr ⟨rfl, rfl⟩
      | false =>
        refine .inl (anySelect_of_sel (by rwa [hsel]) ?_ fun hn' => ?_)
        · rw [Machine.sel, if_pos has]
        · rw [hn] at hn'
          cases hn'
  · left
    rw [Machine.isCpuSpace, kernel_same hk, hfc]
    rfl

theorem answered_run (hd : Decodes c (mach turbo b u a).cpu.kernel)
    (hk : SameCycle turbo b.machine (busIn turbo b u) a k) (hak : a < k) :
    Answered (run (Board.step turbo) b u k) := by
  induction k, hak using Nat.le_induction with
  | base =>
    apply Answered.of_idle
    rw [machine_run]
    exact asR_first h0 h
  | succ k hak ih =>
    have hprev := hk.prev (by omega)
    have hmach := @machine_run turbo b u k
    rw [run_succ]
    cases has : (mach turbo b u k).cpu.asR with
    | false =>
      apply Answered.of_idle
      rw [hmach, has]
    | true =>
      apply (ih hprev).step
      · rw [hmach, has]
      · rw [hmach]
        exact answer_of_decodes h0 h hd hprev has

/-- A decoded cycle meets no bus error. -/
theorem noBerr_of_decodes (hd : Decodes c (mach turbo b u a).cpu.kernel)
    (ht : SameCycle turbo b.machine (busIn turbo b u) a t)
    (has : (mach turbo b u t).cpu.asR = true) : (mach turbo b u t).berrOut = false := by
  have hb := (answered_run h0 h hd ht (lt_of_asR h0 h ht.1 has)).berr
  rw [machine_run] at hb
  exact hb

/-! ### Undecoded cycles -/

omit h0 h in
/-- The counter needs 252 clocks. -/
theorem noBerr_of_lt (has : (mach turbo b u a).cpu.asR = false) (hak : a < k)
    (hka : k ≤ a + 251) :
    (mach turbo b u k).berrOut = false ∧ (mach turbo b u k).berrCounter ≤ k - a - 1 := by
  induction k, hak using Nat.le_induction with
  | base =>
    constructor
    · change (mach turbo b u a).berrOutNext (busIn turbo b u a) = false
      rw [Machine.berrOutNext, has]
      rfl
    · change (mach turbo b u a).berrCounterNext (busIn turbo b u a) ≤ _
      rw [Machine.berrCounterNext, has]
      exact Nat.zero_le _
  | succ k hak ih =>
    obtain ⟨hberr, hcount⟩ := ih (by omega)
    have hexp : (mach turbo b u k).berrExpires (busIn turbo b u k) = false := by
      rw [Machine.berrExpires,
        beq_false_of_ne (by omega : (mach turbo b u k).berrCounter ≠ 251), Bool.and_false]
    constructor
    · change (mach turbo b u k).berrOutNext (busIn turbo b u k) = false
      rw [Machine.berrOutNext, hexp, hberr]
      cases (mach turbo b u k).cpu.asR <;> rfl
    · change (mach turbo b u k).berrCounterNext (busIn turbo b u k) ≤ _
      unfold Machine.berrCounterNext
      split_ifs <;> omega

end Cycle

/-! #### The states before the wait -/

/-- A state before the wait moves on at every edge. -/
theorem state_next (x : BitVec 3) (h : x ≤ 3) :
    (x + 1 = 4 ∨ x + 1 ≤ 3) ∧ (x + 1).toNat = x.toNat + 1 := by
  revert h
  revert x
  decide

theorem phase_next (p : BitVec 2) : p.toNat % 2 ≤ (p + 1).toNat % 2 + 1 := by
  revert p
  decide

/-- There is an edge in every second clock. -/
theorem phase_of_none (turbo : Bool) (p : BitVec 2) (h1 : cpuEnP turbo p = false)
    (h2 : cpuEnN turbo p = false) : p.toNat % 2 = 0 ∧ (p + 1).toNat % 2 = 1 := by
  revert h1 h2
  revert turbo p
  decide

/-- Where a cycle that began in clock `a` stands in clock `k`, as long as it has not been released:
it passes the states before the wait in eight clocks. -/
structure Waiting (turbo : Bool) (b : Board) (u : ℕ → In) (a k : ℕ) : Prop where
  same : SameCycle turbo b.machine (busIn turbo b u) a k
  state : (mach turbo b u k).cpu.sState = 4 ∨ (mach turbo b u k).cpu.sState ≤ 3 ∧
    k - a ≤ 2 * (mach turbo b u k).cpu.sState.toNat + (mach turbo b u k).slots.busPhase.toNat % 2

theorem Waiting.step (h : Waiting turbo b u a k) (hak : a ≤ k)
    (hbusy : (mach turbo b u a).cpu.kernel.idle = false)
    (hwait : leavesAt turbo b.machine (busIn turbo b u) k = false) :
    Waiting turbo b u a (k + 1) := by
  obtain ⟨hsame, hstate⟩ := h
  have hidle : (mach turbo b u k).cpu.kernel.idle = false := by rw [kernel_same hsame, hbusy]
  have h7 : (mach turbo b u k).cpu.sState ≠ 7 := by
    intro h7
    rw [h7] at hstate
    rcases hstate with h | ⟨h, -⟩ <;> exact absurd h (by decide)
  have hclkena : clkenaAt turbo b.machine (busIn turbo b u) k = false := by
    rw [clkenaAt, Wrapper.clkena, hidle, Bool.or_false,
      beq_false_of_ne h7, Bool.and_false]
  refine ⟨hsame.succ hclkena, ?_⟩
  have hcpu : (mach turbo b u (k + 1)).cpu =
      (mach turbo b u k).cpu.step ((mach turbo b u k).wires turbo (busIn turbo b u k)) := rfl
  have hphase : (mach turbo b u (k + 1)).slots.busPhase =
      (mach turbo b u k).slots.busPhase + 1 := rfl
  have hmono := phase_next (mach turbo b u k).slots.busPhase
  rw [hcpu, hphase]
  unfold leavesAt at hwait
  cases edge turbo (mach turbo b u k).slots.busPhase with
  | none h1 h2 _ =>
    obtain ⟨-, -, -, -, hs⟩ := vma_none (w := (mach turbo b u k).cpu)
      (i := (mach turbo b u k).wires turbo (busIn turbo b u k)) h1 h2
    have hpar := phase_of_none turbo _ h1 h2
    rw [hs]
    rcases hstate with h4 | ⟨hle, hk⟩
    · exact .inl h4
    · exact .inr ⟨hle, by omega⟩
  | phi1 h1 _ _ _ =>
    rw [sState_phi1 (w := (mach turbo b u k).cpu)
      (i := (mach turbo b u k).wires turbo (busIn turbo b u k)) h1 hidle]
    rcases hstate with h4 | ⟨hle, hk⟩
    · exact .inl (if_pos h4)
    · have hne : (mach turbo b u k).cpu.sState ≠ 4 := by
        intro h4
        rw [h4] at hle
        exact absurd hle (by decide)
      obtain ⟨hnext, hnat⟩ := state_next _ hle
      rw [if_neg hne, hnat]
      exact hnext.imp_right fun hle' => ⟨hle', by omega⟩
  | phi2 h1 h2 _ _ =>
    rw [sState_phi2 (w := (mach turbo b u k).cpu)
      (i := (mach turbo b u k).wires turbo (busIn turbo b u k)) h1 h2 hidle]
    rcases hstate with h4 | ⟨hle, hk⟩
    · exact .inl (if_pos ⟨h4, hwait⟩)
    · have hne : (mach turbo b u k).cpu.sState ≠ 4 := by
        intro h4
        rw [h4] at hle
        exact absurd hle (by decide)
      obtain ⟨hnext, hnat⟩ := state_next _ hle
      rw [if_neg fun h => hne h.1, hnat]
      exact hnext.imp_right fun hle' => ⟨hle', by omega⟩

/-- Eight clocks after its start the cycle waits. -/
theorem Waiting.sState_four (h : Waiting turbo b u a k) (hk : a + 8 ≤ k) :
    (mach turbo b u k).cpu.sState = 4 := by
  rcases h.state with h4 | ⟨hle, hlt⟩
  · exact h4
  · have : (mach turbo b u k).cpu.sState.toNat ≤ 3 := hle
    omega

theorem waiting_run (h : BusCycle turbo b u c a) (hak : a ≤ k)
    (hwait : ∀ j, a ≤ j → j < k → leavesAt turbo b.machine (busIn turbo b u) j = false) :
    Waiting turbo b u a k := by
  induction k, hak using Nat.le_induction with
  | base =>
    refine ⟨SameCycle.refl, .inr ?_⟩
    rw [sState_first h]
    exact ⟨by decide, by omega⟩
  | succ k hak ih =>
    have hk := ih fun j h1 h2 => hwait j h1 (by omega)
    exact hk.step hak h.busy (hwait k hak k.lt_succ_self)

/-! #### The E clock -/

theorem phase_add (j : ℕ) : (mach turbo b u (k + j)).slots.busPhase =
    (mach turbo b u k).slots.busPhase + BitVec.ofNat 2 j := by
  induction j with
  | zero => simp
  | succ j ih =>
    change (mach turbo b u (k + j)).slots.busPhase + 1 = _
    rw [ih, BitVec.add_assoc]
    congr 1
    apply BitVec.eq_of_toNat_eq
    simp [BitVec.toNat_add]

/-- Every phase comes within four clocks. -/
theorem exists_phase (turbo : Bool) (b : Board) (u : ℕ → In) (k : ℕ) (p : BitVec 2) :
    ∃ j < 4, (mach turbo b u (k + j)).slots.busPhase = p := by
  refine ⟨(p - (mach turbo b u k).slots.busPhase).toNat, BitVec.isLt _, ?_⟩
  rw [phase_add, BitVec.ofNat_toNat, BitVec.setWidth_eq, BitVec.add_comm, BitVec.sub_add_cancel]

/-- The clock within a count of E; the count moves on in clock 3. -/
def eSub (turbo : Bool) (p : BitVec 2) (enE : Bool) : ℕ :=
  if turbo then (if beforePhi2 turbo p then (if enE then 3 else 1) else if enE then 0 else 2)
  else (p + 2).toNat

/-- The clock within a period of E, which takes 40. -/
def ePos (turbo : Bool) (m : Machine) : ℕ :=
  4 * m.cpu.eCntr.toNat + eSub turbo m.slots.busPhase m.cpu.enE

theorem eSub_lt (turbo : Bool) (p : BitVec 2) (enE : Bool) : eSub turbo p enE < 4 := by
  revert turbo p enE
  decide

theorem eSub_eq_three (turbo : Bool) (p : BitVec 2) (enE : Bool) (h : turbo = false → enE = true) :
    eSub turbo p enE = 3 ↔ cpuEnN turbo p = true ∧ enE = true := by
  revert h
  revert turbo p enE
  decide

theorem eStep (turbo : Bool) (p : BitVec 2) (e : BitVec 4) (enE : Bool)
    (h : turbo = false → enE = true) (he : e ≤ 9) :
    (if cpuEnN turbo p && enE then (if e = 9 then 0 else e + 1) else e) ≤ 9 ∧
      4 * (if cpuEnN turbo p && enE then (if e = 9 then 0 else e + 1) else e).toNat +
        eSub turbo (p + 1) (if cpuEnP turbo p then (if turbo then !enE else true) else enE) =
      (4 * e.toNat + eSub turbo p enE + 1) % 40 := by
  revert h he
  revert turbo p e enE
  decide

theorem eCntr_succ (k : ℕ) : (mach turbo b u (k + 1)).cpu.eCntr =
    (if cpuEnN turbo (mach turbo b u k).slots.busPhase && (mach turbo b u k).cpu.enE then
      (if (mach turbo b u k).cpu.eCntr = 9 then 0 else (mach turbo b u k).cpu.eCntr + 1)
    else (mach turbo b u k).cpu.eCntr) := rfl

theorem enE_succ (k : ℕ) : (mach turbo b u (k + 1)).cpu.enE =
    (if cpuEnP turbo (mach turbo b u k).slots.busPhase then
      (if turbo then !(mach turbo b u k).cpu.enE else true)
    else (mach turbo b u k).cpu.enE) := rfl

section Run

variable (h0 : Reset b.machine)
include h0

theorem eCntr_le (k : ℕ) : (mach turbo b u k).cpu.eCntr ≤ 9 := by
  induction k with
  | zero =>
    change b.machine.cpu.eCntr ≤ 9
    rw [h0.eCntr]
    decide
  | succ k ih =>
    rw [eCntr_succ]
    exact (eStep turbo _ _ _ (shape_run turbo h0 (busIn turbo b u) k).enE ih).1

theorem ePos_succ (k : ℕ) :
    ePos turbo (mach turbo b u (k + 1)) = (ePos turbo (mach turbo b u k) + 1) % 40 := by
  have hstep := (eStep turbo (mach turbo b u k).slots.busPhase (mach turbo b u k).cpu.eCntr
    (mach turbo b u k).cpu.enE (shape_run turbo h0 (busIn turbo b u) k).enE (eCntr_le h0 k)).2
  rw [ePos, eCntr_succ, enE_succ]
  exact hstep

theorem ePos_add (j : ℕ) :
    ePos turbo (mach turbo b u (k + j)) = (ePos turbo (mach turbo b u k) + j) % 40 := by
  induction j with
  | zero =>
    have hle : (mach turbo b u k).cpu.eCntr.toNat ≤ 9 := eCntr_le h0 k
    have hsub := eSub_lt turbo (mach turbo b u k).slots.busPhase (mach turbo b u k).cpu.enE
    change ePos turbo (mach turbo b u k) = _
    rw [Nat.mod_eq_of_lt]
    · rfl
    · unfold ePos
      omega
  | succ j ih =>
    rw [← Nat.add_assoc, ePos_succ h0, ih]
    omega

/-- The clocks in which the E counter moves on from `n`. -/
theorem ePos_eq {n : ℕ} (h : ePos turbo (mach turbo b u k) = 4 * n + 3) :
    (mach turbo b u k).cpu.eCntr.toNat = n ∧
      cpuEnN turbo (mach turbo b u k).slots.busPhase = true ∧
      (mach turbo b u k).cpu.enE = true := by
  have hsub := eSub_lt turbo (mach turbo b u k).slots.busPhase (mach turbo b u k).cpu.enE
  unfold ePos at h
  refine ⟨by omega, (eSub_eq_three turbo _ _ ?_).mp (by omega)⟩
  exact (shape_run turbo h0 (busIn turbo b u) k).enE

/-- Every position of the E clock comes within 40 clocks. -/
theorem exists_ePos (k n : ℕ) (hn : n < 40) :
    ∃ j < 40, ePos turbo (mach turbo b u (k + j)) = n := by
  refine ⟨(n + 40 - ePos turbo (mach turbo b u k)) % 40, Nat.mod_lt _ (by decide), ?_⟩
  have hle : (mach turbo b u k).cpu.eCntr.toNat ≤ 9 := eCntr_le h0 k
  have hsub := eSub_lt turbo (mach turbo b u k).slots.busPhase (mach turbo b u k).cpu.enE
  have hlt : ePos turbo (mach turbo b u k) < 40 := by
    unfold ePos
    omega
  rw [ePos_add h0]
  omega

/-! #### The release -/

variable (h : BusCycle turbo b u c a) (hu : Undecoded c (mach turbo b u a).cpu.kernel)
include h hu

/-- What an undecoded cycle that waits looks like. -/
theorem undecoded_waiting (hw : Waiting turbo b u a k) (hk : a + 8 ≤ k) :
    (mach turbo b u k).cpu.asR = true ∧ (mach turbo b u k).cpu.kernel.idle = false ∧
      (mach turbo b u k).cpu.kernel.fc ≠ 7 ∧
      (mach turbo b u k).sel (busIn turbo b u k) = Selects.none ∧
      (mach turbo b u k).cpuAddr (busIn turbo b u k) =
        hmmu c.hmmuActive (mach turbo b u a).cpu.kernel.addr := by
  have has : (mach turbo b u k).cpu.asR = true := by
    rw [(shape_run turbo h0 (busIn turbo b u) k).as, hw.sState_four hk]
    decide
  have hsel := sel_same h0 h hw.same has hu.1
  refine ⟨has, ?_, ?_, by rw [hsel.1, hu.2], hsel.2⟩
  · rw [kernel_same hw.same]
    exact h.busy
  · rw [kernel_same hw.same]
    exact hu.1

/-- The wait ends in a clock of `phi2` with DTACK or the VMA stop. -/
theorem leaves_of (hw : Waiting turbo b u a k) (hk : a + 8 ≤ k)
    (h2 : cpuEnN turbo (mach turbo b u k).slots.busPhase = true)
    (hl : (mach turbo b u k).dtack turbo (busIn turbo b u k) = true ∨
      (mach turbo b u k).cpu.xVma = true) :
    leavesAt turbo b.machine (busIn turbo b u) k = true := by
  obtain ⟨-, hidle, -⟩ := undecoded_waiting h0 h hu hw hk
  have h1 := cpuEnP_of_cpuEnN turbo _ h2
  have h4 := hw.sState_four hk
  unfold leavesAt Wrapper.leaves
  have hp1 : ((mach turbo b u k).wires turbo (busIn turbo b u k)).phi1 = false := h1
  have hp2 : ((mach turbo b u k).wires turbo (busIn turbo b u k)).phi2 = true := h2
  have hd : ((mach turbo b u k).wires turbo (busIn turbo b u k)).dtack =
      (mach turbo b u k).dtack turbo (busIn turbo b u k) := rfl
  rw [hp1, hp2, h4, hidle, hd]
  rcases hl with hl | hl <;> simp [hl]

/-- Outside the last megabytes of 16 the raw DTACK ends the wait. -/
theorem dtack_undecoded (hw : Waiting turbo b u a (k + 1)) (hw' : Waiting turbo b u a k)
    (hk : a + 8 ≤ k)
    (hlow : field (hmmu c.hmmuActive (mach turbo b u a).cpu.kernel.addr) 23 21 ≠ 7) :
    (mach turbo b u (k + 1)).dtack turbo (busIn turbo b u (k + 1)) = true := by
  obtain ⟨has', -, -, hsel', -⟩ := undecoded_waiting h0 h hu hw' hk
  obtain ⟨has, -, hfc, hsel, haddr⟩ := undecoded_waiting h0 h hu hw (by omega)
  have hen : (mach turbo b u (k + 1)).turboDtackEn = true := by
    change (mach turbo b u k).turboDtackEnNext (busIn turbo b u k) = true
    rw [Machine.turboDtackEnNext, has', hsel']
    simp [Selects.none]
  have hraw : (mach turbo b u (k + 1)).dtackRaw turbo (busIn turbo b u (k + 1)) = true := by
    rw [Machine.dtackRaw, has, haddr, hen]
    simp [hlow]
  have hfpu : (mach turbo b u (k + 1)).selectFPU (busIn turbo b u (k + 1)) = false := by
    rw [Machine.selectFPU, beq_false_of_ne hfc]
    simp
  simp [Machine.dtack, hfpu, hsel, Machine.ramOrRomDtack, Machine.rdCycle, Machine.wrCycle, hraw,
    Selects.none, Selects.viaAccess]

/-- In them `_cpuVPA` is low. -/
theorem vpa_undecoded (hw : Waiting turbo b u a k) (hk : a + 8 ≤ k)
    (hhigh : field (hmmu c.hmmuActive (mach turbo b u a).cpu.kernel.addr) 23 21 = 7) :
    (mach turbo b u k).vpa (busIn turbo b u k) = true := by
  obtain ⟨has, -, -, hsel, haddr⟩ := undecoded_waiting h0 h hu hw hk
  simp [Machine.vpa, hsel, haddr, hhigh, has, Selects.none, Selects.viaAccess]

/-- The cycle with `_cpuVPA` low has been sampled twelve clocks after its start. -/
theorem vpai_undecoded (hw : ∀ j, a ≤ j → j ≤ k → Waiting turbo b u a j) (hk : a + 12 ≤ k)
    (hhigh : field (hmmu c.hmmuActive (mach turbo b u a).cpu.kernel.addr) 23 21 = 7) :
    (mach turbo b u k).cpu.vpai = true := by
  have hstep : ∀ j, (mach turbo b u (j + 1)).cpu.vpai =
      if cpuEnP turbo (mach turbo b u j).slots.busPhase then
        (mach turbo b u j).vpa (busIn turbo b u j)
      else (mach turbo b u j).cpu.vpai := fun _ => rfl
  obtain ⟨j, hj, hp⟩ := exists_phase turbo b u (a + 8) (if turbo then 0 else 3)
  have hphi1 : cpuEnP turbo (mach turbo b u (a + 8 + j)).slots.busPhase = true := by
    rw [hp]
    cases turbo <;> rfl
  have hle : a + 8 + j + 1 ≤ k := by omega
  clear hp hk
  induction k, hle using Nat.le_induction with
  | base =>
    rw [hstep, if_pos hphi1]
    exact vpa_undecoded h0 h hu (hw _ (by omega) (by omega)) (by omega) hhigh
  | succ k hk ih =>
    rw [hstep, ih fun i h1 h2 => hw i h1 (by omega)]
    split_ifs
    · exact vpa_undecoded h0 h hu (hw _ (by omega) (by omega)) (by omega) hhigh
    · rfl

omit h hu in
/-- VMA stays asserted from count 3 of E to the stop on count 8. -/
theorem vma_until_stop {q : ℕ} (hq : ePos turbo (mach turbo b u q) = 15)
    (hvpai : (mach turbo b u q).cpu.vpai = true) (hs : (mach turbo b u q).cpu.sState ≠ 0)
    {i : ℕ} (hi : i < 20) : (mach turbo b u (q + 1 + i)).cpu.vma = true := by
  induction i with
  | zero =>
    obtain ⟨hc, hphi2, hen⟩ := ePos_eq (n := 3) h0 hq
    have hc' : (mach turbo b u q).cpu.eCntr = 3 := BitVec.eq_of_toNat_eq hc
    change (mach turbo b u q).cpu.vmaNext ((mach turbo b u q).wires turbo (busIn turbo b u q)) = _
    have hphi2' : ((mach turbo b u q).wires turbo (busIn turbo b u q)).phi2 = true := hphi2
    rw [Wrapper.vmaNext, Wrapper.assertsVma, hphi2', hc', hen, hvpai, bne_iff_ne.mpr hs]
    rfl
  | succ i ih =>
    have hvma := ih (by omega)
    have hpos := @ePos_add turbo b u q h0 (1 + i)
    rw [hq, ← Nat.add_assoc, Nat.mod_eq_of_lt (by omega)] at hpos
    have hsub := eSub_lt turbo (mach turbo b u (q + 1 + i)).slots.busPhase
      (mach turbo b u (q + 1 + i)).cpu.enE
    have hne : (mach turbo b u (q + 1 + i)).cpu.eCntr ≠ 0 := by
      intro hz
      unfold ePos at hpos
      rw [hz] at hpos
      change 4 * 0 + _ = _ at hpos
      omega
    change (mach turbo b u (q + 1 + i)).cpu.vmaNext _ = true
    rw [Wrapper.vmaNext, beq_false_of_ne hne, Bool.and_false, Bool.false_and,
      if_neg Bool.false_ne_true, hvma]
    split_ifs <;> rfl

/-- An undecoded cycle does not wait for 80 clocks. -/
theorem released : ¬ ∀ j, a ≤ j → j < a + 80 →
    leavesAt turbo b.machine (busIn turbo b u) j = false := by
  intro hwait
  have hw : ∀ j, a ≤ j → j ≤ a + 80 → Waiting turbo b u a j := fun j h1 h2 =>
    waiting_run h h1 fun i h3 h4 => hwait i h3 (by omega)
  by_cases hhigh : field (hmmu c.hmmuActive (mach turbo b u a).cpu.kernel.addr) 23 21 = 7
  · -- the VMA asserted on count 3 of E ends the wait on count 8
    obtain ⟨i, hi, hpos⟩ := @exists_ePos turbo b u h0 (a + 12) 15 (by decide)
    have hq := hw (a + 12 + i) (by omega) (by omega)
    have hvpai := vpai_undecoded h0 h hu (fun j h1 h2 => hw j h1 (by omega))
      (show a + 12 ≤ a + 12 + i by omega) hhigh
    have hs : (mach turbo b u (a + 12 + i)).cpu.sState ≠ 0 := by
      rw [hq.sState_four (by omega)]
      decide
    have hvma := vma_until_stop h0 hpos hvpai hs (show 19 < 20 by decide)
    have hstop := @ePos_add turbo b u (a + 12 + i) h0 20
    rw [hpos] at hstop
    obtain ⟨hc, hphi2, hen⟩ := ePos_eq (n := 8) h0 hstop
    have hc' : (mach turbo b u (a + 12 + i + 20)).cpu.eCntr = 8 := BitVec.eq_of_toNat_eq hc
    have hx : (mach turbo b u (a + 12 + i + 20)).cpu.xVma = true := by
      rw [Wrapper.xVma, hc', hen, show a + 12 + i + 20 = a + 12 + i + 1 + 19 by omega, hvma]
      rfl
    have hl := leaves_of h0 h hu (hw _ (by omega) (by omega)) (by omega) hphi2 (.inr hx)
    rw [hwait _ (by omega) (by omega)] at hl
    cases hl
  · obtain ⟨i, hi, hp⟩ := exists_phase turbo b u (a + 9) 1
    have hphi2 : cpuEnN turbo (mach turbo b u (a + 9 + i)).slots.busPhase = true := by
      rw [hp]
      cases turbo <;> rfl
    have hd := dtack_undecoded (k := a + 8 + i) h0 h hu (hw _ (by omega) (by omega))
      (hw _ (by omega) (by omega)) (by omega) hhigh
    rw [show a + 8 + i + 1 = a + 9 + i by omega] at hd
    have hl := leaves_of h0 h hu (hw _ (by omega) (by omega)) (by omega) hphi2 (.inl hd)
    rw [hwait _ (by omega) (by omega)] at hl
    cases hl

/-- What releases an undecoded cycle is not the bus error. -/
theorem not_releasedByBerr : ¬ ReleasedByBerr turbo b u a := by
  classical
  intro hr
  have hex : ∃ j, a ≤ j ∧ leavesAt turbo b.machine (busIn turbo b u) j = true := by
    obtain ⟨t, hsame, hl⟩ := hr.released
    exact ⟨t, hsame.1, hl⟩
  obtain ⟨haj, hl⟩ := Nat.find_spec hex
  have hfirst : ∀ j, a ≤ j → j < Nat.find hex →
      leavesAt turbo b.machine (busIn turbo b u) j = false := by
    intro j h1 h2
    by_contra hj
    exact Nat.find_min hex h2 ⟨h1, by simpa using hj⟩
  generalize Nat.find hex = t at haj hl hfirst
  have hle : t ≤ a + 80 := by
    by_contra hlt
    exact released h0 h hu fun j h1 h2 => hfirst j h1 (by omega)
  have hw := waiting_run h haj hfirst
  have hne : a ≠ t := by
    rintro rfl
    unfold leavesAt Wrapper.leaves at hl
    rw [sState_first h] at hl
    simp at hl
  have hberr := (noBerr_of_lt (k := t) (asR_first h0 h) (by omega) (by omega)).1
  rw [(hr.only t hw.same hl).1] at hberr
  cases hberr

end Run

/-- The law holds of a cycle exactly if it is decoded. -/
theorem berr_iff (h0 : Reset b.machine) (h : BusCycle turbo b u c a) :
    BerrLaw turbo b u c a ↔ ¬ Undecoded c (mach turbo b u a).cpu.kernel := by
  constructor
  · intro hlaw hu
    exact not_releasedByBerr h0 h hu (hlaw.undecoded hu)
  · intro hu
    exact ⟨fun hu' => absurd hu' hu, fun hd t ht has => noBerr_of_decodes h0 h hd ht has⟩

/-- Reads of one address, one after the other. -/
def readsAt (addr : ℕ) : ℕ → In := fun _ => { quietIn with kernelNext := readAt addr }

theorem busCycle_readsAt (addr : ℕ) (h : (readAt addr).idle = false)
    (hk : (mach true ⟨resetState 0, 0⟩ (readsAt addr) 1).cpu.kernel = readAt addr) :
    BusCycle true ⟨resetState 0, 0⟩ (readsAt addr) config 1 where
  start := ⟨0, rfl, rfl⟩
  busy := by rw [hk, h]
  config _ _ := rfl
  noDib _ _ := rfl

/-- A read of RAM meets no bus error. -/
theorem berr_iff_ram : BerrLaw true ⟨resetState 0, 0⟩ (readsAt 0x1000) config 1 :=
  (berr_iff (reset_resetState 0) (busCycle_readsAt 0x1000 rfl rfl)).mpr
    fun h => absurd h.2 (by decide +kernel)

/-- A read of `$60000000`, where nothing is, ends by DTACK in its fourth clock after the start. -/
theorem undecoded_dtack :
    BusCycle true ⟨resetState 0, 0⟩ (readsAt 0x60000000) config 1 ∧
      Undecoded config (mach true ⟨resetState 0, 0⟩ (readsAt 0x60000000) 1).cpu.kernel ∧
      ¬ BerrLaw true ⟨resetState 0, 0⟩ (readsAt 0x60000000) config 1 := by
  have hu : Undecoded config (mach true ⟨resetState 0, 0⟩ (readsAt 0x60000000) 1).cpu.kernel :=
    ⟨by decide +kernel, by decide +kernel⟩
  refine ⟨busCycle_readsAt 0x60000000 rfl rfl, hu, fun h => ?_⟩
  have hsame : ∀ k < 5, 1 ≤ k → clkenaAt true (resetState 0)
      (busIn true ⟨resetState 0, 0⟩ (readsAt 0x60000000)) k = false := by
    decide +kernel
  have hl := (h.undecoded hu).only 5 ⟨by omega, fun k h1 h2 => hsame k h2 h1⟩ (by decide +kernel)
  exact absurd hl.1 (by decide +kernel)

end Cpu
