import LBMacTwo.Scc.RegisterFile

/-!
# Sequences of accesses to the serial controller

* `Bus`, `play`: the clocks of an access and of the pause behind it;
* `Whole`: a write has its whole effect on the registers and on the latches behind its command;
* `Clear`: the alignments in which it has;
* `regs_play`, `whole_of_clear`: one access;
* `writes_whole`: along accesses that are all clear the registers are those of the register file,
  whatever the phase of each access;
* `reset_and_pointer`: a WR9 write taken as a WR0 write as well.
-/

namespace Scc
open Clocked

variable {s : State} {k : ℕ}

/-! ### Accesses and pauses -/

/-- An access that holds `cs` for the clocks 0 to `last`, with the first `cen` in clock `first`, and
the clocks without `cs` behind it. -/
structure Bus where
  access : Access
  clocks : ℕ → In
  first : ℕ
  last : ℕ
  pause : List In

structure Bus.Legal (b : Bus) : Prop where
  holds : ∀ k ≤ b.last, b.access.Holds (b.clocks k)
  noCen : ∀ k < b.first, (b.clocks k).cen = false
  cen : (b.clocks b.first).cen = true
  le : b.first ≤ b.last
  cep : ∃ k ≤ b.last, (b.clocks k).cep = true
  pause_ne : b.pause ≠ []
  pause_cs : ∀ i ∈ b.pause, i.cs = false

def play (s : State) (b : Bus) : State := b.pause.foldl step (run step s b.clocks (b.last + 1))

/-- The state in clock `k` of the access. -/
abbrev Bus.at (b : Bus) (s : State) (k : ℕ) : State := run step s b.clocks k

/-- The channel of the access, in clock `k`. -/
def Bus.chan (b : Bus) (s : State) (k : ℕ) : Chan := (b.at s k).chan b.access.side

/-- The access is a control write, and the pointer of its channel is `n`. -/
def Bus.WritesTo (b : Bus) (s : State) (n : ℕ) : Prop :=
  b.access.we = true ∧ b.access.data = false ∧ (s.chan b.access.side).rindex = n

/-! ### Effects -/

/-- The write has its whole effect, and is not seen again. A command of a WR0 write takes the latches
behind it to their place in some clock, unless a transmission completes just then. -/
structure Whole (s : State) (b : Bus) : Prop where
  regs : (play s b).regs = s.regs.access b.access
  once : ∀ k ≤ b.last, b.first < k → ∀ c, wreg c (b.at s k) (b.clocks k) = false
  extStatus : b.WritesTo s 0 → command b.access.wdata = 2 →
    ∃ k ≤ b.first, (b.chan s (k + 1)).latchOpen = true ∧ (b.chan s (k + 1)).exIrqIp = false
  txInt : b.WritesTo s 0 → command b.access.wdata = 5 →
    ∃ k ≤ b.first, (b.chan s (k + 1)).txIntLatch = false ∨
      txDone b.access.side (b.at s k) (b.clocks k) = true
  eom : b.WritesTo s 0 → topBits b.access.wdata = 3 →
    ∃ k ≤ b.first, (b.chan s (k + 1)).eomLatch = false
  channelReset : b.WritesTo s 9 → ∀ c : Side,
    topBits b.access.wdata = c.resetBits ∨ topBits b.access.wdata = 3 →
      ((b.at s (b.first + 1)).chan c).eomLatch = false ∧
        ((b.at s (b.first + 1)).chan c).txEmptyLatch = true ∧
        ((b.at s (b.first + 1)).chan c).dcdLatch = true ∧
        ((b.at s (b.first + 1)).chan c).txIntLatch = false
  hardReset : b.WritesTo s 9 → topBits b.access.wdata = 3 → ∀ c : Side,
    ((b.at s (b.first + 1)).chan c).exIrqIp = false ∧
      ((b.at s (b.first + 1)).chan c).latchOpen = true ∧
      ((b.at s (b.first + 1)).chan c).rxQueuePos = 0 ∧
      ((b.at s (b.first + 1)).chan c).rxFirst = true ∧
      ((b.at s (b.first + 1)).chan c).txBufferFull = false

/-- The write is not to WR8, a hardware reset has `cen` in its first clock, and a command that resets
a latch with `cep` meets one no later than the first `cen`, at which the latch is not set again; or
the latch is in its place from the start. -/
structure Clear (s : State) (b : Bus) : Prop where
  buffer : ¬ b.WritesTo s 8
  hardReset : b.WritesTo s 9 → topBits b.access.wdata = 3 → b.first = 0
  extStatus : b.WritesTo s 0 → command b.access.wdata = 2 →
    (∃ k ≤ b.first, (b.clocks k).cep = true) ∨
      (b.chan s 0).latchOpen = true ∧ (b.chan s 0).exIrqIp = false
  eom : b.WritesTo s 0 → topBits b.access.wdata = 3 →
    (∃ k ≤ b.first, (b.clocks k).cep = true ∧
      txIdle b.access.side (b.at s k) (b.clocks k) = false) ∨
      (b.chan s 0).eomLatch = false ∧ (b.clocks 0).cep = false

/-! ### One access -/

section One

variable {b : Bus} (hb : b.Legal) (hs : s.csConsumed = false) (hset : Settled s)
  (hc : Clear s b)

theorem Bus.Legal.cycle (hb : b.Legal) (hs : s.csConsumed = false) :
    Cycle s b.clocks b.access b.first b.last :=
  ⟨hs, hb.holds, hb.noCen, hb.cen, hb.le⟩

theorem settled_at (hset : Settled s) (k : ℕ) : Settled (b.at s k) :=
  @run_inv _ _ step Settled (fun _ i h => h.step i) s hset b.clocks k

include hb hs hc

/-- Up to the first `cen` nothing is stored. -/
theorem regs_before (hk : k ≤ b.first) : (b.at s k).regs = s.regs := by
  have hcycle := hb.cycle hs
  induction k with
  | zero => rfl
  | succ k ih =>
    have hregs := ih (by omega)
    have hle := hb.le
    have hreset : reset (b.at s k) (b.clocks k) = false := by
      by_contra hreset
      have hholds := hb.holds k (by omega)
      have hact : csActive (b.at s k) (b.clocks k) = true := by
        rw [hcycle.active (by omega), decide_eq_true (by omega)]
      have hp : ((b.at s k).chan b.access.side).rindex = (s.chan b.access.side).rindex :=
        congrArg (fun r : Regs => (r.chan b.access.side).pointer) hregs
      simp only [reset, wselAny, wsel_eq hholds hact, hp, hholds.wdata] at hreset
      have hwrites : b.WritesTo s 9 ∧ topBits b.access.wdata = 3 := by
        unfold Bus.WritesTo
        cases hside : b.access.side <;> simp_all
      have hzero := hc.hardReset hwrites.1 hwrites.2
      omega
    change (step (b.at s k) (b.clocks k)).regs = _
    rw [regs_of_rest hreset (.inl (hb.noCen k (by omega))), hregs]

/-- Then the access is carried out, once. -/
theorem regs_after (hset : Settled s) (hk : b.first < k) (hk' : k ≤ b.last + 1) :
    (b.at s k).regs = s.regs.access b.access := by
  have hcycle := hb.cycle hs
  have hle := hb.le
  have hrest := stays (P := fun k => (b.at s k).regs) (a := b.first + 1) (b := b.last + 1)
    (fun j ha hj => by
      have hact : csActive (b.at s j) (b.clocks j) = false := by
        rw [hcycle.active (by omega), decide_eq_false (by omega)]
      have hreset : reset (b.at s j) (b.clocks j) = false := by
        simp [reset, wselAny, wsel, wreg_of_inactive _ hact]
      exact regs_of_rest hreset (.inr hact)) hk hk'
  have hbefore := regs_before hb hs hc (k := b.first) le_rfl
  have hact : csActive (b.at s b.first) (b.clocks b.first) = true := by
    rw [hcycle.active hle, decide_eq_true le_rfl]
  have hp : ((b.at s b.first).chan b.access.side).rindex = (s.chan b.access.side).rindex :=
    congrArg (fun r : Regs => (r.chan b.access.side).pointer) hbefore
  refine hrest.trans ?_
  change (step (b.at s b.first) (b.clocks b.first)).regs = _
  rw [regs_of_access (settled_at hset _) (hb.holds _ hle) hb.cen hact, hbefore]
  rw [hp]
  exact fun hw hd h8 => hc.buffer ⟨hw, hd, h8⟩

end One

/-- A pause changes no register, and makes the next access visible. -/
theorem regs_pause {l : List In} (hl : ∀ i ∈ l, i.cs = false) : (l.foldl step s).regs = s.regs := by
  induction l generalizing s with
  | nil => rfl
  | cons i l ih =>
    have hcs : i.cs = false := hl i List.mem_cons_self
    have hact : csActive s i = false := by rw [csActive, hcs, Bool.false_and]
    have hreset : reset s i = false := by
      simp [reset, wselAny, wsel, wreg_of_inactive _ hact]
    rw [List.foldl_cons, ih fun j hj => hl j (List.mem_cons_of_mem _ hj),
      regs_of_rest hreset (.inr hact)]

theorem fresh_pause {l : List In} (hl : ∀ i ∈ l, i.cs = false)
    (h : l ≠ [] ∨ s.csConsumed = false) : (l.foldl step s).csConsumed = false := by
  induction l generalizing s with
  | nil => exact h.resolve_left (not_not.mpr rfl)
  | cons i l ih =>
    have hcs : i.cs = false := hl i List.mem_cons_self
    refine ih (fun j hj => hl j (List.mem_cons_of_mem _ hj)) (.inr ?_)
    change (i.cs && _) = false
    rw [hcs, Bool.false_and]

theorem settled_pause {l : List In} (h : Settled s) : Settled (l.foldl step s) := by
  induction l generalizing s with
  | nil => exact h
  | cons i l ih => exact ih (h.step i)

/-! ### Commands -/

section Commands

variable {b : Bus} (hb : b.Legal) (hs : s.csConsumed = false) (hset : Settled s) (hc : Clear s b)
include hb hs hc

/-- A WR0 write is seen up to the first `cen`, and resets nothing. -/
theorem sees_command (h0 : b.WritesTo s 0) (hk : k ≤ b.first) :
    wsel b.access.side 0 (b.at s k) (b.clocks k) = true ∧
      (∀ c, resetChan c (b.at s k) (b.clocks k) = false) ∧
      reset (b.at s k) (b.clocks k) = false ∧ (b.clocks k).wdata = b.access.wdata := by
  obtain ⟨hw, hd, hp⟩ := h0
  have hle := hb.le
  have hholds := hb.holds k (by omega)
  have hact : csActive (b.at s k) (b.clocks k) = true := by
    rw [(hb.cycle hs).active (by omega), decide_eq_true hk]
  have hp' : ((b.at s k).chan b.access.side).rindex = 0 :=
    (congrArg (fun r : Regs => (r.chan b.access.side).pointer) (regs_before hb hs hc hk)).trans hp
  have hsel : ∀ c n, wsel c n (b.at s k) (b.clocks k) =
      (decide (b.access.side = c) && 0 == n) := by
    intro c n
    rw [wsel_eq hholds hact, hw, hd, hp']
    rfl
  refine ⟨?_, fun c => ?_, ?_, hholds.wdata⟩
  · rw [hsel, decide_eq_true rfl]
    rfl
  · simp [resetChan, wselAny, hsel]
  · simp [reset, wselAny, hsel]

theorem extStatus_done (h0 : b.WritesTo s 0) (hcmd : command b.access.wdata = 2) :
    ∃ k ≤ b.first, (b.chan s (k + 1)).latchOpen = true ∧ (b.chan s (k + 1)).exIrqIp = false := by
  have hstep : ∀ k ≤ b.first, (b.chan s (k + 1)).latchOpen =
        (if (b.clocks k).cep then true else (b.chan s k).latchOpen) ∧
      (b.chan s (k + 1)).exIrqIp = if (b.clocks k).cep then false else (b.chan s k).exIrqIp := by
    intro k hk
    obtain ⟨hsel, -, hreset, hdata⟩ := sees_command hb hs hc h0 hk
    have hnext : b.chan s (k + 1) = chanNext b.access.side (b.at s k) (b.clocks k) := step_chan _
    have hext : doExtreset b.access.side (b.at s k) (b.clocks k) = true := by
      rw [doExtreset, hsel, hdata, hcmd]
      rfl
    rw [hnext]
    cases hcep : (b.clocks k).cep <;>
      simp [chanNext, latchOpenNext, exIrqIpNext, hreset, hext, hcep, Bus.chan]
  rcases hc.extStatus h0 hcmd with ⟨k, hk, hcep⟩ | ⟨hopen, hip⟩
  · obtain ⟨h1, h2⟩ := hstep k hk
    rw [hcep] at h1 h2
    exact ⟨k, hk, h1, h2⟩
  · obtain ⟨h1, h2⟩ := hstep 0 (Nat.zero_le _)
    refine ⟨0, Nat.zero_le _, ?_, ?_⟩
    · rw [h1, hopen]
      simp
    · rw [h2, hip]
      simp

theorem txInt_done (h0 : b.WritesTo s 0) (hcmd : command b.access.wdata = 5) :
    ∃ k ≤ b.first, (b.chan s (k + 1)).txIntLatch = false ∨
      txDone b.access.side (b.at s k) (b.clocks k) = true := by
  refine ⟨0, Nat.zero_le _, ?_⟩
  obtain ⟨hsel, hreset, -, hdata⟩ := sees_command hb hs hc h0 (Nat.zero_le _)
  have hnext : b.chan s (0 + 1) = chanNext b.access.side (b.at s 0) (b.clocks 0) := step_chan _
  have hclear : txIntClear b.access.side (b.at s 0) (b.clocks 0) = true := by
    rw [txIntClear, hsel, hdata, hcmd]
    simp
  cases hdone : txDone b.access.side (b.at s 0) (b.clocks 0)
  case true => exact .inr rfl
  case false =>
    rw [hnext]
    change txIntLatchNext b.access.side (b.at s 0) (b.clocks 0) = false ∨ _
    rw [txIntLatchNext, hreset, hdone, hclear]
    exact .inl rfl

theorem eom_done (h0 : b.WritesTo s 0) (htop : topBits b.access.wdata = 3) :
    ∃ k ≤ b.first, (b.chan s (k + 1)).eomLatch = false := by
  have hstep : ∀ k ≤ b.first, (b.chan s (k + 1)).eomLatch =
      if (b.clocks k).cep then txIdle b.access.side (b.at s k) (b.clocks k)
      else (b.chan s k).eomLatch := by
    intro k hk
    obtain ⟨hsel, hreset, -, hdata⟩ := sees_command hb hs hc h0 hk
    have hnext : b.chan s (k + 1) = chanNext b.access.side (b.at s k) (b.clocks k) := step_chan _
    rw [hnext]
    cases hcep : (b.clocks k).cep <;> cases hidle : txIdle b.access.side (b.at s k) (b.clocks k) <;>
      simp [chanNext, eomLatchNext, hreset, hsel, hdata, htop, hcep, hidle, Bus.chan]
  rcases hc.eom h0 htop with ⟨k, hk, hcep, hidle⟩ | ⟨heom, hcep⟩
  · refine ⟨k, hk, ?_⟩
    rw [hstep k hk, hcep, if_pos rfl, hidle]
  · refine ⟨0, Nat.zero_le _, ?_⟩
    rw [hstep 0 (Nat.zero_le _), hcep, if_neg Bool.false_ne_true, heom]

/-- The clock that carries a WR9 write out resets the channels it names. -/
theorem sees_reset (h9 : b.WritesTo s 9) :
    (∀ c, resetChan c (b.at s b.first) (b.clocks b.first) =
      (topBits b.access.wdata == c.resetBits || topBits b.access.wdata == 3)) ∧
      reset (b.at s b.first) (b.clocks b.first) = (topBits b.access.wdata == 3) := by
  obtain ⟨hw, hd, hp⟩ := h9
  have hle := hb.le
  have hholds := hb.holds _ hle
  have hact : csActive (b.at s b.first) (b.clocks b.first) = true := by
    rw [(hb.cycle hs).active hle, decide_eq_true le_rfl]
  have hp' : ((b.at s b.first).chan b.access.side).rindex = 9 :=
    (congrArg (fun r : Regs => (r.chan b.access.side).pointer)
      (regs_before hb hs hc le_rfl)).trans hp
  have hany : wselAny 9 (b.at s b.first) (b.clocks b.first) = true := by
    rw [wselAny, wsel_eq hholds hact, wsel_eq hholds hact, hw, hd, hp']
    cases b.access.side <;> rfl
  refine ⟨fun c => ?_, ?_⟩
  · rw [resetChan, hany, hholds.wdata, Bool.true_and]
  · rw [reset, hany, hholds.wdata, Bool.true_and]

theorem channelReset_done (h9 : b.WritesTo s 9) (c : Side)
    (hbits : topBits b.access.wdata = c.resetBits ∨ topBits b.access.wdata = 3) :
    ((b.at s (b.first + 1)).chan c).eomLatch = false ∧
      ((b.at s (b.first + 1)).chan c).txEmptyLatch = true ∧
      ((b.at s (b.first + 1)).chan c).dcdLatch = true ∧
      ((b.at s (b.first + 1)).chan c).txIntLatch = false := by
  have hreset : resetChan c (b.at s b.first) (b.clocks b.first) = true := by
    rw [(sees_reset hb hs hc h9).1 c]
    simpa using hbits
  have hnext : (b.at s (b.first + 1)).chan c = chanNext c (b.at s b.first) (b.clocks b.first) :=
    step_chan _
  rw [hnext]
  simp [chanNext, eomLatchNext, txEmptyLatchNext, dcdLatchNext, txIntLatchNext, hreset]

theorem hardReset_done (h9 : b.WritesTo s 9) (htop : topBits b.access.wdata = 3) (c : Side) :
    ((b.at s (b.first + 1)).chan c).exIrqIp = false ∧
      ((b.at s (b.first + 1)).chan c).latchOpen = true ∧
      ((b.at s (b.first + 1)).chan c).rxQueuePos = 0 ∧
      ((b.at s (b.first + 1)).chan c).rxFirst = true ∧
      ((b.at s (b.first + 1)).chan c).txBufferFull = false := by
  have hreset : reset (b.at s b.first) (b.clocks b.first) = true := by
    rw [(sees_reset hb hs hc h9).2, htop]
    rfl
  have hnext : (b.at s (b.first + 1)).chan c = chanNext c (b.at s b.first) (b.clocks b.first) :=
    step_chan _
  rw [hnext]
  simp [chanNext, exIrqIpNext, latchOpenNext, rxQueuePosNext, rxFirstNext, txBufferFullNext, hreset]

theorem whole_of_clear (hset : Settled s) : Whole s b where
  regs := by
    rw [play, regs_pause hb.pause_cs]
    exact regs_after hb hs hc hset (Nat.lt_succ_of_le hb.le) le_rfl
  once := by
    intro k hk hlt c
    refine wreg_of_inactive c ?_
    rw [(hb.cycle hs).active hk, decide_eq_false (by omega)]
  extStatus := extStatus_done hb hs hc
  txInt := txInt_done hb hs hc
  eom := eom_done hb hs hc
  channelReset := channelReset_done hb hs hc
  hardReset := hardReset_done hb hs hc

end Commands

/-! ### Sequences -/

theorem fresh_play {b : Bus} (hb : b.Legal) : (play s b).csConsumed = false :=
  fresh_pause hb.pause_cs (.inl hb.pause_ne)

theorem settled_play (b : Bus) (h : Settled s) : Settled (play s b) :=
  settled_pause (settled_at h _)

/-- The accesses of a sequence, from a state in which the next one is visible. -/
theorem whole_plays {bs : List Bus} (hs : s.csConsumed = false) (hset : Settled s)
    (hb : ∀ b ∈ bs, b.Legal) (hc : ∀ l b r, bs = l ++ b :: r → Clear (l.foldl play s) b) :
    (bs.foldl play s).regs = (bs.map Bus.access).foldl Regs.access s.regs ∧
      ∀ l b r, bs = l ++ b :: r → Whole (l.foldl play s) b := by
  induction bs generalizing s with
  | nil => exact ⟨rfl, fun l b r h => absurd h (by simp)⟩
  | cons b bs ih =>
    have hb0 := hb b List.mem_cons_self
    have hwhole := whole_of_clear hb0 hs (hc [] b bs rfl) hset
    obtain ⟨hregs, hrest⟩ := @ih (play s b) (fresh_play hb0) (settled_play b hset)
      (fun b' hb' => hb b' (List.mem_cons_of_mem _ hb'))
      (fun l b' r h => hc (b :: l) b' r (by rw [h]; rfl))
    refine ⟨?_, fun l b' r h => ?_⟩
    · rw [List.foldl_cons, hregs, hwhole.regs]
      rfl
    · rcases l with _ | ⟨b0, l⟩
      · obtain ⟨rfl, rfl⟩ := List.cons.inj h
        exact hwhole
      · obtain ⟨rfl, h'⟩ := List.cons.inj h
        exact hrest l b' r h'

/-- From a reset, whatever the lengths of the accesses and their alignment to `cep` and `cen`: along
accesses that are clear every write has its whole effect, and the registers are those of the
register file after the same accesses. -/
theorem writes_whole {lead : List In} (hlead : ∀ i ∈ lead, i.cs = false) {bs : List Bus}
    (hb : ∀ b ∈ bs, b.Legal)
    (hc : ∀ l b r, bs = l ++ b :: r → Clear (l.foldl play (lead.foldl step .init)) b) :
    (bs.foldl play (lead.foldl step .init)).regs =
        (bs.map Bus.access).foldl Regs.access State.init.regs ∧
      ∀ l b r, bs = l ++ b :: r → Whole (l.foldl play (lead.foldl step .init)) b := by
  obtain ⟨hregs, hwhole⟩ := whole_plays (fresh_pause hlead (.inr rfl)) (settled_pause settled_init)
    hb hc
  rw [regs_pause hlead] at hregs
  exact ⟨hregs, hwhole⟩

/-! ### Runs -/

/-- A control write to channel A of two clocks, `cep` and then `cen` behind it or at once. -/
def twoClocks (d : Byte) (first : ℕ) : Bus where
  access := writeA d
  clocks k := (writeA d).clock (k == 0) (k == first)
  first := first
  last := 1
  pause := [idle]

theorem legal_twoClocks {d : Byte} {first : ℕ} (h : first ≤ 1) : (twoClocks d first).Legal where
  holds _ _ := (writeA d).holds_clock _ _
  noCen k hk := beq_eq_false_iff_ne.mpr (Nat.ne_of_lt hk)
  cen := beq_self_eq_true first
  le := h
  cep := ⟨0, Nat.zero_le _, rfl⟩
  pause_ne := List.cons_ne_nil _ _
  pause_cs i hi := by
    rw [List.mem_singleton.mp hi]
    rfl

/-- Channel A is pointed to WR9, and reset with the value `$CA`. -/
def resets (first : ℕ) : List Bus := [twoClocks 9 1, twoClocks 0xCA first]

theorem legal_resets {first : ℕ} (h : first ≤ 1) : ∀ b ∈ resets first, b.Legal := by
  intro b hb
  rcases List.mem_cons.mp hb with rfl | hb
  · exact legal_twoClocks le_rfl
  · rw [List.mem_singleton.mp hb]
    exact legal_twoClocks h

/-- A write of the data `d` with the pointer at `n`, neither 8 nor in need of `cep`. -/
theorem clear_twoClocks {d : Byte} {first n : ℕ} (hn : (s.chan .a).rindex = n) (h8 : n ≠ 8)
    (h9 : n = 9 → topBits d = 3 → first = 0) (h0 : n = 0 → command d ≠ 2 ∧ topBits d ≠ 3) :
    Clear s (twoClocks d first) where
  buffer h := h8 (hn.symm.trans h.2.2)
  hardReset h := h9 (hn.symm.trans h.2.2)
  extStatus h hcmd := absurd hcmd (h0 (hn.symm.trans h.2.2)).1
  eom h htop := absurd htop (h0 (hn.symm.trans h.2.2)).2

theorem clear_resets {l r : List Bus} {b : Bus} (hl : resets 0 = l ++ b :: r) :
    Clear (l.foldl play .init) b := by
  rcases l with _ | ⟨b0, l⟩
  · obtain ⟨rfl, -⟩ := List.cons.inj hl
    exact clear_twoClocks (n := 0) rfl (by decide) (by decide) (by decide)
  · obtain ⟨rfl, hl'⟩ := List.cons.inj hl
    rcases l with _ | ⟨b1, l⟩
    · obtain ⟨rfl, -⟩ := List.cons.inj hl'
      exact clear_twoClocks (n := 9) (by decide +kernel) (by decide) (fun _ _ => rfl) (by decide)
    · have hlen := congrArg List.length hl'
      simp at hlen

theorem writes_whole_resets :
    ((resets 0).foldl play .init).regs =
        ((resets 0).map Bus.access).foldl Regs.access State.init.regs ∧
      ((resets 0).foldl play .init).wr9 = 0x0A ∧
      Whole (play .init (twoClocks 9 1)) (twoClocks 0xCA 0) := by
  obtain ⟨hregs, hwhole⟩ := @writes_whole [] (by simp) (resets 0) (legal_resets (Nat.zero_le 1))
    fun l b r hl => clear_resets hl
  exact ⟨hregs, by decide +kernel, hwhole [twoClocks 9 1] _ [] rfl⟩

/-- With `cen` in the second clock the WR9 write resets the pointer, and is then taken as a WR0 write
that sets it to 10. -/
theorem reset_and_pointer :
    (∀ b ∈ resets 1, b.Legal) ∧ (((resets 1).foldl play .init).regs.chan .a).pointer = 10 ∧
      ((resets 1).foldl play .init).regs ≠
        ((resets 1).map Bus.access).foldl Regs.access State.init.regs := by
  have hpointer : (((resets 1).foldl play .init).regs.chan .a).pointer = 10 := by decide +kernel
  refine ⟨legal_resets le_rfl, hpointer, fun h => ?_⟩
  have hsame := congrArg (fun r : Regs => (r.chan .a).pointer) h
  rw [hpointer] at hsame
  revert hsame
  decide +kernel

end Scc
