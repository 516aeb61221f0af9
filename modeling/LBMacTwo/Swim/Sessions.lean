import LBMacTwo.Swim.ReadPath

/-!
# Sessions of ISM mode

A word that the drives or the CPU put into the controller is known by the clock it came in.

* `Ages`, `ages`: those clocks for the cells of the FIFO and of the staging ring;
* `Held`, `Held.step`: the words still held were held before, or came in in this clock;
* `StartsEmpty`: from a switch to ISM mode on, nothing is reported until the first push, and no word
  from before the switch is read;
* `startsEmpty_iff`: that is so exactly if the ring is empty at the switch;
* `stale_word`: a session that leaves a word in the ring.
-/

namespace Swim
open Clocked RingBuffer

variable {s : State} {i : In} {u : ℕ → In} {t : ℕ}

/-! ### When words came in -/

/-- The clocks in which the words in the FIFO and in the ring came in. -/
structure Ages where
  fifo0 : ℕ
  fifo1 : ℕ
  stage : ℕ → ℕ

/-- The clock of the word that goes into the FIFO: it comes from the CPU, or from the ring. -/
def Ages.fill (a : Ages) (s : State) (i : In) (t : ℕ) : Option ℕ :=
  if ismCpuPush s i && decide (s.ismFifoPos < 2) then some t
  else if stageDrain s i then some (a.stage s.ismStageRd)
  else none

/-- The clocks move with the words. -/
def Ages.step (a : Ages) (s : State) (i : In) (t : ℕ) : Ages where
  fifo0 :=
    if ismPopReq s i && s.ismFifoPos != 0 then a.fifo1
    else match a.fill s i t with
      | some k => if s.ismFifoPos % 2 == 0 then k else a.fifo0
      | none => a.fifo0
  fifo1 :=
    match a.fill s i t with
    | some k => if s.ismFifoPos % 2 == 1 then k else a.fifo1
    | none => a.fifo1
  stage := if stagePush s i then Function.update a.stage s.ismStageWr t else a.stage

def ages (s : State) (u : ℕ → In) : ℕ → Ages
  | 0 => ⟨0, 0, fun _ => 0⟩
  | t + 1 => (ages s u t).step (run step s u t) (u t) t

variable {a : Ages} {r : List ℕ}

/-- The clocks of the words in the FIFO. -/
def Ages.fifo (a : Ages) (s : State) : List ℕ := [a.fifo0, a.fifo1].take s.ismFifoPos

/-- The ring holds words that came in at the clocks `r`. -/
structure Held (s : State) (a : Ages) (r : List ℕ) : Prop where
  pos : s.ismFifoPos ≤ 2
  ring : Ring 16 a.stage s.ismStageRd s.ismStageWr s.ismStageCnt r

theorem Held.ring_step (h : Held s a r) (i : In) (t : ℕ) :
    ∃ r', Ring 16 (a.step s i t).stage (step s i).ismStageRd (step s i).ismStageWr
        (step s i).ismStageCnt r' ∧ (∀ k ∈ r', k ∈ r ∨ k = t) ∧
      (stageDrain s i = true → a.stage s.ismStageRd ∈ r) := by
  obtain ⟨r', hr', hnext⟩ := h.ring.step stagePush_room stageDrain_word t
  have hmem : ∀ k, k ∈ (if stageDrain s i then [a.stage s.ismStageRd] else []) ++ r' →
      k ∈ r ∨ k = t := by
    intro k hk
    rw [hr', List.mem_append] at hk
    refine hk.imp_right fun hk => ?_
    split_ifs at hk
    · exact List.mem_singleton.mp hk
    · exact absurd hk List.not_mem_nil
  have hdrain : stageDrain s i = true → a.stage s.ismStageRd ∈ r :=
    fun hd => h.ring.head_mem (stageDrain_word hd)
  by_cases hclear : (s.armEdge || clearFifo s i) = true
  · refine ⟨[], ⟨?_, holds_nil, ?_, ?_⟩, fun k hk => absurd hk List.not_mem_nil, hdrain⟩
    · change ismStageCntNext s i = 0
      rw [ismStageCntNext, if_pos hclear]
    · change ismStageRdNext s i < 16
      rw [ismStageRdNext, if_pos hclear]
      decide
    · change ismStageWrNext s i = (ismStageRdNext s i + 0) % 16
      rw [ismStageWrNext, ismStageRdNext, if_pos hclear, if_pos hclear]
  · obtain ⟨hcnt, hrd, hwr⟩ := step_ring (eq_false_of_ne_true hclear)
    rw [← hcnt, ← hrd, ← hwr] at hnext
    exact ⟨r', hnext, fun k hk => hmem k (List.mem_append_right _ hk), hdrain⟩

theorem fill_cases :
    (∃ k w, a.fill s i t = some k ∧ fifoFill s i = some w ∧ s.ismFifoPos < 2 ∧
      (k = t ∨ stageDrain s i = true ∧ k = a.stage s.ismStageRd)) ∨
    (a.fill s i t = none ∧ fifoFill s i = none) := by
  unfold Ages.fill fifoFill
  by_cases hp : (ismCpuPush s i && decide (s.ismFifoPos < 2)) = true
  · rw [if_pos hp, if_pos hp]
    rw [Bool.and_eq_true, decide_eq_true_iff] at hp
    exact .inl ⟨t, _, rfl, rfl, hp.2, .inl rfl⟩
  · rw [if_neg hp, if_neg hp]
    by_cases hd : stageDrain s i = true
    · rw [if_pos hd, if_pos hd]
      have hlt : s.ismFifoPos < 2 := by
        unfold stageDrain at hd
        simp only [Bool.and_eq_true, decide_eq_true_eq] at hd
        exact hd.1.2
      exact .inl ⟨_, _, rfl, rfl, hlt, .inr ⟨hd, rfl⟩⟩
    · rw [if_neg hd, if_neg hd]
      exact .inr ⟨rfl, rfl⟩

/-- The words in the FIFO after a clock. -/
theorem fifo_ages_step (hpos : s.ismFifoPos ≤ 2) :
    (step s i).ismFifoPos ≤ 2 ∧ ∀ k ∈ (a.step s i t).fifo (step s i),
      k ∈ a.fifo s ∨ k = t ∨ stageDrain s i = true ∧ k = a.stage s.ismStageRd := by
  have hnext : (step s i).ismFifoPos = ismFifoPosNext s i := rfl
  unfold Ages.fifo
  rw [hnext, ismFifoPosNext]
  by_cases hclear : (s.armEdge || clearFifo s i || enterIsm s i) = true
  · rw [if_pos hclear]
    exact ⟨by decide, fun k hk => absurd hk List.not_mem_nil⟩
  · rw [if_neg hclear]
    by_cases hp : (ismPopReq s i && s.ismFifoPos != 0) = true
    · rw [if_pos hp]
      refine ⟨by omega, fun k hk => .inl ?_⟩
      have h0 : (a.step s i t).fifo0 = a.fifo1 := if_pos hp
      rw [Bool.and_eq_true, bne_iff_ne] at hp
      obtain hone | htwo : s.ismFifoPos = 1 ∨ s.ismFifoPos = 2 := by omega
      · rw [hone] at hk
        exact absurd hk List.not_mem_nil
      · rw [htwo, h0] at hk
        rw [htwo]
        exact List.mem_cons_of_mem _ (by simpa using hk)
    · rw [if_neg hp]
      rcases @fill_cases s i t a with ⟨k, w, hk, hw, hlt, hnew⟩ | ⟨hk, hw⟩
      · rw [hw]
        refine ⟨hlt, fun j hj => ?_⟩
        have h0 : (a.step s i t).fifo0 = if s.ismFifoPos % 2 == 0 then k else a.fifo0 := by
          unfold Ages.step
          rw [if_neg hp, hk]
        have h1 : (a.step s i t).fifo1 = if s.ismFifoPos % 2 == 1 then k else a.fifo1 := by
          unfold Ages.step
          rw [hk]
        rw [h0, h1] at hj
        obtain hzero | hone : s.ismFifoPos = 0 ∨ s.ismFifoPos = 1 := by omega
        · rw [hzero] at hj
          have hjk : j = k := by simpa using hj
          exact .inr (hjk ▸ hnew)
        · rw [hone] at hj
          have hjk : j = a.fifo0 ∨ j = k := by simpa using hj
          rcases hjk with hj0 | hjk
          · left
            rw [hone, hj0]
            exact List.mem_cons_self
          · exact .inr (hjk ▸ hnew)
      · rw [hw]
        refine ⟨hpos, fun j hj => .inl ?_⟩
        have h0 : (a.step s i t).fifo0 = a.fifo0 := by
          unfold Ages.step
          rw [if_neg hp, hk]
        have h1 : (a.step s i t).fifo1 = a.fifo1 := by
          unfold Ages.step
          rw [hk]
        rwa [h0, h1] at hj

/-- A word that is held after a clock was held before it, or came in in it. -/
theorem Held.step (h : Held s a r) (i : In) (t : ℕ) :
    ∃ r', Held (step s i) (a.step s i t) r' ∧
      ∀ k ∈ (a.step s i t).fifo (Swim.step s i) ++ r', k ∈ a.fifo s ++ r ∨ k = t := by
  obtain ⟨r', hring, hmem, hdrain⟩ := h.ring_step i t
  obtain ⟨hpos, hfifo⟩ := @fifo_ages_step s i t a h.pos
  refine ⟨r', ⟨hpos, hring⟩, fun k hk => ?_⟩
  rw [List.mem_append] at hk ⊢
  rcases hk with hk | hk
  · rcases hfifo k hk with hold | hnow | ⟨hd, hold⟩
    · exact .inl (.inl hold)
    · exact .inr hnow
    · exact .inl (.inr (hold ▸ hdrain hd))
  · exact (hmem k hk).imp_left .inr

/-! ### The switch to ISM mode -/

theorem accEnd_of_enterIsm (h : enterIsm s i = true) : accEnd s i = true ∧ s.ismMode = false := by
  unfold enterIsm at h
  simp only [Bool.and_eq_true, Bool.not_eq_true'] at h
  exact ⟨h.1.1.1.1.1, h.1.1.1.1.2⟩

/-- The switch keeps the ring. -/
theorem ring_of_enterIsm (h : enterIsm s i = true) :
    (step s i).ismFifoPos = 0 ∧ (step s i).ismStageCnt = s.ismStageCnt := by
  obtain ⟨hend, hmode⟩ := accEnd_of_enterIsm h
  have harm : s.ismArm = false := by simp [State.ismArm, hmode]
  have hclear : (s.armEdge || clearFifo s i) = false := by
    simp [State.armEdge, clearFifo, ismWrite, harm, hmode]
  have hpush : stagePush s i = false := by simp [stagePush, ismGenPush, State.ismReadActive, harm]
  have hdrain : stageDrain s i = false := by rw [stageDrain, hend, Bool.not_true, Bool.and_false]
  constructor
  · change ismFifoPosNext s i = 0
    rw [ismFifoPosNext, h, Bool.or_true, if_pos rfl]
  · rw [(step_ring hclear).1, hpush, hdrain]
    rfl

/-- The clock after the switch: ISM mode without ACTION, and no access that ends. -/
theorem step_enterIsm (h : enterIsm s i = true) :
    (step s i).ismMode = true ∧ (step s i).ismModeReg = 0x40 ∧ (step s i).swimAccD = false := by
  have hend := (accEnd_of_enterIsm h).1
  unfold accEnd at hend
  rw [Bool.and_eq_true, Bool.not_eq_true'] at hend
  refine ⟨?_, ?_, hend.2⟩
  · change ismModeNext s i = true
    rw [ismModeNext, if_pos h]
  · change ismModeRegNext s i = 0x40
    rw [ismModeRegNext, if_pos h]

/-- A word comes into the ring, or from the CPU into the FIFO. -/
def pushes (s : State) (i : In) : Bool := stagePush s i || ismCpuPush s i

/-- In that clock no word comes in, and a word in the ring goes into the FIFO. -/
theorem drain_after_switch {j : In} (h : enterIsm s i = true) :
    pushes (step s i) j = false ∧
      (s.ismStageCnt ≠ 0 → (step (step s i) j).ismFifoPos = 1) := by
  obtain ⟨hmode, hreg, hacc⟩ := step_enterIsm h
  obtain ⟨hpos, hcnt⟩ := ring_of_enterIsm h
  have harm : (step s i).ismArm = false := by simp [State.ismArm, hreg]
  have hend : accEnd (step s i) j = false := by rw [accEnd, hacc, Bool.false_and]
  have hpush : ismCpuPush (step s i) j = false := by simp [ismCpuPush, hend]
  refine ⟨by simp [pushes, stagePush, ismGenPush, State.ismReadActive, harm, hpush], fun hne => ?_⟩
  have hdrain : stageDrain (step s i) j = true := by
    simp [stageDrain, hcnt, hne, hpos, hend]
  change ismFifoPosNext (step s i) j = 1
  simp [ismFifoPosNext, State.armEdge, harm, clearFifo, ismWrite, enterIsm, ismPopReq, hend,
    fifoFill, hpush, hdrain, hpos]

theorem quiet_step (hpos : s.ismFifoPos = 0) (hcnt : s.ismStageCnt = 0)
    (hp : pushes s i = false) : (step s i).ismFifoPos = 0 ∧ (step s i).ismStageCnt = 0 := by
  obtain ⟨hstage, hcpu⟩ := Bool.or_eq_false_iff.mp hp
  have hdrain : stageDrain s i = false := by simp [stageDrain, hcnt]
  constructor
  · change ismFifoPosNext s i = 0
    simp [ismFifoPosNext, fifoFill, hcpu, hdrain, hpos]
  · change ismStageCntNext s i = 0
    simp [ismStageCntNext, hstage, hdrain, hcnt]

/-! ### Runs -/

/-- The CPU reads a word of the FIFO. -/
def reads (s : State) (i : In) : Bool :=
  s.ismMode && i.swimAcc && i.cpuRW && i.cpuAddrRegHi % 8 ≤ 1 && s.ismModeReg.getLsbD 3 &&
    s.ismFifoPos != 0

/-- After a switch to ISM mode in clock `t` the FIFO is empty, and the handshake register reports no
data to read, until the first word comes in; and the words read came in after the switch. -/
structure StartsEmpty (s : State) (u : ℕ → In) (t : ℕ) : Prop where
  empty : ∀ k > t, (∀ j > t, j < k → pushes (run step s u j) (u j) = false) →
    (run step s u k).ismFifoPos = 0 ∧ ((run step s u k).ismModeReg.getLsbD 4 = false →
      ∀ i, (handshake (run step s u k) i).getLsbD 7 = false)
  fresh : ∀ k > t, reads (run step s u k) (u k) = true → t < (ages s u k).fifo0

theorem handshake_of_empty (hpos : s.ismFifoPos = 0) (hreg : s.ismModeReg.getLsbD 4 = false)
    (i : In) : (handshake s i).getLsbD 7 = false := by
  have hbit : ∀ b6 b5 b3 b1 b0,
      (packByte false b6 b5 false b3 false b1 b0).getLsbD 7 = false := by decide
  rw [handshake, hpos, hreg]
  exact hbit _ _ _ _ _

theorem held_run (u : ℕ → In) (t : ℕ) : ∃ r, Held (run step .init u t) (ages .init u t) r := by
  induction t with
  | zero => exact ⟨[], Nat.zero_le 2, rfl, holds_nil, Nat.zero_lt_succ 15, rfl⟩
  | succ t ih =>
    obtain ⟨r, hr⟩ := ih
    obtain ⟨r', hr', -⟩ := hr.step (u t) t
    exact ⟨r', hr'⟩

/-- After a switch with an empty ring every word held came in after it. -/
theorem fresh_run (h : enterIsm (run step .init u t) (u t) = true)
    (hcnt : (run step .init u t).ismStageCnt = 0) (n : ℕ) :
    ∃ r, Held (run step .init u (t + 1 + n)) (ages .init u (t + 1 + n)) r ∧
      ∀ k ∈ (ages .init u (t + 1 + n)).fifo (run step .init u (t + 1 + n)) ++ r, t < k := by
  induction n with
  | zero =>
    obtain ⟨r, hr⟩ := held_run u (t + 1)
    obtain ⟨hpos, hcnt'⟩ := ring_of_enterIsm h
    change (run step .init u (t + 1)).ismFifoPos = 0 at hpos
    change (run step .init u (t + 1)).ismStageCnt = _ at hcnt'
    rw [hcnt] at hcnt'
    have hnil : r = [] := List.eq_nil_of_length_eq_zero (hr.ring.cnt_eq ▸ hcnt')
    refine ⟨r, hr, fun k hk => ?_⟩
    rw [Nat.add_zero, hnil, Ages.fifo, hpos] at hk
    exact absurd hk List.not_mem_nil
  | succ n ih =>
    obtain ⟨r, hr, hold⟩ := ih
    obtain ⟨r', hr', hmem⟩ := hr.step (u (t + 1 + n)) (t + 1 + n)
    refine ⟨r', hr', fun k hk => ?_⟩
    rcases hmem k hk with hk | hk
    · exact hold k hk
    · omega

/-- A switch to ISM mode starts with an empty FIFO exactly if the staging ring is empty. -/
theorem startsEmpty_iff (h : enterIsm (run step .init u t) (u t) = true) :
    StartsEmpty .init u t ↔ (run step .init u t).ismStageCnt = 0 := by
  constructor
  · intro hs
    by_contra hne
    obtain ⟨hp, hpos⟩ := @drain_after_switch _ _ (u (t + 1)) h
    have hempty := hs.empty (t + 2) (by omega) fun j hj hlt => by
      obtain rfl : j = t + 1 := by omega
      exact hp
    have hone : (run step .init u (t + 2)).ismFifoPos = 1 := hpos hne
    rw [hempty.1] at hone
    exact absurd hone (by decide)
  · intro hcnt
    have hquiet : ∀ n, (∀ j > t, j < t + 1 + n → pushes (run step .init u j) (u j) = false) →
        (run step .init u (t + 1 + n)).ismFifoPos = 0 ∧
          (run step .init u (t + 1 + n)).ismStageCnt = 0 := by
      intro n
      induction n with
      | zero =>
        obtain ⟨hpos, hcnt'⟩ := ring_of_enterIsm h
        exact fun _ => ⟨hpos, hcnt'.trans hcnt⟩
      | succ n ih =>
        intro hp
        obtain ⟨hpos, hcnt'⟩ := ih fun j hj hlt => hp j hj (by omega)
        exact quiet_step hpos hcnt' (hp (t + 1 + n) (by omega) (by omega))
    refine ⟨fun k hk hp => ?_, fun k hk hread => ?_⟩
    · obtain ⟨n, rfl⟩ : ∃ n, k = t + 1 + n := ⟨k - (t + 1), by omega⟩
      exact ⟨(hquiet n hp).1, fun hreg => handshake_of_empty (hquiet n hp).1 hreg⟩
    · obtain ⟨n, rfl⟩ : ∃ n, k = t + 1 + n := ⟨k - (t + 1), by omega⟩
      obtain ⟨r, -, hold⟩ := fresh_run h hcnt n
      have hpos : (run step .init u (t + 1 + n)).ismFifoPos ≠ 0 := by
        unfold reads at hread
        rw [Bool.and_eq_true, bne_iff_ne] at hread
        exact hread.2
      refine hold _ (List.mem_append_left _ ?_)
      obtain ⟨m, hm⟩ := Nat.exists_eq_succ_of_ne_zero hpos
      rw [Ages.fifo, hm, List.take_succ_cons]
      exact List.mem_cons_self

/-- A first session without a delivery: the switch of `armSequence`. -/
theorem startsEmpty_first :
    enterIsm (run step .init armSequence 7) (armSequence 7) = true ∧
      StartsEmpty .init armSequence 7 := by
  have h : enterIsm (run step .init armSequence 7) (armSequence 7) = true := by decide +kernel
  exact ⟨h, (startsEmpty_iff h).mpr (by decide +kernel)⟩

/-- Four deliveries in a first session, which is left without a pop, and the switch to a second. -/
def leaveWords (k : ℕ) : In :=
  if k < 11 then armSequence k
  else if k < 15 then idle.deliver 0xA1 true
  else match k with
    | 16 => writeReg 6 0x48
    | 18 => writeReg 15 0x40
    | 20 => writeReg 15 0
    | 22 => writeReg 15 0x40
    | 24 => writeReg 15 0x40
    | _ => idle

/-- A word of the first session is in the FIFO of the second. -/
theorem stale_word :
    enterIsm (run step .init leaveWords 25) (leaveWords 25) = true ∧
      ¬ StartsEmpty .init leaveWords 25 := by
  have h : enterIsm (run step .init leaveWords 25) (leaveWords 25) = true := by decide +kernel
  refine ⟨h, fun hs => ?_⟩
  have hp : ∀ j < 27, 25 < j → pushes (run step .init leaveWords j) (leaveWords j) = false := by
    decide +kernel
  have hempty := (hs.empty 27 (by decide) fun j hj hlt => hp j hlt hj).1
  revert hempty
  decide +kernel

end Swim
