import LBMacTwo.Scsi.Hps

/-!
# The command phase

What a command says (`cmdLba`, `cmdTlen`), that its registers rest outside the command phase, and
what the target looks like while it takes a command: `Fresh`, with the counters of the data path
cleared and nothing requested.
-/

namespace Scsi

variable {P : Params} {E : Env} {s : State} {i : In} {x : Sys} {b : Bus} {m : HpsMove}

/-- The block address the command names. -/
def State.cmdLba (s : State) : ℕ := if s.cmdGroup = 0 then s.lba6 else s.lba10

/-- The transfer length the command names. -/
def State.cmdTlen (s : State) : ℕ := if s.cmdGroup = 0 then s.tlen6 else s.tlen10

theorem State.tlen6_lt (s : State) : s.tlen6 < 65536 := by
  have := (s.cmd 4).isLt
  unfold State.tlen6
  split_ifs <;> omega

theorem State.tlen10_lt (s : State) : s.tlen10 < 65536 := by
  have h7 := (s.cmd 7).isLt
  have h8 := (s.cmd 8).isLt
  unfold State.tlen10
  omega

theorem State.cmdTlen_lt (s : State) : s.cmdTlen < 65536 := by
  unfold State.cmdTlen
  split_ifs
  exacts [s.tlen6_lt, s.tlen10_lt]

theorem State.cmdLba_lt (s : State) : s.cmdLba < 2 ^ 32 := by
  have := fun k => (s.cmd k).isLt
  have h1 := this 1; have h2 := this 2; have h3 := this 3; have h4 := this 4; have h5 := this 5
  unfold State.cmdLba State.lba6 State.lba10
  split_ifs <;> omega

/-! ### The registers rest outside the command phase -/

theorem cmd_next (h : s.phase ≠ .cmdIn) : (Scsi.step P s i).cmd = s.cmd := by
  have : (s.phase == .cmdIn) = false := by simpa using h
  simp [Scsi.step, cmdNext, this]

theorem tlen_next (h : s.phase ≠ .cmdIn) : (Scsi.step P s i).tlen = s.tlen := by
  have : (s.phase == .cmdIn) = false := by simpa using h
  simp [Scsi.step, tlenNext, State.cmdAccept, this]

/-! What is decoded is a function of the command bytes and the latched length. -/

section Decode

variable {s' : State} (hc : s'.cmd = s.cmd)
include hc

theorem cmdRead_congr : s'.cmdRead = s.cmdRead := by cases s; cases s'; cases hc; rfl

theorem cmdWrite_congr : s'.cmdWrite = s.cmdWrite := by cases s; cases s'; cases hc; rfl

theorem cmdLba_congr : s'.cmdLba = s.cmdLba := by cases s; cases s'; cases hc; rfl

theorem cmdTlen_congr : s'.cmdTlen = s.cmdTlen := by cases s; cases s'; cases hc; rfl

theorem cmdPhase_congr : s'.cmdPhase = s.cmdPhase := by cases s; cases s'; cases hc; rfl

theorem dataLen_congr (ht : s'.tlen = s.tlen) : s'.dataLen = s.dataLen := by
  cases s; cases s'; cases hc; cases ht; rfl

end Decode

theorem dataLen_next (h : s.phase ≠ .cmdIn) : (Scsi.step P s i).dataLen = s.dataLen :=
  dataLen_congr (cmd_next h) (tlen_next h)

/-! ### Taking a command -/

/-- Nothing is requested and the counters of the data path are cleared. -/
structure Fresh (s : State) : Prop where
  noRd : s.ioRd = false ∧ s.rdBusy = false
  noWr : s.ioWr = false ∧ s.wrPending = false ∧ s.oldWr = false
  noStore : s.buffer0Wr = false ∧ s.buffer1Wr = false
  dataCnt : s.dataCnt = 0
  rdHpsBlk : s.rdHpsBlk = 0
  dataComplete : s.dataComplete = false
  sent : s.statusSent = false ∧ s.messageSent = false
  beat : s.wmBeat2 = false ∧ s.storeLow = false

theorem Phase.not_transfers {p : Phase} (h : p.transfers = false) :
    p ≠ .dataOut ∧ p ≠ .dataIn ∧ p ≠ .statusOut ∧ p ≠ .messageOut := by
  cases p <;> simp_all [Phase.transfers]

theorem Fresh.step (h : Fresh s) (hp : s.phase.transfers = false) : Fresh (Scsi.step P s i) := by
  obtain ⟨h1, h2, h3, h4⟩ := Phase.not_transfers hp
  constructor
  · simp [Scsi.step, ioRdNext, rdBusyNext, issueRd, reqRd, h1, h.noRd]
  · simp [Scsi.step, ioWrNext, wrPendingNext, oldWrNext, issueWr, reqWr, h2, h3, h.noWr]
  · simp [Scsi.step, buffer0WrNext, buffer1WrNext, h2]
  · simp [Scsi.step, dataCntNext, hp]
  · simp [Scsi.step, rdHpsBlkNext, hp]
  · simp [Scsi.step, dataCompleteNext, hp]
  · simp [Scsi.step, statusSentNext, messageSentNext, h3, h4]
  · simp [Scsi.step, wmBeat2Next, storeLowNext, h2]

theorem cmdCpl_iff : s.cmdCpl = true ↔ (s.cmdGroup = 0 ∧ s.cmdCnt = 6) ∨
    ((s.cmdGroup = 2 ∨ s.cmdGroup = 1) ∧ s.cmdCnt = 10) ∨ (s.cmdGroup = 5 ∧ s.cmdCnt = 12) := by
  simp [State.cmdCpl, State.cmd6Cpl, State.cmd10Cpl, State.cmd12Cpl, or_assoc]

/-- A register of the command changes only when the byte with its number arrives. -/
theorem cmd_next_of_ne {k : ℕ} (h : s.cmdCnt ≠ k) : (Scsi.step P s i).cmd k = s.cmd k :=
  store_of_ne fun _ => h.symm

theorem cmd_next_of_not_stbAck (h : s.stbAck = false) : (Scsi.step P s i).cmd = s.cmd := by
  simp [Scsi.step, cmdNext, h]

theorem cmdCnt_next_of_not_stbAdv (hp : s.phase = .cmdIn) (h : s.stbAdv = false) :
    (Scsi.step P s i).cmdCnt = s.cmdCnt := by
  simp [Scsi.step, cmdCntNext, h, hp]

/-- A command is completed by the byte whose `ack` has just been seen to fall. -/
theorem stbAdv_of_cmdCpl_next (hp : s.phase = .cmdIn) (h : s.cmdCpl = false)
    (h' : (Scsi.step P s i).cmdCpl = true) : s.stbAdv = true := by
  by_contra hadv
  rw [Bool.not_eq_true] at hadv
  have hcnt := cmdCnt_next_of_not_stbAdv (P := P) (i := i) hp hadv
  rw [cmdCpl_iff, hcnt] at h'
  have hgrp : (Scsi.step P s i).cmdGroup = s.cmdGroup := by
    rw [State.cmdGroup, State.opCode, cmd_next_of_ne (by omega)]
    rfl
  rw [hgrp, ← cmdCpl_iff, h] at h'
  cases h'

theorem lba_accept (hp : s.phase = .cmdIn) (hc : s.cmdCpl = true) :
    (Scsi.step P s i).lba = s.cmdLba := by
  have h6 : s.cmd6Cpl = true ↔ s.cmdGroup = 0 := by
    rw [cmdCpl_iff] at hc
    simp only [State.cmd6Cpl, Bool.and_eq_true, beq_iff_eq]
    omega
  simp only [Scsi.step, lbaNext, State.cmdAccept, hp, hc, State.cmdLba, h6]
  rfl

theorem tlen_accept (hp : s.phase = .cmdIn) (hc : s.cmdCpl = true) :
    (Scsi.step P s i).tlen = s.cmdTlen := by
  have h6 : s.cmd6Cpl = true ↔ s.cmdGroup = 0 := by
    rw [cmdCpl_iff] at hc
    simp only [State.cmd6Cpl, Bool.and_eq_true, beq_iff_eq]
    omega
  simp only [Scsi.step, tlenNext, State.cmdAccept, hp, hc, State.cmdTlen, h6]
  rfl

theorem phase_accept (hr : i.rst = false) (hp : s.phase = .cmdIn) :
    (Scsi.step P s i).phase = if s.cmdCpl then s.cmdPhase else .cmdIn := by
  simp [Scsi.step, phaseNext, hr, hp]

/-! ### The order of the phases -/

theorem phase_data (hr : i.rst = false) (hp : s.phase = .dataOut ∨ s.phase = .dataIn) :
    (Scsi.step P s i).phase = if s.dataDone then .statusOut else s.phase := by
  rcases hp with hp | hp <;> simp [Scsi.step, phaseNext, hr, hp]

theorem phase_status (hr : i.rst = false) (hp : s.phase = .statusOut) :
    (Scsi.step P s i).phase = if s.statusSent then .messageOut else .statusOut := by
  simp [Scsi.step, phaseNext, hr, hp]

theorem phase_message (hr : i.rst = false) (hp : s.phase = .messageOut) :
    (Scsi.step P s i).phase = if s.messageSent then .idle else .messageOut := by
  simp [Scsi.step, phaseNext, hr, hp]

theorem State.cmdPhase_cases (s : State) :
    s.cmdPhase = .dataOut ∨ s.cmdPhase = .dataIn ∨ s.cmdPhase = .statusOut := by
  unfold State.cmdPhase
  split_ifs <;> simp

theorem State.cmdPhase_ne_cmdIn (s : State) : s.cmdPhase ≠ .cmdIn := fun h => by
  have := s.cmdPhase_cases
  simp [h] at this

/-- What a clock can do to the phase. -/
inductive PhaseStep (P : Params) (s : State) (i : In) : Phase → Prop
  | stay : PhaseStep P s i s.phase
  | reset : i.rst = true → PhaseStep P s i .idle
  | select : s.phase = .idle → selected P s i = true → PhaseStep P s i .cmdIn
  | accept : s.phase = .cmdIn → s.cmdCpl = true → PhaseStep P s i s.cmdPhase
  | dataEnd : s.phase = .dataOut ∨ s.phase = .dataIn → s.dataDone = true →
      PhaseStep P s i .statusOut
  | statusEnd : s.phase = .statusOut → s.statusSent = true → PhaseStep P s i .messageOut
  | messageEnd : s.phase = .messageOut → s.messageSent = true → PhaseStep P s i .idle

theorem phaseStep (P : Params) (s : State) (i : In) : PhaseStep P s i (Scsi.step P s i).phase := by
  have hif : ∀ (g : Bool) (q : Phase), (g = true → PhaseStep P s i q) →
      PhaseStep P s i (if g then q else s.phase) := fun g q hq => by
    cases g
    · exact .stay
    · exact hq rfl
  simp only [Scsi.step, phaseNext]
  by_cases hr : i.rst = true
  · rw [if_pos hr]
    exact .reset hr
  · rw [if_neg hr]
    cases hp : s.phase <;> simp only <;> rw [← hp]
    · exact hif _ _ (.select hp)
    · exact hif _ _ (.accept hp)
    · exact hif _ _ (.dataEnd (.inl hp))
    · exact hif _ _ (.dataEnd (.inr hp))
    · exact hif _ _ (.statusEnd hp)
    · exact hif _ _ (.messageEnd hp)

theorem phase_of_cmdIn_next (h : s.phase ≠ .idle) (h' : (Scsi.step P s i).phase = .cmdIn) :
    s.phase = .cmdIn := by
  have hs := phaseStep P s i
  generalize (Scsi.step P s i).phase = q at h' hs
  cases hs with
  | stay => exact h'
  | select hp => exact absurd hp h
  | accept => exact absurd h' s.cmdPhase_ne_cmdIn
  | _ => cases h'

theorem phase_of_dataOut_next (h : (Scsi.step P s i).phase = .dataOut) :
    s.phase = .cmdIn ∨ s.phase = .dataOut := by
  have hs := phaseStep P s i
  generalize (Scsi.step P s i).phase = q at h hs
  cases hs with
  | stay => exact .inr h
  | accept hp => exact .inl hp
  | _ => cases h

theorem phase_of_dataIn_next (h : (Scsi.step P s i).phase = .dataIn) :
    s.phase = .cmdIn ∨ s.phase = .dataIn := by
  have hs := phaseStep P s i
  generalize (Scsi.step P s i).phase = q at h hs
  cases hs with
  | stay => exact .inr h
  | accept hp => exact .inl hp
  | _ => cases h

theorem phase_of_statusOut_next (h : (Scsi.step P s i).phase = .statusOut) : s.phase = .cmdIn ∨
    ((s.phase = .dataOut ∨ s.phase = .dataIn) ∧ s.dataDone = true) ∨ s.phase = .statusOut := by
  have hs := phaseStep P s i
  generalize (Scsi.step P s i).phase = q at h hs
  cases hs with
  | stay => exact .inr (.inr h)
  | accept hp => exact .inl hp
  | dataEnd hp hd => exact .inr (.inl ⟨hp, hd⟩)
  | _ => cases h

theorem phase_of_messageOut_next (h : (Scsi.step P s i).phase = .messageOut) :
    (s.phase = .statusOut ∧ s.statusSent = true) ∨ s.phase = .messageOut := by
  have hs := phaseStep P s i
  generalize (Scsi.step P s i).phase = q at h hs
  cases hs with
  | stay => exact .inr h
  | accept => rcases s.cmdPhase_cases with hc | hc | hc <;> rw [hc] at h <;> cases h
  | statusEnd hp hd => exact .inl ⟨hp, hd⟩
  | _ => cases h

/-! ### READ and WRITE -/

theorem State.read_opCode (h : s.cmdRead = true) : s.opCode = 0x08 ∨ s.opCode = 0x28 := by
  simpa [State.cmdRead, State.cmdRead6, State.cmdRead10] using h

theorem State.write_opCode (h : s.cmdWrite = true) : s.opCode = 0x0a ∨ s.opCode = 0x2a := by
  simpa [State.cmdWrite, State.cmdWrite6, State.cmdWrite10] using h

theorem State.cmdWrite_of_cmdRead (h : s.cmdRead = true) : s.cmdWrite = false := by
  rcases s.read_opCode h with h | h <;> simp [State.cmdWrite, State.cmdWrite6, State.cmdWrite10, h]

theorem State.cmdRead_of_cmdWrite (h : s.cmdWrite = true) : s.cmdRead = false := by
  rcases s.write_opCode h with h | h <;> simp [State.cmdRead, State.cmdRead6, State.cmdRead10, h]

theorem State.dataLen_of_read (h : s.cmdRead = true) : s.dataLen = 512 * s.tlen := by
  rw [Nat.mul_comm]
  rcases s.read_opCode h with ho | ho <;> simp [State.dataLen, h, State.cmdReadCapacity, ho]

theorem State.dataLen_of_write (h : s.cmdWrite = true) : s.dataLen = 512 * s.tlen := by
  rw [Nat.mul_comm]
  rcases s.write_opCode h with ho | ho <;>
    simp [State.dataLen, h, s.cmdRead_of_cmdWrite h, State.cmdReadCapacity, ho]

theorem State.cmdPhase_of_read (h : s.cmdRead = true) : s.cmdPhase = .dataOut := by
  simp [State.cmdPhase, State.cmdOk, State.cmdReturnsData, h]

theorem State.cmdPhase_of_write (h : s.cmdWrite = true) : s.cmdPhase = .dataIn := by
  rcases s.write_opCode h with ho | ho <;>
    simp [State.cmdPhase, State.cmdOk, State.cmdReturnsData, State.cmdReceivesData, h,
      s.cmdRead_of_cmdWrite h, State.cmdInquiry, State.cmdReadCapacity, State.cmdModeSense,
      State.cmdReadBuffer, State.cmdRequestSense, ho]

end Scsi
