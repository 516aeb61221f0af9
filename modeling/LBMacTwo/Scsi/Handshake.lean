import LBMacTwo.Scsi.Initiator

/-!
# The bytes of a command

What a polite initiator sends and takes in one command, phase by phase: `Acks` counts its `ack`
pulses, and `Tally` says what the counts are in every state, for a command of a group that has a
length.
-/

namespace Scsi

variable {P : Params} {E : Env} {r : Rig} {k : Tick} {cdb : ℕ → Byte}

/-- The `ack` pulses of a command by the phase they were raised in. -/
structure Acks where
  command : ℕ
  data : ℕ
  status : ℕ
  message : ℕ
  deriving DecidableEq, Repr

def Acks.total (a : Acks) : ℕ := a.command + a.data + a.status + a.message

/-- A pulse raised in phase `p` is counted there. -/
def Acks.add (a : Acks) (p : Phase) (rise : Bool) : Acks :=
  match p with
  | .idle => a
  | .cmdIn => { a with command := a.command + rise.toNat }
  | .dataOut | .dataIn => { a with data := a.data + rise.toNat }
  | .statusOut => { a with status := a.status + rise.toNat }
  | .messageOut => { a with message := a.message + rise.toNat }

/-- The length of a command by its group code; groups 3, 4, 6 and 7 have none. -/
def groupLen : ℕ → Option ℕ
  | 0 => some 6
  | 1 | 2 => some 10
  | 5 => some 12
  | _ => none

/-- The initiator sends the bytes of `cdb` for a command. -/
def Sends (cdb : ℕ → Byte) (r : Rig) (k : Tick) : Prop :=
  r.sys.tgt.phase = .cmdIn → k.bus.din = cdb r.sys.tgt.cmdCnt

/-- The bytes of the data phase of a command; a command without one has none. -/
def State.dataBytes (s : State) : ℕ := if s.cmdPhase = .statusOut then 0 else s.dataLen

/-- The pulse that is up or whose fall the target works off. -/
def Rig.underWay (r : Rig) : ℕ := r.sys.tgt.oldAck.toNat + r.sys.tgt.stbAdv.toNat

theorem cmdCpl_of_groupLen {s : State} {n : ℕ} (h : groupLen s.cmdGroup = some n) :
    s.cmdCpl = true ↔ s.cmdCnt = n := by
  rw [cmdCpl_iff]
  unfold groupLen at h
  split at h <;> simp_all

theorem groupLen_le {g n : ℕ} (h : groupLen g = some n) : 6 ≤ n ∧ n ≤ 12 := by
  unfold groupLen at h
  split at h <;> simp_all <;> omega

/-- A byte of the command is stored before the fall of its `ack` has been worked off. -/
def Hears (cdb : ℕ → Byte) (r : Rig) : Prop :=
  ∀ j < 10, j < r.sys.tgt.cmdCnt ∨ (j = r.sys.tgt.cmdCnt ∧ (r.sys.tgt.stbAdv = true ∨
    (r.sys.tgt.oldAck = true ∧ r.sys.tgt.stbAck = false))) → r.sys.tgt.cmd j = cdb j

theorem Hears.step (h : Hears cdb r) (hc : Shake r) (hs : Sends cdb r k)
    (hp : r.sys.tgt.phase = .cmdIn) : Hears cdb (r.step P E k) := by
  intro j hj ha
  by_cases hst : r.sys.tgt.stbAck = true ∧ r.sys.tgt.cmdCnt = j
  · have hdin : k.bus.din = cdb j := by rw [hs hp, hst.2]
    simp [Rig.step, Sys.step, Scsi.step, cmdNext, hst, hp, hj, Sys.input, hdin]
  · have hcmd : (r.step P E k).sys.tgt.cmd j = r.sys.tgt.cmd j := by
      by_cases hcj : r.sys.tgt.cmdCnt = j
      · exact congrFun (cmd_next_of_not_stbAck (by simpa [hcj] using hst)) j
      · exact cmd_next_of_ne hcj
    rw [hcmd]
    refine h j hj ?_
    by_cases hadv : r.sys.tgt.stbAdv = true
    · have hcnt : (r.step P E k).sys.tgt.cmdCnt ≤ r.sys.tgt.cmdCnt + 1 := by
        simp only [Rig.step, Sys.step, Scsi.step, cmdCntNext]
        split_ifs <;> omega
      have hway : (r.step P E k).sys.tgt.stbAdv = false := by
        rw [Rig.stbAdv_step, (hc.adv hadv).2]
        rfl
      rcases ha with ha | ⟨ha, hx | ⟨hx, hy⟩⟩
      · rcases Nat.lt_or_eq_of_le (show j ≤ r.sys.tgt.cmdCnt by omega) with hlt | heq
        · exact .inl hlt
        · exact .inr ⟨heq, .inl hadv⟩
      · rw [hway] at hx
        cases hx
      · -- a rise in this clock has its strobe in the next
        have ho := (hc.adv hadv).2
        simp [Rig.step, Sys.step, Scsi.step, stbAckNext, Sys.input, ho] at hx hy
        rw [hx] at hy
        cases hy
    · have hcnt : (r.step P E k).sys.tgt.cmdCnt = r.sys.tgt.cmdCnt :=
        cmdCnt_next_of_not_stbAdv hp (by simpa using hadv)
      rw [hcnt] at ha
      refine ha.imp_right ?_
      rintro ⟨heq, hx⟩
      refine ⟨heq, .inr ?_⟩
      have hold : r.sys.tgt.oldAck = true := by
        cases ho : r.sys.tgt.oldAck
        · simp [Rig.step, Sys.step, Scsi.step, stbAdvNext, stbAckNext, Sys.input, ho] at hx
        · rfl
      exact ⟨hold, Bool.eq_false_iff.mpr fun hstb => hst ⟨hstb, heq.symm⟩⟩

theorem Rig.underWay_step :
    (r.step P E k).underWay + r.sys.tgt.stbAdv.toNat = r.underWay + (r.rise k).toNat := by
  simp only [Rig.underWay, Rig.rise, Rig.oldAck_step, Rig.stbAdv_step]
  cases k.bus.ack <;> cases r.sys.tgt.oldAck <;> simp [Nat.add_comm]

theorem Shake.underWay_le (h : Shake r) : r.underWay ≤ 1 := by
  rw [Rig.underWay]
  cases ha : r.sys.tgt.stbAdv
  · exact r.sys.tgt.oldAck.toNat_le
  · rw [(h.adv ha).2]
    decide

theorem Shake.underWay_eq_zero (h : Shake r) (hs : r.settle ≤ 2) : r.underWay = 0 := by
  obtain ⟨h1, h2, -⟩ := h.settled hs
  rw [Rig.underWay, h1, h2]
  rfl

theorem State.dataLen_lt {s : State} (h : s.tlen = s.cmdTlen) : s.dataLen < 2 ^ 32 := by
  have := s.cmdTlen_lt
  unfold State.dataLen State.allocLen State.senseLen
  split_ifs <;> omega

/-- The counts in a command of `n` bytes. -/
structure Tally (n : ℕ) (cdb : ℕ → Byte) (a : Acks) (r : Rig) : Prop where
  shake : Shake r
  cmdIn : r.sys.tgt.phase = .cmdIn → Commanded r ∧ Hears cdb r ∧
    a = ⟨r.sys.tgt.cmdCnt + r.underWay, 0, 0, 0⟩ ∧ r.sys.tgt.cmdCnt + r.underWay ≤ n
  taken : r.sys.tgt.phase ≠ .cmdIn →
    r.sys.tgt.tlen = r.sys.tgt.cmdTlen ∧ ∀ j < 10, j < n → r.sys.tgt.cmd j = cdb j
  data : r.sys.tgt.phase = .dataOut ∨ r.sys.tgt.phase = .dataIn →
    a = ⟨n, r.sys.tgt.dataCnt + r.underWay, 0, 0⟩ ∧ r.sys.tgt.cmdPhase ≠ .statusOut ∧
    r.sys.tgt.dataCnt + r.underWay ≤ r.sys.tgt.dataLen ∧ r.sys.tgt.dataComplete =
      decide (0 < r.sys.tgt.dataLen ∧ r.sys.tgt.dataCnt = r.sys.tgt.dataLen)
  statusOut : r.sys.tgt.phase = .statusOut →
    a = ⟨n, r.sys.tgt.dataBytes, r.underWay + r.sys.tgt.statusSent.toNat, 0⟩ ∧
    (r.sys.tgt.statusSent = true → r.settle = 2)
  messageOut : r.sys.tgt.phase = .messageOut →
    a = ⟨n, r.sys.tgt.dataBytes, 1, r.underWay + r.sys.tgt.messageSent.toNat⟩ ∧
    (r.sys.tgt.messageSent = true → r.settle = 2)
  idle : r.sys.tgt.phase = .idle → a = ⟨n, r.sys.tgt.dataBytes, 1, 1⟩

namespace Tally

variable {n : ℕ} {a : Acks}

theorem rise_of_settle (hp : Polite r k) (hs : r.settle ≠ 0) : r.rise k = false :=
  Bool.eq_false_iff.mpr fun h => hs (hp.ack h).1

theorem cmdCnt_of_cpl (hn : groupLen ((cdb 0).toNat / 32) = some n) (hh : Hears cdb r)
    (hc : 0 < r.sys.tgt.cmdCnt) : r.sys.tgt.cmdCpl = true ↔ r.sys.tgt.cmdCnt = n := by
  refine cmdCpl_of_groupLen ?_
  rw [State.cmdGroup, State.opCode, hh 0 (by omega) (.inl hc)]
  exact hn

theorem step_cmdIn (h : Tally n cdb a r) (hn : groupLen ((cdb 0).toNat / 32) = some n)
    (hp : Polite r k) (hs : Sends cdb r k) (hq : r.sys.tgt.phase = .cmdIn) :
    Tally n cdb (a.add .cmdIn (r.rise k)) (r.step P E k) := by
  obtain ⟨hcom, hh, ha, hle⟩ := h.cmdIn hq
  have hway := Rig.underWay_step (P := P) (E := E) (r := r) (k := k)
  by_cases hc : (r.step P E k).sys.tgt.phase = .cmdIn
  · -- another byte, or none
    have hcnt : (r.step P E k).sys.tgt.cmdCnt = r.sys.tgt.cmdCnt + r.sys.tgt.stbAdv.toNat := by
      have h12 := (groupLen_le hn).2
      cases hadv : r.sys.tgt.stbAdv
      · exact cmdCnt_next_of_not_stbAdv hq hadv
      · have : r.sys.tgt.cmdCnt ≠ 15 := by
          rw [Rig.underWay, hadv, Bool.toNat_true] at hle
          omega
        simp [Rig.step, Sys.step, Scsi.step, cmdCntNext, hq, hadv, this]
    have hnext : (r.step P E k).sys.tgt.cmdCnt + (r.step P E k).underWay =
        r.sys.tgt.cmdCnt + r.underWay + (r.rise k).toNat := by omega
    have hle' : (r.step P E k).sys.tgt.cmdCnt + (r.step P E k).underWay ≤ n := by
      rw [hnext]
      cases hrise : r.rise k
      · exact hle
      · have h0 := (hp.ack hrise).1
        rw [h.shake.underWay_eq_zero (by omega), Bool.toNat_true]
        have hlt : r.sys.tgt.cmdCnt ≠ n := fun he => by
          have h6 := (groupLen_le hn).1
          have := hcom.cpl ((cmdCnt_of_cpl hn hh (by omega)).mpr he)
          omega
        rw [h.shake.underWay_eq_zero (by omega)] at hle
        omega
    refine ⟨h.shake.step, fun _ => ⟨hcom.step hp hc, hh.step h.shake hs hq, ?_, hle'⟩,
      fun hx => absurd hc hx, ?_, ?_, ?_, ?_⟩
    · rw [ha, hnext]
      rfl
    all_goals simp [hc]
  · -- the command is complete
    obtain ⟨hcmd, hph, -, htlen, hadv, hack⟩ := hcom.accept hp hc
    have hcpl := hcom.cpl_of_leave hp hc
    have hset := hcom.cpl hcpl
    have hpos : 0 < r.sys.tgt.cmdCnt := by
      rw [cmdCpl_iff] at hcpl
      omega
    have htl : (r.step P E k).sys.tgt.tlen = (r.step P E k).sys.tgt.cmdTlen ∧
        ∀ j < 10, j < n → (r.step P E k).sys.tgt.cmd j = cdb j := by
      refine ⟨htlen, fun j hj hjn => ?_⟩
      rw [hcmd]
      exact hh j hj (.inl (by rw [(cmdCnt_of_cpl hn hh hpos).mp hcpl]; exact hjn))
    have hway0 : (r.step P E k).underWay = 0 := by rw [Rig.underWay, hadv, hack]; rfl
    have hfresh : Fresh (r.step P E k).sys.tgt := hcom.fresh.step (by rw [hq]; rfl)
    have ha' : a.add .cmdIn (r.rise k) = ⟨n, 0, 0, 0⟩ := by
      rw [ha, rise_of_settle hp (by omega), h.shake.underWay_eq_zero (by omega),
        (cmdCnt_of_cpl hn hh hpos).mp hcpl]
      rfl
    rw [ha']
    refine ⟨h.shake.step, fun hx => absurd hx hc, fun _ => htl, fun hx => ?_, fun hx => ?_,
      fun hx => ?_, fun hx => ?_⟩
    · have hne : (r.step P E k).sys.tgt.cmdPhase ≠ .statusOut := by
        rw [← hph]
        rcases hx with hx | hx <;> rw [hx] <;> decide
      rw [hfresh.dataCnt, hfresh.dataComplete, hway0]
      refine ⟨rfl, hne, by omega, ?_⟩
      simp
      omega
    · rw [State.dataBytes, if_pos (hph.symm.trans hx), hway0, hfresh.sent.1]
      exact ⟨rfl, fun hx => by cases hx⟩
    · rcases (r.step P E k).sys.tgt.cmdPhase_cases with hcp | hcp | hcp <;>
        rw [hph, hcp] at hx <;> cases hx
    · rcases (r.step P E k).sys.tgt.cmdPhase_cases with hcp | hcp | hcp <;>
        rw [hph, hcp] at hx <;> cases hx

/-- Leaving a phase in which no pulse is under way and none rises. -/
theorem underWay_next (hw : r.underWay = 0) (hr : r.rise k = false) :
    (r.step P E k).underWay = 0 := by
  have hway := Rig.underWay_step (P := P) (E := E) (r := r) (k := k)
  rw [hw, hr] at hway
  simp at hway
  exact hway.1

theorem dataDone_eq (h : Tally n cdb a r)
    (hq : r.sys.tgt.phase = .dataOut ∨ r.sys.tgt.phase = .dataIn) :
    r.sys.tgt.dataDone = decide (r.sys.tgt.dataCnt = r.sys.tgt.dataLen) := by
  obtain ⟨-, -, hle, hd⟩ := h.data hq
  rw [State.dataDone, hd]
  by_cases h0 : r.sys.tgt.dataLen = 0
  · simp [h0]
    omega
  · simp [h0, Nat.pos_of_ne_zero h0]

theorem taken_next (h : Tally n cdb a r) (hne : r.sys.tgt.phase ≠ .cmdIn) :
    (r.step P E k).sys.tgt.tlen = (r.step P E k).sys.tgt.cmdTlen ∧
      ∀ j < 10, j < n → (r.step P E k).sys.tgt.cmd j = cdb j := by
  have hcmd : (r.step P E k).sys.tgt.cmd = r.sys.tgt.cmd := cmd_next hne
  rw [cmdTlen_congr hcmd, ← (h.taken hne).1, hcmd]
  exact ⟨tlen_next hne, (h.taken hne).2⟩

theorem step_data (h : Tally n cdb a r) (hp : Polite r k)
    (hq : r.sys.tgt.phase = .dataOut ∨ r.sys.tgt.phase = .dataIn) :
    Tally n cdb (a.add r.sys.tgt.phase (r.rise k)) (r.step P E k) := by
  obtain ⟨ha, hcp, hle, hd⟩ := h.data hq
  have hway := Rig.underWay_step (P := P) (E := E) (r := r) (k := k)
  have hne : r.sys.tgt.phase ≠ .cmdIn := by rcases hq with hq | hq <;> rw [hq] <;> decide
  have hcmd : (r.step P E k).sys.tgt.cmd = r.sys.tgt.cmd := cmd_next hne
  have htl := h.taken_next (P := P) (E := E) (k := k) hne
  have hlen : (r.step P E k).sys.tgt.dataLen = r.sys.tgt.dataLen := dataLen_next hne
  have hadd : a.add r.sys.tgt.phase (r.rise k) = { a with data := a.data + (r.rise k).toNat } := by
    rcases hq with hq | hq <;> rw [hq] <;> rfl
  have hdone := h.dataDone_eq hq
  have hph : (r.step P E k).sys.tgt.phase = _ := phase_data hp.rst hq
  by_cases hfull : r.sys.tgt.dataCnt = r.sys.tgt.dataLen
  · -- the last byte is in
    rw [hdone, hfull, decide_eq_true rfl, if_pos rfl] at hph
    have hrise : r.rise k = false := Bool.eq_false_iff.mpr fun hx => by
      have hreq := (hp.ack hx).2
      rw [req, State.dataPhaseComplete, hdone, hfull] at hreq
      rcases hq with hq | hq <;> simp [hq] at hreq
    have hw0 : r.underWay = 0 := by omega
    refine ⟨h.shake.step, by simp [hph], fun _ => htl, by simp [hph], fun _ => ?_, by simp [hph],
      by simp [hph]⟩
    have hsent : (r.step P E k).sys.tgt.statusSent = false := by
      rcases hq with hq | hq <;> simp [Rig.step, Sys.step, Scsi.step, statusSentNext, hq]
    rw [hadd, ha, hrise, hw0, underWay_next hw0 hrise, hsent, State.dataBytes,
      cmdPhase_congr hcmd, if_neg hcp, hlen, hfull]
    exact ⟨rfl, fun hx => by cases hx⟩
  · rw [hdone, decide_eq_false hfull, if_neg (by decide)] at hph
    have hlt := State.dataLen_lt (h.taken hne).1
    have htr : r.sys.tgt.phase.transfers = true := by rcases hq with hq | hq <;> rw [hq] <;> rfl
    have hcnt : (r.step P E k).sys.tgt.dataCnt = r.sys.tgt.dataCnt + r.sys.tgt.stbAdv.toNat := by
      simp only [Rig.step, Sys.step, Scsi.step, dataCntNext, htr, hd, hfull]
      cases hs : r.sys.tgt.stbAdv
      · simp
      · simp
        omega
    have hnext : (r.step P E k).sys.tgt.dataCnt + (r.step P E k).underWay =
        r.sys.tgt.dataCnt + r.underWay + (r.rise k).toNat := by omega
    refine ⟨h.shake.step, fun hx => absurd (hph ▸ hx) hne, fun _ => htl, fun _ => ?_, ?_, ?_, ?_⟩
    · rw [hadd, ha, cmdPhase_congr hcmd, hlen, hnext]
      refine ⟨rfl, hcp, ?_, ?_⟩
      · cases hrise : r.rise k
        · exact hle
        · rw [h.shake.underWay_eq_zero (by have := (hp.ack hrise).1; omega)] at hle ⊢
          rw [Bool.toNat_true]
          omega
      · rw [hcnt]
        simp only [Rig.step, Sys.step, Scsi.step, dataCompleteNext, htr, hd, hfull]
        cases hs : r.sys.tgt.stbAdv
        · simp [hfull]
        · have hmod : (r.sys.tgt.dataLen + 2 ^ 32 - 1) % 2 ^ 32 = r.sys.tgt.dataLen - 1 := by omega
          simp only [hmod, Bool.not_true, Bool.false_eq_true, if_true, if_false,
            decide_eq_decide, Bool.toNat_true]
          omega
    all_goals
      intro hx
      rw [hph] at hx
      rcases hq with hq | hq <;> rw [hq] at hx <;> cases hx

theorem step_statusOut (h : Tally n cdb a r) (hp : Polite r k)
    (hq : r.sys.tgt.phase = .statusOut) :
    Tally n cdb (a.add .statusOut (r.rise k)) (r.step P E k) := by
  obtain ⟨ha, hsent⟩ := h.statusOut hq
  have hway := Rig.underWay_step (P := P) (E := E) (r := r) (k := k)
  have hne : r.sys.tgt.phase ≠ .cmdIn := by rw [hq]; decide
  have hcmd : (r.step P E k).sys.tgt.cmd = r.sys.tgt.cmd := cmd_next hne
  have htl := h.taken_next (P := P) (E := E) (k := k) hne
  have hbytes : (r.step P E k).sys.tgt.dataBytes = r.sys.tgt.dataBytes := by
    rw [State.dataBytes, cmdPhase_congr hcmd, show (r.step P E k).sys.tgt.dataLen = _ from
      dataLen_next hne]
    rfl
  have hph : (r.step P E k).sys.tgt.phase = _ := phase_status hp.rst hq
  have hnext : (r.step P E k).sys.tgt.statusSent =
      (r.sys.tgt.stbAdv || r.sys.tgt.statusSent) := by
    simp [Rig.step, Sys.step, Scsi.step, statusSentNext, hq]
  cases hs : r.sys.tgt.statusSent
  · rw [hs, if_neg (by decide)] at hph
    refine ⟨h.shake.step, by simp [hph], fun _ => htl, by simp [hph], fun _ => ?_, by simp [hph],
      by simp [hph]⟩
    rw [hnext, hs, Bool.or_false, ha, hbytes, hs]
    refine ⟨?_, fun hadv => ?_⟩
    · simp only [Acks.add, Acks.mk.injEq, Bool.toNat_false, true_and, and_true]
      omega
    · have := h.shake.ack_of_adv hp hadv
      simp [Rig.step, this, (h.shake.adv hadv).1]
  · -- the status has been taken
    have hset := hsent hs
    have hrise := rise_of_settle hp (by omega)
    have hw0 := h.shake.underWay_eq_zero (by omega)
    rw [hs, if_pos rfl] at hph
    refine ⟨h.shake.step, by simp [hph], fun _ => htl, by simp [hph], by simp [hph], fun _ => ?_,
      by simp [hph]⟩
    have hm : (r.step P E k).sys.tgt.messageSent = false := by
      simp [Rig.step, Sys.step, Scsi.step, messageSentNext, hq]
    rw [ha, hrise, hw0, underWay_next hw0 hrise, hs, hm, hbytes]
    exact ⟨rfl, fun hx => by cases hx⟩

theorem step_messageOut (h : Tally n cdb a r) (hp : Polite r k)
    (hq : r.sys.tgt.phase = .messageOut) :
    Tally n cdb (a.add .messageOut (r.rise k)) (r.step P E k) := by
  obtain ⟨ha, hsent⟩ := h.messageOut hq
  have hway := Rig.underWay_step (P := P) (E := E) (r := r) (k := k)
  have hne : r.sys.tgt.phase ≠ .cmdIn := by rw [hq]; decide
  have hcmd : (r.step P E k).sys.tgt.cmd = r.sys.tgt.cmd := cmd_next hne
  have htl := h.taken_next (P := P) (E := E) (k := k) hne
  have hbytes : (r.step P E k).sys.tgt.dataBytes = r.sys.tgt.dataBytes := by
    rw [State.dataBytes, cmdPhase_congr hcmd, show (r.step P E k).sys.tgt.dataLen = _ from
      dataLen_next hne]
    rfl
  have hph : (r.step P E k).sys.tgt.phase = _ := phase_message hp.rst hq
  have hnext : (r.step P E k).sys.tgt.messageSent =
      (r.sys.tgt.stbAdv || r.sys.tgt.messageSent) := by
    simp [Rig.step, Sys.step, Scsi.step, messageSentNext, hq]
  cases hs : r.sys.tgt.messageSent
  · rw [hs, if_neg (by decide)] at hph
    refine ⟨h.shake.step, by simp [hph], fun _ => htl, by simp [hph], by simp [hph], fun _ => ?_,
      by simp [hph]⟩
    rw [hnext, hs, Bool.or_false, ha, hbytes, hs]
    refine ⟨?_, fun hadv => ?_⟩
    · simp only [Acks.add, Acks.mk.injEq, Bool.toNat_false, true_and]
      omega
    · have := h.shake.ack_of_adv hp hadv
      simp [Rig.step, this, (h.shake.adv hadv).1]
  · -- the message has been taken
    have hset := hsent hs
    have hrise := rise_of_settle hp (by omega)
    have hw0 := h.shake.underWay_eq_zero (by omega)
    rw [hs, if_pos rfl] at hph
    refine ⟨h.shake.step, by simp [hph], fun _ => htl, by simp [hph], by simp [hph], by simp [hph],
      fun _ => ?_⟩
    rw [ha, hrise, hw0, hs, hbytes]
    rfl

/-- The counts follow the target until the command is over. -/
theorem step (h : Tally n cdb a r) (hn : groupLen ((cdb 0).toNat / 32) = some n)
    (hp : Polite r k) (hs : Sends cdb r k) (hb : r.sys.tgt.phase ≠ .idle) :
    Tally n cdb (a.add r.sys.tgt.phase (r.rise k)) (r.step P E k) := by
  cases hq : r.sys.tgt.phase with
  | idle => exact absurd hq hb
  | cmdIn => exact h.step_cmdIn hn hp hs hq
  | dataOut => rw [← hq]; exact h.step_data hp (.inl hq)
  | dataIn => rw [← hq]; exact h.step_data hp (.inr hq)
  | statusOut => exact h.step_statusOut hp hq
  | messageOut => exact h.step_messageOut hp hq

end Tally

end Scsi
