import LBMacTwo.Foundation.Progress
import LBMacTwo.Scsi.Delivery
import LBMacTwo.Scsi.Durability
import LBMacTwo.Scsi.Handshake

/-!
# Commands complete

Between a polite initiator that answers every request and an HPS that serves every one, a command
of a group that has a length is over after its bytes, its data, one status and one message byte. The
argument is one of rest: the pulses of a command are bounded, so from some clock on there are none,
and with the initiator at rest the ranks of the two engines run down until the target requests a
byte or leaves the command.
-/

namespace Scsi

open Clocked (loopStream run_loopStream)

variable {P : Params} {E : Env} {L n c i : ℕ} {lag odd : Bool} {x : Sys} {b : Bus} {m : HpsMove}
  {r : Rig} {k : Tick} {cdb : ℕ → Byte} {u : ℕ → Tick}

/-! ### Ranks -/

/-- How far the fetch engine is from counting its next sector. -/
def Sys.fetchRank (x : Sys) : ℕ :=
  match x.hps with
  | .idle => if x.tgt.oldIoAck then 1 else if x.tgt.ioRd then 260 else 261
  | .posted _ _ => 259
  | .window _ _ w => 258 - w

/-- The HPS has nothing to do. -/
def Sys.hpsIdle (x : Sys) : Bool := x.hps == .idle && !x.tgt.ioRd && !x.tgt.ioWr

theorem RdInv.issue (h : RdInv P E L n x) (hr : b.rst = false) (ho : x.tgt.oldIoAck = false)
    (hh : x.hps = .idle) (hi : x.tgt.ioRd = false) (hd : x.tgt.dataDone = false)
    (hb : x.tgt.rdHpsBlk ≤ x.tgt.dataCnt / 512) : (x.step P E b m).tgt.ioRd = true := by
  have hbusy : x.tgt.rdBusy = false := by simp [h.tie, hh, hi, ho]
  have hack : x.ioAck = false := by rw [h.ioAck_eq, hh]; rfl
  rw [h.dataDone_eq, decide_eq_false_iff_not] at hd
  have hle := h.cnt_le_len
  have hpos := h.pos
  have hring : 0 < P.ringBlocks := Nat.two_pow_pos _
  have hreq : reqRd P x.tgt = true := by
    simp only [reqRd, h.dataOut, h.read, h.len, h.done, h.tlen, h.rdRingSpace_eq]
    simp [hd]
    omega
  simp [Sys.step, Scsi.step, ioRdNext, issueRd, Sys.input, hr, hack, hreq, hi, hbusy]

/-- With the initiator at rest on a sector that is not there, the fetch engine does not step back,
and steps on with the HPS. -/
theorem RdInv.fetchRank_step (h : RdInv P E L n x) (hr : b.rst = false)
    (hE : E.shortAcks = false) (hd : x.tgt.dataDone = false)
    (hb : x.tgt.rdHpsBlk ≤ x.tgt.dataCnt / 512) :
    x.fall = true ∨ ((x.step P E b m).fetchRank ≤ x.fetchRank ∧
      (x.hpsIdle = true ∨ (x.step P E b m).hps ≠ x.hps →
        (x.step P E b m).fetchRank < x.fetchRank)) := by
  have he := h.engine
  have hio := h.ioAck_eq
  have hold := Sys.oldIoAck_step (P := P) (E := E) (x := x) (b := b) (m := m)
  generalize hh : x.hps = hps at he
  rw [hh] at hio
  cases he with
  | rest h1 =>
    right
    have hx : x.ioAck = false := hio
    cases hi : x.tgt.ioRd
    · have hnext := h.issue (m := m) hr h1 hh hi hd hb
      have hidle : (x.step P E b m).hps = .idle := by
        simp [Sys.step, hh, Hps.step, hi, h.noWr.1]
      simp [Sys.fetchRank, hidle, hh, hold, hx, h1, hi, hnext]
    · cases hg : m.go
      · have hidle : (x.step P E b m).hps = .idle := by simp [Sys.step, hh, Hps.step, hg]
        simp [Sys.fetchRank, hidle, hh, hold, hx, h1, hi, Sys.hpsIdle,
          Sys.ioRd_next_of_ioRd hr hx hi]
      · have hposted : (x.step P E b m).hps = .posted .rd x.tgt.lba := by
          simp [Sys.step, hh, Hps.step, hg, hi]
        simp [Sys.fetchRank, hposted, hh, h1, hi]
  | closing h1 =>
    left
    simp [Sys.fall, h1, hio]
  | posted h1 h2 =>
    right
    cases hg : m.go
    · have hsame : (x.step P E b m).hps = .posted .rd x.tgt.lba := by
        simp [Sys.step, hh, Hps.step, hg]
      simp [Sys.fetchRank, hsame, hh, Sys.hpsIdle]
    · have hwin : (x.step P E b m).hps = .window .rd x.tgt.lba 0 := by
        simp [Sys.step, hh, Hps.step, hg]
      simp [Sys.fetchRank, hwin, hh]
  | window w h1 h2 =>
    right
    have hx : x.ioAck = true := hio
    have hle : w ≤ x.hps.wordsAfter m := by
      rw [hh]
      exact Nat.le_add_right _ _
    have h256 : x.hps.wordsAfter m ≤ 256 := by rw [hh]; exact Hps.wordsAfter_le h2 m
    cases hg : m.go && x.hps.wordsAfter m == 256
    · have hsame : (x.step P E b m).hps = .window .rd x.tgt.lba (x.hps.wordsAfter m) := by
        rw [hh] at hg
        simp [Sys.step, hh, Hps.step, hE, hg]
      simp only [Sys.fetchRank, hsame, hh, Sys.hpsIdle]
      rw [hh] at hle h256
      refine ⟨by omega, fun hne => ?_⟩
      have : (Hps.window .rd x.tgt.lba w).wordsAfter m ≠ w := fun heq => by
        rw [heq] at hne
        simp at hne
      omega
    · have hidle : (x.step P E b m).hps = .idle := by
        rw [hh] at hg
        simp [Sys.step, hh, Hps.step, hE, hg]
      simp only [Sys.fetchRank, hidle, hh, hold, hx]
      simp
      omega

/-- How far the flush engine is from having nothing to flush. -/
def Sys.flushRank (x : Sys) : ℕ :=
  6 * x.tgt.wrEdge.toNat + 5 * x.tgt.wrPending.toNat +
    match x.hps with
    | .idle => if x.tgt.oldIoAck then 1 else if x.tgt.ioWr then 4 else 0
    | .posted _ _ => 3
    | .window _ _ _ => 2

/-- Everything received has been flushed. -/
def Sys.drained (x : Sys) : Bool := !x.inFlight && !x.tgt.wrPending && !x.tgt.wrEdge

theorem WrInv.edge_of_not_adv (h : WrInv L n c lag odd x) (hr : b.rst = false)
    (hs : x.tgt.stbAdv = false) (hp' : (x.step P E b m).tgt.phase.receives = true) :
    (x.step P E b m).tgt.wrEdge = false := by
  by_cases hd : (x.step P E b m).tgt.phase = .dataIn
  · have hp : x.tgt.phase = .dataIn :=
      (phase_of_dataIn_next hd).resolve_left (Phase.receives_spec h.phase).2.1
    rw [h.edge_dataIn hr hp hd, hs]
    simp
  · exact h.edge_of_ne hr hp' hd

theorem WrInv.drained_next (h : WrInv L n c lag odd x) (hr : b.rst = false)
    (hs : x.tgt.stbAdv = false) (hp' : (x.step P E b m).tgt.phase.receives = true)
    (hdr : x.drained = true) : (x.step P E b m).drained = true := by
  have hpend := h.wrPending_next (P := P) (E := E) (m := m) hr
  have hfl := h.toFlush.inFlight_next (P := P) (E := E) (m := m) hr
  simp only [Sys.drained, Bool.and_eq_true, Bool.not_eq_true'] at hdr
  rw [hdr.1.2, hdr.2] at hpend
  rw [hdr.1.1] at hfl
  simp only [Bool.toNat_false, Nat.add_zero, Nat.add_eq_zero_iff, Bool.toNat_eq_zero] at hpend
  rw [hpend.2] at hfl
  simp only [Bool.toNat_false, Nat.add_zero, Nat.add_eq_zero_iff, Bool.toNat_eq_zero] at hfl
  simp [Sys.drained, hfl.2, hpend.1, h.edge_of_not_adv hr hs hp']

/-- With no byte coming in, the flush engine does not step back, and steps on with the HPS. -/
theorem WrInv.flushRank_step (h : WrInv L n c lag odd x) (hr : b.rst = false)
    (hs : x.tgt.stbAdv = false) (hp' : (x.step P E b m).tgt.phase.receives = true) :
    x.drained = true ∨ ((x.step P E b m).flushRank ≤ x.flushRank ∧
      (x.hpsIdle = true ∨ (x.step P E b m).hps ≠ x.hps →
        (x.step P E b m).flushRank < x.flushRank)) := by
  have hpend := h.wrPending_next (P := P) (E := E) (m := m) hr
  have hedge := h.edge_of_not_adv (P := P) (E := E) (m := m) hr hs hp'
  have he := h.engine
  have hio := h.toFlush.ioAck_eq
  have hnr := h.noRd.1
  have hold := Sys.oldIoAck_step (P := P) (E := E) (x := x) (b := b) (m := m)
  have hissue : (issueWr x.tgt (x.input E b m)).toNat =
      (!x.ioAck && x.tgt.wrPending && !x.tgt.ioWr).toNat := rfl
  generalize hh : x.hps = hps at he
  rw [hh] at hio
  rw [hissue] at hpend
  cases he with
  | rest h1 =>
    have hx : x.ioAck = false := hio
    have hw := Flush.ioWr_next_of_not_ack (P := P) (E := E) (m := m) hr hx
    cases hi : x.tgt.ioWr
    · have hidle : (x.step P E b m).hps = .idle := by
        simp [Sys.step, hh, Hps.step, hi, hnr]
      rw [hi, hx] at hpend
      cases hp : x.tgt.wrPending <;> cases hedg : x.tgt.wrEdge <;> rw [hp, hedg] at hpend
      · left
        simp [Sys.drained, Sys.inFlight, hi, hh, h1, hp, hedg]
      all_goals
        right
        simp only [Sys.flushRank, hidle, hedge, hold, hx, hw, hi, hp, hh, h1, hedg]
        simp only [Bool.not_false, Bool.true_and, Bool.and_true, Bool.toNat_true,
          Bool.toNat_false] at hpend ⊢
        simp
        omega
    · right
      rw [hi, hx] at hpend
      cases hg : m.go
      · have hidle : (x.step P E b m).hps = .idle := by simp [Sys.step, hh, Hps.step, hg]
        simp only [Sys.flushRank, hidle, hedge, hold, hx, hw, hi, hh, h1, Sys.hpsIdle]
        simp at hpend ⊢
        omega
      · have hposted : (x.step P E b m).hps = .posted .wr x.tgt.lba := by
          simp [Sys.step, hh, Hps.step, hg, hi, hnr]
        simp only [Sys.flushRank, hposted, hedge, hi, hh, h1]
        simp at hpend ⊢
        omega
  | closing h1 h2 =>
    right
    have hx : x.ioAck = false := hio
    have hw := Flush.ioWr_next_of_not_ack (P := P) (E := E) (m := m) hr hx
    have hidle : (x.step P E b m).hps = .idle := by simp [Sys.step, hh, Hps.step, h2, hnr]
    rw [h2, hx] at hpend
    simp only [Sys.flushRank, hidle, hedge, hold, hx, hw, h2, hh, h1]
    cases hp : x.tgt.wrPending <;> rw [hp] at hpend <;> simp at hpend ⊢ <;> omega
  | posted h1 h2 =>
    right
    rw [h2] at hpend
    cases hg : m.go
    · have hsame : (x.step P E b m).hps = .posted .wr x.tgt.lba := by
        simp [Sys.step, hh, Hps.step, hg]
      simp only [Sys.flushRank, hsame, hedge, hh, Sys.hpsIdle]
      simp at hpend ⊢
      omega
    · have hwin : (x.step P E b m).hps = .window .wr x.tgt.lba 0 := by
        simp [Sys.step, hh, Hps.step, hg]
      simp only [Sys.flushRank, hwin, hedge, hh]
      simp at hpend ⊢
      omega
  | window w h1 =>
    right
    have hx : x.ioAck = true := hio
    rw [hx] at hpend
    cases hg : m.go
    · have hsame : (x.step P E b m).hps = .window .wr x.tgt.lba w := by
        simp [Sys.step, hh, Hps.step, hg]
      simp only [Sys.flushRank, hsame, hedge, hh, Sys.hpsIdle]
      simp at hpend ⊢
      omega
    · have hidle : (x.step P E b m).hps = .idle := by simp [Sys.step, hh, Hps.step, hg]
      simp only [Sys.flushRank, hidle, hedge, hold, hx, hh]
      simp at hpend ⊢
      omega

/-! ### Commands that do not use the HPS -/

/-- Nothing is asked of the HPS and nothing under way. -/
structure Calm (x : Sys) : Prop where
  noRd : x.tgt.ioRd = false
  noWr : x.tgt.ioWr = false ∧ x.tgt.wrPending = false
  hps : x.hps = .idle
  oldIoAck : x.tgt.oldIoAck = false

/-- The phases in which a READ or a WRITE may have the HPS at work. -/
def State.transferring (s : State) : Prop :=
  (s.phase = .dataOut ∧ s.cmdRead = true ∧ s.tlen ≠ 0) ∨
    (s.phase.receives = true ∧ s.cmdWrite = true)

theorem Calm.step (h : Calm x) (hrd : reqRd P x.tgt = false) (hwr : reqWr x.tgt = false) :
    Calm (x.step P E b m) := by
  have hack : x.ioAck = false := by simp [Sys.ioAck, h.hps]
  refine ⟨?_, ?_, ?_, hack⟩
  · simp [Sys.step, Scsi.step, ioRdNext, issueRd, hrd, h.noRd]
  · simp [Sys.step, Scsi.step, ioWrNext, wrPendingNext, issueWr, hwr, h.noWr]
  · simp [Sys.step, h.hps, Hps.step, h.noRd, h.noWr]

theorem State.reqs_of_not_transferring {s : State} (h : ¬ s.transferring) :
    reqRd P s = false ∧ reqWr s = false := by
  simp only [State.transferring, not_or, not_and, not_not] at h
  constructor
  · refine Bool.eq_false_iff.mpr fun hq => ?_
    simp only [reqRd, Bool.and_eq_true, beq_iff_eq, bne_iff_ne] at hq
    have h0 := h.1 hq.1.1.1.1.1 hq.1.1.1.1.2
    exact hq.1.1.1.2 (by rw [s.dataLen_of_read hq.1.1.1.1.2, h0])
  · refine Bool.eq_false_iff.mpr fun hq => ?_
    simp only [reqWr, Bool.and_eq_true, Bool.or_eq_true, beq_iff_eq] at hq
    refine h.2 ?_ hq.1.2
    rcases hq.1.1 with h1 | h1
    · rw [h1.1.1]
      rfl
    · rw [h1]
      rfl

/-- A READ leaves its data phase with everything fetched. -/
theorem RdInv.calm (h : RdInv P E L n x) (hd : x.tgt.dataDone = true) :
    Calm x ∧ reqRd P x.tgt = false ∧ reqWr x.tgt = false := by
  rw [h.dataDone_eq, decide_eq_true_eq] at hd
  have hle := h.le_total
  have hcl := h.cnt_le
  have hbusy : x.tgt.rdBusy = false := Bool.eq_false_iff.mpr fun hb => by
    have := (h.busy hb).1
    omega
  have htie := h.tie
  rw [hbusy] at htie
  simp only [Bool.false_eq, Bool.or_eq_false_iff] at htie
  refine ⟨⟨htie.1.1, h.noWr, ?_, htie.2⟩, ?_, ?_⟩
  · have he := h.engine
    have hack := htie.1.2
    generalize x.hps = hps at he hack
    cases he with
    | rest | closing => rfl
    | posted _ hi => rw [htie.1.1] at hi; cases hi
    | window => cases hack
  · simp [reqRd, h.done, hd]
  · simp [reqWr, h.write]

/-- Outside their transfers the HPS is at rest. -/
def CalmState (r : Rig) : Prop := ¬ r.sys.tgt.transferring → Calm r.sys

theorem CalmState.step (h : CalmState r) (hp : Polite r k) (hb : r.sys.tgt.phase ≠ .idle)
    (hb' : (r.step P E k).sys.tgt.phase ≠ .idle)
    (hserve : r.sys.tgt.phase = .dataOut → r.sys.tgt.cmdRead = true → r.sys.tgt.tlen ≠ 0 →
      ∃ L n, RdInv P E L n r.sys) : CalmState (r.step P E k) := by
  intro hnt
  by_cases ht : r.sys.tgt.transferring
  · have hne : r.sys.tgt.phase ≠ .cmdIn := fun hq => by
      rcases ht with ht | ht <;> simp [hq, Phase.receives] at ht
    have hcmd : (r.step P E k).sys.tgt.cmd = r.sys.tgt.cmd := cmd_next hne
    have htlen : (r.step P E k).sys.tgt.tlen = r.sys.tgt.tlen := tlen_next hne
    rcases ht with ⟨hq, hread, hn⟩ | ⟨hq, hw⟩
    · obtain ⟨L, n, hinv⟩ := hserve hq hread hn
      have hph : (r.step P E k).sys.tgt.phase = _ := phase_data hp.rst (.inl hq)
      have hdone : r.sys.tgt.dataDone = true := by
        by_contra hd
        rw [if_neg hd, hq] at hph
        refine hnt (.inl ⟨hph, ?_, ?_⟩)
        · rw [cmdRead_congr hcmd, hread]
        · rw [htlen]
          exact hn
      obtain ⟨hcalm, h1, h2⟩ := hinv.calm hdone
      exact hcalm.step h1 h2
    · -- a WRITE ends with its message
      exfalso
      refine hnt (.inr ⟨?_, by rw [cmdWrite_congr hcmd, hw]⟩)
      cases hph : (r.step P E k).sys.tgt.phase with
      | idle => exact absurd hph hb'
      | cmdIn => exact absurd (phase_of_cmdIn_next hb hph) hne
      | dataOut =>
        have := phase_of_dataOut_next hph
        rcases this with this | this
        · exact absurd this hne
        · rw [show r.sys.tgt.phase = .dataOut from this] at hq
          cases hq
      | _ => rfl
  · obtain ⟨h1, h2⟩ := State.reqs_of_not_transferring (P := P) ht
    exact (h ht).step h1 h2

/-! ### The whole command -/

/-- The pulses of the command before clock `t`. -/
def acksBy (P : Params) (E : Env) (r : Rig) (u : ℕ → Tick) : ℕ → Acks
  | 0 => ⟨0, 0, 0, 0⟩
  | t + 1 => (acksBy P E r u t).add (r.run P E u t).sys.tgt.phase ((r.run P E u t).rise (u t))

/-- A target that has just been selected, with nothing outstanding. -/
structure Selected (r : Rig) : Prop extends Commanded r where
  cmdCnt : r.sys.tgt.cmdCnt = 0
  underWay : r.underWay = 0

theorem Selected.tally (h : Selected r) (n : ℕ) (cdb : ℕ → Byte) :
    Tally n cdb ⟨0, 0, 0, 0⟩ r := by
  have hway := h.underWay
  simp only [Rig.underWay, Nat.add_eq_zero_iff, Bool.toNat_eq_zero] at hway
  refine ⟨h.shake, fun _ => ⟨h.toCommanded, fun j _ hx => ?_, ?_, ?_⟩, fun hx => absurd h.phase hx,
    ?_, ?_, ?_, ?_⟩
  · simp [h.cmdCnt, hway] at hx
  · rw [h.cmdCnt, h.underWay]
  · rw [h.cmdCnt, h.underWay]
    exact Nat.zero_le n
  all_goals simp [h.phase]

theorem CommandRun.tally (h0 : Selected r) (hn : groupLen ((cdb 0).toNat / 32) = some n) {t : ℕ}
    (h : ∀ k < t, Polite (r.run P E u k) (u k) ∧ (r.run P E u k).sys.tgt.phase ≠ .idle)
    (hs : ∀ k < t, Sends cdb (r.run P E u k) (u k)) :
    Tally n cdb (acksBy P E r u t) (r.run P E u t) := by
  induction t with
  | zero => exact h0.tally n cdb
  | succ t ih =>
    rw [acksBy, Rig.run_succ]
    exact (ih (fun k hk => h k (by omega)) fun k hk => hs k (by omega)).step hn
      (h t (by omega)).1 (hs t (by omega)) (h t (by omega)).2

/-- The initiator answers every request and lets go of every `ack`, and the HPS serves what it is
asked for. -/
structure Fair (P : Params) (E : Env) (r : Rig) (u : ℕ → Tick) : Prop where
  polite : ∀ t, Polite (r.run P E u t) (u t)
  answers : ∀ t, (r.run P E u t).settle = 0 → (r.run P E u t).sys.tgt.oldAck = false →
    req (r.run P E u t).sys.tgt false (r.run P E u t).sys.ioAck = true →
    ∃ t' ≥ t, (r.run P E u t').rise (u t') = true
  drops : ∀ t, ∃ t' ≥ t, (u t').bus.ack = false
  serves : ∀ t, (r.run P E u t).sys.hpsIdle = true ∨
    ∃ t' ≥ t, (r.run P E u (t' + 1)).sys.hps ≠ (r.run P E u t').sys.hps

/-- From clock `T` on the initiator is at rest, and nothing is requested of it. -/
structure AtRest (P : Params) (E : Env) (r : Rig) (u : ℕ → Tick) (T : ℕ) : Prop where
  settle : ∀ t ≥ T, (r.run P E u t).settle = 0
  req : ∀ t ≥ T, req (r.run P E u t).sys.tgt false (r.run P E u t).sys.ioAck = false

/-- A run that never ends, with what is known of its states. -/
structure Endless (P : Params) (E : Env) (r : Rig) (u : ℕ → Tick) (n : ℕ) (cdb : ℕ → Byte) :
    Prop where
  fair : Fair P E r u
  busy : ∀ t, (r.run P E u t).sys.tgt.phase ≠ .idle
  tally : ∀ t, Tally n cdb (acksBy P E r u t) (r.run P E u t)
  calm : ∀ t, CalmState (r.run P E u t)
  read : ∀ t, (r.run P E u t).sys.tgt.phase = .dataOut → (r.run P E u t).sys.tgt.cmdRead = true →
    (r.run P E u t).sys.tgt.tlen ≠ 0 → ∃ L n, RdInv P E L n (r.run P E u t).sys
  returns : ∀ t, (r.run P E u t).sys.tgt.phase = .dataOut →
    (r.run P E u t).sys.tgt.cmdWrite = false
  write : ∀ t, (r.run P E u t).sys.tgt.phase.receives = true →
    (r.run P E u t).sys.tgt.cmdWrite = true →
    ∃ L n c lag odd, WrInv L n c lag odd (r.run P E u t).sys

namespace Endless

variable {T t : ℕ}

theorem total_le (h : Endless P E r u n cdb) (hn : n ≤ 12) :
    (acksBy P E r u t).total ≤ 2 ^ 32 + 16 := by
  have ht := h.tally t
  have hway := ht.shake.underWay_le
  have hbytes : (r.run P E u t).sys.tgt.phase ≠ .cmdIn →
      (r.run P E u t).sys.tgt.dataBytes < 2 ^ 32 := fun hne => by
    have := State.dataLen_lt (ht.taken hne).1
    unfold State.dataBytes
    split_ifs <;> omega
  cases hp : (r.run P E u t).sys.tgt.phase with
  | idle => exact absurd hp (h.busy t)
  | cmdIn =>
    obtain ⟨-, -, ha, hle⟩ := ht.cmdIn hp
    rw [ha]
    simp only [Acks.total]
    omega
  | dataOut | dataIn =>
    obtain ⟨ha, -, hle, -⟩ := ht.data (by simp [hp])
    have := State.dataLen_lt (ht.taken (by simp [hp])).1
    rw [ha]
    simp only [Acks.total]
    omega
  | statusOut =>
    have hb := hbytes (by simp [hp])
    have := (r.run P E u t).sys.tgt.statusSent.toNat_le
    rw [(ht.statusOut hp).1]
    simp only [Acks.total]
    omega
  | messageOut =>
    have hb := hbytes (by simp [hp])
    have := (r.run P E u t).sys.tgt.messageSent.toNat_le
    rw [(ht.messageOut hp).1]
    simp only [Acks.total]
    omega

theorem total_succ (h : Endless P E r u n cdb) (t : ℕ) : (acksBy P E r u (t + 1)).total =
    (acksBy P E r u t).total + ((r.run P E u t).rise (u t)).toNat := by
  have hb := h.busy t
  rw [acksBy]
  cases hp : (r.run P E u t).sys.tgt.phase <;>
    simp only [Acks.add, Acks.total] <;> first | omega | exact absurd hp hb

/-- The pulses are bounded, so from some clock on there are none. -/
theorem exists_no_rise (h : Endless P E r u n cdb) (hn : n ≤ 12) :
    ∃ T, ∀ t ≥ T, (r.run P E u t).rise (u t) = false := by
  obtain ⟨T, hT⟩ := Progress.stable_of_bounded (f := fun t => (acksBy P E r u t).total)
    (fun t => by rw [h.total_succ]; exact Nat.le_add_right _ _) fun t => h.total_le hn
  refine ⟨T, fun t ht => ?_⟩
  have := hT t ht
  rw [h.total_succ] at this
  exact Bool.toNat_eq_zero.mp (by omega)

/-- Then `ack` comes to rest low, the settle time runs out, and nothing is requested. -/
theorem exists_atRest (h : Endless P E r u n cdb) (hn : n ≤ 12) : ∃ T, AtRest P E r u T := by
  obtain ⟨T, hT⟩ := h.exists_no_rise hn
  obtain ⟨t₁, ht₁, hdrop⟩ := h.fair.drops T
  have hlow : (r.run P E u (t₁ + 1)).sys.tgt.oldAck = false := hdrop
  have hold : ∀ t ≥ t₁ + 1, (r.run P E u t).sys.tgt.oldAck = false := fun t ht =>
    Progress.invariant_from (p := fun t => (r.run P E u t).sys.tgt.oldAck = false) hlow
      (fun t ht ho => by
        have hrise := hT t (by omega)
        rw [Rig.rise, ho] at hrise
        simpa [Rig.run_succ, Rig.oldAck_step] using hrise) ht
  have hack : ∀ t ≥ t₁ + 1, (u t).bus.ack = false := fun t ht => hold (t + 1) (by omega)
  have hset : ∀ j, (r.run P E u (t₁ + 1 + j)).settle = (r.run P E u (t₁ + 1)).settle - j := by
    intro j
    induction j with
    | zero => rfl
    | succ j ih =>
      have : (r.run P E u (t₁ + 1 + (j + 1))).settle = (r.run P E u (t₁ + 1 + j)).settle - 1 := by
        rw [show t₁ + 1 + (j + 1) = t₁ + 1 + j + 1 by omega, Rig.run_succ]
        simp [Rig.step, hack (t₁ + 1 + j) (by omega)]
      omega
  refine ⟨t₁ + 1 + (r.run P E u (t₁ + 1)).settle, ?_⟩
  have hset0 : ∀ t ≥ t₁ + 1 + (r.run P E u (t₁ + 1)).settle, (r.run P E u t).settle = 0 :=
    fun t ht => by
      have := hset (t - (t₁ + 1))
      rw [show t₁ + 1 + (t - (t₁ + 1)) = t by omega] at this
      omega
  refine ⟨hset0, fun t ht => Bool.eq_false_iff.mpr fun hreq => ?_⟩
  obtain ⟨t', ht', hrise⟩ := h.fair.answers t (hset0 t ht) (hold t (by omega)) hreq
  rw [hT t' (by omega)] at hrise
  cases hrise

/-- A calm target at rest would be requesting a byte, now or after its data phase. -/
theorem transferring_of_atRest (h : Endless P E r u n cdb) (hT : AtRest P E r u T) (ht : T ≤ t) :
    (r.run P E u t).sys.tgt.transferring := by
  have hreq : ∀ t ≥ T, ¬ (r.run P E u t).sys.tgt.transferring →
      (r.run P E u t).sys.tgt.phase = .dataOut ∨ (r.run P E u t).sys.tgt.phase = .dataIn := by
    intro t ht hnt
    have hcalm := h.calm t hnt
    have hbusy := h.busy t
    have hr := hT.req t ht
    by_contra hd
    have hack : (r.run P E u t).sys.ioAck = false := by simp [Sys.ioAck, hcalm.hps]
    rw [not_or] at hd
    simp [req, ioBusy, State.dataPhaseComplete, hd, hcalm.noRd, hcalm.noWr, hack, hbusy] at hr
  by_contra hnt
  have hcalm := h.calm t hnt
  have hr := hT.req t ht
  have hd := hreq t ht hnt
  have hack : (r.run P E u t).sys.ioAck = false := by simp [Sys.ioAck, hcalm.hps]
  have hph := phase_data (P := P) (i := (r.run P E u t).sys.input E (u t).bus (u t).hps)
    (h.fair.polite t).rst hd
  simp only [State.transferring, not_or, not_and, not_not] at hnt
  have hne : (r.run P E u t).sys.tgt.phase ≠ .cmdIn := by rcases hd with hd | hd <;> rw [hd] <;> decide
  have hcmd : (r.run P E u (t + 1)).sys.tgt.cmd = (r.run P E u t).sys.tgt.cmd := cmd_next hne
  have hdone : (r.run P E u t).sys.tgt.dataDone = true := by
    by_contra hdone
    rw [Bool.not_eq_true] at hdone
    rcases hd with hd | hd
    · have hread : (r.run P E u t).sys.tgt.cmdRead = false := Bool.eq_false_iff.mpr fun hread => by
        have h0 := hnt.1 hd hread
        simp [State.dataDone, State.dataLen_of_read hread, h0] at hdone
      simp [req, ioBusy, State.dataPhaseComplete, hd, hread, hdone] at hr
    · simp [req, ioBusy, State.dataPhaseComplete, hd, hcalm.noWr, hack, hdone] at hr
  rw [hdone, if_pos rfl] at hph
  have hph' : (r.run P E u (t + 1)).sys.tgt.phase = .statusOut := hph
  have hnw : (r.run P E u t).sys.tgt.cmdWrite = false := by
    rcases hd with hd | hd
    · exact h.returns t hd
    · exact Bool.eq_false_iff.mpr (hnt.2 (by rw [hd]; rfl))
  have := hreq (t + 1) (by omega) (by
    simp [State.transferring, hph', cmdWrite_congr hcmd, hnw])
  rw [hph'] at this
  simp at this

/-- The command is the same at every clock from `T` on. -/
theorem cmd_atRest (h : Endless P E r u n cdb) (hT : AtRest P E r u T) (ht : T ≤ t) :
    (r.run P E u t).sys.tgt.cmd = (r.run P E u T).sys.tgt.cmd := by
  refine Progress.invariant_from (p := fun t => (r.run P E u t).sys.tgt.cmd =
    (r.run P E u T).sys.tgt.cmd) rfl (fun t ht hc => ?_) ht
  have htr := h.transferring_of_atRest hT ht
  have hne : (r.run P E u t).sys.tgt.phase ≠ .cmdIn := fun hq => by
    rcases htr with htr | htr <;> simp [hq, Phase.receives] at htr
  exact (cmd_next hne).trans hc

theorem not_write_atRest (h : Endless P E r u n cdb) (hT : AtRest P E r u T)
    (hw : (r.run P E u T).sys.tgt.cmdWrite = true) : False := by
  have hall : ∀ t ≥ T, (r.run P E u t).sys.tgt.phase.receives = true ∧
      ∃ L n c lag odd, WrInv L n c lag odd (r.run P E u t).sys := fun t ht => by
    have hwt : (r.run P E u t).sys.tgt.cmdWrite = true := by
      rw [cmdWrite_congr (h.cmd_atRest hT ht), hw]
    rcases h.transferring_of_atRest hT ht with htr | htr
    · rw [State.cmdRead_of_cmdWrite hwt] at htr
      exact absurd htr.2.1 (by decide)
    · exact ⟨htr.1, h.write t htr.1 hwt⟩
  have hadv : ∀ t ≥ T, (r.run P E u t).sys.tgt.stbAdv = false := fun t ht =>
    ((h.tally t).shake.settled (by rw [hT.settle t ht]; omega)).2.1
  -- a drained target requests
  have hdrained : ∀ t ≥ T, (r.run P E u t).sys.drained = true →
      (r.run P E u t).sys.tgt.phase = .dataIn ∧ (r.run P E u t).sys.tgt.dataDone = true := by
    intro t ht hdr
    obtain ⟨hrec, L, n, c, lag, odd, hinv⟩ := hall t ht
    have hr := hT.req t ht
    simp only [Sys.drained, Sys.inFlight, Bool.and_eq_true, Bool.not_eq_true',
      Bool.or_eq_false_iff] at hdr
    have hack : (r.run P E u t).sys.ioAck = false := by
      rw [hinv.toFlush.ioAck_eq, hdr.1.1.1.2]
    cases hq : (r.run P E u t).sys.tgt.phase with
    | dataIn =>
      refine ⟨rfl, ?_⟩
      by_contra hdone
      simp [req, ioBusy, State.dataPhaseComplete, hq, hdr, hack, hdone] at hr
    | statusOut | messageOut =>
      simp [req, ioBusy, State.dataPhaseComplete, hq, hdr, hack, hinv.noRd] at hr
    | idle | cmdIn | dataOut => rw [hq] at hrec; cases hrec
  have hnot : ∀ t ≥ T, (r.run P E u t).sys.drained = false := by
    intro t ht
    refine Bool.eq_false_iff.mpr fun hdr => ?_
    obtain ⟨hq, hdone⟩ := hdrained t ht hdr
    obtain ⟨-, L, n, c, lag, odd, hinv⟩ := hall t ht
    have hnext := hinv.drained_next (P := P) (E := E) (m := (u t).hps) (h.fair.polite t).rst
      (hadv t ht) (hall (t + 1) (by omega)).1 hdr
    have hph := phase_data (P := P) (i := (r.run P E u t).sys.input E (u t).bus (u t).hps)
      (h.fair.polite t).rst (.inr hq)
    rw [hdone, if_pos rfl] at hph
    have hq' := (hdrained (t + 1) (by omega) hnext).1
    rw [show (r.run P E u (t + 1)).sys.tgt.phase = .statusOut from hph] at hq'
    cases hq'
  have hstep : ∀ t ≥ T, (r.run P E u (t + 1)).sys.flushRank ≤ (r.run P E u t).sys.flushRank ∧
      ((r.run P E u t).sys.hpsIdle = true ∨
        (r.run P E u (t + 1)).sys.hps ≠ (r.run P E u t).sys.hps →
      (r.run P E u (t + 1)).sys.flushRank < (r.run P E u t).sys.flushRank) := fun t ht => by
    obtain ⟨-, L, n, c, lag, odd, hinv⟩ := hall t ht
    have := hinv.flushRank_step (P := P) (E := E) (m := (u t).hps) (h.fair.polite t).rst
      (hadv t ht) (hall (t + 1) (by omega)).1
    exact this.resolve_left (by rw [hnot t ht]; decide)
  obtain ⟨t, -, hfalse⟩ := Progress.eventually_of_rank (T := T) (p := fun _ => False)
    (f := fun t => (r.run P E u t).sys.flushRank)
    (fun t ht _ => .inr (hstep t ht).1)
    (fun t ht => by
      rcases h.fair.serves t with hidle | ⟨t', ht', hmove⟩
      · exact ⟨t, Nat.le_refl t, .inr (.inr ((hstep t ht).2 (.inl hidle)))⟩
      · exact ⟨t', ht', .inr (.inr ((hstep t' (by omega)).2 (.inr hmove)))⟩)
  exact hfalse

theorem not_read_atRest (h : Endless P E r u n cdb) (hE : E.shortAcks = false)
    (hT : AtRest P E r u T) (hread : (r.run P E u T).sys.tgt.cmdRead = true) : False := by
  have hall : ∀ t ≥ T, (r.run P E u t).sys.tgt.phase = .dataOut ∧
      ∃ L n, RdInv P E L n (r.run P E u t).sys := fun t ht => by
    have hrt : (r.run P E u t).sys.tgt.cmdRead = true := by
      rw [cmdRead_congr (h.cmd_atRest hT ht), hread]
    rcases h.transferring_of_atRest hT ht with htr | htr
    · exact ⟨htr.1, h.read t htr.1 hrt htr.2.2⟩
    · rw [State.cmdWrite_of_cmdRead hrt] at htr
      exact absurd htr.2 (by decide)
  have hadv : ∀ t ≥ T, (r.run P E u t).sys.tgt.stbAdv = false := fun t ht =>
    ((h.tally t).shake.settled (by rw [hT.settle t ht]; omega)).2.1
  have hdone : ∀ t ≥ T, (r.run P E u t).sys.tgt.dataDone = false := fun t ht => by
    refine Bool.eq_false_iff.mpr fun hd => ?_
    have hph := phase_data (P := P) (i := (r.run P E u t).sys.input E (u t).bus (u t).hps)
      (h.fair.polite t).rst (.inl (hall t ht).1)
    rw [hd, if_pos rfl] at hph
    have hq' := (hall (t + 1) (by omega)).1
    rw [show (r.run P E u (t + 1)).sys.tgt.phase = .statusOut from hph] at hq'
    cases hq'
  have hwait : ∀ t ≥ T, (r.run P E u t).sys.tgt.rdHpsBlk ≤
      (r.run P E u t).sys.tgt.dataCnt / 512 := fun t ht => by
    obtain ⟨hq, L, n, hinv⟩ := hall t ht
    by_contra hlt
    have hr := hT.req t ht
    simp [req, ioBusy, State.dataPhaseComplete, hq, hdone t ht, State.rdCurBlk, hlt] at hr
  have hstep : ∀ t ≥ T, (r.run P E u (t + 1)).sys.fetchRank ≤ (r.run P E u t).sys.fetchRank ∧
      ((r.run P E u t).sys.hpsIdle = true ∨
        (r.run P E u (t + 1)).sys.hps ≠ (r.run P E u t).sys.hps →
      (r.run P E u (t + 1)).sys.fetchRank < (r.run P E u t).sys.fetchRank) := fun t ht => by
    obtain ⟨-, L, n, hinv⟩ := hall t ht
    refine (hinv.fetchRank_step (m := (u t).hps) (h.fair.polite t).rst hE (hdone t ht)
      (hwait t ht)).resolve_left fun hf => ?_
    -- a sector that is counted is there
    have hblk := hinv.rdHpsBlk_next (b := (u t).bus) (m := (u t).hps) hinv.tlen_lt
    have hcnt := hinv.dataCnt_next (b := (u t).bus) (m := (u t).hps)
    have hle := hinv.cnt_le
    have hw := hwait (t + 1) (by omega)
    rw [Rig.run_succ, Rig.step, hblk, hcnt, hf, hadv t ht] at hw
    simp at hw
    omega
  obtain ⟨t, -, hfalse⟩ := Progress.eventually_of_rank (T := T) (p := fun _ => False)
    (f := fun t => (r.run P E u t).sys.fetchRank)
    (fun t ht _ => .inr (hstep t ht).1)
    (fun t ht => by
      rcases h.fair.serves t with hidle | ⟨t', ht', hmove⟩
      · exact ⟨t, Nat.le_refl t, .inr (.inr ((hstep t ht).2 (.inl hidle)))⟩
      · exact ⟨t', ht', .inr (.inr ((hstep t' (by omega)).2 (.inr hmove)))⟩)
  exact hfalse

end Endless

/-- No run of a command whose group has a length is endless. -/
theorem Endless.elim (h : Endless P E r u n cdb) (hn : n ≤ 12) (hE : E.shortAcks = false) :
    False := by
  obtain ⟨T, hT⟩ := h.exists_atRest hn
  rcases h.transferring_of_atRest hT (Nat.le_refl T) with htr | htr
  · exact h.not_read_atRest hE hT htr.2.1
  · exact h.not_write_atRest hT htr.2

/-- A READ can be told from its first byte. -/
def readOpCode (op : Byte) : Bool := op == 0x08 || op == 0x28

theorem State.readOpCode_of_read {s : State} (h : s.cmdRead = true) :
    readOpCode (s.cmd 0) = true := by
  simp only [readOpCode, Bool.or_eq_true, beq_iff_eq, ← BitVec.toNat_inj]
  exact s.read_opCode h

/-- A fair run comes to the end of its command. -/
theorem Fair.completes (hf : Fair P E r u) (h0 : Selected r) (hE : E.shortAcks = false)
    (hn : groupLen ((cdb 0).toNat / 32) = some n) (hs : ∀ t, Sends cdb (r.run P E u t) (u t))
    (hfl : r.sys.tgt.rdFlushPending = false ∨ readOpCode (cdb 0) = false) :
    ∃ t, (∀ k < t, (r.run P E u k).sys.tgt.phase ≠ .idle) ∧
      (r.run P E u t).sys.tgt.phase = .idle ∧ Tally n cdb (acksBy P E r u t) (r.run P E u t) := by
  have htally : ∀ t, (∀ k < t, (r.run P E u k).sys.tgt.phase ≠ .idle) →
      Tally n cdb (acksBy P E r u t) (r.run P E u t) := fun t hb =>
    CommandRun.tally h0 hn (fun k hk => ⟨hf.polite k, hb k hk⟩) fun k _ => hs k
  by_cases hex : ∃ t, (r.run P E u t).sys.tgt.phase = .idle
  · classical
    exact ⟨Nat.find hex, fun k hk => Nat.find_min hex hk, Nat.find_spec hex,
      htally _ fun k hk => Nat.find_min hex hk⟩
  · exfalso
    rw [not_exists] at hex
    have hrun : ∀ t, CommandRun P E r u t := fun t =>
      ⟨fun k _ => hf.polite k, fun k _ => hex k⟩
    have hread : ∀ t, (r.run P E u t).sys.tgt.phase = .dataOut →
        (r.run P E u t).sys.tgt.cmdRead = true → (r.run P E u t).sys.tgt.tlen ≠ 0 →
        ∃ L n, RdInv P E L n (r.run P E u t).sys := fun t hq hr htl => by
      rcases hfl with hfl | hfl
      · have hst := (hrun t).readState h0.toCommanded hfl t fun k _ =>
          Hps.closesShort_of_full hE _ _
        exact ⟨_, _, (hst.dataOut hq hr htl).inv⟩
      · have hfirst := ((htally t fun k _ => hex k).taken (by rw [hq]; decide)).2 0 (by omega)
          (by have := (groupLen_le hn).1; omega)
        have := State.readOpCode_of_read hr
        rw [hfirst, hfl] at this
        cases this
    have hcalm : ∀ t, CalmState (r.run P E u t) := fun t => by
      induction t with
      | zero =>
        exact fun _ => ⟨h0.fresh.noRd.1, ⟨h0.fresh.noWr.1, h0.fresh.noWr.2.1⟩, h0.hps, h0.oldIoAck⟩
      | succ t ih =>
        exact ih.step (hf.polite t) (hex t) (hex (t + 1)) (hread t)
    exact Endless.elim (n := n) ⟨hf, hex, fun t => htally t fun k _ => hex k, hcalm, hread,
      fun t => ((hrun t).writeState h0.toCommanded t).dataOut, fun t hr hw =>
      ⟨_, _, _, _, _, (((hrun t).writeState h0.toCommanded t).receives hr hw).1.inv⟩⟩
      (groupLen_le hn).2 hE

/-! ### The commands that complete -/

/-- The run in which the initiator answers every request at once and the HPS serves at once. -/
abbrev promptRun (P : Params) (E : Env) (cdb : ℕ → Byte) (r : Rig) : ℕ → Tick :=
  loopStream (Rig.step P E) (fun _ => Rig.answer cdb (Rig.serve fun _ => false)) r

theorem promptRun_eq (r : Rig) (t : ℕ) : promptRun P E cdb r t =
    (r.run P E (promptRun P E cdb r) t).answer cdb (Rig.serve fun _ => false) := by
  rw [Rig.run, run_loopStream]
  rfl

theorem promptRun_sends (r : Rig) (t : ℕ) :
    Sends cdb (r.run P E (promptRun P E cdb r) t) (promptRun P E cdb r t) := by
  rw [promptRun_eq]
  exact fun _ => rfl

/-- The prompt HPS moves whenever it has something to do. -/
theorem serve_moves (hs : r.sys.hps.Sane) : r.sys.hpsIdle = true ∨
    (r.step P E (r.answer cdb (Rig.serve fun _ => false))).sys.hps ≠ r.sys.hps := by
  simp only [Rig.step, Sys.step, Rig.answer, Rig.serve]
  generalize hh : r.sys.hps = hps at hs
  cases hps with
  | idle =>
    cases hr : r.sys.tgt.ioRd <;> cases hw : r.sys.tgt.ioWr <;>
      simp [Sys.hpsIdle, Hps.step, hh, hr, hw]
  | posted op l => simp [Hps.step]
  | window op l w =>
    cases op with
    | wr => simp [Hps.step]
    | rd =>
      right
      have hw : w ≤ 256 := hs
      simp only [Hps.step]
      split_ifs with hc
      · simp
      · simp only [Hps.wordsAfter, Hps.wr, ne_eq, Hps.window.injEq, true_and] at hc ⊢
        by_cases hlt : w < 256
        · simp [hlt]
        · obtain rfl : w = 256 := by omega
          simp at hc

/-- Such a run is fair. -/
theorem promptRun_fair (hh : r.sys.hps = .idle) :
    Fair P E r (promptRun P E cdb r) := by
  have hpol : ∀ q : Rig, Polite q (q.answer cdb (Rig.serve fun _ => false)) := fun q => by
    refine ⟨rfl, fun hr => ?_⟩
    simp only [Rig.rise, Rig.answer, Bool.and_eq_true, beq_iff_eq] at hr
    exact ⟨hr.1.1.2, hr.1.2⟩
  have hsane : ∀ t, (r.run P E (promptRun P E cdb r) t).sys.hps.Sane := fun t => by
    induction t with
    | zero => rw [Rig.run_zero, hh]; trivial
    | succ t ih => exact ih.step
  constructor
  · intro t
    rw [promptRun_eq]
    exact hpol _
  · intro t hs ho hreq
    refine ⟨t, Nat.le_refl t, ?_⟩
    rw [promptRun_eq]
    simp [Rig.rise, Rig.answer, hs, ho, hreq]
  · intro t
    by_cases ha : (promptRun P E cdb r t).bus.ack = true
    · refine ⟨t + 1, Nat.le_succ t, ?_⟩
      rw [promptRun_eq]
      simp [Rig.answer, Rig.run_succ, Rig.oldAck_step, ha]
    · exact ⟨t, Nat.le_refl t, by simpa using ha⟩
  · intro t
    have hmoves := @serve_moves P E _ cdb (hsane t)
    rw [← promptRun_eq] at hmoves
    exact hmoves.imp_right fun hm => ⟨t, Nat.le_refl t, hm⟩

theorem Selected.selected : Selected .selected where
  toCommanded := .selected
  cmdCnt := rfl
  underWay := rfl

end Scsi
