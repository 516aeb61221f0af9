import LBMacTwo.Scsi.Initiator
import LBMacTwo.Scsi.Write

/-!
# WRITE is durable

A polite initiator that runs a WRITE sees the status byte only when every block it has sent is on
the disk: `io_wr` is raised once for every block and never before the window of the last one has
closed, the requests name consecutive sectors, and the status is not offered while one of them is
open (`write_durable`). The sectors are right unless an aborted READ has left `rd_flush_pending`
set: the window that clears it is one `lba` does not count.
-/

namespace Scsi

variable {P : Params} {E : Env} {L n c i : ℕ} {lag odd : Bool} {r : Rig} {k : Tick}

/-- A WRITE with `c` of its `n` blocks flushed, under a polite initiator. -/
structure Storing (L n c : ℕ) (lag odd : Bool) (r : Rig) : Prop where
  inv : WrInv L n c lag odd r.sys
  shake : Shake r
  edge : r.sys.tgt.wrEdge = true → r.settle = 2

theorem req_dataIn {s : State} {io : Bool} (hp : s.phase = .dataIn) (h : req s false io = true) :
    s.dataDone = false ∧ ((s.ioWr || io || s.wrPending) = true → s.dataCntHalf ≠ s.sdBuffSel) := by
  simp [req, ioBusy, hp, State.dataPhaseComplete] at h
  refine ⟨h.2, fun hb he => ?_⟩
  rcases h.1 with ⟨⟨h1, h2⟩, h3⟩ | h1
  · simp [h1, h2, h3] at hb
  · exact h1 he

/-- `req` and `req_bus` show the status when nothing is left to flush. -/
theorem free_of_offered {s : State} {ack io : Bool} (hp : s.phase = .statusOut)
    (h : req s ack io = true ∨ reqBus s ack io = true) :
    (s.ioRd || s.ioWr || io || s.wrPending) = false := by
  rcases h with h | h
  · simp only [req, ioBusy, hp, Bool.and_eq_true, Bool.not_eq_true'] at h
    simpa using h.1.2
  · simp only [reqBus, ioBusy, hp, Bool.and_eq_true] at h
    simpa using h.2

namespace Storing

/-- Without a pending edge, a block is in flight unless `fall` is just closing it. -/
theorem inFlight_eq (h : Storing L n c lag odd r)
    (hn : (r.sys.tgt.ioWr || r.sys.ioAck) = false) : r.sys.inFlight = r.sys.fall := by
  rw [Bool.or_eq_false_iff] at hn
  rw [Sys.inFlight, Sys.fall, hn.1, hn.2, ← h.inv.toFlush.ioAck_eq, hn.2]
  simp

theorem wrOk (h : Storing L n c lag odd r) (hp : Polite r k) :
    WrOk n c odd r.sys k.bus := by
  have hcnt := h.inv.cnt
  refine ⟨hp.rst, fun hd ha ho => ?_, fun hd ha ho => ?_⟩
  · obtain ⟨hs, hr⟩ := hp.ack (by simp [Rig.rise, ha, ho])
    obtain ⟨hdone, hbusy⟩ := req_dataIn hd hr
    have hedge : r.sys.tgt.wrEdge = false := Bool.eq_false_iff.mpr fun he => by
      have := h.edge he
      omega
    have hle := h.inv.cnt_le hd
    rw [h.inv.dataDone_eq hd, decide_eq_false_iff_not] at hdone
    rw [(h.shake.settled (by omega)).2.1, Bool.toNat_false, Nat.add_zero]
    rw [State.blocks, if_pos hd, hedge, Bool.toNat_false, Nat.add_zero] at hcnt
    refine ⟨by omega, ?_⟩
    have htop := h.inv.top hd
    by_contra hlt
    -- both halves are taken, and the count stands in the one being flushed
    have hfull : r.sys.tgt.dataCnt / 512 + odd.toNat = c + 2 := by omega
    have hhalf : r.sys.tgt.dataCntHalf = r.sys.tgt.sdBuffSel := by
      rw [h.inv.sel, State.dataCntHalf, Bool.eq_iff_iff]
      cases odd
      · rw [Bool.toNat_false] at hfull
        simp
        omega
      · rw [Bool.toNat_true] at hfull
        simp
        omega
    have hfree : (r.sys.tgt.ioWr || r.sys.ioAck || r.sys.tgt.wrPending) = false := by
      refine Bool.eq_false_iff.mpr fun hb => hbusy hb hhalf
    rw [Bool.or_eq_false_iff] at hfree
    rw [h.inFlight_eq hfree.1, hfree.2] at hcnt
    simp only [Bool.toNat_false] at hcnt
    have := odd.toNat_le
    omega
  · obtain ⟨-, hr⟩ := hp.ack (by simp [Rig.rise, ha, ho])
    have hfree := free_of_offered hd (.inl hr)
    simp only [Bool.or_eq_false_iff] at hfree
    have hne : r.sys.tgt.phase ≠ .dataIn := by rw [hd]; decide
    rw [State.blocks, if_neg hne, h.inv.noEdge hne, hfree.2,
      h.inFlight_eq (by simp [hfree])] at hcnt
    simpa using hcnt

theorem step (h : Storing L n c lag odd r) (hp : Polite r k)
    (hr : (r.step P E k).sys.tgt.phase.receives = true) :
    Storing L n (c + r.sys.fall.toNat) lag odd (r.step P E k) := by
  refine ⟨h.inv.step (h.wrOk hp) hr, h.shake.step, fun he => ?_⟩
  have hd : (r.step P E k).sys.tgt.phase = .dataIn := by
    by_contra hd
    have := h.inv.edge_of_ne (P := P) (E := E) (m := k.hps) hp.rst hr hd
    rw [show (r.step P E k).sys.tgt.wrEdge = false from this] at he
    cases he
  have hq : r.sys.tgt.phase = .dataIn :=
    (phase_of_dataIn_next hd).resolve_left (Phase.receives_spec h.inv.phase).2.1
  have hedge := h.inv.edge_dataIn (P := P) (E := E) (m := k.hps) hp.rst hq hd
  rw [show (r.step P E k).sys.tgt.wrEdge = _ from hedge, decide_eq_true_eq] at he
  simp [Rig.step, h.shake.ack_of_adv hp he.1, (h.shake.adv he.1).1]

theorem of_commanded (h : Commanded r) (hp : Polite r k)
    (hw : (r.step P E k).sys.tgt.cmdWrite = true)
    (hd : (r.step P E k).sys.tgt.phase = .dataIn) :
    Storing (r.step P E k).sys.tgt.cmdLba (r.step P E k).sys.tgt.cmdTlen 0
      r.sys.tgt.rdFlushPending r.sys.tgt.sdBuffSel (r.step P E k) := by
  obtain ⟨-, -, hlba, htlen, hadv, hack⟩ := h.accept hp (by rw [hd]; decide)
  have hfresh : Fresh (r.step P E k).sys.tgt := h.fresh.step (by rw [h.phase]; rfl)
  have hinv := WrInv.of_fresh hfresh hd hw h.hps_step h.ioAck_eq hlba htlen hadv hack
  rw [h.flush_step hp.rst, h.sel_step] at hinv
  refine ⟨hinv, h.shake.step, fun he => ?_⟩
  rw [State.wrEdge, reqWr_dataIn hd hw hinv.dataLen_eq (hinv.cnt_le hd), hfresh.dataCnt] at he
  simp at he

end Storing

/-! ### The whole command -/

/-- `io_wr` rises with this clock. -/
def Rig.raisesWr (P : Params) (E : Env) (r : Rig) (k : Tick) : Bool :=
  !r.sys.tgt.ioWr && (r.step P E k).sys.tgt.ioWr

theorem Rig.raisesWr_eq (hr : k.bus.rst = false) :
    r.raisesWr P E k = issueWr r.sys.tgt (r.sys.input E k.bus k.hps) := by
  simp only [Rig.raisesWr, Rig.step, Sys.step, Scsi.step, ioWrNext, issueWr, Sys.input, hr]
  cases r.sys.ioAck <;> cases r.sys.tgt.ioWr <;> cases r.sys.tgt.wrPending <;> rfl

/-- Where a rig stands in a command that may be a WRITE, with `i` requests made and `c` windows
closed. -/
structure WriteState (lag odd : Bool) (i c : ℕ) (r : Rig) : Prop where
  cmdIn : r.sys.tgt.phase = .cmdIn → Commanded r ∧ r.sys.tgt.rdFlushPending = lag ∧
    r.sys.tgt.sdBuffSel = odd ∧ i = 0 ∧ c = 0
  dataOut : r.sys.tgt.phase = .dataOut → r.sys.tgt.cmdWrite = false
  receives : r.sys.tgt.phase.receives = true → r.sys.tgt.cmdWrite = true →
    Storing r.sys.tgt.cmdLba r.sys.tgt.cmdTlen c lag odd r ∧ i = c + r.sys.inFlight.toNat

theorem WriteState.step (h : WriteState lag odd i c r) (hb : r.sys.tgt.phase ≠ .idle)
    (hp : Polite r k) : WriteState lag odd (i + (r.raisesWr P E k).toNat)
      (c + r.sys.fall.toNat) (r.step P E k) := by
  have hzero : r.sys.tgt.phase = .cmdIn →
      i + (r.raisesWr P E k).toNat = 0 ∧ c + r.sys.fall.toNat = 0 := fun hq => by
    obtain ⟨hcom, -, -, hi, hc⟩ := h.cmdIn hq
    rw [hi, hc, Rig.raisesWr_eq hp.rst, Sys.fall, hcom.oldIoAck]
    simp [issueWr, hcom.fresh.noWr]
  constructor
  · intro hc
    have hq := phase_of_cmdIn_next hb hc
    obtain ⟨hcom, hl, ho, -⟩ := h.cmdIn hq
    exact ⟨hcom.step hp hc, (hcom.flush_step hp.rst).trans hl, hcom.sel_step.trans ho, hzero hq⟩
  · intro hd
    rcases phase_of_dataOut_next hd with hq | hq
    · obtain ⟨-, hph, -⟩ := (h.cmdIn hq).1.accept hp (by rw [hd]; decide)
      refine Bool.eq_false_iff.mpr fun hw => ?_
      rw [State.cmdPhase_of_write hw, hd] at hph
      cases hph
    · exact (cmdWrite_congr (cmd_next (by rw [hq]; decide))).trans (h.dataOut hq)
  · intro hr hw
    by_cases hq : r.sys.tgt.phase = .cmdIn
    · obtain ⟨hcom, rfl, rfl, -⟩ := h.cmdIn hq
      obtain ⟨hi, hc⟩ := hzero hq
      have hd : (r.step P E k).sys.tgt.phase = .dataIn := by
        rw [(hcom.accept hp (Phase.receives_spec hr).2.1).2.1, State.cmdPhase_of_write hw]
      have hst := Storing.of_commanded hcom hp hw hd
      have hcnt := hst.inv.cnt
      have h0 : (r.step P E k).sys.tgt.dataCnt = 0 := by
        simp [Rig.step, Sys.step, Scsi.step, dataCntNext, hq, Phase.transfers]
      rw [State.blocks, if_pos hd, h0] at hcnt
      rw [hi, hc]
      exact ⟨hst, by omega⟩
    · have hcmd : (r.step P E k).sys.tgt.cmd = r.sys.tgt.cmd := cmd_next hq
      rw [cmdWrite_congr hcmd] at hw
      have hrec : r.sys.tgt.phase.receives = true := by
        cases hph : r.sys.tgt.phase with
        | idle => exact absurd hph hb
        | cmdIn => exact absurd hph hq
        | dataOut => rw [h.dataOut hph] at hw; cases hw
        | _ => rfl
      obtain ⟨hst, hi⟩ := h.receives hrec hw
      have hfl := hst.inv.toFlush.inFlight_next (P := P) (E := E) (m := k.hps) hp.rst
      rw [cmdLba_congr hcmd, cmdTlen_congr hcmd, Rig.raisesWr_eq hp.rst, hi]
      refine ⟨hst.step hp hr, ?_⟩
      rw [show (r.step P E k).sys = r.sys.step P E k.bus k.hps from rfl]
      omega

/-- Flush requests made before clock `t`. -/
def requests (P : Params) (E : Env) (r : Rig) (u : ℕ → Tick) (t : ℕ) : ℕ :=
  Nat.count (fun k => (r.run P E u k).raisesWr P E (u k) = true) t

/-- Windows of the HPS seen to close before clock `t`. -/
def closes (P : Params) (E : Env) (r : Rig) (u : ℕ → Tick) (t : ℕ) : ℕ :=
  Nat.count (fun k => (r.run P E u k).sys.fall = true) t

theorem requests_succ (r : Rig) (u : ℕ → Tick) (t : ℕ) : requests P E r u (t + 1) =
    requests P E r u t + ((r.run P E u t).raisesWr P E (u t)).toNat := by
  rw [requests, Nat.count_succ, requests]
  cases (r.run P E u t).raisesWr P E (u t) <;> rfl

theorem closes_succ (r : Rig) (u : ℕ → Tick) (t : ℕ) : closes P E r u (t + 1) =
    closes P E r u t + (r.run P E u t).sys.fall.toNat := by
  rw [closes, Nat.count_succ, closes]
  cases (r.run P E u t).sys.fall <;> rfl

theorem CommandRun.writeState {u : ℕ → Tick} (h0 : Commanded r) (t : ℕ)
    (h : CommandRun P E r u t) :
    WriteState r.sys.tgt.rdFlushPending r.sys.tgt.sdBuffSel (requests P E r u t)
      (closes P E r u t) (r.run P E u t) := by
  induction t with
  | zero =>
    refine ⟨fun _ => ⟨h0, rfl, rfl, rfl, rfl⟩, fun hd => ?_, fun hr => ?_⟩
    · rw [Rig.run_zero, h0.phase] at hd
      cases hd
    · rw [Rig.run_zero, h0.phase] at hr
      cases hr
  | succ t ih =>
    rw [requests_succ, closes_succ, Rig.run_succ]
    exact (ih (h.upTo (by omega))).step (h.busy t (by omega)) (h.polite t (by omega))

/-- What holds at clock `t` of a WRITE of `n` blocks from sector `L`. -/
structure DurableAt (P : Params) (E : Env) (r : Rig) (u : ℕ → Tick) (L n t : ℕ) : Prop where
  /-- Every block received is requested once. -/
  once : requests P E r u t + (r.run P E u t).sys.tgt.wrPending.toNat +
    (r.run P E u t).sys.tgt.wrEdge.toNat = (r.run P E u t).sys.tgt.blocks n
  /-- Nothing else is requested. -/
  total : (r.run P E u t).sys.tgt.blocks n ≤ n
  /-- A request names its own sector, and the windows of those before it have closed. -/
  request : (r.run P E u t).raisesWr P E (u t) = true →
    (r.run P E u (t + 1)).sys.tgt.lba = (L + requests P E r u t) % 2 ^ 32 ∧
    closes P E r u (t + 1) = requests P E r u t ∧ (r.run P E u t).sys.hps = .idle
  /-- The status byte is offered, and taken, only when the windows of all blocks have closed. -/
  status : (r.run P E u t).sys.tgt.phase = .statusOut →
    (∃ ack, req (r.run P E u t).sys.tgt ack (r.run P E u t).sys.ioAck = true ∨
      reqBus (r.run P E u t).sys.tgt ack (r.run P E u t).sys.ioAck = true) ∨
      (r.run P E u t).rise (u t) = true →
    requests P E r u t = n ∧ closes P E r u (t + 1) = n ∧
    (r.run P E u t).sys.tgt.wrPending = false ∧ (r.run P E u t).sys.tgt.ioWr = false ∧
    (r.run P E u t).sys.ioAck = false

theorem Storing.issue (h : Storing L n c lag odd r) (hp : Polite r k)
    (hr : r.raisesWr P E k = true) :
    c + r.sys.inFlight.toNat = c + r.sys.fall.toNat ∧ r.sys.hps = .idle ∧
      c + r.sys.inFlight.toNat < r.sys.tgt.blocks n := by
  rw [Rig.raisesWr_eq hp.rst] at hr
  simp only [issueWr, Sys.input, Bool.and_eq_true, Bool.not_eq_true'] at hr
  have hcnt := h.inv.cnt
  rw [hr.1.2, Bool.toNat_true] at hcnt
  refine ⟨by rw [h.inFlight_eq (by simp [hr])], ?_, by omega⟩
  have he := h.inv.engine
  have hack := h.inv.toFlush.ioAck_eq
  generalize r.sys.hps = hps at he hack
  cases he with
  | rest | closing => rfl
  | posted _ hio => rw [hr.2] at hio; cases hio
  | window => rw [hr.1.1] at hack; cases hack

theorem Storing.offered (h : Storing L n c lag odd r) (hd : r.sys.tgt.phase = .statusOut)
    (hfree : (r.sys.tgt.ioRd || r.sys.tgt.ioWr || r.sys.ioAck || r.sys.tgt.wrPending) = false) :
    c + r.sys.inFlight.toNat = n ∧ c + r.sys.fall.toNat = n ∧ r.sys.tgt.wrPending = false ∧
      r.sys.tgt.ioWr = false ∧ r.sys.ioAck = false := by
  simp only [Bool.or_eq_false_iff] at hfree
  have hcnt := h.inv.cnt
  have hne : r.sys.tgt.phase ≠ .dataIn := by rw [hd]; decide
  rw [State.blocks, if_neg hne, h.inv.noEdge hne, hfree.2] at hcnt
  have hin := h.inFlight_eq (by simp [hfree])
  rw [← hin]
  exact ⟨hcnt, hcnt, hfree.2, hfree.1.1.2, hfree.1.2⟩

/-- Every block of a WRITE is requested once, for its own sector and when those before it are on the
disk; the status follows the last. -/
theorem write_durable {u : ℕ → Tick} {t : ℕ} (h0 : Commanded r) (h : CommandRun P E r u t)
    (hp : (r.run P E u t).sys.tgt.phase.receives = true)
    (hw : (r.run P E u t).sys.tgt.cmdWrite = true)
    (hfl : r.sys.tgt.rdFlushPending = false ∨ (r.run P E u t).sys.tgt.cmdTlen ≤ 1) :
    DurableAt P E r u (r.run P E u t).sys.tgt.cmdLba (r.run P E u t).sys.tgt.cmdTlen t := by
  obtain ⟨hst, hi⟩ := (h.writeState h0 t).receives hp hw
  have hpol := h.polite t (Nat.le_refl t)
  have hclose := closes_succ (P := P) (E := E) r u t
  have hcnt := hst.inv.cnt
  have htotal : (r.run P E u t).sys.tgt.blocks (r.run P E u t).sys.tgt.cmdTlen ≤
      (r.run P E u t).sys.tgt.cmdTlen := by
    unfold State.blocks
    split_ifs with hd
    · have := hst.inv.cnt_le hd
      omega
    · exact Nat.le_refl _
  refine ⟨by omega, htotal, fun hr => ?_, fun hs hoff => ?_⟩
  · obtain ⟨h1, h2, h3⟩ := hst.issue hpol hr
    refine ⟨?_, by omega, h2⟩
    have hlag : closes P E r u t + (r.run P E u t).sys.fall.toNat -
        r.sys.tgt.rdFlushPending.toNat = requests P E r u t := by
      rcases hfl with hfl | hfl
      · rw [hfl, Bool.toNat_false]
        omega
      · have := r.sys.tgt.rdFlushPending.toNat_le
        omega
    rw [Rig.run_succ, ← hlag]
    exact hst.inv.toFlush.lba_next
  · have hfree : ((r.run P E u t).sys.tgt.ioRd || (r.run P E u t).sys.tgt.ioWr ||
        (r.run P E u t).sys.ioAck || (r.run P E u t).sys.tgt.wrPending) = false := by
      rcases hoff with ⟨ack, hoff⟩ | hoff
      · exact free_of_offered hs hoff
      · exact free_of_offered hs (.inl (hpol.ack hoff).2)
    obtain ⟨h1, h2, h3⟩ := hst.offered hs hfree
    exact ⟨by omega, by omega, h3⟩

end Scsi
