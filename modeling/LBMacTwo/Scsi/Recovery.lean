import LBMacTwo.Scsi.Completion

/-!
# After a bus reset

The bus reset withdraws a request but not what the HPS has already taken. `rd_flush_pending`
remembers a fetch that was under way, so that its completion is not counted as one of the next
command; it is cleared by the first window the target sees close, whosever window that is.
-/

namespace Scsi

open Clocked (scan run_of_scan)

variable {P : Params} {E : Env} {n : ℕ} {r : Rig} {k : Tick} {u : ℕ → Tick} {cdb : ℕ → Byte}

/-! ### A WRITE that clears the bit -/

/-- A count that has reached `j + 1` has gone through a request made at `j`. -/
theorem exists_request {j t : ℕ} (h : j < requests P E r u t) :
    ∃ k < t, requests P E r u k = j ∧ (r.run P E u k).raisesWr P E (u k) = true := by
  induction t with
  | zero => exact absurd h (by simp [requests])
  | succ t ih =>
    by_cases hlt : j < requests P E r u t
    · obtain ⟨k, hk, hreq⟩ := ih hlt
      exact ⟨k, by omega, hreq⟩
    · rw [requests_succ] at h
      have hle := ((r.run P E u t).raisesWr P E (u t)).toNat_le
      refine ⟨t, Nat.lt_succ_self t, by omega, ?_⟩
      by_contra hr
      rw [Bool.not_eq_true] at hr
      rw [hr, Bool.toNat_false] at h
      omega

/-- A target at power-up. -/
def Rig.init : Rig := ⟨⟨.init, .idle⟩, 0⟩

/-- The rig can be reached from power-up. -/
def Reached (P : Params) (E : Env) (r : Rig) : Prop := ∃ v t, r = Rig.init.run P E v t

theorem Shake.init : Shake .init := by
  constructor <;> simp [Rig.init, State.init]

theorem Reached.shake (h : Reached P E r) : Shake r := by
  obtain ⟨v, t, rfl⟩ := h
  exact Clocked.run_inv _ (fun _ _ hs => hs.step) .init v t

/-- Mounts a disk, selects the target, sends it a READ, resets the bus when the fetch is requested
and selects the target again. The HPS looks at nothing. -/
def abortRead (t : ℕ) (r : Rig) : Tick :=
  let k := r.answer readSector5 fun _ => ⟨false, false, 0, 0⟩
  { k with bus := { k.bus with
      rst := r.sys.tgt.ioRd
      sel := r.sys.tgt.phase == .idle
      din := if r.sys.tgt.phase == .idle then 1 else k.bus.din
      imgMounted := t == 0
      imgBlocks := 1 } }

/-- A target just selected in which an aborted READ has left its bit set. -/
def Rig.flushPending (r : Rig) : Bool :=
  let s := r.sys.tgt
  s.phase == .cmdIn && s.rdFlushPending && r.sys.hps == .idle && !s.oldIoAck && s.cmdCnt == 0 &&
    !s.oldAck && !s.stbAdv && !s.ioRd && !s.rdBusy && !s.ioWr && !s.wrPending && !s.oldWr &&
    !s.buffer0Wr && !s.buffer1Wr && s.dataCnt == 0 && s.rdHpsBlk == 0 && !s.dataComplete &&
    !s.statusSent && !s.messageSent && !s.wmBeat2 && !s.storeLow

theorem Selected.of_flushPending (h : Reached P E r) (hf : r.flushPending = true) :
    Selected r ∧ r.sys.tgt.rdFlushPending = true := by
  simp only [Rig.flushPending, Bool.and_eq_true, beq_iff_eq, Bool.not_eq_true'] at hf
  refine ⟨⟨⟨by simp [hf], ?_, by simp [hf], by simp [hf], h.shake, fun hc => ?_⟩, by simp [hf], ?_⟩,
    by simp [hf]⟩
  · constructor <;> simp [hf]
  · rw [cmdCpl_iff] at hc
    omega
  · simp [Rig.underWay, hf]

theorem exists_flushPending : ∃ r, Reached .least (.numbered false) r ∧ Selected r ∧
    r.sys.tgt.rdFlushPending = true := by
  have hscan : scan (Rig.step .least (.numbered false)) abortRead (fun _ _ => true)
      Rig.flushPending 34 0 .init = true := by
    decide +kernel
  have hend := (run_of_scan hscan).2
  exact ⟨_, ⟨_, _, rfl⟩, Selected.of_flushPending ⟨_, _, rfl⟩ hend⟩

/-- A WRITE can be told from its first byte. -/
def writeOpCode (op : Byte) : Bool := op == 0x0a || op == 0x2a

theorem State.write_of_writeOpCode {s : State} (h : writeOpCode (s.cmd 0) = true) :
    s.cmdWrite = true := by
  simp only [writeOpCode, Bool.or_eq_true, beq_iff_eq] at h
  simp only [State.cmdWrite, State.cmdWrite6, State.cmdWrite10, State.opCode]
  rcases h with h | h <;> rw [h] <;> rfl

theorem readOpCode_of_writeOpCode {op : Byte} (h : writeOpCode op = true) :
    readOpCode op = false := by
  simp only [writeOpCode, Bool.or_eq_true, beq_iff_eq] at h
  rcases h with h | h <;> rw [h] <;> rfl

/-- The last phase of a command is the message. -/
theorem phase_of_idle_next (hr : k.bus.rst = false) (hb : r.sys.tgt.phase ≠ .idle)
    (hi : (r.step P E k).sys.tgt.phase = .idle) : r.sys.tgt.phase = .messageOut := by
  have hs := phaseStep P r.sys.tgt (r.sys.input E k.bus k.hps)
  rw [show (Scsi.step P r.sys.tgt (r.sys.input E k.bus k.hps)).phase = .idle from hi] at hs
  generalize hq : Phase.idle = q at hs
  cases hs with
  | stay => exact absurd hq.symm hb
  | reset hrst => exact absurd (hr.symm.trans hrst) (by decide)
  | accept =>
    have := r.sys.tgt.cmdPhase_cases
    simp [← hq] at this
  | messageEnd hp => exact hp
  | _ => cases hq

/-- A fair run of a WRITE has made all its requests when it comes to the message. -/
theorem Fair.requests_all (hf : Fair P E r u) (h0 : Selected r) (hE : E.shortAcks = false)
    (hs : ∀ t, Sends cdb (r.run P E u t) (u t)) (hn : groupLen ((cdb 0).toNat / 32) = some n)
    (hw : writeOpCode (cdb 0) = true) :
    ∃ t, CommandRun P E r u t ∧ Tally n cdb (acksBy P E r u t) (r.run P E u t) ∧
      (r.run P E u t).sys.tgt.phase = .messageOut ∧
      (r.run P E u t).sys.tgt.cmdWrite = true ∧
      requests P E r u t = (r.run P E u t).sys.tgt.cmdTlen := by
  obtain ⟨s, hb, hi, -⟩ := hf.completes h0 hE hn hs (.inr (readOpCode_of_writeOpCode hw))
  obtain ⟨t, rfl⟩ : ∃ t, s = t + 1 := by
    refine Nat.exists_eq_succ_of_ne_zero fun h => ?_
    rw [h, Rig.run_zero, h0.phase] at hi
    cases hi
  have hrun : CommandRun P E r u t := ⟨fun k _ => hf.polite k, fun k hk => hb k (by omega)⟩
  have htally : Tally n cdb (acksBy P E r u t) (r.run P E u t) :=
    CommandRun.tally h0 hn (fun k hk => ⟨hf.polite k, hb k (by omega)⟩) fun k _ => hs k
  have hq := phase_of_idle_next (hf.polite t).rst (hb t (by omega)) hi
  have hrec : (r.run P E u t).sys.tgt.phase.receives = true := by rw [hq]; rfl
  have hwrite : (r.run P E u t).sys.tgt.cmdWrite = true := by
    refine State.write_of_writeOpCode ?_
    rw [(htally.taken (by rw [hq]; decide)).2 0 (by omega) (by have := (groupLen_le hn).1; omega)]
    exact hw
  refine ⟨t, hrun, htally, hq, hwrite, ?_⟩
  obtain ⟨hst, hreq⟩ := (hrun.writeState h0.toCommanded t).receives hrec hwrite
  have hfin := hst.inv.finished hq
  have hcnt := hst.inv.cnt
  rw [State.blocks, if_neg (by rw [hq]; decide)] at hcnt
  omega

/-- A WRITE that has made a request is past its command phase. -/
theorem CommandRun.receives_of_requests {t : ℕ} (h : CommandRun P E r u t) (h0 : Selected r)
    (hn : groupLen ((cdb 0).toNat / 32) = some n) (hs : ∀ t, Sends cdb (r.run P E u t) (u t))
    (hw : writeOpCode (cdb 0) = true) (hreq : 0 < requests P E r u t) :
    (r.run P E u t).sys.tgt.phase.receives = true ∧ (r.run P E u t).sys.tgt.cmdWrite = true := by
  have htally : Tally n cdb (acksBy P E r u t) (r.run P E u t) :=
    CommandRun.tally h0 hn (fun j hj => ⟨h.polite j (by omega), h.busy j (by omega)⟩) fun j _ => hs j
  have hstate := h.writeState h0.toCommanded t
  have hne : (r.run P E u t).sys.tgt.phase ≠ .cmdIn := fun hc => by
    have := (hstate.cmdIn hc).2.2.2.1
    omega
  have hwrite : (r.run P E u t).sys.tgt.cmdWrite = true := by
    refine State.write_of_writeOpCode ?_
    rw [(htally.taken hne).2 0 (by omega) (by have := (groupLen_le hn).1; omega)]
    exact hw
  refine ⟨?_, hwrite⟩
  cases hq : (r.run P E u t).sys.tgt.phase with
  | idle => exact absurd hq (h.busy t (Nat.le_refl t))
  | cmdIn => exact absurd hq hne
  | dataOut => exact absurd (hwrite.symm.trans (hstate.dataOut hq)) (by decide)
  | _ => rfl

/-- WRITE(6) of two blocks to sector 0. -/
def writeTwo : ℕ → Byte
  | 0 => 0x0a
  | 4 => 2
  | _ => 0

/-- The WRITE of two blocks sends the second to its own sector, and then comes to an end. -/
theorem write_durable_two : ∃ (u : ℕ → Tick) (k t : ℕ), k < t ∧
    (Rig.selected.run .least (.numbered false) u k).raisesWr .least (.numbered false) (u k) = true ∧
    requests .least (.numbered false) .selected u k = 1 ∧
    (Rig.selected.run .least (.numbered false) u (k + 1)).sys.tgt.lba = 1 ∧
    (Rig.selected.run .least (.numbered false) u t).sys.tgt.phase = .messageOut ∧
    requests .least (.numbered false) .selected u t = 2 ∧
    DurableAt .least (.numbered false) .selected u 0 2 t := by
  let u := promptRun .least (.numbered false) writeTwo .selected
  have hfair : Fair .least (.numbered false) .selected u := promptRun_fair rfl
  have hsends := @promptRun_sends .least (.numbered false) writeTwo .selected
  obtain ⟨t, hrun, htally, hq, hw, hreq⟩ := hfair.requests_all .selected rfl hsends rfl rfl
  have hcdb : ∀ {k}, CommandRun .least (.numbered false) .selected u k →
      (Rig.selected.run .least (.numbered false) u k).sys.tgt.phase ≠ .cmdIn →
      (Rig.selected.run .least (.numbered false) u k).sys.tgt.cmdLba = 0 ∧
        (Rig.selected.run .least (.numbered false) u k).sys.tgt.cmdTlen = 2 := by
    intro k hk hne
    have htallyk : Tally 6 writeTwo _ (Rig.selected.run .least (.numbered false) u k) :=
      CommandRun.tally .selected rfl (fun j hj => ⟨hk.polite j (by omega), hk.busy j (by omega)⟩)
        fun j _ => hsends j
    have hcmd := (htallyk.taken hne).2
    constructor
    · simp [State.cmdLba, State.cmdGroup, State.opCode, State.lba6, hcmd 0 (by omega) (by omega),
        hcmd 1 (by omega) (by omega), hcmd 2 (by omega) (by omega), hcmd 3 (by omega) (by omega), writeTwo]
    · simp [State.cmdTlen, State.cmdGroup, State.opCode, State.tlen6, hcmd 0 (by omega) (by omega),
        hcmd 4 (by omega) (by omega), writeTwo]
  obtain ⟨hlba, htlen⟩ := hcdb hrun (by rw [hq]; decide)
  have hdur := write_durable .selected hrun (by rw [hq]; rfl) hw (.inl rfl)
  rw [hlba, htlen] at hdur
  rw [htlen] at hreq
  -- the second request
  obtain ⟨k, hk, hone, hraise⟩ := exists_request (j := 1) (by rw [hreq]; omega)
  have hrunk := hrun.upTo (Nat.le_of_lt hk)
  obtain ⟨hreck, hwk⟩ := hrunk.receives_of_requests .selected rfl hsends rfl (by omega)
  obtain ⟨hlbak, -⟩ := hcdb hrunk (Phase.receives_spec hreck).2.1
  have hdurk := write_durable .selected hrunk hreck hwk (.inl rfl)
  refine ⟨u, k, t, hk, hraise, hone, ?_, hq, hreq, hdur⟩
  rw [(hdurk.request hraise).1, hlbak, hone]
  rfl

/-- The second block of a WRITE can be sent to the sector of the first. -/
theorem write_after_abort : ¬ ∀ (P : Params) (E : Env) (r : Rig) (u : ℕ → Tick) (t : ℕ),
    Reached P E r → Commanded r → CommandRun P E r u t →
    (r.run P E u t).sys.tgt.phase.receives = true → (r.run P E u t).sys.tgt.cmdWrite = true →
    DurableAt P E r u (r.run P E u t).sys.tgt.cmdLba (r.run P E u t).sys.tgt.cmdTlen t := by
  intro hall
  obtain ⟨r, hreach, h0, hfl⟩ := exists_flushPending
  let u := promptRun .least (.numbered false) writeTwo r
  have hfair : Fair .least (.numbered false) r u := promptRun_fair h0.hps
  have hsends := @promptRun_sends .least (.numbered false) writeTwo r
  obtain ⟨t, hrun, htally, hq, hw, hreq⟩ := hfair.requests_all h0 rfl hsends rfl rfl
  have hcmd := (htally.taken (by rw [hq]; decide)).2
  have htlen : (r.run .least (.numbered false) u t).sys.tgt.cmdTlen = 2 := by
    simp [State.cmdTlen, State.cmdGroup, State.opCode, State.tlen6, hcmd 0 (by omega) (by omega),
      hcmd 4 (by omega) (by omega), writeTwo]
  rw [htlen] at hreq
  -- the second request
  obtain ⟨k, hk, hone, hraise⟩ := exists_request (j := 1) (by rw [hreq]; omega)
  have hrunk := hrun.upTo (Nat.le_of_lt hk)
  obtain ⟨hreck, hwk⟩ := hrunk.receives_of_requests h0 rfl hsends rfl (by omega)
  have hstate := hrunk.writeState h0.toCommanded k
  rw [hone] at hstate
  obtain ⟨hst, hi⟩ := hstate.receives hreck hwk
  obtain ⟨hclosed, -, -⟩ := hst.issue (hrunk.polite k (Nat.le_refl k)) hraise
  -- its first window is not counted, so that `lba` still names the first sector
  have hclaim := ((hall _ _ _ _ _ hreach h0.toCommanded hrunk hreck hwk).request hraise).1
  rw [hone, Rig.run_succ] at hclaim
  have hlba := hst.inv.toFlush.lba_next (P := .least) (E := .numbered false) (b := (u k).bus)
    (m := (u k).hps)
  rw [← hclosed, ← hi, hfl, Bool.toNat_true] at hlba
  have hsame := hlba.symm.trans hclaim
  omega

end Scsi
