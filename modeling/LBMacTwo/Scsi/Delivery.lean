import LBMacTwo.Scsi.Initiator

/-!
# READ delivers the image

A polite initiator that runs a READ takes the bytes of the disk in order, whatever the HPS does
with its requests, as long as every window it answers with is full
(`read_delivers`). A window that closes short is not counted as a sector, but `lba` is moved on all
the same, so the sector is asked for again under the next address (`read_after_short_ack`).
-/

namespace Scsi

open Clocked (scan loopStream)

variable {P : Params} {E : Env} {L n i : ℕ} {r : Rig} {k : Tick}

/-- A byte of the data phase of a READ is taken. -/
def Rig.takesByte (r : Rig) (k : Tick) : Bool := r.sys.tgt.phase == .dataOut && r.rise k

/-- A READ in its data phase, of which the initiator has taken `i` bytes. -/
structure Serving (P : Params) (E : Env) (L n i : ℕ) (r : Rig) : Prop where
  inv : RdInv P E L n r.sys
  shake : Shake r
  taken : i = r.sys.tgt.dataCnt + r.sys.tgt.oldAck.toNat + r.sys.tgt.stbAdv.toNat
  lanes : r.settle ≤ 1 → ∀ j < 4, (r.sys.tgt.dataCnt + j) / 512 < r.sys.tgt.rdHpsBlk →
    readLane r.sys.tgt j = E.readByte L (r.sys.tgt.dataCnt + j)

theorem req_dataOut {s : State} {io : Bool} (hp : s.phase = .dataOut) (hr : s.cmdRead = true)
    (h : req s false io = true) : s.dataCnt < 512 * s.rdHpsBlk ∧ s.dataDone = false := by
  simp [req, ioBusy, hp, hr, State.dataPhaseComplete, State.rdCurBlk] at h
  have := of_decide_eq_false h.1
  exact ⟨by omega, h.2⟩

namespace Serving

theorem rdOk (h : Serving P E L n i r) (hp : Polite r k)
    (hf : r.sys.hps.closesShort E k.hps = false) : RdOk E r.sys k.bus k.hps := by
  refine ⟨⟨hp.rst, hf⟩, fun ha ho => ?_⟩
  obtain ⟨hs, hr⟩ := hp.ack (by simp [Rig.rise, ha, ho])
  rw [(h.shake.settled (by omega)).2.1]
  exact (req_dataOut h.inv.dataOut h.inv.read hr).1

theorem step (h : Serving P E L n i r) (hp : Polite r k)
    (hf : r.sys.hps.closesShort E k.hps = false)
    (hd : (r.step P E k).sys.tgt.phase = .dataOut) :
    Serving P E L n (i + (r.takesByte k).toNat) (r.step P E k) := by
  have hcnt := h.inv.dataCnt_next (b := k.bus) (m := k.hps)
  refine ⟨h.inv.step (h.rdOk hp hf) hd, h.shake.step, ?_, fun hs j hj hlt => ?_⟩
  · rw [h.taken, Rig.takesByte, h.inv.dataOut, Rig.rise, Rig.oldAck_step, Rig.stbAdv_step]
    rw [show (r.step P E k).sys.tgt.dataCnt = _ from hcnt]
    cases r.sys.tgt.oldAck <;> cases k.bus.ack <;> simp <;> omega
  · have hset : r.settle ≤ 2 := by
      cases ha : k.bus.ack
      · have : (r.step P E k).settle = r.settle - 1 := by simp [Rig.step, ha]
        omega
      · have : (r.step P E k).settle = 4 := by simp [Rig.step, ha]
        omega
    have hadv := (h.shake.settled hset).2.1
    rw [hadv, Bool.toNat_false, Nat.add_zero] at hcnt
    have hcnt' : (r.step P E k).sys.tgt.dataCnt = r.sys.tgt.dataCnt := hcnt
    rw [hcnt'] at hlt ⊢
    exact h.inv.lane_next hadv hj hlt

/-- The first clock of the data phase. -/
theorem of_commanded (h : Commanded r) (hfl : r.sys.tgt.rdFlushPending = false)
    (hp : Polite r k) (hn : (r.step P E k).sys.tgt.tlen ≠ 0)
    (hr : (r.step P E k).sys.tgt.cmdRead = true)
    (hd : (r.step P E k).sys.tgt.phase = .dataOut) :
    Serving P E (r.step P E k).sys.tgt.cmdLba (r.step P E k).sys.tgt.cmdTlen 0 (r.step P E k) := by
  obtain ⟨-, -, hlba, htlen, hadv, hack⟩ := h.accept hp (by rw [hd]; decide)
  have hfresh : Fresh (r.step P E k).sys.tgt := h.fresh.step (by rw [h.phase]; rfl)
  have hinv : RdInv P E (r.step P E k).sys.tgt.cmdLba (r.step P E k).sys.tgt.cmdTlen
      (r.step P E k).sys := by
    exact .of_fresh hfresh hd hr h.hps_step h.ioAck_eq ((h.flush_step hp.rst).trans hfl) hlba htlen
      (by omega) hadv hack
  refine ⟨hinv, h.shake.step, ?_, fun _ j hj hlt => ?_⟩
  · rw [hfresh.dataCnt, hadv, hack]
    rfl
  · rw [hfresh.rdHpsBlk] at hlt
    exact absurd hlt (by omega)

end Serving

/-! ### The whole command -/

/-- Where a rig stands in a command that may be a READ, after `i` bytes of its data phase. -/
structure ReadState (P : Params) (E : Env) (i : ℕ) (r : Rig) : Prop where
  cmdIn : r.sys.tgt.phase = .cmdIn →
    Commanded r ∧ r.sys.tgt.rdFlushPending = false ∧ i = 0
  dataOut : r.sys.tgt.phase = .dataOut → r.sys.tgt.cmdRead = true → r.sys.tgt.tlen ≠ 0 →
    Serving P E r.sys.tgt.cmdLba r.sys.tgt.cmdTlen i r

theorem ReadState.step (h : ReadState P E i r) (hb : r.sys.tgt.phase ≠ .idle) (hp : Polite r k)
    (hf : r.sys.hps.closesShort E k.hps = false) :
    ReadState P E (i + (r.takesByte k).toNat) (r.step P E k) := by
  have hcmdIn : r.sys.tgt.phase = .cmdIn → i + (r.takesByte k).toNat = 0 := fun hq => by
    rw [(h.cmdIn hq).2.2, Rig.takesByte, hq]
    rfl
  constructor
  · intro hc
    have hq := phase_of_cmdIn_next hb hc
    obtain ⟨hcom, hfl, -⟩ := h.cmdIn hq
    exact ⟨hcom.step hp hc, (hcom.flush_step hp.rst).trans hfl, hcmdIn hq⟩
  · intro hd hr hn
    rcases phase_of_dataOut_next hd with hq | hq
    · rw [hcmdIn hq]
      exact .of_commanded (h.cmdIn hq).1 (h.cmdIn hq).2.1 hp hn hr hd
    · have hne : r.sys.tgt.phase ≠ .cmdIn := by rw [hq]; decide
      have hcmd : (r.step P E k).sys.tgt.cmd = r.sys.tgt.cmd := cmd_next hne
      have htlen : (r.step P E k).sys.tgt.tlen = r.sys.tgt.tlen := tlen_next hne
      rw [cmdRead_congr hcmd] at hr
      rw [htlen] at hn
      rw [cmdLba_congr hcmd, cmdTlen_congr hcmd]
      exact (h.dataOut hq hr hn).step hp hf hd

/-- Bytes of the data phase taken before clock `t`. -/
def bytesTaken (P : Params) (E : Env) (r : Rig) (u : ℕ → Tick) (t : ℕ) : ℕ :=
  Nat.count (fun k => (r.run P E u k).takesByte (u k) = true) t

theorem bytesTaken_succ (r : Rig) (u : ℕ → Tick) (t : ℕ) : bytesTaken P E r u (t + 1) =
    bytesTaken P E r u t + ((r.run P E u t).takesByte (u t)).toNat := by
  rw [bytesTaken, Nat.count_succ, bytesTaken]
  cases (r.run P E u t).takesByte (u t) <;> rfl

/-- No read window closes short before clock `t`. -/
def FullWindows (P : Params) (E : Env) (r : Rig) (u : ℕ → Tick) (t : ℕ) : Prop :=
  ∀ k < t, (r.run P E u k).sys.hps.closesShort E (u k).hps = false

theorem CommandRun.readState {u : ℕ → Tick} (h0 : Commanded r)
    (hfl : r.sys.tgt.rdFlushPending = false) (t : ℕ) (h : CommandRun P E r u t) (hf : FullWindows P E r u t) :
    ReadState P E (bytesTaken P E r u t) (r.run P E u t) := by
  induction t with
  | zero =>
    exact ⟨fun _ => ⟨h0, hfl, rfl⟩, fun hd => by rw [Rig.run_zero, h0.phase] at hd; cases hd⟩
  | succ t ih =>
    rw [bytesTaken_succ, Rig.run_succ]
    have hq := ih (h.upTo (by omega)) fun k hk => hf k (by omega)
    exact hq.step (h.busy t (by omega)) (h.polite t (by omega)) (hf t (by omega))

/-- The byte on `dout` at the `i`-th `ack` of the data phase is byte `i` of the sectors asked for. -/
theorem read_delivers {u : ℕ → Tick} {t : ℕ} (h0 : Commanded r)
    (hfl : r.sys.tgt.rdFlushPending = false) (h : CommandRun P E r u t)
    (hf : FullWindows P E r u t) (hread : (r.run P E u t).sys.tgt.cmdRead = true)
    (hack : (r.run P E u t).takesByte (u t) = true) :
    bytesTaken P E r u t < 512 * (r.run P E u t).sys.tgt.cmdTlen ∧
    dout P (r.run P E u t).sys.tgt =
      E.readByte (r.run P E u t).sys.tgt.cmdLba (bytesTaken P E r u t) := by
  have hserve := (h.readState h0 hfl t hf).dataOut
  have hp := h.polite t (Nat.le_refl t)
  generalize r.run P E u t = q at *
  rw [Rig.takesByte, Bool.and_eq_true, beq_iff_eq] at hack
  obtain ⟨hd, hrise⟩ := hack
  obtain ⟨hs, hreq⟩ := hp.ack hrise
  obtain ⟨hlt, hdone⟩ := req_dataOut hd hread hreq
  have hn : q.sys.tgt.tlen ≠ 0 := fun hn => by
    simp [State.dataDone, q.sys.tgt.dataLen_of_read hread, hn] at hdone
  have hsv := hserve hd hread hn
  obtain ⟨hoa, hadv, -⟩ := hsv.shake.settled (by omega)
  have htaken := hsv.taken
  simp only [hoa, hadv, Bool.toNat_false, Nat.add_zero] at htaken
  have hle := hsv.inv.le_total
  refine ⟨by omega, ?_⟩
  rw [dout_eq_lane hd hread, hsv.lanes (by omega) 0 (by omega) (by omega), htaken]
  rfl

/-- READ(6) of sector 5. -/
def readSector5 : ℕ → Byte
  | 0 => 0x08
  | 3 => 5
  | 4 => 1
  | _ => 0

theorem read_delivers_sector5 : ∃ (u : ℕ → Tick) (t : ℕ),
    (Rig.selected.run .least (.numbered false) u t).takesByte (u t) = true ∧
    dout .least (Rig.selected.run .least (.numbered false) u t).sys.tgt =
      (Env.numbered false).readByte 5 (bytesTaken .least (.numbered false) .selected u t) := by
  have hscan : scan (Rig.step .least (.numbered false))
      (fun _ => Rig.answer readSector5 (Rig.serve fun _ => false))
      (fun r k => r.inCommand k && true)
      (fun r => r.inCommand (r.answer readSector5 (Rig.serve fun _ => false)) &&
        (r.sys.tgt.cmdRead && r.takesByte (r.answer readSector5 (Rig.serve fun _ => false)) &&
          r.sys.tgt.cmdLba == 5))
      289 0 .selected = true := by
    decide +kernel
  obtain ⟨hrun, -, hlast, hfin⟩ := CommandRun.of_scan hscan
  simp only [Bool.and_eq_true, beq_iff_eq] at hfin
  obtain ⟨⟨hread, htakes⟩, hlba⟩ := hfin
  rw [← hlast] at htakes
  have hbyte := (read_delivers .selected rfl hrun
    (fun k _ => Hps.closesShort_of_full rfl _ _) hread htakes).2
  rw [hlba] at hbyte
  exact ⟨_, _, htakes, hbyte⟩

/-! ### A window that closes short -/

/-- The first byte a READ of sector 5 takes can be that of sector 6. -/
theorem read_after_short_ack : ¬ ∀ (P : Params) (E : Env) (r : Rig) (u : ℕ → Tick) (t : ℕ),
    Commanded r → r.sys.tgt.rdFlushPending = false → CommandRun P E r u t → (r.run P E u t).sys.tgt.cmdRead = true →
    (r.run P E u t).takesByte (u t) = true →
    dout P (r.run P E u t).sys.tgt =
      E.readByte (r.run P E u t).sys.tgt.cmdLba (bytesTaken P E r u t) := by
  intro hall
  have hscan : scan (Rig.step .least (.numbered true))
      (fun _ => Rig.answer readSector5 (Rig.serve (· == 5)))
      (fun r k => r.inCommand k && !r.takesByte k)
      (fun r => r.inCommand (r.answer readSector5 (Rig.serve (· == 5))) &&
        (r.sys.tgt.cmdRead && r.takesByte (r.answer readSector5 (Rig.serve (· == 5))) &&
          r.sys.tgt.cmdLba == 5 && dout .least r.sys.tgt == 6))
      294 0 .selected = true := by
    decide +kernel
  obtain ⟨hrun, hnone, hlast, hfin⟩ := CommandRun.of_scan hscan
  simp only [Bool.and_eq_true, beq_iff_eq] at hfin
  obtain ⟨⟨⟨hread, htakes⟩, hlba⟩, hdout⟩ := hfin
  have hcount : bytesTaken .least (.numbered true) .selected
      (loopStream (Rig.step .least (.numbered true))
        (fun _ => Rig.answer readSector5 (Rig.serve (· == 5))) .selected) 294 = 0 :=
    Nat.count_iff_forall_not.mpr fun k hk => by
      rw [Bool.not_eq_true, ← Bool.not_eq_true']
      exact hnone k hk
  have hbyte := hall _ _ _ _ _ .selected rfl hrun hread (by rw [hlast]; exact htakes)
  rw [hcount, hlba, hdout] at hbyte
  exact absurd hbyte (by decide)

end Scsi
