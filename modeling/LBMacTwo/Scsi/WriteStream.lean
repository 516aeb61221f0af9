import LBMacTwo.Scsi.Staging

/-!
# Pseudo-DMA writes

What a host sends by DACK cycles, as the HPS reads it back block by block.

* `Streams`: the invariant of a WRITE that is sent by accesses;
* `StreamedAt`, `write_stream`: the half-buffers hold the stream, and every block is flushed once,
  in order and with its own bytes;
* `odd_word`: the second byte of a word sent at an odd offset is lost.
-/

namespace Scsi

open Clocked (scan loop loopStream run_of_scan run_loopStream)

variable {P : Params} {E : Env} {L n c : ℕ} {r : Rig} {b : Bench} {w : Writer} {k : Beat}

/-! ### Runs of writes -/

/-- A WRITE of `n` blocks from `L` that is sent by accesses, with `c` of its blocks flushed. -/
structure Streams (L n c : ℕ) (w : Writer) : Prop where
  train : Train true w.bench
  inv : WrInv L n c false false w.bench.chip.sys
  strobes : Moves true w.bench → Strobes w.bench
  kept : Kept c w
  state : (Moves true w.bench ∧ Fills L n c false w.bench ∧ w.sent.length = w.bench.chip.lead ∧
      Holds w ∧ Stage w) ∨
    (Over w.bench ∧ w.bench.chip.sys.tgt.dataCnt = 512 * n ∧ 512 * n ≤ w.sent.length ∧
      ∀ q < 2, w.bench.chip.sys.tgt.laneWr q = false)

namespace Streams

/-- An access that does not hurry fits. -/
theorem fitting (h : Streams L n c w) (ho : Obeys true w.bench k) (hu : Unhurried w k) :
    Fitting w.bench k := by
  intro a hs
  obtain ⟨hk, -, hdreq, hdata⟩ := hs
  obtain ⟨hq, hreq⟩ := Chip.dreq_spec hdreq
  rcases h.state with ⟨hm, -, hlen, -, -⟩ | ⟨hover, -⟩
  · have hp : w.bench.chip.sys.tgt.phase = .dataIn := hm.phase
    have hle := hm.le
    rw [h.train.lead_of_quiet hq] at hlen hle
    have hdone := (req_dataIn hp hreq).1
    rw [hm.counted.dataDone_eq hle, decide_eq_false_iff_not] at hdone
    have hdl := h.inv.dataLen_eq
    have hw := ho.write a hk
    have heven := hu.even a hk
    have hfit : w.bench.chip.sys.tgt.dataCnt % 512 + a.bytes ≤ 512 ∧
        w.bench.chip.sys.tgt.dataCnt + a.bytes ≤ w.bench.chip.sys.tgt.dataLen := by
      by_cases hb : a.width = .byte
      · have h1 : a.bytes = 1 := by simp [Access.bytes, hb]
        omega
      · have h2 : a.bytes = 2 := by
          cases hx : a.width <;> simp [Access.bytes, hx, hw] at hb ⊢
        have := heven hb
        omega
    exact ⟨hfit.2, fun hc => by omega, fun hc => by omega⟩
  · rw [hover.phase] at hdata
    simp at hdata

theorem ended_length (h : Moves true w.bench) (ht : Train true w.bench)
    (ho : Obeys true w.bench k) (hlen : w.sent.length = w.bench.chip.lead) :
    (w.step P E k).sent.length = (w.step P E k).bench.chip.lead := by
  change (w.sent ++ (w.bench.ends k).elim [] Access.sends).length = (w.bench.step P E k).chip.lead
  rw [h.lead_next ht ho, List.length_append, hlen]
  cases he : w.bench.ends k with
  | none => rfl
  | some a =>
    rw [Option.elim, Option.elim, Access.length_sends (ht.write a (ht.ends_spec ho he).1)]

theorem step (h : Streams L n c w) (ho : Obeys true w.bench k) (hu : Unhurried w k) :
    Streams L n (c + w.bench.chip.sys.fall.toNat) (w.step P E k) := by
  have ht := h.train
  have hf := h.fitting ho hu
  rcases h.state with ⟨hm, hfill, hlen, hh, hst⟩ | ⟨hover, hcnt, hle, hlane⟩
  · have hstrobes := h.strobes hm
    have hstage : Stage (w.step P E k) := by
      cases he : w.bench.ends k with
      | none => exact hst.step_none hh ht hm ho hu hlen hstrobes.ack he
      | some a =>
        have hq := (Bench.pulse_of_ends (P := P) (E := E) ht hm ho he).1
        exact .of_ends hh ht hm ho hu hlen (hst.beat_of_rest hq)
          (hstrobes.ack.trans (Stage.pulse_eq hq).2.2.1) he
    have hstrobes' := hstrobes.step (P := P) (E := E) (k := k) ht hm
    have hkept' := h.kept.step (P := P) (E := E) (k := k) hst hstrobes ht hm hlen h.inv
    have hlen' := ended_length (P := P) (E := E) hm ht ho hlen
    by_cases hd : (w.bench.step P E k).chip.sys.tgt.phase = .dataIn
    · have hfill' := hfill.step (P := P) (E := E) hm ht ho hf hd
      exact ⟨ht.step ho, hfill'.inv, fun _ => hstrobes', hkept', .inl ⟨hm.step ht ho hf hd, hfill',
        hlen', hh.step ht ho hu, hstage⟩⟩
    · have hover : Over (w.bench.step P E k) := hm.ended ht ho hd
      have hcnt := hm.cnt_of_ended ht hd
      have hinv := h.inv.step (hfill.wrOk (P := P) (k := k) hm ht)
        (show (w.bench.step P E k).chip.sys.tgt.phase.receives = true by rw [hover.phase]; rfl)
      refine ⟨ht.step ho, hinv, fun hm' => absurd hm'.phase hd, hkept', .inr ⟨hover, ?_, ?_, ?_⟩⟩
      · rw [← h.inv.dataLen_eq]
        exact hcnt
      · have hlead :
            (w.bench.step P E k).chip.sys.tgt.dataCnt ≤ (w.bench.step P E k).chip.lead := by
          rw [Chip.lead]
          omega
        rw [hlen', ← h.inv.dataLen_eq, ← hcnt]
        exact hlead
      · intro q hq
        change (w.bench.step P E k).chip.sys.tgt.laneWr q = false
        rw [hstrobes'.lane q hq, hover.still.2.2.2, Bool.false_and]
  · have hover' := hover.step (P := P) (E := E) (k := k) ht
    have hack : (w.bench.chip.bus P k.clock).ack = false :=
      ht.armed.scsiAck.trans hover.still.1
    have hinv := h.inv.step (E := E) (m := k.hps) (b := w.bench.chip.bus P k.clock)
      ⟨ht.armed.rst, fun _ ha => (by rw [hack] at ha; cases ha),
        fun _ ha => (by rw [hack] at ha; cases ha)⟩
      (show (w.bench.step P E k).chip.sys.tgt.phase.receives = true by rw [hover'.phase]; rfl)
    have hsame : (w.bench.step P E k).chip.sys.tgt.dataCnt = w.bench.chip.sys.tgt.dataCnt := by
      change dataCntNext w.bench.chip.sys.tgt = _
      simp [dataCntNext, hover.phase, Phase.transfers, hover.still]
    refine ⟨ht.step ho, hinv, fun hm' => ?_, fun p hp hc => ?_, .inr ⟨hover', ?_, ?_, ?_⟩⟩
    · cases hover'.phase.symm.trans hm'.phase
    · have hp : p < w.bench.chip.sys.tgt.dataCnt := by rw [← hsame]; exact hp
      change ((w.bench.step P E k).chip.sys.tgt.lane (p % 2)).ramAb (p / 2 % 512) = _
      rw [Bench.lane_step _ h.inv.toFlush.noFill, hlane _ (Nat.mod_lt _ (by decide)), store_false,
        Writer.byte_step (by omega)]
      exact h.kept p hp (by omega)
    · exact hsame.trans hcnt
    · change 512 * n ≤ (w.sent ++ _).length
      rw [List.length_append]
      omega
    · intro q hq
      unfold State.laneWr
      split_ifs <;> simp [Bench.step, Chip.step, Sys.step, Scsi.step, Writer.step, buffer0WrNext,
        buffer1WrNext, hover.phase]

end Streams

/-! ### The start of the data phase -/

/-- No second pulse is expected before the first byte. -/
theorem CommandRun.wmBeat2_eq {v : ℕ → Tick} (h0 : Commanded r) (t : ℕ) (h : CommandRun P E r v t)
    (hp : (r.run P E v t).sys.tgt.phase = .dataIn)
    (hz : (r.run P E v t).sys.tgt.dataCnt + (r.run P E v t).underWay = 0) :
    (r.run P E v t).sys.tgt.wmBeat2 = false := by
  induction t with
  | zero =>
    rw [Rig.run_zero, h0.phase] at hp
    cases hp
  | succ t ih =>
    rw [Rig.run_succ] at hp hz ⊢
    have hr : (v t).bus.rst = false := (h.polite t (by omega)).rst
    rcases phase_of_dataIn_next hp with hq | hq
    · simp [Rig.step, Sys.step, Scsi.step, wmBeat2Next, hq]
    · have hload := (h.upTo (show t ≤ t + 1 by omega)).loadState h0 t
      have hdata := hload.data (.inr hq)
      have hle := hdata.le
      have hway := Rig.underWay_step (P := P) (E := E) (r := r.run P E v t) (k := v t)
      have hcnt : ((r.run P E v t).step P E (v t)).sys.tgt.dataCnt = _ :=
        (hdata.counted.step (P := P) (i := (r.run P E v t).sys.input E (v t).bus (v t).hps)
          (.inr hq) fun hadv => by
            rw [Rig.underWay, hadv, Bool.toNat_true] at hle
            omega).2
      have hzero : (r.run P E v t).sys.tgt.dataCnt + (r.run P E v t).underWay = 0 := by omega
      have hold : (r.run P E v t).sys.tgt.oldAck.toNat = 0 := by
        rw [Rig.underWay] at hzero
        omega
      have hstb : (r.run P E v t).sys.tgt.stbAck = false := Bool.eq_false_iff.mpr fun hs => by
        rw [hload.shake.str hs] at hold
        cases hold
      have hbeat := ih (h.upTo (by omega)) hq hzero
      simp [Rig.step, Sys.step, Scsi.step, wmBeat2Next, Sys.input, hq, hstb, hbeat]

theorem Streams.of_poised {v : ℕ → Tick} {t : ℕ} (h0 : Commanded r)
    (hfl : r.sys.tgt.rdFlushPending = false) (hsel : r.sys.tgt.sdBuffSel = false)
    (hrun : CommandRun P E r v t) (hp : Poised true b) (hwr : b.chip.ncr.dmaWr = false)
    (hb : b.chip.rig = r.run P E v t) (hd : b.chip.sys.tgt.phase = .dataIn)
    (hw : b.chip.sys.tgt.cmdWrite = true) (hz : b.chip.sys.tgt.dataCnt = 0) :
    Streams b.chip.sys.tgt.cmdLba b.chip.sys.tgt.cmdTlen 0 (.start b) := by
  have hcar := Carried.of_poised h0 hsel hrun hp hb hd
  have ht := hcar.train
  have hlead := ht.lead_of_quiet hp.quiet
  obtain ⟨h1, h2, h3⟩ := not_busy hp.quiet
  obtain ⟨hold, hadv, hack⟩ := ht.shake.settled (show b.chip.ncr.dmaSettle ≤ 2 by omega)
  have hm : Moves true b := (hcar.state.resolve_right fun hover => by
    cases hd.symm.trans hover.phase).1
  have hstate := (hrun.writeState h0 t).receives
  have hbeat := hrun.wmBeat2_eq h0 t
  rw [← hb] at hstate hbeat
  have hzero : b.chip.rig.sys.tgt.dataCnt + b.chip.rig.underWay = 0 := by
    change b.chip.sys.tgt.dataCnt + (b.chip.sys.tgt.oldAck.toNat + b.chip.sys.tgt.stbAdv.toNat) = 0
    rw [hz, hold, hadv]
    rfl
  obtain ⟨hst, -⟩ := hstate (by rw [show b.chip.rig.sys.tgt.phase = .dataIn from hd]; rfl) hw
  have hinv := hst.inv
  rw [hfl, hsel] at hinv
  have hc : closes P E r v t = 0 := by
    have hcnt := hinv.cnt
    rw [State.blocks, if_pos (show b.chip.rig.sys.tgt.phase = .dataIn from hd),
      show b.chip.rig.sys.tgt.dataCnt = 0 from hz] at hcnt
    omega
  rw [hc] at hinv
  have hstore : ∀ q < 2, b.chip.sys.tgt.laneWr q = false := fun q _ => by
    rw [Bool.eq_false_iff]
    intro hs
    have := (hcar.store (by
      unfold State.laneWr at hs
      split_ifs at hs
      · exact .inr hs
      · exact .inl hs)).2
    rw [hadv] at this
    cases this
  refine ⟨ht, hinv, fun _ => ⟨hack.trans hold.symm, fun q hq => ?_⟩, fun p hlt => ?_,
    .inl ⟨hm, ⟨hinv, fun he => ?_, ?_, ?_⟩, ?_, ⟨hwr, ?_, ?_, ?_⟩, .rest ?_ ?_⟩⟩
  · change b.chip.sys.tgt.laneWr q = (b.chip.sys.tgt.stbAdv && _)
    rw [hstore q hq, hadv, Bool.false_and]
  · rw [show (Writer.start b).bench.chip.sys.tgt.dataCnt = 0 from hz] at hlt
    omega
  · change b.chip.ncr.dmaSettle ≠ 0
    rw [show b.chip.ncr.dmaSettle = 2 from hst.edge he]
    decide
  · change b.chip.sys.tgt.dataCnt < b.chip.lead → _
    rw [hlead]
    omega
  · simp [Writer.start, hp.none]
  · change 0 = b.chip.lead
    rw [hlead, hz]
  · simp [Writer.start, hp.none]
  · simp [Writer.start, hp.none]
  · simp [Writer.start, hp.none]
  · change b.pulse = _
    rw [Bench.pulse, h1, h2, hold, hadv]
  · exact hbeat hd hzero

/-! ### Blocks flushed -/

/-- The windows of the HPS seen to close before clock `t`. -/
def Writer.flushes (P : Params) (E : Env) (w : Writer) (u : ℕ → Beat) (t : ℕ) : ℕ :=
  Nat.count (fun j => (w.run P E u j).bench.chip.sys.fall = true) t

theorem Writer.flushes_succ (w : Writer) (u : ℕ → Beat) (t : ℕ) : w.flushes P E u (t + 1) =
    w.flushes P E u t + (w.run P E u t).bench.chip.sys.fall.toNat := by
  rw [Writer.flushes, Nat.count_succ, Writer.flushes]
  cases (w.run P E u t).bench.chip.sys.fall <;> rfl

/-- The word of the half-buffer that is put on `sd_buff_din` for the address `a`. -/
def Writer.blockWord (w : Writer) (c a : ℕ) : Word :=
  pairWord (w.byte (512 * c + 2 * (a % 256) + 1)) (w.byte (512 * c + 2 * (a % 256)))

/-- What holds in a clock of a WRITE of `n` blocks from sector `L`, `c` of them flushed. -/
structure StreamedAt (P : Params) (E : Env) (L n c : ℕ) (w : Writer) (k : Beat) : Prop where
  /-- Every byte counted and not yet flushed is in its half-buffer. -/
  stored : Kept c w
  /-- Every block received is flushed, in flight or pending, and there are `n` of them. -/
  once : c + w.bench.chip.sys.inFlight.toNat + w.bench.chip.sys.tgt.wrPending.toNat +
    w.bench.chip.sys.tgt.wrEdge.toNat = w.bench.chip.sys.tgt.blocks n
  total : w.bench.chip.sys.tgt.blocks n ≤ n
  /-- A window is for the next sector, and presents the bytes of its block. -/
  flush : ∀ l j, w.bench.chip.sys.hps = .window .wr l j →
    l = (L + c) % 2 ^ 32 ∧ 512 * (c + 1) ≤ w.sent.length ∧
      (w.step P E k).bench.chip.sys.tgt.sdBuffDin = w.blockWord c (k.hps.addr)

theorem Bench.lane_qA (q : ℕ)
    (hf : hpsFillWr (b.chip.sys.input E (b.chip.bus P k.clock) k.hps) = false) :
    ((b.step P E k).chip.sys.tgt.lane q).qA = (b.chip.sys.tgt.lane q).ramAb
      (hpsAddr P b.chip.sys.tgt (b.chip.sys.input E (b.chip.bus P k.clock) k.hps)) := by
  unfold State.lane
  split_ifs
  · change (b.chip.sys.tgt.buffer1.step (buffer1In P b.chip.sys.tgt
      (b.chip.sys.input E (b.chip.bus P k.clock) k.hps))).qA = _
    simp only [Dpram.step, buffer1In, hf, Bool.false_eq_true, if_false]
  · change (b.chip.sys.tgt.buffer0.step (buffer0In P b.chip.sys.tgt
      (b.chip.sys.input E (b.chip.bus P k.clock) k.hps))).qA = _
    simp only [Dpram.step, buffer0In, hf, Bool.false_eq_true, if_false]

namespace Streams

/-- The bytes of the blocks received have been counted, and sent. -/
theorem counted (h : Streams L n c w) :
    512 * w.bench.chip.sys.tgt.blocks n ≤ w.bench.chip.sys.tgt.dataCnt ∧
      512 * w.bench.chip.sys.tgt.blocks n ≤ w.sent.length ∧
      w.bench.chip.sys.tgt.blocks n ≤ n := by
  rcases h.state with ⟨hm, -, hlen, -⟩ | ⟨hover, hcnt, hle, -⟩
  · have hp : w.bench.chip.sys.tgt.phase = .dataIn := hm.phase
    have := h.inv.cnt_le hp
    rw [State.blocks, if_pos hp, hlen, Chip.lead]
    omega
  · rw [State.blocks, if_neg (by rw [hover.phase]; decide)]
    omega

/-- A byte of the block in flight, as the HPS reads it. -/
theorem lane_qA (h : Streams L n c w) {l j : ℕ} (hh : w.bench.chip.sys.hps = .window .wr l j)
    {q : ℕ} (hq : q < 2) : ((w.step P E k).bench.chip.sys.tgt.lane q).qA =
      w.byte (512 * c + 2 * (k.hps.addr % 256) + q) := by
  have hin : w.bench.chip.sys.inFlight = true := by
    rw [Sys.inFlight, hh, Hps.ack_window, Bool.or_true, Bool.true_or]
  have hcnt := h.inv.cnt
  rw [hin, Bool.toNat_true] at hcnt
  have hle := h.counted.1
  have haddr : hpsAddr P w.bench.chip.sys.tgt
      (w.bench.chip.sys.input E (w.bench.chip.bus P k.clock) k.hps) =
        (c % 2) * 256 + k.hps.addr % 256 := by
    rw [hpsAddr, if_pos h.inv.write, hpsAddrWr, h.inv.sel, Bool.xor_false]
    simp only [Sys.input, hh, Hps.addr]
    rcases Nat.mod_two_eq_zero_or_one c with hc | hc <;> simp [hc]
  have hk := h.kept (512 * c + 2 * (k.hps.addr % 256) + q) (by omega) (by omega)
  change ((w.bench.step P E k).chip.sys.tgt.lane q).qA = _
  rw [Bench.lane_qA q h.inv.toFlush.noFill, haddr, ← hk]
  congr 2 <;> omega

theorem streamedAt (h : Streams L n c w) : StreamedAt P E L n c w k := by
  refine ⟨h.kept, h.inv.cnt, h.counted.2.2, fun l j hh => ⟨?_, ?_, ?_⟩⟩
  · have he := h.inv.engine
    rw [hh] at he
    cases he
    exact h.inv.lba
  · have hcnt := h.inv.cnt
    have hle := h.counted.2.1
    rw [Sys.inFlight, hh, Hps.ack_window, Bool.or_true, Bool.true_or, Bool.toNat_true] at hcnt
    omega
  · exact congrArg₂ pairWord (h.lane_qA hh (show 1 < 2 by decide))
      (h.lane_qA hh (show 0 < 2 by decide))

theorem run {u : ℕ → Beat} (h : Streams L n c w)
    (ho : ∀ t, Obeys true (w.run P E u t).bench (u t)) (hu : ∀ t, Unhurried (w.run P E u t) (u t))
    (t : ℕ) : Streams L n (c + w.flushes P E u t) (w.run P E u t) := by
  induction t with
  | zero => exact h
  | succ t ih =>
    rw [Writer.flushes_succ, ← Nat.add_assoc, Writer.run_succ]
    exact ih.step (ho t) (hu t)

end Streams

/-! ### The last flush -/

/-- How far the pulses of the last bytes are from the target. -/
def Bench.pulseRank (b : Bench) : ℕ :=
  4 * b.chip.ncr.dmaAckHoldoff + 3 * b.chip.ncr.dmaAck.toNat + 2 * b.chip.sys.tgt.oldAck.toNat +
    b.chip.sys.tgt.stbAdv.toNat

theorem Bench.pulseRank_step (ht : Train true b) (ho : Obeys true b k) (he : b.ends k = none)
    (h0 : b.pulseRank ≠ 0) : (b.step P E k).pulseRank < b.pulseRank := by
  obtain ⟨h1, h2, h3, h4⟩ := Stage.pulse_eq (Bench.pulse_of_none (P := P) (E := E) ht ho he)
  dsimp only at h1 h2 h3 h4
  rw [Bench.pulseRank] at h0
  rw [Bench.pulseRank, Bench.pulseRank, h1, h2, h3, h4]
  have hodd : (b.chip.ncr.dmaAckHoldoff % 2 == 1).toNat = b.chip.ncr.dmaAckHoldoff % 2 := by
    rcases Nat.mod_two_eq_zero_or_one b.chip.ncr.dmaAckHoldoff with hmod | hmod
    · rw [hmod]
      rfl
    · rw [hmod]
      rfl
  have hle : (b.chip.sys.tgt.oldAck && !b.chip.ncr.dmaAck).toNat ≤ b.chip.sys.tgt.oldAck.toNat := by
    cases b.chip.sys.tgt.oldAck <;> cases b.chip.ncr.dmaAck <;> decide
  rw [hodd]
  omega

/-- Once all bytes are sent, the pulses run out and the data phase ends. -/
theorem Streams.over_or_rank (h : Streams L n c w)
    (hs : Streams L n (c + w.bench.chip.sys.fall.toNat) (w.step P E k))
    (ho : Obeys true w.bench k) (hlen : 512 * n ≤ w.sent.length) :
    Over w.bench ∨ Over (w.step P E k).bench ∨
      (w.step P E k).bench.pulseRank < w.bench.pulseRank := by
  rcases h.state with ⟨hm, -, hlead, -⟩ | ⟨hover, -⟩
  · right
    have ht := h.train
    have hdl := h.inv.dataLen_eq
    have hends := hm.ends_le ht ho
    have hzero : (w.bench.ends k).elim 0 Access.bytes = 0 := by omega
    have he : w.bench.ends k = none := by
      by_contra hne
      obtain ⟨a, ha⟩ := Option.ne_none_iff_exists'.mp hne
      have hw := ht.write a (ht.ends_spec ho ha).1
      rw [ha] at hzero
      cases hx : a.width <;> simp [Access.bytes, hx, hw] at hzero
    by_cases h0 : w.bench.pulseRank = 0
    · left
      have hcnt : w.bench.chip.sys.tgt.dataCnt = w.bench.chip.lead := by
        rw [Bench.pulseRank] at h0
        rw [Chip.lead]
        omega
      have hle := hm.le
      have hdone : w.bench.chip.sys.tgt.dataDone = true := by
        rw [hm.counted.dataDone_eq (by omega), decide_eq_true_eq]
        omega
      have hph : (w.bench.step P E k).chip.sys.tgt.phase = _ :=
        phase_data (P := P) (i := w.bench.chip.sys.input E (w.bench.chip.bus P k.clock) k.hps)
          ht.armed.rst hm.data
      rw [if_pos hdone] at hph
      exact (hs.state.resolve_left fun hx => by cases hx.1.phase.symm.trans hph).1
    · exact .inr (Bench.pulseRank_step ht ho he h0)
  · exact .inl hover

/-- An HPS that moves works on a request. -/
theorem Flush.moves {lag odd : Bool} {x : Sys} {d : Bus} {m : HpsMove} (h : Flush L n c lag odd x)
    (hg : m.go = true) : x.hpsIdle = true ∨ (x.step P E d m).hps ≠ x.hps := by
  have he := h.engine
  have hnr := h.noRd.1
  generalize hh : x.hps = hps at he
  cases he with
  | rest | closing =>
    cases hw : x.tgt.ioWr
    · left
      simp [Sys.hpsIdle, hh, hnr, hw]
    · right
      simp [Sys.step, Hps.step, hh, hg, hnr, hw]
  | posted | window =>
    right
    simp [Sys.step, Hps.step, hh, hg]

theorem Writer.sent_le (u : ℕ → Beat) (t d : ℕ) :
    (w.run P E u t).sent.length ≤ (w.run P E u (t + d)).sent.length := by
  induction d with
  | zero => exact Nat.le_refl _
  | succ d ih =>
    refine ih.trans ?_
    change _ ≤ ((w.run P E u (t + d)).sent ++ _).length
    rw [List.length_append]
    omega

namespace Streams

variable {u : ℕ → Beat} (h : Streams L n 0 w)
  (ho : ∀ t, Obeys true (w.run P E u t).bench (u t)) (hu : ∀ t, Unhurried (w.run P E u t) (u t))
include h ho hu

theorem run_zero (t : ℕ) : Streams L n (w.flushes P E u t) (w.run P E u t) := by
  rw [← Nat.zero_add (w.flushes P E u t)]
  exact h.run ho hu t

/-- All blocks are flushed, by an HPS that goes on moving, once all bytes are sent. -/
theorem drained (hgo : ∀ t, ∃ t' ≥ t, (u t').hps.go = true) {T : ℕ}
    (hT : 512 * n ≤ (w.run P E u T).sent.length) : ∃ T', ∀ t ≥ T', w.flushes P E u t = n := by
  have hall := h.run_zero ho hu
  have hlen : ∀ t ≥ T, 512 * n ≤ (w.run P E u t).sent.length := fun t ht => by
    obtain ⟨d, rfl⟩ := Nat.exists_eq_add_of_le ht
    exact hT.trans (Writer.sent_le u T d)
  have hnext : ∀ t, Streams L n (w.flushes P E u t + (w.run P E u t).bench.chip.sys.fall.toNat)
      (w.run P E u (t + 1)) := fun t => by
    rw [← Writer.flushes_succ]
    exact hall (t + 1)
  obtain ⟨T₁, hT₁, hover⟩ := Progress.eventually_of_rank (T := T)
    (p := fun t => Over (w.run P E u t).bench) (f := fun t => (w.run P E u t).bench.pulseRank)
    (fun t ht hno => (((hall t).over_or_rank (hnext t) (ho t) (hlen t ht)).resolve_left
      hno).imp_right Nat.le_of_lt)
    (fun t ht => ⟨t, Nat.le_refl t, (hall t).over_or_rank (hnext t) (ho t) (hlen t ht)⟩)
  have hstay : ∀ t ≥ T₁, Over (w.run P E u t).bench := fun t ht =>
    Progress.invariant_from (p := fun t => Over (w.run P E u t).bench) hover
      (fun t _ hx => hx.step (hall t).train) ht
  have hreset : ∀ t, ((w.run P E u t).bench.chip.bus P (u t).clock).rst = false := fun t =>
    (hall t).train.armed.rst
  have hrec : ∀ t ≥ T₁, ((w.run P E u t).bench.step P E (u t)).chip.sys.tgt.phase.receives = true :=
    fun t ht => by
      rw [show ((w.run P E u t).bench.step P E (u t)).chip.sys.tgt.phase = .statusOut from
        (hstay (t + 1) (by omega)).phase]
      rfl
  have hrank : ∀ t ≥ T₁, (w.run P E u t).bench.chip.sys.drained = true ∨
      (w.run P E u (t + 1)).bench.chip.sys.flushRank ≤ (w.run P E u t).bench.chip.sys.flushRank ∧
      ((u t).hps.go = true → (w.run P E u (t + 1)).bench.chip.sys.flushRank <
        (w.run P E u t).bench.chip.sys.flushRank) := fun t ht =>
    ((hall t).inv.flushRank_step (P := P) (E := E) (m := (u t).hps) (hreset t)
      (hstay t ht).still.2.2.2 (hrec t ht)).imp_right fun hx =>
        ⟨hx.1, fun hg => hx.2 ((hall t).inv.toFlush.moves hg)⟩
  obtain ⟨T₂, hT₂, hdr⟩ := Progress.eventually_of_rank (T := T₁)
    (p := fun t => (w.run P E u t).bench.chip.sys.drained = true)
    (f := fun t => (w.run P E u t).bench.chip.sys.flushRank)
    (fun t ht hno => .inr ((hrank t ht).resolve_left hno).1)
    (fun t ht => by
      obtain ⟨t', ht', hg⟩ := hgo t
      rcases hrank t' (by omega) with hd | hd
      · exact ⟨t', ht', .inl hd⟩
      · exact ⟨t', ht', .inr (.inr (hd.2 hg))⟩)
  refine ⟨T₂, fun t ht => ?_⟩
  have hdrained : (w.run P E u t).bench.chip.sys.drained = true :=
    Progress.invariant_from (p := fun t => (w.run P E u t).bench.chip.sys.drained = true) hdr
      (fun t ht hx => (hall t).inv.drained_next (P := P) (E := E)
      (m := (u t).hps) (hreset t) (hstay t (by omega)).still.2.2.2 (hrec t (by omega)) hx) ht
  have hcnt := (hall t).inv.cnt
  rw [State.blocks, if_neg (by rw [(hstay t (by omega)).phase]; decide)] at hcnt
  simp only [Sys.drained, Bool.and_eq_true, Bool.not_eq_true'] at hdrained
  rw [hdrained.1.1, hdrained.1.2, hdrained.2] at hcnt
  exact hcnt

end Streams

/-- A WRITE from a clean target whose host does not hurry: the half-buffers hold the stream, every
block is flushed once and in order, and a flush presents the bytes of its block. -/
theorem write_stream {v : ℕ → Tick} {u : ℕ → Beat} {t₀ : ℕ} (h0 : Commanded r)
    (hfl : r.sys.tgt.rdFlushPending = false) (hsel : r.sys.tgt.sdBuffSel = false)
    (hrun : CommandRun P E r v t₀) (hp : Poised true b) (hwr : b.chip.ncr.dmaWr = false)
    (hb : b.chip.rig = r.run P E v t₀) (hd : b.chip.sys.tgt.phase = .dataIn)
    (hw : b.chip.sys.tgt.cmdWrite = true) (hz : b.chip.sys.tgt.dataCnt = 0)
    (ho : ∀ t, Obeys true ((Writer.start b).run P E u t).bench (u t))
    (hu : ∀ t, Unhurried ((Writer.start b).run P E u t) (u t)) :
    (∀ t, StreamedAt P E b.chip.sys.tgt.cmdLba b.chip.sys.tgt.cmdTlen
      ((Writer.start b).flushes P E u t) ((Writer.start b).run P E u t) (u t)) ∧
    ((∀ t, ∃ t' ≥ t, (u t').hps.go = true) →
      (∃ t, 512 * b.chip.sys.tgt.cmdTlen ≤ ((Writer.start b).run P E u t).sent.length) →
      ∃ T, ∀ t ≥ T, (Writer.start b).flushes P E u t = b.chip.sys.tgt.cmdTlen) := by
  have hstart := Streams.of_poised h0 hfl hsel hrun hp hwr hb hd hw hz
  exact ⟨fun t => (hstart.run_zero ho hu t).streamedAt,
    fun hgo ⟨_, hT⟩ => hstart.drained ho hu hgo hT⟩

/-! ### A byte and a word -/

instance (w : Writer) (k : Beat) : Decidable (Unhurried w k) :=
  decidable_of_iff ((w.began = true → k.acc ≠ none) ∧ (w.ended = true → k.acc = none) ∧
    (∀ a ∈ k.acc, a.width ≠ .byte → w.sent.length % 2 = 0))
    ⟨fun h => ⟨h.1, h.2.1, h.2.2⟩, fun h => ⟨h.lasts, h.gap, h.even⟩⟩

/-- The adapter set up for pseudo-DMA writes. -/
def Ncr.armedWrite : Ncr := { Ncr.init with mr := 0x02, icr := 1, tcr := 0, dmaEn := true }

/-- A rig taken over by a host that writes by DACK cycles. -/
def Rig.given (r : Rig) : Bench := ⟨⟨.armedWrite, r.sys⟩, none, false, false, 0⟩

theorem Armed.armedWrite : Armed true .armedWrite := by
  constructor <;> decide

theorem Rig.poised_given (r : Rig) : Poised true r.given :=
  ⟨.armedWrite, rfl, ⟨rfl, rfl, rfl⟩, rfl, rfl, rfl⟩

theorem Rig.rig_given {r : Rig} (h : r.settle = 0) : r.given.chip.rig = r := by
  rw [Chip.rig, show r.given.chip.ncr.dmaSettle = r.settle from h.symm]
  rfl

/-- WRITE(6) of one block to sector 0. -/
def writeOne : ℕ → Byte
  | 0 => 0x0a
  | 4 => 1
  | _ => 0

def sendWrite : Rig → Tick := Rig.answer writeOne (Rig.serve fun _ => false)

/-- The first clock in which a byte is asked for. -/
def Rig.asking : Rig := loop (Rig.step .least .counting) (fun _ => sendWrite) .selected 30

theorem CommandRun.asking : CommandRun .least .counting .selected
    (loopStream (Rig.step .least .counting) (fun _ => sendWrite) .selected) 30 ∧
    Rig.asking.given.chip.rig = Rig.selected.run .least .counting
      (loopStream (Rig.step .least .counting) (fun _ => sendWrite) .selected) 30 ∧
    Rig.asking.given.chip.sys.tgt.phase = .dataIn ∧
    Rig.asking.given.chip.sys.tgt.cmdWrite = true ∧
    Rig.asking.given.chip.sys.tgt.dataCnt = 0 := by
  have hscan : scan (Rig.step .least .counting) (fun _ => sendWrite)
      (fun r k => r.inCommand k && true)
      (fun r => r.inCommand (sendWrite r) && (r.sys.tgt.phase == .dataIn && r.settle == 0 &&
        r.sys.tgt.cmdWrite && r.sys.tgt.dataCnt == 0)) 30 0 .selected = true := by
    decide +kernel
  obtain ⟨hrun, -, -, hfin⟩ := CommandRun.of_scan hscan
  have hask : Rig.selected.run .least .counting (loopStream (Rig.step .least .counting)
      (fun _ => sendWrite) .selected) 30 = .asking := run_loopStream ..
  rw [hask] at hfin
  simp only [Bool.and_eq_true, beq_iff_eq] at hfin
  exact ⟨hrun, (Rig.rig_given hfin.1.1.2).trans hask.symm, hfin.1.1.1, hfin.1.2, hfin.2⟩

/-- An access of three clocks, and another one twelve clocks later. -/
def sendTwo (f s : Width) (t : ℕ) : Beat where
  acc := if t < 3 then some ⟨true, f, 0x0102⟩
    else if 12 ≤ t ∧ t < 15 then some ⟨true, s, 0x0102⟩ else none
  wdata := 0
  hps := ⟨false, false, 0, 0⟩

/-- After the accesses the host is at rest. -/
theorem sendTwo_rest (f s : Width) {p : Writer → Beat → Prop}
    (hrest : ∀ w k, k.acc = none → w.bench.acc = none → w.began = false → p w k)
    (h : ∀ t < 16, p ((Writer.start Rig.asking.given).run .least .counting (sendTwo f s) t)
      (sendTwo f s t)) (t : ℕ) :
    p ((Writer.start Rig.asking.given).run .least .counting (sendTwo f s) t) (sendTwo f s t) := by
  have hnone : ∀ j, 15 ≤ j → (sendTwo f s j).acc = none := fun j hj => by
    rw [sendTwo, if_neg (by omega), if_neg (by omega)]
  by_cases ht : t < 16
  · exact h t ht
  · obtain ⟨j, rfl⟩ := Nat.exists_eq_add_of_le' (show 1 ≤ t by omega)
    refine hrest _ _ (hnone _ (by omega)) (hnone j (by omega)) ?_
    change ((_ : Option Access).isNone && (sendTwo f s j).acc.isSome) = false
    rw [hnone j (by omega), Option.isSome_none, Bool.and_false]

theorem Obeys.rest {dir : Bool} (hk : k.acc = none) (hb : b.acc = none) : Obeys dir b k :=
  ⟨by simp [hb], by simp [hb], by simp [hk], by simp [hk]⟩

theorem write_stream_word :
    StreamedAt .least .counting 0 1
      ((Writer.start Rig.asking.given).flushes .least .counting (sendTwo .word .byte) 16)
      ((Writer.start Rig.asking.given).run .least .counting (sendTwo .word .byte) 16)
      (sendTwo .word .byte 16) := by
  have hscan : scan (Writer.step .least .counting) (fun t _ => sendTwo .word .byte t)
      (fun w k => decide (Obeys true w.bench k) && decide (Unhurried w k)) (fun _ => true)
      16 0 (Writer.start Rig.asking.given) = true := by
    decide +kernel
  obtain ⟨hok, -⟩ := run_of_scan hscan
  simp only [Bool.and_eq_true, decide_eq_true_eq] at hok
  obtain ⟨hrun, hrig, hdata, hwrite, hzero⟩ := CommandRun.asking
  have ho := sendTwo_rest .word .byte (p := fun w k => Obeys true w.bench k)
    (fun _ _ hk hb _ => .rest hk hb) fun t ht => (hok t ht).1
  have hu := sendTwo_rest .word .byte (p := Unhurried)
    (fun _ _ hk _ hb => ⟨by simp [hb], by simp [hk], by simp [hk]⟩) fun t ht => (hok t ht).2
  exact (write_stream .selected rfl rfl hrun Rig.asking.poised_given rfl hrig hdata hwrite hzero
    ho hu).1 16

/-- The second byte of a word sent at an odd offset is lost: its lane has no multiplexer for it. -/
theorem odd_word : ¬ ∀ (P : Params) (E : Env) (r : Rig) (v : ℕ → Tick) (t₀ : ℕ) (b : Bench)
    (u : ℕ → Beat), Commanded r → r.sys.tgt.rdFlushPending = false →
    r.sys.tgt.sdBuffSel = false → CommandRun P E r v t₀ → Poised true b →
    b.chip.ncr.dmaWr = false → b.chip.rig = r.run P E v t₀ → b.chip.sys.tgt.phase = .dataIn →
    b.chip.sys.tgt.cmdWrite = true → b.chip.sys.tgt.dataCnt = 0 →
    (∀ t, Obeys true ((Writer.start b).run P E u t).bench (u t)) →
    ∀ t, StreamedAt P E b.chip.sys.tgt.cmdLba b.chip.sys.tgt.cmdTlen
      ((Writer.start b).flushes P E u t) ((Writer.start b).run P E u t) (u t) := by
  intro hall
  have hscan : scan (Writer.step .least .counting) (fun t _ => sendTwo .byte .word t)
      (fun w k => decide (Obeys true w.bench k) && !w.bench.chip.sys.fall)
      (fun w => w.bench.chip.sys.tgt.dataCnt == 3 && w.byte 2 == 2 &&
        (w.bench.chip.sys.tgt.lane 0).ramAb 1 == 1)
      24 0 (Writer.start Rig.asking.given) = true := by
    decide +kernel
  obtain ⟨hok, hfin⟩ := run_of_scan hscan
  rw [show loopStream (Writer.step .least .counting) (fun t _ => sendTwo .byte .word t)
    (Writer.start Rig.asking.given) = sendTwo .byte .word from rfl] at hok hfin
  simp only [Bool.and_eq_true, decide_eq_true_eq, Bool.not_eq_true', beq_iff_eq] at hok hfin
  obtain ⟨hrun, hrig, hdata, hwrite, hzero⟩ := CommandRun.asking
  have ho := sendTwo_rest .byte .word (p := fun w k => Obeys true w.bench k)
    (fun _ _ hk hb _ => .rest hk hb) fun t ht => (hok t (by omega)).1
  have hflush : (Writer.start Rig.asking.given).flushes .least .counting (sendTwo .byte .word) 24 =
      0 := Nat.count_iff_forall_not.mpr fun t ht => by
    rw [Bool.not_eq_true]
    exact (hok t ht).2
  have hbad := (hall _ _ _ _ _ _ _ .selected rfl rfl hrun Rig.asking.poised_given rfl hrig hdata
    hwrite hzero ho 24).stored 2 (hfin.1.1.symm ▸ (show 2 < 3 by decide)) (by rw [hflush]; decide)
  rw [hfin.1.2] at hbad
  exact absurd (hfin.2.symm.trans hbad) (by decide)

end Scsi
