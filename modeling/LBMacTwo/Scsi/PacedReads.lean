import LBMacTwo.Scsi.Delivery
import LBMacTwo.Scsi.Train

/-!
# Pseudo-DMA reads

A host reads the data phase of a READ by DACK cycles of any width, each ended at any time after DREQ
has been seen, with any pause between them.

* `Access.value`: what a cycle reads at a position of the sector stream;
* `Ready`: the bytes of an access are in the ring where DREQ is up in it;
* `Paced`: the invariant of such a run;
* `paced_reads`: from the second clock of a cycle on, `rdata` is its value wherever DREQ is up, and
  the target has counted the bytes of the cycles that have ended;
* `first_clock`: in the first clock of a cycle `rdata` need not be its value.
-/

namespace Scsi

open Clocked (scan loop loopStream run_of_scan run_loopStream)

/-- What a cycle reads when `p` bytes of the stream have been moved: the second cycle of a longword
reads the last two of them. -/
def Access.value (E : Env) (L p : ℕ) (a : Access) : Word :=
  if a.width = .second then pairWord (E.readByte L (p - 2)) (E.readByte L (p - 1))
  else if a.width = .byte then pairWord (E.readByte L p) (E.readByte L p)
  else pairWord (E.readByte L p) (E.readByte L (p + 1))

/-- Where DREQ is first seen in an access, its bytes are in the ring. -/
def Ready (b : Bench) (k : Beat) : Prop :=
  ∀ a, k.acc = some a → b.seen = false → b.chip.dreq = true → a.bytes = 0 ∨
    (b.chip.sys.tgt.phase = .dataOut ∧
      b.chip.sys.tgt.dataCnt + a.bytes ≤ 512 * b.chip.sys.tgt.rdHpsBlk)

/-- The data phase of a READ of `n` sectors from `L`, read by accesses. -/
structure Reads (P : Params) (E : Env) (L n : ℕ) (b : Bench) : Prop where
  inv : RdInv P E L n b.chip.sys
  pos : b.chip.lead = b.pos
  ring : b.pos ≤ 512 * b.chip.sys.tgt.rdHpsBlk
  fits : b.seen = true →
    ∃ a, b.acc = some a ∧ b.pos + a.bytes ≤ 512 * b.chip.sys.tgt.rdHpsBlk
  lanes : b.chip.ncr.dmaSettle ≤ 1 → ∀ j < 4,
    (b.chip.sys.tgt.dataCnt + j) / 512 < b.chip.sys.tgt.rdHpsBlk →
      readLane b.chip.sys.tgt j = E.readByte L (b.chip.sys.tgt.dataCnt + j)

/-- After the data phase. -/
structure Waits (n : ℕ) (b : Bench) : Prop extends Over b where
  pos : b.pos = 512 * n
  seen : b.seen = true → ∃ a, b.acc = some a ∧ a.bytes = 0

structure Paced (P : Params) (E : Env) (L n : ℕ) (b : Bench) : Prop where
  train : Train false b
  half : b.half = true → b.chip.ncr.dmaSecondWordData =
    pairWord (E.readByte L (b.pos - 2)) (E.readByte L (b.pos - 1))
  second : ∀ a, b.acc = some a → a.width = .second → b.half = true
  state : Reads P E L n b ∨ Waits n b

variable {P : Params} {E : Env} {L n : ℕ} {b : Bench} {k : Beat}

/-! ### The data phase -/

namespace Reads

theorem pmatch (h : Reads P E L n b) (ht : Train false b) : b.chip.bsrPmatch = true := by
  obtain ⟨h1, h2, h3⟩ := ht.armed.tcr
  rw [Chip.bsrPmatch, h1, h2, h3, State.msg, State.cd, State.io, h.inv.dataOut]
  rfl

theorem rdOk (h : Reads P E L n b) (ht : Train false b)
    (hf : b.chip.sys.hps.closesShort E k.hps = false) :
    RdOk E b.chip.sys (b.chip.bus P k.clock) k.hps := by
  refine ⟨⟨ht.armed.rst, hf⟩, fun ha ho => ?_⟩
  rw [show (b.chip.bus P k.clock).ack = b.chip.ncr.dmaAck from ht.armed.scsiAck] at ha
  have hpos := h.pos
  have hring := h.ring
  rw [Chip.lead, ho, ha] at hpos
  simp at hpos
  omega

/-- An access that ends was seen with all its bytes in the ring. -/
theorem ends_fits (h : Reads P E L n b) (ht : Train false b) (ho : Obeys false b k) :
    b.pos + (b.ends k).elim 0 Access.bytes ≤ 512 * b.chip.sys.tgt.rdHpsBlk := by
  cases he : b.ends k with
  | none => exact h.ring
  | some a =>
    obtain ⟨hacc, -, hseen, -, -⟩ := ht.ends_spec ho he
    obtain ⟨a', hacc', hle⟩ := h.fits hseen
    rw [hacc] at hacc'
    cases hacc'
    exact hle

theorem fits_next (h : Reads P E L n b) (ht : Train false b) (ho : Obeys false b k)
    (hr : Ready b k) (hs : (b.step P E k).seen = true) {a : Access} (ha : k.acc = some a) :
    b.pos + a.bytes ≤ 512 * b.chip.sys.tgt.rdHpsBlk := by
  change (k.acc.isSome && (b.seen || b.chip.dreq)) = true at hs
  rw [Bool.and_eq_true, Bool.or_eq_true] at hs
  have hdreq : b.seen = false → b.chip.dreq = true →
      b.pos + a.bytes ≤ 512 * b.chip.sys.tgt.rdHpsBlk := by
    intro hseen hd
    have hq : b.chip.ncr.dmaAckBusy = false := by
      rw [Chip.dreq, Bool.and_eq_true, Bool.not_eq_true'] at hd
      exact hd.2
    have hlead := ht.lead_of_quiet hq
    have hpos := h.pos
    have hring := h.ring
    rcases hr a ha hseen hd with h0 | ⟨-, hle⟩ <;> omega
  by_cases hseen : b.seen = true
  · obtain ⟨a', hacc, hle⟩ := h.fits hseen
    rw [ho.held a' a hacc ha]
    exact hle
  · exact hdreq (Bool.eq_false_iff.mpr hseen) (hs.2.resolve_left hseen)

theorem step (h : Reads P E L n b) (ht : Train false b) (ho : Obeys false b k) (hr : Ready b k)
    (hf : b.chip.sys.hps.closesShort E k.hps = false)
    (hd : (b.step P E k).chip.sys.tgt.phase = .dataOut) : Reads P E L n (b.step P E k) := by
  have hcnt := h.inv.dataCnt_next (b := b.chip.bus P k.clock) (m := k.hps)
  have hblk : (b.step P E k).chip.sys.tgt.rdHpsBlk = _ :=
    h.inv.rdHpsBlk_next (b := b.chip.bus P k.clock) (m := k.hps) h.inv.tlen_lt
  have hends := h.ends_fits ht ho
  refine ⟨h.inv.step (h.rdOk ht hf) hd, ?_, ?_, ?_, ?_⟩
  · rw [ht.lead_next ho (h.pmatch ht) hcnt, h.pos, b.pos_next]
  · rw [b.pos_next, hblk]
    omega
  · intro hs
    obtain ⟨a, hk⟩ := Option.isSome_iff_exists.mp ((Bool.and_eq_true _ _).mp hs).1
    have hfits := h.fits_next ht ho hr hs hk
    refine ⟨a, hk, ?_⟩
    rw [b.pos_next, hblk, show b.ends k = none by rw [Bench.ends, hk]; rfl]
    simp only [Option.elim]
    omega
  · intro hs j hj hlt
    have hset : b.chip.ncr.dmaSettle ≤ 2 := by
      change dmaSettleNext b.chip.ncr ≤ 1 at hs
      rw [dmaSettleNext] at hs
      split_ifs at hs <;> omega
    have hadv := (ht.shake.settled hset).2.1
    rw [hadv, Bool.toNat_false, Nat.add_zero] at hcnt
    have hcnt' : (b.step P E k).chip.sys.tgt.dataCnt = b.chip.sys.tgt.dataCnt := hcnt
    rw [hcnt'] at hlt ⊢
    exact h.inv.lane_next hadv hj hlt

/-- When the data phase is over every byte has been counted and no pulse is on its way. -/
theorem ended (h : Reads P E L n b) (ht : Train false b) (ho : Obeys false b k) (hr : Ready b k)
    (hd : (b.step P E k).chip.sys.tgt.phase ≠ .dataOut) : Waits n (b.step P E k) := by
  have hph : (b.step P E k).chip.sys.tgt.phase = _ :=
    phase_data (P := P) (i := b.chip.sys.input E (b.chip.bus P k.clock) k.hps) ht.armed.rst
      (.inl h.inv.dataOut)
  have hdone : b.chip.sys.tgt.dataDone = true := by
    by_contra hno
    rw [if_neg hno] at hph
    exact hd (hph.trans h.inv.dataOut)
  have hcnt : b.chip.sys.tgt.dataCnt = 512 * n := by
    rw [h.inv.dataDone_eq, decide_eq_true_eq] at hdone
    exact hdone
  have hends := h.ends_fits ht ho
  have hle := h.inv.le_total
  have hpos := h.pos
  have hlead : b.chip.sys.tgt.dataCnt ≤ b.chip.lead := by
    rw [Chip.lead]
    omega
  refine ⟨ht.ended ho (.inl h.inv.dataOut) hdone (by omega), ?_, fun hs => ?_⟩
  · rw [b.pos_next]
    omega
  · obtain ⟨a, hk⟩ := Option.isSome_iff_exists.mp ((Bool.and_eq_true _ _).mp hs).1
    have hfits := h.fits_next ht ho hr hs hk
    exact ⟨a, hk, by omega⟩

end Reads

/-! ### After the data phase -/

theorem Waits.step (h : Waits n b) (ht : Train false b) (ho : Obeys false b k) (hr : Ready b k) :
    Waits n (b.step P E k) := by
  refine ⟨h.toOver.step ht, ?_, fun hs => ?_⟩
  · rw [b.pos_next, h.pos]
    cases he : b.ends k with
    | none => rfl
    | some a =>
      obtain ⟨hacc, -, hseen, -, -⟩ := ht.ends_spec ho he
      obtain ⟨a', hacc', hz⟩ := h.seen hseen
      rw [hacc] at hacc'
      cases hacc'
      rw [Option.elim, hz]
      rfl
  · change (k.acc.isSome && (b.seen || b.chip.dreq)) = true at hs
    rw [Bool.and_eq_true, Bool.or_eq_true] at hs
    obtain ⟨a, hk⟩ := Option.isSome_iff_exists.mp hs.1
    refine ⟨a, hk, ?_⟩
    by_cases hseen : b.seen = true
    · obtain ⟨a', hacc, hz⟩ := h.seen hseen
      rw [ho.held a' a hacc hk]
      exact hz
    · rcases hr a hk (Bool.eq_false_iff.mpr hseen) (hs.2.resolve_left hseen) with hz | ⟨hp, -⟩
      · exact hz
      · cases h.phase.symm.trans hp

/-! ### Runs of accesses -/

/-- The data phase of a READ of `n` sectors from `L`, with the adapter set up and at rest. -/
structure Begins (P : Params) (E : Env) (L n : ℕ) (b : Bench) : Prop extends Poised false b where
  reached : ∃ r u t, Commanded r ∧ r.sys.tgt.rdFlushPending = false ∧ CommandRun P E r u t ∧
    FullWindows P E r u t ∧ r.run P E u t = b.chip.rig ∧ bytesTaken P E r u t = b.pos
  data : b.chip.sys.tgt.phase = .dataOut
  read : b.chip.sys.tgt.cmdRead = true
  lba : b.chip.sys.tgt.cmdLba = L
  tlen : b.chip.sys.tgt.cmdTlen = n
  some : b.chip.sys.tgt.tlen ≠ 0

theorem Begins.serving (h : Begins P E L n b) : Serving P E L n b.pos b.chip.rig := by
  obtain ⟨r, u, t, h0, hfl, hrun, hfull, hrig, hpos⟩ := h.reached
  have hserve := (hrun.readState h0 hfl t hfull).dataOut
  rw [hrig, hpos] at hserve
  rw [← h.lba, ← h.tlen]
  exact hserve h.data h.read h.some

theorem Begins.paced (h : Begins P E L n b) : Paced P E L n b := by
  obtain ⟨hacc, hseen, hhalf⟩ := h.none
  have ht := h.train h.serving.shake
  have hlead := ht.lead_of_quiet h.quiet
  obtain ⟨-, -, h3⟩ := not_busy h.quiet
  obtain ⟨ho, hs, -⟩ := h.serving.shake.settled (Nat.le_of_eq h3 |>.trans (Nat.zero_le 2))
  have htaken := h.serving.taken
  rw [ho, hs] at htaken
  have hpos : b.chip.lead = b.pos := hlead.trans htaken.symm
  refine ⟨ht, by simp [hhalf], by simp [hacc], .inl ⟨h.serving.inv, hpos, ?_, ?_,
    h.serving.lanes⟩⟩
  · rw [← hpos, hlead]
    exact h.serving.inv.cnt_le
  · simp [hseen]

namespace Paced

/-- What the second cycle of a longword will read is kept when the first one ends. -/
theorem half_next (h : Paced P E L n b) (ho : Obeys false b k) (hh : (b.step P E k).half = true) :
    (b.step P E k).chip.ncr.dmaSecondWordData =
      pairWord (E.readByte L ((b.step P E k).pos - 2)) (E.readByte L ((b.step P E k).pos - 1)) := by
  have ht := h.train
  rw [b.half_next] at hh
  change dmaSecondWordDataNext P b.chip k.host = _
  rw [b.pos_next]
  cases he : b.ends k with
  | none =>
    rw [he] at hh
    rw [dmaSecondWordDataNext, ht.accessEnd_of_ends_none ho he]
    exact h.half hh
  | some a =>
    rw [he] at hh
    simp only [Option.elim, Bool.and_eq_true, Bool.not_eq_true', beq_iff_eq] at hh
    obtain ⟨hacc, hk, hseen, hend, -⟩ := ht.ends_spec ho he
    have hbytes : a.bytes = 4 := by simp [Access.bytes, hh.1, hh.2]
    obtain ⟨hl1, hl2, hl3⟩ := ht.latched a hacc
    have hfall : b.chip.ncr.rdFall k.host = true := by
      rw [Ncr.rdFall, Train.iDmaRd_eq ho, ht.old.1, hacc, hk]
      rfl
    have hq := ht.quiet hseen
    rcases h.state with hr | hw
    · obtain ⟨a', hacc', hfits⟩ := hr.fits hseen
      rw [hacc] at hacc'
      cases hacc'
      have hcnt : b.chip.sys.tgt.dataCnt = b.pos := (ht.lead_of_quiet hq).symm.trans hr.pos
      have hlane : ∀ j < 4, readLane b.chip.sys.tgt j = E.readByte L (b.pos + j) := fun j hj => by
        rw [← hcnt]
        refine hr.lanes (by rw [(not_busy hq).2.2]; exact Nat.zero_le 1) j hj ?_
        omega
      have hbsy : b.chip.sys.tgt.bsy = true := by rw [State.bsy, hr.inv.dataOut]; rfl
      rw [dmaSecondWordDataNext, hend, hfall, hl1, hl2, hl3, hh.2, hbytes, Chip.dinPairNext, hbsy]
      simp only [Option.elim]
      rw [show b.pos + a.bytes - 2 = b.pos + 2 by omega,
        show b.pos + a.bytes - 1 = b.pos + 3 by omega, ← hlane 2 (by omega), ← hlane 3 (by omega)]
      exact doutPairNext_eq_lane hr.inv.dataOut hr.inv.read
    · obtain ⟨a', hacc', hz⟩ := hw.seen hseen
      rw [hacc] at hacc'
      cases hacc'
      omega

theorem second_next (h : Paced P E L n b) (ho : Obeys false b k) {a : Access}
    (ha : k.acc = some a) (hw : a.width = .second) : (b.step P E k).half = true := by
  rw [b.half_next, show b.ends k = none by rw [Bench.ends, ha]; rfl]
  rcases Train.held_or_rise ho ha with hb | hb
  · exact h.second a hb hw
  · exact (ho.second a hb ha).mpr ⟨rfl, hw⟩

theorem step (h : Paced P E L n b) (ho : Obeys false b k) (hr : Ready b k)
    (hf : b.chip.sys.hps.closesShort E k.hps = false) : Paced P E L n (b.step P E k) := by
  refine ⟨h.train.step ho, h.half_next ho, fun a ha => h.second_next ho ha, ?_⟩
  rcases h.state with hs | hs
  · by_cases hd : (b.step P E k).chip.sys.tgt.phase = .dataOut
    · exact .inl (hs.step h.train ho hr hf hd)
    · exact .inr (hs.ended h.train ho hr hd)
  · exact .inr (hs.step h.train ho hr)

/-- Where DREQ is up in an access that is not new, the bytes of the access are in the ring. -/
theorem inRing (h : Paced P E L n b) (hr : Ready b k) {a : Access} (ha : b.acc = some a)
    (hk : k.acc = some a) (hq : b.chip.ncr.dmaAckBusy = false) (hd : b.chip.dreq = true)
    (hne : a.bytes ≠ 0) :
    Reads P E L n b ∧ b.chip.sys.tgt.dataCnt = b.pos ∧
      b.pos + a.bytes ≤ 512 * b.chip.sys.tgt.rdHpsBlk := by
  rcases h.state with hst | hst
  · have hcnt : b.chip.sys.tgt.dataCnt = b.pos :=
      (h.train.lead_of_quiet hq).symm.trans hst.pos
    refine ⟨hst, hcnt, ?_⟩
    by_cases hseen : b.seen = true
    · obtain ⟨a', hacc, hle⟩ := hst.fits hseen
      rw [ha] at hacc
      cases hacc
      exact hle
    · rw [← hcnt]
      exact ((hr a hk (Bool.eq_false_iff.mpr hseen) hd).resolve_left hne).2
  · by_cases hseen : b.seen = true
    · obtain ⟨a', hacc, hz⟩ := hst.seen hseen
      rw [ha] at hacc
      cases hacc
      exact absurd hz hne
    · have hp := ((hr a hk (Bool.eq_false_iff.mpr hseen) hd).resolve_left hne).1
      cases hst.phase.symm.trans hp

/-- In an access that is not new, DREQ shows its value. -/
theorem rdata_eq (h : Paced P E L n b) (hr : Ready b k) {a : Access} (ha : b.acc = some a)
    (hk : k.acc = some a) (hd : b.chip.dreq = true) :
    b.chip.rdata P k.host = a.value E L b.pos := by
  have ht := h.train
  have hq : b.chip.ncr.dmaAckBusy = false := by
    rw [Chip.dreq, Bool.and_eq_true, Bool.not_eq_true'] at hd
    exact hd.2
  have hhost : k.host = a.host k.wdata := by rw [Beat.host, hk]
  have hout : b.chip.ncr.outEn = false := by
    rw [Ncr.outEn, ht.armed.data, ht.armed.arb.1]
    rfl
  have hsup := ht.suppress rfl a ha
  have hwrite := ht.write a ha
  by_cases hs : a.width = .second
  · rw [Access.value, if_pos hs, ← h.half (h.second a ha hs), hhost]
    simp [Chip.rdata, Access.host, hs, Chip.curDataPair, hout, hsup]
  · have hne : a.bytes ≠ 0 := by
      cases hw : a.width <;> simp [Access.bytes, hw, hwrite] at hs ⊢
    obtain ⟨hst, hcnt, hle⟩ := h.inRing hr ha hk hq hd hne
    have hp := hst.inv.dataOut
    have hlane : ∀ j < a.bytes, j < 4 → readLane b.chip.sys.tgt j = E.readByte L (b.pos + j) :=
      fun j hj h4 => by
        rw [← hcnt]
        refine hst.lanes (by rw [(not_busy hq).2.2]; exact Nat.zero_le 1) j h4 ?_
        omega
    have hbsy : b.chip.sys.tgt.bsy = true := by rw [State.bsy, hp]; rfl
    have h0 := hlane 0 (by omega) (by omega)
    rw [Access.value, if_neg hs, hhost]
    by_cases hb : a.width = .byte
    · rw [if_pos hb, ← Nat.add_zero b.pos, ← h0, ← dout_eq_lane (P := P) hp hst.inv.read]
      simp [Chip.rdata, Access.host, hb, Chip.rdata8, Chip.scsiBusData, hout, Chip.din, hbsy]
    · have h2 : 2 ≤ a.bytes := by
        cases hw : a.width <;> simp [Access.bytes, hw, hwrite] at hs hb ⊢
      have hpair := doutPair_eq_lane (P := P) hp hst.inv.read
      rw [h0, hlane 1 (by omega) (by omega), Nat.add_zero] at hpair
      rw [if_neg hb, ← hpair]
      simp [Chip.rdata, Access.host, hb, hs, Chip.curDataPair, hout, hsup, Chip.dinPair, hbsy]

/-- No byte is dropped and none is taken twice. -/
theorem counted (h : Paced P E L n b) :
    (b.chip.sys.tgt.phase = .dataOut → b.chip.ncr.dmaAckBusy = false →
      b.chip.sys.tgt.dataCnt = b.pos) ∧
    (b.chip.sys.tgt.phase ≠ .dataOut → b.pos = 512 * n) := by
  rcases h.state with hst | hst
  · exact ⟨fun _ hq => (h.train.lead_of_quiet hq).symm.trans hst.pos,
      fun hp => absurd hst.inv.dataOut hp⟩
  · exact ⟨fun hp => (by cases hst.phase.symm.trans hp), fun _ => hst.pos⟩

end Paced

/-- From the second clock of a cycle on, `rdata` is the next byte, word or half of a longword of the
sector stream wherever DREQ is up. Where the engine is quiet the target has counted the bytes of the
cycles that have ended, and the data phase ends when these are all the bytes of the READ. -/
theorem paced_reads {u : ℕ → Beat} {t : ℕ} (h0 : Begins P E L n b)
    (ho : ∀ j < t, Obeys false (b.run P E u j) (u j)) (hr : ∀ j ≤ t, Ready (b.run P E u j) (u j))
    (hf : ∀ j < t, (b.run P E u j).chip.sys.hps.closesShort E (u j).hps = false) :
    (∀ a, (b.run P E u t).acc = some a → (u t).acc = some a →
      (b.run P E u t).chip.dreq = true →
        (b.run P E u t).chip.rdata P (u t).host = a.value E L (b.run P E u t).pos) ∧
    ((b.run P E u t).chip.sys.tgt.phase = .dataOut →
      (b.run P E u t).chip.ncr.dmaAckBusy = false →
        (b.run P E u t).chip.sys.tgt.dataCnt = (b.run P E u t).pos) ∧
    ((b.run P E u t).chip.sys.tgt.phase ≠ .dataOut → (b.run P E u t).pos = 512 * n) := by
  have hpaced : Paced P E L n (b.run P E u t) := by
    induction t with
    | zero => exact h0.paced
    | succ t ih =>
      rw [Bench.run_succ]
      exact (ih (fun j hj => ho j (by omega)) (fun j hj => hr j (by omega))
        fun j hj => hf j (by omega)).step (ho t (by omega)) (hr t (by omega)) (hf t (by omega))
  exact ⟨fun a ha hk hd => hpaced.rdata_eq (hr t (Nat.le_refl t)) ha hk hd, hpaced.counted⟩

/-! ### Runs on a sector -/

instance (dir : Bool) (b : Bench) (k : Beat) : Decidable (Obeys dir b k) :=
  decidable_of_iff ((∀ a ∈ b.acc, ∀ a' ∈ k.acc, a' = a) ∧
    (b.acc.isSome = true → k.acc = none → b.seen = true) ∧ (∀ a ∈ k.acc, a.write = dir) ∧
    (b.acc = none → ∀ a ∈ k.acc, (b.half = true ↔ dir = false ∧ a.width = .second)))
    ⟨fun h => ⟨fun a a' ha ha' => h.1 a ha a' ha', h.2.1, h.2.2.1, fun a ha ha' => h.2.2.2 ha a ha'⟩,
      fun h => ⟨fun a ha a' ha' => h.held a a' ha ha', h.ended, h.write,
        fun ha a ha' => h.second a ha ha'⟩⟩

instance (b : Bench) (k : Beat) : Decidable (Ready b k) :=
  inferInstanceAs (Decidable (∀ a ∈ k.acc, b.seen = false → b.chip.dreq = true → a.bytes = 0 ∨
    (b.chip.sys.tgt.phase = .dataOut ∧
      b.chip.sys.tgt.dataCnt + a.bytes ≤ 512 * b.chip.sys.tgt.rdHpsBlk)))

/-- The adapter set up for pseudo-DMA reads. -/
def Ncr.armedRead : Ncr := { Ncr.init with mr := 0x02, tcr := 1, dmaEn := true }

/-- A rig taken over by a host that reads by DACK cycles. -/
def Rig.taken (r : Rig) : Bench := ⟨⟨.armedRead, r.sys⟩, none, false, false, 0⟩

theorem Armed.armedRead : Armed false .armedRead := by
  constructor <;> decide

theorem Rig.poised_taken (r : Rig) : Poised false r.taken :=
  ⟨.armedRead, rfl, ⟨rfl, rfl, rfl⟩, rfl, rfl, rfl⟩

theorem Rig.rig_taken {r : Rig} (h : r.settle = 0) : r.taken.chip.rig = r := by
  rw [Chip.rig, show r.taken.chip.ncr.dmaSettle = r.settle from h.symm]
  rfl

/-- In every sector each byte is its own number. -/
def Env.counting : Env := ⟨fun _ k => BitVec.ofNat 8 k, false⟩

/-- Sends READ(6) of sector 5, and takes no byte of it. -/
def sendRead5 : Rig → Tick := Rig.answer readSector5 (Rig.serve fun _ => false)

/-- The first clock in which a byte of sector 5 is on offer. -/
def Rig.served : Rig := loop (Rig.step .least .counting) (fun _ => sendRead5) .selected 289

def Bench.served : Bench := Rig.served.taken

theorem Begins.served : Begins .least .counting 5 1 .served := by
  have hscan : scan (Rig.step .least .counting) (fun _ => sendRead5)
      (fun r k => r.inCommand k && !r.takesByte k)
      (fun r => r.inCommand (sendRead5 r) && (r.sys.tgt.phase == .dataOut &&
        r.sys.tgt.cmdRead && r.sys.tgt.cmdLba == 5 && r.sys.tgt.cmdTlen == 1 &&
        r.sys.tgt.tlen == 1 && r.settle == 0)) 289 0 .selected = true := by
    decide +kernel
  obtain ⟨hrun, hnone, -, hfin⟩ := CommandRun.of_scan hscan
  have hserved : Rig.selected.run .least .counting (loopStream (Rig.step .least .counting)
      (fun _ => sendRead5) .selected) 289 = .served := run_loopStream ..
  rw [hserved] at hfin
  simp only [Bool.and_eq_true, beq_iff_eq] at hfin
  obtain ⟨⟨⟨⟨⟨hdata, hread⟩, hlba⟩, htlen⟩, hsome⟩, hsettle⟩ := hfin
  refine ⟨Rig.served.poised_taken, ⟨.selected, _, 289, .selected, rfl, hrun,
    fun _ _ => Hps.closesShort_of_full rfl _ _, hserved.trans (Rig.rig_taken hsettle).symm, ?_⟩,
    hdata, hread, hlba, htlen, ?_⟩
  · refine Nat.count_iff_forall_not.mpr fun k hk => ?_
    rw [Bool.not_eq_true, ← Bool.not_eq_true']
    exact hnone k hk
  · rw [show Bench.served.chip.sys.tgt.tlen = 1 from hsome]
    decide

/-- A longword read; its second cycle begins when the target has taken all four bytes. -/
def longRead (t : ℕ) (_ : Bench) : Beat where
  acc := if t < 3 then some ⟨false, .long, 0⟩ else if t < 20 then none else some ⟨false, .second, 0⟩
  wdata := 0
  hps := ⟨false, false, 0, 0⟩

theorem paced_reads_second : ∃ (u : ℕ → Beat) (t : ℕ),
    u t = longRead t .served ∧ (Bench.served.run .least .counting u t).pos = 4 ∧
    (Bench.served.run .least .counting u t).chip.rdata .least (u t).host = 0x0203 := by
  have hscan : scan (Bench.step .least .counting) longRead
      (fun b k => decide (Obeys false b k) && decide (Ready b k))
      (fun b => decide (Ready b (longRead 21 b)) && b.chip.dreq && b.pos == 4 &&
        decide (b.acc = some ⟨false, .second, 0⟩)) 21 0 .served = true := by
    decide +kernel
  obtain ⟨hok, hfin⟩ := run_of_scan hscan
  simp only [Bool.and_eq_true, decide_eq_true_eq, beq_iff_eq] at hok hfin
  obtain ⟨⟨⟨hready, hdreq⟩, hpos⟩, hacc⟩ := hfin
  have hvalue := (paced_reads (t := 21) .served (fun j hj => (hok j hj).1) (fun j hj => ?_)
    fun _ _ => Hps.closesShort_of_full rfl _ _).1 _ hacc rfl hdreq
  · refine ⟨_, 21, rfl, hpos, ?_⟩
    rw [hvalue, hpos]
    decide
  · rcases Nat.lt_or_eq_of_le hj with hlt | rfl
    · exact (hok j hlt).2
    · exact hready

/-- In its first clock the second cycle of a longword can show the bytes after those it will read:
the kind of a cycle is registered there. -/
theorem first_clock : ¬ ∀ (P : Params) (E : Env) (L n : ℕ) (b : Bench) (u : ℕ → Beat) (t : ℕ)
    (a : Access), Begins P E L n b → (∀ j ≤ t, Obeys false (b.run P E u j) (u j)) →
    (∀ j ≤ t, Ready (b.run P E u j) (u j)) →
    (∀ j < t, (b.run P E u j).chip.sys.hps.closesShort E (u j).hps = false) →
    (u t).acc = some a → (b.run P E u t).chip.dreq = true →
    (b.run P E u t).chip.rdata P (u t).host = a.value E L (b.run P E u t).pos := by
  intro hall
  have hscan : scan (Bench.step .least .counting) longRead
      (fun b k => decide (Obeys false b k) && decide (Ready b k))
      (fun b => decide (Obeys false b (longRead 20 b)) && decide (Ready b (longRead 20 b)) &&
        b.chip.dreq && b.pos == 4 && b.chip.rdata .least (longRead 20 b).host == 0x0405)
      20 0 .served = true := by
    decide +kernel
  obtain ⟨hok, hfin⟩ := run_of_scan hscan
  simp only [Bool.and_eq_true, decide_eq_true_eq, beq_iff_eq] at hok hfin
  obtain ⟨⟨⟨⟨hobeys, hready⟩, hdreq⟩, hpos⟩, hrdata⟩ := hfin
  have hvalue := hall .least .counting 5 1 .served _ 20 ⟨false, .second, 0⟩ .served
    (fun j hj => ?_) (fun j hj => ?_) (fun _ _ => Hps.closesShort_of_full rfl _ _) rfl hdreq
  · rw [hpos] at hvalue
    exact absurd (hrdata.symm.trans hvalue) (by decide)
  · rcases Nat.lt_or_eq_of_le hj with hlt | rfl
    · exact (hok j hlt).1
    · exact hobeys
  · rcases Nat.lt_or_eq_of_le hj with hlt | rfl
    · exact (hok j hlt).2
    · exact hready

end Scsi
