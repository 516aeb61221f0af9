import LBMacTwo.Scsi.Completion
import LBMacTwo.Scsi.PacedReads

/-!
# DREQ and the bytes of an access

DREQ comes from the flow control of one byte, and an access moves up to four of them.

* `State.Transferable`: every byte of an access can be transferred;
* `State.Fits`: the access ends within the data of the command, and the sector or the half-buffer it
  runs on into is there;
* `Carried`: the invariant of a run in which accesses fit;
* `dreq_covers`: DREQ covers every access of a run, and nothing goes wrong in it, exactly if the
  accesses fit;
* `surplus_ack`: an access that does not fit takes the status byte of the command.
-/

namespace Scsi

open Clocked (scan loop loopStream run_of_scan run_loopStream)

/-- The data phase of a direction. -/
def dataPhase (write : Bool) : Phase := if write then .dataIn else .dataOut

/-- A block in half-buffer `h` is being flushed or waits for it. `sd_buff_sel` names the block being
flushed, and the one pending when there is none; a block pending behind it is in the other half. -/
def State.halfTaken (s : State) (ioAck h : Bool) : Bool :=
  ((s.ioWr || ioAck) && h == s.sdBuffSel) ||
    (s.wrPending && h == (s.sdBuffSel ^^ (s.ioWr || ioAck)))

/-- Byte `j` of the data phase can be transferred. -/
structure State.Free (s : State) (ioAck : Bool) (j : ℕ) : Prop where
  len : j < s.dataLen
  fetched : s.phase = .dataOut → s.cmdRead = true → j / 512 < s.rdHpsBlk
  half : s.phase = .dataIn → s.halfTaken ioAck (j / 512 % 2 == 1) = false

/-- The `w` bytes of an access can be transferred. -/
def State.Transferable (s : State) (ioAck : Bool) (w : ℕ) : Prop :=
  ∀ j < w, s.Free ioAck (s.dataCnt + j)

/-- An access of `w` bytes ends within the data of the command, and what it runs on into past a
sector boundary is there. -/
structure State.Fits (s : State) (ioAck : Bool) (w : ℕ) : Prop where
  len : s.dataCnt + w ≤ s.dataLen
  fetched : 512 < s.dataCnt % 512 + w → s.phase = .dataOut → s.cmdRead = true →
    s.rdCurBlk + 1 < s.rdHpsBlk
  half : 512 < s.dataCnt % 512 + w → s.phase = .dataIn →
    s.halfTaken ioAck (!s.dataCntHalf) = false

/-- An access that moves bytes sees DREQ in a data phase. -/
def Bench.Sees (b : Bench) (k : Beat) (a : Access) : Prop :=
  k.acc = some a ∧ a.bytes ≠ 0 ∧ b.chip.dreq = true ∧
    (b.chip.sys.tgt.phase = .dataOut ∨ b.chip.sys.tgt.phase = .dataIn)

/-- Where DREQ is up in an access, it covers it. -/
def Covers (b : Bench) (k : Beat) : Prop :=
  ∀ a, b.Sees k a → b.chip.sys.tgt.Transferable b.chip.sys.ioAck a.bytes

/-- Where DREQ is up in an access, it fits. -/
def Fitting (b : Bench) (k : Beat) : Prop :=
  ∀ a, b.Sees k a → b.chip.sys.tgt.Fits b.chip.sys.ioAck a.bytes

/-- A byte is stored only in a half-buffer that is free, and no pulse reaches the target after the
data phase. -/
structure Safe (b : Bench) : Prop where
  stored : b.chip.sys.tgt.buffer0Wr = true ∨ b.chip.sys.tgt.buffer1Wr = true →
    b.chip.sys.tgt.phase = .dataIn ∧
      b.chip.sys.tgt.Free b.chip.sys.ioAck b.chip.sys.tgt.dataCnt
  handshake : b.chip.sys.tgt.phase ≠ .dataOut → b.chip.sys.tgt.phase ≠ .dataIn → Over b

variable {P : Params} {E : Env} {L n c : ℕ} {lag dir : Bool} {s : State} {i : In} {x : Sys}
  {r : Rig} {b : Bench} {k : Beat}

/-! ### One byte and four -/

theorem Access.bytes_le (a : Access) : a.bytes ≤ 4 := by
  cases h : a.width <;> cases hw : a.write <;> simp [Access.bytes, h, hw]

theorem dataPhase_eq (dir : Bool) : dataPhase dir = .dataOut ∨ dataPhase dir = .dataIn := by
  cases dir
  · exact .inl rfl
  · exact .inr rfl

theorem State.Transferable.fits {io : Bool} {w : ℕ} (h : s.Transferable io w) (hw : w ≠ 0) :
    s.Fits io w := by
  have hnext : 512 < s.dataCnt % 512 + w → s.Free io (s.dataCnt + (512 - s.dataCnt % 512)) ∧
      (s.dataCnt + (512 - s.dataCnt % 512)) / 512 = s.dataCnt / 512 + 1 := fun hc =>
    ⟨h _ (by omega), by omega⟩
  refine ⟨?_, fun hc hp hr => ?_, fun hc hp => ?_⟩
  · have := (h (w - 1) (by omega)).len
    omega
  · obtain ⟨hfree, hdiv⟩ := hnext hc
    have := hfree.fetched hp hr
    rwa [hdiv] at this
  · obtain ⟨hfree, hdiv⟩ := hnext hc
    have hhalf := hfree.half hp
    rw [hdiv] at hhalf
    rw [← hhalf]
    congr 1
    rw [State.dataCntHalf, Bool.eq_iff_iff]
    simp
    omega

/-- An access that fits can be transferred if its first byte can. -/
theorem State.Fits.transferable {io : Bool} {w : ℕ} (h : s.Fits io w) (hw : w ≤ 4)
    (hread : s.phase = .dataOut → s.cmdRead = true → s.rdCurBlk < s.rdHpsBlk)
    (hwrite : s.phase = .dataIn → s.halfTaken io s.dataCntHalf = false) : s.Transferable io w := by
  intro j hj
  have hlen := h.len
  rcases (by omega : (s.dataCnt + j) / 512 = s.dataCnt / 512 ∨
      ((s.dataCnt + j) / 512 = s.dataCnt / 512 + 1 ∧ 512 < s.dataCnt % 512 + w)) with hd | ⟨hd, hc⟩
  · refine ⟨by omega, fun hp hr => ?_, fun hp => ?_⟩
    · rw [hd]
      exact hread hp hr
    · rw [hd]
      exact hwrite hp
  · refine ⟨by omega, fun hp hr => ?_, fun hp => ?_⟩
    · rw [hd]
      exact h.fetched hc hp hr
    · have hhalf := h.half hc hp
      rw [← hhalf, hd]
      congr 1
      rw [State.dataCntHalf, Bool.eq_iff_iff]
      simp
      omega

/-! ### The count of the data phase -/

/-- What `data_complete` says of a command that has been taken. -/
structure State.Counted (s : State) : Prop where
  tlen : s.tlen = s.cmdTlen
  done : s.dataComplete = decide (0 < s.dataLen ∧ s.dataCnt = s.dataLen)

namespace State.Counted

theorem dataDone_eq (h : s.Counted) (hle : s.dataCnt ≤ s.dataLen) :
    s.dataDone = decide (s.dataCnt = s.dataLen) := by
  rw [State.dataDone, h.done]
  by_cases h0 : s.dataLen = 0
  · simp [h0]
    omega
  · simp [h0, Nat.pos_of_ne_zero h0]

theorem step (h : s.Counted) (hp : s.phase = .dataOut ∨ s.phase = .dataIn)
    (hlt : s.stbAdv = true → s.dataCnt < s.dataLen) : (Scsi.step P s i).Counted ∧
      (Scsi.step P s i).dataCnt = s.dataCnt + s.stbAdv.toNat := by
  have hne : s.phase ≠ .cmdIn := by rcases hp with hp | hp <;> simp [hp]
  have htr : s.phase.transfers = true := by rcases hp with hp | hp <;> rw [hp] <;> rfl
  have hlen := State.dataLen_lt h.tlen
  have hcnt : (Scsi.step P s i).dataCnt = s.dataCnt + s.stbAdv.toNat := by
    simp only [Scsi.step, dataCntNext, htr, h.done]
    cases hs : s.stbAdv
    · simp
    · have := hlt hs
      have hfull : s.dataCnt ≠ s.dataLen := by omega
      simp [hfull]
      omega
  refine ⟨⟨?_, ?_⟩, hcnt⟩
  · rw [cmdTlen_congr (cmd_next hne), ← h.tlen]
    exact tlen_next hne
  · rw [dataLen_next hne, hcnt]
    simp only [Scsi.step, dataCompleteNext, htr, h.done]
    cases hs : s.stbAdv
    · simp
    · have := hlt hs
      have hmod : (s.dataLen + 2 ^ 32 - 1) % 2 ^ 32 = s.dataLen - 1 := by omega
      simp only [hmod, Bool.not_true, Bool.false_eq_true, if_true, if_false, decide_eq_decide,
        Bool.toNat_true]
      omega

end State.Counted

/-! ### The start of a data phase -/

/-- A target in its data phase, before any DACK cycle. -/
structure Loaded (r : Rig) : Prop where
  counted : r.sys.tgt.Counted
  le : r.sys.tgt.dataCnt + r.underWay ≤ r.sys.tgt.dataLen
  calm : r.sys.tgt.phase = .dataIn → r.sys.tgt.cmdWrite = false → Calm r.sys

structure LoadState (r : Rig) : Prop where
  shake : Shake r
  cmdIn : r.sys.tgt.phase = .cmdIn → Commanded r
  data : r.sys.tgt.phase = .dataOut ∨ r.sys.tgt.phase = .dataIn → Loaded r

theorem Loaded.of_commanded {k : Tick} (h : Commanded r) (hp : Polite r k)
    (hc : (r.step P E k).sys.tgt.phase ≠ .cmdIn) : Loaded (r.step P E k) := by
  obtain ⟨-, -, -, htlen, hadv, hack⟩ := h.accept hp hc
  have hfresh : Fresh (r.step P E k).sys.tgt := h.fresh.step (by rw [h.phase]; rfl)
  refine ⟨⟨htlen, ?_⟩, ?_, fun _ _ => ⟨hfresh.noRd.1, ⟨hfresh.noWr.1, hfresh.noWr.2.1⟩,
    h.hps_step, h.ioAck_eq⟩⟩
  · rw [hfresh.dataComplete, hfresh.dataCnt]
    simp
    omega
  · rw [hfresh.dataCnt, Rig.underWay, hadv, hack]
    exact Nat.zero_le _

theorem Loaded.step {k : Tick} (h : Loaded r) (hs : Shake r) (hp : Polite r k)
    (hq : r.sys.tgt.phase = .dataOut ∨ r.sys.tgt.phase = .dataIn)
    (hd : (r.step P E k).sys.tgt.phase = .dataIn → r.sys.tgt.phase = .dataIn) :
    Loaded (r.step P E k) := by
  have hne : r.sys.tgt.phase ≠ .cmdIn := by rcases hq with hq | hq <;> simp [hq]
  have hle := h.le
  have hway := Rig.underWay_step (P := P) (E := E) (r := r) (k := k)
  obtain ⟨hcounted, hcnt⟩ := h.counted.step (P := P) (i := r.sys.input E k.bus k.hps) hq
    fun hadv => by
      rw [Rig.underWay, hadv, Bool.toNat_true] at hle
      omega
  have hlen : (r.step P E k).sys.tgt.dataLen = r.sys.tgt.dataLen := dataLen_next hne
  have hcnt' : (r.step P E k).sys.tgt.dataCnt = _ := hcnt
  refine ⟨hcounted, ?_, fun hx hw => ?_⟩
  · rw [hlen]
    cases hrise : r.rise k
    · rw [hrise, Bool.toNat_false] at hway
      omega
    · obtain ⟨h0, hreq⟩ := hp.ack hrise
      have hdone : r.sys.tgt.dataDone = false := by
        rcases hq with hq | hq <;> simp [req, State.dataPhaseComplete, hq] at hreq <;>
          exact hreq.2
      rw [h.counted.dataDone_eq (by omega), decide_eq_false_iff_not] at hdone
      rw [hrise, Bool.toNat_true, hs.underWay_eq_zero (by omega)] at hway
      omega
  · have hq' := hd hx
    have hcmd : (r.step P E k).sys.tgt.cmd = r.sys.tgt.cmd := cmd_next hne
    rw [cmdWrite_congr hcmd] at hw
    have hrd : reqRd P r.sys.tgt = false := by simp [reqRd, hq']
    have hwr : reqWr r.sys.tgt = false := by simp [reqWr, hw]
    exact (h.calm hq' hw).step hrd hwr

theorem LoadState.step {k : Tick} (h : LoadState r) (hb : r.sys.tgt.phase ≠ .idle)
    (hp : Polite r k) : LoadState (r.step P E k) := by
  refine ⟨h.shake.step, fun hc => (h.cmdIn (phase_of_cmdIn_next hb hc)).step hp hc, fun hd => ?_⟩
  have hc : (r.step P E k).sys.tgt.phase ≠ .cmdIn := by rcases hd with hd | hd <;> simp [hd]
  by_cases hq : r.sys.tgt.phase = .cmdIn
  · exact .of_commanded (h.cmdIn hq) hp hc
  · have hin : (r.step P E k).sys.tgt.phase = .dataIn → r.sys.tgt.phase = .dataIn := fun hx =>
      (phase_of_dataIn_next hx).resolve_left hq
    refine (h.data ?_).step h.shake hp ?_ hin <;>
    · rcases hd with hd | hd
      · exact .inl ((phase_of_dataOut_next hd).resolve_left hq)
      · exact .inr (hin hd)

theorem CommandRun.loadState {u : ℕ → Tick} (h0 : Commanded r) (t : ℕ) (h : CommandRun P E r u t) :
    LoadState (r.run P E u t) := by
  induction t with
  | zero =>
    refine ⟨h0.shake, fun _ => h0, fun hd => ?_⟩
    rw [Rig.run_zero, h0.phase] at hd
    simp at hd
  | succ t ih =>
    rw [Rig.run_succ]
    exact (ih (h.upTo (by omega))).step (h.busy t (by omega)) (h.polite t (by omega))

/-- A byte is stored while the settle time runs. -/
theorem Shake.store_step {k : Tick} (h : Shake r) (hs : (r.step P E k).sys.tgt.buffer0Wr = true ∨
    (r.step P E k).sys.tgt.buffer1Wr = true) : (r.step P E k).settle ≠ 0 := by
  have hstb : r.sys.tgt.stbAck = true := by
    rcases hs with hs | hs
    all_goals
      simp only [Rig.step, Sys.step, Scsi.step, buffer0WrNext, buffer1WrNext, Bool.and_eq_true] at hs
      exact hs.1.1
  have := h.held (h.str hstb)
  simp only [Rig.step]
  split_ifs <;> omega


/-! ### Moving bytes -/

/-- The data phase of any command: what has been moved, and what the access under way will move, are
data of the command. -/
structure Moves (dir : Bool) (b : Bench) : Prop where
  phase : b.chip.sys.tgt.phase = dataPhase dir
  counted : b.chip.sys.tgt.Counted
  le : b.chip.lead ≤ b.chip.sys.tgt.dataLen
  fits : b.seen = true → ∃ a, b.acc = some a ∧ b.chip.lead + a.bytes ≤ b.chip.sys.tgt.dataLen

/-- An access that sees DREQ finds a quiet engine and a byte that can be transferred. -/
theorem Chip.dreq_spec {x : Chip} (h : x.dreq = true) :
    x.ncr.dmaAckBusy = false ∧ req x.sys.tgt false x.sys.ioAck = true := by
  simp only [Chip.dreq, Chip.scsiReq, Bool.and_eq_true, Bool.not_eq_true'] at h
  refine ⟨h.2, ?_⟩
  have hreq := h.1.1.2
  cases hack : x.ncr.scsiAck <;> rw [hack] at hreq
  · exact hreq
  · simp [req] at hreq

theorem Bench.seen_next (hs : (b.step P E k).seen = true) :
    k.acc.isSome = true ∧ (b.seen = true ∨ b.chip.dreq = true) := by
  change (k.acc.isSome && (b.seen || b.chip.dreq)) = true at hs
  rwa [Bool.and_eq_true, Bool.or_eq_true] at hs

namespace Moves

theorem data (h : Moves dir b) :
    b.chip.sys.tgt.phase = .dataOut ∨ b.chip.sys.tgt.phase = .dataIn := by
  rw [h.phase]
  exact dataPhase_eq dir

theorem pmatch (h : Moves dir b) (ht : Train dir b) : b.chip.bsrPmatch = true := by
  obtain ⟨h1, h2, h3⟩ := ht.armed.tcr
  rw [Chip.bsrPmatch, h1, h2, h3, State.msg, State.cd, State.io, h.phase]
  cases dir <;> rfl

theorem adv_lt (h : Moves dir b) (hs : b.chip.sys.tgt.stbAdv = true) :
    b.chip.sys.tgt.dataCnt < b.chip.sys.tgt.dataLen := by
  have hle := h.le
  rw [Chip.lead, hs, Bool.toNat_true] at hle
  omega

theorem ends_le (h : Moves dir b) (ht : Train dir b) (ho : Obeys dir b k) :
    b.chip.lead + (b.ends k).elim 0 Access.bytes ≤ b.chip.sys.tgt.dataLen := by
  cases he : b.ends k with
  | none => exact h.le
  | some a =>
    obtain ⟨hacc, -, hseen, -, -⟩ := ht.ends_spec ho he
    obtain ⟨a', hacc', hle⟩ := h.fits hseen
    rw [hacc] at hacc'
    cases hacc'
    exact hle

theorem counted_next (h : Moves dir b) : (b.step P E k).chip.sys.tgt.Counted ∧
    (b.step P E k).chip.sys.tgt.dataCnt =
      b.chip.sys.tgt.dataCnt + b.chip.sys.tgt.stbAdv.toNat :=
  h.counted.step (P := P) (i := b.chip.sys.input E (b.chip.bus P k.clock) k.hps) h.data h.adv_lt

theorem lead_next (h : Moves dir b) (ht : Train dir b) (ho : Obeys dir b k) :
    (b.step P E k).chip.lead = b.chip.lead + (b.ends k).elim 0 Access.bytes :=
  ht.lead_next ho (h.pmatch ht) h.counted_next.2

theorem step (h : Moves dir b) (ht : Train dir b) (ho : Obeys dir b k) (hf : Fitting b k)
    (hd : (b.step P E k).chip.sys.tgt.phase = dataPhase dir) : Moves dir (b.step P E k) := by
  have hne : b.chip.sys.tgt.phase ≠ .cmdIn := by rcases h.data with hp | hp <;> simp [hp]
  have hlen : (b.step P E k).chip.sys.tgt.dataLen = b.chip.sys.tgt.dataLen := dataLen_next hne
  have hlead := h.lead_next (P := P) (E := E) ht ho
  refine ⟨hd, h.counted_next.1, ?_, fun hs => ?_⟩
  · rw [hlead, hlen]
    exact h.ends_le ht ho
  · obtain ⟨hsome, hs⟩ := Bench.seen_next hs
    obtain ⟨a, hk⟩ := Option.isSome_iff_exists.mp hsome
    have hends : b.ends k = none := by rw [Bench.ends, hk]; rfl
    refine ⟨a, hk, ?_⟩
    rw [hlead, hlen, hends]
    simp only [Option.elim, Nat.add_zero]
    rcases hs with hseen | hdreq
    · obtain ⟨a', hacc, hle⟩ := h.fits hseen
      rw [ho.held a' a hacc hk]
      exact hle
    · by_cases h0 : a.bytes = 0
      · rw [h0]
        exact h.le
      · rw [ht.lead_of_quiet (Chip.dreq_spec hdreq).1]
        exact (hf a ⟨hk, h0, hdreq, h.data⟩).len

theorem ended (h : Moves dir b) (ht : Train dir b) (ho : Obeys dir b k)
    (hd : (b.step P E k).chip.sys.tgt.phase ≠ dataPhase dir) : Over (b.step P E k) := by
  have hph : (b.step P E k).chip.sys.tgt.phase = _ :=
    phase_data (P := P) (i := b.chip.sys.input E (b.chip.bus P k.clock) k.hps) ht.armed.rst h.data
  have hle := h.le
  have hcnt : b.chip.sys.tgt.dataCnt ≤ b.chip.lead := by
    rw [Chip.lead]
    omega
  have hdone : b.chip.sys.tgt.dataDone = true := by
    by_contra hno
    rw [if_neg hno] at hph
    exact hd (hph.trans h.phase)
  refine ht.ended ho h.data hdone ?_
  rw [h.counted.dataDone_eq (by omega), decide_eq_true_eq] at hdone
  rw [hdone]
  exact h.ends_le ht ho

end Moves

/-! ### Filling half-buffers -/

/-- Whether a request is posted or in its window. -/
def Sys.flying (x : Sys) : Bool := x.tgt.ioWr || x.ioAck

theorem Flush.flying_cases {odd : Bool} (h : Flush L n c lag odd x) :
    (x.flying = true ∧ x.inFlight = true ∧ x.fall = false) ∨
      (x.flying = false ∧ x.inFlight = x.fall) := by
  have hio := h.ioAck_eq
  cases hf : x.flying
  · right
    rw [Sys.flying, Bool.or_eq_false_iff] at hf
    refine ⟨rfl, ?_⟩
    rw [Sys.inFlight, Sys.fall, hf.1, hf.2, ← hio, hf.2]
    simp
  · left
    refine ⟨rfl, ?_, Bool.eq_false_iff.mpr fun hfall => ?_⟩
    · rw [Sys.inFlight, ← hio, show (x.tgt.ioWr || x.ioAck) = true from hf, Bool.true_or]
    · obtain ⟨hidle, -, hwr⟩ := h.fall_cases hfall
      rw [Sys.flying, hio, hidle, hwr] at hf
      cases hf

theorem State.halfTaken_eq (x : Sys) (d : Bool) : x.tgt.halfTaken x.ioAck d =
    (x.flying && d == x.tgt.sdBuffSel || x.tgt.wrPending && d == (x.tgt.sdBuffSel ^^ x.flying)) :=
  rfl

/-- Where REQ is up in the data phase of a WRITE the half-buffer of `data_cnt` is free, and if the
other one is free too everything has been flushed. -/
theorem WrInv.room (h : WrInv L n c lag false x) (hp : x.tgt.phase = .dataIn)
    (he : x.tgt.wrEdge = false)
    (hr : (x.flying || x.tgt.wrPending) = true → x.tgt.dataCntHalf ≠ x.tgt.sdBuffSel) :
    x.tgt.halfTaken x.ioAck x.tgt.dataCntHalf = false ∧
      x.tgt.dataCnt / 512 ≤ c + x.fall.toNat + 1 ∧
      (x.tgt.halfTaken x.ioAck (!x.tgt.dataCntHalf) = false →
        x.tgt.dataCnt / 512 ≤ c + x.fall.toNat) := by
  have hcnt := h.cnt
  have hsel := h.sel
  rw [State.blocks, if_pos hp, he, Bool.toNat_false, Nat.add_zero] at hcnt
  rw [Bool.xor_false] at hsel
  rw [State.halfTaken_eq, State.halfTaken_eq]
  rcases h.toFlush.flying_cases with ⟨hf, hin, hfall⟩ | ⟨hf, hin⟩
  · rw [hf] at hr ⊢
    rw [hin, Bool.toNat_true] at hcnt
    have hne := hr rfl
    have hpend : x.tgt.wrPending = false := Bool.eq_false_iff.mpr fun hw => by
      rw [hw, Bool.toNat_true] at hcnt
      refine hne ?_
      rw [hsel, State.dataCntHalf, Bool.eq_iff_iff]
      simp
      omega
    rw [hpend, Bool.toNat_false] at hcnt
    rw [hpend, hfall]
    cases hd : x.tgt.dataCntHalf <;> cases hs : x.tgt.sdBuffSel <;> simp [hd, hs] at hne ⊢ <;> omega
  · rw [hf] at hr ⊢
    rw [hin] at hcnt
    cases hw : x.tgt.wrPending
    · rw [hw, Bool.toNat_false] at hcnt
      simp
      omega
    · rw [hw, Bool.toNat_true] at hcnt
      have hne := hr (by rw [hw]; rfl)
      cases hd : x.tgt.dataCntHalf <;> cases hs : x.tgt.sdBuffSel <;> simp [hd, hs] at hne ⊢ <;> omega

/-- The half-buffer of a byte on its way is free. -/
theorem WrInv.half_free (h : WrInv L n c lag false x) (hp : x.tgt.phase = .dataIn)
    (hle : x.tgt.dataCnt / 512 ≤ c + 1) : x.tgt.halfTaken x.ioAck x.tgt.dataCntHalf = false := by
  have hcnt := h.cnt
  have hsel := h.sel
  rw [State.blocks, if_pos hp] at hcnt
  rw [Bool.xor_false] at hsel
  have hne : x.tgt.dataCnt / 512 = c + 1 → x.tgt.dataCntHalf ≠ x.tgt.sdBuffSel := fun hq heq => by
    rw [hsel, State.dataCntHalf, Bool.eq_iff_iff] at heq
    simp at heq
    omega
  rw [State.halfTaken_eq]
  rcases h.toFlush.flying_cases with ⟨hf, hin, -⟩ | ⟨hf, -⟩
  · rw [hin, Bool.toNat_true] at hcnt
    have hpend : x.tgt.wrPending = false := by
      rw [← Bool.toNat_eq_zero]
      omega
    simp [hf, hpend, hne (by omega)]
  · cases hw : x.tgt.wrPending
    · simp [hf]
    · rw [hw, Bool.toNat_true] at hcnt
      simp [hf, hne (by omega)]

/-- The data phase of a WRITE of `n` blocks, `c` of them flushed: what is on its way, and what the
access under way will send, goes to a half-buffer that is free. -/
structure Fills (L n c : ℕ) (lag : Bool) (b : Bench) : Prop where
  inv : WrInv L n c lag false b.chip.sys
  edge : b.chip.sys.tgt.wrEdge = true → b.chip.ncr.dmaSettle ≠ 0
  ahead : b.chip.sys.tgt.dataCnt < b.chip.lead → (b.chip.lead - 1) / 512 ≤ c + 1
  fits : b.seen = true → ∀ a, b.acc = some a → a.bytes ≠ 0 →
    (b.chip.lead + a.bytes - 1) / 512 ≤ c + 1

/-- The first byte of an access that sees DREQ goes to a half-buffer that is free. -/
theorem Fills.room (h : Fills L n c lag b) (hp : b.chip.sys.tgt.phase = .dataIn)
    (hd : b.chip.dreq = true) : b.chip.sys.tgt.halfTaken b.chip.sys.ioAck
        b.chip.sys.tgt.dataCntHalf = false ∧
      b.chip.sys.tgt.dataCnt / 512 ≤ c + b.chip.sys.fall.toNat + 1 ∧
      (b.chip.sys.tgt.halfTaken b.chip.sys.ioAck (!b.chip.sys.tgt.dataCntHalf) = false →
        b.chip.sys.tgt.dataCnt / 512 ≤ c + b.chip.sys.fall.toNat) := by
  obtain ⟨hq, hreq⟩ := Chip.dreq_spec hd
  refine h.inv.room hp ?_ (req_dataIn hp hreq).2
  exact Bool.eq_false_iff.mpr fun he => h.edge he (not_busy hq).2.2

namespace Fills

theorem wrOk (h : Fills L n c lag b) (hm : Moves true b) (ht : Train true b) :
    WrOk n c false b.chip.sys (b.chip.bus P k.clock) := by
  have hp : b.chip.sys.tgt.phase = .dataIn := hm.phase
  refine ⟨ht.armed.rst, fun _ ha ho => ?_, fun hs => by cases hp.symm.trans hs⟩
  rw [show (b.chip.bus P k.clock).ack = b.chip.ncr.dmaAck from ht.armed.scsiAck] at ha
  have hle := hm.le
  have hahead := h.ahead
  rw [h.inv.dataLen_eq] at hle
  rw [Chip.lead, ha, ho, Bool.toNat_true, Bool.toNat_false] at hle hahead
  rw [Bool.toNat_false]
  omega

theorem edge_next (h : Fills L n c lag b) (hm : Moves true b) (ht : Train true b)
    (hp' : (b.step P E k).chip.sys.tgt.phase = .dataIn)
    (he : (b.step P E k).chip.sys.tgt.wrEdge = true) :
    (b.step P E k).chip.ncr.dmaSettle ≠ 0 := by
  have hedge := h.inv.edge_dataIn (P := P) (E := E) (b := b.chip.bus P k.clock) (m := k.hps)
    ht.armed.rst hm.phase hp'
  rw [show (b.step P E k).chip.sys.tgt.wrEdge = _ from hedge, decide_eq_true_eq] at he
  have hset : b.chip.ncr.dmaSettle = 3 := (ht.shake.adv he.1).1
  change dmaSettleNext b.chip.ncr ≠ 0
  rw [dmaSettleNext, hset]
  split_ifs <;> decide

theorem fits_next (h : Fills L n c lag b) (hm : Moves true b) (ht : Train true b)
    (ho : Obeys true b k) (hf : Fitting b k) {a : Access} (hk : k.acc = some a)
    (h0 : a.bytes ≠ 0) (hs : b.seen = true ∨ b.chip.dreq = true) :
    (b.chip.lead + a.bytes - 1) / 512 ≤ c + b.chip.sys.fall.toNat + 1 := by
  rcases hs with hseen | hdreq
  · obtain ⟨a', hacc, -⟩ := hm.fits hseen
    rw [ho.held a' a hacc hk] at h0 ⊢
    have := h.fits hseen a' hacc h0
    omega
  · obtain ⟨-, hroom, hcross⟩ := h.room hm.phase hdreq
    have hfit := hf a ⟨hk, h0, hdreq, hm.data⟩
    have hbytes := a.bytes_le
    rw [ht.lead_of_quiet (Chip.dreq_spec hdreq).1]
    by_cases hc : 512 < b.chip.sys.tgt.dataCnt % 512 + a.bytes
    · have := hcross (hfit.half hc hm.phase)
      omega
    · omega

theorem step (h : Fills L n c lag b) (hm : Moves true b) (ht : Train true b)
    (ho : Obeys true b k) (hf : Fitting b k)
    (hp' : (b.step P E k).chip.sys.tgt.phase = .dataIn) :
    Fills L n (c + b.chip.sys.fall.toNat) lag (b.step P E k) := by
  have hlead := hm.lead_next (P := P) (E := E) ht ho
  have hcnt := (hm.counted_next (P := P) (E := E) (k := k)).2
  have hrec : (b.step P E k).chip.sys.tgt.phase.receives = true := by rw [hp']; rfl
  refine ⟨h.inv.step (h.wrOk hm ht) hrec, h.edge_next hm ht hp',
    fun hlt => ?_, fun hs a hk h0 => ?_⟩
  · rw [hlead] at hlt ⊢
    cases he : b.ends k with
    | none =>
      rw [he] at hlt
      simp only [Option.elim, Nat.add_zero] at hlt ⊢
      have := h.ahead (by omega)
      omega
    | some a =>
      obtain ⟨hacc, -, hseen, -, -⟩ := ht.ends_spec ho he
      simp only [Option.elim]
      by_cases h0 : a.bytes = 0
      · rw [he, Option.elim, h0, Nat.add_zero] at hlt
        have := h.ahead (by omega)
        rw [h0]
        omega
      · have := h.fits hseen a hacc h0
        omega
  · have hk : k.acc = some a := hk
    have hends : b.ends k = none := by rw [Bench.ends, hk]; rfl
    rw [hlead, hends]
    exact h.fits_next hm ht ho hf hk h0 (Bench.seen_next hs).2

end Fills

/-! ### Runs of accesses that fit -/

/-- The half-buffers in the data phase of a command that receives data. -/
def Halves (b : Bench) : Prop :=
  (b.chip.sys.tgt.cmdWrite = true ∧ ∃ L n c lag, Fills L n c lag b) ∨
    (b.chip.sys.tgt.cmdWrite = false ∧ Calm b.chip.sys)

theorem Calm.halfTaken_eq (h : Calm x) (d : Bool) : x.tgt.halfTaken x.ioAck d = false := by
  simp [State.halfTaken, h.noWr, Sys.ioAck, h.hps]

theorem Halves.step (h : Halves b) (hm : Moves true b) (ht : Train true b) (ho : Obeys true b k)
    (hf : Fitting b k) (hp' : (b.step P E k).chip.sys.tgt.phase = .dataIn) :
    Halves (b.step P E k) := by
  have hp : b.chip.sys.tgt.phase = .dataIn := hm.phase
  have hw : (b.step P E k).chip.sys.tgt.cmdWrite = b.chip.sys.tgt.cmdWrite :=
    cmdWrite_congr (cmd_next (by rw [hp]; decide))
  rcases h with ⟨hwrite, L, n, c, lag, hfill⟩ | ⟨hwrite, hcalm⟩
  · exact .inl ⟨hw.trans hwrite, L, n, _, lag, hfill.step hm ht ho hf hp'⟩
  · refine .inr ⟨hw.trans hwrite, hcalm.step ?_ ?_⟩
    · simp [reqRd, hp]
    · simp [reqWr, hwrite]

/-- The half-buffer of the next byte is free where REQ is up, and where a byte is stored. -/
theorem Halves.half_free (h : Halves b) (hm : Moves true b)
    (hd : b.chip.dreq = true ∨ b.chip.sys.tgt.stbAdv = true) :
    b.chip.sys.tgt.halfTaken b.chip.sys.ioAck b.chip.sys.tgt.dataCntHalf = false := by
  rcases h with ⟨-, L, n, c, lag, hfill⟩ | ⟨-, hcalm⟩
  · rcases hd with hd | hd
    · exact (hfill.room hm.phase hd).1
    · refine hfill.inv.half_free hm.phase ?_
      have := (hfill.inv.pipe hm.phase (.inr hd)).2
      rwa [Bool.toNat_false, Nat.add_zero] at this
  · exact hcalm.halfTaken_eq _

structure Carried (dir : Bool) (b : Bench) : Prop where
  train : Train dir b
  store : b.chip.sys.tgt.buffer0Wr = true ∨ b.chip.sys.tgt.buffer1Wr = true →
    dir = true ∧ b.chip.sys.tgt.stbAdv = true
  state : (Moves dir b ∧ (dir = true → Halves b)) ∨ Over b

namespace Carried

theorem store_next (h : Carried dir b)
    (hs : (b.step P E k).chip.sys.tgt.buffer0Wr = true ∨
      (b.step P E k).chip.sys.tgt.buffer1Wr = true) :
    dir = true ∧ (b.step P E k).chip.sys.tgt.stbAdv = true := by
  have ht := h.train
  have hstb : b.chip.sys.tgt.stbAck = true ∧ b.chip.sys.tgt.phase = .dataIn := by
    rcases hs with hs | hs
    all_goals
      simp only [Bench.step, Chip.step, Sys.step, Scsi.step, buffer0WrNext, buffer1WrNext,
        Bool.and_eq_true, beq_iff_eq] at hs
      exact hs.1
  have hold := ht.shake.str hstb.1
  have hack : b.chip.ncr.dmaAck = false := Bool.eq_false_iff.mpr fun ha => by
    rw [ht.alt ha] at hold
    cases hold
  refine ⟨?_, ?_⟩
  · rcases h.state with ⟨hm, -⟩ | hover
    · have hp := hm.phase.symm.trans hstb.2
      cases dir
      · cases hp
      · rfl
    · cases hover.phase.symm.trans hstb.2
  · rw [ht.armed.stbAdv_step, hold, hack]
    rfl

theorem step (h : Carried dir b) (ho : Obeys dir b k) (hf : Fitting b k) :
    Carried dir (b.step P E k) := by
  have ht := h.train
  refine ⟨ht.step ho, h.store_next, ?_⟩
  rcases h.state with ⟨hm, hh⟩ | hover
  · by_cases hd : (b.step P E k).chip.sys.tgt.phase = dataPhase dir
    · refine .inl ⟨hm.step ht ho hf hd, fun hdir => ?_⟩
      subst hdir
      exact (hh rfl).step hm ht ho hf hd
    · exact .inr (hm.ended ht ho hd)
  · exact .inr (hover.step ht)

theorem covers (h : Carried dir b) (hf : Fitting b k) : Covers b k := by
  intro a hs
  have hdreq := hs.2.2.1
  have hreq := (Chip.dreq_spec hdreq).2
  refine (hf a hs).transferable a.bytes_le (fun hp hr => ?_) fun hp => ?_
  · have := (req_dataOut hp hr hreq).1
    rw [State.rdCurBlk]
    omega
  · rcases h.state with ⟨hm, hh⟩ | hover
    · have hdir : dir = true := by
        have := hm.phase.symm.trans hp
        cases dir
        · cases this
        · rfl
      subst hdir
      exact (hh rfl).half_free hm (.inl hdreq)
    · cases hover.phase.symm.trans hp

theorem safe (h : Carried dir b) : Safe b := by
  refine ⟨fun hs => ?_, fun h1 h2 => ?_⟩
  · obtain ⟨hdir, hadv⟩ := h.store hs
    subst hdir
    rcases h.state with ⟨hm, hh⟩ | hover
    · have hp : b.chip.sys.tgt.phase = .dataIn := hm.phase
      refine ⟨hp, hm.adv_lt hadv, fun hx => (by cases hp.symm.trans hx), fun _ => ?_⟩
      exact (hh rfl).half_free hm (.inr hadv)
    · rw [hover.still.2.2.2] at hadv
      cases hadv
  · rcases h.state with ⟨hm, -⟩ | hover
    · rcases hm.data with hp | hp
      · exact absurd hp h1
      · exact absurd hp h2
    · exact hover

/-- A data phase reached by a polite initiator, with the adapter set up and at rest. -/
theorem of_poised {v : ℕ → Tick} {t : ℕ} (h0 : Commanded r) (hsel : r.sys.tgt.sdBuffSel = false)
    (hrun : CommandRun P E r v t) (hp : Poised dir b) (hb : b.chip.rig = r.run P E v t)
    (hd : b.chip.sys.tgt.phase = dataPhase dir) : Carried dir b := by
  have hload := hrun.loadState h0 t
  have hset : (r.run P E v t).settle = 0 := by
    rw [← hb]
    exact (not_busy hp.quiet).2.2
  have hstore : ¬ ((r.run P E v t).sys.tgt.buffer0Wr = true ∨
      (r.run P E v t).sys.tgt.buffer1Wr = true) := by
    cases t with
    | zero => simp [h0.fresh.noStore]
    | succ t =>
      rw [Rig.run_succ] at hset ⊢
      exact fun hs => ((hrun.upTo (by omega)).loadState h0 t).shake.store_step hs hset
  have hwr := (hrun.writeState h0 t).receives
  rw [hsel] at hwr
  rw [← hb] at hload hstore hwr
  have ht := hp.train hload.shake
  have hlead := ht.lead_of_quiet hp.quiet
  have hdata : b.chip.sys.tgt.phase = .dataOut ∨ b.chip.sys.tgt.phase = .dataIn := by
    rw [hd]
    exact dataPhase_eq dir
  have hloaded := hload.data hdata
  have hle : b.chip.sys.tgt.dataCnt ≤ b.chip.sys.tgt.dataLen :=
    Nat.le_of_add_right_le hloaded.le
  refine ⟨ht, fun hs => absurd hs hstore, .inl ⟨⟨hd, hloaded.counted, ?_, ?_⟩, fun hdir => ?_⟩⟩
  · rw [hlead]
    exact hle
  · simp [hp.none]
  · subst hdir
    by_cases hw : b.chip.sys.tgt.cmdWrite = true
    · obtain ⟨hst, -⟩ := hwr (by rw [show b.chip.rig.sys.tgt.phase = .dataIn from hd]; rfl) hw
      refine .inl ⟨hw, _, _, _, _, hst.inv, fun he => ?_, ?_, ?_⟩
      · rw [show b.chip.ncr.dmaSettle = 2 from hst.edge he]
        decide
      · rw [hlead]
        omega
      · simp [hp.none]
    · rw [Bool.not_eq_true] at hw
      exact .inr ⟨hw, hloaded.calm hd hw⟩

end Carried

/-- Along a run of accesses after a command that started with nothing outstanding, DREQ covers every
access it is up in and nothing goes wrong, exactly if every access it is up in fits. -/
theorem dreq_covers {v : ℕ → Tick} {u : ℕ → Beat} {t₀ t : ℕ} (h0 : Commanded r)
    (hsel : r.sys.tgt.sdBuffSel = false) (hrun : CommandRun P E r v t₀) (hp : Poised dir b)
    (hb : b.chip.rig = r.run P E v t₀) (hd : b.chip.sys.tgt.phase = dataPhase dir)
    (ho : ∀ j < t, Obeys dir (b.run P E u j) (u j)) :
    (∀ j ≤ t, Covers (b.run P E u j) (u j) ∧ Safe (b.run P E u j)) ↔
      ∀ j ≤ t, Fitting (b.run P E u j) (u j) := by
  constructor
  · intro h j hj a hs
    exact ((h j hj).1 a hs).fits hs.2.1
  · intro h j hj
    have hcarried : Carried dir (b.run P E u j) := by
      induction j with
      | zero => exact .of_poised h0 hsel hrun hp hb hd
      | succ j ih =>
        rw [Bench.run_succ]
        exact (ih (by omega)).step (ho j (by omega)) (h j (by omega))
    exact ⟨hcarried.covers (h j hj), hcarried.safe⟩

/-! ### A command of one byte -/

instance (s : State) (io : Bool) (w : ℕ) : Decidable (s.Fits io w) :=
  decidable_of_iff (s.dataCnt + w ≤ s.dataLen ∧
    (512 < s.dataCnt % 512 + w → s.phase = .dataOut → s.cmdRead = true →
      s.rdCurBlk + 1 < s.rdHpsBlk) ∧
    (512 < s.dataCnt % 512 + w → s.phase = .dataIn → s.halfTaken io (!s.dataCntHalf) = false))
    ⟨fun h => ⟨h.1, h.2.1, h.2.2⟩, fun h => ⟨h.1, h.2, h.3⟩⟩

instance (b : Bench) (k : Beat) : Decidable (Fitting b k) :=
  decidable_of_iff (∀ a ∈ k.acc, a.bytes ≠ 0 → b.chip.dreq = true →
      (b.chip.sys.tgt.phase = .dataOut ∨ b.chip.sys.tgt.phase = .dataIn) →
        b.chip.sys.tgt.Fits b.chip.sys.ioAck a.bytes)
    ⟨fun h a hs => h a hs.1 hs.2.1 hs.2.2.1 hs.2.2.2,
      fun h a ha h0 hd hp => h a ⟨ha, h0, hd, hp⟩⟩

/-- INQUIRY with an allocation length of one byte. -/
def inquiryOne : ℕ → Byte
  | 0 => 0x12
  | 4 => 1
  | _ => 0

def sendInquiry : Rig → Tick := Rig.answer inquiryOne (Rig.serve fun _ => false)

/-- The first clock in which the byte is on offer. -/
def Rig.inquired : Rig :=
  loop (Rig.step .least .counting) (fun _ => sendInquiry) .selected 30

theorem CommandRun.inquired : CommandRun .least .counting .selected
    (loopStream (Rig.step .least .counting) (fun _ => sendInquiry) .selected) 30 ∧
    Rig.inquired.taken.chip.rig = Rig.selected.run .least .counting
      (loopStream (Rig.step .least .counting) (fun _ => sendInquiry) .selected) 30 ∧
    Rig.inquired.taken.chip.sys.tgt.phase = .dataOut := by
  have hscan : scan (Rig.step .least .counting) (fun _ => sendInquiry)
      (fun r k => r.inCommand k && true)
      (fun r => r.inCommand (sendInquiry r) && (r.sys.tgt.phase == .dataOut && r.settle == 0))
      30 0 .selected = true := by
    decide +kernel
  obtain ⟨hrun, -, -, hfin⟩ := CommandRun.of_scan hscan
  have hinq : Rig.selected.run .least .counting (loopStream (Rig.step .least .counting)
      (fun _ => sendInquiry) .selected) 30 = .inquired := run_loopStream ..
  rw [hinq, Bool.and_eq_true, beq_iff_eq, beq_iff_eq] at hfin
  exact ⟨hrun, (Rig.rig_taken hfin.2).trans hinq.symm, hfin.1⟩

/-- One read. -/
def readOnce (w : Width) (t : ℕ) (_ : Bench) : Beat where
  acc := if t < 3 then some ⟨false, w, 0⟩ else none
  wdata := 0
  hps := ⟨false, false, 0, 0⟩

theorem dreq_covers_byte : ∃ u : ℕ → Beat, ∀ j ≤ 12,
    Covers (Rig.inquired.taken.run .least .counting u j) (u j) ∧
      Safe (Rig.inquired.taken.run .least .counting u j) := by
  have hscan : scan (Bench.step .least .counting) (readOnce .byte)
      (fun b k => decide (Obeys false b k) && decide (Fitting b k)) (fun _ => true)
      13 0 Rig.inquired.taken = true := by
    decide +kernel
  obtain ⟨hok, -⟩ := run_of_scan hscan
  simp only [Bool.and_eq_true, decide_eq_true_eq] at hok
  obtain ⟨hrun, hrig, hdata⟩ := CommandRun.inquired
  exact ⟨_, (dreq_covers .selected rfl hrun Rig.inquired.poised_taken hrig hdata
    fun j hj => (hok j (by omega)).1).mpr fun j hj => (hok j (by omega)).2⟩

/-- A word read of a command of one byte takes the status with its second pulse. -/
theorem surplus_ack : ¬ ∀ (P : Params) (E : Env) (r : Rig) (v : ℕ → Tick) (t₀ : ℕ) (dir : Bool)
    (b : Bench) (u : ℕ → Beat) (t : ℕ), Commanded r → r.sys.tgt.sdBuffSel = false →
    CommandRun P E r v t₀ → Poised dir b → b.chip.rig = r.run P E v t₀ →
    b.chip.sys.tgt.phase = dataPhase dir → (∀ j < t, Obeys dir (b.run P E u j) (u j)) →
    Covers (b.run P E u t) (u t) ∧ Safe (b.run P E u t) := by
  intro hall
  have hscan : scan (Bench.step .least .counting) (readOnce .word)
      (fun b k => decide (Obeys false b k)) (fun b => b.chip.sys.tgt.phase == .messageOut)
      10 0 Rig.inquired.taken = true := by
    decide +kernel
  obtain ⟨hok, hfin⟩ := run_of_scan hscan
  simp only [decide_eq_true_eq, beq_iff_eq] at hok hfin
  obtain ⟨hrun, hrig, hdata⟩ := CommandRun.inquired
  have hover := (hall _ _ _ _ _ false _ _ 10 .selected rfl hrun Rig.inquired.poised_taken hrig hdata
    hok).2.handshake (by rw [hfin]; decide) (by rw [hfin]; decide)
  cases hfin.symm.trans hover.phase

end Scsi
