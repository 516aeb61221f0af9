import LBMacTwo.Scsi.Command

/-!
# The read ring

`Fetch L n` holds of a target that fetches the sectors of a READ from `L`: `lba` is `L` plus the
number of counted sectors, the request the HPS works on is for `lba`, and what it has streamed is in
the slot of the next sector to count. It is kept as long as no read window closes short and the bus
is not reset (`FetchOk`), whatever the initiator does.

`RdInv L n` adds what depends on the initiator: the ring is never overrun, and every slot between
the sector being read and the last one counted holds its sector. It is kept if besides `ack` is
raised only on bytes that are there (`RdOk`).
-/

namespace Scsi

/-- The first `k` words of ring slot `b % RING_BLOCKS` hold sector `lba`. -/
def SlotHas (P : Params) (E : Env) (s : State) (b lba k : ℕ) : Prop :=
  ∀ w < k, s.buffer0.Has (b % P.ringBlocks * 256 + w) (E.disk lba (2 * w)) ∧
    s.buffer1.Has (b % P.ringBlocks * 256 + w) (E.disk lba (2 * w + 1))

/-- The fetch engine against the HPS: at rest or requesting, just after a full window, with its
request taken, inside the window. -/
inductive RdEngine (P : Params) (E : Env) (s : State) : Hps → Prop
  | rest : s.oldIoAck = false → RdEngine P E s .idle
  | closing : s.oldIoAck = true → s.ioRd = false → s.fillWords = 256 →
      SlotHas P E s s.rdHpsBlk s.lba 256 → RdEngine P E s .idle
  | posted : s.oldIoAck = false → s.ioRd = true → RdEngine P E s (.posted .rd s.lba)
  | window (w : ℕ) : (s.oldIoAck = true → s.ioRd = false) → w ≤ 256 → s.fillWords = w →
      SlotHas P E s s.rdHpsBlk s.lba w → RdEngine P E s (.window .rd s.lba w)

/-- The phases of a command that returns data. -/
def Phase.returns : Phase → Bool
  | .dataOut | .statusOut | .messageOut => true
  | _ => false

/-- A fetch is requested, taken, streaming, or has just ended. -/
def Sys.fetching (x : Sys) : Prop := x.tgt.ioRd = true ∨ x.hps ≠ .idle ∨ x.tgt.oldIoAck = true

structure Fetch (P : Params) (E : Env) (L n : ℕ) (x : Sys) : Prop where
  phase : x.tgt.phase.returns = true
  read : x.tgt.cmdRead = true
  tlen : x.tgt.tlen = n
  flush : x.tgt.rdFlushPending = false
  noWr : x.tgt.ioWr = false ∧ x.tgt.wrPending = false
  noStore : x.tgt.buffer0Wr = false ∧ x.tgt.buffer1Wr = false
  lba : x.tgt.lba = (L + x.tgt.rdHpsBlk) % 2 ^ 32
  blk_le : x.tgt.rdHpsBlk ≤ n + 1
  room : x.fetching → x.tgt.rdHpsBlk ≤ n
  engine : RdEngine P E x.tgt x.hps

/-- No reset, and no window closing short of its 256 words. -/
structure FetchOk (E : Env) (x : Sys) (b : Bus) (m : HpsMove) : Prop where
  rst : b.rst = false
  full : x.hps.closesShort E m = false

variable {P : Params} {E : Env} {L n : ℕ} {x : Sys} {b : Bus} {m : HpsMove}

theorem Phase.returns_spec {p : Phase} (h : p.returns = true) :
    p ≠ .idle ∧ p ≠ .cmdIn ∧ p ≠ .dataIn ∧ p.transfers = true := by
  cases p <;> simp_all [Phase.returns, Phase.transfers]

/-! ### One clock of the fetch engine -/

/-- The HPS has just closed its window. -/
def Sys.fall (x : Sys) : Bool := x.tgt.oldIoAck && !x.ioAck

theorem Sys.ioAck_eq (h : x.tgt.phase ≠ .idle) : x.ioAck = x.hps.ack := by
  simp [Sys.ioAck, State.bsy, h]

theorem Sys.oldIoAck_step : (x.step P E b m).tgt.oldIoAck = x.ioAck := rfl

theorem Sys.ioRd_next_of_ack (hr : b.rst = false) (hx : x.ioAck = true) :
    (x.step P E b m).tgt.ioRd = false := by
  simp [Sys.step, Scsi.step, ioRdNext, Sys.input, hx, hr]

theorem Sys.ioRd_next_of_ioRd (hr : b.rst = false) (hx : x.ioAck = false) (hi : x.tgt.ioRd = true) :
    (x.step P E b m).tgt.ioRd = true := by
  simp [Sys.step, Scsi.step, ioRdNext, Sys.input, hx, hr, hi]

theorem Sys.ioRd_next_cases (hi : (x.step P E b m).tgt.ioRd = true) :
    x.tgt.ioRd = true ∨ reqRd P x.tgt = true := by
  simp only [Sys.step, Scsi.step, ioRdNext] at hi
  split_ifs at hi with h1 h2 h3
  · simp only [issueRd, Bool.and_eq_true] at h3
    exact .inr h3.1.1.2
  · exact .inl hi

theorem Sys.fillWords_next_of_not_ack (hx : x.ioAck = false) :
    (x.step P E b m).tgt.fillWords = 0 := by
  simp [Sys.step, Scsi.step, fillWordsNext, Sys.input, hx]

theorem Sys.rdBusy_next (hr : b.rst = false) :
    (x.step P E b m).tgt.rdBusy =
      (!x.fall && (x.tgt.rdBusy || issueRd P x.tgt (x.input E b m))) := by
  simp only [Sys.step, Scsi.step, rdBusyNext, ioAckFall, Sys.input, hr]
  rw [← Sys.fall]
  cases x.fall <;> simp [Bool.or_comm]

namespace Fetch

theorem ioAck_eq (h : Fetch P E L n x) : x.ioAck = x.hps.ack :=
  Sys.ioAck_eq (Phase.returns_spec h.phase).1

theorem write (h : Fetch P E L n x) : x.tgt.cmdWrite = false := State.cmdWrite_of_cmdRead h.read

/-- The states in which `ioAck` falls. -/
theorem fall_cases (h : Fetch P E L n x) (hf : x.fall = true) :
    x.hps = .idle ∧ x.tgt.oldIoAck = true ∧ x.tgt.ioRd = false ∧ x.tgt.fillWords = 256 ∧
      SlotHas P E x.tgt x.tgt.rdHpsBlk x.tgt.lba 256 := by
  rw [Sys.fall, h.ioAck_eq] at hf
  generalize hh : x.hps = hps at hf
  have he := h.engine
  rw [hh] at he
  cases he with
  | rest h1 => simp [h1] at hf
  | closing h1 h2 h3 h4 => exact ⟨rfl, h1, h2, h3, h4⟩
  | posted h1 => simp [h1] at hf
  | window w => simp at hf

theorem rdHpsBlk_next (h : Fetch P E L n x) (hn : n < 65536) :
    (x.step P E b m).tgt.rdHpsBlk = x.tgt.rdHpsBlk + x.fall.toNat := by
  have h1 := h.blk_le
  simp only [Sys.step, Scsi.step, rdHpsBlkNext, rdCredit, ioAckFall, Sys.input, h.read, h.flush,
    (Phase.returns_spec h.phase).2.2.2]
  rw [← Sys.fall]
  cases hf : x.fall
  · simp
  · simp [(h.fall_cases hf).2.2.2.1]
    omega

theorem lba_next (h : Fetch P E L n x) :
    (x.step P E b m).tgt.lba = (x.tgt.lba + x.fall.toNat) % 2 ^ 32 := by
  have h1 := h.lba
  have h2 := (Phase.returns_spec h.phase).2.1
  simp only [Sys.step, Scsi.step, lbaNext, ioAckFall, State.cmdAccept, Sys.input, h.flush,
    beq_eq_false_iff_ne.mpr h2]
  rw [← Sys.fall]
  cases hf : x.fall
  · simp; omega
  · simp

/-! ### The words that have been streamed -/

theorem hpsAddr_eq (h : Fetch P E L n x) (i : In) :
    hpsAddr P x.tgt i = x.tgt.rdHpsBlk % P.ringBlocks * 256 + i.sdBuffAddr % 256 := by
  rw [hpsAddr, h.write]; rfl

/-- A slot keeps its first `k` words unless the HPS is streaming into one of them. -/
theorem slotHas_step (h : Fetch P E L n x) {c lba k : ℕ} (hk : k ≤ 256)
    (hs : SlotHas P E x.tgt c lba k)
    (hne : ∀ l w, x.hps = .window .rd l w →
      c % P.ringBlocks = x.tgt.rdHpsBlk % P.ringBlocks → k ≤ w) :
    SlotHas P E (x.step P E b m).tgt c lba k := by
  have hc : ∀ w' < k, hpsFillWr (x.input E b m) = true →
      c % P.ringBlocks * 256 + w' ≠ hpsAddr P x.tgt (x.input E b m) := by
    intro w' hw' hf heq
    rw [h.hpsAddr_eq] at heq
    simp only [Sys.input, hpsFillWr] at heq hf
    have he := h.engine
    generalize hh : x.hps = hps at he heq hf
    rw [h.ioAck_eq, hh] at hf
    cases he with
    | rest | closing | posted => simp at hf
    | window w =>
      simp only [Hps.wr, Hps.addr, Bool.and_eq_true, decide_eq_true_eq] at hf heq
      have hslot : c % P.ringBlocks = x.tgt.rdHpsBlk % P.ringBlocks := by omega
      have := hne _ _ hh hslot
      omega
  intro w' hw'
  obtain ⟨h0, h1⟩ := hs w' hw'
  exact ⟨h0.step h.noStore.1 (hc w' hw'), h1.step h.noStore.2 (hc w' hw')⟩

/-- A strobed word goes to its place in the slot. -/
theorem slotHas_fill (h : Fetch P E L n x) {l w : ℕ} (hh : x.hps = .window .rd l w)
    (hw : w ≤ 256) (hs : SlotHas P E x.tgt x.tgt.rdHpsBlk l w) :
    SlotHas P E (x.step P E b m).tgt x.tgt.rdHpsBlk l (x.hps.wordsAfter m) := by
  have hold := h.slotHas_step (b := b) (m := m) hw hs fun l' w' h1 _ => by
    rw [hh] at h1; cases h1; exact Nat.le_refl _
  intro w' hw'
  by_cases hlt : w' < w
  · exact hold w' hlt
  · -- the word of this clock
    rw [hh] at hw'
    simp only [Hps.wordsAfter, Hps.wr] at hw'
    have hst : (m.strobe && decide (w < 256)) = true := by
      by_contra hc
      rw [Bool.not_eq_true] at hc
      simp [hc] at hw'
      omega
    rw [hst, Bool.toNat_true] at hw'
    obtain rfl : w' = w := by omega
    have hf : hpsFillWr (x.input E b m) = true := by
      rw [Bool.and_eq_true] at hst
      simp [hpsFillWr, Sys.input, h.ioAck_eq, hh, Hps.wr, hst, State.bsy,
        (Phase.returns_spec h.phase).1]
    have haddr : (x.input E b m).sdBuffAddr = w' := by simp [Sys.input, hh, Hps.addr]
    have hdata : (x.input E b m).sdBuffDout = E.diskWord l w' := by simp [Sys.input, hh, Hps.dout]
    have ha : hpsAddr P x.tgt (x.input E b m) = x.tgt.rdHpsBlk % P.ringBlocks * 256 + w' := by
      rw [h.hpsAddr_eq, haddr]
      simp only [Bool.and_eq_true, decide_eq_true_eq] at hst
      rw [Nat.mod_eq_of_lt hst.2]
    have h0 := Dpram.has_step_self (r := x.tgt.buffer0) (p := buffer0In P x.tgt (x.input E b m))
      h.noStore.1 hf
    have h1 := Dpram.has_step_self (r := x.tgt.buffer1) (p := buffer1In P x.tgt (x.input E b m))
      h.noStore.2 hf
    rw [← ha]
    constructor
    · rw [show E.disk l (2 * w') = lowByte (x.input E b m).sdBuffDout by simp [hdata, Env.diskWord]]
      exact h0
    · rw [show E.disk l (2 * w' + 1) = highByte (x.input E b m).sdBuffDout by
        simp [hdata, Env.diskWord]]
      exact h1

/-! ### The engine steps with the HPS -/

theorem lba_lt (h : Fetch P E L n x) : x.tgt.lba < 2 ^ 32 := by
  rw [h.lba]; exact Nat.mod_lt _ (Nat.two_pow_pos 32)

theorem lba_next_of_not_fall (h : Fetch P E L n x) (hf : x.fall = false) :
    (x.step P E b m).tgt.lba = x.tgt.lba := by
  rw [h.lba_next, hf, Bool.toNat_false, Nat.add_zero, Nat.mod_eq_of_lt h.lba_lt]

theorem rdHpsBlk_next_of_not_fall (h : Fetch P E L n x) (hn : n < 65536) (hf : x.fall = false) :
    (x.step P E b m).tgt.rdHpsBlk = x.tgt.rdHpsBlk := by
  rw [h.rdHpsBlk_next hn, hf, Bool.toNat_false, Nat.add_zero]

theorem engine_step (h : Fetch P E L n x) (hn : n < 65536) (hk : FetchOk E x b m) :
    RdEngine P E (x.step P E b m).tgt (x.step P E b m).hps := by
  have hio := h.ioAck_eq
  have he := h.engine
  have hnw := h.noWr.1
  generalize hh : x.hps = hps at he
  rw [hh] at hio
  cases he with
  | rest h1 =>
    have hx : x.ioAck = false := hio
    have hf : x.fall = false := by simp [Sys.fall, h1]
    have hhps : (x.step P E b m).hps =
        if m.go && x.tgt.ioRd then .posted .rd x.tgt.lba else .idle := by
      simp [Sys.step, hh, Hps.step, hnw]
    by_cases hg : (m.go && x.tgt.ioRd) = true
    · rw [hhps, if_pos hg, ← h.lba_next_of_not_fall hf]
      rw [Bool.and_eq_true] at hg
      exact .posted hx (Sys.ioRd_next_of_ioRd hk.rst hx hg.2)
    · rw [hhps, if_neg hg]
      exact .rest hx
  | closing h1 h2 =>
    have hhps : (x.step P E b m).hps = .idle := by simp [Sys.step, hh, Hps.step, hnw, h2]
    rw [hhps]
    exact .rest hio
  | posted h1 h2 =>
    have hx : x.ioAck = false := hio
    have hf : x.fall = false := by simp [Sys.fall, h1]
    have hlba := h.lba_next_of_not_fall (b := b) (m := m) hf
    cases hg : m.go
    · rw [show (x.step P E b m).hps = .posted .rd (x.step P E b m).tgt.lba by
        rw [hlba]; simp [Sys.step, hh, Hps.step, hg]]
      exact .posted hx (Sys.ioRd_next_of_ioRd hk.rst hx h2)
    · rw [show (x.step P E b m).hps = .window .rd (x.step P E b m).tgt.lba 0 by
        rw [hlba]; simp [Sys.step, hh, Hps.step, hg]]
      refine .window 0 (fun ho => ?_) (by omega) (Sys.fillWords_next_of_not_ack hx)
        fun _ hw => absurd hw (by omega)
      rw [Sys.oldIoAck_step, hx] at ho
      cases ho
  | window w h1 h2 h3 h4 =>
    have hx : x.ioAck = true := hio
    have hf : x.fall = false := by simp [Sys.fall, hx]
    have hlba := h.lba_next_of_not_fall (b := b) (m := m) hf
    have hr := Sys.ioRd_next_of_ack (P := P) (E := E) (m := m) hk.rst hx
    have hw : (x.step P E b m).tgt.fillWords = x.hps.wordsAfter m := by
      rw [hh]
      simp only [Sys.step, Scsi.step, fillWordsNext, Sys.input, hx, hh, h3, State.bsy,
        Hps.wordsAfter]
      cases hs : (Hps.window .rd x.tgt.lba w).wr m
      · simp
      · have : w ≠ 511 := by omega
        simp [this, (Phase.returns_spec h.phase).1]
    have hs := h.slotHas_fill (b := b) (m := m) hh h2 h4
    rw [← h.rdHpsBlk_next_of_not_fall (b := b) (m := m) hn hf, ← hlba] at hs
    by_cases hc : m.go && (E.shortAcks || x.hps.wordsAfter m == 256)
    · have hfull : x.hps.wordsAfter m = 256 := by
        have hshort := hk.full
        rw [hh] at hc hshort ⊢
        rw [Bool.and_eq_true, Bool.or_eq_true, beq_iff_eq] at hc
        simp only [Hps.closesShort, hc.1, Bool.and_true, Bool.and_eq_false_iff,
          bne_eq_false_iff_eq] at hshort
        rcases hshort with hE | h256
        · exact hc.2.resolve_left (by simp [hE])
        · exact h256
      rw [show (x.step P E b m).hps = .idle by
        rw [hh] at hc; simp only [Sys.step, hh, Hps.step, hc]; rfl]
      rw [hfull] at hw hs
      exact .closing hx hr hw hs
    · rw [show (x.step P E b m).hps = .window .rd (x.step P E b m).tgt.lba (x.hps.wordsAfter m) by
        rw [hlba]; rw [hh] at hc; simp only [Sys.step, hh, Hps.step, hc]; rfl]
      exact .window _ (fun _ => hr) (by rw [hh]; exact Hps.wordsAfter_le h2 m) hw hs

theorem hps_next_idle (h : Fetch P E L n x) (hh : x.hps = .idle) (hi : x.tgt.ioRd = false) :
    (x.step P E b m).hps = .idle := by
  simp [Sys.step, hh, Hps.step, h.noWr.1, hi]

theorem room_next (h : Fetch P E L n x) (hn : n < 65536)
    (hf : (x.step P E b m).fetching) : (x.step P E b m).tgt.rdHpsBlk ≤ n := by
  have hroom : x.fetching → x.fall = false → (x.step P E b m).tgt.rdHpsBlk ≤ n := by
    intro h1 h2
    rw [h.rdHpsBlk_next_of_not_fall hn h2]
    exact h.room h1
  rcases hf with hi | hi | hi
  · rcases Sys.ioRd_next_cases hi with h1 | h1
    · refine hroom (.inl h1) (Bool.eq_false_iff.mpr fun h2 => ?_)
      rw [(h.fall_cases h2).2.2.1] at h1
      cases h1
    · -- the count is compared before the sector of a window just closed is added to it
      have hlt : x.tgt.rdHpsBlk < n := by
        simp only [reqRd, Bool.and_eq_true, decide_eq_true_eq, h.tlen] at h1
        exact h1.1.2
      rw [h.rdHpsBlk_next hn]
      have := x.fall.toNat_le
      omega
  · by_cases hh : x.hps = .idle
    · have h1 : x.tgt.ioRd = true := by
        by_contra h1
        exact hi (h.hps_next_idle hh (by simpa using h1))
      refine hroom (.inl h1) (Bool.eq_false_iff.mpr fun h2 => ?_)
      rw [(h.fall_cases h2).2.2.1] at h1
      cases h1
    · exact hroom (.inr (.inl hh)) (Bool.eq_false_iff.mpr fun h2 => hh (h.fall_cases h2).1)
  · rw [Sys.oldIoAck_step] at hi
    refine hroom (.inr (.inl fun hh => ?_)) (by simp [Sys.fall, hi])
    rw [h.ioAck_eq, hh] at hi
    cases hi

/-- A READ that starts with the HPS at rest. -/
theorem of_fresh (hs : Fresh x.tgt) (hp : x.tgt.phase.returns = true) (hr : x.tgt.cmdRead = true)
    (hh : x.hps = .idle) (ho : x.tgt.oldIoAck = false) (hf : x.tgt.rdFlushPending = false)
    (hl : x.tgt.lba = x.tgt.cmdLba) (ht : x.tgt.tlen = x.tgt.cmdTlen) :
    Fetch P E x.tgt.cmdLba x.tgt.cmdTlen x where
  phase := hp
  read := hr
  tlen := ht
  flush := hf
  noWr := ⟨hs.noWr.1, hs.noWr.2.1⟩
  noStore := hs.noStore
  lba := by rw [hl, hs.rdHpsBlk, Nat.add_zero, Nat.mod_eq_of_lt x.tgt.cmdLba_lt]
  blk_le := by rw [hs.rdHpsBlk]; omega
  room := fun _ => by rw [hs.rdHpsBlk]; omega
  engine := by rw [hh]; exact .rest ho

theorem step (h : Fetch P E L n x) (hn : n < 65536) (hk : FetchOk E x b m)
    (hp : (x.step P E b m).tgt.phase.returns = true) : Fetch P E L n (x.step P E b m) := by
  obtain ⟨-, hphase, hdata, -⟩ := Phase.returns_spec h.phase
  constructor
  · exact hp
  · exact (cmdRead_congr (cmd_next hphase)).trans h.read
  · exact (tlen_next hphase).trans h.tlen
  · simp [Sys.step, Scsi.step, rdFlushPendingNext, Sys.input, hk.rst, h.flush]
  · simp [Sys.step, Scsi.step, ioWrNext, wrPendingNext, issueWr, reqWr, h.write, h.noWr]
  · simp [Sys.step, Scsi.step, buffer0WrNext, buffer1WrNext, hdata]
  · rw [h.lba_next, h.rdHpsBlk_next hn, h.lba]
    omega
  · rw [h.rdHpsBlk_next hn]
    cases hf : x.fall
    · exact h.blk_le
    · have := h.room (.inr (.inr (h.fall_cases hf).2.1))
      rw [Bool.toNat_true]
      omega
  · exact h.room_next hn
  · exact h.engine_step hn hk

end Fetch

/-! ### Addresses in the ring -/

/-- Byte `p` of a READ from sector `L`. -/
def Env.readByte (E : Env) (L p : ℕ) : Byte := E.disk ((L + p / 512) % 2 ^ 32) (p % 512)

theorem Params.bufWords_eq (P : Params) : P.bufWords = 256 * P.ringBlocks := by
  rw [Params.bufWords, Params.ringBlocks, Nat.pow_add]

/-- The word of byte `p` lies in the slot of its sector. -/
theorem Params.wordAddr_eq (P : Params) (p : ℕ) :
    p / 2 % P.bufWords = p / 512 % P.ringBlocks * 256 + p / 2 % 256 := by
  rw [P.bufWords_eq, Nat.mod_mul, Nat.div_div_eq_div_mul, Nat.add_comm, Nat.mul_comm 256]

/-- The byte the read registers offer `j` past the count: `dout` is lane 0, `dout_pair` lanes 0 and
1, `dout_pair_next` lanes 2 and 3. -/
def readLane (s : State) (j : ℕ) : Byte :=
  (s.lane ((s.dataCnt % 2 + j) % 2)).qAhead ((s.dataCnt % 2 + j) / 2)

theorem Dpram.qAhead_step {r : Dpram} {p : DpramIn} {A a k : ℕ} {v : Byte} (hB : p.wrenB = false)
    (ha : p.addressB = a % A) (hc : p.addressC = (a % A + 1) % A)
    (hd : p.addressD = (a % A + 2) % A) (hk : k < 3) (hv : r.Has ((a + k) % A) v) :
    (r.step p).qAhead k = v := by
  obtain ⟨h1, h2, h3⟩ := hv
  interval_cases k
  · simp [Dpram.qAhead, Dpram.step, hB, ha, ← h1]
  · simp [Dpram.qAhead, Dpram.step, hc, ← h2]
  · simp [Dpram.qAhead, Dpram.step, hd, ← h3]

/-- Lane `j` reads byte `data_cnt + j`: its parity names the buffer, its half the address. -/
theorem readLane_step {s : State} {i : In} (hp : s.phase = .dataOut)
    (hw : s.buffer0Wr = false ∧ s.buffer1Wr = false)
    (hcnt : (Scsi.step P s i).dataCnt = s.dataCnt) {j : ℕ} (hj : j < 4) {v : Byte}
    (hv : (s.lane ((s.dataCnt + j) % 2)).Has ((s.dataCnt + j) / 2 % P.bufWords) v) :
    readLane (Scsi.step P s i) j = v := by
  have hmac : macAddr P s = s.dataCnt / 2 % P.bufWords := by simp [macAddr, hp]
  have hpar : (s.dataCnt % 2 + j) % 2 = (s.dataCnt + j) % 2 := by omega
  have hhalf : (s.dataCnt + j) / 2 = s.dataCnt / 2 + (s.dataCnt % 2 + j) / 2 := by omega
  rw [hhalf] at hv
  rw [readLane, hcnt, hpar]
  unfold State.lane at hv ⊢
  split_ifs at hv ⊢
  · exact Dpram.qAhead_step (p := buffer1In P s i) hw.2 hmac (by rw [← hmac]; rfl)
      (by rw [← hmac]; rfl) (by omega) hv
  · exact Dpram.qAhead_step (p := buffer0In P s i) hw.1 hmac (by rw [← hmac]; rfl)
      (by rw [← hmac]; rfl) (by omega) hv

theorem dout_eq_lane {s : State} (hp : s.phase = .dataOut) (hr : s.cmdRead = true) :
    dout P s = readLane s 0 := by
  rcases Nat.mod_two_eq_zero_or_one s.dataCnt with ho | ho <;>
    simp [dout, hp, cmdDout, hr, readLane, State.dataCntOdd, State.lane, Dpram.qAhead, ho]

theorem doutPair_eq_lane {s : State} (hp : s.phase = .dataOut) (hr : s.cmdRead = true) :
    doutPair P s = pairWord (readLane s 0) (readLane s 1) := by
  rcases Nat.mod_two_eq_zero_or_one s.dataCnt with ho | ho <;>
    simp [doutPair, hp, cmdDoutPair, hr, readLane, State.dataCntOdd, State.lane, Dpram.qAhead, ho]

theorem doutPairNext_eq_lane {s : State} (hp : s.phase = .dataOut) (hr : s.cmdRead = true) :
    doutPairNext P s = pairWord (readLane s 2) (readLane s 3) := by
  rcases Nat.mod_two_eq_zero_or_one s.dataCnt with ho | ho <;>
    simp [doutPairNext, hp, cmdDoutPairNext, hr, readLane, State.dataCntOdd, State.lane, Dpram.qAhead, ho]

/-! ### The ring -/

/-- A target serving `n` sectors from `L`, in the data phase. -/
structure RdInv (P : Params) (E : Env) (L n : ℕ) (x : Sys) : Prop extends Fetch P E L n x where
  dataOut : x.tgt.phase = .dataOut
  pos : 0 < n
  tlen_lt : n < 65536
  len : x.tgt.dataLen = 512 * n
  le_total : x.tgt.rdHpsBlk ≤ n
  cnt_le : x.tgt.dataCnt ≤ 512 * x.tgt.rdHpsBlk
  ahead : x.tgt.rdHpsBlk ≤ x.tgt.dataCnt / 512 + P.ringBlocks
  strobe : x.tgt.stbAdv = true → x.tgt.oldAck = false
  pipe : x.tgt.oldAck = true ∨ x.tgt.stbAdv = true → x.tgt.dataCnt < 512 * x.tgt.rdHpsBlk
  done : x.tgt.dataComplete = decide (x.tgt.dataCnt = 512 * n)
  tie : x.tgt.rdBusy = (x.tgt.ioRd || x.hps.ack || x.tgt.oldIoAck)
  busy : x.tgt.rdBusy = true →
    x.tgt.rdHpsBlk < n ∧ x.tgt.rdHpsBlk < x.tgt.dataCnt / 512 + P.ringBlocks
  ring : ∀ b, x.tgt.dataCnt / 512 ≤ b → b < x.tgt.rdHpsBlk →
    SlotHas P E x.tgt b ((L + b) % 2 ^ 32) 256

/-- Besides, `ack` is raised only on a byte that has been fetched. -/
structure RdOk (E : Env) (x : Sys) (b : Bus) (m : HpsMove) : Prop extends FetchOk E x b m where
  ack : b.ack = true → x.tgt.oldAck = false →
    x.tgt.dataCnt + x.tgt.stbAdv.toNat < 512 * x.tgt.rdHpsBlk

namespace RdInv

theorem cnt_le_len (h : RdInv P E L n x) : x.tgt.dataCnt ≤ 512 * n := by
  have := h.cnt_le; have := h.le_total; omega

theorem dataDone_eq (h : RdInv P E L n x) :
    x.tgt.dataDone = decide (x.tgt.dataCnt = 512 * n) := by
  have h0 : 512 * n ≠ 0 := by have := h.pos; omega
  rw [State.dataDone, h.done, h.len, beq_eq_false_iff_ne.mpr h0, Bool.or_false]

theorem dataCnt_next (h : RdInv P E L n x) :
    (x.step P E b m).tgt.dataCnt = x.tgt.dataCnt + x.tgt.stbAdv.toNat := by
  have h1 := h.le_total; have h2 := h.tlen_lt
  simp only [Sys.step, Scsi.step, dataCntNext, h.dataOut, Phase.transfers, h.done]
  cases hs : x.tgt.stbAdv
  · simp
  · have := h.pipe (.inr hs)
    have hne : x.tgt.dataCnt ≠ 512 * n := by omega
    simp [hne]
    omega

theorem dataComplete_next (h : RdInv P E L n x) :
    (x.step P E b m).tgt.dataComplete = decide ((x.step P E b m).tgt.dataCnt = 512 * n) := by
  have hcnt := h.dataCnt_next (b := b) (m := m)
  have h1 := h.cnt_le_len; have h2 := h.tlen_lt; have h3 := h.pos
  rw [hcnt]
  simp only [Sys.step, Scsi.step, dataCompleteNext, h.dataOut, Phase.transfers, h.done, h.len]
  cases hs : x.tgt.stbAdv
  · simp
  · have hlen : (512 * n + 2 ^ 32 - 1) % 2 ^ 32 = 512 * n - 1 := by omega
    simp only [hlen, Bool.not_true, Bool.false_eq_true, if_true, if_false, decide_eq_decide,
      Bool.toNat_true]
    omega

/-- The count of sectors is compared with the ring depth without underflow. -/
theorem rdRingSpace_eq (h : RdInv P E L n x) :
    rdRingSpace P x.tgt = decide (x.tgt.rdHpsBlk < x.tgt.dataCnt / 512 + P.ringBlocks) := by
  have h1 := h.cnt_le; have h2 := h.le_total; have h3 := h.tlen_lt
  rw [rdRingSpace, State.rdCurBlk, decide_eq_decide]
  omega

theorem busy_next (h : RdInv P E L n x) (hr : b.rst = false)
    (hb : (x.step P E b m).tgt.rdBusy = true) :
    (x.step P E b m).tgt.rdHpsBlk < n ∧
      (x.step P E b m).tgt.rdHpsBlk < (x.step P E b m).tgt.dataCnt / 512 + P.ringBlocks := by
  rw [Sys.rdBusy_next hr, Bool.and_eq_true, Bool.not_eq_true', Bool.or_eq_true] at hb
  rw [h.rdHpsBlk_next_of_not_fall h.tlen_lt hb.1, h.dataCnt_next]
  have hlt : x.tgt.rdHpsBlk < n ∧ x.tgt.rdHpsBlk < x.tgt.dataCnt / 512 + P.ringBlocks := by
    rcases hb.2 with h1 | h1
    · exact h.busy h1
    · simp only [issueRd, reqRd, Bool.and_eq_true, h.rdRingSpace_eq, decide_eq_true_eq, h.tlen] at h1
      exact ⟨h1.1.1.2.1.2, h1.1.1.2.2⟩
  have := Nat.div_le_div_right (c := 512) (Nat.le_add_right x.tgt.dataCnt x.tgt.stbAdv.toNat)
  omega

theorem tie_next (h : RdInv P E L n x) (hr : b.rst = false) :
    (x.step P E b m).tgt.rdBusy = ((x.step P E b m).tgt.ioRd || (x.step P E b m).hps.ack ||
      (x.step P E b m).tgt.oldIoAck) := by
  have hio := h.ioAck_eq
  have htie := h.tie
  have he := h.engine
  rw [Sys.rdBusy_next hr, Sys.oldIoAck_step]
  generalize hh : x.hps = hps at he
  rw [hh] at hio htie
  cases he with
  | rest h1 =>
    have hx : x.ioAck = false := hio
    have hack : (x.step P E b m).hps.ack = false := by
      simp only [Sys.step, hh, Hps.step, h.noWr.1]
      cases m.go <;> cases x.tgt.ioRd <;> rfl
    simp only [h1, Hps.ack_idle, Bool.or_false] at htie
    rw [hx, hack, htie, Sys.fall, h1]
    cases hi : x.tgt.ioRd
    · simp [Sys.step, Scsi.step, ioRdNext, hr, hi, Sys.input, hx]
    · simp [Sys.ioRd_next_of_ioRd hr hx hi]
  | closing h1 h2 =>
    have hx : x.ioAck = false := hio
    have hbusy : x.tgt.rdBusy = true := by simp [htie, h1]
    rw [h.hps_next_idle hh h2, hx, Sys.fall, h1]
    simp [Sys.step, Scsi.step, ioRdNext, issueRd, hr, h2, Sys.input, hx, hbusy]
  | posted h1 h2 =>
    have hx : x.ioAck = false := hio
    rw [Sys.ioRd_next_of_ioRd hr hx h2, htie, Sys.fall, h1, h2]
    simp
  | window w =>
    have hx : x.ioAck = true := hio
    rw [htie, Sys.fall, hx]
    simp

/-- Two sectors less than the ring depth apart have different slots. -/
theorem slot_ne {c k R : ℕ} (h1 : c < k) (h2 : k < c + R) : c % R ≠ k % R := by
  intro he
  have h3 := Nat.sub_mod_eq_zero_of_mod_eq he.symm
  rw [Nat.mod_eq_of_lt (by omega)] at h3
  omega

/-- What the initiator may still read is in the ring, the sector just closed included. -/
theorem ring_held (h : RdInv P E L n x) {c : ℕ} (h1 : x.tgt.dataCnt / 512 ≤ c)
    (h2 : c < x.tgt.rdHpsBlk + x.fall.toNat) : SlotHas P E x.tgt c ((L + c) % 2 ^ 32) 256 := by
  by_cases hc : c < x.tgt.rdHpsBlk
  · exact h.ring c h1 hc
  · have hf : x.fall = true := by
      by_contra hf
      rw [Bool.not_eq_true] at hf
      rw [hf, Bool.toNat_false] at h2
      omega
    rw [hf, Bool.toNat_true] at h2
    obtain rfl : c = x.tgt.rdHpsBlk := by omega
    rw [← h.lba]
    exact (h.fall_cases hf).2.2.2.2

theorem ring_next (h : RdInv P E L n x) {c : ℕ} (h1 : x.tgt.dataCnt / 512 ≤ c)
    (h2 : c < x.tgt.rdHpsBlk + x.fall.toNat) :
    SlotHas P E (x.step P E b m).tgt c ((L + c) % 2 ^ 32) 256 := by
  refine h.slotHas_step (Nat.le_refl _) (h.ring_held h1 h2) fun l w hh he => ?_
  have hb : x.tgt.rdBusy = true := by simp [h.tie, hh]
  have hf : x.fall = false := Bool.eq_false_iff.mpr fun hf => by
    have := (h.fall_cases hf).1
    rw [hh] at this
    cases this
  rw [hf] at h2
  exact absurd he (slot_ne h2 (by have := (h.busy hb).2; omega))

theorem pipe_next (h : RdInv P E L n x) (hk : RdOk E x b m)
    (hp : (x.step P E b m).tgt.oldAck = true ∨ (x.step P E b m).tgt.stbAdv = true) :
    (x.step P E b m).tgt.dataCnt < 512 * (x.step P E b m).tgt.rdHpsBlk := by
  rw [h.dataCnt_next, h.rdHpsBlk_next h.tlen_lt]
  have hlt : x.tgt.dataCnt + x.tgt.stbAdv.toNat < 512 * x.tgt.rdHpsBlk := by
    cases ho : x.tgt.oldAck
    · have hack : b.ack = true := by simpa [Sys.step, Scsi.step, stbAdvNext, Sys.input, ho] using hp
      exact hk.ack hack ho
    · have hs : x.tgt.stbAdv = false := by
        by_contra hs
        have := h.strobe (by simpa using hs)
        rw [ho] at this
        cases this
      rw [hs]
      exact h.pipe (.inl ho)
  omega

/-- The first clock of the data phase of a READ, with nothing outstanding. -/
theorem of_fresh (hs : Fresh x.tgt) (hp : x.tgt.phase = .dataOut) (hr : x.tgt.cmdRead = true)
    (hh : x.hps = .idle) (ho : x.tgt.oldIoAck = false) (hf : x.tgt.rdFlushPending = false)
    (hl : x.tgt.lba = x.tgt.cmdLba) (ht : x.tgt.tlen = x.tgt.cmdTlen) (hn : 0 < x.tgt.cmdTlen)
    (hadv : x.tgt.stbAdv = false) (hack : x.tgt.oldAck = false) :
    RdInv P E x.tgt.cmdLba x.tgt.cmdTlen x where
  toFetch := .of_fresh hs (by rw [hp]; rfl) hr hh ho hf hl ht
  dataOut := hp
  pos := hn
  tlen_lt := x.tgt.cmdTlen_lt
  len := by rw [x.tgt.dataLen_of_read hr, ht]
  le_total := by rw [hs.rdHpsBlk]; omega
  cnt_le := by rw [hs.dataCnt]; omega
  ahead := by rw [hs.rdHpsBlk]; omega
  strobe := fun h => by rw [hadv] at h; cases h
  pipe := by simp [hadv, hack]
  done := by rw [hs.dataComplete, hs.dataCnt]; simp; omega
  tie := by simp [hs.noRd, hh, ho]
  busy := fun h => by rw [hs.noRd.2] at h; cases h
  ring := fun c _ h => absurd h (by rw [hs.rdHpsBlk]; omega)

theorem step (h : RdInv P E L n x) (hk : RdOk E x b m)
    (hp : (x.step P E b m).tgt.phase = .dataOut) : RdInv P E L n (x.step P E b m) := by
  have hcnt := h.dataCnt_next (b := b) (m := m)
  have hblk := h.rdHpsBlk_next (b := b) (m := m) h.tlen_lt
  have hcl := h.cnt_le
  have hdiv := Nat.div_le_div_right (c := 512) (Nat.le_add_right x.tgt.dataCnt x.tgt.stbAdv.toNat)
  have hfall : x.fall = true → x.tgt.rdBusy = true := fun hf => by
    simp [h.tie, (h.fall_cases hf).2.1]
  refine ⟨h.toFetch.step h.tlen_lt hk.toFetchOk (by rw [hp]; rfl), hp, h.pos, h.tlen_lt, ?_, ?_, ?_,
    ?_, ?_, h.pipe_next hk, h.dataComplete_next, h.tie_next hk.rst, h.busy_next hk.rst, ?_⟩
  · exact (dataLen_next (by rw [h.dataOut]; decide)).trans h.len
  · rw [hblk]
    cases hf : x.fall
    · exact h.le_total
    · exact (h.busy (hfall hf)).1
  · rw [hcnt, hblk]
    cases hs : x.tgt.stbAdv
    · rw [Bool.toNat_false]; omega
    · have := h.pipe (.inr hs)
      rw [Bool.toNat_true]
      omega
  · rw [hcnt, hblk]
    cases hf : x.fall
    · have := h.ahead
      rw [Bool.toNat_false]
      omega
    · have := (h.busy (hfall hf)).2
      rw [Bool.toNat_true]
      omega
  · simp only [Sys.step, Scsi.step, stbAdvNext, Sys.input]
    simp
  · intro c h1 h2
    rw [hcnt] at h1
    rw [hblk] at h2
    exact h.ring_next (by omega) h2

/-! ### The registered outputs -/

/-- A byte of a sector that is in the ring is where `mac_addr` finds it. -/
theorem has_readByte (h : RdInv P E L n x) {p : ℕ} (h1 : x.tgt.dataCnt ≤ p)
    (h2 : p / 512 < x.tgt.rdHpsBlk + x.fall.toNat) :
    (x.tgt.lane (p % 2)).Has (p / 2 % P.bufWords) (E.readByte L p) := by
  have hs := h.ring_held (Nat.div_le_div_right h1) h2 (p / 2 % 256) (by omega)
  have hp : p % 512 = 2 * (p / 2 % 256) + p % 2 := by omega
  rw [P.wordAddr_eq, Env.readByte, hp, State.lane]
  split_ifs with ho
  · rw [ho]
    exact hs.2
  · rw [show p % 2 = 0 by omega]
    exact hs.1

/-- Once the count has rested for a clock, lane `j` carries the byte `j` past it. -/
theorem lane_next (h : RdInv P E L n x) (hs : x.tgt.stbAdv = false) {j : ℕ} (hj : j < 4)
    (hc : (x.tgt.dataCnt + j) / 512 < (x.step P E b m).tgt.rdHpsBlk) :
    readLane (x.step P E b m).tgt j = E.readByte L (x.tgt.dataCnt + j) := by
  rw [h.rdHpsBlk_next h.tlen_lt] at hc
  have hcnt := h.dataCnt_next (b := b) (m := m)
  rw [hs, Bool.toNat_false, Nat.add_zero] at hcnt
  exact readLane_step h.dataOut h.noStore hcnt hj (h.has_readByte (Nat.le_add_right _ _) hc)

end RdInv

end Scsi
