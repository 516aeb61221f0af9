import LBMacTwo.Scsi.Read

/-!
# The write double buffer

`Flush L n c` holds of a target inside a WRITE whose flushes have closed `c` windows: `lba` and
`sd_buff_sel` count the windows, and the HPS works on the block they name. It is kept as long as the
bus is not reset, whatever the initiator does. Two flags say how the command started: `lag`, that a
flush pending bit was left set, so that the first window is not counted by `lba`; and `odd`, that
`sd_buff_sel` started at 1.

`WrInv L n c` adds what depends on the initiator: blocks received, blocks requested and blocks
pending are in step. It is kept if besides `ack` is raised only on a byte that fits (`WrOk`).
-/

namespace Scsi

/-- The phases of a command that receives data. -/
def Phase.receives : Phase → Bool
  | .dataIn | .statusOut | .messageOut => true
  | _ => false

theorem Phase.receives_spec {p : Phase} (h : p.receives = true) :
    p ≠ .idle ∧ p ≠ .cmdIn ∧ p ≠ .dataOut ∧ p.transfers = true := by
  cases p <;> simp_all [Phase.receives, Phase.transfers]

/-- The flush engine against the HPS: at rest, requesting, with its request taken, inside the
window, just after it. -/
inductive WrEngine (s : State) : Hps → Prop
  | rest : s.oldIoAck = false → WrEngine s .idle
  | posted : s.oldIoAck = false → s.ioWr = true → WrEngine s (.posted .wr s.lba)
  | window (w : ℕ) : (s.oldIoAck = true → s.ioWr = false) → WrEngine s (.window .wr s.lba w)
  | closing : s.oldIoAck = true → s.ioWr = false → WrEngine s .idle

/-- A block has been requested and its window has not yet been seen to close. -/
def Sys.inFlight (x : Sys) : Bool := x.tgt.ioWr || x.hps.ack || x.tgt.oldIoAck

structure Flush (L n c : ℕ) (lag odd : Bool) (x : Sys) : Prop where
  phase : x.tgt.phase.receives = true
  write : x.tgt.cmdWrite = true
  tlen : x.tgt.tlen = n
  noRd : x.tgt.ioRd = false ∧ x.tgt.rdBusy = false
  flush : x.tgt.rdFlushPending = (lag && c == 0)
  lba : x.tgt.lba = (L + (c - lag.toNat)) % 2 ^ 32
  sel : x.tgt.sdBuffSel = (decide (c % 2 = 1) ^^ odd)
  engine : WrEngine x.tgt x.hps

variable {P : Params} {E : Env} {L n c : ℕ} {lag odd : Bool} {x : Sys} {b : Bus} {m : HpsMove}

namespace Flush

theorem read (h : Flush L n c lag odd x) : x.tgt.cmdRead = false := State.cmdRead_of_cmdWrite h.write

theorem ioAck_eq (h : Flush L n c lag odd x) : x.ioAck = x.hps.ack :=
  Sys.ioAck_eq (Phase.receives_spec h.phase).1

/-- The states in which `ioAck` falls. -/
theorem fall_cases (h : Flush L n c lag odd x) (hf : x.fall = true) :
    x.hps = .idle ∧ x.tgt.oldIoAck = true ∧ x.tgt.ioWr = false := by
  rw [Sys.fall, h.ioAck_eq] at hf
  generalize hh : x.hps = hps at hf
  have he := h.engine
  rw [hh] at he
  cases he with
  | rest h1 => simp [h1] at hf
  | posted h1 => simp [h1] at hf
  | window w => simp at hf
  | closing h1 h2 => exact ⟨rfl, h1, h2⟩

theorem lba_next (h : Flush L n c lag odd x) :
    (x.step P E b m).tgt.lba = (L + (c + x.fall.toNat - lag.toNat)) % 2 ^ 32 := by
  have h2 := (Phase.receives_spec h.phase).2.1
  simp only [Sys.step, Scsi.step, lbaNext, ioAckFall, State.cmdAccept, Sys.input, h.flush,
    beq_eq_false_iff_ne.mpr h2, h.lba]
  rw [← Sys.fall]
  cases x.fall
  · simp
  · cases lag
    · simp
      omega
    · rcases Nat.eq_zero_or_pos c with rfl | hc
      · simp
      · simp [show c ≠ 0 by omega]
        omega

theorem flush_next (h : Flush L n c lag odd x) (hr : b.rst = false) :
    (x.step P E b m).tgt.rdFlushPending = (lag && c + x.fall.toNat == 0) := by
  simp only [Sys.step, Scsi.step, rdFlushPendingNext, Sys.input, ioAckFall, h.flush, hr]
  rw [← Sys.fall]
  cases x.fall <;> cases lag <;> simp

theorem sel_next (h : Flush L n c lag odd x) :
    (x.step P E b m).tgt.sdBuffSel = (decide ((c + x.fall.toNat) % 2 = 1) ^^ odd) := by
  simp only [Sys.step, Scsi.step, sdBuffSelNext, Sys.input, ioAckFall, h.sel,
    beq_eq_false_iff_ne.mpr (Phase.receives_spec h.phase).1]
  rw [← Sys.fall]
  cases x.fall
  · simp
  · rcases Nat.mod_two_eq_zero_or_one c with hc | hc <;> cases odd <;>
      simp [hc, Nat.add_mod]

theorem lba_next_of_not_fall (h : Flush L n c lag odd x) (hf : x.fall = false) :
    (x.step P E b m).tgt.lba = x.tgt.lba := by
  rw [h.lba_next, hf, h.lba, Bool.toNat_false, Nat.add_zero]

theorem ioWr_next_of_ack (hr : b.rst = false) (hx : x.ioAck = true) :
    (x.step P E b m).tgt.ioWr = false := by
  simp [Sys.step, Scsi.step, ioWrNext, Sys.input, hx, hr]

theorem ioWr_next_of_not_ack (hr : b.rst = false) (hx : x.ioAck = false) :
    (x.step P E b m).tgt.ioWr = (x.tgt.ioWr || x.tgt.wrPending) := by
  simp only [Sys.step, Scsi.step, ioWrNext, issueWr, Sys.input, hx, hr]
  cases x.tgt.ioWr <;> cases x.tgt.wrPending <;> rfl

theorem engine_step (h : Flush L n c lag odd x) (hr : b.rst = false) :
    WrEngine (x.step P E b m).tgt (x.step P E b m).hps := by
  have hio := h.ioAck_eq
  have he := h.engine
  have hnr := h.noRd.1
  generalize hh : x.hps = hps at he
  rw [hh] at hio
  cases he with
  | rest h1 =>
    have hf : x.fall = false := by simp [Sys.fall, h1]
    have hhps : (x.step P E b m).hps =
        if m.go && x.tgt.ioWr then .posted .wr x.tgt.lba else .idle := by
      simp [Sys.step, hh, Hps.step, hnr]
    by_cases hg : (m.go && x.tgt.ioWr) = true
    · rw [hhps, if_pos hg, ← h.lba_next_of_not_fall hf]
      rw [Bool.and_eq_true] at hg
      refine .posted hio ?_
      rw [ioWr_next_of_not_ack hr hio, hg.2, Bool.true_or]
    · rw [hhps, if_neg hg]
      exact .rest hio
  | posted h1 h2 =>
    have hf : x.fall = false := by simp [Sys.fall, h1]
    have hlba := h.lba_next_of_not_fall (P := P) (E := E) (b := b) (m := m) hf
    cases hg : m.go
    · rw [show (x.step P E b m).hps = .posted .wr (x.step P E b m).tgt.lba by
        rw [hlba]; simp [Sys.step, hh, Hps.step, hg]]
      refine .posted hio ?_
      rw [ioWr_next_of_not_ack hr hio, h2, Bool.true_or]
    · rw [show (x.step P E b m).hps = .window .wr (x.step P E b m).tgt.lba 0 by
        rw [hlba]; simp [Sys.step, hh, Hps.step, hg]]
      refine .window 0 fun ho => ?_
      rw [Sys.oldIoAck_step, hio] at ho
      cases ho
  | window w h1 =>
    have hf : x.fall = false := by simp [Sys.fall, hio]
    have hlba := h.lba_next_of_not_fall (P := P) (E := E) (b := b) (m := m) hf
    have hw := ioWr_next_of_ack (P := P) (E := E) (m := m) hr hio
    cases hg : m.go
    · rw [show (x.step P E b m).hps = .window .wr (x.step P E b m).tgt.lba w by
        rw [hlba]; simp [Sys.step, hh, Hps.step, hg]]
      exact .window w fun _ => hw
    · rw [show (x.step P E b m).hps = .idle by simp [Sys.step, hh, Hps.step, hg]]
      exact .closing hio hw
  | closing h1 h2 =>
    rw [show (x.step P E b m).hps = .idle by simp [Sys.step, hh, Hps.step, hnr, h2]]
    exact .rest hio

theorem step (h : Flush L n c lag odd x) (hr : b.rst = false)
    (hp : (x.step P E b m).tgt.phase.receives = true) :
    Flush L n (c + x.fall.toNat) lag odd (x.step P E b m) where
  phase := hp
  write := (cmdWrite_congr (cmd_next (Phase.receives_spec h.phase).2.1)).trans h.write
  tlen := (tlen_next (Phase.receives_spec h.phase).2.1).trans h.tlen
  noRd := by
    simp [Sys.step, Scsi.step, ioRdNext, rdBusyNext, issueRd, reqRd, h.read, h.noRd]
  flush := h.flush_next hr
  lba := h.lba_next
  sel := h.sel_next
  engine := h.engine_step hr

/-- A clock moves a pending block into flight and a block in flight to the closed ones. -/
theorem inFlight_next (h : Flush L n c lag odd x) (hr : b.rst = false) :
    x.fall.toNat + (x.step P E b m).inFlight.toNat =
      x.inFlight.toNat + (issueWr x.tgt (x.input E b m)).toNat := by
  have hio := h.ioAck_eq
  have he := h.engine
  have hnr := h.noRd.1
  generalize hh : x.hps = hps at he
  rw [hh] at hio
  have hold := Sys.oldIoAck_step (P := P) (E := E) (x := x) (b := b) (m := m)
  cases he with
  | rest h1 =>
    have hack : (x.step P E b m).hps.ack = false := by
      simp only [Sys.step, hh, Hps.step, hnr]
      cases m.go <;> cases x.tgt.ioWr <;> rfl
    have hx : x.ioAck = false := hio
    simp only [Sys.inFlight, Sys.fall, ioWr_next_of_not_ack hr hio, hack, hold, hx, h1, hh, Hps.ack_idle,
      issueWr, Sys.input]
    cases x.tgt.ioWr <;> cases x.tgt.wrPending <;> rfl
  | posted h1 h2 =>
    have hx : x.ioAck = false := hio
    simp [Sys.inFlight, Sys.fall, ioWr_next_of_not_ack hr hio, h1, h2, issueWr]
  | window w h1 =>
    have hx : x.ioAck = true := hio
    simp [Sys.inFlight, Sys.fall, hold, hx, hh, issueWr, Sys.input]
  | closing h1 h2 =>
    have hx : x.ioAck = false := hio
    have hhps : (x.step P E b m).hps = .idle := by simp [Sys.step, hh, Hps.step, hnr, h2]
    simp only [Sys.inFlight, Sys.fall, ioWr_next_of_not_ack hr hio, hhps, hold, hx, h1, h2, hh,
      Hps.ack_idle, issueWr, Sys.input]
    cases x.tgt.wrPending <;> rfl

end Flush

/-! ### Blocks -/

/-- `req_wr` has risen and is not yet recorded in `wr_pending`. -/
def State.wrEdge (s : State) : Bool := reqWr s && !s.oldWr

/-- The blocks of a transfer of `n` received so far. -/
def State.blocks (n : ℕ) (s : State) : ℕ := if s.phase = .dataIn then s.dataCnt / 512 else n

theorem reqWr_dataIn {s : State} (hp : s.phase = .dataIn) (hw : s.cmdWrite = true)
    (hl : s.dataLen = 512 * n) (hc : s.dataCnt ≤ 512 * n) :
    reqWr s = decide (s.dataCnt % 512 = 0 ∧ s.dataCnt ≠ 0) := by
  rw [Bool.eq_iff_iff]
  simp [reqWr, hp, hw, hl]
  omega

theorem reqWr_of_ne {s : State} (hp : s.phase ≠ .dataIn) (hw : s.cmdWrite = true)
    (hl : s.dataLen = 512 * n) : reqWr s = decide (s.phase = .statusOut ∧ n ≠ 0) := by
  rw [Bool.eq_iff_iff]
  simp [reqWr, hp, hw, hl]

/-- A target inside a WRITE of `n` blocks, `c` of them flushed. -/
structure WrInv (L n c : ℕ) (lag odd : Bool) (x : Sys) : Prop extends Flush L n c lag odd x where
  tlen_lt : n < 65536
  cnt_le : x.tgt.phase = .dataIn → x.tgt.dataCnt ≤ 512 * n
  done : x.tgt.phase = .dataIn → x.tgt.dataComplete = decide (0 < n ∧ x.tgt.dataCnt = 512 * n)
  strobe : x.tgt.stbAdv = true → x.tgt.oldAck = false
  pipe : x.tgt.phase = .dataIn → x.tgt.oldAck = true ∨ x.tgt.stbAdv = true →
    x.tgt.dataCnt < 512 * n ∧ x.tgt.dataCnt / 512 + odd.toNat ≤ c + 1
  top : x.tgt.phase = .dataIn → x.tgt.dataCnt / 512 + odd.toNat ≤ c + 2
  edge : x.tgt.wrEdge = true → x.tgt.wrPending = false
  noEdge : x.tgt.phase ≠ .dataIn → x.tgt.wrEdge = false
  cnt : c + x.inFlight.toNat + x.tgt.wrPending.toNat + x.tgt.wrEdge.toNat = x.tgt.blocks n
  closed : x.tgt.phase = .statusOut →
    x.tgt.oldAck = true ∨ x.tgt.stbAdv = true ∨ x.tgt.statusSent = true → c = n
  finished : x.tgt.phase = .messageOut → c = n

/-- No reset, and `ack` rises only on a byte for a half that is free, or on the status of a command
whose blocks are flushed. -/
structure WrOk (n c : ℕ) (odd : Bool) (x : Sys) (b : Bus) : Prop where
  rst : b.rst = false
  data : x.tgt.phase = .dataIn → b.ack = true → x.tgt.oldAck = false →
    x.tgt.dataCnt + x.tgt.stbAdv.toNat < 512 * n ∧
      (x.tgt.dataCnt + x.tgt.stbAdv.toNat) / 512 + odd.toNat ≤ c + x.fall.toNat + 1
  status : x.tgt.phase = .statusOut → b.ack = true → x.tgt.oldAck = false → c + x.fall.toNat = n

namespace WrInv

theorem dataLen_eq (h : WrInv L n c lag odd x) : x.tgt.dataLen = 512 * n := by
  rw [x.tgt.dataLen_of_write h.write, h.tlen]

theorem dataDone_eq (h : WrInv L n c lag odd x) (hp : x.tgt.phase = .dataIn) :
    x.tgt.dataDone = decide (x.tgt.dataCnt = 512 * n) := by
  have := h.cnt_le hp
  rw [State.dataDone, h.done hp, h.dataLen_eq]
  by_cases h0 : n = 0
  · subst h0
    simp
    omega
  · have : 512 * n ≠ 0 := by omega
    simp [show 0 < n by omega, h0]

theorem dataCnt_next (h : WrInv L n c lag odd x) (hp : x.tgt.phase = .dataIn) :
    (x.step P E b m).tgt.dataCnt = x.tgt.dataCnt + x.tgt.stbAdv.toNat := by
  have h2 := h.tlen_lt
  simp only [Sys.step, Scsi.step, dataCntNext, hp, Phase.transfers, h.done hp]
  cases hs : x.tgt.stbAdv
  · simp
  · have := (h.pipe hp (.inr hs)).1
    have hne : x.tgt.dataCnt ≠ 512 * n := by omega
    simp [hne]
    omega

theorem dataComplete_next (h : WrInv L n c lag odd x) (hp : x.tgt.phase = .dataIn) :
    (x.step P E b m).tgt.dataComplete =
      decide (0 < n ∧ (x.step P E b m).tgt.dataCnt = 512 * n) := by
  have h1 := h.cnt_le hp; have h2 := h.tlen_lt
  rw [h.dataCnt_next hp]
  simp only [Sys.step, Scsi.step, dataCompleteNext, hp, Phase.transfers, h.done hp, h.dataLen_eq]
  cases hs : x.tgt.stbAdv
  · simp
  · have := (h.pipe hp (.inr hs)).1
    have hlen : (512 * n + 2 ^ 32 - 1) % 2 ^ 32 = 512 * n - 1 := by omega
    simp only [hlen, Bool.not_true, Bool.false_eq_true, if_true, if_false, decide_eq_decide,
      Bool.toNat_true]
    omega

theorem wrPending_next (h : WrInv L n c lag odd x) (hr : b.rst = false) :
    (x.step P E b m).tgt.wrPending.toNat + (issueWr x.tgt (x.input E b m)).toNat =
      x.tgt.wrPending.toNat + x.tgt.wrEdge.toNat := by
  have hedge := h.edge
  have hp : (x.step P E b m).tgt.wrPending =
      (!issueWr x.tgt (x.input E b m) && (x.tgt.wrEdge || x.tgt.wrPending)) := by
    simp only [Sys.step, Scsi.step, wrPendingNext, Sys.input, hr, State.wrEdge]
    rw [Bool.and_comm (reqWr x.tgt)]
    cases issueWr x.tgt _ <;> cases !x.tgt.oldWr && reqWr x.tgt <;> simp
  have hi : issueWr x.tgt (x.input E b m) = true → x.tgt.wrPending = true := fun hi => by
    simp only [issueWr, Bool.and_eq_true] at hi
    exact hi.1.2
  rw [hp]
  cases hw : x.tgt.wrPending
  · rw [hw] at hi
    rw [Bool.eq_false_iff.mpr fun hc => Bool.false_ne_true (hi hc)]
    cases x.tgt.wrEdge <;> rfl
  · have : x.tgt.wrEdge = false := Bool.eq_false_iff.mpr fun he => by
      rw [hedge he] at hw
      cases hw
    rw [this]
    cases issueWr x.tgt (x.input E b m) <;> rfl

theorem wrEdge_next (hr : b.rst = false) :
    (x.step P E b m).tgt.wrEdge = (reqWr (x.step P E b m).tgt && !reqWr x.tgt) := by
  simp [State.wrEdge, Sys.step, Scsi.step, oldWrNext, Sys.input, hr]

theorem dataLen_next (h : WrInv L n c lag odd x) : (x.step P E b m).tgt.dataLen = 512 * n :=
  (Scsi.dataLen_next (Phase.receives_spec h.phase).2.1).trans h.dataLen_eq

theorem cmdWrite_next (h : WrInv L n c lag odd x) : (x.step P E b m).tgt.cmdWrite = true :=
  (cmdWrite_congr (cmd_next (Phase.receives_spec h.phase).2.1)).trans h.write

theorem cnt_le_next (h : WrInv L n c lag odd x) (hp : x.tgt.phase = .dataIn) :
    (x.step P E b m).tgt.dataCnt ≤ 512 * n := by
  rw [h.dataCnt_next hp]
  have := h.cnt_le hp
  cases hs : x.tgt.stbAdv
  · exact this
  · have := (h.pipe hp (.inr hs)).1
    rw [Bool.toNat_true]
    omega

/-- Inside the data phase `req_wr` rises with the byte that completes a block. -/
theorem edge_dataIn (h : WrInv L n c lag odd x) (hr : b.rst = false) (hp : x.tgt.phase = .dataIn)
    (hp' : (x.step P E b m).tgt.phase = .dataIn) :
    (x.step P E b m).tgt.wrEdge = decide (x.tgt.stbAdv = true ∧ x.tgt.dataCnt % 512 = 511) := by
  rw [wrEdge_next hr, reqWr_dataIn hp h.write h.dataLen_eq (h.cnt_le hp),
    reqWr_dataIn hp' h.cmdWrite_next h.dataLen_next (h.cnt_le_next hp), h.dataCnt_next hp,
    Bool.eq_iff_iff]
  cases x.tgt.stbAdv
  · simp
  · simp
    omega

/-- Leaving it, all blocks have been received. -/
theorem phase_next_of_ne (h : WrInv L n c lag odd x)
    (hp' : (x.step P E b m).tgt.phase.receives = true)
    (hne : (x.step P E b m).tgt.phase ≠ .dataIn) :
    (x.tgt.phase = .dataIn ∧ x.tgt.dataCnt = 512 * n ∧ (x.step P E b m).tgt.phase = .statusOut) ∨
    (x.tgt.phase = .statusOut ∧ (x.step P E b m).tgt.phase = .statusOut) ∨
    (x.tgt.phase = .statusOut ∧ x.tgt.statusSent = true ∧
      (x.step P E b m).tgt.phase = .messageOut) ∨
    (x.tgt.phase = .messageOut ∧ (x.step P E b m).tgt.phase = .messageOut) := by
  have hcmd := (Phase.receives_spec h.phase).2.1
  have hout := (Phase.receives_spec h.phase).2.2.1
  cases hq : (x.step P E b m).tgt.phase with
  | idle | cmdIn | dataOut => rw [hq] at hp'; cases hp'
  | dataIn => exact absurd hq hne
  | statusOut =>
    rcases phase_of_statusOut_next hq with h1 | ⟨h1, h2⟩ | h1
    · exact absurd h1 hcmd
    · have hd := h1.resolve_left hout
      rw [h.dataDone_eq hd, decide_eq_true_eq] at h2
      exact .inl ⟨hd, h2, rfl⟩
    · exact .inr (.inl ⟨h1, rfl⟩)
  | messageOut =>
    rcases phase_of_messageOut_next hq with ⟨h1, h2⟩ | h1
    · exact .inr (.inr (.inl ⟨h1, h2, rfl⟩))
    · exact .inr (.inr (.inr ⟨h1, rfl⟩))

/-- Outside it `req_wr` does not rise. -/
theorem edge_of_ne (h : WrInv L n c lag odd x) (hr : b.rst = false)
    (hp' : (x.step P E b m).tgt.phase.receives = true)
    (hne : (x.step P E b m).tgt.phase ≠ .dataIn) : (x.step P E b m).tgt.wrEdge = false := by
  rw [wrEdge_next hr, reqWr_of_ne hne h.cmdWrite_next h.dataLen_next]
  rcases h.phase_next_of_ne hp' hne with ⟨h1, h2, h3⟩ | ⟨h1, h3⟩ | ⟨-, -, h3⟩ | ⟨-, h3⟩
  · rw [h3, reqWr_dataIn h1 h.write h.dataLen_eq (h.cnt_le h1), h2, Bool.eq_iff_iff]
    simp
  · rw [h3, reqWr_of_ne (by rw [h1]; decide) h.write h.dataLen_eq, h1]
    simp
  · simp [h3]
  · simp [h3]

theorem blocks_next (h : WrInv L n c lag odd x) (hr : b.rst = false)
    (hp' : (x.step P E b m).tgt.phase.receives = true) :
    (x.step P E b m).tgt.blocks n = x.tgt.blocks n + (x.step P E b m).tgt.wrEdge.toNat := by
  by_cases hd : (x.step P E b m).tgt.phase = .dataIn
  · have hp : x.tgt.phase = .dataIn :=
      (phase_of_dataIn_next hd).resolve_left (Phase.receives_spec h.phase).2.1
    rw [h.edge_dataIn hr hp hd, State.blocks, if_pos hd, State.blocks, if_pos hp, h.dataCnt_next hp]
    cases x.tgt.stbAdv
    · simp
    · by_cases h511 : x.tgt.dataCnt % 512 = 511
      · simp [h511]
        omega
      · simp [h511]
        omega
  · rw [h.edge_of_ne hr hp' hd, State.blocks, if_neg hd]
    rcases h.phase_next_of_ne hp' hd with ⟨h1, h2, -⟩ | ⟨h1, -⟩ | ⟨h1, -⟩ | ⟨h1, -⟩
    · simp [State.blocks, h1, h2]
    all_goals simp [State.blocks, h1]

theorem cnt_next (h : WrInv L n c lag odd x) (hr : b.rst = false)
    (hp' : (x.step P E b m).tgt.phase.receives = true) :
    c + x.fall.toNat + (x.step P E b m).inFlight.toNat + (x.step P E b m).tgt.wrPending.toNat +
      (x.step P E b m).tgt.wrEdge.toNat = (x.step P E b m).tgt.blocks n := by
  have h1 := h.toFlush.inFlight_next (P := P) (E := E) (m := m) hr
  have h2 := h.wrPending_next (P := P) (E := E) (m := m) hr
  have h3 := h.cnt
  rw [h.blocks_next hr hp']
  omega

/-- A block completes only when the one before it has left `wr_pending`. -/
theorem edge_next (h : WrInv L n c lag odd x) (hr : b.rst = false)
    (hp' : (x.step P E b m).tgt.phase.receives = true)
    (he : (x.step P E b m).tgt.wrEdge = true) : (x.step P E b m).tgt.wrPending = false := by
  have hd : (x.step P E b m).tgt.phase = .dataIn := by
    by_contra hd
    rw [h.edge_of_ne hr hp' hd] at he
    cases he
  have hp : x.tgt.phase = .dataIn :=
    (phase_of_dataIn_next hd).resolve_left (Phase.receives_spec h.phase).2.1
  rw [h.edge_dataIn hr hp hd, decide_eq_true_eq] at he
  have hpipe := (h.pipe hp (.inr he.1)).2
  have hcnt := h.cnt
  have hpend := h.wrPending_next (P := P) (E := E) (m := m) hr
  have hnow : x.tgt.wrEdge = false := by
    rw [State.wrEdge, reqWr_dataIn hp h.write h.dataLen_eq (h.cnt_le hp)]
    simp
    omega
  rw [State.blocks, if_pos hp, hnow] at hcnt
  cases hw : x.tgt.wrPending
  · rw [hw, hnow] at hpend
    simp at hpend
    exact hpend.1
  · -- nothing is in flight, so the pending block is issued in this clock
    rw [hw] at hcnt hpend
    simp only [Bool.toNat_true, Bool.toNat_false] at hcnt
    have hf : x.inFlight = false := by
      by_contra hf
      rw [Bool.not_eq_false] at hf
      rw [hf, Bool.toNat_true] at hcnt
      omega
    simp only [Sys.inFlight, Bool.or_eq_false_iff] at hf
    have hi : issueWr x.tgt (x.input E b m) = true := by
      simp [issueWr, Sys.input, h.toFlush.ioAck_eq, hf, hw]
    rw [hi, hnow] at hpend
    simpa using hpend

theorem fall_of_closed (h : WrInv L n c lag odd x) (hp : x.tgt.phase ≠ .dataIn) (hc : c = n) :
    x.fall = false := by
  have hcnt := h.cnt
  rw [State.blocks, if_neg hp] at hcnt
  by_contra hf
  rw [Bool.not_eq_false] at hf
  have hin : x.inFlight = true := by simp [Sys.inFlight, (h.fall_cases hf).2.1]
  rw [hin, Bool.toNat_true] at hcnt
  omega

theorem pipe_next (h : WrInv L n c lag odd x) (hk : WrOk n c odd x b) (hp : x.tgt.phase = .dataIn)
    (ha : (x.step P E b m).tgt.oldAck = true ∨ (x.step P E b m).tgt.stbAdv = true) :
    (x.step P E b m).tgt.dataCnt < 512 * n ∧
      (x.step P E b m).tgt.dataCnt / 512 + odd.toNat ≤ c + x.fall.toNat + 1 := by
  rw [h.dataCnt_next hp]
  cases ho : x.tgt.oldAck
  · have hack : b.ack = true := by simpa [Sys.step, Scsi.step, stbAdvNext, Sys.input, ho] using ha
    exact hk.data hp hack ho
  · have hs : x.tgt.stbAdv = false := Bool.eq_false_iff.mpr fun hs => by
      have := h.strobe hs
      rw [ho] at this
      cases this
    have := h.pipe hp (.inl ho)
    rw [hs, Bool.toNat_false]
    omega

theorem closed_next (h : WrInv L n c lag odd x) (hk : WrOk n c odd x b)
    (hp' : (x.step P E b m).tgt.phase = .statusOut)
    (ha : (x.step P E b m).tgt.oldAck = true ∨ (x.step P E b m).tgt.stbAdv = true ∨
      (x.step P E b m).tgt.statusSent = true) : c + x.fall.toNat = n := by
  simp only [Sys.step, Scsi.step, stbAdvNext, statusSentNext, Sys.input] at ha
  rcases h.phase_next_of_ne (by rw [hp']; rfl) (by rw [hp']; decide) with
    ⟨h1, h2, -⟩ | ⟨h1, -⟩ | ⟨-, -, h3⟩ | ⟨-, h3⟩
  · -- no byte is under way when the data phase ends
    exfalso
    cases ho : x.tgt.oldAck
    · have hack : b.ack = true := by simpa [ho, h1] using ha
      have := (hk.data h1 hack ho).1
      omega
    · have := (h.pipe h1 (.inl ho)).1
      omega
  · have hne : x.tgt.phase ≠ .dataIn := by rw [h1]; decide
    by_cases hrise : b.ack = true ∧ x.tgt.oldAck = false
    · exact hk.status h1 hrise.1 hrise.2
    · have hc : c = n := by
        refine h.closed h1 ?_
        simp only [h1, Bool.and_eq_true, Bool.or_eq_true, Bool.not_eq_true'] at ha
        rw [not_and, Bool.not_eq_false] at hrise
        rcases ha with ha | ha | ha
        · exact .inl (hrise ha)
        · exact .inl ha.1
        · exact .inr ha.2
      rw [h.fall_of_closed hne hc, hc]
      rfl
  · rw [h3] at hp'
    cases hp'
  · rw [h3] at hp'
    cases hp'

theorem finished_next (h : WrInv L n c lag odd x)
    (hp' : (x.step P E b m).tgt.phase = .messageOut) : c + x.fall.toNat = n := by
  have hc : x.tgt.phase ≠ .dataIn ∧ c = n := by
    rcases phase_of_messageOut_next hp' with ⟨h1, h2⟩ | h1
    · exact ⟨by rw [h1]; decide, h.closed h1 (.inr (.inr h2))⟩
    · exact ⟨by rw [h1]; decide, h.finished h1⟩
  rw [h.fall_of_closed hc.1 hc.2, hc.2]
  rfl

theorem step (h : WrInv L n c lag odd x) (hk : WrOk n c odd x b)
    (hp' : (x.step P E b m).tgt.phase.receives = true) :
    WrInv L n (c + x.fall.toNat) lag odd (x.step P E b m) := by
  have hdata : (x.step P E b m).tgt.phase = .dataIn → x.tgt.phase = .dataIn := fun hd =>
    (phase_of_dataIn_next hd).resolve_left (Phase.receives_spec h.phase).2.1
  refine ⟨h.toFlush.step hk.rst hp', h.tlen_lt, fun hd => h.cnt_le_next (hdata hd),
    fun hd => h.dataComplete_next (hdata hd), ?_, fun hd => h.pipe_next hk (hdata hd), fun hd => ?_,
    h.edge_next hk.rst hp', h.edge_of_ne hk.rst hp', h.cnt_next hk.rst hp', h.closed_next hk,
    h.finished_next⟩
  · simp only [Sys.step, Scsi.step, stbAdvNext, Sys.input]
    simp
  · have htop := h.top (hdata hd)
    rw [h.dataCnt_next (hdata hd)]
    cases hs : x.tgt.stbAdv
    · rw [Bool.toNat_false]
      omega
    · have := (h.pipe (hdata hd) (.inr hs)).2
      rw [Bool.toNat_true]
      omega

/-- The first clock of the data phase of a WRITE, with nothing outstanding. -/
theorem of_fresh (hs : Fresh x.tgt) (hp : x.tgt.phase = .dataIn) (hw : x.tgt.cmdWrite = true)
    (hh : x.hps = .idle) (ho : x.tgt.oldIoAck = false)
    (hl : x.tgt.lba = x.tgt.cmdLba) (ht : x.tgt.tlen = x.tgt.cmdTlen)
    (hadv : x.tgt.stbAdv = false) (hack : x.tgt.oldAck = false) :
    WrInv x.tgt.cmdLba x.tgt.cmdTlen 0 x.tgt.rdFlushPending x.tgt.sdBuffSel x := by
  have hlen : x.tgt.dataLen = 512 * x.tgt.cmdTlen := by rw [x.tgt.dataLen_of_write hw, ht]
  have hedge : x.tgt.wrEdge = false := by
    rw [State.wrEdge, reqWr_dataIn hp hw hlen (by rw [hs.dataCnt]; omega), hs.dataCnt]
    simp
  exact {
    phase := by rw [hp]; rfl
    write := hw
    tlen := ht
    noRd := hs.noRd
    flush := by simp
    lba := by rw [hl, Nat.zero_sub, Nat.add_zero, Nat.mod_eq_of_lt x.tgt.cmdLba_lt]
    sel := by simp
    engine := by rw [hh]; exact .rest ho
    tlen_lt := x.tgt.cmdTlen_lt
    cnt_le := fun _ => by rw [hs.dataCnt]; omega
    done := fun _ => by rw [hs.dataComplete, hs.dataCnt]; simp; omega
    strobe := fun h => by rw [hadv] at h; cases h
    pipe := fun _ h => by simp [hadv, hack] at h
    top := fun _ => by rw [hs.dataCnt]; have := x.tgt.sdBuffSel.toNat_le; omega
    edge := fun _ => hs.noWr.2.1
    noEdge := fun h => absurd hp h
    cnt := by simp [Sys.inFlight, State.blocks, hp, hs.noWr, hh, ho, hedge, hs.dataCnt]
    closed := fun h => by rw [hp] at h; cases h
    finished := fun h => by rw [hp] at h; cases h }

end WrInv

end Scsi
