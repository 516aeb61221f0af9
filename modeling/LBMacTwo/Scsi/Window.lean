import LBMacTwo.Foundation.RingBuffer
import LBMacTwo.Scsi.Delivery

/-!
# The window of the read ring

`Drive` is a target with its block device and an initiator that works in accesses: one starts only
while `req` is up and sends at most four pulses of `ack`, at any clocks. From power-up, along any
commands and bus resets:

* `Window`: in the data phase of a READ the sector being read is never behind the ring, and the ring
  never longer than its slots;
* `Reading`, `RingInv`: the invariants behind it, in the data phase of a READ and in every phase;
* `ring_window`: the window holds if no `io_ack` window is open, or just closes, where the data phase
  of a READ begins;
* `orphan_window`: one that is open there lets the ring run past the end of the command.
-/

namespace Scsi

open Clocked (scan loopStream run_of_scan)

/-- A target with its block device, the pulses left of the access in progress, and the fetches of the
command in progress that have not been answered. -/
structure Drive where
  sys : Sys
  left : ℕ
  fetches : ℕ

def Drive.init : Drive := ⟨⟨.init, .idle⟩, 0, 0⟩

/-- The inputs of one clock. An access may start in it. -/
structure Turn where
  bus : Bus
  hps : HpsMove
  start : Bool

namespace Drive

variable (P : Params) (E : Env) (r : Drive) (k : Turn)

/-- `ack` rises in this clock. -/
def rise : Bool := k.bus.ack && !r.sys.tgt.oldAck

/-- The pulses the access may send from this clock on. -/
def allowed : ℕ := if k.start then 4 else r.left

/-- A fetch is requested in this clock. -/
def issues : Bool := issueRd P r.sys.tgt (r.sys.input E k.bus k.hps)

def step : Drive where
  sys := r.sys.step P E k.bus k.hps
  left := r.allowed k - (r.rise k).toNat
  fetches :=
    if r.sys.tgt.phase = .dataOut then r.fetches + (r.issues P E k).toNat - r.sys.fall.toNat else 0

/-- The drive after `t` clocks. -/
abbrev run (u : ℕ → Turn) (t : ℕ) : Drive := Clocked.run (step P E) r u t

/-- The pulses that are not yet counted. -/
def inFlight : ℕ := r.sys.tgt.oldAck.toNat + r.sys.tgt.stbAdv.toNat

end Drive

/-- An access starts only while `req` is up and `ack` has not been up since before, and `ack` rises
only within an access. -/
structure Accesses (r : Drive) (k : Turn) : Prop where
  start : k.start = true → req r.sys.tgt (r.sys.tgt.oldAck && k.bus.ack) r.sys.ioAck = true
  ack : r.rise k = true → 0 < r.allowed k

/-- The window of the ring: the sector being read, the sectors counted, and the length of the
command; at most one fetch under way; and no slot is filled whose sector is still to be read. -/
structure Window (P : Params) (r : Drive) : Prop where
  cur_le : r.sys.tgt.rdCurBlk ≤ r.sys.tgt.rdHpsBlk
  le_tlen : r.sys.tgt.rdHpsBlk ≤ r.sys.tgt.tlen
  depth : r.sys.tgt.rdHpsBlk - r.sys.tgt.rdCurBlk ≤ P.ringBlocks
  one : r.fetches ≤ 1
  slot : r.sys.ioAck = true → ∀ b, r.sys.tgt.rdCurBlk ≤ b → b < r.sys.tgt.rdHpsBlk →
    b % P.ringBlocks ≠ rdHpsSlot P r.sys.tgt

variable {P : Params} {E : Env} {r : Drive} {k : Turn}

/-- The data phase of a READ of at least one sector. -/
def Drive.reads (r : Drive) : Prop :=
  r.sys.tgt.phase = .dataOut ∧ r.sys.tgt.cmdRead = true ∧ r.sys.tgt.tlen ≠ 0

/-- The data phase of a READ begins with `io_ack` down, now and in the clock before. -/
def BeginsClear (P : Params) (E : Env) (r : Drive) (k : Turn) : Prop :=
  r.sys.tgt.phase = .cmdIn → (r.step P E k).reads →
    r.sys.ioAck = false ∧ (r.step P E k).sys.ioAck = false

/-! ### The initiator -/

namespace Accesses

/-- An access starts on a request with `ack` down. -/
theorem req_of_start (h : Accesses r k) (hs : k.start = true) :
    req r.sys.tgt false r.sys.ioAck = true := by
  have hreq := h.start hs
  simp only [req, Bool.and_eq_true, Bool.not_eq_true'] at hreq ⊢
  exact ⟨⟨⟨hreq.1.1.1, trivial⟩, hreq.1.2⟩, hreq.2⟩

theorem left_next (h : Accesses r k) :
    (r.step P E k).left + (r.rise k).toNat = r.allowed k := by
  have hack := h.ack
  change r.allowed k - (r.rise k).toNat + (r.rise k).toNat = r.allowed k
  cases hr : r.rise k
  · rfl
  · have := hack hr
    rw [Bool.toNat_true]
    omega

theorem left_le (h : Accesses r k) (hl : r.left ≤ 4) : (r.step P E k).left ≤ 4 := by
  have hleft := h.left_next (P := P) (E := E)
  have hall : r.allowed k ≤ 4 := by
    rw [Drive.allowed]
    split_ifs
    · exact Nat.le_refl 4
    · exact hl
  omega

end Accesses

/-- A pulse that rises is in flight until it has been counted. -/
theorem Drive.inFlight_next : (r.step P E k).inFlight = r.sys.tgt.oldAck.toNat + (r.rise k).toNat := by
  change k.bus.ack.toNat + (r.sys.tgt.oldAck && !k.bus.ack).toNat =
    r.sys.tgt.oldAck.toNat + (k.bus.ack && !r.sys.tgt.oldAck).toNat
  cases k.bus.ack <;> cases r.sys.tgt.oldAck <;> rfl

theorem Drive.inFlight_le : (r.step P E k).inFlight ≤ 1 := by
  rw [Drive.inFlight_next, Drive.rise]
  cases r.sys.tgt.oldAck
  · rw [Bool.toNat_false, Nat.zero_add]
    exact Bool.toNat_le _
  · rw [Bool.not_true, Bool.and_false]
    rfl

/-! ### Invariants -/

/-- In the data phase of a READ: a fetch that is requested or answered keeps `rd_busy`, and there is
room for it; what the access in progress may still take lies no more than five bytes past the ring. -/
structure Reading (P : Params) (r : Drive) : Prop where
  noWr : r.sys.tgt.ioWr = false ∧ r.sys.tgt.wrPending = false
  le_total : r.sys.tgt.rdHpsBlk ≤ r.sys.tgt.tlen
  cnt : r.sys.tgt.dataCnt + r.inFlight + r.left ≤ 512 * r.sys.tgt.rdHpsBlk + 5
  ahead : r.sys.tgt.rdHpsBlk ≤ r.sys.tgt.dataCnt / 512 + P.ringBlocks
  done : r.sys.tgt.dataComplete = true → r.sys.tgt.dataCnt = 512 * r.sys.tgt.tlen
  tie : r.sys.tgt.ioRd = true ∨ r.sys.tgt.oldIoAck = true ∨ r.sys.ioAck = true →
    r.sys.tgt.rdBusy = true
  taken : r.sys.hps ≠ .idle → r.sys.tgt.rdBusy = true ∨ reqRd P r.sys.tgt = true
  posted : r.sys.hps ≠ .idle → r.sys.ioAck = true ∨ r.sys.tgt.oldIoAck = false
  clear : r.sys.tgt.oldIoAck = true → r.sys.tgt.ioRd = false
  busy : r.sys.tgt.rdBusy = true → r.sys.tgt.rdHpsBlk < r.sys.tgt.tlen ∧
    r.sys.tgt.rdHpsBlk < r.sys.tgt.dataCnt / 512 + P.ringBlocks
  fetches : r.fetches = r.sys.tgt.rdBusy.toNat

structure RingInv (P : Params) (r : Drive) : Prop where
  left_le : r.left ≤ 4
  strobe : r.sys.tgt.stbAdv = true → r.sys.tgt.oldAck = false
  tlen_lt : r.sys.tgt.tlen < 65536
  quiet : ¬ r.reads → r.sys.tgt.ioRd = false ∧ r.sys.tgt.rdBusy = false
  flushed : r.sys.tgt.phase = .cmdIn → (r.sys.tgt.ioWr = false ∧ r.sys.tgt.wrPending = false) ∨
    r.sys.tgt.cmdCnt + r.inFlight + r.left ≤ 5
  read : r.reads → Reading P r
  empty : r.sys.tgt.phase = .dataOut → r.sys.tgt.cmdRead = true → r.sys.tgt.tlen = 0 →
    r.sys.tgt.rdHpsBlk = 0 ∧ r.sys.tgt.dataCnt = 0 ∧ r.fetches = 0

namespace Reading

theorem cur_le (h : Reading P r) : r.sys.tgt.dataCnt / 512 ≤ r.sys.tgt.rdHpsBlk := by
  have := h.cnt
  omega

/-- The ring space is computed without underflow. -/
theorem rdRingSpace_eq (h : Reading P r) (ht : r.sys.tgt.tlen < 65536) :
    rdRingSpace P r.sys.tgt =
      decide (r.sys.tgt.rdHpsBlk < r.sys.tgt.dataCnt / 512 + P.ringBlocks) := by
  have h1 := h.cur_le
  have h2 := h.le_total
  rw [rdRingSpace, State.rdCurBlk, decide_eq_decide]
  omega

/-- The invariant gives the window. -/
theorem window (h : Reading P r) : Window P r where
  cur_le := h.cur_le
  le_tlen := h.le_total
  depth := by
    have := h.ahead
    rw [State.rdCurBlk]
    omega
  one := by
    rw [h.fetches]
    exact Bool.toNat_le _
  slot := by
    intro hack b hb hlt
    have hroom := (h.busy (h.tie (.inr (.inr hack)))).2
    rw [State.rdCurBlk] at hb
    exact (RingBuffer.cell_ne hlt (by omega)).symm

/-- Where the data phase ends nothing is under way. -/
theorem finished (h : Reading P r) (hc : r.sys.tgt.dataComplete = true) :
    r.sys.tgt.ioRd = false ∧ r.sys.tgt.rdBusy = false := by
  have hcnt := h.cnt
  rw [h.done hc] at hcnt
  have hbusy : r.sys.tgt.rdBusy = false := by
    refine Bool.eq_false_iff.mpr fun hb => ?_
    have := (h.busy hb).1
    omega
  refine ⟨Bool.eq_false_iff.mpr fun hrd => ?_, hbusy⟩
  rw [h.tie (.inl hrd)] at hbusy
  cases hbusy

end Reading

/-! ### One clock of the data phase -/

/-- A window that is left leaves the HPS at rest. -/
theorem Hps.ack_step {h : Hps} {m : HpsMove} {ioRd ioWr : Bool} {lba : ℕ} (ha : h.ack = true)
    (hne : h.step E m ioRd ioWr lba ≠ .idle) : (h.step E m ioRd ioWr lba).ack = true := by
  cases h with
  | idle => cases ha
  | posted op l => cases ha
  | window op l w =>
    cases op <;> simp only [Hps.step] at hne ⊢ <;> split_ifs at hne ⊢
    · exact absurd rfl hne
    · rfl
    · exact absurd rfl hne
    · rfl

/-- A bus reset leaves no phase but the idle one. -/
theorem Drive.rst_of_next (h : (r.step P E k).sys.tgt.phase ≠ .idle) : k.bus.rst = false := by
  refine Bool.eq_false_iff.mpr fun hr => h ?_
  simp [Drive.step, Sys.step, Scsi.step, phaseNext, Sys.input, hr]

theorem Drive.not_dataDone (hp : r.sys.tgt.phase = .dataOut)
    (hn : (r.step P E k).sys.tgt.phase = .dataOut) : r.sys.tgt.dataDone = false := by
  have hrst : k.bus.rst = false := Drive.rst_of_next (P := P) (E := E) (by rw [hn]; decide)
  refine Bool.eq_false_iff.mpr fun hd => ?_
  have hphase : (r.step P E k).sys.tgt.phase = if r.sys.tgt.dataDone then .statusOut else _ :=
    phase_data (i := r.sys.input E k.bus k.hps) hrst (.inl hp)
  rw [if_pos hd, hn] at hphase
  cases hphase

/-- A clock that stays in the data phase of a READ. -/
structure Stays (P : Params) (E : Env) (r : Drive) (k : Turn) : Prop where
  reads : r.reads
  next : (r.step P E k).sys.tgt.phase = .dataOut

namespace Stays

theorem rst (h : Stays P E r k) : k.bus.rst = false :=
  Drive.rst_of_next (P := P) (E := E) (by rw [h.next]; decide)

theorem not_complete (h : Stays P E r k) : r.sys.tgt.dataComplete = false := by
  have hdone := Drive.not_dataDone h.reads.1 h.next
  rw [State.dataDone, Bool.or_eq_false_iff] at hdone
  exact hdone.1

theorem ioAck_eq (h : Stays P E r k) : r.sys.ioAck = r.sys.hps.ack :=
  Sys.ioAck_eq (by rw [h.reads.1]; decide)

theorem rdBusy_next (h : Stays P E r k) : (r.step P E k).sys.tgt.rdBusy =
    (!r.sys.fall && (r.sys.tgt.rdBusy || r.issues P E k)) :=
  Sys.rdBusy_next h.rst

theorem tlen_next (h : Stays P E r k) : (r.step P E k).sys.tgt.tlen = r.sys.tgt.tlen :=
  Scsi.tlen_next (by rw [h.reads.1]; decide)

theorem dataCnt_next (h : Stays P E r k) (hc : r.sys.tgt.dataCnt < 2 ^ 32 - 1) :
    (r.step P E k).sys.tgt.dataCnt = r.sys.tgt.dataCnt + r.sys.tgt.stbAdv.toNat := by
  simp only [Drive.step, Sys.step, Scsi.step, dataCntNext, h.reads.1, Phase.transfers,
    h.not_complete]
  cases r.sys.tgt.stbAdv
  · rfl
  · simp
    omega

/-- The sector count moves only where the HPS closes a window. -/
theorem rdHpsBlk_next (h : Stays P E r k) (hb : r.sys.tgt.rdHpsBlk < 2 ^ 23 - 1) :
    (r.step P E k).sys.tgt.rdHpsBlk = r.sys.tgt.rdHpsBlk ∨
      r.sys.fall = true ∧ (r.step P E k).sys.tgt.rdHpsBlk = r.sys.tgt.rdHpsBlk + 1 := by
  simp only [Drive.step, Sys.step, Scsi.step, rdHpsBlkNext, h.reads.1, Phase.transfers]
  cases hc : rdCredit r.sys.tgt (r.sys.input E k.bus k.hps)
  · exact .inl rfl
  · refine .inr ⟨?_, ?_⟩
    · simp only [rdCredit, Bool.and_eq_true] at hc
      exact hc.1.1.1
    · simp
      omega

theorem fetches_next (h : Stays P E r k) : (r.step P E k).fetches =
    r.fetches + (r.issues P E k).toNat - r.sys.fall.toNat := by
  rw [Drive.step, if_pos h.reads.1]

theorem done_next (h : Stays P E r k) (ht : r.sys.tgt.tlen < 65536)
    (hc : (r.step P E k).sys.tgt.dataComplete = true) :
    r.sys.tgt.dataCnt + r.sys.tgt.stbAdv.toNat = 512 * r.sys.tgt.tlen := by
  have hlen := r.sys.tgt.dataLen_of_read h.reads.2.1
  have htlen := h.reads.2.2
  simp only [Drive.step, Sys.step, Scsi.step, dataCompleteNext, h.reads.1, Phase.transfers,
    h.not_complete, hlen] at hc
  cases hadv : r.sys.tgt.stbAdv
  · simp [hadv] at hc
  · rw [hadv, Bool.not_true, if_neg Bool.false_ne_true, if_pos rfl, decide_eq_true_eq] at hc
    rw [Bool.toNat_true]
    omega

end Stays

/-- A fetch is issued where one is wanted and none is under way. -/
theorem Drive.issues_eq : r.issues P E k =
    (!r.sys.ioAck && reqRd P r.sys.tgt && !r.sys.tgt.ioRd && !r.sys.tgt.rdBusy) := rfl

namespace Reading

theorem rdBusy_of_fall (h : Reading P r) (hf : r.sys.fall = true) : r.sys.tgt.rdBusy = true := by
  rw [Sys.fall, Bool.and_eq_true] at hf
  exact h.tie (.inr (.inl hf.1))

theorem not_issues_of_fall (h : Reading P r) (hf : r.sys.fall = true) :
    r.issues P E k = false := by
  rw [Drive.issues_eq, h.rdBusy_of_fall hf, Bool.not_true, Bool.and_false]

/-- A request of the HPS's own keeps `rd_busy` up through the clock. -/
theorem rdBusy_of_hps_next (h : Reading P r) (hs : Stays P E r k)
    (hh : (r.step P E k).sys.hps ≠ .idle) : (r.step P E k).sys.tgt.rdBusy = true := by
  have hio := hs.ioAck_eq
  have hbusy : r.sys.fall = false → r.sys.tgt.rdBusy = true ∨ r.issues P E k = true →
      (r.step P E k).sys.tgt.rdBusy = true := fun hf hor => by
    rw [hs.rdBusy_next, hf]
    simpa using hor
  have htaken := h.taken
  have hposted := h.posted
  change r.sys.hps.step E k.hps r.sys.tgt.ioRd r.sys.tgt.ioWr r.sys.tgt.lba ≠ .idle at hh
  generalize r.sys.hps = hps at hh hio htaken hposted
  cases hps with
  | idle =>
    -- the request is taken
    have hrd : r.sys.tgt.ioRd = true := by
      by_contra hrd
      rw [Bool.not_eq_true] at hrd
      simp [Hps.step, hrd, h.noWr.1] at hh
    have hold : r.sys.tgt.oldIoAck = false :=
      Bool.eq_false_iff.mpr fun ho => by
        rw [h.clear ho] at hrd
        cases hrd
    exact hbusy (by rw [Sys.fall, hold]; rfl) (.inl (h.tie (.inl hrd)))
  | posted op lba =>
    have hold : r.sys.tgt.oldIoAck = false := (hposted (by simp)).resolve_left (by simp [hio])
    refine hbusy (by rw [Sys.fall, hold]; rfl) ?_
    rcases htaken (by simp) with hb | hreq
    · exact .inl hb
    · -- an orphan has been taken, and the first fetch of the command goes out now
      by_cases hb : r.sys.tgt.rdBusy = true
      · exact .inl hb
      · have hrd : r.sys.tgt.ioRd = false := Bool.eq_false_iff.mpr fun hrd => hb (h.tie (.inl hrd))
        rw [Bool.not_eq_true] at hb
        exact .inr (by simp [Drive.issues_eq, hio, hreq, hrd, hb])
  | window op lba w =>
    have hack : r.sys.ioAck = true := hio
    exact hbusy (by rw [Sys.fall, hack, Bool.not_true, Bool.and_false])
      (.inl (h.tie (.inr (.inr hack))))

theorem tie_next (h : Reading P r) (hs : Stays P E r k)
    (hor : (r.step P E k).sys.tgt.ioRd = true ∨ (r.step P E k).sys.tgt.oldIoAck = true ∨
      (r.step P E k).sys.ioAck = true) : (r.step P E k).sys.tgt.rdBusy = true := by
  rw [hs.rdBusy_next]
  rcases hor with hrd | hold | hack
  · cases hi : r.issues P E k
    · -- an old request, and the window that answers it has not been seen
      have hrd' : r.sys.tgt.ioRd = true := by
        by_contra hno
        change ioRdNext P r.sys.tgt (r.sys.input E k.bus k.hps) = true at hrd
        have hi' : issueRd P r.sys.tgt (r.sys.input E k.bus k.hps) = false := hi
        simp [ioRdNext, hi', hno] at hrd
      have hold : r.sys.tgt.oldIoAck = false := Bool.eq_false_iff.mpr fun ho => by
        rw [h.clear ho] at hrd'
        cases hrd'
      rw [h.tie (.inl hrd'), Sys.fall, hold]
      rfl
    · have hf : r.sys.fall = false := Bool.eq_false_iff.mpr fun hf => by
        rw [h.not_issues_of_fall hf] at hi
        cases hi
      rw [hf, Bool.or_true]
      rfl
  · rw [show (r.step P E k).sys.tgt.oldIoAck = r.sys.ioAck from rfl] at hold
    rw [h.tie (.inr (.inr hold)), Sys.fall, hold, Bool.not_true, Bool.and_false]
    rfl
  · rw [← hs.rdBusy_next]
    refine h.rdBusy_of_hps_next hs fun hidle => ?_
    rw [Sys.ioAck, hidle] at hack
    cases hack

theorem busy_next (h : Reading P r) (hs : Stays P E r k) (ht : r.sys.tgt.tlen < 65536)
    (hblk : r.sys.fall = false → (r.step P E k).sys.tgt.rdHpsBlk = r.sys.tgt.rdHpsBlk)
    (hcnt : r.sys.tgt.dataCnt ≤ (r.step P E k).sys.tgt.dataCnt)
    (hb : (r.step P E k).sys.tgt.rdBusy = true) :
    (r.step P E k).sys.tgt.rdHpsBlk < r.sys.tgt.tlen ∧
      (r.step P E k).sys.tgt.rdHpsBlk < (r.step P E k).sys.tgt.dataCnt / 512 + P.ringBlocks := by
  rw [hs.rdBusy_next, Bool.and_eq_true, Bool.not_eq_true', Bool.or_eq_true] at hb
  have hroom : r.sys.tgt.rdHpsBlk < r.sys.tgt.tlen ∧
      r.sys.tgt.rdHpsBlk < r.sys.tgt.dataCnt / 512 + P.ringBlocks := by
    rcases hb.2 with hb | hi
    · exact h.busy hb
    · simp only [Drive.issues_eq, reqRd, Bool.and_eq_true, h.rdRingSpace_eq ht,
        decide_eq_true_eq] at hi
      exact ⟨hi.1.1.2.1.2, hi.1.1.2.2⟩
  have hdiv := Nat.div_le_div_right (c := 512) hcnt
  rw [hblk hb.1]
  omega

/-- The pulses of the access in progress stay within what was asked of it. -/
theorem cnt_next (h : Reading P r) (hr : r.reads) (hk : Accesses r k)
    (hstb : r.sys.tgt.stbAdv = true → r.sys.tgt.oldAck = false) :
    r.sys.tgt.dataCnt + r.sys.tgt.stbAdv.toNat + (r.step P E k).inFlight + (r.step P E k).left ≤
      512 * r.sys.tgt.rdHpsBlk + 5 := by
  have hleft := hk.left_next (P := P) (E := E)
  rw [Drive.inFlight_next]
  have hfl : r.sys.tgt.oldAck.toNat + r.sys.tgt.stbAdv.toNat = r.inFlight := rfl
  cases hs : k.start
  · have hall : r.allowed k = r.left := by simp [Drive.allowed, hs]
    have := h.cnt
    omega
  · -- an access starts on a byte that is there
    have hall : r.allowed k = 4 := by simp [Drive.allowed, hs]
    have hlt := (req_dataOut hr.1 hr.2.1 (hk.req_of_start hs)).1
    have hone : r.sys.tgt.oldAck.toNat + r.sys.tgt.stbAdv.toNat ≤ 1 := by
      cases hadv : r.sys.tgt.stbAdv
      · exact Bool.toNat_le _
      · rw [hstb hadv]
        exact Nat.le_refl 1
    omega

/-- The registers of a READ are kept by every clock of its data phase. -/
theorem step (h : Reading P r) (hi : RingInv P r) (hs : Stays P E r k) (hk : Accesses r k) :
    Reading P (r.step P E k) := by
  have ht := hi.tlen_lt
  have hle := h.le_total
  have hcnt := h.cnt
  have hadv := r.sys.tgt.stbAdv.toNat_le
  have hcnt' := hs.dataCnt_next (by omega)
  have hblk' := hs.rdHpsBlk_next (by omega)
  have hsame : r.sys.fall = false → (r.step P E k).sys.tgt.rdHpsBlk = r.sys.tgt.rdHpsBlk :=
    fun hf => hblk'.resolve_right (by simp [hf])
  have hbusy := h.busy_next hs ht hsame (by omega)
  constructor
  · have hw := State.cmdWrite_of_cmdRead hs.reads.2.1
    have hno := h.noWr
    simp [Drive.step, Sys.step, Scsi.step, ioWrNext, wrPendingNext, issueWr, reqWr, hw, hno]
  · rw [hs.tlen_next]
    rcases hblk' with heq | ⟨hf, heq⟩
    · omega
    · have := (h.busy (h.rdBusy_of_fall hf)).1
      omega
  · have := h.cnt_next (P := P) (E := E) hs.reads hk hi.strobe
    rcases hblk' with heq | ⟨-, heq⟩ <;> omega
  · have hahead := h.ahead
    have hdiv := Nat.div_le_div_right (c := 512)
      (show r.sys.tgt.dataCnt ≤ (r.step P E k).sys.tgt.dataCnt by omega)
    rcases hblk' with heq | ⟨hf, heq⟩
    · omega
    · have := (h.busy (h.rdBusy_of_fall hf)).2
      omega
  · intro hc
    rw [hs.tlen_next, hcnt']
    exact hs.done_next ht hc
  · exact h.tie_next hs
  · exact fun hh => .inl (h.rdBusy_of_hps_next hs hh)
  · intro hh
    cases hack : r.sys.ioAck
    · exact .inr hack
    · -- the window stays open, or the HPS is at rest
      refine .inl ?_
      rw [hs.ioAck_eq] at hack
      rw [Sys.ioAck_eq (by rw [hs.next]; decide)]
      change r.sys.hps.step E k.hps r.sys.tgt.ioRd r.sys.tgt.ioWr r.sys.tgt.lba ≠ .idle at hh
      change (r.sys.hps.step E k.hps r.sys.tgt.ioRd r.sys.tgt.ioWr r.sys.tgt.lba).ack = true
      exact Hps.ack_step hack hh
  · exact fun hold => Sys.ioRd_next_of_ack hs.rst hold
  · intro hb
    rw [hs.tlen_next]
    exact hbusy hb
  · rw [hs.fetches_next, hs.rdBusy_next, h.fetches]
    cases hf : r.sys.fall
    · cases hi : r.issues P E k
      · simp
      · rw [Drive.issues_eq, Bool.and_eq_true, Bool.not_eq_true'] at hi
        rw [hi.2]
        rfl
    · rw [h.not_issues_of_fall hf, h.rdBusy_of_fall hf]
      rfl

/-- The first clock of the data phase of a READ. -/
theorem start (hi : RingInv P r) (hk : Accesses r k) (hb : BeginsClear P E r k)
    (hp : r.sys.tgt.phase = .cmdIn) (hn : (r.step P E k).reads) : Reading P (r.step P E k) := by
  obtain ⟨hack, hack'⟩ := hb hp hn
  have hrst : k.bus.rst = false := Drive.rst_of_next (P := P) (E := E) (by rw [hn.1]; decide)
  have hcpl : r.sys.tgt.cmdCpl = true := by
    by_contra hc
    have hphase : (r.step P E k).sys.tgt.phase = if r.sys.tgt.cmdCpl then _ else .cmdIn :=
      phase_accept (i := r.sys.input E k.bus k.hps) hrst hp
    rw [if_neg hc, hn.1] at hphase
    cases hphase
  -- six bytes need an access that has started in this phase, with nothing to flush
  have hno : r.sys.tgt.ioWr = false ∧ r.sys.tgt.wrPending = false := by
    refine (hi.flushed hp).resolve_right fun hc => ?_
    rw [cmdCpl_iff] at hcpl
    omega
  have hquiet := hi.quiet fun hr => by cases hp.symm.trans hr.1
  have hreq : reqRd P r.sys.tgt = false := by simp [reqRd, hp]
  have hrd : (r.step P E k).sys.tgt.ioRd = false ∧ (r.step P E k).sys.tgt.rdBusy = false := by
    simp [Drive.step, Sys.step, Scsi.step, ioRdNext, rdBusyNext, issueRd, hreq, hquiet]
  have hblk : (r.step P E k).sys.tgt.rdHpsBlk = 0 := by
    simp [Drive.step, Sys.step, Scsi.step, rdHpsBlkNext, hp, Phase.transfers]
  have hcnt : (r.step P E k).sys.tgt.dataCnt = 0 := by
    simp [Drive.step, Sys.step, Scsi.step, dataCntNext, hp, Phase.transfers]
  have hcomp : (r.step P E k).sys.tgt.dataComplete = false := by
    simp [Drive.step, Sys.step, Scsi.step, dataCompleteNext, hp, Phase.transfers]
  have hold : (r.step P E k).sys.tgt.oldIoAck = false := hack
  constructor
  · simp [Drive.step, Sys.step, Scsi.step, ioWrNext, wrPendingNext, issueWr, reqWr, hp, hno]
  · rw [hblk]
    exact Nat.zero_le _
  · have := hk.left_le hi.left_le (P := P) (E := E)
    have := r.inFlight_le (P := P) (E := E) (k := k)
    omega
  · rw [hblk]
    exact Nat.zero_le _
  · intro hc
    rw [hcomp] at hc
    cases hc
  · simp [hrd, hold, hack']
  · -- an orphan may have been taken, and the first fetch is wanted at once
    refine fun _ => .inr ?_
    have hlen := (r.step P E k).sys.tgt.dataLen_of_read hn.2.1
    have hne := hn.2.2
    have hpos : 0 < P.ringBlocks := Nat.two_pow_pos _
    simp [reqRd, hn.1, hn.2.1, hcomp, hblk, hlen, hne, rdRingSpace, State.rdCurBlk, hcnt, hpos]
    omega
  · exact fun _ => .inr hold
  · intro ho
    rw [hold] at ho
    cases ho
  · intro hb
    rw [hrd.2] at hb
    cases hb
  · rw [hrd.2, Drive.step, if_neg (by rw [hp]; decide)]
    rfl

end Reading

/-! ### Along a run -/

namespace RingInv

theorem init : RingInv P .init := by
  have hphase : Drive.init.sys.tgt.phase = .idle := rfl
  constructor
  · exact Nat.zero_le 4
  · intro hs
    cases hs
  · exact Nat.two_pow_pos 16
  · exact fun _ => ⟨rfl, rfl⟩
  · exact fun _ => .inl ⟨rfl, rfl⟩
  · intro hr
    cases hphase.symm.trans hr.1
  · intro hd
    cases hphase.symm.trans hd

theorem tlen_next (h : RingInv P r) : (r.step P E k).sys.tgt.tlen < 65536 := by
  change tlenNext r.sys.tgt < 65536
  unfold tlenNext
  split_ifs
  · exact r.sys.tgt.tlen6_lt
  · exact r.sys.tgt.tlen10_lt
  · exact h.tlen_lt

/-- Only the data phase of a READ requests, and it ends with nothing under way. -/
theorem quiet_next (h : RingInv P r) (hn : ¬ (r.step P E k).reads) :
    (r.step P E k).sys.tgt.ioRd = false ∧ (r.step P E k).sys.tgt.rdBusy = false := by
  by_cases hrst : k.bus.rst = true
  · simp [Drive.step, Sys.step, Scsi.step, ioRdNext, rdBusyNext, Sys.input, hrst]
  have hkept : (r.sys.tgt.ioRd = false ∧ r.sys.tgt.rdBusy = false) ∧
      reqRd P r.sys.tgt = false := by
    by_cases hr : r.reads
    · have hne : r.sys.tgt.phase ≠ .cmdIn := by rw [hr.1]; decide
      have hout : (r.step P E k).sys.tgt.phase ≠ .dataOut := fun hd => by
        refine hn ⟨hd, ?_, ?_⟩
        · rw [← hr.2.1]
          exact cmdRead_congr (cmd_next hne)
        · rw [show (r.step P E k).sys.tgt.tlen = r.sys.tgt.tlen from Scsi.tlen_next hne]
          exact hr.2.2
      have hphase : (r.step P E k).sys.tgt.phase = if r.sys.tgt.dataDone then .statusOut else _ :=
        phase_data (i := r.sys.input E k.bus k.hps) (Bool.eq_false_iff.mpr hrst) (.inl hr.1)
      have hdone : r.sys.tgt.dataDone = true := by
        by_contra hd
        rw [if_neg hd] at hphase
        exact hout (hphase.trans hr.1)
      have hc : r.sys.tgt.dataComplete = true := by
        have hlen := r.sys.tgt.dataLen_of_read hr.2.1
        have htlen := hr.2.2
        simpa [State.dataDone, hlen, htlen] using hdone
      exact ⟨(h.read hr).finished hc, by simp [reqRd, hc]⟩
    · refine ⟨h.quiet hr, Bool.eq_false_iff.mpr fun hreq => hr ?_⟩
      simp only [reqRd, Bool.and_eq_true, beq_iff_eq, bne_iff_ne] at hreq
      refine ⟨hreq.1.1.1.1.1, hreq.1.1.1.1.2, fun htlen => hreq.1.1.1.2 ?_⟩
      rw [r.sys.tgt.dataLen_of_read hreq.1.1.1.1.2, htlen]
  obtain ⟨hq, hreq⟩ := hkept
  simp [Drive.step, Sys.step, Scsi.step, ioRdNext, rdBusyNext, issueRd, hreq, hq]

/-- While an earlier flush is pending no access starts in the command phase. -/
theorem flushed_next (h : RingInv P r) (hk : Accesses r k)
    (hp : (r.step P E k).sys.tgt.phase = .cmdIn) :
    ((r.step P E k).sys.tgt.ioWr = false ∧ (r.step P E k).sys.tgt.wrPending = false) ∨
      (r.step P E k).sys.tgt.cmdCnt + (r.step P E k).inFlight + (r.step P E k).left ≤ 5 := by
  by_cases hb : r.sys.tgt.phase = .idle
  · have hcnt : (r.step P E k).sys.tgt.cmdCnt = 0 := by
      simp [Drive.step, Sys.step, Scsi.step, cmdCntNext, hb]
    have := hk.left_le h.left_le (P := P) (E := E)
    have := r.inFlight_le (P := P) (E := E) (k := k)
    omega
  have hcmd : r.sys.tgt.phase = .cmdIn := phase_of_cmdIn_next hb hp
  have hkept : r.sys.tgt.ioWr = false ∧ r.sys.tgt.wrPending = false →
      (r.step P E k).sys.tgt.ioWr = false ∧ (r.step P E k).sys.tgt.wrPending = false := fun hno => by
    simp [Drive.step, Sys.step, Scsi.step, ioWrNext, wrPendingNext, issueWr, reqWr, hcmd, hno]
  cases hs : k.start
  · refine (h.flushed hcmd).imp hkept fun hsum => ?_
    have hall : r.allowed k = r.left := by simp [Drive.allowed, hs]
    have hleft := hk.left_next (P := P) (E := E)
    have hfl : r.sys.tgt.oldAck.toNat + r.sys.tgt.stbAdv.toNat = r.inFlight := rfl
    have hcnt : (r.step P E k).sys.tgt.cmdCnt ≤ r.sys.tgt.cmdCnt + r.sys.tgt.stbAdv.toNat := by
      change cmdCntNext r.sys.tgt ≤ _
      rw [cmdCntNext]
      split_ifs with hidle hadv
      · exact Nat.zero_le _
      · rw [Bool.and_eq_true, Bool.and_eq_true] at hadv
        rw [hadv.1.1, Bool.toNat_true]
      · exact Nat.le_add_right _ _
    rw [Drive.inFlight_next]
    omega
  · have hreq := hk.req_of_start hs
    simp [req, ioBusy, hcmd] at hreq
    exact .inl (hkept ⟨hreq.1.1.1.2, hreq.1.2⟩)

theorem step (h : RingInv P r) (hk : Accesses r k) (hb : BeginsClear P E r k) :
    RingInv P (r.step P E k) := by
  constructor
  · exact hk.left_le h.left_le
  · intro hs
    change (r.sys.tgt.oldAck && !k.bus.ack) = true at hs
    rw [Bool.and_eq_true, Bool.not_eq_true'] at hs
    exact hs.2
  · exact h.tlen_next
  · exact h.quiet_next
  · exact h.flushed_next hk
  · intro hn
    rcases phase_of_dataOut_next hn.1 with hp | hp
    · exact .start h hk hb hp hn
    · have hne : r.sys.tgt.phase ≠ .cmdIn := by rw [hp]; decide
      have hcmd : (r.step P E k).sys.tgt.cmdRead = r.sys.tgt.cmdRead := cmdRead_congr (cmd_next hne)
      have htlen : (r.step P E k).sys.tgt.tlen = r.sys.tgt.tlen := Scsi.tlen_next hne
      have hr : r.reads := ⟨hp, hcmd ▸ hn.2.1, htlen ▸ hn.2.2⟩
      exact (h.read hr).step h ⟨hr, hn.1⟩ hk
  · intro hd hread htlen
    rcases phase_of_dataOut_next hd with hp | hp
    · simp [Drive.step, Sys.step, Scsi.step, rdHpsBlkNext, dataCntNext, hp, Phase.transfers]
    · -- a READ of no sectors ends in the first clock of its data phase
      have hne : r.sys.tgt.phase ≠ .cmdIn := by rw [hp]; decide
      have hread' : r.sys.tgt.cmdRead = true := by
        rw [← hread]
        exact (cmdRead_congr (cmd_next hne)).symm
      have htlen' : r.sys.tgt.tlen = 0 := by
        rw [← htlen]
        exact (Scsi.tlen_next hne).symm
      have hdone := Drive.not_dataDone hp hd
      simp [State.dataDone, r.sys.tgt.dataLen_of_read hread', htlen'] at hdone

end RingInv

/-- The window holds in the data phase of every READ, if no `io_ack` window is open, or just closes,
where such a phase begins. -/
theorem ring_window {u : ℕ → Turn} {t : ℕ}
    (ha : ∀ k < t, Accesses (Drive.init.run P E u k) (u k))
    (hb : ∀ k < t, BeginsClear P E (Drive.init.run P E u k) (u k))
    (hd : (Drive.init.run P E u t).sys.tgt.phase = .dataOut)
    (hr : (Drive.init.run P E u t).sys.tgt.cmdRead = true) :
    Window P (Drive.init.run P E u t) := by
  have hinv : RingInv P (Drive.init.run P E u t) :=
    Clocked.run_inv_of (Drive.step P E)
      (fun r k (h : RingInv P r) (hok : Accesses r k ∧ BeginsClear P E r k) => h.step hok.1 hok.2)
      .init u t fun k hk => ⟨ha k hk, hb k hk⟩
  by_cases ht : (Drive.init.run P E u t).sys.tgt.tlen = 0
  · obtain ⟨hblk, hcnt, hf⟩ := hinv.empty hd hr ht
    constructor
    · simp [State.rdCurBlk, hcnt]
    · rw [hblk]
      exact Nat.zero_le _
    · rw [hblk, Nat.zero_sub]
      exact Nat.zero_le _
    · rw [hf]
      exact Nat.zero_le 1
    · intro _ b _ hlt
      rw [hblk] at hlt
      exact absurd hlt (Nat.not_lt_zero b)
  · exact (hinv.read ⟨hd, hr, ht⟩).window

/-! ### Runs from power-up -/

instance (r : Drive) (k : Turn) : Decidable (Accesses r k) :=
  decidable_of_iff ((k.start = true →
      req r.sys.tgt (r.sys.tgt.oldAck && k.bus.ack) r.sys.ioAck = true) ∧
    (r.rise k = true → 0 < r.allowed k)) ⟨fun h => ⟨h.1, h.2⟩, fun h => ⟨h.1, h.2⟩⟩

instance (r : Drive) : Decidable r.reads :=
  inferInstanceAs (Decidable (_ ∧ _ ∧ _))

instance (P : Params) (E : Env) (r : Drive) (k : Turn) : Decidable (BeginsClear P E r k) :=
  inferInstanceAs (Decidable (_ → _ → _ ∧ _))

/-- Mounts a disk, selects the target and sends it a READ of sector 5, in accesses of one byte. With
`abort` the bus is reset when the first fetch is requested, and the READ is sent again; the HPS opens
the window of the first fetch where the command is complete. -/
def readAgain (abort : Bool) (t : ℕ) (r : Drive) : Turn :=
  let start := !r.sys.tgt.oldAck && t % 8 == 0 && req r.sys.tgt false r.sys.ioAck
  let idle := r.sys.tgt.phase == .idle
  { bus :=
      { rst := abort && r.sys.tgt.ioRd && decide (t < 80)
        sel := idle
        busBusy := false
        ack := start
        din := if idle then 1 else readSector5 r.sys.tgt.cmdCnt
        imgMounted := t == 0
        imgBlocks := 1
        dbgDmaWord := false
        dbgDmaLowbyte := 0 }
    hps :=
      { go := match r.sys.hps with
          | .idle => true
          | .posted _ _ => !idle && r.sys.tgt.cmdCpl
          | .window _ _ w => decide (255 ≤ w)
        strobe := true
        addr := 0
        data := 0 }
    start := start }

theorem ring_window_sector5 : ∃ (u : ℕ → Turn) (t : ℕ),
    (Drive.init.run .least (.numbered false) u t).sys.tgt.rdHpsBlk = 1 ∧
    Window .least (Drive.init.run .least (.numbered false) u t) := by
  have hscan : scan (Drive.step .least (.numbered false)) (readAgain false)
      (fun r k => decide (Accesses r k) && decide (BeginsClear .least (.numbered false) r k))
      (fun r => r.sys.tgt.phase == .dataOut && r.sys.tgt.cmdRead && r.sys.tgt.rdHpsBlk == 1)
      330 0 .init = true := by
    decide +kernel
  obtain ⟨hok, hfin⟩ := run_of_scan hscan
  simp only [Bool.and_eq_true, beq_iff_eq, decide_eq_true_eq] at hok hfin
  exact ⟨_, 330, hfin.2,
    ring_window (fun k hk => (hok k hk).1) (fun k hk => (hok k hk).2) hfin.1.1 hfin.1.2⟩

/-- The ring can run past the end of a command: the window of a fetch from before a bus reset is open
where the data phase begins, and from where it closes every fetch is requested in the clock that takes
`rd_busy` down, on the sector count of the clock before. -/
theorem orphan_window : ¬ ∀ (P : Params) (E : Env) (u : ℕ → Turn) (t : ℕ),
    (∀ k < t, Accesses (Drive.init.run P E u k) (u k)) →
    (Drive.init.run P E u t).sys.tgt.phase = .dataOut →
    (Drive.init.run P E u t).sys.tgt.cmdRead = true → Window P (Drive.init.run P E u t) := by
  intro hall
  have hscan : scan (Drive.step .least (.numbered false)) (readAgain true)
      (fun r k => decide (Accesses r k))
      (fun r => r.sys.tgt.phase == .dataOut && r.sys.tgt.cmdRead &&
        decide (r.sys.tgt.tlen < r.sys.tgt.rdHpsBlk)) 880 0 .init = true := by
    decide +kernel
  obtain ⟨hok, hfin⟩ := run_of_scan hscan
  simp only [Bool.and_eq_true, beq_iff_eq, decide_eq_true_eq] at hok hfin
  have hwin := hall _ _ _ 880 hok hfin.1.1 hfin.1.2
  exact absurd hwin.le_tlen (Nat.not_le.mpr hfin.2)

end Scsi
