import LBMacTwo.Foundation.Clocked
import LBMacTwo.Scsi.Initiator
import LBMacTwo.Scsi.Ncr5380

/-!
# Pseudo-DMA accesses

A host that moves data by DACK cycles: `Bench` is the chip with what the host remembers of its
cycles, `Obeys` the rules it follows, `Train` what holds of the `ack` train whatever the target
does. `lead` counts the bytes the target has taken and those whose pulses are under way: it grows
only when an access ends, by the bytes of the access (`lead_next`). `Over` is what is left when the
data phase has taken them all.
-/

namespace Scsi

/-- The kinds of DACK cycle. A longword read is a `long` cycle followed by a `second` one. -/
inductive Width
  | byte
  | word
  | long
  | second
  deriving DecidableEq, Repr

/-- A DACK cycle and the data the host drives in it. -/
structure Access where
  write : Bool
  width : Width
  data : Word
  deriving DecidableEq

/-- The bytes an access moves: all four of a longword read move with its first cycle. -/
def Access.bytes (a : Access) : ℕ :=
  match a.width with
  | .byte => 1
  | .word => 2
  | .long => if a.write then 2 else 4
  | .second => if a.write then 2 else 0

/-- The host bus in a clock of an access. -/
def Access.host (a : Access) (wdata : Word) : Host where
  busCs := true
  busRs := 0
  ior := !a.write
  iow := a.write
  dack := true
  dmaWord := a.width != .byte
  dmaLongword := a.width == .long || a.width == .second
  dmaSecondWord := a.width == .second
  wdata := if a.write then a.data else wdata

/-- The host bus between two accesses. -/
def Host.released (wdata : Word) : Host where
  busCs := false
  busRs := 0
  ior := false
  iow := false
  dack := false
  dmaWord := false
  dmaLongword := false
  dmaSecondWord := false
  wdata := wdata

/-- What the host and the HPS do in one clock; `wdata` is on the bus when the host does not drive
it. -/
structure Beat where
  acc : Option Access
  wdata : Word
  hps : HpsMove

def Beat.host (k : Beat) : Host :=
  match k.acc with
  | some a => a.host k.wdata
  | none => .released k.wdata

def Beat.clock (k : Beat) : Clock := ⟨k.host, k.hps, false, 0⟩

/-- The chip with its host: the access of the last clock, whether DREQ has been seen in it, whether
a longword read waits for its second cycle, and the bytes moved by the accesses that have ended. -/
structure Bench where
  chip : Chip
  acc : Option Access
  seen : Bool
  half : Bool
  pos : ℕ

/-- The access of the last clock ends with this one. -/
def Bench.ends (b : Bench) (k : Beat) : Option Access := if k.acc.isNone then b.acc else none

def Bench.step (P : Params) (E : Env) (b : Bench) (k : Beat) : Bench where
  chip := b.chip.step P E k.clock
  acc := k.acc
  seen := k.acc.isSome && (b.seen || b.chip.dreq)
  half := match b.ends k with
    | some a => !a.write && a.width == .long
    | none => b.half
  pos := match b.ends k with
    | some a => b.pos + a.bytes
    | none => b.pos

/-- The bench after `t` clocks. -/
abbrev Bench.run (P : Params) (E : Env) (b : Bench) (u : ℕ → Beat) (t : ℕ) : Bench :=
  Clocked.run (Bench.step P E) b u t

theorem Bench.run_succ {P : Params} {E : Env} (b : Bench) (u : ℕ → Beat) (t : ℕ) :
    b.run P E u (t + 1) = (b.run P E u t).step P E (u t) := rfl

theorem Bench.pos_next {P : Params} {E : Env} {k : Beat} (b : Bench) :
    (b.step P E k).pos = b.pos + (b.ends k).elim 0 Access.bytes := by
  simp only [Bench.step]
  cases b.ends k <;> rfl

theorem Bench.half_next {P : Params} {E : Env} {k : Beat} (b : Bench) : (b.step P E k).half =
    (b.ends k).elim b.half fun a => !a.write && a.width == Width.long := by
  simp only [Bench.step]
  cases b.ends k <;> rfl

/-- The rules of the host: an access does not change while it lasts, it ends only after DREQ has
been seen in it, two accesses have a clock between them, all go in one direction, and the second
cycle of a longword read follows its first. -/
structure Obeys (dir : Bool) (b : Bench) (k : Beat) : Prop where
  held : ∀ a a', b.acc = some a → k.acc = some a' → a' = a
  ended : b.acc.isSome = true → k.acc = none → b.seen = true
  write : ∀ a, k.acc = some a → a.write = dir
  second : ∀ a, b.acc = none → k.acc = some a → (b.half = true ↔ dir = false ∧ a.width = .second)

/-- The adapter is set up for pseudo-DMA in one direction: DMA mode on and started, TCR naming the
data phase, the initiator driving the bus only to write. -/
structure Armed (dir : Bool) (n : Ncr) : Prop where
  rst : n.icrARst = false
  ack : n.icrAAck = false
  data : n.icrAData = dir
  arb : n.mrArb = false ∧ n.arbActive = false
  mode : n.mrDmaMode = true
  en : n.dmaEn = true
  reg : n.regWr = false ∧ n.oldRegWr = false
  tcr : n.tcrAMsg = false ∧ n.tcrACd = false ∧ n.tcrAIo = !dir

variable {P : Params} {E : Env} {dir : Bool} {b : Bench} {k : Beat} {c : Chip} {h : Host}

/-! ### The bus in one clock -/

@[simp] theorem Access.host_iDmaRd (a : Access) (w : Word) : (a.host w).iDmaRd = !a.write := rfl

@[simp] theorem Access.host_iDmaWr (a : Access) (w : Word) : (a.host w).iDmaWr = a.write := rfl

@[simp] theorem Access.host_iRegWr (a : Access) (w : Word) : (a.host w).iRegWr = false := rfl

@[simp] theorem Host.released_iDmaRd (w : Word) : (Host.released w).iDmaRd = false := rfl

@[simp] theorem Host.released_iDmaWr (w : Word) : (Host.released w).iDmaWr = false := rfl

@[simp] theorem Host.released_iRegWr (w : Word) : (Host.released w).iRegWr = false := rfl

theorem Beat.iRegWr_eq (k : Beat) : k.host.iRegWr = false := by
  unfold Beat.host
  cases k.acc <;> rfl

theorem Armed.step (h : Armed dir b.chip.ncr) : Armed dir (b.step P E k).chip.ncr := by
  have hw : ∀ rs, b.chip.ncr.writes k.host rs = false := fun rs => by
    rw [Ncr.writes, h.reg.1, Bool.false_and]
  have hicr : (b.step P E k).chip.ncr.icr = b.chip.ncr.icr := by
    simp [Bench.step, Chip.step, Ncr.step, icrNext, Beat.clock, hw, h.arb.2]
  have hmr : (b.step P E k).chip.ncr.mr = b.chip.ncr.mr := by
    simp [Bench.step, Chip.step, Ncr.step, mrNext, Beat.clock, hw, h.rst]
  have htcr : (b.step P E k).chip.ncr.tcr = b.chip.ncr.tcr := by
    simp [Bench.step, Chip.step, Ncr.step, tcrNext, Beat.clock, hw]
  constructor
  · rw [Ncr.icrARst, hicr]
    exact h.rst
  · rw [Ncr.icrAAck, hicr]
    exact h.ack
  · rw [Ncr.icrAData, hicr]
    exact h.data
  · rw [Ncr.mrArb, hmr]
    refine ⟨h.arb.1, ?_⟩
    simp [Bench.step, Chip.step, Ncr.step, arbActiveNext, Beat.clock, hw, h.arb.2]
  · rw [Ncr.mrDmaMode, hmr]
    exact h.mode
  · simp [Bench.step, Chip.step, Ncr.step, dmaEnNext, Beat.clock, h.mode, h.en]
  · simp [Bench.step, Chip.step, Ncr.step, Beat.clock, k.iRegWr_eq]
  · rw [Ncr.tcrAMsg, Ncr.tcrACd, Ncr.tcrAIo, htcr]
    exact h.tcr

theorem Armed.scsiAck (h : Armed dir c.ncr) : c.ncr.scsiAck = c.ncr.dmaAck := by
  rw [Ncr.scsiAck, h.ack, Bool.false_or]

/-! ### The train of pulses -/

/-- The registers of the pseudo-DMA engine against the target's `ack` pipeline and the host. -/
structure Train (dir : Bool) (b : Bench) : Prop where
  armed : Armed dir b.chip.ncr
  shake : Shake ⟨b.chip.sys, b.chip.ncr.dmaSettle⟩
  alt : b.chip.ncr.dmaAck = true → b.chip.sys.tgt.oldAck = false
  odd : b.chip.ncr.dmaAckHoldoff % 2 = 1 →
    b.chip.sys.tgt.oldAck = true ∧ b.chip.ncr.dmaAck = false
  even : b.chip.ncr.dmaAckHoldoff ≠ 0 → b.chip.ncr.dmaAckHoldoff % 2 = 0 →
    b.chip.ncr.dmaAck = true
  quiet : b.seen = true → b.chip.ncr.dmaAckBusy = false
  write : ∀ a, b.acc = some a → a.write = dir
  old : b.chip.ncr.oldDmaRd = (b.acc.isSome && !dir) ∧
    b.chip.ncr.oldDmaWr = (b.acc.isSome && dir)
  latched : ∀ a, b.acc = some a → b.chip.ncr.dmaWordLatched = (a.width != .byte) ∧
    b.chip.ncr.dmaLongwordLatched = (a.width == .long || a.width == .second) ∧
    b.chip.ncr.dmaSecondWordLatched = (a.width == .second)
  pending : dir = false → b.chip.ncr.dmaLongwordSecondPending =
    match b.acc with
    | some a => a.width == .long
    | none => b.half
  suppress : dir = false → ∀ a, b.acc = some a →
    b.chip.ncr.dmaSuppressAckLatched = (a.width == .second)

/-- The bytes the target has counted and those whose pulses are on their way to it. -/
def Chip.lead (c : Chip) : ℕ :=
  c.sys.tgt.dataCnt + c.sys.tgt.stbAdv.toNat + c.sys.tgt.oldAck.toNat + c.ncr.dmaAck.toNat +
    (c.ncr.dmaAckHoldoff + 1) / 2

theorem not_busy {n : Ncr} (h : n.dmaAckBusy = false) :
    n.dmaAck = false ∧ n.dmaAckHoldoff = 0 ∧ n.dmaSettle = 0 := by
  simpa [Ncr.dmaAckBusy, and_assoc] using h

namespace Train

theorem iDmaRd_eq (ho : Obeys dir b k) : k.host.iDmaRd = (k.acc.isSome && !dir) := by
  unfold Beat.host
  cases ha : k.acc with
  | none => rfl
  | some a =>
    rw [Access.host_iDmaRd, ho.write a ha]
    rfl

theorem iDmaWr_eq (ho : Obeys dir b k) : k.host.iDmaWr = (k.acc.isSome && dir) := by
  unfold Beat.host
  cases ha : k.acc with
  | none => rfl
  | some a =>
    rw [Access.host_iDmaWr, ho.write a ha]
    rfl

/-- An access that ends has a quiet engine, and its train is as long as it moves bytes. -/
theorem ends_spec (ht : Train dir b) (ho : Obeys dir b k) {a : Access} (he : b.ends k = some a) :
    b.acc = some a ∧ k.acc = none ∧ b.seen = true ∧
    b.chip.ncr.accessEnd k.host = decide (a.bytes ≠ 0) ∧
    (a.bytes ≠ 0 → b.chip.ncr.trainHoldoff k.host = 2 * (a.bytes - 1)) := by
  have hk : k.acc = none := by
    by_contra hk
    rw [Bench.ends, if_neg (by simpa using hk)] at he
    cases he
  have hacc : b.acc = some a := by
    rw [Bench.ends, hk] at he
    exact he
  have hseen := ho.ended (by rw [hacc]; rfl) hk
  obtain ⟨-, hh, -⟩ := not_busy (ht.quiet hseen)
  obtain ⟨hrd, hwr⟩ := ht.old
  obtain ⟨hl1, hl2, -⟩ := ht.latched a hacc
  have hw := ht.write a hacc
  refine ⟨hacc, hk, hseen, ?_, fun hb => ?_⟩
  · rw [Ncr.accessEnd, Ncr.wrFall, Ncr.rdFall, iDmaRd_eq ho, iDmaWr_eq ho, hrd, hwr, hacc, hk, hh]
    cases dir with
    | true => cases hwd : a.width <;> simp [Access.bytes, hw, hwd]
    | false =>
      rw [ht.suppress rfl a hacc]
      cases hwd : a.width <;> simp [Access.bytes, hw, hwd]
  · rw [Ncr.trainHoldoff, Ncr.rdFall, iDmaRd_eq ho, hrd, hacc, hk, hl1, hl2]
    cases dir <;> cases hwd : a.width <;> simp [Access.bytes, hw, hwd] at hb ⊢

/-- No train starts while no access ends. -/
theorem accessEnd_of_ends_none (ht : Train dir b) (ho : Obeys dir b k) (he : b.ends k = none) :
    b.chip.ncr.accessEnd k.host = false := by
  obtain ⟨hrd, hwr⟩ := ht.old
  have hsome : b.acc.isSome = true → k.acc.isSome = true := by
    intro hb
    by_contra hk
    rw [Bench.ends, if_pos (by simpa using hk)] at he
    rw [he] at hb
    cases hb
  rw [Ncr.accessEnd, Ncr.wrFall, Ncr.rdFall, iDmaRd_eq ho, iDmaWr_eq ho, hrd, hwr]
  cases hb : b.acc.isSome
  · simp
  · rw [hsome hb]
    cases dir <;> simp

end Train

/-! ### One clock of the train -/

/-- The target, with the settle counter of the adapter, is a rig. -/
def Chip.rig (c : Chip) : Rig := ⟨c.sys, c.ncr.dmaSettle⟩

theorem Armed.rig_step (h : Armed dir b.chip.ncr) : (b.step P E k).chip.rig =
    b.chip.rig.step P E ⟨b.chip.bus P k.clock, k.clock.hps⟩ := by
  have hack : (b.chip.bus P k.clock).ack = b.chip.ncr.dmaAck := h.scsiAck
  simp only [Chip.rig, Rig.step, hack]
  rfl

theorem Armed.oldAck_step (h : Armed dir b.chip.ncr) :
    (b.step P E k).chip.sys.tgt.oldAck = b.chip.ncr.dmaAck := h.scsiAck

theorem Armed.stbAdv_step (h : Armed dir b.chip.ncr) : (b.step P E k).chip.sys.tgt.stbAdv =
    (b.chip.sys.tgt.oldAck && !b.chip.ncr.dmaAck) := by
  rw [← h.scsiAck]
  rfl

namespace Train

/-- The engine is quiet when an access ends. -/
theorem quiet_of_accessEnd (ht : Train dir b) (ho : Obeys dir b k)
    (he : b.chip.ncr.accessEnd k.host = true) : b.chip.ncr.dmaAckBusy = false := by
  have hends : b.ends k ≠ none := fun hn => by
    rw [ht.accessEnd_of_ends_none ho hn] at he
    cases he
  obtain ⟨a, ha⟩ := Option.ne_none_iff_exists'.mp hends
  exact ht.quiet (ht.ends_spec ho ha).2.2.1

theorem holdoff_even (n : Ncr) (h : Host) : n.trainHoldoff h % 2 = 0 := by
  unfold Ncr.trainHoldoff
  split_ifs <;> rfl

theorem alt_next (ht : Train dir b) (ho : Obeys dir b k)
    (hd : (b.step P E k).chip.ncr.dmaAck = true) :
    (b.step P E k).chip.sys.tgt.oldAck = false := by
  rw [ht.armed.oldAck_step]
  change dmaAckNext b.chip k.host = true at hd
  rw [dmaAckNext] at hd
  split_ifs at hd with hh
  · exact (ht.odd (beq_iff_eq.mp hd)).2
  · rw [Chip.trainStart, Bool.and_eq_true, Bool.and_eq_true] at hd
    exact (not_busy (ht.quiet_of_accessEnd ho hd.1.1)).1

theorem odd_next (ht : Train dir b)
    (hd : (b.step P E k).chip.ncr.dmaAckHoldoff % 2 = 1) :
    (b.step P E k).chip.sys.tgt.oldAck = true ∧ (b.step P E k).chip.ncr.dmaAck = false := by
  rw [ht.armed.oldAck_step]
  change dmaAckHoldoffNext b.chip k.host % 2 = 1 at hd
  change _ ∧ dmaAckNext b.chip k.host = false
  rw [dmaAckHoldoffNext] at hd
  rw [dmaAckNext]
  split_ifs at hd ⊢ with hh hs
  · rw [bne_iff_ne] at hh
    have he : b.chip.ncr.dmaAckHoldoff % 2 = 0 := by omega
    exact ⟨ht.even hh he, by simp [he]⟩
  · rw [holdoff_even] at hd
    cases hd

theorem even_next (h0 : (b.step P E k).chip.ncr.dmaAckHoldoff ≠ 0)
    (hd : (b.step P E k).chip.ncr.dmaAckHoldoff % 2 = 0) :
    (b.step P E k).chip.ncr.dmaAck = true := by
  change dmaAckHoldoffNext b.chip k.host ≠ 0 at h0
  change dmaAckHoldoffNext b.chip k.host % 2 = 0 at hd
  change dmaAckNext b.chip k.host = true
  rw [dmaAckHoldoffNext] at h0 hd
  rw [dmaAckNext]
  split_ifs at h0 hd ⊢ with hh hs
  · rw [bne_iff_ne] at hh
    rw [beq_iff_eq]
    omega
  · exact hs
  · exact absurd rfl h0

/-- In an access that goes on no pulse is sent. -/
theorem still (ht : Train dir b) (ho : Obeys dir b k) (hk : k.acc.isSome = true)
    (hq : b.chip.ncr.dmaAckBusy = false) : (b.step P E k).chip.ncr.dmaAckBusy = false := by
  obtain ⟨h1, h2, h3⟩ := not_busy hq
  have hends : b.ends k = none := by
    obtain ⟨a, ha⟩ := Option.isSome_iff_exists.mp hk
    rw [Bench.ends, ha]
    rfl
  have hstart : b.chip.trainStart k.host = false := by
    rw [Chip.trainStart, ht.accessEnd_of_ends_none ho hends]
    rfl
  have ha : (b.step P E k).chip.ncr.dmaAck = false := by
    simp [Bench.step, Chip.step, Ncr.step, dmaAckNext, h2, Beat.clock, hstart]
  have hh : (b.step P E k).chip.ncr.dmaAckHoldoff = 0 := by
    simp [Bench.step, Chip.step, Ncr.step, dmaAckHoldoffNext, h2, Beat.clock, hstart]
  have hs : (b.step P E k).chip.ncr.dmaSettle = 0 := by
    simp [Bench.step, Chip.step, Ncr.step, dmaSettleNext, h1, h3]
  simp [Ncr.dmaAckBusy, ha, hh, hs]

theorem quiet_next (ht : Train dir b) (ho : Obeys dir b k) (hs : (b.step P E k).seen = true) :
    (b.step P E k).chip.ncr.dmaAckBusy = false := by
  change (k.acc.isSome && (b.seen || b.chip.dreq)) = true at hs
  rw [Bool.and_eq_true, Bool.or_eq_true] at hs
  refine ht.still ho hs.1 ?_
  rcases hs.2 with hb | hd
  · exact ht.quiet hb
  · rw [Chip.dreq, Bool.and_eq_true, Bool.not_eq_true'] at hd
    exact hd.2

/-- A cycle begins with the clock. -/
theorem rise_eq (ht : Train dir b) (ho : Obeys dir b k) :
    b.chip.ncr.rdRise k.host = (k.acc.isSome && b.acc.isNone && !dir) ∧
      b.chip.ncr.wrRise k.host = (k.acc.isSome && b.acc.isNone && dir) := by
  rw [Ncr.rdRise, Ncr.wrRise, iDmaRd_eq ho, iDmaWr_eq ho, ht.old.1, ht.old.2]
  cases dir <;> cases k.acc.isSome <;> cases hb : b.acc <;> simp

/-- The access after the clock is that of the clock before, or begins. -/
theorem held_or_rise (ho : Obeys dir b k) {a : Access} (hk : k.acc = some a) :
    b.acc = some a ∨ b.acc = none := by
  cases hb : b.acc with
  | none => exact .inr rfl
  | some a' => rw [ho.held a' a hb hk]; exact .inl rfl

theorem latched_next (ht : Train dir b) (ho : Obeys dir b k) {a : Access} (hk : k.acc = some a) :
    (b.step P E k).chip.ncr.dmaWordLatched = (a.width != .byte) ∧
    (b.step P E k).chip.ncr.dmaLongwordLatched = (a.width == .long || a.width == .second) ∧
    (b.step P E k).chip.ncr.dmaSecondWordLatched = (a.width == .second) := by
  obtain ⟨hr, hw⟩ := ht.rise_eq ho
  have hhost : k.host = a.host k.wdata := by rw [Beat.host, hk]
  simp only [Bench.step, Chip.step, Ncr.step, dmaWordLatchedNext, dmaLongwordLatchedNext,
    dmaSecondWordLatchedNext, Beat.clock, hr, hw, hk]
  rcases held_or_rise ho hk with hb | hb
  · simpa [hb] using ht.latched a hb
  · rw [hb, hhost]
    cases dir <;> exact ⟨rfl, rfl, rfl⟩

theorem pending_next (ht : Train false b) (ho : Obeys false b k) :
    (b.step P E k).chip.ncr.dmaLongwordSecondPending =
      match (b.step P E k).acc with
      | some a => a.width == .long
      | none => (b.step P E k).half := by
  have hr := (ht.rise_eq ho).1
  have hp := ht.pending rfl
  change dmaLongwordSecondPendingNext b.chip.ncr k.host = match k.acc with
    | some a => a.width == .long
    | none => match b.ends k with
      | some a => !a.write && a.width == .long
      | none => b.half
  rw [dmaLongwordSecondPendingNext, hr]
  cases hk : k.acc with
  | none =>
    rw [Option.isSome_none, Bool.false_and, Bool.false_and, if_neg Bool.false_ne_true, hp, Bench.ends,
      hk]
    cases hb : b.acc with
    | none => rfl
    | some a =>
      have hw := ht.write a hb
      simp [hw]
  | some a =>
    have hhost : k.host = a.host k.wdata := by rw [Beat.host, hk]
    rcases held_or_rise ho hk with hb | hb
    · rw [hp, hb]
      rfl
    · have hs := ho.second a hb hk
      rw [hb] at hp
      rw [hp, hb, hhost]
      cases hw : a.width <;> simp [hw] at hs <;> simp [Access.host, hw, hs]
      rfl

theorem suppress_next (ht : Train false b) (ho : Obeys false b k) {a : Access}
    (hk : k.acc = some a) :
    (b.step P E k).chip.ncr.dmaSuppressAckLatched = (a.width == .second) := by
  have hr := (ht.rise_eq ho).1
  have hp := ht.pending rfl
  change dmaSuppressAckLatchedNext b.chip.ncr k.host = _
  rw [dmaSuppressAckLatchedNext, hr, hk]
  have hhost : k.host = a.host k.wdata := by rw [Beat.host, hk]
  rcases held_or_rise ho hk with hb | hb
  · rw [hb]
    exact ht.suppress rfl a hb
  · have hs := ho.second a hb hk
    rw [hb] at hp
    rw [hp, hb, hhost]
    cases hw : a.width <;> simp [hw] at hs <;> simp [Access.host, hw, hs]

theorem step (ht : Train dir b) (ho : Obeys dir b k) : Train dir (b.step P E k) where
  armed := ht.armed.step
  shake := by
    have hs := ht.shake.step (P := P) (E := E) (k := ⟨b.chip.bus P k.clock, k.clock.hps⟩)
    rw [show (⟨b.chip.sys, b.chip.ncr.dmaSettle⟩ : Rig) = b.chip.rig from rfl, ← ht.armed.rig_step]
      at hs
    exact hs
  alt := ht.alt_next ho
  odd := ht.odd_next
  even := even_next
  quiet := ht.quiet_next ho
  write := ho.write
  old := ⟨iDmaRd_eq ho, iDmaWr_eq ho⟩
  latched := fun _ => ht.latched_next ho
  pending := fun hd => by
    subst hd
    exact ht.pending_next ho
  suppress := fun hd a hk => by
    subst hd
    exact ht.suppress_next ho hk

/-- The pulses on their way grow when an access ends, by the bytes it moves. -/
theorem lead_next (ht : Train dir b) (ho : Obeys dir b k) (hm : b.chip.bsrPmatch = true)
    (hc : (b.step P E k).chip.sys.tgt.dataCnt =
      b.chip.sys.tgt.dataCnt + b.chip.sys.tgt.stbAdv.toNat) :
    (b.step P E k).chip.lead = b.chip.lead + (b.ends k).elim 0 Access.bytes := by
  have hold : (b.step P E k).chip.sys.tgt.stbAdv.toNat +
      (b.step P E k).chip.sys.tgt.oldAck.toNat =
        b.chip.sys.tgt.oldAck.toNat + b.chip.ncr.dmaAck.toNat := by
    rw [ht.armed.oldAck_step, ht.armed.stbAdv_step]
    have halt := ht.alt
    cases hd : b.chip.ncr.dmaAck
    · simp
    · rw [halt hd]
      rfl
  have hpulse : (b.step P E k).chip.ncr.dmaAck.toNat +
      ((b.step P E k).chip.ncr.dmaAckHoldoff + 1) / 2 =
        (b.chip.ncr.dmaAckHoldoff + 1) / 2 + (b.ends k).elim 0 Access.bytes := by
    change (dmaAckNext b.chip k.host).toNat + (dmaAckHoldoffNext b.chip k.host + 1) / 2 = _
    rw [dmaAckNext, dmaAckHoldoffNext]
    by_cases hh : b.chip.ncr.dmaAckHoldoff = 0
    · have hstart : b.chip.trainStart k.host = b.chip.ncr.accessEnd k.host := by
        rw [Chip.trainStart, ht.armed.en, hm, Bool.and_true, Bool.and_true]
      rw [hh, hstart]
      cases he : b.ends k with
      | none =>
        simp [ht.accessEnd_of_ends_none ho he]
      | some a =>
        obtain ⟨-, -, -, hend, hlen⟩ := ht.ends_spec ho he
        rw [hend]
        by_cases hb : a.bytes = 0
        · simp [hb]
        · simp [hb, hlen hb]
          omega
    · have hends : b.ends k = none := by
        by_contra hne
        obtain ⟨a, ha⟩ := Option.ne_none_iff_exists'.mp hne
        exact hh (not_busy (ht.quiet (ht.ends_spec ho ha).2.2.1)).2.1
      rw [hends]
      simp only [bne_iff_ne.mpr hh, if_true, Option.elim]
      rcases Nat.mod_two_eq_zero_or_one b.chip.ncr.dmaAckHoldoff with hmod | hmod
      · simp [hmod]
        omega
      · simp [hmod]
        omega
  unfold Chip.lead
  omega

/-- Once the engine is quiet the target has counted all the bytes that were moved. -/
theorem lead_of_quiet (ht : Train dir b) (hq : b.chip.ncr.dmaAckBusy = false) :
    b.chip.lead = b.chip.sys.tgt.dataCnt := by
  obtain ⟨h1, h2, h3⟩ := not_busy hq
  obtain ⟨ho, hs, -⟩ := ht.shake.settled (Nat.le_of_eq h3 |>.trans (Nat.zero_le 2))
  rw [Chip.lead, ho, hs, h1, h2]
  rfl

end Train

/-! ### At rest -/

/-- A host at rest, with the adapter set up for it. -/
structure Poised (dir : Bool) (b : Bench) : Prop where
  armed : Armed dir b.chip.ncr
  quiet : b.chip.ncr.dmaAckBusy = false
  released : b.chip.ncr.oldDmaRd = false ∧ b.chip.ncr.oldDmaWr = false ∧
    b.chip.ncr.dmaLongwordSecondPending = false
  none : b.acc = none ∧ b.seen = false ∧ b.half = false

theorem Poised.train (h : Poised dir b) (hs : Shake b.chip.rig) : Train dir b := by
  obtain ⟨hacc, hseen, hhalf⟩ := h.none
  obtain ⟨h1, h2, -⟩ := not_busy h.quiet
  obtain ⟨hrd, hwr, hpend⟩ := h.released
  refine ⟨h.armed, hs, ?_, ?_, ?_, ?_, ?_, ?_, ?_, ?_, ?_⟩
  · simp [h1]
  · simp [h2]
  · simp [h2]
  · simp [hseen]
  · simp [hacc]
  · simp [hacc, hrd, hwr]
  · simp [hacc]
  · simp [hacc, hpend, hhalf]
  · simp [hacc]

/-! ### After the data phase -/

/-- The target waits with its status for an `ack` that DACK cycles do not send. -/
structure Over (b : Bench) : Prop where
  phase : b.chip.sys.tgt.phase = .statusOut
  sent : b.chip.sys.tgt.statusSent = false
  still : b.chip.ncr.dmaAck = false ∧ b.chip.ncr.dmaAckHoldoff = 0 ∧
    b.chip.sys.tgt.oldAck = false ∧ b.chip.sys.tgt.stbAdv = false

/-- A data phase that ends with every pulse worked off leaves none for the status. -/
theorem Train.ended (ht : Train dir b) (ho : Obeys dir b k)
    (hp : b.chip.sys.tgt.phase = .dataOut ∨ b.chip.sys.tgt.phase = .dataIn)
    (hdone : b.chip.sys.tgt.dataDone = true)
    (hle : b.chip.lead + (b.ends k).elim 0 Access.bytes ≤ b.chip.sys.tgt.dataCnt) :
    Over (b.step P E k) := by
  have hph : (b.step P E k).chip.sys.tgt.phase = _ :=
    phase_data (P := P) (i := b.chip.sys.input E (b.chip.bus P k.clock) k.hps) ht.armed.rst hp
  have hne : b.chip.sys.tgt.phase ≠ .statusOut := by rcases hp with hp | hp <;> simp [hp]
  rw [Chip.lead] at hle
  have hadv : b.chip.sys.tgt.stbAdv.toNat = 0 := by omega
  have hold : b.chip.sys.tgt.oldAck.toNat = 0 := by omega
  have hack : b.chip.ncr.dmaAck.toNat = 0 := by omega
  have hhold : b.chip.ncr.dmaAckHoldoff = 0 := by omega
  have hzero : (b.ends k).elim 0 Access.bytes = 0 := by omega
  rw [Bool.toNat_eq_zero] at hadv hold hack
  have hstart : b.chip.trainStart k.host = false := by
    have hend : b.chip.ncr.accessEnd k.host = false := by
      cases he : b.ends k with
      | none => exact ht.accessEnd_of_ends_none ho he
      | some a =>
        rw [he] at hzero
        obtain ⟨-, -, -, hae, -⟩ := ht.ends_spec ho he
        rw [hae]
        simpa using hzero
    rw [Chip.trainStart, hend]
    rfl
  refine ⟨?_, ?_, ?_, ?_, ?_, ?_⟩
  · rw [hph, if_pos hdone]
  · simp [Bench.step, Chip.step, Sys.step, Scsi.step, statusSentNext, hne]
  · simp [Bench.step, Chip.step, Ncr.step, dmaAckNext, hhold, Beat.clock, hstart]
  · simp [Bench.step, Chip.step, Ncr.step, dmaAckHoldoffNext, hhold, Beat.clock, hstart]
  · rw [ht.armed.oldAck_step, hack]
  · rw [ht.armed.stbAdv_step, hold]
    rfl

theorem Over.step (h : Over b) (ht : Train dir b) : Over (b.step P E k) := by
  obtain ⟨hack, hhold, hold, hadv⟩ := h.still
  have hstart : b.chip.trainStart k.host = false := by
    have hm : b.chip.bsrPmatch = false := by
      obtain ⟨h1, h2, -⟩ := ht.armed.tcr
      rw [Chip.bsrPmatch, h1, h2, State.msg, State.cd, h.phase]
      rfl
    rw [Chip.trainStart, hm, Bool.and_false]
  refine ⟨?_, ?_, ?_, ?_, ?_, ?_⟩
  · have hph : (b.step P E k).chip.sys.tgt.phase = _ :=
      phase_status (P := P) (i := b.chip.sys.input E (b.chip.bus P k.clock) k.hps) ht.armed.rst
        h.phase
    rw [hph, h.sent]
    rfl
  · simp [Bench.step, Chip.step, Sys.step, Scsi.step, statusSentNext, h.sent, hadv]
  · simp [Bench.step, Chip.step, Ncr.step, dmaAckNext, hhold, Beat.clock, hstart]
  · simp [Bench.step, Chip.step, Ncr.step, dmaAckHoldoffNext, hhold, Beat.clock, hstart]
  · rw [ht.armed.oldAck_step, hack]
  · rw [ht.armed.stbAdv_step, hold]
    rfl

end Scsi
