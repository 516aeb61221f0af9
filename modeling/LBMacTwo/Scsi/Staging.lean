import LBMacTwo.Scsi.Coverage

/-!
# From a DACK write to a half-buffer

A host sends the data of a WRITE by DACK cycles. A byte goes over the upper lane; the low byte of a
word waits in the adapter, and then in the target, for the second pulse of the word.

* `Writer`: the bench with the bytes sent so far;
* `Unhurried`: what the host has to do besides obeying DREQ;
* `Stage`: where the bytes of an access are on their way from its end to the half-buffer;
* `Kept.step`: every byte counted and not yet flushed stays in its half-buffer.
-/

namespace Scsi

open Clocked (scan loop loopStream run_of_scan run_loopStream)

/-- The bytes a DACK write sends: a byte goes over the upper lane. -/
def Access.sends (a : Access) : List Byte :=
  if a.width = .byte then [highByte a.data] else [highByte a.data, lowByte a.data]

/-- The bench with the bytes sent by the accesses that have ended; whether an access began with the
last clock, and whether one ended. -/
structure Writer where
  bench : Bench
  sent : List Byte
  began : Bool
  ended : Bool

def Writer.start (b : Bench) : Writer := ⟨b, [], false, false⟩

def Writer.step (P : Params) (E : Env) (w : Writer) (k : Beat) : Writer where
  bench := w.bench.step P E k
  sent := w.sent ++ (w.bench.ends k).elim [] Access.sends
  began := w.bench.acc.isNone && k.acc.isSome
  ended := w.bench.acc.isSome && k.acc.isNone

/-- The writer after `t` clocks. -/
abbrev Writer.run (P : Params) (E : Env) (w : Writer) (u : ℕ → Beat) (t : ℕ) : Writer :=
  Clocked.run (Writer.step P E) w u t

theorem Writer.run_succ {P : Params} {E : Env} (w : Writer) (u : ℕ → Beat) (t : ℕ) :
    w.run P E u (t + 1) = (w.run P E u t).step P E (u t) := rfl

/-- Byte `j` of the stream. -/
def Writer.byte (w : Writer) (j : ℕ) : Byte := w.sent.getD j 0

/-- An access lasts two clocks, two accesses have two clocks between them, and a word is sent at an
even offset of the stream. -/
structure Unhurried (w : Writer) (k : Beat) : Prop where
  lasts : w.began = true → k.acc ≠ none
  gap : w.ended = true → k.acc = none
  even : ∀ a, k.acc = some a → a.width ≠ .byte → w.sent.length % 2 = 0

/-- The registers that carry a pulse to the target. -/
def Bench.pulse (b : Bench) : Bool × ℕ × Bool × Bool :=
  (b.chip.ncr.dmaAck, b.chip.ncr.dmaAckHoldoff, b.chip.sys.tgt.oldAck, b.chip.sys.tgt.stbAdv)

variable {P : Params} {E : Env} {L n c : ℕ} {r : Rig} {b : Bench} {w : Writer} {k : Beat}

theorem Access.length_sends {a : Access} (hw : a.write = true) : a.sends.length = a.bytes := by
  cases h : a.width <;> simp [Access.sends, Access.bytes, h, hw]

theorem Writer.byte_step {j : ℕ} (hj : j < w.sent.length) : (w.step P E k).byte j = w.byte j :=
  List.getD_append _ _ _ _ hj

/-! ### One clock of the wires -/

theorem Bench.pulse_of_none (ht : Train true b) (ho : Obeys true b k) (he : b.ends k = none) :
    (b.step P E k).pulse = (b.chip.ncr.dmaAckHoldoff % 2 == 1, b.chip.ncr.dmaAckHoldoff - 1,
      b.chip.ncr.dmaAck, b.chip.sys.tgt.oldAck && !b.chip.ncr.dmaAck) := by
  have hstart : b.chip.trainStart k.host = false := by
    rw [Chip.trainStart, ht.accessEnd_of_ends_none ho he]
    rfl
  rw [Bench.pulse, ht.armed.oldAck_step, ht.armed.stbAdv_step]
  change (dmaAckNext b.chip k.host, dmaAckHoldoffNext b.chip k.host, _, _) = _
  rw [dmaAckNext, dmaAckHoldoffNext, hstart]
  by_cases hh : b.chip.ncr.dmaAckHoldoff = 0
  · simp [hh]
  · simp [hh]

theorem Bench.pulse_of_ends (ht : Train true b) (hm : Moves true b) (ho : Obeys true b k)
    {a : Access} (he : b.ends k = some a) : b.pulse = (false, 0, false, false) ∧
      (b.step P E k).pulse = (true, 2 * (a.bytes - 1), false, false) := by
  obtain ⟨hacc, -, hseen, hend, hlen⟩ := ht.ends_spec ho he
  obtain ⟨h1, h2, h3⟩ := not_busy (ht.quiet hseen)
  obtain ⟨h4, h5, -⟩ := ht.shake.settled (show b.chip.ncr.dmaSettle ≤ 2 by omega)
  have hbytes : a.bytes ≠ 0 := by
    have hw := ht.write a hacc
    cases h : a.width <;> simp [Access.bytes, h, hw]
  have hstart : b.chip.trainStart k.host = true := by
    rw [Chip.trainStart, hend, ht.armed.en, hm.pmatch ht]
    simpa using hbytes
  refine ⟨by rw [Bench.pulse, h1, h2, h4, h5], ?_⟩
  rw [Bench.pulse, ht.armed.oldAck_step, ht.armed.stbAdv_step, h1, h4]
  change (dmaAckNext b.chip k.host, dmaAckHoldoffNext b.chip k.host, _, _) = _
  rw [dmaAckNext, dmaAckHoldoffNext, hstart, h2, hlen hbytes]
  rfl

theorem Bench.dout_step (ht : Train true b) : (b.step P E k).chip.ncr.dout =
    if b.chip.ncr.dmaWr then highByte k.host.wdata else b.chip.ncr.dout := by
  simp [Bench.step, Chip.step, Ncr.step, doutNext, Ncr.writes, ht.armed.reg, Beat.clock]

theorem Bench.dmaWr_step (ht : Train true b) (ho : Obeys true b k) :
    (b.step P E k).chip.ncr.dmaWr = (k.acc.isSome && b.acc.isNone) := by
  change b.chip.ncr.wrRise k.host = _
  rw [(ht.rise_eq ho).2, Bool.and_true]

theorem Bench.word_step (ht : Train true b) (ho : Obeys true b k) :
    (b.step P E k).chip.ncr.dmaWordLatched =
      if k.acc.isSome && b.acc.isNone then k.host.dmaWord else b.chip.ncr.dmaWordLatched := by
  change dmaWordLatchedNext b.chip.ncr k.host = _
  rw [dmaWordLatchedNext, (ht.rise_eq ho).1, (ht.rise_eq ho).2]
  simp

theorem Bench.low_step (ht : Train true b) (ho : Obeys true b k) :
    (b.step P E k).chip.ncr.dmaWriteLowByte =
      if k.acc.isSome && b.acc.isNone then lowByte k.host.wdata
      else b.chip.ncr.dmaWriteLowByte := by
  change dmaWriteLowByteNext b.chip.ncr k.host = _
  rw [dmaWriteLowByteNext, (ht.rise_eq ho).2, Bool.and_true]

section Target

variable (ht : Train true b) (hp : b.chip.sys.tgt.phase = .dataIn)
include ht hp

theorem Bench.wmBeat2_step : (b.step P E k).chip.sys.tgt.wmBeat2 =
    if b.chip.sys.tgt.stbAck then !b.chip.sys.tgt.wmBeat2 && b.chip.ncr.dmaWordLatched
    else b.chip.sys.tgt.wmBeat2 := by
  have hr : (b.chip.bus P k.clock).rst = false := ht.armed.rst
  change wmBeat2Next b.chip.sys.tgt (b.chip.sys.input E (b.chip.bus P k.clock) k.clock.hps) = _
  rw [wmBeat2Next, show (b.chip.sys.input E (b.chip.bus P k.clock) k.clock.hps).rst = false from hr,
    hp]
  cases b.chip.sys.tgt.wmBeat2 <;> rfl

theorem Bench.storeLow_step : (b.step P E k).chip.sys.tgt.storeLow =
    (b.chip.sys.tgt.stbAck && b.chip.sys.tgt.wmBeat2) := by
  have hr : (b.chip.bus P k.clock).rst = false := ht.armed.rst
  change storeLowNext b.chip.sys.tgt (b.chip.sys.input E (b.chip.bus P k.clock) k.clock.hps) = _
  rw [storeLowNext,
    show (b.chip.sys.input E (b.chip.bus P k.clock) k.clock.hps).rst = false from hr, hp]
  rfl

theorem Bench.oddByteR_step : (b.step P E k).chip.sys.tgt.oddByteR =
    if b.chip.sys.tgt.stbAck && !b.chip.sys.tgt.wmBeat2 && b.chip.ncr.dmaWordLatched
    then b.chip.ncr.dmaWriteLowByte else b.chip.sys.tgt.oddByteR := by
  have hr : (b.chip.bus P k.clock).rst = false := ht.armed.rst
  change oddByteRNext b.chip.sys.tgt (b.chip.sys.input E (b.chip.bus P k.clock) k.clock.hps) = _
  rw [oddByteRNext,
    show (b.chip.sys.input E (b.chip.bus P k.clock) k.clock.hps).rst = false from hr, hp]
  rfl

end Target


/-! ### From an access to its half-buffer -/

/-- The latches of the adapter while the host drives an access. -/
structure Holds (w : Writer) : Prop where
  dmaWr : w.bench.chip.ncr.dmaWr = w.began
  low : ∀ a, w.bench.acc = some a → w.bench.chip.ncr.dmaWriteLowByte = lowByte a.data
  dout : ∀ a, w.bench.acc = some a → w.began = false →
    w.bench.chip.ncr.dout = highByte a.data
  even : ∀ a, w.bench.acc = some a → a.width ≠ .byte → w.sent.length % 2 = 0

/-- Byte `j` of the stream is the one `dout` holds. -/
def Writer.High (w : Writer) (j : ℕ) : Prop := w.bench.chip.ncr.dout = w.byte j

/-- Byte `j` of the stream is the low byte of the word that `dout` holds the high byte of. -/
def Writer.Low (w : Writer) (j : ℕ) : Prop := w.bench.chip.ncr.dmaWriteLowByte = w.byte j

/-- The byte that waits in the target for the second pulse of its word. -/
def Writer.Odd (w : Writer) (j : ℕ) : Prop := w.bench.chip.sys.tgt.oddByteR = w.byte j

/-- The way of a byte from the end of its access to its half-buffer: its pulse is up, seen by the
target, or worked off while the byte is stored. The two bytes of a word go one after the other. -/
inductive Stage (w : Writer) : Prop
  | rest (pulse : w.bench.pulse = (false, 0, false, false))
      (beat : w.bench.chip.sys.tgt.wmBeat2 = false)
  | byteAck (pulse : w.bench.pulse = (true, 0, false, false))
      (beat : w.bench.chip.sys.tgt.wmBeat2 = false) (began : w.began = false)
      (ended : w.ended = true) (word : w.bench.chip.ncr.dmaWordLatched = false)
      (high : w.High w.bench.chip.sys.tgt.dataCnt)
  | byteStrobe (pulse : w.bench.pulse = (false, 0, true, false))
      (beat : w.bench.chip.sys.tgt.wmBeat2 = false) (began : w.began = false)
      (word : w.bench.chip.ncr.dmaWordLatched = false)
      (high : w.High w.bench.chip.sys.tgt.dataCnt)
  | byteStore (pulse : w.bench.pulse = (false, 0, false, true))
      (beat : w.bench.chip.sys.tgt.wmBeat2 = false)
      (store : w.bench.chip.sys.tgt.storeLow = false)
      (high : w.High w.bench.chip.sys.tgt.dataCnt)
  | wordAck (pulse : w.bench.pulse = (true, 2, false, false))
      (beat : w.bench.chip.sys.tgt.wmBeat2 = false) (began : w.began = false)
      (ended : w.ended = true) (word : w.bench.chip.ncr.dmaWordLatched = true)
      (high : w.High w.bench.chip.sys.tgt.dataCnt)
      (low : w.Low (w.bench.chip.sys.tgt.dataCnt + 1))
      (even : w.bench.chip.sys.tgt.dataCnt % 2 = 0)
  | wordStrobe (pulse : w.bench.pulse = (false, 1, true, false))
      (beat : w.bench.chip.sys.tgt.wmBeat2 = false) (began : w.began = false)
      (word : w.bench.chip.ncr.dmaWordLatched = true)
      (high : w.High w.bench.chip.sys.tgt.dataCnt)
      (low : w.Low (w.bench.chip.sys.tgt.dataCnt + 1))
      (even : w.bench.chip.sys.tgt.dataCnt % 2 = 0)
  | wordStore (pulse : w.bench.pulse = (true, 0, false, true))
      (beat : w.bench.chip.sys.tgt.wmBeat2 = true)
      (store : w.bench.chip.sys.tgt.storeLow = false)
      (high : w.High w.bench.chip.sys.tgt.dataCnt)
      (odd : w.Odd (w.bench.chip.sys.tgt.dataCnt + 1))
      (even : w.bench.chip.sys.tgt.dataCnt % 2 = 0)
  | lowStrobe (pulse : w.bench.pulse = (false, 0, true, false))
      (beat : w.bench.chip.sys.tgt.wmBeat2 = true)
      (odd : w.Odd w.bench.chip.sys.tgt.dataCnt)
      (parity : w.bench.chip.sys.tgt.dataCnt % 2 = 1)
  | lowStore (pulse : w.bench.pulse = (false, 0, false, true))
      (beat : w.bench.chip.sys.tgt.wmBeat2 = false)
      (store : w.bench.chip.sys.tgt.storeLow = true)
      (odd : w.Odd w.bench.chip.sys.tgt.dataCnt)
      (parity : w.bench.chip.sys.tgt.dataCnt % 2 = 1)

theorem Holds.step (h : Holds w) (ht : Train true w.bench) (ho : Obeys true w.bench k)
    (hu : Unhurried w k) : Holds (w.step P E k) := by
  have hdata : ∀ a, k.acc = some a → k.host.wdata = a.data := fun a hk => by
    have hw := ho.write a hk
    rw [Beat.host, hk]
    simp [Access.host, hw]
  refine ⟨?_, fun a hk => ?_, fun a hk hb => ?_, fun a hk hx => ?_⟩
  · change (w.bench.step P E k).chip.ncr.dmaWr = _
    rw [Bench.dmaWr_step ht ho, Bool.and_comm]
    rfl
  · have hk : k.acc = some a := hk
    change (w.bench.step P E k).chip.ncr.dmaWriteLowByte = _
    rw [Bench.low_step ht ho, hk, hdata a hk]
    rcases Train.held_or_rise ho hk with hacc | hacc
    · simp [hacc, h.low a hacc]
    · simp [hacc]
  · have hk : k.acc = some a := hk
    have hb : (w.bench.acc.isNone && k.acc.isSome) = false := hb
    have hacc : w.bench.acc = some a := by
      rcases Train.held_or_rise ho hk with hacc | hacc
      · exact hacc
      · simp [hacc, hk] at hb
    change (w.bench.step P E k).chip.ncr.dout = _
    rw [Bench.dout_step ht, h.dmaWr, hdata a hk]
    cases hbegan : w.began
    · exact h.dout a hacc hbegan
    · rfl
  · have hk : k.acc = some a := hk
    change (w.sent ++ (w.bench.ends k).elim [] Access.sends).length % 2 = 0
    rw [show w.bench.ends k = none by rw [Bench.ends, hk]; rfl, Option.elim, List.append_nil]
    exact hu.even a hk hx

namespace Stage

theorem pulse_eq {q : Bool × ℕ × Bool × Bool} (h : b.pulse = q) :
    b.chip.ncr.dmaAck = q.1 ∧ b.chip.ncr.dmaAckHoldoff = q.2.1 ∧
      b.chip.sys.tgt.oldAck = q.2.2.1 ∧ b.chip.sys.tgt.stbAdv = q.2.2.2 := by
  subst h
  exact ⟨rfl, rfl, rfl, rfl⟩

/-- An access that ends puts its bytes on their way. -/
theorem of_ends {a : Access} (hh : Holds w) (ht : Train true w.bench) (hm : Moves true w.bench)
    (ho : Obeys true w.bench k) (hu : Unhurried w k) (hlen : w.sent.length = w.bench.chip.lead)
    (hb : w.bench.chip.sys.tgt.wmBeat2 = false) (hstb : w.bench.chip.sys.tgt.stbAck = false)
    (he : w.bench.ends k = some a) : Stage (w.step P E k) := by
  obtain ⟨hacc, hk, hseen, -, -⟩ := ht.ends_spec ho he
  obtain ⟨hrest, hpulse⟩ := Bench.pulse_of_ends (P := P) (E := E) ht hm ho he
  have hbegan : w.began = false := Bool.eq_false_iff.mpr fun hx => hu.lasts hx hk
  have hcnt : (w.bench.step P E k).chip.sys.tgt.dataCnt = w.sent.length := by
    rw [hm.counted_next.2, (pulse_eq hrest).2.2.2, hlen, ht.lead_of_quiet (ht.quiet hseen)]
    rfl
  have hsent : (w.step P E k).sent = w.sent ++ a.sends := by
    change w.sent ++ (w.bench.ends k).elim [] Access.sends = _
    rw [he]
    rfl
  have hbeat : (w.bench.step P E k).chip.sys.tgt.wmBeat2 = false := by
    rw [Bench.wmBeat2_step ht hm.phase, hstb, hb]
    rfl
  have hword : (w.bench.step P E k).chip.ncr.dmaWordLatched = (a.width != .byte) := by
    rw [Bench.word_step ht ho, hk]
    exact (ht.latched a hacc).1
  have hdout : (w.bench.step P E k).chip.ncr.dout = highByte a.data := by
    rw [Bench.dout_step ht, hh.dmaWr, hbegan]
    exact hh.dout a hacc hbegan
  have hlow : (w.bench.step P E k).chip.ncr.dmaWriteLowByte = lowByte a.data := by
    rw [Bench.low_step ht ho, hk]
    exact hh.low a hacc
  have hhigh : (w.step P E k).High (w.bench.step P E k).chip.sys.tgt.dataCnt := by
    rw [Writer.High, Writer.byte, hsent, hcnt, List.getD_append_right _ _ _ _ (Nat.le_refl _),
      Nat.sub_self]
    refine hdout.trans ?_
    rw [Access.sends]
    split_ifs <;> rfl
  have hw := ht.write a hacc
  have hb' : (w.step P E k).began = false := by
    change (w.bench.acc.isNone && k.acc.isSome) = false
    rw [hk]
    simp
  have he' : (w.step P E k).ended = true := by
    change (w.bench.acc.isSome && k.acc.isNone) = true
    rw [hk, hacc]
    rfl
  by_cases hbyte : a.width = .byte
  · refine .byteAck (hpulse.trans ?_) hbeat hb' he' (hword.trans ?_) hhigh
    · simp [Access.bytes, hbyte]
    · simp [hbyte]
  · refine .wordAck (hpulse.trans ?_) hbeat hb' he' (hword.trans ?_) hhigh ?_ ?_
    · cases hx : a.width <;> simp [Access.bytes, hx, hw] at hbyte ⊢
    · simpa using hbyte
    · change (w.bench.step P E k).chip.ncr.dmaWriteLowByte = (w.step P E k).sent.getD
        ((w.bench.step P E k).chip.sys.tgt.dataCnt + 1) 0
      rw [hlow, hcnt, hsent, List.getD_append_right _ _ _ _ (Nat.le_succ _), Access.sends,
        if_neg hbyte]
      simp
    · change (w.bench.step P E k).chip.sys.tgt.dataCnt % 2 = 0
      rw [hcnt]
      exact hh.even a hacc hbyte

/-! #### While no access ends -/

section Steps

variable {j : ℕ} (ht : Train true w.bench) (hj : j < w.sent.length)
include ht hj

theorem high_step (hd : w.bench.chip.ncr.dmaWr = false) (h : w.High j) :
    (w.step P E k).High j := by
  change (w.bench.step P E k).chip.ncr.dout = (w.step P E k).byte j
  rw [Bench.dout_step ht, hd, Writer.byte_step hj]
  exact h

theorem low_step (ho : Obeys true w.bench k) (hk : k.acc = none) (h : w.Low j) :
    (w.step P E k).Low j := by
  change (w.bench.step P E k).chip.ncr.dmaWriteLowByte = (w.step P E k).byte j
  rw [Bench.low_step ht ho, hk, Writer.byte_step hj]
  exact h

theorem odd_step (hp : w.bench.chip.sys.tgt.phase = .dataIn)
    (hs : w.bench.chip.sys.tgt.stbAck = false ∨ w.bench.chip.sys.tgt.wmBeat2 = true)
    (h : w.Odd j) : (w.step P E k).Odd j := by
  change (w.bench.step P E k).chip.sys.tgt.oddByteR = (w.step P E k).byte j
  rw [Bench.oddByteR_step ht hp, Writer.byte_step hj]
  rcases hs with hs | hs <;> simp [hs] <;> exact h

end Steps

/-- A byte on its way goes one stage on. -/
theorem step_none (h : Stage w) (hh : Holds w) (ht : Train true w.bench)
    (hm : Moves true w.bench) (ho : Obeys true w.bench k) (hu : Unhurried w k)
    (hlen : w.sent.length = w.bench.chip.lead)
    (hstb : w.bench.chip.sys.tgt.stbAck = w.bench.chip.sys.tgt.oldAck)
    (he : w.bench.ends k = none) : Stage (w.step P E k) := by
  have hpulse := Bench.pulse_of_none (P := P) (E := E) ht ho he
  have hcnt := hm.counted_next (P := P) (E := E) (k := k) |>.2
  have hbeat := Bench.wmBeat2_step (P := P) (E := E) (k := k) ht hm.phase
  have hstore := Bench.storeLow_step (P := P) (E := E) (k := k) ht hm.phase
  have hword := Bench.word_step (P := P) (E := E) ht ho
  rw [hstb] at hbeat hstore
  rw [Chip.lead] at hlen
  have hbegan : k.acc = none → (w.step P E k).began = false := fun hk => by
    change (w.bench.acc.isNone && k.acc.isSome) = false
    rw [hk]
    simp
  cases h with
  | rest pulse beat =>
    obtain ⟨h1, h2, h3, h4⟩ := pulse_eq pulse
    rw [h1, h2, h3] at hpulse
    rw [h3, beat] at hbeat
    exact .rest hpulse hbeat
  | byteAck pulse beat began ended word high =>
    obtain ⟨h1, h2, h3, h4⟩ := pulse_eq pulse
    have hk := hu.gap ended
    rw [h1, h2, h3] at hpulse
    rw [h3, beat] at hbeat
    rw [h4, Bool.toNat_false, Nat.add_zero] at hcnt
    rw [hk, word] at hword
    rw [h1, h2, h3, h4] at hlen
    refine .byteStrobe hpulse hbeat (hbegan hk) hword ?_
    change (w.step P E k).High (w.bench.step P E k).chip.sys.tgt.dataCnt
    rw [hcnt]
    exact high_step ht (by simp at hlen; omega) (hh.dmaWr.trans began) high
  | byteStrobe pulse beat began word high =>
    obtain ⟨h1, h2, h3, h4⟩ := pulse_eq pulse
    rw [h1, h2, h3] at hpulse
    rw [h3, beat, word] at hbeat
    rw [h3, beat] at hstore
    rw [h4, Bool.toNat_false, Nat.add_zero] at hcnt
    rw [h1, h2, h3, h4] at hlen
    refine .byteStore hpulse hbeat hstore ?_
    change (w.step P E k).High (w.bench.step P E k).chip.sys.tgt.dataCnt
    rw [hcnt]
    exact high_step ht (by simp at hlen; omega) (hh.dmaWr.trans began) high
  | byteStore pulse beat store high =>
    obtain ⟨h1, h2, h3, h4⟩ := pulse_eq pulse
    rw [h1, h2, h3] at hpulse
    rw [h3, beat] at hbeat
    exact .rest hpulse hbeat
  | wordAck pulse beat began ended word high low even =>
    obtain ⟨h1, h2, h3, h4⟩ := pulse_eq pulse
    have hk := hu.gap ended
    rw [h1, h2, h3] at hpulse
    rw [h3, beat] at hbeat
    rw [h4, Bool.toNat_false, Nat.add_zero] at hcnt
    rw [hk, word] at hword
    rw [h1, h2, h3, h4] at hlen
    simp at hlen
    refine .wordStrobe hpulse hbeat (hbegan hk) hword ?_ ?_ ?_
    · change (w.step P E k).High (w.bench.step P E k).chip.sys.tgt.dataCnt
      rw [hcnt]
      exact high_step ht (by omega) (hh.dmaWr.trans began) high
    · change (w.step P E k).Low ((w.bench.step P E k).chip.sys.tgt.dataCnt + 1)
      rw [hcnt]
      exact low_step ht (by omega) ho hk low
    · exact (congrArg (· % 2) hcnt).trans even
  | wordStrobe pulse beat began word high low even =>
    obtain ⟨h1, h2, h3, h4⟩ := pulse_eq pulse
    have hodd := Bench.oddByteR_step (P := P) (E := E) (k := k) ht hm.phase
    rw [h1, h2, h3] at hpulse
    rw [h3, beat, word] at hbeat
    rw [h3, beat] at hstore
    rw [hstb, h3, beat, word] at hodd
    rw [h4, Bool.toNat_false, Nat.add_zero] at hcnt
    rw [h1, h2, h3, h4] at hlen
    simp at hlen
    refine .wordStore hpulse hbeat hstore ?_ ?_ ?_
    · change (w.step P E k).High (w.bench.step P E k).chip.sys.tgt.dataCnt
      rw [hcnt]
      exact high_step ht (by omega) (hh.dmaWr.trans began) high
    · change (w.bench.step P E k).chip.sys.tgt.oddByteR =
        (w.step P E k).byte ((w.bench.step P E k).chip.sys.tgt.dataCnt + 1)
      rw [hodd, hcnt, Writer.byte_step (by omega)]
      exact low
    · exact (congrArg (· % 2) hcnt).trans even
  | wordStore pulse beat store high odd even =>
    obtain ⟨h1, h2, h3, h4⟩ := pulse_eq pulse
    rw [h1, h2, h3] at hpulse
    rw [h3, beat] at hbeat
    rw [h4, Bool.toNat_true] at hcnt
    rw [h1, h2, h3, h4] at hlen
    simp at hlen
    refine .lowStrobe hpulse hbeat ?_ ?_
    · change (w.step P E k).Odd (w.bench.step P E k).chip.sys.tgt.dataCnt
      rw [hcnt]
      exact odd_step ht (by omega) hm.phase (.inl (hstb.trans h3)) odd
    · change (w.bench.step P E k).chip.sys.tgt.dataCnt % 2 = 1
      omega
  | lowStrobe pulse beat odd parity =>
    obtain ⟨h1, h2, h3, h4⟩ := pulse_eq pulse
    rw [h1, h2, h3] at hpulse
    rw [h3, beat] at hbeat hstore
    rw [h4, Bool.toNat_false, Nat.add_zero] at hcnt
    rw [h1, h2, h3, h4] at hlen
    simp at hlen
    refine .lowStore hpulse hbeat hstore ?_ ?_
    · change (w.step P E k).Odd (w.bench.step P E k).chip.sys.tgt.dataCnt
      rw [hcnt]
      exact odd_step ht (by omega) hm.phase (.inr beat) odd
    · exact (congrArg (· % 2) hcnt).trans parity
  | lowStore pulse beat store odd parity =>
    obtain ⟨h1, h2, h3, h4⟩ := pulse_eq pulse
    rw [h1, h2, h3] at hpulse
    rw [h3, beat] at hbeat
    exact .rest hpulse hbeat

end Stage


/-! ### The half-buffers -/

/-- A flush window brings no words. -/
theorem Flush.noFill {lag odd : Bool} {x : Sys} {d : Bus} {m : HpsMove}
    (h : Flush L n c lag odd x) : hpsFillWr (x.input E d m) = false := by
  change ((x.hps.wr m && x.tgt.bsy) && x.ioAck) = false
  have he := h.engine
  have hio := h.ioAck_eq
  generalize x.hps = hps at he hio
  cases he with
  | rest => rw [hio, Hps.ack_idle, Bool.and_false]
  | posted => rw [hio, Hps.ack_posted, Bool.and_false]
  | window => rfl
  | closing => rw [hio, Hps.ack_idle, Bool.and_false]

/-- What is written to a lane in this clock. -/
def Chip.laneData (P : Params) (x : Chip) (parity : ℕ) : Byte :=
  if parity = 1 ∧ x.sys.tgt.storeLow = true then x.sys.tgt.oddByteR else x.scsiBusData P

def State.laneWr (s : State) (parity : ℕ) : Bool := if parity = 1 then s.buffer1Wr else s.buffer0Wr

theorem Bench.lane_step (parity : ℕ)
    (hf : hpsFillWr (b.chip.sys.input E (b.chip.bus P k.clock) k.hps) = false) :
    ((b.step P E k).chip.sys.tgt.lane parity).ramAb =
      store (b.chip.sys.tgt.lane parity).ramAb (b.chip.sys.tgt.laneWr parity)
        (macAddr P b.chip.sys.tgt) (b.chip.laneData P parity) := by
  unfold State.lane State.laneWr Chip.laneData
  by_cases h : parity = 1
  · rw [if_pos h, if_pos h, if_pos h]
    change (b.chip.sys.tgt.buffer1.step (buffer1In P b.chip.sys.tgt
      (b.chip.sys.input E (b.chip.bus P k.clock) k.hps))).ramAb = _
    simp only [Dpram.step, buffer1In, hf, store_false, h, true_and]
    rfl
  · rw [if_neg h, if_neg h, if_neg h]
    change (b.chip.sys.tgt.buffer0.step (buffer0In P b.chip.sys.tgt
      (b.chip.sys.input E (b.chip.bus P k.clock) k.hps))).ramAb = _
    simp only [Dpram.step, buffer0In, hf, store_false, h, false_and, if_false]
    rfl

/-- Every byte counted and not yet flushed is in its half-buffer. -/
def Kept (c : ℕ) (w : Writer) : Prop :=
  ∀ p < w.bench.chip.sys.tgt.dataCnt, 512 * c ≤ p →
    (w.bench.chip.sys.tgt.lane (p % 2)).ramAb (p / 2 % 512) = w.byte p

/-- A byte is stored in the clock in which it is counted. -/
structure Strobes (b : Bench) : Prop where
  ack : b.chip.sys.tgt.stbAck = b.chip.sys.tgt.oldAck
  lane : ∀ q < 2, b.chip.sys.tgt.laneWr q =
    (b.chip.sys.tgt.stbAdv && b.chip.sys.tgt.dataCnt % 2 == q)

theorem Strobes.step (h : Strobes b) (ht : Train true b) (hm : Moves true b) :
    Strobes (b.step P E k) := by
  have hcnt := hm.counted_next (P := P) (E := E) (k := k) |>.2
  have halt := ht.alt
  have hadv : b.chip.sys.tgt.oldAck = true → b.chip.sys.tgt.stbAdv = false := fun ho =>
    Bool.eq_false_iff.mpr fun hs => by
      rw [(ht.shake.adv hs).2] at ho
      cases ho
  have hack : b.chip.sys.tgt.oldAck = true → b.chip.ncr.dmaAck = false := fun ho =>
    Bool.eq_false_iff.mpr fun ha => by
      rw [halt ha] at ho
      cases ho
  refine ⟨?_, fun q hq => ?_⟩
  · rw [ht.armed.oldAck_step]
    change (!b.chip.sys.tgt.oldAck && b.chip.ncr.scsiAck) = _
    rw [ht.armed.scsiAck]
    cases ha : b.chip.ncr.dmaAck
    · rw [Bool.and_false]
    · rw [halt ha]
      rfl
  · rw [ht.armed.stbAdv_step, hcnt]
    have hwr : (b.step P E k).chip.sys.tgt.laneWr q =
        (b.chip.sys.tgt.stbAck && b.chip.sys.tgt.dataCnt % 2 == q) := by
      unfold State.laneWr
      split_ifs with h1
      · subst h1
        change (b.chip.sys.tgt.stbAck && b.chip.sys.tgt.phase == .dataIn &&
          b.chip.sys.tgt.dataCntOdd) = _
        rw [show b.chip.sys.tgt.phase = .dataIn from hm.phase]
        simp [State.dataCntOdd]
      · have h0 : q = 0 := by omega
        subst h0
        change (b.chip.sys.tgt.stbAck && b.chip.sys.tgt.phase == .dataIn &&
          !b.chip.sys.tgt.dataCntOdd) = _
        rw [show b.chip.sys.tgt.phase = .dataIn from hm.phase, State.dataCntOdd]
        rcases Nat.mod_two_eq_zero_or_one b.chip.sys.tgt.dataCnt with h2 | h2 <;> simp [h2]
    rw [hwr, h.ack]
    cases ho : b.chip.sys.tgt.oldAck
    · rfl
    · rw [hadv ho, hack ho]
      rfl

/-- The byte stored is the next one of the stream. -/
theorem Stage.laneData_eq (h : Stage w) (ht : Train true w.bench) (hm : Moves true w.bench)
    (ha : w.bench.chip.sys.tgt.stbAdv = true) :
    w.bench.chip.laneData P (w.bench.chip.sys.tgt.dataCnt % 2) =
      w.byte w.bench.chip.sys.tgt.dataCnt := by
  have hbus : w.bench.chip.ncr.dmaAckHoldoff = 0 →
      w.bench.chip.scsiBusData P = w.bench.chip.ncr.dout := fun h0 => by
    have hout : w.bench.chip.ncr.outEn = true := by
      rw [Ncr.outEn, ht.armed.data]
      rfl
    have hp : w.bench.chip.sys.tgt.phase = .dataIn := hm.phase
    have hdin : w.bench.chip.din P = 0 := by
      rw [Chip.din, dout, hp]
      split_ifs <;> rfl
    rw [Chip.scsiBusData, hout, hdin, if_pos rfl, Ncr.dmaWriteData, h0]
    simp
  have hno : ∀ {q : Bool × ℕ × Bool × Bool}, w.bench.pulse = q → q.2.2.2 = true := fun hq => by
    rw [← (Stage.pulse_eq hq).2.2.2]
    exact ha
  cases h with
  | byteStore pulse _ store high =>
    rw [Chip.laneData, store, hbus (Stage.pulse_eq pulse).2.1]
    simpa [Writer.High] using high
  | wordStore pulse _ store high =>
    rw [Chip.laneData, store, hbus (Stage.pulse_eq pulse).2.1]
    simpa [Writer.High] using high
  | lowStore pulse _ store odd parity =>
    rw [Chip.laneData, store, if_pos ⟨parity, rfl⟩]
    exact odd
  | rest pulse | byteAck pulse | byteStrobe pulse | wordAck pulse | wordStrobe pulse
  | lowStrobe pulse => exact absurd (hno pulse) (by decide)

theorem Kept.step (h : Kept c w) (hs : Stage w) (hb : Strobes w.bench) (ht : Train true w.bench)
    (hm : Moves true w.bench) (hlen : w.sent.length = w.bench.chip.lead)
    (hi : WrInv L n c false false w.bench.chip.sys) :
    Kept (c + w.bench.chip.sys.fall.toNat) (w.step P E k) := by
  intro p hp hc
  have hcnt := hm.counted_next (P := P) (E := E) (k := k) |>.2
  have hcnt' : p < w.bench.chip.sys.tgt.dataCnt + w.bench.chip.sys.tgt.stbAdv.toNat := by
    rw [← hcnt]
    exact hp
  have hlt : p < w.sent.length := by
    rw [hlen, Chip.lead]
    omega
  have hphase : w.bench.chip.sys.tgt.phase = .dataIn := hm.phase
  have haddr : macAddr P w.bench.chip.sys.tgt = w.bench.chip.sys.tgt.dataCnt / 2 % 512 := by
    rw [macAddr, hphase]
    rfl
  change ((w.bench.step P E k).chip.sys.tgt.lane (p % 2)).ramAb (p / 2 % 512) = _
  rw [Bench.lane_step _ hi.toFlush.noFill, hb.lane _ (Nat.mod_lt _ (by decide)), haddr,
    Writer.byte_step hlt]
  by_cases hnew : p = w.bench.chip.sys.tgt.dataCnt
  · have hadv : w.bench.chip.sys.tgt.stbAdv = true := by
      by_contra ha
      rw [Bool.not_eq_true] at ha
      rw [ha, Bool.toNat_false] at hcnt'
      omega
    rw [hnew, hadv, hs.laneData_eq ht hm hadv]
    simp
  · have hold : p < w.bench.chip.sys.tgt.dataCnt := by
      have := w.bench.chip.sys.tgt.stbAdv.toNat_le
      omega
    rw [store_of_ne fun hwr => ?_]
    · exact h p hold (by omega)
    · -- the half-buffer being filled is not that of a byte still to be flushed
      rw [Bool.and_eq_true, beq_iff_eq] at hwr
      have hpipe := (hi.pipe hphase (.inr hwr.1)).2
      rw [Bool.toNat_false] at hpipe
      omega

theorem Stage.beat_of_rest (h : Stage w) (hq : w.bench.pulse = (false, 0, false, false)) :
    w.bench.chip.sys.tgt.wmBeat2 = false := by
  cases h with
  | rest _ beat | byteAck _ beat | byteStrobe _ beat | byteStore _ beat | wordAck _ beat
  | wordStrobe _ beat | lowStore _ beat => exact beat
  | wordStore pulse | lowStrobe pulse => exact absurd (pulse.symm.trans hq) (by decide)

/-- The data phase ends with the last byte counted. -/
theorem Moves.cnt_of_ended (hm : Moves true b) (ht : Train true b)
    (hd : (b.step P E k).chip.sys.tgt.phase ≠ .dataIn) :
    (b.step P E k).chip.sys.tgt.dataCnt = b.chip.sys.tgt.dataLen := by
  have hph : (b.step P E k).chip.sys.tgt.phase = _ :=
    phase_data (P := P) (i := b.chip.sys.input E (b.chip.bus P k.clock) k.hps) ht.armed.rst hm.data
  have hdone : b.chip.sys.tgt.dataDone = true := by
    by_contra hno
    rw [if_neg hno] at hph
    exact hd (hph.trans hm.phase)
  have hle : b.chip.sys.tgt.dataCnt ≤ b.chip.sys.tgt.dataLen := by
    have := hm.le
    rw [Chip.lead] at this
    omega
  rw [hm.counted.dataDone_eq hle, decide_eq_true_eq] at hdone
  have hadv : b.chip.sys.tgt.stbAdv = false := Bool.eq_false_iff.mpr fun hs => by
    have := hm.adv_lt hs
    omega
  rw [hm.counted_next.2, hadv, hdone]
  rfl

end Scsi
