import LBMacTwo.Nubus.Card

/-!
# The requests of the video card

* `Regs.after`, `memAfter`, `value`: what a request is to do, and what a read is to return;
* `take_eq`: a request that does not meet the VRAM does it in the clock it is taken;
* `Line`: where such a request stands a number of clocks after.
-/

namespace Nubus
open Cpu (field)

/-- The registers after a request. -/
def Regs.after (r : Regs) (q : Key) : Regs :=
  if addrIsRegs q.addr then (if q.rw then r.touch q.addr else r.write q) else r

/-- The VRAM after a request. -/
def memAfter (mem : ℕ → Word) (q : Key) : ℕ → Word :=
  if !q.rw && inVram q.addr then
    Function.update mem (cpuVramWord q.addr)
      (Memory.merge q.uds q.lds (mem (cpuVramWord q.addr)) q.dataIn)
  else mem

/-- What a read is to return: `r` and `mem` are the registers and the VRAM it meets. -/
def value (rom : ℕ → Word) (monitor512 : Bool) (r : Regs) (mem : ℕ → Word) (a : ℕ) : Word :=
  if inVram a then mem (cpuVramWord a)
  else if addrIsRegs a then r.read monitor512 a
  else if addrIsRom a then romData (rom (field a 16 3)) a
  else 0xFFFF

/-- A read of the ROM, which is acknowledged one clock later than the others. -/
def Key.romRead (q : Key) : Bool := q.rw && addrIsRom q.addr

def Key.delay (q : Key) : ℕ := if q.romRead then 3 else 2

theorem vram_of_regs {a : ℕ} (h : addrIsRegs a = true) : addrIsVram a = false := by
  simp only [addrIsRegs, addrIsVram, beq_iff_eq, beq_eq_false_iff_ne] at *
  unfold field at *
  omega

theorem vram_of_rom {a : ℕ} (h : addrIsRom a = true) :
    addrIsVram a = false ∧ addrIsRegs a = false := by
  simp only [addrIsRom, addrIsRegs, addrIsVram, beq_iff_eq, beq_eq_false_iff_ne] at *
  unfold field at *
  omega

section Take

variable {rom : ℕ → Word} {monitor512 : Bool} {c : Card} {b : Bus} {mem : ℕ → Word}

/-- A request that does not meet the VRAM leaves the FSM idle. -/
theorem take_eq (d : Card) (h : inVram b.key.addr = false) (hregs : d.regs = c.regs)
    (hclear : d.irqClear = false) (hpending : d.romReadPending = false) :
    c.take monitor512 b d =
      { d with
        key := b.key
        regs := c.regs.after b.key
        irqClear := b.key.clearsIrq
        ackDelay := b.key.delay
        romReadPending := b.key.romRead
        dataOut := if b.key.rw && !b.key.romRead then value rom monitor512 c.regs mem b.key.addr
          else d.dataOut } := by
  cases d
  simp only at hregs hclear hpending
  subst hregs hclear hpending
  unfold Card.take value
  rw [h]
  cases hvram : addrIsVram b.key.addr with
  | true =>
    have hregs : addrIsRegs b.key.addr = false := by
      by_contra hr
      rw [vram_of_regs (by simpa using hr)] at hvram
      cases hvram
    have hrom : addrIsRom b.key.addr = false := by
      by_contra hr
      rw [(vram_of_rom (by simpa using hr)).1] at hvram
      cases hvram
    have hrange : ¬ cpuVramWord b.key.addr < vramWords := by
      simpa [inVram, hvram] using h
    cases hrw : b.key.rw <;>
      simp [hrange, hregs, hrom, hrw, hvram, Key.romRead, Key.delay, Regs.after, Key.clearsIrq]
  | false =>
    cases hregs : addrIsRegs b.key.addr with
    | true =>
      have hrom : addrIsRom b.key.addr = false := by
        by_contra hr
        rw [(vram_of_rom (by simpa using hr)).2] at hregs
        cases hregs
      cases hrw : b.key.rw <;>
        simp [hvram, hregs, hrom, hrw, Key.romRead, Key.delay, Regs.after, Key.clearsIrq]
    | false =>
      cases hrw : b.key.rw <;> cases hrom : addrIsRom b.key.addr <;>
        simp [hvram, hregs, hrom, hrw, Key.romRead, Key.delay, Regs.after, Key.clearsIrq]

end Take

/-! ### The line of a request -/

/-- The card `k` clocks after it has met the request `q` at rest, with the registers `r`. -/
structure Line (rom : ℕ → Word) (monitor512 : Bool) (r : Regs) (q : Key) (k : ℕ) (c : Card) :
    Prop where
  idle : c.Idle
  regs : c.regs = if k = 0 then r else r.after q
  irqClear : k ≠ 0 → c.irqClear = (k == 1 && q.clearsIrq)
  ack : c.ack = decide (q.delay < k)
  ackDelay : c.ackDelay = if k = 0 then 0 else q.delay + 1 - k
  pending : c.romReadPending = (q.romRead && (k == 1 || k == 2))
  key : k ≠ 0 → c.key = q
  romWord : k ≠ 0 → c.romWord = rom (field q.addr 16 3)
  dataOut : q.rw = true → (if q.romRead then 3 else 1) ≤ k → ∀ mem,
    c.dataOut = value rom monitor512 r mem q.addr

section Line

variable {rom : ℕ → Word} {monitor512 : Bool} {c : Card} {b : Bus} {q : Key} {k : ℕ}

theorem Card.Rest.line (h : c.Rest) : Line rom monitor512 c.regs q 0 c where
  idle := h.toIdle
  regs := rfl
  irqClear h0 := absurd rfl h0
  ack := h.ack
  ackDelay := h.ackDelay
  pending := by rw [h.pending]; simp
  key h0 := absurd rfl h0
  romWord h0 := absurd rfl h0
  dataOut _ h0 := by split_ifs at h0 <;> omega

theorem keyChanged_self (q : Key) : keyChanged q q = false := by simp [keyChanged]

theorem delay_cases (q : Key) :
    (q.romRead = true ∧ q.delay = 3) ∨ (q.romRead = false ∧ q.delay = 2) := by
  unfold Key.delay
  cases q.romRead <;> simp

theorem value_romRead {r : Regs} {mem : ℕ → Word} (h : q.romRead = true) :
    value rom monitor512 r mem q.addr = romData (rom (field q.addr 16 3)) q.addr := by
  have hrom : addrIsRom q.addr = true := ((Bool.and_eq_true _ _).mp h).2
  obtain ⟨hvram, hregs⟩ := vram_of_rom hrom
  simp [value, inVram, hvram, hregs, hrom]

section Step

variable {r : Regs} (hq : inVram q.addr = false) (hb : b.ours = true) (hkey : b.key = q)
include hq hb hkey

theorem Line.take (h : Line rom monitor512 r q 0 c) :
    Line rom monitor512 r q 1 (c.step rom monitor512 b) := by
  have hrest : c.Rest := ⟨h.idle, h.ack, h.ackDelay, by rw [h.pending]; simp⟩
  have hregs : c.regs = r := h.regs
  subst hkey
  rw [step_take hrest hb, @take_eq rom monitor512 c b (fun _ => 0) (c.scan rom b) hq rfl rfl hrest.pending]
  refine ⟨⟨h.idle.state, h.idle.vramRd, h.idle.vramWr⟩, ?_, fun _ => ?_, ?_, ?_, ?_, fun _ => rfl,
    fun _ => rfl, fun hrw hk mem => ?_⟩
  · rw [hregs]
    rfl
  · simp
  · have hlt : ¬ b.key.delay < 1 := by
      rcases delay_cases b.key with ⟨-, hd⟩ | ⟨-, hd⟩ <;> omega
    rw [decide_eq_false hlt]
    exact hrest.ack
  · simp
  · simp
  · have hrom : b.key.romRead = false := by
      by_contra hr
      rw [Bool.not_eq_false] at hr
      rw [hr] at hk
      exact absurd hk (by decide)
    simp [hrw, hrom, hregs, value, hq]

omit hq hb in
theorem Line.count (h : Line rom monitor512 r q k c) (hk : k ≠ 0) (hle : k ≤ q.delay) :
    Line rom monitor512 r q (k + 1) (c.step rom monitor512 b) := by
  obtain ⟨d, hd⟩ : ∃ d, q.delay = k + d := ⟨q.delay - k, by omega⟩
  have hack : c.ack = false := by rw [h.ack, decide_eq_false (by omega)]
  have hdelay : c.ackDelay = d + 1 := by
    rw [h.ackDelay, if_neg hk]
    omega
  rw [step_count h.idle hack hdelay]
  refine ⟨⟨h.idle.state, h.idle.vramRd, h.idle.vramWr⟩, ?_, fun _ => ?_, ?_, ?_, ?_,
    fun _ => h.key hk, fun _ => by rw [← hkey]; rfl, fun hrw hfrom mem => ?_⟩
  · exact (h.regs.trans (if_neg hk)).trans (if_neg k.succ_ne_zero).symm
  · have hk1 : (k + 1 == 1) = false := beq_false_of_ne (by omega)
    rw [hk1, Bool.false_and]
    rfl
  · change (d == 0) = _
    rw [Bool.eq_iff_iff, beq_iff_eq, decide_eq_true_eq]
    omega
  · change d = if k + 1 = 0 then 0 else q.delay + 1 - (k + 1)
    rw [if_neg k.succ_ne_zero]
    omega
  · change (if d = 1 then false else c.romReadPending) = _
    rw [h.pending]
    rcases delay_cases q with ⟨hrom, hd'⟩ | ⟨hrom, hd'⟩
    · rcases (show k = 1 ∨ k = 2 ∨ k = 3 by omega) with rfl | rfl | rfl
      · rw [if_neg (by omega), hrom]
        rfl
      · rw [if_pos (by omega)]
        simp
      · rw [if_neg (by omega)]
        simp
    · rw [hrom]
      simp
  · change (if d = 1 ∧ c.romReadPending = true then romData c.romWord b.key.addr else c.dataOut) = _
    rw [h.pending]
    rcases delay_cases q with ⟨hrom, hd'⟩ | ⟨hrom, hd'⟩
    · rw [hrom, if_pos rfl] at hfrom
      by_cases h2 : k = 2
      · rw [if_pos ⟨by omega, by rw [hrom, h2]; rfl⟩, h.romWord hk, hkey, value_romRead hrom]
      · rw [if_neg fun hd1 => h2 (by omega)]
        exact h.dataOut hrw (by rw [if_pos hrom]; omega) mem
    · rw [if_neg (by simp [hrom])]
      exact h.dataOut hrw (by rw [hrom, if_neg Bool.false_ne_true]; omega) mem

omit hq in
theorem Line.hold (h : Line rom monitor512 r q k c) (hlt : q.delay < k) :
    Line rom monitor512 r q (k + 1) (c.step rom monitor512 b) := by
  have hk : k ≠ 0 := by omega
  have hd : q.delay ≠ 0 := by
    rcases delay_cases q with ⟨-, hd⟩ | ⟨-, hd⟩ <;> omega
  have hack : c.ack = true := by rw [h.ack, decide_eq_true hlt]
  have hdelay : c.ackDelay = 0 := by
    rw [h.ackDelay, if_neg hk]
    omega
  have hpending : c.romReadPending = false := by
    rw [h.pending]
    rcases delay_cases q with ⟨-, hd⟩ | ⟨hrom, hd⟩
    · rw [beq_false_of_ne (by omega : k ≠ 1), beq_false_of_ne (by omega : k ≠ 2)]
      simp
    · rw [hrom]
      rfl
  rw [step_hold h.idle hack hdelay hpending hb (by rw [h.key hk, hkey, keyChanged_self])]
  refine ⟨⟨h.idle.state, h.idle.vramRd, h.idle.vramWr⟩, ?_, fun _ => ?_, ?_, ?_, ?_,
    fun _ => h.key hk, fun _ => by rw [← hkey]; rfl, fun hrw hfrom mem => ?_⟩
  · exact (h.regs.trans (if_neg hk)).trans (if_neg k.succ_ne_zero).symm
  · rw [beq_false_of_ne (by omega : k + 1 ≠ 1), Bool.false_and]
    rfl
  · rw [decide_eq_true (by omega)]
    exact hack
  · change c.ackDelay = if k + 1 = 0 then 0 else q.delay + 1 - (k + 1)
    rw [if_neg k.succ_ne_zero]
    omega
  · rw [beq_false_of_ne (by omega : k + 1 ≠ 1), beq_false_of_ne (by omega : k + 1 ≠ 2)]
    change c.romReadPending = _
    rw [hpending]
    simp
  · refine h.dataOut hrw ?_ mem
    rcases delay_cases q with ⟨hrom, hd⟩ | ⟨hrom, hd⟩
    · rw [if_pos hrom]
      omega
    · rw [hrom, if_neg Bool.false_ne_true]
      omega

/-- One more clock of the request. -/
theorem Line.succ (h : Line rom monitor512 r q k c) :
    Line rom monitor512 r q (k + 1) (c.step rom monitor512 b) := by
  rcases Nat.eq_zero_or_pos k with rfl | hk
  · exact h.take hq hb hkey
  · rcases Nat.lt_or_ge q.delay k with hlt | hge
    · exact h.hold hb hkey hlt
    · exact h.count hkey (by omega) hge

end Step

end Line

end Nubus
