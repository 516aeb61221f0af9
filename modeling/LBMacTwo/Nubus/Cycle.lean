import LBMacTwo.Nubus.System

/-!
# The cycles of the video card

* `ExactlyOnce`: what a cycle that addresses the card does, what it latches and what releases it;
* `InTime`: the cycles the card answers before the open bus does;
* `Served`: where such a cycle stands in each of its clocks;
* `released_of_served`, `latches_of_served`: what releases it, and what it latches.
-/

namespace Nubus
open Cpu Clocked Wire

namespace Trace

variable (r : Trace) {a e j k n t z : ℕ}

def card (t : ℕ) : Card := (r.sys t).card

def mem (t : ℕ) : ℕ → Word := (r.sys t).vram.mem

/-- The wait state ends in clock `t`. -/
def leaves (t : ℕ) : Bool := leavesAt r.turbo r.start.board.machine r.cpuIn t

/-- The open bus answers in clock `t`. -/
def openBus (t : ℕ) : Bool := (r.sys t).openBus (r.input t)

/-- AS falls in clock `a`, on an address of the card. -/
structure CardCycle (a : ℕ) : Prop where
  falls : Rises r.low a
  ours : (r.bus a).ours = true

/-- No AS falls after clock `a` up to clock `t`. -/
def Until (a t : ℕ) : Prop := ∀ b, a < b → b ≤ t → ¬ Rises r.low b

/-- The request of the cycle that starts in clock `a` takes effect in clock `k`, and nothing else
happens until the next cycle. -/
structure Effect (a k : ℕ) : Prop where
  le : a ≤ k
  lt : ∀ b, Rises r.low b → a < b → k < b
  regs : ∀ t, a ≤ t → r.Until a t → (r.card t).regs =
    if t ≤ k then (r.card a).regs else (r.card a).regs.after (r.request a)
  mem : ∀ t, a ≤ t → r.Until a t →
    r.mem t = if t ≤ k then r.mem a else memAfter (r.mem a) (r.request a)
  irqClear : ∀ t, a < t → r.Until a t →
    (r.card t).irqClear = (t == k + 1 && (r.request a).clearsIrq)

/-- The card has taken the request of the cycle before clock `t`. -/
def Own (a t : ℕ) : Prop :=
  ∃ k, a ≤ k ∧ k < t ∧ (r.card k).takes (r.bus k) = true ∧ (r.bus k).key = r.request a

/-- The cycle is not released by the open bus, nor by the acknowledge of another one. -/
def Released (a z : ℕ) : Prop :=
  ∀ t, a ≤ t → t ≤ z → r.leaves t = true →
    r.openBus t = false ∧ ((r.card t).ack = true → r.Own a t)

/-- A read in data or program space latches the value at its address. -/
def Latches (a z : ℕ) : Prop :=
  (r.request a).rw = true → (r.mach a).cpu.kernel.fc ≠ 7 → (r.mach (z + 1)).cpu.dinR =
    value r.rom r.monitor512 (r.card a).regs (r.mem a) (r.request a).addr

/-- The cycle that starts in clock `a` ends, has its effect once and latches its own value. -/
structure ExactlyOnce (a : ℕ) : Prop where
  effect : ∃ k, r.Effect a k
  cycle : ∃ z, Pulse r.low a z ∧ r.Released a z ∧ r.Latches a z

/-- The card answers the cycle in time: it does not meet the VRAM and, with turbo on, reads. -/
structure InTime (a : ℕ) : Prop where
  vram : inVram (r.request a).addr = false
  turbo : (r.request a).rw = true ∨ r.turbo = false

variable {r}

/-! ### The card in the clocks of a cycle -/

theorem card_succ (t : ℕ) :
    r.card (t + 1) = (r.card t).step r.rom r.monitor512 (r.bus t) := rfl

theorem openBus_eq (t : ℕ) : r.openBus t =
    ((r.bus t).select && !(r.card t).ack && decide (4 ≤ (r.sys t).board.nubusTimeout)) := rfl

theorem timeout_succ (t : ℕ) : (r.sys (t + 1)).board.nubusTimeout =
    if !r.low t then 0
    else if (r.bus t).select && !(r.card t).ack && decide ((r.sys t).board.nubusTimeout < 15) then
      (r.sys t).board.nubusTimeout + 1
    else (r.sys t).board.nubusTimeout := by
  rw [← bus_as]
  rfl

@[simp] theorem seen_addr (q : Key) (turbo : Bool) (k : ℕ) : (q.seen turbo k).addr = q.addr := by
  unfold Key.seen Key.early
  split_ifs <;> rfl

/-- AS is high in the clock before it falls. -/
theorem exists_before (h0 : Reset r.start.board.machine) (h : Rises r.low a) :
    ∃ a', a = a' + 1 ∧ r.low a' = false := by
  cases a with
  | zero =>
    have has : r.start.board.machine.cpu.asR = true := h.1
    rw [h0.as] at has
    cases has
  | succ a => exact ⟨a, rfl, h.2 a rfl⟩

section Cycle

variable (h0 : Reset r.start.board.machine) (hst : r.Steady)
include h0 hst

theorem ours_of_asked (h : r.Asked a k) : (r.bus (a + k)).ours = (r.bus a).ours := by
  obtain ⟨has, hsel, hkey⟩ := bus_of_asked h0 hst h
  obtain ⟨has', -, hkey'⟩ := bus_of_asked (k := 0) h0 hst fun i hi => h i (by omega)
  rw [Nat.add_zero] at has' hkey'
  rw [Bus.ours, Bus.ours, has, has', hsel, hkey, hkey', seen_addr, seen_addr]

variable (hc : r.CardCycle a) (hrest : (r.card a).Rest)
  (hvram : inVram (r.request a).addr = false)
include hc hrest hvram

/-- A request that stands from the fall of AS on. -/
theorem line_run {q : Key} (haddr : q.addr = (r.request a).addr) (hn : r.Asked a n)
    (hseen : ∀ k ≤ n, (r.request a).seen r.turbo k = q) (hk : k ≤ n + 1) :
    Line r.rom r.monitor512 (r.card a).regs q k (r.card (a + k)) := by
  induction k with
  | zero => exact hrest.line
  | succ k ih =>
    have hasked : r.Asked a k := fun i hi => hn i (by omega)
    rw [← Nat.add_assoc, card_succ]
    refine (ih (by omega)).succ (by rw [haddr, hvram]) ?_ ?_
    · rw [ours_of_asked h0 hst hasked]
      exact hc.ours
    · rw [(bus_of_asked h0 hst hasked).2.2]
      exact hseen k (by omega)

omit hst hrest hvram in
theorem timeout_fall : (r.sys a).board.nubusTimeout = 0 := by
  obtain ⟨a', rfl, has⟩ := exists_before h0 hc.falls
  rw [timeout_succ, has]
  rfl

omit hrest hvram in
theorem timeout_of_asked (h : r.Asked a k) (hlt : (r.sys (a + k)).board.nubusTimeout < 15) :
    (r.sys (a + k + 1)).board.nubusTimeout = (r.sys (a + k)).board.nubusTimeout +
      if (r.card (a + k)).ack then 0 else 1 := by
  have hours := hc.ours
  rw [← ours_of_asked h0 hst h] at hours
  simp only [Bus.ours, Bool.and_eq_true] at hours
  rw [timeout_succ, ← bus_as, hours.1.1, hours.1.2, decide_eq_true hlt]
  cases (r.card (a + k)).ack <;> rfl

/-- The count of the open bus with a request that stands from the fall of AS on. -/
theorem timeout_run {q : Key} (haddr : q.addr = (r.request a).addr) (hn : r.Asked a n)
    (hseen : ∀ k ≤ n, (r.request a).seen r.turbo k = q) (hk : k ≤ n + 1) :
    (r.sys (a + k)).board.nubusTimeout = min k (q.delay + 1) := by
  have hdelay := delay_cases q
  induction k with
  | zero =>
    rw [Nat.add_zero, timeout_fall h0 hc]
    exact (Nat.zero_min _).symm
  | succ k ih =>
    have hline := line_run h0 hst hc hrest hvram haddr hn hseen (show k ≤ n + 1 by omega)
    rw [← Nat.add_assoc, timeout_of_asked h0 hst hc (fun i hi => hn i (by omega))
      (by rw [ih (by omega)]; omega), ih (by omega), hline.ack]
    by_cases hlt : q.delay < k
    · rw [decide_eq_true hlt, if_pos rfl]
      omega
    · rw [decide_eq_false hlt, if_neg Bool.false_ne_true]
      omega

omit h0 hst hc hrest hvram in
theorem seen_of_early {q : Key} (h : q.early = q) (turbo : Bool) (k : ℕ) : q.seen turbo k = q := by
  unfold Key.seen
  split_ifs
  · rfl
  · exact h

/-- The request of the cycle is taken in clock `a + e`, with all its strobes, and answered from
there on, up to clock `a + n + 1`. -/
structure Served (r : Trace) (a e n : ℕ) : Prop where
  before : ∀ k ≤ e, (r.card (a + k)).Idle ∧ (r.card (a + k)).regs = (r.card a).regs ∧
    (k ≠ 0 → (r.card (a + k)).irqClear = false)
  rest : (r.card (a + e)).Rest
  ours : (r.bus (a + e)).ours = true
  key : (r.bus (a + e)).key = r.request a
  line : ∀ k, e + k ≤ n + 1 → Line r.rom r.monitor512 (r.card a).regs (r.request a) k
    (r.card (a + e + k))
  timeout : ∀ k, e + k ≤ n + 1 → (r.sys (a + e + k)).board.nubusTimeout =
    min e 3 + min k ((r.request a).delay + 1)

/-- A read, or a write without strobes, is taken where AS falls. -/
theorem served_of_early (hn : r.Asked a n) (hearly : (r.request a).early = r.request a) :
    Served r a 0 n where
  before k hk := by
    obtain rfl : k = 0 := by omega
    exact ⟨hrest.toIdle, rfl, fun h => absurd rfl h⟩
  rest := hrest
  ours := hc.ours
  key := by
    have hkey := (bus_of_asked (k := 0) h0 hst fun i hi => hn i (by omega)).2.2
    rw [seen_of_early hearly] at hkey
    exact hkey
  line k hk := line_run h0 hst hc hrest hvram rfl hn (fun k _ => seen_of_early hearly _ k)
    (by omega)
  timeout k hk := by
    rw [Nat.add_zero, timeout_run h0 hst hc hrest hvram rfl hn
      (fun k _ => seen_of_early hearly _ k) (by omega)]
    omega

omit h0 hst hc hrest hvram in
/-- A write whose strobes are still to fall. -/
theorem early_of_ne {q : Key} (h : q.early ≠ q) :
    q.rw = false ∧ (q.uds || q.lds) = true ∧ q.early = { q with uds := false, lds := false } := by
  have hrw : q.rw = false := by
    by_contra hw
    exact h (by rw [Key.early, if_pos (by simpa using hw)])
  have heq : q.early = { q with uds := false, lds := false } := by
    rw [Key.early, if_neg (by rw [hrw]; decide)]
  refine ⟨hrw, ?_, heq⟩
  by_contra hs
  simp only [Bool.or_eq_true, not_or, Bool.not_eq_true] at hs
  apply h
  rw [heq]
  cases q
  simp_all

omit h0 hst hc hrest hvram in
/-- Without strobes a write does nothing. -/
theorem after_early {q : Key} (h : q.early ≠ q) (x : Regs) :
    x.after q.early = x ∧ q.early.clearsIrq = false ∧ q.early.delay = 2 ∧
      q.early.romRead = false ∧ keyChanged q.early q = true := by
  obtain ⟨hrw, hstrobes, heq⟩ := early_of_ne h
  rw [heq]
  refine ⟨?_, ?_, ?_, ?_, ?_⟩
  · simp [Regs.after, Regs.write, hrw]
  · simp [Key.clearsIrq]
  · simp [Key.delay, Key.romRead, hrw]
  · simp [Key.romRead, hrw]
  · rw [Bool.or_eq_true] at hstrobes
    rcases hstrobes with hu | hl
    · simp [keyChanged, hu]
    · simp [keyChanged, hl]

section Late

variable (hturbo : r.turbo = false) (hearly : (r.request a).early ≠ r.request a)
include hturbo hearly

omit h0 hst hc hrest hvram hearly in
theorem seen_late (k : ℕ) : (r.request a).seen r.turbo k =
    if 4 ≤ k then r.request a else (r.request a).early := by
  rw [Key.seen, hturbo]
  rfl

/-- The request without strobes, up to the clock in which they fall. -/
theorem line_early (hn : r.Asked a 3) (hk : k ≤ 4) :
    Line r.rom r.monitor512 (r.card a).regs (r.request a).early k (r.card (a + k)) ∧
      (r.sys (a + k)).board.nubusTimeout = min k 3 := by
  have haddr : (r.request a).early.addr = (r.request a).addr := by
    rw [(early_of_ne hearly).2.2]
  have hseen : ∀ k ≤ 3, (r.request a).seen r.turbo k = (r.request a).early := fun k hk => by
    rw [seen_late hturbo, if_neg (by omega)]
  have htime := timeout_run h0 hst hc hrest hvram haddr hn hseen hk
  rw [(after_early hearly (r.card a).regs).2.2.1] at htime
  exact ⟨line_run h0 hst hc hrest hvram haddr hn hseen hk, htime⟩

/-- The acknowledge of the request without strobes is withdrawn. -/
theorem rest_late (hn : r.Asked a 4) : (r.card (a + 5)).Rest ∧
    (r.card (a + 5)).regs = (r.card a).regs ∧ (r.card (a + 5)).irqClear = false ∧
      (r.sys (a + 5)).board.nubusTimeout = 3 := by
  obtain ⟨hregs, -, hdelay, hrom, hchanged⟩ := after_early hearly (r.card a).regs
  obtain ⟨hline, htime⟩ := line_early h0 hst hc hrest hvram hturbo hearly
    (fun i hi => hn i (by omega)) (le_refl 4)
  have hours : (r.bus (a + 4)).ours = true := by
    rw [ours_of_asked h0 hst hn]
    exact hc.ours
  have hkey : (r.bus (a + 4)).key = r.request a := by
    rw [(bus_of_asked h0 hst hn).2.2, seen_late hturbo, if_pos le_rfl]
  have hack : (r.card (a + 4)).ack = true := by
    rw [hline.ack, hdelay]
    rfl
  have hdelay0 : (r.card (a + 4)).ackDelay = 0 := by
    rw [hline.ackDelay, hdelay]
    rfl
  have hpending : (r.card (a + 4)).romReadPending = false := by
    rw [hline.pending, hrom]
    rfl
  have hstep : r.card (a + 5) =
      { (r.card (a + 4)).scan r.rom (r.bus (a + 4)) with ack := false } := by
    refine (card_succ (a + 4)).trans (step_rearm hline.idle hack hdelay0 hpending hours ?_)
    rw [hline.key (by decide), hkey]
    exact hchanged
  rw [hstep]
  refine ⟨⟨⟨hline.idle.state, hline.idle.vramRd, hline.idle.vramWr⟩, rfl, hdelay0, hpending⟩, ?_,
    rfl, ?_⟩
  · have hnow : (r.card (a + 4)).regs = (r.card a).regs.after (r.request a).early := hline.regs
    rw [hregs] at hnow
    exact hnow
  · have hcount := timeout_of_asked h0 hst hc hn (by rw [htime]; decide)
    rw [hack, htime] at hcount
    exact hcount

/-- A write is taken when its strobes have fallen. -/
theorem served_late (hn : r.Asked a n) (h5 : 5 ≤ n) : Served r a 5 n := by
  obtain ⟨hrest5, hregs5, hirq5, htime5⟩ := rest_late h0 hst hc hrest hvram hturbo hearly
    fun i hi => hn i (by omega)
  have hours : ∀ k ≤ n, (r.bus (a + k)).ours = true := fun k hk => by
    rw [ours_of_asked h0 hst fun i hi => hn i (by omega)]
    exact hc.ours
  have hkey : ∀ k ≤ n, 4 ≤ k → (r.bus (a + k)).key = r.request a := fun k hk h4 => by
    rw [(bus_of_asked h0 hst fun i hi => hn i (by omega)).2.2, seen_late hturbo, if_pos h4]
  have hline : ∀ k, 5 + k ≤ n + 1 → Line r.rom r.monitor512 (r.card a).regs (r.request a) k
      (r.card (a + 5 + k)) := fun k hk => by
    induction k with
    | zero =>
      rw [← hregs5]
      exact hrest5.line
    | succ k ih =>
      rw [← Nat.add_assoc, card_succ]
      refine (ih (by omega)).succ hvram ?_ ?_
      · rw [Nat.add_assoc]
        exact hours (5 + k) (by omega)
      · rw [Nat.add_assoc]
        exact hkey (5 + k) (by omega) (by omega)
  refine ⟨fun k hk => ?_, hrest5, hours 5 h5, hkey 5 h5 (by decide), hline, fun k hk => ?_⟩
  · rcases Nat.lt_or_ge 4 k with h4 | h4
    · obtain rfl : k = 5 := by omega
      exact ⟨hrest5.toIdle, hregs5, fun _ => hirq5⟩
    · obtain ⟨hearlyLine, -⟩ := line_early h0 hst hc hrest hvram hturbo hearly
        (fun i hi => hn i (by omega)) h4
      obtain ⟨hafter, hclear, -⟩ := after_early hearly (r.card a).regs
      refine ⟨hearlyLine.idle, ?_, fun hk0 => ?_⟩
      · rw [hearlyLine.regs, hafter]
        split_ifs <;> rfl
      · rw [hearlyLine.irqClear hk0, hclear, Bool.and_false]
  · have hdelay := delay_cases (r.request a)
    induction k with
    | zero => rw [Nat.add_zero, htime5]; omega
    | succ k ih =>
      have hcount := timeout_of_asked (k := 5 + k) h0 hst hc (fun i hi => hn i (by omega))
        (by rw [← Nat.add_assoc, ih (by omega)]; omega)
      rw [← Nat.add_assoc] at hcount
      rw [← Nat.add_assoc, hcount, ih (by omega), (hline k (by omega)).ack]
      by_cases hlt : (r.request a).delay < k
      · rw [decide_eq_true hlt, if_pos rfl]
        omega
      · rw [decide_eq_false hlt, if_neg Bool.false_ne_true]
        omega

end Late

end Cycle

/-! ### What the CPU meets -/

theorem selectFPU_of_slot {m : Machine} {i : Cpu.In} (h : inOurSlot (m.cpuAddr i) = true) :
    m.selectFPU i = false := by
  by_contra hf
  simp only [Machine.selectFPU, Bool.not_eq_false, Bool.and_eq_true, beq_iff_eq] at hf
  have h2 := hf.1.2
  simp only [inOurSlot, Bool.or_eq_true, Bool.and_eq_true, beq_iff_eq] at h
  unfold field at h h2
  omega

theorem nubusAck_cpuIn (t : ℕ) :
    (r.cpuIn t).nubusAck = if r.openBus t then true else (r.card t).ack := rfl

/-- A clock in which the card is addressed, on the side of the CPU. -/
theorem mach_of_ours (h : (r.bus t).ours = true) : (r.mach t).cpu.asR = true ∧
    ((r.mach t).sel (r.cpuIn t)).nubus = true ∧ (r.mach t).selectFPU (r.cpuIn t) = false := by
  simp only [Bus.ours, Bool.and_eq_true, bus_as, bus_select, bus_key] at h
  exact ⟨h.1.1, h.1.2, selectFPU_of_slot h.2⟩

theorem dtack_of_ack (h : (r.bus t).ours = true) (hack : (r.card t).ack = true) :
    (r.mach t).dtack r.turbo (r.cpuIn t) = true := by
  obtain ⟨-, hsel, hfpu⟩ := mach_of_ours h
  rw [Machine.dtack, hfpu, hsel, nubusAck_cpuIn, hack]
  simp

theorem data_of_ack (h : (r.bus t).ours = true) (hack : (r.card t).ack = true)
    (hfixup : (r.mach t).fixupTake = false) (hhold : (r.mach t).fpuDataHoldValid = false) :
    (r.mach t).cpuDataIn (r.cpuIn t) = (r.card t).dataOut := by
  obtain ⟨-, hsel, hfpu⟩ := mach_of_ours h
  have hopen : r.openBus t = false := by
    rw [openBus_eq, hack]
    simp
  have hany : (r.mach t).anySelect (r.cpuIn t) = true := by
    rw [Machine.anySelect, hsel, nubusAck_cpuIn, hack]
    simp
  have hdata : (r.cpuIn t).deviceData =
      if (r.bus t).select then (if r.openBus t then 0xFFFF else (r.card t).dataOut)
      else (r.input t).cpu.deviceData := rfl
  have hselect : (r.bus t).select = true := by
    rw [bus_select]
    exact hsel
  rw [Machine.cpuDataIn, hfixup, hfpu, hhold, hany, Machine.dataControllerDataOut, hsel, hdata,
    hselect, hopen]
  simp

/-- The FPU's word is not held over a clock in which the card is addressed. -/
theorem hold_of_ours (h : (r.bus t).ours = true) : (r.mach (t + 1)).fpuDataHoldValid = false := by
  obtain ⟨has, -, hfpu⟩ := mach_of_ours h
  change (if (r.mach t).cpu.asR && (r.mach t).selectFPU (r.cpuIn t) && (r.mach t).cpu.rwR then true
    else if (r.mach t).cpu.asR && !(r.mach t).selectFPU (r.cpuIn t) then false
    else (r.mach t).fpuDataHoldValid) = false
  rw [has, hfpu]
  simp

/-! ### The end of a cycle in time -/

/-- The clock in which a request is taken: where AS falls, or with the strobes of a write. -/
def TakenAt (r : Trace) (a e : ℕ) : Prop :=
  e = 0 ∨ e = 5 ∧ r.turbo = false ∧ (r.request a).delay = 2

/-- The wait state ends on an edge of `phi2`. -/
theorem phi2On_of_leaves (hf : Falls r.turbo r.start.board.machine r.cpuIn a)
    (hlow : Low r.turbo r.start.board.machine r.cpuIn a k) (hl : r.leaves (a + k) = true) :
    phi2On r.turbo k = true ∧ lead r.turbo ≤ k := by
  obtain ⟨-, he2⟩ := edges_of_falls hf k
  simp only [leaves, leavesAt, Wrapper.leaves, Bool.and_eq_true, beq_iff_eq] at hl
  obtain ⟨⟨⟨⟨-, h2⟩, h4⟩, -⟩, -⟩ := hl
  refine ⟨by rw [← he2]; exact h2, hlow.strobed.mp ?_⟩
  rw [h4]
  decide

/-- The acknowledge stands before the last clock of AS. -/
theorem tail_of_takenAt (hends : Ends r.turbo r.start.board.machine r.cpuIn a j)
    (he : r.TakenAt a e) (hej : e ≤ j) : 4 ≤ j + tail r.turbo - e ∧ 2 ≤ tail r.turbo := by
  have hlead := hends.lead
  rcases lead_tail r.turbo with ⟨hturbo, h1, h2⟩ | ⟨hturbo, h1, h2⟩
  · rcases he with rfl | ⟨-, hslow, -⟩
    · omega
    · rw [hturbo] at hslow
      cases hslow
  · omega

section Timely

variable (h0 : Reset r.start.board.machine) (hst : r.Steady) (hc : r.CardCycle a)
include h0 hst hc

/-- An acknowledge in the wait state ends it. -/
theorem leaves_of_ack (hf : Falls r.turbo r.start.board.machine r.cpuIn a)
    (hw : ∀ k ≤ n, Waits r.turbo r.start.board.machine r.cpuIn a k) (hlead : lead r.turbo ≤ n)
    (hphi : phi2On r.turbo n = true) (hack : (r.card (a + n)).ack = true) :
    r.leaves (a + n) = true := by
  have hasked : r.Asked a n := fun i hi => (hw i hi).low
  have hours := hc.ours
  rw [← ours_of_asked h0 hst hasked] at hours
  obtain ⟨he1, he2⟩ := edges_of_falls hf n
  have hwn := hw n le_rfl
  have hs : (r.mach (a + n)).cpu.sState = 4 := by
    refine Eq.trans hwn.sState ?_
    rw [if_neg (by omega)]
  have hidle : (r.mach (a + n)).cpu.kernel.idle = false := by
    have hkernel : (r.mach (a + n)).cpu.kernel = (r.mach a).cpu.kernel := hwn.kernel
    rw [hkernel]
    exact hf.busy
  have h1 : ((r.mach (a + n)).wires r.turbo (r.cpuIn (a + n))).phi1 = false :=
    cpuEnP_of_cpuEnN r.turbo _ (he2.trans hphi)
  have h2 : ((r.mach (a + n)).wires r.turbo (r.cpuIn (a + n))).phi2 = true := he2.trans hphi
  have hd : ((r.mach (a + n)).wires r.turbo (r.cpuIn (a + n))).dtack = true :=
    dtack_of_ack hours hack
  change (r.mach (a + n)).cpu.leaves ((r.mach (a + n)).wires r.turbo (r.cpuIn (a + n))) = true
  rw [Wrapper.leaves, h1, h2, hs, hidle, hd]
  rfl

variable (hrest : (r.card a).Rest) (hin : r.InTime a)
include hrest hin

/-- A cycle in time ends, and the card has taken its request before. -/
theorem exists_served : ∃ e j, Ends r.turbo r.start.board.machine r.cpuIn a j ∧
    Served r a e (j + tail r.turbo) ∧ r.TakenAt a e ∧ e ≤ j ∧ j ≤ 9 := by
  have hf := falls_of_rises h0 hc.falls
  have hdelay := delay_cases (r.request a)
  by_cases hearly : (r.request a).early = r.request a
  · obtain ⟨n, hlead, hphi, h4, h5⟩ : ∃ n, lead r.turbo ≤ n ∧ phi2On r.turbo n = true ∧
        4 ≤ n ∧ n ≤ 5 := by
      cases r.turbo
      · exact ⟨5, by decide, rfl, by decide, le_rfl⟩
      · exact ⟨4, by decide, rfl, le_rfl, by decide⟩
    obtain ⟨j, hjn, hends⟩ := exists_ends (n := n) hf fun hw => by
      have hserved := served_of_early (n := n) h0 hst hc hrest hin.vram
        (fun i hi => (hw i hi).low) hearly
      have hline := hserved.line n (by omega)
      refine leaves_of_ack h0 hst hc hf hw hlead hphi ?_
      exact hline.ack.trans (decide_eq_true (by omega))
    exact ⟨0, j, hends, served_of_early h0 hst hc hrest hin.vram (fun i hi => hends.low hf hi) hearly,
      .inl rfl, j.zero_le, by omega⟩
  · obtain ⟨hrw, -, -⟩ := early_of_ne hearly
    have hturbo : r.turbo = false := hin.turbo.resolve_left (by rw [hrw]; decide)
    have hdelay2 : (r.request a).delay = 2 := by simp [Key.delay, Key.romRead, hrw]
    obtain ⟨j, hjn, hends⟩ := exists_ends (n := 9) hf fun hw => by
      have hserved := served_late h0 hst hc hrest hin.vram hturbo hearly (n := 9)
        (fun i hi => (hw i hi).low) (by decide)
      have hline := hserved.line 4 (by decide)
      refine leaves_of_ack h0 hst hc hf hw (by rw [hturbo]; decide) (by rw [hturbo]; rfl) ?_
      refine hline.ack.trans ?_
      rw [hdelay2]
      rfl
    have hj : 5 ≤ j := by
      have h4 := hends.lead
      have hphi := hends.phi2
      rw [hturbo] at h4 hphi
      have h1 : j % 4 = 1 := by simpa [phi2On] using hphi
      have h4' : 4 ≤ j := h4
      omega
    exact ⟨5, j, hends, served_late h0 hst hc hrest hin.vram hturbo hearly
      (fun i hi => hends.low hf hi) (by omega), .inr ⟨rfl, hturbo, hdelay2⟩, hj, hjn⟩

omit hst hrest hin in
/-- Neither the open bus nor a foreign acknowledge releases a cycle in time. -/
theorem released_of_served (hends : Ends r.turbo r.start.board.machine r.cpuIn a j)
    (hserved : Served r a e (j + tail r.turbo)) (he : r.TakenAt a e) (hej : e ≤ j) :
    r.Released a (a + j + tail r.turbo) := by
  have hf := falls_of_rises h0 hc.falls
  have hdelay := delay_cases (r.request a)
  intro t h1 h2 hl
  obtain ⟨k, rfl⟩ := Nat.exists_eq_add_of_le h1
  obtain ⟨hphi, hlead⟩ := phi2On_of_leaves hf (hends.low hf (by omega)) hl
  have hek : e ≤ k ∧ (e = 5 → k = 5 ∨ 9 ≤ k) := by
    rcases he with rfl | ⟨rfl, hturbo, -⟩
    · exact ⟨k.zero_le, fun h => absurd h (by decide)⟩
    · rw [hturbo] at hphi hlead
      have h4 : 4 ≤ k := hlead
      have hmod : k % 4 = 1 := by simpa [phi2On] using hphi
      exact ⟨by omega, fun _ => by omega⟩
  obtain ⟨i, rfl⟩ := Nat.exists_eq_add_of_le hek.1
  rw [← Nat.add_assoc]
  have hline := hserved.line i (by omega)
  have htime := hserved.timeout i (by omega)
  constructor
  · rw [openBus_eq, hline.ack, htime]
    by_cases hlt : (r.request a).delay < i
    · rw [decide_eq_true hlt]
      simp
    · have hfour : ¬ 4 ≤ min e 3 + min i ((r.request a).delay + 1) := by
        rcases he with rfl | ⟨rfl, -, hd⟩ <;> omega
      rw [decide_eq_false hfour, Bool.and_false]
  · intro hack
    rw [hline.ack, decide_eq_true_eq] at hack
    refine ⟨a + e, by omega, by omega, ?_, hserved.key⟩
    have hours := hserved.ours
    have hrest' := hserved.rest
    unfold Bus.ours at hours
    rw [Card.takes, hours, hrest'.ack, hrest'.ackDelay]
    rfl

omit hrest hin in
/-- A cycle in time latches what is at its address. -/
theorem latches_of_served (hends : Ends r.turbo r.start.board.machine r.cpuIn a j)
    (hserved : Served r a e (j + tail r.turbo)) (he : r.TakenAt a e) (hej : e ≤ j)
    (hj : j ≤ 9) : r.Latches a (a + j + tail r.turbo) := by
  have hf := falls_of_rises h0 hc.falls
  have hdelay := delay_cases (r.request a)
  have hlead := hends.lead
  intro hrw hfc
  have htail := tail_of_takenAt hends he hej
  have hlow := hends.low (k := j + tail r.turbo) hf le_rfl
  have hasked : r.Asked a (j + tail r.turbo) := fun i hi => hends.low hf hi
  have hours : (r.bus (a + (j + tail r.turbo))).ours = true := by
    rw [ours_of_asked h0 hst hasked]
    exact hc.ours
  have hline := hserved.line (j + tail r.turbo - e) (by omega)
  rw [show a + e + (j + tail r.turbo - e) = a + (j + tail r.turbo) by omega] at hline
  have hack : (r.card (a + (j + tail r.turbo))).ack = true := by
    rw [hline.ack]
    exact decide_eq_true (by omega)
  have hkernel : (r.mach (a + (j + tail r.turbo))).cpu.kernel = (r.mach a).cpu.kernel := hlow.kernel
  have hfixup : (r.mach (a + (j + tail r.turbo))).fixupTake = false := by
    obtain ⟨a', rfl, has'⟩ := exists_before h0 hc.falls
    refine (noFixup_of_lt has' ?_).1
    unfold tail
    split_ifs <;> omega
  have hhold : (r.mach (a + (j + tail r.turbo))).fpuDataHoldValid = false := by
    have hbefore : (r.bus (a + (j + tail r.turbo - 1))).ours = true := by
      rw [ours_of_asked h0 hst fun i hi => hends.low hf (by omega)]
      exact hc.ours
    have := hold_of_ours hbefore
    rwa [show a + (j + tail r.turbo - 1) + 1 = a + (j + tail r.turbo) by omega] at this
  have hdin := (hends.pulse hf hc.falls).2.2
  have hz : a + j + tail r.turbo = a + (j + tail r.turbo) := Nat.add_assoc _ _ _
  rw [hz] at hdin ⊢
  refine Eq.trans hdin ?_
  change (r.mach (a + (j + tail r.turbo))).cpu.tg68Din
    ((r.mach (a + (j + tail r.turbo))).wires r.turbo (r.cpuIn (a + (j + tail r.turbo)))) = _
  rw [Wrapper.tg68Din, hkernel, if_neg fun h => hfc h.1]
  refine Eq.trans (data_of_ack hours hack hfixup hhold) ?_
  refine hline.dataOut hrw ?_ _
  split_ifs <;> omega

end Timely

end Trace

end Nubus
