import LBMacTwo.Nubus.Cycle

/-!
# Runs of the video card

* `Standing`: between the cycles the card is at rest, or acknowledges one that is over;
* `exactlyOnce`: in a run of cycles in time each has its effect once, latches its own value and is
  released by no one else's acknowledge;
* `open_bus_read`: a read of the VRAM is released by the open bus.
-/

namespace Nubus
open Cpu Clocked Wire

namespace Trace

variable {r : Trace} {a e j k n t z : ℕ}

/-! ### The card between the cycles -/

/-- The card acknowledges a request that it has finished. -/
structure Acked (c : Card) : Prop extends c.Idle where
  ack : c.ack = true
  ackDelay : c.ackDelay = 0
  pending : c.romReadPending = false

theorem acked_of_line {rom : ℕ → Word} {monitor512 : Bool} {x : Regs} {q : Key} {c : Card}
    (h : Line rom monitor512 x q k c) (hk : q.delay < k) : Acked c := by
  refine ⟨h.idle, ?_, ?_, ?_⟩
  · rw [h.ack, decide_eq_true hk]
  · rw [h.ackDelay, if_neg (by omega)]
    omega
  · rw [h.pending]
    rcases delay_cases q with ⟨-, hd⟩ | ⟨hrom, -⟩
    · rw [beq_false_of_ne (by omega : k ≠ 1), beq_false_of_ne (by omega : k ≠ 2)]
      simp
    · rw [hrom, Bool.false_and]

/-- While AS is high the card comes to rest and keeps its registers. -/
theorem rest_of_high (h : (r.card t).Rest ∨ Acked (r.card t)) (has : r.low t = false) :
    (r.card (t + 1)).Rest ∧ (r.card (t + 1)).regs = (r.card t).regs ∧
      (r.card (t + 1)).irqClear = false := by
  rw [← bus_as] at has
  rw [card_succ]
  rcases h with h | h
  · rw [step_rest h (by rw [Bus.ours, has]; rfl)]
    exact ⟨⟨⟨h.state, h.vramRd, h.vramWr⟩, h.ack, h.ackDelay, h.pending⟩, rfl, rfl⟩
  · rw [step_release h.toIdle h.ack h.ackDelay h.pending has]
    exact ⟨⟨⟨h.state, h.vramRd, h.vramWr⟩, rfl, h.ackDelay, h.pending⟩, rfl, rfl⟩

/-- A card at rest that is not addressed stays so. -/
theorem rest_of_not_ours (h : (r.card t).Rest) (hours : (r.bus t).ours = false) :
    (r.card (t + 1)).Rest := by
  rw [card_succ, step_rest h hours]
  exact ⟨⟨h.state, h.vramRd, h.vramWr⟩, h.ack, h.ackDelay, h.pending⟩

/-- Where the card stands in clock `t`: before the cycles it is at rest. -/
structure Standing (r : Trace) (t : ℕ) : Prop where
  high : r.low t = false → (r.card t).Rest ∨ Acked (r.card t)
  low : r.low t = true → ∃ a ≤ t, Rises r.low a ∧ Up r.low a t ∧ (r.card a).Rest ∧
    ((r.bus a).ours = false → (r.card t).Rest)

section Runs

variable (h0 : Reset r.start.board.machine) (hst : r.Steady)
  (hin : ∀ a, r.CardCycle a → r.InTime a)
include h0 hst

omit hst in
theorem asked_of_up (hr : Rises r.low a) (hup : Up r.low a (a + k)) : r.Asked a k := fun _ hi =>
  low_of_up (falls_of_rises h0 hr) hr (hup.mono le_rfl (by omega))

theorem ours_of_up (hr : Rises r.low a) (hup : Up r.low a t) (hat : a ≤ t) :
    (r.bus t).ours = (r.bus a).ours := by
  obtain ⟨k, rfl⟩ := Nat.exists_eq_add_of_le hat
  exact ours_of_asked h0 hst (asked_of_up h0 hr hup)

include hin

/-- Where AS rises the card has finished the cycle. -/
theorem high_of_end (hr : Rises r.low a) (hup : Up r.low a t) (hat : a ≤ t)
    (hrest : (r.card a).Rest) (hother : (r.bus a).ours = false → (r.card t).Rest)
    (hfall : r.low (t + 1) = false) : (r.card (t + 1)).Rest ∨ Acked (r.card (t + 1)) := by
  cases hours : (r.bus a).ours with
  | false => exact .inl (rest_of_not_ours (hother hours) (by rw [ours_of_up h0 hst hr hup hat, hours]))
  | true =>
    have hc : r.CardCycle a := ⟨hr, hours⟩
    obtain ⟨e, j, hends, hserved, he, hej, -⟩ := exists_served h0 hst hc hrest (hin a hc)
    obtain ⟨hpulse, -⟩ := hends.pulse (falls_of_rises h0 hr) hr
    have htail := tail_of_takenAt hends he hej
    have hdelay := delay_cases (r.request a)
    have hz : t = a + j + tail r.turbo := by
      rcases Nat.lt_trichotomy t (a + j + tail r.turbo) with hlt | heq | hgt
      · have := hpulse.up (t + 1) (by omega) (by omega)
        rw [show asAt r.turbo r.start.board.machine r.cpuIn (t + 1) = false from hfall] at this
        cases this
      · exact heq
      · have hlow := hup (a + j + tail r.turbo + 1) (by omega) (by omega)
        rw [show r.low (a + j + tail r.turbo + 1) = false from hpulse.falls] at hlow
        cases hlow
    have hline := hserved.line (j + tail r.turbo + 1 - e) (by omega)
    rw [show a + e + (j + tail r.turbo + 1 - e) = t + 1 by omega] at hline
    exact .inr (acked_of_line hline (by omega))

theorem standing_run (hrest : r.start.card.Rest) (t : ℕ) : Standing r t := by
  induction t with
  | zero =>
    refine ⟨fun _ => .inl hrest, fun has => ?_⟩
    change r.start.board.machine.cpu.asR = true at has
    rw [h0.as] at has
    cases has
  | succ t ih =>
    cases has : r.low t with
    | false =>
      have hnext := (rest_of_high (ih.high has) has).1
      refine ⟨fun _ => .inl hnext, fun hlow => ⟨t + 1, le_rfl, ⟨hlow, fun x hx => ?_⟩,
        fun x h1 h2 => ?_, hnext, fun _ => hnext⟩⟩
      · rwa [show x = t by omega]
      · rwa [show x = t + 1 by omega]
    | true =>
      obtain ⟨a, hat, hr, hup, hresta, hother⟩ := ih.low has
      refine ⟨fun hfall => high_of_end h0 hst hin hr hup hat hresta hother hfall, fun hlow =>
        ⟨a, by omega, hr, hup.snoc hlow, hresta, fun hours => ?_⟩⟩
      exact rest_of_not_ours (hother hours) (by rw [ours_of_up h0 hst hr hup hat, hours])

variable (hrest : r.start.card.Rest)
include hrest

/-- Every cycle meets the card at rest. -/
theorem rest_of_rises (hr : Rises r.low a) : (r.card a).Rest := by
  obtain ⟨b, hba, hrb, hup, hrestb, -⟩ := (standing_run h0 hst hin hrest a).low hr.1
  have ha : Up r.low a a := fun x h1 h2 => by
    rw [show x = a by omega]
    exact hr.1
  rwa [rises_unique hr hrb ha hup le_rfl hba]

omit h0 hst hin hrest in
/-- AS stays high until the next cycle. -/
theorem high_of_until (hz : r.low (z + 1) = false) (haz : a ≤ z) (hzt : z + 1 ≤ t)
    (hu : r.Until a t) : r.low t = false := by
  induction t, hzt using Nat.le_induction with
  | base => exact hz
  | succ t hzt ih =>
    have ht := ih fun b h1 h2 => hu b h1 (by omega)
    by_contra hlow
    rw [Bool.not_eq_false] at hlow
    refine hu (t + 1) (by omega) le_rfl ⟨hlow, fun x hx => ?_⟩
    rwa [show x = t by omega]

/-- Nothing happens after the cycle. -/
theorem quiet_of_until (hz : r.low (z + 1) = false) (haz : a ≤ z) (hzt : z + 1 ≤ t)
    (hu : r.Until a t) : (r.card t).Idle ∧ (r.card t).regs = (r.card (z + 1)).regs ∧
      (z + 1 < t → (r.card t).irqClear = false) := by
  have hidle : ∀ x, r.low x = false → (r.card x).Idle := fun x hx => by
    rcases (standing_run h0 hst hin hrest x).high hx with h | h
    · exact h.toIdle
    · exact h.toIdle
  refine ⟨hidle t (high_of_until hz haz hzt hu), ?_⟩
  induction t, hzt using Nat.le_induction with
  | base => exact ⟨rfl, fun h => absurd h (by omega)⟩
  | succ t hzt ih =>
    have hu' : r.Until a t := fun b h1 h2 => hu b h1 (by omega)
    have hhigh := high_of_until hz haz hzt hu'
    obtain ⟨-, hregs, hclear⟩ :=
      rest_of_high ((standing_run h0 hst hin hrest t).high hhigh) hhigh
    exact ⟨hregs.trans (ih hu').1, fun _ => hclear⟩

omit h0 hst hin hrest in
theorem mem_succ (h : (r.card t).Idle) : r.mem (t + 1) = r.mem t := by
  change (if (r.card t).vramWr then _ else r.mem t) = r.mem t
  rw [h.vramWr]
  rfl

/-- The effect of a cycle in time. -/
theorem effect_of_served (hc : r.CardCycle a)
    (hends : Ends r.turbo r.start.board.machine r.cpuIn a j)
    (hserved : Served r a e (j + tail r.turbo)) (he : r.TakenAt a e) (hej : e ≤ j) :
    r.Effect a (a + e) := by
  have hf := falls_of_rises h0 hc.falls
  have htail := tail_of_takenAt hends he hej
  obtain ⟨hpulse, -⟩ := hends.pulse hf hc.falls
  have hz : r.low (a + j + tail r.turbo + 1) = false := hpulse.falls
  -- the clocks up to the one after the cycle
  have hwithin : ∀ k ≤ j + tail r.turbo + 1, (r.card (a + k)).Idle ∧
      (r.card (a + k)).regs = (if a + k ≤ a + e then (r.card a).regs
        else (r.card a).regs.after (r.request a)) ∧
      (k ≠ 0 → (r.card (a + k)).irqClear =
        (a + k == a + e + 1 && (r.request a).clearsIrq)) := fun k hk => by
    rcases Nat.lt_or_ge e k with hlt | hge
    · obtain ⟨i, rfl⟩ := Nat.exists_eq_add_of_lt hlt
      have hline := hserved.line (i + 1) (by omega)
      rw [show a + e + (i + 1) = a + (e + i + 1) by omega] at hline
      refine ⟨hline.idle, ?_, fun _ => ?_⟩
      · rw [if_neg (by omega), hline.regs, if_neg (by omega)]
      · rw [hline.irqClear (by omega)]
        congr 1
        rw [Bool.eq_iff_iff, beq_iff_eq, beq_iff_eq]
        omega
    · obtain ⟨hidle, hregs, hclear⟩ := hserved.before k hge
      refine ⟨hidle, by rw [if_pos (by omega), hregs], fun hk0 => ?_⟩
      rw [hclear hk0, beq_false_of_ne (by omega), Bool.false_and]
  have hall : ∀ t, a ≤ t → r.Until a t → (r.card t).Idle ∧
      (r.card t).regs = (if t ≤ a + e then (r.card a).regs
        else (r.card a).regs.after (r.request a)) ∧
      (a < t → (r.card t).irqClear = (t == a + e + 1 && (r.request a).clearsIrq)) := by
    intro t hat hu
    obtain ⟨k, rfl⟩ := Nat.exists_eq_add_of_le hat
    rcases Nat.lt_or_ge (j + tail r.turbo + 1) k with hlt | hge
    · obtain ⟨hidle, hregs, hclear⟩ :=
        quiet_of_until h0 hst hin hrest hz (by omega) (by omega) hu
      obtain ⟨-, hlast, -⟩ := hwithin (j + tail r.turbo + 1) le_rfl
      rw [show a + (j + tail r.turbo + 1) = a + j + tail r.turbo + 1 by omega, if_neg (by omega)]
        at hlast
      refine ⟨hidle, by rw [if_neg (by omega), hregs, hlast], fun _ => ?_⟩
      rw [hclear (by omega), beq_false_of_ne (by omega), Bool.false_and]
    · obtain ⟨hidle, hregs, hclear⟩ := hwithin k hge
      exact ⟨hidle, hregs, fun h => hclear (by omega)⟩
  refine ⟨by omega, fun b hb hab => ?_, fun t hat hu => (hall t hat hu).2.1, fun t hat hu => ?_,
    fun t hat hu => (hall t hat.le hu).2.2 hat⟩
  · by_contra hle
    exact hpulse.up.not_rises hab (by omega) hb
  · have hmem : r.mem t = r.mem a := by
      induction t, hat using Nat.le_induction with
      | base => rfl
      | succ t hat ih =>
        have hu' : r.Until a t := fun b h1 h2 => hu b h1 (by omega)
        rw [mem_succ (hall t hat hu').1, ih hu']
    rw [hmem, memAfter, (hin a hc).vram, Bool.and_false, if_neg Bool.false_ne_true]
    split_ifs <;> rfl

/-- In a run whose card cycles are all in time, each of them is served exactly once. -/
theorem exactlyOnce : ∀ a, r.CardCycle a → r.ExactlyOnce a := by
  intro a hc
  have hresta := rest_of_rises h0 hst hin hrest hc.falls
  obtain ⟨e, j, hends, hserved, he, hej, hj⟩ := exists_served h0 hst hc hresta (hin a hc)
  obtain ⟨hpulse, -⟩ := hends.pulse (falls_of_rises h0 hc.falls) hc.falls
  exact ⟨⟨a + e, effect_of_served h0 hst hin hrest hc hends hserved he hej⟩, a + j + tail r.turbo,
    hpulse, released_of_served h0 hc hends hserved he hej,
    latches_of_served h0 hst hc hends hserved he hej hj⟩

end Runs

end Trace

/-! ### Runs that repeat one cycle -/

/-- The card after its reset. -/
def freshCard : Card where
  regs :=
    { ctrl := 0, base := 0, stride := 0, ramdacCtrl := 0, paletteAddr := 0, palWr := 0, palCnt := 0
      vblankEnable := false, beamToggle := false, clut := fun b => (b ++ b) ++ b }
  irqClear := false
  irqActive := false
  state := .idle
  vramRd := false
  vramWr := false
  vramAddr := 0
  vramDout := 0
  write := ⟨0, 0, false, false, true⟩
  merged := 0
  ack := false
  ackDelay := 0
  romReadPending := false
  romWord := 0
  key := ⟨0, 0, false, false, true⟩
  dataOut := 0

theorem rest_freshCard : freshCard.Rest := ⟨⟨rfl, rfl, rfl⟩, rfl, rfl, rfl⟩

/-- The same cycle over and over. -/
def repeated (turbo : Bool) (k : Kernel) : Trace where
  turbo := turbo
  rom := fun _ => 0
  monitor512 := false
  start := ⟨⟨resetState 0, 0⟩, freshCard, ⟨fun _ => 0, 0, false⟩⟩
  input := fun _ => ⟨{ quietIn with kernelNext := k }, false⟩

section Repeated

variable {turbo : Bool} {k : Kernel} {a : ℕ}

theorem steady_repeated : (repeated turbo k).Steady := fun _ _ _ => rfl

theorem kernel_repeated (t : ℕ) : ((repeated turbo k).mach t).cpu.kernel.idle = true ∨
    ((repeated turbo k).mach t).cpu.kernel = k := by
  induction t with
  | zero => exact .inl rfl
  | succ t ih =>
    change (if _ then k else ((repeated turbo k).mach t).cpu.kernel).idle = true ∨
      (if _ then k else ((repeated turbo k).mach t).cpu.kernel) = k
    split_ifs
    · exact .inr rfl
    · exact ih

/-- A card cycle of such a run has the address of the cycle. -/
theorem request_repeated (h : (repeated turbo k).CardCycle a) (hfc : k.fc ≠ 7) :
    ((repeated turbo k).request a).addr = k.addr ∧ ((repeated turbo k).request a).rw = k.rw := by
  have hf := falls_of_rises (reset_resetState 0) h.falls
  have hbusy : ((repeated turbo k).mach a).cpu.kernel.idle = false := hf.busy
  have hkernel : ((repeated turbo k).mach a).cpu.kernel = k :=
    (kernel_repeated a).resolve_left (by rw [hbusy]; decide)
  have haddr : ((repeated turbo k).mach a).cpu.addr = ((repeated turbo k).mach a).cpu.kernel.addr :=
    (lines_run _ (reset_resetState 0) (repeated turbo k).cpuIn a).addr (by rw [hf.sState]; decide)
  refine ⟨?_, congrArg Kernel.rw hkernel⟩
  change ((repeated turbo k).mach a).cpuAddr _ = _
  rw [Machine.cpuAddr, hkernel, if_neg hfc, haddr, hkernel]
  rfl

end Repeated

/-- Bytes for the palette, with turbo off. -/
def paletteWrites : Trace := repeated false (writeAt 0xFE200206 0x55)

theorem inTime_paletteWrites : ∀ a, paletteWrites.CardCycle a → paletteWrites.InTime a :=
  fun a h => ⟨by
    have haddr : (paletteWrites.request a).addr = 0xFE200206 :=
      (request_repeated h (by decide)).1
    rw [haddr]
    decide, .inr rfl⟩

theorem cardCycle_paletteWrites : paletteWrites.CardCycle 8 :=
  ⟨⟨by decide +kernel, fun t ht => by
    obtain rfl : t = 7 := by omega
    decide +kernel⟩, by decide +kernel⟩

theorem exactlyOnce_paletteWrites : paletteWrites.CardCycle 8 ∧ paletteWrites.ExactlyOnce 8 :=
  ⟨cardCycle_paletteWrites, Trace.exactlyOnce (reset_resetState 0) steady_repeated
    inTime_paletteWrites rest_freshCard 8 cardCycle_paletteWrites⟩

/-- Reads of the first word of VRAM, with turbo on. -/
def vramReads : Trace := repeated true (readAt 0xFE000000)

/-- The open bus answers for the card, which has not read its VRAM yet. -/
theorem open_bus_read : vramReads.start.card.Rest ∧ vramReads.Steady ∧ vramReads.CardCycle 3 ∧
    ¬ vramReads.ExactlyOnce 3 := by
  have hc : vramReads.CardCycle 3 :=
    ⟨⟨by decide +kernel, fun t ht => by
      obtain rfl : t = 2 := by omega
      decide +kernel⟩, by decide +kernel⟩
  refine ⟨rest_freshCard, steady_repeated, hc, fun h => ?_⟩
  obtain ⟨z, hpulse, hreleased, -⟩ := h.cycle
  have hup : ∀ t < 8, 3 ≤ t → vramReads.low t = true := by decide +kernel
  have hz : 7 ≤ z := by
    by_contra hlt
    have hfalls := hpulse.falls
    rw [hup (z + 1) (by omega) (by have := hpulse.le; omega)] at hfalls
    cases hfalls
  have hopen := (hreleased 7 (by decide) hz (by decide +kernel)).1
  exact absurd hopen (by decide +kernel)

end Nubus
