import LBMacTwo.Scsi.Interrupt

/-!
# Deferred REQ

When the bus-visible REQ rises it is hidden from the CSR until a CSR read has ended.

* `reqLine`, `csrReads`: the bus-visible REQ and the CSR reads along a run;
* `reqShown`: the REQ bit a CSR read shows in a clock;
* `ReqDeferred`: every REQ is hidden until a read that sampled 0 has ended, and shown from then on;
* `SeenEarly`: a read in progress when REQ rises is sampled in that very clock, or has sampled the
  REQ before;
* `reqDeferred_iff`: the hiding works exactly if no read sees REQ early.
-/

namespace Scsi
open Clocked Wire

/-- The bus-visible REQ. -/
def reqLine (P : Params) (u : ℕ → Sys × Host) (t : ℕ) : Bool := (chipAt P .init u t).scsiReqBus

/-- The reads of the CSR. -/
def csrReads (u : ℕ → Sys × Host) (t : ℕ) : Bool := (u t).2.csrRd

/-- The REQ bit of the CSR. -/
def reqShown (P : Params) (u : ℕ → Sys × Host) (t : ℕ) : Bool := (chipAt P .init u t).csrReq

variable {P : Params} {u : ℕ → Sys × Host} {a a' b e t z : ℕ}

/-- After every rise of REQ the CSR shows it only if a read that sampled 0 has ended since, and once
one has, the CSR shows it as long as it stays. -/
structure ReqDeferred (P : Params) (u : ℕ → Sys × Host) (r : Sampling (csrReads u)) : Prop where
  hidden : ∀ e a, Rises (reqLine P u) e → Rises (csrReads u) a → e ≤ r.sample a →
    reqShown P u (r.sample a) = true → ∃ a' z, Pulse (csrReads u) a' z ∧ e ≤ z ∧ z < r.sample a ∧
      reqShown P u (r.sample a') = false
  shown : ∀ e a' z a, Rises (reqLine P u) e → Pulse (csrReads u) a' z → e ≤ z →
    reqShown P u (r.sample a') = false → Rises (csrReads u) a → z < a →
    Up (reqLine P u) e (r.sample a) → reqShown P u (r.sample a) = true

/-- The read that began in clock `a` is in progress when REQ rises in clock `e` and is sampled in
that clock; or it was sampled before, with the REQ then up in view, and the next read but for this
one finds the new REQ still up. -/
def SeenEarly (P : Params) (u : ℕ → Sys × Host) (r : Sampling (csrReads u)) (e a : ℕ) : Prop :=
  r.sample a = e ∨
    (r.sample a < e ∧ reqLine P u (r.sample a) = true ∧
      (chipAt P .init u (r.sample a)).ncr.reqDeferred = false ∧
      ∃ b, Rises (csrReads u) b ∧ e < b ∧ Up (reqLine P u) e (r.sample b))

/-! ### One clock -/

theorem reqShown_eq (t : ℕ) : reqShown P u t =
    (reqLine P u t && !(chipAt P .init u t).ncr.reqDeferred) := rfl

theorem reqDeferred_of_low (h : reqLine P u t = false) :
    (chipAt P .init u (t + 1)).ncr.reqDeferred = false := by
  change reqDeferredNext (chipAt P .init u t) (u t).2 = false
  rw [reqDeferredNext, show (chipAt P .init u t).scsiReqBus = false from h]
  rfl

/-- In the clock in which REQ rises it is not yet hidden. -/
theorem reqDeferred_rise (h : Rises (reqLine P u) e) :
    (chipAt P .init u e).ncr.reqDeferred = false := by
  cases e with
  | zero => rfl
  | succ e => exact reqDeferred_of_low (h.2 e rfl)

/-- One clock later it is. -/
theorem reqDeferred_rise_succ (h : Rises (reqLine P u) e) :
    (chipAt P .init u (e + 1)).ncr.reqDeferred = true := by
  have hold : (chipAt P .init u e).ncr.oldReqBusD = false := by
    cases e with
    | zero => rfl
    | succ e => exact h.2 e rfl
  change reqDeferredNext (chipAt P .init u e) (u e).2 = true
  rw [reqDeferredNext, show (chipAt P .init u e).scsiReqBus = true from h.1, hold]
  rfl

/-- While REQ stays up only the end of a CSR read changes the flag. -/
theorem reqDeferred_succ (h : reqLine P u t = true) (h' : reqLine P u (t + 1) = true) :
    (chipAt P .init u (t + 2)).ncr.reqDeferred =
      ((chipAt P .init u (t + 1)).ncr.reqDeferred && !(csrReads u t && !csrReads u (t + 1))) := by
  have hold : (chipAt P .init u (t + 1)).ncr.oldReqBusD = true := h
  have hrd : (chipAt P .init u (t + 1)).ncr.oldCsrRdD = csrReads u t := rfl
  change reqDeferredNext (chipAt P .init u (t + 1)) (u (t + 1)).2 = _
  rw [reqDeferredNext, show (chipAt P .init u (t + 1)).scsiReqBus = true from h', hold, hrd]
  change (if _ then _ else if _ then _ else
    if (chipAt P .init u (t + 1)).ncr.reqDeferred && csrReads u t && !csrReads u (t + 1) then false
    else (chipAt P .init u (t + 1)).ncr.reqDeferred) = _
  cases (chipAt P .init u (t + 1)).ncr.reqDeferred <;> cases csrReads u t <;>
    cases csrReads u (t + 1) <;> rfl

/-! ### From the rise on -/

/-- A hidden REQ stays hidden until a read ends. -/
theorem deferred_until (he : Rises (reqLine P u) e) (hup : Up (reqLine P u) e t) (het : e < t)
    (hread : ∀ z, e ≤ z → z + 1 < t → ¬ (csrReads u z = true ∧ csrReads u (z + 1) = false)) :
    (chipAt P .init u t).ncr.reqDeferred = true := by
  induction t, het using Nat.le_induction with
  | base => exact reqDeferred_rise_succ he
  | succ t het ih =>
    have hprev := ih (hup.mono le_rfl (by omega)) fun z hz hzt => hread z hz (by omega)
    obtain ⟨s, rfl⟩ : ∃ s, t = s + 1 := ⟨t - 1, by omega⟩
    have hs := hread s (by omega) (by omega)
    rw [reqDeferred_succ (hup s (by omega) (by omega)) (hup (s + 1) (by omega) (by omega)), hprev]
    cases h0 : csrReads u s with
    | false => rfl
    | true =>
      cases h1 : csrReads u (s + 1) with
      | false => exact absurd ⟨h0, h1⟩ hs
      | true => rfl

/-- The end of a read reveals REQ for as long as it stays up. -/
theorem revealed (hup : Up (reqLine P u) e t) (hez : e ≤ z) (hz : csrReads u z = true)
    (hz' : csrReads u (z + 1) = false) (hzt : z + 1 < t) :
    (chipAt P .init u t).ncr.reqDeferred = false := by
  induction t, hzt using Nat.le_induction with
  | base =>
    rw [reqDeferred_succ (hup z hez (by omega)) (hup (z + 1) (by omega) (by omega)), hz, hz',
      Bool.not_false, Bool.and_true, Bool.not_true, Bool.and_false]
  | succ t hzt ih =>
    have hprev := ih (hup.mono le_rfl (by omega))
    obtain ⟨s, rfl⟩ : ∃ s, t = s + 1 := ⟨t - 1, by omega⟩
    rw [reqDeferred_succ (hup s (by omega) (by omega)) (hup (s + 1) (by omega) (by omega)), hprev,
      Bool.false_and]

/-- A sample that shows REQ was taken in the clock of its rise, or after a read that ended since. -/
theorem exists_end (he : Rises (reqLine P u) e) (hup : Up (reqLine P u) e t) (het : e < t)
    (h : (chipAt P .init u t).ncr.reqDeferred = false) :
    ∃ z, e ≤ z ∧ z + 1 < t ∧ csrReads u z = true ∧ csrReads u (z + 1) = false ∧
      ∀ s, e < s → s ≤ z + 1 → (chipAt P .init u s).ncr.reqDeferred = true := by
  classical
  have hex : ∃ z, e ≤ z ∧ z + 1 < t ∧ csrReads u z = true ∧ csrReads u (z + 1) = false := by
    by_contra hno
    rw [deferred_until he hup het fun z hz hzt hfall => hno ⟨z, hz, hzt, hfall.1, hfall.2⟩] at h
    cases h
  obtain ⟨hez, hzt, hz, hz'⟩ := Nat.find_spec hex
  refine ⟨Nat.find hex, hez, hzt, hz, hz', fun s hes hs => ?_⟩
  refine deferred_until he (hup.mono le_rfl (by omega)) hes fun y hy hys hfall => ?_
  exact Nat.find_min hex (show y < Nat.find hex by omega) ⟨hy, by omega, hfall.1, hfall.2⟩

/-! ### Samples -/

variable {r : Sampling (csrReads u)}

theorem reqShown_of_deferred (h : (chipAt P .init u t).ncr.reqDeferred = true) :
    reqShown P u t = false := by
  rw [reqShown_eq, h, Bool.not_true, Bool.and_false]

/-- A read that is in progress when REQ rises, and has not seen it early, sampled 0. -/
theorem reqShown_of_not_seenEarly (hz : Pulse (csrReads u) a' z)
    (hb : Rises (csrReads u) b) (heb : e < b) (hup : Up (reqLine P u) e (r.sample b))
    (hdef : ∀ s, e < s → s ≤ z + 1 → (chipAt P .init u s).ncr.reqDeferred = true)
    (h : a' ≤ e → ¬ SeenEarly P u r e a') : reqShown P u (r.sample a') = false := by
  have hle := hz.sample_le r
  have hge := r.le a' hz.rises
  rcases Nat.lt_trichotomy (r.sample a') e with hlt | heq | hgt
  · by_contra hshown
    rw [Bool.not_eq_false, reqShown_eq, Bool.and_eq_true, Bool.not_eq_true'] at hshown
    exact h (by omega) (.inr ⟨hlt, hshown.1, hshown.2, b, hb, heb, hup⟩)
  · exact absurd (.inl heq) (h (by omega))
  · exact reqShown_of_deferred (hdef _ hgt (by omega))

/-- If no read sees REQ early, a REQ is hidden until a read that sampled 0 has ended. -/
theorem hidden_of_not_seenEarly
    (h : ∀ e a, Rises (reqLine P u) e → Rises (csrReads u) a → a ≤ e → Up (csrReads u) a e →
      ¬ SeenEarly P u r e a)
    (he : Rises (reqLine P u) e) (ha : Rises (csrReads u) a) (hes : e ≤ r.sample a)
    (hshown : reqShown P u (r.sample a) = true) : ∃ a' z, Pulse (csrReads u) a' z ∧ e ≤ z ∧
      z < r.sample a ∧ reqShown P u (r.sample a') = false := by
  rw [reqShown_eq, Bool.and_eq_true, Bool.not_eq_true'] at hshown
  obtain ⟨hreq, hdef⟩ := hshown
  -- the last rise before the sample
  obtain ⟨e₀, he₀s, he₀, hup⟩ := exists_rise hreq
  have hee₀ : e ≤ e₀ := by
    by_contra hlt
    exact hup.not_rises (by omega) hes he
  have hne : r.sample a ≠ e₀ := by
    intro heq
    have hge := r.le a ha
    exact h e₀ a he₀ ha (by omega) ((r.up a ha).mono le_rfl (by omega)) (.inl heq)
  obtain ⟨z, hez, hzs, hz, hfall, hdefs⟩ := exists_end he₀ hup (by omega) hdef
  obtain ⟨a', haz, ha', hup'⟩ := exists_rise hz
  have hpulse : Pulse (csrReads u) a' z := ⟨ha', haz, hup', hfall⟩
  have hza := hpulse.lt_of_lt_sample r ha (by omega)
  refine ⟨a', z, hpulse, by omega, by omega, ?_⟩
  exact reqShown_of_not_seenEarly hpulse ha (by omega) hup hdefs fun hle =>
    h e₀ a' he₀ ha' hle (hup'.mono le_rfl hez)

/-- If REQ is hidden until a read that sampled 0 has ended, no read samples it and lives to see the
next rise while another one follows. -/
theorem not_seenEarly_of_hidden (h : ReqDeferred P u r) (he : Rises (reqLine P u) e)
    (ha : Rises (csrReads u) a) (hae : a ≤ e) (hup : Up (csrReads u) a e) :
    ¬ SeenEarly P u r e a := by
  rintro (heq | ⟨-, hreq, hdef, hex⟩)
  · -- the sample of the clock in which REQ rises shows it
    have hshown : reqShown P u (r.sample a) = true := by
      rw [heq, reqShown_eq, he.1, reqDeferred_rise he]
      rfl
    obtain ⟨a', z, -, hez, hzs, -⟩ := h.hidden e a he ha (by omega) hshown
    omega
  · classical
    obtain ⟨hb, heb, hupb⟩ := Nat.find_spec hex
    have hfirst := @Nat.find_min _ _ hex
    generalize Nat.find hex = b at hb heb hupb hfirst
    have hbs := r.le b hb
    -- the read ends before the next one begins, and reveals the new REQ
    obtain ⟨c, rfl⟩ : ∃ c, b = c + 1 := ⟨b - 1, by omega⟩
    have hec : e < c := by
      have hne : e ≠ c := by
        rintro rfl
        exact absurd (hup e hae le_rfl) (by rw [hb.2 e rfl]; exact Bool.false_ne_true)
      omega
    obtain ⟨z, hez, hzc, hpulse⟩ := exists_pulse ha hae hup hec (hb.2 c rfl)
    have hshown : reqShown P u (r.sample (c + 1)) = true := by
      rw [reqShown_eq, hupb _ (by omega) le_rfl,
        revealed hupb hez (hpulse.up z hpulse.le le_rfl) hpulse.falls (by omega)]
      rfl
    obtain ⟨a', z', hp', hez', hzs', hshown'⟩ := h.hidden e (c + 1) he hb (by omega) hshown
    have hle' := hp'.le
    have hbefore := hp'.lt_of_lt_sample r hb hzs'
    rcases Nat.lt_or_ge e a' with hea | hea
    · -- `c + 1` is the first read that begins after the rise
      have hsle := hp'.sample_le r
      exact hfirst (by omega) ⟨hp'.rises, hea, hupb.mono le_rfl (by omega)⟩
    · have hsame : a' = a := rises_unique hp'.rises ha (hp'.up.mono le_rfl hez') hup hea hae
      rw [hsame, reqShown_eq, hreq, hdef] at hshown'
      cases hshown'

/-- The hiding works exactly if no read that is in progress when REQ rises sees it early. -/
theorem reqDeferred_iff (r : Sampling (csrReads u)) :
    ReqDeferred P u r ↔ ∀ e a, Rises (reqLine P u) e → Rises (csrReads u) a → a ≤ e →
      Up (csrReads u) a e → ¬ SeenEarly P u r e a := by
  refine ⟨fun h e a he ha hae hup => not_seenEarly_of_hidden h he ha hae hup, fun h => ⟨?_, ?_⟩⟩
  · intro e a he ha hes hshown
    exact hidden_of_not_seenEarly h he ha hes hshown
  · intro e a' z a _ hp hez _ ha hza hup
    have hzs := hp.lt_rise ha hza
    have hge := r.le a ha
    rw [reqShown_eq, hup _ (by omega) le_rfl,
      revealed hup hez (hp.up z hp.le le_rfl) hp.falls (by omega)]
    rfl

/-- The target is selected in clock 2, during a CSR read of the clocks 1 to 3. -/
def readOnRise : ℕ → Sys × Host
  | 0 => (⟨.init, .idle⟩, ⟨false, 0, false, false, false, false, false, false, 0⟩)
  | 1 => (⟨.init, .idle⟩, ⟨true, rregCsr, true, false, false, false, false, false, 0⟩)
  | 2 | 3 => (⟨.selected, .idle⟩, ⟨true, rregCsr, true, false, false, false, false, false, 0⟩)
  | _ => (⟨.selected, .idle⟩, ⟨false, 0, false, false, false, false, false, false, 0⟩)

theorem readOnRise_rises {a : ℕ} (h : Rises (csrReads readOnRise) a) : a = 1 := by
  obtain ⟨ha, hprev⟩ := h
  match a with
  | 0 => cases ha
  | 1 => rfl
  | 2 => exact absurd (hprev 1 rfl) (by decide)
  | 3 => exact absurd (hprev 2 rfl) (by decide)
  | _ + 4 => cases ha

/-- The read is sampled in clock 2. -/
def sampleOnRise : Sampling (csrReads readOnRise) where
  sample _ := 2
  le a ha := by rw [readOnRise_rises ha]; decide
  up a ha t hat ht := by
    rw [readOnRise_rises ha] at hat
    interval_cases t <;> rfl

/-- A read sampled in the clock in which REQ rises shows it: the flag that hides it is set one clock
later. -/
theorem shown_on_rise : ¬ ReqDeferred .least readOnRise sampleOnRise := by
  intro h
  have he : Rises (reqLine .least readOnRise) 2 := by
    refine ⟨by decide +kernel, fun s hs => ?_⟩
    rw [show s = 1 by omega]
    decide +kernel
  have ha : Rises (csrReads readOnRise) 1 := by
    refine ⟨rfl, fun s hs => ?_⟩
    rw [show s = 0 by omega]
    rfl
  obtain ⟨a', z, -, hez, hzs, -⟩ := h.hidden 2 1 he ha le_rfl (by decide +kernel)
  exact absurd (Nat.lt_of_le_of_lt hez hzs) (lt_irrefl 2)

end Scsi
