import LBMacTwo.Cpu.PseudoDma
import LBMacTwo.Foundation.Wire

/-!
# The stages of a bus cycle

* `Lines`: the address, the direction and the strobes while AS is low;
* `asAt`: AS over the clocks of a run;
* `Waits`: a cycle `k` clocks after the fall of AS that has not left its wait state before;
* `Ends`: a cycle that leaves it, from there to the rise of AS;
* `Low`: what both say of a clock in which AS is low.
-/

namespace Cpu
open Memory Clocked Wire

/-! ### The lines of the bus -/

/-- What the wrapper drives while AS is low: a write's strobes fall with state 4. -/
structure Lines (w : Wrapper) : Prop where
  high : w.asR = false → w.udsR = false ∧ w.ldsR = false
  rw : w.asR = true → w.rwR = w.kernel.rw
  uds : w.asR = true → w.udsR = (w.kernel.uds && (w.kernel.rw || decide (4 ≤ w.sState)))
  lds : w.asR = true → w.ldsR = (w.kernel.lds && (w.kernel.rw || decide (4 ≤ w.sState)))
  addr : w.sState ≠ 0 → w.addr = w.kernel.addr

section Step

variable {turbo : Bool} {p : BitVec 2} {w : Wrapper} {i : Wires}

theorem kernel_of_not_phi1 (h1 : i.phi1 = false) : (w.step i).kernel = w.kernel := by
  simp [Wrapper.step, Wrapper.clkena, h1]

theorem kernel_of_ne_seven (hidle : w.kernel.idle = false) (h7 : w.sState ≠ 7) :
    (w.step i).kernel = w.kernel := by
  have h7' : (w.sState == 7) = false := beq_false_of_ne h7
  simp only [Wrapper.step, Wrapper.clkena, h7', hidle, Bool.or_self, Bool.and_false,
    Bool.false_eq_true, if_false]

theorem as_phi1 (h1 : i.phi1 = true) (hidle : w.kernel.idle = false) :
    (w.step i).asR = if w.sState = 1 then true else w.asR := by
  simp [Wrapper.step, Wrapper.asNext, h1, hidle]

theorem as_phi2 (h1 : i.phi1 = false) (h2 : i.phi2 = true) :
    (w.step i).asR = if w.sState = 6 then false else w.asR := by
  simp [Wrapper.step, Wrapper.asNext, h1, h2]

theorem strobe_phi1 (h1 : i.phi1 = true) (hidle : w.kernel.idle = false) (strobe now : Bool) :
    w.strobeNext i strobe now =
      if w.sState = 1 ∧ w.kernel.rw = true ∨ w.sState = 3 ∧ w.kernel.rw = false then strobe
      else now := by
  simp [Wrapper.strobeNext, h1, hidle]

theorem strobe_phi2 (h1 : i.phi1 = false) (h2 : i.phi2 = true) (strobe now : Bool) :
    w.strobeNext i strobe now = if w.sState = 6 then false else now := by
  simp [Wrapper.strobeNext, h1, h2]

theorem rw_phi1 (h1 : i.phi1 = true) (hidle : w.kernel.idle = false) (h7 : w.sState ≠ 7) :
    (w.step i).rwR = if w.sState = 1 then w.kernel.rw else w.rwR := by
  have hrw : (w.step i).rwR = w.rwNext i := rfl
  simp only [hrw, Wrapper.rwNext, h1, hidle, and_true, if_true, if_neg h7]

theorem rw_of_not_phi1 (h1 : i.phi1 = false) : (w.step i).rwR = w.rwR := by
  simp [Wrapper.step, Wrapper.rwNext, h1]

theorem Lines.step_none (h : Lines w) (h1 : i.phi1 = false) (h2 : i.phi2 = false) :
    Lines (w.step i) := by
  have hk := kernel_of_not_phi1 (w := w) h1
  have hs : (w.step i).sState = w.sState := by simp [Wrapper.step, Wrapper.sStateNext, h1, h2]
  have ha : (w.step i).asR = w.asR := by simp [Wrapper.step, Wrapper.asNext, h1, h2]
  have hu : (w.step i).udsR = w.udsR := by simp [Wrapper.step, Wrapper.strobeNext, h1, h2]
  have hl : (w.step i).ldsR = w.ldsR := by simp [Wrapper.step, Wrapper.strobeNext, h1, h2]
  refine ⟨?_, ?_, ?_, ?_, fun _ => ?_⟩
  · rw [ha, hu, hl]
    exact h.high
  · rw [ha, rw_of_not_phi1 h1, hk]
    exact h.rw
  · rw [ha, hu, hk, hs]
    exact h.uds
  · rw [ha, hl, hk, hs]
    exact h.lds
  · rw [hk]
    rfl

/-- One strobe over an edge of `phi1`. -/
theorem strobe_line_phi1 (hsh : Shape turbo p w) (h1 : i.phi1 = true)
    (hp : beforePhi2 turbo p = false) (hidle : w.kernel.idle = false) {strobe now : Bool}
    (hhigh : w.asR = false → now = false)
    (h : w.asR = true → now = (strobe && (w.kernel.rw || decide (4 ≤ w.sState)))) :
    ((w.step i).asR = false → w.strobeNext i strobe now = false) ∧
      ((w.step i).asR = true → w.strobeNext i strobe now =
        (strobe && (w.kernel.rw || decide (4 ≤ (w.step i).sState)))) := by
  rw [as_phi1 h1 hidle, strobe_phi1 h1 hidle, sState_phi1 h1 hidle]
  have has := hsh.as
  rcases hsh.odd hp hidle with h | h | h | h | h
  all_goals
    rw [h] at has
    simp only [has] at *
    cases hrw : w.kernel.rw <;> simp_all

/-- One strobe over an edge of `phi2`. -/
theorem strobe_line_phi2 (hsh : Shape turbo p w) (h1 : i.phi1 = false) (h2 : i.phi2 = true)
    (hp : beforePhi2 turbo p = true) (hidle : w.kernel.idle = false) {strobe now : Bool}
    (hhigh : w.asR = false → now = false)
    (h : w.asR = true → now = (strobe && (w.kernel.rw || decide (4 ≤ w.sState)))) :
    ((w.step i).asR = false → w.strobeNext i strobe now = false) ∧
      ((w.step i).asR = true → w.strobeNext i strobe now =
        (strobe && (w.kernel.rw || decide (4 ≤ (w.step i).sState)))) := by
  rw [as_phi2 h1 h2, strobe_phi2 h1 h2, sState_phi2 h1 h2 hidle]
  have has := hsh.as
  rcases hsh.even hp with h | h | h | h
  all_goals
    rw [h] at has
    simp only [has] at *
    cases hl : w.leaves i <;> simp_all

theorem Lines.step_idle (h : Lines w) (hsh : Shape turbo p w) (hedge : i.phi1 = true ∨ i.phi2 = true)
    (hidle : w.kernel.idle = true) : Lines (w.step i) := by
  have has : w.asR = false := by
    rw [hsh.as, hsh.idle hidle]
    rfl
  have ha : (w.step i).asR = false := by
    simp [Wrapper.step, Wrapper.asNext, has, hidle]
  obtain ⟨hu, hl⟩ := h.high has
  have hu' : (w.step i).udsR = false := by simp [Wrapper.step, Wrapper.strobeNext, hu, hidle]
  have hl' : (w.step i).ldsR = false := by simp [Wrapper.step, Wrapper.strobeNext, hl, hidle]
  refine ⟨fun _ => ⟨hu', hl'⟩, ?_, ?_, ?_, fun hs => absurd (sState_idle hedge hidle) hs⟩
  all_goals
    rw [ha]
    exact fun h => absurd h Bool.false_ne_true

theorem Lines.step_phi1 (h : Lines w) (hsh : Shape turbo p w) (h1 : i.phi1 = true)
    (hp : beforePhi2 turbo p = false) (hidle : w.kernel.idle = false) : Lines (w.step i) := by
  have hu := strobe_line_phi1 (i := i) hsh h1 hp hidle (fun has => (h.high has).1) h.uds
  have hl := strobe_line_phi1 (i := i) hsh h1 hp hidle (fun has => (h.high has).2) h.lds
  have has' := as_phi1 (w := w) h1 hidle
  have hs' := sState_phi1 (w := w) h1 hidle
  have has := hsh.as
  by_cases h7 : w.sState = 7
  · -- the kernel goes on while AS is high
    rw [h7] at has has' hs'
    have hfalse : (w.step i).asR = false := by rw [has', has]; decide
    refine ⟨fun ha => ⟨hu.1 ha, hl.1 ha⟩, ?_, ?_, ?_, fun hs => absurd (by rw [hs']; decide) hs⟩
    all_goals
      rw [hfalse]
      exact fun h => absurd h Bool.false_ne_true
  · have hk := kernel_of_ne_seven (i := i) hidle h7
    refine ⟨fun ha => ⟨hu.1 ha, hl.1 ha⟩, fun ha => ?_, fun ha => ?_, fun ha => ?_, fun _ => ?_⟩
    · rw [rw_phi1 h1 hidle h7, hk]
      split_ifs with hs
      · rfl
      · rw [has', if_neg hs] at ha
        exact h.rw ha
    · rw [hk]
      exact hu.2 ha
    · rw [hk]
      exact hl.2 ha
    · rw [hk]
      rfl

theorem Lines.step_phi2 (h : Lines w) (hsh : Shape turbo p w) (h1 : i.phi1 = false)
    (h2 : i.phi2 = true) (hp : beforePhi2 turbo p = true) (hidle : w.kernel.idle = false) :
    Lines (w.step i) := by
  have hu := strobe_line_phi2 (i := i) hsh h1 h2 hp hidle (fun has => (h.high has).1) h.uds
  have hl := strobe_line_phi2 (i := i) hsh h1 h2 hp hidle (fun has => (h.high has).2) h.lds
  have hk := kernel_of_not_phi1 (w := w) h1
  refine ⟨fun ha => ⟨hu.1 ha, hl.1 ha⟩, fun ha => ?_, fun ha => ?_, fun ha => ?_, fun _ => ?_⟩
  · rw [rw_of_not_phi1 h1, hk]
    rw [as_phi2 h1 h2] at ha
    split_ifs at ha
    exact h.rw ha
  · rw [hk]
    exact hu.2 ha
  · rw [hk]
    exact hl.2 ha
  · rw [hk]
    rfl

end Step

section Run

variable {turbo : Bool} {s : Machine} {u : ℕ → In} {a k t : ℕ}

theorem Reset.lines (h : Reset s) : Lines s.cpu where
  high _ := ⟨h.uds, h.lds⟩
  rw has := absurd has (by rw [h.as]; decide)
  uds has := absurd has (by rw [h.as]; decide)
  lds has := absurd has (by rw [h.as]; decide)
  addr hs := absurd h.sState hs

theorem lines_run (turbo : Bool) (h0 : Reset s) (u : ℕ → In) (t : ℕ) :
    Lines (after turbo s u t).cpu := by
  induction t with
  | zero => exact h0.lines
  | succ t ih =>
    have hsh := shape_run turbo h0 u t
    change Lines ((after turbo s u t).cpu.step ((after turbo s u t).wires turbo (u t)))
    cases hidle : (after turbo s u t).cpu.kernel.idle
    all_goals cases edge turbo (after turbo s u t).slots.busPhase with
      | none h1 h2 _ => exact ih.step_none h1 h2
      | phi1 h1 _ hp _ =>
        first
        | exact ih.step_phi1 hsh h1 hp hidle
        | exact ih.step_idle hsh (.inl h1) hidle
      | phi2 h1 h2 hp _ =>
        first
        | exact ih.step_phi2 hsh h1 h2 hp hidle
        | exact ih.step_idle hsh (.inr h2) hidle

/-! ### The wait state -/

/-- AS is low in clock `t`. -/
def asAt (turbo : Bool) (s : Machine) (u : ℕ → In) (t : ℕ) : Bool := (after turbo s u t).cpu.asR

/-- The state `k` clocks after the fall of AS, before the wait state. -/
def firstStates (turbo : Bool) (k : ℕ) : BitVec 3 :=
  if turbo then (if k = 0 then 2 else 3) else if k < 2 then 2 else 3

/-- The clocks from the fall of AS to the wait state. -/
def lead (turbo : Bool) : ℕ := if turbo then 2 else 4

/-- The edges of `phi2`, and those of `phi1`, on the grid that starts where AS falls. -/
def phi2On (turbo : Bool) (k : ℕ) : Bool := if turbo then k % 2 == 0 else k % 4 == 1

def phi1On (turbo : Bool) (k : ℕ) : Bool := if turbo then k % 2 == 1 else k % 4 == 3

/-- Where AS has just fallen. -/
def falling (turbo : Bool) (p : BitVec 2) : Bool := if turbo then p == 1 || p == 3 else p == 0

theorem falling_of_phi1 (turbo : Bool) (p : BitVec 2) (h : cpuEnP turbo p = true) :
    falling turbo (p + 1) = true := by
  revert turbo p
  decide

theorem grid_of_lt (turbo : Bool) (p : BitVec 2) (hp : falling turbo p = true) {k : ℕ}
    (hk : k < 4) : cpuEnP turbo (p + BitVec.ofNat 2 k) = phi1On turbo k ∧
      cpuEnN turbo (p + BitVec.ofNat 2 k) = phi2On turbo k := by
  revert hp
  revert turbo p
  interval_cases k <;> decide

theorem grid_of_falling {p : BitVec 2} (hp : falling turbo p = true) (k : ℕ) :
    cpuEnP turbo (p + BitVec.ofNat 2 k) = phi1On turbo k ∧
      cpuEnN turbo (p + BitVec.ofNat 2 k) = phi2On turbo k := by
  have hk : BitVec.ofNat 2 k = BitVec.ofNat 2 (k % 4) := by
    apply BitVec.eq_of_toNat_eq
    simp
  have hmod : phi1On turbo k = phi1On turbo (k % 4) ∧ phi2On turbo k = phi2On turbo (k % 4) := by
    unfold phi1On phi2On
    rw [Nat.mod_mod, Nat.mod_mod_of_dvd k (by decide : 2 ∣ 4)]
    exact ⟨rfl, rfl⟩
  rw [hk, hmod.1, hmod.2]
  exact grid_of_lt turbo p hp (Nat.mod_lt _ (by decide))

theorem busPhase_add (a k : ℕ) : (after turbo s u (a + k)).slots.busPhase =
    (after turbo s u a).slots.busPhase + BitVec.ofNat 2 k := by
  induction k with
  | zero => simp
  | succ k ih =>
    change (after turbo s u (a + k)).slots.busPhase + 1 = _
    rw [ih, BitVec.add_assoc]
    congr 1
    apply BitVec.eq_of_toNat_eq
    simp [BitVec.toNat_add]

/-- AS falls with state 2. -/
structure Falls (turbo : Bool) (s : Machine) (u : ℕ → In) (a : ℕ) : Prop where
  as : asAt turbo s u a = true
  sState : (after turbo s u a).cpu.sState = 2
  busy : (after turbo s u a).cpu.kernel.idle = false
  phase : falling turbo (after turbo s u a).slots.busPhase = true

theorem falls_of_rises (h0 : Reset s) (h : Rises (asAt turbo s u) a) : Falls turbo s u a := by
  obtain ⟨has, hbefore⟩ := h
  cases a with
  | zero =>
    change s.cpu.asR = true at has
    rw [h0.as] at has
    cases has
  | succ a =>
    have hwas : (after turbo s u a).cpu.asR = false := hbefore a rfl
    have hnow : ((after turbo s u a).cpu.step ((after turbo s u a).wires turbo (u a))).asR = true :=
      has
    have hidle : (after turbo s u a).cpu.kernel.idle = false := by
      by_contra hi
      rw [Bool.not_eq_false] at hi
      simp [Wrapper.step, Wrapper.asNext, hwas, hi] at hnow
    cases edge turbo (after turbo s u a).slots.busPhase with
    | none h1 h2 _ =>
      change (after turbo s u a).cpu.asNext _ = true at hnow
      rw [Wrapper.asNext, if_neg (by simpa [Machine.wires] using h1), hwas] at hnow
      simp at hnow
    | phi2 h1 h2 _ _ =>
      rw [as_phi2 (i := (after turbo s u a).wires turbo (u a)) h1 h2, hwas] at hnow
      simp at hnow
    | phi1 h1 _ _ _ =>
      rw [as_phi1 (i := (after turbo s u a).wires turbo (u a)) h1 hidle, hwas] at hnow
      have hs : (after turbo s u a).cpu.sState = 1 := by
        by_contra hs
        rw [if_neg hs] at hnow
        cases hnow
      refine ⟨has, ?_, ?_, ?_⟩
      · change ((after turbo s u a).cpu.step ((after turbo s u a).wires turbo (u a))).sState = 2
        rw [sState_phi1 h1 hidle, hs]
        rfl
      · change ((after turbo s u a).cpu.step _).kernel.idle = false
        rw [kernel_of_ne_seven hidle (by rw [hs]; decide)]
        exact hidle
      · change falling turbo ((after turbo s u a).slots.busPhase + 1) = true
        exact falling_of_phi1 turbo _ h1

/-- Clock `k` of a cycle whose AS falls in clock `a`, when it has not left its wait state before. -/
structure Waits (turbo : Bool) (s : Machine) (u : ℕ → In) (a k : ℕ) : Prop where
  as : asAt turbo s u (a + k) = true
  kernel : (after turbo s u (a + k)).cpu.kernel = (after turbo s u a).cpu.kernel
  sState : (after turbo s u (a + k)).cpu.sState =
    if k < lead turbo then firstStates turbo k else 4

/-- The edges of the clocks of a cycle. -/
theorem edges_of_falls (h : Falls turbo s u a) (k : ℕ) :
    cpuEnP turbo (after turbo s u (a + k)).slots.busPhase = phi1On turbo k ∧
      cpuEnN turbo (after turbo s u (a + k)).slots.busPhase = phi2On turbo k := by
  rw [busPhase_add]
  exact grid_of_falling h.phase k

theorem Falls.waits (h : Falls turbo s u a) : Waits turbo s u a 0 where
  as := h.as
  kernel := rfl
  sState := by
    rw [Nat.add_zero, h.sState]
    cases turbo <;> rfl

/-- The states from the fall of AS on. -/
theorem states_succ (turbo : Bool) (k : ℕ) {x x' : BitVec 3}
    (hx : x = if k < lead turbo then firstStates turbo k else 4)
    (hnone : phi1On turbo k = false → phi2On turbo k = false → x' = x)
    (hstep : phi1On turbo k = true ∨ phi2On turbo k = true →
      x' = if x = 4 then 4 else x + 1) :
    x' = if k + 1 < lead turbo then firstStates turbo (k + 1) else 4 := by
  by_cases hk : lead turbo ≤ k
  · rw [if_neg (by omega)] at hx ⊢
    subst hx
    cases h1 : phi1On turbo k with
    | true => exact hstep (.inl h1)
    | false =>
      cases h2 : phi2On turbo k with
      | true => exact hstep (.inr h2)
      | false => exact hnone h1 h2
  · cases turbo with
    | true =>
      have hlt : k < 2 := by simpa [lead] using hk
      interval_cases k
      all_goals
        rw [hstep (by decide), hx]
        rfl
    | false =>
      have hlt : k < 4 := by simpa [lead] using hk
      interval_cases k
      · rw [hnone rfl rfl, hx]
        rfl
      · rw [hstep (by decide), hx]
        rfl
      · rw [hnone rfl rfl, hx]
        rfl
      · rw [hstep (by decide), hx]
        rfl

theorem firstStates_cases (turbo : Bool) (k : ℕ) :
    (if k < lead turbo then firstStates turbo k else 4) = 2 ∨
      (if k < lead turbo then firstStates turbo k else 4) = 3 ∨
        (if k < lead turbo then firstStates turbo k else 4) = 4 := by
  unfold firstStates
  split_ifs <;> simp

theorem cpu_succ (turbo : Bool) (s : Machine) (u : ℕ → In) (a k : ℕ) :
    (after turbo s u (a + (k + 1))).cpu =
      (after turbo s u (a + k)).cpu.step ((after turbo s u (a + k)).wires turbo (u (a + k))) := rfl

theorem Waits.succ (h : Waits turbo s u a k) (hf : Falls turbo s u a)
    (hl : leavesAt turbo s u (a + k) = false) : Waits turbo s u a (k + 1) := by
  obtain ⟨has, hk, hs⟩ := h
  obtain ⟨he1, he2⟩ := edges_of_falls hf k
  have hidle : (after turbo s u (a + k)).cpu.kernel.idle = false := by rw [hk, hf.busy]
  have hcases := firstStates_cases turbo k
  rw [← hs] at hcases
  have h7 : (after turbo s u (a + k)).cpu.sState ≠ 7 := by
    rcases hcases with h | h | h <;> rw [h] <;> decide
  have h6 : (after turbo s u (a + k)).cpu.sState ≠ 6 := by
    rcases hcases with h | h | h <;> rw [h] <;> decide
  have h1 : (after turbo s u (a + k)).cpu.sState ≠ 1 := by
    rcases hcases with h | h | h <;> rw [h] <;> decide
  have hkernel := kernel_of_ne_seven (i := (after turbo s u (a + k)).wires turbo (u (a + k)))
    hidle h7
  have e1 : ((after turbo s u (a + k)).wires turbo (u (a + k))).phi1 = phi1On turbo k := he1
  have e2 : ((after turbo s u (a + k)).wires turbo (u (a + k))).phi2 = phi2On turbo k := he2
  unfold leavesAt at hl
  constructor
  · unfold asAt at *
    rw [cpu_succ]
    cases hp1 : phi1On turbo k with
    | true =>
      rw [as_phi1 (he1.trans hp1) hidle, if_neg h1]
      exact has
    | false =>
      cases hp2 : phi2On turbo k with
      | true =>
        rw [as_phi2 (he1.trans hp1) (he2.trans hp2), if_neg h6]
        exact has
      | false =>
        rw [← has]
        simp [Wrapper.step, Wrapper.asNext, e1, e2, hp1, hp2]
  · rw [← hk]
    exact hkernel
  · rw [cpu_succ]
    refine states_succ turbo k hs (fun hp1 hp2 => ?_) fun hp => ?_
    · simp [Wrapper.step, Wrapper.sStateNext, e1, e2, hp1, hp2]
    · cases hp1 : phi1On turbo k with
      | true => rw [sState_phi1 (he1.trans hp1) hidle]
      | false =>
        have hp2 : phi2On turbo k = true := hp.resolve_left (by rw [hp1]; decide)
        rw [sState_phi2 (he1.trans hp1) (he2.trans hp2) hidle, hl]
        simp

theorem waits_run (hf : Falls turbo s u a)
    (hl : ∀ j < k, leavesAt turbo s u (a + j) = false) : Waits turbo s u a k := by
  induction k with
  | zero => exact hf.waits
  | succ k ih => exact (ih fun j hj => hl j (by omega)).succ hf (hl k k.lt_succ_self)

/-! ### The end of a cycle -/

/-- The clocks from the end of the wait state to the last one of AS. -/
def tail (turbo : Bool) : ℕ := if turbo then 2 else 4

/-- A cycle whose AS falls in clock `a` leaves its wait state in clock `a + j`. -/
structure Ends (turbo : Bool) (s : Machine) (u : ℕ → In) (a j : ℕ) : Prop where
  lead : lead turbo ≤ j
  phi2 : phi2On turbo j = true
  waits : ∀ k ≤ j, Waits turbo s u a k
  leaves : leavesAt turbo s u (a + j) = true

theorem Ends.of_leaves (hf : Falls turbo s u a) {j : ℕ}
    (hwait : ∀ k < j, leavesAt turbo s u (a + k) = false)
    (hl : leavesAt turbo s u (a + j) = true) : Ends turbo s u a j := by
  have hw := waits_run hf hwait
  obtain ⟨-, he2⟩ := edges_of_falls hf j
  have hleaves := hl
  simp only [leavesAt, Wrapper.leaves, Bool.and_eq_true, beq_iff_eq] at hleaves
  obtain ⟨⟨⟨⟨-, h2⟩, h4⟩, -⟩, -⟩ := hleaves
  refine ⟨?_, ?_, fun k hk => waits_run hf fun i hi => hwait i (by omega), hl⟩
  · by_contra hlt
    have hs := hw.sState
    rw [h4, if_pos (by omega)] at hs
    unfold firstStates at hs
    split_ifs at hs <;> exact absurd hs (by decide)
  · rw [← he2]
    exact h2

/-- A cycle that could leave its wait state in clock `a + n` ends. -/
theorem exists_ends (hf : Falls turbo s u a) {n : ℕ}
    (h : (∀ k ≤ n, Waits turbo s u a k) → leavesAt turbo s u (a + n) = true) :
    ∃ j ≤ n, Ends turbo s u a j := by
  classical
  have hex : ∃ j, leavesAt turbo s u (a + j) = true := by
    by_contra hno
    have hwait : ∀ j, leavesAt turbo s u (a + j) = false := fun j => by
      by_contra hj
      exact hno ⟨j, by simpa using hj⟩
    have := h fun k _ => waits_run hf fun j _ => hwait j
    rw [hwait] at this
    cases this
  have hfirst : ∀ k < Nat.find hex, leavesAt turbo s u (a + k) = false := fun k hk => by
    simpa using Nat.find_min hex hk
  refine ⟨Nat.find hex, ?_, Ends.of_leaves hf hfirst (Nat.find_spec hex)⟩
  by_contra hlt
  have := h fun k hk => waits_run hf fun j hj => hfirst j (by omega)
  rw [hfirst n (by omega)] at this
  cases this

theorem edges_after (turbo : Bool) {j : ℕ} (h : phi2On turbo j = true) (i : ℕ) :
    phi1On turbo (j + i) = (if turbo then i % 2 == 1 else i % 4 == 2) ∧
      phi2On turbo (j + i) = if turbo then i % 2 == 0 else i % 4 == 0 := by
  unfold phi1On phi2On at *
  cases turbo
  all_goals
    simp only [Bool.false_eq_true, if_false, if_true, beq_iff_eq] at *
    constructor <;> rw [Bool.eq_iff_iff, beq_iff_eq, beq_iff_eq] <;> omega

/-- The state after the wait state. -/
structure Leaving (turbo : Bool) (s : Machine) (u : ℕ → In) (a t : ℕ) (x : BitVec 3) : Prop where
  as : asAt turbo s u t = true
  kernel : (after turbo s u t).cpu.kernel = (after turbo s u a).cpu.kernel
  sState : (after turbo s u t).cpu.sState = x

section Leaving

variable {x : BitVec 3} (h : Leaving turbo s u a t x)
  (hidle : (after turbo s u a).cpu.kernel.idle = false)
include h

theorem Leaving.none (h1 : cpuEnP turbo (after turbo s u t).slots.busPhase = false)
    (h2 : cpuEnN turbo (after turbo s u t).slots.busPhase = false) :
    Leaving turbo s u a (t + 1) x := by
  have e1 : ((after turbo s u t).wires turbo (u t)).phi1 = false := h1
  have e2 : ((after turbo s u t).wires turbo (u t)).phi2 = false := h2
  refine ⟨?_, ?_, ?_⟩
  · change ((after turbo s u t).cpu.step ((after turbo s u t).wires turbo (u t))).asR = true
    rw [← h.as]
    simp [Wrapper.step, Wrapper.asNext, e1, e2, asAt]
  · rw [← h.kernel]
    exact kernel_of_not_phi1 (w := (after turbo s u t).cpu) e1
  · rw [← h.sState]
    change ((after turbo s u t).cpu.step ((after turbo s u t).wires turbo (u t))).sState = _
    simp [Wrapper.step, Wrapper.sStateNext, e1, e2]

include hidle

theorem Leaving.phi1 (h1 : cpuEnP turbo (after turbo s u t).slots.busPhase = true) (hx : x = 5) :
    Leaving turbo s u a (t + 1) 6 := by
  have e1 : ((after turbo s u t).wires turbo (u t)).phi1 = true := h1
  have hi : (after turbo s u t).cpu.kernel.idle = false := by rw [h.kernel, hidle]
  have hs : (after turbo s u t).cpu.sState = 5 := h.sState.trans hx
  refine ⟨?_, ?_, ?_⟩
  · change ((after turbo s u t).cpu.step ((after turbo s u t).wires turbo (u t))).asR = true
    rw [as_phi1 e1 hi, hs]
    exact h.as
  · rw [← h.kernel]
    exact kernel_of_ne_seven (i := (after turbo s u t).wires turbo (u t)) hi (by rw [hs]; decide)
  · change ((after turbo s u t).cpu.step ((after turbo s u t).wires turbo (u t))).sState = 6
    rw [sState_phi1 e1 hi, hs]
    rfl

/-- AS rises with state 7, and the data of the last clock are latched. -/
theorem Leaving.rise (h1 : cpuEnP turbo (after turbo s u t).slots.busPhase = false)
    (h2 : cpuEnN turbo (after turbo s u t).slots.busPhase = true) (hx : x = 6) :
    asAt turbo s u (t + 1) = false ∧ (after turbo s u (t + 1)).cpu.sState = 7 ∧
      (after turbo s u (t + 1)).cpu.dinR =
        (after turbo s u t).cpu.tg68Din ((after turbo s u t).wires turbo (u t)) := by
  have e1 : ((after turbo s u t).wires turbo (u t)).phi1 = false := h1
  have e2 : ((after turbo s u t).wires turbo (u t)).phi2 = true := h2
  have hi : (after turbo s u t).cpu.kernel.idle = false := by rw [h.kernel, hidle]
  have hs : (after turbo s u t).cpu.sState = 6 := h.sState.trans hx
  refine ⟨?_, ?_, ?_⟩
  · change ((after turbo s u t).cpu.step ((after turbo s u t).wires turbo (u t))).asR = false
    rw [as_phi2 e1 e2, hs]
    rfl
  · change ((after turbo s u t).cpu.step ((after turbo s u t).wires turbo (u t))).sState = 7
    rw [sState_phi2_of_ne e1 e2 hi (by rw [hs]; decide), hs]
    rfl
  · change (if _ then _ else _) = _
    rw [e1, e2, hs]
    rfl

end Leaving

/-- The clocks after the wait state. -/
theorem Ends.leaving {j : ℕ} (h : Ends turbo s u a j) (hf : Falls turbo s u a) {i : ℕ} (hi : i ≠ 0)
    (hle : i ≤ tail turbo) :
    Leaving turbo s u a (a + j + i) (if 2 * i ≤ tail turbo then 5 else 6) := by
  have hw := h.waits j le_rfl
  have hbusy : (after turbo s u (a + j)).cpu.kernel.idle = false := by rw [hw.kernel, hf.busy]
  have hl := h.leaves
  simp only [leavesAt, Wrapper.leaves, Bool.and_eq_true, beq_iff_eq, Bool.not_eq_true'] at hl
  have hleaves := h.leaves
  unfold leavesAt at hleaves
  obtain ⟨⟨⟨⟨h1, h2⟩, h4⟩, -⟩, -⟩ := hl
  have hfive : Leaving turbo s u a (a + j + 1) 5 := by
    refine ⟨?_, ?_, ?_⟩
    · change ((after turbo s u (a + j)).cpu.step
        ((after turbo s u (a + j)).wires turbo (u (a + j)))).asR = true
      rw [as_phi2 h1 h2, h4]
      exact hw.as
    · rw [← hw.kernel]
      exact kernel_of_not_phi1 (w := (after turbo s u (a + j)).cpu) h1
    · change ((after turbo s u (a + j)).cpu.step
        ((after turbo s u (a + j)).wires turbo (u (a + j)))).sState = 5
      rw [sState_phi2 h1 h2 hbusy, h4, hleaves]
      rfl
  have hedge : ∀ i, cpuEnP turbo (after turbo s u (a + j + i)).slots.busPhase = _ ∧
      cpuEnN turbo (after turbo s u (a + j + i)).slots.busPhase = _ := fun i => by
    rw [Nat.add_assoc]
    exact edges_of_falls hf (j + i)
  cases turbo with
  | true =>
    have hle' : i ≤ 2 := hle
    interval_cases i
    · exact absurd rfl hi
    · exact hfive
    · refine hfive.phi1 hf.busy ?_ rfl
      rw [(hedge 1).1, (edges_after true h.phi2 1).1]
      rfl
  | false =>
    have hle' : i ≤ 4 := hle
    have htwo : Leaving false s u a (a + j + 1 + 1) 5 := by
      apply hfive.none
      · rw [(hedge 1).1, (edges_after false h.phi2 1).1]
        rfl
      · rw [(hedge 1).2, (edges_after false h.phi2 1).2]
        rfl
    have hthree : Leaving false s u a (a + j + 1 + 1 + 1) 6 := by
      refine htwo.phi1 hf.busy ?_ rfl
      rw [(hedge 2).1, (edges_after false h.phi2 2).1]
      rfl
    have hfour : Leaving false s u a (a + j + 1 + 1 + 1 + 1) 6 := by
      apply hthree.none
      · rw [(hedge 3).1, (edges_after false h.phi2 3).1]
        rfl
      · rw [(hedge 3).2, (edges_after false h.phi2 3).2]
        rfl
    interval_cases i
    · exact absurd rfl hi
    · exact hfive
    · exact htwo
    · exact hthree
    · exact hfour

/-- AS is low up to the last clock of the tail, and high after it. -/
theorem Ends.pulse {j : ℕ} (h : Ends turbo s u a j) (hf : Falls turbo s u a)
    (hr : Rises (asAt turbo s u) a) : Pulse (asAt turbo s u) a (a + j + tail turbo) ∧
      (after turbo s u (a + j + tail turbo + 1)).cpu.sState = 7 ∧
      (after turbo s u (a + j + tail turbo + 1)).cpu.dinR =
        (after turbo s u (a + j + tail turbo)).cpu.tg68Din
          ((after turbo s u (a + j + tail turbo)).wires turbo (u (a + j + tail turbo))) := by
  have htail : tail turbo ≠ 0 := by cases turbo <;> decide
  have hlast := h.leaving hf htail le_rfl
  rw [if_neg (by omega)] at hlast
  obtain ⟨he1, he2⟩ := edges_after turbo h.phi2 (tail turbo)
  have hrise := hlast.rise hf.busy
    (by rw [Nat.add_assoc, (edges_of_falls hf _).1, he1]; cases turbo <;> rfl)
    (by rw [Nat.add_assoc, (edges_of_falls hf _).2, he2]; cases turbo <;> rfl) rfl
  refine ⟨⟨hr, by omega, fun t h1 h2 => ?_, hrise.1⟩, hrise.2⟩
  obtain ⟨k, rfl⟩ := Nat.exists_eq_add_of_le h1
  rcases Nat.lt_or_ge j k with hlt | hge
  · obtain ⟨i, rfl⟩ := Nat.exists_eq_add_of_lt hlt
    have := (h.leaving (i := i + 1) hf (by omega) (by omega)).as
    rwa [show a + (j + i + 1) = a + j + (i + 1) by omega]
  · exact (h.waits k hge).as

/-- Clock `k` of a cycle, before the rise of AS. -/
structure Low (turbo : Bool) (s : Machine) (u : ℕ → In) (a k : ℕ) : Prop where
  as : asAt turbo s u (a + k) = true
  kernel : (after turbo s u (a + k)).cpu.kernel = (after turbo s u a).cpu.kernel
  started : (after turbo s u (a + k)).cpu.sState ≠ 0
  strobed : 4 ≤ (after turbo s u (a + k)).cpu.sState ↔ lead turbo ≤ k

theorem Waits.low (h : Waits turbo s u a k) : Low turbo s u a k := by
  refine ⟨h.as, h.kernel, ?_, ?_⟩
  · rcases firstStates_cases turbo k with hs | hs | hs <;> rw [h.sState, hs] <;> decide
  · rw [h.sState]
    by_cases hk : k < lead turbo
    · rw [if_pos hk]
      have hlt : ¬ 4 ≤ firstStates turbo k := by
        unfold firstStates
        split_ifs <;> decide
      exact ⟨fun h4 => absurd h4 hlt, fun h4 => absurd hk (by omega)⟩
    · rw [if_neg hk]
      exact ⟨fun _ => by omega, fun _ => by decide⟩

theorem Ends.low {j : ℕ} (h : Ends turbo s u a j) (hf : Falls turbo s u a)
    (hk : k ≤ j + tail turbo) : Low turbo s u a k := by
  rcases Nat.lt_or_ge j k with hlt | hge
  · obtain ⟨i, rfl⟩ := Nat.exists_eq_add_of_lt hlt
    have hl := h.leaving (i := i + 1) hf (by omega) (by omega)
    have hlead := h.lead
    rw [show a + j + (i + 1) = a + (j + i + 1) by omega] at hl
    refine ⟨hl.as, hl.kernel, ?_, fun _ => by omega, fun _ => ?_⟩
    all_goals
      rw [hl.sState]
      split_ifs <;> decide
  · exact (h.waits k hge).low

theorem lead_tail (turbo : Bool) : (turbo = true ∧ lead turbo = 2 ∧ tail turbo = 2) ∨
    (turbo = false ∧ lead turbo = 4 ∧ tail turbo = 4) := by
  cases turbo
  · exact .inr ⟨rfl, rfl, rfl⟩
  · exact .inl ⟨rfl, rfl, rfl⟩

/-- Every clock of a stretch of AS is one of these. -/
theorem low_of_up (hf : Falls turbo s u a) (hr : Rises (asAt turbo s u) a)
    (hup : Up (asAt turbo s u) a (a + k)) : Low turbo s u a k := by
  classical
  by_cases hex : ∃ j, leavesAt turbo s u (a + j) = true
  · have hfirst : ∀ i < Nat.find hex, leavesAt turbo s u (a + i) = false := fun i hi => by
      simpa using Nat.find_min hex hi
    have hends := Ends.of_leaves hf hfirst (Nat.find_spec hex)
    refine hends.low hf ?_
    by_contra hlt
    have hfalls := (hends.pulse hf hr).1.falls
    rw [hup _ (by omega) (by omega)] at hfalls
    cases hfalls
  · refine (waits_run hf fun j _ => ?_).low
    by_contra hj
    exact hex ⟨j, by simpa using hj⟩

/-! ### The first clocks of AS -/

/-- The bus error needs 252 clocks of AS, and so does what the DIB puts in its place. -/
theorem noFixup_of_lt (has : asAt turbo s u a = false) (hk : k ≤ 250) :
    (after turbo s u (a + 1 + k)).fixupTake = false ∧
      (after turbo s u (a + 1 + k)).berrCounter ≤ k := by
  have hsucc : ∀ t, (after turbo s u (t + 1)).fixupTake =
      (after turbo s u t).fixupTakeNext (u t) ∧ (after turbo s u (t + 1)).berrCounter =
        (after turbo s u t).berrCounterNext (u t) := fun t => ⟨rfl, rfl⟩
  unfold asAt at has
  induction k with
  | zero =>
    rw [Nat.add_zero, (hsucc a).1, (hsucc a).2, Machine.fixupTakeNext, Machine.berrCounterNext, has]
    exact ⟨rfl, le_rfl⟩
  | succ k ih =>
    obtain ⟨hfix, hcount⟩ := ih (by omega)
    rw [← Nat.add_assoc, (hsucc _).1, (hsucc _).2]
    generalize after turbo s u (a + 1 + k) = m at *
    have hexp : m.berrExpires (u (a + 1 + k)) = false := by
      rw [Machine.berrExpires, beq_false_of_ne (by omega : m.berrCounter ≠ 251), Bool.and_false]
    constructor
    · rw [Machine.fixupTakeNext, hexp, hfix]
      cases m.cpu.asR <;> rfl
    · unfold Machine.berrCounterNext
      split_ifs <;> omega

end Run

end Cpu
