import LBMacTwo.Adb.Keyboard

/-!
# Mouse motion through the transceiver

The mouse of a transceiver that runs from a reset under any inputs.

* `State.dropsMotion`, `State.talksMouse`, `Input.packet`: what a clock does to the mouse registers;
* `mouse_step`: those registers after a clock;
* `owed`: the motion received and not yet reported or flushed;
* `MotionKept`: registers and reports carry what is owed, as far as one report can;
* `Carried`, `motionKept_iff`: the packets that keep this, and that no other does.
-/

namespace Adb
open Clocked

variable {s n : State} {i : Input} {doFinish : Bool}

/-! ### The mouse registers in a clock -/

/-- The command is for the mouse. -/
def State.forMouse (s : State) : Bool := s.cmdAddr ≠ s.kbdAddr && s.cmdAddr = s.mouseAddr

/-- The command is Talk register 0 of the mouse. -/
def State.asksMouse (s : State) : Bool := s.forMouse && s.cmdType = 3 && s.cmdReg = 0

/-- The mouse registers after a command. -/
def State.mouseAfter (s : State) : BitVec 7 × BitVec 7 × Bool × Bool :=
  if s.cmdType = 0 then (0, 0, false, false)
  else if (s.forMouse && s.cmdType = 1) || (s.asksMouse && s.mouseHasEvent) then
    (0, 0, s.mouseButton, false)
  else s.mouse

theorem mouse_keyboardCommand : (keyboardCommand s n doFinish).mouse = n.mouse := by
  unfold keyboardCommand talkKeys State.respond
  split_ifs <;> rfl

theorem mouse_processCommand (hn : n.mouse = s.mouse) :
    (processCommand s n doFinish).mouse = s.mouseAfter := by
  have hbutton : n.mouseButton = s.mouseButton := congrArg (fun m => m.2.2.1) hn
  unfold processCommand State.mouseAfter State.asksMouse State.forMouse
  by_cases h0 : s.cmdType = 0
  · rw [if_pos h0, if_pos h0]
    rfl
  · rw [if_neg h0, if_neg h0]
    by_cases hk : s.cmdAddr = s.kbdAddr
    · rw [if_pos hk, mouse_keyboardCommand]
      simp only [hk, ne_eq, not_true, decide_false, Bool.false_and, Bool.or_false,
        Bool.false_eq_true, if_false]
      exact hn
    · rw [if_neg hk]
      by_cases hm : s.cmdAddr = s.mouseAddr
      · rw [if_pos hm]
        have hall : ∀ c : BitVec 2, c ≠ 0 → c ≠ 1 → c ≠ 2 → c = 3 := by decide
        unfold mouseCommand State.respond
        split_ifs <;> simp_all [State.mouse]
      · rw [if_neg hm]
        simp only [hm, decide_false, Bool.and_false, Bool.false_and, Bool.or_false,
          Bool.false_eq_true, if_false]
        exact hn

theorem mouse_storeKey : (storeKey s n i).mouse = n.mouse := by
  unfold storeKey
  split_ifs <;> rfl

/-- The mouse registers of an enabled clock before a packet is taken. -/
theorem mouse_commanded :
    (s.commanded i).mouse = if s.executes i then s.mouseAfter else s.mouse := by
  have hr : (receive s (transition s { s with adbDoutStrobe := false, listen := false } i) i).mouse =
      s.mouse := congrArg Prod.snd held_received
  rw [State.commanded, show (receiveListen s _ i).mouse = _ from congrArg Prod.snd held_receiveListen,
    execute]
  split_ifs
  · exact mouse_processCommand hr
  · exact hr

/-- A packet from the mouse is seen. -/
def Input.packet (i : Input) : Bool := !i.reset && i.clkEn && i.mouseStrobe

/-- The packet tells something new. -/
def State.takes (s : State) (i : Input) : Bool :=
  i.packet && (i.mouseXraw ≠ 0 || i.mouseYraw ≠ 0 || i.mouseBtn != s.mouseButton)

/-- The deltas as `moveMouse` stores them. -/
def Input.deltaX (i : Input) : BitVec 7 :=
  clamp i.mouseXraw 0x3F 0x40 (i.mouseXraw.extractLsb' 0 7)

def Input.deltaY (i : Input) : BitVec 7 :=
  clamp i.mouseYraw 0x40 0x3F (-i.mouseYraw.extractLsb' 0 7)

/-- The mouse registers of a clock without a packet. -/
def State.mouseCommands (s : State) (i : Input) : BitVec 7 × BitVec 7 × Bool × Bool :=
  if i.reset then (0, 0, false, false)
  else if i.clkEn && s.executes i then s.mouseAfter
  else s.mouse

/-- A packet overwrites the registers, whatever the command does to them. -/
theorem mouse_step :
    (step s i).mouse =
      if s.takes i then (i.deltaX, i.deltaY, i.mouseBtn, true) else s.mouseCommands i := by
  unfold step State.takes Input.packet State.mouseCommands
  cases i.reset with
  | true => rfl
  | false =>
    cases i.clkEn with
    | false => rfl
    | true =>
      simp only [Bool.false_eq_true, if_false, if_true, Bool.not_false, Bool.true_and]
      unfold State.enabled moveMouse
      by_cases h : (i.mouseStrobe && (i.mouseXraw ≠ 0 || i.mouseYraw ≠ 0 ||
          i.mouseBtn != s.mouseButton)) = true
      · rw [if_pos h, if_pos h]
        rfl
      · rw [if_neg h, if_neg h]
        exact mouse_storeKey.trans mouse_commanded

/-! ### Motion owed -/

/-- Talk register 0 of the mouse is executed. -/
def State.talksMouse (s : State) (i : Input) : Bool :=
  !i.reset && i.clkEn && s.executes i && s.asksMouse

/-- The chip is reset, or a Reset or a Flush of the mouse is executed. -/
def State.flushesMouse (s : State) (i : Input) : Bool :=
  i.reset || (i.clkEn && s.executes i && (s.cmdType = 0 || (s.forMouse && s.cmdType = 1)))

/-- The motion of a packet. -/
def Input.motion (i : Input) : ℤ × ℤ :=
  if i.packet then (i.mouseXraw.toInt, i.mouseYraw.toInt) else (0, 0)

/-- What a clock leaves of the motion `l`. -/
def State.leaves (s : State) (i : Input) (l : ℤ × ℤ) : ℤ × ℤ :=
  if s.flushesMouse i || s.talksMouse i then (0, 0) else l

/-- The motion received since the last report or flush. -/
def owed (s : State) (u : ℕ → Input) : ℕ → ℤ × ℤ
  | 0 => (0, 0)
  | t + 1 => (run step s u t).leaves (u t) (owed s u t) + (u t).motion

/-- The button in the latest packet. -/
def latestButton (u : ℕ → Input) : ℕ → Bool
  | 0 => false
  | t + 1 => if (u t).packet then (u t).mouseBtn else latestButton u t

/-- What one report can carry of a delta. -/
def saturate (z : ℤ) : ℤ := max (-64) (min 63 z)

/-- What one report can carry of a motion: Y is negated. -/
def reportable (l : ℤ × ℤ) : ℤ × ℤ := (saturate l.1, saturate (-l.2))

/-- The motion in the answer to Talk register 0. -/
def motionOf (bytes : List Byte) : ℤ × ℤ :=
  match bytes with
  | [b0, b1] => ((b1.extractLsb' 0 7).toInt, (b0.extractLsb' 0 7).toInt)
  | _ => (0, 0)

/-- Up to clock `m` the registers hold the motion owed, each report carries it, and the button of a
report is that of the latest packet. -/
structure MotionKept (s : State) (u : ℕ → Input) (m : ℕ) : Prop where
  held : ∀ t ≤ m,
    ((run step s u t).mouseX.toInt, (run step s u t).mouseY.toInt) = reportable (owed s u t)
  reported : ∀ t < m, (run step s u t).talksMouse (u t) = true →
    motionOf (run step s u (t + 1)).answer = reportable (owed s u t)
  button : ∀ t < m, (run step s u t).talksMouse (u t) = true →
    ∀ b ∈ (run step s u (t + 1)).answer.head?, b.getLsbD 7 = !latestButton u t

/-! ### What a packet adds -/

/-- Motion `l` that waits does not show beside a delta `d` that is reported for both: there is none,
or the two saturate to the same side. -/
def Hidden (l d : ℤ) : Prop := l = 0 ∨ (63 ≤ d ∧ 63 ≤ l + d) ∨ (d ≤ -64 ∧ l + d ≤ -64)

/-- X deltas from -191 to -129 are taken for themselves plus 128. -/
def XFits (l x : ℤ) : Prop := if -191 ≤ x ∧ x ≤ -129 then l = 128 else Hidden l x

/-- Y deltas from -190 to -129 are taken for themselves plus 128, and -64 and -192 for 64. -/
def YFits (l y : ℤ) : Prop :=
  if y = -64 ∨ y = -192 then 64 ≤ l + y
  else if -190 ≤ y ∧ y ≤ -129 then l = 128
  else Hidden (-l) (-y)

theorem clampX_toInt : ∀ raw : BitVec 9,
    (clamp raw 0x3F 0x40 (raw.extractLsb' 0 7)).toInt =
      if -191 ≤ raw.toInt ∧ raw.toInt ≤ -129 then raw.toInt + 128 else saturate raw.toInt := by
  decide +kernel

theorem clampY_toInt : ∀ raw : BitVec 9,
    (clamp raw 0x40 0x3F (-raw.extractLsb' 0 7)).toInt =
      if raw.toInt = -64 ∨ raw.toInt = -192 then -64
      else if -190 ≤ raw.toInt ∧ raw.toInt ≤ -129 then -(raw.toInt + 128)
      else saturate (-raw.toInt) := by
  decide +kernel

theorem saturate_hidden {l d : ℤ} : saturate d = saturate (l + d) ↔ Hidden l d := by
  unfold saturate Hidden
  omega

theorem deltaX_iff {l : ℤ} :
    i.deltaX.toInt = saturate (l + i.mouseXraw.toInt) ↔ XFits l i.mouseXraw.toInt := by
  rw [Input.deltaX, clampX_toInt, XFits]
  split_ifs with h
  · unfold saturate
    omega
  · exact saturate_hidden

theorem deltaY_iff {l : ℤ} :
    i.deltaY.toInt = saturate (-(l + i.mouseYraw.toInt)) ↔ YFits l i.mouseYraw.toInt := by
  rw [Input.deltaY, clampY_toInt, YFits]
  split_ifs with h h
  · unfold saturate
    omega
  · unfold saturate
    omega
  · rw [Int.neg_add]
    exact saturate_hidden

/-- The packet of this clock leaves the mouse with what is owed, when `l` was owed before. -/
def Carried (s : State) (i : Input) (l : ℤ × ℤ) : Prop :=
  s.takes i = true →
    XFits (s.leaves i l).1 i.mouseXraw.toInt ∧ YFits (s.leaves i l).2 i.mouseYraw.toInt

/-- What is true of the registers in every run: with nothing to report the deltas are zero, and
what is to be reported comes from the latest packet. -/
structure State.Tidy (s : State) (button : Bool) : Prop where
  quiet : s.mouseHasEvent = false → s.mouseX = 0 ∧ s.mouseY = 0
  latest : s.mouseHasEvent = true → s.mouseButton = button

/-- The registers hold the motion `l`. -/
def State.Holds (s : State) (l : ℤ × ℤ) : Prop := (s.mouseX.toInt, s.mouseY.toInt) = reportable l

theorem reportable_zero : reportable (0, 0) = (0, 0) := rfl

/-- Without a packet the registers keep what the clock leaves. -/
theorem mouseCommands_holds {b : Bool} {l : ℤ × ℤ} (ht : s.Tidy b) (hl : s.Holds l) :
    ((s.mouseCommands i).1.toInt, (s.mouseCommands i).2.1.toInt) = reportable (s.leaves i l) := by
  unfold State.mouseCommands State.leaves State.flushesMouse State.talksMouse State.mouseAfter
  cases i.reset with
  | true => rfl
  | false =>
    cases hx : i.clkEn && s.executes i with
    | false =>
      simp only [Bool.not_false, Bool.true_and, Bool.false_or, Bool.false_and, Bool.false_eq_true,
        if_false, hx]
      exact hl
    | true =>
      simp only [Bool.not_false, Bool.true_and, Bool.false_or, Bool.false_eq_true, if_false, if_true,
        hx]
      by_cases h0 : s.cmdType = 0
      · rw [if_pos h0, if_pos (by simp [h0])]
        rfl
      · rw [if_neg h0]
        cases hf : s.forMouse && s.cmdType = 1 with
        | true => simp [reportable_zero]
        | false =>
          cases ha : s.asksMouse with
          | false =>
            simp only [h0, decide_false, Bool.false_and, Bool.or_false, Bool.false_eq_true, if_false]
            exact hl
          | true =>
            cases he : s.mouseHasEvent with
            | true => simp [reportable_zero]
            | false =>
              -- an unanswered Talk: there was nothing to report
              simp [State.mouse, (ht.quiet he).1, (ht.quiet he).2, reportable_zero]

theorem mouseCommands_cases :
    (∃ b, s.mouseCommands i = (0, 0, b, false)) ∨ s.mouseCommands i = s.mouse := by
  unfold State.mouseCommands State.mouseAfter
  split_ifs
  · exact .inl ⟨_, rfl⟩
  · exact .inl ⟨_, rfl⟩
  · exact .inl ⟨_, rfl⟩
  · exact .inr rfl
  · exact .inr rfl

theorem motion_of_not_takes (h : s.takes i = false) :
    i.motion = (0, 0) ∧ (i.packet = true → i.mouseBtn = s.mouseButton) := by
  unfold State.takes at h
  unfold Input.motion
  cases hp : i.packet with
  | false => exact ⟨rfl, fun h => absurd h Bool.false_ne_true⟩
  | true =>
    rw [hp, Bool.true_and, Bool.or_eq_false_iff, Bool.or_eq_false_iff, decide_eq_false_iff_not,
      decide_eq_false_iff_not, not_not, not_not] at h
    rw [if_pos rfl, h.1.1, h.1.2]
    exact ⟨rfl, fun _ => by simpa using h.2⟩

theorem tidy_step {b : Bool} (ht : s.Tidy b) :
    (step s i).Tidy (if i.packet then i.mouseBtn else b) := by
  have hmouse := @mouse_step s i
  cases hk : s.takes i with
  | true =>
    rw [hk, if_pos rfl] at hmouse
    have hbutton : (step s i).mouseButton = i.mouseBtn := congrArg (fun m => m.2.2.1) hmouse
    have hevent : (step s i).mouseHasEvent = true := congrArg (fun m => m.2.2.2) hmouse
    have hp : i.packet = true := (Bool.and_eq_true_iff.mp hk).1
    refine ⟨fun h => absurd (hevent.symm.trans h) (by decide), fun _ => ?_⟩
    rw [hp, if_pos rfl, hbutton]
  | false =>
    rw [hk, if_neg Bool.false_ne_true] at hmouse
    rcases @mouseCommands_cases s i with ⟨c, hc⟩ | hc
    · rw [hc] at hmouse
      have hx : (step s i).mouseX = 0 := congrArg Prod.fst hmouse
      have hy : (step s i).mouseY = 0 := congrArg (fun m => m.2.1) hmouse
      have hevent : (step s i).mouseHasEvent = false := congrArg (fun m => m.2.2.2) hmouse
      exact ⟨fun _ => ⟨hx, hy⟩, fun h => absurd (hevent.symm.trans h) (by decide)⟩
    · rw [hc] at hmouse
      have hx : (step s i).mouseX = s.mouseX := congrArg Prod.fst hmouse
      have hy : (step s i).mouseY = s.mouseY := congrArg (fun m => m.2.1) hmouse
      have hbutton : (step s i).mouseButton = s.mouseButton := congrArg (fun m => m.2.2.1) hmouse
      have hevent : (step s i).mouseHasEvent = s.mouseHasEvent := congrArg (fun m => m.2.2.2) hmouse
      refine ⟨?_, ?_⟩
      · rw [hevent, hx, hy]
        exact ht.quiet
      · intro h
        rw [hbutton]
        split_ifs with hp
        · exact ((motion_of_not_takes hk).2 hp).symm
        · exact ht.latest (hevent ▸ h)

/-- The registers hold what is owed after the clock exactly if its packet is carried. -/
theorem holds_step {b : Bool} {l : ℤ × ℤ} (ht : s.Tidy b) (hl : s.Holds l) :
    (step s i).Holds (s.leaves i l + i.motion) ↔ Carried s i l := by
  have hmouse := @mouse_step s i
  unfold State.Holds Carried
  cases hk : s.takes i with
  | true =>
    rw [hk, if_pos rfl] at hmouse
    have hx : (step s i).mouseX = i.deltaX := congrArg Prod.fst hmouse
    have hy : (step s i).mouseY = i.deltaY := congrArg (fun m => m.2.1) hmouse
    have hp : i.packet = true := (Bool.and_eq_true_iff.mp hk).1
    rw [hx, hy, Input.motion, if_pos hp, reportable, Prod.mk.injEq, Prod.fst_add, Prod.snd_add,
      deltaX_iff, deltaY_iff]
    exact ⟨fun h _ => h, fun h => h rfl⟩
  | false =>
    rw [hk, if_neg Bool.false_ne_true] at hmouse
    have hx : (step s i).mouseX = (s.mouseCommands i).1 := congrArg Prod.fst hmouse
    have hy : (step s i).mouseY = (s.mouseCommands i).2.1 := congrArg (fun m => m.2.1) hmouse
    have hzero : s.leaves i l + (0, 0) = s.leaves i l := add_zero _
    rw [hx, hy, mouseCommands_holds ht hl, (motion_of_not_takes hk).1, hzero]
    exact iff_of_true rfl fun h => absurd h Bool.false_ne_true

/-- The answer to Talk register 0. -/
theorem answer_talksMouse (ht : s.talksMouse i = true) :
    (step s i).answer =
      if s.mouseHasEvent then
        [BitVec.ofBool (!s.mouseButton) ++ s.mouseY, BitVec.ofBool true ++ s.mouseX]
      else [] := by
  rw [State.talksMouse, Bool.and_eq_true, Bool.and_eq_true, Bool.and_eq_true, Bool.not_eq_true'] at ht
  obtain ⟨⟨⟨hreset, hen⟩, hx⟩, hask⟩ := ht
  rw [State.asksMouse, State.forMouse, Bool.and_eq_true, Bool.and_eq_true, Bool.and_eq_true,
    decide_eq_true_iff, decide_eq_true_iff, decide_eq_true_iff, decide_eq_true_iff] at hask
  obtain ⟨⟨⟨hkbd, haddr⟩, h3⟩, hreg⟩ := hask
  have h0 : s.cmdType ≠ 0 := by rw [h3]; decide
  have h1 : s.cmdType ≠ 1 := by rw [h3]; decide
  have h2 : s.cmdType ≠ 2 := by rw [h3]; decide
  rw [step, hreset, if_neg Bool.false_ne_true, hen, if_pos rfl, State.enabled, State.commanded,
    answer_late, execute, if_pos hx, processCommand,
    if_neg h0, if_neg hkbd, if_pos haddr, mouseCommand, if_neg h1, if_neg h2, if_pos hreg]
  split_ifs
  · rfl
  · rfl

theorem motionOf_answer {b : Bool} (ht : s.talksMouse i = true) (hs : s.Tidy b) :
    motionOf (step s i).answer = (s.mouseX.toInt, s.mouseY.toInt) := by
  rw [answer_talksMouse ht]
  cases he : s.mouseHasEvent with
  | true =>
    rw [if_pos rfl, motionOf, BitVec.extractLsb'_append_eq_right, BitVec.extractLsb'_append_eq_right]
  | false =>
    rw [if_neg Bool.false_ne_true, (hs.quiet he).1, (hs.quiet he).2]
    rfl

theorem button_answer {b : Bool} (ht : s.talksMouse i = true) (hs : s.Tidy b) :
    ∀ c ∈ (step s i).answer.head?, c.getLsbD 7 = !b := by
  rw [answer_talksMouse ht]
  cases he : s.mouseHasEvent with
  | true =>
    intro c hc
    rw [if_pos rfl, List.head?_cons, Option.mem_some] at hc
    rw [← hc, hs.latest he, BitVec.getLsbD_append]
    simp
  | false =>
    intro c hc
    rw [if_neg Bool.false_ne_true] at hc
    cases hc

/-! ### Runs -/

theorem tidy_run (s : State) (u : ℕ → Input) (t : ℕ) :
    (run step s.init u t).Tidy (latestButton u t) := by
  induction t with
  | zero => exact ⟨fun _ => ⟨rfl, rfl⟩, fun h => absurd h Bool.false_ne_true⟩
  | succ t ih => exact tidy_step ih

/-- No motion is lost or turned exactly as long as every packet is carried. -/
theorem motionKept_iff (s : State) (u : ℕ → Input) (m : ℕ) :
    MotionKept s.init u m ↔
      ∀ t < m, Carried (run step s.init u t) (u t) (owed s.init u t) := by
  constructor
  · exact fun h t ht => (holds_step (tidy_run s u t) (h.held t ht.le)).mp (h.held (t + 1) ht)
  · intro h
    have hheld : ∀ t ≤ m, (run step s.init u t).Holds (owed s.init u t) := by
      intro t
      induction t with
      | zero => exact fun _ => rfl
      | succ t ih =>
        exact fun ht => (holds_step (tidy_run s u t) (ih (Nat.le_of_succ_le ht))).mpr (h t ht)
    refine ⟨hheld, fun t ht htalk => ?_, fun t ht htalk => ?_⟩
    · exact (motionOf_answer htalk (tidy_run s u t)).trans (hheld t ht.le)
    · exact button_answer htalk (tidy_run s u t)

/-- The motion of all packets. -/
def received (u : ℕ → Input) : ℕ → ℤ × ℤ
  | 0 => (0, 0)
  | t + 1 => received u t + (u t).motion

/-- The motion of all reports, with the sign of the packets. -/
def reportedMotion (s : State) (u : ℕ → Input) : ℕ → ℤ × ℤ
  | 0 => (0, 0)
  | t + 1 => reportedMotion s u t +
    if (run step s u t).talksMouse (u t) then
      ((motionOf (run step s u (t + 1)).answer).1, -(motionOf (run step s u (t + 1)).answer).2)
    else (0, 0)

/-- Without flushes and saturated reports the reports add up to the packets. -/
theorem motion_conserved {u : ℕ → Input} {m : ℕ} (h : MotionKept s u m)
    (hflush : ∀ t < m, (run step s u t).flushesMouse (u t) = false)
    (hsat : ∀ t < m, (run step s u t).talksMouse (u t) = true →
      reportable (owed s u t) = ((owed s u t).1, -(owed s u t).2)) :
    reportedMotion s u m + owed s u m = received u m := by
  have hsum : ∀ t ≤ m, reportedMotion s u t + owed s u t = received u t := by
    intro t
    induction t with
    | zero => exact fun _ => rfl
    | succ t ih =>
      intro ht
      rw [reportedMotion, owed, received, ← ih (Nat.le_of_succ_le ht), State.leaves, hflush t ht,
        Bool.false_or]
      split_ifs with htalk
      · have hcarried := (h.reported t ht htalk).trans (hsat t ht htalk)
        have hback : ((owed s u t).1, - -(owed s u t).2) = owed s u t := by rw [neg_neg]
        have hzero : ((0, 0) : ℤ × ℤ) + (u t).motion = (u t).motion := zero_add _
        rw [hcarried, hback, hzero, add_assoc]
      · have hzero : reportedMotion s u t + (0, 0) = reportedMotion s u t := add_zero _
        rw [hzero, add_assoc]
  exact hsum m le_rfl

/-- A packet with the given deltas in the clock in which a Talk register 0 is shifted out. -/
def moved (x y : BitVec 9) : ℕ → Input
  | 0 => ⟨false, true, .command, 0x3C, true, false, 0, true, x, y, false⟩
  | _ => ⟨false, true, .command, 0, false, false, 0, false, 0, 0, false⟩

/-- A motion of -180 is reported as -52. -/
theorem far_left :
    ¬ MotionKept blank.init (moved (-180) 0) 2 ∧
      motionOf (run step blank.init (moved (-180) 0) 2).answer = (-52, 0) := by
  have hanswer : motionOf (run step blank.init (moved (-180) 0) 2).answer = (-52, 0) := by
    decide +kernel
  refine ⟨fun h => ?_, hanswer⟩
  have hreport := h.reported 1 (by decide) (by decide +kernel)
  rw [hanswer] at hreport
  revert hreport
  decide +kernel

end Adb
