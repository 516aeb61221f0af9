import LBMacTwo.Adb.Transceiver
import LBMacTwo.Foundation.Clocked

/-!
# The stages of a clock

* `State.held`: what the keyboard and the mouse have for the Mac, which the bus stages leave alone;
* `State.answer`: the bytes of a response;
* `data_step`, `data_phases`: the data phases strobe them one after the other, and then zeros;
* `answer_strobed`: so they do with the answer of any command.
-/

namespace Adb
open Clocked

variable {s n : State} {i : Input} {u : ℕ → Input} {doFinish : Bool}

/-! ### What the devices hold -/

/-- The FIFO of the keyboard: its cells, read pointer and write pointer. -/
def State.ring (s : State) : (BitVec 3 → Byte) × BitVec 3 × BitVec 3 :=
  (s.kbdFifo, s.kbdFifoRd, s.kbdFifoWr)

/-- The mouse registers: the deltas, the button and whether there is something to report. -/
def State.mouse (s : State) : BitVec 7 × BitVec 7 × Bool × Bool :=
  (s.mouseX, s.mouseY, s.mouseButton, s.mouseHasEvent)

/-- Both of them. -/
def State.held (s : State) :
    ((BitVec 3 → Byte) × BitVec 3 × BitVec 3) × (BitVec 7 × BitVec 7 × Bool × Bool) :=
  (s.ring, s.mouse)

/-- A Listen takes nothing from a device. -/
theorem held_processCommand (h : s.cmdType = 2) : (processCommand s n doFinish).held = n.held := by
  have h0 : s.cmdType ≠ 0 := by rw [h]; decide
  have h1 : s.cmdType ≠ 1 := by rw [h]; decide
  rw [processCommand, if_neg h0]
  split_ifs
  · rw [keyboardCommand, if_neg h1, if_pos h]
    split_ifs <;> rfl
  · rw [mouseCommand, if_neg h1, if_pos h]
    split_ifs <;> rfl
  · rfl

theorem held_finishListen : (finishListen s n).held = n.held := by
  unfold finishListen
  split_ifs with h
  · rw [Bool.and_eq_true, Bool.and_eq_true, decide_eq_true_iff] at h
    exact held_processCommand h.1.2
  · rfl

theorem held_deliver : (deliver s n).held = n.held := by
  unfold deliver
  split_ifs <;> rfl

theorem held_transition : (transition s n i).held = n.held := by
  unfold transition
  by_cases h : i.st = s.stPrev
  · rw [if_pos h]
  · rw [if_neg h]
    cases i.st with
    | idle => rfl
    | command => exact held_finishListen
    | data1 => exact held_deliver
    | data2 => exact held_deliver

theorem held_receive : (receive s n i).held = n.held := by
  unfold receive takeListen
  split_ifs <;> rfl

theorem held_receiveListen : (receiveListen s n i).held = n.held := by
  unfold receiveListen takeListen
  split_ifs <;> rfl

/-- Before a command is executed. -/
theorem held_received :
    (receive s (transition s { s with adbDoutStrobe := false, listen := false } i) i).held = s.held :=
  held_receive.trans held_transition

/-! ### The response -/

/-- The response bytes of the last command. -/
def State.answer (s : State) : List Byte :=
  (List.range s.respLen.toNat).map fun k => s.response (BitVec.ofNat 4 k)

/-- The byte of the response that is due, 0 behind its end. -/
theorem answer_getD :
    s.answer.getD s.respIdx.toNat 0 = if s.respEmpty then 0 else s.response s.respIdx := by
  unfold State.respEmpty State.answer
  by_cases h : s.respLen ≤ s.respIdx
  · rw [decide_eq_true h, if_pos rfl, List.getD_eq_default]
    simpa using BitVec.le_def.mp h
  · rw [decide_eq_false h, if_neg Bool.false_ne_true]
    rw [BitVec.not_le, BitVec.lt_def] at h
    simp [List.getD_eq_getElem?_getD, h]

/-- A data phase begins in this clock. -/
def State.entersData (s : State) (i : Input) : Bool :=
  i.clkEn && (i.st == .data1 || i.st == .data2) && i.st != s.stPrev

/-- What the sender of the response reads and writes. -/
def State.sending (s : State) : List Byte × BitVec 4 × Byte × Bool :=
  (s.answer, s.respIdx, s.adbDout, s.adbDoutStrobe)

/-- A clock in which no command phase begins and no command is executed. -/
def State.quiet (s : State) (i : Input) : Prop :=
  i.reset = false ∧ (i.st = .command → s.stPrev = .command ∧ s.executes i = false)

theorem sending_late : (moveMouse s (storeKey s (receiveListen s n i) i) i).sending = n.sending := by
  unfold moveMouse storeKey receiveListen takeListen
  split_ifs <;> rfl

theorem answer_late : (moveMouse s (storeKey s (receiveListen s n i) i) i).answer = n.answer :=
  congrArg Prod.fst sending_late

theorem sending_receive : (receive s n i).sending = n.sending := by
  unfold receive takeListen
  split_ifs <;> rfl

theorem sending_after (hx : s.executes i = false) :
    (s.enabled i).sending =
      (transition s { s with adbDoutStrobe := false, listen := false } i).sending := by
  rw [State.enabled, State.commanded, sending_late, execute, hx, if_neg Bool.false_ne_true,
    sending_receive]

/-- A data phase that begins strobes the byte that is due. -/
theorem data_step (h : s.quiet i) :
    (step s i).answer = s.answer ∧
      (step s i).respIdx = (if s.entersData i && !s.respEmpty then s.respIdx + 1 else s.respIdx) ∧
      (s.entersData i = true → (step s i).adbDoutStrobe = true ∧
        (step s i).adbDout = s.answer.getD s.respIdx.toNat 0) := by
  obtain ⟨hr, hcommand⟩ := h
  rw [step, hr, if_neg Bool.false_ne_true, State.entersData]
  cases hen : i.clkEn with
  | false => simp
  | true =>
    have hx : s.executes i = false := by
      by_cases hst : i.st = .command
      · exact (hcommand hst).2
      · simp [State.executes, hst]
    have hcmd := sending_after hx
    simp only [State.sending, Prod.mk.injEq] at hcmd
    obtain ⟨hans, hidx, hdout, hstb⟩ := hcmd
    rw [if_pos rfl, hans, hidx, hdout, hstb, answer_getD]
    unfold transition
    by_cases hsame : i.st = s.stPrev
    · rw [if_pos hsame, hsame]
      simp
      rfl
    · rw [if_neg hsame]
      cases hb : i.st with
      | command => exact absurd (hb.trans (hcommand hb).1.symm) hsame
      | idle =>
        simp
        rfl
      | data1 =>
        rw [hb] at hsame
        unfold deliver
        cases s.respEmpty <;> simp [hsame] <;> rfl
      | data2 =>
        rw [hb] at hsame
        unfold deliver
        cases s.respEmpty <;> simp [hsame] <;> rfl

theorem respIdx_keyboardCommand : (keyboardCommand s n doFinish).respIdx = n.respIdx := by
  unfold keyboardCommand talkKeys State.respond
  split_ifs <;> rfl

theorem respIdx_mouseCommand : (mouseCommand s n doFinish).respIdx = n.respIdx := by
  unfold mouseCommand State.respond
  split_ifs <;> rfl

theorem respIdx_processCommand : (processCommand s n doFinish).respIdx = 0 := by
  rw [processCommand]
  split_ifs
  · rfl
  · exact respIdx_keyboardCommand
  · exact respIdx_mouseCommand
  · rfl

/-- An executed command makes its response due from the first byte. -/
theorem respIdx_executes (hr : i.reset = false) (hen : i.clkEn = true) (hx : s.executes i = true) :
    (step s i).respIdx = 0 := by
  have hlate := congrArg (fun r => r.2.1) (@sending_late s (execute s
    (receive s (transition s { s with adbDoutStrobe := false, listen := false } i) i) i) i)
  rw [step, hr, if_neg Bool.false_ne_true, if_pos hen]
  refine hlate.trans ?_
  rw [execute, if_pos hx]
  exact respIdx_processCommand

/-- The data phases of the first `t` clocks, and the bytes strobed in them. -/
def phases (s : State) (u : ℕ → Input) (t : ℕ) : List ℕ :=
  (List.range t).filter fun k => (run step s u k).entersData (u k)

def strobed (s : State) (u : ℕ → Input) (t : ℕ) : List Byte :=
  (phases s u t).map fun k => (run step s u (k + 1)).adbDout

/-- Between two commands the data phases strobe the bytes of the answer in their order. -/
theorem data_phases (h0 : s.respIdx = 0) {t : ℕ} (hq : ∀ k < t, (run step s u k).quiet (u k)) :
    strobed s u t = (List.range (phases s u t).length).map fun j => s.answer.getD j 0 := by
  suffices h : (run step s u t).answer = s.answer ∧
      (run step s u t).respIdx.toNat = min (phases s u t).length s.answer.length ∧
      strobed s u t = (List.range (phases s u t).length).map fun j => s.answer.getD j 0 from h.2.2
  have hlen : ∀ x : State, x.answer.length = x.respLen.toNat := fun x => by simp [State.answer]
  induction t with
  | zero => exact ⟨rfl, by simp [h0, phases], rfl⟩
  | succ t ih =>
    obtain ⟨hans, hidx, hbytes⟩ := ih fun k hk => hq k (by omega)
    obtain ⟨h1, h2, h3⟩ := data_step (hq t (by omega))
    have hempty : (run step s u t).respEmpty = true ↔ s.answer.length ≤ (phases s u t).length := by
      rw [State.respEmpty, decide_eq_true_iff, BitVec.le_def, ← hlen, hans, hidx]
      omega
    have hsmall : s.answer.length < 16 := by
      rw [hlen]
      exact s.respLen.isLt
    rw [run_succ]
    cases henter : (run step s u t).entersData (u t) with
    | false =>
      have hphases : phases s u (t + 1) = phases s u t := by
        simp [phases, List.range_succ, henter]
      rw [henter, Bool.false_and, if_neg Bool.false_ne_true] at h2
      rw [strobed, hphases, h2]
      exact ⟨h1.trans hans, hidx, hbytes⟩
    | true =>
      have hphases : phases s u (t + 1) = phases s u t ++ [t] := by
        simp [phases, List.range_succ, henter]
      have hnext : (step (run step s u t) (u t)).respIdx.toNat =
          min ((phases s u t).length + 1) s.answer.length := by
        rw [h2, henter, Bool.true_and]
        by_cases hfull : s.answer.length ≤ (phases s u t).length
        · rw [hempty.mpr hfull, Bool.not_true, if_neg Bool.false_ne_true, hidx]
          omega
        · rw [Bool.eq_false_iff.mpr fun h => hfull (hempty.mp h), Bool.not_false, if_pos rfl,
            BitVec.toNat_add, hidx, show (1 : BitVec 4).toNat = 1 from rfl]
          omega
      have hbyte : (step (run step s u t) (u t)).adbDout = s.answer.getD (phases s u t).length 0 := by
        rw [(h3 henter).2, hans, hidx]
        by_cases hfull : s.answer.length ≤ (phases s u t).length
        · rw [Nat.min_eq_right hfull, List.getD_eq_default _ _ le_rfl, List.getD_eq_default _ _ hfull]
        · rw [Nat.min_eq_left (by omega)]
      refine ⟨h1.trans hans, ?_, ?_⟩
      · rw [hnext, hphases, List.length_append, List.length_singleton]
      · rw [strobed] at hbytes
        rw [strobed, hphases, List.map_append, hbytes, List.length_append, List.length_singleton,
          List.range_succ, List.map_append, List.map_singleton, List.map_singleton, run_succ, hbyte]

/-- What a command answers is what the data phases after it strobe. -/
theorem answer_strobed (hr : i.reset = false) (hen : i.clkEn = true) (hx : s.executes i = true)
    {t : ℕ} (hq : ∀ k < t, (run step (step s i) u k).quiet (u k)) :
    strobed (step s i) u t =
      (List.range (phases (step s i) u t).length).map fun j => (step s i).answer.getD j 0 :=
  data_phases (respIdx_executes hr hen hx) hq

end Adb
