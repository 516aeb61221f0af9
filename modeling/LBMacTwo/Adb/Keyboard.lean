import LBMacTwo.Adb.Stages
import LBMacTwo.Foundation.RingBuffer

/-!
# Key events through the transceiver

The keyboard of a transceiver that runs from a reset under any inputs.

* `State.flushes`, `State.talks`, `Input.pushes`: what a clock does to the key FIFO;
* `queued_step`, `talked_step`: the FIFO as a queue, when the clock does not overrun it;
* `Accepts`: which events a keyboard with a full test may take in a clock;
* `KeysKept`: what Talk register 0 has returned and what is queued are the accepted events;
* `Overruns`, `keysKept_iff`: the clocks that break this, and that there is no other way.
-/

namespace Adb
open Clocked RingBuffer

variable {s n : State} {i : Input} {doFinish : Bool}

/-! ### The FIFO in a clock -/

/-- The command is a Reset, or a Flush of the keyboard. -/
def State.clears (s : State) : Bool := s.cmdType = 0 || (s.cmdType = 1 && s.cmdAddr = s.kbdAddr)

/-- The command is Talk register 0 of the keyboard. -/
def State.asksKeys (s : State) : Bool :=
  s.cmdType = 3 && s.cmdAddr = s.kbdAddr && s.cmdReg = 0

/-- The read pointer behind the keys that Talk register 0 returns. -/
def State.rdTalked (s : State) : BitVec 3 :=
  if s.kbdFifoEmpty then s.kbdFifoRd
  else if s.kbdFifoRd + 1 ≠ s.kbdFifoWr then s.kbdFifoRd + 2
  else s.kbdFifoRd + 1

theorem ring_mouseCommand : (mouseCommand s n doFinish).ring = n.ring := by
  unfold mouseCommand State.respond
  split_ifs <;> rfl

theorem ring_processCommand_clears (h : s.clears = true) :
    (processCommand s n doFinish).ring = (n.kbdFifo, 0, 0) := by
  rw [State.clears, Bool.or_eq_true, Bool.and_eq_true, decide_eq_true_iff, decide_eq_true_iff,
    decide_eq_true_iff] at h
  rcases h with h0 | ⟨h1, haddr⟩
  · rw [processCommand, if_pos h0]
    rfl
  · have h0 : s.cmdType ≠ 0 := by rw [h1]; decide
    rw [processCommand, if_neg h0, if_pos haddr, keyboardCommand, if_pos h1]
    rfl

theorem processCommand_asksKeys (h : s.asksKeys = true) :
    processCommand s n doFinish =
      { talkKeys s { n with respLen := 0, respIdx := 0 } with cmdProcessed := true } := by
  rw [State.asksKeys, Bool.and_eq_true, Bool.and_eq_true, decide_eq_true_iff, decide_eq_true_iff,
    decide_eq_true_iff] at h
  obtain ⟨⟨h3, haddr⟩, hreg⟩ := h
  have h0 : s.cmdType ≠ 0 := by rw [h3]; decide
  have h1 : s.cmdType ≠ 1 := by rw [h3]; decide
  have h2 : s.cmdType ≠ 2 := by rw [h3]; decide
  rw [processCommand, if_neg h0, if_pos haddr, keyboardCommand, if_neg h1, if_neg h2, if_pos hreg]

theorem ring_processCommand (hc : s.clears = false) (ht : s.asksKeys = false) :
    (processCommand s n doFinish).ring = n.ring := by
  rw [State.clears, Bool.or_eq_false_iff, decide_eq_false_iff_not, Bool.and_eq_false_iff,
    decide_eq_false_iff_not, decide_eq_false_iff_not] at hc
  rw [State.asksKeys, Bool.and_eq_false_iff, Bool.and_eq_false_iff, decide_eq_false_iff_not,
    decide_eq_false_iff_not, decide_eq_false_iff_not] at ht
  rw [processCommand, if_neg hc.1]
  by_cases haddr : s.cmdAddr = s.kbdAddr
  · have h1 : s.cmdType ≠ 1 := hc.2.resolve_right fun h => h haddr
    rw [if_pos haddr, keyboardCommand, if_neg h1]
    by_cases h2 : s.cmdType = 2
    · rw [if_pos h2]
      split_ifs <;> rfl
    · have h3 : s.cmdType = 3 := by
        have hall : ∀ c : BitVec 2, c ≠ 0 → c ≠ 1 → c ≠ 2 → c = 3 := by decide
        exact hall _ hc.1 h1 h2
      have hreg : s.cmdReg ≠ 0 := (ht.resolve_left fun h => h.elim (· h3) (· haddr))
      rw [if_neg h2, if_neg hreg]
      unfold State.respond
      split_ifs <;> rfl
  · rw [if_neg haddr]
    split_ifs
    · exact ring_mouseCommand
    · rfl

theorem ring_moveMouse : (moveMouse s n i).ring = n.ring := by
  unfold moveMouse
  split_ifs <;> rfl

/-- The chip is reset, or a Reset or a Flush of the keyboard is executed. -/
def State.flushes (s : State) (i : Input) : Bool :=
  i.reset || (i.clkEn && s.executes i && s.clears)

/-- Talk register 0 of the keyboard is executed. -/
def State.talks (s : State) (i : Input) : Bool :=
  !i.reset && i.clkEn && s.executes i && s.asksKeys

/-- The key event that is stored. -/
def Input.key (i : Input) : Option Byte :=
  if !i.reset && i.clkEn && i.keyEvent then some i.keyData else none

/-- The FIFO of an enabled clock before a key event is stored. -/
theorem ring_commanded :
    (s.commanded i).ring =
      if s.executes i && s.clears then (s.kbdFifo, 0, 0)
      else if s.executes i && s.asksKeys then (s.kbdFifo, s.rdTalked, s.kbdFifoWr)
      else s.ring := by
  have hr : (receive s (transition s { s with adbDoutStrobe := false, listen := false } i) i).ring =
      s.ring := congrArg Prod.fst held_received
  rw [State.commanded]
  generalize receive s (transition s { s with adbDoutStrobe := false, listen := false } i) i = m
    at hr ⊢
  have hcells : m.kbdFifo = s.kbdFifo := congrArg Prod.fst hr
  have hrd : m.kbdFifoRd = s.kbdFifoRd := congrArg (fun r => r.2.1) hr
  have hwr : m.kbdFifoWr = s.kbdFifoWr := congrArg (fun r => r.2.2) hr
  rw [show (receiveListen s _ i).ring = _ from congrArg Prod.fst held_receiveListen, execute]
  cases hx : s.executes i with
  | false => exact hr
  | true =>
    rw [if_pos rfl]
    change (processCommand s m false).ring = _
    rw [Bool.true_and, Bool.true_and]
    cases hc : s.clears with
    | true => rw [ring_processCommand_clears hc, hcells, if_pos rfl]
    | false =>
      rw [if_neg Bool.false_ne_true]
      cases ht : s.asksKeys with
      | false => rw [ring_processCommand hc ht, hr, if_neg Bool.false_ne_true]
      | true =>
        rw [processCommand_asksKeys ht, if_pos rfl, State.rdTalked]
        unfold talkKeys State.respond
        split_ifs <;> simp only [State.ring, hcells, hrd, hwr]

/-! ### The FIFO as a queue -/

/-- The key events in the FIFO, the oldest first. -/
def State.queued (s : State) : List Byte := window s.kbdFifo s.kbdFifoRd s.kbdFifoWr

/-- The key bytes of a response, `$FF` being padding. -/
def keyBytes (bytes : List Byte) : List Byte := bytes.filter fun b => b ≠ 0xFF

theorem ring_storeKey :
    (storeKey s n i).ring =
      if i.keyEvent then
        (Function.update n.ring.1 s.kbdFifoWr i.keyData, n.ring.2.1, s.kbdFifoWr + 1)
      else n.ring := by
  unfold storeKey
  split_ifs <;> rfl

/-- The FIFO after a clock without a key event. -/
def State.ringCommands (s : State) (i : Input) : (BitVec 3 → Byte) × BitVec 3 × BitVec 3 :=
  if s.flushes i then (s.kbdFifo, 0, 0)
  else if s.talks i then (s.kbdFifo, s.rdTalked, s.kbdFifoWr)
  else s.ring

theorem ringCommands_cells : (s.ringCommands i).1 = s.kbdFifo := by
  unfold State.ringCommands
  split_ifs <;> rfl

/-- The write pointer of a key event is the old one, whatever the command does to it. -/
theorem ring_step :
    (step s i).ring =
      match i.key with
      | some k =>
        (Function.update s.kbdFifo s.kbdFifoWr k, (s.ringCommands i).2.1, s.kbdFifoWr + 1)
      | none => s.ringCommands i := by
  unfold step State.ringCommands State.flushes State.talks Input.key
  cases i.reset with
  | true => rfl
  | false =>
    cases i.clkEn with
    | false => rfl
    | true =>
      simp only [Bool.false_eq_true, if_false, if_true, Bool.not_false, Bool.true_and,
        Bool.false_or]
      rw [State.enabled, ring_moveMouse, ring_storeKey, ring_commanded]
      cases i.keyEvent with
      | false => rfl
      | true =>
        simp only [if_true]
        split_ifs <;> rfl

/-! ### One clock of the queue -/

theorem queued_of_ring {s' : State} {r : (BitVec 3 → Byte) × BitVec 3 × BitVec 3}
    (h : s'.ring = r) : s'.queued = window r.1 r.2.1 r.2.2 := by
  rw [← h]
  rfl

/-- Talk register 0 takes the first two keys. -/
theorem window_rdTalked : window s.kbdFifo s.rdTalked s.kbdFifoWr = s.queued.drop 2 := by
  unfold State.rdTalked State.kbdFifoEmpty State.queued
  by_cases h0 : s.kbdFifoRd = s.kbdFifoWr
  · rw [if_pos (beq_iff_eq.mpr h0), h0, window_self]
    rfl
  · rw [if_neg (by simpa using h0), window_pop h0, List.drop_succ_cons]
    by_cases h1 : s.kbdFifoRd + 1 = s.kbdFifoWr
    · rw [if_neg (not_not.mpr h1), h1, window_self]
      rfl
    · rw [if_pos h1, window_pop h1, List.drop_succ_cons, List.drop_zero, BitVec.add_assoc]
      rfl

/-- The keys a clock leaves in the FIFO, without a key event. -/
def State.kept (s : State) (i : Input) : List Byte :=
  if s.flushes i then [] else if s.talks i then s.queued.drop 2 else s.queued

theorem window_ringCommands :
    window s.kbdFifo (s.ringCommands i).2.1 (s.ringCommands i).2.2 = s.kept i := by
  unfold State.ringCommands State.kept
  split_ifs
  · exact window_self
  · exact window_rdTalked
  · rfl

theorem queued_of_none (hk : i.key = none) : (step s i).queued = s.kept i := by
  have hring := @ring_step s i
  rw [hk] at hring
  rw [queued_of_ring hring, ringCommands_cells, window_ringCommands]

/-- A key event behind the keys a clock leaves, when the clock does not flush. -/
theorem queued_of_key {k : Byte} (hf : s.flushes i = false) (hk : i.key = some k)
    (hroom : (s.kept i).length ≠ 7) : (step s i).queued = s.kept i ++ [k] := by
  have hwr : (s.ringCommands i).2.2 = s.kbdFifoWr := by
    rw [State.ringCommands, hf, if_neg Bool.false_ne_true]
    split_ifs <;> rfl
  have hkept := @window_ringCommands s i
  rw [hwr] at hkept
  have hring := @ring_step s i
  rw [hk] at hring
  rw [queued_of_ring hring, ← hkept]
  apply window_push
  intro hfull
  apply hroom
  rw [← hkept, length_window, ← hfull, ← BitVec.sub_sub, BitVec.sub_self]
  rfl

/-- A key event in the clock of a flush is written behind the keys from before it. -/
theorem queued_of_flush_key {k : Byte} (hf : s.flushes i = true) (hk : i.key = some k) :
    (step s i).queued = window (Function.update s.kbdFifo s.kbdFifoWr k) 0 (s.kbdFifoWr + 1) := by
  have hring := @ring_step s i
  rw [hk, State.ringCommands, hf, if_pos rfl] at hring
  exact queued_of_ring hring

/-! ### The answer to Talk register 0 -/

theorem keyBytes_cons {b : Byte} {l : List Byte} (h : b ≠ 0xFF) :
    keyBytes (b :: l) = b :: keyBytes l :=
  List.filter_cons_of_pos (decide_eq_true h)

theorem keyBytes_talkKeys (hn : n.respLen = 0) (hkeys : ∀ b ∈ s.queued, b ≠ 0xFF) :
    keyBytes (talkKeys s n).answer = s.queued.take 2 := by
  unfold talkKeys State.kbdFifoEmpty
  unfold State.queued at hkeys ⊢
  by_cases h0 : s.kbdFifoRd = s.kbdFifoWr
  · rw [if_pos (beq_iff_eq.mpr h0), h0, window_self, State.answer, hn]
    rfl
  · rw [if_neg (by simpa using h0)]
    rw [window_pop h0] at hkeys ⊢
    have hfirst := hkeys _ List.mem_cons_self
    by_cases h1 : s.kbdFifoRd + 1 = s.kbdFifoWr
    · rw [if_neg (not_not.mpr h1), h1, window_self]
      change keyBytes [s.kbdFifo s.kbdFifoRd, 0xFF] = _
      rw [keyBytes_cons hfirst]
      rfl
    · rw [window_pop h1] at hkeys ⊢
      have hsecond := hkeys _ (List.mem_cons_of_mem _ List.mem_cons_self)
      rw [if_pos h1]
      change keyBytes [s.kbdFifo s.kbdFifoRd, s.kbdFifo (s.kbdFifoRd + 1)] = _
      rw [keyBytes_cons hfirst, keyBytes_cons hsecond]
      rfl

/-- Talk register 0 answers with the first two keys. -/
theorem keyBytes_step (ht : s.talks i = true) (hkeys : ∀ b ∈ s.queued, b ≠ 0xFF) :
    keyBytes (step s i).answer = s.queued.take 2 := by
  rw [State.talks, Bool.and_eq_true, Bool.and_eq_true, Bool.and_eq_true, Bool.not_eq_true'] at ht
  obtain ⟨⟨⟨hreset, hen⟩, hx⟩, hask⟩ := ht
  rw [step, hreset, if_neg Bool.false_ne_true, hen, if_pos rfl, State.enabled, State.commanded,
    answer_late, execute, if_pos hx,
    processCommand_asksKeys hask]
  exact keyBytes_talkKeys rfl hkeys

/-! ### Runs -/

/-- The key bytes of the Talk register 0 responses since the last flush. -/
def returned (s : State) (u : ℕ → Input) : ℕ → List Byte
  | 0 => []
  | t + 1 =>
    if (run step s u t).flushes (u t) then []
    else if (run step s u t).talks (u t) then
      returned s u t ++ keyBytes (run step s u (t + 1)).answer
    else returned s u t

/-- What a clock may do to the events `q` accepted since the last flush: an event is accepted, or
dropped when the buffer already holds seven, and one in the clock of a flush comes before it or
after it. -/
def Accepts (flush : Bool) (key : Option Byte) (held : ℕ) (q q' : List Byte) : Prop :=
  match flush, key with
  | false, none => q' = q
  | false, some k => q' = q ++ [k] ∨ 7 ≤ held ∧ q' = q
  | true, none => q' = []
  | true, some k => q' = [] ∨ q' = [k]

/-- Up to clock `m` what has been returned and what is queued are the events accepted since the
last flush, in order. -/
def KeysKept (s : State) (u : ℕ → Input) (m : ℕ) : Prop :=
  ∃ q : ℕ → List Byte, q 0 = [] ∧
    (∀ t < m, Accepts ((run step s u t).flushes (u t)) (u t).key
      ((q t).length - (returned s u (t + 1)).length) (q t) (q (t + 1))) ∧
    ∀ t ≤ m, returned s u t ++ (run step s u t).queued = q t

/-- A key event overruns the buffer: it is the eighth without a Talk, or it comes in the clock of a
flush while the write pointer is neither at the first nor at the last cell. -/
def Overruns (s : State) (i : Input) : Prop :=
  i.key.isSome = true ∧
    if s.flushes i then s.kbdFifoWr ≠ 0 ∧ s.kbdFifoWr ≠ 7
    else s.talks i = false ∧ s.queued.length = 7

theorem key_ne {k : Byte} (hk : i.key = some k) : k ≠ 0xFF := by
  rintro rfl
  unfold Input.key Input.keyEvent at hk
  split_ifs at hk with h
  rw [Option.some.injEq] at hk
  rw [hk, Bool.and_eq_true, Bool.and_eq_true] at h
  have hcode := (Bool.and_eq_true_iff.mp h.2).2
  exact absurd hcode (by decide)

theorem queued_length_le : s.queued.length ≤ 7 := by
  rw [State.queued, length_window]
  exact Nat.le_of_lt_succ (BitVec.isLt _)

/-- What a clock that overruns nothing does to the queue. -/
theorem queued_step (h : ¬ Overruns s i) :
    (step s i).queued = s.kept i ++ i.key.toList ∨
      s.flushes i = true ∧ (step s i).queued = [] := by
  cases hk : i.key with
  | none => exact .inl (by rw [queued_of_none hk, Option.toList_none, List.append_nil])
  | some k =>
    rw [Overruns, hk, Option.isSome_some, eq_self_iff_true, true_and] at h
    cases hf : s.flushes i with
    | false =>
      rw [hf, if_neg Bool.false_ne_true] at h
      refine .inl (queued_of_key hf hk fun hfull => ?_)
      rw [State.kept, hf, if_neg Bool.false_ne_true] at hfull
      have hle := @queued_length_le s
      split_ifs at hfull with ht
      · rw [List.length_drop] at hfull
        omega
      · exact h ⟨eq_false_of_ne_true ht, hfull⟩
    | true =>
      rw [hf, if_pos rfl, not_and_or, not_not, not_not] at h
      rcases h with h0 | h7
      · refine .inl ?_
        rw [queued_of_flush_key hf hk, h0, window_push (by decide), window_self, State.kept, hf,
          if_pos rfl]
        rfl
      · -- both pointers are 0 afterwards, as if the event came before the flush
        refine .inr ⟨rfl, ?_⟩
        rw [queued_of_flush_key hf hk, h7]
        exact window_self

/-- No key event is the padding byte. -/
theorem noPad_step (h : ¬ Overruns s i) (hs : ∀ b ∈ s.queued, b ≠ 0xFF) :
    ∀ b ∈ (step s i).queued, b ≠ 0xFF := by
  intro b hb
  rcases queued_step h with hq | ⟨-, hq⟩
  · rw [hq, List.mem_append, Option.mem_toList] at hb
    rcases hb with hb | hb
    · unfold State.kept at hb
      split_ifs at hb
      · exact absurd hb List.not_mem_nil
      · exact hs b (List.mem_of_mem_drop hb)
      · exact hs b hb
    · exact key_ne hb
  · rw [hq] at hb
    exact absurd hb List.not_mem_nil

section Run

variable {u : ℕ → Input} {t m : ℕ}

theorem returned_flush (h : (run step s u t).flushes (u t) = true) :
    returned s u (t + 1) = [] := by
  rw [returned, if_pos h]

theorem returned_idle (hf : (run step s u t).flushes (u t) = false)
    (ht : (run step s u t).talks (u t) = false) : returned s u (t + 1) = returned s u t := by
  rw [returned, hf, if_neg Bool.false_ne_true, ht, if_neg Bool.false_ne_true]

/-- What is returned and what is kept make up what was there before. -/
theorem returned_kept (hf : (run step s u t).flushes (u t) = false)
    (hpad : ∀ b ∈ (run step s u t).queued, b ≠ 0xFF) :
    returned s u (t + 1) ++ (run step s u t).kept (u t) =
      returned s u t ++ (run step s u t).queued := by
  rw [State.kept, hf, if_neg Bool.false_ne_true]
  cases ht : (run step s u t).talks (u t) with
  | false => rw [returned_idle hf ht, if_neg Bool.false_ne_true]
  | true =>
    rw [returned, hf, if_neg Bool.false_ne_true, ht, if_pos rfl, if_pos rfl, run_succ,
      keyBytes_step ht hpad, List.append_assoc, List.take_append_drop]

/-- A clock that overruns nothing accepts its event. -/
theorem accepts_step (h : ¬ Overruns (run step s u t) (u t))
    (hpad : ∀ b ∈ (run step s u t).queued, b ≠ 0xFF) (held : ℕ) :
    Accepts ((run step s u t).flushes (u t)) (u t).key held
      (returned s u t ++ (run step s u t).queued)
      (returned s u (t + 1) ++ (run step s u (t + 1)).queued) := by
  have hq := queued_step h
  rw [run_succ]
  cases hf : (run step s u t).flushes (u t) with
  | true =>
    rw [returned_flush hf, List.nil_append]
    rw [State.kept, hf, if_pos rfl, List.nil_append] at hq
    cases hk : (u t).key with
    | none =>
      rw [hk] at hq
      exact hq.elim id And.right
    | some k =>
      rw [hk] at hq
      exact hq.symm.imp_left And.right
  | false =>
    have hkept := hq.resolve_right fun h => Bool.false_ne_true (hf ▸ h.1)
    rw [hkept, ← List.append_assoc, returned_kept hf hpad]
    cases (u t).key with
    | none => exact List.append_nil _
    | some k => exact .inl rfl

/-- A clock that overruns the buffer loses queued keys, or brings back flushed ones. -/
theorem not_accepts_step (h : Overruns (run step s u t) (u t)) :
    ¬ Accepts ((run step s u t).flushes (u t)) (u t).key
      ((returned s u t ++ (run step s u t).queued).length - (returned s u (t + 1)).length)
      (returned s u t ++ (run step s u t).queued)
      (returned s u (t + 1) ++ (run step s u (t + 1)).queued) := by
  obtain ⟨hkey, hcond⟩ := h
  obtain ⟨k, hk⟩ := Option.isSome_iff_exists.mp hkey
  rw [run_succ, hk]
  cases hf : (run step s u t).flushes (u t) with
  | true =>
    rw [hf, if_pos rfl] at hcond
    rw [returned_flush hf, List.nil_append, queued_of_flush_key hf hk]
    have hlen : ∀ wr : BitVec 3, wr ≠ 0 → wr ≠ 7 → 1 < (wr + 1 - 0).toNat := by decide
    have hlong := hlen _ hcond.1 hcond.2
    rw [← @length_window _ _ (Function.update (run step s u t).kbdFifo
      (run step s u t).kbdFifoWr k)] at hlong
    rintro (hq | hq) <;> rw [hq] at hlong <;> exact absurd hlong (by simp)
  | false =>
    rw [hf, if_neg Bool.false_ne_true] at hcond
    -- the write pointer meets the read pointer, which reads as an empty FIFO
    have hempty : (step (run step s u t) (u t)).queued = [] := by
      have hring := @ring_step (run step s u t) (u t)
      rw [hk, State.ringCommands, hf, if_neg Bool.false_ne_true, hcond.1,
        if_neg Bool.false_ne_true] at hring
      have hfull := hcond.2
      rw [State.queued, length_window] at hfull
      have hwr : (run step s u t).kbdFifoWr + 1 = (run step s u t).kbdFifoRd := by bv_omega
      rw [queued_of_ring hring, hwr]
      exact window_self
    rw [returned_idle hf hcond.1, hempty, List.append_nil]
    have hseven := hcond.2
    rintro (hq | ⟨-, hq⟩) <;> have hlen := congrArg List.length hq <;>
      rw [List.length_append] at hlen
    · rw [List.length_append, hseven] at hlen
      omega
    · omega

theorem not_keysKept (ht : t < m) (h : Overruns (run step s u t) (u t)) : ¬ KeysKept s u m := by
  rintro ⟨q, -, haccept, hq⟩
  have hstep := haccept t ht
  rw [← hq t ht.le, ← hq (t + 1) ht] at hstep
  exact not_accepts_step h hstep

/-- Key events are neither lost nor reordered exactly as long as none overruns the buffer. -/
theorem keysKept_iff (s : State) (u : ℕ → Input) (m : ℕ) :
    KeysKept s.init u m ↔ ∀ t < m, ¬ Overruns (run step s.init u t) (u t) := by
  constructor
  · exact fun h t ht hover => not_keysKept ht hover h
  · intro h
    have hpad : ∀ t ≤ m, ∀ b ∈ (run step s.init u t).queued, b ≠ 0xFF := by
      intro t
      induction t with
      | zero =>
        intro _ b hb
        exact absurd hb (by rw [run_zero]; simp [State.queued, State.init])
      | succ t ih => exact fun ht => noPad_step (h t ht) (ih (Nat.le_of_succ_le ht))
    refine ⟨fun t => returned s.init u t ++ (run step s.init u t).queued, ?_, ?_, fun _ _ => rfl⟩
    · exact window_self
    · exact fun t ht => accepts_step (h t ht) (hpad t ht.le) _

end Run

/-- A chip with every register clear. -/
def blank : State where
  cmdByte := 0
  cmdValid := false
  cmdProcessed := false
  response _ := 0
  respLen := 0
  respIdx := 0
  listenData _ := 0
  listenLen := 0
  stPrev := .idle
  kbdAddr := 0
  mouseAddr := 0
  kbdReg2 := 0
  kbdFifo _ := 0
  kbdFifoRd := 0
  kbdFifoWr := 0
  mouseX := 0
  mouseY := 0
  mouseButton := false
  mouseHasEvent := false
  listen := false
  adbDout := 0
  adbDoutStrobe := false

/-- The idle bus in an enabled clock, with a key event. -/
def pressed (k : Byte) : Input :=
  ⟨false, true, .idle, 0, false, true, k, false, 0, 0, false⟩

/-- Eight key events without a Talk: the seven that were queued are gone. -/
theorem eight_keys : ¬ KeysKept blank.init (fun t => pressed (BitVec.ofNat 8 t)) 8 := by
  apply not_keysKept (show 7 < 8 by decide)
  refine ⟨rfl, ?_⟩
  rw [if_neg (by decide)]
  exact ⟨by decide, by decide⟩

end Adb
