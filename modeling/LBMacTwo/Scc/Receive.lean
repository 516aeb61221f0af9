import LBMacTwo.Scc.Reads

/-!
# The receive queues of the serial controller

* `Chan.queued`: the bytes in the queue of a channel;
* `History`: the bytes received since the reset for which there was room, and those the data reads
  have taken out;
* `InOrder`: what has been taken out and what is queued are what has been received;
* `inOrder_iff`: they are as long as no byte arrives in a clock in which one is taken out of a queue
  that is not full;
* `lost_byte`: a byte that does.
-/

namespace Scc
open Clocked

variable {c : Side} {s : State} {i : In} {u : ℕ → In} {t : ℕ}

/-! ### The queue as a list -/

def Chan.queued (c : Chan) : List Byte := (List.range c.rxQueuePos).map c.rxQueue

theorem length_queued (c : Chan) : c.queued.length = c.rxQueuePos := by simp [Chan.queued]

theorem packByte_zero (b7 b6 b5 b4 b3 b2 b1 b0 : Bool) :
    (packByte b7 b6 b5 b4 b3 b2 b1 b0).getLsbD 0 = b0 := by
  rw [packByte, BitVec.getLsbD_append, if_pos Nat.one_pos]
  cases b0 <;> rfl

/-- RR0 says whether a byte is there. -/
theorem rr0_rxAvailable :
    (rr0 c s i).getLsbD 0 = true ↔ (s.chan c).queued ≠ [] := by
  have hbit : (rr0 c s i).getLsbD 0 = ((s.chan c).rxQueuePos != 0) := by
    cases c <;> exact packByte_zero _ _ _ _ _ _ _ _
  rw [← List.length_pos_iff, length_queued, Nat.pos_iff_ne_zero, hbit, bne_iff_ne]

/-- The byte behind the last one. -/
theorem map_range_update (q : ℕ → Byte) (n : ℕ) (d : Byte) :
    (List.range (n + 1)).map (Function.update q n d) = (List.range n).map q ++ [d] := by
  rw [List.range_succ, List.map_append, List.map_singleton, Function.update_self]
  congr 1
  refine List.map_congr_left fun k hk => ?_
  have hlt := List.mem_range.mp hk
  rw [Function.update_of_ne hlt.ne]

/-- The queue without its first byte. -/
theorem map_range_shiftQueue (q : ℕ → Byte) {n : ℕ} (h : n ≤ 2) :
    (List.range (n + 1)).map q = q 0 :: (List.range n).map (shiftQueue q) := by
  rw [List.range_succ_eq_map, List.map_cons, List.map_map]
  congr 1
  refine List.map_congr_left fun k hk => ?_
  have hlt := List.mem_range.mp hk
  rw [Function.comp_apply, shiftQueue, if_pos (by omega)]

/-! ### One clock -/

theorem step_queued :
    ((step s i).chan c).queued = (List.range (rxQueuePosNext c s i)).map (rxQueueNext c s i) := by
  rw [step_chan]
  rfl

theorem queued_of_reset (h : reset s i = true) : ((step s i).chan c).queued = [] := by
  rw [step_queued, rxQueuePosNext, h]
  rfl

theorem dequeue_data (h : dequeue c s i = true) :
    i.data = true ∧ (s.chan c).rxQueuePos ≠ 0 := by
  simp only [dequeue, Bool.and_eq_true, bne_iff_ne] at h
  exact ⟨h.1.1.2, h.2⟩

/-- A read takes the first byte, whatever arrives. -/
theorem queued_of_dequeue (hle : (s.chan c).rxQueuePos ≤ 3) (h : dequeue c s i = true) :
    (s.chan c).queued = (s.chan c).rxQueue 0 :: ((step s i).chan c).queued := by
  obtain ⟨hdata, hpos⟩ := dequeue_data h
  obtain ⟨n, hn⟩ := Nat.exists_eq_succ_of_ne_zero hpos
  rw [step_queued, rxQueuePosNext, rxQueueNext, reset_of_data hdata, h, Chan.queued, hn]
  exact map_range_shiftQueue _ (by omega)

theorem queued_of_enqueue (hr : reset s i = false) (hd : dequeue c s i = false)
    (h : enqueue c s i = true) :
    ((step s i).chan c).queued = (s.chan c).queued ++ [(i.line c).data] := by
  rw [step_queued, rxQueuePosNext, rxQueueNext, hr, hd, h]
  exact map_range_update _ _ _

theorem queued_of_rest (hr : reset s i = false) (hd : dequeue c s i = false)
    (h : enqueue c s i = false) : ((step s i).chan c).queued = (s.chan c).queued := by
  rw [step_queued, rxQueuePosNext, rxQueueNext, hr, hd, h]
  rfl

theorem rxQueuePos_step (h : (s.chan c).rxQueuePos ≤ 3) :
    ((step s i).chan c).rxQueuePos ≤ 3 := by
  rw [step_chan]
  change rxQueuePosNext c s i ≤ 3
  unfold rxQueuePosNext
  split_ifs with hr hd he
  · exact Nat.zero_le 3
  · omega
  · simp only [enqueue, Bool.and_eq_true, decide_eq_true_eq] at he
    exact he.2
  · exact h

/-- Never more than three bytes. -/
theorem rxQueuePos_run (u : ℕ → In) (t : ℕ) : ((run step .init u t).chan c).rxQueuePos ≤ 3 := by
  refine @run_inv _ _ step (fun s => (s.chan c).rxQueuePos ≤ 3)
    (fun _ _ h => rxQueuePos_step h) .init ?_ u t
  cases c <;> exact Nat.zero_le 3

/-! ### Histories -/

/-- What a channel has received since the reset, without the bytes that came when three were queued,
and what has been taken out. -/
structure History where
  received : List Byte
  removed : List Byte

/-- A byte arrives that finds room. -/
def arrives (c : Side) (s : State) (i : In) : Bool :=
  (i.line c).rxWr && (s.chan c).rxQueuePos != 3

def History.next (h : History) (c : Side) (s : State) (i : In) : History :=
  if reset s i then ⟨[], []⟩
  else {
    received := h.received ++ if arrives c s i then [(i.line c).data] else []
    removed := h.removed ++ if dequeue c s i then [(s.chan c).rxQueue 0] else [] }

def history (c : Side) (u : ℕ → In) : ℕ → History
  | 0 => ⟨[], []⟩
  | t + 1 => (history c u t).next c (run step .init u t) (u t)

structure InOrder (c : Side) (u : ℕ → In) (t : ℕ) : Prop where
  order : (history c u t).removed ++ ((run step .init u t).chan c).queued =
    (history c u t).received
  pos_le : ((run step .init u t).chan c).rxQueuePos ≤ 3
  rr0 : (rr0 c (run step .init u t) (u t)).getLsbD 0 = true ↔
    ((run step .init u t).chan c).queued ≠ []

theorem arrives_eq (h : (s.chan c).rxQueuePos ≤ 3) : arrives c s i = enqueue c s i := by
  rw [arrives, enqueue]
  congr 1
  rw [Bool.eq_iff_iff, bne_iff_ne, decide_eq_true_eq]
  omega

theorem history_step (c : Side) (u : ℕ → In) (t : ℕ) :
    history c u (t + 1) = (history c u t).next c (run step .init u t) (u t) := rfl

theorem InOrder.zero (c : Side) (u : ℕ → In) : InOrder c u 0 where
  order := by cases c <;> rfl
  pos_le := rxQueuePos_run u 0
  rr0 := rr0_rxAvailable

/-- A clock in which a byte arrives or one is taken out, but not both. -/
theorem InOrder.step (h : InOrder c u t)
    (hone : ¬ (dequeue c (run step .init u t) (u t) = true ∧
      enqueue c (run step .init u t) (u t) = true)) : InOrder c u (t + 1) := by
  refine ⟨?_, rxQueuePos_run u (t + 1), rr0_rxAvailable⟩
  have hle := h.pos_le
  have horder := h.order
  rw [history_step, run_succ]
  generalize run Scc.step .init u t = s at *
  rw [History.next, arrives_eq hle]
  cases hr : reset s (u t)
  case true =>
    rw [if_pos rfl, queued_of_reset hr]
    rfl
  case false =>
    rw [if_neg Bool.false_ne_true]
    cases hd : dequeue c s (u t)
    case true =>
      have he : enqueue c s (u t) = false := by
        by_contra he
        exact hone ⟨hd, by simpa using he⟩
      simp only [he, Bool.false_eq_true, if_false, if_true, List.append_nil]
      rw [List.append_assoc, List.singleton_append, ← queued_of_dequeue hle hd, horder]
    case false =>
      cases he : enqueue c s (u t)
      case true =>
        simp only [Bool.false_eq_true, if_false, if_true, List.append_nil]
        rw [queued_of_enqueue hr hd he, ← List.append_assoc, horder]
      case false =>
        simp only [Bool.false_eq_true, if_false, List.append_nil]
        rw [queued_of_rest hr hd he, horder]

/-- The byte that arrives in the clock of a read is neither queued nor taken out. -/
theorem InOrder.not_step (h : InOrder c u t)
    (hd : dequeue c (run Scc.step .init u t) (u t) = true)
    (he : enqueue c (run Scc.step .init u t) (u t) = true) : ¬ InOrder c u (t + 1) := by
  intro hnext
  have hle := h.pos_le
  have hlen := congrArg List.length h.order
  have hlen' := congrArg List.length hnext.order
  rw [history_step, run_succ] at hlen'
  generalize run Scc.step .init u t = s at *
  have htake := congrArg List.length (queued_of_dequeue hle hd)
  rw [History.next, arrives_eq hle, reset_of_data (dequeue_data hd).1, hd, he] at hlen'
  simp only [Bool.false_eq_true, if_false, if_true, List.length_append, List.length_cons,
    List.length_nil] at hlen hlen' htake
  omega

/-- Along every run, with reads and arrivals at any clocks: the bytes taken out of a channel and those
queued are the bytes received in their order, and RR0 tells whether one is queued, at every clock,
exactly if no byte arrives in a clock in which a read takes one out of a queue of one or two. -/
theorem inOrder_iff (c : Side) (u : ℕ → In) :
    (∀ t, InOrder c u t) ↔ ∀ t, ¬ (dequeue c (run step .init u t) (u t) = true ∧
      enqueue c (run step .init u t) (u t) = true) := by
  constructor
  · intro h t hboth
    exact (h t).not_step hboth.1 hboth.2 (h (t + 1))
  · intro h t
    induction t with
    | zero => exact .zero c u
    | succ t ih => exact ih.step (h t)

/-- Byte 1 arrives on channel A, and byte 2 in the clock of the read that takes it out. -/
def overlapping (t : ℕ) : In :=
  [{ idle with line := fun _ => { quiet with rxWr := true, data := 1 } },
    { (⟨false, true, .a, 0⟩ : Access).clock true true with
      line := fun _ => { quiet with rxWr := true, data := 2 } }].getD t idle

theorem lost_byte : (history .a overlapping 2).received = [1, 2] ∧
    (history .a overlapping 2).removed = [1] ∧
    ((run step .init overlapping 2).chan .a).queued = [] ∧ ¬ InOrder .a overlapping 2 := by
  have hreceived : (history .a overlapping 2).received = [1, 2] := by decide +kernel
  have hremoved : (history .a overlapping 2).removed = [1] := by decide +kernel
  have hqueued : ((run step .init overlapping 2).chan .a).queued = [] := by decide +kernel
  refine ⟨hreceived, hremoved, hqueued, fun h => ?_⟩
  have horder := h.order
  rw [hreceived, hremoved, hqueued] at horder
  cases horder

end Scc
