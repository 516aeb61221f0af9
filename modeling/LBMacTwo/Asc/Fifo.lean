import LBMacTwo.Asc.Chip
import LBMacTwo.Foundation.Clocked
import LBMacTwo.Foundation.RingBuffer

/-!
# The sample FIFOs of the sound chip

While the chip is in FIFO mode each channel is a queue: the CPU pushes bytes, a sample tick pops one
and puts it on the output.

* `Chan.Queue c q`: the memory of `c` holds the queue `q` between its pointers;
* `written`, `heard`: the bytes pushed and the samples put out since the mode was entered;
* `Aligned`: no byte is pushed in the clock of a tick, and the memory is read at the read pointer in
  the clock before a tick;
* `heard_eq_written`: then what is heard is what was written;
* `run_idle`: the chip after reset on an idle bus;
* `tick_hears_bus_address`: the sample of a tick comes from the address the bus carried one clock
  earlier.
-/

namespace Asc
open Clocked RingBuffer

/-- The left output plays memory A, the right one memory B. -/
inductive Side
  | left
  | right

def Side.bank : Side → ℕ
  | .left => 0
  | .right => 1

def State.chan (s : State) : Side → Chan
  | .left => s.a
  | .right => s.b

/-- Channel B drains in stereo only. -/
def State.enabled (s : State) : Side → Bool
  | .left => true
  | .right => s.ctrlStereo

def State.out (s : State) : Side → Word
  | .left => s.audioLeft
  | .right => s.audioRight

variable {side : Side} {s : State} {i : In} {u : ℕ → In} {c : Chan} {bank addrB : ℕ}
  {enabled : Bool} {q : List Byte} {x : Byte} {t : ℕ}

theorem chan_step (side : Side) (s : State) (i : In) :
    ∃ addrB, (step s i).chan side = (s.chan side).step side.bank (s.enabled side) addrB s i := by
  cases side with
  | left => exact ⟨wtAddrNext 0 1 s.a s, rfl⟩
  | right => exact ⟨wtAddrNext 2 3 s.b s, rfl⟩

/-- In FIFO mode a tick that drains a channel puts out what its memory port read last. -/
theorem out_step (h : (s.chan side).drains (s.enabled side) s = true) :
    (step s i).out side = pcm (s.chan side).rdataA := by
  unfold Chan.drains at h
  simp only [Bool.and_eq_true, decide_eq_true_eq] at h
  obtain ⟨⟨htick, hen⟩, hcount⟩ := h
  have hsample : (s.chan side).sample = (s.chan side).rdataA := by rw [Chan.sample, if_pos hcount]
  cases side with
  | left =>
    change audioLeftNext s = pcm s.a.rdataA
    rw [audioLeftNext, if_pos htick]
    exact congrArg pcm hsample
  | right =>
    change s.ctrlStereo = true at hen
    change audioRightNext s = pcm s.b.rdataA
    rw [audioRightNext, if_pos htick, if_pos hen]
    exact congrArg pcm hsample

/-! ### A channel as a queue -/

/-- The memory of `c` holds `q`, oldest byte first, between the read and the write pointer. -/
structure Chan.Queue (c : Chan) (q : List Byte) : Prop where
  cells : Holds 1024 c.ram c.rdPtr q
  count : c.count = q.length
  wrPtr : c.wrPtr = (c.rdPtr + q.length) % 1024
  rdPtr : c.rdPtr < 1024

theorem not_drains_of_not_fifoTick (h : s.fifoTick = false) : c.drains enabled s = false := by
  simp [Chan.drains, h]

/-- The FIFOs are cleared in this clock. -/
def clears (s : State) (i : In) : Bool := modeChange s i || fifoClear s i

theorem rdPtr_step (hd : c.drains enabled s = false) (hclear : clears s i = false) :
    (c.step bank enabled addrB s i).rdPtr = c.rdPtr := by
  change rdPtrNext enabled c s i = c.rdPtr
  unfold clears at hclear
  simp [rdPtrNext, hd, hclear]

theorem wrPtr_step (hw : fifoWrite bank s i = false) (hclear : clears s i = false) :
    (c.step bank enabled addrB s i).wrPtr = c.wrPtr := by
  change wrPtrNext bank c s i = c.wrPtr
  unfold clears at hclear
  simp [wrPtrNext, hw, hclear]

theorem portWe_of_mode (hm : s.ascMode = 1) (hw : fifoWrite bank s i = false) :
    portWe bank s i = false := by
  unfold portWe
  unfold fifoWrite at hw
  simp only [hm, beq_self_eq_true, Bool.and_true] at hw
  rw [hw, Bool.and_false]

/-- A push stores the byte behind the queue. -/
theorem Chan.Queue.push (h : c.Queue q) (hw : fifoWrite bank s i = true)
    (htick : s.fifoTick = false) (hclear : clears s i = false) (hroom : c.count < 1024) :
    (c.step bank enabled addrB s i).Queue (q ++ [ascWriteData s i]) := by
  have hd : c.drains enabled s = false := not_drains_of_not_fifoTick htick
  have hbank : bankWrite bank s i = true ∧ (s.ascMode == 1) = true := by
    unfold fifoWrite at hw
    exact (Bool.and_eq_true _ _).mp hw
  have haddr : portAddr bank c s i = c.wrPtr := by
    simp only [portAddr, htick, hbank.1, hbank.2, Bool.false_eq_true, if_false, if_true]
  have hwe : portWe bank s i = true := by simp [portWe, htick, hbank.1]
  have hram : (c.step bank enabled addrB s i).ram =
      Function.update c.ram c.wrPtr (ascWriteData s i) := by
    simp only [Chan.step, hwe, haddr, if_true]
  have hrd : (c.step bank enabled addrB s i).rdPtr = c.rdPtr := rdPtr_step hd hclear
  constructor
  · rw [hram, hrd, h.wrPtr]
    exact h.cells.push (h.count ▸ hroom)
  · change countNext bank enabled c s i = _
    rw [countNext, if_neg (by simp [hd]), if_pos hw, if_pos hroom, h.count, List.length_append,
      List.length_singleton]
  · rw [hrd]
    change wrPtrNext bank c s i = _
    simp only [wrPtrNext, hw, if_true, h.wrPtr, List.length_append, List.length_singleton,
      Nat.mod_add_mod, Nat.add_assoc]
  · rw [hrd]
    exact h.rdPtr

/-- A tick takes the oldest byte off the queue. -/
theorem Chan.Queue.pop (h : c.Queue (x :: q)) (hm : s.ascMode = 1)
    (hw : fifoWrite bank s i = false) (hd : c.drains enabled s = true)
    (hclear : clears s i = false) : (c.step bank enabled addrB s i).Queue q := by
  have hram : (c.step bank enabled addrB s i).ram = c.ram := by
    simp [Chan.step, portWe_of_mode hm hw]
  have hrd : (c.step bank enabled addrB s i).rdPtr = (c.rdPtr + 1) % 1024 := by
    change rdPtrNext enabled c s i = _
    rw [rdPtrNext, if_pos hd]
  constructor
  · rw [hram, hrd]
    exact h.cells.pop
  · change countNext bank enabled c s i = _
    rw [countNext, if_pos hd, h.count, List.length_cons, Nat.add_sub_cancel]
  · rw [hrd, wrPtr_step hw hclear, h.wrPtr, List.length_cons, Nat.mod_add_mod,
      show c.rdPtr + 1 + q.length = c.rdPtr + (q.length + 1) by omega]
  · rw [hrd]
    exact Nat.mod_lt _ (by decide)

/-- A clock without a push and without a drain leaves the queue alone. -/
theorem Chan.Queue.idle (h : c.Queue q) (hm : s.ascMode = 1) (hw : fifoWrite bank s i = false)
    (hd : c.drains enabled s = false) (hclear : clears s i = false) :
    (c.step bank enabled addrB s i).Queue q := by
  have hram : (c.step bank enabled addrB s i).ram = c.ram := by
    simp [Chan.step, portWe_of_mode hm hw]
  have hrd : (c.step bank enabled addrB s i).rdPtr = c.rdPtr := rdPtr_step hd hclear
  constructor
  · rw [hram, hrd]
    exact h.cells
  · change countNext bank enabled c s i = _
    unfold clears at hclear
    simp [countNext, hd, hw, hclear, h.count]
  · rw [hrd, wrPtr_step hw hclear, h.wrPtr]
  · rw [hrd]
    exact h.rdPtr

/-- The write that enters FIFO mode empties both queues. -/
theorem queue_of_modeChange (hmode : s.ascMode ≠ 1) (hnext : (step s i).ascMode = 1) :
    ((step s i).chan side).Queue [] := by
  have hne : (s.ascMode == 1) = false := beq_false_of_ne hmode
  have htick : s.fifoTick = false := by rw [State.fifoTick, hne, Bool.false_and]
  have hw : fifoWrite side.bank s i = false := by rw [fifoWrite, hne, Bool.and_false]
  have hchange : modeChange s i = true := by
    change regNext 1 s.ascMode s i = 1 at hnext
    unfold regNext at hnext
    split at hnext
    · simp only [modeChange, *, Bool.true_and, bne_iff_ne]
      exact fun he => hmode he.symm
    · exact absurd hnext hmode
  obtain ⟨addrB, hstep⟩ := chan_step side s i
  rw [hstep]
  have hd : (s.chan side).drains (s.enabled side) s = false := not_drains_of_not_fifoTick htick
  have hrd : ((s.chan side).step side.bank (s.enabled side) addrB s i).rdPtr = 0 := by
    change rdPtrNext (s.enabled side) (s.chan side) s i = 0
    simp [rdPtrNext, hd, hchange]
  refine ⟨holds_nil, ?_, ?_, by omega⟩
  · change countNext side.bank (s.enabled side) (s.chan side) s i = 0
    simp [countNext, hd, hw, hchange]
  · rw [hrd]
    change wrPtrNext side.bank (s.chan side) s i = 0
    simp [wrPtrNext, hw, hchange]

/-! ### What is written and what is heard -/

variable (side s u)

/-- The bytes pushed into a channel in the first `t` clocks. -/
def written : ℕ → List Byte
  | 0 => []
  | t + 1 =>
    if fifoWrite side.bank (run step s u t) (u t) then
      written t ++ [ascWriteData (run step s u t) (u t)]
    else written t

/-- The samples put out in the first `t` clocks at the ticks that found the channel non-empty. -/
def heard : ℕ → List Word
  | 0 => []
  | t + 1 =>
    if ((run step s u t).chan side).drains ((run step s u t).enabled side) (run step s u t) then
      heard t ++ [(run step s u (t + 1)).out side]
    else heard t

/-- FIFO mode without a clear, and without a push into a full channel, up to clock `t`. -/
structure Streaming (t : ℕ) : Prop where
  mode : ∀ k ≤ t, (run step s u k).ascMode = 1
  noClear : ∀ k < t, fifoClear (run step s u k) (u k) = false
  room : ∀ k < t, fifoWrite side.bank (run step s u k) (u k) = true →
    ((run step s u k).chan side).count < 1024

/-- No byte is pushed in the clock of a tick, and in the clock before a tick that drains the channel
its memory is read at the read pointer. -/
structure Aligned (t : ℕ) : Prop where
  write : ∀ k < t, (run step s u k).fifoTick = true →
    fifoWrite side.bank (run step s u k) (u k) = false
  fetch : ∀ k, k + 1 < t →
    ((run step s u (k + 1)).chan side).drains ((run step s u (k + 1)).enabled side)
      (run step s u (k + 1)) = true →
    portWe side.bank (run step s u k) (u k) = false ∧
      portAddr side.bank ((run step s u k).chan side) (run step s u k) (u k) =
        ((run step s u (k + 1)).chan side).rdPtr

variable {side s u}

theorem clears_of_streaming (h : Streaming side s u t) {k : ℕ} (hk : k < t) :
    clears (run step s u k) (u k) = false := by
  have hmode : (run step s u k).ascMode = 1 := h.mode k (by omega)
  have hnext : (run step s u (k + 1)).ascMode = 1 := h.mode (k + 1) hk
  have hchange : modeChange (run step s u k) (u k) = false := by
    change regNext 1 (run step s u k).ascMode (run step s u k) (u k) = 1 at hnext
    unfold regNext at hnext
    unfold modeChange
    split at hnext
    · simp [hnext, hmode]
    · simp [*]
  simp [clears, hchange, h.noClear k hk]

/-- The byte a draining tick plays is the head of the queue. -/
theorem rdataA_of_fetch (h : (c.step bank enabled addrB s i).Queue (x :: q))
    (hwe : portWe bank s i = false)
    (haddr : portAddr bank c s i = (c.step bank enabled addrB s i).rdPtr) :
    (c.step bank enabled addrB s i).rdataA = x := by
  have hram : (c.step bank enabled addrB s i).ram = c.ram := by simp [Chan.step, hwe]
  have hhead := h.cells.head
  rw [Nat.mod_eq_of_lt h.rdPtr, hram, ← haddr] at hhead
  exact hhead

/-- Along an aligned run the bytes written are those played followed by those in the queue. -/
theorem stream_inv (h0 : (s.chan side).Queue []) (hs : Streaming side s u t)
    (ha : Aligned side s u t) :
    ∃ played q, ((run step s u t).chan side).Queue q ∧ written side s u t = played ++ q ∧
      heard side s u t = played.map pcm := by
  induction t with
  | zero => exact ⟨[], [], h0, rfl, rfl⟩
  | succ t ih =>
    obtain ⟨played, q, hq, hwritten, hheard⟩ :=
      ih ⟨fun k hk => hs.mode k (by omega), fun k hk => hs.noClear k (by omega),
        fun k hk => hs.room k (by omega)⟩
        ⟨fun k hk => ha.write k (by omega), fun k hk => ha.fetch k (by omega)⟩
    have hmode : (run step s u t).ascMode = 1 := hs.mode t (by omega)
    have hclear : clears (run step s u t) (u t) = false := clears_of_streaming hs t.lt_succ_self
    have hout : ((run step s u t).chan side).drains ((run step s u t).enabled side)
        (run step s u t) = true → (step (run step s u t) (u t)).out side =
          pcm ((run step s u t).chan side).rdataA := fun h => out_step h
    obtain ⟨addrB, hstep⟩ := chan_step side (run step s u t) (u t)
    rw [written, heard, run_succ, hstep]
    cases hd : ((run step s u t).chan side).drains ((run step s u t).enabled side)
        (run step s u t) with
    | true =>
      have htick : (run step s u t).fifoTick = true := by
        unfold Chan.drains at hd
        exact ((Bool.and_eq_true _ _).mp ((Bool.and_eq_true _ _).mp hd).1).1
      have hcount : 0 < ((run step s u t).chan side).count := by
        unfold Chan.drains at hd
        exact of_decide_eq_true ((Bool.and_eq_true _ _).mp hd).2
      have hw := ha.write t t.lt_succ_self htick
      cases q with
      | nil => exact absurd hq.count (by simpa using hcount.ne')
      | cons x q =>
        refine ⟨played ++ [x], q, hq.pop hmode hw hd hclear, ?_, ?_⟩
        · simp [hw, hwritten]
        · have hx : ((run step s u t).chan side).rdataA = x := by
            cases t with
            | zero => exact absurd h0.count hcount.ne'
            | succ k =>
              obtain ⟨hwe, haddr⟩ := ha.fetch k (by omega) hd
              obtain ⟨addrB', hstep'⟩ := chan_step side (run step s u k) (u k)
              rw [run_succ, hstep'] at hq haddr ⊢
              exact rdataA_of_fetch hq hwe haddr
          rw [if_pos rfl, hout hd, hx, hheard, List.map_append]
          rfl
    | false =>
      cases hw : fifoWrite side.bank (run step s u t) (u t) with
      | true =>
        have htick : (run step s u t).fifoTick = false := by
          by_contra hne
          rw [ha.write t t.lt_succ_self (by simpa using hne)] at hw
          exact absurd hw Bool.false_ne_true
        refine ⟨played, q ++ [ascWriteData (run step s u t) (u t)],
          hq.push hw htick hclear (hs.room t t.lt_succ_self hw), ?_, ?_⟩
        · simp [hwritten]
        · simpa using hheard
      | false =>
        refine ⟨played, q, hq.idle hmode hw hd hclear, ?_, ?_⟩
        · simpa using hwritten
        · simpa using hheard

/-! ### Runs -/

/-- No access, with an address on the bus. -/
def idleAt (addr : ℕ) : In := ⟨addr, 0, false, true, false, false⟩

/-- A byte write on the upper lane. -/
def writeUpper (addr : ℕ) (d : Byte) : In := ⟨addr, pairWord d 0, true, false, true, false⟩

/-- A byte write on the lower lane. -/
def writeLower (addr : ℕ) (d : Byte) : In := ⟨addr, pairWord 0 d, true, false, false, true⟩

/-- The state after reset with the sample counter at `n`. -/
def waiting (n : ℕ) : State := { State.init with sampleCounter := n }

theorem Chan.step_init (htick : s.fifoTick = false) (hw : bankWrite bank s i = false)
    (hclear : clears s i = false) : Chan.init.step bank enabled 0 s i = .init := by
  have hd : Chan.init.drains enabled s = false := not_drains_of_not_fifoTick htick
  have hf : fifoWrite bank s i = false := by rw [fifoWrite, hw, Bool.false_and]
  unfold clears at hclear
  simp [Chan.step, portWe, rdPtrNext, wrPtrNext, countNext, htick, hw, hclear, hd, hf]
  simp [Chan.init]

theorem step_waiting {n : ℕ} (hn : n < 1407) : step (waiting n) (idleAt 0) = waiting (n + 1) := by
  have htick : (waiting n).sampleTick = false := decide_eq_false (Nat.not_le.mpr hn)
  have hcount : sampleCounterNext (waiting n) = n + 1 := by
    rw [sampleCounterNext, htick, if_neg Bool.false_ne_true]
    exact Nat.mod_eq_of_lt (by change n + 1 < 65536; omega)
  -- every other register depends on the counter through the tick only
  have hfifo : (waiting n).fifoTick = false := by rw [State.fifoTick, htick, Bool.and_false]
  have hwt : wtStateNext (waiting n) = 0 := by
    change (if (waiting n).sampleTick && (waiting n).ascMode == 2 then 1 else 0) = 0
    rw [htick]
    rfl
  have haddr : ∀ lo hi, wtAddrNext lo hi .init (waiting n) = 0 := by
    intro lo hi
    change (if (waiting n).sampleTick && (waiting n).ascMode == 2 then (waiting n).wtIdx lo
      else 0) = 0
    rw [htick]
    rfl
  have ha : Chan.init.step 0 true 0 (waiting n) (idleAt 0) = .init := Chan.step_init hfifo rfl rfl
  have hb : Chan.init.step 1 false 0 (waiting n) (idleAt 0) = .init :=
    Chan.step_init hfifo rfl rfl
  have hirq : ascFifoIrqNext (waiting n) (idleAt 0) = 0 := by
    rw [ascFifoIrqNext, statusSet, hfifo]
    simp only [Bool.false_and]
    change (0 : Byte) ||| packByte false false false false false false false false = 0
    decide
  have hl : audioLeftNext (waiting n) = 0 := by
    unfold audioLeftNext
    rw [htick, hfifo]
    rfl
  have hr : audioRightNext (waiting n) = 0 := by
    unfold audioRightNext
    rw [htick, hfifo]
    rfl
  rw [step, hcount, hl, hr, hirq, hwt]
  change State.mk (Chan.init.step 0 true (wtAddrNext 0 1 .init (waiting n)) (waiting n) (idleAt 0))
    (Chan.init.step 1 false (wtAddrNext 2 3 .init (waiting n)) (waiting n) (idleAt 0))
    0 0 0 0 0 0 0 _ _ _ _ _ _ _ _ _ _ _ _ _ _ = _
  rw [haddr, haddr, ha, hb]
  rfl

/-- After reset an idle bus only lets the sample counter run. -/
theorem run_idle {n : ℕ} (hn : n ≤ 1407) : run step .init (fun _ => idleAt 0) n = waiting n := by
  induction n with
  | zero => rfl
  | succ n ih => rw [run_succ, ih (by omega), step_waiting hn]

/-- The state in which FIFO mode is entered `n` clocks after reset. -/
def enterFifo (n : ℕ) : State :=
  step (run step .init (fun _ => idleAt 0) n) (writeLower 0x801 1)

/-- One byte, then an idle bus that carries the address `addr`. -/
def pushOne (d : Byte) (addr : ℕ) : ℕ → In
  | 0 => idleAt 0
  | 1 => writeUpper 0 d
  | _ => idleAt addr

/-- From the write that enters FIFO mode on, the samples heard are the bytes written, in order and
each once, up to those still in the queue. -/
theorem heard_eq_written (hmode : s.ascMode ≠ 1) (hs : Streaming side (step s i) u t)
    (ha : Aligned side (step s i) u t) :
    heard side (step s i) u t =
        ((written side (step s i) u t).take ((written side (step s i) u t).length -
          ((run step (step s i) u t).chan side).count)).map pcm ∧
      ((run step (step s i) u t).chan side).count ≤ (written side (step s i) u t).length := by
  have h0 : ((step s i).chan side).Queue [] := queue_of_modeChange hmode (hs.mode 0 (by omega))
  obtain ⟨played, q, hq, hwritten, hheard⟩ := stream_inv h0 hs ha
  rw [hwritten, hheard, hq.count, List.length_append, Nat.add_sub_cancel, List.take_left']
  · exact ⟨rfl, Nat.le_add_left _ _⟩
  · rfl

/-- Two bytes, then an idle bus. -/
def pushBoth (d e : Byte) : ℕ → In
  | 1 => writeUpper 0 d
  | 3 => writeUpper 0 e
  | _ => idleAt 0

/-- The first of two bytes is heard, and the other one stays. -/
theorem heard_eq_written_two :
    written .left (enterFifo 1398) (pushBoth 0xAB 0xCD) 9 = [0xAB, 0xCD] ∧
      ((run step (enterFifo 1398) (pushBoth 0xAB 0xCD) 9).chan .left).count = 1 ∧
      heard .left (enterFifo 1398) (pushBoth 0xAB 0xCD) 9 = [pcm 0xAB] := by
  rw [enterFifo, run_idle (by omega)]
  have hs : Streaming .left (step (waiting 1398) (writeLower 0x801 1)) (pushBoth 0xAB 0xCD) 9 :=
    ⟨by decide +kernel, by decide +kernel, by decide +kernel⟩
  have ha : Aligned .left (step (waiting 1398) (writeLower 0x801 1)) (pushBoth 0xAB 0xCD) 9 := by
    refine ⟨by decide +kernel, fun k hk => ?_⟩
    have hk' : k < 8 := by omega
    interval_cases k <;> decide +kernel
  have hmode : (waiting 1398).ascMode ≠ 1 := by decide
  have hwritten : written .left (step (waiting 1398) (writeLower 0x801 1)) (pushBoth 0xAB 0xCD) 9 =
      [0xAB, 0xCD] := by decide +kernel
  have hcount : ((run step (step (waiting 1398) (writeLower 0x801 1)) (pushBoth 0xAB 0xCD) 9).chan
      .left).count = 1 := by decide +kernel
  have hheard := (heard_eq_written hmode hs ha).1
  rw [hwritten, hcount] at hheard
  exact ⟨hwritten, hcount, hheard⟩

/-- The sample of a tick comes from the address the bus carried one clock earlier: the byte `0xAB`
is pushed and popped, but the cell 5 is heard. -/
theorem tick_hears_bus_address :
    Streaming .left (enterFifo 1402) (pushOne 0xAB 5) 5 ∧
      written .left (enterFifo 1402) (pushOne 0xAB 5) 5 = [0xAB] ∧
      ((run step (enterFifo 1402) (pushOne 0xAB 5) 5).chan .left).count = 0 ∧
      heard .left (enterFifo 1402) (pushOne 0xAB 5) 5 = [pcm 0] ∧ pcm 0 ≠ pcm 0xAB := by
  rw [enterFifo, run_idle (by omega)]
  exact ⟨⟨by decide +kernel, by decide +kernel, by decide +kernel⟩, by decide +kernel,
    by decide +kernel, by decide +kernel, by decide⟩

end Asc
