import LBMacTwo.Swim.Chip
import LBMacTwo.Foundation.Clocked
import LBMacTwo.Foundation.RingBuffer

/-!
# The ISM read path of the floppy controller

Between a read-arm and the next clear the MFM deliveries go through the staging ring and the
two-entry FIFO to the CPU.

* `Queue s q`: the words `q`, oldest first, in the FIFO and behind it in the ring;
* `Queue.step`: a clock without a clear appends the word it stages and takes off the word it pops;
* `Window`: the clocks between an arm edge and the next clear;
* `read_path`: what was popped followed by what is queued is what was delivered and not lost, and
  every lost delivery is reported if and only if none falls on the end of an error register read;
* `overrun_unreported`: one that does.
-/

namespace Swim
open Clocked RingBuffer

variable {s : State} {i : In} {u : ℕ → In} {t : ℕ} {r : List FifoWord}

/-! ### The two queues -/

/-- The words in the two-entry FIFO. -/
def State.fifo (s : State) : List FifoWord := [s.ismFifo0, s.ismFifo1].take s.ismFifoPos

/-- The words in the staging ring. -/
def State.staged (s : State) : List FifoWord :=
  (List.range s.ismStageCnt).map fun k => s.ismStage ((s.ismStageRd + k) % 16)

/-- The ring holds `r`, and the FIFO has at most two entries. -/
structure Queue (s : State) (r : List FifoWord) : Prop where
  pos : s.ismFifoPos ≤ 2
  cnt : s.ismStageCnt = r.length
  cells : Holds 16 s.ismStage s.ismStageRd r
  rd : s.ismStageRd < 16
  wr : s.ismStageWr = (s.ismStageRd + r.length) % 16

theorem Queue.staged_eq (h : Queue s r) : s.staged = r := by
  apply List.ext_getElem
  · simp [State.staged, h.cnt]
  · intro k hk hk'
    simp only [State.staged, List.getElem_map, List.getElem_range]
    exact h.cells.2 k hk'

/-- Something empties the FIFO in this clock. -/
def clears (s : State) (i : In) : Bool := s.armEdge || clearFifo s i || enterIsm s i

/-- The word staged in this clock. -/
def stagedNow (s : State) (i : In) : List FifoWord :=
  if stagePush s i then [ismGenWord s i] else []

/-- The word popped by the CPU in this clock. -/
def poppedNow (s : State) (i : In) : List FifoWord :=
  if ismPopReq s i && s.ismFifoPos != 0 then [s.ismFifo0] else []

/-- The word drained from the ring into the FIFO in this clock. -/
def drainedNow (s : State) (i : In) : List FifoWord :=
  if stageDrain s i then [s.ismStage s.ismStageRd] else []

/-- What the wires of the ring ask for is there. -/
theorem stagePush_room (h : stagePush s i = true) : s.ismStageCnt ≠ 16 := by
  unfold stagePush at h
  exact bne_iff_ne.mp ((Bool.and_eq_true _ _).mp h).2

theorem stageDrain_word (h : stageDrain s i = true) : s.ismStageCnt ≠ 0 := by
  unfold stageDrain at h
  exact bne_iff_ne.mp ((Bool.and_eq_true _ _).mp ((Bool.and_eq_true _ _).mp h).1).1

theorem step_ring (hclear : (s.armEdge || clearFifo s i) = false) :
    (step s i).ismStageCnt = s.ismStageCnt + (stagePush s i).toNat - (stageDrain s i).toNat ∧
      (step s i).ismStageRd = (s.ismStageRd + (stageDrain s i).toNat) % 16 ∧
      (step s i).ismStageWr = (s.ismStageWr + (stagePush s i).toNat) % 16 := by
  refine ⟨?_, ?_, ?_⟩
  · change ismStageCntNext s i = _
    rw [ismStageCntNext, hclear, if_neg Bool.false_ne_true]
  · change ismStageRdNext s i = _
    rw [ismStageRdNext, hclear, if_neg Bool.false_ne_true]
  · change ismStageWrNext s i = _
    rw [ismStageWrNext, hclear, if_neg Bool.false_ne_true]

/-- A clock without a clear: the ring takes what is staged and gives up what is drained. -/
theorem Queue.ring_step (h : Queue s r) (hclear : (s.armEdge || clearFifo s i) = false) :
    ∃ r', drainedNow s i ++ r' = r ++ stagedNow s i ∧ (step s i).ismStageCnt = r'.length ∧
      Holds 16 (step s i).ismStage (step s i).ismStageRd r' ∧ (step s i).ismStageRd < 16 ∧
      (step s i).ismStageWr = ((step s i).ismStageRd + r'.length) % 16 := by
  have hring : Ring 16 s.ismStage s.ismStageRd s.ismStageWr s.ismStageCnt r :=
    ⟨h.cnt, h.cells, h.rd, h.wr⟩
  obtain ⟨r', hr', hnext⟩ := hring.step stagePush_room stageDrain_word (ismGenWord s i)
  obtain ⟨hcnt, hrd, hwr⟩ := step_ring hclear
  rw [← hcnt, ← hrd, ← hwr] at hnext
  exact ⟨r', hr', hnext.cnt_eq, hnext.cells, hnext.rd_lt, hnext.wr_eq⟩

/-- A clock without a clear and without a write of the CPU: the FIFO gives up what is popped and
takes what is drained. -/
theorem fifo_step (hpos : s.ismFifoPos ≤ 2) (hclear : clears s i = false)
    (hpush : ismCpuPush s i = false) :
    poppedNow s i ++ (step s i).fifo = s.fifo ++ drainedNow s i ∧ (step s i).ismFifoPos ≤ 2 := by
  have hfill : fifoFill s i =
      if stageDrain s i then some (s.ismStage s.ismStageRd) else none := by
    rw [fifoFill, hpush]
    rfl
  have hnext : (step s i).ismFifoPos =
      if ismPopReq s i && s.ismFifoPos != 0 then s.ismFifoPos - 1
      else if stageDrain s i then s.ismFifoPos + 1 else s.ismFifoPos := by
    change ismFifoPosNext s i = _
    unfold clears at hclear
    rw [ismFifoPosNext, hclear, if_neg Bool.false_ne_true, hfill]
    cases stageDrain s i <;> rfl
  have h0 : (step s i).ismFifo0 = ismFifo0Next s i := rfl
  have h1 : (step s i).ismFifo1 = ismFifo1Next s i := rfl
  unfold State.fifo poppedNow drainedNow
  rw [hnext, h0, h1, ismFifo0Next, ismFifo1Next, hfill]
  by_cases hp : (ismPopReq s i && s.ismFifoPos != 0) = true
  · -- a pop falls on the end of an access, where nothing is drained
    have hend : accEnd s i = true ∧ s.ismFifoPos ≠ 0 := by
      unfold ismPopReq at hp
      simp only [Bool.and_eq_true, bne_iff_ne] at hp
      exact ⟨hp.1.1.1.1.1, hp.2⟩
    have hd : stageDrain s i = false := by rw [stageDrain, hend.1, Bool.not_true, Bool.and_false]
    rw [if_pos hp, if_pos hp, if_pos hp, hd]
    obtain hone | htwo : s.ismFifoPos = 1 ∨ s.ismFifoPos = 2 := by omega
    · simp [hone]
    · simp [htwo]
  · rw [if_neg hp, if_neg hp, if_neg hp]
    cases hd : stageDrain s i with
    | false => simp [hpos]
    | true =>
      have hlt : s.ismFifoPos < 2 := by
        unfold stageDrain at hd
        simp only [Bool.and_eq_true, decide_eq_true_eq] at hd
        exact hd.1.2
      obtain hzero | hone : s.ismFifoPos = 0 ∨ s.ismFifoPos = 1 := by omega
      · simp [hzero]
      · simp [hone]

/-- A clock without a clear and without a write of the CPU appends what is staged to the queue and
takes off what is popped. -/
theorem Queue.step (h : Queue s r) (hclear : clears s i = false) (hpush : ismCpuPush s i = false) :
    ∃ r', Queue (step s i) r' ∧
      poppedNow s i ++ ((step s i).fifo ++ r') = s.fifo ++ r ++ stagedNow s i := by
  have hclear' : (s.armEdge || clearFifo s i) = false := by
    unfold clears at hclear
    exact (Bool.or_eq_false_iff.mp hclear).1
  obtain ⟨r', hring, hcnt, hcells, hrd, hwr⟩ := h.ring_step hclear'
  obtain ⟨hfifo, hpos⟩ := fifo_step h.pos hclear hpush
  refine ⟨r', ⟨hpos, hcnt, hcells, hrd, hwr⟩, ?_⟩
  rw [← List.append_assoc, hfifo, List.append_assoc, hring, List.append_assoc]

/-! ### Errors -/

/-- The access that ends taken as a read of the phases register, which has no effect. -/
def State.peek (s : State) : State := { s with accAddrL := 4 }

/-- A pop finds the FIFO empty. -/
def underrun (s : State) (i : In) : Bool := ismPopReq s i && s.ismFifoPos == 0

/-- A pop of the empty FIFO sets error bit 2 and does nothing else. -/
theorem step_of_underrun (h : underrun s i = true) :
    step s i = { step s.peek i with
      accAddrL := s.accAddrL, ismError := (step s.peek i).ismError ||| 4 } := by
  unfold underrun ismPopReq at h
  simp only [Bool.and_eq_true, Bool.or_eq_true, beq_iff_eq] at h
  obtain ⟨⟨⟨⟨⟨hend, hism⟩, hrw⟩, haction⟩, hreg⟩, hpos⟩ := h
  have hacc : i.swimAcc = false := by
    unfold accEnd at hend
    simp only [Bool.and_eq_true, Bool.not_eq_true'] at hend
    exact hend.2
  have haccD : s.swimAccD = true := by
    unfold accEnd at hend
    simp only [Bool.and_eq_true, Bool.not_eq_true'] at hend
    exact hend.1
  have hwrite : ∀ n, ismWrite n s i = false := fun n => by simp [ismWrite, hrw]
  have hwrite' : ∀ n, ismWrite n s.peek i = false := fun n => by simp [ismWrite, State.peek, hrw]
  have hread : ismRead 2 s i = false ∧ ismRead 3 s i = false := by
    constructor <;> simp only [ismRead, Bool.and_eq_false_iff, beq_eq_false_iff_ne] <;> omega
  have hread' : ismRead 2 s.peek i = false ∧ ismRead 3 s.peek i = false := by
    constructor <;> simp [ismRead, State.peek, State.accReg]
  have henter : enterIsm s i = false := by simp [enterIsm, hism]
  have henter' : enterIsm s.peek i = false := by simp [enterIsm, State.peek, hism]
  have hpush : ismCpuPush s i = false := by simp [ismCpuPush, hrw]
  have hpush' : ismCpuPush s.peek i = false := by simp [ismCpuPush, State.peek, hrw]
  have hpop' : ismPopReq s.peek i = false := by simp [ismPopReq, State.peek, State.accReg]
  have hpop : ismPopReq s i = true := by simp [ismPopReq, *]
  have hclear : clearFifo s i = false := by rw [clearFifo, hwrite, hwrite]; rfl
  have hclear' : clearFifo s.peek i = false := by rw [clearFifo, hwrite', hwrite']; rfl
  have hfill : fifoFill s.peek i = fifoFill s i := by rw [fifoFill, fifoFill, hpush, hpush']; rfl
  have herror : ismErrorNext s i = ismErrorNext s.peek i ||| 4 := by
    have hbits : ∀ o, packByte false false false false false true false o =
        packByte false false false false false false false o ||| 4 := by decide
    rw [ismErrorNext, ismErrorNext, hread.1, hread'.1, henter, henter', if_neg (by decide),
      if_neg (by decide), errorBits, errorBits, hpop, hpop', hpush, hpush', hpos, BitVec.or_assoc]
    exact congrArg _ (hbits (overrun s i))
  have hpos' : s.peek.ismFifoPos = 0 := hpos
  have hcounter : iwmToIsmCounterNext s i = iwmToIsmCounterNext s.peek i := by
    rw [iwmToIsmCounterNext, iwmToIsmCounterNext, hwrite, hwrite']
    simp [hism, State.peek]
  -- every other register looks at the access through these wires only
  unfold step
  simp only [ismModeNext, ismModeRegNext, ismSetupNext, ismParamNext, ismParamIdxNext,
    ismPhaseOeNext, ismFifo0Next, ismFifo1Next, ismFifoPosNext, ismStageRdNext, ismStageWrNext,
    ismStageCntNext, mfmSyncedNext, phaseNext, hwrite, hwrite', hread, hread', henter, henter',
    hclear, hclear', hpop, hpop', hfill, hpos, hpos', herror, hcounter, hacc, bne_self_eq_false,
    Bool.and_false]
  rfl
theorem getLsbD_errorBits_zero (s : State) (i : In) :
    (errorBits s i).getLsbD 0 = overrun s i := by
  have h : ∀ a b c, (packByte false false false false false a b c).getLsbD 0 = c := by decide
  exact h _ _ _

/-- A lost delivery is reported unless the error register is cleared in the same clock. -/
theorem error_zero_of_overrun (h : overrun s i = true) (henter : enterIsm s i = false) :
    (step s i).ismError.getLsbD 0 = !ismRead 2 s i := by
  change (ismErrorNext s i).getLsbD 0 = _
  rw [ismErrorNext, henter, Bool.or_false]
  cases ismRead 2 s i with
  | false =>
    rw [if_neg Bool.false_ne_true, BitVec.getLsbD_or, getLsbD_errorBits_zero, h, Bool.or_true]
    rfl
  | true =>
    rw [if_pos rfl]
    decide

/-! ### Deliveries and pops of a run -/

/-- A delivery of the selected drive while the read datapath is on; lost if the ring is full. -/
structure Arrival where
  word : FifoWord
  lost : Bool

def arrivedNow (s : State) (i : In) : List Arrival :=
  if s.ismReadActive && (ismDrive s i).mfmStb then [⟨ismGenWord s i, s.ismStageCnt == 16⟩] else []

variable (s u)

/-- The deliveries of the first `t` clocks. -/
def arrived : ℕ → List Arrival
  | 0 => []
  | t + 1 => arrived t ++ arrivedNow (run step s u t) (u t)

/-- The deliveries since and including the first mark. -/
def delivered (t : ℕ) : List Arrival := (arrived s u t).dropWhile fun d => !d.word.mark

/-- The words of those that were not lost. -/
def kept (t : ℕ) : List FifoWord :=
  ((delivered s u t).filter fun d => !d.lost).map Arrival.word

/-- The words the CPU popped in the first `t` clocks. -/
def popped : ℕ → List FifoWord
  | 0 => []
  | t + 1 => popped t ++ poppedNow (run step s u t) (u t)

/-- The clocks up to `t` clear nothing and end no write of the CPU to the FIFO. -/
structure Window (t : ℕ) : Prop where
  noClear : ∀ k < t, clears (run step s u k) (u k) = false
  noPush : ∀ k < t, ismCpuPush (run step s u k) (u k) = false

variable {s u}

theorem delivered_succ (t : ℕ) :
    delivered s u (t + 1) =
      if (delivered s u t).isEmpty then
        (arrivedNow (run step s u t) (u t)).dropWhile fun d => !d.word.mark
      else delivered s u t ++ arrivedNow (run step s u t) (u t) := by
  unfold delivered
  rw [arrived, List.dropWhile_append]

/-- The hunt has ended once something is delivered; what a clock delivers and does not lose is what
it stages. -/
theorem kept_succ (hsync : (run step s u t).mfmSynced = !(delivered s u t).isEmpty)
    (hclear : clears (run step s u t) (u t) = false) :
    (run step s u (t + 1)).mfmSynced = !(delivered s u (t + 1)).isEmpty ∧
      kept s u (t + 1) = kept s u t ++ stagedNow (run step s u t) (u t) := by
  have hsynced : (run step s u (t + 1)).mfmSynced = ((run step s u t).mfmSynced ||
      ((run step s u t).ismReadActive && (ismDrive (run step s u t) (u t)).mfmStb &&
        (ismDrive (run step s u t) (u t)).mfmMark)) := by
    change mfmSyncedNext (run step s u t) (u t) = _
    unfold clears at hclear
    have h : ((run step s u t).armEdge || enterIsm (run step s u t) (u t)) = false := by
      simp only [Bool.or_eq_false_iff] at hclear ⊢
      exact ⟨hclear.1.1, hclear.2⟩
    rw [mfmSyncedNext, h, if_neg Bool.false_ne_true]
  rw [hsynced, kept, delivered_succ]
  unfold kept stagedNow stagePush ismGenPush arrivedNow
  rw [hsync]
  have hword : (ismGenWord (run step s u t) (u t)).mark =
    (ismDrive (run step s u t) (u t)).mfmMark := rfl
  by_cases hd : delivered s u t = []
  · cases (run step s u t).ismReadActive <;> cases (ismDrive (run step s u t) (u t)).mfmStb <;>
      cases hm : (ismDrive (run step s u t) (u t)).mfmMark <;>
        by_cases hc : (run step s u t).ismStageCnt = 16 <;> simp [hd, hword, hm, hc]
  · have he : (delivered s u t).isEmpty = false := by simpa using hd
    have happend : ∀ d, (delivered s u t ++ [d]).isEmpty = false := fun d => by simp
    cases (run step s u t).ismReadActive <;> cases (ismDrive (run step s u t) (u t)).mfmStb <;>
      by_cases hc : (run step s u t).ismStageCnt = 16 <;> simp [he, hc, happend]

/-- The read-arm edge empties both queues and restarts the hunt. -/
theorem queue_of_armEdge (harm : s.armEdge = true) :
    Queue (step s i) [] ∧ (step s i).fifo = [] ∧ (step s i).mfmSynced = false := by
  have hpos : (step s i).ismFifoPos = 0 := by
    change ismFifoPosNext s i = 0
    rw [ismFifoPosNext, harm, Bool.true_or, Bool.true_or, if_pos rfl]
  have hcnt : (step s i).ismStageCnt = 0 := by
    change ismStageCntNext s i = 0
    rw [ismStageCntNext, harm, Bool.true_or, if_pos rfl]
  have hrd : (step s i).ismStageRd = 0 := by
    change ismStageRdNext s i = 0
    rw [ismStageRdNext, harm, Bool.true_or, if_pos rfl]
  have hwr : (step s i).ismStageWr = 0 := by
    change ismStageWrNext s i = 0
    rw [ismStageWrNext, harm, Bool.true_or, if_pos rfl]
  have hsync : (step s i).mfmSynced = false := by
    change mfmSyncedNext s i = false
    rw [mfmSyncedNext, harm, Bool.true_or, if_pos rfl]
  refine ⟨⟨by omega, hcnt, holds_nil, by omega, ?_⟩, ?_, hsync⟩
  · rw [hwr, hrd]
    rfl
  · rw [State.fifo, hpos, List.take_zero]

theorem Window.mono (h : Window s u t) {k : ℕ} (hk : k ≤ t) : Window s u k :=
  ⟨fun j hj => h.noClear j (by omega), fun j hj => h.noPush j (by omega)⟩

/-- Along a window that starts with empty queues the words kept are those popped followed by those
queued. -/
theorem window_inv (h0 : Queue s []) (hfifo : s.fifo = []) (hsync : s.mfmSynced = false)
    (hw : Window s u t) :
    ∃ r, Queue (run step s u t) r ∧
      popped s u t ++ ((run step s u t).fifo ++ r) = kept s u t ∧
      (run step s u t).mfmSynced = !(delivered s u t).isEmpty := by
  induction t with
  | zero => exact ⟨[], h0, by rw [run_zero, hfifo]; rfl, hsync⟩
  | succ t ih =>
    obtain ⟨r, hq, hkept, hsynced⟩ := ih (hw.mono t.le_succ)
    have hclear := hw.noClear t t.lt_succ_self
    obtain ⟨r', hq', hstep⟩ := hq.step hclear (hw.noPush t t.lt_succ_self)
    obtain ⟨hsynced', hkept'⟩ := kept_succ hsynced hclear
    refine ⟨r', hq', ?_, hsynced'⟩
    rw [popped, run_succ, List.append_assoc, hstep, hkept', ← hkept]
    simp only [List.append_assoc]

/-- The read path delivers in order: in every window after a read-arm the words popped, then the
FIFO, then the ring are the words delivered and not lost; a pop of the empty FIFO does nothing but
set error bit 2; and every loss sets error bit 0 exactly if none falls on the end of a read of the
error register. -/
theorem read_path (harm : s.armEdge = true) (hw : Window (step s i) u t) :
    popped (step s i) u t ++ (run step (step s i) u t).fifo ++ (run step (step s i) u t).staged =
        kept (step s i) u t ∧
      (∀ k < t, underrun (run step (step s i) u k) (u k) = true →
        run step (step s i) u (k + 1) = { step (run step (step s i) u k).peek (u k) with
          accAddrL := (run step (step s i) u k).accAddrL,
          ismError := (step (run step (step s i) u k).peek (u k)).ismError ||| 4 }) ∧
      ((∀ k < t, overrun (run step (step s i) u k) (u k) = true →
          (run step (step s i) u (k + 1)).ismError.getLsbD 0 = true) ↔
        ∀ k < t, overrun (run step (step s i) u k) (u k) = true →
          ismRead 2 (run step (step s i) u k) (u k) = false) := by
  obtain ⟨h0, hfifo, hsync⟩ := queue_of_armEdge (i := i) harm
  obtain ⟨r, hq, hkept, -⟩ := window_inv h0 hfifo hsync hw
  refine ⟨?_, fun k _ hu => step_of_underrun hu, ?_⟩
  · rw [hq.staged_eq, List.append_assoc, hkept]
  · have hbit : ∀ k < t, overrun (run step (step s i) u k) (u k) = true →
        (run step (step s i) u (k + 1)).ismError.getLsbD 0 =
          !ismRead 2 (run step (step s i) u k) (u k) := by
      intro k hk hover
      have hclear := hw.noClear k hk
      unfold clears at hclear
      exact error_zero_of_overrun hover (Bool.or_eq_false_iff.mp hclear).2
    constructor
    · intro h k hk hover
      have := hbit k hk hover
      rw [h k hk hover] at this
      simpa using this.symm
    · intro h k hk hover
      rw [hbit k hk hover, h k hk hover]
      rfl

/-! ### Runs -/

def quiet : Drive := ⟨false, 0, false, false, 0, false⟩

def idle : In := ⟨false, true, false, false, 0, 0, quiet, quiet⟩

/-- A clock of a register write, and of a register read, on the upper lane. -/
def writeReg (n : ℕ) (d : Byte) : In := ⟨true, false, true, false, pairWord d 0, n, quiet, quiet⟩
def readReg (n : ℕ) : In := ⟨true, true, true, false, 0, n, quiet, quiet⟩

/-- The internal drive delivers a byte in this clock. -/
def In.deliver (i : In) (d : Byte) (mark : Bool) : In :=
  { i with int := ⟨true, d, mark, false, 0, false⟩ }

/-- The switch to ISM mode, then drive select, motor and ACTION. -/
def armSequence : ℕ → In
  | 0 => writeReg 15 0x40
  | 2 => writeReg 15 0
  | 4 => writeReg 15 0x40
  | 6 => writeReg 15 0x40
  | 8 => writeReg 7 0x8A
  | _ => idle

/-- The state at the read-arm edge. -/
def armed : State := run step .init armSequence 10

/-- A mark and a byte are delivered, the CPU pops the mark. -/
def popMark : ℕ → In
  | 0 => idle.deliver 0xA1 true
  | 1 => idle.deliver 0xFE false
  | 3 => readReg 1
  | _ => idle

theorem read_path_popMark :
    armed.armEdge = true ∧ Window (step armed idle) popMark 5 ∧
      popped (step armed idle) popMark 5 = [⟨0xA1, true, false, false⟩] ∧
      popped (step armed idle) popMark 5 ++ (run step (step armed idle) popMark 5).fifo ++
        (run step (step armed idle) popMark 5).staged = kept (step armed idle) popMark 5 := by
  have harm : armed.armEdge = true := by decide +kernel
  have hw : Window (step armed idle) popMark 5 := ⟨by decide +kernel, by decide +kernel⟩
  exact ⟨harm, hw, by decide +kernel, (read_path harm hw).1⟩

/-- Nineteen deliveries; a read of the error register ends with the last. -/
def overrunOnRead (k : ℕ) : In :=
  (if k = 17 then readReg 2 else idle).deliver (if k = 0 then 0xA1 else 0) (k == 0)

/-- The loss of the last delivery is not reported. -/
theorem overrun_unreported :
    armed.armEdge = true ∧ Window (step armed idle) overrunOnRead 19 ∧
      overrun (run step (step armed idle) overrunOnRead 18) (overrunOnRead 18) = true ∧
      (run step (step armed idle) overrunOnRead 19).ismError.getLsbD 0 = false :=
  ⟨by decide +kernel, ⟨by decide +kernel, by decide +kernel⟩, by decide +kernel,
    by decide +kernel⟩

end Swim
