import LBMacTwo.Memory.Loader

/-!
# What the two engines write

A board that runs under any timing of the downloads.

* `Slots.pos`: where in the rotation of sixteen clocks the slots stand;
* `Contract`: every downloaded word is stored once and in order, no other word is stored in the
  extra slots, and RAM is clear when the clear is done;
* `Steady`: no slot in use is given to the other engine while the chip takes its address;
* `contract_of_steady`: steady runs keep the contract; `torn_slot`, one that is not.
-/

namespace Memory

/-! ### The rotation -/

/-- The clock of the rotation: video 0 to 3, CPU 4 to 7, extra 8 to 11, CPU 12 to 15. -/
def Slots.pos (s : Slots) : ℕ := 4 * s.busCycle.toNat + s.busPhase.toNat

theorem Slots.pos_lt (s : Slots) : s.pos < 16 := by
  unfold Slots.pos
  have h1 := s.busCycle.isLt
  have h2 := s.busPhase.isLt
  omega

theorem Slots.pos_step (s : Slots) : s.step.pos = (s.pos + 1) % 16 := by
  unfold Slots.pos
  rw [step_busCycle, step_busPhase]
  generalize s.busPhase = p, s.busCycle = c
  revert p c
  decide

theorem Slots.extra_iff (s : Slots) : s.extraBusControl = true ↔ 8 ≤ s.pos ∧ s.pos < 12 := by
  unfold Slots.pos Slots.extraBusControl
  generalize s.busPhase = p, s.busCycle = c
  revert p c
  decide

theorem Slots.busPhase_eq (s : Slots) : s.busPhase.toNat = s.pos % 4 := by
  unfold Slots.pos
  have h := s.busPhase.isLt
  omega

namespace Load
open Clocked

/-! ### The controller in a slot -/

section Ram

variable {m : Ram} {init : Bool} {c : Command} {s : Slots}

/-- After the ladder the controller takes commands until the lock is lost. -/
theorem Ram.clock_of_ready {clk8 : Bool} (h : m.reset = 0) :
    m.clock false clk8 c = ⟨m.sdram.clock clk8 c, 0⟩ := by
  simp [Ram.clock, Ram.tick, Sdram.clock, h]

/-- The ladder does not end in the first clock of a slot, and a lost lock starts it. -/
theorem Ram.ready_of_clock {clk8 : Bool} (ht : m.sdram.t = 0)
    (h : (m.clock init clk8 c).reset = 0) : m.reset = 0 ∧ init = false := by
  cases init with
  | true => exact absurd h (by simp [Ram.clock, Ram.tick])
  | false =>
    refine ⟨?_, rfl⟩
    have h0 : (m.tick false clk8 c).reset = m.reset := by
      simp [Ram.tick, ht]
    have h1 : (m.tick false clk8 c).sdram.t ≠ 7 := by
      unfold Ram.tick
      split_ifs <;> simp only [Sdram.tick, ht] <;> cases clk8 <;> decide
    have h2 : (m.clock false clk8 c).reset = (m.tick false clk8 c).reset := if_neg fun h7 => h1 h7.1
    rw [← h0, ← h2, h]

theorem Ram.t_tick {clk8 : Bool} : (m.tick init clk8 c).sdram.t = tNext m.sdram.t clk8 := by
  unfold Ram.tick
  split_ifs <;> rfl

/-- The counter keeps in step with the slots, in the ladder too. -/
theorem Ram.inStep_clock (h : m.sdram.t = inStep s.busPhase) :
    (m.clock init s.clk8 c).sdram.t = inStep s.step.busPhase := by
  rw [Ram.clock, Ram.t_tick, Ram.t_tick, h, Slots.step_busPhase]
  unfold Slots.clk8
  generalize s.busPhase = b
  revert b
  decide

end Ram

/-! ### Commands in the extra slot -/

section Command

variable {s : Slots} {l : Loader} {h : Host} {r : Request}

/-- The word of a download, byte-swapped, at the cell its index and address name. -/
def Loader.word (l : Loader) : Store := ⟨0x400000 + l.dioA % 2 ^ 22, l.dioData, true, true⟩

/-- The word of the clear. -/
def Loader.zero (l : Loader) : Store := ⟨l.clearAddr, 0, true, true⟩

/-- The command that writes `w` when `we` holds. -/
def Store.command (w : Store) (we : Bool) : Command := ⟨w.addr, w.data, w.uds, w.lds, we, false⟩

theorem command_download (hs : s.extraBusControl = true) (hd : h.dioDownload = true) :
    command s l h r = l.word.command l.dioWrite := by
  have hc : l.clearCycle h s.extraBusControl = false := by
    rw [Loader.clearCycle, hd, Bool.not_true, Bool.and_false]
  rw [command, hc, if_neg Bool.false_ne_true]
  simp [Memory.command, downloadCycle, hd, hs, Loader.word, Store.command]

theorem command_clear (hs : s.extraBusControl = true) (hd : h.dioDownload = false)
    (ha : l.clearActive = true) : command s l h r = l.zero.command l.clearWrite := by
  have hc : l.clearCycle h s.extraBusControl = true := by
    rw [Loader.clearCycle, ha, hs, hd]
    rfl
  rw [command, if_pos hc]
  rfl

theorem we_idle (hs : s.extraBusControl = true) (hd : h.dioDownload = false)
    (ha : l.clearActive = false) : (command s l h r).we = false := by
  have hc : l.clearCycle h s.extraBusControl = false := by
    rw [Loader.clearCycle, ha, Bool.false_and, Bool.false_and]
  have hcpu : s.cpuBusControl = false := by
    by_contra hne
    rw [Bool.not_eq_false] at hne
    rw [(extraBusControl_of_cpu hne).1] at hs
    exact absurd hs (by decide)
  rw [command, hc, if_neg Bool.false_ne_true]
  simp [Memory.command, downloadCycle, hd, ramWE, hcpu]

end Command

/-! ### Runs -/

section Run

variable (b : Board) (u : ℕ → Host × Request)

/-- Where a download is put: the floppy images behind the two banks of the ROM. -/
def Host.place (h : Host) : ℕ :=
  let index := h.dioIndex.toNat
  if index ≠ 0 ∧ index % 4 = 1 then 0x500000 + h.dioAddr % 0x100000
  else if index ≠ 0 ∧ index % 4 = 2 then 0x600000 + h.dioAddr % 0x100000
  else if index / 64 % 2 = 1 then 0x440000 + h.dioAddr % 0x40000
  else 0x400000 + h.dioAddr % 0x40000

/-- The word that is stored has the first byte of the file in its upper half. -/
def Host.fileWord (h : Host) : Store where
  addr := h.place
  data := BitVec.ofNat 16 (256 * (h.ioctlData.toNat % 256) + h.ioctlData.toNat / 256)
  uds := true
  lds := true

/-- The words downloaded before clock `t`. -/
def downloaded : ℕ → List Store
  | 0 => []
  | t + 1 => if (u t).1.ioctlWrite then downloaded t ++ [(u t).1.fileWord] else downloaded t

/-- The board in clock `t`. -/
def board (t : ℕ) : Board := run Board.step b u t

/-- The write of clock `t`. -/
def storeAt (t : ℕ) : Option Store := (board b u t).store (u t).1 (u t).2

/-- What the extra slots of a download have stored before clock `t`. -/
def stored : ℕ → List Store
  | 0 => []
  | t + 1 =>
    if (board b u t).slots.extraBusControl && (u t).1.dioDownload then
      stored t ++ (storeAt b u t).toList
    else stored t

/-- Word `a` has been written with 0 in an extra slot, with the lock held since. -/
def Zeroed (t a : ℕ) : Prop :=
  ∃ j < t, (board b u j).slots.extraBusControl = true ∧
    storeAt b u j = some ⟨a, 0, true, true⟩ ∧ ∀ k, j ≤ k → k < t → (u k).1.sysLocked = true

/-- Up to clock `m` downloads and the clear are exact: the host is not kept waiting, whenever it may
go on every word it sent has been stored once and in order, the extra slots store no word but that
of the engine they belong to, and RAM is clear when the clear is done. -/
structure Contract (m : ℕ) : Prop where
  served : ∀ t, ∃ k, t ≤ k ∧ k ≤ t + 21 ∧ (board b u k).loader.ioctlWait = false
  once : ∀ t ≤ m, (board b u t).loader.ioctlWait = false → stored b u t = downloaded u t
  only : ∀ t < m, (board b u t).slots.extraBusControl = true → ∀ w, storeAt b u t = some w →
    w = if (u t).1.dioDownload then (board b u t).loader.word else (board b u t).loader.zero
  cleared : ∀ t ≤ m, (board b u t).loader.clearDone = true → ∀ a ≤ clearLimit, Zeroed b u t a

/-- An extra slot starts in clock `p`. -/
def Starts (p : ℕ) : Prop := (board b u p).slots.pos = 8

instance (p : ℕ) : Decidable (Starts b u p) := inferInstanceAs (Decidable (_ = _))

/-- No slot in use is given to the other engine while the chip takes its address, and every slot
that counts is used, with the ladder over. -/
structure Steady (m : ℕ) : Prop where
  word : ∀ p < m, Starts b u p → (board b u p).loader.dioWrite = true →
    (u p).1.dioDownload = true ∧ (u (p + 1)).1.dioDownload = true ∧
      (u p).1.sysLocked = true ∧ (board b u p).ram.reset = 0
  rise : ∀ p < m, Starts b u p → (board b u p).loader.clearWrite = true →
    (u p).1.dioDownload = false → (u (p + 1)).1.dioDownload = false
  count : ∀ p, p + 4 < m → Starts b u p →
    (board b u (p + 4)).loader.counts (u (p + 4)).1 false = true →
    (u p).1.dioDownload = false ∧ (board b u p).ram.reset = 0

/-- The host writes a word only when it need not wait. -/
def Polite (m : ℕ) : Prop :=
  ∀ t < m, (u t).1.ioctlWrite = true → (board b u t).loader.ioctlWait = false

end Run

/-- Both engines are idle, and the chip is not in the middle of a slot. -/
structure Idle (b : Board) : Prop where
  inStep : b.ram.sdram.t = inStep b.slots.busPhase
  fresh : b.ram.reset ≠ 0 ∨ b.slots.pos % 4 = 0
  ioctlWait : b.loader.ioctlWait = false
  dioWrite : b.loader.dioWrite = false
  oldCyc : b.loader.oldCyc = false
  clearAddr : b.loader.clearAddr = 0
  clearActive : b.loader.clearActive = false
  clearDone : b.loader.clearDone = false
  clearWrite : b.loader.clearWrite = false
  clearOldCyc : b.loader.clearOldCyc = false

section Proofs

variable {b : Board} {u : ℕ → Host × Request} {m p t : ℕ}

theorem board_succ : board b u (t + 1) = (board b u t).step (u t) := rfl

theorem pos_succ : (board b u (t + 1)).slots.pos = ((board b u t).slots.pos + 1) % 16 :=
  Slots.pos_step _

theorem extra_iff :
    (board b u t).slots.extraBusControl = true ↔
      8 ≤ (board b u t).slots.pos ∧ (board b u t).slots.pos < 12 :=
  Slots.extra_iff _

theorem not_extra_iff :
    (board b u t).slots.extraBusControl = false ↔
      (board b u t).slots.pos < 8 ∨ 12 ≤ (board b u t).slots.pos := by
  rw [← Bool.not_eq_true, extra_iff]
  omega

theorem pos_add (h : Starts b u p) {k : ℕ} (hk : k < 8) :
    (board b u (p + k)).slots.pos = 8 + k := by
  induction k with
  | zero => exact h
  | succ k ih =>
    rw [← Nat.add_assoc, pos_succ, ih (by omega)]
    omega

theorem inStep_board (hi : Idle b) :
    (board b u t).ram.sdram.t = inStep (board b u t).slots.busPhase := by
  induction t with
  | zero => exact hi.inStep
  | succ t ih => exact Ram.inStep_clock ih

/-- The counter of the controller stands at 0 in the first clock of a slot and at 2 in the second. -/
theorem t_board (hi : Idle b) :
    ((board b u t).ram.sdram.t = 0 ↔ (board b u t).slots.pos % 4 = 0) ∧
      ((board b u t).ram.sdram.t = 2 ↔ (board b u t).slots.pos % 4 = 1) := by
  rw [inStep_board hi, ← Slots.busPhase_eq]
  generalize (board b u t).slots.busPhase = p
  revert p
  decide

/-! ### The write of a slot -/

/-- The command of clock `t`. -/
def commandAt (b : Board) (u : ℕ → Host × Request) (t : ℕ) : Command :=
  (board b u t).command (u t).1 (u t).2

/-- A slot whose first clock is given a write performs it in the second, in the row opened in the
first, with the column, data and strobes of the second. -/
theorem storeAt_succ (hi : Idle b) (h : Starts b u p) (hlock : (u p).1.sysLocked = true)
    (hready : (board b u p).ram.reset = 0) :
    storeAt b u (p + 1) =
      if (commandAt b u p).we then
        some ⟨cell (rowOf (commandAt b u p).addr) (commandAt b u (p + 1)).addr,
          (commandAt b u (p + 1)).din, (commandAt b u (p + 1)).uds, (commandAt b u (p + 1)).lds⟩
      else none := by
  have ht : (board b u p).ram.sdram.t = 0 := (t_board hi).1.mpr (by rw [h])
  have hclk : (board b u p).slots.clk8 = true := by
    rw [Slots.clk8, decide_eq_true_iff, BitVec.lt_def, Slots.busPhase_eq, h]
    decide
  have hram : (board b u (p + 1)).ram =
      ⟨(board b u p).ram.sdram.clock true (commandAt b u p), 0⟩ := by
    rw [board_succ, Board.step, hlock, hclk, Bool.not_true]
    exact Ram.clock_of_ready hready
  rw [clock_zero _ ht] at hram
  rw [storeAt, Board.store, hram]
  cases hwe : (commandAt b u p).we with
  | true =>
    rw [if_pos ⟨rfl, rfl, rfl⟩]
    simp only [Bool.true_or, if_true]
    rfl
  | false => exact if_neg fun hc => Bool.false_ne_true hc.2.2

/-- A write in an extra slot is the write of its start. -/
theorem starts_of_store (hi : Idle b) {w : Store} (hw : storeAt b u t = some w)
    (hx : (board b u t).slots.extraBusControl = true) :
    ∃ p, t = p + 1 ∧ Starts b u p ∧ (u p).1.sysLocked = true ∧ (board b u p).ram.reset = 0 := by
  rw [storeAt, Board.store] at hw
  split_ifs at hw with hc
  obtain ⟨hreset, h2, -⟩ := hc
  have hpos := (t_board hi).2.mp h2
  rw [extra_iff] at hx
  cases t with
  | zero =>
    rcases hi.fresh with hf | hf
    · exact absurd hreset hf
    · exact absurd (hf.symm.trans hpos) (by decide)
  | succ p =>
    rw [pos_succ] at hpos hx
    have hlt := (board b u p).slots.pos_lt
    have hstart : (board b u p).slots.pos = 8 := by omega
    obtain ⟨h1, h3⟩ := Ram.ready_of_clock ((t_board hi).1.mpr (by rw [hstart])) hreset
    exact ⟨p, rfl, hstart, by simpa using h3, h1⟩

/-! ### The registers of the loader in a slot -/

theorem slotEnds_extra {x : Bool} : Loader.slotEnds true x = false := Bool.and_false _

theorem ioctlWait_succ :
    (board b u (t + 1)).loader.ioctlWait =
      if Loader.slotEnds (board b u t).slots.extraBusControl (board b u t).loader.oldCyc &&
        (board b u t).loader.dioWrite then false
      else if (u t).1.ioctlWrite then true
      else (board b u t).loader.ioctlWait := rfl

theorem dioWrite_succ :
    (board b u (t + 1)).loader.dioWrite =
      if !(board b u t).slots.extraBusControl then (board b u t).loader.ioctlWait
      else (board b u t).loader.dioWrite := rfl

theorem oldCyc_succ :
    (board b u (t + 1)).loader.oldCyc = (board b u t).slots.extraBusControl := rfl

/-- A slot that ends is over for one clock. -/
theorem pos_of_oldCyc (hi : Idle b) (h : (board b u t).loader.oldCyc = true) :
    9 ≤ (board b u t).slots.pos ∧ (board b u t).slots.pos ≤ 12 := by
  cases t with
  | zero => exact absurd (hi.oldCyc.symm.trans h) Bool.false_ne_true
  | succ t =>
    rw [oldCyc_succ, extra_iff] at h
    rw [pos_succ]
    omega

theorem slotEnds_iff (hi : Idle b) :
    Loader.slotEnds (board b u t).slots.extraBusControl (board b u t).loader.oldCyc = true →
      (board b u t).slots.pos = 12 := by
  intro h
  rw [Loader.slotEnds, Bool.and_eq_true, Bool.not_eq_true', not_extra_iff] at h
  have hpos := pos_of_oldCyc hi h.1
  omega

/-- The word of a download waits while it has the slot. -/
theorem wait_of_write (hi : Idle b) (hw : (board b u t).loader.dioWrite = true)
    (hx : (board b u t).slots.extraBusControl = true ∨ (board b u t).loader.oldCyc = true) :
    (board b u t).loader.ioctlWait = true := by
  induction t with
  | zero => exact absurd (hi.dioWrite.symm.trans hw) Bool.false_ne_true
  | succ t ih =>
    have hend : (Loader.slotEnds (board b u t).slots.extraBusControl
        (board b u t).loader.oldCyc && (board b u t).loader.dioWrite) = false ∧
        (board b u t).loader.ioctlWait = true := by
      rw [dioWrite_succ] at hw
      cases hext : (board b u t).slots.extraBusControl with
      | true =>
        rw [hext, Bool.not_true, if_neg Bool.false_ne_true] at hw
        refine ⟨?_, ih hw (.inl hext)⟩
        rw [Loader.slotEnds, Bool.not_true, Bool.and_false, Bool.false_and]
      | false =>
        rw [hext, Bool.not_false, if_pos rfl] at hw
        rw [oldCyc_succ, hext, extra_iff, pos_succ] at hx
        have hpos := hx.resolve_right Bool.false_ne_true
        have hold : (board b u t).loader.oldCyc = false := by
          by_contra hne
          have hlate := pos_of_oldCyc hi (eq_true_of_ne_false hne)
          rw [not_extra_iff] at hext
          omega
        refine ⟨?_, hw⟩
        rw [Loader.slotEnds, hold, Bool.false_and, Bool.false_and]
    rw [ioctlWait_succ, hend.1, if_neg Bool.false_ne_true, hend.2]
    split_ifs <;> rfl

/-! ### Downloads -/

/-- The word of a download has been written in the slot that is not over yet. -/
def Written (b : Board) (u : ℕ → Host × Request) (t : ℕ) : Prop :=
  (board b u t).loader.dioWrite = true ∧
    (10 ≤ (board b u t).slots.pos ∧ (board b u t).slots.pos < 12 ∨
      (board b u t).slots.pos = 12 ∧ (board b u t).loader.oldCyc = true)

theorem word_succ (h : (u t).1.ioctlWrite = false) :
    (board b u (t + 1)).loader.word = (board b u t).loader.word := by
  rw [board_succ, Board.step, Loader.word, Loader.word, Loader.step, h, if_neg Bool.false_ne_true,
    if_neg Bool.false_ne_true]

theorem cell_of_lt {a : ℕ} (h : a < 2 ^ 23) : cell (rowOf a) a = a := by
  rw [cell_rowOf, Nat.mod_eq_of_lt h]

theorem word_addr_lt (l : Loader) : l.word.addr < 2 ^ 23 := by
  have h := Nat.mod_lt l.dioA (show 0 < 2 ^ 22 by decide)
  change 0x400000 + l.dioA % 2 ^ 22 < 2 ^ 23
  omega

/-- A slot of a download stores its word. -/
theorem store_of_word (hi : Idle b) (hp : Polite b u m) (hs : Steady b u m) (hpm : p < m)
    (h : Starts b u p) (hw : (board b u p).loader.dioWrite = true) :
    storeAt b u (p + 1) = some (board b u (p + 1)).loader.word := by
  obtain ⟨hd, hd', hlock, hready⟩ := hs.word p hpm h hw
  have hext : (board b u p).slots.extraBusControl = true := extra_iff.mpr (by rw [h]; decide)
  have hext' : (board b u (p + 1)).slots.extraBusControl = true :=
    extra_iff.mpr (by rw [pos_add h (by decide)]; decide)
  have hno : (u p).1.ioctlWrite = false := by
    by_contra hne
    have hwait := wait_of_write hi hw (.inl hext)
    exact Bool.false_ne_true ((hp p hpm (eq_true_of_ne_false hne)).symm.trans hwait)
  have hc : commandAt b u p = (board b u p).loader.word.command (board b u p).loader.dioWrite :=
    command_download hext hd
  have hc' : commandAt b u (p + 1) =
      (board b u (p + 1)).loader.word.command (board b u (p + 1)).loader.dioWrite :=
    command_download hext' hd'
  rw [storeAt_succ hi h hlock hready, hc', hc, hw, word_succ hno]
  exact congrArg (fun a => some (Store.mk a _ _ _)) (cell_of_lt (word_addr_lt _))

/-! ### The clear -/

theorem counts_extra (l : Loader) (h : Host) : l.counts h true = false := by
  rw [Loader.counts, slotEnds_extra, Bool.and_false, Bool.false_and]

/-- In a slot the clear stands still. -/
theorem clear_succ (hlock : (u t).1.sysLocked = true)
    (hext : (board b u t).slots.extraBusControl = true) :
    (board b u (t + 1)).loader.clearAddr = (board b u t).loader.clearAddr ∧
      (board b u (t + 1)).loader.clearWrite = (board b u t).loader.clearWrite ∧
      ((board b u t).loader.clearActive = true →
        (board b u (t + 1)).loader.clearActive = true) := by
  rw [board_succ, Board.step, hext, Loader.step, hlock, counts_extra]
  refine ⟨rfl, ?_, fun ha => ?_⟩
  · simp
  · simp [ha]

theorem clearAddr_le (hi : Idle b) : (board b u t).loader.clearAddr ≤ clearLimit := by
  induction t with
  | zero =>
    change b.loader.clearAddr ≤ clearLimit
    rw [hi.clearAddr]
    exact Nat.zero_le _
  | succ t ih =>
    change (if _ then _ else _) ≤ _
    split_ifs with h1 h2
    · exact Nat.zero_le _
    · rw [Bool.and_eq_true, bne_iff_ne] at h2
      change (board b u t).loader.clearAddr + 1 ≤ clearLimit
      have hne := h2.2
      change (board b u t).loader.clearAddr ≠ clearLimit at hne
      omega
    · exact ih

/-- A slot of the clear stores a zero. -/
theorem store_of_clear (hi : Idle b) (hs : Steady b u m) (hpm : p < m) (h : Starts b u p)
    (hd : (u p).1.dioDownload = false) (hlock : (u p).1.sysLocked = true)
    (hready : (board b u p).ram.reset = 0) (ha : (board b u p).loader.clearActive = true)
    (hw : (board b u p).loader.clearWrite = true) :
    storeAt b u (p + 1) = some (board b u (p + 1)).loader.zero := by
  have hext : (board b u p).slots.extraBusControl = true := extra_iff.mpr (by rw [h]; decide)
  have hext' : (board b u (p + 1)).slots.extraBusControl = true :=
    extra_iff.mpr (by rw [pos_add h (by decide)]; decide)
  obtain ⟨haddr, -, hact⟩ := clear_succ hlock hext
  have hzero : (board b u (p + 1)).loader.zero = (board b u p).loader.zero := by
    rw [Loader.zero, Loader.zero, haddr]
  have hc : commandAt b u p = (board b u p).loader.zero.command (board b u p).loader.clearWrite :=
    command_clear hext hd ha
  have hc' : commandAt b u (p + 1) =
      (board b u (p + 1)).loader.zero.command (board b u (p + 1)).loader.clearWrite :=
    command_clear hext' (hs.rise p hpm h hw hd) (hact ha)
  have hlt : (board b u p).loader.zero.addr < 2 ^ 23 :=
    lt_of_le_of_lt (clearAddr_le hi) (by decide)
  rw [storeAt_succ hi h hlock hready, hc', hc, hw, hzero]
  exact congrArg (fun a => some (Store.mk a _ _ _)) (cell_of_lt hlt)

/-! ### The contract -/

theorem dioWrite_extra (hext : (board b u t).slots.extraBusControl = true) :
    (board b u (t + 1)).loader.dioWrite = (board b u t).loader.dioWrite := by
  rw [dioWrite_succ, hext, Bool.not_true, if_neg Bool.false_ne_true]

/-- The host waits for one rotation at most. -/
theorem served (t : ℕ) : ∃ k, t ≤ k ∧ k ≤ t + 21 ∧ (board b u k).loader.ioctlWait = false := by
  by_contra hno
  push Not at hno
  have hwait : ∀ k, t ≤ k → k ≤ t + 21 → (board b u k).loader.ioctlWait = true := fun k h1 h2 =>
    eq_true_of_ne_false (hno k h1 h2)
  have hrot : ∀ k, (board b u (t + k)).slots.pos = ((board b u t).slots.pos + k) % 16 := by
    intro k
    induction k with
    | zero => exact (Nat.mod_eq_of_lt (board b u t).slots.pos_lt).symm
    | succ k ih =>
      rw [← Nat.add_assoc, pos_succ, ih]
      omega
  obtain ⟨k, hk, hpos⟩ : ∃ k < 16, (board b u (t + k)).slots.pos = 7 := by
    refine ⟨(7 + 16 - (board b u t).slots.pos) % 16, Nat.mod_lt _ (by decide), ?_⟩
    have hlt := (board b u t).slots.pos_lt
    rw [hrot]
    omega
  have hstart : Starts b u (t + k + 1) := by
    rw [Starts, pos_succ, hpos]
  have hext : ∀ j < 4, (board b u (t + k + 1 + j)).slots.extraBusControl = true := by
    intro j hj
    rw [extra_iff, pos_add hstart (by omega)]
    omega
  have hwrite : ∀ j ≤ 4, (board b u (t + k + 1 + j)).loader.dioWrite = true := by
    intro j
    induction j with
    | zero =>
      intro _
      rw [Nat.add_zero, dioWrite_succ, not_extra_iff.mpr (by omega), Bool.not_false, if_pos rfl]
      exact hwait _ (by omega) (by omega)
    | succ j ih =>
      intro hj
      rw [← Nat.add_assoc, dioWrite_extra (hext j (by omega))]
      exact ih (by omega)
  have hdone : (board b u (t + k + 1 + 4 + 1)).loader.ioctlWait = false := by
    have hout : (board b u (t + k + 1 + 4)).slots.extraBusControl = false := by
      rw [not_extra_iff, pos_add hstart (by decide)]
      omega
    have hold : (board b u (t + k + 1 + 4)).loader.oldCyc = true := hext 3 (by decide)
    rw [ioctlWait_succ, hout, hold, hwrite 4 le_rfl]
    rfl
  have hstill := hwait (t + k + 1 + 4 + 1) (by omega) (by omega)
  exact Bool.false_ne_true (hdone.symm.trans hstill)

/-- The engine that owns a slot writes its own word. -/
theorem owner_of_store (hi : Idle b) (hp : Polite b u m) (hs : Steady b u m) (htm : t < m)
    {w : Store} (hw : storeAt b u t = some w)
    (hext : (board b u t).slots.extraBusControl = true) :
    (board b u t).slots.pos = 9 ∧
      ((u t).1.dioDownload = true ∧ (board b u t).loader.dioWrite = true ∧
          w = (board b u t).loader.word ∨
        (u t).1.dioDownload = false ∧ w = (board b u t).loader.zero) := by
  obtain ⟨p, rfl, hstart, hlock, hready⟩ := starts_of_store hi hw hext
  have hx : (board b u p).slots.extraBusControl = true := extra_iff.mpr (by rw [hstart]; decide)
  have hwe : (commandAt b u p).we = true := by
    rw [storeAt_succ hi hstart hlock hready] at hw
    split_ifs at hw with hwe
    exact hwe
  refine ⟨by rw [pos_add hstart (by decide)], ?_⟩
  cases hd : (u p).1.dioDownload with
  | true =>
    have hc : commandAt b u p = (board b u p).loader.word.command (board b u p).loader.dioWrite :=
      command_download hx hd
    rw [hc] at hwe
    have hdw : (board b u p).loader.dioWrite = true := hwe
    rw [store_of_word hi hp hs (by omega) hstart hdw, Option.some.injEq] at hw
    exact .inl ⟨(hs.word p (by omega) hstart hdw).2.1, by rw [dioWrite_extra hx, hdw], hw.symm⟩
  | false =>
    cases ha : (board b u p).loader.clearActive with
    | false => exact absurd (hwe.symm.trans (we_idle hx hd ha)) (by decide)
    | true =>
      have hc : commandAt b u p =
          (board b u p).loader.zero.command (board b u p).loader.clearWrite :=
        command_clear hx hd ha
      rw [hc] at hwe
      have hcw : (board b u p).loader.clearWrite = true := hwe
      rw [store_of_clear hi hs (by omega) hstart hd hlock hready ha hcw, Option.some.injEq] at hw
      exact .inr ⟨hs.rise p (by omega) hstart hcw hd, hw.symm⟩

/-- The words sent and the words stored: they agree, or the last one waits to be stored. -/
def Balanced (b : Board) (u : ℕ → Host × Request) (t : ℕ) : Prop :=
  ((board b u t).loader.ioctlWait = true ∧ ¬ Written b u t ∧
      downloaded u t = stored b u t ++ [(board b u t).loader.word]) ∨
    (((board b u t).loader.ioctlWait = false ∨ Written b u t) ∧ stored b u t = downloaded u t)

theorem target_lt (h : Host) : h.target < 2 ^ 22 := by
  unfold Host.target
  have h1 : (h.dioIndex.extractLsb' 6 1).toNat < 2 ^ 1 := BitVec.isLt _
  split_ifs with h2 h3
  · omega
  · rcases h3 with h3 | h3 <;> rw [h3] <;> simp <;> omega
  · omega

/-- The loader puts a word where the download is to be put. -/
theorem fileWord_eq (h : Host) : h.fileWord = ⟨0x400000 + h.target, h.swapped, true, true⟩ := by
  have hidx := h.dioIndex.isLt
  have hlow : (h.dioIndex.extractLsb' 0 2).toNat = h.dioIndex.toNat % 4 := by
    rw [BitVec.extractLsb'_toNat, Nat.shiftRight_zero]
  have hbank : (h.dioIndex.extractLsb' 6 1).toNat = h.dioIndex.toNat / 64 % 2 := by
    rw [BitVec.extractLsb'_toNat, Nat.shiftRight_eq_div_pow]
  have hplace : h.place = 0x400000 + h.target := by
    have h0 : (0 : Byte).toNat = 0 := rfl
    have h1 : (1 : BitVec 2).toNat = 1 := rfl
    have h2 : (2 : BitVec 2).toNat = 2 := rfl
    unfold Host.place Host.target
    simp only [← BitVec.toNat_inj, hlow, hbank, h0, h1, h2]
    split_ifs <;> omega
  have hdata := h.ioctlData.isLt
  have hlo : (lowByte h.ioctlData).toNat = h.ioctlData.toNat % 256 := by
    rw [lowByte, BitVec.extractLsb'_toNat, Nat.shiftRight_zero]
  have hhi : (highByte h.ioctlData).toNat = h.ioctlData.toNat / 256 := by
    rw [highByte, BitVec.extractLsb'_toNat, Nat.shiftRight_eq_div_pow]
    omega
  have hswap : BitVec.ofNat 16 (256 * (h.ioctlData.toNat % 256) + h.ioctlData.toNat / 256) = h.swapped := by
    apply BitVec.eq_of_toNat_eq
    rw [Host.swapped, pairWord, BitVec.toNat_append, ← Nat.shiftLeft_add_eq_or_of_lt (BitVec.isLt _),
      Nat.shiftLeft_eq, hlo, hhi, BitVec.toNat_ofNat]
    omega
  rw [Host.fileWord, hplace, hswap]

/-- A word of the host comes while nothing waits. -/
theorem balanced_of_write (hi : Idle b) (hp : Polite b u m) (htm : t < m)
    (hw : (u t).1.ioctlWrite = true) (hst : stored b u (t + 1) = stored b u t)
    (h : Balanced b u t) : Balanced b u (t + 1) := by
  have hwait := hp t htm hw
  have hold : stored b u t = downloaded u t := by
    rcases h with ⟨hw', -⟩ | ⟨-, he⟩
    · exact absurd (hwait.symm.trans hw') Bool.false_ne_true
    · exact he
  have hno : (Loader.slotEnds (board b u t).slots.extraBusControl (board b u t).loader.oldCyc &&
      (board b u t).loader.dioWrite) = false := by
    by_contra hne
    rw [Bool.not_eq_false, Bool.and_eq_true, Loader.slotEnds, Bool.and_eq_true] at hne
    exact Bool.false_ne_true (hwait.symm.trans (wait_of_write hi hne.2 (.inr hne.1.1)))
  refine .inl ⟨by rw [ioctlWait_succ, hno, hw]; rfl, ?_, ?_⟩
  · rintro ⟨hdw, -⟩
    rw [dioWrite_succ] at hdw
    split_ifs at hdw with hext
    · exact Bool.false_ne_true (hwait.symm.trans hdw)
    · rw [Bool.not_eq_true, Bool.not_eq_false'] at hext
      exact Bool.false_ne_true (hwait.symm.trans (wait_of_write hi hdw (.inl hext)))
  · have hword : (board b u (t + 1)).loader.word = (u t).1.fileWord := by
      rw [fileWord_eq, board_succ, Board.step, Loader.word, Loader.step, hw, if_pos rfl, if_pos rfl,
        Nat.mod_eq_of_lt (target_lt _)]
    rw [downloaded, hw, if_pos rfl, hst, hold, hword]

/-- While nothing is written, a written word stays written and an unwritten one unwritten. -/
theorem written_succ (hi : Idle b) (hp : Polite b u m) (hs : Steady b u m) (htm : t < m)
    (hend : (Loader.slotEnds (board b u t).slots.extraBusControl (board b u t).loader.oldCyc &&
      (board b u t).loader.dioWrite) = false)
    (hst : ∀ w, (board b u t).slots.extraBusControl = true → (u t).1.dioDownload = true →
      storeAt b u t ≠ some w) : Written b u (t + 1) ↔ Written b u t := by
  constructor
  · rintro ⟨hdw, hpos⟩
    rw [pos_succ, oldCyc_succ, extra_iff] at hpos
    have hlt := (board b u t).slots.pos_lt
    have hext : (board b u t).slots.extraBusControl = true := extra_iff.mpr (by omega)
    rw [dioWrite_extra hext] at hdw
    refine ⟨hdw, .inl ?_⟩
    by_cases h9 : (board b u t).slots.pos = 9
    · -- the second clock of a slot of the download writes
      exfalso
      cases t with
      | zero => exact Bool.false_ne_true (hi.dioWrite.symm.trans hdw)
      | succ p =>
        rw [pos_succ] at h9
        have hstart : Starts b u p := by
          have h8 := (board b u p).slots.pos_lt
          rw [Starts]
          omega
        have hx : (board b u p).slots.extraBusControl = true :=
          extra_iff.mpr (by rw [hstart]; decide)
        rw [dioWrite_extra hx] at hdw
        have hd := (hs.word p (by omega) hstart hdw).2.1
        exact hst _ hext hd (store_of_word hi hp hs (by omega) hstart hdw)
    · omega
  · rintro ⟨hdw, hpos | ⟨hpos, hold⟩⟩
    · have hext : (board b u t).slots.extraBusControl = true := extra_iff.mpr (by omega)
      refine ⟨by rw [dioWrite_extra hext, hdw], ?_⟩
      rw [pos_succ, oldCyc_succ]
      by_cases h10 : (board b u t).slots.pos = 10
      · exact .inl (by omega)
      · exact .inr ⟨by omega, hext⟩
    · have hout : (board b u t).slots.extraBusControl = false := not_extra_iff.mpr (by omega)
      rw [Loader.slotEnds, hold, hout, hdw] at hend
      exact absurd hend (by decide)

/-- Words are stored once and in order. -/
theorem balanced (hi : Idle b) (hp : Polite b u m) (hs : Steady b u m) (ht : t ≤ m) :
    Balanced b u t := by
  induction t with
  | zero => exact .inr ⟨.inl hi.ioctlWait, rfl⟩
  | succ t ih =>
    have hold := ih (by omega)
    by_cases hst : (board b u t).slots.extraBusControl = true ∧ (u t).1.dioDownload = true ∧
        ∃ w, storeAt b u t = some w
    · -- the download's slot writes: the word that waits
      obtain ⟨hext, hd, w, hw⟩ := hst
      obtain ⟨hpos, hown⟩ := owner_of_store hi hp hs (by omega) hw hext
      rcases hown with ⟨-, hdw, rfl⟩ | ⟨hd', -⟩
      · have hwait := wait_of_write hi hdw (.inl hext)
        have hno : (u t).1.ioctlWrite = false := by
          by_contra hne
          exact Bool.false_ne_true ((hp t (by omega) (eq_true_of_ne_false hne)).symm.trans hwait)
        have hbal : downloaded u t = stored b u t ++ [(board b u t).loader.word] := by
          rcases hold with ⟨-, -, he⟩ | ⟨hnot | ⟨-, hlate⟩, -⟩
          · exact he
          · exact absurd (hnot.symm.trans hwait) Bool.false_ne_true
          · omega
        refine .inr ⟨.inr ⟨by rw [dioWrite_extra hext, hdw], .inl ?_⟩, ?_⟩
        · rw [pos_succ, hpos]
          decide
        · rw [stored, hext, hd, Bool.true_and, if_pos rfl, hw, Option.toList_some, ← hbal,
            downloaded, hno, if_neg Bool.false_ne_true]
      · exact absurd (hd'.symm.trans hd) Bool.false_ne_true
    · have hst' : ∀ w, (board b u t).slots.extraBusControl = true →
          (u t).1.dioDownload = true → storeAt b u t ≠ some w :=
        fun w h1 h2 h3 => hst ⟨h1, h2, w, h3⟩
      have hsame : stored b u (t + 1) = stored b u t := by
        rw [stored]
        split_ifs with hc
        · rw [Bool.and_eq_true] at hc
          have hnone : storeAt b u t = none :=
            Option.eq_none_iff_forall_ne_some.mpr fun w => hst' w hc.1 hc.2
          rw [hnone, Option.toList_none, List.append_nil]
        · rfl
      cases hw : (u t).1.ioctlWrite with
      | true => exact balanced_of_write hi hp (by omega) hw hsame hold
      | false =>
        have hdown : downloaded u (t + 1) = downloaded u t := by
          rw [downloaded, hw, if_neg Bool.false_ne_true]
        cases hend : (Loader.slotEnds (board b u t).slots.extraBusControl
            (board b u t).loader.oldCyc && (board b u t).loader.dioWrite) with
        | true =>
          have hwritten : Written b u t := by
            have hparts := Bool.and_eq_true_iff.mp hend
            have h12 := slotEnds_iff hi hparts.1
            rw [Loader.slotEnds, Bool.and_eq_true] at hparts
            exact ⟨hparts.2, .inr ⟨h12, hparts.1.1⟩⟩
          refine .inr ⟨.inl (by rw [ioctlWait_succ, hend, if_pos rfl]), ?_⟩
          rw [hsame, hdown]
          exact hold.elim (fun h => absurd hwritten h.2.1) And.right
        | false =>
          have hwait : (board b u (t + 1)).loader.ioctlWait = (board b u t).loader.ioctlWait := by
            rw [ioctlWait_succ, hend, hw, if_neg Bool.false_ne_true, if_neg Bool.false_ne_true]
          rw [Balanced, hwait, written_succ hi hp hs (by omega) hend hst', hsame, hdown,
            word_succ hw]
          exact hold

theorem clearWrite_succ :
    (board b u (t + 1)).loader.clearWrite =
      if !(u t).1.sysLocked then false
      else if (board b u t).loader.counts (u t).1 (board b u t).slots.extraBusControl then false
      else if (board b u t).loader.clearActive && !(u t).1.dioDownload &&
        !(board b u t).slots.extraBusControl then true
      else (board b u t).loader.clearWrite := rfl

theorem clearActive_succ :
    (board b u (t + 1)).loader.clearActive =
      if !(u t).1.sysLocked then false
      else if (board b u t).loader.counts (u t).1 (board b u t).slots.extraBusControl &&
        (board b u t).loader.clearAddr == clearLimit then false
      else if !(board b u t).loader.clearDone && !(board b u t).loader.clearActive &&
        (board b u t).loader.romLoaded then true
      else (board b u t).loader.clearActive := rfl

theorem clearOldCyc_succ :
    (board b u (t + 1)).loader.clearOldCyc =
      if !(u t).1.sysLocked then false else (board b u t).slots.extraBusControl := rfl

theorem active_of_write (hi : Idle b) (hw : (board b u t).loader.clearWrite = true) :
    (board b u t).loader.clearActive = true := by
  induction t with
  | zero => exact absurd (hi.clearWrite.symm.trans hw) Bool.false_ne_true
  | succ t ih =>
    rw [clearWrite_succ] at hw
    rw [clearActive_succ]
    split_ifs at hw with h1 h2 h3
    · rw [Bool.and_eq_true, Bool.and_eq_true] at h3
      rw [if_neg h1, eq_false_of_ne_true h2, Bool.false_and, if_neg Bool.false_ne_true, h3.1.1]
      split_ifs <;> rfl
    · rw [if_neg h1, eq_false_of_ne_true h2, Bool.false_and, if_neg Bool.false_ne_true, ih hw]
      split_ifs <;> rfl

/-- The clear has its slot from the start. -/
theorem clear_back (hi : Idle b) {n : ℕ} (hn : n ≤ 4) (hpos : (board b u t).slots.pos = 8 + n)
    (hw : (board b u t).loader.clearWrite = true) :
    ∃ p, t = p + n ∧ Starts b u p ∧ (board b u p).loader.clearWrite = true ∧
      (board b u p).loader.clearAddr = (board b u t).loader.clearAddr ∧
      ∀ k, p ≤ k → k < t → (u k).1.sysLocked = true := by
  induction n generalizing t with
  | zero => exact ⟨t, rfl, hpos, hw, rfl, fun k h1 h2 => absurd h2 (by omega)⟩
  | succ n ih =>
    cases t with
    | zero => exact absurd (hi.clearWrite.symm.trans hw) Bool.false_ne_true
    | succ t =>
      have hlock : (u t).1.sysLocked = true := by
        rw [clearWrite_succ] at hw
        split_ifs at hw with h1 <;> simpa using h1
      have hpos' : (board b u t).slots.pos = 8 + n := by
        rw [pos_succ] at hpos
        have hlt := (board b u t).slots.pos_lt
        omega
      obtain ⟨haddr, hwrite, -⟩ := clear_succ hlock ((@extra_iff b u t).mpr (by omega))
      obtain ⟨p, rfl, hstart, hwp, hap, hk⟩ := ih (by omega) hpos' (hwrite ▸ hw)
      refine ⟨p, rfl, hstart, hwp, hap.trans haddr.symm, fun k h1 h2 => ?_⟩
      rcases Nat.lt_or_eq_of_le (Nat.le_of_lt_succ h2) with h3 | rfl
      · exact hk k h1 h3
      · exact hlock

/-- A slot that counts has zeroed the word the clear stands at. -/
theorem zeroed_of_counts (hi : Idle b) (hs : Steady b u m) (htm : t < m)
    (hc : (board b u t).loader.counts (u t).1 (board b u t).slots.extraBusControl = true) :
    Zeroed b u (t + 1) (board b u t).loader.clearAddr := by
  have hparts := hc
  rw [Loader.counts, Bool.and_eq_true, Bool.and_eq_true, Bool.and_eq_true, Bool.and_eq_true,
    Loader.slotEnds, Bool.and_eq_true, Bool.not_eq_true', Bool.not_eq_true'] at hparts
  obtain ⟨⟨⟨⟨hlock, -⟩, -⟩, hold, hout⟩, hw⟩ := hparts
  have hpos : (board b u t).slots.pos = 8 + 4 := by
    cases t with
    | zero => exact absurd (hi.clearOldCyc.symm.trans hold) Bool.false_ne_true
    | succ t =>
      rw [clearOldCyc_succ] at hold
      split_ifs at hold
      rw [extra_iff] at hold
      rw [not_extra_iff, pos_succ] at hout
      rw [pos_succ]
      omega
  obtain ⟨p, rfl, hstart, hwp, haddr, hk⟩ := clear_back hi le_rfl hpos hw
  rw [hout] at hc
  obtain ⟨hd, hready⟩ := hs.count p htm hstart hc
  have hlockp := hk p le_rfl (by omega)
  have hext : (board b u p).slots.extraBusControl = true := extra_iff.mpr (by rw [hstart]; decide)
  have hst := store_of_clear hi hs (by omega) hstart hd hlockp hready (active_of_write hi hwp) hwp
  refine ⟨p + 1, by omega, ?_, ?_, fun k h1 h2 => ?_⟩
  · rw [extra_iff, pos_add hstart (by decide)]
    decide
  · rw [hst, Loader.zero, (clear_succ hlockp hext).1, haddr]
  · rcases Nat.lt_or_eq_of_le (Nat.le_of_lt_succ h2) with h3 | rfl
    · exact hk k (by omega) h3
    · exact hlock

theorem Zeroed.succ {a : ℕ} (h : Zeroed b u t a) (hlock : (u t).1.sysLocked = true) :
    Zeroed b u (t + 1) a := by
  obtain ⟨j, hj, hext, hst, hk⟩ := h
  refine ⟨j, by omega, hext, hst, fun k h1 h2 => ?_⟩
  rcases Nat.lt_or_eq_of_le (Nat.le_of_lt_succ h2) with h3 | rfl
  · exact hk k h1 h3
  · exact hlock

/-- What the clear has passed is zero. -/
theorem cleared (hi : Idle b) (hs : Steady b u m) (ht : t ≤ m) :
    (∀ a < (board b u t).loader.clearAddr, Zeroed b u t a) ∧
      ((board b u t).loader.clearDone = true → ∀ a ≤ clearLimit, Zeroed b u t a) := by
  induction t with
  | zero =>
    refine ⟨fun a ha => ?_, fun hd => absurd (hi.clearDone.symm.trans hd) Bool.false_ne_true⟩
    exact absurd (hi.clearAddr ▸ ha) (Nat.not_lt_zero a)
  | succ t ih =>
    obtain ⟨hpast, hdone⟩ := ih (by omega)
    cases hlock : (u t).1.sysLocked with
    | false =>
      have haddr : (board b u (t + 1)).loader.clearAddr = 0 := by
        rw [board_succ, Board.step, Loader.step, hlock]
        rfl
      have hnot : (board b u (t + 1)).loader.clearDone = false := by
        rw [board_succ, Board.step, Loader.step, hlock]
        rfl
      refine ⟨fun a ha => ?_, fun hd => absurd (hnot.symm.trans hd) Bool.false_ne_true⟩
      exact absurd (haddr ▸ ha) (Nat.not_lt_zero a)
    | true =>
      have haddr : (board b u (t + 1)).loader.clearAddr =
          if (board b u t).loader.counts (u t).1 (board b u t).slots.extraBusControl &&
            (board b u t).loader.clearAddr != clearLimit then (board b u t).loader.clearAddr + 1
          else (board b u t).loader.clearAddr := by
        rw [board_succ, Board.step, Loader.step, hlock]
        rfl
      have hdn : (board b u (t + 1)).loader.clearDone =
          if (board b u t).loader.counts (u t).1 (board b u t).slots.extraBusControl &&
            (board b u t).loader.clearAddr == clearLimit then true
          else (board b u t).loader.clearDone := by
        rw [board_succ, Board.step, Loader.step, hlock]
        rfl
      rw [haddr, hdn]
      cases hc : (board b u t).loader.counts (u t).1 (board b u t).slots.extraBusControl with
      | false =>
        rw [Bool.false_and, Bool.false_and, if_neg Bool.false_ne_true, if_neg Bool.false_ne_true]
        exact ⟨fun a ha => (hpast a ha).succ hlock, fun hd a ha => (hdone hd a ha).succ hlock⟩
      | true =>
        have hnow := zeroed_of_counts hi hs (by omega) hc
        rw [Bool.true_and, Bool.true_and]
        have hupto : ∀ a ≤ (board b u t).loader.clearAddr, Zeroed b u (t + 1) a := by
          intro a ha
          rcases Nat.lt_or_eq_of_le ha with hlt | rfl
          · exact (hpast a hlt).succ hlock
          · exact hnow
        by_cases hlim : (board b u t).loader.clearAddr = clearLimit
        · rw [if_neg (by simp [hlim]), if_pos (by simp [hlim])]
          exact ⟨fun a ha => hupto a ha.le, fun _ a ha => hupto a (hlim ▸ ha)⟩
        · rw [if_pos (bne_iff_ne.mpr hlim), if_neg (by simp [hlim])]
          exact ⟨fun a ha => hupto a (Nat.le_of_lt_succ ha),
            fun hd a ha => (hdone hd a ha).succ hlock⟩

/-- In a steady run downloads and the clear are exact. -/
theorem contract_of_steady (hi : Idle b) (hp : Polite b u m) (hs : Steady b u m) :
    Contract b u m where
  served := served
  once t ht hwait := by
    rcases balanced hi hp hs ht with ⟨hw, -⟩ | ⟨-, he⟩
    · exact absurd (hwait.symm.trans hw) Bool.false_ne_true
    · exact he
  only t ht hext w hw := by
    obtain ⟨-, ⟨hd, -, rfl⟩ | ⟨hd, rfl⟩⟩ := owner_of_store hi hp hs ht hw hext
    · rw [hd, if_pos rfl]
    · rw [hd, if_neg Bool.false_ne_true]
  cleared t ht := (cleared hi hs ht).2

end Proofs

/-! ### Two runs -/

/-- The board when `boot0.rom` is in: a word has just gone to the last cell of the ROM. -/
def loaded : Board where
  slots := ⟨0, 3, 0, false⟩
  loader := {
    dioA := 0x1FFFF, dioData := 0x1234, dioWrite := false, ioctlWait := false, oldCyc := false
    romLoaded := true, oldDown := false, sawRom0 := true
    clearAddr := 0, clearActive := false, clearDone := false, clearWrite := false
    clearOldCyc := false }
  ram := {
    sdram := {
      t := 0, oeLatch := false, weLatch := false, addrLatch := 0, row := 0, fetched := 0
      dout := 0, doutAddr := 0, mem := fun _ => 0xFFFF }
    reset := 0 }

theorem idle_loaded : Idle loaded :=
  ⟨rfl, .inr rfl, rfl, rfl, rfl, rfl, rfl, rfl, rfl, rfl⟩

/-- A machine that asks for nothing. -/
def noRequest : Request where
  config := ⟨2, 3, 3, false, false⟩
  cpuAddr := 0
  cpuRam := false
  cpuRom := false
  cpuRW := true
  cpuUDS := false
  cpuLDS := false
  cpuDataOut := 0
  videoAddr := 0
  hblank := false
  dskReadAddrInt := 0
  dskReadAddrExt := 0
  dioDownload := false
  dioWrite := false
  dioA := 0
  dioData := 0

/-- One word of a floppy image, and then the clear. -/
def oneWord (t : ℕ) : Host × Request :=
  (⟨true, decide (t < 20), t == 0, 1, 7, 0xABCD⟩, noRequest)

theorem polite_oneWord : Polite loaded oneWord 60 := by
  intro t _ h
  have ht : t = 0 := by simpa [oneWord] using h
  rw [ht]
  rfl

theorem steady_oneWord : Steady loaded oneWord 60 where
  word := by decide +kernel
  rise := by decide +kernel
  count := by
    have hall : ∀ p < 56, Starts loaded oneWord p →
        (board loaded oneWord (p + 4)).loader.counts (oneWord (p + 4)).1 false = true →
        (oneWord p).1.dioDownload = false ∧ (board loaded oneWord p).ram.reset = 0 := by
      decide +kernel
    exact fun p hp => hall p (by omega)

/-- A download that keeps its slots is exact, and so is the clear of the first words after it. -/
theorem contract_oneWord : Contract loaded oneWord 60 ∧
    stored loaded oneWord 60 = [⟨0x500007, 0xCDAB, true, true⟩] ∧
    0 < (board loaded oneWord 60).loader.clearAddr :=
  ⟨contract_of_steady idle_loaded polite_oneWord steady_oneWord, by decide +kernel, by decide +kernel⟩

/-- `dio_download` rises in the second clock of an extra slot. -/
def lateRise (t : ℕ) : Host × Request := (⟨true, 13 ≤ t, false, 1, 0, 0⟩, noRequest)

/-- The slot opens the row of the clear and writes the last ROM word into a column of the download:
the cell `0x4000FF` of the ROM is lost. -/
theorem torn_slot : ¬ Contract loaded lateRise 14 := by
  intro h
  have hw : storeAt loaded lateRise 13 = some ⟨0x4000FF, 0x1234, true, true⟩ := by decide +kernel
  have hword := h.only 13 (by decide) (by decide +kernel) _ hw
  exact absurd hword (by decide +kernel)

end Load

end Memory
