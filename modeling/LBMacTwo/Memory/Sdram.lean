import LBMacTwo.Memory.Slots

/-!
# The SDRAM controller and its chip: `sdram.v`

The controller runs at twice the system clock. Its counter `t` is held in step with the slots by
`clk_8`; the start-up ladder is over. The row is opened by the address at `t = 0`, the column
command takes its address, strobes and data at `t = 2`, and a word read is taken from the chip at
`t = 5`, the latency of the chip after the column command.

* `Sdram.tick`: one clock of the controller;
* `Sdram.clock`: the two that fall into one system clock, with one command on the wires;
* `InStep`: the counter at the start of each of the four clocks of a slot, kept by `clock`.
-/

namespace Memory

structure Sdram where
  t : BitVec 3
  oeLatch : Bool
  weLatch : Bool
  addrLatch : ℕ
  /-- The bank and row last opened. -/
  row : ℕ
  /-- The word a read command has fetched. -/
  fetched : Word
  dout : Word
  doutAddr : ℕ
  mem : ℕ → Word

/-- `addr[21:8]`: bank and row. -/
def rowOf (addr : ℕ) : ℕ := addr / 2 ^ 8 % 2 ^ 14

/-- The cell of an open row that the column bits `{addr[22], addr[7:0]}` select. -/
def cell (row addr : ℕ) : ℕ := addr / 2 ^ 22 % 2 * 2 ^ 22 + row * 2 ^ 8 + addr % 2 ^ 8

/-- A word with the strobed bytes replaced. -/
def merge (uds lds : Bool) (old new : Word) : Word :=
  pairWord (if uds then highByte new else highByte old) (if lds then lowByte new else lowByte old)

/-- The counter passes state 0 only after the rising edge of `clk_8`. -/
def tNext (t : BitVec 3) (clk8 : Bool) : BitVec 3 :=
  if (t == 7 && !clk8) || (t == 0 && clk8) || (t != 7 && t != 0) then t + 1 else t

namespace Sdram

variable (s : Sdram) (clk8 : Bool) (c : Command)

/-- One clock of the controller. -/
def tick : Sdram where
  t := tNext s.t clk8
  oeLatch := if s.t = 0 then c.oe else s.oeLatch
  weLatch := if s.t = 0 then c.we else s.weLatch
  addrLatch := if s.t = 0 then c.addr else s.addrLatch
  row := if s.t = 0 && (c.we || c.oe) then rowOf c.addr else s.row
  fetched :=
    if s.t = 2 && !s.weLatch && s.oeLatch then s.mem (cell s.row c.addr) else s.fetched
  dout := if s.t = 5 && s.oeLatch then s.fetched else s.dout
  doutAddr := if s.t = 5 && s.oeLatch then s.addrLatch else s.doutAddr
  mem :=
    if s.t = 2 && s.weLatch then
      Function.update s.mem (cell s.row c.addr)
        (merge c.uds c.lds (s.mem (cell s.row c.addr)) c.din)
    else s.mem

/-- One system clock. -/
def clock : Sdram := (s.tick clk8 c).tick clk8 c

end Sdram

theorem cell_rowOf (addr : ℕ) : cell (rowOf addr) addr = addr % 2 ^ 23 := by
  unfold cell rowOf
  omega

/-- Where the controller's counter stands at the start of a clock of a slot. -/
def inStep (busPhase : BitVec 2) : BitVec 3 := 2 * busPhase.setWidth 3

/-- From any start the counter is in step after two slots. -/
theorem tNext_locks (t : BitVec 3) :
    [true, true, true, true, false, false, false, false, true, true, true, true, false, false,
      false, false].foldl tNext t = 0 := by
  revert t
  decide +kernel

/-- The counter keeps in step: `t = 0` falls into the middle of the first clock of a slot. -/
theorem inStep_clock {s : Sdram} {p : Slots} {c : Command} (h : s.t = inStep p.busPhase) :
    (s.clock p.clk8 c).t = inStep p.step.busPhase := by
  change tNext (tNext s.t p.clk8) p.clk8 = inStep (p.busPhase + 1)
  rw [h]
  unfold Slots.clk8
  generalize p.busPhase = b
  revert b
  decide

/-! ### The four clocks of a slot -/

section Clocks

variable {s : Sdram} (c : Command)

/-- The row is opened. -/
theorem clock_zero (h : s.t = 0) :
    s.clock true c = { s with
      t := 2
      oeLatch := c.oe
      weLatch := c.we
      addrLatch := c.addr
      row := if c.we || c.oe then rowOf c.addr else s.row } := by
  simp [Sdram.clock, Sdram.tick, h, tNext]

/-- The column command reads or writes a cell. -/
theorem clock_two (h : s.t = 2) :
    s.clock true c = { s with
      t := 4
      fetched := if !s.weLatch && s.oeLatch then s.mem (cell s.row c.addr) else s.fetched
      mem :=
        if s.weLatch then
          Function.update s.mem (cell s.row c.addr)
            (merge c.uds c.lds (s.mem (cell s.row c.addr)) c.din)
        else s.mem } := by
  simp [Sdram.clock, Sdram.tick, h, tNext]

/-- The word read reaches the output. -/
theorem clock_four (h : s.t = 4) :
    s.clock false c = { s with
      t := 6
      dout := if s.oeLatch then s.fetched else s.dout
      doutAddr := if s.oeLatch then s.addrLatch else s.doutAddr } := by
  simp [Sdram.clock, Sdram.tick, h, tNext]

theorem clock_six (h : s.t = 6) : s.clock false c = { s with t := 0 } := by
  simp [Sdram.clock, Sdram.tick, h, tNext]

end Clocks

end Memory
