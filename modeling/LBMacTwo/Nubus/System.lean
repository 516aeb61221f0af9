import LBMacTwo.Cpu.BusError
import LBMacTwo.Cpu.Stages
import LBMacTwo.Nubus.Request

/-!
# The video card on the bus of the CPU: `LBMacTwo.sv`

The machine with the open-bus timeout, the card in its slot and the card's VRAM. What the other
devices answer is arbitrary, as before, and so is the vertical blanking.

* `System`, `Env`: the registers and the inputs of one clock;
* `System.openBus`: the timeout answers in place of a card;
* `Trace`: a run of it, and within it the machine's run with what the CPU meets;
* `bus_of_asked`: what the card sees in clock `k` of a bus cycle.
-/

namespace Nubus
open Cpu Clocked Wire

structure System where
  board : Board
  card : Card
  vram : Vram

/-- The inputs of one clock: those of the machine, but for what the card answers. -/
structure Env where
  cpu : Cpu.In
  vblPulse : Bool

namespace System

variable (turbo : Bool) (rom : ℕ → Word) (monitor512 : Bool) (s : System) (i : Env)

/-- `nubusAck_card`. -/
def answered : Cpu.In := { i.cpu with nubusAck := s.card.ack }

/-- `nubus_no_card && nubus_timeout >= 4`. -/
def openBus : Bool := s.board.nubusNoCard (s.answered i) && decide (4 ≤ s.board.nubusTimeout)

/-- `nubusDataOut`. -/
def nubusDataOut : Word := if s.openBus i then 0xFFFF else s.card.dataOut

/-- `selectNuBus`. -/
def select : Bool := (s.board.machine.sel i.cpu).nubus

/-- The inputs of the machine with its timeout. -/
def boardIn : Cpu.In :=
  { s.answered i with
    deviceData := if s.select i then s.nubusDataOut i else i.cpu.deviceData }

/-- The wires of the card. -/
def bus : Bus where
  key :=
    { addr := s.board.machine.cpuAddr i.cpu
      dataIn := s.board.machine.cpu.kernel.dout
      uds := s.board.machine.cpu.udsR
      lds := s.board.machine.cpu.ldsR
      rw := s.board.machine.cpu.rwR }
  as := s.board.machine.cpu.asR
  select := s.select i
  vramDin := s.vram.dout
  vramReady := s.vram.ready
  vblPulse := i.vblPulse

/-- One system clock. -/
def step : System where
  board := s.board.step turbo (s.boardIn i)
  card := s.card.step rom monitor512 (s.bus i)
  vram := s.vram.step s.card.vramAddr s.card.vramDout s.card.vramRd s.card.vramWr

end System

/-- A run: its parameters, the system it starts in and the inputs. -/
structure Trace where
  turbo : Bool
  rom : ℕ → Word
  monitor512 : Bool
  start : System
  input : ℕ → Env

/-- A write before its strobes fall. -/
def Key.early (q : Key) : Key := if q.rw then q else { q with uds := false, lds := false }

/-- The request `k` clocks after the fall of AS. -/
def Key.seen (q : Key) (turbo : Bool) (k : ℕ) : Key := if lead turbo ≤ k then q else q.early

namespace Trace

variable (r : Trace)

/-- The system after `t` clocks. -/
def sys (t : ℕ) : System := run (System.step r.turbo r.rom r.monitor512) r.start r.input t

/-- The inputs of the machine. -/
def cpuIn (t : ℕ) : Cpu.In := (r.sys t).board.inputs ((r.sys t).boardIn (r.input t))

/-- The machine after `t` clocks. -/
def mach (t : ℕ) : Machine := after r.turbo r.start.board.machine r.cpuIn t

/-- `_cpuAS` is low in clock `t`. -/
def low (t : ℕ) : Bool := asAt r.turbo r.start.board.machine r.cpuIn t

/-- The wires of the card in clock `t`. -/
def bus (t : ℕ) : Bus := (r.sys t).bus (r.input t)

/-- The request of the cycle that runs in clock `a`. -/
def request (a : ℕ) : Key where
  addr := (r.mach a).cpuAddr (r.input a).cpu
  dataIn := (r.mach a).cpu.kernel.dout
  uds := (r.mach a).cpu.kernel.uds
  lds := (r.mach a).cpu.kernel.lds
  rw := (r.mach a).cpu.kernel.rw

/-- The decoding's configuration holds still while AS is low. -/
def Steady : Prop :=
  ∀ t, r.low t = true → r.low (t + 1) = true → (r.input (t + 1)).cpu.config = (r.input t).cpu.config

/-- A clock of the cycle whose AS falls in clock `a`, before AS rises. -/
def Asked (a k : ℕ) : Prop := ∀ i ≤ k, Low r.turbo r.start.board.machine r.cpuIn a i

variable {r} {a k t : ℕ}

theorem sys_machine (t : ℕ) : (r.sys t).board.machine = r.mach t := by
  induction t with
  | zero => rfl
  | succ t ih =>
    unfold mach at *
    rw [after_succ, ← ih]
    rfl

theorem bus_as (t : ℕ) : (r.bus t).as = r.low t :=
  congrArg (fun m : Machine => m.cpu.asR) (sys_machine t)

theorem bus_select (t : ℕ) : (r.bus t).select = ((r.mach t).sel (r.input t).cpu).nubus :=
  congrArg (fun m : Machine => (m.sel (r.input t).cpu).nubus) (sys_machine t)

theorem bus_key (t : ℕ) : (r.bus t).key =
    { addr := (r.mach t).cpuAddr (r.input t).cpu
      dataIn := (r.mach t).cpu.kernel.dout
      uds := (r.mach t).cpu.udsR
      lds := (r.mach t).cpu.ldsR
      rw := (r.mach t).cpu.rwR } := by
  rw [← sys_machine]
  rfl

theorem config_of_asked (hst : r.Steady) (h : r.Asked a k) :
    (r.input (a + k)).cpu.config = (r.input a).cpu.config := by
  induction k with
  | zero => rfl
  | succ k ih =>
    rw [← ih fun i hi => h i (by omega), ← Nat.add_assoc]
    exact hst (a + k) (h k (by omega)).as (h (k + 1) le_rfl).as

/-- The address does not move. -/
theorem addr_of_asked (h0 : Reset r.start.board.machine) (hst : r.Steady) (h : r.Asked a k) :
    (r.mach (a + k)).cpuAddr (r.input (a + k)).cpu = (r.mach a).cpuAddr (r.input a).cpu := by
  have hk := h k le_rfl
  have hka := (lines_run r.turbo h0 r.cpuIn (a + k)).addr hk.started
  have ha := (lines_run r.turbo h0 r.cpuIn a).addr (h 0 k.zero_le).started
  have hkernel := hk.kernel
  unfold mach
  rw [Machine.cpuAddr, Machine.cpuAddr, hka, ha, hkernel, config_of_asked hst h]

/-- What the card sees in clock `k` of a cycle. -/
theorem bus_of_asked (h0 : Reset r.start.board.machine) (hst : r.Steady) (h : r.Asked a k) :
    (r.bus (a + k)).as = true ∧ (r.bus (a + k)).select = (r.bus a).select ∧
      (r.bus (a + k)).key = (r.request a).seen r.turbo k := by
  have hk := h k le_rfl
  have ha := h 0 k.zero_le
  have haddr := addr_of_asked h0 hst h
  have hconfig := config_of_asked hst h
  have hlines := lines_run r.turbo h0 r.cpuIn (a + k)
  have hkernel : (r.mach (a + k)).cpu.kernel = (r.mach a).cpu.kernel := hk.kernel
  refine ⟨by rw [bus_as]; exact hk.as, ?_, ?_⟩
  · have has : (r.mach (a + k)).cpu.asR = true := hk.as
    have has' : (r.mach a).cpu.asR = true := ha.as
    rw [bus_select, bus_select, Machine.sel, Machine.sel, if_pos has, if_pos has', haddr, hconfig]
  · have huds : (r.mach (a + k)).cpu.udsR = ((r.mach (a + k)).cpu.kernel.uds &&
        ((r.mach (a + k)).cpu.kernel.rw || decide (4 ≤ (r.mach (a + k)).cpu.sState))) :=
      hlines.uds hk.as
    have hlds : (r.mach (a + k)).cpu.ldsR = ((r.mach (a + k)).cpu.kernel.lds &&
        ((r.mach (a + k)).cpu.kernel.rw || decide (4 ≤ (r.mach (a + k)).cpu.sState))) :=
      hlines.lds hk.as
    have hrw : (r.mach (a + k)).cpu.rwR = (r.mach (a + k)).cpu.kernel.rw := hlines.rw hk.as
    have hstrobed : decide (4 ≤ (r.mach (a + k)).cpu.sState) = decide (lead r.turbo ≤ k) :=
      decide_eq_decide.mpr hk.strobed
    rw [bus_key, huds, hlds, hrw, hstrobed, hkernel, haddr]
    unfold Key.seen Key.early request
    by_cases hlead : lead r.turbo ≤ k
    · simp [hlead]
    · cases (r.mach a).cpu.kernel.rw <;> simp [hlead]

end Trace

end Nubus
