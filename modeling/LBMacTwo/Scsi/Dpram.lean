import LBMacTwo.Foundation.Bits

/-!
# `scsi_dpram`

The sector buffer of a `scsi` target: a true dual-port RAM read through `q_a` and `q_b`, and two
mirrors read through the look-ahead ports `q_c` and `q_d`. Every read port is registered.
-/

namespace Scsi

/-- The memories and read registers of `scsi_dpram`. -/
structure Dpram where
  ramAb : ℕ → Byte
  ramC : ℕ → Byte
  ramD : ℕ → Byte
  qA : Byte
  qB : Byte
  qC : Byte
  qD : Byte

def Dpram.init : Dpram := ⟨fun _ => 0, fun _ => 0, fun _ => 0, 0, 0, 0, 0⟩

/-- The port signals of one clock. -/
structure DpramIn where
  addressA : ℕ
  dataA : Byte
  wrenA : Bool
  addressB : ℕ
  dataB : Byte
  wrenB : Bool
  addressC : ℕ
  addressD : ℕ

/-- A synchronous write: the memory after the clock. -/
def store (m : ℕ → Byte) (we : Bool) (a : ℕ) (d : Byte) : ℕ → Byte :=
  if we then Function.update m a d else m

theorem store_of_ne {m : ℕ → Byte} {we : Bool} {a x : ℕ} {d : Byte} (h : we = true → x ≠ a) :
    store m we a d x = m x := by
  unfold store
  split_ifs with hw
  · exact Function.update_of_ne (h hw) d m
  · rfl

@[simp] theorem store_false (m : ℕ → Byte) (a : ℕ) (d : Byte) : store m false a d = m := rfl

@[simp] theorem store_true_self (m : ℕ → Byte) (a : ℕ) (d : Byte) : store m true a d a = d := by
  simp [store]

/-- One clock of `scsi_dpram`. The mirrors have one write port, which port A wins. -/
def Dpram.step (r : Dpram) (p : DpramIn) : Dpram :=
  let mirrorWe := p.wrenA || p.wrenB
  let mirrorWaddr := if p.wrenA then p.addressA else p.addressB
  let mirrorWdata := if p.wrenA then p.dataA else p.dataB
  { ramAb := store (store r.ramAb p.wrenA p.addressA p.dataA) p.wrenB p.addressB p.dataB
    ramC := store r.ramC mirrorWe mirrorWaddr mirrorWdata
    ramD := store r.ramD mirrorWe mirrorWaddr mirrorWdata
    qA := if p.wrenA then p.dataA else r.ramAb p.addressA
    qB := if p.wrenB then p.dataB else r.ramAb p.addressB
    qC := r.ramC p.addressC
    qD := r.ramD p.addressD }

/-- The read registers of the initiator side: `q_b`, and the look-ahead ports `q_c`, `q_d`. -/
def Dpram.qAhead (r : Dpram) : ℕ → Byte
  | 0 => r.qB
  | 1 => r.qC
  | _ => r.qD

/-- All three memories hold `v` at `a`. -/
def Dpram.Has (r : Dpram) (a : ℕ) (v : Byte) : Prop := r.ramAb a = v ∧ r.ramC a = v ∧ r.ramD a = v

theorem Dpram.Has.step {r : Dpram} {p : DpramIn} {a : ℕ} {v : Byte} (h : r.Has a v)
    (hB : p.wrenB = false) (hA : p.wrenA = true → a ≠ p.addressA) : (r.step p).Has a v := by
  obtain ⟨h1, h2, h3⟩ := h
  cases hw : p.wrenA
  · simp [Dpram.Has, Dpram.step, hw, hB, h1, h2, h3]
  · have hne := hA hw
    simp [Dpram.Has, Dpram.step, hw, hB, store, h1, h2, h3, hne]

theorem Dpram.has_step_self {r : Dpram} {p : DpramIn} (hB : p.wrenB = false)
    (hA : p.wrenA = true) : (r.step p).Has p.addressA p.dataA := by
  simp [Dpram.Has, Dpram.step, hA, hB]

end Scsi
