import LBMacTwo.Rtc.Chip

/-!
# The serial protocol of the clock chip

What the chip is for: a 256-byte memory, a write-protect bit and a running clock behind a bit-serial
port. This is the reference the registers of `rtc.v` are compared with.

* `Store`: what the chip keeps; `Store.write`, `Store.read`: its registers;
* `execute`, `reply`: what the last byte of a session does, and the byte it asks for;
* `Ref.step`: a clock, with a bit shifted at each falling edge seen inside a session.
-/

namespace Rtc

/-- The memory, the clock and the write-protect bit. -/
structure Store where
  mem : ℕ → Byte
  secs : BitVec 32
  writeprotect : Bool

/-- The registers that are cells of the memory, behind the clock and the two control registers. -/
def isCell (r : ℕ) : Bool := decide (r / 4 = 2 ∨ 16 ≤ r)

/-- The cell an extended command names: a page of 32 cells in the first byte, the cell in the second. -/
def cellAt (c a : Byte) : ℕ := (c.extractLsb' 0 3 ++ a.extractLsb' 2 5).toNat

/-- The clock with its byte `k` replaced. -/
def setByte (secs : BitVec 32) (k : ℕ) (d : Byte) : BitVec 32 :=
  BitVec.ofNat 32 ((List.range 4).map fun j =>
    256 ^ j * if j = k % 4 then d.toNat else secs.toNat / 256 ^ j % 256).sum

/-- A standard write changes the register it names; only the write-protect register can be written
while the bit is set. -/
def Store.write (x : Store) (r : ℕ) (d : Byte) : Store :=
  if r = 13 then { x with writeprotect := d.getLsbD 7 }
  else if x.writeprotect then x
  else if isSecsReg r then { x with secs := setByte x.secs r d }
  else if isCell r then { x with mem := Function.update x.mem r d }
  else x

/-! The chip selects the same registers and cells. -/

theorem isCell_eq (r : ℕ) : isCell r = isPramReg r := by
  rw [isCell, isPramReg, ← Bool.decide_and, ← Bool.decide_or, decide_eq_decide]
  omega

theorem cellAt_eq (c a : Byte) : cellAt c a = extAddr c a := by
  have hlow : (c.extractLsb' 0 3).toNat = c.toNat % 8 := by
    rw [BitVec.extractLsb'_toNat, Nat.shiftRight_zero]
  have hcell : (a.extractLsb' 2 5).toNat = a.toNat / 4 % 32 := by
    rw [BitVec.extractLsb'_toNat, Nat.shiftRight_eq_div_pow]
  have hlt : a.toNat / 4 % 32 < 2 ^ 5 := Nat.mod_lt _ (by decide)
  rw [cellAt, BitVec.toNat_append, hlow, hcell, ← Nat.shiftLeft_add_eq_or_of_lt hlt, Nat.shiftLeft_eq]
  rfl

theorem setByte_eq (secs : BitVec 32) (k : ℕ) (d : Byte) : setByte secs k d = setSecsByte secs k d := by
  have hs := secs.isLt
  have hd := d.isLt
  have happ : ∀ {m n : ℕ} (x : BitVec m) (y : BitVec n), (x ++ y).toNat = x.toNat * 2 ^ n + y.toNat := by
    intro m n x y
    rw [BitVec.toNat_append, ← Nat.shiftLeft_add_eq_or_of_lt y.isLt, Nat.shiftLeft_eq]
  have hk : k % 4 = 0 ∨ k % 4 = 1 ∨ k % 4 = 2 ∨ k % 4 = 3 := by omega
  apply BitVec.eq_of_toNat_eq
  rw [setByte, setSecsByte, BitVec.toNat_ofNat]
  rcases hk with h | h | h | h
  all_goals
    simp only [h, List.range_succ, List.range_zero, List.nil_append, List.cons_append, List.map_cons,
      List.map_nil, List.sum_cons, List.sum_nil, happ, BitVec.extractLsb'_toNat,
      Nat.shiftRight_eq_div_pow, reduceIte, Nat.reduceEqDiff, Nat.reducePow]
    omega

section Write
variable (x : Store) (r : ℕ) (d : Byte)

theorem Store.write_mem : (x.write r d).mem =
    if !x.writeprotect && isPramReg r then Function.update x.mem r d else x.mem := by
  simp only [Store.write, isCell_eq]
  by_cases h13 : r = 13
  · rw [if_pos h13, h13, show isPramReg 13 = false from rfl, Bool.and_false]
    rfl
  · rw [if_neg h13]
    cases x.writeprotect <;> cases h8 : isSecsReg r <;> cases h16 : isPramReg r <;> try rfl
    -- no register is in both groups
    simp only [isSecsReg, decide_eq_true_eq] at h8
    simp only [isPramReg, Bool.or_eq_true, Bool.and_eq_true, decide_eq_true_eq] at h16
    omega

theorem Store.write_secs : (x.write r d).secs =
    if !x.writeprotect && isSecsReg r then setSecsByte x.secs r d else x.secs := by
  simp only [Store.write, isCell_eq, setByte_eq]
  by_cases h13 : r = 13
  · rw [if_pos h13, h13, show isSecsReg 13 = false from rfl, Bool.and_false]
    rfl
  · rw [if_neg h13]
    cases x.writeprotect <;> cases isSecsReg r <;> cases isPramReg r <;> rfl

theorem Store.write_writeprotect : (x.write r d).writeprotect =
    if r == 13 then d.getLsbD 7 else x.writeprotect := by
  simp only [Store.write, isCell_eq]
  by_cases h13 : r = 13
  · rw [if_pos h13, h13]
    rfl
  · rw [if_neg h13, beq_eq_false_iff_ne.mpr h13]
    cases hwp : x.writeprotect <;> cases isSecsReg r <;> cases isPramReg r <;> simp [hwp]

end Write

/-- An extended write changes one cell. -/
def Store.writeExt (x : Store) (a : ℕ) (d : Byte) : Store :=
  if x.writeprotect then x else { x with mem := Function.update x.mem a d }

def Store.read (x : Store) (r : ℕ) : Byte :=
  if isSecsReg r then secsByte x.secs r else if isCell r then x.mem r else 0

/-- The effect of the last of the bytes of a session. -/
def execute (x : Store) : List Byte → Store
  | [c, d] => if !isRead c && !isExtended c then x.write (scmd c) d else x
  | [c, a, d] => if !isRead c && isExtended c then x.writeExt (cellAt c a) d else x
  | _ => x

/-- The byte the last of the bytes of a session asks for. -/
def reply (x : Store) : List Byte → Option Byte
  | [c] => if isRead c && !isExtended c then some (x.read (scmd c)) else none
  | [c, a] => if isRead c && isExtended c then some (x.mem (cellAt c a)) else none
  | _ => none

/-- A bit shifted into a byte, most significant bit first. -/
def shiftIn (b : Byte) (d : Bool) : Byte := b.extractLsb' 0 7 ++ BitVec.ofBool d

def byteOf (l : List Bool) : Byte := l.foldl shiftIn 0

/-- The reference: the store, the divider of the clock, and of the session the bytes received, the
bits of the byte under way, the byte being sent, the output line and the level of `ck` in the clock
before, if that belonged to the session. -/
structure Ref where
  store : Store
  clocktoseconds : ℕ
  cko : Bool
  bytes : List Byte
  part : List Bool
  response : Option Byte
  line : Bool
  lastCk : Option Bool

/-- The store after a clock without a bit: the clock runs, and the host may load the memory. -/
def Ref.idle (r : Ref) (i : In) : Store where
  mem := portB r.store.mem i
  secs := if r.clocktoseconds = 16249999 ∧ r.cko = false then r.store.secs + 1
    else if r.store.secs = 0 then i.timestamp.extractLsb' 0 32 + 2082844800 else r.store.secs
  writeprotect := r.store.writeprotect

/-- A falling edge of `ck` inside a session. -/
def Ref.falls (r : Ref) (i : In) : Bool := i.cs && r.lastCk == some true && !i.ck

/-- A clock without a bit. -/
def Ref.wait (r : Ref) (i : In) : Ref where
  store := r.idle i
  clocktoseconds := if r.clocktoseconds = 16249999 then 0 else (r.clocktoseconds + 1) % 2 ^ 25
  cko := if r.clocktoseconds = 16249999 then !r.cko else r.cko
  bytes := r.bytes
  part := r.part
  response := r.response
  line := r.line
  lastCk := some i.ck

/-- The byte received with the bit `d`. -/
def Ref.byte (r : Ref) (d : Bool) : Byte := byteOf (r.part ++ [d])

/-- A clock with a bit: it is taken from the byte being sent, or put to the byte received, whose
eighth bit executes the command. -/
def Ref.shift (r : Ref) (i : In) : Ref :=
  match r.response with
  | some b => { r.wait i with
      line := b.getLsbD (7 - r.part.length)
      part := if r.part.length = 7 then [] else r.part ++ [i.datI] }
  | none =>
    if r.part.length = 7 then { r.wait i with
      store := execute (r.idle i) (r.bytes ++ [r.byte i.datI])
      response := reply { r.idle i with secs := r.store.secs } (r.bytes ++ [r.byte i.datI])
      bytes := r.bytes ++ [r.byte i.datI]
      part := [] }
    else { r.wait i with part := r.part ++ [i.datI] }

theorem Ref.shift_of_some {r : Ref} {b : Byte} (hb : r.response = some b) (i : In) :
    r.shift i = { r.wait i with
      line := b.getLsbD (7 - r.part.length)
      part := if r.part.length = 7 then [] else r.part ++ [i.datI] } := by
  unfold Ref.shift
  rw [hb]

theorem Ref.shift_of_lt {r : Ref} (hr : r.response = none) (hpart : r.part.length ≠ 7) (i : In) :
    r.shift i = { r.wait i with part := r.part ++ [i.datI] } := by
  unfold Ref.shift
  rw [hr]
  exact if_neg hpart

theorem Ref.shift_of_eq {r : Ref} (hr : r.response = none) (hpart : r.part.length = 7) (i : In) :
    r.shift i = { r.wait i with
      store := execute (r.idle i) (r.bytes ++ [r.byte i.datI])
      response := reply { r.idle i with secs := r.store.secs } (r.bytes ++ [r.byte i.datI])
      bytes := r.bytes ++ [r.byte i.datI]
      part := [] } := by
  unfold Ref.shift
  rw [hr]
  exact if_pos hpart

def Ref.step (r : Ref) (i : In) : Ref :=
  if r.falls i then r.shift i
  else if i.cs then r.wait i
  else { r.wait i with bytes := [], part := [], response := none, line := true, lastCk := none }

/-- The reference at rest, with the store of the chip. -/
def Ref.ofState (s : State) : Ref where
  store := ⟨s.portA, s.secs, s.writeprotect⟩
  clocktoseconds := s.clocktoseconds
  cko := s.cko
  bytes := []
  part := []
  response := none
  line := true
  lastCk := none

end Rtc
