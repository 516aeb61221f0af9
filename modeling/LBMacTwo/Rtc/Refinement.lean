import LBMacTwo.Rtc.Protocol
import LBMacTwo.Foundation.Clocked

/-!
# The serial engine refines the protocol

* `Sim s r`: the registers `s` stand for the reference state `r`; the memory is the RAM with the
  write in flight, the byte being sent is `dout` or a read in flight;
* `Sim.next`: kept by a clock that shifts when the reference does, with no read in flight at a bit,
  and completes no third byte behind a standard write;
* `refines`: along every run from reset whose sessions start without a stale `ck` level and whose
  standard writes are not followed by a third byte, the stores and the output line agree;
* `stale_ck_shifts`, `third_byte_writes`: two runs on which they do not.
-/

namespace Rtc
open Clocked

variable {s : State} {r : Ref} {i : In} {u : ℕ → In} {t : ℕ} {b c d x y : Byte}

/-! ### Bytes -/

theorem byteIn_eq_shiftIn : byteIn s i = shiftIn s.din i.datI := rfl

theorem getLsbD_shiftIn (x : Byte) (d : Bool) {k : ℕ} (hk : k < 8) :
    (shiftIn x d).getLsbD k = if k = 0 then d else x.getLsbD (k - 1) := by
  unfold shiftIn
  rw [BitVec.getLsbD_append]
  by_cases h : k = 0
  · simp [h]
  · have h1 : ¬ k < 1 := by omega
    have h2 : k - 1 < 7 := by omega
    simp [h, h1, h2]

/-- Two bytes agree in the bits shifted in since. -/
theorem foldl_shiftIn_agree (l : List Bool) {k : ℕ} (hk : k < 8) (hl : k < l.length) :
    (l.foldl shiftIn x).getLsbD k = (l.foldl shiftIn y).getLsbD k := by
  induction l using List.reverseRecOn generalizing k with
  | nil => exact absurd hl (Nat.not_lt_zero k)
  | append_singleton l d ih =>
    rw [List.foldl_append, List.foldl_append, List.foldl_cons, List.foldl_cons, List.foldl_nil,
      List.foldl_nil, getLsbD_shiftIn _ _ hk, getLsbD_shiftIn _ _ hk]
    by_cases h : k = 0
    · rw [if_pos h, if_pos h]
    · rw [List.length_append, List.length_singleton] at hl
      rw [if_neg h, if_neg h, ih (by omega) (by omega)]

/-- After eight bits nothing is left of what was there before. -/
theorem foldl_shiftIn_eq_byteOf {l : List Bool} (hl : l.length = 8) (x : Byte) :
    l.foldl shiftIn x = byteOf l := by
  apply BitVec.eq_of_getLsbD_eq
  intro k hk
  exact foldl_shiftIn_agree l hk (by omega)

/-! ### The simulation relation -/

/-- The byte being sent is in `dout`, or a read of it is on its way there. -/
def Sends (s : State) (b : Byte) : Prop :=
  (s.serRpend = 0 ∧ s.dout = b) ∨ (s.serRpend = 1 ∧ s.serQ = b) ∨
    (s.serRpend = 2 ∧ s.serWe = false ∧ s.pram s.serRaddr = b)

/-- What the command registers hold while bytes are received. -/
structure Receives (s : State) (bytes : List Byte) (part : List Bool) : Prop where
  din : ∃ x, s.din = part.foldl shiftIn x
  cmdBytes : s.cmdBytes = min bytes.length 3
  cmd0 : ∀ c l, bytes = c :: l → s.cmd0 = c ∧ (isRead c = true → isExtended c = true)
  cmd1 : ∀ c a l, bytes = c :: a :: l → s.cmd1 = a ∧ isRead c = false
  cmdLen : ∀ c, bytes = [c] → s.cmdLen = if isRead c then 2 else if isExtended c then 3 else 2

structure Sim (s : State) (r : Ref) : Prop where
  mem : s.portA = r.store.mem
  secs : s.secs = r.store.secs
  writeprotect : s.writeprotect = r.store.writeprotect
  clocktoseconds : s.clocktoseconds = r.clocktoseconds
  cko : s.cko = r.cko
  line : s.datO = r.line
  lastCk : ∀ c, r.lastCk = some c → s.ckD = c
  bitCnt : s.bitCnt = r.part.length
  part : r.part.length < 8
  receiving : s.receiving = r.response.isNone
  receives : r.response = none → Receives s r.bytes r.part
  sends : ∀ b, r.response = some b → Sends s b

/-- The parts of the next state that do not depend on the serial port. -/
theorem Sim.idle (h : Sim s r) (i : In) :
    portB s.portA i = (r.idle i).mem ∧ secsTick s i = (r.idle i).secs := by
  constructor
  · rw [h.mem]
    rfl
  · unfold secsTick Ref.idle State.halfSecond
    rw [h.secs, h.clocktoseconds, h.cko]
    simp only [Bool.and_eq_true, beq_iff_eq, Bool.not_eq_true']

theorem portA_step : (step s i).portA =
    if issueWrite s i then Function.update (portB s.portA i) (serWaddrNext s i) (byteIn s i)
    else portB s.portA i := by
  change (if issueWrite s i then Function.update (portB s.portA i) (serWaddrNext s i)
    (if issueWrite s i then byteIn s i else s.serWdata) else portB s.portA i) = _
  split <;> rfl

/-- A byte on its way arrives. -/
theorem Sends.next (h : Sends s b) (hread : stdRead s i = false) (hext : extRead s i = false)
    (hreset : i.reset = false) : Sends (step s i) b := by
  have hissue : issueRead s i = false := by rw [issueRead, hread, hext]; rfl
  have hpend : (step s i).serRpend = s.serRpend - 1 := by
    change serRpendNext s i = _
    rw [serRpendNext, hreset, hissue]
    rfl
  have hdout : (step s i).dout = if s.serRpend == 1 then s.serQ else s.dout := by
    change doutNext s i = _
    rw [doutNext, hread]
    rfl
  obtain ⟨hp, hb⟩ | ⟨hp, hb⟩ | ⟨hp, hwe, hb⟩ := h
  · left
    rw [hpend, hdout, hp]
    exact ⟨rfl, hb⟩
  · left
    rw [hpend, hdout, hp]
    exact ⟨rfl, hb⟩
  · right
    left
    refine ⟨by rw [hpend, hp], ?_⟩
    change s.pram s.aAddr = b
    rw [State.aAddr, hwe]
    exact hb

/-! ### Clocks without a complete byte -/

structure NoByte (s : State) (i : In) : Prop where
  done : byteDone s i = false
  stdRead : stdRead s i = false
  extRead : extRead s i = false
  stdWrite : stdWrite s i = false
  thirdByte : thirdByte s i = false
  issueWrite : issueWrite s i = false

theorem noByte_of_done (h : byteDone s i = false) : NoByte s i where
  done := h
  stdRead := by simp [stdRead, h]
  extRead := by simp [extRead, h]
  stdWrite := by simp [stdWrite, h]
  thirdByte := by simp [thirdByte, h]
  issueWrite := by simp [issueWrite, stdWrite, thirdByte, h]

theorem noByte_of_shiftEdge (h : shiftEdge s i = false) : NoByte s i :=
  noByte_of_done (by rw [byteDone, h]; rfl)

/-- What a clock without a complete byte does to the store and the divider. -/
theorem Sim.store (h : Sim s r) (hn : NoByte s i) (hreset : i.reset = false) :
    (step s i).portA = (r.wait i).store.mem ∧ (step s i).secs = (r.wait i).store.secs ∧
      (step s i).writeprotect = (r.wait i).store.writeprotect ∧
      (step s i).clocktoseconds = (r.wait i).clocktoseconds ∧ (step s i).cko = (r.wait i).cko := by
  obtain ⟨hmem, hsecs⟩ := h.idle i
  refine ⟨?_, ?_, ?_, ?_, ?_⟩
  · rw [portA_step, hn.issueWrite, if_neg Bool.false_ne_true]
    exact hmem
  · change secsNext s i = (r.idle i).secs
    rw [secsNext, hreset, hn.stdWrite]
    exact hsecs
  · change writeprotectNext s i = r.store.writeprotect
    rw [writeprotectNext, hreset, hn.stdWrite]
    exact h.writeprotect
  · change (if i.reset then s.clocktoseconds else if s.halfSecond then 0
      else (s.clocktoseconds + 1) % 2 ^ 25) = _
    rw [hreset, State.halfSecond, h.clocktoseconds]
    simp [Ref.wait]
  · change (if i.reset then true else if s.halfSecond then !s.cko else s.cko) = _
    rw [hreset, State.halfSecond, h.clocktoseconds, h.cko]
    simp [Ref.wait]

/-- The command registers do not move without a complete byte. -/
theorem Receives.congr {bytes : List Byte} {part part' : List Bool} (h : Receives s bytes part)
    (hn : NoByte s i) (hreset : i.reset = false) (hcs : i.cs = true)
    (hdin : ∃ x, (step s i).din = part'.foldl shiftIn x) : Receives (step s i) bytes part' where
  din := hdin
  cmdBytes := by
    change cmdBytesNext s i = _
    rw [cmdBytesNext, hreset, hcs, hn.done]
    exact h.cmdBytes
  cmd0 := by
    intro c l hc
    change (if byteDone s i && s.cmdBytes == 0 then byteIn s i else s.cmd0) = c ∧ _
    rw [hn.done]
    exact h.cmd0 c l hc
  cmd1 := by
    intro c a l hc
    change (if byteDone s i && s.cmdBytes == 1 then byteIn s i else s.cmd1) = a ∧ _
    rw [hn.done]
    exact h.cmd1 c a l hc
  cmdLen := by
    intro c hc
    change cmdLenNext s i = _
    rw [cmdLenNext, hreset, hcs, hn.done]
    exact h.cmdLen c hc

/-- A clock outside a session. -/
theorem Sim.off (h : Sim s r) (hreset : i.reset = false) (hcs : i.cs = false) :
    Sim (step s i) (r.step i) := by
  have hedge : shiftEdge s i = false := by rw [shiftEdge, hcs, Bool.and_false]; rfl
  have hfalls : r.falls i = false := by rw [Ref.falls, hcs]; rfl
  obtain ⟨hmem, hsecs, hwp, hclk, hcko⟩ := h.store (noByte_of_shiftEdge hedge) hreset
  rw [Ref.step, hfalls, hcs, if_neg Bool.false_ne_true, if_neg Bool.false_ne_true]
  have hoff : (i.reset || !i.cs) = true := by rw [hcs, Bool.not_false, Bool.or_true]
  refine ⟨hmem, hsecs, hwp, hclk, hcko, ?_, ?_, ?_, by simp, ?_, ?_, ?_⟩
  · change datONext s i = true
    rw [datONext, hoff, if_pos rfl]
  · intro c hc
    cases hc
  · change (if i.reset || !i.cs then 0 else _) = 0
    rw [hoff, if_pos rfl]
  · change (if i.reset || !i.cs then true else _) = true
    rw [hoff, if_pos rfl]
  · intro _
    refine ⟨⟨(step s i).din, rfl⟩, ?_, ?_, ?_, ?_⟩
    · change cmdBytesNext s i = 0
      rw [cmdBytesNext, hoff, if_pos rfl]
    · intro c l hc
      cases hc
    · intro c a l hc
      cases hc
    · intro c hc
      cases hc
  · intro b hb
    cases hb

/-- A clock of a session without an edge. -/
theorem Sim.wait (h : Sim s r) (hreset : i.reset = false) (hcs : i.cs = true)
    (hedge : shiftEdge s i = false) (hfalls : r.falls i = false) :
    Sim (step s i) (r.step i) := by
  have hn := noByte_of_shiftEdge hedge
  obtain ⟨hmem, hsecs, hwp, hclk, hcko⟩ := h.store hn hreset
  rw [Ref.step, hfalls, hcs, if_neg Bool.false_ne_true, if_pos rfl]
  have hon : (i.reset || !i.cs) = false := by rw [hcs, hreset]; rfl
  refine ⟨hmem, hsecs, hwp, hclk, hcko, ?_, ?_, ?_, h.part, ?_, ?_, ?_⟩
  · change datONext s i = r.line
    rw [datONext, hon, hedge]
    exact h.line
  · intro c hc
    cases hc
    change (if i.reset then false else if i.cs then i.ck else s.ckD) = i.ck
    rw [hreset, hcs]
    rfl
  · change (if i.reset || !i.cs then 0 else if shiftEdge s i then (s.bitCnt + 1) % 8
      else s.bitCnt) = r.part.length
    rw [hon, hedge]
    exact h.bitCnt
  · change (if i.reset || !i.cs then true else s.receiving && !stdRead s i && !extRead s i) =
      r.response.isNone
    rw [hon, hn.stdRead, hn.extRead, if_neg Bool.false_ne_true, Bool.not_false, Bool.and_true,
      Bool.and_true]
    exact h.receiving
  · intro hr
    have hrec := h.receives hr
    refine hrec.congr hn hreset hcs ?_
    change ∃ x, (if shiftEdge s i && s.receiving then byteIn s i else s.din) = _
    rw [hedge]
    exact hrec.din
  · intro b hb
    exact (h.sends b hb).next hn.stdRead hn.extRead hreset

/-! ### Bits -/

theorem on_of (hreset : i.reset = false) (hcs : i.cs = true) : (i.reset || !i.cs) = false := by
  rw [hcs, hreset]
  rfl

theorem ckD_step (hreset : i.reset = false) (hcs : i.cs = true) : (step s i).ckD = i.ck := by
  change (if i.reset then false else if i.cs then i.ck else s.ckD) = i.ck
  rw [hreset, hcs]
  rfl

theorem bitCnt_step (hreset : i.reset = false) (hcs : i.cs = true) (hedge : shiftEdge s i = true) :
    (step s i).bitCnt = (s.bitCnt + 1) % 8 := by
  change (if i.reset || !i.cs then 0 else if shiftEdge s i then (s.bitCnt + 1) % 8
    else s.bitCnt) = _
  rw [on_of hreset hcs, hedge]
  rfl

theorem receiving_step (hreset : i.reset = false) (hcs : i.cs = true) :
    (step s i).receiving = (s.receiving && !stdRead s i && !extRead s i) := by
  change (if i.reset || !i.cs then true else s.receiving && !stdRead s i && !extRead s i) = _
  rw [on_of hreset hcs]
  rfl

/-- A bit of the byte being sent. -/
theorem Sim.send (h : Sim s r) (hreset : i.reset = false) (hcs : i.cs = true)
    (hedge : shiftEdge s i = true) (hpend : s.serRpend = 0) (hb : r.response = some b) :
    Sim (step s i) (r.shift i) := by
  have hrec : s.receiving = false := by rw [h.receiving, hb]; rfl
  have hn : NoByte s i := noByte_of_done (by rw [byteDone, hrec, Bool.and_false])
  obtain ⟨hmem, hsecs, hwp, hclk, hcko⟩ := h.store hn hreset
  have hdout : s.dout = b := by
    obtain ⟨-, hd⟩ | ⟨hp, -⟩ | ⟨hp, -⟩ := h.sends b hb
    · exact hd
    · omega
    · omega
  have hpart := h.part
  rw [Ref.shift_of_some hb]
  refine ⟨hmem, hsecs, hwp, hclk, hcko, ?_, ?_, ?_, ?_, ?_, ?_, ?_⟩
  · change datONext s i = b.getLsbD (7 - r.part.length)
    rw [datONext, on_of hreset hcs, hedge, hrec, hdout, h.bitCnt]
    rfl
  · intro c hc
    cases hc
    exact ckD_step hreset hcs
  · change (step s i).bitCnt = List.length (if r.part.length = 7 then [] else r.part ++ [i.datI])
    rw [bitCnt_step hreset hcs hedge, h.bitCnt]
    split
    · simp [*]
    · rw [List.length_append, List.length_singleton, Nat.mod_eq_of_lt (by omega)]
  · change List.length (if r.part.length = 7 then [] else r.part ++ [i.datI]) < 8
    split
    · simp
    · rw [List.length_append, List.length_singleton]
      omega
  · change (step s i).receiving = r.response.isNone
    rw [receiving_step hreset hcs, hrec, hb]
    rfl
  · intro hr
    change r.response = none at hr
    rw [hb] at hr
    cases hr
  · intro b' hb'
    exact (h.sends b' hb').next hn.stdRead hn.extRead hreset

/-- A bit inside a byte from the host. -/
theorem Sim.bit (h : Sim s r) (hreset : i.reset = false) (hcs : i.cs = true)
    (hedge : shiftEdge s i = true) (hr : r.response = none) (hpart : r.part.length ≠ 7) :
    Sim (step s i) (r.shift i) := by
  have hn : NoByte s i := by
    refine noByte_of_done ?_
    have hne : (s.bitCnt == 7) = false := beq_eq_false_iff_ne.mpr (h.bitCnt ▸ hpart)
    rw [byteDone, hne, Bool.and_false]
    rfl
  have hrec : s.receiving = true := by rw [h.receiving, hr]; rfl
  obtain ⟨hmem, hsecs, hwp, hclk, hcko⟩ := h.store hn hreset
  have hlt := h.part
  rw [Ref.shift_of_lt hr hpart]
  refine ⟨hmem, hsecs, hwp, hclk, hcko, ?_, ?_, ?_, ?_, ?_, ?_, ?_⟩
  · change datONext s i = r.line
    rw [datONext, on_of hreset hcs, hrec, Bool.not_true, Bool.and_false]
    exact h.line
  · intro c hc
    cases hc
    exact ckD_step hreset hcs
  · rw [bitCnt_step hreset hcs hedge, h.bitCnt, List.length_append, List.length_singleton,
      Nat.mod_eq_of_lt (by omega)]
  · rw [List.length_append, List.length_singleton]
    omega
  · change (step s i).receiving = r.response.isNone
    rw [receiving_step hreset hcs, hrec, hn.stdRead, hn.extRead, hr]
    rfl
  · intro _
    have hrecv := h.receives hr
    refine hrecv.congr hn hreset hcs ?_
    obtain ⟨x, hx⟩ := hrecv.din
    refine ⟨x, ?_⟩
    change (if shiftEdge s i && s.receiving then byteIn s i else s.din) = _
    rw [hedge, hrec, List.foldl_append, ← hx]
    rfl
  · intro b' hb'
    change r.response = some b' at hb'
    rw [hr] at hb'
    cases hb'

/-! ### Complete bytes -/

/-- A clock that completes a byte from the host, given what it does to the store, to the response
and to the command registers. -/
theorem Sim.of_byte (h : Sim s r) (hreset : i.reset = false) (hcs : i.cs = true)
    (hedge : shiftEdge s i = true) (hr : r.response = none) (hpart : r.part.length = 7)
    {x : Store} {resp : Option Byte} {bytes : List Byte} (hmem : (step s i).portA = x.mem)
    (hsecs : (step s i).secs = x.secs) (hwp : (step s i).writeprotect = x.writeprotect)
    (hresp : (!stdRead s i && !extRead s i) = resp.isNone)
    (hreceives : resp = none → Receives (step s i) bytes [])
    (hsends : ∀ b, resp = some b → Sends (step s i) b) :
    Sim (step s i) { r.wait i with store := x, response := resp, bytes := bytes, part := [] } := by
  have hrec : s.receiving = true := by rw [h.receiving, hr]; rfl
  refine ⟨hmem, hsecs, hwp, ?_, ?_, ?_, ?_, ?_, by simp, ?_, hreceives, hsends⟩
  · change (if i.reset then s.clocktoseconds else if s.halfSecond then 0
      else (s.clocktoseconds + 1) % 2 ^ 25) = _
    rw [hreset, State.halfSecond, h.clocktoseconds]
    simp [Ref.wait]
  · change (if i.reset then true else if s.halfSecond then !s.cko else s.cko) = _
    rw [hreset, State.halfSecond, h.clocktoseconds, h.cko]
    simp [Ref.wait]
  · change datONext s i = r.line
    rw [datONext, on_of hreset hcs, hrec, Bool.not_true, Bool.and_false]
    exact h.line
  · intro c hc
    cases hc
    exact ckD_step hreset hcs
  · rw [bitCnt_step hreset hcs hedge, h.bitCnt, hpart]
    rfl
  · rw [receiving_step hreset hcs, hrec, Bool.true_and]
    exact hresp

/-- The byte that the eighth bit completes. -/
theorem Sim.byteIn_eq (h : Sim s r) (hr : r.response = none) (hpart : r.part.length = 7) :
    byteIn s i = r.byte i.datI := by
  obtain ⟨x, hx⟩ := (h.receives hr).din
  rw [byteIn_eq_shiftIn, hx, Ref.byte, ← foldl_shiftIn_eq_byteOf (by simp [hpart]) x, List.foldl_append]
  rfl

theorem Sim.done (h : Sim s r) (hedge : shiftEdge s i = true) (hr : r.response = none)
    (hpart : r.part.length = 7) : byteDone s i = true := by
  have hrec : s.receiving = true := by rw [h.receiving, hr]; rfl
  rw [byteDone, hedge, h.bitCnt, hpart, hrec]
  rfl

/-- Without a write the store only ticks. -/
theorem Sim.store_of_read (h : Sim s r) (hreset : i.reset = false) (hw : stdWrite s i = false)
    (hissue : issueWrite s i = false) :
    (step s i).portA = (r.idle i).mem ∧ (step s i).secs = (r.idle i).secs ∧
      (step s i).writeprotect = (r.idle i).writeprotect := by
  obtain ⟨hmem, hsecs⟩ := h.idle i
  refine ⟨?_, ?_, ?_⟩
  · rw [portA_step, hissue, if_neg Bool.false_ne_true]
    exact hmem
  · change secsNext s i = _
    rw [secsNext, hreset, hw]
    exact hsecs
  · change writeprotectNext s i = _
    rw [writeprotectNext, hreset, hw]
    exact h.writeprotect

/-- The first byte: a standard read fetches its answer, any other command is kept. -/
theorem Sim.first (h : Sim s r) (hreset : i.reset = false) (hcs : i.cs = true)
    (hedge : shiftEdge s i = true) (hpend : s.serRpend = 0) (hr : r.response = none)
    (hpart : r.part.length = 7) (hbytes : r.bytes = []) : Sim (step s i) (r.shift i) := by
  have hdone := h.done hedge hr hpart
  have hbyte := h.byteIn_eq (i := i) hr hpart
  have hcnt : s.cmdBytes = 0 := by rw [(h.receives hr).cmdBytes, hbytes]; rfl
  have hread : stdRead s i = (isRead (byteIn s i) && !isExtended (byteIn s i)) := by
    rw [stdRead, hdone, hcnt]
    rfl
  have hext : extRead s i = false := by rw [extRead, hcnt, hdone]; rfl
  have hwrite : stdWrite s i = false := by rw [stdWrite, hcnt, hdone]; rfl
  have hthird : thirdByte s i = false := by rw [thirdByte, hcnt, hdone]; rfl
  have hissue : issueWrite s i = false := by rw [issueWrite, hwrite, hthird]; simp
  obtain ⟨hmem, hsecs, hwp⟩ := h.store_of_read hreset hwrite hissue
  rw [Ref.shift_of_eq hr hpart, hbytes, ← hbyte, List.nil_append]
  refine h.of_byte hreset hcs hedge hr hpart hmem hsecs hwp ?_ ?_ ?_
  · rw [hext, hread, reply]
    cases (isRead (byteIn s i) && !isExtended (byteIn s i)) <;> rfl
  · intro hnone
    have hnot : isRead (byteIn s i) = true → isExtended (byteIn s i) = true := by
      intro hd
      by_contra he
      rw [reply, hd, Bool.eq_false_iff.mpr he] at hnone
      cases hnone
    refine ⟨⟨_, rfl⟩, ?_, ?_, ?_, ?_⟩
    · change cmdBytesNext s i = 1
      rw [cmdBytesNext, on_of hreset hcs, hdone, hcnt]
      rfl
    · intro c l hc
      cases hc
      refine ⟨?_, hnot⟩
      change (if byteDone s i && s.cmdBytes == 0 then byteIn s i else s.cmd0) = byteIn s i
      rw [hdone, hcnt]
      rfl
    · intro c a l hc
      cases hc
    · intro c hc
      cases hc
      change cmdLenNext s i = _
      rw [cmdLenNext, on_of hreset hcs, hdone, hcnt]
      cases hd : isRead (byteIn s i) with
      | true => simp [hnot hd]
      | false => cases isExtended (byteIn s i) <;> rfl
  · intro b hb
    have hstd : stdRead s i = true := by
      rw [hread]
      rw [reply] at hb
      by_contra hne
      rw [if_neg hne] at hb
      cases hb
    rw [reply, ← hread, if_pos hstd, Option.some_inj] at hb
    have hrd : (step s i).dout = doutNext s i := rfl
    have hrp : (step s i).serRpend = serRpendNext s i := rfl
    rw [Sends, hrd, hrp, doutNext, serRpendNext, hreset, issueRead, hstd, hext, hpend,
      Bool.true_and, Bool.true_and, Bool.true_and]
    by_cases h1 : isSecsReg (scmd (byteIn s i)) = true
    · left
      have h2 : isPramReg (scmd (byteIn s i)) = false := by
        simp only [isSecsReg, decide_eq_true_eq] at h1
        simp only [isPramReg, Bool.or_eq_false_iff, Bool.and_eq_false_iff, decide_eq_false_iff_not]
        omega
      rw [Store.read, if_pos h1] at hb
      rw [h2, if_pos h1, h.secs]
      exact ⟨rfl, hb⟩
    · by_cases h2 : isPramReg (scmd (byteIn s i)) = true
      · right
        right
        rw [Store.read, if_neg h1, isCell_eq, if_pos h2] at hb
        have hraddr : (step s i).serRaddr = scmd (byteIn s i) := by
          change serRaddrNext s i = _
          rw [serRaddrNext, hstd, h2]
          rfl
        refine ⟨by rw [h2]; rfl, hissue, ?_⟩
        rw [hraddr, ← hb]
        exact congrFun (h.idle i).1 _
      · left
        rw [Store.read, if_neg h1, isCell_eq, if_neg h2] at hb
        rw [if_neg h1, Bool.eq_false_iff.mpr h2]
        exact ⟨rfl, hb⟩

/-- The command registers after the second or a later byte. -/
theorem Receives.later {bytes : List Byte} {part : List Bool} {a : Byte}
    (h : Receives s (c :: bytes) part) (hreset : i.reset = false) (hcs : i.cs = true)
    (hdone : byteDone s i = true) (hread : isRead c = false)
    (ha : ∀ b l, bytes ++ [a] = b :: l → (step s i).cmd1 = b) :
    Receives (step s i) (c :: (bytes ++ [a])) [] where
  din := ⟨_, rfl⟩
  cmdBytes := by
    change cmdBytesNext s i = _
    rw [cmdBytesNext, on_of hreset hcs, hdone, h.cmdBytes, if_neg Bool.false_ne_true, Bool.true_and]
    simp only [List.length_cons, List.length_append, List.length_nil, decide_eq_true_eq]
    split <;> omega
  cmd0 := by
    intro c' l hc
    cases hc
    have hcnt : (s.cmdBytes == 0) = false := by
      rw [h.cmdBytes, beq_eq_false_iff_ne, List.length_cons]
      omega
    change (if byteDone s i && s.cmdBytes == 0 then byteIn s i else s.cmd0) = c ∧ _
    rw [hcnt, Bool.and_false]
    exact h.cmd0 c bytes rfl
  cmd1 := by
    intro c' b l hc
    rw [List.cons.injEq] at hc
    exact ⟨ha b l hc.2, hc.1 ▸ hread⟩
  cmdLen := by
    intro c' hc
    simp at hc

/-- The second byte: a standard write or an extended read is done with it. -/
theorem Sim.second (h : Sim s r) (hreset : i.reset = false) (hcs : i.cs = true)
    (hedge : shiftEdge s i = true) (hr : r.response = none) (hpart : r.part.length = 7)
    (hbytes : r.bytes = [c]) : Sim (step s i) (r.shift i) := by
  have hrecv := h.receives hr
  rw [hbytes] at hrecv
  have hdone := h.done hedge hr hpart
  have hbyte := h.byteIn_eq (i := i) hr hpart
  have hcnt : s.cmdBytes = 1 := hrecv.cmdBytes
  obtain ⟨hcmd0, hnot⟩ := hrecv.cmd0 c [] rfl
  have hlen := hrecv.cmdLen c rfl
  have hstd : stdRead s i = false := by rw [stdRead, hcnt, hdone]; rfl
  have hthird : thirdByte s i = false := by rw [thirdByte, hcnt, hdone]; rfl
  have hext : extRead s i = isRead c := by
    rw [extRead, hdone, hcnt, hcmd0, hlen]
    cases hd : isRead c with
    | true => simp [hnot hd]
    | false => cases isExtended c <;> rfl
  have hwrite : stdWrite s i = (!isRead c && !isExtended c) := by
    rw [stdWrite, hdone, hcnt, hcmd0, hlen]
    cases hd : isRead c with
    | true => simp [hnot hd]
    | false => cases isExtended c <;> rfl
  have hissue : issueWrite s i = (!s.writeprotect && (stdWrite s i && isPramReg (scmd c))) := by
    rw [issueWrite, hthird, hcmd0, Bool.or_false]
  have hcmd1 : (step s i).cmd1 = byteIn s i := by
    change (if byteDone s i && s.cmdBytes == 1 then byteIn s i else s.cmd1) = byteIn s i
    rw [hdone, hcnt]
    rfl
  have hlater : isRead c = false → Receives (step s i) (c :: ([] ++ [byteIn s i])) [] := by
    intro hd
    refine hrecv.later hreset hcs hdone hd ?_
    intro b l hb
    cases hb
    exact hcmd1
  rw [Ref.shift_of_eq hr hpart, hbytes, ← hbyte]
  by_cases hw : (!isRead c && !isExtended c) = true
  · -- a standard write: the response stays empty
    have hd : isRead c = false := by
      simp only [Bool.and_eq_true, Bool.not_eq_true'] at hw
      exact hw.1
    have hexec : execute (r.idle i) ([c] ++ [byteIn s i]) =
        (r.idle i).write (scmd c) (byteIn s i) := if_pos hw
    have hrep : reply { r.idle i with secs := r.store.secs } ([c] ++ [byteIn s i]) = none := by
      rw [List.cons_append, List.nil_append, reply, hd]
      rfl
    obtain ⟨hmem, hsecs⟩ := h.idle i
    have hwp : (r.idle i).writeprotect = s.writeprotect := h.writeprotect.symm
    rw [hexec, hrep]
    rw [hw] at hwrite
    rw [hwrite, Bool.true_and] at hissue
    have hpa := portA_step (s := s) (i := i)
    have hse : (step s i).secs = secsNext s i := rfl
    have hwn : (step s i).writeprotect = writeprotectNext s i := rfl
    rw [hissue, hmem, serWaddrNext, hissue, hwrite, hcmd0] at hpa
    rw [secsNext, hreset, hwrite, hcmd0, hsecs, if_neg Bool.false_ne_true, Bool.true_and] at hse
    rw [writeprotectNext, hreset, hwrite, hcmd0, if_neg Bool.false_ne_true, Bool.true_and] at hwn
    refine h.of_byte hreset hcs hedge hr hpart ?_ ?_ ?_ ?_ (fun _ => hlater hd) ?_
    · rw [hpa, Store.write_mem, hwp]
      by_cases hp : (!s.writeprotect && isPramReg (scmd c)) = true
      · rw [if_pos hp, if_pos hp, if_pos hp, if_pos rfl]
      · rw [if_neg hp, if_neg hp]
    · rw [hse, Store.write_secs, hwp]
    · rw [hwn, Store.write_writeprotect, hwp]
    · rw [hstd, hext, hd]
      rfl
    · intro b hb
      cases hb
  · rw [Bool.eq_false_iff.mpr hw] at hwrite
    rw [hwrite, Bool.false_and, Bool.and_false] at hissue
    have hexec : execute (r.idle i) ([c] ++ [byteIn s i]) = r.idle i := if_neg hw
    obtain ⟨hmem, hsecs, hwp⟩ := h.store_of_read hreset hwrite hissue
    rw [hexec]
    refine h.of_byte hreset hcs hedge hr hpart hmem hsecs hwp ?_ ?_ ?_
    · rw [hstd, hext, List.cons_append, List.nil_append, reply]
      cases hd : isRead c with
      | true => simp [hnot hd]
      | false => rfl
    · intro hnone
      refine hlater ?_
      by_contra hd
      rw [Bool.not_eq_false] at hd
      rw [List.cons_append, List.nil_append, reply, hd, hnot hd] at hnone
      cases hnone
    · intro b hb
      have hd : isRead c = true := by
        by_contra hd
        rw [List.cons_append, List.nil_append, reply, Bool.eq_false_iff.mpr hd] at hb
        cases hb
      rw [List.cons_append, List.nil_append, reply, hd, hnot hd] at hb
      have hb' : (r.idle i).mem (extAddr c (byteIn s i)) = b := cellAt_eq _ _ ▸ Option.some.inj hb
      have hrp : (step s i).serRpend = serRpendNext s i := rfl
      have hraddr : (step s i).serRaddr = serRaddrNext s i := rfl
      rw [serRpendNext, hreset, issueRead, hext, hd, Bool.or_true] at hrp
      rw [serRaddrNext, hstd, hext, hd, hcmd0] at hraddr
      right
      right
      refine ⟨hrp, hissue, ?_⟩
      rw [hraddr, ← hb']
      exact congrFun (h.idle i).1 _

/-- The third byte of an extended write, or one that falls on a set write-protect bit. -/
theorem Sim.third {a : Byte} (h : Sim s r) (hreset : i.reset = false) (hcs : i.cs = true)
    (hedge : shiftEdge s i = true) (hr : r.response = none) (hpart : r.part.length = 7)
    (hbytes : r.bytes = [c, a]) (hok : isExtended c = true ∨ r.store.writeprotect = true) :
    Sim (step s i) (r.shift i) := by
  have hrecv := h.receives hr
  rw [hbytes] at hrecv
  have hdone := h.done hedge hr hpart
  have hbyte := h.byteIn_eq (i := i) hr hpart
  have hcnt : s.cmdBytes = 2 := hrecv.cmdBytes
  have hcmd0 := (hrecv.cmd0 c [a] rfl).1
  obtain ⟨hcmd1, hread⟩ := hrecv.cmd1 c a [] rfl
  have hstd : stdRead s i = false := by rw [stdRead, hcnt, hdone]; rfl
  have hext : extRead s i = false := by rw [extRead, hcnt, hdone]; rfl
  have hwrite : stdWrite s i = false := by rw [stdWrite, hcnt, hdone]; rfl
  have hissue : issueWrite s i = !r.store.writeprotect := by
    rw [issueWrite, hwrite, thirdByte, hdone, hcnt, h.writeprotect]
    simp
  have hcmd1' : (step s i).cmd1 = a := by
    change (if byteDone s i && s.cmdBytes == 1 then byteIn s i else s.cmd1) = a
    rw [hcnt, hdone]
    exact hcmd1
  obtain ⟨hmem, hsecs⟩ := h.idle i
  have hse : (step s i).secs = (r.idle i).secs := by
    change secsNext s i = _
    rw [secsNext, hreset, hwrite]
    exact hsecs
  have hwp : (step s i).writeprotect = r.store.writeprotect := by
    change writeprotectNext s i = _
    rw [writeprotectNext, hreset, hwrite]
    exact h.writeprotect
  rw [Ref.shift_of_eq hr hpart, hbytes, ← hbyte]
  have hrep : reply { r.idle i with secs := r.store.secs } ([c, a] ++ [byteIn s i]) = none := rfl
  have hidle : (r.idle i).writeprotect = r.store.writeprotect := rfl
  have hpa := portA_step (s := s) (i := i)
  rw [hissue, hmem, serWaddrNext, hissue, hwrite, hcmd0, hcmd1] at hpa
  have hexec : execute (r.idle i) ([c, a] ++ [byteIn s i]) =
      if isExtended c then (r.idle i).writeExt (extAddr c a) (byteIn s i) else r.idle i := by
    rw [List.cons_append, List.cons_append, List.nil_append, execute, hread, cellAt_eq]
    rfl
  rw [hrep, hexec]
  refine h.of_byte hreset hcs hedge hr hpart ?_ ?_ ?_ ?_ (fun _ => ?_) ?_
  · rw [hpa, Store.writeExt, hidle]
    cases hwp : r.store.writeprotect with
    | true => cases isExtended c <;> rfl
    | false =>
      have he : isExtended c = true := by simpa [hwp] using hok
      rw [he]
      rfl
  · rw [hse, Store.writeExt, hidle]
    cases isExtended c <;> cases r.store.writeprotect <;> rfl
  · rw [hwp, Store.writeExt, hidle]
    cases isExtended c <;> cases hp : r.store.writeprotect <;> simp [hp, hidle]
  · rw [hstd, hext]
    rfl
  · refine hrecv.later hreset hcs hdone hread ?_
    intro b l hb
    cases hb
    exact hcmd1'
  · intro b hb
    cases hb

/-- Further bytes do nothing. -/
theorem Sim.further {a e : Byte} {l : List Byte} (h : Sim s r) (hreset : i.reset = false)
    (hcs : i.cs = true) (hedge : shiftEdge s i = true) (hr : r.response = none)
    (hpart : r.part.length = 7) (hbytes : r.bytes = c :: a :: e :: l) :
    Sim (step s i) (r.shift i) := by
  have hrecv := h.receives hr
  rw [hbytes] at hrecv
  have hdone := h.done hedge hr hpart
  have hcnt : s.cmdBytes = 3 := by
    rw [hrecv.cmdBytes]
    simp only [List.length_cons]
    omega
  obtain ⟨hcmd1, hread⟩ := hrecv.cmd1 c a (e :: l) rfl
  have hstd : stdRead s i = false := by rw [stdRead, hcnt, hdone]; rfl
  have hext : extRead s i = false := by rw [extRead, hcnt, hdone]; rfl
  have hwrite : stdWrite s i = false := by rw [stdWrite, hcnt, hdone]; rfl
  have hthird : thirdByte s i = false := by rw [thirdByte, hcnt, hdone]; rfl
  have hissue : issueWrite s i = false := by rw [issueWrite, hwrite, hthird]; simp
  have hcmd1' : (step s i).cmd1 = a := by
    change (if byteDone s i && s.cmdBytes == 1 then byteIn s i else s.cmd1) = a
    rw [hcnt, hdone]
    exact hcmd1
  obtain ⟨hmem, hsecs, hwp⟩ := h.store_of_read hreset hwrite hissue
  rw [Ref.shift_of_eq hr hpart, hbytes]
  have hexec : ∀ x d, execute x (c :: a :: e :: l ++ [d]) = x := by
    intro x d
    cases l <;> rfl
  have hrep : ∀ x d, reply x (c :: a :: e :: l ++ [d]) = none := fun _ _ => rfl
  rw [hexec, hrep]
  refine h.of_byte hreset hcs hedge hr hpart hmem hsecs hwp ?_ (fun _ => ?_) ?_
  · rw [hstd, hext]
    rfl
  · refine hrecv.later hreset hcs hdone hread ?_
    intro b l hb
    cases hb
    exact hcmd1'
  · intro b hb
    cases hb

/-! ### Runs -/

/-- The third byte of the session is completed behind a standard write that is not write-protected. -/
def Ref.overflows (r : Ref) (i : In) : Bool :=
  r.falls i && r.part.length == 7 && !r.store.writeprotect &&
    match r.bytes with
    | [c, _] => r.response.isNone && !isExtended c
    | _ => false

/-- A clock keeps the simulation if it shifts when the reference does, no read is in flight at a
bit, and it completes no third byte behind a standard write. -/
theorem Sim.next (h : Sim s r) (hreset : i.reset = false) (hedge : shiftEdge s i = r.falls i)
    (hpend : r.falls i = true → s.serRpend = 0) (hthird : r.overflows i = false) :
    Sim (step s i) (r.step i) := by
  cases hcs : i.cs with
  | false => exact h.off hreset hcs
  | true =>
    cases hf : r.falls i with
    | false => exact h.wait hreset hcs (hedge.trans hf) hf
    | true =>
      rw [hf] at hedge
      rw [Ref.step, if_pos hf]
      cases hr : r.response with
      | some b => exact h.send hreset hcs hedge (hpend hf) hr
      | none =>
        by_cases hpart : r.part.length = 7
        · rcases hb : r.bytes with _ | ⟨c, _ | ⟨a, _ | ⟨e, l⟩⟩⟩
          · exact h.first hreset hcs hedge (hpend hf) hr hpart hb
          · exact h.second hreset hcs hedge hr hpart hb
          · refine h.third hreset hcs hedge hr hpart hb ?_
            rw [Ref.overflows, hf, hpart, hb, hr] at hthird
            cases hwp : r.store.writeprotect with
            | true => exact Or.inr rfl
            | false => exact Or.inl (by simpa [hwp] using hthird)
          · exact h.further hreset hcs hedge hr hpart hb
        · exact h.bit hreset hcs hedge hr hpart

/-- A session begins with `ck` low while the level kept from the session before is high. -/
def stale (s : State) (r : Ref) (i : In) : Bool := i.cs && r.lastCk.isNone && s.ckD && !i.ck

/-- `ck` changes after clock `k`. -/
def ckEdge (u : ℕ → In) (k : ℕ) : Prop := (u k).ck ≠ (u (k + 1)).ck

/-- At least four clocks lie between two edges of `ck`. -/
def Spaced (u : ℕ → In) : Prop := ∀ j k, ckEdge u j → ckEdge u k → j < k → j + 4 ≤ k

/-- The simulation along a run: the reference has seen the last level of `ck`, and a read in flight
was issued at one of the last edges. -/
structure RunInv (u : ℕ → In) (t : ℕ) (s : State) (r : Ref) : Prop where
  sim : Sim s r
  seen : ∀ c, r.lastCk = some c → 0 < t ∧ (u (t - 1)).ck = c
  pend : s.serRpend ≠ 0 → ∃ k, 0 < k ∧ k < t ∧ ckEdge u (k - 1) ∧ t + s.serRpend = k + 3

theorem shiftEdge_eq_falls (h : Sim s r) (hreset : i.reset = false)
    (hstale : stale s r i = false) : shiftEdge s i = r.falls i := by
  unfold shiftEdge Ref.falls
  unfold stale at hstale
  rw [hreset]
  cases hl : r.lastCk with
  | none =>
    rw [hl] at hstale
    simpa using hstale
  | some c =>
    rw [h.lastCk c hl]
    cases c <;> rfl

theorem edge_of_falls (h : RunInv u t s r) (hf : r.falls (u t) = true) :
    0 < t ∧ ckEdge u (t - 1) := by
  unfold Ref.falls at hf
  simp only [Bool.and_eq_true, beq_iff_eq, Bool.not_eq_true'] at hf
  obtain ⟨⟨-, hl⟩, hck⟩ := hf
  obtain ⟨hpos, hprev⟩ := h.seen true hl
  refine ⟨hpos, ?_⟩
  rw [ckEdge, hprev, Nat.sub_add_cancel hpos, hck]
  decide

theorem RunInv.next (h : RunInv u t s r) (hspaced : Spaced u) (hreset : (u t).reset = false)
    (hstale : stale s r (u t) = false) (hthird : r.overflows (u t) = false) :
    RunInv u (t + 1) (step s (u t)) (r.step (u t)) := by
  have hedge := shiftEdge_eq_falls h.sim hreset hstale
  have hpend : r.falls (u t) = true → s.serRpend = 0 := by
    intro hf
    by_contra hne
    obtain ⟨k, hk0, hkt, hk, hsum⟩ := h.pend hne
    obtain ⟨hpos, ht⟩ := edge_of_falls h hf
    have := hspaced (k - 1) (t - 1) hk ht (by omega)
    omega
  refine ⟨h.sim.next hreset hedge hpend hthird, ?_, ?_⟩
  · intro c hc
    refine ⟨t.succ_pos, ?_⟩
    rw [Nat.add_sub_cancel]
    have hlast : (r.step (u t)).lastCk = if (u t).cs then some (u t).ck else none := by
      unfold Ref.step
      cases hf : r.falls (u t) with
      | true =>
        have hcs : (u t).cs = true := by
          unfold Ref.falls at hf
          simp only [Bool.and_eq_true] at hf
          exact hf.1.1
        rw [if_pos rfl, hcs, if_pos rfl, Ref.shift]
        cases r.response with
        | some b => rfl
        | none => by_cases hpart : r.part.length = 7 <;> simp [hpart, Ref.wait]
      | false => cases hcs : (u t).cs <;> rfl
    rw [hlast] at hc
    split at hc
    · exact Option.some.inj hc
    · cases hc
  · intro hne
    have hnext : (step s (u t)).serRpend = serRpendNext s (u t) := rfl
    rw [hnext] at hne ⊢
    rw [serRpendNext, hreset, if_neg Bool.false_ne_true] at hne ⊢
    by_cases hissue : issueRead s (u t) = true
    · rw [if_pos hissue]
      have hf : r.falls (u t) = true := by
        rw [← hedge]
        by_contra hno
        have hn := noByte_of_shiftEdge (Bool.eq_false_iff.mpr hno)
        rw [issueRead, hn.stdRead, hn.extRead] at hissue
        cases hissue
      obtain ⟨hpos, ht⟩ := edge_of_falls h hf
      exact ⟨t, hpos, t.lt_succ_self, ht, rfl⟩
    · rw [if_neg hissue] at hne ⊢
      obtain ⟨k, hk0, hkt, hk, hsum⟩ := h.pend (by omega)
      exact ⟨k, hk0, by omega, hk, by omega⟩

/-- The registers after a reset stand for the reference at rest. -/
theorem sim_reset (hreset : i.reset = true) :
    Sim (step s i) (Ref.ofState (step s i)) ∧ (step s i).serRpend = 0 := by
  have hoff : (i.reset || !i.cs) = true := by rw [hreset, Bool.true_or]
  refine ⟨⟨rfl, rfl, rfl, rfl, rfl, ?_, ?_, ?_, by simp [Ref.ofState], ?_, ?_, ?_⟩, ?_⟩
  · change datONext s i = true
    rw [datONext, hoff, if_pos rfl]
  · intro c hc
    cases hc
  · change (if i.reset || !i.cs then 0 else _) = 0
    rw [hoff, if_pos rfl]
  · change (if i.reset || !i.cs then true else _) = true
    rw [hoff, if_pos rfl]
  · intro _
    refine ⟨⟨_, rfl⟩, ?_, ?_, ?_, ?_⟩
    · change cmdBytesNext s i = 0
      rw [cmdBytesNext, hoff, if_pos rfl]
    · intro c l hc
      cases hc
    · intro c a l hc
      cases hc
    · intro c hc
      cases hc
  · intro b hb
    cases hb
  · change serRpendNext s i = 0
    rw [serRpendNext, hreset, if_pos rfl]

/-- From reset on, the memory, the clock, the write-protect bit and the output line are those of the
protocol, as long as no session starts on a stale `ck` level and none goes on for a third byte after
a standard write that left the memory unprotected. -/
theorem refines (hreset : i.reset = true) (hon : ∀ k, (u k).reset = false) (hspaced : Spaced u)
    (hstale : ∀ k < t, stale (run step (step s i) u k)
      (run Ref.step (Ref.ofState (step s i)) u k) (u k) = false)
    (hthird : ∀ k < t, (run Ref.step (Ref.ofState (step s i)) u k).overflows (u k) = false) :
    (run step (step s i) u t).portA = (run Ref.step (Ref.ofState (step s i)) u t).store.mem ∧
      (run step (step s i) u t).secs = (run Ref.step (Ref.ofState (step s i)) u t).store.secs ∧
      (run step (step s i) u t).writeprotect =
        (run Ref.step (Ref.ofState (step s i)) u t).store.writeprotect ∧
      (run step (step s i) u t).datO = (run Ref.step (Ref.ofState (step s i)) u t).line := by
  have hinv : ∀ n ≤ t, RunInv u n (run step (step s i) u n)
      (run Ref.step (Ref.ofState (step s i)) u n) := by
    intro n hn
    induction n with
    | zero =>
      obtain ⟨hsim, hpend⟩ := sim_reset (s := s) hreset
      exact ⟨hsim, fun c hc => (by cases hc), fun hne => absurd hpend hne⟩
    | succ n ih =>
      exact (ih (by omega)).next hspaced (hon n) (hstale n (by omega)) (hthird n (by omega))
  have hsim := (hinv t le_rfl).sim
  exact ⟨hsim.mem, hsim.secs, hsim.writeprotect, hsim.line⟩

/-! ### Runs on fixed waves -/

/-- The bits of some bytes, most significant first. -/
def bitsOf (bytes : List Byte) (n : ℕ) : Bool := (bytes.getD (n / 8) 0).getLsbD (7 - n % 8)

/-- A wire sample. -/
def sample (cs ck d : Bool) : In := ⟨false, 0, cs, ck, d, false, 0, 0, 0⟩

def resetIn : In := { sample false false false with reset := true }

def powerUp : State := ⟨0, false, 0, 0, true, 0, 0, 0, 0, 0, 1, false, fun _ => 0, 0, 0, false, 0, 0,
  0, 0, true, true, false⟩

/-- A session from the first clock on: every bit is four clocks of high `ck` and four of low. -/
def wave (bytes : List Byte) (k : ℕ) : In :=
  sample (decide (k < 64 * bytes.length)) (decide (k < 64 * bytes.length) && decide (k % 8 < 4))
    (bitsOf bytes (k / 8))

/-- A selection that ends on a high `ck`, then a session whose bits begin with low `ck`. -/
def waveLow (bytes : List Byte) (k : ℕ) : In :=
  if k < 12 then sample (decide (k < 4)) (decide (k < 7)) false
  else sample (decide (k < 14 + 64 * bytes.length)) (decide (4 ≤ (k - 12) % 8))
    (bitsOf bytes ((k - 13) / 8))

theorem spaced_wave (bytes : List Byte) : Spaced (wave bytes) := by
  have hedge : ∀ k, ckEdge (wave bytes) k → k % 4 = 3 := by
    intro k hk
    unfold ckEdge wave sample at hk
    by_contra hne
    refine hk ?_
    simp only [← Bool.decide_and, decide_eq_decide]
    omega
  intro j k hj hk hjk
  have := hedge j hj
  have := hedge k hk
  omega

theorem spaced_waveLow (bytes : List Byte) : Spaced (waveLow bytes) := by
  have hedge : ∀ k, ckEdge (waveLow bytes) k → k = 6 ∨ (12 ≤ k ∧ k % 4 = 3) := by
    intro k hk
    unfold ckEdge waveLow sample at hk
    by_contra hne
    refine hk ?_
    by_cases h1 : k < 12 <;> by_cases h2 : k + 1 < 12 <;>
      simp only [h1, h2, if_true, if_false, decide_eq_decide] <;> omega
  intro j k hj hk hjk
  have := hedge j hj
  have := hedge k hk
  omega

/-- A standard write of register 16. -/
theorem refines_write :
    (run step (step powerUp resetIn) (wave [0x41, 0xAA]) 128).portA 16 = 0xAA ∧
      (run step (step powerUp resetIn) (wave [0x41, 0xAA]) 128).portA =
        (run Ref.step (Ref.ofState (step powerUp resetIn)) (wave [0x41, 0xAA]) 128).store.mem :=
  ⟨by decide +kernel, (refines rfl (fun _ => rfl) (spaced_wave _) (by decide +kernel)
    (by decide +kernel)).1⟩

/-- The third byte of a standard write lands in extended cell 42. -/
theorem third_byte_writes :
    Spaced (wave [0x41, 0xAA, 0x55]) ∧
      (run step (step powerUp resetIn) (wave [0x41, 0xAA, 0x55]) 200).portA 42 = 0x55 ∧
      (run Ref.step (Ref.ofState (step powerUp resetIn)) (wave [0x41, 0xAA, 0x55]) 200).store.mem
        42 = 0 :=
  ⟨spaced_wave _, by decide +kernel, by decide +kernel⟩

/-- A fall of `ck` between two sessions shifts a bit into the second, whose write is lost. -/
theorem stale_ck_shifts :
    Spaced (waveLow [0x41, 0xAA]) ∧
      (run step (step powerUp resetIn) (waveLow [0x41, 0xAA]) 200).portA 16 = 0 ∧
      (run Ref.step (Ref.ofState (step powerUp resetIn)) (waveLow [0x41, 0xAA]) 200).store.mem
        16 = 0xAA :=
  ⟨spaced_waveLow _, by decide +kernel, by decide +kernel⟩

end Rtc
