import LBMacTwo.Foundation.Clocked
import LBMacTwo.Pram.Fsm
import LBMacTwo.Rtc.Chip

/-!
# What the PRAM image keeps

`Machine` is the state machine with the clock chip, the block device of the slot and the sector of the
mounted image. The Mac writes the parameter RAM through the serial port of the chip at any time, and
the device answers each request by one window, at any speed.

* `AtRest`, `InStep`: nothing is pending, and the sector is the parameter RAM;
* `Spares`: no cell is written that the running load, save or clear has already passed;
* `Works`, `Kept`: what each state of the state machine has done so far, and the invariant;
* `sector_eq`: in a run that spares those cells the image is in step whenever it is at rest;
* `lost_update`: a cell written behind a save is lost;
* `looksSaved_unloaded`: what a mounted image is before its first save.
-/

namespace Pram

open Clocked (scan run_of_scan)

/-- The block device of the slot: at rest, with a request taken, in the window of a load that has
streamed `w` words, and in that of a save that has sampled `w`. `held` tells that the address has
been on the bus for a clock. -/
inductive Dev
  | idle
  | asked (wr : Bool)
  | load (w : ℕ)
  | save (w : ℕ) (held : Bool)
  deriving DecidableEq, Repr

/-- The choices of the device in one clock: go on, and what the shared buffer bus carries outside its
own windows. -/
structure DevMove where
  go : Bool
  addr : ℕ
  data : Word
  strobe : Bool

/-- Word `w` of a sector. -/
def imageWord (image : ℕ → Byte) (w : ℕ) : Word := pairWord (image (2 * w + 1)) (image (2 * w))

theorem byte_of_imageWord (image : ℕ → Byte) (j : ℕ) : image j =
    if j % 2 = 1 then highByte (imageWord image (j / 2)) else lowByte (imageWord image (j / 2)) := by
  unfold imageWord
  split_ifs with hj
  · rw [highByte_pairWord, show 2 * (j / 2) + 1 = j by omega]
  · rw [lowByte_pairWord, show 2 * (j / 2) = j by omega]

namespace Dev

def ack : Dev → Bool
  | .load _ => true
  | .save _ _ => true
  | _ => false

def addr (d : Dev) (m : DevMove) : ℕ :=
  match d with
  | .load w => w % 256
  | .save w _ => w % 256
  | _ => m.addr

def wr (d : Dev) (m : DevMove) : Bool :=
  match d with
  | .load w => m.go && decide (w < 256)
  | .save _ _ => false
  | _ => m.strobe

def dout (d : Dev) (m : DevMove) (image : ℕ → Byte) : Word :=
  match d with
  | .load w => imageWord image w
  | _ => m.data

/-- The sector after the clock, with `din` on `sd_buff_din`. -/
def store (d : Dev) (m : DevMove) (image : ℕ → Byte) (din : Word) : ℕ → Byte :=
  match d with
  | .save w held =>
    if m.go && held && decide (w < 256) then
      Function.update (Function.update image (2 * w) (lowByte din)) (2 * w + 1) (highByte din)
    else image
  | _ => image

/-- One clock against `pram_rd` and `pram_wr_req`. -/
def step (d : Dev) (m : DevMove) (rd wr : Bool) : Dev :=
  match d with
  | .idle => if m.go && rd then .asked false else if m.go && wr then .asked true else .idle
  | .asked w => if m.go then (if w then .save 0 false else .load 0) else .asked w
  | .load w => if m.go then (if w < 256 then .load (w + 1) else .idle) else .load w
  | .save w held =>
    if w < 256 then (if m.go && held then .save (w + 1) false else .save w true)
    else if m.go then .idle else .save w held

end Dev

/-- The state machine, the clock chip, the block device and the sector. The last mount was `accepted`
or not, and a save has ended since the last load. -/
structure Machine where
  fsm : State
  rtc : Rtc.State
  dev : Dev
  image : ℕ → Byte
  accepted : Bool
  saved : Bool

/-- The inputs of one clock: the serial port of the chip, the menu, the mounts with the image they
put into the slot, and the move of the device. -/
structure Turn where
  reset : Bool
  timestamp : BitVec 33
  cs : Bool
  ck : Bool
  datI : Bool
  osdStatus : Bool
  imgMounted : Bool
  imgSize : ℕ
  newImage : ℕ → Byte
  status15 : Bool
  move : DevMove

namespace Machine

variable (x : Machine) (k : Turn)

def fsmIn : In where
  pramAck := x.dev.ack
  osdStatus := k.osdStatus
  imgMounted := k.imgMounted
  imgSize := k.imgSize
  status15 := k.status15
  pramWrStb := x.rtc.pramWrStb
  pramSaveData := x.rtc.pramSaveQ
  sdBuffAddr := x.dev.addr k.move
  sdBuffDout := x.dev.dout k.move x.image
  sdBuffWr := x.dev.wr k.move

def rtcIn : Rtc.In where
  reset := k.reset
  timestamp := k.timestamp
  cs := k.cs
  ck := k.ck
  datI := k.datI
  pramLoadWr := x.fsm.pramLoadWr
  pramLoadAddr := x.fsm.pramLoadAddr
  pramLoadData := x.fsm.pramLoadData
  pramSaveAddr := x.fsm.pramSaveAddr

/-- An image is mounted or unmounted in this clock. -/
def mounts : Bool := mountEdge x.fsm (x.fsmIn k)

def step : Machine where
  fsm := Pram.step x.fsm (x.fsmIn k)
  rtc := Rtc.step x.rtc (x.rtcIn k)
  dev := x.dev.step k.move x.fsm.pramRd x.fsm.pramWrReq
  image :=
    if x.mounts k then k.newImage
    else x.dev.store k.move x.image (sdBuffDin x.fsm (x.fsmIn k))
  accepted := if x.mounts k then (x.fsmIn k).sizeOk else x.accepted
  saved := if x.fsm.loadEnd then false else saveEnd x.fsm (x.fsmIn k) || x.saved

/-- The parameter RAM once the write on port B is made. -/
def ram (j : ℕ) : Byte :=
  if x.fsm.pramLoadWr && x.fsm.pramLoadAddr == j then x.fsm.pramLoadData else x.rtc.pram j

/-- The image in the slot is that of the last accepted mount, and is not waiting to be loaded. -/
def Trusted : Prop := x.accepted = true ∧ x.fsm.pramLoadPending = false

end Machine

/-- The machine at power-up, with any parameter RAM. -/
def Machine.init (ram : ℕ → Byte) : Machine where
  fsm := .init
  rtc :=
    { bitCnt := 0
      ckD := false
      din := 0
      dout := 0
      receiving := true
      secs := 0
      clocktoseconds := 0
      cmd0 := 0
      cmd1 := 0
      cmdBytes := 0
      cmdLen := 1
      writeprotect := false
      pram := ram
      serRaddr := 0
      serRpend := 0
      serWe := false
      serWaddr := 0
      serWdata := 0
      serQ := 0
      pramSaveQ := 0
      datO := true
      cko := true
      pramWrStb := false }
  dev := .idle
  image := fun _ => 0
  accepted := false
  saved := false

/-- The machine after `t` clocks from power-up. -/
abbrev Machine.run (ram : ℕ → Byte) (u : ℕ → Turn) (t : ℕ) : Machine :=
  Clocked.run Machine.step (.init ram) u t

/-- `P_IDLE` with an image mounted, nothing unsaved and nothing pending or on its way. -/
structure AtRest (x : Machine) : Prop where
  idle : x.fsm.pst = .idle
  accepted : x.accepted = true
  clean : x.fsm.pramDirty = false
  noLoad : x.fsm.pramLoadPending = false
  noStrobe : x.fsm.pramLoadWr = false

/-- The first half of the sector is the parameter RAM; the other half is zero from the first save on. -/
structure InStep (x : Machine) : Prop where
  cells : ∀ j < 256, x.image j = x.rtc.pram j
  tail : x.saved = true → ∀ j < 512, 256 ≤ j → x.image j = 0

/-- The running load, save or clear has passed cell `j`, or passes it in this clock. -/
def State.passed (s : State) (j : ℕ) : Bool :=
  match s.pst with
  | .ldAddr | .ldB0 | .fill | .clr => decide (j < s.pcnt)
  | .ldB1 | .fill2 | .fill3 => decide (j ≤ s.pcnt)
  | .svWr | .svDat => true
  | _ => false

/-- The Mac writes no cell that has been passed. -/
def Spares (x : Machine) : Prop := x.rtc.serWe = true → x.fsm.passed x.rtc.serWaddr = false

/-! ### What each state has done -/

/-- The first `c` cells are in the staging buffer. -/
structure Captured (x : Machine) (c : ℕ) : Prop where
  words : ∀ j, 2 * j + 1 < c → x.fsm.pramBuf16 j = pairWord (x.ram (2 * j + 1)) (x.ram (2 * j))
  half : ∀ j, 2 * j + 1 = c → x.fsm.fillLo = x.ram (2 * j)

/-- The first `c` cells are cleared, and their words in the staging buffer. -/
structure Cleared (x : Machine) (c : ℕ) : Prop where
  words : ∀ j, 2 * j < c → x.fsm.pramBuf16 j = 0
  cells : ∀ j < c, x.ram j = 0

/-- The first `w` words of the sector are in the staging buffer, as far as it goes. -/
def Streamed (x : Machine) (w : ℕ) : Prop :=
  ∀ j < w, j < 128 → x.fsm.pramBuf16 j = imageWord x.image j

/-- The first `c` cells are those of the sector, which is in the staging buffer. -/
structure Copied (x : Machine) (c : ℕ) : Prop where
  buffer : Streamed x 128
  cells : ∀ j < c, x.ram j = x.image j

/-- The first `w` words of the sector are those of the staging buffer, followed by zeros. -/
def Sampled (x : Machine) (w : ℕ) : Prop :=
  ∀ j < w, imageWord x.image j = if j < 128 then x.fsm.pramBuf16 j else 0

/-- The sector, and the parameter RAM with the write on port B. -/
structure Synced (x : Machine) : Prop where
  cells : ∀ j < 256, x.image j = x.ram j
  tail : x.saved = true → ∀ j < 512, 256 ≤ j → x.image j = 0

/-- What the machine has done in each state of the state machine and of the device. -/
inductive Works (x : Machine) : Pst → Dev → Prop
  | rest {p} (hp : p = .idle ∨ p = .rst)
      (h : x.Trusted → x.fsm.pramDirty = false → Synced x) : Works x p .idle
  | want {d} (hd : d = .idle ∨ d = .asked false ∨ d = .load 0) : Works x .ldRd d
  | loading {w} (hw : w ≤ 256) (h : x.Trusted → Streamed x w) : Works x .ldDat (.load w)
  | loaded (ho : x.fsm.oldPack = true) (h : x.Trusted → Streamed x 256) : Works x .ldDat .idle
  | copy {w} (hw : w < 128) (hc : x.fsm.pcnt = 2 * w) (h : x.Trusted → Copied x (2 * w)) :
      Works x .ldAddr .idle
  | copyLow {w} (hw : w < 128) (hc : x.fsm.pcnt = 2 * w) (hq : x.fsm.pbufQ = x.fsm.pramBuf16 w)
      (h : x.Trusted → Copied x (2 * w)) : Works x .ldB0 .idle
  | copyHigh {w} (hw : w < 128) (hc : x.fsm.pcnt = 2 * w) (hq : x.fsm.pbufQ = x.fsm.pramBuf16 w)
      (h : x.Trusted → Copied x (2 * w + 1)) : Works x .ldB1 .idle
  | fill {c} (hc : c < 256) (he : x.fsm.pcnt = c) (h : Captured x c) : Works x .fill .idle
  | fetch {c} (hc : c < 256) (he : x.fsm.pcnt = c) (ha : x.fsm.pramSaveAddr = c)
      (hn : x.fsm.pramLoadWr = false) (h : Captured x c) : Works x .fill2 .idle
  | pack {c} (hc : c < 256) (he : x.fsm.pcnt = c) (hq : x.rtc.pramSaveQ = x.ram c)
      (h : Captured x c) : Works x .fill3 .idle
  | clear {c} (hc : c < 256) (he : x.fsm.pcnt = c) (h : Cleared x c) : Works x .clr .idle
  | request {d} (hd : d = .idle ∨ d = .asked true ∨ d = .save 0 false) (h : Captured x 256) :
      Works x .svWr d
  | saving {w held} (hw : w ≤ 256) (hq : held = true → x.fsm.pbufQ = x.fsm.pramBuf16 (w % 128))
      (h : Captured x 256) (hs : x.Trusted → Sampled x w) : Works x .svDat (.save w held)
  | saved (ho : x.fsm.oldPack = true) (h : Captured x 256) (hs : x.Trusted → Sampled x 256) :
      Works x .svDat .idle

/-- What holds of every run that spares the cells that have been passed. -/
structure Kept (x : Machine) : Prop where
  stb : x.rtc.serWe = x.rtc.pramWrStb
  rd : x.fsm.pramRd = true → x.fsm.pst = .ldRd
  wrReq : x.fsm.pramWrReq = true → x.fsm.pst = .svWr
  ena : x.accepted = true → x.fsm.pramEna = true
  works : Works x x.fsm.pst x.dev

variable {x : Machine} {k : Turn}

/-! ### One clock -/

theorem Machine.oldPack_step : (x.step k).fsm.oldPack = x.dev.ack := rfl

/-- The image that will be trusted is trusted, or its load is about to start. -/
theorem Machine.Trusted.of_next (h : (x.step k).Trusted) (hl : x.fsm.loadStart = false) :
    x.Trusted ∧ x.mounts k = false := by
  obtain ⟨ha, hp⟩ := h
  change (if x.mounts k then (x.fsmIn k).sizeOk else x.accepted) = true at ha
  change pramLoadPendingNext x.fsm (x.fsmIn k) = false at hp
  rw [pramLoadPendingNext, hl] at hp
  cases hm : x.mounts k
  · rw [hm] at ha
    have hm' : mountEdge x.fsm (x.fsmIn k) = false := hm
    simp [hm'] at hp
    exact ⟨⟨ha, hp⟩, rfl⟩
  · rw [hm] at ha
    have hm' : mountEdge x.fsm (x.fsmIn k) = true := hm
    have ha' : (x.fsmIn k).sizeOk = true := ha
    simp [hm', ha'] at hp

/-- Without a mount the sector changes only where the device samples a word. -/
theorem Machine.image_next (hm : x.mounts k = false) (hd : ∀ w held, x.dev ≠ .save w held) :
    (x.step k).image = x.image := by
  change (if x.mounts k then _ else _) = _
  rw [hm, if_neg Bool.false_ne_true]
  cases hd' : x.dev with
  | save w held => exact absurd hd' (hd w held)
  | _ => rfl

/-- A cell the Mac does not write takes what port B writes. -/
theorem Machine.pram_next {j : ℕ} (hj : x.rtc.serWe = true → x.rtc.serWaddr ≠ j) :
    (x.step k).rtc.pram j = x.ram j := by
  change Rtc.portB x.rtc.portA (x.rtcIn k) j = _
  have hA : x.rtc.portA j = x.rtc.pram j := by
    unfold Rtc.State.portA
    split_ifs with hw
    · exact Function.update_of_ne (fun h => hj hw h.symm) _ _
    · rfl
  unfold Rtc.portB Machine.ram
  simp only [Machine.rtcIn]
  by_cases hl : x.fsm.pramLoadWr = true
  · by_cases ha : x.fsm.pramLoadAddr = j
    · simp [hl, ha]
    · have ha' : j ≠ x.fsm.pramLoadAddr := fun h => ha h.symm
      simp [hl, ha, ha', hA]
  · simp [hl, hA]

/-- Where no write is put on port B. -/
theorem Machine.ram_next {j : ℕ} (hp : pramLoadWrNext x.fsm = false)
    (hj : x.rtc.serWe = true → x.rtc.serWaddr ≠ j) : (x.step k).ram j = x.ram j := by
  have hl : (x.step k).fsm.pramLoadWr = false := hp
  rw [← Machine.pram_next (k := k) hj, Machine.ram, hl]
  rfl

/-- Where cell `a` is put on port B. -/
theorem Machine.ram_next_load {j a : ℕ} (hp : pramLoadWrNext x.fsm = true)
    (ha : pramLoadAddrNext x.fsm = a) (hj : j ≠ a → x.rtc.serWe = true → x.rtc.serWaddr ≠ j) :
    (x.step k).ram j = if j = a then pramLoadDataNext x.fsm else x.ram j := by
  have hl : (x.step k).fsm.pramLoadWr = true := hp
  have hla : (x.step k).fsm.pramLoadAddr = a := ha
  by_cases h : j = a
  · subst h
    rw [Machine.ram, hl, hla, if_pos rfl]
    simp
    rfl
  · have h' : (a == j) = false := beq_eq_false_iff_ne.mpr fun e => h e.symm
    rw [Machine.ram, hl, hla, h', Bool.and_false, if_neg Bool.false_ne_true, if_neg h]
    exact Machine.pram_next (hj h)

theorem Spares.ne (hs : Spares x) {j : ℕ} (hj : x.fsm.passed j = true) :
    x.rtc.serWe = true → x.rtc.serWaddr ≠ j := by
  intro hw he
  rw [← he, hs hw] at hj
  cases hj

/-! ### Step by step -/

/-- The step keeps `Works`. -/
def Machine.Goes (x : Machine) (k : Turn) : Prop :=
  Works (x.step k) (x.step k).fsm.pst (x.step k).dev

theorem Machine.Goes.of {p : Pst} {d : Dev} (hp : (x.step k).fsm.pst = p) (hd : (x.step k).dev = d)
    (h : Works (x.step k) p d) : x.Goes k := by
  rw [Machine.Goes, hp, hd]
  exact h

namespace Kept

theorem dev_next (h : Kept x) (hd : x.dev = .idle) (h1 : x.fsm.pst ≠ .ldRd)
    (h2 : x.fsm.pst ≠ .svWr) : (x.step k).dev = .idle := by
  have hrd : x.fsm.pramRd = false := Bool.eq_false_iff.mpr fun hr => h1 (h.rd hr)
  have hwr : x.fsm.pramWrReq = false := Bool.eq_false_iff.mpr fun hr => h2 (h.wrReq hr)
  simp [Machine.step, hd, Dev.step, hrd, hwr]

/-- At rest the sector stays what it is until the Mac writes. -/
theorem synced_next (h : Kept x) (hp : x.fsm.pst = .idle ∨ x.fsm.pst = .rst) (hd : x.dev = .idle)
    (hl : x.fsm.loadStart = false) (hc : x.Trusted → x.fsm.pramDirty = false → Synced x)
    (ht : (x.step k).Trusted) (hq : (x.step k).fsm.pramDirty = false) : Synced (x.step k) := by
  obtain ⟨htr, hm⟩ := ht.of_next hl
  have hle : x.fsm.loadEnd = false := by rcases hp with hp | hp <;> simp [State.loadEnd, hp]
  have hse : saveEnd x.fsm (x.fsmIn k) = false := by rcases hp with hp | hp <;> simp [saveEnd, hp]
  have hlw : pramLoadWrNext x.fsm = false := by
    rcases hp with hp | hp <;> simp [pramLoadWrNext, hp]
  change pramDirtyNext x.fsm (x.fsmIn k) = false at hq
  rw [pramDirtyNext, hle, hse, Bool.or_false, if_neg Bool.false_ne_true, Bool.or_eq_false_iff] at hq
  have hwe : x.rtc.serWe = false := h.stb.trans hq.1
  have him : (x.step k).image = x.image := Machine.image_next hm (by simp [hd])
  have hsv : (x.step k).saved = x.saved := by simp [Machine.step, hle, hse]
  have hsy := hc htr hq.2
  constructor
  · intro j hj
    rw [him, Machine.ram_next hlw (by simp [hwe])]
    exact hsy.cells j hj
  · rw [him, hsv]
    exact hsy.tail

theorem rest (h : Kept x) (hp : x.fsm.pst = .idle ∨ x.fsm.pst = .rst) (hd : x.dev = .idle)
    (hc : x.Trusted → x.fsm.pramDirty = false → Synced x) : x.Goes k := by
  have hdev : (x.step k).dev = .idle :=
    h.dev_next hd (by rcases hp with hp | hp <;> simp [hp]) (by rcases hp with hp | hp <;> simp [hp])
  have hnext : x.fsm.loadStart = false → (x.step k).Trusted → (x.step k).fsm.pramDirty = false →
      Synced (x.step k) := fun hl => h.synced_next hp hd hl hc
  rcases hp with hp | hp
  · by_cases hcl : x.fsm.clrStart = true
    · refine .of (p := .clr) (by simp [Machine.step, Pram.step, pstNext, hp, hcl]) hdev
        (.clear (c := 0) (by omega) (by simp [Machine.step, Pram.step, pcntNext, hp, hcl]) ?_)
      exact ⟨fun j hj => absurd hj (by omega), fun j hj => absurd hj (by omega)⟩
    by_cases hl : x.fsm.loadStart = true
    · exact .of (p := .ldRd) (by simp [Machine.step, Pram.step, pstNext, hp, hcl, hl]) hdev
        (.want (.inl rfl))
    by_cases hf : x.fsm.flushStart = true
    · refine .of (p := .fill) (by simp [Machine.step, Pram.step, pstNext, hp, hcl, hl, hf]) hdev
        (.fill (c := 0) (by omega) (by simp [Machine.step, Pram.step, pcntNext, hp, hf]) ?_)
      exact ⟨fun j hj => absurd hj (by omega), fun j hj => absurd hj (by omega)⟩
    exact .of (p := .idle) (by simp [Machine.step, Pram.step, pstNext, hp, hcl, hl, hf]) hdev
      (.rest (.inl rfl) (hnext (by simpa using hl)))
  · have hl : x.fsm.loadStart = false := by simp [State.loadStart, hp]
    exact .of (p := .idle) (by simp [Machine.step, Pram.step, pstNext, hp]) hdev
      (.rest (.inl rfl) (hnext hl))

/-! ### Loads -/

/-- The device captures into the staging buffer only in the window of a load. -/
theorem buffer_next (hd : ∀ w, x.dev ≠ .load w) : (x.step k).fsm.pramBuf16 =
    if x.fsm.pst == .fill3 && x.fsm.pcnt % 2 == 1 then
      Function.update x.fsm.pramBuf16 (x.fsm.pcnt / 2 % 128) (pairWord x.rtc.pramSaveQ x.fsm.fillLo)
    else if x.fsm.pst == .clr then Function.update x.fsm.pramBuf16 (x.fsm.pcnt / 2 % 128) 0
    else x.fsm.pramBuf16 := by
  have hcap : (x.dev.ack && x.dev.wr k.move) = false := by
    cases hdev : x.dev with
    | load w => exact absurd hdev (hd w)
    | _ => rfl
  change (if x.dev.ack && x.dev.wr k.move && _ then _ else _) = _
  rw [hcap]
  rfl

/-- A word that is streamed is captured. -/
theorem streamed_next {w : ℕ} (hp : x.fsm.pst = .ldRd ∨ x.fsm.pst = .ldDat) (hd : x.dev = .load w)
    (hc : x.Trusted → Streamed x w) (ht : (x.step k).Trusted) :
    Streamed (x.step k) (w + (k.move.go && decide (w < 256)).toNat) := by
  have hl : x.fsm.loadStart = false := by rcases hp with hp | hp <;> simp [State.loadStart, hp]
  obtain ⟨htr, hm⟩ := ht.of_next hl
  have hst := hc htr
  have him : (x.step k).image = x.image := Machine.image_next hm (by simp [hd])
  have hbuf : (x.step k).fsm.pramBuf16 =
      if k.move.go && decide (w < 256) && decide (w % 256 < 128) then
        Function.update x.fsm.pramBuf16 (w % 256 % 128) (imageWord x.image w)
      else x.fsm.pramBuf16 := by
    rcases hp with hp | hp <;>
      simp [Machine.step, Pram.step, pramBuf16Next, Machine.fsmIn, hd, Dev.ack, Dev.wr, Dev.addr,
        Dev.dout, hp]
  intro j hj h128
  rw [hbuf, him]
  by_cases hgo : (k.move.go && decide (w < 256)) = true
  · rw [hgo, Bool.toNat_true] at hj
    rw [Bool.and_eq_true, decide_eq_true_eq] at hgo
    by_cases hjw : j = w
    · subst hjw
      simp [hgo, Nat.mod_eq_of_lt hgo.2, h128, Nat.mod_eq_of_lt h128]
    · rw [← hst j (by omega) h128]
      split_ifs with hcap
      · rw [Bool.and_eq_true, decide_eq_true_eq] at hcap
        exact Function.update_of_ne (by omega) _ _
      · rfl
  · rw [Bool.not_eq_true] at hgo
    rw [hgo, Bool.toNat_false, Nat.add_zero] at hj
    rw [hgo, Bool.false_and, if_neg Bool.false_ne_true]
    exact hst j hj h128

theorem want (h : Kept x) (hp : x.fsm.pst = .ldRd)
    (hd : x.dev = .idle ∨ x.dev = .asked false ∨ x.dev = .load 0) : x.Goes k := by
  have hwr : x.fsm.pramWrReq = false := Bool.eq_false_iff.mpr fun hr => by
    cases (h.wrReq hr).symm.trans hp
  rcases hd with hd | hd | hd
  · refine .of (p := .ldRd) (by simp [Machine.step, Pram.step, pstNext, hp, Machine.fsmIn, hd, Dev.ack])
      rfl (.want ?_)
    simp only [Machine.step, hd, Dev.step, hwr, Bool.and_false]
    split_ifs <;> simp_all
  · refine .of (p := .ldRd) (by simp [Machine.step, Pram.step, pstNext, hp, Machine.fsmIn, hd, Dev.ack])
      rfl (.want ?_)
    simp only [Machine.step, hd, Dev.step]
    split_ifs <;> simp_all
  · have hst : (x.step k).Trusted → Streamed (x.step k) (0 + (k.move.go && decide (0 < 256)).toNat) :=
      streamed_next (.inl hp) hd fun _ j hj => absurd hj (Nat.not_lt_zero j)
    have hpst : (x.step k).fsm.pst = .ldDat := by
      simp [Machine.step, Pram.step, pstNext, hp, Machine.fsmIn, hd, Dev.ack]
    cases hgo : k.move.go
    · exact .of hpst (by simp [Machine.step, hd, Dev.step, hgo])
        (.loading (w := 0) (by omega) (by simpa [hgo] using hst))
    · exact .of hpst (by simp [Machine.step, hd, Dev.step, hgo])
        (.loading (w := 1) (by omega) (by simpa [hgo] using hst))

theorem loading {w : ℕ} (hp : x.fsm.pst = .ldDat) (hd : x.dev = .load w) (hw : w ≤ 256)
    (hc : x.Trusted → Streamed x w) : x.Goes k := by
  have hst := streamed_next (k := k) (.inr hp) hd hc
  have hpst : (x.step k).fsm.pst = .ldDat := by
    simp [Machine.step, Pram.step, pstNext, hp, packFall, Machine.fsmIn, hd, Dev.ack]
  cases hgo : k.move.go
  · exact .of hpst (by simp [Machine.step, hd, Dev.step, hgo])
      (.loading hw (by simpa [hgo] using hst))
  · by_cases hlt : w < 256
    · exact .of hpst (by simp [Machine.step, hd, Dev.step, hgo, hlt])
        (.loading (w := w + 1) (by omega) (by simpa [hgo, hlt] using hst))
    · obtain rfl : w = 256 := by omega
      exact .of hpst (by simp [Machine.step, hd, Dev.step, hgo])
        (.loaded (by rw [Machine.oldPack_step, hd]; rfl) (by simpa using hst))

theorem buffer_same (hd : x.dev = .idle) (h1 : x.fsm.pst ≠ .fill3) (h2 : x.fsm.pst ≠ .clr) :
    (x.step k).fsm.pramBuf16 = x.fsm.pramBuf16 := by
  rw [buffer_next (by simp [hd])]
  simp [h1, h2]

theorem loaded (h : Kept x) (hp : x.fsm.pst = .ldDat) (hd : x.dev = .idle)
    (ho : x.fsm.oldPack = true) (hc : x.Trusted → Streamed x 256) : x.Goes k := by
  have hpf : packFall x.fsm (x.fsmIn k) = true := by simp [packFall, ho, Machine.fsmIn, hd, Dev.ack]
  refine .of (p := .ldAddr) (by simp [Machine.step, Pram.step, pstNext, hp, hpf])
    (h.dev_next hd (by simp [hp]) (by simp [hp]))
    (.copy (w := 0) (by omega) (by simp [Machine.step, Pram.step, pcntNext, hp, hpf]) fun ht => ?_)
  obtain ⟨htr, hm⟩ := ht.of_next (by simp [State.loadStart, hp])
  refine ⟨fun j hj h128 => ?_, fun j hj => absurd hj (by omega)⟩
  rw [buffer_same hd (by simp [hp]) (by simp [hp]), Machine.image_next hm (by simp [hd])]
  exact hc htr j (by omega) h128

/-- While the sector is copied it stays in the staging buffer. -/
theorem streamed_same (hd : x.dev = .idle) (hm : x.mounts k = false) (h1 : x.fsm.pst ≠ .fill3)
    (h2 : x.fsm.pst ≠ .clr) (hc : Streamed x 128) : Streamed (x.step k) 128 := by
  intro j hj h128
  rw [buffer_same hd h1 h2, Machine.image_next hm (by simp [hd])]
  exact hc j hj h128

theorem copy (h : Kept x) (hs : Spares x) (hp : x.fsm.pst = .ldAddr) (hd : x.dev = .idle) {w : ℕ}
    (hw : w < 128) (he : x.fsm.pcnt = 2 * w) (hc : x.Trusted → Copied x (2 * w)) : x.Goes k := by
  have hbuf := buffer_same (k := k) hd (by simp [hp]) (by simp [hp])
  refine .of (p := .ldB0) (by simp [Machine.step, Pram.step, pstNext, hp])
    (h.dev_next hd (by simp [hp]) (by simp [hp]))
    (.copyLow hw (by simp [Machine.step, Pram.step, pcntNext, hp, he]) ?_ fun ht => ?_)
  · rw [hbuf]
    simp [Machine.step, Pram.step, pbufRaddr, State.pramLoading, hp, he, Nat.mod_eq_of_lt hw]
  · obtain ⟨htr, hm⟩ := ht.of_next (by simp [State.loadStart, hp])
    have hcop := hc htr
    refine ⟨streamed_same hd hm (by simp [hp]) (by simp [hp]) hcop.buffer, fun j hj => ?_⟩
    rw [Machine.image_next hm (by simp [hd]), Machine.ram_next (by simp [pramLoadWrNext, hp])
      (hs.ne (by simp [State.passed, hp, he, hj]))]
    exact hcop.cells j hj

theorem copyLow (h : Kept x) (hs : Spares x) (hp : x.fsm.pst = .ldB0) (hd : x.dev = .idle) {w : ℕ}
    (hw : w < 128) (he : x.fsm.pcnt = 2 * w) (hq : x.fsm.pbufQ = x.fsm.pramBuf16 w)
    (hc : x.Trusted → Copied x (2 * w)) : x.Goes k := by
  have hbuf := buffer_same (k := k) hd (by simp [hp]) (by simp [hp])
  refine .of (p := .ldB1) (by simp [Machine.step, Pram.step, pstNext, hp])
    (h.dev_next hd (by simp [hp]) (by simp [hp]))
    (.copyHigh hw (by simp [Machine.step, Pram.step, pcntNext, hp, he]) ?_ fun ht => ?_)
  · rw [hbuf]
    simp [Machine.step, Pram.step, pbufRaddr, State.pramLoading, hp, he, Nat.mod_eq_of_lt hw]
  · obtain ⟨htr, hm⟩ := ht.of_next (by simp [State.loadStart, hp])
    have hcop := hc htr
    refine ⟨streamed_same hd hm (by simp [hp]) (by simp [hp]) hcop.buffer, fun j hj => ?_⟩
    have haddr : pramLoadAddrNext x.fsm = 2 * w := by simp [pramLoadAddrNext, hp, he]; omega
    rw [Machine.image_next hm (by simp [hd]),
      Machine.ram_next_load (by simp [pramLoadWrNext, hp]) haddr
        fun hne => hs.ne (by simp [State.passed, hp, he]; omega)]
    split_ifs with hjw
    · rw [hjw]
      simp [pramLoadDataNext, hp, hq, hcop.buffer w (by omega) hw, imageWord]
    · exact hcop.cells j (by omega)

theorem copyHigh (h : Kept x) (hs : Spares x) (hp : x.fsm.pst = .ldB1) (hd : x.dev = .idle) {w : ℕ}
    (hw : w < 128) (he : x.fsm.pcnt = 2 * w) (hq : x.fsm.pbufQ = x.fsm.pramBuf16 w)
    (hc : x.Trusted → Copied x (2 * w + 1)) : x.Goes k := by
  have hdev := h.dev_next (k := k) hd (by simp [hp]) (by simp [hp])
  have hcells : (x.step k).Trusted →
      Streamed (x.step k) 128 ∧ ∀ j < 2 * w + 2, (x.step k).ram j = (x.step k).image j := by
    intro ht
    obtain ⟨htr, hm⟩ := ht.of_next (by simp [State.loadStart, hp])
    have hcop := hc htr
    refine ⟨streamed_same hd hm (by simp [hp]) (by simp [hp]) hcop.buffer, fun j hj => ?_⟩
    have haddr : pramLoadAddrNext x.fsm = 2 * w + 1 := by
      simp [pramLoadAddrNext, hp, he]
      omega
    rw [Machine.image_next hm (by simp [hd]),
      Machine.ram_next_load (by simp [pramLoadWrNext, hp]) haddr
        fun hne => hs.ne (by simp [State.passed, hp, he]; omega)]
    split_ifs with hjw
    · rw [hjw]
      simp [pramLoadDataNext, hp, hq, hcop.buffer w (by omega) hw, imageWord]
    · exact hcop.cells j (by omega)
  by_cases hend : w = 127
  · subst hend
    have hle : x.fsm.loadEnd = true := by simp [State.loadEnd, hp, he]
    refine .of (p := if x.fsm.pramLateLoad then .rst else .idle)
      (by simp [Machine.step, Pram.step, pstNext, hp, hle]) hdev
      (.rest (by split_ifs <;> simp) fun ht _ => ⟨fun j hj => ((hcells ht).2 j hj).symm, fun hsv => ?_⟩)
    simp [Machine.step, hle] at hsv
  · have hle : x.fsm.loadEnd = false := by
      simp [State.loadEnd, hp, he]
      omega
    exact .of (p := .ldAddr) (by simp [Machine.step, Pram.step, pstNext, hp, hle]) hdev
      (.copy (w := w + 1) (by omega) (by simp [Machine.step, Pram.step, pcntNext, hp, hle, he]; omega)
        fun ht => ⟨(hcells ht).1, (hcells ht).2⟩)

/-! ### Saves and clears -/

/-- Cells that are spared stay captured. -/
theorem captured_same {c : ℕ} (hb : (x.step k).fsm.pramBuf16 = x.fsm.pramBuf16)
    (hf : (x.step k).fsm.fillLo = x.fsm.fillLo) (hr : ∀ j < c, (x.step k).ram j = x.ram j)
    (hc : Captured x c) : Captured (x.step k) c := by
  constructor
  · intro j hj
    rw [hb, hr _ hj, hr _ (by omega)]
    exact hc.words j hj
  · intro j hj
    rw [hf, hr _ (by omega)]
    exact hc.half j hj

theorem fill (h : Kept x) (hs : Spares x) (hp : x.fsm.pst = .fill) (hd : x.dev = .idle) {c : ℕ}
    (hc : c < 256) (he : x.fsm.pcnt = c) (hcap : Captured x c) : x.Goes k := by
  refine .of (p := .fill2) (by simp [Machine.step, Pram.step, pstNext, hp])
    (h.dev_next hd (by simp [hp]) (by simp [hp]))
    (.fetch hc (by simp [Machine.step, Pram.step, pcntNext, hp, he]) ?_ ?_ ?_)
  · simp [Machine.step, Pram.step, pramSaveAddrNext, hp, he, Nat.mod_eq_of_lt hc]
  · simp [Machine.step, Pram.step, pramLoadWrNext, hp]
  · refine captured_same (buffer_same hd (by simp [hp]) (by simp [hp]))
      (by simp [Machine.step, Pram.step, fillLoNext, hp]) (fun j hj => ?_) hcap
    exact Machine.ram_next (by simp [pramLoadWrNext, hp])
      (hs.ne (by simp [State.passed, hp, he, hj]))

theorem fetch (h : Kept x) (hs : Spares x) (hp : x.fsm.pst = .fill2) (hd : x.dev = .idle) {c : ℕ}
    (hc : c < 256) (he : x.fsm.pcnt = c) (ha : x.fsm.pramSaveAddr = c)
    (hn : x.fsm.pramLoadWr = false) (hcap : Captured x c) : x.Goes k := by
  have hram : ∀ j ≤ c, (x.step k).ram j = x.ram j := fun j hj =>
    Machine.ram_next (by simp [pramLoadWrNext, hp]) (hs.ne (by simp [State.passed, hp, he, hj]))
  refine .of (p := .fill3) (by simp [Machine.step, Pram.step, pstNext, hp])
    (h.dev_next hd (by simp [hp]) (by simp [hp]))
    (.pack hc (by simp [Machine.step, Pram.step, pcntNext, hp, he]) ?_ ?_)
  · rw [hram c (Nat.le_refl c)]
    simp [Machine.step, Rtc.step, Rtc.bAddr, Machine.rtcIn, hn, ha, Machine.ram]
  · exact captured_same (buffer_same hd (by simp [hp]) (by simp [hp]))
      (by simp [Machine.step, Pram.step, fillLoNext, hp]) (fun j hj => hram j (by omega)) hcap

theorem pack (h : Kept x) (hs : Spares x) (hp : x.fsm.pst = .fill3) (hd : x.dev = .idle) {c : ℕ}
    (hc : c < 256) (he : x.fsm.pcnt = c) (hq : x.rtc.pramSaveQ = x.ram c) (hcap : Captured x c) :
    x.Goes k := by
  have hdev := h.dev_next (k := k) hd (by simp [hp]) (by simp [hp])
  have hram : ∀ j ≤ c, (x.step k).ram j = x.ram j := fun j hj =>
    Machine.ram_next (by simp [pramLoadWrNext, hp]) (hs.ne (by simp [State.passed, hp, he, hj]))
  have hbuf : (x.step k).fsm.pramBuf16 = if c % 2 = 1 then
      Function.update x.fsm.pramBuf16 (c / 2) (pairWord (x.ram c) x.fsm.fillLo)
      else x.fsm.pramBuf16 := by
    rw [buffer_next (by simp [hd])]
    simp [hp, he, hq, Nat.mod_eq_of_lt (show c / 2 < 128 by omega)]
  have hlo : (x.step k).fsm.fillLo = if c % 2 = 0 then x.ram c else x.fsm.fillLo := by
    simp [Machine.step, Pram.step, fillLoNext, hp, he, Machine.fsmIn, hq]
  have hnext : Captured (x.step k) (c + 1) := by
    constructor
    · intro j hj
      rw [hbuf, hram _ (by omega), hram _ (by omega)]
      by_cases hjc : 2 * j + 1 = c
      · -- the odd byte of word `j`, with the even one before it
        rw [if_pos (by omega), show c / 2 = j by omega, Function.update_self, hcap.half j hjc, hjc]
      · split_ifs
        · rw [Function.update_of_ne (by omega)]
          exact hcap.words j (by omega)
        · exact hcap.words j (by omega)
    · intro j hj
      rw [hlo, if_pos (by omega), hram _ (by omega), show 2 * j = c by omega]
  by_cases hend : c = 255
  · subst hend
    exact .of (p := .svWr) (by simp [Machine.step, Pram.step, pstNext, hp, he]) hdev
      (.request (.inl rfl) hnext)
  · exact .of (p := .fill) (by simp [Machine.step, Pram.step, pstNext, hp, he, hend]) hdev
      (.fill (c := c + 1) (by omega)
        (by simp [Machine.step, Pram.step, pcntNext, hp, he, hend]; omega) hnext)

/-- A cleared RAM is captured by a cleared buffer. -/
theorem captured_of_cleared (hc : Cleared x 256) : Captured x 256 := by
  refine ⟨fun j hj => ?_, fun j hj => absurd hj (by omega)⟩
  rw [hc.words j (by omega), hc.cells _ hj, hc.cells _ (by omega)]
  rfl

theorem clear (h : Kept x) (hs : Spares x) (hp : x.fsm.pst = .clr) (hd : x.dev = .idle) {c : ℕ}
    (hc : c < 256) (he : x.fsm.pcnt = c) (hcl : Cleared x c) : x.Goes k := by
  have hdev := h.dev_next (k := k) hd (by simp [hp]) (by simp [hp])
  have hbuf : (x.step k).fsm.pramBuf16 = Function.update x.fsm.pramBuf16 (c / 2) 0 := by
    rw [buffer_next (by simp [hd])]
    simp [hp, he, Nat.mod_eq_of_lt (show c / 2 < 128 by omega)]
  have haddr : pramLoadAddrNext x.fsm = c := by simp [pramLoadAddrNext, hp, he, Nat.mod_eq_of_lt hc]
  have hnext : Cleared (x.step k) (c + 1) := by
    constructor
    · intro j hj
      rw [hbuf]
      by_cases hjc : j = c / 2
      · rw [hjc, Function.update_self]
      · rw [Function.update_of_ne hjc]
        exact hcl.words j (by omega)
    · intro j hj
      rw [Machine.ram_next_load (by simp [pramLoadWrNext, hp]) haddr
        fun hne => hs.ne (by simp [State.passed, hp, he]; omega)]
      split_ifs with hjc
      · simp [pramLoadDataNext, hp]
      · exact hcl.cells j (by omega)
  by_cases hend : c = 255
  · subst hend
    have hce : x.fsm.clrEnd = true := by simp [State.clrEnd, hp, he]
    cases hen : x.fsm.pramEna
    · -- no image is mounted, or one is being mounted and still to be loaded
      refine .of (p := .rst) (by simp [Machine.step, Pram.step, pstNext, hp, hce, hen]) hdev
        (.rest (.inr rfl) fun ht _ => ?_)
      have hacc := (ht.of_next (by simp [State.loadStart, hp])).1.1
      rw [h.ena hacc] at hen
      cases hen
    · exact .of (p := .svWr) (by simp [Machine.step, Pram.step, pstNext, hp, hce, hen]) hdev
        (.request (.inl rfl) (captured_of_cleared hnext))
  · have hce : x.fsm.clrEnd = false := by simp [State.clrEnd, hp, he, hend]
    exact .of (p := .clr) (by simp [Machine.step, Pram.step, pstNext, hp, hce]) hdev
      (.clear (c := c + 1) (by omega)
        (by simp [Machine.step, Pram.step, pcntNext, hp, he, hend]; omega) hnext)

/-- Nothing is written while the staging buffer is saved. -/
theorem captured_save (hs : Spares x) (hp : x.fsm.pst = .svWr ∨ x.fsm.pst = .svDat)
    (hd : ∀ w, x.dev ≠ .load w) (hcap : Captured x 256) :
    (x.step k).fsm.pramBuf16 = x.fsm.pramBuf16 ∧ Captured (x.step k) 256 := by
  have hbuf : (x.step k).fsm.pramBuf16 = x.fsm.pramBuf16 := by
    rw [buffer_next hd]
    rcases hp with hp | hp <;> simp [hp]
  refine ⟨hbuf, captured_same hbuf ?_ (fun j hj => Machine.ram_next ?_ (hs.ne ?_)) hcap⟩
  · rcases hp with hp | hp <;> simp [Machine.step, Pram.step, fillLoNext, hp]
  · rcases hp with hp | hp <;> simp [pramLoadWrNext, hp]
  · rcases hp with hp | hp <;> simp [State.passed, hp]

/-- The word at the address on the bus is on its way. -/
theorem pbufQ_next {w : ℕ} {held : Bool} (hp : x.fsm.pst = .svWr ∨ x.fsm.pst = .svDat)
    (hd : x.dev = .save w held) (hb : (x.step k).fsm.pramBuf16 = x.fsm.pramBuf16) :
    (x.step k).fsm.pbufQ = (x.step k).fsm.pramBuf16 (w % 128) := by
  rw [hb]
  have hmod : w % 256 % 128 = w % 128 := by omega
  rcases hp with hp | hp <;>
    simp [Machine.step, Pram.step, pbufRaddr, State.pramLoading, hp, Machine.fsmIn, hd, Dev.addr, hmod]

theorem request (h : Kept x) (hs : Spares x) (hp : x.fsm.pst = .svWr)
    (hd : x.dev = .idle ∨ x.dev = .asked true ∨ x.dev = .save 0 false) (hcap : Captured x 256) :
    x.Goes k := by
  have hrd : x.fsm.pramRd = false := Bool.eq_false_iff.mpr fun hr => by
    cases (h.rd hr).symm.trans hp
  obtain ⟨hbuf, hnext⟩ := captured_save (k := k) hs (.inl hp)
    (by rcases hd with hd | hd | hd <;> simp [hd]) hcap
  rcases hd with hd | hd | hd
  · refine .of (p := .svWr) (by simp [Machine.step, Pram.step, pstNext, hp, Machine.fsmIn, hd, Dev.ack])
      rfl (.request ?_ hnext)
    simp only [Machine.step, hd, Dev.step, hrd, Bool.and_false]
    split_ifs <;> simp_all
  · refine .of (p := .svWr) (by simp [Machine.step, Pram.step, pstNext, hp, Machine.fsmIn, hd, Dev.ack])
      rfl (.request ?_ hnext)
    simp only [Machine.step, hd, Dev.step]
    split_ifs <;> simp_all
  · exact .of (p := .svDat) (d := .save 0 true)
      (by simp [Machine.step, Pram.step, pstNext, hp, Machine.fsmIn, hd, Dev.ack])
      (by simp [Machine.step, hd, Dev.step])
      (.saving (by omega) (fun _ => pbufQ_next (.inl hp) hd hbuf) hnext
        fun _ j hj => absurd hj (Nat.not_lt_zero j))

/-- A word that is sampled is stored. -/
theorem sampled_next {w : ℕ} {held : Bool} (hp : x.fsm.pst = .svDat) (hd : x.dev = .save w held)
    (hq : held = true → x.fsm.pbufQ = x.fsm.pramBuf16 (w % 128))
    (hb : (x.step k).fsm.pramBuf16 = x.fsm.pramBuf16) (hc : x.Trusted → Sampled x w)
    (ht : (x.step k).Trusted) :
    Sampled (x.step k) (w + (k.move.go && held && decide (w < 256)).toNat) := by
  obtain ⟨htr, hm⟩ := ht.of_next (by simp [State.loadStart, hp])
  have hsa := hc htr
  have him : (x.step k).image = x.dev.store k.move x.image (sdBuffDin x.fsm (x.fsmIn k)) := by
    change (if x.mounts k then _ else _) = _
    rw [hm, if_neg Bool.false_ne_true]
  intro j hj
  rw [hb, him, hd, Dev.store]
  by_cases hgo : (k.move.go && held && decide (w < 256)) = true
  · rw [if_pos hgo]
    rw [hgo, Bool.toNat_true] at hj
    simp only [Bool.and_eq_true, decide_eq_true_eq] at hgo
    by_cases hjw : j = w
    · subst hjw
      have haddr : (x.fsmIn k).sdBuffAddr = j := by
        simp [Machine.fsmIn, hd, Dev.addr, Nat.mod_eq_of_lt hgo.2]
      rw [imageWord, Function.update_self, Function.update_of_ne (by omega), Function.update_self,
        pairWord_highByte_lowByte, sdBuffDin, haddr, hq hgo.1.2]
      split_ifs with h128
      · rw [Nat.mod_eq_of_lt h128]
      · rfl
    · rw [imageWord, Function.update_of_ne (by omega), Function.update_of_ne (by omega),
        Function.update_of_ne (by omega), Function.update_of_ne (by omega)]
      exact hsa j (by omega)
  · rw [if_neg hgo]
    rw [Bool.not_eq_true] at hgo
    rw [hgo, Bool.toNat_false, Nat.add_zero] at hj
    exact hsa j hj

theorem saving (hs : Spares x) (hp : x.fsm.pst = .svDat) {w : ℕ} {held : Bool}
    (hd : x.dev = .save w held) (hw : w ≤ 256)
    (hq : held = true → x.fsm.pbufQ = x.fsm.pramBuf16 (w % 128)) (hcap : Captured x 256)
    (hc : x.Trusted → Sampled x w) : x.Goes k := by
  obtain ⟨hbuf, hnext⟩ := captured_save (k := k) hs (.inr hp) (by simp [hd]) hcap
  have hsa := sampled_next hp hd hq hbuf hc
  have hq' := pbufQ_next (.inr hp) hd hbuf
  have hpst : (x.step k).fsm.pst = .svDat := by
    simp [Machine.step, Pram.step, pstNext, hp, packFall, Machine.fsmIn, hd, Dev.ack]
  by_cases hlt : w < 256
  · by_cases hgo : (k.move.go && held) = true
    · exact .of (d := .save (w + 1) false) hpst (by simp [Machine.step, hd, Dev.step, hlt, hgo])
        (.saving (by omega) (by simp) hnext (by simpa [hlt, hgo] using hsa))
    · exact .of (d := .save w true) hpst (by simp [Machine.step, hd, Dev.step, hlt, hgo])
        (.saving hw (fun _ => hq') hnext (by simpa [hgo] using hsa))
  · obtain rfl : w = 256 := by omega
    cases hgo : k.move.go
    · exact .of (d := .save 256 held) hpst (by simp [Machine.step, hd, Dev.step, hgo])
        (.saving hw (fun _ => hq') hnext (by simpa [hgo] using hsa))
    · exact .of hpst (by simp [Machine.step, hd, Dev.step, hgo])
        (.saved (by rw [Machine.oldPack_step, hd]; rfl) hnext (by simpa using hsa))

theorem saved (h : Kept x) (hs : Spares x) (hp : x.fsm.pst = .svDat) (hd : x.dev = .idle)
    (ho : x.fsm.oldPack = true) (hcap : Captured x 256) (hc : x.Trusted → Sampled x 256) :
    x.Goes k := by
  obtain ⟨hbuf, hnext⟩ := captured_save (k := k) hs (.inr hp) (by simp [hd]) hcap
  have hpf : packFall x.fsm (x.fsmIn k) = true := by simp [packFall, ho, Machine.fsmIn, hd, Dev.ack]
  refine .of (p := if x.fsm.pramRstAfter then .rst else .idle)
    (by simp [Machine.step, Pram.step, pstNext, hp, hpf])
    (h.dev_next hd (by simp [hp]) (by simp [hp]))
    (.rest (by split_ifs <;> simp) fun ht _ => ?_)
  obtain ⟨htr, hm⟩ := ht.of_next (by simp [State.loadStart, hp])
  have him : (x.step k).image = x.image := Machine.image_next hm (by simp [hd])
  have hword : ∀ w < 256, imageWord (x.step k).image w =
      if w < 128 then (x.step k).fsm.pramBuf16 w else 0 := by
    rw [him, hbuf]
    exact hc htr
  constructor
  · intro j hj
    rw [byte_of_imageWord (x.step k).image j, hword _ (by omega), if_pos (show j / 2 < 128 by omega),
      hnext.words _ (by omega)]
    split_ifs with hodd
    · rw [highByte_pairWord, show 2 * (j / 2) + 1 = j by omega]
    · rw [lowByte_pairWord, show 2 * (j / 2) = j by omega]
  · intro _ j hj h256
    rw [byte_of_imageWord (x.step k).image j, hword _ (by omega),
      if_neg (show ¬ j / 2 < 128 by omega)]
    split_ifs <;> rfl

end Kept

/-! ### Along a run -/

theorem Kept.init (ram : ℕ → Byte) : Kept (.init ram) where
  stb := rfl
  rd := fun h => by cases h
  wrReq := fun h => by cases h
  ena := fun h => by cases h
  works := .rest (.inl rfl) fun h => by cases h.1

namespace Kept

theorem works_next (h : Kept x) (hs : Spares x) : x.Goes k := by
  have hw := h.works
  generalize hp : x.fsm.pst = p at hw
  generalize hd : x.dev = d at hw
  cases hw with
  | rest hr hc => exact h.rest (hp ▸ hr) hd hc
  | want hd' => exact h.want hp (hd ▸ hd')
  | loading hw hc => exact loading hp hd hw hc
  | loaded ho hc => exact h.loaded hp hd ho hc
  | copy hw he hc => exact h.copy hs hp hd hw he hc
  | copyLow hw he hq hc => exact h.copyLow hs hp hd hw he hq hc
  | copyHigh hw he hq hc => exact h.copyHigh hs hp hd hw he hq hc
  | fill hc he hcap => exact h.fill hs hp hd hc he hcap
  | fetch hc he ha hn hcap => exact h.fetch hs hp hd hc he ha hn hcap
  | pack hc he hq hcap => exact h.pack hs hp hd hc he hq hcap
  | clear hc he hcl => exact h.clear hs hp hd hc he hcl
  | request hd' hcap => exact h.request hs hp (hd ▸ hd') hcap
  | saving hw hq hcap hc => exact saving hs hp hd hw hq hcap hc
  | saved ho hcap hc => exact h.saved hs hp hd ho hcap hc

theorem rd_next (h : Kept x) (hr : (x.step k).fsm.pramRd = true) :
    (x.step k).fsm.pst = .ldRd := by
  change pramRdNext x.fsm (x.fsmIn k) = true at hr
  change pstNext x.fsm (x.fsmIn k) = .ldRd
  unfold pramRdNext at hr
  split_ifs at hr with hl ha
  · have hl' := hl
    simp only [State.loadStart, Bool.and_eq_true, beq_iff_eq, Bool.not_eq_true'] at hl'
    simp [pstNext, hl'.1.1, State.clrStart, hl'.1.2, hl]
  · have hp := h.rd hr
    simpa [pstNext, hp] using ha

theorem wrReq_next (h : Kept x) (hr : (x.step k).fsm.pramWrReq = true) :
    (x.step k).fsm.pst = .svWr := by
  change pramWrReqNext x.fsm (x.fsmIn k) = true at hr
  change pstNext x.fsm (x.fsmIn k) = .svWr
  unfold pramWrReqNext at hr
  split_ifs at hr with hp
  · rw [beq_iff_eq] at hp
    rw [Bool.not_eq_true'] at hr
    simp [pstNext, hp, hr]
  · exact absurd (beq_iff_eq.mpr (h.wrReq hr)) hp

theorem ena_next (h : Kept x) (ha : (x.step k).accepted = true) :
    (x.step k).fsm.pramEna = true := by
  change (if mountEdge x.fsm (x.fsmIn k) then (x.fsmIn k).sizeOk else x.accepted) = true at ha
  change pramEnaNext x.fsm (x.fsmIn k) = true
  unfold pramEnaNext
  split_ifs at ha ⊢ with hle hm
  · rfl
  · rfl
  · exact ha
  · exact h.ena ha

theorem step (h : Kept x) (hs : Spares x) : Kept (x.step k) where
  stb := rfl
  rd := h.rd_next
  wrReq := h.wrReq_next
  ena := h.ena_next
  works := h.works_next hs

/-- At rest the sector is what the parameter RAM is. -/
theorem inStep (h : Kept x) (hr : AtRest x) : InStep x := by
  have hw := h.works
  rw [hr.idle] at hw
  generalize x.dev = d at hw
  cases hw with
  | rest _ hc =>
    have hsy := hc ⟨hr.accepted, hr.noLoad⟩ hr.clean
    refine ⟨fun j hj => ?_, hsy.tail⟩
    rw [hsy.cells j hj, Machine.ram, hr.noStrobe]
    rfl

end Kept

/-- In a run in which the Mac spares the cells that a running load, save or clear has passed, the
image is in step with the parameter RAM whenever it is at rest. -/
theorem sector_eq {ram : ℕ → Byte} {u : ℕ → Turn} {t : ℕ}
    (hs : ∀ k < t, Spares (Machine.run ram u k)) (hr : AtRest (Machine.run ram u t)) :
    InStep (Machine.run ram u t) :=
  (Clocked.run_inv_of Machine.step (fun x _ (h : Kept x) (hs : Spares x) => h.step hs) (.init ram) u t
    hs).inStep hr

/-! ### Runs from power-up -/

instance (x : Machine) : Decidable (Spares x) := inferInstanceAs (Decidable (_ → _))

instance (x : Machine) : Decidable (AtRest x) :=
  decidable_of_iff (x.fsm.pst = .idle ∧ x.accepted = true ∧ x.fsm.pramDirty = false ∧
    x.fsm.pramLoadPending = false ∧ x.fsm.pramLoadWr = false)
    ⟨fun h => ⟨h.1, h.2.1, h.2.2.1, h.2.2.2.1, h.2.2.2.2⟩, fun h => ⟨h.1, h.2, h.3, h.4, h.5⟩⟩

/-- Mounts an image filled with `v`, writes 1 to cell 16 and opens the menu; a second write of cell
16, with 2, starts at clock `again`. The device goes on in every clock. -/
def writeTwice (v : Byte) (again : ℕ) (t : ℕ) (_ : Machine) : Turn :=
  let c := if t < again then t - 660 else t - again
  let byte : Byte := if c < 16 then 0x40 else if t < again then 1 else 2
  { reset := false
    timestamp := 0
    cs := decide (660 ≤ t) && decide (c < 32)
    ck := c % 2 == 0
    datI := byte.getLsbD (7 - c / 2 % 8)
    osdStatus := decide (700 ≤ t)
    imgMounted := t == 0
    imgSize := 512
    newImage := fun _ => v
    status15 := false
    move := ⟨true, 0, 0, false⟩ }

/-- One write of cell 16 and one save of an image filled with threes. -/
theorem sector_eq_once : ∃ (u : ℕ → Turn) (t : ℕ), (Machine.run (fun _ => 0) u t).rtc.pram 16 = 1 ∧
    (Machine.run (fun _ => 0) u t).saved = true ∧ InStep (Machine.run (fun _ => 0) u t) := by
  have hscan : scan Machine.step (writeTwice 3 2000) (fun x _ => decide (Spares x))
      (fun x => decide (AtRest x) && x.rtc.pram 16 == 1 && x.saved) 1995 0 (.init fun _ => 0) = true := by
    decide +kernel
  obtain ⟨hok, hfin⟩ := run_of_scan hscan
  rw [Bool.and_eq_true, Bool.and_eq_true, decide_eq_true_eq, beq_iff_eq] at hfin
  exact ⟨_, _, hfin.1.2, hfin.2, sector_eq (fun k hk => of_decide_eq_true (hok k hk)) hfin.1.1⟩

/-- `P_IDLE` with saving enabled, nothing unsaved and no flush pending. -/
def State.looksSaved (s : State) : Bool :=
  s.pst == .idle && s.pramEna && !s.pramDirty && !s.pramFlushPending

/-- A cell that is written after the save has passed it and before the save ends is lost: the end of
the save takes `pram_dirty` down. -/
theorem lost_update : ¬ ∀ (ram : ℕ → Byte) (u : ℕ → Turn) (t : ℕ),
    (Machine.run ram u t).fsm.looksSaved = true →
    (∀ j < 256, (Machine.run ram u t).image j = (Machine.run ram u t).rtc.pram j) ∧
      ∀ j < 512, 256 ≤ j → (Machine.run ram u t).image j = 0 := by
  intro hall
  have hscan : scan Machine.step (writeTwice 0 800) (fun _ _ => true)
      (fun x => x.fsm.looksSaved && x.image 16 != x.rtc.pram 16) 1995 0 (.init fun _ => 0) = true := by
    decide +kernel
  have hfin := (run_of_scan hscan).2
  rw [Bool.and_eq_true, bne_iff_ne] at hfin
  exact hfin.2 ((hall _ _ _ hfin.1).1 16 (by omega))

/-- Between a mount and the end of its load the state machine can look like one that has saved: before
the load starts, and in the clock after it, in which the last cell is written. What the image has
behind the first 256 bytes stays there. -/
theorem looksSaved_unloaded : ∃ (ram : ℕ → Byte) (u : ℕ → Turn),
    ((Machine.run ram u 1).fsm.looksSaved = true ∧
      (Machine.run ram u 1).image 0 ≠ (Machine.run ram u 1).rtc.pram 0) ∧
    ∃ t, (Machine.run ram u t).fsm.looksSaved = true ∧
      (Machine.run ram u t).image 255 ≠ (Machine.run ram u t).rtc.pram 255 ∧
      (Machine.run ram u t).image 300 ≠ 0 := by
  have hone : scan Machine.step (writeTwice 1 2000) (fun _ _ => true)
      (fun x => x.fsm.looksSaved && x.image 0 != x.rtc.pram 0) 1 0 (.init fun _ => 0) = true := by
    decide +kernel
  have hend : scan Machine.step (writeTwice 1 2000) (fun _ _ => true)
      (fun x => x.fsm.looksSaved && x.image 255 != x.rtc.pram 255 && x.image 300 != 0) 646 0
      (.init fun _ => 0) = true := by
    decide +kernel
  have h1 := (run_of_scan hone).2
  have h2 := (run_of_scan hend).2
  simp only [Bool.and_eq_true, bne_iff_ne] at h1 h2
  exact ⟨_, _, h1, _, h2.1.1, h2.1.2, h2.2⟩

end Pram
