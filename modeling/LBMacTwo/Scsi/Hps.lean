import LBMacTwo.Scsi.Target

/-!
# The HPS block device

The HPS side of the sector interface, as the environment of a target: it takes a request off
`io_rd` or `io_wr` whenever it looks at the wires, and answers it after any delay by one `io_ack`
window. A read window streams words `0, 1, …` of the sector named when the request was taken; a
write window sweeps `sd_buff_addr` and samples `sd_buff_din`. Every `HpsMove` is a legal behaviour:
moves that make no sense in the present state do nothing.
-/

namespace Scsi

inductive HpsOp
  | rd
  | wr
  deriving DecidableEq, Repr

/-- The state of the block device: at rest, with a request taken, or inside the `io_ack` window of
one, in which `words` words have been streamed. -/
inductive Hps
  | idle
  | posted (op : HpsOp) (lba : ℕ)
  | window (op : HpsOp) (lba words : ℕ)
  deriving DecidableEq, Repr

/-- The choices of the HPS in one clock: leave the present state, strobe a word, and what it drives
on the shared buffer bus when the word is not its own. -/
structure HpsMove where
  go : Bool
  strobe : Bool
  addr : ℕ
  data : Word

/-- The image, by sector and byte, and whether a read window may close before its 256th word. -/
structure Env where
  disk : ℕ → ℕ → Byte
  shortAcks : Bool

/-- Every sector is filled with its own number. -/
def Env.numbered (shortAcks : Bool) : Env := ⟨fun lba _ => BitVec.ofNat 8 lba, shortAcks⟩

/-- Word `w` of a sector as `sd_buff_dout` carries it. -/
def Env.diskWord (E : Env) (lba w : ℕ) : Word :=
  pairWord (E.disk lba (2 * w + 1)) (E.disk lba (2 * w))

def Hps.ack : Hps → Bool
  | .window _ _ _ => true
  | _ => false

@[simp] theorem Hps.ack_idle : Hps.idle.ack = false := rfl

@[simp] theorem Hps.ack_posted (op : HpsOp) (lba : ℕ) : (Hps.posted op lba).ack = false := rfl

@[simp] theorem Hps.ack_window (op : HpsOp) (lba w : ℕ) : (Hps.window op lba w).ack = true := rfl

def Hps.wr (h : Hps) (m : HpsMove) : Bool :=
  match h with
  | .window .rd _ w => m.strobe && decide (w < 256)
  | .window .wr _ _ => false
  | _ => m.strobe

def Hps.addr (h : Hps) (m : HpsMove) : ℕ :=
  match h with
  | .window .rd _ w => w
  | _ => m.addr

def Hps.dout (E : Env) (h : Hps) (m : HpsMove) : Word :=
  match h with
  | .window .rd lba w => E.diskWord lba w
  | _ => m.data

/-- The words a read window has carried by the end of the clock. -/
def Hps.wordsAfter (h : Hps) (m : HpsMove) : ℕ :=
  match h with
  | .window .rd _ w => w + (h.wr m).toNat
  | _ => 0

/-- The clock closes a read window that has carried fewer than 256 words. -/
def Hps.closesShort (E : Env) (h : Hps) (m : HpsMove) : Bool :=
  match h with
  | .window .rd _ _ => E.shortAcks && m.go && h.wordsAfter m != 256
  | _ => false

theorem Hps.closesShort_of_full {E : Env} (hE : E.shortAcks = false) (h : Hps) (m : HpsMove) :
    h.closesShort E m = false := by
  unfold Hps.closesShort
  split
  · rw [hE]
    rfl
  · rfl

/-- One clock of the HPS against the request wires of the target. -/
def Hps.step (E : Env) (h : Hps) (m : HpsMove) (ioRd ioWr : Bool) (ioLba : ℕ) : Hps :=
  match h with
  | .idle =>
      if m.go && ioRd then .posted .rd ioLba
      else if m.go && ioWr then .posted .wr ioLba
      else .idle
  | .posted op lba => if m.go then .window op lba 0 else .posted op lba
  | .window .rd lba _ =>
      if m.go && (E.shortAcks || h.wordsAfter m == 256) then .idle
      else .window .rd lba (h.wordsAfter m)
  | .window .wr lba w => if m.go then .idle else .window .wr lba w

/-- A read window has carried at most 256 words. -/
def Hps.Sane : Hps → Prop
  | .window .rd _ w => w ≤ 256
  | _ => True

theorem Hps.wordsAfter_le {lba w : ℕ} (hw : w ≤ 256) (m : HpsMove) :
    (Hps.window .rd lba w).wordsAfter m ≤ 256 := by
  change w + (m.strobe && decide (w < 256)).toNat ≤ 256
  by_cases hlt : w < 256
  · have := (m.strobe && decide (w < 256)).toNat_le
    omega
  · rw [decide_eq_false hlt, Bool.and_false]
    exact hw

theorem Hps.Sane.step {E : Env} {h : Hps} {m : HpsMove} {ioRd ioWr : Bool} {lba : ℕ}
    (hs : h.Sane) : (h.step E m ioRd ioWr lba).Sane := by
  match h with
  | .idle =>
    simp only [Hps.step]
    split_ifs <;> trivial
  | .posted op l =>
    simp only [Hps.step]
    split_ifs
    · cases op
      · exact Nat.zero_le 256
      · trivial
    · trivial
  | .window .rd l w =>
    simp only [Hps.step]
    split_ifs
    · trivial
    · exact Hps.wordsAfter_le hs m
  | .window .wr l w =>
    simp only [Hps.step]
    split_ifs <;> trivial

/-- What the initiator side drives on the wires of a target in one clock. -/
structure Bus where
  rst : Bool
  sel : Bool
  busBusy : Bool
  ack : Bool
  din : Byte
  imgMounted : Bool
  imgBlocks : ℕ
  dbgDmaWord : Bool
  dbgDmaLowbyte : Byte

/-- A target with its block device. -/
structure Sys where
  tgt : State
  hps : Hps

/-- `io_ack` as the target sees it: `ncr5380` masks it with the target's `bsy`. -/
def Sys.ioAck (x : Sys) : Bool := x.hps.ack && x.tgt.bsy

/-- The wires of the target in a clock; `io_ack` and `sd_buff_wr` are masked with its `bsy`. -/
def Sys.input (E : Env) (x : Sys) (b : Bus) (m : HpsMove) : In where
  rst := b.rst
  sel := b.sel
  busBusy := b.busBusy
  ack := b.ack
  din := b.din
  imgMounted := b.imgMounted
  imgBlocks := b.imgBlocks
  ioAck := x.ioAck
  sdBuffAddr := x.hps.addr m
  sdBuffDout := x.hps.dout E m
  sdBuffWr := x.hps.wr m && x.tgt.bsy
  dbgDmaWord := b.dbgDmaWord
  dbgDmaLowbyte := b.dbgDmaLowbyte

/-- One clock of a target and its block device. -/
def Sys.step (P : Params) (E : Env) (x : Sys) (b : Bus) (m : HpsMove) : Sys where
  tgt := Scsi.step P x.tgt (x.input E b m)
  hps := x.hps.step E m x.tgt.ioRd x.tgt.ioWr x.tgt.lba

end Scsi
