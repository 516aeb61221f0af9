import LBMacTwo.Swim.ReadPath
import LBMacTwo.Foundation.Crc

/-!
# The CRC verdict of the handshake register

* `ValidField`: the words of an MFM field that ends with a CRC of 0;
* `handshake_verdict`: b1 is about the newest entry of the FIFO;
* `verdict_iff`: sampled before the last word of a field is popped, b1 is clear exactly if that word
  is the newest entry or the entry behind it completes a field;
* `gap_verdict`: a field read correctly, with the next byte of the gap behind its last word.
-/

namespace Swim
open Clocked

variable {s : State} {i : In} {u : ℕ → In} {t : ℕ}

/-- The word of a sync mark. -/
def syncMark : FifoWord := ⟨0xA1, true, false, false⟩

/-- A valid MFM field: three sync marks and data whose CRC is 0; the drive flags the last word. -/
structure ValidField (f : List FifoWord) : Prop where
  sync : f.take 3 = List.replicate 3 syncMark
  data : ∀ w ∈ f.drop 3, w.mark = false
  crc : Crc.ofBytes 0x1021 0xFFFF (f.map FifoWord.data) = 0
  flags : f.map FifoWord.crc0 = List.replicate (f.length - 1) false ++ [true]

/-- The last word of a valid field. -/
theorem ValidField.last {f : List FifoWord} (h : ValidField f) :
    ∃ g w, f = g ++ [w] ∧ w.crc0 = true := by
  have hne : f ≠ [] := by
    rintro rfl
    exact absurd h.flags (by decide)
  obtain ⟨g, w, rfl⟩ := (List.eq_nil_or_concat' f).resolve_left hne
  refine ⟨g, w, rfl, ?_⟩
  have hflags := h.flags
  rw [List.map_append] at hflags
  exact List.singleton_inj.mp (List.append_inj_right' hflags rfl)

/-- In read mode b7 says that there is a word, b1 that the newest does not complete a field. -/
theorem handshake_verdict (hread : s.ismModeReg.getLsbD 4 = false) :
    (handshake s i).getLsbD 7 = (s.ismFifoPos != 0) ∧
      (handshake s i).getLsbD 1 = (s.ismFifoPos != 0 && !s.newest.crc0) := by
  have hbits : ∀ a b c d e f, (packByte a b c false d false e f).getLsbD 7 = a ∧
      (packByte a b c false d false e f).getLsbD 1 = e := by decide
  unfold handshake
  rw [hread, if_neg Bool.false_ne_true, if_neg Bool.false_ne_true]
  exact hbits ..

/-- The newest entry of the FIFO is its last. -/
theorem fifo_newest (hpos : s.ismFifoPos ≤ 2) (h0 : s.ismFifoPos ≠ 0) :
    s.fifo = [s.newest] ∧ s.ismFifoPos = 1 ∨
      s.fifo = [s.ismFifo0, s.newest] ∧ s.ismFifoPos = 2 := by
  obtain hone | htwo : s.ismFifoPos = 1 ∨ s.ismFifoPos = 2 := by omega
  · exact .inl ⟨by simp [State.fifo, State.newest, hone], hone⟩
  · exact .inr ⟨by simp [State.fifo, State.newest, htwo], htwo⟩

/-- In every window after a read-arm, whatever the timing of the deliveries and of the pops: a
sample taken when the last word of a valid field is the next to pop has b1 clear exactly if no later
word has entered the FIFO, or the one that has completes a field itself. -/
theorem verdict_iff (harm : s.armEdge = true) (hw : Window (step s i) u t)
    (hread : (run step (step s i) u t).ismModeReg.getLsbD 4 = false)
    (havail : (handshake (run step (step s i) u t) (u t)).getLsbD 7 = true)
    {before field after : List FifoWord} (hfield : ValidField field)
    (hkept : kept (step s i) u t = before ++ field ++ after)
    (hlast : (popped (step s i) u t).length + 1 = (before ++ field).length) :
    (handshake (run step (step s i) u t) (u t)).getLsbD 1 = false ↔
      (run step (step s i) u t).ismFifoPos = 1 ∨ ∃ w, after.head? = some w ∧ w.crc0 = true := by
  obtain ⟨h0, hfifo, hsync⟩ := queue_of_armEdge (i := i) harm
  obtain ⟨r, hq, hqueue, -⟩ := window_inv h0 hfifo hsync hw
  obtain ⟨havail', hverdict⟩ := @handshake_verdict _ (u t) hread
  rw [havail', bne_iff_ne] at havail
  obtain ⟨g, w, rfl, hcrc0⟩ := hfield.last
  -- the queue starts with the last word of the field
  have hnext : (run step (step s i) u t).fifo ++ r = w :: after := by
    rw [hkept, ← List.append_assoc before, List.append_assoc _ [w]] at hqueue
    have hlen : (popped (step s i) u t).length = (before ++ g).length := by
      simp only [List.length_append, List.length_singleton] at hlast ⊢
      omega
    exact List.append_inj_right hqueue hlen
  rw [hverdict, bne_iff_ne.mpr havail, Bool.true_and, Bool.not_eq_false']
  rcases fifo_newest hq.pos havail with ⟨hone, hpos⟩ | ⟨htwo, hpos⟩
  · rw [hone, List.singleton_append, List.cons.injEq] at hnext
    rw [hnext.1]
    exact iff_of_true hcrc0 (.inl hpos)
  · rw [htwo, List.cons_append, List.singleton_append, List.cons.injEq] at hnext
    rw [hpos, ← hnext.2, List.head?_cons]
    simp

/-! ### An ID field -/

/-- The ID field of cylinder 0, side 0, sector 1. -/
def idField : List FifoWord :=
  [syncMark, syncMark, syncMark, ⟨0xFE, false, false, false⟩, ⟨0, false, false, false⟩,
    ⟨0, false, false, false⟩, ⟨1, false, false, false⟩, ⟨2, false, false, false⟩,
    ⟨0xCA, false, false, false⟩, ⟨0x6F, false, false, true⟩]

def gapWord : FifoWord := ⟨0x4E, false, false, false⟩

theorem validField_idField : ValidField idField := ⟨rfl, by decide, by decide +kernel, rfl⟩

/-- The CPU samples the handshake register in clock 2 and reads the mark register in clock 4. -/
def poll (k : ℕ) : In := if k = 2 then readReg 7 else if k = 4 then readReg 1 else idle

/-- The field and the gap behind it, a word every five clocks; the CPU pops each before the next can
be popped, but the last word of the field `late` clocks later than that. -/
def polled (late k : ℕ) : In :=
  let i := if k < 45 then poll (k % 5) else poll (k - 45 - late)
  if k % 5 = 0 then
    ((idField ++ [gapWord])[k / 5]?).elim i fun w =>
      { i with int := ⟨true, w.data, w.mark, w.crc0, 0, false⟩ }
  else i

theorem verdict_prompt :
    kept (step armed idle) (polled 0) 47 = idField ∧
      (handshake (run step (step armed idle) (polled 0) 47) (polled 0 47)).getLsbD 1 = false := by
  have hw : Window (step armed idle) (polled 0) 47 := ⟨by decide +kernel, by decide +kernel⟩
  have hkept : kept (step armed idle) (polled 0) 47 = [] ++ idField ++ [] := by decide +kernel
  have hverdict := (verdict_iff (by decide +kernel) hw (by decide +kernel) (by decide +kernel)
    validField_idField hkept (by decide +kernel)).mpr (.inl (by decide +kernel))
  exact ⟨hkept, hverdict⟩

/-- Nothing is lost, and every word is popped after a sample that showed it; but when the last word
is sampled the gap has come into the FIFO behind it. -/
theorem gap_verdict :
    armed.armEdge = true ∧ Window (step armed idle) (polled 5) 56 ∧
      (∀ k < 56, poppedNow (run step (step armed idle) (polled 5) k) (polled 5 k) ≠ [] →
        3 ≤ k ∧ (polled 5 (k - 3)).cpuAddrRegHi = 7 ∧
          (dataOut (run step (step armed idle) (polled 5) (k - 3)) (polled 5 (k - 3))).getLsbD 7) ∧
      ValidField idField ∧
      kept (step armed idle) (polled 5) 52 = idField ++ [gapWord] ∧
      popped (step armed idle) (polled 5) 52 = idField.take 9 ∧
      popped (step armed idle) (polled 5) 56 = idField ∧
      (run step (step armed idle) (polled 5) 56).ismError = 0 ∧
      (dataOut (run step (step armed idle) (polled 5) 52) (polled 5 52)).getLsbD 1 = true :=
  ⟨by decide +kernel, ⟨by decide +kernel, by decide +kernel⟩, by decide +kernel,
    validField_idField, by decide +kernel, by decide +kernel, by decide +kernel, by decide +kernel,
    by decide +kernel⟩

end Swim
