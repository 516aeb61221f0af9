import LBMacTwo.Floppy.Mfm
import LBMacTwo.Foundation.Schedule

/-!
# A revolution of the MFM track

* `revolution`: the bytes of a System/34 track, written out field by field;
* `MfmEncoder.Inv`: where the encoder's offset and CRC stand, kept by every pulse;
* `bytes_revolution`: from the start of a revolution the encoder emits it, and is back at the start.
-/

namespace Floppy
open Schedule

section Format

variable (h : Head) (image : ℕ → Byte)

/-- Sectors of a track. -/
def Head.spt (h : Head) : ℕ := if h.hd then 18 else 9

/-- The image byte at `k` of sector `s`. -/
def payloadByte (s k : ℕ) : Byte := image ((h.trackSide * h.spt + s) * 512 + k)

/-- The image bytes of sector `s`. -/
def payload (s : ℕ) : List Byte := (List.range 512).map (payloadByte h image s)

/-- Bytes that carry no flag. -/
def plain (bs : List Byte) : List MfmByte := bs.map fun b => ⟨b, false, false⟩

def sync : List MfmByte := plain (List.replicate 12 0x00) ++ List.replicate 3 ⟨0xA1, true, false⟩

/-- A field and its CRC. -/
def field (bs : List Byte) : List MfmByte :=
  plain bs ++ [⟨highByte (Crc.ofBytes crcPoly crcSeed bs), false, false⟩,
    ⟨lowByte (Crc.ofBytes crcPoly crcSeed bs), false, true⟩]

/-- The bytes `C`, `H`, `R`, `N` of sector `s`. -/
def idBytes (s : ℕ) : List Byte :=
  [h.track.setWidth 8, (BitVec.ofBool h.side).setWidth 8, BitVec.ofNat 8 (s + 1), 2]

def sectorBytes (s : ℕ) : List MfmByte :=
  sync ++ field (0xFE :: idBytes h s) ++ plain (List.replicate 22 0x4E) ++
    sync ++ field (0xFB :: payload h image s) ++ plain (List.replicate 108 0x4E)

/-- The gap of the index, the index mark and its gap. -/
def preamble : List MfmByte :=
  plain (List.replicate 80 0x4E) ++ plain (List.replicate 12 0x00) ++
    plain [0xC2, 0xC2, 0xC2, 0xFC] ++ plain (List.replicate 50 0x4E)

/-- The bytes of a track. -/
def revolution : List MfmByte :=
  preamble ++ (List.range h.spt).flatMap (sectorBytes h image)

end Format

/-! ### The schedule of a revolution -/

section Spots

variable (h : Head)

/-- The state and the sector that follow. -/
def MfmState.nextIn (p : MfmState × ℕ) : MfmState × ℕ :=
  if p.1 = .gap3 then if p.2 = h.sptMax then (.preGap, 0) else (.idSync, p.2 + 1)
  else (p.1.next, p.2)

/-- The states of a sector. -/
def sectorStates (s : ℕ) : List (MfmState × ℕ) :=
  [(.idSync, s), (.idA1, s), (.idAm, s), (.idChrn, s), (.idCrc, s), (.gap2, s), (.daSync, s),
    (.daA1, s), (.daAm, s), (.data, s), (.daCrc, s), (.gap3, s)]

/-- The number of pulses of a revolution. -/
def Head.pulses : ℕ := 146 + 682 * h.spt

variable {h}

theorem spt_eq : h.spt = h.sptMax + 1 := by
  unfold Head.spt Head.sptMax
  split_ifs <;> rfl

theorem iterate_sector (s : ℕ) :
    List.iterate (MfmState.nextIn h) (.idSync, s) 12 = sectorStates s := by
  simp [List.iterate, MfmState.nextIn, MfmState.next, sectorStates]

theorem nextIn_sector (s : ℕ) :
    (MfmState.nextIn h)^[12] (.idSync, s) =
      if s = h.sptMax then (.preGap, 0) else (.idSync, s + 1) := by
  simp [MfmState.nextIn, MfmState.next]

theorem nextIn_preamble :
    List.iterate (MfmState.nextIn h) (.preGap, 0) 4 =
        [(.preGap, 0), (.preSync, 0), (.preIam, 0), (.preGap1, 0)] ∧
      (MfmState.nextIn h)^[4] (.preGap, 0) = (.idSync, 0) := by
  simp [List.iterate, MfmState.nextIn, MfmState.next]

theorem iterate_sectors (n s : ℕ) (hn : s + n = h.spt) :
    List.iterate (MfmState.nextIn h) (.idSync, s) (12 * n) =
      (List.range' s n).flatMap sectorStates := by
  induction n generalizing s with
  | zero => rfl
  | succ n ih =>
    rw [Nat.mul_succ, Nat.add_comm, List.iterate_add, iterate_sector, nextIn_sector,
      List.range'_succ, List.flatMap_cons]
    congr 1
    by_cases hs : s = h.sptMax
    · have hn' : n = 0 := by
        rw [spt_eq] at hn
        omega
      rw [hn']
      rfl
    · rw [if_neg hs]
      exact ih (s + 1) (by omega)

theorem nextIn_sectors (n s : ℕ) (hn : s + (n + 1) = h.spt) :
    (MfmState.nextIn h)^[12 * (n + 1)] (.idSync, s) = (.preGap, 0) := by
  induction n generalizing s with
  | zero =>
    have hs : s = h.sptMax := by
      rw [spt_eq] at hn
      omega
    rw [nextIn_sector, if_pos hs]
  | succ n ih =>
    have hs : s ≠ h.sptMax := by
      rw [spt_eq] at hn
      omega
    rw [Nat.mul_succ, Function.iterate_add_apply, nextIn_sector, if_neg hs]
    exact ih (s + 1) (by omega)

/-- The states of a revolution. -/
theorem iterate_revolution :
    List.iterate (MfmState.nextIn h) (.preGap, 0) (4 + 12 * h.spt) =
      [(.preGap, 0), (.preSync, 0), (.preIam, 0), (.preGap1, 0)] ++
        (List.range h.spt).flatMap sectorStates := by
  rw [List.iterate_add, nextIn_preamble.1, nextIn_preamble.2, iterate_sectors h.spt 0 (by omega),
    List.range_eq_range']

theorem nextIn_revolution :
    (MfmState.nextIn h)^[4 + 12 * h.spt] (.preGap, 0) = (.preGap, 0) := by
  rw [Nat.add_comm, Function.iterate_add_apply, nextIn_preamble.2, spt_eq]
  exact nextIn_sectors h.sptMax 0 (by rw [spt_eq, Nat.zero_add])

theorem ticks_revolution :
    ticks (fun p : MfmState × ℕ => p.1.lenM1) (MfmState.nextIn h) (.preGap, 0) (4 + 12 * h.spt) =
      h.pulses := by
  have hsector : ∀ s, ((sectorStates s).map fun p => p.1.lenM1 + 1).sum = 682 := by
    intro s
    simp [sectorStates, MfmState.lenM1]
  rw [ticks, iterate_revolution, List.map_append, List.sum_append, List.map_flatMap,
    List.flatMap_def, List.sum_flatten, List.map_map]
  simp only [Function.comp_def, hsector, List.map_const', List.sum_replicate, List.length_range,
    smul_eq_mul, Head.pulses, Nat.mul_comm]
  rfl

end Spots

/-! ### What the encoder emits -/

section Bytes

variable (h : Head) (image : ℕ → Byte)

/-- The byte of a tick of the schedule. -/
def spotByte (p : (MfmState × ℕ) × ℕ) : MfmByte :=
  match p.1.1 with
  | .preSync | .idSync | .daSync => ⟨0x00, false, false⟩
  | .preGap | .preGap1 | .gap2 | .gap3 => ⟨0x4E, false, false⟩
  | .preIam => ⟨if p.2 = 3 then 0xFC else 0xC2, false, false⟩
  | .idA1 | .daA1 => ⟨0xA1, true, false⟩
  | .idAm => ⟨0xFE, false, false⟩
  | .daAm => ⟨0xFB, false, false⟩
  | .idChrn => ⟨(idBytes h p.1.2).getD p.2 2, false, false⟩
  | .data => ⟨payloadByte h image p.1.2 p.2, false, false⟩
  | .idCrc => (field (0xFE :: idBytes h p.1.2)).getD (5 + p.2) ⟨0, false, false⟩
  | .daCrc => (field (0xFB :: payload h image p.1.2)).getD (513 + p.2) ⟨0, false, false⟩

theorem map_stint (st : MfmState) (s : ℕ) :
    (stint (fun p : MfmState × ℕ => p.1.lenM1) (st, s)).map (spotByte h image) =
      (List.range (st.lenM1 + 1)).map fun k => spotByte h image ((st, s), k) := by
  rw [stint, List.map_map]
  rfl

theorem plain_replicate (n : ℕ) (b : Byte) :
    plain (List.replicate n b) = List.replicate n ⟨b, false, false⟩ := List.map_replicate

theorem plain_cons (b : Byte) (bs : List Byte) : plain (b :: bs) = [⟨b, false, false⟩] ++ plain bs :=
  rfl

theorem plain_append (bs cs : List Byte) : plain (bs ++ cs) = plain bs ++ plain cs :=
  List.map_append

@[simp] theorem length_plain (bs : List Byte) : (plain bs).length = bs.length := List.length_map _

@[simp] theorem length_payload (s : ℕ) : (payload h image s).length = 512 := by simp [payload]

theorem field_crc (bs : List Byte) :
    (List.range 2).map (fun k => (field bs).getD (bs.length + k) ⟨0, false, false⟩) =
      [⟨highByte (Crc.ofBytes crcPoly crcSeed bs), false, false⟩,
        ⟨lowByte (Crc.ofBytes crcPoly crcSeed bs), false, true⟩] := by
  have hlen : (plain bs).length = bs.length := length_plain bs
  simp only [List.range_succ, List.range_zero, List.nil_append, List.map_cons, List.map_nil,
    List.cons_append, field, List.getD_eq_getElem?_getD]
  rw [List.getElem?_append_right (by omega), List.getElem?_append_right (by omega), hlen]
  simp

/-- The states of a sector emit its bytes. -/
theorem map_sectorStates (s : ℕ) :
    ((sectorStates s).flatMap (stint fun p => p.1.lenM1)).map (spotByte h image) =
      sectorBytes h image s := by
  have hid := field_crc (0xFE :: idBytes h s)
  have hda := field_crc (0xFB :: payload h image s)
  have hlen : (0xFE :: idBytes h s).length = 5 := rfl
  have hlen' : (0xFB :: payload h image s).length = 513 := by simp
  rw [hlen] at hid
  rw [hlen'] at hda
  have hgap : ∀ (st : MfmState) (b : MfmByte), (∀ k, spotByte h image ((st, s), k) = b) →
      (stint (fun p : MfmState × ℕ => p.1.lenM1) (st, s)).map (spotByte h image) =
        List.replicate (st.lenM1 + 1) b := by
    intro st b hb
    rw [map_stint]
    simp only [hb, List.map_const', List.length_range]
  have hdata : (stint (fun p : MfmState × ℕ => p.1.lenM1) (.data, s)).map (spotByte h image) =
      plain (payload h image s) := by
    rw [map_stint, plain, payload, List.map_map]
    rfl
  have hchrn : (stint (fun p : MfmState × ℕ => p.1.lenM1) (.idChrn, s)).map (spotByte h image) =
      plain (idBytes h s) := by
    rw [map_stint]
    rfl
  have hidCrc := (map_stint h image .idCrc s).trans hid
  have hdaCrc := (map_stint h image .daCrc s).trans hda
  simp only [sectorStates, List.flatMap_cons, List.flatMap_nil, List.map_append, List.append_nil]
  rw [hgap .idSync ⟨0x00, false, false⟩ fun _ => rfl, hgap .idA1 ⟨0xA1, true, false⟩ fun _ => rfl,
    hgap .idAm ⟨0xFE, false, false⟩ fun _ => rfl, hgap .gap2 ⟨0x4E, false, false⟩ fun _ => rfl,
    hgap .daSync ⟨0x00, false, false⟩ fun _ => rfl, hgap .daA1 ⟨0xA1, true, false⟩ fun _ => rfl,
    hgap .daAm ⟨0xFB, false, false⟩ fun _ => rfl, hgap .gap3 ⟨0x4E, false, false⟩ fun _ => rfl,
    hdata, hchrn, hidCrc, hdaCrc]
  simp only [sectorBytes, sync, field, plain_replicate, plain_cons, List.append_assoc,
    MfmState.lenM1, Nat.reduceAdd, List.replicate_one]

theorem map_preamble :
    ([(.preGap, 0), (.preSync, 0), (.preIam, 0), (.preGap1, 0)].flatMap
      (stint fun p : MfmState × ℕ => p.1.lenM1)).map (spotByte h image) = preamble := by
  have hgap : ∀ (st : MfmState) (b : MfmByte), (∀ k, spotByte h image ((st, 0), k) = b) →
      (stint (fun p : MfmState × ℕ => p.1.lenM1) (st, 0)).map (spotByte h image) =
        List.replicate (st.lenM1 + 1) b := by
    intro st b hb
    rw [map_stint]
    simp only [hb, List.map_const', List.length_range]
  have hiam : (stint (fun p : MfmState × ℕ => p.1.lenM1) (.preIam, 0)).map (spotByte h image) =
      plain [0xC2, 0xC2, 0xC2, 0xFC] := by
    rw [map_stint]
    rfl
  simp only [List.flatMap_cons, List.flatMap_nil, List.map_append, List.append_nil]
  rw [hgap .preGap ⟨0x4E, false, false⟩ fun _ => rfl, hgap .preSync ⟨0x00, false, false⟩ fun _ => rfl,
    hgap .preGap1 ⟨0x4E, false, false⟩ fun _ => rfl, hiam]
  simp only [preamble, plain_replicate, List.append_assoc, MfmState.lenM1, Nat.reduceAdd]

/-- The ticks of a revolution, byte for byte. -/
theorem map_revolution :
    (List.iterate (tick (fun p : MfmState × ℕ => p.1.lenM1) (MfmState.nextIn h))
      ((.preGap, 0), 0) h.pulses).map (spotByte h image) = revolution h image := by
  rw [← ticks_revolution, iterate_stints, iterate_revolution, List.flatMap_append, List.map_append,
    map_preamble, revolution]
  congr 1
  rw [List.flatMap_assoc, List.map_flatMap]
  apply List.flatMap_congr
  intro s _
  exact map_sectorStates h image s

end Bytes

/-! ### The registers behind the schedule -/

namespace MfmEncoder

variable (h : Head) (image : ℕ → Byte) (e : MfmEncoder)

/-- A pulse of `ready` with the image byte on `idata`. -/
def pulse : MfmEncoder := e.advance h (image (e.addr h))

/-- The byte taken by a pulse. -/
def taken : MfmByte := e.out h (image (e.addr h))

/-- The bytes taken by `n` pulses. -/
def bytes (n : ℕ) : List MfmByte := (List.iterate (pulse h image) e n).map (taken h image)

/-- The tick of the schedule the encoder stands on. -/
def spot : (MfmState × ℕ) × ℕ := ((e.state, e.sector), e.cnt)

/-- The CRC of the bytes of the field so far. -/
def CrcAt (st : MfmState) (s k : ℕ) (crc : BitVec 16) : Prop :=
  match st with
  | .idAm | .daAm => crc = crcSeed
  | .idChrn => crc = Crc.ofBytes crcPoly crcSeed (0xFE :: (idBytes h s).take k)
  | .idCrc => crc = Crc.ofBytes crcPoly crcSeed (0xFE :: idBytes h s)
  | .data => crc = Crc.ofBytes crcPoly crcSeed (0xFB :: (payload h image s).take k)
  | .daCrc => crc = Crc.ofBytes crcPoly crcSeed (0xFB :: payload h image s)
  | _ => True

/-- The registers of an encoder under a head at rest. -/
structure Inv : Prop where
  cnt_le : e.cnt ≤ e.state.lenM1
  sector_le : e.sector ≤ h.sptMax
  src : e.state = .data → e.srcOffset = e.cnt
  crc : CrcAt h image e.state e.sector e.cnt e.crc

variable {h image e}

theorem sectorBlock_eq (hs : e.sector ≤ h.sptMax) :
    e.sectorBlock h = h.trackSide * h.spt + e.sector := by
  have htrack : h.trackSide < 2 ^ 8 := by
    have := h.track.isLt
    have := Bool.toNat_lt h.side
    unfold Head.trackSide
    omega
  unfold sectorBlock Head.spt
  unfold Head.sptMax at hs
  split_ifs at hs ⊢ <;> omega

/-- The byte on `idata` within a payload. -/
theorem image_addr (hi : Inv h image e) (hst : e.state = .data) :
    image (e.addr h) = payloadByte h image e.sector e.cnt := by
  rw [addr, sectorBlock_eq hi.sector_le, hi.src hst]
  rfl

theorem taken_eq (hi : Inv h image e) : e.taken h image = spotByte h image e.spot := by
  have hcnt := hi.cnt_le
  have hcrc := hi.crc
  have haddr := image_addr hi
  obtain ⟨st, k, s, src, c⟩ := e
  cases st
  case idChrn =>
    have hk : k = 0 ∨ k = 1 ∨ k = 2 ∨ k = 3 := by
      change k ≤ 3 at hcnt
      omega
    have hs : (s + 1) % 2 ^ 5 = s + 1 := by
      have := hi.sector_le
      change s ≤ h.sptMax at this
      unfold Head.sptMax at this
      split_ifs at this <;> omega
    rcases hk with rfl | rfl | rfl | rfl
    · rfl
    · rfl
    · change MfmByte.mk (BitVec.ofNat 8 ((s + 1) % 2 ^ 5)) _ _ = _
      rw [hs]
      rfl
    · rfl
  case idCrc =>
    have hk : k = 0 ∨ k = 1 := by
      change k ≤ 1 at hcnt
      omega
    change c = _ at hcrc
    rcases hk with rfl | rfl <;> rw [hcrc] <;> rfl
  case data =>
    change MfmByte.mk (image _) _ _ = _
    rw [haddr rfl]
    rfl
  case daCrc =>
    have hk : k = 0 ∨ k = 1 := by
      change k ≤ 1 at hcnt
      omega
    change c = _ at hcrc
    have hcrcs := field_crc (0xFB :: payload h image s)
    have hlen : (0xFB :: payload h image s).length = 513 := by simp
    rw [hlen] at hcrcs
    simp only [List.range_succ, List.range_zero, List.nil_append, List.map_cons, List.map_nil,
      List.cons_append, List.cons.injEq, and_true] at hcrcs
    rcases hk with rfl | rfl
    · change MfmByte.mk (highByte c) false false =
        (field (0xFB :: payload h image s)).getD (513 + 0) ⟨0, false, false⟩
      rw [hcrcs.1, hcrc]
    · change MfmByte.mk (lowByte c) false true =
        (field (0xFB :: payload h image s)).getD (513 + 1) ⟨0, false, false⟩
      rw [hcrcs.2, hcrc]
  all_goals rfl

theorem spot_pulse (hi : Inv h image e) :
    (e.pulse h image).spot =
      tick (fun p : MfmState × ℕ => p.1.lenM1) (MfmState.nextIn h) e.spot := by
  have hcnt := hi.cnt_le
  have hlen : e.state.lenM1 < 512 := by cases e.state <;> decide
  have hsector : (e.sector + 1) % 2 ^ 5 = e.sector + 1 := by
    have := hi.sector_le
    unfold Head.sptMax at this
    split_ifs at this <;> omega
  unfold spot tick MfmState.nextIn pulse advance
  by_cases hend : e.cnt = e.state.lenM1
  · by_cases hgap : e.state = .gap3
    · by_cases hs : e.sector = h.sptMax
      · simp only [hend, hgap, hs, if_true, and_self]
      · simp only [hend, hgap, hs, if_true, and_self, if_false, hsector]
    · simp only [hend, hgap, if_true, if_false, and_false]
  · have hmod : (e.cnt + 1) % 2 ^ 10 = e.cnt + 1 := Nat.mod_eq_of_lt (by omega)
    simp only [hend, if_false, false_and, hmod]

theorem payload_take (s : ℕ) {k : ℕ} (hk : k < 512) :
    (payload h image s).take (k + 1) =
      (payload h image s).take k ++ [payloadByte h image s k] := by
  rw [List.take_add_one, payload, List.getElem?_map, List.getElem?_range hk]
  rfl

theorem pulse_mid (hi : Inv h image e) (hne : e.cnt ≠ e.state.lenM1) :
    (e.pulse h image).state = e.state ∧ (e.pulse h image).sector = e.sector ∧
      (e.pulse h image).cnt = e.cnt + 1 := by
  have hspot := spot_pulse hi
  have hne' : ¬ e.spot.2 = e.spot.1.1.lenM1 := hne
  rw [tick, if_neg hne'] at hspot
  simp only [spot, Prod.mk.injEq] at hspot
  exact ⟨hspot.1.1, hspot.1.2, hspot.2⟩

theorem pulse_end (hi : Inv h image e) (hend : e.cnt = e.state.lenM1) (hgap : e.state ≠ .gap3) :
    (e.pulse h image).state = e.state.next ∧ (e.pulse h image).sector = e.sector ∧
      (e.pulse h image).cnt = 0 := by
  have hspot := spot_pulse hi
  have hend' : e.spot.2 = e.spot.1.1.lenM1 := hend
  have hgap' : ¬ e.spot.1.1 = .gap3 := hgap
  rw [tick, if_pos hend', MfmState.nextIn, if_neg hgap'] at hspot
  simp only [spot, Prod.mk.injEq] at hspot
  exact ⟨hspot.1.1, hspot.1.2, hspot.2⟩

/-- After the last gap comes another ID field or another revolution. -/
theorem pulse_gap3 (hend : e.cnt = e.state.lenM1) (hgap : e.state = .gap3) :
    (e.pulse h image).state = .preGap ∨ (e.pulse h image).state = .idSync := by
  have hst : (e.pulse h image).state =
      if e.cnt = e.state.lenM1 then
        if e.state = .gap3 then if e.sector = h.sptMax then .preGap else .idSync
        else e.state.next
      else e.state := rfl
  rw [hst, if_pos hend, if_pos hgap]
  by_cases hs : e.sector = h.sptMax
  · exact .inl (if_pos hs)
  · exact .inr (if_neg hs)

theorem pulse_crc_of_field (hst : e.state = .idAm ∨ e.state = .idChrn ∨ e.state = .daAm ∨
    e.state = .data) :
    (e.pulse h image).crc = Crc.byte crcPoly e.crc (e.taken h image).data := by
  change e.crcNext h _ = _
  rw [crcNext, if_neg, if_pos hst]
  · rfl
  · rintro ⟨hst', -⟩
    rcases hst with h | h | h | h <;> rw [h] at hst' <;> simp at hst'

theorem pulse_crc_of_crc (hst : e.state = .idCrc ∨ e.state = .daCrc) :
    (e.pulse h image).crc = e.crc := by
  change e.crcNext h _ = _
  rw [crcNext, if_neg, if_neg]
  · rcases hst with h | h <;> rw [h] <;> simp
  · rcases hst with h | h <;> rw [h] <;> simp

theorem idBytes_take (s : ℕ) {k : ℕ} (hk : k ≤ 3) :
    (idBytes h s).take (k + 1) = (idBytes h s).take k ++ [(idBytes h s).getD k 2] := by
  have hcases : k = 0 ∨ k = 1 ∨ k = 2 ∨ k = 3 := by omega
  rcases hcases with rfl | rfl | rfl | rfl <;> rfl

/-- A CRC takes one more byte of its field. -/
theorem crc_take {mark : Byte} {bs : List Byte} {k : ℕ} {b : Byte}
    (hb : bs.take (k + 1) = bs.take k ++ [b]) :
    Crc.byte crcPoly (Crc.ofBytes crcPoly crcSeed (mark :: bs.take k)) b =
      Crc.ofBytes crcPoly crcSeed (mark :: bs.take (k + 1)) := by
  rw [hb, ← Crc.ofBytes_concat]
  rfl

/-- The CRC goes on with the field. -/
theorem crcAt_pulse (hi : Inv h image e) :
    CrcAt h image (e.pulse h image).state (e.pulse h image).sector (e.pulse h image).cnt
      (e.pulse h image).crc := by
  have hcnt := hi.cnt_le
  have hcrc := hi.crc
  have htaken := congrArg MfmByte.data (taken_eq hi)
  have hfield := @pulse_crc_of_field h image e
  have hkeep := @pulse_crc_of_crc h image e
  unfold spotByte spot at htaken
  by_cases hend : e.cnt = e.state.lenM1
  · by_cases hgap : e.state = .gap3
    · rcases @pulse_gap3 h image e hend hgap with hst | hst <;> rw [hst] <;> trivial
    obtain ⟨hst', hs', hk'⟩ := pulse_end hi hend hgap
    rw [hst', hs', hk']
    cases hst : e.state
    case gap3 => exact absurd hst hgap
    case idA1 =>
      change (e.pulse h image).crc = crcSeed
      rw [hst] at hend
      exact if_pos ⟨.inl hst, hend⟩
    case daA1 =>
      change (e.pulse h image).crc = crcSeed
      rw [hst] at hend
      exact if_pos ⟨.inr hst, hend⟩
    case idAm =>
      rw [hst] at hcrc htaken
      change (e.pulse h image).crc = _
      rw [hfield (.inl hst), htaken, show e.crc = crcSeed from hcrc]
      exact (Crc.ofBytes_singleton _ _ _).symm
    case daAm =>
      rw [hst] at hcrc htaken
      change (e.pulse h image).crc = _
      rw [hfield (.inr (.inr (.inl hst))), htaken, show e.crc = crcSeed from hcrc]
      exact (Crc.ofBytes_singleton _ _ _).symm
    case idChrn =>
      rw [hst] at hcrc htaken hend
      have hk : e.cnt = 3 := hend
      change (e.pulse h image).crc = _
      rw [hfield (.inr (.inl hst)), htaken, show e.crc = _ from hcrc]
      change Crc.byte crcPoly _ ((idBytes h e.sector).getD e.cnt 2) = _
      rw [crc_take (idBytes_take e.sector (by omega)), hk]
      rfl
    case data =>
      rw [hst] at hcrc htaken hend
      have hk : e.cnt = 511 := hend
      change (e.pulse h image).crc = _
      rw [hfield (.inr (.inr (.inr hst))), htaken, show e.crc = _ from hcrc]
      change Crc.byte crcPoly _ (payloadByte h image e.sector e.cnt) = _
      rw [crc_take (payload_take e.sector (by omega)), List.take_of_length_le]
      rw [length_payload, hk]
    all_goals trivial
  · obtain ⟨hst', hs', hk'⟩ := pulse_mid hi hend
    rw [hst', hs', hk']
    cases hst : e.state
    case idAm =>
      rw [hst] at hend hcnt
      exact absurd (Nat.le_zero.mp hcnt) hend
    case daAm =>
      rw [hst] at hend hcnt
      exact absurd (Nat.le_zero.mp hcnt) hend
    case idChrn =>
      rw [hst] at hcrc htaken hcnt
      have hk : e.cnt ≤ 3 := hcnt
      change (e.pulse h image).crc = _
      rw [hfield (.inr (.inl hst)), htaken, show e.crc = _ from hcrc]
      exact crc_take (idBytes_take e.sector (by omega))
    case data =>
      rw [hst] at hcrc htaken hcnt hend
      have hk : e.cnt ≤ 511 := hcnt
      have hk' : e.cnt ≠ 511 := hend
      change (e.pulse h image).crc = _
      rw [hfield (.inr (.inr (.inr hst))), htaken, show e.crc = _ from hcrc]
      exact crc_take (payload_take e.sector (by omega))
    case idCrc =>
      rw [hst] at hcrc
      change (e.pulse h image).crc = _
      rw [hkeep (.inl hst)]
      exact hcrc
    case daCrc =>
      rw [hst] at hcrc
      change (e.pulse h image).crc = _
      rw [hkeep (.inr hst)]
      exact hcrc
    all_goals trivial

/-- The offset counts the bytes of the payload. -/
theorem srcOffset_pulse (hi : Inv h image e) (hdata : (e.pulse h image).state = .data) :
    (e.pulse h image).srcOffset = (e.pulse h image).cnt := by
  have hsrc' : (e.pulse h image).srcOffset =
      if e.state = .data then (e.srcOffset + 1) % 2 ^ 9 else 0 := rfl
  have hcnt := hi.cnt_le
  by_cases hend : e.cnt = e.state.lenM1
  · by_cases hgap : e.state = .gap3
    · rcases @pulse_gap3 h image e hend hgap with hst | hst <;> rw [hst] at hdata <;>
        cases hdata
    · obtain ⟨hst', -, hk'⟩ := pulse_end hi hend hgap
      have hne : e.state ≠ .data := by
        intro hst
        rw [hst', hst] at hdata
        cases hdata
      rw [hsrc', hk', if_neg hne]
  · obtain ⟨hst', -, hk'⟩ := pulse_mid hi hend
    rw [hst'] at hdata
    rw [hdata] at hend hcnt
    have hle : e.cnt ≤ 511 := hcnt
    have hne : e.cnt ≠ 511 := hend
    rw [hsrc', hk', if_pos hdata, hi.src hdata]
    omega

theorem Inv.pulse (hi : Inv h image e) : Inv h image (e.pulse h image) := by
  have hcnt := hi.cnt_le
  have hsector := hi.sector_le
  refine ⟨?_, ?_, srcOffset_pulse hi, crcAt_pulse hi⟩
  · have hk : (e.pulse h image).cnt = if e.cnt = e.state.lenM1 then 0 else (e.cnt + 1) % 2 ^ 10 :=
      rfl
    by_cases hend : e.cnt = e.state.lenM1
    · rw [hk, if_pos hend]
      exact Nat.zero_le _
    · obtain ⟨hst', -, hk'⟩ := pulse_mid hi hend
      rw [hst', hk']
      omega
  · have hs : (e.pulse h image).sector =
        (tick (fun p : MfmState × ℕ => p.1.lenM1) (MfmState.nextIn h) e.spot).1.2 := by
      rw [← spot_pulse hi]
      rfl
    rw [hs]
    unfold tick spot MfmState.nextIn
    split_ifs with hend hgap hs
    · exact Nat.zero_le _
    · have hne : e.sector ≠ h.sptMax := hs
      change e.sector + 1 ≤ h.sptMax
      omega
    · exact hsector
    · exact hsector

/-- The encoder at the start of a revolution. -/
structure Start (e : MfmEncoder) : Prop where
  state : e.state = .preGap
  cnt : e.cnt = 0
  sector : e.sector = 0

theorem Start.inv (hs : Start e) : Inv h image e where
  cnt_le := by rw [hs.cnt]; exact Nat.zero_le _
  sector_le := by rw [hs.sector]; exact Nat.zero_le _
  src hd := absurd hd (by rw [hs.state]; decide)
  crc := by
    rw [hs.state]
    trivial

theorem iterate_pulse (hi : Inv h image e) (n : ℕ) :
    Inv h image ((MfmEncoder.pulse h image)^[n] e) ∧
      ((MfmEncoder.pulse h image)^[n] e).spot =
        (tick (fun p : MfmState × ℕ => p.1.lenM1) (MfmState.nextIn h))^[n] e.spot := by
  induction n with
  | zero => exact ⟨hi, rfl⟩
  | succ n ih =>
    rw [Function.iterate_succ_apply', Function.iterate_succ_apply', ← ih.2]
    exact ⟨ih.1.pulse, spot_pulse ih.1⟩

theorem bytes_eq (hi : Inv h image e) (n : ℕ) :
    e.bytes h image n =
      (List.iterate (tick (fun p : MfmState × ℕ => p.1.lenM1) (MfmState.nextIn h)) e.spot n).map
        (spotByte h image) := by
  rw [bytes, ← List.range_map_iterate, ← List.range_map_iterate, List.map_map, List.map_map]
  apply List.map_congr_left
  intro k _
  have hk := iterate_pulse hi k
  change taken h image ((MfmEncoder.pulse h image)^[k] e) = spotByte h image
    ((tick (fun p : MfmState × ℕ => p.1.lenM1) (MfmState.nextIn h))^[k] e.spot)
  rw [← hk.2]
  exact taken_eq hk.1

/-- From the start of a revolution the encoder emits the track, and is back at the start. -/
theorem bytes_revolution (hs : Start e) :
    e.bytes h image h.pulses = revolution h image ∧
      Start ((MfmEncoder.pulse h image)^[h.pulses] e) := by
  have hspot : e.spot = ((.preGap, 0), 0) := by rw [spot, hs.state, hs.sector, hs.cnt]
  refine ⟨?_, ?_⟩
  · rw [bytes_eq hs.inv, hspot, map_revolution]
  · have hend := (@iterate_pulse h image e hs.inv h.pulses).2
    rw [hspot, ← ticks_revolution, tick_stints, nextIn_revolution, ticks_revolution] at hend
    simp only [spot, Prod.mk.injEq] at hend
    exact ⟨hend.1.1, hend.2, hend.1.2⟩

end MfmEncoder

end Floppy
