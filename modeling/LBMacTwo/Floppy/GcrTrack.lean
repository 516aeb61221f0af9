import LBMacTwo.Floppy.GcrPayload
import LBMacTwo.Foundation.Schedule

/-!
# The sectors of a GCR track

* `gcrSector`: the disk bytes of a sector, written out field by field;
* `sectorOrder`: the order of the sectors, which meets each of them once;
* `GcrEncoder.Inv`: where the encoder's offset and nibbler stand, kept by every pulse;
* `odata_eq`: what the encoder puts on the wires is the byte of its tick of the schedule.
-/

namespace Floppy
open Schedule Clocked
open Gcr (Sums Nibble)

/-! ### The format -/

section Format

variable (h : GcrHead) (image : ℕ → Byte)

/-- The sectors of a track: one less every sixteen tracks. -/
def sectorsOn (track : ℕ) : ℕ := 12 - track / 16

/-- The sectors of a side before a track. -/
def sectorsBefore (track : ℕ) : ℕ := ((List.range track).map sectorsOn).sum

/-- The first sector of the track in the image: both sides of a track lie together. -/
def GcrHead.firstSector : ℕ :=
  (if h.sides then 2 else 1) * sectorsBefore h.track.toNat +
    if h.side then sectorsOn h.track.toNat else 0

/-- The image byte at `k` of sector `s`. -/
def gcrByte (s k : ℕ) : Byte := image ((h.firstSector + s) * 512 + k)

/-- The image bytes of sector `s`. -/
def gcrPayload (s : ℕ) : List Byte := (List.range 512).map (gcrByte h image s)

/-- The tag bytes and the payload of a data field. -/
def gcrField (s : ℕ) : List Byte := List.replicate 12 0 ++ gcrPayload h image s

/-- The format number: a disk of one or two sides, interleaved by two. -/
def GcrHead.formatNumber : ℕ := if h.sides then 0x22 else 0x02

/-- The numbers of an address field: the track in two digits, with the side above the second, between
them the sector, then the format. -/
def addressDigits (s : ℕ) : List ℕ :=
  [h.track.toNat % 64, s, h.track.toNat / 64 + 32 * h.side.toNat, h.formatNumber]

/-- The nibbles of an address field; the last is the sum of the others without carries. -/
def addressNibbles (s : ℕ) : List Nibble :=
  (addressDigits h s ++ [(addressDigits h s).foldl (· ^^^ ·) 0]).map (BitVec.ofNat 6)

/-- The nibbles of a data field and its checksum. -/
def dataNibbles (s : ℕ) : List Nibble :=
  BitVec.ofNat 6 s :: (Gcr.encode Sums.zero (gcrField h image s) ++
    Gcr.check (Gcr.total Sums.zero (gcrField h image s)))

/-- The disk bytes of sector `s`. -/
def gcrSector (s : ℕ) : List Byte :=
  List.replicate 56 0xFF ++ [0xD5, 0xAA, 0x96] ++ (addressNibbles h s).map sonyToDiskByte ++
    [0xDE, 0xAA] ++ List.replicate 5 0xFF ++ [0xD5, 0xAA, 0xAD] ++
    (dataNibbles h image s).map sonyToDiskByte ++ [0xDE, 0xAA, 0xFF, 0xFF]

theorem sptOf_eq : ∀ t < 80, sptOf t = sectorsOn t := by decide

/-- The encoder multiplies out the sectors of the tracks before. -/
theorem soffOf_eq : ∀ t < 80, soffOf t = sectorsBefore t := by decide

/-- The encoder's digits of the track, with the side. -/
theorem trackDigits_eq : h.trackLow = BitVec.ofNat 6 (h.track.toNat % 64) ∧
    h.trackHi = BitVec.ofNat 6 (h.track.toNat / 64 + 32 * h.side.toNat) := by
  have hdigits : ∀ (side : Bool) (track : BitVec 7),
      track.setWidth 6 = BitVec.ofNat 6 (track.toNat % 64) ∧
        (BitVec.ofBool side ++ (0 : BitVec 4)) ++ track.extractLsb' 6 1 =
          BitVec.ofNat 6 (track.toNat / 64 + 32 * side.toNat) := by
    decide
  exact hdigits h.side h.track

theorem format_eq : h.format = BitVec.ofNat 6 h.formatNumber := by
  unfold GcrHead.format GcrHead.formatNumber
  cases h.sides <;> rfl

/-- The address field of the encoder. -/
theorem addressNibbles_eq (s : ℕ) :
    addressNibbles h s = [h.trackLow, secInTr s, h.trackHi, h.format, h.checksum s] := by
  have hxor : ∀ a b : ℕ, BitVec.ofNat 6 (a ^^^ b) = BitVec.ofNat 6 a ^^^ BitVec.ofNat 6 b :=
    fun a b => BitVec.ofNat_xor
  rw [GcrHead.checksum, format_eq, (trackDigits_eq h).1, (trackDigits_eq h).2]
  simp only [addressNibbles, addressDigits, List.cons_append, List.nil_append, List.foldl_cons,
    List.foldl_nil, Nat.zero_xor, List.map_cons, List.map_nil, hxor, secInTr]

end Format

/-! ### The order of the sectors -/

/-- The sectors met from `s` on. -/
def sectorOrder (spt s : ℕ) : List ℕ := List.iterate (GcrEncoder.nextSector spt) s spt

theorem sptOf_cases (t : ℕ) : sptOf t = 8 ∨ sptOf t = 9 ∨ sptOf t = 10 ∨ sptOf t = 11 ∨
    sptOf t = 12 := by
  unfold sptOf
  split <;> simp

theorem sectorOrder_perm {spt s : ℕ}
    (h : spt = 8 ∨ spt = 9 ∨ spt = 10 ∨ spt = 11 ∨ spt = 12) (hs : s < spt) :
    (sectorOrder spt s).Perm (List.range spt) := by
  rcases h with rfl | rfl | rfl | rfl | rfl
  all_goals
    revert s
    decide

theorem nextSector_cycle {spt s : ℕ}
    (h : spt = 8 ∨ spt = 9 ∨ spt = 10 ∨ spt = 11 ∨ spt = 12) (hs : s < spt) :
    (GcrEncoder.nextSector spt)^[spt] s = s ∧ GcrEncoder.nextSector spt s < spt := by
  rcases h with rfl | rfl | rfl | rfl | rfl
  all_goals
    revert s
    decide

/-! ### The schedule of the sectors -/

section Spots

/-- The state and the sector that follow. -/
def GcrState.nextIn (spt : ℕ) (p : GcrState × ℕ) : GcrState × ℕ :=
  (p.1.next, if p.1 = .wait then GcrEncoder.nextSector spt p.2 else p.2)

/-- The states of a sector. -/
def gcrStates (s : ℕ) : List (GcrState × ℕ) :=
  [(.syn0, s), (.addr, s), (.syn1, s), (.dhdr, s), (.dzro, s), (.dpre, s), (.data, s), (.dsum, s),
    (.dtrl, s), (.wait, s)]

variable {spt : ℕ}

theorem iterate_gcrSector (s : ℕ) :
    List.iterate (GcrState.nextIn spt) (.syn0, s) 10 = gcrStates s := by
  simp [List.iterate, GcrState.nextIn, GcrState.next, gcrStates]

theorem nextIn_gcrSector (s : ℕ) :
    (GcrState.nextIn spt)^[10] (.syn0, s) = (.syn0, GcrEncoder.nextSector spt s) := by
  simp [GcrState.nextIn, GcrState.next]

theorem iterate_gcrSectors (n s : ℕ) :
    List.iterate (GcrState.nextIn spt) (.syn0, s) (10 * n) =
      (List.iterate (GcrEncoder.nextSector spt) s n).flatMap gcrStates := by
  induction n generalizing s with
  | zero => rfl
  | succ n ih =>
    rw [Nat.mul_succ, Nat.add_comm, List.iterate_add, iterate_gcrSector, nextIn_gcrSector, ih,
      List.iterate, List.flatMap_cons]

theorem nextIn_gcrSectors (n s : ℕ) :
    (GcrState.nextIn spt)^[10 * n] (.syn0, s) =
      (.syn0, (GcrEncoder.nextSector spt)^[n] s) := by
  induction n generalizing s with
  | zero => rfl
  | succ n ih =>
    rw [Nat.mul_succ, Function.iterate_add_apply, nextIn_gcrSector, ih, Function.iterate_succ_apply]

theorem ticks_gcrSectors (n s : ℕ) :
    ticks (fun p : GcrState × ℕ => p.1.lenM1) (GcrState.nextIn spt) (.syn0, s) (10 * n) =
      782 * n := by
  have hsector : ∀ s, ((gcrStates s).map fun p => p.1.lenM1 + 1).sum = 782 := by
    intro s
    simp [gcrStates, GcrState.lenM1]
  rw [ticks, iterate_gcrSectors, List.map_flatMap, List.flatMap_def, List.sum_flatten, List.map_map]
  simp only [Function.comp_def, hsector, List.map_const', List.sum_replicate, List.length_iterate,
    smul_eq_mul, Nat.mul_comm]

end Spots

/-! ### What the encoder emits -/

section Bytes

variable (h : GcrHead) (image : ℕ → Byte)

/-- The disk bytes of an address field, as the encoder puts them together. -/
def addressBytes (s : ℕ) : List Byte :=
  [0xD5, 0xAA, 0x96] ++
    [h.trackLow, secInTr s, h.trackHi, h.format, h.checksum s].map sonyToDiskByte ++ [0xDE, 0xAA]

/-- The byte of a tick of the schedule. -/
def gcrSpotByte (p : (GcrState × ℕ) × ℕ) : Byte :=
  match p.1.1 with
  | .syn0 | .syn1 | .wait => 0xFF
  | .addr => (addressBytes h p.1.2).getD p.2 0xFF
  | .dhdr => [0xD5, 0xAA, 0xAD, sonyToDiskByte (secInTr p.1.2)].getD p.2 0xFF
  | .dzro | .dpre => sonyToDiskByte 0
  | .data => sonyToDiskByte (nibbleAt (gcrByte h image p.1.2) (4 + p.2))
  | .dsum =>
    ((Gcr.check (sumsAt (gcrByte h image p.1.2) 683)).map sonyToDiskByte).getD p.2 0xFF
  | .dtrl => [0xDE, 0xAA, 0xFF].getD p.2 0xFF

/-- The tags are zeros, and leave the registers at zero. -/
theorem encode_tags (bs : List Byte) :
    Gcr.encode Sums.zero (List.replicate 12 0 ++ bs) =
        List.replicate 16 0 ++ Gcr.encode Sums.zero bs ∧
      Gcr.total Sums.zero (List.replicate 12 0 ++ bs) = Gcr.total Sums.zero bs := by
  have hgroup : Sums.zero.group 0 0 0 = Sums.zero := by decide
  have hnibbles : Gcr.nibbles ((0 : Byte) ^^^ Sums.zero.mask1) (0 ^^^ (Sums.zero.first 0).c3)
      (0 ^^^ ((Sums.zero.first 0).second 0).c2) = [0, 0, 0, 0] := by decide
  simp only [List.replicate, List.cons_append, List.nil_append, Gcr.encode, Gcr.total, hgroup,
    hnibbles, and_self]

theorem dataNibbles_eq (s : ℕ) :
    dataNibbles h image s = [secInTr s] ++ List.replicate 16 0 ++
      (List.range' 4 683).map (nibbleAt (gcrByte h image s)) ++
        Gcr.check (sumsAt (gcrByte h image s) 683) := by
  obtain ⟨hencode, htotal⟩ := @encode_payload (gcrByte h image s) 170 0 rfl
  have hpayload : (List.range' (3 * 0) (3 * 170 + 2)).map (gcrByte h image s) =
      gcrPayload h image s := by
    rw [gcrPayload, List.range_eq_range']
  have hzero : sumsAt (gcrByte h image s) (4 * 0) = Sums.zero := rfl
  rw [hpayload, hzero] at hencode htotal
  rw [dataNibbles, gcrField, (encode_tags _).1, (encode_tags _).2, htotal, ← hencode]
  rfl

theorem map_gcrStint (st : GcrState) (s : ℕ) :
    (stint (fun p : GcrState × ℕ => p.1.lenM1) (st, s)).map (gcrSpotByte h image) =
      (List.range (st.lenM1 + 1)).map fun k => gcrSpotByte h image ((st, s), k) := by
  rw [stint, List.map_map]
  rfl

/-- The states of a sector emit its bytes. -/
theorem map_gcrStates (s : ℕ) :
    ((gcrStates s).flatMap (stint fun p => p.1.lenM1)).map (gcrSpotByte h image) =
      gcrSector h image s := by
  have hgap : ∀ (st : GcrState) (b : Byte), (∀ k, gcrSpotByte h image ((st, s), k) = b) →
      (stint (fun p : GcrState × ℕ => p.1.lenM1) (st, s)).map (gcrSpotByte h image) =
        List.replicate (st.lenM1 + 1) b := by
    intro st b hb
    rw [map_gcrStint]
    simp only [hb, List.map_const', List.length_range]
  have haddr : (stint (fun p : GcrState × ℕ => p.1.lenM1) (.addr, s)).map (gcrSpotByte h image) =
      addressBytes h s := by
    rw [map_gcrStint]
    rfl
  have hdhdr : (stint (fun p : GcrState × ℕ => p.1.lenM1) (.dhdr, s)).map (gcrSpotByte h image) =
      [0xD5, 0xAA, 0xAD] ++ [secInTr s].map sonyToDiskByte := by
    rw [map_gcrStint]
    rfl
  have hdata : (stint (fun p : GcrState × ℕ => p.1.lenM1) (.data, s)).map (gcrSpotByte h image) =
      ((List.range' 4 683).map (nibbleAt (gcrByte h image s))).map sonyToDiskByte := by
    rw [map_gcrStint, List.map_map, List.range'_eq_map_range, List.map_map]
    rfl
  have hdsum : (stint (fun p : GcrState × ℕ => p.1.lenM1) (.dsum, s)).map (gcrSpotByte h image) =
      (Gcr.check (sumsAt (gcrByte h image s) 683)).map sonyToDiskByte := by
    rw [map_gcrStint]
    rfl
  have hdtrl : (stint (fun p : GcrState × ℕ => p.1.lenM1) (.dtrl, s)).map (gcrSpotByte h image) =
      [0xDE, 0xAA, 0xFF] := by
    rw [map_gcrStint]
    rfl
  simp only [gcrStates, List.flatMap_cons, List.flatMap_nil, List.map_append, List.append_nil]
  rw [hgap .syn0 0xFF fun _ => rfl, hgap .syn1 0xFF fun _ => rfl,
    hgap .dzro (sonyToDiskByte 0) fun _ => rfl, hgap .dpre (sonyToDiskByte 0) fun _ => rfl,
    hgap .wait 0xFF fun _ => rfl, haddr, hdhdr, hdata, hdsum, hdtrl]
  have htags : ∀ b : Byte, List.replicate 16 b =
      List.replicate (GcrState.dzro.lenM1 + 1) b ++ List.replicate (GcrState.dpre.lenM1 + 1) b :=
    fun _ => rfl
  have htrl : ([0xDE, 0xAA, 0xFF, 0xFF] : List Byte) =
      [0xDE, 0xAA, 0xFF] ++ List.replicate (GcrState.wait.lenM1 + 1) 0xFF := rfl
  rw [gcrSector, addressNibbles_eq, dataNibbles_eq, addressBytes, htrl]
  simp only [List.map_append, List.map_replicate, htags, List.append_assoc, GcrState.lenM1,
    Nat.reduceAdd]

/-- The ticks of `n` sectors, byte for byte. -/
theorem map_gcrSectors (n s : ℕ) :
    (List.iterate (tick (fun p : GcrState × ℕ => p.1.lenM1) (GcrState.nextIn h.spt))
      ((.syn0, s), 0) (782 * n)).map (gcrSpotByte h image) =
        (List.iterate (GcrEncoder.nextSector h.spt) s n).flatMap (gcrSector h image) := by
  rw [← @ticks_gcrSectors h.spt n s, iterate_stints, iterate_gcrSectors, List.flatMap_assoc,
    List.map_flatMap]
  apply List.flatMap_congr
  intro s _
  exact map_gcrStates h image s

end Bytes

/-! ### The registers behind the schedule -/

namespace GcrEncoder

variable (h : GcrHead) (image : ℕ → Byte) (e : GcrEncoder)

/-- A pulse of `ready` with the image byte at `fetch` on `idata`. -/
def pulse : GcrEncoder := e.advance h (image (e.fetch h))

/-- The tick of the schedule the encoder stands on. -/
def spot : (GcrState × ℕ) × ℕ := ((e.state, e.sector), e.count)

/-- The offset of the next byte to be fetched. -/
def SrcAt (st : GcrState) (k src : ℕ) : Prop :=
  match st with
  | .dpre => src = fetched k % 512
  | .data => src = fetched (4 + k) % 512
  | .dsum | .dtrl | .wait => True
  | _ => src = 0

/-- The nibbler under a payload of the bytes `b`. -/
def NibblerAt (b : ℕ → Byte) (st : GcrState) (k : ℕ) (n : Nibbler) (latch : Byte) : Prop :=
  match st with
  | .dzro => n = Nibbler.reset
  | .dpre => Fill b k n latch
  | .data => Fill b (4 + k) n latch
  | .dsum => n.sums = sumsAt b 683
  | _ => True

/-- The registers of an encoder under a head at rest. -/
structure Inv : Prop where
  count_le : e.count ≤ e.state.lenM1
  sector_lt : e.sector < 16
  src : SrcAt e.state e.count e.srcOffset
  nibbler : NibblerAt (gcrByte h image e.sector) e.state e.count e.nibbler e.dataLatch

variable {h image e}

theorem spot_pulse (hi : Inv h image e) :
    (e.pulse h image).spot =
      tick (fun p : GcrState × ℕ => p.1.lenM1) (GcrState.nextIn h.spt) e.spot := by
  have hcount := hi.count_le
  have hlen : e.state.lenM1 < 683 := by cases e.state <;> decide
  have hwait : e.state = .wait → e.count = e.state.lenM1 := by
    intro hst
    rw [hst] at hcount ⊢
    exact Nat.le_zero.mp hcount
  unfold spot tick GcrState.nextIn pulse advance
  by_cases hend : e.count = e.state.lenM1
  · simp only [hend, true_or, if_true]
  · have hst : e.state ≠ .wait := mt hwait hend
    have hmod : (e.count + 1) % 2 ^ 10 = e.count + 1 := Nat.mod_eq_of_lt (by omega)
    simp only [hend, hst, or_self, if_false, hmod]

theorem pulse_mid (hi : Inv h image e) (hne : e.count ≠ e.state.lenM1) :
    (e.pulse h image).state = e.state ∧ (e.pulse h image).sector = e.sector ∧
      (e.pulse h image).count = e.count + 1 := by
  have hspot := spot_pulse hi
  have hne' : ¬ e.spot.2 = e.spot.1.1.lenM1 := hne
  rw [tick, if_neg hne'] at hspot
  simp only [spot, Prod.mk.injEq] at hspot
  exact ⟨hspot.1.1, hspot.1.2, hspot.2⟩

theorem pulse_end (hi : Inv h image e) (hend : e.count = e.state.lenM1) :
    (e.pulse h image).state = e.state.next ∧
      (e.state ≠ .wait → (e.pulse h image).sector = e.sector) ∧ (e.pulse h image).count = 0 := by
  have hspot := spot_pulse hi
  have hend' : e.spot.2 = e.spot.1.1.lenM1 := hend
  rw [tick, if_pos hend', GcrState.nextIn] at hspot
  simp only [spot, Prod.mk.injEq] at hspot
  exact ⟨hspot.1.1, fun hst => hspot.1.2.trans (if_neg hst), hspot.2⟩

/-- The number of sectors before a track of the disk. -/
theorem sectorsBefore_le : ∀ t < 80, sectorsBefore t ≤ 800 := by decide

/-- The address of a byte of the sector. -/
theorem fetch_eq (ht : h.track.toNat < 80) (hs : e.sector < 16) (hsrc : e.srcOffset < 512) :
    e.fetch h = (h.firstSector + e.sector) * 512 + e.srcOffset := by
  have hbefore := sectorsBefore_le h.track.toNat ht
  have hspt : h.spt = sectorsOn h.track.toNat := sptOf_eq h.track.toNat ht
  have hon : sectorsOn h.track.toNat ≤ 12 := Nat.sub_le ..
  unfold fetch GcrHead.firstSector GcrHead.soff
  rw [soffOf_eq h.track.toNat ht, hspt]
  split_ifs <;> omega

/-- The encoder stands on place `q` of the payload. -/
def At (e : GcrEncoder) (q : ℕ) : Prop :=
  e.state = .dpre ∧ e.count = q ∨ e.state = .data ∧ 4 + e.count = q

theorem At.fill {q : ℕ} (hi : Inv h image e) (hq : At e q) :
    q < 687 ∧ e.srcOffset = fetched q % 512 ∧
      Fill (gcrByte h image e.sector) q e.nibbler e.dataLatch := by
  have hcount := hi.count_le
  have hsrc := hi.src
  have hnib := hi.nibbler
  rcases hq with ⟨hst, rfl⟩ | ⟨hst, rfl⟩
  · rw [hst] at hcount hsrc hnib
    have hle : e.count ≤ 3 := hcount
    exact ⟨by omega, hsrc, hnib⟩
  · rw [hst] at hcount hsrc hnib
    have hle : e.count ≤ 682 := hcount
    exact ⟨by omega, hsrc, hnib⟩

theorem At.strobe_eq {q : ℕ} (hi : Inv h image e) (hq : At e q) :
    e.strobe = decide (q < 682 ∧ q % 4 ≠ 3) := by
  have hcnt := (hq.fill hi).2.2.cnt
  rw [Bool.eq_iff_iff]
  simp only [strobe, Bool.and_eq_true, Bool.or_eq_true, beq_iff_eq, bne_iff_ne, decide_eq_true_eq]
  rcases hq with ⟨hst, rfl⟩ | ⟨hst, rfl⟩
  · have hcount := hi.count_le
    rw [hst] at hcount ⊢
    have hle : e.count ≤ 3 := hcount
    simp only [true_or, true_and, hcnt]
    omega
  · rw [hst]
    simp only [hcnt, reduceCtorEq, false_or, true_and]
    omega

/-- A pulse in the payload takes the byte of its place, and goes on to the next. -/
theorem At.pulse {q : ℕ} (hi : Inv h image e) (ht : h.track.toNat < 80) (hq : At e q) :
    (e.pulse h image).srcOffset = fetched (q + 1) % 512 ∧
      Fill (gcrByte h image e.sector) (q + 1) (e.pulse h image).nibbler
        (e.pulse h image).dataLatch := by
  obtain ⟨hlt, hsrc, hfill⟩ := hq.fill hi
  have hstrobe := hq.strobe_eq hi
  have hst : e.state ≠ .wait ∧ e.state ≠ .dhdr ∧ (e.state = .dpre ∨ e.state = .data) := by
    rcases hq with ⟨hst, -⟩ | ⟨hst, -⟩ <;> rw [hst] <;> decide
  have hcount : e.count < 679 ↔ q < 683 := by
    rcases hq with ⟨hst, rfl⟩ | ⟨hst, rfl⟩
    · have hle := hi.count_le
      rw [hst] at hle
      have hle' : e.count ≤ 3 := hle
      omega
    · omega
  have hsrc' : (e.pulse h image).srcOffset = if e.state = .wait then 0 else
      if e.strobe then (e.srcOffset + 1) % 2 ^ 9 else e.srcOffset := rfl
  have hlatch' : (e.pulse h image).dataLatch =
      if e.strobe then image (e.fetch h) else e.dataLatch := rfl
  have hnib' : (e.pulse h image).nibbler = if e.state = .dhdr then Nibbler.reset else
      if e.state = .dpre ∨ e.state = .data then e.nibbler.advance e.dataLatch e.count
      else e.nibbler := rfl
  rw [hsrc', hlatch', hnib', if_neg hst.1, if_neg hst.2.1, if_pos hst.2.2]
  refine ⟨?_, hfill.advance hlt hcount ?_⟩
  · by_cases hs : q < 682 ∧ q % 4 ≠ 3
    · rw [hstrobe, decide_eq_true hs, if_pos rfl, hsrc]
      unfold fetched
      omega
    · rw [hstrobe, decide_eq_false hs, if_neg Bool.false_ne_true, hsrc]
      unfold fetched
      omega
  · intro hq1 hq2
    have hoff : fetched q % 512 = 3 * (q / 4) + q % 4 := by
      unfold fetched
      omega
    rw [hstrobe, decide_eq_true ⟨hq1, hq2⟩, if_pos rfl, fetch_eq ht hi.sector_lt (by omega), hsrc,
      hoff]
    rfl

theorem pulse_srcOffset (hst : e.state ≠ .dpre) (hst' : e.state ≠ .data) (hw : e.state ≠ .wait) :
    (e.pulse h image).srcOffset = e.srcOffset := by
  have hstrobe : e.strobe = false := by simp [strobe, hst, hst']
  change (if e.state = .wait then 0 else if e.strobe then (e.srcOffset + 1) % 2 ^ 9
    else e.srcOffset) = _
  rw [if_neg hw, hstrobe, if_neg Bool.false_ne_true]

theorem pulse_nibbler (hst : e.state ≠ .dpre) (hst' : e.state ≠ .data) :
    (e.pulse h image).nibbler = if e.state = .dhdr then Nibbler.reset else e.nibbler := by
  change (if e.state = .dhdr then Nibbler.reset else if e.state = .dpre ∨ e.state = .data then
    e.nibbler.advance e.dataLatch e.count else e.nibbler) = _
  rw [if_neg (not_or.mpr ⟨hst, hst'⟩)]

theorem srcAt_pulse (hi : Inv h image e) (ht : h.track.toNat < 80) :
    SrcAt (e.pulse h image).state (e.pulse h image).count (e.pulse h image).srcOffset := by
  have hsrc := hi.src
  by_cases hend : e.count = e.state.lenM1
  · obtain ⟨hst', -, hk'⟩ := pulse_end hi hend
    rw [hst', hk']
    cases hst : e.state
    case dpre =>
      rw [hst] at hend
      exact (At.pulse hi ht (q := 3) (.inl ⟨hst, hend⟩)).1
    case dsum => trivial
    case dtrl => trivial
    case data => trivial
    case wait =>
      change (if e.state = .wait then 0 else if e.strobe then (e.srcOffset + 1) % 2 ^ 9
        else e.srcOffset) = 0
      rw [if_pos hst]
    all_goals
      rw [hst] at hsrc
      change (e.pulse h image).srcOffset = 0
      rw [pulse_srcOffset (by rw [hst]; decide) (by rw [hst]; decide) (by rw [hst]; decide)]
      exact hsrc
  · obtain ⟨hst', -, hk'⟩ := pulse_mid hi hend
    rw [hst', hk']
    cases hst : e.state
    case dpre => exact (At.pulse hi ht (q := e.count) (.inl ⟨hst, rfl⟩)).1
    case data => exact (At.pulse hi ht (q := 4 + e.count) (.inr ⟨hst, rfl⟩)).1
    case dsum => trivial
    case dtrl => trivial
    case wait => trivial
    all_goals
      rw [hst] at hsrc
      change (e.pulse h image).srcOffset = 0
      rw [pulse_srcOffset (by rw [hst]; decide) (by rw [hst]; decide) (by rw [hst]; decide)]
      exact hsrc

theorem nibblerAt_pulse (hi : Inv h image e) (ht : h.track.toNat < 80) :
    NibblerAt (gcrByte h image (e.pulse h image).sector) (e.pulse h image).state
      (e.pulse h image).count (e.pulse h image).nibbler (e.pulse h image).dataLatch := by
  have hnib := hi.nibbler
  by_cases hend : e.count = e.state.lenM1
  · obtain ⟨hst', hs', hk'⟩ := pulse_end hi hend
    rw [hst', hk']
    cases hst : e.state
    case dhdr =>
      change (e.pulse h image).nibbler = Nibbler.reset
      rw [pulse_nibbler (by rw [hst]; decide) (by rw [hst]; decide), if_pos hst]
    case dzro =>
      rw [hst] at hnib
      have hreset : e.nibbler = Nibbler.reset := hnib
      change Fill _ 0 _ _
      rw [pulse_nibbler (by rw [hst]; decide) (by rw [hst]; decide), if_neg (by rw [hst]; decide),
        hreset]
      exact fill_reset
    case dpre =>
      rw [hst] at hend
      rw [hs' (by rw [hst]; decide)]
      exact (At.pulse hi ht (q := 3) (.inl ⟨hst, hend⟩)).2
    case data =>
      rw [hst] at hend
      have hlast : 4 + e.count = 686 := by rw [hend]; rfl
      rw [hs' (by rw [hst]; decide)]
      exact (At.pulse hi ht (q := 686) (.inr ⟨hst, hlast⟩)).2.sums
    all_goals trivial
  · obtain ⟨hst', hs', hk'⟩ := pulse_mid hi hend
    rw [hst', hs', hk']
    cases hst : e.state
    case dzro =>
      rw [hst] at hnib
      change (e.pulse h image).nibbler = Nibbler.reset
      rw [pulse_nibbler (by rw [hst]; decide) (by rw [hst]; decide), if_neg (by rw [hst]; decide)]
      exact hnib
    case dpre => exact (At.pulse hi ht (q := e.count) (.inl ⟨hst, rfl⟩)).2
    case data => exact (At.pulse hi ht (q := 4 + e.count) (.inr ⟨hst, rfl⟩)).2
    case dsum =>
      rw [hst] at hnib
      change (e.pulse h image).nibbler.sums = _
      rw [pulse_nibbler (by rw [hst]; decide) (by rw [hst]; decide), if_neg (by rw [hst]; decide)]
      exact hnib
    all_goals trivial

theorem nextSector_lt {spt s : ℕ} : nextSector spt s < 16 := by
  unfold nextSector
  split_ifs <;> omega

theorem Inv.pulse (hi : Inv h image e) (ht : h.track.toNat < 80) :
    Inv h image (e.pulse h image) := by
  have hsector := hi.sector_lt
  refine ⟨?_, ?_, srcAt_pulse hi ht, nibblerAt_pulse hi ht⟩
  · by_cases hend : e.count = e.state.lenM1
    · rw [(pulse_end hi hend).2.2]
      exact Nat.zero_le _
    · obtain ⟨hst', -, hk'⟩ := pulse_mid hi hend
      have hcount := hi.count_le
      rw [hst', hk']
      omega
  · change (if e.state = .wait then nextSector h.spt e.sector else e.sector) < 16
    split_ifs
    · exact nextSector_lt
    · exact hsector

/-- What is on the wires is the byte of the schedule. -/
theorem odata_eq (hi : Inv h image e) : e.odata h = gcrSpotByte h image e.spot := by
  have hcount := hi.count_le
  have hnib := hi.nibbler
  obtain ⟨st, k, s, src, n, latch⟩ := e
  cases st
  case addr =>
    have hk : k = 0 ∨ k = 1 ∨ k = 2 ∨ k = 3 ∨ k = 4 ∨ k = 5 ∨ k = 6 ∨ k = 7 ∨ k = 8 ∨ k = 9 := by
      change k ≤ 9 at hcount
      omega
    rcases hk with rfl | rfl | rfl | rfl | rfl | rfl | rfl | rfl | rfl | rfl <;> rfl
  case dhdr =>
    have hk : k = 0 ∨ k = 1 ∨ k = 2 ∨ k = 3 := by
      change k ≤ 3 at hcount
      omega
    rcases hk with rfl | rfl | rfl | rfl <;> rfl
  case dzro =>
    change n = Nibbler.reset at hnib
    change sonyToDiskByte n.out = sonyToDiskByte 0
    rw [hnib]
    rfl
  case dpre =>
    have hk : k ≤ 3 := hcount
    have hfill : Fill (gcrByte h image s) k n latch := hnib
    change sonyToDiskByte n.out = sonyToDiskByte 0
    rw [hfill.out_eq (by omega), nibbleAt_prefetch (by omega)]
  case data =>
    have hk : k ≤ 682 := hcount
    have hfill : Fill (gcrByte h image s) (4 + k) n latch := hnib
    change sonyToDiskByte n.out = sonyToDiskByte (nibbleAt (gcrByte h image s) (4 + k))
    rw [hfill.out_eq (by omega)]
  case dsum =>
    have hk : k = 0 ∨ k = 1 ∨ k = 2 ∨ k = 3 := by
      change k ≤ 3 at hcount
      omega
    change n.sums = _ at hnib
    change sonyToDiskByte (sonyDsumIn ⟨.dsum, k, s, src, n, latch⟩) =
      ((Gcr.check (sumsAt (gcrByte h image s) 683)).map sonyToDiskByte).getD k 0xFF
    rw [← hnib]
    rcases hk with rfl | rfl | rfl | rfl <;> rfl
  case dtrl =>
    have hk : k = 0 ∨ k = 1 ∨ k = 2 := by
      change k ≤ 2 at hcount
      omega
    rcases hk with rfl | rfl | rfl <;> rfl
  all_goals rfl

/-- The encoder at the start of a sector. -/
structure Start (e : GcrEncoder) : Prop where
  state : e.state = .syn0
  count : e.count = 0
  sector : e.sector < 16
  srcOffset : e.srcOffset = 0

theorem Start.inv (hs : Start e) : Inv h image e where
  count_le := by rw [hs.count]; exact Nat.zero_le _
  sector_lt := hs.sector
  src := by
    rw [hs.state]
    exact hs.srcOffset
  nibbler := by
    rw [hs.state]
    trivial

theorem Start.strobe (hs : Start e) : e.strobe = false := by
  rw [GcrEncoder.strobe, hs.state]
  rfl

/-- A pulse whose byte, where one is taken, is that of the image. -/
theorem advance_eq_pulse {idata : Byte} (hidata : e.strobe = true → idata = image (e.fetch h)) :
    e.advance h idata = e.pulse h image := by
  have hlatch : (if e.strobe then idata else e.dataLatch) =
      if e.strobe then image (e.fetch h) else e.dataLatch := by
    cases hs : e.strobe
    case false => rfl
    case true => rw [if_pos rfl, if_pos rfl, hidata hs]
  unfold GcrEncoder.pulse advance
  rw [hlatch]

/-- Between the pulses nothing moves. -/
theorem Inv.idle (hi : Inv h image e) : Inv h image e.idle := by
  refine ⟨hi.count_le, hi.sector_lt, hi.src, ?_⟩
  have hnib := hi.nibbler
  change NibblerAt _ e.state e.count (if e.state = .dhdr then Nibbler.reset else e.nibbler) _
  by_cases hst : e.state = .dhdr
  · rw [hst]
    trivial
  · rw [if_neg hst]
    exact hnib

end GcrEncoder

end Floppy
