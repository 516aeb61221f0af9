import LBMacTwo.Floppy.MfmTrack

/-!
# Reading an MFM track back

* `Reader`, `Reader.take`: an IBM-MFM parser over the bytes and their flags, with the running CRC
  over the three A1 and the field; it counts every byte whose flags are not those of a well-formed
  track;
* `read_revolution`: it finds the sectors of a revolution, and no fault;
* `taken`, `mfm_round_trip`: the track emitted in the clocks of a revolution, under any pacing of
  `ready`, is read back as the image.
-/

namespace Floppy
open Clocked

/-- An ID field: cylinder, head, sector, size code. -/
structure IdField where
  c : Byte
  h : Byte
  r : Byte
  n : Byte
  deriving DecidableEq

def IdField.ofBytes (bs : List Byte) : IdField := ⟨bs.getD 0 0, bs.getD 1 0, bs.getD 2 0, bs.getD 3 0⟩

/-- A data field under its ID field. -/
structure Found where
  id : IdField
  payload : List Byte
  deriving DecidableEq

/-- What the parser expects: marks, the rest of a sync, or the rest of a field and its CRC. -/
inductive ReaderMode
  | hunt
  | sync (n : ℕ)
  | field (mark : Byte) (size : ℕ) (bs : List Byte)
  deriving DecidableEq

structure Reader where
  mode : ReaderMode
  crc : BitVec 16
  header : Option IdField
  found : List Found
  faults : ℕ
  deriving DecidableEq

namespace Reader

variable (r : Reader)

def start : Reader := ⟨.hunt, 0, none, [], 0⟩

/-- The running CRC starts at the first mark of a sync. -/
def crcAfter (b : MfmByte) : BitVec 16 :=
  match b.mark, r.mode with
  | true, .sync _ => Crc.byte crcPoly r.crc b.data
  | true, _ => Crc.byte crcPoly 0xFFFF b.data
  | false, _ => Crc.byte crcPoly r.crc b.data

/-- The size of the field that a mark announces. -/
def size (mark : Byte) : Option ℕ :=
  if mark = 0xFE then some 4
  else if mark = 0xFB then r.header.map fun id => 128 * 2 ^ id.n.toNat
  else none

/-- A field with a valid CRC. -/
def accept (mark : Byte) (bs : List Byte) : Reader :=
  if mark = 0xFE then { r with header := some (IdField.ofBytes bs) }
  else match r.header with
    | some id => { r with header := none, found := r.found ++ [⟨id, bs⟩] }
    | none => r

/-- One more fault, unless the byte is as it should be. -/
def check (ok : Bool) : Reader := if ok then r else { r with faults := r.faults + 1 }

/-- The parser after a byte. -/
def take (b : MfmByte) : Reader :=
  let r' := { r with crc := r.crcAfter b }
  if b.mark then
    match r.mode with
    | .hunt => { r' with mode := .sync 1 }.check (b.data == 0xA1 && !b.crc0)
    | .sync n => { r' with mode := .sync (n + 1) }.check (b.data == 0xA1 && !b.crc0)
    | .field .. => { r' with mode := .sync 1 }.check false
  else match r.mode with
    | .hunt => r'.check (!b.crc0)
    | .sync n =>
      match r.size b.data with
      | some size =>
        if n = 3 then { r' with mode := .field b.data size [] }.check (!b.crc0)
        else { r' with mode := .hunt }.check false
      | none => { r' with mode := .hunt }.check false
    | .field mark size bs =>
      if bs.length = size + 1 then
        if r.crcAfter b = 0 then ({ r' with mode := .hunt }.accept mark (bs.take size)).check b.crc0
        else { r' with mode := .hunt }.check false
      else { r' with mode := .field mark size (bs ++ [b.data]) }.check (!b.crc0)

/-- The parser after a list of bytes. -/
def read (bs : List MfmByte) : Reader := bs.foldl take r

variable {r}

@[simp] theorem read_nil : r.read [] = r := rfl

theorem read_append (bs cs : List MfmByte) : r.read (bs ++ cs) = (r.read bs).read cs :=
  List.foldl_append

theorem read_cons (b : MfmByte) (bs : List MfmByte) : r.read (b :: bs) = (r.take b).read bs := rfl

/-- In a gap the parser waits for a mark. -/
theorem read_gap (hm : r.mode = .hunt) (bs : List Byte) :
    r.read (plain bs) = { r with crc := Crc.ofBytes crcPoly r.crc bs } := by
  induction bs generalizing r with
  | nil => rfl
  | cons b bs ih =>
    have htake : r.take ⟨b, false, false⟩ = { r with crc := Crc.byte crcPoly r.crc b } := by
      simp [take, crcAfter, check, hm]
    change (r.take ⟨b, false, false⟩).read (plain bs) = _
    have hrest := ih (r := { r with crc := Crc.byte crcPoly r.crc b }) hm
    rw [htake, hrest]
    rfl

/-- `CRC_SEED` is the CRC of the three A1. -/
theorem crcSeed_eq : Crc.ofBytes crcPoly 0xFFFF [0xA1, 0xA1, 0xA1] = crcSeed := by decide +kernel

theorem read_sync (hm : r.mode = .hunt) :
    r.read sync = { r with mode := .sync 3, crc := crcSeed } := by
  rw [sync, read_append, read_gap hm, ← crcSeed_eq]
  simp [List.replicate, read_cons, take, crcAfter, check, hm, Crc.ofBytes]

/-- Within a field the parser collects its bytes. -/
theorem read_bytes {mark : Byte} {size : ℕ} (cs bs : List Byte) (hm : r.mode = .field mark size bs)
    (hlen : bs.length + cs.length ≤ size + 1) :
    r.read (plain cs) =
      { r with mode := .field mark size (bs ++ cs), crc := Crc.ofBytes crcPoly r.crc cs } := by
  induction cs generalizing r bs with
  | nil =>
    obtain ⟨mode, crc, header, found, faults⟩ := r
    change mode = _ at hm
    rw [hm, List.append_nil]
    rfl
  | cons b cs ih =>
    rw [List.length_cons] at hlen
    have hne : bs.length ≠ size + 1 := by omega
    have htake : r.take ⟨b, false, false⟩ =
        { r with mode := .field mark size (bs ++ [b]), crc := Crc.byte crcPoly r.crc b } := by
      simp [take, crcAfter, check, hm, hne]
    change (r.take ⟨b, false, false⟩).read (plain cs) = _
    rw [htake, ih (bs ++ [b]) rfl (by rw [List.length_append]; simp only [List.length_singleton]; omega),
      List.append_assoc]
    rfl

/-- A field with its CRC is accepted. -/
theorem read_field {mark : Byte} {bs : List Byte} (hm : r.mode = .sync 3) (hc : r.crc = crcSeed)
    (hsize : r.size mark = some bs.length) :
    r.read (field (mark :: bs)) = { r with mode := .hunt, crc := 0 }.accept mark bs := by
  have htake : r.take ⟨mark, false, false⟩ =
      { r with mode := .field mark bs.length [], crc := Crc.byte crcPoly crcSeed mark } := by
    simp [take, crcAfter, check, hm, hc, hsize]
  have hcrc : Crc.ofBytes crcPoly (Crc.byte crcPoly crcSeed mark) bs =
      Crc.ofBytes crcPoly crcSeed (mark :: bs) := rfl
  rw [field, plain_cons, List.append_assoc, List.singleton_append, read_cons, htake, read_append,
    read_bytes bs [] rfl (by simp), hcrc, List.nil_append]
  generalize hfull : Crc.ofBytes crcPoly crcSeed (mark :: bs) = full
  have hzero : Crc.byte crcPoly (Crc.byte crcPoly full (highByte full)) (lowByte full) = 0 :=
    Crc.residue crcPoly full
  simp [read_cons, take, crcAfter, check, hzero]

/-! ### A revolution -/

variable {h : Head} {image : ℕ → Byte}

/-- The ID field of sector `s`: `R` counts from 1. -/
def idOf (h : Head) (s : ℕ) : IdField :=
  ⟨h.track.setWidth 8, (BitVec.ofBool h.side).setWidth 8, BitVec.ofNat 8 (s + 1), 2⟩

theorem read_idField (hm : r.mode = .hunt) (s : ℕ) :
    (r.read sync).read (field (0xFE :: idBytes h s)) =
      { r with crc := 0, header := some (idOf h s) } := by
  obtain ⟨mode, crc, header, found, faults⟩ := r
  change mode = .hunt at hm
  rw [read_sync hm, read_field rfl rfl rfl, hm]
  rfl

theorem read_dataField (hm : r.mode = .hunt) {s : ℕ} (hh : r.header = some (idOf h s)) :
    (r.read sync).read (field (0xFB :: payload h image s)) =
      { r with crc := 0, header := none, found := r.found ++ [⟨idOf h s, payload h image s⟩] } := by
  obtain ⟨mode, crc, header, found, faults⟩ := r
  change mode = .hunt at hm
  change header = some (idOf h s) at hh
  have hsize : size { mode := .sync 3, crc := crcSeed, header, found, faults } 0xFB =
      some (payload h image s).length := by
    rw [size, hh, length_payload]
    rfl
  rw [read_sync hm, read_field rfl rfl hsize, hm, hh]
  rfl

/-- The parser finds the sector. -/
theorem read_sectorBytes (hm : r.mode = .hunt) (hh : r.header = none) (s : ℕ) :
    r.read (sectorBytes h image s) =
      { r with
        crc := Crc.ofBytes crcPoly 0 (List.replicate 108 0x4E)
        found := r.found ++ [⟨idOf h s, payload h image s⟩] } := by
  obtain ⟨mode, crc, header, found, faults⟩ := r
  change mode = .hunt at hm
  change header = none at hh
  have hid := read_idField (h := h) (r := ⟨mode, crc, header, found, faults⟩) hm s
  have hgap2 := read_gap (r := ⟨mode, 0, some (idOf h s), found, faults⟩) hm
    (List.replicate 22 0x4E)
  have hda := @read_dataField
    ⟨mode, Crc.ofBytes crcPoly 0 (List.replicate 22 0x4E), some (idOf h s), found, faults⟩
    h image hm s rfl
  have hgap3 := read_gap
    (r := ⟨mode, 0, none, found ++ [⟨idOf h s, payload h image s⟩], faults⟩) hm
    (List.replicate 108 0x4E)
  rw [sectorBytes, read_append, read_append, read_append, read_append, read_append, hid, hgap2, hda,
    hgap3, hh]

theorem read_sectors (hm : r.mode = .hunt) (hh : r.header = none) (ss : List ℕ) :
    ∃ crc, r.read (ss.flatMap (sectorBytes h image)) =
      { r with
        crc := crc
        found := r.found ++ ss.map fun s => ⟨idOf h s, payload h image s⟩ } := by
  induction ss generalizing r with
  | nil =>
    refine ⟨r.crc, ?_⟩
    rw [List.map_nil, List.append_nil]
    rfl
  | cons s ss ih =>
    rw [List.flatMap_cons, read_append, read_sectorBytes hm hh]
    obtain ⟨crc, hread⟩ := ih (r := { r with
      crc := Crc.ofBytes crcPoly 0 (List.replicate 108 0x4E)
      found := r.found ++ [⟨idOf h s, payload h image s⟩] }) hm hh
    refine ⟨crc, ?_⟩
    rw [hread, List.append_assoc]
    rfl

/-- The parser finds the sectors of a revolution in their order, and no fault. -/
theorem read_revolution :
    (start.read (revolution h image)).found =
        (List.range h.spt).map (fun s => ⟨idOf h s, payload h image s⟩) ∧
      (start.read (revolution h image)).faults = 0 := by
  have hpre : ∀ bs : List Byte, (start.read (plain bs)).mode = .hunt := by
    intro bs
    rw [read_gap rfl]
    rfl
  have hpreamble : preamble = plain (List.replicate 80 0x4E ++ List.replicate 12 0x00 ++
      [0xC2, 0xC2, 0xC2, 0xFC] ++ List.replicate 50 0x4E) := by
    rw [preamble, plain_append, plain_append, plain_append]
  rw [revolution, read_append, hpreamble, read_gap rfl]
  obtain ⟨crc, hread⟩ := @read_sectors
    { start with crc := Crc.ofBytes crcPoly start.crc (List.replicate 80 0x4E ++
      List.replicate 12 0x00 ++ [0xC2, 0xC2, 0xC2, 0xFC] ++ List.replicate 50 0x4E) }
    h image rfl rfl (List.range h.spt)
  rw [hread]
  exact ⟨List.nil_append _, rfl⟩

end Reader

/-! ### The clocks of a revolution -/

/-- The encoder after `t` clocks. -/
abbrev mfmAfter (e : MfmEncoder) (u : ℕ → MfmIn) (t : ℕ) : MfmEncoder := run MfmEncoder.step e u t

/-- The pulses of `ready` in the first `t` clocks. -/
def pulses (u : ℕ → MfmIn) (t : ℕ) : ℕ := ((List.range t).filter fun k => (u k).ready).length

/-- The bytes emitted in the first `t` clocks: those on the wires where `ready` is up. -/
def emitted (e : MfmEncoder) (u : ℕ → MfmIn) (t : ℕ) : List MfmByte :=
  ((List.range t).filter fun k => (u k).ready).map fun k =>
    (mfmAfter e u k).out (u k).head (u k).idata

/-- In the first `t` clocks the head rests, and where `ready` is up `idata` is the image byte at
`addr`. -/
structure Rests (h : Head) (image : ℕ → Byte) (e : MfmEncoder) (u : ℕ → MfmIn) (t : ℕ) : Prop where
  head : ∀ k < t, (u k).head = h
  idata : ∀ k < t, (u k).ready = true → (u k).idata = image ((mfmAfter e u k).addr h)

section Clocks

variable {h : Head} {image : ℕ → Byte} {e : MfmEncoder} {u : ℕ → MfmIn} {t : ℕ}

theorem emitted_eq (hr : Rests h image e u t) :
    emitted e u t = e.bytes h image (pulses u t) ∧
      mfmAfter e u t = (MfmEncoder.pulse h image)^[pulses u t] e := by
  induction t with
  | zero => exact ⟨rfl, rfl⟩
  | succ t ih =>
    obtain ⟨hbytes, hafter⟩ := ih ⟨fun k hk => hr.head k (by omega),
      fun k hk => hr.idata k (by omega)⟩
    have hstep : mfmAfter e u (t + 1) = (mfmAfter e u t).step (u t) := rfl
    unfold emitted at hbytes ⊢
    unfold pulses at hbytes hafter ⊢
    rw [List.range_succ, List.filter_append, List.map_append, List.length_append, hstep,
      MfmEncoder.step, hr.head t (by omega)]
    cases hready : (u t).ready
    case false => simp [hready, hbytes, hafter]
    case true =>
      have hidata := hr.idata t (by omega) hready
      rw [hidata, hbytes, hafter]
      simp only [List.filter_cons, hready, if_true, List.filter_nil, List.map_cons, List.map_nil,
        List.length_singleton, Function.iterate_succ_apply', MfmEncoder.bytes, List.iterate_add,
        List.map_append]
      rw [hidata, hafter, hr.head t (by omega)]
      exact ⟨rfl, rfl⟩

/-- From the start of a revolution, with the head at rest and under any pacing of `ready`: the bytes
of a revolution are those of a System/34 track, a parser finds in them the sectors 1 to `spt` in
order with the image's bytes as their payloads, and no byte whose mark or CRC flag is not that of
such a track; and the encoder is back at the start. -/
theorem mfm_round_trip (hs : e.Start) (hr : Rests h image e u t) (ht : pulses u t = h.pulses) :
    emitted e u t = revolution h image ∧
      (Reader.start.read (emitted e u t)).found =
        (List.range h.spt).map (fun s => ⟨Reader.idOf h s, payload h image s⟩) ∧
      (Reader.start.read (emitted e u t)).faults = 0 ∧ (mfmAfter e u t).Start := by
  obtain ⟨hbytes, hafter⟩ := emitted_eq hr
  obtain ⟨hrev, hstart⟩ := @MfmEncoder.bytes_revolution h image e hs
  rw [ht] at hbytes hafter
  rw [hbytes, hafter, hrev]
  exact ⟨rfl, Reader.read_revolution.1, Reader.read_revolution.2, hstart⟩

end Clocks

/-! ### Runs -/

/-- The outermost track of a 720K disk. -/
def outerHead : Head := ⟨false, 0, false⟩

/-- A byte every clock. -/
def everyClock (image : ℕ → Byte) : ℕ → MfmIn :=
  loopStream MfmEncoder.step (fun _ e => ⟨true, outerHead, image (e.addr outerHead)⟩)
    MfmEncoder.reset

/-- An image whose bytes tell their addresses. -/
def countingImage (a : ℕ) : Byte := BitVec.ofNat 8 (a + a / 256)

theorem start_reset : MfmEncoder.reset.Start := ⟨rfl, rfl, rfl⟩

theorem rests_everyClock (image : ℕ → Byte) (t : ℕ) :
    Rests outerHead image MfmEncoder.reset (everyClock image) t := by
  refine ⟨fun _ _ => rfl, fun k _ _ => ?_⟩
  rw [mfmAfter, everyClock, run_loopStream]
  rfl

theorem pulses_everyClock (image : ℕ → Byte) (t : ℕ) : pulses (everyClock image) t = t := by
  have hall : ((List.range t).filter fun k => (everyClock image k).ready) = List.range t :=
    List.filter_eq_self.mpr fun _ _ => rfl
  rw [pulses, hall, List.length_range]

theorem mfm_round_trip_everyClock :
    (Reader.start.read
      (emitted MfmEncoder.reset (everyClock countingImage) 6284)).found =
        (List.range 9).map (fun s => ⟨Reader.idOf outerHead s, payload outerHead countingImage s⟩) ∧
      (Reader.start.read
        (emitted MfmEncoder.reset (everyClock countingImage) 6284)).faults = 0 := by
  have h := mfm_round_trip start_reset (rests_everyClock countingImage 6284)
    (pulses_everyClock countingImage 6284)
  exact ⟨h.2.1, h.2.2.1⟩

/-- An image whose first two bytes are the CRC of the data address mark. -/
def residueImage (a : ℕ) : Byte := if a = 0 then 0xE2 else if a = 1 then 0x95 else 0

/-- The second payload byte makes the running CRC zero, and is not flagged. -/
theorem unflagged_residue :
    (Reader.start.read (MfmEncoder.reset.bytes outerHead residueImage 208)).crc = 0 ∧
      (MfmEncoder.reset.bytes outerHead residueImage 208).getLast? = some ⟨0x95, false, false⟩ := by
  decide +kernel

end Floppy
