import LBMacTwo.Floppy.GcrTrack

/-!
# Reading a GCR track back

* `diskToSony`: the numbers of the disk bytes, from the rule the group code chooses them by;
* `GcrReader`, `GcrReader.take`: a reader of disk bytes. It hunts for the marks of the address and
  data fields, turns disk bytes into numbers, and accepts a field whose checksum is right;
* `read_gcrSectors`: it finds the sectors of a track, and no fault;
* `gcrEmitted`, `gcr_round_trip`: the track emitted in the clocks of a cycle, under any pacing of
  `newByteReady`, is read back as the image.
-/

namespace Floppy
open Clocked Schedule
open Gcr (Digest Sums Nibble)

/-- The places below the upper bit at which the bits of a disk byte are `v` twice in a row. -/
def pairsOf (v : Bool) (b : Byte) : ℕ :=
  ((List.range 6).filter fun i => b.getLsbD i == v && b.getLsbD (i + 1) == v).length

/-- A disk byte has its upper bit set, two ones in a row behind it, and two zeros in a row at most
once. -/
def IsDiskByte (b : Byte) : Prop := b.getLsbD 7 = true ∧ 0 < pairsOf true b ∧ pairsOf false b ≤ 1

instance (b : Byte) : Decidable (IsDiskByte b) :=
  inferInstanceAs (Decidable (_ ∧ _ ∧ _))

/-- The disk bytes in their order. -/
def diskBytes : List Byte := ((List.range 256).map (BitVec.ofNat 8)).filter (decide <| IsDiskByte ·)

/-- The number a disk byte stands for is its place among them. -/
def diskToSony (b : Byte) : Option ℕ := diskBytes.idxOf? b

/-- The encoder table has the disk bytes in that order. -/
theorem diskBytes_eq : diskBytes = sonyTable := by decide +kernel

theorem diskToSony_sonyToDiskByte (n : Nibble) : diskToSony (sonyToDiskByte n) = some n.toNat := by
  rw [diskToSony, diskBytes_eq]
  revert n
  decide

/-- What an address field names. -/
structure GcrAddress where
  track : ℕ
  side : ℕ
  sector : ℕ
  format : ℕ
  deriving DecidableEq

/-- A data field under its address field. -/
structure GcrFound where
  address : GcrAddress
  tags : List ℕ
  payload : List ℕ
  deriving DecidableEq

inductive FieldKind
  | address
  | data
  deriving DecidableEq

/-- The number of nibbles of a field. -/
def FieldKind.size : FieldKind → ℕ
  | address => 5
  | data => 704

/-- What the reader expects: the rest of a mark, or the rest of a field. -/
inductive GcrMode
  | hunt
  | mark1
  | mark2
  | field (kind : FieldKind) (ns : List ℕ)
  deriving DecidableEq

structure GcrReader where
  mode : GcrMode
  header : Option GcrAddress
  found : List GcrFound
  faults : ℕ
  deriving DecidableEq

namespace GcrReader

variable (r : GcrReader)

def start : GcrReader := ⟨.hunt, none, [], 0⟩

def fault : GcrReader := { r with mode := .hunt, faults := r.faults + 1 }

/-- The numbers of an address field: the lower digit of the track, the sector, the upper digit with
the side above it, the format, and what makes the five cancel out. -/
def acceptAddress (ns : List ℕ) : GcrReader :=
  match ns with
  | [low, s, high, format, sum] =>
    if ((low ^^^ s) ^^^ high) ^^^ format = sum then
      { r with mode := .hunt, header := some ⟨low + 64 * (high % 32), high / 32, s, format⟩ }
    else r.fault
  | _ => r.fault

/-- A data field belongs to the sector of the address field before it, and its last four numbers
are the checksum of its 524 bytes. -/
def acceptData (ns : List ℕ) : GcrReader :=
  match r.header with
  | none => r.fault
  | some a =>
    let bytes := Gcr.decode Digest.zero ((ns.drop 1).take 699)
    if ns.head? = some a.sector ∧ Gcr.checkBytes (ns.drop 700) = some bytes.2 then
      { r with
        mode := .hunt
        header := none
        found := r.found ++ [⟨a, bytes.1.take 12, bytes.1.drop 12⟩] }
    else r.fault

def accept (kind : FieldKind) (ns : List ℕ) : GcrReader :=
  match kind with
  | .address => r.acceptAddress ns
  | .data => r.acceptData ns

/-- The reader after a disk byte. -/
def take (b : Byte) : GcrReader :=
  match r.mode with
  | .hunt => if b = 0xD5 then { r with mode := .mark1 } else r
  | .mark1 =>
    if b = 0xAA then { r with mode := .mark2 }
    else if b = 0xD5 then r
    else { r with mode := .hunt }
  | .mark2 =>
    if b = 0x96 then { r with mode := .field .address [] }
    else if b = 0xAD then { r with mode := .field .data [] }
    else if b = 0xD5 then { r with mode := .mark1 }
    else { r with mode := .hunt }
  | .field kind ns =>
    match diskToSony b with
    | none => r.fault
    | some n =>
      if ns.length + 1 = kind.size then r.accept kind (ns ++ [n])
      else { r with mode := .field kind (ns ++ [n]) }

/-- The reader after a list of disk bytes. -/
def read (bs : List Byte) : GcrReader := bs.foldl take r

variable {r}

theorem read_append (bs cs : List Byte) : r.read (bs ++ cs) = (r.read bs).read cs :=
  List.foldl_append

theorem read_cons (b : Byte) (bs : List Byte) : r.read (b :: bs) = (r.take b).read bs := rfl

theorem read_gap (hm : r.mode = .hunt) (bs : List Byte) (hb : 0xD5 ∉ bs) : r.read bs = r := by
  induction bs with
  | nil => rfl
  | cons b bs ih =>
    rw [List.mem_cons, not_or] at hb
    have htake : r.take b = r := by
      rw [take, hm]
      exact if_neg (Ne.symm hb.1)
    rw [read_cons, htake]
    exact ih hb.2

/-- Within a field the reader collects its numbers, and judges them at the last. -/
theorem read_field {kind : FieldKind} (ms : List Nibble) (ns : List ℕ) (hm : r.mode = .field kind ns)
    (hne : ms ≠ []) (hlen : ns.length + ms.length = kind.size) :
    r.read (ms.map sonyToDiskByte) = r.accept kind (ns ++ ms.map BitVec.toNat) := by
  induction ms generalizing r ns with
  | nil => exact absurd rfl hne
  | cons m ms ih =>
    rw [List.length_cons] at hlen
    have htake : r.take (sonyToDiskByte m) =
        if ns.length + 1 = kind.size then r.accept kind (ns ++ [m.toNat])
        else { r with mode := .field kind (ns ++ [m.toNat]) } := by
      rw [take, hm]
      simp only [diskToSony_sonyToDiskByte]
    rw [List.map_cons, read_cons, htake]
    rcases ms with _ | ⟨m', ms⟩
    · have hlast : ns.length + 1 = kind.size := hlen
      rw [if_pos hlast]
      rfl
    · rw [List.length_cons] at hlen
      have hlen' : (ns ++ [m.toNat]).length + (m' :: ms).length = kind.size := by
        rw [List.length_append, List.length_singleton, List.length_cons]
        omega
      have hrest := @ih { r with mode := .field kind (ns ++ [m.toNat]) } (ns ++ [m.toNat]) rfl
        (List.cons_ne_nil _ _) hlen'
      rw [if_neg (by omega), hrest, List.append_assoc]
      cases kind <;> rfl

/-! ### A sector -/

variable {h : GcrHead} {image : ℕ → Byte}

def addressOf (h : GcrHead) (s : ℕ) : GcrAddress := ⟨h.track.toNat, h.side.toNat, s, h.formatNumber⟩

/-- What is found of sector `s`. -/
def foundOf (h : GcrHead) (image : ℕ → Byte) (s : ℕ) : GcrFound :=
  ⟨addressOf h s, List.replicate 12 0, (gcrPayload h image s).map BitVec.toNat⟩

theorem length_gcrField (s : ℕ) : (gcrField h image s).length = 524 := by
  simp [gcrField, gcrPayload]

theorem length_encode_gcrField (s : ℕ) :
    (Gcr.encode Sums.zero (gcrField h image s)).length = 699 := by
  have hlen := @length_gcrField h image s
  rw [Gcr.length_encode _ _ (by omega), hlen]

theorem length_dataNibbles (s : ℕ) : (dataNibbles h image s).length = FieldKind.data.size := by
  rw [dataNibbles, List.length_cons, List.length_append, length_encode_gcrField]
  rfl

/-- The nibbles of an address field are judged valid, and name the track, the side and the sector. -/
theorem acceptAddress_addressNibbles {s : ℕ} (hs : s < 64) :
    r.acceptAddress ((addressNibbles h s).map BitVec.toNat) =
      { r with mode := .hunt, header := some (addressOf h s) } := by
  have htrack := h.track.isLt
  have hside := h.side.toNat_lt
  have hformat : h.formatNumber < 64 := by
    unfold GcrHead.formatNumber
    split_ifs <;> omega
  have hlow : h.track.toNat % 64 < 64 := Nat.mod_lt _ (by omega)
  have hhigh : h.track.toNat / 64 + 32 * h.side.toNat < 64 := by omega
  have hnum : ∀ n : ℕ, n < 64 → (BitVec.ofNat 6 n).toNat = n := fun n hn => by
    rw [BitVec.toNat_ofNat, Nat.mod_eq_of_lt hn]
  have hsum : ((h.track.toNat % 64 ^^^ s) ^^^ (h.track.toNat / 64 + 32 * h.side.toNat)) ^^^
      h.formatNumber < 64 :=
    Nat.xor_lt_two_pow (n := 6) (Nat.xor_lt_two_pow (Nat.xor_lt_two_pow hlow hs) hhigh) hformat
  have hname : h.track.toNat % 64 + 64 * ((h.track.toNat / 64 + 32 * h.side.toNat) % 32) =
      h.track.toNat ∧ (h.track.toNat / 64 + 32 * h.side.toNat) / 32 = h.side.toNat := by
    omega
  simp only [addressNibbles, addressDigits, List.cons_append, List.nil_append, List.foldl_cons,
    List.foldl_nil, Nat.zero_xor, List.map_cons, List.map_nil, hnum _ hlow, hnum _ hs, hnum _ hhigh,
    hnum _ hformat, hnum _ hsum, acceptAddress, if_true, hname, addressOf]

/-- The nibbles of a data field are judged valid. -/
theorem acceptData_dataNibbles {s : ℕ} (hs : s < 64) (hh : r.header = some (addressOf h s)) :
    r.acceptData ((dataNibbles h image s).map BitVec.toNat) =
      { r with mode := .hunt, header := none, found := r.found ++ [foundOf h image s] } := by
  have hlen := @length_gcrField h image s
  have hdecode : Gcr.decode Digest.zero ((Gcr.encode Sums.zero (gcrField h image s)).map BitVec.toNat) =
      ((gcrField h image s).map BitVec.toNat, (Gcr.total Sums.zero (gcrField h image s)).digest) :=
    Gcr.decode_encode Sums.zero (gcrField h image s) (by omega)
  have hlen' := @length_encode_gcrField h image s
  have htake : (((dataNibbles h image s).map BitVec.toNat).drop 1).take 699 =
      (Gcr.encode Sums.zero (gcrField h image s)).map BitVec.toNat := by
    rw [dataNibbles, List.map_cons, List.drop_succ_cons, List.drop_zero, ← List.map_take,
      List.take_left' hlen']
  have hdrop : ((dataNibbles h image s).map BitVec.toNat).drop 700 =
      (Gcr.check (Gcr.total Sums.zero (gcrField h image s))).map BitVec.toNat := by
    rw [dataNibbles, List.map_cons, List.drop_succ_cons, ← List.map_drop, List.drop_left' hlen']
  have htags : ((gcrField h image s).map BitVec.toNat).take 12 = List.replicate 12 0 := by
    rw [gcrField, ← List.map_take, List.take_left' List.length_replicate]
    rfl
  have hpayload : ((gcrField h image s).map BitVec.toNat).drop 12 =
      (gcrPayload h image s).map BitVec.toNat := by
    rw [gcrField, ← List.map_drop, List.drop_left' List.length_replicate]
  have hhead : ((dataNibbles h image s).map BitVec.toNat).head? = some (addressOf h s).sector := by
    rw [dataNibbles, List.map_cons, List.head?_cons, BitVec.toNat_ofNat, Nat.mod_eq_of_lt hs]
    rfl
  have hmatch := Gcr.checkBytes_check (Gcr.total Sums.zero (gcrField h image s))
  rw [← hdrop] at hmatch
  rw [acceptData, hh]
  dsimp only
  rw [htake, hdecode]
  dsimp only
  rw [if_pos ⟨hhead, hmatch⟩, htags, hpayload]
  rfl

/-- The reader finds the sector. -/
theorem read_gcrSector (hm : r.mode = .hunt) {s : ℕ} (hs : s < 64) :
    r.read (gcrSector h image s) =
      { r with header := none, found := r.found ++ [foundOf h image s] } := by
  obtain ⟨mode, header, found, faults⟩ := r
  change mode = .hunt at hm
  subst hm
  have hgap : ∀ n : ℕ, (0xD5 : Byte) ∉ List.replicate n 0xFF := by
    intro n hmem
    exact absurd (List.eq_of_mem_replicate hmem) (by decide)
  have haddr : GcrReader.read ⟨.field .address [], header, found, faults⟩
      ((addressNibbles h s).map sonyToDiskByte) =
        ⟨.hunt, some (addressOf h s), found, faults⟩ := by
    rw [@read_field ⟨.field .address [], header, found, faults⟩ .address (addressNibbles h s) [] rfl
      (List.cons_ne_nil _ _) rfl]
    exact acceptAddress_addressNibbles hs
  have hdata : GcrReader.read ⟨.field .data [], some (addressOf h s), found, faults⟩
      ((dataNibbles h image s).map sonyToDiskByte) =
        ⟨.hunt, none, found ++ [foundOf h image s], faults⟩ := by
    have hlen : ([] : List ℕ).length + (dataNibbles h image s).length =
        FieldKind.data.size := by
      rw [length_dataNibbles, List.length_nil, Nat.zero_add]
    rw [@read_field ⟨.field .data [], some (addressOf h s), found, faults⟩ .data
      (dataNibbles h image s) [] rfl (List.cons_ne_nil _ _) hlen]
    exact @acceptData_dataNibbles ⟨.field .data [], some (addressOf h s), found, faults⟩ h image s hs
      rfl
  have hmark : GcrReader.read ⟨.hunt, header, found, faults⟩ [0xD5, 0xAA, 0x96] =
      ⟨.field .address [], header, found, faults⟩ := by
    simp [take, read]
  have hmark' : ∀ a : GcrAddress, GcrReader.read ⟨.hunt, some a, found, faults⟩ [0xD5, 0xAA, 0xAD] =
      ⟨.field .data [], some a, found, faults⟩ := by
    intro a
    simp [take, read]
  rw [gcrSector, read_append, read_append, read_append, read_append, read_append, read_append,
    read_append, read_gap rfl _ (hgap 56), hmark, haddr, read_gap rfl [0xDE, 0xAA] (by decide),
    read_gap rfl _ (hgap 5), hmark', hdata, read_gap rfl [0xDE, 0xAA, 0xFF, 0xFF] (by decide)]

/-- The reader finds sector after sector. -/
theorem read_gcrSectors (hm : r.mode = .hunt) (ss : List ℕ) (hss : ∀ s ∈ ss, s < 64) :
    (r.read (ss.flatMap (gcrSector h image))).found = r.found ++ ss.map (foundOf h image) ∧
      (r.read (ss.flatMap (gcrSector h image))).faults = r.faults := by
  induction ss generalizing r with
  | nil => exact ⟨(List.append_nil _).symm, rfl⟩
  | cons s ss ih =>
    obtain ⟨hs, hss⟩ := List.forall_mem_cons.mp hss
    rw [List.flatMap_cons, read_append, read_gcrSector hm hs]
    obtain ⟨hfound, hfaults⟩ := ih
      (r := { r with header := none, found := r.found ++ [foundOf h image s] }) hm hss
    refine ⟨?_, hfaults⟩
    rw [hfound, List.append_assoc]
    rfl

end GcrReader

/-! ### The clocks of a cycle -/

/-- The drive after `t` clocks. -/
abbrev gcrAfter (d : GcrDrive) (u : ℕ → GcrIn) (t : ℕ) : GcrDrive := run GcrDrive.step d u t

/-- The encoder's `ready` pulses in clock `t`. -/
def gcrReady (d : GcrDrive) (u : ℕ → GcrIn) (t : ℕ) : Bool := (gcrAfter d u t).ready (u t)

/-- The pulses of `ready` in the first `t` clocks. -/
def gcrPulses (d : GcrDrive) (u : ℕ → GcrIn) (t : ℕ) : ℕ :=
  ((List.range t).filter (gcrReady d u)).length

/-- The disk bytes emitted in the first `t` clocks: those on the wires where `ready` is up. -/
def gcrEmitted (d : GcrDrive) (u : ℕ → GcrIn) (t : ℕ) : List Byte :=
  ((List.range t).filter (gcrReady d u)).map fun k => (gcrAfter d u k).enc.odata (u k).head

/-- In the first `t` clocks the head rests over a track of the disk, and where `ready` is up `idata`
is the image byte at `addr`. -/
structure GcrRests (h : GcrHead) (image : ℕ → Byte) (d : GcrDrive) (u : ℕ → GcrIn) (t : ℕ) :
    Prop where
  track : h.track.toNat < 80
  head : ∀ k < t, (u k).head = h
  idata : ∀ k < t, gcrReady d u k = true → (u k).idata = image (gcrAfter d u k).addr

section Clocks

variable {h : GcrHead} {image : ℕ → Byte} {d : GcrDrive} {u : ℕ → GcrIn} {t : ℕ}

/-- Where the drive stands after `n` pulses: `addr` is that of the byte to be taken, unless a pulse
has only just been. -/
structure GcrDrive.Inv (h : GcrHead) (image : ℕ → Byte) (spot : (GcrState × ℕ) × ℕ) (n : ℕ)
    (d : GcrDrive) : Prop where
  enc : d.enc.Inv h image
  spot : d.enc.spot = (tick (fun p : GcrState × ℕ => p.1.lenM1) (GcrState.nextIn h.spt))^[n] spot
  addr : d.oldNewByteReady = false → d.enc.strobe = true → d.addr = d.enc.fetch h

/-- A clock with a pulse. -/
theorem GcrDrive.Inv.ready {spot : (GcrState × ℕ) × ℕ} {n : ℕ} {i : GcrIn}
    (hi : GcrDrive.Inv h image spot n d) (ht : h.track.toNat < 80) (hh : i.head = h)
    (hready : d.ready i = true) (hidata : i.idata = image d.addr) :
    GcrDrive.Inv h image spot (n + 1) (d.step i) := by
  obtain ⟨hold, hnew⟩ : d.oldNewByteReady = false ∧ i.newByteReady = true := by
    simpa [GcrDrive.ready] using hready
  have henc : (d.step i).enc = d.enc.pulse h image := by
    change (if d.ready i then d.enc.advance i.head i.idata else d.enc.idle) = _
    rw [if_pos hready, hh, hidata]
    exact GcrEncoder.advance_eq_pulse fun hs => by rw [hi.addr hold hs]
  refine ⟨?_, ?_, fun hnew' => ?_⟩
  · rw [henc]
    exact hi.enc.pulse ht
  · rw [henc, GcrEncoder.spot_pulse hi.enc, hi.spot, Function.iterate_succ_apply']
  · change i.newByteReady = false at hnew'
    rw [hnew] at hnew'
    cases hnew'

/-- A clock without one. -/
theorem GcrDrive.Inv.idle {spot : (GcrState × ℕ) × ℕ} {n : ℕ} {i : GcrIn}
    (hi : GcrDrive.Inv h image spot n d) (hh : i.head = h) (hready : d.ready i = false) :
    GcrDrive.Inv h image spot n (d.step i) := by
  have henc : (d.step i).enc = d.enc.idle := by
    change (if d.ready i then d.enc.advance i.head i.idata else d.enc.idle) = _
    rw [hready, if_neg Bool.false_ne_true]
  refine ⟨?_, ?_, fun _ _ => ?_⟩
  · rw [henc]
    exact hi.enc.idle
  · rw [henc]
    exact hi.spot
  · rw [henc]
    change d.enc.fetch i.head = d.enc.fetch h
    rw [hh]

theorem gcrEmitted_eq (hs : d.enc.Start) (hr : GcrRests h image d u t) :
    GcrDrive.Inv h image d.enc.spot (gcrPulses d u t) (gcrAfter d u t) ∧
      gcrEmitted d u t =
        (List.iterate (tick (fun p : GcrState × ℕ => p.1.lenM1) (GcrState.nextIn h.spt))
          d.enc.spot (gcrPulses d u t)).map (gcrSpotByte h image) := by
  induction t with
  | zero =>
    refine ⟨⟨hs.inv, rfl, fun _ hstrobe => ?_⟩, rfl⟩
    have hfalse := hs.strobe
    change d.enc.strobe = true at hstrobe
    rw [hfalse] at hstrobe
    cases hstrobe
  | succ t ih =>
    obtain ⟨hinv, hbytes⟩ := ih ⟨hr.track, fun k hk => hr.head k (by omega),
      fun k hk => hr.idata k (by omega)⟩
    have hhead := hr.head t (by omega)
    have hidata := hr.idata t (by omega)
    have hstep : gcrAfter d u (t + 1) = (gcrAfter d u t).step (u t) := rfl
    unfold gcrEmitted at hbytes ⊢
    unfold gcrPulses at hinv hbytes ⊢
    rw [List.range_succ, List.filter_append, List.map_append, List.length_append, hstep, hbytes]
    cases hready : gcrReady d u t
    case false =>
      have hnone : [t].filter (gcrReady d u) = [] := by simp [hready]
      rw [hnone, List.map_nil, List.append_nil, List.length_nil, Nat.add_zero]
      exact ⟨hinv.idle hhead hready, rfl⟩
    case true =>
      have hone : [t].filter (gcrReady d u) = [t] := by simp [hready]
      rw [hone, List.length_singleton]
      refine ⟨hinv.ready hr.track hhead hready (hidata hready), ?_⟩
      rw [List.iterate_add, List.map_append, List.map_singleton, hhead,
        GcrEncoder.odata_eq hinv.enc, hinv.spot]
      rfl

/-- From the start of a sector, with the head at rest and under any pacing of `newByteReady`, sector
after sector is emitted. -/
theorem gcrEmitted_sectors (hs : d.enc.Start) (hr : GcrRests h image d u t) {n : ℕ}
    (ht : gcrPulses d u t = 782 * n) :
    gcrEmitted d u t =
        (List.iterate (GcrEncoder.nextSector h.spt) d.enc.sector n).flatMap (gcrSector h image) ∧
      (gcrAfter d u t).enc.Start ∧
      (gcrAfter d u t).enc.sector = (GcrEncoder.nextSector h.spt)^[n] d.enc.sector := by
  obtain ⟨hinv, hbytes⟩ := gcrEmitted_eq hs hr
  have hspot : d.enc.spot = ((.syn0, d.enc.sector), 0) := by
    rw [GcrEncoder.spot, hs.state, hs.count]
  have hend := hinv.spot
  have hsrc := hinv.enc.src
  rw [ht, hspot, map_gcrSectors] at hbytes
  rw [ht, hspot, ← @ticks_gcrSectors h.spt n d.enc.sector, tick_stints, nextIn_gcrSectors] at hend
  simp only [GcrEncoder.spot, Prod.mk.injEq] at hend
  obtain ⟨⟨hst, hsector⟩, hcount⟩ := hend
  rw [hst] at hsrc
  exact ⟨hbytes, ⟨hst, hcount, hinv.enc.sector_lt, hsrc⟩, hsector⟩

/-- A reader finds them, and no fault. -/
theorem gcr_sectors (hs : d.enc.Start) (hr : GcrRests h image d u t) {n : ℕ}
    (ht : gcrPulses d u t = 782 * n) :
    (GcrReader.start.read (gcrEmitted d u t)).found =
        (List.iterate (GcrEncoder.nextSector h.spt) d.enc.sector n).map
          (GcrReader.foundOf h image) ∧
      (GcrReader.start.read (gcrEmitted d u t)).faults = 0 ∧
      (gcrAfter d u t).enc.Start ∧
      (gcrAfter d u t).enc.sector = (GcrEncoder.nextSector h.spt)^[n] d.enc.sector := by
  obtain ⟨hbytes, hstart, hsector⟩ := gcrEmitted_sectors hs hr ht
  have hss : ∀ s ∈ List.iterate (GcrEncoder.nextSector h.spt) d.enc.sector n, s < 64 := by
    intro s hmem
    obtain ⟨m, -, rfl⟩ := List.mem_iterate.mp hmem
    rcases m with _ | m
    · exact hs.sector.trans (by omega)
    · rw [Function.iterate_succ_apply']
      exact GcrEncoder.nextSector_lt.trans (by omega)
  obtain ⟨hfound, hfaults⟩ := @GcrReader.read_gcrSectors GcrReader.start h image rfl _ hss
  rw [hbytes]
  exact ⟨hfound, hfaults, hstart, hsector⟩

/-- In a cycle of the encoder a reader finds each sector of the track once, with a valid address, a
valid data checksum and the image's bytes as its payload; and the encoder is back at the start. -/
theorem gcr_round_trip (hs : d.enc.Start) (hsector : d.enc.sector < h.spt)
    (hr : GcrRests h image d u t) (ht : gcrPulses d u t = 782 * h.spt) :
    (GcrReader.start.read (gcrEmitted d u t)).found =
        (sectorOrder h.spt d.enc.sector).map (GcrReader.foundOf h image) ∧
      (sectorOrder h.spt d.enc.sector).Perm (List.range h.spt) ∧
      (GcrReader.start.read (gcrEmitted d u t)).faults = 0 ∧
      (gcrAfter d u t).enc.Start ∧ (gcrAfter d u t).enc.sector = d.enc.sector := by
  obtain ⟨hfound, hfaults, hstart, hend⟩ := gcr_sectors hs hr ht
  have hspt := sptOf_cases h.track.toNat
  exact ⟨hfound, sectorOrder_perm hspt hsector, hfaults, hstart,
    hend.trans (nextSector_cycle hspt hsector).1⟩

end Clocks

/-! ### Runs -/

/-- The upper side of the innermost track of a double-sided disk. -/
def innerHead : GcrHead := ⟨true, true, 79⟩

/-- A drive at reset. -/
def GcrDrive.reset : GcrDrive := ⟨⟨.syn0, 0, 0, 0, Nibbler.reset, 0⟩, 0, false⟩

/-- A byte every other clock. -/
def everyOther (image : ℕ → Byte) : ℕ → GcrIn :=
  loopStream GcrDrive.step (fun t d => ⟨t % 2 == 1, innerHead, image d.addr⟩) GcrDrive.reset

section Alternate

variable {d : GcrDrive} {u : ℕ → GcrIn}

theorem gcrReady_alternate (hu : ∀ k, (u k).newByteReady = (k % 2 == 1)) (t : ℕ) :
    gcrReady d u t = (t % 2 == 1) := by
  unfold gcrReady GcrDrive.ready
  rw [hu t]
  rcases t with _ | t
  · simp
  · change (!(u t).newByteReady && ((t + 1) % 2 == 1)) = ((t + 1) % 2 == 1)
    rw [hu t]
    rcases Nat.mod_two_eq_zero_or_one t with h | h
    · rw [h]
      rfl
    · have h' : (t + 1) % 2 = 0 := by omega
      rw [h']
      simp

theorem gcrPulses_alternate (hu : ∀ k, (u k).newByteReady = (k % 2 == 1)) (n : ℕ) :
    gcrPulses d u (2 * n) = n := by
  induction n with
  | zero => rfl
  | succ n ih =>
    unfold gcrPulses at ih ⊢
    have h0 : gcrReady d u (2 * n) = false := by
      rw [gcrReady_alternate hu, Nat.mul_mod_right]
      rfl
    have h1 : gcrReady d u (2 * n + 1) = true := by
      rw [gcrReady_alternate hu, Nat.mul_add_mod]
      rfl
    rw [Nat.mul_succ, List.range_succ, List.range_succ, List.filter_append, List.filter_append,
      List.length_append, List.length_append, ih]
    simp [h0, h1]

end Alternate

theorem gcrRests_everyOther (image : ℕ → Byte) (t : ℕ) :
    GcrRests innerHead image GcrDrive.reset (everyOther image) t := by
  refine ⟨by decide, fun _ _ => rfl, fun k _ _ => ?_⟩
  rw [gcrAfter, everyOther, run_loopStream]
  rfl

/-- An image whose sectors are filled with their numbers. -/
def numberedImage (a : ℕ) : Byte := BitVec.ofNat 8 (a / 512)

/-- Sector `s` of the innermost track is sector 1592 + `s` of the image. -/
theorem gcrPayload_innerHead {s : ℕ} (hs : s < 8) :
    (gcrPayload innerHead numberedImage s).map BitVec.toNat = List.replicate 512 (56 + s) := by
  have hfirst : innerHead.firstSector = 1592 := by decide
  have hbyte : ∀ k ∈ List.range 512, (gcrByte innerHead numberedImage s k).toNat = 56 + s := by
    intro k hk
    rw [List.mem_range] at hk
    rw [gcrByte, numberedImage, hfirst, BitVec.toNat_ofNat]
    omega
  rw [gcrPayload, List.map_map, List.eq_replicate_iff]
  refine ⟨by simp, fun b hb => ?_⟩
  obtain ⟨k, hk, rfl⟩ := List.mem_map.mp hb
  exact hbyte k hk

theorem gcr_round_trip_everyOther :
    (GcrReader.start.read (gcrEmitted GcrDrive.reset (everyOther numberedImage) 12512)).found =
        [0, 2, 4, 6, 1, 3, 5, 7].map
          (fun s => ⟨⟨79, 1, s, 0x22⟩, List.replicate 12 0, List.replicate 512 (56 + s)⟩) ∧
      (GcrReader.start.read
        (gcrEmitted GcrDrive.reset (everyOther numberedImage) 12512)).faults = 0 := by
  have h := gcr_round_trip (d := GcrDrive.reset) ⟨rfl, rfl, by decide, rfl⟩ (by decide)
    (gcrRests_everyOther numberedImage 12512) (gcrPulses_alternate (fun _ => rfl) 6256)
  have horder : sectorOrder innerHead.spt GcrDrive.reset.enc.sector = [0, 2, 4, 6, 1, 3, 5, 7] := by
    decide
  rw [horder] at h
  refine ⟨h.1.trans (List.map_congr_left fun s hs => ?_), h.2.2.1⟩
  have hlt : s < 8 := by
    revert s
    decide
  rw [GcrReader.foundOf, gcrPayload_innerHead hlt]
  rfl

end Floppy
