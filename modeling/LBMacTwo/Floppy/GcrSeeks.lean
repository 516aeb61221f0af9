import LBMacTwo.Floppy.GcrReader

/-!
# The GCR encoder under a head that moves

* `InSectors`: the emitted bytes are those of whole sectors of tracks of the disk, the last one
  broken off;
* `underHead`: the part of a sector in which the encoder looks at the head;
* `Seeks`: where the head moves, the encoder is in another part and its sector counter names a
  sector of the new track;
* `Along`, `Along.step`: the sector that is being emitted, and one clock of it;
* `inSectors_of_seeks`: along such moves the emitted bytes are in sectors;
* `ninth_sector`: a head that steps from a track of nine sectors to one of eight.
-/

namespace Floppy
open Clocked Schedule

variable {h H : GcrHead} {image : ℕ → Byte} {d : GcrDrive} {e : GcrEncoder} {u : ℕ → GcrIn} {t : ℕ}

/-- The bytes are a prefix of the bytes of sectors that their tracks have. -/
def InSectors (image : ℕ → Byte) (bs : List Byte) : Prop :=
  ∃ ps : List (GcrHead × ℕ), (∀ p ∈ ps, p.1.track.toNat < 80 ∧ p.2 < p.1.spt) ∧
    bs <+: ps.flatMap fun p => gcrSector p.1 image p.2

/-! ### The place of a byte in its sector -/

/-- The place of the first byte of a state. -/
def GcrState.base : GcrState → ℕ
  | syn0 => 0
  | addr => 56
  | syn1 => 66
  | dhdr => 71
  | dzro => 75
  | dpre => 87
  | data => 91
  | dsum => 774
  | dtrl => 778
  | wait => 781

/-- The place of the byte on the wires. -/
def GcrEncoder.place (e : GcrEncoder) : ℕ := e.state.base + e.count

theorem length_gcrSector (s : ℕ) : (gcrSector h image s).length = 782 := by
  have hdata := @GcrReader.length_dataNibbles h image s
  have hsize : FieldKind.data.size = 704 := rfl
  simp only [gcrSector, addressNibbles_eq, List.length_append, List.length_replicate, List.length_map,
    hdata, hsize, List.length_cons, List.length_nil]

theorem GcrState.base_next {st : GcrState} (hst : st ≠ .wait) :
    st.next.base = st.base + st.lenM1 + 1 := by
  cases st <;> first | rfl | exact absurd rfl hst

/-- The states before, and the states after a state of a sector. -/
theorem gcrStates_split (st : GcrState) (s : ℕ) :
    ∃ l r, gcrStates s = l ++ (st, s) :: r ∧ (l.map fun p => p.1.lenM1 + 1).sum = st.base := by
  have hplace : ∃ n, (gcrStates s)[n]? = some (st, s) ∧
      (((gcrStates s).take n).map fun p => p.1.lenM1 + 1).sum = st.base := by
    cases st
    case syn0 => exact ⟨0, rfl, by simp [GcrState.base]⟩
    case addr => exact ⟨1, rfl, by simp [gcrStates, GcrState.lenM1, GcrState.base]⟩
    case syn1 => exact ⟨2, rfl, by simp [gcrStates, GcrState.lenM1, GcrState.base]⟩
    case dhdr => exact ⟨3, rfl, by simp [gcrStates, GcrState.lenM1, GcrState.base]⟩
    case dzro => exact ⟨4, rfl, by simp [gcrStates, GcrState.lenM1, GcrState.base]⟩
    case dpre => exact ⟨5, rfl, by simp [gcrStates, GcrState.lenM1, GcrState.base]⟩
    case data => exact ⟨6, rfl, by simp [gcrStates, GcrState.lenM1, GcrState.base]⟩
    case dsum => exact ⟨7, rfl, by simp [gcrStates, GcrState.lenM1, GcrState.base]⟩
    case dtrl => exact ⟨8, rfl, by simp [gcrStates, GcrState.lenM1, GcrState.base]⟩
    case wait => exact ⟨9, rfl, by simp [gcrStates, GcrState.lenM1, GcrState.base]⟩
  obtain ⟨n, hn, hsum⟩ := hplace
  obtain ⟨hlt, hst⟩ := List.getElem?_eq_some_iff.mp hn
  refine ⟨(gcrStates s).take n, (gcrStates s).drop (n + 1), ?_, hsum⟩
  rw [← hst, ← List.drop_eq_getElem_cons, List.take_append_drop]

/-- The byte of a tick stands at its place of the sector. -/
theorem getElem_gcrSector (hk : e.count ≤ e.state.lenM1) :
    (gcrSector h image e.sector)[e.place]? = some (gcrSpotByte h image e.spot) := by
  obtain ⟨l, r, hsplit, hbase⟩ := gcrStates_split e.state e.sector
  have hlen : (l.flatMap (stint fun p : GcrState × ℕ => p.1.lenM1)).length = e.state.base := by
    rw [← hbase, List.length_flatMap]
    simp only [stint, List.length_map, List.length_range]
  have hlt : e.count < e.state.lenM1 + 1 := by omega
  have hstint : (stint (fun p : GcrState × ℕ => p.1.lenM1) (e.state, e.sector))[e.count]? =
      some e.spot := by
    rw [stint, List.getElem?_map, List.getElem?_range hlt]
    rfl
  have hlt' : e.count < (stint (fun p : GcrState × ℕ => p.1.lenM1) (e.state, e.sector)).length := by
    rw [stint, List.length_map, List.length_range]
    exact hlt
  rw [← map_gcrStates, List.getElem?_map, hsplit, List.flatMap_append, List.flatMap_cons,
    GcrEncoder.place, ← hlen, List.getElem?_append_right (Nat.le_add_right _ _),
    Nat.add_sub_cancel_left, List.getElem?_append_left hlt', hstint, Option.map_some]

/-- The first bytes of a sector do not depend on the head. -/
theorem take_gcrSector {n s : ℕ} (hn : n ≤ 59) :
    (gcrSector h image s).take n = (gcrSector H image s).take n := by
  have hlead : ∀ h : GcrHead, (gcrSector h image s).take n =
      (List.replicate 56 (0xFF : Byte) ++ [0xD5, 0xAA, 0x96]).take n := by
    intro h
    simp only [gcrSector, List.append_assoc]
    rw [← List.append_assoc, List.take_append_of_le_length]
    simpa using hn
  rw [hlead, hlead]

/-! ### The parts of a sector -/

namespace GcrEncoder

/-- In the part of a sector before the nibbles of the address. -/
def leads (e : GcrEncoder) : Bool := e.state == .syn0 || e.state == .addr && decide (e.count < 3)

/-- In the part after the last byte of the payload has been fetched. -/
def trails (e : GcrEncoder) : Bool :=
  e.state == .data && decide (678 ≤ e.count) || e.state == .dsum || e.state == .dtrl ||
    e.state == .wait

/-- In the part in which the encoder looks at the head. -/
def underHead (e : GcrEncoder) : Bool := !e.leads && !e.trails

theorem leads_place (hi : e.Inv h image) (hl : e.leads = true) :
    e.place ≤ 59 ∧ e.strobe = false ∧ e.trails = false ∧ e.Inv H image := by
  have hcount := hi.count_le
  have hsrc := hi.src
  obtain ⟨hlt, hst⟩ | ⟨hlt, hst⟩ :
      e.count ≤ 55 ∧ e.state = .syn0 ∨ e.count < 3 ∧ e.state = .addr := by
    simp only [leads, Bool.or_eq_true, Bool.and_eq_true, beq_iff_eq, decide_eq_true_eq] at hl
    rcases hl with hst | ⟨hst, hlt⟩
    · rw [hst] at hcount
      exact .inl ⟨hcount, hst⟩
    · exact .inr ⟨hlt, hst⟩
  · refine ⟨?_, by simp [strobe, hst], by simp [trails, hst], ⟨hcount, hi.sector_lt, hsrc, ?_⟩⟩
    · rw [place, hst]
      exact Nat.le_trans (Nat.add_le_add_left hlt 0) (by decide)
    · rw [hst]
      trivial
  · refine ⟨?_, by simp [strobe, hst], by simp [trails, hst], ⟨hcount, hi.sector_lt, hsrc, ?_⟩⟩
    · rw [place, hst]
      change 56 + e.count ≤ 59
      omega
    · rw [hst]
      trivial

/-- Behind the payload nothing is fetched, and nothing but the next sector depends on the head. -/
theorem trails_head (ht : e.trails = true) :
    e.strobe = false ∧ e.odata H = e.odata h ∧
      (e.state ≠ .wait → ∀ a b, e.advance H a = e.advance h b) := by
  have hstates : e.state = .data ∧ 678 ≤ e.count ∨ e.state = .dsum ∨ e.state = .dtrl ∨
      e.state = .wait := by
    simpa [trails, or_assoc] using ht
  have hstrobe : e.strobe = false := by
    rcases hstates with ⟨hst, hge⟩ | hst | hst | hst
    · simp [strobe, hst]
      omega
    all_goals simp [strobe, hst]
  refine ⟨hstrobe, ?_, ?_⟩
  · rcases hstates with ⟨hst, -⟩ | hst | hst | hst
    all_goals simp only [odata, si, hst]
  · intro hw a b
    simp only [advance, hstrobe, hw, if_false, Bool.false_eq_true]

theorem trails_pulse (hi : e.Inv h image) (ht : e.trails = true) (hw : e.state ≠ .wait) :
    (e.pulse h image).trails = true := by
  by_cases hend : e.count = e.state.lenM1
  · obtain ⟨hst', -, -⟩ := pulse_end hi hend
    cases hst : e.state
    case data => simp [trails, hst', hst, GcrState.next]
    case dsum => simp [trails, hst', hst, GcrState.next]
    case dtrl => simp [trails, hst', hst, GcrState.next]
    case wait => exact absurd hst hw
    all_goals simp [trails, hst] at ht
  · obtain ⟨hst', -, hk'⟩ := pulse_mid hi hend
    simp only [trails, hst', hk', Bool.or_eq_true, Bool.and_eq_true, decide_eq_true_eq] at ht ⊢
    exact Or.imp_left (Or.imp_left (Or.imp_left (And.imp_right Nat.le_succ_of_le))) ht

theorem place_pulse (hi : e.Inv h image) (hw : e.state ≠ .wait) :
    (e.pulse h image).place = e.place + 1 ∧ (e.pulse h image).sector = e.sector := by
  by_cases hend : e.count = e.state.lenM1
  · obtain ⟨hst', hs', hk'⟩ := pulse_end hi hend
    refine ⟨?_, hs' hw⟩
    rw [place, place, hst', hk', hend, GcrState.base_next hw, Nat.add_zero]
  · obtain ⟨hst', hs', hk'⟩ := pulse_mid hi hend
    refine ⟨?_, hs'⟩
    rw [place, place, hst', hk', Nat.add_assoc]

end GcrEncoder

/-! ### Moving heads -/

/-- The encoder emits the current sector of `h` behind the sectors `ps`; the head has been at `H`.
The encoder has not looked at the head yet, or it was at `h` and still is, or it does not any more. -/
structure Along (image : ℕ → Byte) (H : GcrHead) (d : GcrDrive) (bs : List Byte)
    (ps : List (GcrHead × ℕ)) (h : GcrHead) : Prop where
  pairs : ∀ p ∈ ps, p.1.track.toNat < 80 ∧ p.2 < p.1.spt
  track : h.track.toNat < 80
  sector_lt : d.enc.sector < h.spt
  inv : d.enc.Inv h image
  bytes : bs = (ps.flatMap fun p => gcrSector p.1 image p.2) ++
    (gcrSector h image d.enc.sector).take d.enc.place
  addr : d.oldNewByteReady = false → d.enc.strobe = true → d.addr = d.enc.fetch h
  head : d.enc.trails = false → h = H
  counter : d.enc.sector < H.spt

namespace Along

variable {bs : List Byte} {ps : List (GcrHead × ℕ)} {i : GcrIn}

/-- The head moves. -/
theorem move {H' : GcrHead} (ha : Along image H d bs ps h) (ht : H'.track.toNat < 80)
    (hm : H' ≠ H → d.enc.underHead = false ∧ d.enc.sector < H'.spt) :
    ∃ h', Along image H' d bs ps h' := by
  by_cases hmoved : H' = H
  · rw [hmoved]
    exact ⟨h, ha⟩
  · obtain ⟨hpart, hlt⟩ := hm hmoved
    cases hl : d.enc.leads
    case true =>
      obtain ⟨hplace, hstrobe, -, hinv⟩ := GcrEncoder.leads_place (H := H') ha.inv hl
      refine ⟨H', ha.pairs, ht, hlt, hinv, ?_, fun _ hs => ?_, fun _ => rfl, hlt⟩
      · rw [take_gcrSector (H := h) hplace]
        exact ha.bytes
      · rw [hstrobe] at hs
        cases hs
    case false =>
      have htrails : d.enc.trails = true := by simpa [GcrEncoder.underHead, hl] using hpart
      refine ⟨h, ha.pairs, ha.track, ha.sector_lt, ha.inv, ha.bytes, ha.addr, fun hf => ?_, hlt⟩
      rw [htrails] at hf
      cases hf

/-- The byte on the wires is that of the sector. -/
theorem odata (ha : Along image H d bs ps h) : d.enc.odata H = gcrSpotByte h image d.enc.spot := by
  cases htr : d.enc.trails
  case true => rw [(GcrEncoder.trails_head (H := H) (h := h) htr).2.1, GcrEncoder.odata_eq ha.inv]
  case false => rw [← ha.head htr, GcrEncoder.odata_eq ha.inv]

theorem take_succ (ha : Along image H d bs ps h) :
    (gcrSector h image d.enc.sector).take (d.enc.place + 1) =
      (gcrSector h image d.enc.sector).take d.enc.place ++ [d.enc.odata H] := by
  rw [List.take_add_one, getElem_gcrSector ha.inv.count_le, ha.odata, Option.toList_some]

/-- A clock without a pulse. -/
theorem idle (ha : Along image i.head d bs ps h) (hready : d.ready i = false) :
    Along image i.head (d.step i) bs ps h := by
  have hstep : d.step i = ⟨d.enc.idle, d.enc.fetch i.head, i.newByteReady⟩ := by
    rw [GcrDrive.step, hready, if_neg Bool.false_ne_true]
  rw [hstep]
  refine ⟨ha.pairs, ha.track, ha.sector_lt, ha.inv.idle, ha.bytes, fun _ hs => ?_, ha.head,
    ha.counter⟩
  have htr : d.enc.idle.trails = false := by
    by_contra htr
    have hstrobe := (GcrEncoder.trails_head (H := h) (h := h) (Bool.not_eq_false _ ▸ htr)).1
    rw [hstrobe] at hs
    cases hs
  change d.enc.fetch i.head = d.enc.fetch h
  rw [ha.head htr]

/-- A pulse within a sector. -/
theorem pulse (ha : Along image i.head d bs ps h) (hready : d.ready i = true)
    (hidata : i.idata = image d.addr) (hw : d.enc.state ≠ .wait) :
    Along image i.head (d.step i) (bs ++ [d.enc.odata i.head]) ps h := by
  obtain ⟨hold, hnew⟩ : d.oldNewByteReady = false ∧ i.newByteReady = true := by
    simpa [GcrDrive.ready] using hready
  have hadvance : d.enc.advance i.head i.idata = d.enc.pulse h image := by
    cases htr : d.enc.trails
    case true => exact (GcrEncoder.trails_head htr).2.2 hw _ _
    case false =>
      rw [← ha.head htr, hidata]
      exact GcrEncoder.advance_eq_pulse fun hs => by rw [ha.addr hold hs]
  have hstep : d.step i = ⟨d.enc.pulse h image, d.enc.fetch i.head, true⟩ := by
    rw [GcrDrive.step, hready, if_pos rfl, hadvance, hnew]
  obtain ⟨hplace, hsector⟩ := GcrEncoder.place_pulse ha.inv hw
  rw [hstep]
  refine ⟨ha.pairs, ha.track, ?_, ha.inv.pulse ha.track, ?_, fun hf => ?_, fun htr => ?_, ?_⟩
  · exact hsector ▸ ha.sector_lt
  · change bs ++ _ = _ ++ (gcrSector h image (d.enc.pulse h image).sector).take
      (d.enc.pulse h image).place
    rw [hplace, hsector, ha.take_succ, ← List.append_assoc, ← ha.bytes]
  · cases hf
  · refine ha.head ?_
    by_contra hne
    have htr' := GcrEncoder.trails_pulse ha.inv (Bool.not_eq_false _ ▸ hne) hw
    rw [htr'] at htr
    cases htr
  · exact hsector ▸ ha.counter

/-- The pulse at the end of a sector. -/
theorem turn (ha : Along image i.head d bs ps h) (hready : d.ready i = true)
    (ht : i.head.track.toNat < 80) (hw : d.enc.state = .wait) :
    Along image i.head (d.step i) (bs ++ [d.enc.odata i.head]) (ps ++ [(h, d.enc.sector)])
      i.head := by
  have hnew : i.newByteReady = true := by
    have hboth : d.oldNewByteReady = false ∧ i.newByteReady = true := by
      simpa [GcrDrive.ready] using hready
    exact hboth.2
  have hcount : d.enc.count = 0 := by
    have hle := ha.inv.count_le
    rw [hw] at hle
    exact Nat.le_zero.mp hle
  have hstep : d.step i = ⟨d.enc.advance i.head i.idata, d.enc.fetch i.head, true⟩ := by
    rw [GcrDrive.step, hready, if_pos rfl, hnew]
  have hstart : (d.enc.advance i.head i.idata).state = .syn0 ∧
      (d.enc.advance i.head i.idata).count = 0 ∧
      (d.enc.advance i.head i.idata).sector =
        GcrEncoder.nextSector i.head.spt d.enc.sector ∧
      (d.enc.advance i.head i.idata).srcOffset = 0 := by
    simp [GcrEncoder.advance, hw, GcrState.next]
  obtain ⟨hst, hk, hs, hsrc⟩ := hstart
  have hlt : (d.enc.advance i.head i.idata).sector < i.head.spt := by
    rw [hs]
    exact (nextSector_cycle (sptOf_cases _) ha.counter).2
  have hstart : (d.enc.advance i.head i.idata).Start :=
    ⟨hst, hk, hs ▸ GcrEncoder.nextSector_lt, hsrc⟩
  have hlast : d.enc.place + 1 = 782 := by
    rw [GcrEncoder.place, hw, hcount]
    rfl
  rw [hstep]
  refine ⟨?_, ht, hlt, hstart.inv, ?_, fun hf => ?_, fun _ => rfl, hlt⟩
  · intro p hp
    rcases List.mem_append.mp hp with hp | hp
    · exact ha.pairs p hp
    · rw [List.mem_singleton.mp hp]
      exact ⟨ha.track, ha.sector_lt⟩
  · have htake := ha.take_succ
    rw [hlast, List.take_of_length_le (length_gcrSector _).le] at htake
    have hplace : (d.enc.advance i.head i.idata).place = 0 := by
      rw [GcrEncoder.place, hst, hk]
      rfl
    change _ = _ ++ (gcrSector i.head image (d.enc.advance i.head i.idata).sector).take
      (d.enc.advance i.head i.idata).place
    rw [hplace, List.take_zero, List.append_nil, List.flatMap_append, List.flatMap_singleton, htake,
      ← List.append_assoc, ← ha.bytes]
  · cases hf

end Along

/-! ### Runs -/

theorem gcrEmitted_succ (d : GcrDrive) (u : ℕ → GcrIn) (t : ℕ) :
    gcrEmitted d u (t + 1) = gcrEmitted d u t ++
      if gcrReady d u t then [(gcrAfter d u t).enc.odata (u t).head] else [] := by
  unfold gcrEmitted
  rw [List.range_succ, List.filter_append, List.map_append]
  cases hready : gcrReady d u t <;> simp [hready]

/-- The head stays on the disk, `idata` is the image byte at `addr` where `ready` is up, and the head
moves only when the encoder does not look at it, to a track that has the sector of the counter. -/
structure Seeks (image : ℕ → Byte) (d : GcrDrive) (u : ℕ → GcrIn) (t : ℕ) : Prop where
  track : ∀ k < t, (u k).head.track.toNat < 80
  idata : ∀ k < t, gcrReady d u k = true → (u k).idata = image (gcrAfter d u k).addr
  move : ∀ k, k + 1 < t → (u (k + 1)).head ≠ (u k).head →
    (gcrAfter d u (k + 1)).enc.underHead = false ∧
      (gcrAfter d u (k + 1)).enc.sector < (u (k + 1)).head.spt

theorem along_run (hs : d.enc.Start) (h0 : d.enc.sector = 0) (hr : Seeks image d u t) (ht : 0 < t) :
    ∀ k ≤ t, ∃ ps h, Along image (u (k - 1)).head (gcrAfter d u k) (gcrEmitted d u k) ps h := by
  intro k
  induction k with
  | zero =>
    intro _
    have hlt : d.enc.sector < (u 0).head.spt := by
      have hspt := sptOf_cases (u 0).head.track.toNat
      unfold GcrHead.spt
      omega
    have hplace : d.enc.place = 0 := by
      rw [GcrEncoder.place, hs.state, hs.count]
      rfl
    refine ⟨[], (u 0).head, fun _ hp => absurd hp List.not_mem_nil, hr.track 0 ht, hlt, hs.inv, ?_,
      fun _ hstrobe => ?_, fun _ => rfl, hlt⟩
    · change [] = [] ++ (gcrSector _ image d.enc.sector).take d.enc.place
      rw [hplace]
      rfl
    · have hstrobe' : d.enc.strobe = true := hstrobe
      rw [hs.strobe] at hstrobe'
      cases hstrobe'
  | succ k ih =>
    intro hk
    obtain ⟨ps, h, ha⟩ := ih (by omega)
    have htrack := hr.track k (by omega)
    have hmove : (u k).head ≠ (u (k - 1)).head → (gcrAfter d u k).enc.underHead = false ∧
        (gcrAfter d u k).enc.sector < (u k).head.spt := by
      intro hne
      cases k with
      | zero => exact absurd rfl hne
      | succ k => exact hr.move k (by omega) hne
    obtain ⟨h, ha⟩ := ha.move htrack hmove
    have hstep : gcrAfter d u (k + 1) = (gcrAfter d u k).step (u k) := rfl
    rw [Nat.add_sub_cancel, hstep, gcrEmitted_succ]
    cases hready : gcrReady d u k
    case false =>
      rw [if_neg Bool.false_ne_true, List.append_nil]
      exact ⟨ps, h, ha.idle hready⟩
    case true =>
      rw [if_pos rfl]
      by_cases hw : (gcrAfter d u k).enc.state = .wait
      · exact ⟨_, _, ha.turn hready htrack hw⟩
      · exact ⟨ps, h, ha.pulse hready (hr.idata k (by omega) hready) hw⟩

/-- From a reset, whatever the pulses of `ready`, the emitted bytes are in sectors if every move of
the head finds the encoder outside the part of the sector that belongs to a position, and the sector
counter below the number of sectors of the new track. -/
theorem inSectors_of_seeks (hs : d.enc.Start) (h0 : d.enc.sector = 0) (hr : Seeks image d u t) :
    InSectors image (gcrEmitted d u t) := by
  rcases Nat.eq_zero_or_pos t with rfl | ht
  · exact ⟨[], fun _ hp => absurd hp List.not_mem_nil, List.prefix_rfl⟩
  · obtain ⟨ps, h, ha⟩ := along_run hs h0 hr ht t le_rfl
    refine ⟨ps ++ [(h, (gcrAfter d u t).enc.sector)], ?_, ?_⟩
    · intro p hp
      rcases List.mem_append.mp hp with hp | hp
      · exact ha.pairs p hp
      · rw [List.mem_singleton.mp hp]
        exact ⟨ha.track, ha.sector_lt⟩
    · rw [ha.bytes, List.flatMap_append, List.flatMap_singleton]
      exact List.prefix_append_right_inj _ |>.mpr (List.take_prefix _ _)

/-! ### A step to a shorter track -/

theorem gcrEmitted_add (d : GcrDrive) (u : ℕ → GcrIn) (a b : ℕ) :
    gcrEmitted d u (a + b) =
      gcrEmitted d u a ++ gcrEmitted (gcrAfter d u a) (fun k => u (a + k)) b := by
  induction b with
  | zero => exact (List.append_nil _).symm
  | succ b ih =>
    have hrun : gcrAfter d u (a + b) = gcrAfter (gcrAfter d u a) (fun k => u (a + k)) b := run_add ..
    rw [← Nat.add_assoc, gcrEmitted_succ, ih, gcrEmitted_succ, List.append_assoc, gcrReady, gcrReady,
      hrun]

/-- Without pulses the encoder stays where it is. -/
theorem gcr_quiet (hs : d.enc.Start) (hu : ∀ k < t, (u k).newByteReady = false) :
    gcrEmitted d u t = [] ∧ (gcrAfter d u t).enc.Start ∧
      (gcrAfter d u t).enc.sector = d.enc.sector := by
  induction t with
  | zero => exact ⟨rfl, hs, rfl⟩
  | succ t ih =>
    obtain ⟨hnone, hstart, hsector⟩ := ih fun k hk => hu k (by omega)
    have hready : gcrReady d u t = false := by
      rw [gcrReady, GcrDrive.ready, hu t (by omega), Bool.and_false]
    have henc : (gcrAfter d u (t + 1)).enc = (gcrAfter d u t).enc.idle := by
      change (if gcrReady d u t then _ else (gcrAfter d u t).enc.idle) = _
      rw [hready, if_neg Bool.false_ne_true]
    rw [gcrEmitted_succ, hready, if_neg Bool.false_ne_true, hnone, henc]
    exact ⟨rfl, ⟨hstart.state, hstart.count, hstart.sector, hstart.srcOffset⟩, hsector⟩

theorem drop_flatMap_gcrSector (n : ℕ) (ps : List (GcrHead × ℕ)) :
    (ps.flatMap fun p => gcrSector p.1 image p.2).drop (782 * n) =
      (ps.drop n).flatMap fun p => gcrSector p.1 image p.2 := by
  induction ps generalizing n with
  | nil => simp
  | cons p ps ih =>
    cases n with
    | zero => rfl
    | succ n =>
      have hlen := @length_gcrSector p.1 image p.2
      have hmul : 782 * (n + 1) = (gcrSector p.1 image p.2).length + 782 * n := by omega
      rw [List.flatMap_cons, hmul, List.drop_length_add_append, ih, List.drop_succ_cons]

/-- The bytes of a sector name its track and its number. -/
theorem addressNibbles_of_gcrSector {h' : GcrHead} {s s' : ℕ}
    (heq : gcrSector h image s = gcrSector h' image s') : addressNibbles h s = addressNibbles h' s' := by
  have haddr : ∀ h s, ((gcrSector h image s).drop 59).take 5 =
      (addressNibbles h s).map sonyToDiskByte := by
    intro h s
    simp [gcrSector, addressNibbles_eq]
  have hinj : Function.Injective sonyToDiskByte := by
    intro a b hab
    have ha := diskToSony_sonyToDiskByte a
    rw [hab, diskToSony_sonyToDiskByte] at ha
    exact BitVec.eq_of_toNat_eq (Option.some.inj ha).symm
  have hmap := congrArg (fun bs => (bs.drop 59).take 5) heq
  simp only [haddr] at hmap
  exact List.map_injective_iff.mpr hinj hmap

/-- A sector behind whole sectors is one that its track has. -/
theorem InSectors.last {s : ℕ} {bs : List Byte} {n : ℕ} (hn : bs.length = 782 * n)
    (hin : InSectors image (bs ++ gcrSector h image s)) :
    ∃ h' s', s' < h'.spt ∧ addressNibbles h s = addressNibbles h' s' := by
  obtain ⟨ps, hps, r, hr⟩ := hin
  have hdrop := congrArg (List.drop (782 * n)) hr
  rw [drop_flatMap_gcrSector, List.append_assoc, List.drop_left' hn] at hdrop
  rcases hrest : ps.drop n with _ | ⟨p, rest⟩
  · rw [hrest, List.flatMap_nil, List.append_eq_nil_iff] at hdrop
    have hlen := @length_gcrSector h image s
    rw [hdrop.1] at hlen
    cases hlen
  · rw [hrest, List.flatMap_cons] at hdrop
    have hp : p ∈ ps := List.mem_of_mem_drop (hrest ▸ List.mem_cons_self)
    have hsector := List.append_inj_left hdrop
      ((length_gcrSector s).trans (length_gcrSector p.2).symm)
    exact ⟨p.1, p.2, (hps p hp).2, addressNibbles_of_gcrSector hsector⟩

/-- The head steps out to track 63, rests there for four sectors, and steps on. -/
def stepOut (k : ℕ) : GcrHead := ⟨false, false, BitVec.ofNat 7 (if k < 6320 then min k 63 else 64)⟩

/-- From clock 64 on a byte every other clock. -/
def stepsOut : ℕ → GcrIn :=
  loopStream GcrDrive.step
    (fun t d => ⟨decide (64 ≤ t) && t % 2 == 1, stepOut t, numberedImage d.addr⟩) GcrDrive.reset

theorem stepsOut_rests {a n : ℕ} (hh : ∀ k < n, stepOut (a + k) = h) (ht : h.track.toNat < 80) :
    GcrRests h numberedImage (gcrAfter GcrDrive.reset stepsOut a) (fun k => stepsOut (a + k)) n := by
  refine ⟨ht, hh, fun k _ _ => ?_⟩
  have hrun : gcrAfter (gcrAfter GcrDrive.reset stepsOut a) (fun k => stepsOut (a + k)) k =
      gcrAfter GcrDrive.reset stepsOut (a + k) := (run_add ..).symm
  rw [hrun, gcrAfter, stepsOut, run_loopStream]
  rfl

theorem stepsOut_alternate {a : ℕ} (ha : 64 ≤ a) (ha' : a % 2 = 0) (k : ℕ) :
    (stepsOut (a + k)).newByteReady = (k % 2 == 1) := by
  change (decide (64 ≤ a + k) && (a + k) % 2 == 1) = (k % 2 == 1)
  have hmod : (a + k) % 2 = k % 2 := by omega
  rw [decide_eq_true (by omega), Bool.true_and, hmod]

theorem stepsOut_quiet (t : ℕ) (ht : t ≤ 64) :
    gcrEmitted GcrDrive.reset stepsOut t = [] ∧
      (gcrAfter GcrDrive.reset stepsOut t).enc.Start ∧
      (gcrAfter GcrDrive.reset stepsOut t).enc.sector = 0 := by
  refine gcr_quiet ⟨rfl, rfl, by decide, rfl⟩ fun k hk => ?_
  change (decide (64 ≤ k) && _) = false
  rw [decide_eq_false (by omega), Bool.false_and]

theorem inSectors_stepsOut :
    (∀ k < 63, (stepsOut k).head.track = BitVec.ofNat 7 k) ∧
      InSectors numberedImage (gcrEmitted GcrDrive.reset stepsOut 6320) := by
  have hhead : ∀ k < 6320, (stepsOut k).head = ⟨false, false, BitVec.ofNat 7 (min k 63)⟩ := by
    intro k hk
    change stepOut k = _
    rw [stepOut, if_pos hk]
  refine ⟨fun k hk => ?_, inSectors_of_seeks ⟨rfl, rfl, by decide, rfl⟩ rfl ⟨?_, ?_, ?_⟩⟩
  · rw [hhead k (by omega), min_eq_left (by omega)]
  · intro k hk
    rw [hhead k hk, BitVec.toNat_ofNat]
    omega
  · intro k _ _
    rw [gcrAfter, stepsOut, run_loopStream]
    rfl
  · intro k hk hne
    have hlt : k < 63 := by
      by_contra hge
      rw [hhead k (by omega), hhead (k + 1) hk, min_eq_right (by omega), min_eq_right (by omega)] at hne
      exact hne rfl
    obtain ⟨-, hstart, hsector⟩ := stepsOut_quiet (k + 1) (by omega)
    have hspt := sptOf_cases (stepsOut (k + 1)).head.track.toNat
    refine ⟨by rw [GcrEncoder.underHead, GcrEncoder.leads, hstart.state]; rfl, ?_⟩
    rw [hsector]
    unfold GcrHead.spt
    omega

/-- On track 64, which has the sectors 0 to 7, the first sector is a sector 8. -/
theorem ninth_sector :
    ¬ InSectors numberedImage (gcrEmitted GcrDrive.reset stepsOut (64 + 6256 + 1564)) := by
  -- no byte comes while the head steps out to track 63
  obtain ⟨hnone, hstart, hsector⟩ := stepsOut_quiet 64 le_rfl
  -- four sectors of track 63
  have hrest : ∀ k < 6256, stepOut (64 + k) = stepOut 63 := by
    intro k hk
    rw [stepOut, stepOut, if_pos (by omega), if_pos (by omega), min_eq_right (by omega)]
    rfl
  obtain ⟨hfour, hstart', hsector'⟩ := @gcrEmitted_sectors _ _ _ _ _ hstart
    (stepsOut_rests hrest (by decide)) 4
    (gcrPulses_alternate (stepsOut_alternate (by omega) (by omega)) 3128)
  have hrun : gcrAfter (gcrAfter GcrDrive.reset stepsOut 64) (fun k => stepsOut (64 + k)) 6256 =
      gcrAfter GcrDrive.reset stepsOut (64 + 6256) := (run_add ..).symm
  rw [hrun] at hstart' hsector'
  rw [hsector] at hfour hsector'
  -- a sector of track 64
  have hrest' : ∀ k < 1564, stepOut (64 + 6256 + k) = stepOut 6320 := by
    intro k _
    rw [stepOut, stepOut, if_neg (by omega), if_neg (by omega)]
  obtain ⟨hlast, -, -⟩ := @gcrEmitted_sectors _ _ _ _ _ hstart' (stepsOut_rests hrest' (by decide)) 1
    (gcrPulses_alternate (stepsOut_alternate (by omega) (by omega)) 782)
  have height : (gcrAfter GcrDrive.reset stepsOut (64 + 6256)).enc.sector = 8 := hsector'
  have hbytes : gcrEmitted GcrDrive.reset stepsOut (64 + 6256 + 1564) =
      [0, 2, 4, 6].flatMap (gcrSector (stepOut 63) numberedImage) ++
        gcrSector (stepOut 6320) numberedImage 8 := by
    have hone : List.iterate (GcrEncoder.nextSector (stepOut 6320).spt) 8 1 = [8] := rfl
    rw [gcrEmitted_add, gcrEmitted_add, hnone, hfour, hlast, height, hone, List.flatMap_singleton]
    rfl
  intro hin
  rw [hbytes] at hin
  have hlen : ([0, 2, 4, 6].flatMap (gcrSector (stepOut 63) numberedImage)).length = 782 * 4 := by
    simp [length_gcrSector]
  obtain ⟨h', s', hlt, hnames⟩ := hin.last hlen
  rw [addressNibbles_eq, addressNibbles_eq] at hnames
  simp only [List.cons.injEq] at hnames
  obtain ⟨hlow, hname, hhi, -⟩ := hnames
  have htrack : ∀ (side : Bool) (track : BitVec 7),
      (stepOut 6320).trackLow = track.setWidth 6 →
      (stepOut 6320).trackHi = (BitVec.ofBool side ++ (0 : BitVec 4)) ++ track.extractLsb' 6 1 →
      sptOf track.toNat = 8 := by
    decide
  have hspt : h'.spt = 8 := htrack h'.side h'.track hlow hhi
  have hmod := congrArg BitVec.toNat hname
  change 8 = s' % 64 at hmod
  omega

end Floppy
