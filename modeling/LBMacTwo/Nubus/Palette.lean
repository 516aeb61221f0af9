import LBMacTwo.Nubus.ExactlyOnce

/-!
# Loading the palette

* `accesses`, `regs_run`: the registers of a card are those the accesses it has taken make of them;
* `Key.colourByte`, `Key.Spares`: the accesses that give the palette a byte, and those that leave it
  alone;
* `paint`: colours put into the table three bytes at a time;
* `palette_bytes`: what bytes do to the table, after those of an unfinished triple;
* `Loaded`, `loaded_iff`: when a sequence of colours arrives as it was written.
-/

namespace Nubus
open Clocked Cpu

/-! ### The registers and the accesses -/

/-- The access taken in this clock. -/
def Card.taken (c : Card) (b : Bus) : Option Key :=
  if c.state = .idle ∧ c.takes b = true then some b.key else none

section Accesses

variable (rom : ℕ → Word) (monitor512 : Bool) {c : Card} {b : Bus}

theorem regs_takeVramWrite (d : Card) : (Card.takeVramWrite b d).regs = d.regs := by
  unfold Card.takeVramWrite
  split_ifs <;> rfl

theorem regs_take {d : Card} (hd : d.regs = c.regs) :
    (c.take monitor512 b d).regs = c.regs.after b.key := by
  unfold Card.take Regs.after
  cases hr : addrIsRegs b.key.addr with
  | true =>
    simp only [hr, vram_of_regs hr, Bool.and_false, Bool.and_true, Bool.false_eq_true, if_false,
      if_true]
    cases b.key.rw <;> rfl
  | false =>
    simp only [hr, Bool.and_false, Bool.false_eq_true, if_false]
    split_ifs <;> first | exact hd | exact (regs_takeVramWrite _).trans hd

theorem regs_idleStep :
    (c.idleStep rom monitor512 b).regs = if c.takes b then c.regs.after b.key else c.regs := by
  unfold Card.idleStep
  by_cases htakes : c.takes b = true
  · rw [if_pos htakes, if_pos htakes]
    apply regs_take
    split_ifs <;> rfl
  · rw [if_neg htakes, if_neg htakes]
    split_ifs <;> rfl

/-- Only an access that is taken changes the registers. -/
theorem regs_step :
    (c.step rom monitor512 b).regs = ((c.taken b).elim c.regs c.regs.after) := by
  have hfsm : (c.step rom monitor512 b).regs = (c.fsm rom monitor512 b).regs := by
    unfold Card.step
    split_ifs <;> rfl
  rw [hfsm, Card.fsm, Card.taken]
  cases hstate : c.state with
  | idle =>
    simp only [true_and]
    rw [regs_idleStep]
    split_ifs <;> rfl
  | cpuWrite => rfl
  | cpuWriteWait =>
    simp only [reduceCtorEq, false_and, if_false]
    split_ifs <;> rfl
  | cpuRead => rfl
  | cpuReadWait =>
    simp only [reduceCtorEq, false_and, if_false]
    split_ifs <;> rfl
  | cpuRmwRead => rfl
  | cpuRmwReadWait =>
    simp only [reduceCtorEq, false_and, if_false]
    split_ifs <;> rfl
  | cpuRmwWrite => rfl

/-- The accesses the card takes in the first `m` clocks. -/
def accesses (c : Card) (u : ℕ → Bus) (m : ℕ) : List Key :=
  (List.range m).filterMap fun t => (run (Card.step rom monitor512) c u t).taken (u t)

theorem accesses_succ (c : Card) (u : ℕ → Bus) (m : ℕ) :
    accesses rom monitor512 c u (m + 1) = accesses rom monitor512 c u m ++
      ((run (Card.step rom monitor512) c u m).taken (u m)).toList := by
  rw [accesses, List.range_succ, List.filterMap_append]
  cases h : (run (Card.step rom monitor512) c u m).taken (u m) <;> simp [accesses, h]

theorem regs_run (c : Card) (u : ℕ → Bus) (m : ℕ) :
    (run (Card.step rom monitor512) c u m).regs =
      (accesses rom monitor512 c u m).foldl Regs.after c.regs := by
  induction m with
  | zero => rfl
  | succ m ih =>
    rw [run_succ, regs_step, ih, accesses_succ, List.foldl_append]
    cases (run (Card.step rom monitor512) c u m).taken (u m) <;> rfl

end Accesses

/-! ### The accesses and the palette -/

/-- The access writes a byte to the data register `$0207`. -/
def Key.colourByte (q : Key) : Option Byte :=
  if addrIsRegs q.addr && !q.rw && q.lds && 2 * field q.addr 15 1 == 0x206 then
    some (lowByte q.dataIn)
  else none

/-- The access does not write to `$0200` to `$0207`. A write whose strobes have not fallen yet, as the card
takes it first, writes nowhere. -/
def Key.Spares (q : Key) : Prop :=
  addrIsRegs q.addr = true → q.rw = false → (q.uds || q.lds) = true →
    field q.addr 15 1 < 0x100 ∨ 0x104 ≤ field q.addr 15 1

instance (q : Key) : Decidable q.Spares :=
  inferInstanceAs (Decidable (addrIsRegs q.addr = true → q.rw = false → (q.uds || q.lds) = true →
    field q.addr 15 1 < 0x100 ∨ 0x104 ≤ field q.addr 15 1))

namespace Regs

variable {r r' : Regs}

/-- The registers of the palette. -/
def palette (r : Regs) : BitVec 32 × BitVec 32 × BitVec 2 × (Byte → BitVec 24) :=
  (r.paletteAddr, r.palWr, r.palCnt, r.clut)

/-- The bytes of a triple that has not been finished. -/
def unfinished (r : Regs) : List Byte :=
  if r.palCnt = 1 then [r.palWr.extractLsb' 24 8]
  else if r.palCnt = 2 then [r.palWr.extractLsb' 16 8, r.palWr.extractLsb' 24 8]
  else []

theorem palette_writePalette (h : r.palette = r'.palette) (v : Byte) :
    (r.writePalette v).palette = (r'.writePalette v).palette := by
  have haddr : r.paletteAddr = r'.paletteAddr := congrArg Prod.fst h
  have hwr : r.palWr = r'.palWr := congrArg (fun p => p.2.1) h
  have hcnt : r.palCnt = r'.palCnt := congrArg (fun p => p.2.2.1) h
  have hclut : r.clut = r'.clut := congrArg (fun p => p.2.2.2) h
  unfold writePalette
  rw [haddr, hwr, hcnt, hclut]
  split_ifs <;> rfl

theorem palette_writeByte {ba : ℕ} {v : Byte} (h : ba < 0x200 ∨ 0x208 ≤ ba) :
    (r.writeByte ba v).palette = r.palette := by
  unfold writeByte
  split <;> first | rfl | omega

theorem colourByte_spares {q : Key} (h : q.Spares) : q.colourByte = none := by
  unfold Key.colourByte
  split_ifs with hq
  · rw [Bool.and_eq_true, Bool.and_eq_true, Bool.and_eq_true, Bool.not_eq_true', beq_iff_eq] at hq
    have hword := h hq.1.1.1 hq.1.1.2 (by rw [hq.1.2, Bool.or_true])
    omega
  · rfl

theorem palette_spares {q : Key} (h : q.Spares) : (r.after q).palette = r.palette := by
  unfold Regs.after
  cases hr : addrIsRegs q.addr with
  | false => rfl
  | true =>
    rw [if_pos rfl]
    cases hrw : q.rw with
    | true =>
      rw [if_pos rfl]
      unfold touch
      split_ifs <;> rfl
    | false =>
      rw [if_neg Bool.false_ne_true]
      unfold write
      cases hstrobes : (q.uds || q.lds) with
      | false =>
        rw [Bool.or_eq_false_iff] at hstrobes
        rw [hstrobes.1, hstrobes.2]
        rfl
      | true =>
        have hword := h hr hrw hstrobes
        have heven : ∀ (r : Regs) v, (r.writeByte (2 * field q.addr 15 1) v).palette = r.palette :=
          fun r v => palette_writeByte (by omega)
        have hodd : ∀ (r : Regs) v,
            (r.writeByte (2 * field q.addr 15 1 + 1) v).palette = r.palette :=
          fun r v => palette_writeByte (by omega)
        split_ifs <;> simp [heven, hodd]

theorem palette_colourByte {q : Key} {v : Byte} (h : q.colourByte = some v) :
    (r.after q).palette = (r.writePalette v).palette := by
  unfold Key.colourByte at h
  split_ifs at h with hq
  rw [Option.some.injEq] at h
  rw [Bool.and_eq_true, Bool.and_eq_true, Bool.and_eq_true, Bool.not_eq_true', beq_iff_eq] at hq
  obtain ⟨⟨⟨hr, hrw⟩, hlds⟩, hword⟩ := hq
  rw [Regs.after, hr, if_pos rfl, hrw, if_neg Bool.false_ne_true, write, hlds, if_pos rfl, hword, h]
  split_ifs <;> rfl

/-- The palette after accesses that give it bytes or spare it. -/
theorem palette_accesses {qs : List Key}
    (hq : ∀ q ∈ qs, q.Spares ∨ q.colourByte.isSome) (r : Regs) :
    (qs.foldl after r).palette = ((qs.filterMap Key.colourByte).foldl writePalette r).palette := by
  have hcongr : ∀ (bytes : List Byte) (r r' : Regs), r.palette = r'.palette →
      (bytes.foldl writePalette r).palette = (bytes.foldl writePalette r').palette := by
    intro bytes
    induction bytes with
    | nil => exact fun _ _ h => h
    | cons v bytes ih => exact fun r r' h => ih _ _ (palette_writePalette h v)
  induction qs generalizing r with
  | nil => rfl
  | cons q qs ih =>
    rw [List.foldl_cons, ih fun q' hq' => hq q' (List.mem_cons_of_mem _ hq')]
    rcases hq q List.mem_cons_self with hs | hsome
    · rw [List.filterMap_cons_none (colourByte_spares hs)]
      exact hcongr _ _ _ (palette_spares hs)
    · obtain ⟨v, hv⟩ := Option.isSome_iff_exists.mp hsome
      rw [List.filterMap_cons_some hv, List.foldl_cons]
      exact hcongr _ _ _ (palette_colourByte hv)

/-! ### Bytes into the table -/

/-- An entry: blue, green and red. -/
def colour (red green blue : Byte) : BitVec 24 := blue ++ (green ++ red)

/-- Colours put into the table from an index on, three bytes each. -/
def paint (clut : Byte → BitVec 24) (addr : BitVec 32) : List Byte → Byte → BitVec 24
  | red :: green :: blue :: bytes =>
    paint (Function.update clut (addr.setWidth 8) (colour red green blue)) (addr + 1) bytes
  | _ => clut

theorem palCnt_writePalette (h : r.palCnt ≠ 3) (v : Byte) : (r.writePalette v).palCnt ≠ 3 := by
  have hall : ∀ n : BitVec 2, n ≠ 2 → n ≠ 3 → n + 1 ≠ 3 := by decide
  unfold writePalette
  split_ifs with h2
  · exact (by decide : (0 : BitVec 2) ≠ 3)
  · exact hall _ h2 h

theorem palCnt_writeByte (h : r.palCnt ≠ 3) (ba : ℕ) (v : Byte) : (r.writeByte ba v).palCnt ≠ 3 := by
  unfold writeByte
  split <;> first | exact h | exact palCnt_writePalette h v

theorem palCnt_after (h : r.palCnt ≠ 3) (q : Key) : (r.after q).palCnt ≠ 3 := by
  unfold Regs.after touch write
  split_ifs
  all_goals first
    | exact h
    | exact palCnt_writeByte h _ _
    | exact palCnt_writeByte (palCnt_writeByte h _ _) _ _

theorem palCnt_cases (h : r.palCnt ≠ 3) : r.palCnt = 0 ∨ r.palCnt = 1 ∨ r.palCnt = 2 := by
  have hall : ∀ n : BitVec 2, n ≠ 3 → n = 0 ∨ n = 1 ∨ n = 2 := by decide
  exact hall _ h

theorem unfinished_zero (h : r.palCnt = 0) : r.unfinished = [] := by
  unfold unfinished
  rw [h]
  rfl

theorem unfinished_one (h : r.palCnt = 1) : r.unfinished = [r.palWr.extractLsb' 24 8] := by
  unfold unfinished
  rw [h]
  rfl

theorem unfinished_two (h : r.palCnt = 2) :
    r.unfinished = [r.palWr.extractLsb' 16 8, r.palWr.extractLsb' 24 8] := by
  unfold unfinished
  rw [h]
  rfl

/-- A byte that does not finish a triple. -/
theorem writePalette_open (h : r.palCnt = 0 ∨ r.palCnt = 1) (v : Byte) :
    (r.writePalette v).unfinished = r.unfinished ++ [v] ∧ (r.writePalette v).clut = r.clut ∧
      (r.writePalette v).paletteAddr = r.paletteAddr := by
  have h2 : r.palCnt ≠ 2 := by rcases h with h | h <;> rw [h] <;> decide
  have hnew : (v ++ r.palWr.extractLsb' 8 24).extractLsb' 24 8 = v :=
    BitVec.extractLsb'_append_eq_left
  have hold : (v ++ r.palWr.extractLsb' 8 24).extractLsb' 16 8 = r.palWr.extractLsb' 24 8 := by
    rw [BitVec.extractLsb'_append_eq_of_add_le (by decide)]
    ext k hk
    have hlt : 16 + k < 24 := by omega
    simp only [BitVec.getElem_extractLsb', BitVec.getLsbD_extractLsb', hlt, decide_true,
      Bool.true_and, ← Nat.add_assoc]
  rw [writePalette, if_neg h2]
  refine ⟨?_, rfl, rfl⟩
  rcases h with h0 | h1
  · rw [unfinished_zero h0, unfinished_one (by simp [h0])]
    exact congrArg (fun b => [b]) hnew
  · rw [unfinished_one h1, unfinished_two (by simp [h1])]
    exact congrArg₂ (fun a b => [a, b]) hold hnew

/-- The third byte puts the entry into the table. -/
theorem writePalette_close (h : r.palCnt = 2) (v : Byte) :
    (r.writePalette v).unfinished = [] ∧
      (r.writePalette v).clut = Function.update r.clut (r.paletteAddr.setWidth 8)
        (colour (r.palWr.extractLsb' 16 8) (r.palWr.extractLsb' 24 8) v) ∧
      (r.writePalette v).paletteAddr = r.paletteAddr + 1 := by
  have hword : r.palWr.extractLsb' 16 16 =
      r.palWr.extractLsb' 24 8 ++ r.palWr.extractLsb' 16 8 := by
    rw [BitVec.extractLsb'_append_extractLsb'_eq_extractLsb' (by decide)]
  rw [writePalette, if_pos h, hword]
  exact ⟨rfl, rfl, rfl⟩

/-- Bytes finish the triple that has been begun, and go on with further ones. -/
theorem palette_bytes (bytes : List Byte) {r : Regs} (h : r.palCnt ≠ 3) :
    (bytes.foldl writePalette r).clut = paint r.clut r.paletteAddr (r.unfinished ++ bytes) ∧
      (bytes.foldl writePalette r).paletteAddr =
        r.paletteAddr + BitVec.ofNat 32 ((r.unfinished ++ bytes).length / 3) := by
  induction bytes generalizing r with
  | nil =>
    rw [List.append_nil, List.foldl_nil]
    rcases palCnt_cases h with h0 | h1 | h2
    · rw [unfinished_zero h0]
      exact ⟨rfl, by simp⟩
    · rw [unfinished_one h1]
      exact ⟨rfl, by simp⟩
    · rw [unfinished_two h2]
      exact ⟨rfl, by simp⟩
  | cons v bytes ih =>
    obtain ⟨hclut, haddr⟩ := ih (palCnt_writePalette h v)
    rw [List.foldl_cons, hclut, haddr]
    by_cases h2 : r.palCnt = 2
    · obtain ⟨hnext, hclut', haddr'⟩ := writePalette_close h2 v
      rw [hnext, hclut', haddr', unfinished_two h2]
      refine ⟨rfl, ?_⟩
      have hlen : ([r.palWr.extractLsb' 16 8, r.palWr.extractLsb' 24 8] ++ v :: bytes).length / 3 =
          ([] ++ bytes).length / 3 + 1 := by
        simp only [List.length_append, List.length_cons, List.length_nil]
        omega
      rw [hlen, BitVec.ofNat_add, BitVec.add_assoc, BitVec.add_comm 1]
      rfl
    · have hopen : r.palCnt = 0 ∨ r.palCnt = 1 := by
        rcases palCnt_cases h with h0 | h1 | h2'
        · exact .inl h0
        · exact .inr h1
        · exact absurd h2' h2
      obtain ⟨hnext, hclut', haddr'⟩ := writePalette_open hopen v
      rw [hnext, hclut', haddr', List.append_assoc, List.singleton_append]
      exact ⟨rfl, rfl⟩

theorem length_unfinished (r : Regs) : r.unfinished.length ≤ 2 := by
  unfold unfinished
  split_ifs <;> simp

end Regs

/-! ### What the table shows -/

section Table

variable {clut : Byte → BitVec 24} {addr : BitVec 32} {bytes : List Byte}

/-- Entry `i` of a sequence of bytes. -/
def triple (bytes : List Byte) (i : ℕ) : BitVec 24 :=
  Regs.colour (bytes.getD (3 * i) 0) (bytes.getD (3 * i + 1) 0) (bytes.getD (3 * i + 2) 0)

/-- The index of the entry `i` behind an address: only eight bits count. -/
def entryOf (addr : BitVec 32) (i : ℕ) : Byte := (addr + BitVec.ofNat 32 i).setWidth 8

theorem entryOf_succ (i : ℕ) : entryOf (addr + 1) i = entryOf addr (i + 1) := by
  rw [entryOf, entryOf, BitVec.ofNat_add, BitVec.add_assoc, BitVec.add_comm 1 (BitVec.ofNat 32 i)]
  rfl

theorem entryOf_ne {i : ℕ} (h0 : 0 < i) (hi : i < 256) : entryOf addr i ≠ addr.setWidth 8 := by
  unfold entryOf
  intro h
  have hnat := congrArg BitVec.toNat h
  rw [BitVec.toNat_setWidth, BitVec.toNat_setWidth, BitVec.toNat_add, BitVec.toNat_ofNat] at hnat
  omega

/-- The entries of no colour stay. -/
theorem paint_other {j : Byte} (h : ∀ i < bytes.length / 3, entryOf addr i ≠ j) :
    Regs.paint clut addr bytes j = clut j := by
  induction clut, addr, bytes using Regs.paint.induct with
  | case1 clut addr red green blue bytes ih =>
    simp only [List.length_cons] at h
    rw [Regs.paint, ih fun i hi => by rw [entryOf_succ]; exact h (i + 1) (by omega)]
    have hne : j ≠ addr.setWidth 8 := fun heq => h 0 (by omega) (by simp [entryOf, heq])
    exact Function.update_of_ne hne _ _
  | case2 bytes clut addr h3 =>
    rw [Regs.paint]
    exact h3

/-- The last 256 colours are the entries they were written for. -/
theorem paint_entry {i : ℕ} (hi : i < bytes.length / 3) (hlast : bytes.length / 3 ≤ i + 256) :
    Regs.paint clut addr bytes (entryOf addr i) = triple bytes i := by
  induction clut, addr, bytes using Regs.paint.induct generalizing i with
  | case1 clut addr red green blue bytes ih =>
    simp only [List.length_cons] at hi hlast
    rw [Regs.paint]
    cases i with
    | zero =>
      have hzero : entryOf addr 0 = addr.setWidth 8 := by simp [entryOf]
      rw [paint_other fun k hk => by
        rw [entryOf_succ, hzero]
        exact entryOf_ne (Nat.succ_pos k) (by omega)]
      rw [hzero, Function.update_self]
      rfl
    | succ i =>
      rw [← entryOf_succ, ih (by omega) (by omega)]
      rfl
  | case2 bytes clut addr h3 =>
    match bytes with
    | [] => simp at hi
    | [_] => simp at hi
    | [_, _] => simp at hi
    | _ :: _ :: _ :: _ => exact absurd rfl (h3 _ _ _ _)

end Table

/-! ### Sequences of colours -/

/-- The table and the address between two states of the registers: the bytes are `k` colours put in
from the address on. A colour that more than 255 others follow need not stand at the end. -/
structure Loaded (r r' : Regs) (bytes : List Byte) (k : ℕ) : Prop where
  set : ∀ i < k, k ≤ i + 256 → r'.clut (entryOf r.paletteAddr i) = triple bytes i
  others : ∀ j, (∀ i < k, entryOf r.paletteAddr i ≠ j) → r'.clut j = r.clut j
  addr : r'.paletteAddr = r.paletteAddr + BitVec.ofNat 32 k

section Runs

variable {rom : ℕ → Word} {monitor512 : Bool} {before u : ℕ → Bus} {b m k : ℕ} {c : Card}

theorem palCnt_run (hc : c.regs.palCnt ≠ 3) (u : ℕ → Bus) (m : ℕ) :
    (run (Card.step rom monitor512) c u m).regs.palCnt ≠ 3 := by
  apply @run_inv _ _ (Card.step rom monitor512) (fun c => c.regs.palCnt ≠ 3) _ c hc
  intro c i h
  rw [regs_step]
  cases c.taken i with
  | none => exact h
  | some q => exact Regs.palCnt_after h q

/-- From whatever state the palette address is written in, the colours written next arrive exactly
if they are the same when they are read from the bytes of the unfinished triple on. -/
theorem loaded_iff (hc : run (Card.step rom monitor512) freshCard before b = c)
    (hq : ∀ q ∈ accesses rom monitor512 c u m, q.Spares ∨ q.colourByte.isSome)
    (hlen : ((accesses rom monitor512 c u m).filterMap Key.colourByte).length = 3 * k) :
    Loaded c.regs (run (Card.step rom monitor512) c u m).regs
        ((accesses rom monitor512 c u m).filterMap Key.colourByte) k ↔
      ∀ i < k, k ≤ i + 256 →
        triple (c.regs.unfinished ++ (accesses rom monitor512 c u m).filterMap Key.colourByte) i =
          triple ((accesses rom monitor512 c u m).filterMap Key.colourByte) i := by
  have hcnt : c.regs.palCnt ≠ 3 := hc ▸ palCnt_run (by decide) before b
  have hpal := Regs.palette_accesses hq c.regs
  rw [← regs_run] at hpal
  generalize (accesses rom monitor512 c u m).filterMap Key.colourByte = bytes at hlen hpal ⊢
  obtain ⟨hpaint, haddr⟩ := Regs.palette_bytes bytes hcnt
  have hclut : (run (Card.step rom monitor512) c u m).regs.clut =
      (bytes.foldl Regs.writePalette c.regs).clut := congrArg (fun p => p.2.2.2) hpal
  have hindex : (run (Card.step rom monitor512) c u m).regs.paletteAddr =
      (bytes.foldl Regs.writePalette c.regs).paletteAddr := congrArg Prod.fst hpal
  rw [← hclut] at hpaint
  rw [← hindex] at haddr
  have hk : (c.regs.unfinished ++ bytes).length / 3 = k := by
    have hle := c.regs.length_unfinished
    rw [List.length_append, hlen]
    omega
  rw [hk] at haddr
  have hentry : ∀ i < k, k ≤ i + 256 →
      (run (Card.step rom monitor512) c u m).regs.clut (entryOf c.regs.paletteAddr i) =
        triple (c.regs.unfinished ++ bytes) i := by
    intro i hi hlast
    exact (congrFun hpaint _).trans (paint_entry (hk ▸ hi) (hk ▸ hlast))
  constructor
  · exact fun h i hi hlast => (hentry i hi hlast).symm.trans (h.set i hi hlast)
  · intro h
    refine ⟨fun i hi hlast => (hentry i hi hlast).trans (h i hi hlast), fun j hj => ?_, haddr⟩
    exact (congrFun hpaint j).trans (paint_other (hk ▸ hj))

end Runs

/-- A byte for an odd register of the card. -/
def byteWrite (q : ℕ × Byte) : Key := ⟨0xFE200000 + q.1, pairWord q.2 q.2, false, true, false⟩

/-- Byte writes as the CPU's wrapper makes them with turbo off: AS falls four clocks before the strobe and
is down for fourteen of the twenty clocks of a write. -/
def writesOf (qs : List (ℕ × Byte)) (t : ℕ) : Bus where
  key := (byteWrite (qs.getD (t / 20) (0, 0))).seen false (t % 20)
  as := t < 20 * qs.length && t % 20 < 14
  select := true
  vramDin := 0
  vramReady := false
  vblPulse := false

/-- A CPU that makes these writes one after the other from its reset on. -/
def writesRun (qs : List (ℕ × Byte)) : Trace where
  turbo := false
  rom := fun _ => 0
  monitor512 := false
  start := ⟨⟨resetState 0, 0⟩, freshCard, ⟨fun _ => 0, 0, false⟩⟩
  input := fun t =>
    let q := qs.getD (t / 20) (0, 0)
    ⟨{ quietIn with
        kernelNext := { writeAt (0xFE200000 + q.1) (pairWord q.2 q.2) with uds := false } }, false⟩

/-- The colour 1, 2, 3, with the mode register written in between. -/
def colourWrites : List (ℕ × Byte) := [(0x207, 1), (0x20B, 0x10), (0x207, 2), (0x207, 3)]

def oneColour : ℕ → Bus := writesOf colourWrites

/- The wrapper's own waveforms, from the eighth clock of the run on. -/
example : ∀ t < 80, ((writesRun colourWrites).bus (t + 8)).as = (oneColour t).as ∧
    (((writesRun colourWrites).bus (t + 8)).as = true →
      ((writesRun colourWrites).bus (t + 8)).key = (oneColour t).key ∧
        ((writesRun colourWrites).bus (t + 8)).select = true) := by
  decide +kernel

theorem loaded_oneColour :
    let c := run (Card.step (fun _ => 0) false) freshCard (writesOf [(0x203, 5)]) 20
    c.regs.paletteAddr = 5 ∧
      Loaded c.regs (run (Card.step (fun _ => 0) false) c oneColour 80).regs [1, 2, 3] 1 := by
  intro c
  have hbytes : (accesses (fun _ => 0) false c oneColour 80).filterMap Key.colourByte = [1, 2, 3] := by
    decide +kernel
  refine ⟨by decide +kernel, ?_⟩
  rw [← hbytes]
  refine (loaded_iff rfl (by decide +kernel) (by rw [hbytes]; rfl)).mpr ?_
  rw [hbytes]
  decide +kernel

/-- A byte of an unfinished triple becomes the red of the next colour. -/
theorem unfinished_triple :
    let c := run (Card.step (fun _ => 0) false) freshCard (writesOf [(0x207, 9), (0x203, 5)]) 40
    c.regs.paletteAddr = 5 ∧
      (accesses (fun _ => 0) false c oneColour 80).filterMap Key.colourByte = [1, 2, 3] ∧
      ¬ Loaded c.regs (run (Card.step (fun _ => 0) false) c oneColour 80).regs [1, 2, 3] 1 := by
  intro c
  refine ⟨by decide +kernel, by decide +kernel, fun h => ?_⟩
  have hset := h.set 0 (by decide) (by decide)
  revert hset
  decide +kernel

end Nubus
