import LBMacTwo.Floppy.Gcr

/-!
# The payload of a GCR sector

* `sumsAt`, `nibbleAt`: the checksum registers and the nibble at each place of a payload;
* `encode_payload`: the nibbles are the encoding of the payload;
* `Fill`, `Fill.advance`: the nibbler and the data latch along the payload, kept by every pulse.
-/

namespace Floppy
open Gcr (Sums Nibble)

/-! ### The rounds of a payload

A payload of 512 bytes is emitted behind four bytes of prefetch: place `q` of the two together lies
in the round `q / 4`, whose first three places take the bytes of a group and whose four emit the
group before. The last group has two bytes. -/

section Payload

variable (b : ℕ → Byte)

/-- The checksum registers at place `q`. -/
def sumsAt : ℕ → Sums
  | 0 => Sums.zero
  | q + 1 =>
    match q % 4 with
    | 1 => (sumsAt q).first (b (3 * (q / 4)))
    | 2 => (sumsAt q).second (b (3 * (q / 4) + 1))
    | 3 => (sumsAt q).third (b (3 * (q / 4) + 2))
    | _ => sumsAt q

/-- The scrambled bytes of the group before round `r`. -/
def scrambled0 : ℕ → Byte
  | 0 => 0
  | r + 1 => b (3 * r) ^^^ (sumsAt b (4 * r + 1)).mask1

def scrambled1 : ℕ → Byte
  | 0 => 0
  | r + 1 => b (3 * r + 1) ^^^ (sumsAt b (4 * r + 2)).c3

def scrambled2 : ℕ → Byte
  | 0 => 0
  | r + 1 => if r = 170 then 0 else b (3 * r + 2) ^^^ (sumsAt b (4 * r + 3)).c2

/-- The nibble emitted at place `q`. -/
def nibbleAt (q : ℕ) : Nibble :=
  match q % 4 with
  | 1 => Gcr.lowNibble (scrambled0 b (q / 4))
  | 2 => Gcr.lowNibble (scrambled1 b (q / 4))
  | 3 => Gcr.lowNibble (scrambled2 b (q / 4))
  | _ => Gcr.topNibble (scrambled0 b (q / 4)) (scrambled1 b (q / 4)) (scrambled2 b (q / 4))

variable {b}

theorem place_round (r : ℕ) {c : ℕ} (hc : c < 4) : (4 * r + c) % 4 = c ∧ (4 * r + c) / 4 = r := by
  omega

/-- The registers in a round. -/
theorem sumsAt_round (r : ℕ) :
    sumsAt b (4 * r + 1) = sumsAt b (4 * r) ∧
      sumsAt b (4 * r + 2) = (sumsAt b (4 * r)).first (b (3 * r)) ∧
      sumsAt b (4 * r + 3) = (sumsAt b (4 * r + 2)).second (b (3 * r + 1)) ∧
      sumsAt b (4 * (r + 1)) = (sumsAt b (4 * r + 3)).third (b (3 * r + 2)) := by
  have h0 : sumsAt b (4 * r + 1) = sumsAt b (4 * r) := by
    rw [sumsAt, Nat.mul_mod_right]
    rfl
  obtain ⟨hm1, hd1⟩ := place_round r (c := 1) (by omega)
  obtain ⟨hm2, hd2⟩ := place_round r (c := 2) (by omega)
  obtain ⟨hm3, hd3⟩ := place_round r (c := 3) (by omega)
  refine ⟨h0, ?_, ?_, ?_⟩
  · rw [sumsAt, hm1, hd1, h0]
    rfl
  · rw [sumsAt, hm2, hd2]
    rfl
  · change sumsAt b (4 * r + 3 + 1) = _
    rw [sumsAt, hm3, hd3]
    rfl

theorem sumsAt_group (r : ℕ) :
    sumsAt b (4 * (r + 1)) =
      (sumsAt b (4 * r)).group (b (3 * r)) (b (3 * r + 1)) (b (3 * r + 2)) := by
  obtain ⟨-, h2, h3, h4⟩ := @sumsAt_round b r
  rw [h4, h3, h2]
  rfl

/-- A round emits the nibbles of the group before. -/
theorem nibbleAt_round (r : ℕ) :
    [nibbleAt b (4 * r), nibbleAt b (4 * r + 1), nibbleAt b (4 * r + 2), nibbleAt b (4 * r + 3)] =
      Gcr.nibbles (scrambled0 b r) (scrambled1 b r) (scrambled2 b r) := by
  obtain ⟨hm1, hd1⟩ := place_round r (c := 1) (by omega)
  obtain ⟨hm2, hd2⟩ := place_round r (c := 2) (by omega)
  obtain ⟨hm3, hd3⟩ := place_round r (c := 3) (by omega)
  simp only [nibbleAt, Nat.mul_mod_right, Nat.mul_div_cancel_left r (Nat.zero_lt_succ 3), hm1, hd1,
    hm2, hd2, hm3, hd3, Gcr.nibbles]

/-- The scrambled bytes of a group, from the registers before it. -/
theorem scrambled_succ (r : ℕ) :
    scrambled0 b (r + 1) = b (3 * r) ^^^ (sumsAt b (4 * r)).mask1 ∧
      scrambled1 b (r + 1) = b (3 * r + 1) ^^^ ((sumsAt b (4 * r)).first (b (3 * r))).c3 ∧
      scrambled2 b (r + 1) = if r = 170 then 0 else
        b (3 * r + 2) ^^^ (((sumsAt b (4 * r)).first (b (3 * r))).second (b (3 * r + 1))).c2 := by
  obtain ⟨h1, h2, h3, -⟩ := @sumsAt_round b r
  rw [scrambled0, scrambled1, scrambled2, h3, h2, h1]
  exact ⟨rfl, rfl, rfl⟩

/-- The prefetch emits zeros. -/
theorem nibbleAt_prefetch {q : ℕ} (hq : q / 4 = 0) : nibbleAt b q = 0 := by
  have htop : Gcr.topNibble 0 0 0 = 0 := by decide
  have hlow : Gcr.lowNibble 0 = 0 := by decide
  unfold nibbleAt
  rw [hq]
  split <;> simp only [scrambled0, scrambled1, scrambled2, htop, hlow]

theorem range'_four (f : ℕ → Nibble) (q n : ℕ) :
    (List.range' q (n + 4)).map f =
      [f q, f (q + 1), f (q + 2), f (q + 3)] ++ (List.range' (q + 4) n).map f := by
  simp only [List.range'_succ, List.map_cons, Nat.add_assoc, Nat.reduceAdd, List.cons_append,
    List.nil_append]

theorem range'_three (q n : ℕ) :
    (List.range' q (n + 3)).map b = b q :: b (q + 1) :: b (q + 2) :: (List.range' (q + 3) n).map b := by
  simp only [List.range'_succ, List.map_cons, Nat.add_assoc, Nat.reduceAdd]

/-- The rounds after the prefetch emit the payload, and leave its checksum in the registers. -/
theorem encode_payload (m r : ℕ) (h : r + m = 170) :
    (List.range' (4 * (r + 1)) (4 * m + 3)).map (nibbleAt b) =
        Gcr.encode (sumsAt b (4 * r)) ((List.range' (3 * r) (3 * m + 2)).map b) ∧
      Gcr.total (sumsAt b (4 * r)) ((List.range' (3 * r) (3 * m + 2)).map b) =
        sumsAt b 683 := by
  induction m generalizing r with
  | zero =>
    -- the last group has two bytes, and no last nibble
    obtain ⟨-, h2, h3, -⟩ := @sumsAt_round b r
    obtain ⟨hx0, hx1, hx2⟩ := @scrambled_succ b r
    have hround := @nibbleAt_round b (r + 1)
    have hr : r = 170 := h
    have hsum : sumsAt b 683 = sumsAt b (4 * r + 3) := by rw [hr]
    rw [if_pos hr] at hx2
    rw [hx0, hx1, hx2, Gcr.nibbles] at hround
    simp only [List.cons.injEq] at hround
    obtain ⟨hn0, hn1, hn2, -⟩ := hround
    simp only [List.range'_succ, List.range'_zero, List.map_cons, List.map_nil, Nat.mul_zero,
      Nat.zero_add, Gcr.encode, Gcr.total, hn0, hn1, hn2, hsum, h3, h2, Nat.add_assoc,
      Nat.reduceAdd, and_self]
  | succ m ih =>
    obtain ⟨hx0, hx1, hx2⟩ := @scrambled_succ b r
    obtain ⟨ihn, iht⟩ := ih (r + 1) (by omega)
    have hlen4 : 4 * (m + 1) + 3 = 4 * m + 3 + 4 := by omega
    have hlen3 : 3 * (m + 1) + 2 = 3 * m + 2 + 3 := by omega
    rw [if_neg (by omega)] at hx2
    rw [hlen4, hlen3, range'_four, range'_three, nibbleAt_round, hx0, hx1, hx2]
    refine ⟨?_, ?_⟩
    · rw [Gcr.encode, ← sumsAt_group, ← Nat.mul_succ 3, ← ihn]
      rfl
    · rw [Gcr.total, ← sumsAt_group]
      exact iht

end Payload

/-! ### The nibbler along the payload -/

/-- The bytes fetched before place `q`. -/
def fetched (q : ℕ) : ℕ := min (3 * (q / 4) + min (q % 4) 3) 512

/-- The nibbler and the data latch at place `q`. -/
structure Fill (b : ℕ → Byte) (q : ℕ) (n : Nibbler) (latch : Byte) : Prop where
  cnt : n.cnt = q % 4
  sums : n.sums = sumsAt b (min q 683)
  x0 : n.x0 = scrambled0 b ((min q 685 + 2) / 4)
  x1 : n.x1 = scrambled1 b ((min q 686 + 1) / 4)
  x2 : n.x2 = scrambled2 b (q / 4)
  latch : q < 683 → q % 4 ≠ 0 → latch = b (3 * (q / 4) + (q % 4 - 1))

section Fill

variable {b : ℕ → Byte} {q : ℕ} {n : Nibbler} {latch : Byte}

theorem fill_reset : Fill b 0 Nibbler.reset latch := by
  refine ⟨rfl, rfl, rfl, rfl, rfl, fun _ h => absurd rfl h⟩

theorem Fill.out_eq (hf : Fill b q n latch) (hq : q < 687) : n.out = nibbleAt b q := by
  have hc : q % 4 = 0 ∨ q % 4 = 1 ∨ q % 4 = 2 ∨ q % 4 = 3 := by omega
  unfold Nibbler.out nibbleAt
  rw [hf.cnt]
  rcases hc with hc | hc | hc | hc
  · have h0 : (min q 685 + 2) / 4 = q / 4 := by omega
    have h1 : (min q 686 + 1) / 4 = q / 4 := by omega
    simp only [hf.x0, hf.x1, hf.x2, hc, h0, h1]
  · have h0 : (min q 685 + 2) / 4 = q / 4 := by omega
    rw [hf.x0, hc, h0]
    rfl
  · have h1 : (min q 686 + 1) / 4 = q / 4 := by omega
    rw [hf.x1, hc, h1]
    rfl
  · rw [hf.x2, hc]
    rfl

theorem advance_cnt (count : ℕ) : (n.advance latch count).cnt = (n.cnt + 1) % 4 := by
  unfold Nibbler.advance
  split_ifs
  · split <;> rfl
  · rfl
  · rfl

theorem advance_sums (count : ℕ) :
    (n.advance latch count).sums = if count < 679 then
      match n.cnt with
      | 1 => n.sums.first latch
      | 2 => n.sums.second latch
      | 3 => n.sums.third latch
      | _ => n.sums
    else n.sums := by
  unfold Nibbler.advance
  by_cases hc : count < 679
  · rw [if_pos (by omega), if_pos hc]
    split <;> simp_all
  · rw [if_neg (by omega), if_neg hc]
    split <;> rfl

theorem advance_x0 (count : ℕ) :
    (n.advance latch count).x0 =
      if count < 679 ∧ n.cnt = 1 then latch ^^^ n.sums.mask1 else n.x0 := by
  unfold Nibbler.advance
  by_cases hc : count < 679
  · rw [if_pos (by omega)]
    split <;> simp_all [Sums.mask1]
  · have htake : ¬(count < 679 ∧ n.cnt = 1) := fun h => hc h.1
    rw [if_neg hc, if_neg htake]
    split <;> rfl

theorem advance_x1 (count : ℕ) :
    (n.advance latch count).x1 =
      if count < 679 ∧ n.cnt = 2 then latch ^^^ n.sums.c3 else n.x1 := by
  unfold Nibbler.advance
  by_cases hc : count < 679
  · rw [if_pos (by omega)]
    split <;> simp_all
  · have htake : ¬(count < 679 ∧ n.cnt = 2) := fun h => hc h.1
    rw [if_neg hc, if_neg htake]
    split <;> rfl

theorem advance_x2 (count : ℕ) :
    (n.advance latch count).x2 =
      if n.cnt = 3 then if count < 679 then latch ^^^ n.sums.c2 else 0 else n.x2 := by
  unfold Nibbler.advance
  by_cases hc : count < 679
  · rw [if_pos (by omega), if_pos hc]
    split <;> simp_all
  · rw [if_neg (by omega), if_neg hc]
    split <;> rfl

/-- The registers take the byte of their place. -/
theorem Fill.sums_advance {count : ℕ} (hf : Fill b q n latch) (hq : q < 687)
    (hcount : count < 679 ↔ q < 683) :
    (n.advance latch count).sums = sumsAt b (min (q + 1) 683) := by
  rw [advance_sums, hf.cnt, hf.sums]
  by_cases hlast : q < 683
  · have hlatch := hf.latch hlast
    rw [if_pos (hcount.mpr hlast), min_eq_left (by omega), min_eq_left (by omega), sumsAt]
    obtain hc | hc | hc | hc : q % 4 = 0 ∨ q % 4 = 1 ∨ q % 4 = 2 ∨ q % 4 = 3 := by omega
    · rw [hc]
      rfl
    · rw [hc, hlatch (by omega), hc]
      rfl
    · rw [hc, hlatch (by omega), hc]
      rfl
    · rw [hc, hlatch (by omega), hc]
      rfl
  · rw [if_neg (mt hcount.mp hlast), min_eq_right (by omega), min_eq_right (by omega)]

theorem Fill.x0_advance {count : ℕ} (hf : Fill b q n latch) (hq : q < 687)
    (hcount : count < 679 ↔ q < 683) :
    (n.advance latch count).x0 = scrambled0 b ((min (q + 1) 685 + 2) / 4) := by
  rw [advance_x0, hf.cnt]
  by_cases htake : q < 683 ∧ q % 4 = 1
  · obtain ⟨hlast, hc⟩ := htake
    have hr : (min (q + 1) 685 + 2) / 4 = q / 4 + 1 := by omega
    have hplace : 4 * (q / 4) + 1 = q := by omega
    rw [if_pos ⟨hcount.mpr hlast, hc⟩, hf.sums, hf.latch hlast (by omega), hr, scrambled0, hplace,
      min_eq_left (by omega), hc]
    rfl
  · have hr : (min (q + 1) 685 + 2) / 4 = (min q 685 + 2) / 4 := by omega
    rw [if_neg (by rw [hcount]; exact htake), hr]
    exact hf.x0

theorem Fill.x1_advance {count : ℕ} (hf : Fill b q n latch) (hq : q < 687)
    (hcount : count < 679 ↔ q < 683) :
    (n.advance latch count).x1 = scrambled1 b ((min (q + 1) 686 + 1) / 4) := by
  rw [advance_x1, hf.cnt]
  by_cases htake : q < 683 ∧ q % 4 = 2
  · obtain ⟨hlast, hc⟩ := htake
    have hr : (min (q + 1) 686 + 1) / 4 = q / 4 + 1 := by omega
    have hplace : 4 * (q / 4) + 2 = q := by omega
    rw [if_pos ⟨hcount.mpr hlast, hc⟩, hf.sums, hf.latch hlast (by omega), hr, scrambled1, hplace,
      min_eq_left (by omega), hc]
  · have hr : (min (q + 1) 686 + 1) / 4 = (min q 686 + 1) / 4 := by omega
    rw [if_neg (by rw [hcount]; exact htake), hr]
    exact hf.x1

theorem Fill.x2_advance {count : ℕ} (hf : Fill b q n latch) (hq : q < 687)
    (hcount : count < 679 ↔ q < 683) :
    (n.advance latch count).x2 = scrambled2 b ((q + 1) / 4) := by
  rw [advance_x2, hf.cnt]
  by_cases hc : q % 4 = 3
  · have hr : (q + 1) / 4 = q / 4 + 1 := by omega
    have hplace : 4 * (q / 4) + 3 = q := by omega
    rw [if_pos hc, hr, scrambled2, hplace]
    by_cases hlast : q < 683
    · rw [if_pos (hcount.mpr hlast), if_neg (by omega), hf.sums, hf.latch hlast (by omega),
        min_eq_left (by omega), hc]
    · -- the last group is filled up with a zero
      rw [if_neg (mt hcount.mp hlast), if_pos (by omega)]
  · have hr : (q + 1) / 4 = q / 4 := by omega
    rw [if_neg hc, hr]
    exact hf.x2

/-- A pulse takes the nibbler to the next place. -/
theorem Fill.advance {count : ℕ} {latch' : Byte} (hf : Fill b q n latch) (hq : q < 687)
    (hcount : count < 679 ↔ q < 683)
    (hlatch : q < 682 → q % 4 ≠ 3 → latch' = b (3 * (q / 4) + q % 4)) :
    Fill b (q + 1) (n.advance latch count) latch' where
  cnt := by
    rw [advance_cnt, hf.cnt]
    omega
  sums := hf.sums_advance hq hcount
  x0 := hf.x0_advance hq hcount
  x1 := hf.x1_advance hq hcount
  x2 := hf.x2_advance hq hcount
  latch := by
    intro h1 h2
    have hd : (q + 1) / 4 = q / 4 := by omega
    have hm : (q + 1) % 4 - 1 = q % 4 := by omega
    rw [hd, hm]
    exact hlatch (by omega) (by omega)

end Fill

end Floppy
