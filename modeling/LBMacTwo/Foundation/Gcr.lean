import LBMacTwo.Foundation.Bits

/-!
# Groups of three bytes in four nibbles

The 3.5-inch group code: three bytes become four nibbles of six bits, after each byte has been
scrambled with one of three rotating checksum registers that take it up.

* `Sums`: the registers, with the carries between them;
* `encode`, `total`: the nibbles of a list of bytes and the registers after it;
* `Digest`, `decode`: what a reader computes, on numbers: the bytes of a list of nibbles and the three
  checksum bytes after them;
* `decode_encode`: decoding inverts encoding, and ends in the checksum that was encoded.
-/

namespace Gcr

abbrev Nibble := BitVec 6

/-- The checksum registers, `c2x` and `c3x` their pending carries. -/
structure Sums where
  c1 : Byte
  c2 : Byte
  c2x : Bool
  c3 : Byte
  c3x : Bool
  deriving DecidableEq

/-- `x + y` and a carry, as nine bits. -/
def addCarry (x y : Byte) (c : Bool) : BitVec 9 :=
  x.setWidth 9 + y.setWidth 9 + (BitVec.ofBool c).setWidth 9

namespace Sums

variable (σ : Sums) (b : Byte)

def zero : Sums := ⟨0, 0, false, 0, false⟩

/-- The registers take the first byte of a group: `c1` is rotated, `c3` adds the byte. -/
def first : Sums :=
  let sum := addCarry σ.c3 b (σ.c1.getLsbD 7)
  { σ with c1 := σ.c1.rotateLeft 1, c3x := sum.getLsbD 8, c3 := sum.setWidth 8 }

/-- The second byte is added to `c2`. -/
def second : Sums :=
  let sum := addCarry σ.c2 b σ.c3x
  { σ with c2x := sum.getLsbD 8, c2 := sum.setWidth 8, c3x := false }

/-- The third byte is added to `c1`. -/
def third : Sums := { σ with c1 := (addCarry σ.c1 b σ.c2x).setWidth 8, c2x := false }

/-- What the first byte is scrambled with. -/
def mask1 : Byte := σ.c1.rotateLeft 1

/-- The registers after a group. -/
def group (b0 b1 b2 : Byte) : Sums := ((σ.first b0).second b1).third b2

end Sums

/-- The upper bits of three bytes. -/
def topNibble (x0 x1 x2 : Byte) : Nibble :=
  (x0.extractLsb' 6 2 ++ x1.extractLsb' 6 2) ++ x2.extractLsb' 6 2

/-- The other bits of a byte. -/
def lowNibble (x : Byte) : Nibble := x.setWidth 6

def nibbles (x0 x1 x2 : Byte) : List Nibble :=
  [topNibble x0 x1 x2, lowNibble x0, lowNibble x1, lowNibble x2]

/-- The nibbles of a list of bytes; a last group of two bytes leaves its last nibble out. -/
def encode : Sums → List Byte → List Nibble
  | σ, b0 :: b1 :: b2 :: bs =>
    nibbles (b0 ^^^ σ.mask1) (b1 ^^^ (σ.first b0).c3) (b2 ^^^ ((σ.first b0).second b1).c2) ++
      encode (σ.group b0 b1 b2) bs
  | σ, [b0, b1] =>
    [topNibble (b0 ^^^ σ.mask1) (b1 ^^^ (σ.first b0).c3) 0, lowNibble (b0 ^^^ σ.mask1),
      lowNibble (b1 ^^^ (σ.first b0).c3)]
  | _, _ => []

/-- The registers after a list of bytes. -/
def total : Sums → List Byte → Sums
  | σ, b0 :: b1 :: b2 :: bs => total (σ.group b0 b1 b2) bs
  | σ, [b0, b1] => (σ.first b0).second b1
  | σ, _ => σ

/-- The checksum of a field: the registers without their carries. -/
def check (σ : Sums) : List Nibble :=
  [topNibble σ.c3 σ.c2 σ.c1, lowNibble σ.c3, lowNibble σ.c2, lowNibble σ.c1]

theorem length_encode (σ : Sums) (bs : List Byte) (h : bs.length % 3 ≠ 1) :
    (encode σ bs).length = (4 * bs.length + 2) / 3 := by
  fun_induction encode σ bs with
  | case1 σ b0 b1 b2 bs ih =>
    simp only [List.length_cons] at h
    rw [List.length_append, ih (by omega)]
    simp only [nibbles, List.length_cons, List.length_nil]
    omega
  | case2 σ b0 b1 => simp
  | case3 bs σ h3 h2 =>
    rcases bs with _ | ⟨b0, _ | ⟨b1, _ | ⟨b2, bs⟩⟩⟩
    · rfl
    · exact absurd rfl h
    · exact absurd rfl (h2 b0 b1)
    · exact absurd rfl (h3 b0 b1 b2 bs)

/-! ### A reader -/

/-- The checksum bytes of a reader. -/
structure Digest where
  a : ℕ
  b : ℕ
  c : ℕ
  deriving DecidableEq

/-- The bytes of four nibbles: the first has the upper bits of the three. -/
def join (t w0 w1 w2 : ℕ) : ℕ × ℕ × ℕ :=
  (64 * (t / 16 % 4) + w0, 64 * (t / 4 % 4) + w1, 64 * (t % 4) + w2)

namespace Digest

variable (k : Digest)

def zero : Digest := ⟨0, 0, 0⟩

/-- A group opens with a rotation of `c`. -/
def rotated : ℕ := 2 * k.c % 256 + k.c / 128

/-- The bytes behind the scrambled bytes of a group. -/
def plain (x y z : ℕ) : ℕ × ℕ × ℕ :=
  let b0 := x ^^^ k.rotated
  let a := k.a + b0 + k.c / 128
  let b1 := y ^^^ a % 256
  let b := k.b + b1 + a / 256
  (b0, b1, z ^^^ b % 256)

/-- The first two bytes of a group are added to `a` and `b`, each carry to the next sum. -/
def two (b0 b1 : ℕ) : Digest :=
  let a := k.a + b0 + k.c / 128
  ⟨a % 256, (k.b + b1 + a / 256) % 256, k.rotated⟩

/-- The third is added to `c`, whose carry is dropped. -/
def three (b0 b1 b2 : ℕ) : Digest :=
  let b := k.b + b1 + (k.a + b0 + k.c / 128) / 256
  { k.two b0 b1 with c := (k.rotated + b2 + b / 256) % 256 }

end Digest

/-- The bytes of a list of nibbles, and the checksum bytes after them. -/
def decode : Digest → List ℕ → List ℕ × Digest
  | k, t :: w0 :: w1 :: w2 :: ws =>
    let (x, y, z) := join t w0 w1 w2
    let (b0, b1, b2) := k.plain x y z
    let (bs, k') := decode (k.three b0 b1 b2) ws
    (b0 :: b1 :: b2 :: bs, k')
  | k, [t, w0, w1] =>
    let (x, y, _) := join t w0 w1 0
    let (b0, b1, _) := k.plain x y 0
    ([b0, b1], k.two b0 b1)
  | k, _ => ([], k)

/-- The checksum in the four nibbles behind a field. -/
def checkBytes : List ℕ → Option Digest
  | [t, w0, w1, w2] =>
    let (a, b, c) := join t w0 w1 w2
    some ⟨a, b, c⟩
  | _ => none

theorem toNat_lowNibble (x : Byte) : (lowNibble x).toNat = x.toNat % 64 := BitVec.toNat_setWidth ..

theorem toNat_topNibble (x0 x1 x2 : Byte) : (topNibble x0 x1 x2).toNat =
    16 * (x0.toNat / 64) + 4 * (x1.toNat / 64) + x2.toNat / 64 := by
  have h0 := x0.isLt
  have h1 := x1.isLt
  have h2 := x2.isLt
  have hbits : ∀ x : Byte, (x.extractLsb' 6 2).toNat = x.toNat / 64 := by
    intro x
    have hx := x.isLt
    rw [BitVec.extractLsb'_toNat, Nat.shiftRight_eq_div_pow]
    omega
  rw [topNibble, BitVec.toNat_append, BitVec.toNat_append, hbits, hbits, hbits,
    ← Nat.shiftLeft_add_eq_or_of_lt (by omega), ← Nat.shiftLeft_add_eq_or_of_lt (by omega),
    Nat.shiftLeft_eq, Nat.shiftLeft_eq]
  omega

theorem join_topNibble (x0 x1 x2 : Byte) :
    join (topNibble x0 x1 x2).toNat (lowNibble x0).toNat (lowNibble x1).toNat (lowNibble x2).toNat =
      (x0.toNat, x1.toNat, x2.toNat) := by
  have h0 := x0.isLt
  have h1 := x1.isLt
  have h2 := x2.isLt
  simp only [join, toNat_topNibble, toNat_lowNibble, Prod.mk.injEq]
  omega

/-! The registers are the checksum bytes of a reader. -/

theorem toNat_addCarry (x y : Byte) (c : Bool) :
    (addCarry x y c).toNat = x.toNat + y.toNat + c.toNat := by
  have hx := x.isLt
  have hy := y.isLt
  have hc := c.toNat_lt
  simp only [addCarry, BitVec.toNat_add, BitVec.toNat_setWidth, BitVec.toNat_ofBool]
  omega

theorem toNat_sum (x y : Byte) (c : Bool) :
    ((addCarry x y c).setWidth 8).toNat = (x.toNat + y.toNat + c.toNat) % 256 := by
  rw [BitVec.toNat_setWidth, toNat_addCarry]

theorem toNat_carry (x y : Byte) (c : Bool) :
    ((addCarry x y c).getLsbD 8).toNat = (x.toNat + y.toNat + c.toNat) / 256 := by
  have hx := x.isLt
  have hy := y.isLt
  have hc := c.toNat_lt
  rw [BitVec.getLsbD, Nat.toNat_testBit, toNat_addCarry]
  omega

theorem toNat_rotate (x : Byte) :
    (x.rotateLeft 1).toNat = 2 * x.toNat % 256 + x.toNat / 128 ∧
      (x.getLsbD 7).toNat = x.toNat / 128 := by
  revert x
  decide +kernel

/-- The checksum bytes in the registers. -/
def Sums.digest (σ : Sums) : Digest := ⟨σ.c3.toNat, σ.c2.toNat, σ.c1.toNat⟩

theorem Sums.digest_second (σ : Sums) (b0 b1 : Byte) :
    ((σ.first b0).second b1).digest = σ.digest.two b0.toNat b1.toNat := by
  simp only [digest, second, first, Digest.two, Digest.rotated, toNat_sum, toNat_carry, toNat_rotate]

theorem Sums.digest_group (σ : Sums) (b0 b1 b2 : Byte) :
    (σ.group b0 b1 b2).digest = σ.digest.three b0.toNat b1.toNat b2.toNat := by
  simp only [digest, group, third, second, first, Digest.three, Digest.two, Digest.rotated, toNat_sum,
    toNat_carry, toNat_rotate]

/-- A reader unscrambles what the registers have scrambled. -/
theorem Sums.plain_digest (σ : Sums) (b0 b1 b2 : Byte) :
    σ.digest.plain (b0 ^^^ σ.mask1).toNat (b1 ^^^ (σ.first b0).c3).toNat
        (b2 ^^^ ((σ.first b0).second b1).c2).toNat = (b0.toNat, b1.toNat, b2.toNat) := by
  simp only [Digest.plain, digest, mask1, second, first, Digest.rotated, BitVec.toNat_xor, toNat_sum,
    toNat_carry, toNat_rotate, Nat.xor_assoc, Nat.xor_self, Nat.xor_zero]

theorem checkBytes_check (σ : Sums) : checkBytes ((check σ).map BitVec.toNat) = some σ.digest := by
  rw [check, List.map_cons, List.map_cons, List.map_cons, List.map_cons, List.map_nil, checkBytes,
    join_topNibble]
  rfl

/-- Decoding inverts encoding, on whole groups and a last one of two bytes. -/
theorem decode_encode (σ : Sums) (bs : List Byte) (h : bs.length % 3 ≠ 1) :
    decode σ.digest ((encode σ bs).map BitVec.toNat) = (bs.map BitVec.toNat, (total σ bs).digest) := by
  fun_induction encode σ bs with
  | case1 σ b0 b1 b2 bs ih =>
    have hjoin := join_topNibble (b0 ^^^ σ.mask1) (b1 ^^^ (σ.first b0).c3)
      (b2 ^^^ ((σ.first b0).second b1).c2)
    have hbs : bs.length % 3 ≠ 1 := by
      simp only [List.length_cons] at h
      omega
    simp only [nibbles, List.cons_append, List.nil_append, List.map_cons, decode, hjoin,
      Sums.plain_digest, ← Sums.digest_group, ih hbs, total]
  | case2 σ b0 b1 =>
    -- the third byte of the last group is not there, and counts as a zero
    have hjoin := join_topNibble (b0 ^^^ σ.mask1) (b1 ^^^ (σ.first b0).c3) 0
    have hplain := σ.plain_digest b0 b1 ((σ.first b0).second b1).c2
    rw [BitVec.xor_self] at hplain
    have hzero : (lowNibble 0).toNat = 0 := rfl
    rw [hzero] at hjoin
    have hplain' : σ.digest.plain (b0 ^^^ σ.mask1).toNat (b1 ^^^ (σ.first b0).c3).toNat 0 =
        (b0.toNat, b1.toNat, (((σ.first b0).second b1).c2).toNat) := hplain
    simp only [List.map_cons, List.map_nil, decode, hjoin, hplain', ← Sums.digest_second, total]
  | case3 bs σ h3 h2 =>
    rcases bs with _ | ⟨b0, _ | ⟨b1, _ | ⟨b2, bs⟩⟩⟩
    · rfl
    · exact absurd rfl h
    · exact absurd rfl (h2 b0 b1)
    · exact absurd rfl (h3 b0 b1 b2 bs)

end Gcr
