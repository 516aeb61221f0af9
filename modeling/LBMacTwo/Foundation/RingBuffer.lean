import Mathlib

/-!
# Ring buffers

A queue kept in a memory of `N` cells between a read pointer and a write pointer that wrap around.

* `Holds N mem rd q`: the cells from `rd` on hold the queue `q`;
* `Holds.push`, `Holds.pop`: writing behind the last element and moving the read pointer;
* `Holds.congr`: other cells do not matter;
* `Ring`, `Ring.step`: such a queue with a write pointer and a count, and what a clock does to it;
* `window mem rd wr`: the queue in a ring as large as its `w`-bit pointers count, with `window_pop`
  and `window_push` for the pointers' steps.
-/

namespace RingBuffer

variable {α : Type*} {N rd : ℕ} {mem mem' : ℕ → α} {q : List α} {x : α}

/-- The `q.length` cells from `rd` on hold `q`. -/
def Holds (N : ℕ) (mem : ℕ → α) (rd : ℕ) (q : List α) : Prop :=
  q.length ≤ N ∧ ∀ k (hk : k < q.length), mem ((rd + k) % N) = q[k]

theorem holds_nil : Holds N mem rd [] :=
  ⟨Nat.zero_le N, fun _ hk => absurd hk (Nat.not_lt_zero _)⟩

/-- Two cells less than `N` apart are different. -/
theorem cell_ne {a b : ℕ} (h1 : a < b) (h2 : b < a + N) : b % N ≠ a % N := by
  intro he
  have h3 := Nat.sub_mod_eq_zero_of_mod_eq he
  rw [Nat.mod_eq_of_lt (by omega)] at h3
  omega

theorem Holds.congr (h : Holds N mem rd q)
    (hm : ∀ k < q.length, mem' ((rd + k) % N) = mem ((rd + k) % N)) : Holds N mem' rd q :=
  ⟨h.1, fun k hk => (hm k hk).trans (h.2 k hk)⟩

theorem Holds.push (h : Holds N mem rd q) (hq : q.length < N) :
    Holds N (Function.update mem ((rd + q.length) % N) x) rd (q ++ [x]) := by
  refine ⟨by simpa using hq, fun k hk => ?_⟩
  rw [List.length_append, List.length_singleton] at hk
  rcases Nat.lt_or_eq_of_le (Nat.le_of_lt_succ hk) with hlt | rfl
  · have hne : (rd + k) % N ≠ (rd + q.length) % N := (cell_ne (by omega) (by omega)).symm
    rw [Function.update_of_ne hne, List.getElem_append_left hlt]
    exact h.2 k hlt
  · simp

theorem Holds.head (h : Holds N mem rd (x :: q)) : mem (rd % N) = x := by
  have h0 := h.2 0 (by simp)
  simpa only [Nat.add_zero, List.getElem_cons_zero] using h0

theorem Holds.pop (h : Holds N mem rd (x :: q)) : Holds N mem ((rd + 1) % N) q := by
  refine ⟨by have := h.1; rw [List.length_cons] at this; omega, fun k hk => ?_⟩
  have hnext := h.2 (k + 1) (by simpa using hk)
  rw [List.getElem_cons_succ] at hnext
  rw [Nat.mod_add_mod, show rd + 1 + k = rd + (k + 1) by omega]
  exact hnext

/-! ### Rings with two pointers and a count -/

/-- The `cnt` cells between the pointers hold `q`. -/
structure Ring (N : ℕ) (mem : ℕ → α) (rd wr cnt : ℕ) (q : List α) : Prop where
  cnt_eq : cnt = q.length
  cells : Holds N mem rd q
  rd_lt : rd < N
  wr_eq : wr = (rd + q.length) % N

/-- The word at the read pointer is one of those held. -/
theorem Ring.head_mem {wr cnt : ℕ} (h : Ring N mem rd wr cnt q) (hcnt : cnt ≠ 0) : mem rd ∈ q := by
  have hlen : 0 < q.length := Nat.pos_of_ne_zero (h.cnt_eq ▸ hcnt)
  have hhead := h.cells.2 0 hlen
  rw [Nat.add_zero, Nat.mod_eq_of_lt h.rd_lt] at hhead
  rw [hhead]
  exact List.getElem_mem hlen

/-- A clock may write a word into a ring with room and take one off a ring with words. -/
theorem Ring.step {wr cnt : ℕ} {push drain : Bool} (h : Ring N mem rd wr cnt q)
    (hpush : push = true → cnt ≠ N) (hdrain : drain = true → cnt ≠ 0) (x : α) :
    ∃ q', (if drain then [mem rd] else []) ++ q' = q ++ (if push then [x] else []) ∧
      Ring N (if push then Function.update mem wr x else mem) ((rd + drain.toNat) % N)
        ((wr + push.toNat) % N) (cnt + push.toNat - drain.toNat) q' := by
  have hN : 0 < N := Nat.zero_lt_of_lt h.rd_lt
  have hlen : (q ++ (if push then [x] else [])).length = cnt + push.toNat := by
    rw [h.cnt_eq]
    cases push <;> simp
  have hwr : (wr + push.toNat) % N = (rd + (cnt + push.toNat)) % N := by
    rw [h.wr_eq, h.cnt_eq, Nat.mod_add_mod, Nat.add_assoc]
  have hcells : Holds N (if push then Function.update mem wr x else mem) rd
      (q ++ (if push then [x] else [])) := by
    cases hp : push with
    | false => simpa using h.cells
    | true =>
      rw [if_pos rfl, if_pos rfl, h.wr_eq]
      have hle := h.cells.1
      have hne := h.cnt_eq ▸ hpush hp
      exact h.cells.push (by omega)
  cases hd : drain with
  | false =>
    refine ⟨q ++ (if push then [x] else []), rfl, ?_, ?_, Nat.mod_lt _ hN, ?_⟩
    · rw [hlen]
      rfl
    · rwa [Bool.toNat_false, Nat.add_zero, Nat.mod_eq_of_lt h.rd_lt]
    · rw [hwr, hlen, Nat.mod_add_mod]
      rfl
  | true =>
    have hne := hdrain hd
    cases q with
    | nil => exact absurd h.cnt_eq hne
    | cons y q =>
      have hy : mem rd = y := by
        have hhead := h.cells.head
        rwa [Nat.mod_eq_of_lt h.rd_lt] at hhead
      rw [List.cons_append, List.length_cons] at hlen
      refine ⟨q ++ (if push then [x] else []), by rw [if_pos rfl, hy]; rfl, ?_, hcells.pop,
        Nat.mod_lt _ hN, ?_⟩
      · rw [← hlen]
        rfl
      · rw [hwr, ← hlen, Nat.mod_add_mod, Bool.toNat_true, Nat.add_assoc, Nat.add_comm 1]

/-! ### Rings as large as their pointers count -/

section Window

variable {w : ℕ} {mem : BitVec w → α} {rd wr : BitVec w}

/-- The cells from the read pointer up to the write pointer, of a ring as large as the pointers
count. -/
def window (mem : BitVec w → α) (rd wr : BitVec w) : List α :=
  (List.range (wr - rd).toNat).map fun k => mem (rd + BitVec.ofNat w k)

@[simp] theorem window_self : window mem rd rd = [] := by simp [window]

theorem length_window : (window mem rd wr).length = (wr - rd).toNat := by simp [window]

/-- Moving the read pointer takes one cell off the distance between the pointers. -/
theorem toNat_sub_succ (h : rd ≠ wr) : (wr - (rd + 1)).toNat + 1 = (wr - rd).toNat := by
  have hd : wr - rd ≠ 0 := fun h0 => h (by simpa using (BitVec.sub_eq_iff_eq_add.mp h0).symm)
  have hpos : 0 < (wr - rd).toNat := Nat.pos_of_ne_zero fun h0 => hd (BitVec.eq_of_toNat_eq h0)
  cases w with
  | zero => exact absurd (Subsingleton.elim rd wr) h
  | succ w =>
    have hone : (1 : BitVec (w + 1)).toNat = 1 := BitVec.toNat_one w.succ_pos
    rw [← BitVec.sub_sub, BitVec.toNat_sub_of_le (by rwa [BitVec.le_def, hone]), hone]
    omega

theorem window_pop (h : rd ≠ wr) : window mem rd wr = mem rd :: window mem (rd + 1) wr := by
  rw [window, ← toNat_sub_succ h, List.range_succ_eq_map, List.map_cons, List.map_map, window]
  congr 1
  · simp
  · refine List.map_congr_left fun k _ => congrArg mem ?_
    rw [BitVec.add_assoc, Nat.succ_eq_one_add, BitVec.ofNat_add]
    rfl

/-- The write pointer comes one cell further. -/
theorem window_push (h : wr + 1 ≠ rd) :
    window (Function.update mem wr x) rd (wr + 1) = window mem rd wr ++ [x] := by
  have hlen : (wr + 1 - rd).toNat = (wr - rd).toNat + 1 := by
    rw [← toNat_sub_succ h.symm]
    congr 2
    rw [BitVec.sub_eq_iff_eq_add, ← BitVec.add_assoc, BitVec.sub_add_cancel]
  rw [window, hlen, List.range_succ, List.map_append, List.map_singleton, window]
  congr 1
  · refine List.map_congr_left fun k hk => Function.update_of_ne (fun he => ?_) _ _
    rw [List.mem_range] at hk
    have hk' : (BitVec.ofNat w k) = wr - rd := by rw [← he]; simp
    rw [← hk', BitVec.toNat_ofNat] at hk
    exact absurd (Nat.mod_le _ _) (not_le.mpr hk)
  · rw [BitVec.ofNat_toNat, BitVec.setWidth_eq, BitVec.add_comm, BitVec.sub_add_cancel,
      Function.update_self]

end Window

end RingBuffer
