import LBMacTwo.Asc.Occupancy

/-!
# The four voices of the wavetable

* `State.voiceByte`: the byte of a voice at its phase after `n` increments, in closed form;
* `Playing`: wavetable mode over tables, phases and increments that the CPU leaves alone;
* `phase_run`: the phases of such a run;
* `mix_after_tick`: the sample started by a tick takes voices 1 and 3 one increment further on than
  voices 0 and 2;
* `Coherent`, `coherent_iff`: when every sample takes all four voices at the same phase.
-/

namespace Asc
open Clocked

variable {s : State} {u : ℕ → In} {m t : ℕ}

/-! ### The voices in closed form -/

/-- Bits 23:15 of a phase after `n` increments. -/
def State.voiceIdx (s : State) (c : Fin 4) (n : ℕ) : ℕ :=
  ((s.phase c).toNat + n * (s.freq c).toNat) / 32768 % 512

/-- The table byte of voice `c` after `n` increments. -/
def State.voiceByte (s : State) (c : Fin 4) (n : ℕ) : Byte :=
  (if c.val < 2 then s.a else s.b).ram (c.val % 2 * 512 + s.voiceIdx c n)

def total (v : Fin 4 → Byte) : ℕ := ∑ c, (v c).toNat

/-- The average of four bytes. -/
def average (v : Fin 4 → Byte) : Byte := BitVec.ofNat 8 (total v / 4)

/-- The table bytes with voices 0 and 2 after `n` increments and voices 1 and 3 after `k`. -/
def State.voices (s : State) (n k : ℕ) (c : Fin 4) : Byte :=
  s.voiceByte c (if c.val % 2 = 0 then n else k)

/-! ### A run in wavetable mode -/

/-- In the first `m` clocks the chip is in wavetable mode, and the CPU writes neither to the tables
nor to the phases and increments. -/
structure Playing (s : State) (u : ℕ → In) (m : ℕ) : Prop where
  mode : ∀ k ≤ m, (run step s u k).ascMode = 2
  tables : ∀ k < m, ∀ bank < 2, portWe bank (run step s u k) (u k) = false
  channels : ∀ k < m, channelWrite (run step s u k) (u k) = false

/-- The sample ticks of the first `t` clocks. -/
def ticks (s : State) (u : ℕ → In) (t : ℕ) : ℕ :=
  ((List.range t).filter fun k => (run step s u k).sampleTick).length

theorem ticks_succ (s : State) (u : ℕ → In) (t : ℕ) :
    ticks s u (t + 1) = ticks s u t + (run step s u t).sampleTick.toNat := by
  rw [ticks, List.range_succ, List.filter_append, List.length_append]
  cases h : (run step s u t).sampleTick <;> simp [ticks, h]

theorem Playing.le (h : Playing s u m) {k : ℕ} (hk : k ≤ m) : Playing s u k :=
  ⟨fun j hj => h.mode j (by omega), fun j hj => h.tables j (by omega),
    fun j hj => h.channels j (by omega)⟩

/-- A clock in which the mode stays and no channel register is written. -/
theorem phaseNext_eq {i : In} (h : s.ascMode = 2) (h' : (step s i).ascMode = 2)
    (hc : channelWrite s i = false) (c : Fin 4) :
    phaseNext s i c = s.phase c + BitVec.ofNat 32 s.sampleTick.toNat * s.freq c := by
  have hmode : modeChange s i = false := by
    change (if regWriteAt 1 s i then ascWriteData s i else s.ascMode) = 2 at h'
    rw [modeChange, Bool.and_eq_false_iff]
    by_cases hw : regWriteAt 1 s i = true
    · rw [if_pos hw] at h'
      right
      rw [h', h]
      rfl
    · exact .inl (eq_false_of_ne_true hw)
  unfold phaseNext
  cases htick : s.sampleTick
  case true => simp [h]
  case false => simp [hmode, hc]

theorem freqNext_eq {i : In} (hc : channelWrite s i = false) : freqNext s i = s.freq := by
  unfold freqNext
  rw [hc, Bool.false_and, if_neg Bool.false_ne_true]

/-- Along such a run the phases are those of the start, advanced by the ticks so far. -/
theorem phase_run (h : Playing s u m) :
    (run step s u m).a.ram = s.a.ram ∧ (run step s u m).b.ram = s.b.ram ∧
      (run step s u m).freq = s.freq ∧
      ∀ c, (run step s u m).phase c = s.phase c + BitVec.ofNat 32 (ticks s u m) * s.freq c := by
  induction m with
  | zero =>
    refine ⟨rfl, rfl, rfl, fun c => ?_⟩
    simp [ticks]
  | succ m ih =>
    obtain ⟨hra, hrb, hf, hp⟩ := ih (h.le (Nat.le_succ m))
    have hc := h.channels m (Nat.lt_succ_self m)
    have hwa := h.tables m (Nat.lt_succ_self m) 0 (by decide)
    have hwb := h.tables m (Nat.lt_succ_self m) 1 (by decide)
    have hm := h.mode m (Nat.le_succ m)
    have hm' := h.mode (m + 1) le_rfl
    rw [run_succ] at hm' ⊢
    refine ⟨?_, ?_, ?_, fun c => ?_⟩
    · change (if portWe 0 (run step s u m) (u m) then _ else (run step s u m).a.ram) = _
      rw [hwa, if_neg Bool.false_ne_true, hra]
    · change (if portWe 1 (run step s u m) (u m) then _ else (run step s u m).b.ram) = _
      rw [hwb, if_neg Bool.false_ne_true, hrb]
    · exact (freqNext_eq hc).trans hf
    · change phaseNext (run step s u m) (u m) c = _
      rw [phaseNext_eq hm hm' hc, hp, hf, ticks_succ, BitVec.ofNat_add, BitVec.add_mul,
        BitVec.add_assoc]

/-- The index of a voice in such a run. -/
theorem wtIdx_run (h : Playing s u m) (c : Fin 4) :
    (run step s u m).wtIdx c = s.voiceIdx c (ticks s u m) := by
  rw [State.wtIdx, (phase_run h).2.2.2, State.voiceIdx, BitVec.toNat_add, BitVec.toNat_mul,
    BitVec.toNat_ofNat]
  have hmod : ((s.phase c).toNat +
      ticks s u m % 2 ^ 32 * (s.freq c).toNat % 2 ^ 32) % 2 ^ 32 =
        ((s.phase c).toNat + ticks s u m * (s.freq c).toNat) % 2 ^ 32 := by
    rw [Nat.add_mod, Nat.mod_mod, Nat.mod_mul_mod, ← Nat.add_mod]
  rw [hmod]
  omega

/-! ### The sequence that a tick starts -/

/-- The sequencer is idle, or its place tells the clocks since the tick that started it. -/
def State.Sequenced (s : State) : Prop :=
  s.wtState = 0 ∨ s.wtState ≤ 3 ∧ s.sampleCounter + 1 = s.wtState

theorem sampleTick_false (h : s.sampleCounter < 1407) : s.sampleTick = false := by
  unfold State.sampleTick State.sampleDiv
  rw [decide_eq_false_iff_not]
  split_ifs <;> omega

theorem sampleCounter_step {i : In} (h : s.sampleCounter < 1407) :
    (step s i).sampleCounter = s.sampleCounter + 1 := by
  change sampleCounterNext s = _
  rw [sampleCounterNext, sampleTick_false h, if_neg Bool.false_ne_true, Nat.mod_eq_of_lt (by omega)]

theorem Sequenced.step (h : s.Sequenced) (i : In) : (step s i).Sequenced := by
  have hst : (Asc.step s i).wtState = wtStateNext s := rfl
  unfold State.Sequenced
  rcases h with h0 | ⟨hle, hcount⟩
  · have hnext : wtStateNext s = if s.sampleTick && s.ascMode == 2 then 1 else 0 := by
      rw [wtStateNext, h0]
      rfl
    rw [hst, hnext]
    by_cases htick : (s.sampleTick && s.ascMode == 2) = true
    · have hcounter : (Asc.step s i).sampleCounter = 0 := by
        change sampleCounterNext s = 0
        rw [Bool.and_eq_true] at htick
        rw [sampleCounterNext, if_pos htick.1]
      right
      rw [if_pos htick, hcounter]
      exact ⟨by decide, rfl⟩
    · left
      rw [if_neg htick]
  · obtain h1 | h2 | h3 : s.wtState = 1 ∨ s.wtState = 2 ∨ s.wtState = 3 := by omega
    · rw [hst, wtStateNext, h1, sampleCounter_step (by omega)]
      right
      simp only
      omega
    · rw [hst, wtStateNext, h2, sampleCounter_step (by omega)]
      right
      simp only
      omega
    · left
      rw [hst, wtStateNext, h3]
      rfl

/-- A tick in wavetable mode puts the indices of voices 0 and 2 on the memories. -/
theorem step_tick {i : In} (h : s.Sequenced) (hm : s.ascMode = 2) (htick : s.sampleTick = true) :
    (step s i).wtState = 1 ∧ (step s i).sampleCounter = 0 ∧ (step s i).a.addrB = s.wtIdx 0 ∧
      (step s i).b.addrB = s.wtIdx 2 := by
  have h0 : s.wtState = 0 := by
    rcases h with h0 | ⟨hle, hcount⟩
    · exact h0
    · have hfalse := @sampleTick_false s (by omega)
      rw [htick] at hfalse
      cases hfalse
  refine ⟨?_, ?_, ?_, ?_⟩
  · change wtStateNext s = 1
    simp [wtStateNext, h0, htick, hm]
  · change sampleCounterNext s = 0
    rw [sampleCounterNext, if_pos htick]
  · change wtAddrNext 0 1 s.a s = _
    simp [wtAddrNext, h0, htick, hm]
  · change wtAddrNext 2 3 s.b s = _
    simp [wtAddrNext, h0, htick, hm]

/-- The clock after it puts those of voices 1 and 3 there, whose phases have gone on. -/
theorem step_first {i : In} (h1 : s.wtState = 1) (hc : s.sampleCounter = 0) :
    (step s i).wtState = 2 ∧ (step s i).sampleCounter = 1 ∧
      (step s i).a.rdataB = s.a.ram s.a.addrB ∧ (step s i).b.rdataB = s.b.ram s.b.addrB ∧
      (step s i).a.addrB = 512 + s.wtIdx 1 ∧ (step s i).b.addrB = 512 + s.wtIdx 3 := by
  refine ⟨?_, ?_, rfl, rfl, ?_, ?_⟩
  · change wtStateNext s = 2
    rw [wtStateNext, h1]
    rfl
  · rw [sampleCounter_step (by omega), hc]
  · change wtAddrNext 0 1 s.a s = _
    simp [wtAddrNext, h1]
  · change wtAddrNext 2 3 s.b s = _
    simp [wtAddrNext, h1]

theorem step_second {i : In} (h2 : s.wtState = 2) (hc : s.sampleCounter = 1) :
    (step s i).wtState = 3 ∧ (step s i).sampleCounter = 2 ∧
      (step s i).a.rdataB = s.a.ram s.a.addrB ∧ (step s i).b.rdataB = s.b.ram s.b.addrB ∧
      (step s i).wtSample 0 = s.a.rdataB ∧ (step s i).wtSample 2 = s.b.rdataB := by
  have hsample : (step s i).wtSample =
      Function.update (Function.update s.wtSample 0 s.a.rdataB) 2 s.b.rdataB := by
    change wtSampleNext s = _
    rw [wtSampleNext, h2]
    rfl
  refine ⟨?_, ?_, rfl, rfl, ?_, ?_⟩
  · change wtStateNext s = 3
    rw [wtStateNext, h2]
    rfl
  · rw [sampleCounter_step (by omega), hc]
  · rw [hsample]
    rfl
  · rw [hsample]
    rfl

theorem step_third {i : In} (h3 : s.wtState = 3) (hc : s.sampleCounter = 2) :
    (step s i).sampleCounter = 3 ∧ (step s i).wtDone = true ∧
      (step s i).wtSample 0 = s.wtSample 0 ∧ (step s i).wtSample 1 = s.a.rdataB ∧
      (step s i).wtSample 2 = s.wtSample 2 ∧ (step s i).wtSample 3 = s.b.rdataB := by
  have hsample : (step s i).wtSample =
      Function.update (Function.update s.wtSample 1 s.a.rdataB) 3 s.b.rdataB := by
    change wtSampleNext s = _
    rw [wtSampleNext, h3]
    rfl
  refine ⟨?_, ?_, ?_, ?_, ?_, ?_⟩
  · rw [sampleCounter_step (by omega), hc]
  · change (s.wtState == 3) = true
    rw [h3]
    rfl
  all_goals
    rw [hsample]
    rfl

/-- The mix goes to both outputs. -/
theorem step_done {i : In} (hm : s.ascMode = 2) (hd : s.wtDone = true) :
    (step s i).audioLeft = s.wtMix ∧ (step s i).audioRight = s.wtMix := by
  have hfifo : s.fifoTick = false := by simp [State.fifoTick, hm]
  constructor
  · change audioLeftNext s = _
    rw [audioLeftNext, hfifo, if_neg Bool.false_ne_true, if_pos hd]
  · change audioRightNext s = _
    rw [audioRightNext, hfifo, if_neg Bool.false_ne_true, if_pos hd]

/-- The sample that tick number `n` starts: voices 1 and 3 have gone on by one increment. -/
theorem mix_after_tick (hs : (run step s u t).Sequenced) (h : Playing s u (t + 5))
    (htick : (run step s u t).sampleTick = true) :
    ∀ out ∈ [(run step s u (t + 5)).audioLeft, (run step s u (t + 5)).audioRight], out =
      pcm (average (s.voices (ticks s u t) (ticks s u t + 1))) := by
  have hticks : ticks s u (t + 1) = ticks s u t + 1 := by
    rw [ticks_succ, htick]
    rfl
  have hidx0 := wtIdx_run (h.le (show t ≤ t + 5 by omega)) 0
  have hidx2 := wtIdx_run (h.le (show t ≤ t + 5 by omega)) 2
  have hidx1 := wtIdx_run (h.le (show t + 1 ≤ t + 5 by omega)) 1
  have hidx3 := wtIdx_run (h.le (show t + 1 ≤ t + 5 by omega)) 3
  obtain ⟨ha1, hb1, -⟩ := phase_run (h.le (show t + 1 ≤ t + 5 by omega))
  obtain ⟨ha2, hb2, -⟩ := phase_run (h.le (show t + 2 ≤ t + 5 by omega))
  obtain ⟨hst1, hc1, haddr0, haddr2⟩ :=
    @step_tick _ (u t) hs (h.mode t (by omega)) htick
  obtain ⟨hst2, hc2, hr0, hr2, haddr1, haddr3⟩ := @step_first (run step s u (t + 1)) (u (t + 1)) hst1 hc1
  obtain ⟨hst3, hc3, hr1, hr3, hw0, hw2⟩ := @step_second (run step s u (t + 2)) (u (t + 2)) hst2 hc2
  obtain ⟨-, hdone, hv0, hv1, hv2, hv3⟩ := @step_third (run step s u (t + 3)) (u (t + 3)) hst3 hc3
  obtain ⟨hleft, hright⟩ :=
    @step_done (run step s u (t + 4)) (u (t + 4)) (h.mode (t + 4) (by omega)) hdone
  change (run step s u (t + 1)).a.addrB = _ at haddr0
  change (run step s u (t + 1)).b.addrB = _ at haddr2
  have h0 : (run step s u (t + 4)).wtSample 0 = s.voiceByte 0 (ticks s u t) := by
    rw [run_succ, hv0, run_succ, hw0, run_succ, hr0, haddr0, ha1, hidx0]
    simp [State.voiceByte]
  have h2 : (run step s u (t + 4)).wtSample 2 = s.voiceByte 2 (ticks s u t) := by
    rw [run_succ, hv2, run_succ, hw2, run_succ, hr2, haddr2, hb1, hidx2]
    simp [State.voiceByte]
  have h1 : (run step s u (t + 4)).wtSample 1 = s.voiceByte 1 (ticks s u t + 1) := by
    rw [run_succ, hv1, run_succ, hr1, ha2, run_succ, haddr1, hidx1, hticks]
    rfl
  have h3 : (run step s u (t + 4)).wtSample 3 = s.voiceByte 3 (ticks s u t + 1) := by
    rw [run_succ, hv3, run_succ, hr3, hb2, run_succ, haddr3, hidx3, hticks]
    rfl
  have hmix : (run step s u (t + 4)).wtMix =
      pcm (average (s.voices (ticks s u t) (ticks s u t + 1))) := by
    rw [State.wtMix, State.wtSum, h0, h1, h2, h3, average, total, Fin.sum_univ_four]
    rfl
  intro out hout
  rw [List.mem_cons, List.mem_singleton] at hout
  rcases hout with rfl | rfl
  · exact hleft.trans hmix
  · exact hright.trans hmix

/-! ### Coherence -/

/-- Every sample completed in the first `m` clocks is the average of the four voices at one phase,
on both outputs. -/
def Coherent (s : State) (u : ℕ → In) (m : ℕ) : Prop :=
  ∀ t, t + 5 ≤ m → (run step s u t).sampleTick = true →
    ∀ out ∈ [(run step s u (t + 5)).audioLeft, (run step s u (t + 5)).audioRight], out =
      pcm (average (s.voices (ticks s u t) (ticks s u t)))

theorem total_le (v : Fin 4 → Byte) : total v ≤ 1020 := by
  have h : ∀ c, (v c).toNat ≤ 255 := fun c => Nat.le_of_lt_succ (v c).isLt
  rw [total, Fin.sum_univ_four]
  linarith [h 0, h 1, h 2, h 3]

theorem pcm_average_inj {v w : Fin 4 → Byte} :
    pcm (average v) = pcm (average w) ↔ total v / 4 = total w / 4 := by
  have hv := total_le v
  have hw := total_le w
  have hpcm : ∀ x y : Byte, pcm x = pcm y ↔ x = y := by
    intro x y
    refine ⟨fun h => ?_, congrArg pcm⟩
    have hhigh := congrArg highByte h
    rw [pcm, pcm, highByte_pairWord, highByte_pairWord] at hhigh
    have hcancel := congrArg (· ^^^ 0x80#8) hhigh
    simpa [BitVec.xor_assoc] using hcancel
  rw [hpcm, average, average, ← BitVec.toNat_inj, BitVec.toNat_ofNat, BitVec.toNat_ofNat]
  omega

/-- From every state the chip can be in, the samples are coherent exactly as long as, at each tick,
one more increment of voices 1 and 3 leaves the sum of the four in the same multiple of four. -/
theorem coherent_iff {v : ℕ → In} {b : ℕ} (hs : run step .init v b = s) (h : Playing s u m) :
    Coherent s u m ↔ ∀ t, t + 5 ≤ m → (run step s u t).sampleTick = true →
      total (s.voices (ticks s u t) (ticks s u t + 1)) / 4 =
        total (s.voices (ticks s u t) (ticks s u t)) / 4 := by
  have hstep : ∀ s i, s.Sequenced → (step s i).Sequenced := fun s i hi => Sequenced.step hi i
  have h0 : s.Sequenced := hs ▸ @run_inv _ _ step State.Sequenced hstep .init (.inl rfl) v b
  have hseq : ∀ t, (run step s u t).Sequenced := run_inv step hstep h0 u
  refine forall_congr' fun t => forall_congr' fun ht => forall_congr' fun htick => ?_
  have hmix := mix_after_tick (hseq t) (h.le ht) htick
  constructor
  · intro hout
    have hleft := (hmix _ List.mem_cons_self).symm.trans (hout _ List.mem_cons_self)
    exact pcm_average_inj.mp hleft
  · intro hsum out hout
    rw [hmix out hout]
    exact pcm_average_inj.mpr hsum

/-- An idle bus for `n` clocks, then `v`. -/
def idleThen (n : ℕ) (v : ℕ → In) (t : ℕ) : In := if t < n then idleAt 0 else v (t - n)

theorem run_idleThen {n : ℕ} (hn : n ≤ 1407) (v : ℕ → In) (m : ℕ) :
    run step .init (idleThen n v) (n + m) = run step (waiting n) v m := by
  have hidle : run step .init (idleThen n v) n = waiting n := by
    rw [← run_idle hn]
    exact run_congr step fun k hk => if_pos hk
  rw [run_add, hidle]
  refine run_congr step fun k _ => ?_
  rw [idleThen, if_neg (by omega), Nat.add_sub_cancel_left]

/-- The byte 4 at index 1 of the table of voice 1, an increment of one index for that voice, and
wavetable mode. -/
def tone : ℕ → In
  | 0 => writeLower 0x201 4
  | 2 => writeUpper 0x82E 0x80
  | 4 => writeLower 0x801 2
  | _ => idleAt 0

/-- The same with the byte 3. -/
def softTone : ℕ → In
  | 0 => writeLower 0x201 3
  | t => tone t

theorem coherent_iff_softTone :
    let s := run step .init (idleThen 1400 softTone) 1405
    let u := fun _ => idleAt 0
    Playing s u 7 ∧ (run step s u 2).sampleTick = true ∧ Coherent s u 7 := by
  intro s u
  have hs : s = run step (waiting 1400) softTone 5 := run_idleThen (by decide) softTone 5
  have hplay : Playing s u 7 := by
    rw [hs]
    exact ⟨by decide +kernel, by decide +kernel, by decide +kernel⟩
  refine ⟨hplay, ?_, (coherent_iff rfl hplay).mpr ?_⟩
  · rw [hs]
    decide +kernel
  · have hsum : ∀ t < 3, (run step s u t).sampleTick = true →
        total (s.voices (ticks s u t) (ticks s u t + 1)) / 4 =
          total (s.voices (ticks s u t) (ticks s u t)) / 4 := by
      rw [hs]
      decide +kernel
    exact fun t ht => hsum t (by omega)

/-- The first sample takes index 1 of voice 1 although no increment has been added yet. -/
theorem voice_one_ahead :
    let s := run step .init (idleThen 1400 tone) 1405
    let u := fun _ => idleAt 0
    Playing s u 7 ∧ ¬ Coherent s u 7 ∧ (run step s u 7).audioLeft = pcm 1 := by
  intro s u
  have hs : s = run step (waiting 1400) tone 5 := run_idleThen (by decide) tone 5
  have hplay : Playing s u 7 := by
    rw [hs]
    exact ⟨by decide +kernel, by decide +kernel, by decide +kernel⟩
  have hleft : (run step s u 7).audioLeft = pcm 1 := by
    rw [hs]
    decide +kernel
  refine ⟨hplay, fun h => ?_, hleft⟩
  have htick : (run step s u 2).sampleTick = true := by
    rw [hs]
    decide +kernel
  have hzero : pcm (average (s.voices (ticks s u 2) (ticks s u 2))) = pcm 0 := by
    rw [hs]
    decide +kernel
  have hout := (h 2 le_rfl htick _ List.mem_cons_self).trans hzero
  rw [hleft] at hout
  revert hout
  decide

end Asc
