import LBMacTwo.Swim.Chip
import LBMacTwo.Foundation.Clocked

/-!
# The byte lanes of the floppy controller

The same access on the upper and on the lower lane.

* `Mirrors`: a clock of an access on the upper lane, and the same on the lower lane;
* `State.InPlace`, `Blind`: the clocks in which the lane cannot be told;
* `step_mirrors_iff`: they are the clocks that end in the same state;
* `Independent`, `independent_iff`: runs with some accesses moved to the other lane.
-/

namespace Swim
open Clocked

variable {s : State} {i j : In}

/-- `j` is the clock `i` of an access on the upper lane, with the same byte on the lower lane. -/
structure Mirrors (i j : In) : Prop where
  upper : i.uds = true ∧ i.lds = false
  lower : j = { i with uds := false, lds := true, dataIn := j.dataIn }
  byte : lowByte j.dataIn = highByte i.dataIn

/-- The switch that an IWM access addresses is in the position the access asks for. -/
structure State.InPlace (s : State) (i : In) : Prop where
  ca0 : i.cpuAddrRegHi / 2 = 0 → i.regBit = s.ca0
  ca1 : i.cpuAddrRegHi / 2 = 1 → i.regBit = s.ca1
  ca2 : i.cpuAddrRegHi / 2 = 2 → i.regBit = s.ca2
  lstrb : i.cpuAddrRegHi / 2 = 3 → i.regBit = s.lstrb
  diskEnable : i.cpuAddrRegHi / 2 = 4 →
    i.regBit = if s.selectExternalDrive then s.diskEnableExt else s.diskEnableInt
  drive : i.cpuAddrRegHi / 2 = 5 → i.regBit = s.selectExternalDrive
  q6 : i.cpuAddrRegHi / 2 = 6 → i.regBit = s.q6
  q7 : i.cpuAddrRegHi / 2 = 7 → i.regBit = s.q7

/-- The register that an IWM write goes to holds the byte, or there is none. -/
def State.HoldsByte (s : State) (i : In) : Prop :=
  s.q7 = true → s.q6 = true →
    if s.anyDiskEnable then s.writeData = i.dataInLo
    else s.iwmMode = i.dataInLo.extractLsb' 0 5

/-- A clock in which it makes no difference on which lane the access is: in ISM mode, without an
access to the controller, and in a write that changes nothing. -/
def Blind (s : State) (i : In) : Prop :=
  s.ismMode = true ∨ i.selectSWIM = false ∨
    i.cpuRW = false ∧ s.InPlace i ∧ s.HoldsByte i

section Mirrors

variable (h : Mirrors i j)

include h

theorem Mirrors.wires : j.selectSWIM = i.selectSWIM ∧ j.cpuRW = i.cpuRW ∧ j.uds = false ∧
    j.cpuAddrRegHi = i.cpuAddrRegHi ∧ j.int = i.int ∧ j.ext = i.ext := by
  rw [h.lower]
  exact ⟨rfl, rfl, rfl, rfl, rfl, rfl⟩

/-- Both lanes start an access and carry the byte. -/
theorem Mirrors.access : j.swimAcc = i.swimAcc ∧ j.dataInLo = i.dataInLo := by
  have hj : j.lds = true := by rw [h.lower]
  obtain ⟨hsel, -, hu, -⟩ := h.wires
  constructor
  · simp [In.swimAcc, hsel, hu, hj, h.upper.1]
  · simp [In.dataInLo, hj, h.upper.2, h.byte]

/-- On the lower lane the IWM sees nothing. -/
theorem Mirrors.deaf (n : ℕ) (r : Bool) :
    iwmBitNext n r s j = r ∧ iwmWrite s j = false ∧ iwmReadNow s j = false := by
  obtain ⟨-, -, hu, -⟩ := h.wires
  simp [iwmBitNext, iwmBit, iwmWrite, iwmReadNow, hu]

end Mirrors

/-- The IWM registers that an access can change, and what is kept of a read. -/
structure SameIwm (s : State) (i j : In) : Prop where
  ca0 : iwmBitNext 0 s.ca0 s i = iwmBitNext 0 s.ca0 s j
  ca1 : iwmBitNext 1 s.ca1 s i = iwmBitNext 1 s.ca1 s j
  ca2 : iwmBitNext 2 s.ca2 s i = iwmBitNext 2 s.ca2 s j
  lstrb : iwmBitNext 3 s.lstrb s i = iwmBitNext 3 s.lstrb s j
  enableExt : diskEnableExtNext s i = diskEnableExtNext s j
  enableInt : diskEnableIntNext s i = diskEnableIntNext s j
  drive : iwmBitNext 5 s.selectExternalDrive s i = iwmBitNext 5 s.selectExternalDrive s j
  q6 : q6Next s i = q6Next s j
  q7 : q7Next s i = q7Next s j
  writeData : writeDataNext s i = writeDataNext s j
  mode : iwmModeNext s i = iwmModeNext s j
  read : iwmReadNow s i = iwmReadNow s j

theorem iwmBitNext_heard (hmode : s.ismMode = false) (hsel : i.selectSWIM = true)
    (hu : i.uds = true) {n : ℕ} {r : Bool} :
    iwmBitNext n r s i = r ↔ (i.cpuAddrRegHi / 2 = n → i.regBit = r) := by
  unfold iwmBitNext iwmBit
  rw [hmode, hsel, hu]
  by_cases hn : i.cpuAddrRegHi / 2 = n <;> simp [hn]

/-- The lanes differ for the IWM exactly in the clocks that are not blind. -/
theorem sameIwm_iff (h : Mirrors i j) : SameIwm s i j ↔ Blind s i := by
  have hu := h.upper.1
  have hbit : ∀ n r, iwmBitNext n r s j = r := fun n r => (h.deaf n r).1
  have hwrite : iwmWrite s j = false := (h.deaf 0 false).2.1
  have hread : iwmReadNow s j = false := (h.deaf 0 false).2.2
  cases hmode : s.ismMode with
  | true =>
    have hbit' : ∀ n r, iwmBitNext n r s i = r := fun n r => by simp [iwmBitNext, iwmBit, hmode]
    have hwrite' : iwmWrite s i = false := by simp [iwmWrite, hmode]
    have hread' : iwmReadNow s i = false := by simp [iwmReadNow, hmode]
    refine iff_of_true ?_ (.inl hmode)
    constructor <;>
      simp only [diskEnableExtNext, diskEnableIntNext, q6Next, q7Next, writeDataNext, iwmModeNext,
        hbit, hbit', hwrite, hwrite', hread, hread', Bool.false_and, Bool.false_eq_true, if_false]
  | false =>
    cases hsel : i.selectSWIM with
    | false =>
      have hbit' : ∀ n r, iwmBitNext n r s i = r := fun n r => by simp [iwmBitNext, iwmBit, hsel]
      have hwrite' : iwmWrite s i = false := by simp [iwmWrite, hsel]
      have hread' : iwmReadNow s i = false := by simp [iwmReadNow, hsel]
      refine iff_of_true ?_ (.inr (.inl hsel))
      constructor <;>
        simp only [diskEnableExtNext, diskEnableIntNext, q6Next, q7Next, writeDataNext, iwmModeNext,
          hbit, hbit', hwrite, hwrite', hread, hread', Bool.false_and, Bool.false_eq_true, if_false]
    | true =>
      have hheard : ∀ n r, iwmBitNext n r s i = r ↔ (i.cpuAddrRegHi / 2 = n → i.regBit = r) :=
        fun n r => iwmBitNext_heard hmode hsel hu
      constructor
      · intro hs
        obtain ⟨h0, h1, h2, h3, he, hi, h5, h6, h7, hw, hm, hr⟩ := hs
        unfold diskEnableExtNext at he
        unfold diskEnableIntNext at hi
        rw [hbit, hheard] at h0 h1 h2 h3 h5
        rw [q6Next, q6Next, hbit] at h6
        rw [q7Next, q7Next, hbit] at h7
        rw [hread, iwmReadNow, hsel, hu, hmode] at hr
        have hrw : i.cpuRW = false := by simpa using hr
        refine .inr (.inr ⟨hrw, ⟨h0, h1, h2, h3, ?_, h5, (hheard 6 _).mp h6, (hheard 7 _).mp h7⟩,
          fun h7' h6' => ?_⟩)
        · cases hd : s.selectExternalDrive with
          | true =>
            rw [hd, if_pos rfl, if_pos rfl, hbit, hheard] at he
            rwa [if_pos rfl]
          | false =>
            rw [hd, if_neg Bool.false_ne_true, if_neg Bool.false_ne_true, hbit, hheard] at hi
            rwa [if_neg Bool.false_ne_true]
        · have hwrite' : iwmWrite s i = true := by
            rw [iwmWrite, q7Next, q6Next, h7, h6, h7', h6', hrw, hsel, hu, hmode]
            rfl
          rw [writeDataNext, writeDataNext, hwrite, hwrite'] at hw
          rw [iwmModeNext, iwmModeNext, hwrite, hwrite'] at hm
          cases hd : s.anyDiskEnable with
          | true =>
            rw [hd] at hw
            exact hw.symm
          | false =>
            rw [hd] at hm
            exact hm.symm
      · intro hb
        obtain ⟨hrw, hplace, hbyte⟩ := (hb.resolve_left (by rw [hmode]; decide)).resolve_left
          (by rw [hsel]; decide)
        have h6 : iwmBitNext 6 s.q6 s i = s.q6 := (hheard 6 _).mpr hplace.q6
        have h7 : iwmBitNext 7 s.q7 s i = s.q7 := (hheard 7 _).mpr hplace.q7
        have hdrive := hplace.diskEnable
        have hdata : iwmWrite s i = true →
            if s.anyDiskEnable then s.writeData = i.dataInLo
            else s.iwmMode = i.dataInLo.extractLsb' 0 5 := by
          intro hw
          rw [iwmWrite, q6Next, q7Next, h6, h7, Bool.and_eq_true, Bool.and_eq_true] at hw
          exact hbyte hw.1.2 hw.2
        refine ⟨?_, ?_, ?_, ?_, ?_, ?_, ?_, ?_, ?_, ?_, ?_, ?_⟩
        · rw [hbit, (hheard 0 _).mpr hplace.ca0]
        · rw [hbit, (hheard 1 _).mpr hplace.ca1]
        · rw [hbit, (hheard 2 _).mpr hplace.ca2]
        · rw [hbit, (hheard 3 _).mpr hplace.lstrb]
        · unfold diskEnableExtNext
          rw [hbit]
          split_ifs with hd
          · rw [hd, if_pos rfl] at hdrive
            exact (hheard 4 _).mpr hdrive
          · rfl
        · unfold diskEnableIntNext
          rw [hbit]
          split_ifs with hd
          · rfl
          · rw [if_neg hd] at hdrive
            exact (hheard 4 _).mpr hdrive
        · rw [hbit, (hheard 5 _).mpr hplace.drive]
        · rw [q6Next, q6Next, hbit, h6]
        · rw [q7Next, q7Next, hbit, h7]
        · rw [writeDataNext, writeDataNext, hwrite, Bool.false_and, if_neg Bool.false_ne_true]
          split_ifs with hw
          · rw [Bool.and_eq_true] at hw
            have hkeep := hdata hw.1
            rw [if_pos hw.2] at hkeep
            exact hkeep.symm
          · rfl
        · rw [iwmModeNext, iwmModeNext, hwrite, Bool.false_and, if_neg Bool.false_ne_true]
          split_ifs with hw
          · rw [Bool.and_eq_true, Bool.not_eq_true'] at hw
            have hkeep := hdata hw.1
            rw [hw.2, if_neg Bool.false_ne_true] at hkeep
            exact hkeep.symm
          · rfl
        · rw [hread, iwmReadNow, hrw]
          rfl

/-- Everything else looks at the access through the wires that both lanes drive. -/
theorem step_of_sameIwm (h : Mirrors i j) (hs : SameIwm s i j) : step s i = step s j := by
  obtain ⟨hsel, hrw, -, haddr, hint, hext⟩ := h.wires
  obtain ⟨hacc, hlo⟩ := h.access
  have hend : accEnd s j = accEnd s i := by rw [accEnd, accEnd, hacc]
  have hdrive : ismDrive s j = ismDrive s i := by rw [ismDrive, ismDrive, hint, hext]
  have hbyte : iwmDrive s j = iwmDrive s i := by rw [iwmDrive, iwmDrive, hint, hext]
  have hphase : ∀ n r, iwmBitNext n r s i = iwmBitNext n r s j → phaseNext n r s i = phaseNext n r s j := by
    intro n r hbit
    rw [phaseNext, phaseNext, ismWrite, ismWrite, hend, hbit]
  have hreadEnd : iwmReadEnd s i = iwmReadEnd s j := by rw [iwmReadEnd, iwmReadEnd, hs.read]
  unfold step
  rw [hphase 0 _ hs.ca0, hphase 1 _ hs.ca1, hphase 2 _ hs.ca2, hphase 3 _ hs.lstrb, hs.enableExt,
    hs.enableInt, hs.drive, hs.q6, hs.q7, hs.writeData, hs.mode, hs.read]
  simp only [ismModeNext, ismModeRegNext, ismSetupNext, ismErrorNext, ismParamNext, ismParamIdxNext,
    ismFifo0Next, ismFifo1Next, ismFifoPosNext, ismStageNext, ismStageRdNext, ismStageWrNext,
    ismStageCntNext, iwmToIsmCounterNext, ismPhaseOeNext, mfmSyncedNext, readDataLatchNext,
    readLatchClearTimerNext, errorBits, overrun, fifoFill, clearFifo, enterIsm, ismPopReq,
    ismCpuPush, ismRead, ismWrite, stagePush, stageDrain, ismGenPush, ismGenWord, hend, hacc, hlo,
    hdrive, hbyte, haddr, hrw, hreadEnd]
  all_goals rfl

/-- A clock ends in the same state on both lanes exactly if it is blind. -/
theorem step_mirrors_iff (h : Mirrors i j) : step s i = step s j ↔ Blind s i := by
  refine ⟨fun heq => ?_, fun hb => step_of_sameIwm h ((sameIwm_iff h).mpr hb)⟩
  cases hmode : s.ismMode with
  | true => exact .inl hmode
  | false =>
    have hphase : ∀ n r k, phaseNext n r s k = iwmBitNext n r s k := by
      intro n r k
      simp [phaseNext, ismWrite, hmode]
    have hca0 := congrArg State.ca0 heq
    have hca1 := congrArg State.ca1 heq
    have hca2 := congrArg State.ca2 heq
    have hlstrb := congrArg State.lstrb heq
    simp only [step, hphase] at hca0 hca1 hca2 hlstrb
    exact (sameIwm_iff h).mp ⟨hca0, hca1, hca2, hlstrb, congrArg State.diskEnableExt heq,
      congrArg State.diskEnableInt heq, congrArg State.selectExternalDrive heq,
      congrArg State.q6 heq, congrArg State.q7 heq, congrArg State.writeData heq,
      congrArg State.iwmMode heq, congrArg State.iwmReadD heq⟩

/-- In a blind clock both lanes read the same byte. -/
theorem dataOut_mirrors (h : Mirrors i j) (hb : Blind s i) : dataOut s i = dataOut s j := by
  obtain ⟨-, -, -, haddr, hint, hext⟩ := h.wires
  have hs := (sameIwm_iff h).mpr hb
  simp only [dataOut, ismDataOut, iwmDataOut, handshake, ismDrive, hs.q6, hs.q7, hs.drive, haddr,
    hint, hext]

/-! ### Runs -/

/-- Some clocks of the run `u` are moved to the lower lane in `v`. -/
def Moved (u v : ℕ → In) : Prop := ∀ t, v t = u t ∨ Mirrors (u t) (v t)

/-- Up to clock `m` the two runs have the same states, and the same bytes are read. -/
structure Independent (s : State) (u v : ℕ → In) (m : ℕ) : Prop where
  states : ∀ t ≤ m, run step s v t = run step s u t
  bytes : ∀ t < m, dataOut (run step s v t) (v t) = dataOut (run step s u t) (u t)

/-- The lanes are interchangeable exactly as long as every clock that is moved is blind. -/
theorem independent_iff {u v : ℕ → In} (h : Moved u v) (s : State) (m : ℕ) :
    Independent s u v m ↔ ∀ t < m, v t = u t ∨ Blind (run step s u t) (u t) := by
  constructor
  · intro hi t ht
    refine (h t).imp_right fun hmir => (step_mirrors_iff hmir).mp ?_
    have hnow := hi.states t ht.le
    have hnext := hi.states (t + 1) ht
    rw [run_succ, run_succ, hnow] at hnext
    exact hnext.symm
  · intro hb
    have hstates : ∀ t ≤ m, run step s v t = run step s u t := by
      intro t
      induction t with
      | zero => exact fun _ => rfl
      | succ t ih =>
        intro ht
        rw [run_succ, run_succ, ih (Nat.le_of_succ_le ht)]
        rcases hb t ht with heq | hblind
        · rw [heq]
        · rcases h t with heq | hmir
          · rw [heq]
          · exact ((step_mirrors_iff hmir).mpr hblind).symm
    refine ⟨hstates, fun t ht => ?_⟩
    rw [hstates t ht.le]
    rcases hb t ht with heq | hblind
    · rw [heq]
    · rcases h t with heq | hmir
      · rw [heq]
      · exact (dataOut_mirrors hmir hblind).symm

/-- An access of two clocks on the upper lane, and the idle bus. -/
def upperAccess (rw : Bool) (n : ℕ) (d : Byte) (t : ℕ) : In :=
  if t < 2 then ⟨true, rw, true, false, pairWord d 0, n, ⟨false, 0, false, false, 0, false⟩,
    ⟨false, 0, false, false, 0, false⟩⟩
  else ⟨false, true, false, false, 0, n, ⟨false, 0, false, false, 0, false⟩,
    ⟨false, 0, false, false, 0, false⟩⟩

/-- The same on the lower lane. -/
def lowerAccess (rw : Bool) (n : ℕ) (d : Byte) (t : ℕ) : In :=
  if t < 2 then { upperAccess rw n d t with uds := false, lds := true, dataIn := pairWord 0 d }
  else upperAccess rw n d t

theorem moved_access (rw : Bool) (n : ℕ) (d : Byte) :
    Moved (upperAccess rw n d) (lowerAccess rw n d) := by
  intro t
  unfold lowerAccess
  split_ifs with ht
  · right
    unfold upperAccess
    rw [if_pos ht]
    exact ⟨⟨rfl, rfl⟩, rfl, by simp⟩
  · exact .inl rfl

/-- The setup register is written on either lane. -/
theorem independent_setup :
    Independent { State.init with ismMode := true } (upperAccess false 5 0x55)
        (lowerAccess false 5 0x55) 4 ∧
      (run step { State.init with ismMode := true } (upperAccess false 5 0x55) 3).ismSetup = 0x55 := by
  have hmode : ∀ t < 4, (run step { State.init with ismMode := true }
      (upperAccess false 5 0x55) t).ismMode = true := by
    decide +kernel
  exact ⟨(independent_iff (moved_access false 5 0x55) _ 4).mpr fun t ht => .inr (.inl (hmode t ht)),
    by decide +kernel⟩

/-- In IWM mode a read of address 1 turns CA0 on from the upper lane only. -/
theorem lower_lane_misses :
    Moved (upperAccess true 1 0) (lowerAccess true 1 0) ∧
      ¬ Independent .init (upperAccess true 1 0) (lowerAccess true 1 0) 1 := by
  refine ⟨moved_access true 1 0, fun h => ?_⟩
  have hca0 := congrArg State.ca0 (h.states 1 le_rfl)
  revert hca0
  decide +kernel

end Swim
