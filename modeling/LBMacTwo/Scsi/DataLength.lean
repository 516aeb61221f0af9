import LBMacTwo.Scsi.Command
import LBMacTwo.Foundation.Clocked

/-!
# The length of the data phase

* `lengthRule`: the number of data bytes SCSI prescribes for a command;
* `bytes`: the data bytes the target has transferred after `t` clocks;
* `LengthLaw`: from the clock in which the command is accepted on, the target transfers that many
  bytes before STATUS, and goes to STATUS at once if there are none;
* `lengthLaw_iff`: the law fails for MODE SELECT with an empty parameter list only.
-/

namespace Scsi
open Clocked

/-- The length rule for the data phase of a command. -/
def lengthRule (s : State) : Option ℕ :=
  match s.opCode with
  | 0x08 | 0x0a => some (512 * if (s.cmd 4).toNat = 0 then 256 else (s.cmd 4).toNat)
  | 0x28 | 0x2a => some (512 * ((s.cmd 7).toNat * 256 + (s.cmd 8).toNat))
  | 0x12 => some (min (s.cmd 4).toNat 36)
  | 0x1a => some (min (s.cmd 4).toNat 12)
  | 0x03 => some (min (if (s.cmd 4).toNat = 0 then 4 else (s.cmd 4).toNat) 18)
  | 0x25 => some 8
  | 0x15 => some (s.cmd 4).toNat
  | _ => none

/-- A data phase. -/
def Phase.data : Phase → Bool
  | .dataOut | .dataIn => true
  | _ => false

/-- An `ack` ends in a data phase that is not over: a byte has been transferred. -/
def State.takesByte (s : State) : Bool := s.phase.data && !s.dataDone && s.stbAdv

variable {P : Params} {s : State} {i : In} {u : ℕ → In} {len n t : ℕ}

/-- The data bytes transferred in the first `t` clocks. -/
def bytes (P : Params) (s : State) (u : ℕ → In) : ℕ → ℕ
  | 0 => 0
  | t + 1 => bytes P s u t + (run (Scsi.step P) s u t).takesByte.toNat

/-- From the acceptance of the command on, the target transfers `len` bytes before it enters STATUS;
if there are none it offers no byte and is there after two clocks. -/
structure LengthLaw (P : Params) (s : State) (len : ℕ) : Prop where
  transferred : ∀ u : ℕ → In, (∀ t, (u t).rst = false) → ∀ n,
    (∀ t, 0 < t → t ≤ n → (run (Scsi.step P) s u t).phase.data = true) →
    (run (Scsi.step P) s u (n + 1)).phase = .statusOut → bytes P s u (n + 1) = len
  noData : len = 0 → ∀ u : ℕ → In, (∀ t, (u t).rst = false) →
    (∀ ack ioAck, req (run (Scsi.step P) s u 1) ack ioAck = false ∧
      reqBus (run (Scsi.step P) s u 1) ack ioAck = false) ∧
    (run (Scsi.step P) s u 2).phase = .statusOut

/-! ### What the target makes of the command -/

/-- The opcodes with a length rule. -/
theorem opCode_of_lengthRule (h : lengthRule s = some len) :
    s.opCode = 0x08 ∨ s.opCode = 0x0a ∨ s.opCode = 0x28 ∨ s.opCode = 0x2a ∨ s.opCode = 0x12 ∨
      s.opCode = 0x1a ∨ s.opCode = 0x03 ∨ s.opCode = 0x25 ∨ s.opCode = 0x15 := by
  unfold lengthRule at h
  split at h
  case h_10 => cases h
  all_goals simp [*]

/-- A command with a length rule has a data phase. -/
theorem cmdPhase_data (h : lengthRule s = some len) : s.cmdPhase.data = true := by
  rcases opCode_of_lengthRule h with ho | ho | ho | ho | ho | ho | ho | ho | ho <;>
    simp [State.cmdPhase, State.cmdOk, State.cmdReturnsData, State.cmdReceivesData, State.cmdRead,
      State.cmdRead6, State.cmdRead10, State.cmdWrite, State.cmdWrite6, State.cmdWrite10,
      State.cmdInquiry, State.cmdReadCapacity, State.cmdModeSelect, State.cmdModeSense,
      State.cmdReadBuffer, State.cmdRequestSense, ho, Phase.data]

/-- The opcode arrives first and stays. -/
theorem opCode_accept (hc : s.cmdCpl = true) : (Scsi.step P s i).opCode = s.opCode := by
  have hcnt : s.cmdCnt ≠ 0 := by
    rw [cmdCpl_iff] at hc
    omega
  rw [State.opCode, cmd_next_of_ne hcnt]
  rfl

/-- The length of the data phase is the one of the rule, but for an empty parameter list, which the
transfer length of the 6-byte commands turns into 256 bytes. -/
theorem dataLen_accept (hp : s.phase = .cmdIn) (hc : s.cmdCpl = true)
    (h : lengthRule s = some len) : (Scsi.step P s i).dataLen =
      if s.opCode = 0x15 ∧ (s.cmd 4).toNat = 0 then 256 else len := by
  have hop := @opCode_accept P s i hc
  have ht := @tlen_accept P s i hp hc
  have hlt := (s.cmd 4).isLt
  unfold lengthRule at h
  rcases opCode_of_lengthRule h with ho | ho | ho | ho | ho | ho | ho | ho | ho
  all_goals
    simp only [ho, Option.some.injEq] at h
    rw [← h]
    simp [State.dataLen, State.cmdReadCapacity, State.cmdRead, State.cmdRead6, State.cmdRead10,
      State.cmdWrite, State.cmdWrite6, State.cmdWrite10, State.cmdInquiry, State.cmdModeSense,
      State.cmdRequestSense, State.allocLen, State.senseLen, hop, ht, ho, State.cmdTlen,
      State.cmdGroup, State.tlen6, State.tlen10]
    try split_ifs
  all_goals omega

theorem dataLen_le (s : State) : s.dataLen ≤ 512 * s.tlen + 18 := by
  have ha : s.allocLen ≤ s.tlen := by
    unfold State.allocLen
    split_ifs <;> omega
  unfold State.dataLen
  split_ifs <;> omega

/-! ### Counting the bytes -/

/-- In the data phase of a command of length `len` the byte counter shows the bytes transferred
until they are all there. -/
structure Counting (len : ℕ) (s : State) (b : ℕ) : Prop where
  len_eq : s.dataLen = len
  complete : s.dataComplete = true → b = len
  counting : s.dataComplete = false → s.dataCnt = b ∧ (b < len ∨ len = 0)
  empty : len = 0 → b = 0

theorem Phase.transfers_of_data {p : Phase} (h : p.data = true) : p.transfers = true := by
  cases p <;> first | rfl | cases h

theorem Phase.ne_cmdIn_of_data {p : Phase} (h : p.data = true) : p ≠ .cmdIn := by
  rintro rfl
  cases h

theorem Phase.data_cases {p : Phase} (h : p.data = true) : p = .dataOut ∨ p = .dataIn := by
  cases p
  case dataOut => exact .inl rfl
  case dataIn => exact .inr rfl
  all_goals cases h

/-- A clock of a data phase that is not over. -/
theorem Counting.step {b : ℕ} (h : Counting len s b) (hp : s.phase.data = true)
    (hdone : s.dataDone = false) (hlen : len < 2 ^ 32) :
    Counting len (Scsi.step P s i) (b + s.takesByte.toNat) := by
  rw [State.dataDone, h.len_eq, Bool.or_eq_false_iff, beq_eq_false_iff_ne] at hdone
  obtain ⟨hopen, hpos⟩ := hdone
  obtain ⟨hcnt, hb⟩ := h.counting hopen
  have htr := Phase.transfers_of_data hp
  have hl : (Scsi.step P s i).dataLen = len := by
    rw [dataLen_next (Phase.ne_cmdIn_of_data hp), h.len_eq]
  have htake : s.takesByte = s.stbAdv := by
    rw [State.takesByte, hp, State.dataDone, hopen, h.len_eq, beq_false_of_ne hpos]
    rfl
  have hcomp' : (Scsi.step P s i).dataComplete =
      if s.stbAdv then decide ((len + 2 ^ 32 - 1) % 2 ^ 32 = b) else false := by
    change dataCompleteNext s = _
    rw [dataCompleteNext, htr, Bool.not_true, if_neg Bool.false_ne_true, h.len_eq, hcnt, hopen]
  have hcnt' : (Scsi.step P s i).dataCnt = if s.stbAdv then (b + 1) % 2 ^ 32 else b := by
    change dataCntNext s = _
    rw [dataCntNext, htr, Bool.not_true, if_neg Bool.false_ne_true, hopen, hcnt, Bool.not_false,
      Bool.and_true]
  rw [htake]
  cases hadv : s.stbAdv with
  | false =>
    rw [hadv, if_neg Bool.false_ne_true] at hcomp' hcnt'
    refine ⟨hl, fun hc => ?_, fun _ => ⟨hcnt', hb⟩, fun h0 => absurd h0 hpos⟩
    rw [hcomp'] at hc
    cases hc
  | true =>
    rw [hadv, if_pos rfl] at hcomp' hcnt'
    -- `data_len - 1` does not wrap, and the last byte is the one with that number
    have hlast : (len + 2 ^ 32 - 1) % 2 ^ 32 = len - 1 := by omega
    have hwrap : (b + 1) % 2 ^ 32 = b + 1 := Nat.mod_eq_of_lt (by omega)
    rw [hlast] at hcomp'
    rw [hwrap] at hcnt'
    refine ⟨hl, fun hc => ?_, fun hc => ⟨hcnt', ?_⟩, fun h0 => absurd h0 hpos⟩
    · rw [hcomp', decide_eq_true_eq] at hc
      change b + 1 = len
      omega
    · rw [hcomp', decide_eq_false_iff_not] at hc
      change b + 1 < len ∨ len = 0
      omega

/-- The data phase starts with no byte counted. -/
theorem counting_accept (hp : s.phase = .cmdIn) :
    Counting (Scsi.step P s i).dataLen (Scsi.step P s i) 0 := by
  have hcomp : (Scsi.step P s i).dataComplete = false := by
    change dataCompleteNext s = false
    rw [dataCompleteNext, hp]
    rfl
  have hcnt : (Scsi.step P s i).dataCnt = 0 := by
    change dataCntNext s = 0
    rw [dataCntNext, hp]
    rfl
  refine ⟨rfl, fun hc => ?_, fun _ => ⟨hcnt, by omega⟩, fun _ => rfl⟩
  rw [hcomp] at hc
  cases hc

/-- As long as the data phase lasts the bytes are counted. -/
theorem counting_run (hp : s.phase = .cmdIn) (hlen : (Scsi.step P s (u 0)).dataLen < 2 ^ 32)
    (hr : ∀ t, (u t).rst = false)
    (hdata : ∀ t, 0 < t → t ≤ n + 1 → (run (Scsi.step P) s u t).phase.data = true) :
    Counting (Scsi.step P s (u 0)).dataLen (run (Scsi.step P) s u (n + 1))
      (bytes P s u (n + 1)) := by
  induction n with
  | zero =>
    have hno : s.takesByte = false := by
      rw [State.takesByte, hp]
      rfl
    have hzero : bytes P s u 1 = 0 := by
      change 0 + s.takesByte.toNat = 0
      rw [hno]
      rfl
    rw [hzero]
    exact counting_accept hp
  | succ n ih =>
    have hn := hdata (n + 1) (by omega) (by omega)
    have hstay := hdata (n + 2) (by omega) le_rfl
    have hdone : (run (Scsi.step P) s u (n + 1)).dataDone = false := by
      by_contra hd
      rw [run_succ, phase_data (hr (n + 1)) (Phase.data_cases hn),
        if_pos (by simpa using hd)] at hstay
      cases hstay
    exact (ih fun t h0 ht => hdata t h0 (by omega)).step hn hdone hlen

/-! ### The law -/

/-- The wires at rest. -/
def calm : In := ⟨false, false, false, false, 0, false, 0, false, 0, 0, false, false, 0⟩

section Law

variable (hp : s.phase = .cmdIn) (hc : s.cmdCpl = true)
include hp hc

theorem phase_one (h : lengthRule s = some len) (hr : i.rst = false) :
    (Scsi.step P s i).phase.data = true := by
  rw [phase_accept hr hp, if_pos hc]
  exact cmdPhase_data h

theorem dataLen_lt : (Scsi.step P s i).dataLen < 2 ^ 32 := by
  have hle := dataLen_le (Scsi.step P s i)
  have htl := s.cmdTlen_lt
  rw [tlen_accept hp hc] at hle
  omega

/-- The bytes transferred before STATUS. -/
theorem bytes_eq (h : lengthRule s = some len) (hr : ∀ t, (u t).rst = false)
    (hdata : ∀ t, 0 < t → t ≤ n → (run (Scsi.step P) s u t).phase.data = true)
    (hstatus : (run (Scsi.step P) s u (n + 1)).phase = .statusOut) :
    bytes P s u (n + 1) = (Scsi.step P s (u 0)).dataLen := by
  cases n with
  | zero =>
    have hone := @phase_one P s (u 0) len hp hc h (hr 0)
    rw [show (Scsi.step P s (u 0)).phase = .statusOut from hstatus] at hone
    cases hone
  | succ n =>
    have hn := hdata (n + 1) (by omega) le_rfl
    have hcount := counting_run hp (dataLen_lt hp hc) hr hdata
    have hdone : (run (Scsi.step P) s u (n + 1)).dataDone = true := by
      rw [run_succ, phase_data (hr (n + 1)) (Phase.data_cases hn)] at hstatus
      by_contra hd
      rw [if_neg hd] at hstatus
      rw [hstatus] at hn
      cases hn
    have hno : (run (Scsi.step P) s u (n + 1)).takesByte = false := by
      rw [State.takesByte, hdone, Bool.not_true, Bool.and_false, Bool.false_and]
    rw [bytes, hno]
    change bytes P s u (n + 1) = _
    cases hcomp : (run (Scsi.step P) s u (n + 1)).dataComplete with
    | true => exact hcount.complete hcomp
    | false =>
      -- the phase has ended because there is nothing to transfer
      rw [State.dataDone, hcomp, Bool.false_or, beq_iff_eq, hcount.len_eq] at hdone
      rw [hcount.empty hdone, hdone]

/-- The law is one about the length of the data phase. -/
theorem lengthLaw_of_dataLen (h : lengthRule s = some len)
    (hlen : ∀ i, (Scsi.step P s i).dataLen = len) : LengthLaw P s len := by
  constructor
  · intro u hr n hdata hstatus
    rw [bytes_eq hp hc h hr hdata hstatus, hlen]
  · intro h0 u hr
    have hone : (run (Scsi.step P) s u 1).phase.data = true := phase_one hp hc h (hr 0)
    have hdone : (run (Scsi.step P) s u 1).dataDone = true := by
      rw [State.dataDone, show (run (Scsi.step P) s u 1).dataLen = len from hlen (u 0), h0]
      simp
    have hover : (run (Scsi.step P) s u 1).dataPhaseComplete = true := by
      rw [State.dataPhaseComplete, hdone, Bool.and_true, Bool.or_eq_true, beq_iff_eq, beq_iff_eq]
      exact Phase.data_cases hone
    refine ⟨fun ack ioAck => ⟨?_, ?_⟩, ?_⟩
    · rw [req, hover, Bool.not_true, Bool.and_false]
    · rw [reqBus, hover, Bool.not_true, Bool.and_false, Bool.false_and]
    · rw [run_succ, phase_data (hr 1) (Phase.data_cases hone), if_pos hdone]

/-- The data phase of an empty parameter list waits for 256 bytes. -/
theorem not_lengthLaw (h : lengthRule s = some len) (ho : s.opCode = 0x15)
    (h0 : (s.cmd 4).toNat = 0) : ¬ LengthLaw P s len := by
  intro hlaw
  have hlen : len = 0 := by
    simp only [lengthRule, ho, Option.some.injEq] at h
    omega
  obtain ⟨-, hstatus⟩ := hlaw.noData hlen (fun _ => calm) fun _ => rfl
  have hone : (run (Scsi.step P) s (fun _ => calm) 1).phase.data = true := phase_one hp hc h rfl
  have hdl : (run (Scsi.step P) s (fun _ => calm) 1).dataLen = 256 := by
    have hacc := @dataLen_accept P s calm len hp hc h
    rw [if_pos ⟨ho, h0⟩] at hacc
    exact hacc
  have hopen : (run (Scsi.step P) s (fun _ => calm) 1).dataComplete = false := by
    by_contra hcomp
    rw [Bool.not_eq_false] at hcomp
    have hzero := (@counting_accept P s calm hp).complete hcomp
    rw [show (Scsi.step P s calm).dataLen = 256 from hdl] at hzero
    omega
  have hdone : (run (Scsi.step P) s (fun _ => calm) 1).dataDone = false := by
    rw [State.dataDone, hopen, hdl]
    rfl
  rw [run_succ, phase_data rfl (Phase.data_cases hone), hdone, if_neg Bool.false_ne_true] at hstatus
  rw [hstatus] at hone
  cases hone

end Law

/-- An accepted command that has a length rule keeps it, unless it is a MODE SELECT with an empty
parameter list. -/
theorem lengthLaw_iff (ha : s.cmdAccept = true) (h : lengthRule s = some len) :
    LengthLaw P s len ↔ ¬ (s.cmdModeSelect = true ∧ (s.cmd 4).toNat = 0) := by
  obtain ⟨hc, hp⟩ : s.cmdCpl = true ∧ s.phase = .cmdIn := by
    simpa [State.cmdAccept] using ha
  have hsel : s.cmdModeSelect = true ↔ s.opCode = 0x15 := by simp [State.cmdModeSelect]
  rw [hsel]
  constructor
  · rintro hlaw ⟨ho, h0⟩
    exact not_lengthLaw hp hc h ho h0 hlaw
  · intro hne
    refine lengthLaw_of_dataLen hp hc h fun i => ?_
    rw [dataLen_accept hp hc h, if_neg hne]

/-- A target that has taken a 6-byte command. -/
def taken (op len : Byte) : State :=
  { State.selected with cmdCnt := 6, cmd := fun k => if k = 0 then op else if k = 4 then len else 0 }

theorem lengthLaw_iff_inquiry : LengthLaw .least (taken 0x12 5) 5 :=
  (lengthLaw_iff (by decide) (by decide)).mpr (by decide)

/-- MODE SELECT with an empty parameter list waits for data. -/
theorem modeSelect_waits :
    lengthRule (taken 0x15 0) = some 0 ∧ ¬ LengthLaw .least (taken 0x15 0) 0 :=
  ⟨by decide, not_lengthLaw (s := taken 0x15 0) rfl rfl (by decide) (by decide) (by decide)⟩

end Scsi
