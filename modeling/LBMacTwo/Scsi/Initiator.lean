import LBMacTwo.Foundation.Clocked
import LBMacTwo.Scsi.Read

/-!
# The polite initiator

`ncr5380` raises `ack` only while it sees `req`, and not before `dma_settle`, which every `ack`
sets to 4, has counted down. `Rig` is a target with its block device and that counter.
-/

namespace Scsi

open Clocked (scan loopStream run_of_scan run_loopStream)

/-- The inputs of one clock. -/
structure Tick where
  bus : Bus
  hps : HpsMove

/-- A target with its block device, and the settle counter of the initiator. -/
structure Rig where
  sys : Sys
  settle : ℕ

/-- A target just selected, with everything at rest. -/
def Rig.selected : Rig := ⟨⟨.selected, .idle⟩, 0⟩

def Rig.step (P : Params) (E : Env) (r : Rig) (k : Tick) : Rig where
  sys := r.sys.step P E k.bus k.hps
  settle := if k.bus.ack then 4 else r.settle - 1

/-- The rig after `t` clocks. -/
abbrev Rig.run (P : Params) (E : Env) (r : Rig) (u : ℕ → Tick) (t : ℕ) : Rig :=
  Clocked.run (Rig.step P E) r u t

theorem Rig.run_zero {P : Params} {E : Env} (r : Rig) (u : ℕ → Tick) : r.run P E u 0 = r := rfl

theorem Rig.run_succ {P : Params} {E : Env} (r : Rig) (u : ℕ → Tick) (t : ℕ) :
    r.run P E u (t + 1) = (r.run P E u t).step P E (u t) := rfl

/-- `ack` rises in this clock. -/
def Rig.rise (r : Rig) (k : Tick) : Bool := k.bus.ack && !r.sys.tgt.oldAck

/-- The bus is not reset, and `ack` rises only while `req` is up and the settle time is over. -/
structure Polite (r : Rig) (k : Tick) : Prop where
  rst : k.bus.rst = false
  ack : r.rise k = true → r.settle = 0 ∧ req r.sys.tgt false r.sys.ioAck = true

instance (r : Rig) (k : Tick) : Decidable (Polite r k) :=
  decidable_of_iff (k.bus.rst = false ∧
    (r.rise k = true → r.settle = 0 ∧ req r.sys.tgt false r.sys.ioAck = true))
    ⟨fun h => ⟨h.1, h.2⟩, fun h => ⟨h.1, h.2⟩⟩

/-- Where the settle counter stands while the target works off an `ack`. -/
structure Shake (r : Rig) : Prop where
  str : r.sys.tgt.stbAck = true → r.sys.tgt.oldAck = true
  held : r.sys.tgt.oldAck = true → r.settle = 4
  adv : r.sys.tgt.stbAdv = true → r.settle = 3 ∧ r.sys.tgt.oldAck = false

variable {P : Params} {E : Env} {L n : ℕ} {r : Rig} {k : Tick}

theorem Rig.oldAck_step : (r.step P E k).sys.tgt.oldAck = k.bus.ack := rfl

theorem Rig.stbAdv_step :
    (r.step P E k).sys.tgt.stbAdv = (r.sys.tgt.oldAck && !k.bus.ack) := rfl

namespace Shake

theorem step (h : Shake r) : Shake (r.step P E k) := by
  constructor
  · intro hs
    have hs : (!r.sys.tgt.oldAck && k.bus.ack) = true := hs
    rw [Bool.and_eq_true] at hs
    exact hs.2
  · intro ho
    rw [Rig.oldAck_step] at ho
    simp [Rig.step, ho]
  · intro ha
    rw [Rig.stbAdv_step, Bool.and_eq_true, Bool.not_eq_true'] at ha
    have := h.held ha.1
    rw [Rig.oldAck_step]
    simp [Rig.step, ha.2, this]

/-- `ack` does not rise while the target works off the one before. -/
theorem settled (h : Shake r) (hs : r.settle ≤ 2) :
    r.sys.tgt.oldAck = false ∧ r.sys.tgt.stbAdv = false ∧ r.sys.tgt.stbAck = false := by
  have ho : r.sys.tgt.oldAck = false := Bool.eq_false_iff.mpr fun ho => by
    have := h.held ho
    omega
  refine ⟨ho, Bool.eq_false_iff.mpr fun ha => ?_, Bool.eq_false_iff.mpr fun hs => ?_⟩
  · have := (h.adv ha).1
    omega
  · rw [h.str hs] at ho
    cases ho

theorem ack_of_adv (h : Shake r) (hp : Polite r k) (ha : r.sys.tgt.stbAdv = true) :
    k.bus.ack = false := by
  obtain ⟨h3, ho⟩ := h.adv ha
  refine Bool.eq_false_iff.mpr fun hk => ?_
  have := (hp.ack (by simp [Rig.rise, hk, ho])).1
  omega

end Shake

/-! ### The command phase -/

/-- A target that takes a command with nothing outstanding. `rd_flush_pending` and `sd_buff_sel` may
still be set by what came before. -/
structure Commanded (r : Rig) : Prop where
  phase : r.sys.tgt.phase = .cmdIn
  fresh : Fresh r.sys.tgt
  hps : r.sys.hps = .idle
  oldIoAck : r.sys.tgt.oldIoAck = false
  shake : Shake r
  cpl : r.sys.tgt.cmdCpl = true → r.settle = 2

namespace Commanded

theorem selected : Commanded .selected where
  phase := rfl
  fresh := by constructor <;> simp [Rig.selected, State.selected, State.init]
  hps := rfl
  oldIoAck := rfl
  shake := by constructor <;> simp [Rig.selected, State.selected, State.init]
  cpl := by decide

theorem ioAck_eq (h : Commanded r) : r.sys.ioAck = false := by
  simp [Sys.ioAck, h.hps]

theorem flush_step (h : Commanded r) (hr : k.bus.rst = false) :
    (r.step P E k).sys.tgt.rdFlushPending = r.sys.tgt.rdFlushPending := by
  simp [Rig.step, Sys.step, Scsi.step, rdFlushPendingNext, Sys.input, hr, ioAckFall, h.oldIoAck]

theorem sel_step (h : Commanded r) :
    (r.step P E k).sys.tgt.sdBuffSel = r.sys.tgt.sdBuffSel := by
  simp [Rig.step, Sys.step, Scsi.step, sdBuffSelNext, h.phase, ioAckFall, h.oldIoAck]

theorem hps_step (h : Commanded r) : (r.step P E k).sys.hps = .idle := by
  simp [Rig.step, Sys.step, h.hps, Hps.step, h.fresh.noRd, h.fresh.noWr]

theorem step (h : Commanded r) (hp : Polite r k)
    (hc : (r.step P E k).sys.tgt.phase = .cmdIn) : Commanded (r.step P E k) := by
  refine ⟨hc, h.fresh.step (by rw [h.phase]; rfl), h.hps_step, h.ioAck_eq, h.shake.step,
    fun hcpl => ?_⟩
  have hcpl' : r.sys.tgt.cmdCpl = false := by
    refine Bool.eq_false_iff.mpr fun h' => ?_
    have := phase_accept (P := P) (i := r.sys.input E k.bus k.hps) hp.rst h.phase
    rw [h', if_pos rfl] at this
    exact r.sys.tgt.cmdPhase_ne_cmdIn (this.symm.trans hc)
  have ha := stbAdv_of_cmdCpl_next h.phase hcpl' hcpl
  simp [Rig.step, h.shake.ack_of_adv hp ha, (h.shake.adv ha).1]

theorem cpl_of_leave (h : Commanded r) (hp : Polite r k)
    (hc : (r.step P E k).sys.tgt.phase ≠ .cmdIn) : r.sys.tgt.cmdCpl = true := by
  have hph := phase_accept (P := P) (i := r.sys.input E k.bus k.hps) hp.rst h.phase
  by_contra h'
  rw [if_neg h'] at hph
  exact hc hph

/-- The clock in which a command is accepted changes nothing of it, and starts its data path. -/
theorem accept (h : Commanded r) (hp : Polite r k)
    (hc : (r.step P E k).sys.tgt.phase ≠ .cmdIn) :
    (r.step P E k).sys.tgt.cmd = r.sys.tgt.cmd ∧
    (r.step P E k).sys.tgt.phase = (r.step P E k).sys.tgt.cmdPhase ∧
    (r.step P E k).sys.tgt.lba = (r.step P E k).sys.tgt.cmdLba ∧
    (r.step P E k).sys.tgt.tlen = (r.step P E k).sys.tgt.cmdTlen ∧
    (r.step P E k).sys.tgt.stbAdv = false ∧ (r.step P E k).sys.tgt.oldAck = false := by
  have hph := phase_accept (P := P) (i := r.sys.input E k.bus k.hps) hp.rst h.phase
  have hcpl := h.cpl_of_leave hp hc
  rw [if_pos hcpl] at hph
  obtain ⟨hoa, -, hsa⟩ := h.shake.settled (Nat.le_of_eq (h.cpl hcpl))
  have hcmd : (r.step P E k).sys.tgt.cmd = r.sys.tgt.cmd := cmd_next_of_not_stbAck hsa
  have hack : k.bus.ack = false := Bool.eq_false_iff.mpr fun hk => by
    have := (hp.ack (by simp [Rig.rise, hk, hoa])).1
    rw [h.cpl hcpl] at this
    cases this
  refine ⟨hcmd, ?_, ?_, ?_, ?_, hack⟩
  · rw [cmdPhase_congr hcmd]
    exact hph
  · rw [cmdLba_congr hcmd]
    exact lba_accept h.phase hcpl
  · rw [cmdTlen_congr hcmd]
    exact tlen_accept h.phase hcpl
  · rw [Rig.stbAdv_step, hoa]
    rfl

end Commanded

/-! ### Runs of a command -/

/-- The initiator is polite and the command is not over, through clock `t`. -/
structure CommandRun (P : Params) (E : Env) (r : Rig) (u : ℕ → Tick) (t : ℕ) : Prop where
  polite : ∀ k ≤ t, Polite (r.run P E u k) (u k)
  busy : ∀ k ≤ t, (r.run P E u k).sys.tgt.phase ≠ .idle

theorem CommandRun.upTo {u : ℕ → Tick} {t t' : ℕ} (h : CommandRun P E r u t) (ht : t' ≤ t) :
    CommandRun P E r u t' :=
  ⟨fun k hk => h.polite k (by omega), fun k hk => h.busy k (by omega)⟩

/-- The initiator that answers every request as soon as it may, with byte `cdb k` of a command when
byte `k` of one is asked for, against an HPS that moves as `hps` says. -/
def Rig.answer (cdb : ℕ → Byte) (hps : Rig → HpsMove) (r : Rig) : Tick where
  bus :=
    { rst := false
      sel := false
      busBusy := false
      ack := !r.sys.tgt.oldAck && r.settle == 0 && req r.sys.tgt false r.sys.ioAck
      din := cdb r.sys.tgt.cmdCnt
      imgMounted := false
      imgBlocks := 0
      dbgDmaWord := false
      dbgDmaLowbyte := 0 }
  hps := hps r

/-- The HPS that does at once what it is asked, but streams nothing for a sector that is `short`. -/
def Rig.serve (short : ℕ → Bool) (r : Rig) : HpsMove where
  go := match r.sys.hps with
    | .window .rd lba w => short lba || decide (255 ≤ w)
    | _ => true
  strobe := match r.sys.hps with
    | .window .rd lba _ => !short lba
    | _ => true
  addr := 0
  data := 0

/-- The clock belongs to the run of a command. -/
def Rig.inCommand (r : Rig) (k : Tick) : Bool := decide (Polite r k) && r.sys.tgt.phase != .idle

theorem CommandRun.of_scan {pol : Rig → Tick} {ok : Rig → Tick → Bool} {fin : Rig → Bool} {t : ℕ}
    (h : scan (Rig.step P E) (fun _ => pol) (fun r k => r.inCommand k && ok r k)
      (fun r => r.inCommand (pol r) && fin r) t 0 r = true) :
    CommandRun P E r (loopStream (Rig.step P E) (fun _ => pol) r) t ∧
    (∀ k < t, ok (r.run P E (loopStream (Rig.step P E) (fun _ => pol) r) k)
      (loopStream (Rig.step P E) (fun _ => pol) r k) = true) ∧
    loopStream (Rig.step P E) (fun _ => pol) r t =
      pol (r.run P E (loopStream (Rig.step P E) (fun _ => pol) r) t) ∧
    fin (r.run P E (loopStream (Rig.step P E) (fun _ => pol) r) t) = true := by
  obtain ⟨hok, hfin⟩ := run_of_scan h
  have hpol : ∀ k, loopStream (Rig.step P E) (fun _ => pol) r k =
      pol (r.run P E (loopStream (Rig.step P E) (fun _ => pol) r) k) := fun k => by
    rw [Rig.run, run_loopStream]
    rfl
  rw [Bool.and_eq_true] at hfin
  have hin : ∀ k ≤ t, (r.run P E (loopStream (Rig.step P E) (fun _ => pol) r) k).inCommand
      (loopStream (Rig.step P E) (fun _ => pol) r k) = true := fun k hk => by
    rcases Nat.lt_or_eq_of_le hk with hlt | rfl
    · exact ((Bool.and_eq_true _ _).mp (hok k hlt)).1
    · rw [hpol]
      exact hfin.1
  have hboth := fun k hk => (Bool.and_eq_true _ _).mp (hin k hk)
  exact ⟨⟨fun k hk => of_decide_eq_true (hboth k hk).1, fun k hk => bne_iff_ne.mp (hboth k hk).2⟩,
    fun k hk => ((Bool.and_eq_true _ _).mp (hok k hk)).2, hpol t, hfin.2⟩

end Scsi
