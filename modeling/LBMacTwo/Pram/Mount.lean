import LBMacTwo.Foundation.Clocked
import LBMacTwo.Pram.Fsm

/-!
# Which image a flush is written to

`Slot` adds to the state machine a record of the mount events: their number, whether the last one
was accepted, and which image the clock chip and the staging buffer come from. A mount that falls
into a load is undone by its end, and one that falls into a save does not stop it, so the PRAM can be
written to an image that was refused (`refused_image_enabled`). Mounts that leave running transfers
alone are safe (`flush_accepted`).
-/

namespace Pram

/-- The slot with the mounts counted: `gen` events so far, the last accepted or not; the event whose
image is being loaded, was loaded last, and was loaded when the staging buffer was filled. -/
structure Slot where
  fsm : State
  gen : ℕ
  lastOk : Bool
  loadGen : ℕ
  loadedGen : ℕ
  capGen : ℕ

def Slot.init : Slot := ⟨.init, 0, false, 0, 0, 0⟩

def Slot.step (x : Slot) (i : In) : Slot where
  fsm := Pram.step x.fsm i
  gen := x.gen + (mountEdge x.fsm i).toNat
  lastOk := if mountEdge x.fsm i then i.sizeOk else x.lastOk
  loadGen := if x.fsm.loadStart then x.gen + (mountEdge x.fsm i).toNat else x.loadGen
  loadedGen := if x.fsm.loadEnd then x.loadGen else x.loadedGen
  capGen := if x.fsm.clrStart || x.fsm.flushStart then x.loadedGen else x.capGen

/-- The slot after `t` clocks from power-up. -/
abbrev Slot.run (u : ℕ → In) (t : ℕ) : Slot := Clocked.run Slot.step .init u t

/-- Saving is enabled only for an accepted image, and a write is requested only for that image with
contents taken after it was loaded. -/
structure Guarded (x : Slot) : Prop where
  ena : x.fsm.pramEna = true → x.lastOk = true
  request : x.fsm.pramWrReq = true → x.fsm.pramEna = true ∧ x.lastOk = true ∧ x.capGen = x.gen

/-- The states of a load. -/
def Pst.loads : Pst → Bool
  | .ldRd | .ldDat | .ldAddr | .ldB0 | .ldB1 => true
  | _ => false

/-- The states of a save up to its request. -/
def Pst.saves : Pst → Bool
  | .fill | .fill2 | .fill3 | .svWr => true
  | _ => false

/-- The events of the clock leave what is running and pending alone. A refused image finds no load
and no save running or pending; an accepted one finds no save running or about to start, and no
clear that would be saved; a clear is not requested while a load is pending behind another
transfer. -/
structure Undisturbed (s : State) (i : In) : Prop where
  refused : mountEdge s i = true → i.sizeOk = false →
    s.pst.loads = false ∧ s.pst.saves = false ∧ s.pramLoadPending = false ∧
    s.pramFlushPending = false ∧ (osdEdge s i && s.pramDirty && s.pramEna) = false ∧
    (s.clrEnd && s.pramEna) = false
  accepted : mountEdge s i = true → i.sizeOk = true →
    s.pst.saves = false ∧ s.flushStart = false ∧ s.pramClrPending = false ∧
    (s.pst = .clr → s.clrEnd = true ∧ s.pramEna = false)
  clear : rstEdge s i = true → s.loadStart = true ∨
    (s.pramLoadPending = false ∧ (mountEdge s i && i.sizeOk) = false)

variable {x : Slot} {s : State} {i : In}

/-! ### The moves of the state machine -/

theorem loads_next (h : (pstNext s i).loads = true) : s.loadStart = true ∨
    (s.pst.loads = true ∧ s.loadEnd = false) := by
  cases hp : s.pst <;> grind [pstNext, Pst.loads, State.loadEnd]

theorem saves_next (h : (pstNext s i).saves = true) : s.flushStart = true ∨
    s.pst.saves = true ∨ (s.clrEnd && s.pramEna) = true := by
  cases hp : s.pst <;> grind [pstNext, Pst.saves]

theorem loads_of_not_loadEnd (h : s.pst.loads = true) (he : s.loadEnd = false) :
    (pstNext s i).loads = true := by
  cases hp : s.pst <;> grind [pstNext, Pst.loads]

theorem loads_of_loadStart (h : s.loadStart = true) : (pstNext s i).loads = true := by
  grind [pstNext, Pst.loads, State.loadStart, State.clrStart]

theorem clr_next (h : pstNext s i = .clr) :
    s.clrStart = true ∨ (s.pst = .clr ∧ s.clrEnd = false) := by
  cases hp : s.pst <;> grind [pstNext]

/-! ### The invariant -/

/-- What undisturbed runs keep: saving is enabled exactly for an accepted image; if that image is not
in the clock chip yet, its load is running or pending; and a save that is under way took what it
writes from it. -/
structure Inv (x : Slot) : Prop where
  ena : x.fsm.pramEna = x.lastOk
  load : x.fsm.pramLoadPending = true ∨ x.fsm.pst.loads = true → x.lastOk = true
  flush : x.fsm.pramFlushPending = true ∨ x.fsm.pst.saves = true → x.lastOk = true
  loaded : x.lastOk = true → x.fsm.pst.loads = false → x.fsm.pramLoadPending = false →
    x.loadedGen = x.gen
  loading : x.fsm.pst.loads = true → x.fsm.pramLoadPending = false → x.loadGen = x.gen
  save : x.fsm.pst.saves = true → x.capGen = x.gen
  clr : x.fsm.pst = .clr → x.lastOk = true → x.capGen = x.gen
  excl : x.fsm.pramClrPending = true → x.fsm.pramLoadPending = false
  req : x.fsm.pramWrReq = true → x.fsm.pst = .svWr

theorem Inv.init : Inv .init := by
  constructor <;> simp [Slot.init, State.init, Pst.loads, Pst.saves]

namespace Inv

theorem guarded (h : Inv x) : Guarded x := by
  refine ⟨fun he => h.ena ▸ he, fun hr => ?_⟩
  have hs : x.fsm.pst.saves = true := by rw [h.req hr]; rfl
  have hl := h.flush (.inr hs)
  exact ⟨h.ena.trans hl, hl, h.save hs⟩

theorem lastOk_of_loadEnd (h : Inv x) (he : x.fsm.loadEnd = true) : x.lastOk = true := by
  refine h.load (.inr ?_)
  rw [State.loadEnd, Bool.and_eq_true, beq_iff_eq] at he
  rw [he.1]
  rfl

theorem ena_next (h : Inv x) (hu : Undisturbed x.fsm i) :
    pramEnaNext x.fsm i = (x.step i).lastOk := by
  unfold pramEnaNext Slot.step
  by_cases hm : mountEdge x.fsm i = true
  · by_cases he : x.fsm.loadEnd = true
    · cases hs : i.sizeOk
      · have := (hu.refused hm hs).1
        rw [State.loadEnd, Bool.and_eq_true, beq_iff_eq] at he
        rw [he.1] at this
        cases this
      · simp [he, hm]
    · simp [he, hm]
  · by_cases he : x.fsm.loadEnd = true
    · simp [he, hm, h.lastOk_of_loadEnd he]
    · simp [he, hm, h.ena]

/-- Only a refused mount withdraws an image. -/
theorem lastOk_next (h : x.lastOk = true) (hm : mountEdge x.fsm i = true → i.sizeOk = true) :
    (x.step i).lastOk = true := by
  by_cases he : mountEdge x.fsm i = true
  · simp [Slot.step, he, hm he]
  · simp [Slot.step, he, h]

theorem load_next (h : Inv x) (hu : Undisturbed x.fsm i)
    (hl : pramLoadPendingNext x.fsm i = true ∨ (pstNext x.fsm i).loads = true) :
    (x.step i).lastOk = true := by
  have hidle : x.fsm.loadStart = true → x.fsm.pramLoadPending = true := by
    intro hs
    simp only [State.loadStart, Bool.and_eq_true] at hs
    exact hs.2
  have hkeep : x.fsm.pramLoadPending = true ∨ x.fsm.pst.loads = true →
      (x.step i).lastOk = true := by
    intro hq
    refine lastOk_next (h.load hq) fun hm => ?_
    by_contra hs
    obtain ⟨h1, -, h3, -⟩ := hu.refused hm (by simpa using hs)
    simp [h1, h3] at hq
  rcases hl with hl | hl
  · unfold pramLoadPendingNext at hl
    split_ifs at hl with h1 h2
    · rw [Bool.and_eq_true] at h2
      simp [Slot.step, h2]
    · exact hkeep (.inl hl)
  · rcases loads_next hl with hs | ⟨hq, -⟩
    · exact hkeep (.inl (hidle hs))
    · exact hkeep (.inr hq)

theorem flush_next (h : Inv x) (hu : Undisturbed x.fsm i)
    (hf : pramFlushPendingNext x.fsm i = true ∨ (pstNext x.fsm i).saves = true) :
    (x.step i).lastOk = true := by
  have hkeep : x.fsm.pramFlushPending = true ∨ x.fsm.pst.saves = true →
      (x.step i).lastOk = true := by
    intro hq
    refine lastOk_next (h.flush hq) fun hm => ?_
    by_contra hs
    obtain ⟨-, h2, -, h4, -⟩ := hu.refused hm (by simpa using hs)
    simp [h2, h4] at hq
  rcases hf with hf | hf
  · unfold pramFlushPendingNext at hf
    split_ifs at hf with h1 h2
    · refine lastOk_next (h.ena ▸ ((Bool.and_eq_true _ _).mp h2).2) fun hm => ?_
      by_contra hs
      rw [(hu.refused hm (by simpa using hs)).2.2.2.2.1] at h2
      cases h2
    · exact hkeep (.inl hf)
  · rcases saves_next hf with hs | hq | hc
    · simp only [State.flushStart, Bool.and_eq_true] at hs
      exact hkeep (.inl hs.2)
    · exact hkeep (.inr hq)
    · refine lastOk_next (h.ena ▸ ((Bool.and_eq_true _ _).mp hc).2) fun hm => ?_
      by_contra hs
      rw [(hu.refused hm (by simpa using hs)).2.2.2.2.2] at hc
      cases hc

/-- When a clear or a flush starts, the contents are those of the image in the slot. -/
theorem capture (h : Inv x) (hs : (x.fsm.clrStart || x.fsm.flushStart) = true)
    (hl : x.lastOk = true) : x.loadedGen = x.gen := by
  have hidle : x.fsm.pst = .idle ∧ x.fsm.pramLoadPending = false := by
    rw [Bool.or_eq_true] at hs
    simp only [State.clrStart, State.flushStart, Bool.and_eq_true, beq_iff_eq,
      Bool.not_eq_true'] at hs
    rcases hs with hs | hs
    · exact ⟨hs.1, h.excl hs.2⟩
    · exact ⟨hs.1.1.1, hs.1.2⟩
  exact h.loaded hl (by rw [hidle.1]; rfl) hidle.2

theorem loaded_next (h : Inv x) (hl : (x.step i).lastOk = true)
    (hp : (pstNext x.fsm i).loads = false) (hn : pramLoadPendingNext x.fsm i = false) :
    (x.step i).loadedGen = (x.step i).gen := by
  have hstart : x.fsm.loadStart = false := by
    by_contra hs
    rw [loads_of_loadStart (by simpa using hs)] at hp
    cases hp
  rw [pramLoadPendingNext, hstart, if_neg Bool.false_ne_true] at hn
  have hm : mountEdge x.fsm i = false := by
    by_contra hm
    rw [Bool.not_eq_false] at hm
    cases hs : i.sizeOk
    · simp [Slot.step, hm, hs] at hl
    · simp [hm, hs] at hn
  rw [hm] at hn
  simp only [Slot.step, hm, Bool.toNat_false, Nat.add_zero] at hl ⊢
  by_cases he : x.fsm.loadEnd = true
  · rw [if_pos he]
    refine h.loading ?_ hn
    rw [State.loadEnd, Bool.and_eq_true, beq_iff_eq] at he
    rw [he.1]
    rfl
  · rw [if_neg he]
    refine h.loaded hl ?_ hn
    by_contra hq
    rw [loads_of_not_loadEnd (by simpa using hq) (by simpa using he)] at hp
    cases hp

theorem loading_next (h : Inv x) (hu : Undisturbed x.fsm i)
    (hp : (pstNext x.fsm i).loads = true) (hn : pramLoadPendingNext x.fsm i = false) :
    (x.step i).loadGen = (x.step i).gen := by
  by_cases hs : x.fsm.loadStart = true
  · simp [Slot.step, hs]
  · have hq := ((loads_next hp).resolve_left hs).1
    rw [pramLoadPendingNext, if_neg hs] at hn
    have hm : mountEdge x.fsm i = false := by
      by_contra hm
      rw [Bool.not_eq_false] at hm
      cases hok : i.sizeOk
      · rw [(hu.refused hm hok).1] at hq
        cases hq
      · simp [hm, hok] at hn
    rw [hm] at hn
    simp [Slot.step, hs, hm, h.loading hq hn]

/-- No mount falls into a save. -/
theorem no_mount_of_saves (hu : Undisturbed s i) (hq : s.pst.saves = true) :
    mountEdge s i = false := by
  by_contra hm
  rw [Bool.not_eq_false] at hm
  cases hok : i.sizeOk
  · rw [(hu.refused hm hok).2.1] at hq
    cases hq
  · rw [(hu.accepted hm hok).1] at hq
    cases hq

theorem save_next (h : Inv x) (hu : Undisturbed x.fsm i)
    (hp : (pstNext x.fsm i).saves = true) : (x.step i).capGen = (x.step i).gen := by
  rcases saves_next hp with hs | hq | hc
  · have hfl : x.fsm.pramFlushPending = true := by
      simp only [State.flushStart, Bool.and_eq_true] at hs
      exact hs.2
    have hm : mountEdge x.fsm i = false := by
      by_contra hm
      rw [Bool.not_eq_false] at hm
      cases hok : i.sizeOk
      · rw [(hu.refused hm hok).2.2.2.1] at hfl
        cases hfl
      · rw [(hu.accepted hm hok).2.1] at hs
        cases hs
    simp [Slot.step, hs, hm, h.capture (by simp [hs]) (h.flush (.inl hfl))]
  · have hidle : x.fsm.clrStart = false ∧ x.fsm.flushStart = false := by
      grind [Pst.saves, State.clrStart, State.flushStart]
    simp [Slot.step, hidle, no_mount_of_saves hu hq, h.save hq]
  · rw [Bool.and_eq_true] at hc
    have hclr : x.fsm.pst = .clr := by
      simpa using ((Bool.and_eq_true _ _).mp hc.1).1
    have hm : mountEdge x.fsm i = false := by
      by_contra hm
      rw [Bool.not_eq_false] at hm
      cases hok : i.sizeOk
      · have := (hu.refused hm hok).2.2.2.2.2
        rw [hc.1, hc.2] at this
        cases this
      · rw [((hu.accepted hm hok).2.2.2 hclr).2] at hc
        cases hc.2
    simp [Slot.step, State.clrStart, State.flushStart, hclr, hm, h.clr hclr (h.ena ▸ hc.2)]

theorem clr_next (h : Inv x) (hu : Undisturbed x.fsm i) (hp : pstNext x.fsm i = .clr)
    (hl : (x.step i).lastOk = true) : (x.step i).capGen = (x.step i).gen := by
  have hsize : mountEdge x.fsm i = true → i.sizeOk = true := by
    intro hm
    simpa [Slot.step, hm] using hl
  rcases Pram.clr_next hp with hs | ⟨hq, he⟩
  · have hm : mountEdge x.fsm i = false := by
      by_contra hm
      rw [Bool.not_eq_false] at hm
      simp only [State.clrStart, Bool.and_eq_true] at hs
      rw [(hu.accepted hm (hsize hm)).2.2.1] at hs
      cases hs.2
    simp only [Slot.step, hm] at hl
    simp [Slot.step, hs, hm, h.capture (by simp [hs]) hl]
  · have hm : mountEdge x.fsm i = false := by
      by_contra hm
      rw [Bool.not_eq_false] at hm
      rw [((hu.accepted hm (hsize hm)).2.2.2 hq).1] at he
      cases he
    simp only [Slot.step, hm] at hl
    simp [Slot.step, State.clrStart, State.flushStart, hq, hm, h.clr hq hl]

theorem excl_next (h : Inv x) (hu : Undisturbed x.fsm i)
    (hc : pramClrPendingNext x.fsm i = true) : pramLoadPendingNext x.fsm i = false := by
  unfold pramClrPendingNext at hc
  unfold pramLoadPendingNext
  split_ifs at hc with h1 h2
  · rcases hu.clear h2 with hs | ⟨hl, hm⟩
    · rw [if_pos hs]
    · simp [hl, hm]
  · have hm : (mountEdge x.fsm i && i.sizeOk) = false := by
      by_contra hm
      rw [Bool.not_eq_false, Bool.and_eq_true] at hm
      rw [(hu.accepted hm.1 hm.2).2.2.1] at hc
      cases hc
    simp [hm, h.excl hc]

theorem req_next (h : Inv x) (hr : pramWrReqNext x.fsm i = true) :
    pstNext x.fsm i = .svWr := by
  unfold pramWrReqNext at hr
  split_ifs at hr with hq
  · rw [beq_iff_eq] at hq
    simpa [pstNext, hq] using hr
  · exact absurd (beq_iff_eq.mpr (h.req hr)) hq

theorem step (h : Inv x) (hu : Undisturbed x.fsm i) : Inv (x.step i) where
  ena := h.ena_next hu
  load := h.load_next hu
  flush := h.flush_next hu
  loaded := h.loaded_next
  loading := h.loading_next hu
  save := h.save_next hu
  clr := h.clr_next hu
  excl := h.excl_next hu
  req := h.req_next

end Inv

/-- In a run whose events leave running transfers alone, a write is requested only for the accepted
image in the slot, with contents taken after that image was loaded. -/
theorem flush_accepted {u : ℕ → In} {t : ℕ}
    (h : ∀ k < t, Undisturbed (Slot.run u k).fsm (u k)) : Guarded (Slot.run u t) := by
  have hinv : Inv (Slot.run u t) := by
    induction t with
    | zero => exact .init
    | succ t ih => exact (ih fun k hk => h k (by omega)).step (h t (Nat.lt_succ_self t))
  exact hinv.guarded

instance (s : State) (i : In) : Decidable (Undisturbed s i) :=
  decidable_of_iff (_ ∧ _ ∧ _) ⟨fun h => ⟨h.1, h.2.1, h.2.2⟩, fun h => ⟨h.1, h.2, h.3⟩⟩

/-- What the HPS and the menu do: the PRAM image is mounted, every request is answered by a window
without data, and the PRAM is cleared when `clear` says so. -/
def mountOnly (mounts : ℕ → ℕ) (clear : ℕ → Bool) (t : ℕ) (x : Slot) : In where
  pramAck := x.fsm.pst == .ldRd
  osdStatus := false
  imgMounted := mounts t != 0
  imgSize := mounts t
  status15 := clear t
  pramWrStb := false
  pramSaveData := 0
  sdBuffAddr := 0
  sdBuffDout := 0
  sdBuffWr := false

/-- A PRAM image that is mounted, loaded and then cleared is written to. -/
theorem flush_accepted_clear : ∃ (u : ℕ → In) (t : ℕ), (Slot.run u t).fsm.pramWrReq = true ∧
    Guarded (Slot.run u t) := by
  have hscan : Clocked.scan Slot.step
      (mountOnly (fun t => if t = 0 then 512 else 0) (fun t => decide (t = 400)))
      (fun x i => decide (Undisturbed x.fsm i)) (fun x => x.fsm.pramWrReq) 659 0 .init = true := by
    decide +kernel
  obtain ⟨hok, hfin⟩ := Clocked.run_of_scan hscan
  exact ⟨_, _, hfin, flush_accepted fun k hk => of_decide_eq_true (hok k hk)⟩

/-- The end of a load enables saving to a disk that was mounted, and refused, in the meantime. -/
theorem refused_image_enabled : ¬ ∀ (u : ℕ → In) (t : ℕ), Guarded (Slot.run u t) := by
  intro hall
  have hscan : Clocked.scan Slot.step
      (mountOnly (fun t => if t = 0 then 512 else if t = 8 then 20971520 else 0) fun _ => false)
      (fun _ _ => true) (fun x => x.fsm.pramEna && !x.lastOk) 388 0 .init = true := by
    decide +kernel
  have hfin := (Clocked.run_of_scan hscan).2
  rw [Bool.and_eq_true, Bool.not_eq_true'] at hfin
  have hlast := (hall _ _).ena hfin.1
  rw [hfin.2] at hlast
  cases hlast

end Pram
