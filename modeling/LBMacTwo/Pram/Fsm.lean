import LBMacTwo.Foundation.Bits

/-!
# The PRAM image slot of `LBMacTwo.sv`

The state machine that loads the clock chip's parameter RAM from a mounted image, saves it back when
the menu is opened, and clears it on request. One `State` field per register, one definition per
register of the `always` block, in which a later assignment wins over an earlier one. The reset by
`sys_locked` leaves the registers of `State.init`.
-/

namespace Pram

/-- The `P_*` codes. -/
inductive Pst
  | idle
  | ldRd
  | ldDat
  | ldAddr
  | fill
  | svWr
  | svDat
  | clr
  | rst
  | ldB0
  | ldB1
  | fill2
  | fill3
  deriving DecidableEq, Repr

structure State where
  pst : Pst
  pcnt : ℕ
  rstHold : ℕ
  pramRd : Bool
  pramWrReq : Bool
  pramLoadWr : Bool
  pramLoadAddr : ℕ
  pramLoadData : Byte
  pramSaveAddr : ℕ
  fillLo : Byte
  pramBuf16 : ℕ → Word
  pbufQ : Word
  pramEna : Bool
  pramDirty : Bool
  pramRstAfter : Bool
  pramLoadPending : Bool
  pramFlushPending : Bool
  pramClrPending : Bool
  pramLateLoad : Bool
  oldPack : Bool
  oldOsd : Bool
  oldMnt2 : Bool
  oldRstpram : Bool
  pramReady : Bool
  pramRdyCnt : ℕ
  pramForceReset : Bool

def State.init : State where
  pst := .idle
  pcnt := 0
  rstHold := 0
  pramRd := false
  pramWrReq := false
  pramLoadWr := false
  pramLoadAddr := 0
  pramLoadData := 0
  pramSaveAddr := 0
  fillLo := 0
  pramBuf16 := fun _ => 0
  pbufQ := 0
  pramEna := false
  pramDirty := false
  pramRstAfter := false
  pramLoadPending := false
  pramFlushPending := false
  pramClrPending := false
  pramLateLoad := false
  oldPack := false
  oldOsd := false
  oldMnt2 := false
  oldRstpram := false
  pramReady := false
  pramRdyCnt := 0
  pramForceReset := false

/-- The input wires; `pramAck` and `imgMounted` are those of slot 2, `status15` is the menu's
"Reset PRAM & Core". -/
structure In where
  pramAck : Bool
  osdStatus : Bool
  imgMounted : Bool
  imgSize : ℕ
  status15 : Bool
  pramWrStb : Bool
  pramSaveData : Byte
  sdBuffAddr : ℕ
  sdBuffDout : Word
  sdBuffWr : Bool

/-! ### Events -/

/-- An image is mounted or unmounted in the slot. -/
def mountEdge (s : State) (i : In) : Bool := i.imgMounted && !s.oldMnt2

/-- The size is that of a PRAM image. -/
def In.sizeOk (i : In) : Bool := i.imgSize != 0 && decide (i.imgSize ≤ 4096)

def osdEdge (s : State) (i : In) : Bool := i.osdStatus && !s.oldOsd

def rstEdge (s : State) (i : In) : Bool := i.status15 && !s.oldRstpram

/-- `P_IDLE` starts a clear, a load or a flush, in this order. -/
def State.clrStart (s : State) : Bool := s.pst == .idle && s.pramClrPending

def State.loadStart (s : State) : Bool := s.pst == .idle && !s.pramClrPending && s.pramLoadPending

def State.flushStart (s : State) : Bool :=
  s.pst == .idle && !s.pramClrPending && !s.pramLoadPending && s.pramFlushPending

/-- The last word of a load is written. -/
def State.loadEnd (s : State) : Bool := s.pst == .ldB1 && s.pcnt / 2 % 128 == 127

/-- The HPS has closed the window of a transfer. -/
def packFall (s : State) (i : In) : Bool := s.oldPack && !i.pramAck

def saveEnd (s : State) (i : In) : Bool := s.pst == .svDat && packFall s i

def State.clrEnd (s : State) : Bool := s.pst == .clr && s.pcnt == 255

/-! ### The staging buffer -/

def State.pramLoading (s : State) : Bool := s.pst == .ldAddr || s.pst == .ldB0 || s.pst == .ldB1

def pbufRaddr (s : State) (i : In) : ℕ :=
  if s.pramLoading then s.pcnt / 2 % 128 else i.sdBuffAddr % 128

/-- `sd_buff_din` of the slot. -/
def sdBuffDin (s : State) (i : In) : Word := if i.sdBuffAddr < 128 then s.pbufQ else 0

def pramBuf16Next (s : State) (i : In) : ℕ → Word :=
  if i.pramAck && i.sdBuffWr && decide (i.sdBuffAddr < 128) then
    Function.update s.pramBuf16 (i.sdBuffAddr % 128) i.sdBuffDout
  else if s.pst == .fill3 && s.pcnt % 2 == 1 then
    Function.update s.pramBuf16 (s.pcnt / 2 % 128) (pairWord i.pramSaveData s.fillLo)
  else if s.pst == .clr then Function.update s.pramBuf16 (s.pcnt / 2 % 128) 0
  else s.pramBuf16

/-! ### The registers -/

def pramEnaNext (s : State) (i : In) : Bool :=
  if s.loadEnd then true else if mountEdge s i then i.sizeOk else s.pramEna

def pramLoadPendingNext (s : State) (i : In) : Bool :=
  if s.loadStart then false
  else if mountEdge s i && i.sizeOk then true else s.pramLoadPending

def pramLateLoadNext (s : State) (i : In) : Bool :=
  if s.loadEnd then false
  else if mountEdge s i && i.sizeOk then s.pramReady else s.pramLateLoad

def pramReadyNext (s : State) (i : In) : Bool :=
  s.loadEnd || (mountEdge s i && !i.sizeOk) ||
    (!s.pramReady && decide (94000000 ≤ s.pramRdyCnt)) || s.pramReady

def pramRdyCntNext (s : State) : ℕ :=
  if !s.pramReady && decide (s.pramRdyCnt < 94000000) then s.pramRdyCnt + 1 else s.pramRdyCnt

def pramFlushPendingNext (s : State) (i : In) : Bool :=
  if s.flushStart then false
  else if osdEdge s i && s.pramDirty && s.pramEna then true else s.pramFlushPending

def pramClrPendingNext (s : State) (i : In) : Bool :=
  if s.clrStart then false else if rstEdge s i then true else s.pramClrPending

def pramDirtyNext (s : State) (i : In) : Bool :=
  if s.loadEnd || saveEnd s i then false else i.pramWrStb || s.pramDirty

def pramRstAfterNext (s : State) (i : In) : Bool :=
  if s.flushStart then false
  else if saveEnd s i then false
  else if s.clrEnd && s.pramEna then true else s.pramRstAfter

def pramForceResetNext (s : State) : Bool :=
  s.pst == .rst || (s.pramForceReset && s.rstHold != 0)

def rstHoldNext (s : State) : ℕ :=
  if s.pst == .rst then 127
  else if s.pramForceReset && s.rstHold != 0 then s.rstHold - 1 else s.rstHold

def pramRdNext (s : State) (i : In) : Bool :=
  if s.loadStart then true else if s.pst == .ldRd && i.pramAck then false else s.pramRd

def pramWrReqNext (s : State) (i : In) : Bool :=
  if s.pst == .svWr then !i.pramAck else s.pramWrReq

def pramLoadWrNext (s : State) : Bool := s.pst == .ldB0 || s.pst == .ldB1 || s.pst == .clr

def pramLoadAddrNext (s : State) : ℕ :=
  match s.pst with
  | .ldB0 => s.pcnt / 2 % 128 * 2
  | .ldB1 => s.pcnt / 2 % 128 * 2 + 1
  | .clr => s.pcnt % 256
  | _ => s.pramLoadAddr

def pramLoadDataNext (s : State) : Byte :=
  match s.pst with
  | .ldB0 => lowByte s.pbufQ
  | .ldB1 => highByte s.pbufQ
  | .clr => 0
  | _ => s.pramLoadData

def pramSaveAddrNext (s : State) : ℕ := if s.pst == .fill then s.pcnt % 256 else s.pramSaveAddr

def fillLoNext (s : State) (i : In) : Byte :=
  if s.pst == .fill3 && s.pcnt % 2 == 0 then i.pramSaveData else s.fillLo

def pcntNext (s : State) (i : In) : ℕ :=
  match s.pst with
  | .idle => if s.clrStart || s.flushStart then 0 else s.pcnt
  | .ldDat => if packFall s i then 0 else s.pcnt
  | .ldB1 => if s.loadEnd then s.pcnt else (s.pcnt + 2) % 512
  | .fill3 | .clr => if s.pcnt == 255 then s.pcnt else (s.pcnt + 1) % 512
  | _ => s.pcnt

def pstNext (s : State) (i : In) : Pst :=
  match s.pst with
  | .idle =>
    if s.clrStart then .clr
    else if s.loadStart then .ldRd
    else if s.flushStart then .fill
    else .idle
  | .ldRd => if i.pramAck then .ldDat else .ldRd
  | .ldDat => if packFall s i then .ldAddr else .ldDat
  | .ldAddr => .ldB0
  | .ldB0 => .ldB1
  | .ldB1 => if s.loadEnd then (if s.pramLateLoad then .rst else .idle) else .ldAddr
  | .fill => .fill2
  | .fill2 => .fill3
  | .fill3 => if s.pcnt == 255 then .svWr else .fill
  | .svWr => if i.pramAck then .svDat else .svWr
  | .svDat => if packFall s i then (if s.pramRstAfter then .rst else .idle) else .svDat
  | .clr => if s.clrEnd then (if s.pramEna then .svWr else .rst) else .clr
  | .rst => .idle

/-- One edge of `clk_sys`. -/
def step (s : State) (i : In) : State where
  pst := pstNext s i
  pcnt := pcntNext s i
  rstHold := rstHoldNext s
  pramRd := pramRdNext s i
  pramWrReq := pramWrReqNext s i
  pramLoadWr := pramLoadWrNext s
  pramLoadAddr := pramLoadAddrNext s
  pramLoadData := pramLoadDataNext s
  pramSaveAddr := pramSaveAddrNext s
  fillLo := fillLoNext s i
  pramBuf16 := pramBuf16Next s i
  pbufQ := s.pramBuf16 (pbufRaddr s i)
  pramEna := pramEnaNext s i
  pramDirty := pramDirtyNext s i
  pramRstAfter := pramRstAfterNext s i
  pramLoadPending := pramLoadPendingNext s i
  pramFlushPending := pramFlushPendingNext s i
  pramClrPending := pramClrPendingNext s i
  pramLateLoad := pramLateLoadNext s i
  oldPack := i.pramAck
  oldOsd := i.osdStatus
  oldMnt2 := i.imgMounted
  oldRstpram := i.status15
  pramReady := pramReadyNext s i
  pramRdyCnt := pramRdyCntNext s
  pramForceReset := pramForceResetNext s

end Pram
