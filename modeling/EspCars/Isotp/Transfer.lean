import EspCars.Isotp.Codec

/-!
# The send and receive state machines

`TxTransfer` and `RxTransfer` of `components/isotp/isotp_core.h`. Every method is a function
from the machine to its answer and the machine afterwards; the `out` pointer of the source is
an argument and a result. Sizes are `Nat`, with the narrowing to `uint16_t` written out where
the source casts; times are `UInt32`, so that `elapsedMs` wraps as the source's does.
-/

namespace EspCars.Isotp

open EspCars.Lib

/-- `static_cast<uint16_t>(a - b)`. -/
def u16Sub (a b : Nat) : Nat := (a + 65536 - b) % 65536

/-- `static_cast<uint16_t>(a + b)`. -/
def u16Add (a b : Nat) : Nat := (a + b) % 65536

theorem u16Sub_of_le {a b : Nat} (h : b ≤ a) (ha : a < 65536) : u16Sub a b = a - b := by
  unfold u16Sub
  omega

theorem u16Add_of_lt {a b : Nat} (h : a + b < 65536) : u16Add a b = a + b :=
  Nat.mod_eq_of_lt h

/-! ## Sending -/

/-- `TxAction` -/
inductive TxAction
  | nothing | sendFrame | complete | failed
  deriving DecidableEq, Repr

namespace TxTransfer

/-- `TxTransfer::State` -/
inductive State
  | idle | sendFirst | waitFc | sendCf | done | failed
  deriving DecidableEq, Repr

/-- `TxTransfer::Pending`: the frame that was offered and not yet confirmed. -/
inductive Pending
  | none | single | first | consecutive
  deriving DecidableEq, Repr

end TxTransfer

/-- `TxTransfer`: the sending of one message. -/
structure TxTransfer where
  buffer : List UInt8 := []
  capacity : Nat := 0
  size : Nat := 0
  sent : Nat := 0
  timerStart : UInt32 := 0
  stallStart : UInt32 := 0
  lastCfMs : UInt32 := 0
  stMinMs : UInt32 := 0
  state : TxTransfer.State := .idle
  pending : TxTransfer.Pending := .none
  error : IsoTpError := .none
  sequence : UInt8 := 0
  pendingSequence : UInt8 := 0
  blockRemaining : Nat := 0
  pendingTake : Nat := 0
  deriving DecidableEq, Repr

namespace TxTransfer

def init (t : TxTransfer) (buffer : List UInt8) : TxTransfer :=
  { t with buffer := buffer, capacity := buffer.length }

def isBusy (t : TxTransfer) : Bool := t.state ≠ .idle

/-- `none` is the `false` return, which changes nothing. -/
def begin (t : TxTransfer) (data : List UInt8) (nowMs : UInt32) : Option TxTransfer :=
  if t.state ≠ .idle ∨ data.length = 0 ∨ data.length > t.capacity then none
  else
    some { t with
      buffer := blit t.buffer 0 data
      size := data.length
      sent := 0
      sequence := 0
      blockRemaining := 0
      error := .none
      state := .sendFirst
      timerStart := nowMs
      stallStart := nowMs }

/-- `abort` -/
def abort (t : TxTransfer) : TxTransfer :=
  if t.state ≠ .idle then { t with error := .aborted, state := .idle } else t

/-- `fail_`: the failure is parked until the next `poll`. -/
def fail (t : TxTransfer) (error : IsoTpError) : TxTransfer :=
  { t with error := error, state := .failed, pending := .none }

/-- `take_failure_`. -/
def takeFailure (t : TxTransfer) : TxAction × TxTransfer := (.failed, { t with state := .idle })

/-- `offer_`: the stall timer runs from the first offer of a frame. -/
def offer (t : TxTransfer) (cfg : IsoTpConfig) (nowMs : UInt32) (kind : Pending) :
    TxAction × TxTransfer :=
  if t.pending ≠ kind then
    (.sendFrame, { t with pending := kind, stallStart := nowMs })
  else if elapsedMs nowMs t.stallStart ≥ cfg.txStallTimeoutMs then
    (t.fail .txStalled).takeFailure
  else
    (.sendFrame, t)

/-- STmin has not passed since the last consecutive frame. -/
def gated (t : TxTransfer) (nowMs : UInt32) : Bool :=
  t.stMinMs ≠ 0 && elapsedMs nowMs t.lastCfMs < t.stMinMs

/-- The action, the `out` frame and the machine after one `poll`. -/
def poll (t : TxTransfer) (cfg : IsoTpConfig) (nowMs : UInt32) (out : Frame) :
    TxAction × Frame × TxTransfer :=
  match t.state with
  | .idle => (.nothing, out, t)
  | .sendFirst =>
    if t.size ≤ singleFrameCapacity cfg then
      let f := (encodeSingleFrame cfg t.buffer t.size out).getD out
      let (a, t) := t.offer cfg nowMs .single
      (a, f, t)
    else
      let f := encodeFirstFrame cfg t.buffer t.size out
      let (a, t) := t.offer cfg nowMs .first
      (a, f, t)
  | .waitFc =>
    if elapsedMs nowMs t.timerStart ≥ cfg.nBsTimeoutMs then
      let (a, t) := (t.fail .timeoutFc).takeFailure
      (a, out, t)
    else (.nothing, out, t)
  | .sendCf =>
    if t.gated nowMs then (.nothing, out, t)
    else
      -- the sequence number is not committed before the frame is accepted
      let pendingSequence := t.sequence + 1 &&& 0x0F
      let (f, take) := encodeConsecutiveFrame cfg (t.buffer.drop t.sent)
        (u16Sub t.size t.sent) pendingSequence out
      let t := { t with pendingSequence := pendingSequence, pendingTake := take }
      let (a, t) := t.offer cfg nowMs .consecutive
      (a, f, t)
  | .done => (.complete, out, { t with state := .idle })
  | .failed =>
    let (a, t) := t.takeFailure
    (a, out, t)

def confirmSent (t : TxTransfer) (cfg : IsoTpConfig) (nowMs : UInt32) : TxTransfer :=
  match t.pending with
  | .none => t
  | .single => { t with state := .done, pending := .none }
  | .first =>
    { t with
      sent := firstFrameCapacity cfg
      state := .waitFc
      timerStart := nowMs
      pending := .none }
  | .consecutive =>
    let t := { t with
      sequence := t.pendingSequence
      sent := u16Add t.sent t.pendingTake
      lastCfMs := nowMs
      pending := .none }
    if t.sent ≥ t.size then { t with state := .done }
    else if t.blockRemaining ≠ 0 then
      let t := { t with blockRemaining := t.blockRemaining - 1 }
      if t.blockRemaining = 0 then { t with state := .waitFc, timerStart := nowMs } else t
    else t

/-- `on_flow_control` -/
def onFlowControl (t : TxTransfer) (info : PciInfo) (nowMs : UInt32) : TxTransfer :=
  if t.state ≠ .waitFc then t
  else
    match info.status with
    | .continue =>
      let stMinMs := stMinToMs info.stMinRaw
      { t with
        blockRemaining := info.blockSize.toNat
        stMinMs := stMinMs
        lastCfMs := nowMs - stMinMs
        state := .sendCf }
    | .wait => { t with timerStart := nowMs }
    | .bufferOverflow => t.fail .overflowRemote

end TxTransfer

/-! ## Receiving -/

/-- `RxAction` -/
inductive RxAction
  | nothing | sendFlowControl | messageComplete | failed
  deriving DecidableEq, Repr

namespace RxTransfer

/-- `RxTransfer::State` -/
inductive State
  | idle | receiving
  deriving DecidableEq, Repr

end RxTransfer

/-- `RxTransfer`: the reception of one message. -/
structure RxTransfer where
  buffer : List UInt8 := []
  capacity : Nat := 0
  size : Nat := 0
  expected : Nat := 0
  timerStart : UInt32 := 0
  ignored : UInt32 := 0
  state : RxTransfer.State := .idle
  error : IsoTpError := .none
  sequence : UInt8 := 0
  blockRemaining : Nat := 0
  deriving DecidableEq, Repr

namespace RxTransfer

def init (r : RxTransfer) (buffer : List UInt8) : RxTransfer :=
  { r with buffer := buffer, capacity := buffer.length }

/-- `data()` read up to `size()`. -/
def message (r : RxTransfer) : List UInt8 := r.buffer.take r.size

/-- `on_frame` for a first frame. -/
def onFirst (r : RxTransfer) (cfg : IsoTpConfig) (info : PciInfo) (data : List UInt8)
    (nowMs : UInt32) (out : Frame) : RxAction × Frame × RxTransfer :=
  if info.length > r.capacity then
    (.sendFlowControl, encodeFlowControl cfg .bufferOverflow 0 0 out,
      { r with state := .idle, error := .overflowLocal })
  else
    (.sendFlowControl, encodeFlowControl cfg .continue cfg.blockSize cfg.stMinRaw out,
      { r with
        buffer := blit r.buffer 0 (slice data info.payloadOffset info.payloadLen)
        size := info.payloadLen
        expected := info.length
        sequence := 0
        state := .receiving
        blockRemaining := cfg.blockSize.toNat
        timerStart := nowMs })

/-- `on_frame` for a consecutive frame. -/
def onConsecutive (r : RxTransfer) (cfg : IsoTpConfig) (info : PciInfo) (data : List UInt8)
    (nowMs : UInt32) (out : Frame) : RxAction × Frame × RxTransfer :=
  if r.state ≠ .receiving then (.nothing, out, { r with ignored := r.ignored + 1 })
  else
    let want := r.sequence + 1 &&& 0x0F
    if info.sequence ≠ want then
      (.failed, out, { r with state := .idle, error := .wrongSequence })
    else
      let missing := u16Sub r.expected r.size
      let take := if info.payloadLen < missing then info.payloadLen else missing
      let r := { r with
        sequence := want
        buffer := blit r.buffer r.size (slice data info.payloadOffset take)
        size := u16Add r.size take
        timerStart := nowMs }
      if r.size ≥ r.expected then (.messageComplete, out, { r with state := .idle })
      else if r.blockRemaining ≠ 0 then
        let r := { r with blockRemaining := r.blockRemaining - 1 }
        if r.blockRemaining = 0 then
          (.sendFlowControl, encodeFlowControl cfg .continue cfg.blockSize cfg.stMinRaw out,
            { r with blockRemaining := cfg.blockSize.toNat })
        else (.nothing, out, r)
      else (.nothing, out, r)

/-- `on_frame` -/
def onFrame (r : RxTransfer) (cfg : IsoTpConfig) (data : List UInt8) (dlc : Nat)
    (nowMs : UInt32) (out : Frame) : RxAction × Frame × RxTransfer :=
  let info := decodePci cfg data dlc
  match info.type with
  | .single =>
    (.messageComplete, out,
      { r with
        buffer := blit r.buffer 0 (slice data info.payloadOffset info.payloadLen)
        size := info.payloadLen
        state := .idle })
  | .first => r.onFirst cfg info data nowMs out
  | .consecutive => r.onConsecutive cfg info data nowMs out
  | .flowControl => (.nothing, out, r)
  | .invalid => (.nothing, out, { r with ignored := r.ignored + 1 })

/-- `poll` -/
def poll (r : RxTransfer) (cfg : IsoTpConfig) (nowMs : UInt32) : RxAction × RxTransfer :=
  if r.state ≠ .receiving then (.nothing, r)
  else if elapsedMs nowMs r.timerStart ≥ cfg.nCrTimeoutMs then
    (.failed, { r with state := .idle, error := .timeoutCf })
  else (.nothing, r)

end RxTransfer

end EspCars.Isotp
