import EspCars.Isotp.Transfer
import EspCars.Lib.Run

/-!
# One instance

`IsoTpProtocol` of `components/isotp/isotp.cpp`: both machines behind one address pair, the
flow control frame the CAN layer refused, and what the instance shows outside: the frames the CAN
layer accepted, the messages and the errors given to the consumer. Beside them stands what the
machines have written to their `error_` fields (`recorded`), which the code itself keeps only
until the next write.

The consumer may call `send` from inside its callbacks. After a message, and after an error found
by `on_frame` or by the send machine, nothing follows in the same call, so such a `send` is an
input of its own; only after a receive timeout does `loop` go on (`LoopPass.replies`).
-/

namespace EspCars.Isotp

open EspCars.Lib

/-- What `f` writes to `error_` of the send machine. -/
def TxTransfer.writes (f : TxTransfer → TxTransfer) (t : TxTransfer) : List IsoTpError :=
  let error := (f { t with error := .none }).error
  if error = .none then [] else [error]

/-- What `f` writes to `error_` of the receive machine. -/
def RxTransfer.writes (f : RxTransfer → RxTransfer) (r : RxTransfer) : List IsoTpError :=
  let error := (f { r with error := .none }).error
  if error = .none then [] else [error]

/-- `IsoTpProtocol`: a sender, a receiver, and the flow control it owes. -/
structure IsoTpProtocol where
  tx : TxTransfer
  rx : RxTransfer
  pendingFc : Frame := {}
  hasPendingFc : Bool := false
  messagesSent : UInt32 := 0
  messagesReceived : UInt32 := 0
  transfersFailed : UInt32 := 0
  bus : List Frame := []
  messages : List (List UInt8) := []
  errors : List IsoTpError := []
  recorded : List IsoTpError := []
  deriving DecidableEq

/-- One pass of `loop`: the time, whether the CAN layer would accept the held flow control, what
the consumer sends when it is told of a receive timeout, and whether the CAN layer accepts the
frames offered one after the other. -/
structure LoopPass where
  now : UInt32
  retryAccepted : Bool := true
  replies : List (List UInt8 × UInt32) := []
  accepts : List Bool := []
  deriving DecidableEq

namespace IsoTpProtocol

/-- `TX_FRAMES_PER_LOOP`. -/
def txFramesPerLoop : Nat := 8

def setup (cfg : IsoTpConfig) : IsoTpProtocol where
  tx := TxTransfer.init {} (List.replicate cfg.maxMessageSize 0)
  rx := RxTransfer.init {} (List.replicate cfg.maxMessageSize 0)

variable (cfg : IsoTpConfig)

/-- `report_error_` -/
def reportError (p : IsoTpProtocol) (error : IsoTpError) : IsoTpProtocol :=
  { p with transfersFailed := p.transfersFailed + 1, errors := p.errors ++ [error] }

/-- The message is handed up. -/
def deliverMessage (p : IsoTpProtocol) : IsoTpProtocol :=
  { p with
    messagesReceived := p.messagesReceived + 1
    messages := p.messages ++ [p.rx.message] }

/-- A refused `send` changes nothing. -/
def send (p : IsoTpProtocol) (message : List UInt8 × UInt32) : IsoTpProtocol :=
  match p.tx.begin message.1 message.2 with
  | some tx => { p with tx := tx }
  | none => p

/-- `on_frame` for anything but a flow control frame; `accepted` is the answer of the CAN layer
should there be a flow control to send. -/
def onData (p : IsoTpProtocol) (data : List UInt8) (dlc : Nat) (nowMs : UInt32)
    (accepted : Bool) : IsoTpProtocol :=
  let recorded :=
    p.recorded ++ RxTransfer.writes (fun r => (r.onFrame cfg data dlc nowMs {}).2.2) p.rx
  match p.rx.onFrame cfg data dlc nowMs {} with
  | (.sendFlowControl, out, rx) =>
    let p := { p with rx := rx, recorded := recorded }
    if accepted then { p with bus := p.bus ++ [out] }
    else { p with pendingFc := out, hasPendingFc := true }
  | (.messageComplete, _, rx) => { p with rx := rx, recorded := recorded }.deliverMessage
  | (.failed, _, rx) => { p with rx := rx, recorded := recorded }.reportError rx.error
  | (.nothing, _, rx) => { p with rx := rx, recorded := recorded }

/-- `on_frame` -/
def onFrame (p : IsoTpProtocol) (data : List UInt8) (dlc : Nat) (nowMs : UInt32)
    (accepted : Bool) : IsoTpProtocol :=
  let info := decodePci cfg data dlc
  if info.type = .flowControl then
    { p with
      tx := p.tx.onFlowControl info nowMs
      recorded := p.recorded ++ TxTransfer.writes (·.onFlowControl info nowMs) p.tx }
  else p.onData cfg data dlc nowMs accepted

/-- The first part of `loop`: the held flow control is offered again. -/
def retryFc (p : IsoTpProtocol) (accepted : Bool) : IsoTpProtocol :=
  if p.hasPendingFc && accepted then
    { p with bus := p.bus ++ [p.pendingFc], hasPendingFc := false }
  else p

/-- The second part of `loop`. -/
def pollRx (p : IsoTpProtocol) (nowMs : UInt32) (replies : List (List UInt8 × UInt32)) :
    IsoTpProtocol :=
  let recorded := p.recorded ++ RxTransfer.writes (fun r => (r.poll cfg nowMs).2) p.rx
  match p.rx.poll cfg nowMs with
  | (.failed, rx) =>
    replies.foldl send ({ p with rx := rx, recorded := recorded }.reportError rx.error)
  | (_, rx) => { p with rx := rx, recorded := recorded }

/-- The last part of `loop`, with at most `n` frames left to send. -/
def pollTx (nowMs : UInt32) : Nat → IsoTpProtocol → List Bool → IsoTpProtocol
  | 0, p, _ => p
  | n + 1, p, accepts =>
    let recorded :=
      p.recorded ++ TxTransfer.writes (fun t => (t.poll cfg nowMs {}).2.2) p.tx
    match p.tx.poll cfg nowMs {} with
    | (.sendFrame, frame, tx) =>
      match accepts with
      | true :: accepts =>
        pollTx nowMs n
          { p with
            tx := tx.confirmSent cfg nowMs
            bus := p.bus ++ [frame]
            recorded := recorded } accepts
      | _ => { p with tx := tx, recorded := recorded }
    | (.complete, _, tx) =>
      { p with tx := tx, recorded := recorded, messagesSent := p.messagesSent + 1 }
    | (.failed, _, tx) => { p with tx := tx, recorded := recorded }.reportError tx.error
    | (.nothing, _, tx) => { p with tx := tx, recorded := recorded }

/-- `loop` -/
def loop (p : IsoTpProtocol) (pass : LoopPass) : IsoTpProtocol :=
  let p := p.retryFc pass.retryAccepted
  let p := p.pollRx cfg pass.now pass.replies
  pollTx cfg pass.now txFramesPerLoop p pass.accepts

/-- What can happen to an instance. -/
inductive Input
  | frame (data : List UInt8) (dlc : Nat) (nowMs : UInt32) (accepted : Bool)
  | loop (pass : LoopPass)
  | send (message : List UInt8) (nowMs : UInt32)
  deriving DecidableEq

/-- An input of the component. -/
def step (p : IsoTpProtocol) : Input → IsoTpProtocol
  | .frame data dlc nowMs accepted => p.onFrame cfg data dlc nowMs accepted
  | .loop pass => p.loop cfg pass
  | .send message nowMs => p.send (message, nowMs)

end IsoTpProtocol

/-! ## What each method records -/

namespace RxTransfer

variable {cfg : IsoTpConfig} {r : RxTransfer}

/-- The first frame of a message that is longer than the buffer. -/
def TooLong (cfg : IsoTpConfig) (capacity : Nat) (data : List UInt8) (dlc : Nat) : Prop :=
  (decodePci cfg data dlc).type = .first ∧ capacity < (decodePci cfg data dlc).length

instance (capacity : Nat) (data : List UInt8) (dlc : Nat) :
    Decidable (TooLong cfg capacity data dlc) := inferInstanceAs (Decidable (_ ∧ _))

variable {data : List UInt8} {dlc : Nat} {nowMs : UInt32}

theorem onFrame_first {out : Frame} (h : (decodePci cfg data dlc).type = .first) :
    r.onFrame cfg data dlc nowMs out = r.onFirst cfg (decodePci cfg data dlc) data nowMs out := by
  unfold onFrame
  dsimp only
  rw [h]

theorem onFrame_consecutive {out : Frame} (h : (decodePci cfg data dlc).type = .consecutive) :
    r.onFrame cfg data dlc nowMs out =
      r.onConsecutive cfg (decodePci cfg data dlc) data nowMs out := by
  unfold onFrame
  dsimp only
  rw [h]

theorem not_tooLong {capacity : Nat}
    (h : (decodePci cfg data dlc).type ≠ .first) : ¬ TooLong cfg capacity data dlc :=
  fun hlong => h hlong.1

theorem action_onFirst (info : PciInfo) (data : List UInt8) (nowMs : UInt32) (out : Frame) :
    (r.onFirst cfg info data nowMs out).1 = .sendFlowControl := by
  unfold onFirst
  split <;> rfl

theorem error_onConsecutive (info : PciInfo) (data : List UInt8) (nowMs : UInt32) (out : Frame) :
    (r.onConsecutive cfg info data nowMs out).2.2.error =
      if (r.onConsecutive cfg info data nowMs out).1 = .failed then .wrongSequence
      else r.error := by
  by_cases hidle : r.state = .receiving
  · by_cases hseq : info.sequence = r.sequence + 1 &&& 0x0F
    · have hne : (r.onConsecutive cfg info data nowMs out).1 ≠ .failed := by
        unfold onConsecutive
        rw [if_neg (not_not.mpr hidle)]
        dsimp only
        split_ifs <;> first | contradiction | exact nofun
      rw [if_neg hne]
      unfold onConsecutive
      rw [if_neg (not_not.mpr hidle)]
      dsimp only
      split_ifs <;> first | contradiction | rfl
    · have hfailed : r.onConsecutive cfg info data nowMs out =
          (.failed, out, { r with state := .idle, error := .wrongSequence }) := by
        unfold onConsecutive
        rw [if_neg (not_not.mpr hidle), if_pos hseq]
      rw [hfailed]
      rfl
  · have hignored : r.onConsecutive cfg info data nowMs out =
        (.nothing, out, { r with ignored := r.ignored + 1 }) := if_pos hidle
    rw [hignored]
    rfl

theorem error_onFrame (data : List UInt8) (dlc : Nat) (nowMs : UInt32) :
    (r.onFrame cfg data dlc nowMs {}).2.2.error =
      if TooLong cfg r.capacity data dlc then .overflowLocal
      else if (r.onFrame cfg data dlc nowMs {}).1 = .failed then .wrongSequence
      else r.error := by
  cases htype : (decodePci cfg data dlc).type with
  | first =>
    rw [onFrame_first htype]
    by_cases hlen : (decodePci cfg data dlc).length > r.capacity
    · rw [if_pos ⟨htype, hlen⟩, onFirst, if_pos hlen]
    · have hfirst : r.onFirst cfg (decodePci cfg data dlc) data nowMs {} = _ := if_neg hlen
      rw [if_neg (fun h => hlen h.2), hfirst]
      rfl
  | consecutive =>
    rw [if_neg (not_tooLong (by rw [htype]; exact nofun)), onFrame_consecutive htype]
    exact error_onConsecutive _ _ _ _
  | single | flowControl | invalid =>
    rw [if_neg (not_tooLong (by rw [htype]; exact nofun))]
    simp only [onFrame, htype, reduceCtorEq, if_false]

/-- No answer depends on an earlier error. -/
theorem action_onFrame (data : List UInt8) (dlc : Nat) (nowMs : UInt32) (error : IsoTpError) :
    ({ r with error := error }.onFrame cfg data dlc nowMs {}).1 =
      (r.onFrame cfg data dlc nowMs {}).1 := by
  cases htype : (decodePci cfg data dlc).type with
  | first => rw [onFrame_first htype, onFrame_first htype, action_onFirst, action_onFirst]
  | consecutive =>
    rw [onFrame_consecutive htype, onFrame_consecutive htype]
    unfold onConsecutive
    dsimp only
    split_ifs <;> rfl
  | single | flowControl | invalid => simp only [onFrame, htype]

/-- What is recorded while a frame is handled is what `FAILED` reports, except that a first frame
that is too long asks for a flow control instead. -/
theorem writes_onFrame (data : List UInt8) (dlc : Nat) (nowMs : UInt32) :
    writes (fun r => (r.onFrame cfg data dlc nowMs {}).2.2) r =
      if TooLong cfg r.capacity data dlc then [.overflowLocal]
      else if (r.onFrame cfg data dlc nowMs {}).1 = .failed then
        [(r.onFrame cfg data dlc nowMs {}).2.2.error]
      else [] := by
  unfold writes
  dsimp only
  rw [error_onFrame, action_onFrame, error_onFrame]
  by_cases hlong : TooLong cfg r.capacity data dlc
  · simp only [hlong, if_true, reduceCtorEq, if_false]
  · by_cases hfailed : (r.onFrame cfg data dlc nowMs {}).1 = .failed
    · simp only [hlong, hfailed, if_true, reduceCtorEq, if_false]
    · simp only [hlong, hfailed, if_true, if_false]

theorem action_of_tooLong (h : TooLong cfg r.capacity data dlc) :
    (r.onFrame cfg data dlc nowMs {}).1 = .sendFlowControl := by
  rw [onFrame_first h.1, action_onFirst]

theorem writes_poll (nowMs : UInt32) :
    writes (fun r => (r.poll cfg nowMs).2) r =
      if (r.poll cfg nowMs).1 = .failed then [(r.poll cfg nowMs).2.error] else [] := by
  unfold writes poll
  dsimp only
  split_ifs <;> simp_all

@[simp] theorem capacity_onFrame (data : List UInt8) (dlc : Nat) (nowMs : UInt32) (out : Frame) :
    (r.onFrame cfg data dlc nowMs out).2.2.capacity = r.capacity := by
  cases htype : (decodePci cfg data dlc).type with
  | first =>
    rw [onFrame_first htype, onFirst]
    split <;> rfl
  | consecutive =>
    rw [onFrame_consecutive htype]
    unfold onConsecutive
    dsimp only
    split_ifs <;> rfl
  | single | flowControl | invalid => simp only [onFrame, htype]

@[simp] theorem capacity_poll (nowMs : UInt32) : (r.poll cfg nowMs).2.capacity = r.capacity := by
  unfold poll
  split_ifs <;> rfl

end RxTransfer

namespace TxTransfer

variable {cfg : IsoTpConfig} {t : TxTransfer}

/-- The failure that the next `poll` takes. -/
def parked (t : TxTransfer) : List IsoTpError := if t.state = .failed then [t.error] else []

theorem parked_onFlowControl (info : PciInfo) (nowMs : UInt32) :
    (t.onFlowControl info nowMs).parked = t.parked ++ writes (·.onFlowControl info nowMs) t := by
  unfold writes onFlowControl
  by_cases hs : t.state = .waitFc
  · cases info.status <;> simp [hs, parked, fail]
  · simp [hs]

theorem parked_begin {message : List UInt8} {nowMs : UInt32} {t' : TxTransfer}
    (h : t.begin message nowMs = some t') : t'.parked = [] ∧ t.parked = [] := by
  unfold begin at h
  split at h
  · cases h
  · rename_i hidle
    cases h
    have hs : t.state = .idle := by
      by_contra hne
      exact hidle (Or.inl hne)
    constructor
    · rfl
    · rw [parked, hs]
      rfl

theorem parked_confirmSent (nowMs : UInt32) (h : t.parked = []) :
    (t.confirmSent cfg nowMs).parked = [] := by
  unfold confirmSent
  cases t.pending with
  | none => exact h
  | single | first => rfl
  | consecutive =>
    have hs : t.state ≠ .failed := by
      intro hs
      rw [parked, if_pos hs] at h
      cases h
    dsimp only
    split_ifs <;> first | rfl | exact if_neg hs

theorem error_offer (nowMs : UInt32) (kind : Pending) :
    (t.offer cfg nowMs kind).2.error =
      if (t.offer cfg nowMs kind).1 = .failed then .txStalled else t.error := by
  unfold offer fail takeFailure
  split_ifs <;> first | contradiction | rfl

theorem action_offer {u : TxTransfer} {nowMs : UInt32} {kind : Pending}
    (hp : u.pending = t.pending) (hs : u.stallStart = t.stallStart) :
    (u.offer cfg nowMs kind).1 = (t.offer cfg nowMs kind).1 := by
  unfold offer
  rw [hp, hs]
  split_ifs <;> rfl

theorem state_offer (nowMs : UInt32) (kind : Pending) (h : t.state ≠ .failed) :
    (t.offer cfg nowMs kind).2.state ≠ .failed := by
  unfold offer
  split_ifs
  · exact h
  · exact nofun
  · exact h

/-- The error of a failure that `poll` finds itself. -/
def pollError (t : TxTransfer) : IsoTpError :=
  if t.state = .waitFc then .timeoutFc else .txStalled

theorem action_poll (nowMs : UInt32) (out : Frame) (error : IsoTpError) :
    ({ t with error := error }.poll cfg nowMs out).1 = (t.poll cfg nowMs out).1 := by
  cases hs : t.state with
  | idle | done | failed => simp only [poll, hs, takeFailure]
  | waitFc =>
    simp only [poll, hs]
    split_ifs <;> rfl
  | sendFirst =>
    simp only [poll, hs]
    split_ifs
    · exact action_offer rfl rfl
    · exact action_offer rfl rfl
  | sendCf =>
    have hgate : ({ t with error := error } : TxTransfer).gated nowMs = t.gated nowMs := rfl
    simp only [poll, hs] at hgate ⊢
    rw [hgate]
    split_ifs
    · rfl
    · exact action_offer rfl rfl

theorem state_poll (nowMs : UInt32) (out : Frame) :
    (t.poll cfg nowMs out).2.2.state ≠ .failed := by
  cases hs : t.state with
  | idle =>
    simp only [poll, hs]
    exact nofun
  | done | failed =>
    simp only [poll, hs, takeFailure]
    exact nofun
  | waitFc =>
    simp only [poll, hs, takeFailure]
    split_ifs
    · exact nofun
    · dsimp only
      rw [hs]
      exact nofun
  | sendFirst =>
    have hne : t.state ≠ .failed := by
      rw [hs]
      exact nofun
    simp only [poll, hs]
    split_ifs <;> exact state_offer _ _ hne
  | sendCf =>
    have hne : t.state ≠ .failed := by
      rw [hs]
      exact nofun
    simp only [poll, hs]
    split_ifs
    · exact hne
    · apply state_offer
      exact nofun

theorem error_poll (nowMs : UInt32) (out : Frame) :
    (t.poll cfg nowMs out).2.2.error =
      if (t.poll cfg nowMs out).1 = .failed ∧ t.state ≠ .failed then t.pollError else t.error := by
  cases hs : t.state with
  | idle | done | failed =>
    simp [poll, hs, takeFailure]
  | waitFc =>
    simp only [poll, hs, takeFailure, fail, pollError]
    split_ifs <;> simp_all
  | sendFirst =>
    simp only [poll, hs, pollError]
    split_ifs <;> simp_all [error_offer]
  | sendCf =>
    simp only [poll, hs, pollError]
    split_ifs <;> simp_all [error_offer]

/-- `FAILED` hands over the parked failure or the one found just now; after any other answer
nothing was parked and nothing is recorded. -/
theorem poll_reports (nowMs : UInt32) :
    t.parked ++ writes (fun t => (t.poll cfg nowMs {}).2.2) t =
      if (t.poll cfg nowMs {}).1 = .failed then [(t.poll cfg nowMs {}).2.2.error] else [] := by
  unfold writes
  dsimp only
  rw [error_poll, error_poll, action_poll]
  by_cases hs : t.state = .failed
  · have hpoll : (t.poll cfg nowMs {}).1 = .failed := by
      simp only [poll, hs, takeFailure]
    simp only [hs, hpoll, parked, ne_eq, not_true_eq_false, and_false, if_true, if_false]
    rfl
  · have hparked : t.parked = [] := if_neg hs
    have hnone : t.pollError ≠ .none := by
      unfold pollError
      split <;> exact nofun
    rw [hparked, List.nil_append]
    by_cases hfailed : (t.poll cfg nowMs {}).1 = .failed
    · simp only [hs, hfailed, ne_eq, not_false_eq_true, and_self, if_true]
      exact if_neg hnone
    · simp only [hfailed, false_and, if_true, if_false]

theorem parked_poll (nowMs : UInt32) (out : Frame) : (t.poll cfg nowMs out).2.2.parked = [] :=
  if_neg (state_poll nowMs out)

end TxTransfer

/-! ## What the methods change -/

namespace IsoTpProtocol

variable {cfg : IsoTpConfig} (p : IsoTpProtocol) (data : List UInt8) (dlc : Nat) (nowMs : UInt32)

theorem onData_tx (accepted : Bool) : (p.onData cfg data dlc nowMs accepted).tx = p.tx := by
  unfold onData
  dsimp only
  split
  · split <;> rfl
  · rfl
  · rfl
  · rfl

theorem onData_rx (accepted : Bool) :
    (p.onData cfg data dlc nowMs accepted).rx = (p.rx.onFrame cfg data dlc nowMs {}).2.2 := by
  unfold onData
  dsimp only
  split
  · rename_i heq
    rw [heq]
    split <;> rfl
  · rename_i heq
    rw [heq]
    rfl
  · rename_i heq
    rw [heq]
    rfl
  · rename_i heq
    rw [heq]

theorem onData_recorded (accepted : Bool) :
    (p.onData cfg data dlc nowMs accepted).recorded =
      p.recorded ++ RxTransfer.writes (fun r => (r.onFrame cfg data dlc nowMs {}).2.2) p.rx := by
  unfold onData
  dsimp only
  split
  · split <;> rfl
  · rfl
  · rfl
  · rfl

theorem onData_errors (accepted : Bool) :
    (p.onData cfg data dlc nowMs accepted).errors =
      p.errors ++ if (p.rx.onFrame cfg data dlc nowMs {}).1 = .failed then
        [(p.rx.onFrame cfg data dlc nowMs {}).2.2.error] else [] := by
  unfold onData
  dsimp only
  split
  · rename_i heq
    rw [heq]
    split <;> exact (List.append_nil _).symm
  · rename_i heq
    rw [heq]
    exact (List.append_nil _).symm
  · rename_i heq
    rw [heq]
    rfl
  · rename_i heq
    rw [heq]
    exact (List.append_nil _).symm

theorem onData_hasPendingFc (accepted : Bool) :
    (p.onData cfg data dlc nowMs accepted).hasPendingFc =
      (p.hasPendingFc ||
        decide ((p.rx.onFrame cfg data dlc nowMs {}).1 = .sendFlowControl) && !accepted) := by
  unfold onData
  dsimp only
  split
  · rename_i heq
    rw [heq]
    cases accepted
    · exact (Bool.or_true _).symm
    · exact (Bool.or_false _).symm
  · rename_i heq
    rw [heq]
    exact (Bool.or_false _).symm
  · rename_i heq
    rw [heq]
    exact (Bool.or_false _).symm
  · rename_i heq
    rw [heq]
    exact (Bool.or_false _).symm

theorem onFrame_rx (accepted : Bool) :
    (p.onFrame cfg data dlc nowMs accepted).rx = (p.rx.onFrame cfg data dlc nowMs {}).2.2 := by
  unfold onFrame
  dsimp only
  split
  · rename_i hfc
    simp only [RxTransfer.onFrame, hfc]
  · exact onData_rx p data dlc nowMs accepted

theorem onFrame_hasPendingFc (accepted : Bool) :
    (p.onFrame cfg data dlc nowMs accepted).hasPendingFc =
      (p.hasPendingFc ||
        decide ((p.rx.onFrame cfg data dlc nowMs {}).1 = .sendFlowControl) && !accepted) := by
  unfold onFrame
  dsimp only
  split
  · rename_i hfc
    simp [RxTransfer.onFrame, hfc]
  · exact onData_hasPendingFc p data dlc nowMs accepted

theorem send_rx (message : List UInt8 × UInt32) : (p.send message).rx = p.rx := by
  unfold send
  split <;> rfl

theorem send_hasPendingFc (message : List UInt8 × UInt32) :
    (p.send message).hasPendingFc = p.hasPendingFc := by
  unfold send
  split <;> rfl

theorem sends_rx (messages : List (List UInt8 × UInt32)) : (messages.foldl send p).rx = p.rx := by
  induction messages generalizing p with
  | nil => rfl
  | cons message messages ih => rw [List.foldl_cons, ih, send_rx]

theorem sends_hasPendingFc (messages : List (List UInt8 × UInt32)) :
    (messages.foldl send p).hasPendingFc = p.hasPendingFc := by
  induction messages generalizing p with
  | nil => rfl
  | cons message messages ih => rw [List.foldl_cons, ih, send_hasPendingFc]

theorem pollRx_rx (replies : List (List UInt8 × UInt32)) :
    (p.pollRx cfg nowMs replies).rx = (p.rx.poll cfg nowMs).2 := by
  unfold pollRx
  dsimp only
  split
  · rename_i heq
    rw [sends_rx, heq]
    rfl
  · rename_i heq
    rw [heq]

theorem pollRx_hasPendingFc (replies : List (List UInt8 × UInt32)) :
    (p.pollRx cfg nowMs replies).hasPendingFc = p.hasPendingFc := by
  unfold pollRx
  dsimp only
  split
  · exact sends_hasPendingFc _ _
  · rfl

theorem pollTx_rx (n : Nat) (accepts : List Bool) : (pollTx cfg nowMs n p accepts).rx = p.rx := by
  induction n generalizing p accepts with
  | zero => rfl
  | succ n ih =>
    unfold pollTx
    dsimp only
    split
    · split
      · exact ih _ _
      · rfl
    · rfl
    · rfl
    · rfl

theorem pollTx_hasPendingFc (n : Nat) (accepts : List Bool) :
    (pollTx cfg nowMs n p accepts).hasPendingFc = p.hasPendingFc := by
  induction n generalizing p accepts with
  | zero => rfl
  | succ n ih =>
    unfold pollTx
    dsimp only
    split
    · split
      · exact ih _ _
      · rfl
    · rfl
    · rfl
    · rfl

theorem loop_rx (pass : LoopPass) : (p.loop cfg pass).rx = (p.rx.poll cfg pass.now).2 := by
  unfold loop
  dsimp only
  rw [pollTx_rx, pollRx_rx, retryFc]
  split <;> rfl

theorem loop_hasPendingFc (pass : LoopPass) :
    (p.loop cfg pass).hasPendingFc = (p.hasPendingFc && !pass.retryAccepted) := by
  unfold loop
  dsimp only
  rw [pollTx_hasPendingFc, pollRx_hasPendingFc, retryFc]
  cases hp : p.hasPendingFc <;> cases pass.retryAccepted <;> simp [hp]

end IsoTpProtocol

end EspCars.Isotp
