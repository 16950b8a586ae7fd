import EspCars.Isotp.Transfer
import EspCars.Lib.Run

/-!
# A transfer from one machine to the other

A `TxTransfer` and an `RxTransfer` joined as `isotp.cpp` joins them: polled frames go through a
CAN layer that may refuse them, the receiver's flow controls go through one that may refuse
them too, and both directions deliver in order and lose nothing. An `Event` is one thing the
surroundings do; a schedule is an endless sequence of events with their times.

The two machines agree through four numbers only: how many consecutive frames the sender has
confirmed (`ks`), how many the receiver has taken (`kr`), and where the block they are in
starts (`base`). `Phase` lists what the pair can look like, `Phase.step` is the one case
analysis over events and phases, and the delivery theorem follows from it and a rank that
weighs what is still to be sent and what is in flight.
-/

namespace EspCars.Isotp

open EspCars.Lib

/-- Two ends of one address pair: the same addressing, and a receiver that grants blocks. -/
structure Link where
  txCfg : IsoTpConfig
  rxCfg : IsoTpConfig
  addressing : rxCfg.addressExtensionLen = txCfg.addressExtensionLen
  blockSize : rxCfg.blockSize ≠ 0

/-- Both machines, what is in flight between them and what they have reported. `fcOut` holds
the receiver's flow control until the CAN layer takes it (`pending_fc_`). -/
structure Exchange where
  tx : TxTransfer
  rx : RxTransfer
  wire : List Frame := []
  fcOut : List Frame := []
  fcWire : List Frame := []
  txReports : List TxAction := []
  rxReports : List (RxAction × List UInt8) := []
  deriving DecidableEq

/-- What happens next, to either side or to a frame under way. -/
inductive Event
  /-- The sender is polled; `accepted` is the time at which the CAN layer's acceptance of the
  offered frame is confirmed, `none` a refusal. -/
  | pollTx (now : UInt32) (accepted : Option UInt32)
  | deliver (now : UInt32)
  | pollRx (now : UInt32)
  | offerFc (accepted : Bool)
  | deliverFc (now : UInt32)
  deriving DecidableEq

namespace Exchange

/-- What an event does to the two sides and the frames between. -/
def step (l : Link) (s : Exchange) : Event → Exchange
  | .pollTx now accepted =>
    match s.tx.poll l.txCfg now {} with
    | (.sendFrame, f, tx) =>
      match accepted with
      | some time => { s with tx := tx.confirmSent l.txCfg time, wire := s.wire ++ [f] }
      | none => { s with tx := tx }
    | (.nothing, _, tx) => { s with tx := tx }
    | (action, _, tx) => { s with tx := tx, txReports := s.txReports ++ [action] }
  | .deliver now =>
    match s.wire with
    | [] => s
    | f :: rest =>
      match s.rx.onFrame l.rxCfg f.data f.dlc now {} with
      | (.sendFlowControl, fc, rx) =>
        { s with rx := rx, wire := rest, fcOut := s.fcOut ++ [fc] }
      | (.nothing, _, rx) => { s with rx := rx, wire := rest }
      | (action, _, rx) =>
        { s with
          rx := rx
          wire := rest
          rxReports := s.rxReports ++ [(action, rx.message)] }
  | .pollRx now =>
    match s.rx.poll l.rxCfg now with
    | (.failed, rx) => { s with rx := rx, rxReports := s.rxReports ++ [(.failed, rx.message)] }
    | (_, rx) => { s with rx := rx }
  | .offerFc accepted =>
    match s.fcOut with
    | [] => s
    | f :: rest =>
      if accepted then { s with fcOut := rest, fcWire := s.fcWire ++ [f] } else s
  | .deliverFc now =>
    match s.fcWire with
    | [] => s
    | f :: rest =>
      let info := decodePci l.txCfg f.data f.dlc
      { s with
        fcWire := rest
        tx := if info.type = .flowControl then s.tx.onFlowControl info now else s.tx }

end Exchange

/-- The kind of frame a poll at `nowMs` offers. -/
def TxTransfer.offering (t : TxTransfer) (cfg : IsoTpConfig) (nowMs : UInt32) :
    TxTransfer.Pending :=
  match t.state with
  | .sendFirst => if t.size ≤ singleFrameCapacity cfg then .single else .first
  | .sendCf => if t.gated nowMs then .none else .consecutive
  | _ => .none

/-- No configured timeout has elapsed when `e` happens: N_Bs while waiting for flow control,
the stall time of a frame offered before, N_Cr while receiving. -/
def NoTimeout (l : Link) (s : Exchange) : Event → Prop
  | .pollTx now _ =>
    (s.tx.state = .waitFc → elapsedMs now s.tx.timerStart < l.txCfg.nBsTimeoutMs) ∧
    (s.tx.offering l.txCfg now ≠ .none → s.tx.pending = s.tx.offering l.txCfg now →
      elapsedMs now s.tx.stallStart < l.txCfg.txStallTimeoutMs)
  | .pollRx now =>
    s.rx.state = .receiving → elapsedMs now s.rx.timerStart < l.rxCfg.nCrTimeoutMs
  | _ => True

instance (l : Link) (s : Exchange) : (e : Event) → Decidable (NoTimeout l s e)
  | .pollTx _ _ => inferInstanceAs (Decidable (_ ∧ _))
  | .deliver _ => inferInstanceAs (Decidable True)
  | .pollRx _ => inferInstanceAs (Decidable (_ → _))
  | .offerFc _ => inferInstanceAs (Decidable True)
  | .deliverFc _ => inferInstanceAs (Decidable True)

/-- `begin` has just accepted `m` on an idle sender, and an idle receiver has room for it. -/
structure Start (m : List UInt8) (s : Exchange) : Prop where
  length : 1 ≤ m.length ∧ m.length ≤ maxClassicMessageSize
  begun : ∃ (t : TxTransfer) (now : UInt32), t.buffer.length = t.capacity ∧
    t.begin m now = some s.tx
  idle : s.rx.state = .idle
  room : s.rx.buffer.length = s.rx.capacity ∧ m.length ≤ s.rx.capacity
  silent : s.wire = [] ∧ s.fcOut = [] ∧ s.fcWire = []
  unreported : s.txReports = [] ∧ s.rxReports = []

/-- The surroundings keep working: what is in flight arrives, a pending flow control is
accepted some day, and a busy sender is polled some day when STmin has passed and the CAN
layer accepts. -/
structure Fair (l : Link) (s : Exchange) (sched : Nat → Event) : Prop where
  deliver : ∀ n, (stateAt (Exchange.step l) s sched n).wire ≠ [] →
    ∃ k, n ≤ k ∧ ∃ now, sched k = .deliver now
  offerFc : ∀ n, (stateAt (Exchange.step l) s sched n).fcOut ≠ [] →
    ∃ k, n ≤ k ∧ sched k = .offerFc true
  deliverFc : ∀ n, (stateAt (Exchange.step l) s sched n).fcWire ≠ [] →
    ∃ k, n ≤ k ∧ ∃ now, sched k = .deliverFc now
  pollTx : ∀ n, (stateAt (Exchange.step l) s sched n).tx.isBusy →
    ∃ k, n ≤ k ∧ ∃ now time, sched k = .pollTx now (some time) ∧
      ((stateAt (Exchange.step l) s sched k).tx.state = .sendCf →
        (stateAt (Exchange.step l) s sched k).tx.gated now = false)

/-! ## How a message is cut into frames -/

/-- The sequence number of the `k`-th consecutive frame. -/
def seqAfter (k : Nat) : UInt8 := UInt8.ofNat (k % 16)

theorem seqAfter_succ (k : Nat) : seqAfter k + 1 &&& 0x0F = seqAfter (k + 1) := by
  have key : ∀ i : Fin 16, UInt8.ofNat i + 1 &&& 0x0F = UInt8.ofNat ((i + 1) % 16) := by decide
  have hk := key ⟨k % 16, Nat.mod_lt _ (by decide)⟩
  simp only [Nat.mod_add_mod] at hk
  exact hk

theorem seqAfter_masked (k : Nat) : seqAfter k &&& 0x0F = seqAfter k := by
  have key : ∀ i : Fin 16, UInt8.ofNat i &&& 0x0F = UInt8.ofNat i := by decide
  exact key ⟨k % 16, Nat.mod_lt _ (by decide)⟩

theorem capacities (cfg : IsoTpConfig) :
    singleFrameCapacity cfg = consecutiveFrameCapacity cfg ∧
      firstFrameCapacity cfg + 1 = consecutiveFrameCapacity cfg ∧
      consecutiveFrameCapacity cfg + cfg.addressExtensionLen = 7 := by
  have hael := cfg.addressExtensionLen.isLt
  refine ⟨rfl, ?_, ?_⟩ <;> simp only [firstFrameCapacity, consecutiveFrameCapacity, frameLen]
    <;> omega

section Segments

variable (l : Link) (m : List UInt8)

/-- How much of the message the first frame and `k` consecutive frames carry. -/
def sentAfter (k : Nat) : Nat :=
  min m.length (firstFrameCapacity l.txCfg + k * consecutiveFrameCapacity l.txCfg)

/-- How much of it the next consecutive frame carries. -/
def takeAfter (k : Nat) : Nat :=
  min (m.length - sentAfter l m k) (consecutiveFrameCapacity l.txCfg)

theorem sentAfter_le (k : Nat) : sentAfter l m k ≤ m.length := Nat.min_le_left _ _

theorem sentAfter_succ (k : Nat) : sentAfter l m (k + 1) = sentAfter l m k + takeAfter l m k := by
  simp only [takeAfter, sentAfter, Nat.succ_mul]
  omega

theorem takeAfter_pos {k : Nat} (h : sentAfter l m k < m.length) : 0 < takeAfter l m k := by
  have hcap := capacities l.txCfg
  simp only [takeAfter]
  omega

theorem sentAfter_mono {j k : Nat} (h : j ≤ k) : sentAfter l m j ≤ sentAfter l m k := by
  induction h with
  | refl => exact Nat.le_refl _
  | step _ ih =>
    rw [sentAfter_succ]
    omega

theorem sentAfter_zero (h : singleFrameCapacity l.txCfg < m.length) :
    sentAfter l m 0 = firstFrameCapacity l.txCfg := by
  have hcap := capacities l.txCfg
  simp only [sentAfter]
  omega

theorem take_sentAfter_succ (k : Nat) :
    m.take (sentAfter l m (k + 1)) =
      m.take (sentAfter l m k) ++ (m.drop (sentAfter l m k)).take (takeAfter l m k) := by
  rw [sentAfter_succ, List.take_add]

def singleFrame : Frame :=
  carry l.txCfg {} ([pciByte .single (UInt8.ofNat m.length)] ++ m.take m.length)

def firstFrame : Frame :=
  carry l.txCfg {} ([pciByte .first (UInt8.ofNat (m.length >>> 8 &&& 0x0F)),
    UInt8.ofNat (m.length &&& 0xFF)] ++ m.take (firstFrameCapacity l.txCfg))

/-- The `k`-th consecutive frame, counted from zero. -/
def consecutiveFrame (k : Nat) : Frame :=
  carry l.txCfg {} ([pciByte .consecutive (seqAfter (k + 1) &&& 0x0F)] ++
    (m.drop (sentAfter l m k)).take (takeAfter l m k))

def grant : Frame := encodeFlowControl l.rxCfg .continue l.rxCfg.blockSize l.rxCfg.stMinRaw {}

end Segments

end EspCars.Isotp
