import EspCars.CanGateway.RxTaps
import EspCars.SdLogger.LogFormat

/-!
# The tap rings and the task that drains them

The taps of `components/sd_logger/sd_logger.cpp` with the rings of their ports: the two interrupts
that push, `tap_drain_loop_` that pops, `push_record`, and the writer as far as it moves `mounted_`
and reads the rings in `emergency_close_`. Each load, store and atomic addition is a step, and the
steps of all of them interleave. A record in the ring of the writer is put there and taken under a
lock, in one step.

Nothing reads `captured`, `refused`, `snapped`, `stated`, `handed`, `taken` and the two numbers of
other losses: they keep what became of the frames.
-/

namespace EspCars.SdLogger.TapDrain

open EspCars.Lib EspCars.CanGateway

/-! ## Records -/

/-- `TAP_FLAG_TX`. -/
def tapFlagTx : UInt8 := 0x08

def recFlagExtended : UInt8 := 0x01

def recFlagRtr : UInt8 := 0x02

def recFlagTx : UInt8 := 0x04

def recFlagShed : UInt8 := 0x08

/-- What `handle_tx_done_isr` is given and reads; the buffer may be a null pointer. -/
structure TxDone where
  isTxSuccess : Bool := true
  id : UInt32 := 0
  ide : Bool := false
  rtr : Bool := false
  dlc : Nat := 0
  buffer : Option Bytes8 := none
  tUs : UInt32 := 0
  deriving DecidableEq

/-- The record of a frame that reached the bus. -/
def TxDone.record (index : UInt8) (e : TxDone) : TapRecord :=
  let dlc := if e.dlc > maxFrameDataLen then maxFrameDataLen else e.dlc
  { tUs := e.tUs
    canId := e.id
    dlc := UInt8.ofNat dlc
    flags := tapFlagTx ||| (if e.ide then tapFlagExtended else 0) |||
      (if e.rtr then tapFlagRtr else 0)
    source := index
    data :=
      match e.buffer with
      | none => .replicate maxFrameDataLen 0
      | some buffer =>
        if e.rtr then .replicate maxFrameDataLen 0
        else .ofFn fun i => if i < dlc then buffer.get i else 0 }

/-- `tap_to_log_record` -/
def tapToLogRecord (tap : TapRecord) (source : UInt8) : LogRecord where
  tUs := tap.tUs
  id := tap.canId
  source := source
  flags := (if tap.flags &&& tapFlagExtended ≠ 0 then recFlagExtended else 0) |||
    (if tap.flags &&& tapFlagRtr ≠ 0 then recFlagRtr else 0) |||
    (if tap.flags &&& tapFlagShed ≠ 0 then recFlagShed else 0) |||
    (if tap.flags &&& tapFlagTx ≠ 0 then recFlagTx else 0)
  len := if tap.dlc > 8 then 8 else tap.dlc
  data := tap.data

/-! ## A ring and its interrupt -/

instance : Inhabited TapRecord := ⟨{}⟩

/-- `log_tap_ring_` and `log_tap_tx_ring_`. -/
inductive Queue
  | rx | tx
  deriving DecidableEq

/-- What an interrupt holds between two of its steps: the record of its frame, and the answer of
`push` once there is one. -/
inductive Interrupt
  | idle
  | pushing (record : TapRecord)
  | pushed (record : TapRecord) (ok : Bool)
  deriving DecidableEq

/-- A ring of a port, `armed` if it was allocated, and `log_tap_rx_accepted_` or
`log_tap_tx_accepted_`. The frames that were captured for it and those that `log_tap_dropped_` has
counted are kept, and how many had gone in when `emergency_close_` loaded `tail_`. -/
structure TapQueue (n : Nat) where
  armed : Bool := false
  ring : Observe.State TapRecord n := Observe.init
  interrupt : Interrupt := .idle
  accepted : UInt32 := 0
  captured : List TapRecord := []
  refused : List TapRecord := []
  snapped : Nat := 0

namespace TapQueue

variable {n : Nat}

/-- A frame is captured; an interrupt does not interrupt itself. -/
def capture (Q : TapQueue n) (record : TapRecord) : TapQueue n :=
  match Q.armed, Q.interrupt with
  | true, .idle =>
    { Q with interrupt := .pushing record, captured := Q.captured ++ [record] }
  | _, _ => Q

variable [NeZero n]

/-- The ring takes a step. -/
def act (Q : TapQueue n) (e : Observe.Event TapRecord) : TapQueue n :=
  { Q with ring := Observe.step Q.ring e }

/-- A step of `push`. -/
def pushStep (Q : TapQueue n) (record : TapRecord) : TapQueue n :=
  match Q.ring.producer with
  | .idle => Q.act (.push record)
  | .loadedTail _ tail =>
    if Observe.full n tail Q.ring.ring.head then
      { Q.act .producer with interrupt := .pushed record false }
    else Q.act .producer
  | .hasRoom _ _ => Q.act .producer
  | .wrote _ _ => { Q.act .producer with interrupt := .pushed record true }

end TapQueue

/-! ## A tap -/

variable {k : Nat} {depth : Queue → Nat}

/-- `CanTap`, with what it reads of its port: the index, the rings and `log_tap_dropped_`.
`shutdown_lost` has been added to if `stated`. -/
structure Tap (depth : Queue → Nat) where
  index : UInt8 := 0
  source : UInt8 := 0
  queue : (q : Queue) → TapQueue (depth q) := fun _ => {}
  logTapDropped : UInt32 := 0
  drained : UInt32 := 0
  recordRingAccepted : UInt32 := 0
  shutdownLost : UInt32 := 0
  stated : Bool := false

namespace Tap

def setQueue (t : Tap depth) (q : Queue) (Q : TapQueue (depth q)) : Tap depth :=
  { t with queue := Function.update t.queue q Q }

theorem queue_setQueue_self (t : Tap depth) (q : Queue) (Q : TapQueue (depth q)) :
    (t.setQueue q Q).queue q = Q := by
  simp only [setQueue, Function.update_self]

theorem queue_setQueue_ne (t : Tap depth) {q r : Queue} (Q : TapQueue (depth q)) (h : r ≠ q) :
    (t.setQueue q Q).queue r = t.queue r := by
  simp only [setQueue, Function.update_of_ne h]

/-- The next step of the interrupt behind the ring `q`. -/
def interruptStep [∀ q, NeZero (depth q)] (t : Tap depth) (q : Queue) : Tap depth :=
  let Q := t.queue q
  match Q.interrupt with
  | .idle => t
  | .pushing record => t.setQueue q (Q.pushStep record)
  | .pushed _ true => t.setQueue q { Q with interrupt := .idle, accepted := Q.accepted + 1 }
  | .pushed record false =>
    { t.setQueue q { Q with interrupt := .idle, refused := Q.refused ++ [record] } with
      logTapDropped := t.logTapDropped + 1 }

end Tap

/-! ## The tasks -/

/-- What `push_record` did with a record. -/
inductive Verdict
  | accepted | dropped | cardDropped
  deriving DecidableEq

/-- Where `drain_one` is. -/
inductive Stage
  | checking
  | popping
  | popped (tap : TapRecord)
  | pushing (tap : TapRecord)
  | entering (tap : TapRecord)
  | counting (tap : TapRecord) (verdict : Verdict)
  deriving DecidableEq

/-- Where `tap_drain_loop_` is. In `drain_one`, `progressed` is what the ring before has
answered. -/
inductive DrainPc (k : Nat)
  | polling
  | gate
  | port (i : Nat)
  | turning (i : Fin k) (progressed : Bool)
  | one (i : Fin k) (q : Queue) (progressed : Bool) (stage : Stage)
  | gone
  deriving DecidableEq

/-- The two loads of `size()`, which come in either order. -/
structure Loads where
  tail : Option UInt32 := none
  head : Option UInt32 := none
  deriving DecidableEq

/-- `size()`; 0 for a ring that was not allocated. -/
def Loads.size (l : Loads) : UInt32 :=
  match l.tail, l.head with
  | some tail, some head => (tail - head).toUInt16.toUInt32
  | _, _ => 0

/-- The writer task: in its loop, in `emergency_close_` at the tap `i`, past its snapshot, or gone,
closed by it or stopped for `confine_format`. -/
inductive Writer
  | running
  | closing (i : Nat) (loads : Queue → Loads)
  | finishing
  | closed
  | stopped

/-- A record of a tap and what `push_record` did with it. -/
structure Handed (k : Nat) where
  tap : Fin k
  queue : Queue
  record : TapRecord
  verdict : Verdict
  deriving DecidableEq

/-- The part of the logger that the taps share. -/
structure Logger (k : Nat) (depth : Queue → Nat) where
  taps : Fin k → Tap depth
  mounted : Bool
  dying : Bool := false
  bufferDepth : Nat := 2048
  ring : List LogRecord := []
  droppedRecords : UInt32 := 0
  cardDropped : UInt32 := 0
  drain : DrainPc k := .polling
  writer : Writer
  handed : List (Handed k) := []
  otherDropped : Nat := 0
  otherCardDropped : Nat := 0
  taken : List LogRecord := []

/-- `head_` or `tail_`. -/
inductive End
  | head | tail
  deriving DecidableEq

/-- What happens at the taps, in the ring and in the writer. -/
inductive Event (k : Nat)
  | receive (i : Fin k) (record : TapRecord)
  | txDone (i : Fin k) (e : TxDone)
  | interrupt (i : Fin k) (q : Queue)
  | drain
  | logFrame (saw : Bool) (rec : LogRecord)
  | popRecord
  | mount
  | unmount
  | requestClose
  | emergencyClose
  | load (q : Queue) (e : End)
  | state
  | finish
  | confineStop
  | confineFormat (created : Bool)

namespace Logger

def setTap (s : Logger k depth) (i : Fin k) (t : Tap depth) : Logger k depth :=
  { s with taps := Function.update s.taps i t }

theorem taps_setTap_self (s : Logger k depth) (i : Fin k) (t : Tap depth) :
    (s.setTap i t).taps i = t := by
  simp only [setTap, Function.update_self]

theorem taps_setTap_ne (s : Logger k depth) {i j : Fin k} (t : Tap depth) (h : j ≠ i) :
    (s.setTap i t).taps j = s.taps j := by
  simp only [setTap, Function.update_of_ne h]

/-- The ring of the writer has no place. -/
def full (s : Logger k depth) : Bool := s.ring.length + 1 = s.bufferDepth

/-- `push_record` for another source; `saw` is what it has read of `mounted_`. -/
def logFrame (s : Logger k depth) (saw : Bool) (rec : LogRecord) : Logger k depth :=
  if !saw then
    { s with cardDropped := s.cardDropped + 1, otherCardDropped := s.otherCardDropped + 1 }
  else if s.full then
    { s with droppedRecords := s.droppedRecords + 1, otherDropped := s.otherDropped + 1 }
  else { s with ring := s.ring ++ [rec] }

/-! ### The drain -/

/-- After `drain_one` has returned without a full ring. -/
def afterOne (i : Fin k) : Queue → Bool → Bool → DrainPc k
  | .rx, _, result => .one i .tx result .checking
  | .tx, progressed, result => .turning i (result || progressed)

variable [∀ q, NeZero (depth q)]

/-- A step of `pop`. -/
def popStep (s : Logger k depth) (i : Fin k) (q : Queue) (progressed : Bool) : Logger k depth :=
  let t := s.taps i
  let Q := t.queue q
  match Q.ring.consumer with
  | .idle => s.setTap i (t.setQueue q (Q.act .pop))
  | .loadedHead head =>
    { s.setTap i (t.setQueue q (Q.act .consumer)) with
      drain := if head = Q.ring.ring.tail then afterOne i q progressed false else s.drain }
  | .notEmpty _ => s.setTap i (t.setQueue q (Q.act .consumer))
  | .copied out _ =>
    { s.setTap i (t.setQueue q (Q.act .consumer)) with
      drain := .one i q progressed (.popped out) }

/-- `push_record` has decided, and its caller counts. -/
def handOver (s : Logger k depth) (i : Fin k) (q : Queue) (progressed : Bool) (tap : TapRecord)
    (verdict : Verdict) : Logger k depth :=
  let s : Logger k depth := { s with handed := s.handed ++ [⟨i, q, tap, verdict⟩] }
  let t := s.taps i
  match verdict with
  | .accepted =>
    { s.setTap i { t with recordRingAccepted := t.recordRingAccepted + 1 } with
      drain := afterOne i q progressed true }
  | .dropped => { s with droppedRecords := s.droppedRecords + 1, drain := .polling }
  | .cardDropped => { s with cardDropped := s.cardDropped + 1, drain := .polling }

/-- `drain_one`. -/
def drainOne (s : Logger k depth) (i : Fin k) (q : Queue) (progressed : Bool) :
    Stage → Logger k depth
  | .checking =>
    { s with
      drain :=
        if ((s.taps i).queue q).armed && s.mounted then .one i q progressed .popping
        else afterOne i q progressed false }
  | .popping => s.popStep i q progressed
  | .popped tap =>
    let t := s.taps i
    { s.setTap i { t with drained := t.drained + 1 } with
      drain := .one i q progressed (.pushing tap) }
  | .pushing tap =>
    { s with
      drain := .one i q progressed
        (if s.mounted then .entering tap else .counting tap .cardDropped) }
  | .entering tap =>
    if s.full then { s with drain := .one i q progressed (.counting tap .dropped) }
    else
      { s with
        ring := s.ring ++ [tapToLogRecord tap (s.taps i).source]
        drain := .one i q progressed (.counting tap .accepted) }
  | .counting tap verdict => s.handOver i q progressed tap verdict

/-- `tap_drain_loop_`. -/
def drainStep (s : Logger k depth) : Logger k depth :=
  match s.drain with
  | .polling => { s with drain := if s.dying then .gone else .gate }
  | .gate => { s with drain := if s.mounted then .port 0 else .polling }
  | .port i =>
    { s with
      drain :=
        if h : i < k then
          if ((s.taps ⟨i, h⟩).queue .rx).armed || ((s.taps ⟨i, h⟩).queue .tx).armed then
            .turning ⟨i, h⟩ true
          else .port (i + 1)
        else .polling }
  | .turning i progressed =>
    { s with
      drain := if s.mounted && progressed then .one i .rx false .checking else .port (i + 1) }
  | .one i q progressed stage => s.drainOne i q progressed stage
  | .gone => s

/-! ### The writer -/

/-- A load of `size()` in `emergency_close_`. -/
def load (s : Logger k depth) (q : Queue) (e : End) : Logger k depth :=
  match s.writer with
  | .closing i loads =>
    if h : i < k then
      let t := s.taps ⟨i, h⟩
      let Q := t.queue q
      let l := loads q
      match Q.armed, e with
      | true, .tail =>
        if l.tail.isSome then s
        else
          { s.setTap ⟨i, h⟩ (t.setQueue q { Q with snapped := Q.ring.accepted.length }) with
            writer :=
              .closing i (Function.update loads q { l with tail := some Q.ring.ring.tail }) }
      | true, .head =>
        if l.head.isSome then s
        else
          { s with
            writer :=
              .closing i (Function.update loads q { l with head := some Q.ring.ring.head }) }
      | false, _ => s
    else s
  | _ => s

/-- Both loads have been made, of a ring that there is. -/
def loaded (t : Tap depth) (loads : Queue → Loads) (q : Queue) : Bool :=
  !(t.queue q).armed || ((loads q).tail.isSome && (loads q).head.isSome)

/-- `shutdown_lost.fetch_add`, and the next tap. -/
def state (s : Logger k depth) : Logger k depth :=
  match s.writer with
  | .closing i loads =>
    if h : i < k then
      let t := s.taps ⟨i, h⟩
      if loaded t loads .rx && loaded t loads .tx then
        { s.setTap ⟨i, h⟩
            { t with
              shutdownLost := t.shutdownLost + ((loads .rx).size + (loads .tx).size)
              stated := true } with
          writer := .closing (i + 1) fun _ => {} }
      else s
    else { s with writer := .finishing }
  | _ => s

/-- The writer is in its loop, or drains in `emergency_close_`. -/
def pops (s : Logger k depth) : Bool :=
  match s.writer with
  | .running | .finishing => true
  | _ => false

/-- The writer may also not pop, be it that it has no file or that it is busy. -/
def popRecord (s : Logger k depth) : Logger k depth :=
  match s.pops, s.ring with
  | true, rec :: ring => { s with ring := ring, taken := s.taken ++ [rec] }
  | _, _ => s

/-- What else the writer and `confine_format` do. A card is mounted by `try_recover_` and lost in
`enter_failed_`. -/
def turn (s : Logger k depth) : Event k → Logger k depth
  | .mount =>
    match s.writer with
    | .running => { s with mounted := true }
    | _ => s
  | .unmount =>
    match s.writer with
    | .running => { s with mounted := false }
    | _ => s
  | .emergencyClose =>
    match s.writer with
    | .running =>
      if s.dying then { s with mounted := false, writer := .closing 0 fun _ => {} } else s
    | _ => s
  | .finish =>
    match s.writer with
    | .finishing => { s with writer := .closed }
    | _ => s
  | .confineStop =>
    match s.writer with
    | .running => { s with mounted := false, writer := .stopped }
    | _ => s
  | .confineFormat created =>
    match s.writer with
    | .stopped | .closed =>
      { s with mounted := true, writer := if created then .running else .stopped }
    | _ => s
  | _ => s

/-- The logger behind an event. -/
def step (s : Logger k depth) : Event k → Logger k depth
  | .receive i record =>
    let t := s.taps i
    s.setTap i (t.setQueue .rx ((t.queue .rx).capture record))
  | .txDone i e =>
    let t := s.taps i
    if e.isTxSuccess then
      s.setTap i (t.setQueue .tx ((t.queue .tx).capture (e.record t.index)))
    else s
  | .interrupt i q => s.setTap i ((s.taps i).interruptStep q)
  | .drain => s.drainStep
  | .logFrame saw rec => s.logFrame saw rec
  | .popRecord => s.popRecord
  | .requestClose => { s with dying := true }
  | .load q e => s.load q e
  | .state => s.state
  | e => s.turn e

end Logger

/-! ## Runs -/

/-- What the build fixes: the taps, each with its rings, and the depth of the ring of the writer. -/
structure Setup (k : Nat) where
  index : Fin k → UInt8
  source : Fin k → UInt8
  armed : Fin k → Queue → Bool
  bufferDepth : Nat := 2048

namespace Setup

/-- After `setup`, with a card or without one, and with a writer unless the task could not be
created. -/
def start (c : Setup k) (mounted created : Bool) : Logger k depth where
  taps i :=
    { index := c.index i
      source := c.source i
      queue := fun q => { armed := c.armed i q } }
  mounted := mounted
  bufferDepth := c.bufferDepth
  writer := if created then .running else .stopped

end Setup

/-! ## Where a frame is -/

/-- The stage of `drain_one` for a ring, if it is there. -/
def DrainPc.stage : DrainPc k → Fin k → Queue → Option Stage
  | .one j p _ stage, i, q => if j = i ∧ p = q then some stage else none
  | _, _, _ => none

/-- The frame that an interrupt holds: it is not in the ring, and not counted as refused. -/
def Interrupt.holds : Interrupt → List TapRecord
  | .pushing record | .pushed record false => [record]
  | _ => []

/-- The frame that `drain_one` has popped and `push_record` has not settled. -/
def Stage.holds : Option Stage → List TapRecord
  | some (.popped tap) | some (.pushing tap) | some (.entering tap) | some (.counting tap _) => [tap]
  | _ => []

/-- The frame among them that `drained` has not counted. -/
def Stage.uncounted : Option Stage → List TapRecord
  | some (.popped tap) => [tap]
  | _ => []

/-- The tap whose rings the writer reads in `emergency_close_`. -/
def Writer.tap : Writer → Option Nat
  | .closing i _ => some i
  | _ => none

def Writer.isClosed : Writer → Bool
  | .closed => true
  | _ => false

namespace Logger

variable (s : Logger k depth) (i : Fin k) (q : Queue)

def inHand : List TapRecord := Stage.holds (s.drain.stage i q)

/-- The frames of a ring that `push_record` has settled. -/
def settled : List TapRecord :=
  (s.handed.filter fun h => h.tap = i ∧ h.queue = q).map (·.record)

/-- Those among them with the given verdict. -/
def settledAs (v : Verdict) : List TapRecord :=
  (s.handed.filter fun h => (h.tap = i ∧ h.queue = q) ∧ h.verdict = v).map (·.record)

/-- The frames of any tap with the given verdict. -/
def allSettledAs (v : Verdict) : List (Handed k) := s.handed.filter fun h => h.verdict = v

/-- What went into the ring before `emergency_close_` loaded its `tail_` and has not been
popped. -/
def left : List TapRecord :=
  let Q := (s.taps i).queue q
  (Q.ring.accepted.take Q.snapped).drop Q.ring.popped.length

def uncounted : List TapRecord := Stage.uncounted (s.drain.stage i q)

/-- Each frame that was captured is in one place, the counters say how many are where, and what
`shutdown_lost` counts is what was left in the rings and has not been popped. -/
structure Accounted [∀ q, NeZero (depth q)] : Prop where
  placed : ∀ q, ((s.taps i).queue q).captured.Perm
    (((s.taps i).queue q).refused ++ ((s.taps i).queue q).interrupt.holds ++
      ((s.taps i).queue q).ring.ring.unread ++ s.inHand i q ++
      (s.settledAs i q .accepted ++ s.settledAs i q .dropped ++ s.settledAs i q .cardDropped))
  refused : (s.taps i).logTapDropped = UInt32.ofNat
    (((s.taps i).queue .rx).refused.length + ((s.taps i).queue .tx).refused.length)
  drained : (s.taps i).drained +
      UInt32.ofNat ((s.uncounted i .rx).length + (s.uncounted i .tx).length) =
    UInt32.ofNat
      (((s.taps i).queue .rx).ring.popped.length + ((s.taps i).queue .tx).ring.popped.length)
  accepted : (s.taps i).recordRingAccepted = UInt32.ofNat
    ((s.settledAs i .rx .accepted).length + (s.settledAs i .tx .accepted).length)
  recorded : ∀ q, ((s.settledAs i q .accepted).map
    fun tap => tapToLogRecord tap (s.taps i).source).Sublist (s.taken ++ s.ring)
  dropped : s.droppedRecords = UInt32.ofNat ((s.allSettledAs .dropped).length + s.otherDropped)
  cardDropped : s.cardDropped =
    UInt32.ofNat ((s.allSettledAs .cardDropped).length + s.otherCardDropped)
  snapped : (s.taps i).stated → ∀ q,
    ((s.taps i).queue q).ring.accepted.take ((s.taps i).queue q).snapped =
      ((s.taps i).queue q).ring.popped ++ s.left i q
  shutdownLost : (s.taps i).shutdownLost = UInt32.ofNat
    (if (s.taps i).stated then (s.left i .rx).length + (s.left i .tx).length else 0)

/-- `emergency_close_` loads no counter of a ring that the drain is popping, with `mounted_` checked
before; and no card is mounted after it. -/
def Meets : Event k → Prop
  | .load q _ => ∀ i : Fin k, s.writer.tap = some i.val → s.drain.stage i q ≠ some .popping
  | .confineFormat _ => s.writer.isClosed = false
  | _ => True

end Logger

end EspCars.SdLogger.TapDrain
