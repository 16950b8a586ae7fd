import EspCars.CanGateway.RxTaps
import EspCars.CanGateway.SubscribedSet

/-!
# A port and its subscribers

The observation half of `GatewayPort` in `components/can_gateway/can_gateway.cpp`: `subscribe` and
`subscribe_all`, `build_observation_` and the filter offload of `start_`, the ring behind
`observe_frame_`, and `drain_observations_` with `dispatch_record`. The receive interrupt runs to
completion and is one event; the drain can be interrupted between any two of its loads and stores,
so each of its steps is an event of its own.

A subscriber is known by its place in the registry: a call is that number and the view it is given.
The code keeps no account of `arrived`, `dispatched` and `passStart`.
-/

namespace EspCars.CanGateway

open EspCars.Lib

/-! ## Subscribers -/

/-- `FrameSubscriber` without the callback. -/
structure FrameSubscriber where
  canId : UInt32 := 0
  extended : Bool := false
  all : Bool := false
  deriving DecidableEq

def FrameSubscriber.matches (sub : FrameSubscriber) (id : UInt32) (ext : Bool) : Bool :=
  sub.all || (sub.canId = id && sub.extended = ext)

/-- `FrameView`: what a subscriber is shown. -/
structure FrameView where
  canId : UInt32
  data : Bytes8
  dlc : UInt8
  extended : Bool
  rtr : Bool
  deriving DecidableEq

def FrameRecord.view (record : FrameRecord) : FrameView where
  canId := record.canId
  data := record.data
  dlc := record.dlc
  extended := record.extended
  rtr := record.rtr

/-- The loop of `dispatch_record` from the subscriber `i` on. -/
def dispatchFrom (record : FrameRecord) : Nat → List FrameSubscriber → List (Nat × FrameView)
  | _, [] => []
  | i, sub :: subs =>
    (if sub.matches record.canId record.extended then [(i, record.view)] else []) ++
      dispatchFrom record (i + 1) subs

/-- `dispatch_record`; the caller passes the number of subscribers in sixteen bits. -/
def dispatchRecord (subs : List FrameSubscriber) (count : UInt16) (record : FrameRecord) :
    List (Nat × FrameView) :=
  dispatchFrom record 0 (subs.take count.toNat)

/-! ## Setup -/

/-- A call at setup that asks for frames. -/
inductive Registration
  | subscribe (canId : UInt32) (extended : Bool)
  | subscribeAll
  deriving DecidableEq

/-- What `subscribe` and `subscribe_all` fill. -/
structure Registry where
  subscribers : List FrameSubscriber := []
  observed : Bool := false
  observeAll : Bool := false
  deriving DecidableEq

/-- `subscribe`, `subscribe_all` -/
def Registry.register (r : Registry) : Registration → Registry
  | .subscribe canId extended =>
    { r with
      subscribers := r.subscribers ++ [{ canId := canId, extended := extended }]
      observed := true }
  | .subscribeAll =>
    { subscribers := r.subscribers ++ [{ all := true }], observed := true, observeAll := true }

def registry (calls : List Registration) : Registry := calls.foldl Registry.register {}

/-- The IDs that `build_observation_` inserts. -/
def Registry.ids (r : Registry) : List (UInt32 × Bool) :=
  (r.subscribers.filter fun sub => !sub.all).map fun sub => (sub.canId, sub.extended)

/-- `twai_mask_filter_config_t`. -/
structure MaskFilter where
  id : UInt32
  mask : UInt32
  isExt : Bool
  deriving DecidableEq

/-- `try_hw_filter_offload_`: the filter of the controller, should it be engaged. `accepted` is the
answer of `twai_node_config_mask_filter`. -/
def tryHwFilterOffload (c : RxConsumers) (route : Option RouteTable) (observed accepted : Bool) :
    Option MaskFilter :=
  if c.stats || c.snapshot then none
  else
    match route with
    | none => none
    | some table =>
      match table.rules with
      | [rule] =>
        if !table.defaultDrop || observed then none
        else if rule.flags.drop || rule.flags.checkRtr then none
        else if accepted then some ⟨rule.matchId, rule.matchMask, rule.flags.extended⟩
        else none
      | _ => none

/-! ## The port -/

/-- Where the drain is: outside, in the condition of its loop, or about to dispatch a record. -/
inductive DrainPc
  | idle
  | popping (drained : UInt8)
  | dispatching (drained : UInt8) (record : FrameRecord)
  deriving DecidableEq

/-- `n` is the depth of the ring. Every received frame is in `arrived`, with whether
`observe_overflow` has counted it; `passStart` records had been dispatched when the last pass of
the drain began. -/
structure ObservingPort (cfg : PortConfig) (τ : Type) (n : Nat) where
  rx : RxPort cfg τ
  subscribers : List FrameSubscriber
  maxFramesPerLoop : UInt8
  filter : Option MaskFilter
  ring : Observe.State FrameRecord n := Observe.init
  drain : DrainPc := .idle
  calls : List (Nat × FrameView) := []
  arrived : List (CanFrame × Bool) := []
  dispatched : List FrameRecord := []
  passStart : Nat := 0

/-- What happens: a frame on the wire, a change of the route's destination by another context, or
the next step of the drain. -/
inductive PortHappening (cfg : PortConfig) (τ : Type)
  | rx (e : RxEvent)
  | destination (p : Port cfg τ)
  | drain

/-- What the port is set up with beside its subscribers. `markedObserved` is whether anything but
the port's own observation has called `mark_observed` on the route. -/
structure PortSetup (cfg : PortConfig) (τ : Type) where
  index : UInt8 := 0
  consumers : RxConsumers := {}
  route : Option (Port cfg τ) := none
  maxFramesPerLoop : UInt8
  markedObserved : Bool := false
  filterAccepted : Bool := true

namespace ObservingPort

variable {cfg : PortConfig} {τ : Type} {n : Nat}

/-- `start_`, with `maxIds` for `CAN_GATEWAY_MAX_OBSERVE_IDS`. -/
def start (setup : PortSetup cfg τ) (maxIds : Nat) (r : Registry) : ObservingPort cfg τ n where
  rx :=
    { index := setup.index
      consumers :=
        { setup.consumers with
          observe := r.observed
          observeAll := r.observeAll
          contains := (SubscribedSet.insertAll r.ids : SubscribedSet maxIds).contains }
      route := setup.route }
  subscribers := r.subscribers
  maxFramesPerLoop := setup.maxFramesPerLoop
  filter := tryHwFilterOffload setup.consumers (setup.route.map fun _ => cfg.table)
    (r.observed || setup.consumers.logTap || setup.markedObserved) setup.filterAccepted

variable [NeZero n]

/-! ## Receiving -/

/-- The controller keeps the frame to itself. -/
def rejected (passes : MaskFilter → RxFrame → Bool) (s : ObservingPort cfg τ n) (e : RxEvent) :
    Bool :=
  match s.filter, e.received with
  | some filter, some f => !passes filter f
  | _, _ => false

/-- The interrupt, with the answer of the ring. -/
def interrupted (s : ObservingPort cfg τ n) (e : RxEvent) : RxPort cfg τ :=
  s.rx.handleRxIsr
    { e with observeRoom := !decide (Observe.full n s.ring.ring.tail s.ring.ring.head) }

/-- What the interrupt has offered to `observe_ring_` is pushed. -/
def handleRxIsr (s : ObservingPort cfg τ n) (e : RxEvent) : ObservingPort cfg τ n :=
  let rx := s.interrupted e
  let offered := rx.seen.observations.drop s.rx.seen.observations.length
  { s with
    rx := rx
    ring := exec Observe.step s.ring (offered.flatMap Observe.pushCall)
    arrived := s.arrived ++ (e.received.toList.map fun f =>
      (f.toCanFrame, decide (rx.seen.observeOverflow ≠ s.rx.seen.observeOverflow))) }

/-- A frame on the wire. -/
def receive (passes : MaskFilter → RxFrame → Bool) (s : ObservingPort cfg τ n) (e : RxEvent) :
    ObservingPort cfg τ n :=
  if s.rejected passes e then
    { s with arrived := s.arrived ++ e.received.toList.map fun f => (f.toCanFrame, false) }
  else s.handleRxIsr e

/-! ## Draining -/

/-- The condition of the loop: a step of `pop`, if the limit of the pass allows one. -/
def popStep (s : ObservingPort cfg τ n) (drained : UInt8) : ObservingPort cfg τ n :=
  match s.ring.consumer with
  | .idle =>
    if drained < s.maxFramesPerLoop then { s with ring := Observe.step s.ring .pop }
    else { s with drain := .idle }
  | .loadedHead head =>
    let s := { s with ring := Observe.step s.ring .consumer }
    if head = s.ring.ring.tail then { s with drain := .idle } else s
  | .notEmpty _ => { s with ring := Observe.step s.ring .consumer }
  | .copied out _ =>
    { s with ring := Observe.step s.ring .consumer, drain := .dispatching drained out }

/-- `drain_observations_`. -/
def drainStep (s : ObservingPort cfg τ n) : ObservingPort cfg τ n :=
  match s.drain with
  | .idle =>
    if s.rx.consumers.observe then
      { s with drain := .popping 0, passStart := s.dispatched.length }
    else s
  | .popping drained => s.popStep drained
  | .dispatching drained record =>
    { s with
      drain := .popping (drained + 1)
      calls := s.calls ++
        dispatchRecord s.subscribers (UInt16.ofNat s.subscribers.length) record
      dispatched := s.dispatched ++ [record] }

/-- `passes` is what the filter of the controller lets through. -/
def step (passes : MaskFilter → RxFrame → Bool) (s : ObservingPort cfg τ n) :
    PortHappening cfg τ → ObservingPort cfg τ n
  | .rx e => s.receive passes e
  | .destination p => { s with rx := { s.rx with route := s.rx.route.map fun _ => p } }
  | .drain => s.drainStep

/-! ## What the subscribers are promised -/

/-- The record that the pass has taken out of the ring and not yet dispatched. -/
def inHand (s : ObservingPort cfg τ n) : List FrameRecord :=
  match s.drain with
  | .dispatching _ record => [record]
  | _ => []

/-- What has not reached a subscriber yet: the record in hand, then those in the ring. -/
def waiting (s : ObservingPort cfg τ n) : List FrameRecord := s.inHand ++ s.ring.ring.unread

/-- The received frames that `observe_overflow` has not counted. -/
def kept (s : ObservingPort cfg τ n) : List CanFrame :=
  (s.arrived.filter fun a => !a.2).map (·.1)

/-- What the subscriber `i` has been called with. -/
def toldTo (s : ObservingPort cfg τ n) (i : Nat) : List FrameView :=
  (s.calls.filter fun call => call.1 = i).map (·.2)

end ObservingPort

/-- A frame as its subscribers get to see it. -/
def CanFrame.view (f : CanFrame) : FrameView := (RxPort.frameRecord f).view

/-- The subscriber wants the frame. -/
def FrameSubscriber.wants (sub : FrameSubscriber) (view : FrameView) : Bool :=
  sub.matches view.canId view.extended

/-- The calls for one frame: its subscribers, in the order of their registration. -/
def callsFor (subs : List FrameSubscriber) (view : FrameView) : List (Nat × FrameView) :=
  (subs.zipIdx.filter fun sub => sub.1.wants view).map fun sub => (sub.2, view)

namespace ObservingPort

variable {cfg : PortConfig} {τ : Type} {n : Nat} [NeZero n]

/-- Every subscriber has been told once, in the order of arrival, of each frame that it wants, but
for those counted in `observe_overflow` and those that still wait; nothing else has been called, the
subscribers of one frame in their order; and the counters say so. -/
structure EndToEnd (s : ObservingPort cfg τ n) : Prop where
  told : ∀ i sub, s.subscribers[i]? = some sub →
    s.toldTo i ++ (s.waiting.map FrameRecord.view).filter sub.wants =
      (s.kept.map CanFrame.view).filter sub.wants
  ordered : s.calls = s.dispatched.flatMap fun record => callsFor s.subscribers record.view
  received : (s.dispatched ++ s.waiting).Sublist (s.kept.map RxPort.frameRecord)
  bounded : s.dispatched.length ≤ s.passStart + s.maxFramesPerLoop.toNat
  observed : s.rx.seen.observed = UInt32.ofNat (s.dispatched.length + s.waiting.length)
  overflow : s.rx.seen.observeOverflow = UInt32.ofNat (s.arrived.filter (·.2)).length
  inLoop : ∀ passes e, (s.receive passes e).calls = s.calls

end ObservingPort

end EspCars.CanGateway
