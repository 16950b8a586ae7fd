import EspCars.CanGateway.Rules
import EspCars.CanGateway.Slots
import EspCars.Lib.Run
import Mathlib

/-!
# A route and its destination port

`GatewayPort` of `components/can_gateway/can_gateway.cpp` as the destination of one route, with the
driver node under it. The three interrupts run to completion and are one event each; `inject` and
`loop_` can be interrupted anywhere outside their critical sections, so each of their steps is an
event of its own. The driver is what the comment at `OutstandingTracker` says it is: one mounted
frame and a queue, served oldest first; entering bus-off halts the mounted frame for good, the
queue is kept and replayed.

A frame in a slot is known by its slot: what the frames contain decides nothing here beyond what
`processFrame` says of a received one.
-/

namespace EspCars.CanGateway

open EspCars.Lib

/-! ## What `loop_` keeps between passes -/

/-- `twai_error_state_t`. -/
inductive NodeState
  | active | warning | passive | busOff
  deriving DecidableEq, Repr

/-- The members of the port that pace its recoveries. -/
structure RecoveryBackoff where
  delayMs : UInt32 := 100
  dueAtMs : UInt32 := 0
  stableSinceMs : UInt32 := 0
  pending : Bool := false
  stableSinceValid : Bool := false
  deriving DecidableEq

namespace RecoveryBackoff

def maxDelayMs : UInt32 := 3200

def initialDelayMs : UInt32 := 100

def stableResetMs : UInt32 := 10000

def onBusOff (b : RecoveryBackoff) (nowMs : UInt32) : RecoveryBackoff :=
  { b with pending := true, stableSinceValid := false, dueAtMs := nowMs + b.delayMs }

/-- The cast to `int32_t` makes the difference negative from `2^31` on. -/
def shouldAttempt (b : RecoveryBackoff) (nowMs : UInt32) : Bool × RecoveryBackoff :=
  if !b.pending ∨ (nowMs - b.dueAtMs) ≥ 0x80000000 then (false, b)
  else
    let next := b.delayMs * 2
    (true, { b with
      pending := false
      delayMs := if next > maxDelayMs then maxDelayMs else next })

/-- The node is active again. -/
def onRecovered (b : RecoveryBackoff) (nowMs : UInt32) : RecoveryBackoff :=
  { b with pending := false, stableSinceMs := nowMs, stableSinceValid := true }

def onStableTick (b : RecoveryBackoff) (nowMs : UInt32) : RecoveryBackoff :=
  if b.stableSinceValid ∧ nowMs - b.stableSinceMs ≥ stableResetMs then
    { b with delayMs := initialDelayMs, stableSinceValid := false }
  else b

end RecoveryBackoff

/-- The two automations of a port. -/
inductive Callback
  | busOff | recovered
  deriving DecidableEq, Repr

/-- The fields that only `loop_` touches, the callbacks it has called and what it has published to
the bus-off sensor, if there is one. -/
structure Supervisor where
  lastLoopState : NodeState := .active
  busOffHeadReclaimed : Bool := true
  backoff : RecoveryBackoff := {}
  recoveries : UInt32 := 0
  callbacks : List Callback := []
  busOffSensor : Option Bool := none
  deriving DecidableEq

/-- The first part of `loop_`: the edge between the last sample and this one. -/
def Supervisor.edge (v : Supervisor) (state : NodeState) (nowMs : UInt32) : Supervisor :=
  if state ≠ v.lastLoopState then
    let wasBusOff := v.lastLoopState = .busOff
    let v := { v with lastLoopState := state }
    if state = .busOff then
      { v with
        busOffHeadReclaimed := false
        backoff := v.backoff.onBusOff nowMs
        callbacks := v.callbacks ++ [.busOff]
        busOffSensor := some true }
    else if wasBusOff ∧ state = .active then
      { v with
        recoveries := v.recoveries + 1
        backoff := v.backoff.onRecovered nowMs
        callbacks := v.callbacks ++ [.recovered]
        busOffSensor := some false }
    else v
  else v

/-! ## The driver node -/

/-- A `TxSlot *`: a slot of the route's pool or of the port's inject pool. -/
inductive SlotRef
  | forward (index : Nat)
  | inject (index : Nat)
  deriving DecidableEq, Repr

/-- The frames that the TWAI driver has taken. -/
structure Driver where
  mounted : Option SlotRef := none
  queue : List SlotRef := []
  deriving DecidableEq

namespace Driver

/-- Every frame the driver will still complete, oldest first. -/
def held (d : Driver) : List SlotRef := d.mounted.toList ++ d.queue

/-- The oldest queued frame goes to the hardware. -/
def mountNext (d : Driver) : Driver := { mounted := d.queue.head?, queue := d.queue.tail }

/-- An accepted `twai_node_transmit`. -/
def submit (d : Driver) (slot : SlotRef) : Driver :=
  match d.mounted with
  | none => { d with mounted := some slot }
  | some _ => { d with queue := d.queue ++ [slot] }

/-- The mounted frame is halted when bus-off is entered; the queue is replayed when it is left. -/
def changeState (d : Driver) (old new : NodeState) : Driver :=
  if old ≠ .busOff ∧ new = .busOff then { d with mounted := none }
  else if old = .busOff ∧ new ≠ .busOff then d.mountNext
  else d

end Driver

/-! ## The port -/

/-- What codegen sets on a port. -/
structure PortConfig where
  txSlots : Nat
  injectSlots : Nat
  txSlots_pos : 0 < txSlots
  injectSlots_pos : 0 < injectSlots
  txQueueDepth : Nat
  txQueueDepth_pos : 0 < txQueueDepth
  /-- `node_ != nullptr && !listen_only_`. -/
  canTransmit : Bool
  table : RouteTable

/-- What `to_code` generates for `tx_queue_depth: 1` and a route without rules. -/
def minimalConfig : PortConfig where
  txSlots := 3
  injectSlots := 4
  txSlots_pos := by decide
  injectSlots_pos := by decide
  txQueueDepth := 1
  txQueueDepth_pos := by decide
  canTransmit := true
  table := {}

/-- The counters of a `Route`. -/
structure RouteCounters where
  forwarded : UInt32 := 0
  filtered : UInt32 := 0
  txFull : UInt32 := 0
  busOff : UInt32 := 0
  disabled : UInt32 := 0
  deriving DecidableEq

/-- The counters of the port beside those of its routes. -/
structure PortCounters where
  injected : UInt32 := 0
  txFail : UInt32 := 0
  deriving DecidableEq

/-- Where an `inject()` call is: looking at slot `index`, filling the slot it has claimed, or
giving back a slot whose hand-off failed. -/
inductive InjectPc
  | idle
  | scanning (index : Nat)
  | claimed (index : Nat)
  | refused (index : Nat)
  deriving DecidableEq

/-- Where the pass of `loop_` is: between passes, or behind its sample or its reclaim section
with the sampled state and the time it was called with. -/
inductive LoopPc
  | idle
  | sampled (state : NodeState) (nowMs : UInt32)
  | reclaimed (state : NodeState) (nowMs : UInt32)
  deriving DecidableEq

/-- `τ` names the contexts that call `inject`. `freedTwice` counts the releases of a slot that was
free already. -/
structure Port (cfg : PortConfig) (τ : Type) where
  state : NodeState := .active
  pool : SlotPool cfg.txSlots := .init _
  injectPool : SlotPool cfg.injectSlots := .init _
  outstanding : OutstandingTracker SlotRef (cfg.txSlots + cfg.injectSlots) :=
    .empty (.forward 0) (Nat.lt_of_lt_of_le cfg.txSlots_pos (Nat.le_add_right _ _))
  driver : Driver := {}
  supervisor : Supervisor := {}
  loopPc : LoopPc := .idle
  injectPc : τ → InjectPc := fun _ => .idle
  route : RouteCounters := {}
  counters : PortCounters := {}
  recoverCalls : Nat := 0
  freedTwice : Nat := 0

/-- `received` is the frame that `twai_node_receive_from_isr` retrieves, `transmitOk` the answer of
`twai_node_transmit` if it is called. -/
inductive PortEvent (τ : Type)
  | rx (enabled : Bool) (received : Option CanFrame) (transmitOk : Bool)
  | txDone (success : Bool)
  | stateChange (new : NodeState)
  | inject (task : τ) (transmitOk : Bool)
  | loop (nowMs : UInt32)

namespace Port

variable {cfg : PortConfig} {τ : Type}

/-- `release_slot`. -/
def releaseSlot (p : Port cfg τ) : SlotRef → Port cfg τ
  | .forward i =>
    { p with
      pool := p.pool.release i
      freedTwice := if p.pool.isUsed i then p.freedTwice else p.freedTwice + 1 }
  | .inject i =>
    { p with
      injectPool := p.injectPool.release i
      freedTwice := if p.injectPool.isUsed i then p.freedTwice else p.freedTwice + 1 }

/-- `reclaim_orphan_`. -/
def reclaimOrphan (p : Port cfg τ) (orphan : SlotRef) : Port cfg τ :=
  let p := p.releaseSlot orphan
  { p with counters := { p.counters with txFail := p.counters.txFail + 1 } }

/-- The hand-off of a slot to the driver and the tracker. -/
def handOff (p : Port cfg τ) (slot : SlotRef) : Port cfg τ :=
  { p with driver := p.driver.submit slot, outstanding := p.outstanding.push slot }

/-- `handle_rx_isr` of the source port, seen from the destination. -/
def handleRxIsr (p : Port cfg τ) (enabled : Bool) (received : Option CanFrame)
    (transmitOk : Bool) : Port cfg τ :=
  if !enabled then { p with route := { p.route with disabled := p.route.disabled + 1 } }
  else if p.state = .busOff then { p with route := { p.route with busOff := p.route.busOff + 1 } }
  else
    match p.pool.acquire with
    | (none, _) => { p with route := { p.route with txFull := p.route.txFull + 1 } }
    | (some i, pool) =>
      let p := { p with pool := pool }
      match received with
      | none => p.releaseSlot (.forward i)
      | some frame =>
        match processFrame cfg.table frame with
        | (.dropFiltered, _) =>
          let p := p.releaseSlot (.forward i)
          { p with route := { p.route with filtered := p.route.filtered + 1 } }
        | (.forward, _) =>
          if p.outstanding.size < cfg.txQueueDepth ∧ transmitOk then
            let p := p.handOff (.forward i)
            { p with route := { p.route with forwarded := p.route.forwarded + 1 } }
          else
            let p := p.releaseSlot (.forward i)
            { p with route := { p.route with txFull := p.route.txFull + 1 } }

/-- `handle_tx_done_isr`. A driver without a mounted frame, bus-off included, raises none. -/
def handleTxDoneIsr (p : Port cfg τ) (success : Bool) : Port cfg τ :=
  match p.driver.mounted with
  | none => p
  | some slot =>
    let p := { p with driver := p.driver.mountNext }
    let p := if success then p
      else { p with counters := { p.counters with txFail := p.counters.txFail + 1 } }
    let trackedBefore := p.outstanding.size
    let (orphans, outstanding) := p.outstanding.complete slot
    let p := orphans.foldl reclaimOrphan { p with outstanding := outstanding }
    if outstanding.size ≠ trackedBefore then p.releaseSlot slot else p

/-- `handle_state_change_isr`. -/
def handleStateChangeIsr (p : Port cfg τ) (new : NodeState) : Port cfg τ :=
  { p with state := new, driver := p.driver.changeState p.state new }

/-- One step of `inject`. Claiming a slot is one exchange: what the load before it saw decides
nothing. -/
def injectStep [DecidableEq τ] (p : Port cfg τ) (task : τ) (transmitOk : Bool) : Port cfg τ :=
  let goto (pc : InjectPc) := Function.update p.injectPc task pc
  match p.injectPc task with
  | .idle =>
    if !cfg.canTransmit ∨ p.state = .busOff then p else { p with injectPc := goto (.scanning 0) }
  | .scanning index =>
    if index < cfg.injectSlots then
      if p.injectPool.isUsed index then { p with injectPc := goto (.scanning (index + 1)) }
      else { p with injectPool := p.injectPool.claim index, injectPc := goto (.claimed index) }
    else { p with injectPc := goto .idle }
  | .claimed index =>
    -- the critical section
    if p.state ≠ .busOff ∧ p.outstanding.size < cfg.txQueueDepth ∧ transmitOk then
      let p := p.handOff (.inject index)
      { p with
        injectPc := goto .idle
        counters := { p.counters with injected := p.counters.injected + 1 } }
    else { p with injectPc := goto (.refused index) }
  | .refused index =>
    let p := p.releaseSlot (.inject index)
    { p with injectPc := goto .idle }

/-- The critical section of `loop_`. -/
def reclaimSection (p : Port cfg τ) : Port cfg τ :=
  let p := { p with supervisor := { p.supervisor with busOffHeadReclaimed := true } }
  if p.state = .busOff then
    match p.outstanding.reclaimHead with
    | (some orphan, outstanding) => { p with outstanding := outstanding }.reclaimOrphan orphan
    | (none, _) => p
  else p

/-- One step of `loop_`: sample and edge, reclaim section, recovery. -/
def loopStep (p : Port cfg τ) (nowMs : UInt32) : Port cfg τ :=
  match p.loopPc with
  | .idle =>
    { p with
      supervisor := p.supervisor.edge p.state nowMs
      loopPc := .sampled p.state nowMs }
  | .sampled state nowMs =>
    let p := if state = .busOff ∧ !p.supervisor.busOffHeadReclaimed then p.reclaimSection else p
    { p with loopPc := .reclaimed state nowMs }
  | .reclaimed state nowMs =>
    let p := { p with loopPc := .idle }
    if state = .busOff then
      match p.supervisor.backoff.shouldAttempt nowMs with
      | (true, backoff) =>
        { p with
          recoverCalls := p.recoverCalls + 1
          supervisor := { p.supervisor with backoff := backoff.onBusOff nowMs } }
      | (false, _) => p
    else if state = .active then
      { p with
        supervisor := { p.supervisor with backoff := p.supervisor.backoff.onStableTick nowMs } }
    else p

def step [DecidableEq τ] (p : Port cfg τ) : PortEvent τ → Port cfg τ
  | .rx enabled received transmitOk => p.handleRxIsr enabled received transmitOk
  | .txDone success => p.handleTxDoneIsr success
  | .stateChange new => p.handleStateChangeIsr new
  | .inject task transmitOk => p.injectStep task transmitOk
  | .loop nowMs => p.loopStep nowMs

/-! ## What an event leaves alone -/

/-- A release touches the pools and the release count alone. -/
structure SameLinks (p q : Port cfg τ) : Prop where
  outstanding : q.outstanding = p.outstanding
  driver : q.driver = p.driver
  state : q.state = p.state
  supervisor : q.supervisor = p.supervisor
  loopPc : q.loopPc = p.loopPc

variable (p : Port cfg τ)

theorem SameLinks.release (slot : SlotRef) : SameLinks p (p.releaseSlot slot) := by
  cases slot <;> exact ⟨rfl, rfl, rfl, rfl, rfl⟩

theorem SameLinks.reclaim (older : List SlotRef) : SameLinks p (older.foldl reclaimOrphan p) := by
  induction older generalizing p with
  | nil => exact ⟨rfl, rfl, rfl, rfl, rfl⟩
  | cons slot older ih =>
    have h := SameLinks.release p slot
    obtain ⟨h1, h2, h3, h4, h5⟩ := ih (p.reclaimOrphan slot)
    exact ⟨h1.trans h.outstanding, h2.trans h.driver, h3.trans h.state, h4.trans h.supervisor,
      h5.trans h.loopPc⟩

/-- What other contexts see of an interrupt for a received frame or of a step of `inject`: at most
one frame is submitted. -/
structure Submits (p q : Port cfg τ) : Prop where
  state : q.state = p.state
  supervisor : q.supervisor = p.supervisor
  driver : q.driver = p.driver ∨ ∃ slot, q.driver = p.driver.submit slot

theorem Submits.handleRxIsr (enabled : Bool) (received : Option CanFrame)
    (transmitOk : Bool) : Submits p (p.handleRxIsr enabled received transmitOk) := by
  unfold Port.handleRxIsr
  split_ifs with he hb
  · exact ⟨rfl, rfl, Or.inl rfl⟩
  · exact ⟨rfl, rfl, Or.inl rfl⟩
  · cases p.pool.acquire with
    | mk acquired pool =>
      cases acquired with
      | none => exact ⟨rfl, rfl, Or.inl rfl⟩
      | some i =>
        cases received with
        | none => exact ⟨rfl, rfl, Or.inl rfl⟩
        | some frame =>
          dsimp only
          split
          · exact ⟨rfl, rfl, Or.inl rfl⟩
          · split_ifs
            · exact ⟨rfl, rfl, Or.inr ⟨_, rfl⟩⟩
            · exact ⟨rfl, rfl, Or.inl rfl⟩

theorem Submits.injectStep [DecidableEq τ] (task : τ) (transmitOk : Bool) :
    Submits p (p.injectStep task transmitOk) := by
  unfold Port.injectStep
  cases p.injectPc task with
  | idle =>
    dsimp only
    split_ifs <;> exact ⟨rfl, rfl, Or.inl rfl⟩
  | scanning index =>
    dsimp only
    split_ifs <;> exact ⟨rfl, rfl, Or.inl rfl⟩
  | claimed index =>
    dsimp only
    split_ifs
    · exact ⟨rfl, rfl, Or.inr ⟨_, rfl⟩⟩
    · exact ⟨rfl, rfl, Or.inl rfl⟩
  | refused index => exact ⟨rfl, rfl, Or.inl rfl⟩

theorem handleTxDoneIsr_links (success : Bool) : (p.handleTxDoneIsr success).state = p.state ∧
      (p.handleTxDoneIsr success).supervisor = p.supervisor := by
  unfold Port.handleTxDoneIsr
  cases p.driver.mounted with
  | none => exact ⟨rfl, rfl⟩
  | some slot =>
    cases success <;> dsimp only <;> split_ifs <;>
      simp only [(SameLinks.release _ _).state, (SameLinks.reclaim _ _).state,
        (SameLinks.release _ _).supervisor, (SameLinks.reclaim _ _).supervisor, and_self]

theorem reclaimSection_links :
    p.reclaimSection.state = p.state ∧ p.reclaimSection.driver = p.driver ∧
      p.reclaimSection.supervisor = { p.supervisor with busOffHeadReclaimed := true } := by
  unfold Port.reclaimSection
  dsimp only
  split_ifs
  · split
    · rename_i orphan outstanding _
      cases orphan <;> exact ⟨rfl, rfl, rfl⟩
    · exact ⟨rfl, rfl, rfl⟩
  · exact ⟨rfl, rfl, rfl⟩

theorem loopStep_links (nowMs : UInt32) :
    (p.loopStep nowMs).state = p.state ∧ (p.loopStep nowMs).driver = p.driver := by
  unfold Port.loopStep
  cases p.loopPc with
  | idle => exact ⟨rfl, rfl⟩
  | sampled state now =>
    dsimp only
    split_ifs
    · exact ⟨p.reclaimSection_links.1, p.reclaimSection_links.2.1⟩
    · exact ⟨rfl, rfl⟩
  | reclaimed state now =>
    dsimp only
    split_ifs
    · split <;> exact ⟨rfl, rfl⟩
    · exact ⟨rfl, rfl⟩
    · exact ⟨rfl, rfl⟩

/-- Only a state change changes the state. -/
theorem state_step [DecidableEq τ] (e : PortEvent τ)
    (h : ∀ new, e ≠ .stateChange new) : (p.step e).state = p.state := by
  cases e with
  | rx enabled received transmitOk => exact (Submits.handleRxIsr p enabled received transmitOk).state
  | txDone success => exact (p.handleTxDoneIsr_links success).1
  | stateChange new => exact absurd rfl (h new)
  | inject task transmitOk => exact (Submits.injectStep p task transmitOk).state
  | loop nowMs => exact (p.loopStep_links nowMs).1

/-- Only `loop_` touches the supervisor. -/
theorem supervisor_step [DecidableEq τ] (e : PortEvent τ)
    (h : ∀ nowMs, e ≠ .loop nowMs) : (p.step e).supervisor = p.supervisor := by
  cases e with
  | rx enabled received transmitOk =>
    exact (Submits.handleRxIsr p enabled received transmitOk).supervisor
  | txDone success => exact (p.handleTxDoneIsr_links success).2
  | stateChange new => rfl
  | inject task transmitOk => exact (Submits.injectStep p task transmitOk).supervisor
  | loop nowMs => exact absurd rfl (h nowMs)

end Port

end EspCars.CanGateway
