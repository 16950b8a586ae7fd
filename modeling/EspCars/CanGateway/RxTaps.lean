import EspCars.CanGateway.Observe
import EspCars.CanGateway.Port

/-!
# What the receive interrupt tells its taps

`handle_rx_isr` of `components/can_gateway/can_gateway.cpp` on the port that receives, with
`run_rx_taps_` and the staging path of a frame that is not forwarded. The route out of the port
and its destination are a `Port`, and `route_handleRxIsr` says that the interrupt does to them
what `Port.handleRxIsr` does.

The route counts what became of each frame (`Disposition`). The record for the log is pushed
before the last gate, so a frame that this gate or the driver refuses is logged as forwarded:
`accountTruthful_iff` gives the interrupts whose account is right.
-/

namespace EspCars.CanGateway

open Observe

/-! ## Records -/

/-- A frame as `twai_node_receive_from_isr` leaves it: the DLC of the wire, up to 15. -/
structure RxFrame where
  id : UInt32 := 0
  ide : Bool := false
  rtr : Bool := false
  dlc : Nat := 0
  buffer : Bytes8 := .replicate maxFrameDataLen 0
  deriving DecidableEq

/-- The locals that both receive paths take from the header. -/
def RxFrame.toCanFrame (f : RxFrame) : CanFrame where
  canId := f.id
  extended := f.ide
  rtr := f.rtr
  dlc := if f.dlc > maxFrameDataLen then maxFrameDataLen else f.dlc
  data := f.buffer

/-- The first `dlc` payload bytes, in a record whose other bytes are zero. -/
def recordData (f : CanFrame) : Bytes8 := .ofFn fun i => if i < f.dlc then f.data.get i else 0

/-- `TAP_FLAG_EXTENDED`. -/
def tapFlagExtended : UInt8 := 0x01

/-- `TAP_FLAG_RTR`. -/
def tapFlagRtr : UInt8 := 0x02

/-- `TAP_FLAG_SHED`. -/
def tapFlagShed : UInt8 := 0x04

/-- `TapRecord` -/
structure TapRecord where
  tUs : UInt32 := 0
  canId : UInt32 := 0
  data : Bytes8 := .replicate maxFrameDataLen 0
  dlc : UInt8 := 0
  flags : UInt8 := 0
  source : UInt8 := 0
  deriving DecidableEq

/-- The frame as a tap copies it. -/
structure FrameSnapshot where
  canId : UInt32 := 0
  dlc : UInt8 := 0
  extended : Bool := false
  rtr : Bool := false
  data : Bytes8 := .replicate maxFrameDataLen 0
  deriving DecidableEq

/-- `estimate_frame_bits`. -/
def estimateFrameBits (extended rtr : Bool) (dlc : Nat) : UInt32 :=
  let overhead : UInt32 := if extended then 64 else 44
  let dataBits : UInt32 := if rtr then 0 else 8 * UInt32.ofNat dlc
  overhead + dataBits + 3

/-- The arguments of the direct hook. -/
structure HookCall where
  tUs : UInt32
  frame : CanFrame
  deriving DecidableEq

/-- The arguments of `IdTimingTable::record`. -/
structure TimingCall where
  canId : UInt32
  extended : Bool
  nowUs : UInt32
  deriving DecidableEq

/-! ## The receiving port -/

/-- Which consumers are built in and armed. `contains` is `subscribed_set_->contains`. -/
structure RxConsumers where
  hook : Bool := false
  stats : Bool := false
  idTiming : Bool := false
  snapshot : Bool := false
  observe : Bool := false
  observeAll : Bool := false
  contains : UInt32 → Bool → Bool := fun _ _ => false
  logTap : Bool := false

/-- What the consumers have been given so far, oldest first, and the counters beside them. -/
structure RxSeen where
  hookCalls : List HookCall := []
  rxBits : UInt32 := 0
  timings : List TimingCall := []
  snapshots : List FrameSnapshot := []
  observations : List FrameRecord := []
  observed : UInt32 := 0
  observeOverflow : UInt32 := 0
  tapRecords : List TapRecord := []
  tapAccepted : UInt32 := 0
  tapDropped : UInt32 := 0
  deriving DecidableEq

/-- `route` is `route_out_` with what lies behind it. -/
structure RxPort (cfg : PortConfig) (τ : Type) where
  index : UInt8 := 0
  consumers : RxConsumers := {}
  route : Option (Port cfg τ) := none
  seen : RxSeen := {}

/-- What one interrupt finds: the gateway switch, the frame that the driver gives if it is asked,
the driver's answer to a hand-off, the clock at its three readings and the room in the two
rings. -/
structure RxEvent where
  enabled : Bool := true
  received : Option RxFrame := none
  transmitOk : Bool := true
  hookUs : UInt32 := 0
  timingUs : UInt32 := 0
  tapUs : UInt32 := 0
  observeRoom : Bool := true
  tapRoom : Bool := true
  deriving DecidableEq

namespace RxConsumers

/-- `armed` of a port without a route. -/
def armed (c : RxConsumers) : Bool := c.observe || c.logTap || c.hook

/-- `rx_taps_active_`. -/
def active (c : RxConsumers) : Bool :=
  c.stats || c.snapshot || c.observe || c.logTap || c.hook

/-- The two early returns of `observe_frame_`. -/
def observes (c : RxConsumers) (f : CanFrame) : Bool :=
  c.observe && (c.observeAll || c.contains f.canId f.extended)

end RxConsumers

namespace RxPort

variable {cfg : PortConfig} {τ : Type}

/-! ## Taps -/

def frameRecord (f : CanFrame) : FrameRecord where
  canId := f.canId
  data := recordData f
  dlc := UInt8.ofNat f.dlc
  extended := f.extended
  rtr := f.rtr

def frameSnapshot (f : CanFrame) : FrameSnapshot where
  canId := f.canId
  dlc := UInt8.ofNat f.dlc
  extended := f.extended
  rtr := f.rtr
  data := recordData f

/-- The record that a tap gets. -/
def tapRecord (s : RxPort cfg τ) (e : RxEvent) (f : CanFrame) (shed : Bool) : TapRecord where
  tUs := e.tapUs
  canId := f.canId
  data := recordData f
  dlc := UInt8.ofNat f.dlc
  flags := (if f.extended then tapFlagExtended else 0) ||| (if f.rtr then tapFlagRtr else 0) |||
    (if shed then tapFlagShed else 0)
  source := s.index

/-- The direct hook, `USE_CAN_GATEWAY_ISR_HOOK`. -/
def tapHook (s : RxPort cfg τ) (e : RxEvent) (f : CanFrame) : RxPort cfg τ :=
  if s.consumers.hook then
    { s with seen := { s.seen with hookCalls := s.seen.hookCalls ++ [⟨e.hookUs, f⟩] } }
  else s

/-- Bus load and per-ID timing, `USE_CAN_GATEWAY_STATS`. -/
def tapStats (s : RxPort cfg τ) (e : RxEvent) (f : CanFrame) : RxPort cfg τ :=
  if s.consumers.stats then
    let seen := { s.seen with
      rxBits := s.seen.rxBits + estimateFrameBits f.extended f.rtr f.dlc }
    if s.consumers.idTiming then
      { s with seen := { seen with
          timings := seen.timings ++ [⟨f.canId, f.extended, e.timingUs⟩] } }
    else { s with seen := seen }
  else s

/-- The snapshot ring, `USE_CAN_GATEWAY_SNAPSHOT`. -/
def tapSnapshot (s : RxPort cfg τ) (f : CanFrame) : RxPort cfg τ :=
  if s.consumers.snapshot then
    { s with seen := { s.seen with snapshots := s.seen.snapshots ++ [frameSnapshot f] } }
  else s

/-- `observe_frame_`. -/
def observeFrame (s : RxPort cfg τ) (e : RxEvent) (f : CanFrame) : RxPort cfg τ :=
  if s.consumers.observe = false then s
  else if s.consumers.observeAll = false ∧ s.consumers.contains f.canId f.extended = false then s
  else
    let seen := { s.seen with observations := s.seen.observations ++ [frameRecord f] }
    if e.observeRoom then { s with seen := { seen with observed := seen.observed + 1 } }
    else { s with seen := { seen with observeOverflow := seen.observeOverflow + 1 } }

/-- The ring of the log, `USE_CAN_GATEWAY_LOG_TAP`. -/
def tapLog (s : RxPort cfg τ) (e : RxEvent) (f : CanFrame) (shed : Bool) : RxPort cfg τ :=
  if s.consumers.logTap then
    let seen := { s.seen with tapRecords := s.seen.tapRecords ++ [s.tapRecord e f shed] }
    if e.tapRoom then { s with seen := { seen with tapAccepted := seen.tapAccepted + 1 } }
    else { s with seen := { seen with tapDropped := seen.tapDropped + 1 } }
  else s

/-- `run_rx_taps_`. -/
def runRxTaps (s : RxPort cfg τ) (e : RxEvent) (f : CanFrame) (shed : Bool) : RxPort cfg τ :=
  ((((s.tapHook e f).tapStats e f).tapSnapshot f).observeFrame e f).tapLog e f shed

/-- `receive_into_staging_`. -/
def receiveIntoStaging (s : RxPort cfg τ) (e : RxEvent) (shed : Bool) : RxPort cfg τ :=
  match e.received with
  | none => s
  | some f => s.runRxTaps e f.toCanFrame shed

/-- `tap_shed_frame_`. -/
def tapShedFrame (s : RxPort cfg τ) (e : RxEvent) : RxPort cfg τ :=
  if s.consumers.active then s.receiveIntoStaging e true else s

/-- `handle_rx_isr`. -/
def handleRxIsr (s : RxPort cfg τ) (e : RxEvent) : RxPort cfg τ :=
  match s.route with
  | none => if s.consumers.armed then s.receiveIntoStaging e false else s
  | some p =>
    if !e.enabled then
      { s with route := some { p with
          route := { p.route with disabled := p.route.disabled + 1 } } }.tapShedFrame e
    else if p.state = .busOff then
      { s with route := some { p with
          route := { p.route with busOff := p.route.busOff + 1 } } }.tapShedFrame e
    else
      match p.pool.acquire with
      | (none, _) =>
        { s with route := some { p with
            route := { p.route with txFull := p.route.txFull + 1 } } }.tapShedFrame e
      | (some i, pool) =>
        let p := { p with pool := pool }
        match e.received with
        | none => { s with route := some (p.releaseSlot (.forward i)) }
        | some f =>
          let s := s.runRxTaps e f.toCanFrame false
          match processFrame cfg.table f.toCanFrame with
          | (.dropFiltered, _) =>
            let p := p.releaseSlot (.forward i)
            { s with route := some { p with
                route := { p.route with filtered := p.route.filtered + 1 } } }
          | (.forward, _) =>
            if p.outstanding.size < cfg.txQueueDepth ∧ e.transmitOk then
              let p := p.handOff (.forward i)
              { s with route := some { p with
                  route := { p.route with forwarded := p.route.forwarded + 1 } } }
            else
              let p := p.releaseSlot (.forward i)
              { s with route := some { p with
                  route := { p.route with txFull := p.route.txFull + 1 } } }

/-! ## Each tap once -/

section Taps

variable (s : RxPort cfg τ) (e : RxEvent) (f : CanFrame)

theorem tapHook_eq : s.tapHook e f = { s with seen := { s.seen with
    hookCalls := s.seen.hookCalls ++ if s.consumers.hook then [⟨e.hookUs, f⟩] else [] } } := by
  unfold tapHook
  split_ifs
  · rfl
  · rw [List.append_nil]

theorem tapStats_eq : s.tapStats e f = { s with seen := { s.seen with
    rxBits := s.seen.rxBits +
      if s.consumers.stats then estimateFrameBits f.extended f.rtr f.dlc else 0
    timings := s.seen.timings ++
      if s.consumers.stats ∧ s.consumers.idTiming then [⟨f.canId, f.extended, e.timingUs⟩]
      else [] } } := by
  unfold tapStats
  by_cases hstats : s.consumers.stats
  · by_cases htiming : s.consumers.idTiming
    · simp only [if_pos hstats, if_pos htiming, if_pos (And.intro hstats htiming)]
    · have hboth : ¬ (s.consumers.stats = true ∧ s.consumers.idTiming = true) :=
        fun h => htiming h.2
      simp only [if_pos hstats, if_neg htiming, if_neg hboth, List.append_nil]
  · have hboth : ¬ (s.consumers.stats = true ∧ s.consumers.idTiming = true) :=
      fun h => hstats h.1
    simp only [if_neg hstats, if_neg hboth, List.append_nil, UInt32.add_zero]

theorem tapSnapshot_eq : s.tapSnapshot f = { s with seen := { s.seen with
    snapshots := s.seen.snapshots ++
      if s.consumers.snapshot then [frameSnapshot f] else [] } } := by
  unfold tapSnapshot
  split_ifs
  · rfl
  · rw [List.append_nil]

theorem observeFrame_eq : ∃ observed observeOverflow,
    s.observeFrame e f = { s with seen := { s.seen with
      observations := s.seen.observations ++
        if s.consumers.observes f then [frameRecord f] else []
      observed := observed
      observeOverflow := observeOverflow } } := by
  unfold observeFrame RxConsumers.observes
  by_cases hobserve : s.consumers.observe
  · rw [if_neg (by rw [hobserve]; decide), hobserve, Bool.true_and]
    by_cases hset : s.consumers.observeAll = false ∧
        s.consumers.contains f.canId f.extended = false
    · rw [if_pos hset, hset.1, hset.2, if_neg (by decide), List.append_nil]
      exact ⟨_, _, rfl⟩
    · have hin : (s.consumers.observeAll || s.consumers.contains f.canId f.extended) = true := by
        rw [Bool.or_eq_true]
        rcases Bool.eq_false_or_eq_true s.consumers.observeAll with hall | hall
        · exact Or.inl hall
        · exact Or.inr (Bool.eq_true_of_not_eq_false fun h => hset ⟨hall, h⟩)
      rw [if_neg hset, if_pos hin]
      split_ifs
      · exact ⟨_, _, rfl⟩
      · exact ⟨_, _, rfl⟩
  · have hfalse : s.consumers.observe = false := Bool.eq_false_of_not_eq_true hobserve
    rw [if_pos hfalse, hfalse, Bool.false_and, if_neg (by decide), List.append_nil]
    exact ⟨_, _, rfl⟩

theorem tapLog_eq (shed : Bool) : ∃ tapAccepted tapDropped,
    s.tapLog e f shed = { s with seen := { s.seen with
      tapRecords := s.seen.tapRecords ++
        if s.consumers.logTap then [s.tapRecord e f shed] else []
      tapAccepted := tapAccepted
      tapDropped := tapDropped } } := by
  unfold tapLog
  split_ifs
  · exact ⟨_, _, rfl⟩
  · exact ⟨_, _, rfl⟩
  · rw [List.append_nil]
    exact ⟨_, _, rfl⟩

end Taps

/-- Every consumer of the port has been given `f` once. -/
structure SeenOnce (s : RxPort cfg τ) (e : RxEvent) (f : CanFrame) (shed : Bool)
    (after : RxSeen) : Prop where
  hookCalls : after.hookCalls =
    s.seen.hookCalls ++ if s.consumers.hook then [⟨e.hookUs, f⟩] else []
  rxBits : after.rxBits = s.seen.rxBits +
    if s.consumers.stats then estimateFrameBits f.extended f.rtr f.dlc else 0
  timings : after.timings = s.seen.timings ++
    if s.consumers.stats ∧ s.consumers.idTiming then [⟨f.canId, f.extended, e.timingUs⟩] else []
  snapshots : after.snapshots =
    s.seen.snapshots ++ if s.consumers.snapshot then [frameSnapshot f] else []
  observations : after.observations =
    s.seen.observations ++ if s.consumers.observes f then [frameRecord f] else []
  tapRecords : after.tapRecords =
    s.seen.tapRecords ++ if s.consumers.logTap then [s.tapRecord e f shed] else []

/-- The taps change nothing but what they have been given. -/
theorem runRxTaps_eq (s : RxPort cfg τ) (e : RxEvent) (f : CanFrame) (shed : Bool) :
    ∃ seen, s.runRxTaps e f shed = { s with seen := seen } ∧ s.SeenOnce e f shed seen := by
  unfold runRxTaps
  rw [tapHook_eq, tapStats_eq, tapSnapshot_eq]
  obtain ⟨observed, overflow, hobserve⟩ := observeFrame_eq _ e f
  rw [hobserve]
  obtain ⟨accepted, dropped, hlog⟩ := tapLog_eq _ e f shed
  rw [hlog]
  exact ⟨_, rfl, ⟨rfl, rfl, rfl, rfl, rfl, rfl⟩⟩

/-- A port without consumers has shown the frame to all of them. -/
theorem SeenOnce.of_inactive {s : RxPort cfg τ} (h : s.consumers.active = false) (e : RxEvent)
    (f : CanFrame) (shed : Bool) : s.SeenOnce e f shed s.seen := by
  unfold RxConsumers.active at h
  simp only [Bool.or_eq_false_iff] at h
  obtain ⟨⟨⟨⟨hstats, hsnapshot⟩, hobserve⟩, hlog⟩, hhook⟩ := h
  refine ⟨?_, ?_, ?_, ?_, ?_, ?_⟩
  · rw [if_neg (by rw [hhook]; decide), List.append_nil]
  · rw [if_neg (by rw [hstats]; decide), UInt32.add_zero]
  · rw [if_neg (by rw [hstats]; exact fun h => absurd h.1 (by decide)), List.append_nil]
  · rw [if_neg (by rw [hsnapshot]; decide), List.append_nil]
  · unfold RxConsumers.observes
    rw [hobserve, Bool.false_and, if_neg (by decide), List.append_nil]
  · rw [if_neg (by rw [hlog]; decide), List.append_nil]

theorem receiveIntoStaging_spec (s : RxPort cfg τ) (e : RxEvent) (shed : Bool) :
    (s.receiveIntoStaging e shed).route = s.route ∧
      (e.received = none → (s.receiveIntoStaging e shed).seen = s.seen) ∧
      ∀ f, e.received = some f →
        s.SeenOnce e f.toCanFrame shed (s.receiveIntoStaging e shed).seen := by
  unfold receiveIntoStaging
  cases e.received with
  | none => exact ⟨rfl, fun _ => rfl, nofun⟩
  | some f =>
    obtain ⟨seen, heq, hseen⟩ := runRxTaps_eq s e f.toCanFrame shed
    dsimp only
    rw [heq]
    refine ⟨rfl, nofun, fun f' hf' => ?_⟩
    cases hf'
    exact hseen

theorem tapShedFrame_spec (s : RxPort cfg τ) (e : RxEvent) :
    (s.tapShedFrame e).route = s.route ∧
      (e.received = none → (s.tapShedFrame e).seen = s.seen) ∧
      ∀ f, e.received = some f → s.SeenOnce e f.toCanFrame true (s.tapShedFrame e).seen := by
  unfold tapShedFrame
  split_ifs with hactive
  · exact receiveIntoStaging_spec s e true
  · exact ⟨rfl, fun _ => rfl, fun f _ =>
      .of_inactive (Bool.eq_false_of_not_eq_true hactive) e f.toCanFrame true⟩

/-! ## The account of one interrupt -/

/-- What a route counts. -/
inductive Disposition
  | forwarded | filtered | txFull | busOff | disabled
  deriving DecidableEq, Repr

/-- The frame was meant for a destination that could not take it. -/
def Disposition.sheds : Disposition → Bool
  | .forwarded => false
  | .filtered => false
  | .txFull => true
  | .busOff => true
  | .disabled => true

end RxPort

def RouteCounters.count (c : RouteCounters) : RxPort.Disposition → RouteCounters
  | .forwarded => { c with forwarded := c.forwarded + 1 }
  | .filtered => { c with filtered := c.filtered + 1 }
  | .txFull => { c with txFull := c.txFull + 1 }
  | .busOff => { c with busOff := c.busOff + 1 }
  | .disabled => { c with disabled := c.disabled + 1 }

namespace RxPort

theorem add_one_ne (n : UInt32) : n + 1 ≠ n := by
  intro h
  have heq := congrArg UInt32.toNat h
  rw [UInt32.toNat_add, UInt32.toNat_one] at heq
  omega

/-- A count names its disposition. -/
theorem count_inj {c : RouteCounters} {a b : Disposition} (h : c.count a = c.count b) : a = b := by
  cases a <;> cases b <;> simp_all [RouteCounters.count, eq_comm]

theorem count_ne (c : RouteCounters) (d : Disposition) : c.count d ≠ c := by
  intro h
  cases d with
  | forwarded => exact add_one_ne _ (congrArg RouteCounters.forwarded h)
  | filtered => exact add_one_ne _ (congrArg RouteCounters.filtered h)
  | txFull => exact add_one_ne _ (congrArg RouteCounters.txFull h)
  | busOff => exact add_one_ne _ (congrArg RouteCounters.busOff h)
  | disabled => exact add_one_ne _ (congrArg RouteCounters.disabled h)

/-- One of the three gates before the frame is fetched declines to forward it. -/
def shedsAtGate (p : Port cfg τ) (e : RxEvent) : Prop :=
  e.enabled = false ∨ p.state = .busOff ∨ p.pool.acquire.1 = none

/-- The frame passes the gates and the rules, and is refused at the hand-off. -/
def RefusedLate (s : RxPort cfg τ) (e : RxEvent) : Prop :=
  ∃ p f, s.route = some p ∧ ¬ shedsAtGate p e ∧ e.received = some f ∧
    (processFrame cfg.table f.toCanFrame).1 = .forward ∧
    ¬ (p.outstanding.size < cfg.txQueueDepth ∧ e.transmitOk = true)

/-- The ways an interrupt can go on a port with a route. -/
inductive Course (s : RxPort cfg τ) (e : RxEvent) (p : Port cfg τ) : RxPort cfg τ → Prop
  | gated (d : Disposition) (hgate : shedsAtGate p e) (hd : d.sheds = true) :
      Course s e p ({ s with route := some { p with route := p.route.count d } }.tapShedFrame e)
  | empty (p' : Port cfg τ) (hgate : ¬ shedsAtGate p e) (hnone : e.received = none)
      (hp' : p'.route = p.route) : Course s e p { s with route := some p' }
  | received (f : RxFrame) (d : Disposition) (p' : Port cfg τ) (hgate : ¬ shedsAtGate p e)
      (hf : e.received = some f) (hp' : p'.route = p.route.count d)
      (hd : d.sheds = true ↔ (processFrame cfg.table f.toCanFrame).1 = .forward ∧
        ¬ (p.outstanding.size < cfg.txQueueDepth ∧ e.transmitOk = true)) :
      Course s e p { s.runRxTaps e f.toCanFrame false with route := some p' }

theorem route_releaseSlot (p : Port cfg τ) (slot : SlotRef) :
    (p.releaseSlot slot).route = p.route := by
  cases slot with
  | forward i => rfl
  | inject i => rfl

theorem handleRxIsr_course (s : RxPort cfg τ) (e : RxEvent) {p : Port cfg τ}
    (hp : s.route = some p) : Course s e p (s.handleRxIsr e) := by
  unfold handleRxIsr
  rw [hp]
  dsimp only
  by_cases hon : e.enabled = false
  · rw [if_pos (by rw [hon]; rfl)]
    exact .gated .disabled (Or.inl hon) rfl
  rw [if_neg (by rw [Bool.eq_true_of_not_eq_false hon]; decide)]
  by_cases hoff : p.state = .busOff
  · rw [if_pos hoff]
    exact .gated .busOff (Or.inr (Or.inl hoff)) rfl
  rw [if_neg hoff]
  cases hacquire : p.pool.acquire with
  | mk slot pool =>
    cases slot with
    | none => exact .gated .txFull (Or.inr (Or.inr (by rw [hacquire]))) rfl
    | some i =>
      have hgate : ¬ shedsAtGate p e := by
        rintro (h | h | h)
        · exact hon h
        · exact hoff h
        · rw [hacquire] at h
          cases h
      dsimp only
      cases hreceived : e.received with
      | none => exact .empty _ hgate hreceived (route_releaseSlot _ _)
      | some f =>
        dsimp only
        cases haction : processFrame cfg.table f.toCanFrame with
        | mk action patched =>
          cases action with
          | dropFiltered =>
            refine .received f .filtered _ hgate hreceived ?_ ?_
            · show RouteCounters.count (Port.releaseSlot _ _).route .filtered = _
              rw [route_releaseSlot]
            · rw [haction]
              exact ⟨nofun, fun h => nomatch h.1⟩
          | forward =>
            dsimp only
            by_cases htaken : p.outstanding.size < cfg.txQueueDepth ∧ e.transmitOk = true
            · rw [if_pos htaken]
              refine .received f .forwarded _ hgate hreceived rfl ?_
              exact ⟨nofun, fun h => absurd htaken h.2⟩
            · rw [if_neg htaken]
              refine .received f .txFull _ hgate hreceived ?_ ?_
              · show RouteCounters.count (Port.releaseSlot _ _).route .txFull = _
                rw [route_releaseSlot]
              · rw [haction]
                exact ⟨fun _ => ⟨rfl, htaken⟩, fun _ => rfl⟩

/-- On the route and its destination the interrupt is `Port.handleRxIsr`. -/
theorem route_handleRxIsr (s : RxPort cfg τ) (e : RxEvent) :
    (s.handleRxIsr e).route = s.route.map fun p =>
      p.handleRxIsr e.enabled (e.received.map RxFrame.toCanFrame) e.transmitOk := by
  cases hp : s.route with
  | none =>
    unfold handleRxIsr
    rw [hp]
    dsimp only
    split_ifs
    · exact (receiveIntoStaging_spec s e false).1.trans hp
    · exact hp
  | some p =>
    unfold handleRxIsr Port.handleRxIsr
    rw [hp]
    dsimp only [Option.map_some]
    by_cases hon : (!e.enabled) = true
    · rw [if_pos hon, if_pos hon]
      exact (tapShedFrame_spec _ e).1
    rw [if_neg hon, if_neg hon]
    by_cases hoff : p.state = .busOff
    · rw [if_pos hoff, if_pos hoff]
      exact (tapShedFrame_spec _ e).1
    rw [if_neg hoff, if_neg hoff]
    cases p.pool.acquire with
    | mk slot pool =>
      cases slot with
      | none => exact (tapShedFrame_spec _ e).1
      | some i =>
        cases e.received with
        | none => rfl
        | some f =>
          dsimp only [Option.map_some]
          cases processFrame cfg.table f.toCanFrame with
          | mk action patched =>
            cases action with
            | dropFiltered => rfl
            | forward =>
              dsimp only
              split_ifs
              · rfl
              · rfl

/-! ## Truthful -/

/-- The route has counted the frame as one that its destination could not take. -/
def WasShed (s : RxPort cfg τ) (e : RxEvent) : Prop :=
  ∃ p p' d, s.route = some p ∧ (s.handleRxIsr e).route = some p' ∧
    p'.route = p.route.count d ∧ d.sheds = true

/-- The port is there to receive: frames are routed out of it, or looked at. -/
def Receives (s : RxPort cfg τ) : Prop := s.route ≠ none ∨ s.consumers.armed = true

/-- The interrupt counts a frame that it has shed or received once, shows what has arrived once to
each consumer as it arrived, and logs the shed frames as shed. -/
structure Truthful (s : RxPort cfg τ) (e : RxEvent) : Prop where
  counted : ∀ p, s.route = some p → ∃ p', (s.handleRxIsr e).route = some p' ∧
    (shedsAtGate p e ∨ e.received ≠ none → ∃! d, p'.route = p.route.count d) ∧
    (¬ (shedsAtGate p e ∨ e.received ≠ none) → p'.route = p.route)
  tapped : ∀ f, e.received = some f → s.Receives →
    ∃ shed, s.SeenOnce e f.toCanFrame shed (s.handleRxIsr e).seen
  untapped : e.received = none ∨ ¬ s.Receives → (s.handleRxIsr e).seen = s.seen
  flagged : ∀ r, (s.handleRxIsr e).seen.tapRecords = s.seen.tapRecords ++ [r] →
    (r.flags &&& tapFlagShed ≠ 0 ↔ s.WasShed e)

theorem shed_of_tapRecord (s : RxPort cfg τ) (e : RxEvent) (f : CanFrame) (shed : Bool) :
    (s.tapRecord e f shed).flags &&& tapFlagShed ≠ 0 ↔ shed = true := by
  unfold tapRecord
  dsimp only
  cases f.extended <;> cases f.rtr <;> cases shed <;> decide

theorem SeenOnce.of_same {s s₀ : RxPort cfg τ} {e : RxEvent} {f : CanFrame} {shed : Bool}
    {after : RxSeen} (h : s₀.SeenOnce e f shed after) (hseen : s₀.seen = s.seen)
    (hconsumers : s₀.consumers = s.consumers) (hindex : s₀.index = s.index) :
    s.SeenOnce e f shed after := by
  obtain ⟨index, consumers, route, seen⟩ := s
  obtain ⟨index₀, consumers₀, route₀, seen₀⟩ := s₀
  subst hseen hconsumers hindex
  exact { h with }

/-- What the interrupt leaves behind on a port with a route: the log is told the verdict of the
gates, the route counts the verdict of the hand-off. -/
structure Account (s : RxPort cfg τ) (e : RxEvent) (p : Port cfg τ) (s' : RxPort cfg τ) :
    Prop where
  route : ∃ p', s'.route = some p' ∧
    (shedsAtGate p e ∨ e.received ≠ none → ∃ d, p'.route = p.route.count d ∧
      (d.sheds = true ↔ shedsAtGate p e ∨ s.RefusedLate e)) ∧
    (¬ (shedsAtGate p e ∨ e.received ≠ none) → p'.route = p.route)
  silent : e.received = none → s'.seen = s.seen
  seen : ∀ f, e.received = some f → ∃ shed,
    s.SeenOnce e f.toCanFrame shed s'.seen ∧ (shed = true ↔ shedsAtGate p e)

theorem Course.account {s s' : RxPort cfg τ} {e : RxEvent} {p : Port cfg τ}
    (hp : s.route = some p) (h : Course s e p s') : Account s e p s' := by
  cases h with
  | gated d hgate hd =>
    obtain ⟨hroute, hsilent, hseen⟩ :=
      tapShedFrame_spec { s with route := some { p with route := p.route.count d } } e
    refine ⟨⟨_, hroute, fun _ => ⟨d, rfl, ?_⟩, fun hno => absurd (Or.inl hgate) hno⟩, hsilent,
      fun f hf => ⟨true, (hseen f hf).of_same rfl rfl rfl, ?_⟩⟩
    · exact ⟨fun _ => Or.inl hgate, fun _ => hd⟩
    · exact ⟨fun _ => hgate, fun _ => rfl⟩
  | empty p' hgate hnone hp' =>
    refine ⟨⟨p', rfl, fun hsome => ?_, fun _ => hp'⟩, fun _ => rfl, fun f hf => ?_⟩
    · exact absurd hnone (hsome.resolve_left hgate)
    · rw [hnone] at hf
      cases hf
  | received f d p' hgate hf hp' hd =>
    obtain ⟨seen, heq, hseen⟩ := runRxTaps_eq s e f.toCanFrame false
    refine ⟨⟨p', rfl, fun _ => ⟨d, hp', ?_⟩, fun hno => ?_⟩, fun hnone => ?_,
      fun f' hf' => ⟨false, ?_, ?_⟩⟩
    · rw [hd]
      constructor
      · rintro ⟨hforward, hrefused⟩
        exact Or.inr ⟨p, f, hp, hgate, hf, hforward, hrefused⟩
      · rintro (h | ⟨q, f', hq, -, hf', hforward, hrefused⟩)
        · exact absurd h hgate
        · cases hp.symm.trans hq
          cases hf.symm.trans hf'
          exact ⟨hforward, hrefused⟩
    · exact absurd (Or.inr (by rw [hf]; exact nofun)) hno
    · rw [hf] at hnone
      cases hnone
    · cases hf.symm.trans hf'
      rw [heq]
      exact hseen
    · exact ⟨nofun, fun h => absurd h hgate⟩

/-- Without a route there is nothing to shed. -/
theorem truthful_of_unrouted {s : RxPort cfg τ} (hroute : s.route = none) (e : RxEvent) :
    s.Truthful e := by
  have hisr : s.handleRxIsr e = if s.consumers.armed then s.receiveIntoStaging e false else s := by
    unfold handleRxIsr
    rw [hroute]
  obtain ⟨-, hsilent, hseen⟩ := receiveIntoStaging_spec s e false
  have hnotShed : ¬ s.WasShed e := by
    rintro ⟨p, p', d, hp, -⟩
    rw [hroute] at hp
    cases hp
  refine ⟨fun p hp => ?_, fun f hf hreceives => ?_, fun h => ?_, fun r hr => ?_⟩
  · rw [hroute] at hp
    cases hp
  · rw [hisr, if_pos (hreceives.resolve_left fun h => h hroute)]
    exact ⟨false, hseen f hf⟩
  · rw [hisr]
    split_ifs with harmed
    · rcases h with hnone | hreceives
      · exact hsilent hnone
      · exact absurd (Or.inr harmed) hreceives
    · rfl
  · refine ⟨fun hflag => ?_, fun h => absurd h hnotShed⟩
    exfalso
    rw [hisr] at hr
    split_ifs at hr with harmed
    · cases hf : e.received with
      | none =>
        rw [hsilent hf] at hr
        exact absurd hr (by simp)
      | some f =>
        rw [(hseen f hf).tapRecords, List.append_cancel_left_eq] at hr
        split_ifs at hr
        · cases hr
          exact absurd ((shed_of_tapRecord s e f.toCanFrame false).mp hflag) (by decide)
    · exact absurd hr (by simp)

/-- The account is right for every interrupt but those that log a frame as forwarded which is then
refused at the hand-off. -/
theorem accountTruthful_iff (s : RxPort cfg τ) (e : RxEvent) :
    s.Truthful e ↔ ¬ (s.consumers.logTap = true ∧ s.RefusedLate e) := by
  cases hp : s.route with
  | none =>
    refine ⟨fun _ => ?_, fun _ => truthful_of_unrouted hp e⟩
    rintro ⟨-, p, f, hq, -⟩
    rw [hp] at hq
    cases hq
  | some p =>
    obtain ⟨⟨p', hp', hcount, hnone⟩, hsilent, hseen⟩ := (handleRxIsr_course s e hp).account hp
    have hshed : s.WasShed e ↔ shedsAtGate p e ∨ s.RefusedLate e := by
      constructor
      · rintro ⟨q, q', d, hq, hq', hd, hsheds⟩
        cases hp.symm.trans hq
        cases hp'.symm.trans hq'
        by_cases hcase : shedsAtGate p e ∨ e.received ≠ none
        · obtain ⟨d', hd', hiff⟩ := hcount hcase
          rw [← count_inj (hd.symm.trans hd')] at hiff
          exact hiff.mp hsheds
        · exact absurd (hd.symm.trans (hnone hcase)) (count_ne p.route d)
      · intro h
        have hcase : shedsAtGate p e ∨ e.received ≠ none := by
          rcases h with hgate | ⟨q, f, -, -, hf, -⟩
          · exact Or.inl hgate
          · exact Or.inr (by rw [hf]; exact nofun)
        obtain ⟨d, hd, hiff⟩ := hcount hcase
        exact ⟨p, p', d, hp, hp', hd, hiff.mpr h⟩
    constructor
    · rintro ⟨-, -, -, hflagged⟩ ⟨hlog, hrefused⟩
      obtain ⟨q, f, hq, hgate, hf, -⟩ := id hrefused
      cases hp.symm.trans hq
      obtain ⟨shed, hseenOnce, hverdict⟩ := hseen f hf
      have hrecords := hseenOnce.tapRecords
      rw [if_pos hlog] at hrecords
      have hflag := (hflagged _ hrecords).mpr (hshed.mpr (Or.inr hrefused))
      exact hgate (hverdict.mp ((shed_of_tapRecord s e f.toCanFrame shed).mp hflag))
    · intro hfine
      refine ⟨fun q hq => ?_, fun f hf _ => ?_, fun h => ?_, fun r hr => ?_⟩
      · cases hp.symm.trans hq
        refine ⟨p', hp', fun hcase => ?_, hnone⟩
        obtain ⟨d, hd, -⟩ := hcount hcase
        exact ⟨d, hd, fun d' hd' => count_inj (hd'.symm.trans hd)⟩
      · obtain ⟨shed, hseenOnce, -⟩ := hseen f hf
        exact ⟨shed, hseenOnce⟩
      · exact hsilent (h.resolve_right fun hno => hno (Or.inl (by rw [hp]; exact nofun)))
      · cases hf : e.received with
        | none =>
          rw [hsilent hf] at hr
          exact absurd hr (by simp)
        | some f =>
          obtain ⟨shed, hseenOnce, hverdict⟩ := hseen f hf
          rw [hseenOnce.tapRecords, List.append_cancel_left_eq] at hr
          split_ifs at hr with hlog
          cases hr
          rw [shed_of_tapRecord, hverdict, hshed]
          exact ⟨Or.inl, fun h => h.resolve_right fun hrefused => hfine ⟨hlog, hrefused⟩⟩

/-- A logged port whose destination takes no frame at the hand-off. -/
def sampleRx : RxPort minimalConfig Unit := { consumers := { logTap := true }, route := some {} }

def refusedEvent : RxEvent := { received := some { id := 0x123, dlc := 8 }, transmitOk := false }

/-- The frame is counted as one that found the destination full and logged as forwarded. -/
theorem not_accountTruthful_sample :
    ¬ ∀ (cfg : PortConfig) (s : RxPort cfg Unit) (e : RxEvent), s.Truthful e := by
  intro h
  have hflagged := (h minimalConfig sampleRx refusedEvent).flagged
    { canId := 0x123, dlc := 8 } rfl
  have hshed : sampleRx.WasShed refusedEvent := ⟨_, _, .txFull, rfl, rfl, rfl, rfl⟩
  exact absurd (hflagged.mpr hshed) (by decide)

end RxPort

end EspCars.CanGateway
