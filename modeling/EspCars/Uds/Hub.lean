import EspCars.Lib.Run
import EspCars.Uds.Proto
import EspCars.Uds.Resolve
import EspCars.Uds.Sched

/-!
# The hub

`components/uds/uds.cpp`: the setup with the poll table, the loop that issues one request at a time,
the callbacks of the transport, and the actions. The values that are decoded and published are left
out; what the hub does to its transport and to its groups is kept in a log with the time of it. The
times are milliseconds since the boot, of which the hub sees the low 32 bits.
-/

namespace EspCars.Uds

open EspCars.Lib

def udsOndemandQueue : Nat := 4
def udsMaxPending : Nat := 5
def udsDefaultP2Ms : Nat := 150
def udsDefaultP2ExtMs : Nat := 2000

/-- The group of a raw request. -/
def noGroup : Nat := 0xFFFF

/-- Whose request is in flight. -/
inductive InFlight
  | none | polled | ondemand | raw
  deriving DecidableEq, Repr

/-- How a request ends. -/
inductive Outcome
  | accepted
  | negative (nrc : UInt8)
  | transportError
  | timeout
  deriving DecidableEq, Repr

/-- What the hub does, in the order it does it. -/
inductive HubAct
  /-- A request is handed to the transport, which takes it or not. -/
  | offer (origin : InFlight) (group : Nat) (req : List UInt8) (taken : Bool)
  /-- The request in flight is answered with 0x78. -/
  | pending
  | ended (outcome : Outcome)
  | decode (group : Nat) (resp : List UInt8)
  | unavailable (group : Nat)
  deriving DecidableEq

/-- The counters of the hub. -/
structure UdsCounters where
  requestsSent : UInt32 := 0
  responsesAccepted : UInt32 := 0
  partialResponses : UInt32 := 0
  timeouts : UInt32 := 0
  negativeResponses : UInt32 := 0
  groupsSuspended : UInt32 := 0
  foreignResponses : UInt32 := 0
  shortResponses : UInt32 := 0
  lastNrc : UInt8 := 0
  deriving DecidableEq

/-- What codegen sets, and the bytes that are mapped for the catalog. -/
structure HubConfig where
  memory : Option (List UInt8)
  ecuName : Option (List UInt8) := none
  bindings : List UdsBinding := []
  pollSlots : Nat := 0
  maxConsecutiveFailures : Nat := 3
  allowActiveServices : Bool := false

/-- `UdsHub` -/
structure UdsHub where
  allowActiveServices : Bool
  catalog : Option Catalog := none
  ecu : Option EcuView := none
  p2Ms : Nat := udsDefaultP2Ms
  p2ExtMs : Nat := udsDefaultP2ExtMs
  /-- The transport calls the hub. -/
  consumer : Bool := false
  sched : GroupScheduler
  enabled : Bool := true
  inFlight : InFlight := .none
  inFlightSlot : Nat := 0
  inFlightGroup : Nat := noGroup
  inFlightRespMin : Nat := 0
  req : List UInt8 := []
  ownDeadlineMs : UInt32 := 0
  pendingStreak : Nat := 0
  ondemand : List Nat := []
  rawPending : List UInt8 := []
  counters : UdsCounters := {}
  log : List (Nat × HubAct) := []
  deriving DecidableEq

/-- `millis` -/
def millis (now : Nat) : UInt32 := UInt32.ofNat now

namespace UdsHub

/-! ## Setup -/

/-- The group and the interval of the bindings that resolve and are polled. -/
def polled (c : Catalog) (ecu : EcuView) (bindings : List UdsBinding) : List (Nat × UInt32) :=
  bindings.filterMap fun b =>
    match c.resolveBinding (some ecu) b with
    | none => none
    | some (gi, _) =>
      if UInt32.ofNat b.intervalMs = UInt32.ofNat intervalNever then none
      else some (gi, UInt32.ofNat b.intervalMs)

/-- The shortest interval of a group among those of the list. -/
def minInterval (gi : Nat) (interval : UInt32) (rest : List (Nat × UInt32)) : UInt32 :=
  rest.foldl (fun m p => if p.1 = gi ∧ p.2 < m then p.2 else m) interval

/-- `build_poll_table_`, with the groups that came before. -/
def buildPollTable (now : UInt32) :
    List (Nat × UInt32) → List Nat → GroupScheduler → GroupScheduler
  | [], _, s => s
  | (gi, interval) :: rest, seen, s =>
    if gi ∈ seen then buildPollTable now rest seen s
    else buildPollTable now rest (gi :: seen) (s.add gi (minInterval gi interval rest) now).2

/-- `setup` -/
def setup (cfg : HubConfig) (now : Nat) : UdsHub :=
  let sched : GroupScheduler :=
    { capacity := cfg.pollSlots, maxFailures := cfg.maxConsecutiveFailures }
  let inert : UdsHub := { allowActiveServices := cfg.allowActiveServices, sched := sched }
  match cfg.memory.bind Catalog.open? with
  | none => inert
  | some c =>
    match c.resolveEcu cfg.ecuName with
    | none => { inert with catalog := some c }
    | some ecu =>
      { inert with
        catalog := some c
        ecu := some ecu
        p2Ms := if ecu.p2Ms ≠ 0 then ecu.p2Ms else udsDefaultP2Ms
        p2ExtMs := if ecu.p2ExtMs ≠ 0 then ecu.p2ExtMs else udsDefaultP2ExtMs
        consumer := true
        sched := buildPollTable (millis now) (polled c ecu cfg.bindings) [] sched }

variable (h : UdsHub)

/-- The hub does something. -/
def act (now : Nat) (a : HubAct) : UdsHub := { h with log := h.log ++ [(now, a)] }

def count (f : UdsCounters → UdsCounters) : UdsHub := { h with counters := f h.counters }

/-! ## Actions -/

/-- The calls of automations. -/
inductive Call
  | read (name : List UInt8)
  | execute (name : List UInt8)
  | raw (data : List UInt8)
  | setEnabled (enabled : Bool)
  deriving DecidableEq

def enqueue (gi : Nat) : UdsHub :=
  if udsOndemandQueue ≤ h.ondemand.length then h else { h with ondemand := h.ondemand ++ [gi] }

/-- `request_read` -/
def requestRead (name : List UInt8) : UdsHub :=
  match h.catalog with
  | none => h
  | some c =>
    match c.findGroup h.ecu name with
    | none => h
    | some gi =>
      match c.group gi with
      | none => h
      | some g => if !g.safeRead then h else h.enqueue gi

/-- `request_execute` -/
def requestExecute (name : List UInt8) : UdsHub :=
  if !h.allowActiveServices then h
  else
    match h.catalog with
    | none => h
    | some c =>
      match c.findGroup h.ecu name with
      | none => h
      | some gi => h.enqueue gi

/-- `send_raw` -/
def sendRaw (data : List UInt8) : UdsHub :=
  if !h.allowActiveServices then h
  else if data = [] ∨ udsMaxRequest < data.length then h
  else if h.rawPending ≠ [] then h
  else { h with rawPending := data }

/-- A call from outside. -/
def call : Call → UdsHub
  | .read name => h.requestRead name
  | .execute name => h.requestExecute name
  | .raw data => h.sendRaw data
  | .setEnabled enabled => { h with enabled := enabled }

/-! ## The end of a request -/

/-- `finish_in_flight_` -/
def finishInFlight : UdsHub := { h with inFlight := .none, req := [], pendingStreak := 0 }

/-- `fail_in_flight_` -/
def failInFlight (now : Nat) (outcome : Outcome) : UdsHub :=
  let h :=
    if h.inFlight = .polled then
      let (unavailable, sched) := h.sched.onFailure h.inFlightSlot (millis now)
      let h := { h with sched := sched }
      if unavailable then h.act now (.unavailable h.inFlightGroup) else h
    else h
  h.finishInFlight.act now (.ended outcome)

/-- `suspend_in_flight_` -/
def suspendInFlight (now : Nat) (nrc : UInt8) : UdsHub :=
  let h :=
    if h.inFlight = .polled then
      { h with sched := h.sched.suspend h.inFlightSlot }.count
        fun n => { n with groupsSuspended := n.groupsSuspended + 1 }
    else h
  ((h.act now (.unavailable h.inFlightGroup)).finishInFlight).act now (.ended (.negative nrc))

/-! ## The loop -/

/-- The response has started while the transport receives. -/
def slideDeadline (now : Nat) : UdsHub :=
  match h.inFlight with
  | .none => h
  | .polled => { h with sched := h.sched.extendDeadline (millis now) (UInt32.ofNat h.p2Ms) }
  | _ => { h with ownDeadlineMs := millis now + UInt32.ofNat h.p2Ms }

/-- The deadline of the request in flight; `calls` are those of the error automations. -/
def checkDeadline (now : Nat) (calls : List Call) : UdsHub :=
  let timedOut (h : UdsHub) : UdsHub :=
    (h.count fun n => { n with timeouts := n.timeouts + 1 }).finishInFlight
  match h.inFlight with
  | .none => h
  | .polled =>
    match h.sched.poll (millis now) with
    | (none, sched) => { h with sched := sched }
    | (some (slot, unavailable), sched) =>
      let h := timedOut { h with sched := sched }
      let gi := (sched.groups[slot]?).getD noGroup
      let h := if unavailable then h.act now (.unavailable gi) else h
      calls.foldl call (h.act now (.ended .timeout))
  | _ =>
    if timeReached (millis now) h.ownDeadlineMs then
      calls.foldl call ((timedOut h).act now (.ended .timeout))
    else h

/-- `SendResult` -/
inductive SendResult
  | sent | busy | unsendable
  deriving DecidableEq, Repr

/-- `send_group_`; `taken` is the answer of the transport, and `origin` is for the log. -/
def sendGroup (c : Catalog) (now : Nat) (taken : Bool) (origin : InFlight) (gi : Nat) :
    SendResult × UdsHub :=
  match c.group gi with
  | none => (.unsendable, h)
  | some g =>
    match buildRequest c g with
    | none => (.unsendable, h)
    | some req =>
      let h := h.act now (.offer origin gi req taken)
      if !taken then (.busy, { h with req := [] })
      else
        (.sent,
          { h with req := req, inFlightGroup := gi, inFlightRespMin := g.respMinLen
                   pendingStreak := 0 }.count
            fun n => { n with requestsSent := n.requestsSent + 1 })

/-- The raw request that waits. -/
def issueRaw (now : Nat) (taken : Bool) : UdsHub :=
  let h := h.act now (.offer .raw noGroup h.rawPending taken)
  if !taken then h
  else
    { h with
      req := h.rawPending, rawPending := [], inFlight := .raw, inFlightGroup := noGroup
      inFlightRespMin := 0, ownDeadlineMs := millis now + UInt32.ofNat h.p2Ms }.count
      fun n => { n with requestsSent := n.requestsSent + 1 }

/-- The first group on demand. -/
def issueOndemand (c : Catalog) (now : Nat) (taken : Bool) (gi : Nat) : UdsHub :=
  match h.sendGroup c now taken .ondemand gi with
  | (.busy, h) => h
  | (.unsendable, h) => { h with ondemand := h.ondemand.tail }
  | (.sent, h) =>
    { h with
      ondemand := h.ondemand.tail, inFlight := .ondemand
      ownDeadlineMs := millis now + UInt32.ofNat h.p2Ms }

/-- The slot that the scheduler selected. -/
def issuePolled (c : Catalog) (now : Nat) (taken : Bool) (slot gi : Nat) : UdsHub :=
  match h.sendGroup c now taken .polled gi with
  | (.busy, h) => { h with sched := h.sched.cancelInFlight }
  | (.unsendable, h) =>
    ({ h with sched := h.sched.suspend slot }.count
      fun n => { n with groupsSuspended := n.groupsSuspended + 1 }).act now (.unavailable gi)
  | (.sent, h) => { h with inFlight := .polled, inFlightSlot := slot }

/-- `issue_next_` -/
def issueNext (c : Catalog) (now : Nat) (taken : Bool) : UdsHub :=
  if h.rawPending ≠ [] then h.issueRaw now taken
  else
    match h.ondemand with
    | gi :: _ => h.issueOndemand c now taken gi
    | [] =>
      match h.sched.next (millis now) (UInt32.ofNat h.p2Ms) with
      | (none, sched) => { h with sched := sched }
      | (some slot, sched) =>
        { h with sched := sched }.issuePolled c now taken slot ((sched.groups[slot]?).getD noGroup)

/-- `loop` -/
def loop (now : Nat) (receiving taken : Bool) (calls : List Call) : UdsHub :=
  match h.catalog with
  | none => h
  | some c =>
    let h := if receiving then h.slideDeadline now else h
    let h := h.checkDeadline now calls
    if h.inFlight = .none ∧ h.enabled then h.issueNext c now taken else h

/-! ## The callbacks of the transport -/

/-- `handle_negative_` -/
def handleNegative (now : Nat) (nrc : UInt8) : UdsHub :=
  match classifyNrc nrc with
  | .pending =>
    let h := { h with pendingStreak := h.pendingStreak + 1 }
    if udsMaxPending < h.pendingStreak then h.failInFlight now (.negative nrc)
    else
      let h := h.act now .pending
      if h.inFlight = .polled then
        { h with sched := h.sched.extendDeadline (millis now) (UInt32.ofNat h.p2ExtMs) }
      else { h with ownDeadlineMs := millis now + UInt32.ofNat h.p2ExtMs }
  | .unsupported | .denied => h.suspendInFlight now nrc
  | .busy | .other => h.failInFlight now (.negative nrc)

/-- A response that is accepted. -/
def acceptResponse (now : Nat) (resp : List UInt8) (uncovered : Bool) : UdsHub :=
  let h := h.count fun n =>
    { n with
      responsesAccepted := n.responsesAccepted + 1
      partialResponses := n.partialResponses + (if uncovered then 1 else 0) }
  let h := if h.inFlight = .raw then h else h.act now (.decode h.inFlightGroup resp)
  let h :=
    if h.inFlight = .polled then
      { h with sched := (h.sched.onSuccess h.inFlightSlot (millis now)).2 }
    else h
  h.finishInFlight.act now (.ended .accepted)

/-- `on_message` -/
def onMessage (now : Nat) (resp : List UInt8) : UdsHub :=
  if h.inFlight = .none ∨ h.req = [] then
    h.count fun n => { n with foreignResponses := n.foreignResponses + 1 }
  else
    match classifyResponse h.req resp h.inFlightRespMin with
    | .notOurs => h.count fun n => { n with foreignResponses := n.foreignResponses + 1 }
    | .tooShort => h.count fun n => { n with shortResponses := n.shortResponses + 1 }
    | .negative nrc =>
      (h.count fun n => { n with negativeResponses := n.negativeResponses + 1, lastNrc := nrc
        }).handleNegative now nrc
    | .covered => h.acceptResponse now resp false
    | .uncovered => h.acceptResponse now resp true

/-- `on_error` -/
def onError (now : Nat) : UdsHub :=
  if h.inFlight = .none then h else h.failInFlight now .transportError

/-! ## Runs -/

/-- What happens to the hub. A loop takes place at a time, with a transport that is receiving or not
and that takes a request or not; the calls are those of the error automations in it. -/
inductive Event
  | loop (now : Nat) (receiving taken : Bool) (calls : List Call)
  | message (now : Nat) (resp : List UInt8)
  | error (now : Nat)
  | call (c : Call)
  deriving DecidableEq

/-- The hub behind an event. -/
def step : Event → UdsHub
  | .loop now receiving taken calls => h.loop now receiving taken calls
  | .message now resp => if h.consumer then h.onMessage now resp else h
  | .error now => if h.consumer then h.onError now else h
  | .call c => h.call c

/-- The hub of a configuration after the events. -/
def run (cfg : HubConfig) (boot : Nat) (events : List Event) : UdsHub :=
  exec step (setup cfg boot) events

end UdsHub

end EspCars.Uds
