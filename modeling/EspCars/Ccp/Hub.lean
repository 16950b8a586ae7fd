import EspCars.Ccp.Proto

/-!
# The CCP master

`CcpHub` of `components/ccp/ccp.cpp`: one command in flight at a time, the two memory sequences,
`connect_and` and the DAQ read on top of it.

The continuations the source writes as lambdas over the hub are the constructors of
`CommandCallback`. Where the hub calls a callback of its user, the user has control and may call
the hub again; what the hub still has to do when the callback returns is a `Frame`. A function of
the hub therefore returns the hub and the frame it was interrupted with, or none if it has
returned.

An operation is a call of `read_memory`, `write_memory`, `connect_and` or `daq_read`. Its number
stands for the callback it was given; a call without one counts as one whose callback does
nothing. `log` is what the hub has done so far, in order; the code does not keep it.
-/

namespace EspCars.Ccp

/-- What of the configuration is fixed after `setup`. `writeBuilt` is `USE_CCP_WRITE`. -/
structure Config where
  commandId : UInt32 := 0x700
  stationAddress : UInt16 := 1
  byteOrder : ByteOrder := .little
  responseTimeout : UInt32 := 100
  writeBuilt : Bool := false
  allowWrite : Bool := false
  daqAnchor : DaqField := {}
  daqAnchorExpect : List UInt8 := []
  deriving DecidableEq

/-- The world while the hub runs without interruption: the clock, and the frames the CAN port
would take. -/
structure Env where
  now : UInt32 := 0
  inject : Cro → Bool

/-- `static_cast<int32_t>(now - deadline) >= 0`. -/
def reached (now deadline : UInt32) : Bool := decide ((now - deadline).toNat < 2 ^ 31)

/-! ## Operations -/

/-- The four operations that take a callback. -/
inductive Kind where
  | read
  | write
  | connect
  | daq
  deriving DecidableEq, Repr

/-- The steps a DAQ read can fail at. -/
inductive DaqStep where
  | getDaqSize
  | setDaqPtr
  | writeDaq
  | setSStatus
  | startStop
  | collectTimeout
  | anchor
  | sample
  deriving DecidableEq, Repr

/-- `DaqReadRequest` -/
structure DaqReadRequest where
  fields : List DaqField := []
  list : UInt8 := 0
  dtoId : UInt32 := 0x702
  event : UInt8 := 0
  prescaler : UInt16 := 10
  samples : UInt16 := 30
  collectTimeout : UInt32 := 5000
  requireAnchor : Bool := true
  deriving DecidableEq

/-- `DaqReadResult` -/
structure DaqReadResult where
  ok : Bool := false
  failedStep : Option DaqStep := none
  framesSeen : UInt16 := 0
  anchorOk : UInt16 := 0
  values : List (List UInt8) := []
  deriving DecidableEq

/-- What the hub does that can be seen outside it. -/
inductive Event where
  | sent (id : UInt32) (cro : Cro)
  | response (command code : UInt8) (payload : List UInt8)
  | connected
  | error (command code : UInt8)
  | daq (pid : UInt8) (data : List UInt8)
  | daqRead (result : DaqReadResult)
  | readDone (op : Nat) (data : List UInt8)
  | readDropped (op : Nat)
  | writeDone (op : Nat) (ok : Bool)
  | connectDone (op : Nat) (ok : Bool)
  | daqDone (op : Nat) (result : DaqReadResult)
  | returned (kind : Kind) (op : Nat) (ok : Bool)
  deriving DecidableEq

/-- The continuations given to `send_`. -/
inductive CommandCallback where
  | connectAnd
  | readMta
  | readUpload
  | write
  | daqSize
  | daqPtr
  | daqWrite (index : Nat)
  | daqStatus
  | daqStart
  | teardownStop
  | teardownStatus
  deriving DecidableEq, Repr

/-- What is left of a function of the hub when its user's callback returns. -/
inductive Frame where
  | done
  | afterResponse (command : UInt8) (callback : Option CommandCallback) (data : List UInt8)
  | afterConnected (callback : Option CommandCallback) (data : List UInt8)
  | afterError (callback : Option CommandCallback)
  | readDone
  | daqFrame (data : List UInt8)
  | daqReported (result : DaqReadResult)
  deriving DecidableEq

/-- `CcpHub`: the session, the request in flight, and what it is for. -/
structure Hub where
  enabled : Bool := true
  connected : Bool := false
  inFlight : Bool := false
  ctr : UInt8 := 0
  inFlightCtr : UInt8 := 0
  inFlightCommand : UInt8 := 0
  deadline : UInt32 := 0
  commandCallback : Option CommandCallback := none
  readCallback : Option Nat := none
  readData : List UInt8 := []
  readRemaining : Nat := 0
  writeData : List UInt8 := []
  writeOffset : Nat := 0
  writeCallback : Option Nat := none
  connectCallback : Option Nat := none
  daqReadActive : Bool := false
  daqCollecting : Bool := false
  daqAnchorRequired : Bool := false
  daqRequestedOffset : Nat := 0
  daqTargetSamples : UInt16 := 0
  daqCollectDeadline : UInt32 := 0
  daqReadResult : DaqReadResult := {}
  daqReadReq : DaqReadRequest := {}
  daqLayout : List DaqField := []
  daqValuesValid : List Bool := []
  daqReadDone : Option Nat := none
  log : List Event := []
  deriving DecidableEq

/-- The hub, and the frame left if its user has control now. -/
abbrev Control := Hub × Option Frame

namespace Hub

variable (cfg : Config) (env : Env)

/-- Something the caller sees. -/
def emit (h : Hub) (e : Event) : Hub := { h with log := h.log ++ [e] }

/-! ## One command -/

def writeAllowed (command : UInt8) : Bool :=
  !isWriteCommand command || (cfg.writeBuilt && cfg.allowWrite)

/-- `send_`. -/
def send (h : Hub) (cro : Cro) (callback : Option CommandCallback) : Hub × Bool :=
  if !h.enabled then (h, false)
  else if !writeAllowed cfg cro.code then (h, false)
  else if h.inFlight then (h, false)
  else
    let ctr := h.ctr
    let cro := cro.withCtr ctr
    let h := { h with ctr := ctr + 1 }
    if !env.inject cro then (h, false)
    else
      let h := h.emit (.sent cfg.commandId cro)
      ({ h with
        inFlight := true
        inFlightCtr := ctr
        inFlightCommand := cro.code
        deadline := env.now + cfg.responseTimeout
        commandCallback := callback }, true)

/-- `finish_`, up to its first callback. -/
def finish (h : Hub) (success : Bool) (code : UInt8) (data : List UInt8) : Control :=
  let command := h.inFlightCommand
  let callback := h.commandCallback
  let h := { h with commandCallback := none, inFlight := false }
  if success then
    (h.emit (.response command code data), some (.afterResponse command callback data))
  else (h.emit (.error command code), some (.afterError callback))

/-! ## The memory sequences -/

/-- `fail_sequence_`: whatever sequence is under way ends. -/
def failSequence (h : Hub) : Control :=
  let h :=
    if h.readRemaining ≠ 0 then
      let dropped := h.readCallback
      let h := { h with readRemaining := 0, readData := [], readCallback := none }
      match dropped with
      | some op => h.emit (.readDropped op)
      | none => h
    else h
  if h.writeData ≠ [] then
    let callback := h.writeCallback
    let h := { h with writeData := [], writeOffset := 0, writeCallback := none }
    match callback with
    | some op => (h.emit (.writeDone op false), some .done)
    | none => (h, none)
  else (h, none)

/-- The next `UPLOAD` of a read; whether it was sent is not looked at. -/
def readNext (h : Hub) : Control :=
  let n := readChunk h.readRemaining
  ((h.send cfg env (upload 0 (UInt8.ofNat n)) (some .readUpload)).1, none)

def continueRead (h : Hub) (success : Bool) (data : List UInt8) : Control :=
  if !success || decide (data.length < readChunk h.readRemaining) then h.failSequence
  else
    let n := readChunk h.readRemaining
    let h := { h with
      readData := h.readData ++ data.take n
      readRemaining := h.readRemaining - n }
    if h.readRemaining = 0 then
      let callback := h.readCallback
      let h := { h with readCallback := none }
      match callback with
      | some op => (h.emit (.readDone op h.readData), some .readDone)
      | none => ({ h with readData := [] }, none)
    else h.readNext cfg env

/-- The callback of the `SET_MTA` of a read. -/
def readMta (h : Hub) (ok : Bool) : Control :=
  if !ok then h.failSequence else h.readNext cfg env

/-- `read_memory` -/
def readMemory (h : Hub) (ext : UInt8) (address : UInt32) (len : UInt16) (callback : Nat) :
    Hub × Bool :=
  if len = 0 ∨ h.inFlight = true ∨ h.readRemaining ≠ 0 then (h, false)
  else
    let h := { h with
      readCallback := some callback
      readData := []
      readRemaining := len.toNat }
    h.send cfg env (setMta 0 cfg.byteOrder 0 ext address) (some .readMta)

/-- The command for the bytes of a write that are still to go. -/
def writeChunk (rest : List UInt8) : Cro :=
  if 6 ≤ rest.length then dnload6 0 rest else dnload 0 rest (UInt8.ofNat rest.length)

def continueWrite (h : Hub) (success : Bool) : Control :=
  if !success then h.failSequence
  else if h.writeOffset = h.writeData.length then
    let callback := h.writeCallback
    let h := { h with writeCallback := none, writeData := [] }
    match callback with
    | some op => (h.emit (.writeDone op true), some .done)
    | none => (h, none)
  else
    let rest := h.writeData.drop h.writeOffset
    let h := { h with writeOffset := h.writeOffset + min rest.length 6 }
    ((h.send cfg env (writeChunk rest) (some .write)).1, none)

/-- `write_memory` -/
def writeMemory (h : Hub) (ext : UInt8) (address : UInt32) (data : List UInt8)
    (callback : Nat) : Hub × Bool :=
  if data = [] ∨ h.inFlight = true ∨ writeAllowed cfg Command.dnload = false then (h, false)
  else
    let h := { h with writeData := data, writeOffset := 0, writeCallback := some callback }
    h.send cfg env (setMta 0 cfg.byteOrder 0 ext address) (some .write)

/-! ## Connecting -/

/-- The callback of the `CONNECT` of `connect_and`. -/
def connectDone (h : Hub) (ok : Bool) : Control :=
  let callback := h.connectCallback
  let h := { h with connectCallback := none }
  match callback with
  | some op => (h.emit (.connectDone op ok), some .done)
  | none => (h, none)

/-- `connect_and` -/
def connectAnd (h : Hub) (callback : Nat) : Hub × Bool × Option Frame :=
  if h.connected then (h.emit (.connectDone callback true), true, some .done)
  else
    let h := { h with connectCallback := some callback }
    let (h, sent) :=
      h.send cfg env (Ccp.connect 0 cfg.byteOrder cfg.stationAddress) (some .connectAnd)
    (h, sent, none)

/-! ## The DAQ read -/

/-- `fire_daq_read_`, up to its first callback. -/
def fireDaqRead (h : Hub) : Control :=
  if !h.daqReadActive then (h, none)
  else
    let result := h.daqReadResult
    let callback := h.daqReadDone
    let h := { h with
      daqReadResult := {}
      daqReadDone := none
      daqReadActive := false
      daqCollecting := false
      daqReadReq := {}
      daqLayout := []
      daqValuesValid := [] }
    match callback with
    | some op => (h.emit (.daqDone op result), some (.daqReported result))
    | none => (h.emit (.daqRead result), some .done)

/-- The lambda `status` of `teardown_daq_read_`. -/
def teardownStatus (h : Hub) : Control :=
  match h.send cfg env (setSStatus 0 0) (some .teardownStatus) with
  | (h, true) => (h, none)
  | (h, false) => h.fireDaqRead

def teardownDaqRead (h : Hub) : Control :=
  match h.send cfg env (startStopAll 0 0) (some .teardownStop) with
  | (h, true) => (h, none)
  | (h, false) => h.teardownStatus cfg env

/-- The result `complete_daq_read_` reports. -/
def verdict (h : Hub) (failedStep : Option DaqStep) : DaqReadResult :=
  let step : Option DaqStep :=
    if failedStep = none ∧ h.daqAnchorRequired = true ∧ h.daqReadResult.anchorOk = 0 then
      some .anchor
    else failedStep
  let step : Option DaqStep :=
    if step = none ∧ h.daqValuesValid.all id = false then some .sample else step
  let failed := h.daqReadResult.failedStep.or step
  { h.daqReadResult with failedStep := failed, ok := failed = none }

def completeDaqRead (h : Hub) (failedStep : Option DaqStep) : Control :=
  if !h.daqReadActive then (h, none)
  else
    let h := { h with daqCollecting := false }
    { h with daqReadResult := h.verdict failedStep }.teardownDaqRead cfg env

def sendDaqStep (h : Hub) (cro : Cro) (step : DaqStep) (callback : CommandCallback) : Control :=
  match h.send cfg env cro (some callback) with
  | (h, true) => (h, none)
  | (h, false) => h.completeDaqRead cfg env (some step)

def continueDaqWrite (h : Hub) (index : Nat) : Control :=
  match h.daqLayout[index]? with
  | none => h.sendDaqStep cfg env (setSStatus 0 0x82) .setSStatus .daqStatus
  | some field =>
    h.sendDaqStep cfg env (writeDaq 0 cfg.byteOrder field.size field.ext field.address) .writeDaq
      (.daqWrite index)

def beginDaqCollect (h : Hub) : Hub :=
  { h with
    daqCollecting := true
    daqCollectDeadline := env.now + h.daqReadReq.collectTimeout }

/-- The bytes of the requested fields in `frame`, if it is long enough for each. -/
def fieldValues (h : Hub) (frame : List UInt8) : Option (List (List UInt8)) :=
  (List.range h.daqReadReq.fields.length).mapM fun i =>
    let index := h.daqRequestedOffset + i
    let size := (h.daqLayout.getD index {}).size.toNat
    let offset := (daqFieldOffset h.daqLayout index).toNat
    if frame.length < offset + size then none else some ((frame.drop offset).take size)

/-- A frame of the list. -/
def handleDaqFrame (h : Hub) (frame : List UInt8) : Control :=
  if !h.daqCollecting || frame.head? ≠ some 0 then (h, none)
  else
    let result := { h.daqReadResult with framesSeen := h.daqReadResult.framesSeen + 1 }
    let matched := !h.daqAnchorRequired ||
      daqAnchorMatches frame (daqFieldOffset h.daqLayout 0) cfg.daqAnchorExpect
        (UInt8.ofNat cfg.daqAnchorExpect.length)
    let result :=
      if h.daqAnchorRequired && matched then { result with anchorOk := result.anchorOk + 1 }
      else result
    let h := { h with daqReadResult := result }
    let h :=
      match if matched then h.fieldValues frame else none with
      | some values =>
        { h with
          daqReadResult := { result with values := values }
          daqValuesValid := h.daqValuesValid.map fun _ => true }
      | none => h
    if h.daqTargetSamples ≤ h.daqReadResult.framesSeen then h.completeDaqRead cfg env none
    else (h, none)

def hasDaqAnchor : Bool := decide (cfg.daqAnchorExpect ≠ [])

/-- The fields `daq_read` lays out: the anchor goes first where it is required. -/
def daqLayoutOf (req : DaqReadRequest) : List DaqField :=
  if req.requireAnchor && hasDaqAnchor cfg then cfg.daqAnchor :: req.fields else req.fields

/-- What `daq_read` checks of a request. -/
def accepts (req : DaqReadRequest) : Bool :=
  decide (req.fields ≠ []) && req.fields.all (fun field => decide (field.size ≠ 0)) &&
    (!req.requireAnchor || hasDaqAnchor cfg) && writeAllowed cfg Command.writeDaq &&
    decide (daqTotalSize (daqLayoutOf cfg req) ≤ odtPayload)

/-- What `daq_read` sets before its first command. -/
def beginDaqRead (h : Hub) (req : DaqReadRequest) (callback : Nat) : Hub :=
  { h with
    daqReadActive := true
    daqCollecting := false
    daqAnchorRequired := req.requireAnchor && hasDaqAnchor cfg
    daqRequestedOffset := if req.requireAnchor && hasDaqAnchor cfg then 1 else 0
    daqTargetSamples := req.samples
    daqReadReq := req
    daqLayout := daqLayoutOf cfg req
    daqValuesValid := List.replicate req.fields.length false
    daqReadResult := { values := List.replicate req.fields.length [] }
    daqReadDone := some callback }

/-- What `daq_read` takes back if that command is refused. -/
def abandonDaqRead (h : Hub) : Hub :=
  { h with
    daqReadActive := false
    daqReadDone := none
    daqReadReq := {}
    daqLayout := []
    daqValuesValid := [] }

/-- `daq_read` -/
def daqRead (h : Hub) (req : DaqReadRequest) (callback : Nat) : Hub × Bool :=
  if accepts cfg req = false ∨ h.inFlight = true ∨ h.daqReadActive = true then (h, false)
  else
    let h := h.beginDaqRead cfg req callback
    match h.send cfg env (getDaqSize 0 cfg.byteOrder req.list req.dtoId) (some .daqSize) with
    | (h, true) => (h, true)
    | (h, false) => (h.abandonDaqRead, false)

/-! ## Going on -/

/-- The callback of a command. -/
def resume (h : Hub) (callback : CommandCallback) (ok : Bool) (data : List UInt8) : Control :=
  match callback with
  | .connectAnd => h.connectDone ok
  | .readMta => h.readMta cfg env ok
  | .readUpload => h.continueRead cfg env ok data
  | .write => h.continueWrite cfg env ok
  | .daqSize =>
    if !ok then h.completeDaqRead cfg env (some .getDaqSize)
    else h.sendDaqStep cfg env (setDaqPtr 0 h.daqReadReq.list 0 0) .setDaqPtr .daqPtr
  | .daqPtr =>
    if !ok then h.completeDaqRead cfg env (some .setDaqPtr) else h.continueDaqWrite cfg env 0
  | .daqWrite index =>
    if !ok then h.completeDaqRead cfg env (some .writeDaq)
    else h.continueDaqWrite cfg env (index + 1)
  | .daqStatus =>
    if !ok then h.completeDaqRead cfg env (some .setSStatus)
    else
      h.sendDaqStep cfg env (startStop 0 cfg.byteOrder 1 h.daqReadReq.list 0 h.daqReadReq.event
        h.daqReadReq.prescaler) .startStop .daqStart
  | .daqStart =>
    if !ok then h.completeDaqRead cfg env (some .startStop) else (h.beginDaqCollect env, none)
  | .teardownStop => h.teardownStatus cfg env
  | .teardownStatus => h.fireDaqRead

/-- The end of `finish_`: `if (callback) callback(...)`. -/
def callBack (h : Hub) (callback : Option CommandCallback) (ok : Bool) (data : List UInt8) :
    Control :=
  match callback with
  | some callback => h.resume cfg env callback ok data
  | none => (h, none)

/-- What a frame left to do. -/
def run (h : Hub) : Frame → Control
  | .done => (h, none)
  | .afterResponse command callback data =>
    if command = Command.connect then
      ({ h with connected := true }.emit .connected, some (.afterConnected callback data))
    else
      let h := if command = Command.disconnect then { h with connected := false } else h
      h.callBack cfg env callback true data
  | .afterConnected callback data => h.callBack cfg env callback true data
  | .afterError callback => h.callBack cfg env callback false []
  | .readDone => ({ h with readData := [] }, none)
  | .daqFrame data => h.handleDaqFrame cfg env data
  | .daqReported result => (h.emit (.daqRead result), some .done)

/-! ## What comes from outside -/

/-- `on_frame`, for a frame of the answer id. -/
def onFrame (h : Hub) (extended rtr : Bool) (data : List UInt8) : Control :=
  if extended || rtr then (h, none)
  else
    match decodeDto data with
    | .daq pid bytes => (h.emit (.daq pid bytes), some (.daqFrame data))
    | .response returnCode ctr bytes =>
      if !h.inFlight || decide (ctr ≠ h.inFlightCtr) then (h, none)
      else h.finish (returnCode = 0) returnCode bytes
    | .invalid => (h, none)

/-- The first half of `loop`. -/
def checkTimeout (h : Hub) : Control :=
  if h.inFlight && reached env.now h.deadline then h.finish false timeoutCode [] else (h, none)

/-- The second half of `loop`. -/
def checkCollect (h : Hub) : Control :=
  if h.daqCollecting && reached env.now h.daqCollectDeadline then
    h.completeDaqRead cfg env (some .collectTimeout)
  else (h, none)

end Hub

/-! ## The public commands -/

/-- The calls that send one command and keep no callback. -/
inductive UserCommand where
  | connect (station : UInt16)
  | disconnect (terminate : Bool)
  | getCcpVersion (main release : UInt8)
  | exchangeId
  | getSeed (resource : UInt8)
  | unlock (key : List UInt8)
  | setMta (mta ext : UInt8) (address : UInt32)
  | dnload (data : List UInt8)
  | dnload6 (data : List UInt8)
  | upload (size : UInt8)
  | shortUp (size ext : UInt8) (address : UInt32)
  | selectCalPage
  | getActiveCalPage
  | getDaqSize (list : UInt8) (dtoId : UInt32)
  | setDaqPtr (list odt element : UInt8)
  | writeDaq (size ext : UInt8) (address : UInt32)
  | startStop (mode list lastOdt event : UInt8) (rate : UInt16)
  | startStopAll (mode : UInt8)
  | setSStatus (status : UInt8)
  | getSStatus
  | buildChecksum (size : UInt32)
  | move (size : UInt32)
  | test (station : UInt16)
  | clearMemory
  | program
  | program6 (data : List UInt8)
  | diagService (data : List UInt8)
  | actionService (data : List UInt8)
  | raw (cro : List UInt8)
  deriving DecidableEq

/-- The frame a public command sends, or none if its arguments are refused. -/
def UserCommand.cro? (cfg : Config) : UserCommand → Option Cro
  | .connect station =>
    some (Ccp.connect 0 cfg.byteOrder (if station = 0 then cfg.stationAddress else station))
  | .disconnect terminate => some (Ccp.disconnect 0 cfg.byteOrder terminate cfg.stationAddress)
  | .getCcpVersion main release =>
    some (Cro.ofBytes [Command.getCcpVersion, 0, main, release])
  | .exchangeId => some (command 0 Command.exchangeId)
  | .getSeed resource => some (Cro.ofBytes [Command.getSeed, 0, resource])
  | .unlock key =>
    if 6 < key.length then none else some (Cro.ofBytes ([Command.unlock, 0] ++ key))
  | .setMta mta ext address => some (Ccp.setMta 0 cfg.byteOrder mta ext address)
  | .dnload data =>
    if data = [] ∨ maxTransfer < data.length then none
    else some (Ccp.dnload 0 data (UInt8.ofNat data.length))
  | .dnload6 data => some (Ccp.dnload6 0 data)
  | .upload size =>
    if 0 < size ∧ size.toNat ≤ maxTransfer then some (Ccp.upload 0 size) else none
  | .shortUp size ext address =>
    if 0 < size ∧ size.toNat ≤ maxTransfer then
      some (Ccp.shortUp 0 cfg.byteOrder size ext address)
    else none
  | .selectCalPage => some (command 0 Command.selectCalPage)
  | .getActiveCalPage => some (command 0 Command.getActiveCalPage)
  | .getDaqSize list dtoId => some (Ccp.getDaqSize 0 cfg.byteOrder list dtoId)
  | .setDaqPtr list odt element => some (Ccp.setDaqPtr 0 list odt element)
  | .writeDaq size ext address => some (Ccp.writeDaq 0 cfg.byteOrder size ext address)
  | .startStop mode list lastOdt event rate =>
    some (Ccp.startStop 0 cfg.byteOrder mode list lastOdt event rate)
  | .startStopAll mode => some (Ccp.startStopAll 0 mode)
  | .setSStatus status => some (Ccp.setSStatus 0 status)
  | .getSStatus => some (command 0 Command.getSStatus)
  | .buildChecksum size => some (sizedU32 0 cfg.byteOrder Command.buildChksum size)
  | .move size => some (sizedU32 0 cfg.byteOrder Command.move size)
  | .test station =>
    let station := if station = 0 then cfg.stationAddress else station
    some (Cro.ofBytes ([Command.test, 0] ++ putU16 station cfg.byteOrder))
  | .clearMemory => some (command 0 Command.clearMemory)
  | .program => some (command 0 Command.program)
  | .program6 data => some (Cro.ofBytes ([Command.program6, 0] ++ data.take 6))
  | .diagService data =>
    if 6 < data.length then none else some (Cro.ofBytes ([Command.diagService, 0] ++ data))
  | .actionService data =>
    if 6 < data.length then none else some (Cro.ofBytes ([Command.actionService, 0] ++ data))
  | .raw cro =>
    if cro = [] ∨ frameLen < cro.length then none else some (Cro.ofBytes cro)

/-! ## The hub and its user -/

/-- The calls a user can make. -/
inductive Call where
  | command (c : UserCommand)
  | setEnabled (enabled : Bool)
  | readMemory (ext : UInt8) (address : UInt32) (len : UInt16)
  | writeMemory (ext : UInt8) (address : UInt32) (data : List UInt8)
  | connectAnd
  | daqRead (req : DaqReadRequest)
  deriving DecidableEq

/-- The operation a call is, if it is one. -/
def Call.kind? : Call → Option Kind
  | .command _ => none
  | .setEnabled _ => none
  | .readMemory .. => some .read
  | .writeMemory .. => some .write
  | .connectAnd => some .connect
  | .daqRead _ => some .daq

/-- What a call does; `op` is its number should it be an operation. -/
def Hub.perform (cfg : Config) (env : Env) (h : Hub) (op : Nat) : Call → Hub × Bool × Option Frame
  | .command c =>
    match c.cro? cfg with
    | some cro =>
      let (h, ok) := h.send cfg env cro none
      (h, ok, none)
    | none => (h, false, none)
  | .setEnabled enabled => ({ h with enabled := enabled }, true, none)
  | .readMemory ext address len =>
    let (h, ok) := h.readMemory cfg env ext address len op
    (h, ok, none)
  | .writeMemory ext address data =>
    let (h, ok) := h.writeMemory cfg env ext address data op
    (h, ok, none)
  | .connectAnd => h.connectAnd cfg env op
  | .daqRead req =>
    let (h, ok) := h.daqRead cfg env req op
    (h, ok, none)

/-- A callback of the user that is running: what the hub does when it returns, and whether `loop`
goes on after that. -/
structure Region where
  frame : Frame
  inLoop : Bool := false
  deriving DecidableEq

/-- The hub, the callbacks of its user that are running (the innermost first), and how many
operations were asked for so far. -/
structure State where
  hub : Hub := {}
  regions : List Region := []
  ops : Nat := 0
  deriving DecidableEq

/-- What happens next: a call (of a running callback, or of anyone if none is running), the return
of the innermost callback, a frame, or a pass of `loop`. -/
inductive Action where
  | call (c : Call)
  | ret
  | frame (extended rtr : Bool) (data : List UInt8)
  | loop
  deriving DecidableEq

namespace State

variable (cfg : Config) (env : Env)

/-- Control goes to the user if a frame is left. -/
def enter (s : State) (control : Control) (inLoop : Bool) : State :=
  match control with
  | (h, none) => { s with hub := h }
  | (h, some frame) => { s with hub := h, regions := ⟨frame, inLoop⟩ :: s.regions }

/-- A call of the component. -/
def call (s : State) (c : Call) : State :=
  let (h, ok, frame) := s.hub.perform cfg env s.ops c
  match c.kind? with
  | none => s.enter (h, frame) false
  | some kind =>
    { s with ops := s.ops + 1 }.enter (h.emit (.returned kind s.ops ok), frame) false

/-- The return of the innermost callback. -/
def ret (s : State) : State :=
  match s.regions with
  | [] => s
  | region :: outer =>
    let s := { s with regions := outer }
    match s.hub.run cfg env region.frame with
    | (h, some frame) => s.enter (h, some frame) region.inLoop
    | (h, none) =>
      if region.inLoop then s.enter (h.checkCollect cfg env) false else { s with hub := h }

/-- `loop`. -/
def loop (s : State) : State :=
  match s.hub.checkTimeout env with
  | (h, some frame) => s.enter (h, some frame) true
  | (h, none) => s.enter (h.checkCollect cfg env) false

def step (s : State) : Action → State
  | .call c => s.call cfg env c
  | .ret => s.ret cfg env
  | .frame extended rtr data => s.enter (s.hub.onFrame extended rtr data) false
  | .loop => s.loop cfg env

/-- Frames and passes of `loop` come when no callback is running, returns when one is. -/
def Allowed (s : State) : Action → Prop
  | .call _ => True
  | .ret => s.regions ≠ []
  | .frame .. => s.regions = []
  | .loop => s.regions = []

instance (s : State) (a : Action) : Decidable (s.Allowed a) := by
  cases a <;> unfold Allowed <;> infer_instance

end State

end EspCars.Ccp
