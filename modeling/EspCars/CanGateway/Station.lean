import EspCars.CanGateway.DecodeEntities
import EspCars.Ccp.Hub
import EspCars.Isotp.Protocol

/-!
# A port, its buffers and its consumers

A port with the memory that received frames are written to: the payloads of the TX slots of its
route and the payload of the staging frame. The driver writes what a data frame carries and leaves
the rest of the buffer as it is, so that a remote frame arrives with the bytes of whatever frame
was there before. Behind the port stand the consumers that the code has for its frames: the decode
entities, an ISO-TP instance, a CCP hub.
-/

namespace EspCars.CanGateway

open EspCars.Lib

variable {cfg : PortConfig} {τ : Type}

/-! ## Buffers -/

/-- Where a frame can be received into: the payload of a TX slot, or `rx_staging_payload_`. -/
inductive RxBuffer
  | slot (index : Nat)
  | staging
  deriving DecidableEq

/-- The bytes of the slots and of the staging buffer. -/
structure Buffers where
  slots : Nat → Bytes8
  staging : Bytes8

namespace Buffers

def read (b : Buffers) : RxBuffer → Bytes8
  | .slot i => b.slots i
  | .staging => b.staging

def write (b : Buffers) (buffer : RxBuffer) (data : Bytes8) : Buffers :=
  match buffer with
  | .slot i => { b with slots := fun j => if j = i then data else b.slots j }
  | .staging => { b with staging := data }

end Buffers

/-- The buffer that `handle_rx_isr` gives to the driver, if it asks for the frame. -/
def RxPort.buffer? (s : RxPort cfg τ) (e : RxEvent) : Option RxBuffer :=
  match s.route with
  | none => if s.consumers.armed then some .staging else none
  | some p =>
    if !e.enabled ∨ p.state = .busOff then if s.consumers.active then some .staging else none
    else
      match p.pool.acquire.1 with
      | none => if s.consumers.active then some .staging else none
      | some i => some (.slot i)

/-- The frame in a buffer with the bytes `old`: the driver writes the payload of a data frame. -/
def RxFrame.into (f : RxFrame) (old : Bytes8) : RxFrame :=
  { f with
    buffer := if f.rtr then old
      else .ofFn fun i => if i < f.toCanFrame.dlc then f.buffer.get i else old.get i }

/-- What the buffer holds when the interrupt returns: a slot has been patched in place. -/
def RxFrame.left (table : RouteTable) (f : RxFrame) : RxBuffer → Bytes8
  | .slot _ => (processFrame table f.toCanFrame).2.data
  | .staging => f.buffer

/-! ## Consumers -/

/-- A component that reads frames or sends them. -/
inductive Client
  | sensor (s : DecodeSensor)
  | binarySensor (s : DecodeBinarySensor)
  | textSensor (s : DecodeTextSensor)
  | isoTp (cfg : Isotp.IsoTpConfig) (p : Isotp.IsoTpProtocol)
  | ccp (cfg : Ccp.Config) (s : Ccp.State)

/-- The world during one callback: the time, and whether the CAN layer would take a frame that is
sent at once. -/
structure CallEnv where
  now : UInt32 := 0
  accepted : Bool := true
  deriving DecidableEq

/-- What else happens to a consumer: its own `loop`, and what its user calls. -/
inductive ClientInput
  | isoTp (input : Isotp.IsoTpProtocol.Input)
  | ccp (env : Ccp.Env) (action : Ccp.Action)

namespace Client

/-- The payload bytes of a view. -/
def payload (view : FrameView) : List UInt8 := view.data.toList.take view.dlc.toNat

def onFrame (c : Client) (env : CallEnv) (view : FrameView) : Client :=
  match c with
  | .sensor s => .sensor (s.onFrame env.now view)
  | .binarySensor s => .binarySensor (s.onFrame view)
  | .textSensor s => .textSensor (s.onFrame env.now view)
  | .isoTp cfg p => .isoTp cfg (p.onFrame cfg view.data.toList view.dlc.toNat env.now env.accepted)
  | .ccp cfg s => .ccp cfg (s.enter (s.hub.onFrame view.extended view.rtr (payload view)) false)

def handle (c : Client) (input : ClientInput) : Client :=
  match c, input with
  | .isoTp cfg p, .isoTp input => .isoTp cfg (p.step cfg input)
  | .ccp cfg s, .ccp env action => .ccp cfg (s.step cfg env action)
  | c, _ => c

/-- It takes a remote frame of this DLC for one that carries data. -/
def reads (c : Client) (dlc : UInt8) : Bool :=
  match c with
  | .sensor s => s.cfg.lastByte < dlc
  | .binarySensor s => s.bit / 8 < dlc
  | .textSensor s => s.cfg.lastByte < dlc
  | .isoTp cfg _ => cfg.addressExtensionLen.val + 1 ≤ dlc.toNat
  | .ccp _ _ => false

end Client

/-! ## The station -/

/-- `clients i` is behind the subscriber `i`. -/
structure Station (cfg : PortConfig) (τ : Type) (n : Nat) where
  port : ObservingPort cfg τ n
  buffers : Buffers
  clients : Nat → Client

/-- What happens; `env k` is for the callback `k` of a step of the drain. -/
inductive StationEvent (cfg : PortConfig) (τ : Type)
  | rx (e : RxEvent)
  | destination (p : Port cfg τ)
  | drain (env : Nat → CallEnv)
  | client (i : Nat) (input : ClientInput)

namespace Station

variable {n : Nat} [NeZero n]

/-- The callbacks one after the other, from the callback `k` on. -/
def answer (env : Nat → CallEnv) : Nat → (Nat → Client) → List (Nat × FrameView) → Nat → Client
  | _, clients, [] => clients
  | k, clients, (i, view) :: calls =>
    answer env (k + 1)
      (fun j => if j = i then (clients i).onFrame (env k) view else clients j) calls

/-- The interrupt: the frame is received into a buffer, if the driver is asked for it. -/
def handleRxIsr (s : Station cfg τ n) (e : RxEvent) : Station cfg τ n :=
  match s.port.rx.buffer? e, e.received with
  | some buffer, some f =>
    let f := f.into (s.buffers.read buffer)
    { s with
      port := s.port.handleRxIsr { e with received := some f }
      buffers := s.buffers.write buffer (f.left cfg.table buffer) }
  | _, _ => { s with port := s.port.handleRxIsr e }

/-- A frame on the wire. -/
def receive (passes : MaskFilter → RxFrame → Bool) (s : Station cfg τ n) (e : RxEvent) :
    Station cfg τ n :=
  if s.port.rejected passes e then { s with port := s.port.receive passes e }
  else s.handleRxIsr e

def drain (s : Station cfg τ n) (env : Nat → CallEnv) : Station cfg τ n :=
  let port := s.port.drainStep
  { s with
    port := port
    clients := answer env 0 s.clients (port.calls.drop s.port.calls.length) }

/-- What happens at the station. -/
def step (passes : MaskFilter → RxFrame → Bool) (s : Station cfg τ n) :
    StationEvent cfg τ → Station cfg τ n
  | .rx e => s.receive passes e
  | .destination p =>
    { s with port := { s.port with rx := { s.port.rx with route := s.port.rx.route.map fun _ => p } } }
  | .drain env => s.drain env
  | .client i input =>
    { s with clients := fun j => if j = i then (s.clients i).handle input else s.clients j }

/-! ## Two runs -/

/-- Two stations that differ in what earlier frames have left in the buffers. -/
def SameButBuffers (s t : Station cfg τ n) : Prop := t = { s with buffers := t.buffers }

/-- No consumer that the frame reaches takes it for a data frame if it is a remote frame. -/
def Unread (s : Station cfg τ n) (e : RxEvent) : Prop :=
  ∀ f, e.received = some f → f.rtr = true → ∀ i sub, s.port.subscribers[i]? = some sub →
    sub.matches f.id f.ide = true → (s.clients i).reads (UInt8.ofNat f.toCanFrame.dlc) = false

end Station

end EspCars.CanGateway
