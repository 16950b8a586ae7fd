import EspCars.Lib.Run
import Mathlib

/-!
# The LIN decoder

`receiveDecode` and the event hooks of `components/linbus/LinProtocolHandler.cpp`, which the
UART event task calls one at a time: a received byte, a hardware break, a framing or parity
error, an idle gap. The decoder's calls of `onData` are collected in `onData`; the echo FIFO
that compares the bytes the node drives itself is carried along.

What a bus does in one frame slot is a word over these events (`Slot.wires`).
`delivered_of_slots` says which frames the decoder hands out when it reads slots one after the
other, whatever else goes on in the node at the same time.
-/

namespace EspCars.Linbus

open EspCars.Lib

/-- `LIN_MAX_DATA_SIZE`. -/
def linMaxDataSize : Nat := 8

instance (priority := 2000) : NeZero (linMaxDataSize + 1) := ⟨Nat.succ_ne_zero 8⟩

/-- `ECHO_FIFO_SIZE`. -/
def echoFifoSize : Nat := 16

/-- `ECHO_BREAK`, a marker above every data byte. -/
def echoBreak : UInt16 := 0x100

/-- `lin_read_state_t`. -/
inductive ReadState
  | «break» | sync | sid | data
  deriving DecidableEq, Repr

/-- `lin_mode_t`. -/
inductive Mode
  | master | slave | listener
  deriving DecidableEq, Repr

/-- `lin_respond_data_t`, as far as answering a header needs it. -/
structure Response where
  id : UInt8
  dataLength : Nat
  responseData : List UInt8
  deriving DecidableEq, Repr

/-- The places that try the data mutex without waiting. -/
inductive LockSite
  | compare | beginTx | push | count
  deriving DecidableEq, Repr

/-- What the node's other tasks decide while one event is handled: the response table, and
whether the mutex is free at each attempt. -/
structure Shared where
  responses : List Response := []
  locked : LockSite → Bool := fun _ => true

/-- The lifetime totals of `lin_statistics_t` that the decoder counts. -/
structure Statistics where
  idRequestsAnswered : UInt32 := 0
  pidErrors : UInt32 := 0
  frameErrors : UInt32 := 0
  collisions : UInt32 := 0
  uartBreaks : UInt32 := 0
  deriving DecidableEq, Repr

/-- The decoder of a `LinProtocolHandler`. `rxExpectedLen` is indexed by the 6-bit ID and holds
at most `linMaxDataSize`; `echo` is the FIFO with its front first. -/
structure Decoder where
  mode : Mode := .listener
  serial : Bool := true
  state : ReadState := .break
  currentID : UInt8 := 0
  currentPIDWithParity : UInt8 := 0
  currentData : List UInt8 := []
  rxExpectedLen : Fin 64 → Fin (linMaxDataSize + 1) := fun _ => 0
  echo : List UInt16 := []
  statistics : Statistics := {}
  onData : List (UInt8 × List UInt8) := []

namespace Decoder

/-! ## Echo FIFO -/

/-- `echoCountCollision`. -/
def echoCountCollision (d : Decoder) (locked : Bool) : Decoder :=
  if locked then
    { d with statistics := { d.statistics with collisions := d.statistics.collisions + 1 } }
  else d

/-- `echoClear`. -/
def echoClear (d : Decoder) : Decoder := { d with echo := [] }

/-- `echoPop`. -/
def echoPop (d : Decoder) : Decoder := { d with echo := d.echo.tail }

/-- `echoBeginTx`. -/
def echoBeginTx (d : Decoder) (s : Shared) : Decoder :=
  if d.echo.length > 0 then (d.echoCountCollision (s.locked .beginTx)).echoClear else d

/-- `echoPush`. -/
def echoPush (d : Decoder) (s : Shared) (v : UInt16) : Decoder :=
  let d := if d.echo.length ≥ echoFifoSize then
    (d.echoCountCollision (s.locked .push)).echoClear else d
  { d with echo := d.echo ++ [v] }

/-- `echoCompare`, called with a nonempty FIFO. -/
def echoCompare (d : Decoder) (s : Shared) (readbyte : UInt8) : Decoder :=
  let front := d.echo.headD 0
  if front = echoBreak then
    let d := d.echoPop
    if readbyte ≠ 0x00 then d.echoCountCollision (s.locked .compare) else d
  -- the break's 0x00 may still trail in behind a break event
  else if front = 0x55 ∧ readbyte = 0x00 then d
  else
    let d := d.echoPop
    if readbyte ≠ front.toUInt8 then d.echoCountCollision (s.locked .compare) else d

/-! ## Decoding -/

/-- `calculate_pid`. -/
def calculatePid (id : UInt8) : UInt8 :=
  let p0 := (id >>> 0 ^^^ id >>> 1 ^^^ id >>> 2 ^^^ id >>> 4) &&& 0x01
  let p1 := ~~~(id >>> 1 ^^^ id >>> 3 ^^^ id >>> 4 ^^^ id >>> 5) &&& 0x01
  id ||| p0 <<< 6 ||| p1 <<< 7

/-- `id & 0x3F` as an index. -/
def index (id : UInt8) : Fin 64 :=
  ⟨(id &&& 0x3F).toNat, by
    rw [UInt8.toNat_and]
    exact Nat.lt_of_le_of_lt Nat.and_le_right (by decide)⟩

/-- `expectedFrameBytes_`. -/
def expectedFrameBytes (d : Decoder) (id : UInt8) : Int :=
  let len := d.rxExpectedLen (index id)
  if len = 0 then -1 else len.val + 1

/-- `resetDecodeState`. -/
def resetDecodeState (d : Decoder) : Decoder := { d with state := .break }

/-- The call of `onData` with the bytes of the frame so far. -/
def callOnData (d : Decoder) : Decoder :=
  { d with onData := d.onData ++ [(d.currentPIDWithParity, d.currentData)] }

/-- `onID`: the node answers a header of its own responses and expects the echo. -/
def onID (d : Decoder) (s : Shared) (id : UInt8) : Decoder :=
  if d.serial = false ∨ d.mode = .listener then d
  else
    match s.responses.find? fun r => r.id = id ∧ r.dataLength ≠ 0 with
    | none => d
    | some r =>
      let d := { d with statistics :=
        { d.statistics with idRequestsAnswered := d.statistics.idRequestsAnswered + 1 } }
      (r.responseData.take r.dataLength).foldl (fun d b => d.echoPush s b.toUInt16)
        (d.echoBeginTx s)

/-- `onInterByteTimeout`. -/
def onInterByteTimeout (d : Decoder) (s : Shared) : Decoder :=
  let d := if d.state = .data then
      (if d.currentData.length ≥ 2 then d.callOnData else d).resetDecodeState
    else d
  if d.echo.length > 0 then (d.echoCountCollision (s.locked .compare)).echoClear else d

/-- `onUartBreak`. -/
def onUartBreak (d : Decoder) (s : Shared) : Decoder :=
  let d := if d.echo.length > 0 ∧ d.echo.headD 0 = echoBreak then d.echoPop else d
  let d := if d.state = .data ∧ d.currentData.length ≥ 2 then d.callOnData else d
  let d := { d with currentData := [], state := .sync }
  if s.locked .count then
    { d with statistics := { d.statistics with uartBreaks := d.statistics.uartBreaks + 1 } }
  else d

/-- `onFrameError`. -/
def onFrameError (d : Decoder) (s : Shared) : Decoder :=
  let d := d.echoClear
  let d := if s.locked .count then
      { d with statistics := { d.statistics with frameErrors := d.statistics.frameErrors + 1 } }
    else d
  if d.state ≠ .sync then d.resetDecodeState else d

/-- The `READ_STATE_SID` case of `receiveDecode`. -/
def receiveSid (d : Decoder) (s : Shared) (readbyte : UInt8) : Decoder :=
  let id := readbyte &&& 0x3F
  if calculatePid id = readbyte then
    let d := { d with currentPIDWithParity := readbyte, currentID := id }
    let d := d.onID s id
    { d with currentData := [], state := .data }
  else
    let d := if s.locked .count then
        { d with statistics := { d.statistics with pidErrors := d.statistics.pidErrors + 1 } }
      else d
    { d with state := .break }

/-- The `READ_STATE_DATA` case of `receiveDecode`. -/
def receiveData (d : Decoder) (readbyte : UInt8) : Decoder :=
  if d.currentData.length < linMaxDataSize + 1 then
    let d := { d with currentData := d.currentData ++ [readbyte] }
    let expect := d.expectedFrameBytes d.currentID
    if expect > 0 ∧ (d.currentData.length : Int) ≥ expect then d.callOnData.resetDecodeState
    else d
  else (if d.currentData.length ≥ 2 then d.callOnData else d).resetDecodeState

/-- The `switch` of `receiveDecode`. -/
def decode (d : Decoder) (s : Shared) (readbyte command : UInt8) : Decoder :=
  match d.state with
  | .break =>
    let d := { d with currentData := [] }
    if readbyte = 0x00 then { d with state := .sync } else d
  | .sync =>
    if readbyte = 0x55 then { d with state := .sid }
    else if readbyte = 0x00 then d
    else { d with state := .break }
  | .sid => d.receiveSid s readbyte
  | .data => if command = 0 then d.receiveData readbyte else d

/-- `receiveDecode`. The event task passes every byte with command 0. -/
def receiveDecode (d : Decoder) (s : Shared) (readbyte command : UInt8) : Decoder :=
  let d := if command = 0 ∧ d.echo.length > 0 then d.echoCompare s readbyte else d
  d.decode s readbyte command

/-- The same but for the echo FIFO and the collisions counted. -/
def EchoOnly (d d' : Decoder) : Prop :=
  ∃ e c, d' = { d with echo := e, statistics := { d.statistics with collisions := c } }

namespace EchoOnly

theorem refl (d : Decoder) : EchoOnly d d := ⟨d.echo, d.statistics.collisions, rfl⟩

theorem symm {d d' : Decoder} (h : EchoOnly d d') : EchoOnly d' d := by
  obtain ⟨e, c, rfl⟩ := h
  exact ⟨d.echo, d.statistics.collisions, rfl⟩

theorem trans {d d' d'' : Decoder} (h : EchoOnly d d') (h' : EchoOnly d' d'') :
    EchoOnly d d'' := by
  obtain ⟨e, c, rfl⟩ := h
  obtain ⟨e', c', rfl⟩ := h'
  exact ⟨e', c', rfl⟩

end EchoOnly

section Echo

variable (d : Decoder) (s : Shared)

theorem echoOnly_echoCountCollision (locked : Bool) :
    EchoOnly d (d.echoCountCollision locked) := by
  cases locked with
  | false => exact .refl d
  | true => exact ⟨d.echo, _, rfl⟩

theorem echoOnly_echoClear : EchoOnly d d.echoClear := ⟨[], d.statistics.collisions, rfl⟩

theorem echoOnly_echoPop : EchoOnly d d.echoPop := ⟨d.echo.tail, d.statistics.collisions, rfl⟩

theorem echoOnly_echoBeginTx : EchoOnly d (d.echoBeginTx s) := by
  unfold echoBeginTx
  split_ifs
  · exact (echoOnly_echoCountCollision d _).trans (echoOnly_echoClear _)
  · exact .refl d

theorem echoOnly_echoPush (v : UInt16) : EchoOnly d (d.echoPush s v) := by
  have hpush : ∀ d : Decoder, EchoOnly d { d with echo := d.echo ++ [v] } :=
    fun d => ⟨_, d.statistics.collisions, rfl⟩
  unfold echoPush
  dsimp only
  split_ifs
  · exact ((echoOnly_echoCountCollision d _).trans (echoOnly_echoClear _)).trans (hpush _)
  · exact hpush d

theorem echoOnly_pushes (bytes : List UInt8) :
    EchoOnly d (bytes.foldl (fun d b => d.echoPush s b.toUInt16) d) := by
  induction bytes generalizing d with
  | nil => exact .refl d
  | cons b bytes ih => exact (echoOnly_echoPush d s b.toUInt16).trans (ih _)

theorem echoOnly_echoCompare (b : UInt8) : EchoOnly d (d.echoCompare s b) := by
  have hpop := echoOnly_echoPop d
  unfold echoCompare
  dsimp only
  split_ifs
  · exact hpop.trans (echoOnly_echoCountCollision _ _)
  · exact hpop
  · exact .refl d
  · exact hpop.trans (echoOnly_echoCountCollision _ _)
  · exact hpop

end Echo

/-- What the decoder makes of its events does not depend on the echo FIFO and the totals:
the rest of the state. -/
def SameButEcho (d d' : Decoder) : Prop := ∃ e t, d' = { d with echo := e, statistics := t }

namespace SameButEcho

theorem refl (d : Decoder) : SameButEcho d d := ⟨d.echo, d.statistics, rfl⟩

theorem trans {d d' d'' : Decoder} (h : SameButEcho d d') (h' : SameButEcho d' d'') :
    SameButEcho d d'' := by
  obtain ⟨e, t, rfl⟩ := h
  obtain ⟨e', t', rfl⟩ := h'
  exact ⟨e', t', rfl⟩

end SameButEcho

theorem EchoOnly.sameButEcho {d d' : Decoder} (h : EchoOnly d d') : SameButEcho d d' := by
  obtain ⟨e, c, rfl⟩ := h
  exact ⟨e, _, rfl⟩

theorem sameButEcho_onID (d : Decoder) (s : Shared) (id : UInt8) :
    SameButEcho d (d.onID s id) := by
  unfold onID
  split_ifs
  · exact .refl d
  · split
    · exact .refl d
    · rename_i r _
      have hcount : SameButEcho d { d with statistics :=
          { d.statistics with idRequestsAnswered := d.statistics.idRequestsAnswered + 1 } } :=
        ⟨_, _, rfl⟩
      exact hcount.trans ((echoOnly_echoBeginTx _ s).trans (echoOnly_pushes _ s _)).sameButEcho

/-- The byte is compared with the echo and then decoded. -/
theorem receiveDecode_eq (d : Decoder) (s : Shared) (b : UInt8) :
    ∃ d', SameButEcho d d' ∧ d.receiveDecode s b 0 = d'.decode s b 0 := by
  unfold receiveDecode
  dsimp only
  split_ifs
  · exact ⟨_, (echoOnly_echoCompare d s b).sameButEcho, rfl⟩
  · exact ⟨d, .refl d, rfl⟩

end Decoder

/-! ## Events -/

/-- What the UART event task hands to the decoder. -/
inductive Wire
  | byte (b : UInt8)
  | interByteTimeout
  | uartBreak
  | frameError
  deriving DecidableEq, Repr

/-- One event, together with what the other tasks do meanwhile. -/
def Decoder.step (d : Decoder) : Wire × Shared → Decoder
  | (.byte b, s) => d.receiveDecode s b 0
  | (.interByteTimeout, s) => d.onInterByteTimeout s
  | (.uartBreak, s) => d.onUartBreak s
  | (.frameError, s) => d.onFrameError s

/-! ## Frame slots -/

/-- How a break reaches the decoder. -/
inductive Break
  | byte | event | byteThenEvent | eventThenByte
  deriving DecidableEq, Repr

def Break.wires : Break → List Wire
  | .byte => [.byte 0x00]
  | .event => [.uartBreak]
  | .byteThenEvent => [.byte 0x00, .uartBreak]
  | .eventThenByte => [.uartBreak, .byte 0x00]

/-- How a slot goes on behind its header: a response that ends by its length, a response that
an idle gap ends, or no response. -/
inductive Tail
  | counted (bytes : List UInt8)
  | timed (bytes : List UInt8)
  | silent
  deriving DecidableEq, Repr

def Tail.wires : Tail → List Wire
  | .counted bytes => bytes.map .byte
  | .timed bytes => bytes.map .byte ++ [.interByteTimeout]
  | .silent => [.interByteTimeout]

def Tail.response : Tail → Option (List UInt8)
  | .counted bytes => some bytes
  | .timed bytes => some bytes
  | .silent => none

/-- A header and what follows it. -/
structure Slot where
  start : Break
  frameError : Bool
  pid : UInt8
  tail : Tail
  deriving DecidableEq, Repr

namespace Slot

def id (x : Slot) : UInt8 := x.pid &&& 0x3F

def wires (x : Slot) : List Wire :=
  x.start.wires ++ (if x.frameError then [.frameError] else []) ++
    [.byte 0x55, .byte x.pid] ++ x.tail.wires

/-- The frame that the slot carries. -/
def frames (x : Slot) : List (UInt8 × List UInt8) :=
  (x.tail.response.map (x.pid, ·)).toList

/-- A header with correct parity and a response of a length that its end allows: the declared
one and a checksum, or 2 to 9 bytes before an idle gap. -/
def WellFormed (len : Fin 64 → Fin (linMaxDataSize + 1)) (x : Slot) : Prop :=
  Decoder.calculatePid x.id = x.pid ∧
    match x.tail with
    | .counted bytes => len (Decoder.index x.id) ≠ 0 ∧
        bytes.length = (len (Decoder.index x.id)).val + 1
    | .timed bytes => 2 ≤ bytes.length ∧ bytes.length ≤ 9
    | .silent => True

/-- No response is longer than its ID's declared length and the checksum. -/
def Declared (len : Fin 64 → Fin (linMaxDataSize + 1)) (x : Slot) : Prop :=
  ∀ bytes, x.tail.response = some bytes → len (Decoder.index x.id) ≠ 0 →
    bytes.length ≤ (len (Decoder.index x.id)).val + 1

end Slot

/-! ## One slot -/

namespace Decoder

variable {len : Fin 64 → Fin (linMaxDataSize + 1)} {out : List (UInt8 × List UInt8)}

/-- In state `st`, with the hints `len`, having handed out `out`. -/
structure At (len : Fin 64 → Fin (linMaxDataSize + 1)) (st : ReadState)
    (out : List (UInt8 × List UInt8)) (d : Decoder) : Prop where
  state : d.state = st
  hints : d.rxExpectedLen = len
  onData : d.onData = out

/-- Outside a header and a response. -/
def Resting (len : Fin 64 → Fin (linMaxDataSize + 1)) (out : List (UInt8 × List UInt8))
    (d : Decoder) : Prop :=
  At len .break out d ∨ At len .sync out d

/-- Behind the header with `pid`, having read `bytes` of the response. -/
structure Reading (len : Fin 64 → Fin (linMaxDataSize + 1)) (out : List (UInt8 × List UInt8))
    (pid : UInt8) (bytes : List UInt8) (d : Decoder) : Prop extends At len .data out d where
  heldPid : d.currentPIDWithParity = pid
  heldId : d.currentID = pid &&& 0x3F
  held : d.currentData = bytes

theorem At.same {st : ReadState} {d d' : Decoder} (h : At len st out d)
    (hd : SameButEcho d d') : At len st out d' := by
  obtain ⟨e, t, rfl⟩ := hd
  exact { h with }

theorem Reading.same {pid : UInt8} {bytes : List UInt8} {d d' : Decoder}
    (h : Reading len out pid bytes d) (hd : SameButEcho d d') : Reading len out pid bytes d' := by
  obtain ⟨e, t, rfl⟩ := hd
  exact ⟨{ h with }, h.heldPid, h.heldId, h.held⟩

section Steps

variable {d : Decoder} (s : Shared)

/-- A byte 0x00 starts a header, or goes unnoticed where one has started. -/
theorem at_zero (h : Resting len out d) : At len .sync out (d.receiveDecode s 0x00 0) := by
  obtain ⟨d', hsame, heq⟩ := receiveDecode_eq d s 0x00
  rw [heq]
  unfold decode
  rcases h with h | h
  · have h' := h.same hsame
    rw [h'.state]
    exact ⟨rfl, h'.hints, h'.onData⟩
  · have h' := h.same hsame
    rw [h'.state]
    exact h'

theorem at_uartBreak (h : Resting len out d) : At len .sync out (d.onUartBreak s) := by
  have hpop : SameButEcho d
      (if d.echo.length > 0 ∧ d.echo.headD 0 = echoBreak then d.echoPop else d) := by
    split_ifs
    · exact (echoOnly_echoPop d).sameButEcho
    · exact .refl d
  unfold onUartBreak
  dsimp only
  generalize (if d.echo.length > 0 ∧ d.echo.headD 0 = echoBreak then d.echoPop else d) = d'
    at hpop
  have hstate : d'.state ≠ .data := by
    rcases h with h | h
    · rw [(h.same hpop).state]
      decide
    · rw [(h.same hpop).state]
      decide
  have hkept : d'.rxExpectedLen = len ∧ d'.onData = out := by
    rcases h with h | h
    · exact ⟨(h.same hpop).hints, (h.same hpop).onData⟩
    · exact ⟨(h.same hpop).hints, (h.same hpop).onData⟩
  rw [if_neg (fun hdata : d'.state = .data ∧ _ => hstate hdata.1)]
  split_ifs
  · exact ⟨rfl, hkept.1, hkept.2⟩
  · exact ⟨rfl, hkept.1, hkept.2⟩

/-- An error event that trails the break does not undo it. -/
theorem at_frameError (h : At len .sync out d) : At len .sync out (d.onFrameError s) := by
  unfold onFrameError
  dsimp only
  split_ifs with hcount hstate hstate
  · exact absurd h.state hstate
  · exact { h with }
  · exact absurd h.state hstate
  · exact { h with }

theorem at_syncByte (h : At len .sync out d) : At len .sid out (d.receiveDecode s 0x55 0) := by
  obtain ⟨d', hsame, heq⟩ := receiveDecode_eq d s 0x55
  have h' := h.same hsame
  rw [heq]
  unfold decode
  rw [h'.state]
  exact ⟨rfl, h'.hints, h'.onData⟩

theorem reading_pid {pid : UInt8} (h : At len .sid out d)
    (hpid : calculatePid (pid &&& 0x3F) = pid) :
    Reading len out pid [] (d.receiveDecode s pid 0) := by
  obtain ⟨d', hsame, heq⟩ := receiveDecode_eq d s pid
  have h' := h.same hsame
  rw [heq]
  unfold decode
  rw [h'.state]
  dsimp only
  unfold receiveSid
  dsimp only
  rw [if_pos hpid]
  obtain ⟨e, t, heq'⟩ := sameButEcho_onID
    { d' with currentPIDWithParity := pid, currentID := pid &&& 0x3F } s (pid &&& 0x3F)
  rw [heq']
  exact ⟨⟨rfl, h'.hints, h'.onData⟩, rfl, rfl, rfl⟩

/-- A byte of a response that is not complete with it. -/
theorem reading_byte {pid b : UInt8} {bytes : List UInt8} (h : Reading len out pid bytes d)
    (hroom : bytes.length < linMaxDataSize + 1)
    (hmore : len (index (pid &&& 0x3F)) ≠ 0 →
      bytes.length + 1 < (len (index (pid &&& 0x3F))).val + 1) :
    Reading len out pid (bytes ++ [b]) (d.receiveDecode s b 0) := by
  obtain ⟨d', hsame, heq⟩ := receiveDecode_eq d s b
  have h' := h.same hsame
  rw [heq]
  unfold decode
  rw [h'.state]
  dsimp only
  unfold receiveData
  rw [if_pos rfl, h'.held, if_pos hroom, if_neg]
  · exact ⟨⟨h'.state, h'.hints, h'.onData⟩, h'.heldPid, h'.heldId, rfl⟩
  · unfold expectedFrameBytes
    dsimp only
    rw [h'.heldId, h'.hints, List.length_append, List.length_singleton]
    split_ifs with hlen
    · omega
    · have := hmore hlen
      omega

/-- The last byte of a response of the declared length. -/
theorem at_lastByte {pid b : UInt8} {bytes : List UInt8} (h : Reading len out pid bytes d)
    (hroom : bytes.length < linMaxDataSize + 1) (hlen : len (index (pid &&& 0x3F)) ≠ 0)
    (hlast : bytes.length + 1 = (len (index (pid &&& 0x3F))).val + 1) :
    At len .break (out ++ [(pid, bytes ++ [b])]) (d.receiveDecode s b 0) := by
  obtain ⟨d', hsame, heq⟩ := receiveDecode_eq d s b
  have h' := h.same hsame
  rw [heq]
  unfold decode
  rw [h'.state]
  dsimp only
  unfold receiveData
  rw [if_pos rfl, h'.held, if_pos hroom, if_pos]
  · refine ⟨rfl, h'.hints, ?_⟩
    show d'.onData ++ [(d'.currentPIDWithParity, _)] = _
    rw [h'.onData, h'.heldPid]
  · unfold expectedFrameBytes
    dsimp only
    rw [h'.heldId, h'.hints, List.length_append, List.length_singleton, if_neg hlen]
    omega

/-- An idle gap ends a response, if there are two bytes of one. -/
theorem at_timeout {pid : UInt8} {bytes : List UInt8} (h : Reading len out pid bytes d) :
    At len .break (out ++ if 2 ≤ bytes.length then [(pid, bytes)] else [])
      (d.onInterByteTimeout s) := by
  have hended : At len .break (out ++ if 2 ≤ bytes.length then [(pid, bytes)] else [])
      (if d.currentData.length ≥ 2 then d.callOnData else d).resetDecodeState := by
    rw [h.held]
    split_ifs
    · refine ⟨rfl, h.hints, ?_⟩
      show d.onData ++ [(d.currentPIDWithParity, d.currentData)] = _
      rw [h.onData, h.heldPid, h.held]
    · exact ⟨rfl, h.hints, h.onData.trans (List.append_nil _).symm⟩
  unfold onInterByteTimeout
  dsimp only
  rw [if_pos h.state]
  generalize (if d.currentData.length ≥ 2 then d.callOnData else d).resetDecodeState = d'
    at hended ⊢
  generalize (out ++ if 2 ≤ bytes.length then [(pid, bytes)] else []) = out' at hended ⊢
  split_ifs
  · exact hended.same ((echoOnly_echoCountCollision d' _).trans (echoOnly_echoClear _)).sameButEcho
  · exact hended

end Steps

section Words

/-- A break leaves the decoder waiting for the sync byte, an error event behind it or not. -/
theorem reads_break (x : Slot) :
    Reads step Prod.fst (Resting len out)
      (x.start.wires ++ if x.frameError then [.frameError] else []) (At len .sync out) := by
  have hzero : ∀ d (a : Wire × Shared), Resting len out d → a.1 = .byte 0x00 →
      At len .sync out (d.step a) := by
    rintro d ⟨w, s⟩ hd rfl
    exact at_zero s hd
  have hevent : ∀ d (a : Wire × Shared), Resting len out d → a.1 = .uartBreak →
      At len .sync out (d.step a) := by
    rintro d ⟨w, s⟩ hd rfl
    exact at_uartBreak s hd
  have hstart : Reads step Prod.fst (Resting len out) x.start.wires (At len .sync out) := by
    cases x.start with
    | byte => exact .single hzero
    | event => exact .single hevent
    | byteThenEvent =>
      exact .cons hzero (.single fun d a hd ha => hevent d a (Or.inr hd) ha)
    | eventThenByte =>
      exact .cons hevent (.single fun d a hd ha => hzero d a (Or.inr hd) ha)
  refine hstart.append ?_
  split_ifs
  · refine .single ?_
    rintro d ⟨w, s⟩ hd rfl
    exact at_frameError s hd
  · exact .nil fun _ h => h

theorem reads_header {pid : UInt8} (hpid : calculatePid (pid &&& 0x3F) = pid) :
    Reads step Prod.fst (At len .sync out) [.byte 0x55, .byte pid]
      (Reading len out pid []) := by
  refine .cons (Q := At len .sid out) ?_ (.single ?_)
  · rintro d ⟨w, s⟩ hd rfl
    exact at_syncByte s hd
  · rintro d ⟨w, s⟩ hd rfl
    exact reading_pid s hd hpid

/-- Whatever its bytes are, a response is collected as long as it does not complete. -/
theorem reads_bytes {pid : UInt8} (before bytes : List UInt8)
    (hroom : before.length + bytes.length ≤ linMaxDataSize + 1)
    (hmore : len (index (pid &&& 0x3F)) ≠ 0 →
      before.length + bytes.length < (len (index (pid &&& 0x3F))).val + 1) :
    Reads step Prod.fst (Reading len out pid before) (bytes.map .byte)
      (Reading len out pid (before ++ bytes)) := by
  induction bytes generalizing before with
  | nil =>
    rw [List.append_nil]
    exact .nil fun _ h => h
  | cons b bytes ih =>
    rw [List.length_cons] at hroom hmore
    rw [List.map_cons]
    refine .cons (Q := Reading len out pid (before ++ [b])) ?_ ?_
    · rintro d ⟨w, s⟩ hd rfl
      exact reading_byte s hd (by omega) (fun hlen => by have := hmore hlen; omega)
    · have hrest := ih (before ++ [b])
      rw [List.length_append, List.length_singleton, List.append_assoc] at hrest
      exact hrest (by omega) (fun hlen => by have := hmore hlen; omega)

/-- A response of the declared length is handed out with its last byte. -/
theorem reads_counted {pid : UInt8} {bytes : List UInt8} (hlen : len (index (pid &&& 0x3F)) ≠ 0)
    (hbytes : bytes.length = (len (index (pid &&& 0x3F))).val + 1) :
    Reads step Prod.fst (Reading len out pid []) (bytes.map .byte)
      (At len .break (out ++ [(pid, bytes)])) := by
  have hbound := (len (index (pid &&& 0x3F))).isLt
  obtain ⟨front, b, rfl⟩ : ∃ front b, bytes = front ++ [b] := by
    have hne : bytes ≠ [] := List.ne_nil_of_length_eq_add_one hbytes
    exact ⟨_, _, (List.dropLast_append_getLast hne).symm⟩
  rw [List.length_append, List.length_singleton] at hbytes
  rw [List.map_append, List.map_singleton]
  refine Reads.append (reads_bytes [] front ?_ ?_) (.single ?_)
  · rw [List.length_nil]
    omega
  · rw [List.length_nil]
    omega
  · rintro d ⟨w, s⟩ hd rfl
    rw [List.nil_append] at hd
    exact at_lastByte s hd (by omega) hlen hbytes

/-- An idle gap where no response is being read changes nothing. -/
theorem at_idle {d : Decoder} (s : Shared) (h : At len .break out d) :
    At len .break out (d.onInterByteTimeout s) := by
  have hstate : d.state ≠ .data := by
    rw [h.state]
    decide
  unfold onInterByteTimeout
  dsimp only
  rw [if_neg hstate]
  split_ifs
  · exact h.same ((echoOnly_echoCountCollision d _).trans (echoOnly_echoClear _)).sameButEcho
  · exact h

/-- A response before an idle gap is handed out with the gap, or was with its last byte. -/
theorem reads_timed {pid : UInt8} {bytes : List UInt8} (h2 : 2 ≤ bytes.length)
    (h9 : bytes.length ≤ 9) (hlen : len (index (pid &&& 0x3F)) ≠ 0 →
      bytes.length ≤ (len (index (pid &&& 0x3F))).val + 1) :
    Reads step Prod.fst (Reading len out pid []) (bytes.map .byte ++ [.interByteTimeout])
      (At len .break (out ++ [(pid, bytes)])) := by
  by_cases hfull : len (index (pid &&& 0x3F)) ≠ 0 ∧
      bytes.length = (len (index (pid &&& 0x3F))).val + 1
  · refine (reads_counted hfull.1 hfull.2).append (.single ?_)
    rintro d ⟨w, s⟩ hd rfl
    exact at_idle s hd
  · refine Reads.append (reads_bytes [] bytes ?_ ?_) (.single ?_)
    · rw [List.length_nil, linMaxDataSize]
      omega
    · intro hne
      have := hlen hne
      rw [List.length_nil]
      omega
    · rintro d ⟨w, s⟩ hd rfl
      rw [List.nil_append] at hd
      have htimeout := at_timeout s hd
      rwa [if_pos h2] at htimeout

theorem reads_silent {pid : UInt8} :
    Reads step Prod.fst (Reading len out pid []) [.interByteTimeout] (At len .break out) := by
  refine .single ?_
  rintro d ⟨w, s⟩ hd rfl
  have htimeout := at_timeout s hd
  rwa [if_neg (by decide), List.append_nil] at htimeout

/-- One slot: its frame is handed out, and the decoder rests again. -/
theorem reads_slot {x : Slot} (hx : x.WellFormed len) (hdeclared : x.Declared len) :
    Reads step Prod.fst (Resting len out) x.wires (Resting len (out ++ x.frames)) := by
  obtain ⟨hpid, htail⟩ := hx
  have hend : Reads step Prod.fst (Reading len out x.pid []) x.tail.wires
      (At len .break (out ++ x.frames)) := by
    unfold Slot.Declared Slot.id at hdeclared
    unfold Slot.frames
    cases hcase : x.tail with
    | counted bytes =>
      rw [hcase] at htail
      exact reads_counted htail.1 htail.2
    | timed bytes =>
      rw [hcase] at htail hdeclared
      exact reads_timed htail.1 htail.2 (hdeclared bytes rfl)
    | silent =>
      rw [show out ++ (Option.map (x.pid, ·) Tail.silent.response).toList = out from
        List.append_nil out]
      exact reads_silent
  exact (((reads_break x).append (reads_header hpid)).append hend).mono (fun _ h => h)
    (fun _ h => Or.inl h)

/-- From a decoder outside a header and a response, and for slots that follow each other with
nothing between them: each response is handed out once, in order, with its PID and its bytes,
and nothing else is. -/
theorem delivered_of_slots {d : Decoder} (hstate : d.state ≠ .sid ∧ d.state ≠ .data)
    {xs : List Slot} (hxs : ∀ x ∈ xs, x.WellFormed d.rxExpectedLen)
    (hdeclared : ∀ x ∈ xs, x.Declared d.rxExpectedLen) {events : List (Wire × Shared)}
    (hevents : events.map Prod.fst = xs.flatMap Slot.wires) :
    (exec step d events).onData = d.onData ++ xs.flatMap Slot.frames := by
  have hstart : Resting d.rxExpectedLen d.onData d := by
    cases hcase : d.state with
    | «break» => exact Or.inl ⟨hcase, rfl, rfl⟩
    | sync => exact Or.inr ⟨hcase, rfl, rfl⟩
    | sid => exact absurd hcase hstate.1
    | data => exact absurd hcase hstate.2
  have hreads : Reads step Prod.fst (Resting d.rxExpectedLen d.onData) (xs.flatMap Slot.wires)
      (Resting d.rxExpectedLen (d.onData ++ xs.flatMap Slot.frames)) :=
    Reads.flatMap (fun x hx _ => reads_slot (hxs x hx) (hdeclared x hx)) d.onData
  rcases hreads d events hstart hevents with h | h
  · exact h.onData
  · exact h.onData

/-- ID 2 with the declared length 2, every other one without. -/
def sampleDecoder : Decoder := { rxExpectedLen := fun i => if i = 2 then 2 else 0 }

/-- Slots that follow each other closely, with bytes that look like a break and a header. -/
def sampleSlots : List Slot :=
  [{ start := .byte, frameError := false, pid := 0x42, tail := .counted [0x00, 0x55, 0xC1] },
    { start := .eventThenByte, frameError := true, pid := 0xC1, tail := .timed [0x00, 0x55, 0x42] },
    { start := .event, frameError := false, pid := 0x03, tail := .silent },
    { start := .byteThenEvent, frameError := false, pid := 0x42, tail := .timed [0x55, 0x00] }]

theorem delivered_of_sampleSlots :
    (exec step sampleDecoder ((sampleSlots.flatMap Slot.wires).map (·, {}))).onData =
        [] ++ sampleSlots.flatMap Slot.frames ∧
      sampleSlots.flatMap Slot.frames = [(0x42, [0x00, 0x55, 0xC1]), (0xC1, [0x00, 0x55, 0x42]),
        (0x42, [0x55, 0x00])] := by
  refine ⟨delivered_of_slots ⟨by decide, by decide⟩ ?_ ?_ (by rw [List.map_map]; exact List.map_id _),
    rfl⟩
  · intro x hx
    fin_cases hx
    all_goals refine ⟨by decide, ?_⟩
    · exact ⟨by decide, rfl⟩
    · exact ⟨by decide, by decide⟩
    · trivial
    · exact ⟨by decide, by decide⟩
  · intro x hx bytes hbytes
    fin_cases hx
    all_goals cases hbytes
    all_goals decide

/-- A response of four bytes before an idle gap, for the ID with the declared length 2: the
decoder ends the frame at the declared length. -/
theorem not_delivered_beyond_declared :
    ¬ ∀ (d : Decoder) (xs : List Slot) (events : List (Wire × Shared)),
      d.state ≠ .sid ∧ d.state ≠ .data → (∀ x ∈ xs, x.WellFormed d.rxExpectedLen) →
      events.map Prod.fst = xs.flatMap Slot.wires →
      (exec step d events).onData = d.onData ++ xs.flatMap Slot.frames := by
  intro h
  have hframes := h sampleDecoder
    [{ start := .byte, frameError := false, pid := 0x42, tail := .timed [1, 2, 3, 4] }]
    ([.byte 0x00, .byte 0x55, .byte 0x42, .byte 1, .byte 2, .byte 3, .byte 4,
      .interByteTimeout].map (·, {})) ⟨by decide, by decide⟩ ?_ rfl
  · exact absurd hframes (by decide)
  · intro x hx
    fin_cases hx
    exact ⟨by decide, by decide, by decide⟩

end Words

end Decoder

end EspCars.Linbus
