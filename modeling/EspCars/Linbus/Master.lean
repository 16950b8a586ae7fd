import EspCars.Linbus.Decoder
import Mathlib

/-!
# The LIN node's event task

The loop of `uart_event_task_trampoline` in `components/linbus/LINCommunication.cpp`: every pass
hands one event of the UART to the decoder, or several bytes, and then ticks the schedule
(`master_send` of `LinProtocolHandler.cpp`). The main loop changes the schedule between the
passes.

The echo FIFO and the count of collisions are a side branch of it: `withoutEcho_exec` says that
the rest of the node is in the same state as if the FIFO were dropped after every event.
-/

namespace EspCars.Linbus

open EspCars.Lib

/-- `LIN_MAX_ID_RQ_COUNT`. -/
def linMaxIdRqCount : Nat := 16

instance : NeZero linMaxIdRqCount := ⟨Nat.succ_ne_zero 15⟩

/-- `lin_schedule_item_t`; an `updateInterval` of 0 marks a free slot. -/
structure ScheduleItem where
  id : UInt8 := 0
  updateInterval : UInt32 := 0
  lastSendTimeMs : UInt32 := 0
  sentOnce : Bool := false
  deriving DecidableEq, Repr

/-- The part of a `LinProtocolHandler` that the event task reads and writes, with the lifetime
totals of `master_send`. -/
structure Node where
  decoder : Decoder := {}
  baudRate : Int := 19200
  schedule : Fin linMaxIdRqCount → ScheduleItem := fun _ => {}
  scheduleScanNext : Fin linMaxIdRqCount := 0
  lastBusActivityUs : Nat := 0
  masterRequestsSent : UInt32 := 0
  masterSendFailures : UInt32 := 0

/-- What `master_send` meets: the time, whether the mutex is free, the answers of the UART
driver, and the attempts at the mutex that count a collision. -/
structure Tick where
  nowUs : Nat
  locked : Bool := true
  txDone : Bool := true
  sendBreak : Bool := true
  writeSync : Bool := true
  writePid : Bool := true
  shared : Shared := {}

/-- The slot is in use, and its header has not been sent yet or its interval is over. The
difference of the times wraps with them. -/
def ScheduleItem.isDue (x : ScheduleItem) (nowMs : UInt32) : Bool :=
  x.updateInterval ≠ 0 && (!x.sentOnce || nowMs - x.lastSendTimeMs ≥ x.updateInterval)

/-- The echo expected of a header that was sent. -/
def Decoder.expectHeader (d : Decoder) (s : Shared) (id : UInt8) : Decoder :=
  (((d.echoBeginTx s).echoPush s echoBreak).echoPush s 0x55).echoPush s
    (Decoder.calculatePid id).toUInt16

namespace Node

/-- `isBusIdle`. -/
def isBusIdle (n : Node) (requiredIdleBits : Nat) (t : Tick) : Bool :=
  let bits : Nat := if requiredIdleBits = 0 then 3 else requiredIdleBits
  let bitTimeUs : Int := if n.baudRate > 0 then 1000000 / n.baudRate else 52
  if n.decoder.state = .data then false
  else if (t.nowUs : Int) - n.lastBusActivityUs < bits * bitTimeUs then false
  else if n.decoder.serial = false then false
  else t.txDone

/-- The first due slot behind the one that was sent last. -/
def dueSlot (n : Node) (nowMs : UInt32) : Option (Fin linMaxIdRqCount) :=
  ((List.finRange linMaxIdRqCount).map (n.scheduleScanNext + ·)).find? fun i =>
    (n.schedule i).isDue nowMs

/-- `master_send`: the node afterwards and the ID sent, or 0. -/
def masterSend (n : Node) (t : Tick) : Node × UInt8 :=
  if n.decoder.mode ≠ .master then (n, 0)
  else if t.locked = false then (n, 0)
  else
    let nowMs := UInt32.ofNat (t.nowUs / 1000)
    match n.dueSlot nowMs with
    | none => (n, 0)
    | some i =>
      if n.isBusIdle 3 t = false then (n, 0)
      else
        let item := n.schedule i
        -- the PID is written even if the sync byte was not
        let sent := n.decoder.serial && t.sendBreak && (t.writePid && t.writeSync)
        let n := if sent then { n with masterRequestsSent := n.masterRequestsSent + 1 }
          else { n with masterSendFailures := n.masterSendFailures + 1 }
        let n := { n with
          schedule := Function.update n.schedule i
            { item with lastSendTimeMs := nowMs, sentOnce := true },
          scheduleScanNext := i + 1 }
        (if sent then { n with decoder := n.decoder.expectHeader t.shared item.id } else n, item.id)

end Node

/-- What the event task handles, and the writes of the main loop to the schedule. -/
inductive Event
  | wire (w : Wire) (nowUs : Nat) (s : Shared)
  | tick (t : Tick)
  | schedule (i : Fin linMaxIdRqCount) (item : ScheduleItem)

/-- Bytes and breaks are activity of the bus. -/
def Wire.isActivity : Wire → Bool
  | .byte _ => true
  | .uartBreak => true
  | .interByteTimeout => false
  | .frameError => false

/-- One event. The task ticks the schedule in the mode of a master only, which `master_send`
checks itself. -/
def Node.step (n : Node) : Event → Node
  | .wire w nowUs s => { n with
      decoder := n.decoder.step (w, s),
      lastBusActivityUs := if w.isActivity then nowUs else n.lastBusActivityUs }
  | .tick t => (n.masterSend t).1
  | .schedule i item => { n with schedule := Function.update n.schedule i item }

/-! ## Transmissions -/

namespace Decoder

/-- What `onID` writes to the UART: the first response with the ID. -/
def answer (d : Decoder) (s : Shared) (id : UInt8) : Option (List UInt8) :=
  if d.serial = false ∨ d.mode = .listener then none
  else (s.responses.find? fun r => r.id = id ∧ r.dataLength ≠ 0).map fun r =>
    r.responseData.take r.dataLength

theorem onID_of_answer_none {d : Decoder} {s : Shared} {id : UInt8} (h : d.answer s id = none) :
    d.onID s id = d := by
  unfold answer at h
  unfold onID
  split_ifs at h ⊢
  · rfl
  · rw [Option.map_eq_none_iff.mp h]

/-- An answer begins a transmission and expects its bytes. -/
theorem onID_of_answer_some {d : Decoder} {s : Shared} {id : UInt8} {bytes : List UInt8}
    (h : d.answer s id = some bytes) :
    d.onID s id = bytes.foldl (fun d b => d.echoPush s b.toUInt16)
      (echoBeginTx { d with statistics :=
        { d.statistics with idRequestsAnswered := d.statistics.idRequestsAnswered + 1 } } s) := by
  unfold answer at h
  unfold onID
  split_ifs at h ⊢
  obtain ⟨r, hfind, rfl⟩ := Option.map_eq_some_iff.mp h
  rw [hfind]

/-- The answer to a received byte: to a PID of correct parity where one is due. -/
def answerTo (d : Decoder) (s : Shared) (b : UInt8) : Option (List UInt8) :=
  if d.state = .sid ∧ calculatePid (b &&& 0x3F) = b then d.answer s (b &&& 0x3F) else none

end Decoder

namespace Node

/-- The ID whose header a tick sends completely. -/
def headerSent (n : Node) (t : Tick) : Option UInt8 :=
  if n.decoder.mode = .master ∧ t.locked = true ∧ n.isBusIdle 3 t = true ∧
      (n.decoder.serial && t.sendBreak && (t.writePid && t.writeSync)) = true then
    (n.dueSlot (UInt32.ofNat (t.nowUs / 1000))).map fun i => (n.schedule i).id
  else none

/-- A tick touches the decoder only if it sends a header, and then only its echo. -/
theorem masterSend_decoder (n : Node) (t : Tick) :
    (n.masterSend t).1.decoder =
      (n.headerSent t).elim n.decoder (n.decoder.expectHeader t.shared) := by
  unfold masterSend headerSent
  by_cases hmode : n.decoder.mode = .master
  · by_cases hlocked : t.locked = true
    · cases hdue : n.dueSlot (UInt32.ofNat (t.nowUs / 1000)) with
      | none => simp [hmode, hlocked, hdue]
      | some i =>
        by_cases hidle : n.isBusIdle 3 t = true
        · by_cases hsent :
            (n.decoder.serial && t.sendBreak && (t.writePid && t.writeSync)) = true
          · simp [hmode, hlocked, hidle, hsent, hdue]
          · simp [hmode, hlocked, hidle, hsent, hdue]
        · simp [hmode, hlocked, hidle, hdue]
    · simp [hmode, hlocked]
  · simp [hmode]

end Node

/-! ## Without the echo FIFO -/

namespace Decoder

/-- The decoder without the echo FIFO and the collisions counted. -/
def withoutEcho (d : Decoder) : Decoder :=
  { d with echo := [], statistics := { d.statistics with collisions := 0 } }

theorem echoOnly_withoutEcho (d : Decoder) : EchoOnly d d.withoutEcho := ⟨[], 0, rfl⟩

theorem EchoOnly.withoutEcho_eq {d d' : Decoder} (h : EchoOnly d d') :
    d.withoutEcho = d'.withoutEcho := by
  obtain ⟨e, c, rfl⟩ := h
  rfl

theorem echoOnly_expectHeader (d : Decoder) (s : Shared) (id : UInt8) :
    EchoOnly d (d.expectHeader s id) := by
  unfold expectHeader
  exact (((echoOnly_echoBeginTx d s).trans (echoOnly_echoPush _ s _)).trans
    (echoOnly_echoPush _ s _)).trans (echoOnly_echoPush _ s _)

section Congruence

variable {d d' : Decoder} (s : Shared)

/-- An answer is given and counted whatever is in the FIFO. -/
theorem EchoOnly.onID (h : EchoOnly d d') (id : UInt8) : EchoOnly (d.onID s id) (d'.onID s id) := by
  have hanswer : d.answer s id = d'.answer s id := by
    obtain ⟨e, c, rfl⟩ := h
    rfl
  cases hbytes : d.answer s id with
  | none =>
    rw [onID_of_answer_none hbytes, onID_of_answer_none (hanswer.symm.trans hbytes)]
    exact h
  | some bytes =>
    have hcounted : EchoOnly
        { d with statistics :=
          { d.statistics with idRequestsAnswered := d.statistics.idRequestsAnswered + 1 } }
        { d' with statistics :=
          { d'.statistics with idRequestsAnswered := d'.statistics.idRequestsAnswered + 1 } } := by
      obtain ⟨e, c, rfl⟩ := h
      exact ⟨e, c, rfl⟩
    have hpushed : ∀ d : Decoder, EchoOnly d
        (bytes.foldl (fun d b => d.echoPush s b.toUInt16) (d.echoBeginTx s)) :=
      fun d => (echoOnly_echoBeginTx d s).trans (echoOnly_pushes _ s bytes)
    rw [onID_of_answer_some hbytes, onID_of_answer_some (hanswer.symm.trans hbytes)]
    exact ((hpushed _).symm.trans hcounted).trans (hpushed _)

theorem EchoOnly.receiveSid (h : EchoOnly d d') (b : UInt8) :
    EchoOnly (d.receiveSid s b) (d'.receiveSid s b) := by
  unfold Decoder.receiveSid
  dsimp only
  split_ifs
  · have hheld : EchoOnly { d with currentPIDWithParity := b, currentID := b &&& 0x3F }
        { d' with currentPIDWithParity := b, currentID := b &&& 0x3F } := by
      obtain ⟨e, c, rfl⟩ := h
      exact ⟨e, c, rfl⟩
    obtain ⟨e, c, heq⟩ := hheld.onID s (b &&& 0x3F)
    rw [heq]
    exact ⟨e, c, rfl⟩
  · obtain ⟨e, c, rfl⟩ := h
    exact ⟨e, c, rfl⟩
  · obtain ⟨e, c, rfl⟩ := h
    exact ⟨e, c, rfl⟩

theorem EchoOnly.receiveData (h : EchoOnly d d') (b : UInt8) :
    EchoOnly (d.receiveData b) (d'.receiveData b) := by
  obtain ⟨e, c, rfl⟩ := h
  unfold Decoder.receiveData expectedFrameBytes
  dsimp only
  split_ifs
  all_goals exact ⟨e, c, rfl⟩

theorem EchoOnly.decode (h : EchoOnly d d') (b : UInt8) :
    EchoOnly (d.decode s b 0) (d'.decode s b 0) := by
  have hstate : d'.state = d.state := by
    obtain ⟨e, c, rfl⟩ := h
    rfl
  unfold Decoder.decode
  rw [hstate]
  cases d.state with
  | «break» =>
    obtain ⟨e, c, rfl⟩ := h
    dsimp only
    split_ifs
    all_goals exact ⟨e, c, rfl⟩
  | sync =>
    obtain ⟨e, c, rfl⟩ := h
    dsimp only
    split_ifs
    all_goals exact ⟨e, c, rfl⟩
  | sid => exact h.receiveSid s b
  | data => exact h.receiveData b

theorem EchoOnly.receiveDecode (h : EchoOnly d d') (b : UInt8) :
    EchoOnly (d.receiveDecode s b 0) (d'.receiveDecode s b 0) := by
  have hcompare : ∀ d : Decoder,
      EchoOnly d (if d.echo.length > 0 then d.echoCompare s b else d) := by
    intro d
    split_ifs
    · exact echoOnly_echoCompare d s b
    · exact .refl d
  unfold Decoder.receiveDecode
  simp only [true_and]
  exact (((hcompare d).symm.trans h).trans (hcompare d')).decode s b

theorem EchoOnly.onInterByteTimeout (h : EchoOnly d d') :
    EchoOnly (d.onInterByteTimeout s) (d'.onInterByteTimeout s) := by
  have hclear : ∀ d : Decoder, EchoOnly d
      (if d.echo.length > 0 then (d.echoCountCollision (s.locked .compare)).echoClear else d) := by
    intro d
    split_ifs
    · exact (echoOnly_echoCountCollision d _).trans (echoOnly_echoClear _)
    · exact .refl d
  have hended : EchoOnly
      (if d.state = .data then
        (if d.currentData.length ≥ 2 then d.callOnData else d).resetDecodeState else d)
      (if d'.state = .data then
        (if d'.currentData.length ≥ 2 then d'.callOnData else d').resetDecodeState else d') := by
    obtain ⟨e, c, rfl⟩ := h
    split_ifs
    all_goals exact ⟨e, c, rfl⟩
  unfold Decoder.onInterByteTimeout
  exact ((hclear _).symm.trans hended).trans (hclear _)

theorem EchoOnly.onUartBreak (h : EchoOnly d d') :
    EchoOnly (d.onUartBreak s) (d'.onUartBreak s) := by
  have hpop : ∀ d : Decoder, EchoOnly d
      (if d.echo.length > 0 ∧ d.echo.headD 0 = echoBreak then d.echoPop else d) := by
    intro d
    split_ifs
    · exact echoOnly_echoPop d
    · exact .refl d
  have hpopped := ((hpop d).symm.trans h).trans (hpop d')
  unfold Decoder.onUartBreak
  dsimp only
  generalize (if d.echo.length > 0 ∧ d.echo.headD 0 = echoBreak then d.echoPop else d) = d₁
    at hpopped ⊢
  generalize (if d'.echo.length > 0 ∧ d'.echo.headD 0 = echoBreak then d'.echoPop else d') = d₂
    at hpopped ⊢
  obtain ⟨e, c, rfl⟩ := hpopped
  split_ifs
  all_goals exact ⟨e, c, rfl⟩

theorem EchoOnly.onFrameError (h : EchoOnly d d') :
    EchoOnly (d.onFrameError s) (d'.onFrameError s) := by
  obtain ⟨e, c, rfl⟩ := h
  unfold Decoder.onFrameError echoClear
  dsimp only
  split_ifs
  all_goals exact ⟨[], _, rfl⟩

theorem EchoOnly.step (h : EchoOnly d d') (w : Wire) :
    EchoOnly (d.step (w, s)) (d'.step (w, s)) := by
  cases w with
  | byte b => exact h.receiveDecode s b
  | interByteTimeout => exact h.onInterByteTimeout s
  | uartBreak => exact h.onUartBreak s
  | frameError => exact h.onFrameError s

end Congruence

end Decoder

namespace Node

/-- The node without the echo FIFO and the collisions counted. -/
def withoutEcho (n : Node) : Node := { n with decoder := n.decoder.withoutEcho }

/-- Whether a header is sent and what a tick notes of it does not depend on the FIFO. -/
theorem withoutEcho_masterSend (n : Node) (t : Tick) :
    (n.masterSend t).1.withoutEcho = (n.withoutEcho.masterSend t).1.withoutEcho := by
  have hheader : ∀ id, (n.decoder.expectHeader t.shared id).withoutEcho =
      (n.decoder.withoutEcho.expectHeader t.shared id).withoutEcho := fun id =>
    (((Decoder.echoOnly_expectHeader n.decoder t.shared id).symm.trans
      (Decoder.echoOnly_withoutEcho n.decoder)).trans
      (Decoder.echoOnly_expectHeader _ t.shared id)).withoutEcho_eq
  unfold masterSend
  rw [show n.withoutEcho.decoder.mode = n.decoder.mode from rfl,
    show n.withoutEcho.decoder.serial = n.decoder.serial from rfl,
    show n.withoutEcho.isBusIdle 3 t = n.isBusIdle 3 t from rfl,
    show n.withoutEcho.dueSlot = n.dueSlot from rfl]
  dsimp only
  by_cases hmode : n.decoder.mode ≠ .master
  · rw [if_pos hmode, if_pos hmode]
    rfl
  by_cases hlocked : t.locked = false
  · rw [if_neg hmode, if_neg hmode, if_pos hlocked, if_pos hlocked]
    rfl
  rw [if_neg hmode, if_neg hmode, if_neg hlocked, if_neg hlocked]
  cases n.dueSlot (UInt32.ofNat (t.nowUs / 1000)) with
  | none => rfl
  | some i =>
    dsimp only
    split_ifs
    · rfl
    · unfold withoutEcho
      dsimp only
      rw [hheader]
    · rfl

theorem withoutEcho_step (n : Node) (e : Event) :
    (n.step e).withoutEcho = (n.withoutEcho.step e).withoutEcho := by
  cases e with
  | wire w nowUs s =>
    have hstep := ((Decoder.echoOnly_withoutEcho n.decoder).step s w).withoutEcho_eq
    unfold step withoutEcho
    dsimp only
    rw [hstep]
  | tick t => exact n.withoutEcho_masterSend t
  | schedule i item => rfl

/-- The decoder's state is the same as if there were no FIFO: as if what a transmission puts
into it were dropped before the next event. -/
theorem withoutEcho_exec (n : Node) (es : List Event) :
    (exec step n es).withoutEcho =
      exec (fun n e => (n.step e).withoutEcho) n.withoutEcho es :=
  exec_part withoutEcho_step n es

end Node

end EspCars.Linbus
