import EspCars.Uds.Hub
import EspCars.Uds.Loads

/-!
# The entities of the hub

`components/uds/uds.cpp` and `uds_decode.h`: what a response makes of the value slots of the bindings,
and the rotating publisher behind the loop. The log of the hub says in which order it decoded a
response or declared a group unavailable; the slots follow it. The counters of the diagnostics, what
is logged and the `on_value` automations are left out: nothing here reads them.
-/

namespace EspCars.Uds

open EspCars.Lib

def udsPublishPerLoop : Nat := 8
def udsTextSlotCap : Nat := 64

/-! ## Text -/

/-- What is read of a buffer that ends with a NUL. -/
def cString (buf : List UInt8) : List UInt8 := buf.takeWhile (· ≠ 0)

/-- `extract_ascii`: the text of the buffer, unless nothing is written to it. -/
def extractAscii (resp : List UInt8) (f : FieldView) (element cap : Nat) : Option (List UInt8) :=
  match fieldBytes resp f element with
  | none => none
  | some bytes => if cap < bytes.length + 1 then none else some (cString bytes)

/-- `format_hexdump`; the length is the number of characters written. -/
def formatHexdump (bytes : List UInt8) (cap : Nat) : List UInt8 :=
  if cap < bytes.length * 2 + 1 then []
  else bytes.flatMap fun b => [hexDigit (b.toNat / 16), hexDigit (b.toNat % 16)]

/-- `extract_hexdump` -/
def extractHexdump (resp : List UInt8) (f : FieldView) (element cap : Nat) : List UInt8 :=
  match fieldBytes resp f element with
  | none => []
  | some bytes => formatHexdump bytes cap

/-- `copy_bounded_`: the text that fits with its NUL. -/
def copyBounded (cap : Nat) (src : List UInt8) : List UInt8 := (cString src).take (cap - 1)

namespace FieldView

/-- `FIELD_FLAG_ASCII`, bit 2. -/
def ascii (f : FieldView) : Bool := f.flags.testBit 2

/-- `FIELD_FLAG_HEXDUMP`, bit 3. -/
def hexdump (f : FieldView) : Bool := f.flags.testBit 3

end FieldView

/-! ## Slots -/

/-- A binding that codegen adds: of a sensor, or of a text sensor. -/
structure Entity where
  binding : UdsBinding
  isText : Bool
  deriving DecidableEq

/-- What an entity is told. A text sensor has no NaN, so that it is told the empty text. -/
inductive Shown
  | value (value : Exact)
  | text (text : List UInt8)
  deriving DecidableEq

/-- The slot of a binding. `place` is the group and the field of a resolved one, and `shown` is what
the entity was told last. -/
structure Slot where
  entity : Entity
  place : Option (Nat × Nat) := none
  text : List UInt8 := []
  value : Exact := .nan
  dirty : Bool := false
  valid : Bool := false
  uncovered : Bool := false
  shown : Option Shown := none
  deriving DecidableEq

namespace Slot

variable (s : Slot)

def element : Nat := s.entity.binding.element

/-- What the entity is told when its slot is published. -/
def state : Shown :=
  if s.entity.isText then .text (if s.valid then s.text else [])
  else .value (if s.valid then s.value else .nan)

/-- `note_uncovered_` -/
def noteUncovered : Slot :=
  if s.uncovered then s else { s with uncovered := true, valid := false, dirty := true }

/-- `decode_text_` -/
def decodeText (c : Catalog) (f : FieldView) (resp : List UInt8) : Slot :=
  if f.ascii then
    match extractAscii resp f s.element udsTextSlotCap with
    | some text => { s with text := text, valid := true }
    | none => { s with text := [], valid := false }
  else if f.hexdump then
    let text := extractHexdump resp f s.element udsTextSlotCap
    { s with text := text, valid := text.length ≠ 0 }
  else
    match (c.decodeNumeric f resp s.element).text with
    | some text => { s with text := copyBounded udsTextSlotCap text, valid := true }
    | none => { s with text := [], valid := false }

def decodeValue (c : Catalog) (f : FieldView) (resp : List UInt8) : Slot :=
  let d := c.decodeNumeric f resp s.element
  { s with value := d.value, valid := d.valid }

/-- The loop body of `decode_group_`; `short` is a PARTIAL verdict. -/
def decode (c : Catalog) (gi : Nat) (resp : List UInt8) (short : Bool) : Slot :=
  match s.place with
  | none => s
  | some (group, field) =>
    if group ≠ gi then s
    else
      match c.field field with
      | none => s
      | some f =>
        if short ∧ !fieldCovered f resp.length s.element then s.noteUncovered
        else
          let s := if s.entity.isText then s.decodeText c f resp else s.decodeValue c f resp
          { s with uncovered := false, dirty := true }

/-- The loop body of `publish_group_unavailable_`. -/
def groupUnavailable (gi : Nat) : Slot :=
  match s.place with
  | none => s
  | some (group, _) => if group ≠ gi then s else { s with valid := false, dirty := true }

/-- What an act of the hub makes of a slot; `respMin` is that of the request in flight. -/
def follow (c : Catalog) (respMin : Nat) : HubAct → Slot
  | .decode gi resp => s.decode c gi resp (resp.length < respMin)
  | .unavailable gi => s.groupUnavailable gi
  | .offer _ _ _ _ | .pending | .ended _ => s

/-- The entity is told what the slot holds, if that is new. -/
def publish : Slot := if s.dirty then { s with dirty := false, shown := some s.state } else s

end Slot

/-! ## The publisher -/

/-- The loop of `publish_dirty_` over the slots that are still to be examined, from a cursor on. -/
def publishFrom : Nat → Nat → List Slot × Nat → List Slot × Nat
  | 0, _, pass => pass
  | examine + 1, published, (slots, cursor) =>
    if udsPublishPerLoop ≤ published then (slots, cursor)
    else
      let next := (cursor + 1) % slots.length
      match slots[cursor]? with
      | none => publishFrom examine published (slots, next)
      | some s =>
        if !s.dirty then publishFrom examine published (slots, next)
        else publishFrom examine (published + 1) (slots.set cursor s.publish, next)

/-- The hub with the slots of its bindings. -/
structure Board where
  hub : UdsHub
  slots : List Slot
  cursor : Nat := 0
  deriving DecidableEq

namespace Board

variable (b : Board)

/-- `publish_dirty_` -/
def publishDirty : Board :=
  let pass := publishFrom b.slots.length 0 (b.slots, b.cursor)
  { b with slots := pass.1, cursor := pass.2 }

/-- `setup`: a binding that does not resolve is unavailable, and so are all of an inert hub. -/
def setup (cfg : HubConfig) (entities : List Entity) (now : Nat) : Board :=
  let hub := UdsHub.setup { cfg with bindings := entities.map Entity.binding } now
  { hub := hub
    slots := entities.map fun e =>
      let place :=
        match hub.catalog, hub.ecu with
        | some c, some ecu => c.resolveBinding (some ecu) e.binding
        | _, _ => none
      { entity := e, place := place, dirty := place.isNone } }

/-- What the hub does to its groups in an event. -/
def acts (e : UdsHub.Event) : List (Nat × HubAct) := (b.hub.step e).log.drop b.hub.log.length

/-- The hub takes an event, and the slots follow. -/
def react (e : UdsHub.Event) : Board :=
  match b.hub.catalog with
  | none => { b with hub := b.hub.step e }
  | some c =>
    { b with
      hub := b.hub.step e
      slots := b.slots.map fun s =>
        (b.acts e).foldl (fun s p => s.follow c b.hub.inFlightRespMin p.2) s }

/-- Behind every loop, also that of an inert hub, a few slots are published. -/
def step (b : Board) (e : UdsHub.Event) : Board :=
  match e with
  | .loop _ _ _ _ => (b.react e).publishDirty
  | .message _ _ | .error _ | .call _ => b.react e

/-- The board of a configuration after the events. -/
def run (cfg : HubConfig) (entities : List Entity) (boot : Nat) (events : List UdsHub.Event) :
    Board :=
  exec step (setup cfg entities boot) events

end Board

end EspCars.Uds
