import EspCars.CanGateway.Observation

/-!
# The decode entities

`CanGatewayDecodeSensor`, `CanGatewayDecodeBinarySensor` and `CanGatewayDecodeTextSensor` of
`components/can_gateway/can_gateway.cpp`, with the extraction functions of `gateway_core.h` under
them. What an entity has published so far stands beside its state, oldest first; a number stands
for the `float` it is cast to.

An entity leaves a frame alone that is too short for its field (`onFrame_of_short`), and looks at
its bytes otherwise, whether it is a data frame or a remote frame.
-/

namespace EspCars.CanGateway

/-! ## Extraction -/

/-- `extract_bytes` -/
def extractBytes (data : Bytes8) (dlc byteOffset byteLen : UInt8) (bigEndian : Bool) : UInt32 :=
  (List.range byteLen.toNat).foldl
    (fun value i =>
      let index := byteOffset + UInt8.ofNat i
      let byte : UInt8 := if index < dlc then data.toList.getD index.toNat 0 else 0
      if bigEndian then value <<< 8 ||| byte.toUInt32
      else value ||| byte.toUInt32 <<< UInt32.ofNat (8 * i)) 0

/-- `extract_bits` -/
def extractBits (data : Bytes8) (dlc bitOffset bitLen : UInt8) : UInt32 :=
  let limit := min dlc.toNat maxFrameDataLen
  let word : UInt64 := (List.range limit).foldl
    (fun word i => word ||| (data.toList.getD i 0).toUInt64 <<< UInt64.ofNat (8 * i)) 0
  let mask : UInt64 := if bitLen ≥ 64 then ~~~0 else (1 <<< bitLen.toUInt64) - 1
  (word >>> bitOffset.toUInt64 &&& mask).toUInt32

/-- `extract_bits_be` -/
def extractBitsBe (data : Bytes8) (dlc startBit bitLen : UInt8) : UInt32 :=
  (signalBits startBit bitLen true).foldl
    (fun value (byte, bit, k) =>
      if byte < dlc.toNat ∧ data.toList.getD byte 0 >>> UInt8.ofNat bit &&& 1 ≠ 0 then
        value ||| 1 <<< UInt32.ofNat k
      else value) 0

/-- `sign_extend` -/
def signExtend (raw : UInt32) (width : UInt8) : Int32 :=
  if width ≥ 32 then raw.toInt32
  else if raw &&& 1 <<< (width.toUInt32 - 1) ≠ 0 then
    (raw ||| ~~~0 <<< width.toUInt32).toInt32
  else raw.toInt32

/-- `SnaMode`: which raw value means "signal not available". -/
inductive SnaMode
  | none | allOnes | explicit
  deriving DecidableEq, Repr

/-- `width_all_ones` -/
def widthAllOnes (width : UInt8) : UInt32 :=
  if width ≥ 32 then 0xFFFFFFFF else (1 <<< width.toUInt32) - 1

/-- `raw_is_sna` -/
def rawIsSna (raw : UInt32) (width : UInt8) (mode : SnaMode) (snaRaw : UInt32) : Bool :=
  match mode with
  | .allOnes => raw = widthAllOnes width
  | .explicit => raw = snaRaw
  | .none => false

/-! ## Sensor -/

/-- What codegen sets on a `CanGatewayDecodeSensor`. -/
structure DecodeSensorConfig where
  offset : UInt8 := 0
  length : UInt8 := 1
  bitMode : Bool := false
  bigEndian : Bool := false
  isSigned : Bool := false
  snaMode : SnaMode := .none
  snaRaw : UInt32 := 0
  throttleMs : UInt32 := 0
  deriving DecidableEq

/-- What a sensor publishes; `unknown` is NaN. -/
inductive Reading
  | unknown
  | value (v : Int)
  deriving DecidableEq

/-- `CanGatewayDecodeSensor` -/
structure DecodeSensor where
  cfg : DecodeSensorConfig
  lastRaw : UInt32 := 0
  lastPublishMs : UInt32 := 0
  haveLast : Bool := false
  published : List Reading := []
  deriving DecidableEq

/-- The test that both throttled entities make. -/
def throttled (throttleMs : UInt32) (haveLast : Bool) (now lastPublishMs : UInt32) : Bool :=
  decide (throttleMs > 0) && haveLast && decide (now - lastPublishMs < throttleMs)

namespace DecodeSensorConfig

/-- `last_byte` -/
def lastByte (cfg : DecodeSensorConfig) : UInt8 :=
  if !cfg.bitMode then cfg.offset + cfg.length - 1
  else if cfg.bigEndian then
    (signalBits cfg.offset cfg.length true).foldl
      (fun last (byte, _, _) => if byte > last.toNat then UInt8.ofNat byte else last) 0
  else UInt8.ofNat ((cfg.offset.toNat + cfg.length.toNat - 1) / 8)

/-- The raw value in a frame. -/
def raw (cfg : DecodeSensorConfig) (view : FrameView) : UInt32 :=
  if !cfg.bitMode then extractBytes view.data view.dlc cfg.offset cfg.length cfg.bigEndian
  else if cfg.bigEndian then extractBitsBe view.data view.dlc cfg.offset cfg.length
  else extractBits view.data view.dlc cfg.offset cfg.length

def width (cfg : DecodeSensorConfig) : UInt8 := if cfg.bitMode then cfg.length else cfg.length * 8

/-- What a raw value reads as. -/
def reading (cfg : DecodeSensorConfig) (raw : UInt32) : Reading :=
  if rawIsSna raw cfg.width cfg.snaMode cfg.snaRaw then .unknown
  else if cfg.isSigned then .value (signExtend raw cfg.width).toInt
  else .value raw.toNat

end DecodeSensorConfig

/-- `on_frame`; `now` is the time should `millis()` be called. -/
def DecodeSensor.onFrame (s : DecodeSensor) (now : UInt32) (view : FrameView) : DecodeSensor :=
  if s.cfg.lastByte ≥ view.dlc then s
  else
    let raw := s.cfg.raw view
    if s.haveLast && raw = s.lastRaw then s
    else if throttled s.cfg.throttleMs s.haveLast now s.lastPublishMs then s
    else
      { s with
        lastRaw := raw
        lastPublishMs := now
        haveLast := true
        published := s.published ++ [s.cfg.reading raw] }

/-! ## Binary sensor -/

/-- `CanGatewayDecodeBinarySensor` -/
structure DecodeBinarySensor where
  bit : UInt8 := 0
  lastState : Bool := false
  haveLast : Bool := false
  published : List Bool := []
  deriving DecidableEq

def DecodeBinarySensor.onFrame (s : DecodeBinarySensor) (view : FrameView) : DecodeBinarySensor :=
  let byteIndex := s.bit / 8
  if byteIndex ≥ view.dlc then s
  else
    let state := decide (view.data.toList.getD byteIndex.toNat 0 >>> (s.bit % 8) &&& 0x01 ≠ 0)
    if s.haveLast && state = s.lastState then s
    else { s with lastState := state, haveLast := true, published := s.published ++ [state] }

/-! ## Text sensor -/

/-- What codegen sets on a `CanGatewayDecodeTextSensor`. -/
structure DecodeTextConfig where
  offset : UInt8 := 0
  length : UInt8 := 1
  bigEndian : Bool := false
  map : List (UInt32 × String) := []
  throttleMs : UInt32 := 0
  deriving DecidableEq

/-- `CanGatewayDecodeTextSensor` -/
structure DecodeTextSensor where
  cfg : DecodeTextConfig
  lastRaw : UInt32 := 0
  lastPublishMs : UInt32 := 0
  haveLast : Bool := false
  published : List String := []
  deriving DecidableEq

namespace DecodeTextConfig

def lastByte (cfg : DecodeTextConfig) : UInt8 := cfg.offset + cfg.length - 1

/-- `0x%X` -/
def hex (raw : UInt32) : String :=
  "0x" ++ String.ofList ((Nat.toDigits 16 raw.toNat).map Char.toUpper)

/-- The mapped text of a value, or the value. -/
def text (cfg : DecodeTextConfig) (raw : UInt32) : String :=
  match cfg.map.find? fun entry => entry.1 = raw with
  | some entry => entry.2
  | none => hex raw

end DecodeTextConfig

def DecodeTextSensor.onFrame (s : DecodeTextSensor) (now : UInt32) (view : FrameView) :
    DecodeTextSensor :=
  if s.cfg.lastByte ≥ view.dlc then s
  else
    let raw := extractBytes view.data view.dlc s.cfg.offset s.cfg.length s.cfg.bigEndian
    if s.haveLast && raw = s.lastRaw then s
    else if throttled s.cfg.throttleMs s.haveLast now s.lastPublishMs then s
    else
      { s with
        lastRaw := raw
        lastPublishMs := now
        haveLast := true
        published := s.published ++ [s.cfg.text raw] }

/-! ## Short frames -/

theorem DecodeSensor.onFrame_of_short {s : DecodeSensor} {view : FrameView}
    (h : view.dlc ≤ s.cfg.lastByte) (now : UInt32) : s.onFrame now view = s := if_pos h

theorem DecodeBinarySensor.onFrame_of_short {s : DecodeBinarySensor} {view : FrameView}
    (h : view.dlc ≤ s.bit / 8) : s.onFrame view = s := if_pos h

theorem DecodeTextSensor.onFrame_of_short {s : DecodeTextSensor} {view : FrameView}
    (h : view.dlc ≤ s.cfg.lastByte) (now : UInt32) : s.onFrame now view = s := if_pos h

theorem DecodeSensor.cfg_onFrame (s : DecodeSensor) (now : UInt32) (view : FrameView) :
    (s.onFrame now view).cfg = s.cfg := by
  unfold onFrame
  dsimp only
  split_ifs <;> rfl

theorem DecodeBinarySensor.bit_onFrame (s : DecodeBinarySensor) (view : FrameView) :
    (s.onFrame view).bit = s.bit := by
  unfold onFrame
  dsimp only
  split_ifs <;> rfl

theorem DecodeTextSensor.cfg_onFrame (s : DecodeTextSensor) (now : UInt32) (view : FrameView) :
    (s.onFrame now view).cfg = s.cfg := by
  unfold onFrame
  dsimp only
  split_ifs <;> rfl

/-- A Motorola field over two bytes, with its sign. -/
example : (DecodeSensor.onFrame
    { cfg := { offset := 3, length := 12, bitMode := true, bigEndian := true, isSigned := true } } 0
    { canId := 1, data := #v[0x0F, 0x80, 0, 0, 0, 0, 0, 0], dlc := 2, extended := false
      rtr := false }).published = [.value (-128)] := by decide

end EspCars.CanGateway
