import Mathlib

/-!
# CCP 2.1 frames

The codec of `components/ccp/ccp_proto.h`: command frames (CRO), the answers and DAQ frames a
slave sends (DTO), and the layout of the one ODT a DAQ read uses. A received frame is the list of
its `dlc` data bytes.
-/

namespace EspCars.Ccp

/-- `CCP_FRAME_LEN`. -/
def frameLen : Nat := 8

/-- `CCP_RESPONSE_MARKER`. -/
def responseMarker : UInt8 := 0xFF

/-- `CCP_TIMEOUT`. -/
def timeoutCode : UInt8 := 0xFE

/-- `CCP_MAX_TRANSFER`. -/
def maxTransfer : Nat := 5

/-- `CCP_ODT_PAYLOAD`. -/
def odtPayload : UInt16 := 7

/-- The byte order of the slave. -/
inductive ByteOrder where
  | little
  | big
  deriving DecidableEq, Repr

/-! ## The command codes -/

namespace Command

/-- `CONNECT` -/
def connect : UInt8 := 0x01
/-- `SET_MTA` -/
def setMta : UInt8 := 0x02
def dnload : UInt8 := 0x03
/-- `UPLOAD` -/
def upload : UInt8 := 0x04
def test : UInt8 := 0x05
/-- `START_STOP` -/
def startStop : UInt8 := 0x06
/-- `DISCONNECT` -/
def disconnect : UInt8 := 0x07
/-- `START_STOP_ALL` -/
def startStopAll : UInt8 := 0x08
def getActiveCalPage : UInt8 := 0x09
/-- `SET_S_STATUS` -/
def setSStatus : UInt8 := 0x0C
def getSStatus : UInt8 := 0x0D
def buildChksum : UInt8 := 0x0E
/-- `SHORT_UP` -/
def shortUp : UInt8 := 0x0F
def clearMemory : UInt8 := 0x10
def selectCalPage : UInt8 := 0x11
def getSeed : UInt8 := 0x12
def unlock : UInt8 := 0x13
/-- `GET_DAQ_SIZE` -/
def getDaqSize : UInt8 := 0x14
/-- `SET_DAQ_PTR` -/
def setDaqPtr : UInt8 := 0x15
/-- `WRITE_DAQ` -/
def writeDaq : UInt8 := 0x16
def exchangeId : UInt8 := 0x17
def program : UInt8 := 0x18
def move : UInt8 := 0x19
def getCcpVersion : UInt8 := 0x1B
def diagService : UInt8 := 0x20
def actionService : UInt8 := 0x21
def program6 : UInt8 := 0x22
/-- `DNLOAD_6` -/
def dnload6 : UInt8 := 0x23

end Command

/-- `is_write_command`. -/
def isWriteCommand (code : UInt8) : Bool :=
  code = Command.dnload || code = Command.dnload6 || code = Command.writeDaq ||
    code = Command.move || code = Command.clearMemory || code = Command.program ||
    code = Command.program6

/-! ## Command frames -/

/-- `put_u16`. -/
def putU16 (value : UInt16) : ByteOrder → List UInt8
  | .little => [value.toUInt8, (value >>> 8).toUInt8]
  | .big => [(value >>> 8).toUInt8, value.toUInt8]

/-- `put_u32`. -/
def putU32 (value : UInt32) : ByteOrder → List UInt8
  | .little =>
    [value.toUInt8, (value >>> 8).toUInt8, (value >>> 16).toUInt8, (value >>> 24).toUInt8]
  | .big =>
    [(value >>> 24).toUInt8, (value >>> 16).toUInt8, (value >>> 8).toUInt8, value.toUInt8]

/-- A command frame: eight bytes, the command code first and the command counter second. -/
structure Cro where
  data : List UInt8
  length_data : data.length = frameLen
  deriving DecidableEq

namespace Cro

/-- The frame that starts with `bytes` and is zero behind them. -/
def ofBytes (bytes : List UInt8) : Cro where
  data := (bytes ++ List.replicate frameLen 0).take frameLen
  length_data := by
    rw [List.length_take, List.length_append, List.length_replicate]
    exact Nat.min_eq_left (Nat.le_add_left _ _)

def code (c : Cro) : UInt8 := c.data.getD 0 0

/-- `cro.data[1] = ctr`. -/
def withCtr (c : Cro) (ctr : UInt8) : Cro where
  data := c.data.set 1 ctr
  length_data := by rw [List.length_set, c.length_data]

end Cro

section Frames

variable (ctr : UInt8) (order : ByteOrder)

/-- A command without arguments. -/
def command (code : UInt8) : Cro := Cro.ofBytes [code, ctr]

/-- `CONNECT` -/
def connect (station : UInt16) : Cro :=
  Cro.ofBytes ([Command.connect, ctr] ++ putU16 station order)

/-- `DISCONNECT` -/
def disconnect (terminate : Bool) (station : UInt16) : Cro :=
  Cro.ofBytes ([Command.disconnect, ctr, if terminate then 1 else 0, 0] ++ putU16 station order)

/-- `SET_MTA` -/
def setMta (mta ext : UInt8) (address : UInt32) : Cro :=
  Cro.ofBytes ([Command.setMta, ctr, mta, ext] ++ putU32 address order)

/-- `UPLOAD` -/
def upload (size : UInt8) : Cro := Cro.ofBytes [Command.upload, ctr, size]

/-- `SHORT_UP` -/
def shortUp (size ext : UInt8) (address : UInt32) : Cro :=
  Cro.ofBytes ([Command.shortUp, ctr, size, ext] ++ putU32 address order)

/-- `GET_DAQ_SIZE` -/
def getDaqSize (list : UInt8) (dtoId : UInt32) : Cro :=
  Cro.ofBytes ([Command.getDaqSize, ctr, list, 0] ++ putU32 dtoId order)

/-- `SET_DAQ_PTR` -/
def setDaqPtr (list odt element : UInt8) : Cro :=
  Cro.ofBytes [Command.setDaqPtr, ctr, list, odt, element]

/-- `WRITE_DAQ` -/
def writeDaq (size ext : UInt8) (address : UInt32) : Cro :=
  Cro.ofBytes ([Command.writeDaq, ctr, size, ext] ++ putU32 address order)

/-- `START_STOP` -/
def startStop (mode list lastOdt event : UInt8) (rate : UInt16) : Cro :=
  Cro.ofBytes ([Command.startStop, ctr, mode, list, lastOdt, event] ++ putU16 rate order)

/-- `START_STOP_ALL` -/
def startStopAll (mode : UInt8) : Cro := Cro.ofBytes [Command.startStopAll, ctr, mode]

/-- `SET_S_STATUS` -/
def setSStatus (status : UInt8) : Cro := Cro.ofBytes [Command.setSStatus, ctr, status]

/-- `dnload`: `data` are the bytes the pointer leads to, of which `size` are copied. -/
def dnload (data : List UInt8) (size : UInt8) : Cro :=
  Cro.ofBytes ([Command.dnload, ctr, size] ++
    if size.toNat ≤ maxTransfer then data.take size.toNat else [])

/-- `DNLOAD_6` -/
def dnload6 (data : List UInt8) : Cro := Cro.ofBytes ([Command.dnload6, ctr] ++ data.take 6)

def sizedU32 (code : UInt8) (size : UInt32) : Cro :=
  Cro.ofBytes ([code, ctr] ++ putU32 size order)

end Frames

/-! ## Received frames -/

/-- `Dto`, by its kind. -/
inductive Dto where
  | invalid
  | response (returnCode ctr : UInt8) (data : List UInt8)
  | daq (pid : UInt8) (data : List UInt8)
  deriving DecidableEq, Repr

/-- `decode_dto`. -/
def decodeDto : List UInt8 → Dto
  | [] => .invalid
  | pid :: data =>
    if pid ≠ responseMarker then .daq pid data
    else
      match data with
      | returnCode :: ctr :: data => .response returnCode ctr data
      | _ => .invalid

/-- `read_chunk`. -/
def readChunk (remaining : Nat) : Nat := min remaining maxTransfer

/-! ## The layout of an ODT -/

/-- `DaqField` -/
structure DaqField where
  size : UInt8 := 0
  ext : UInt8 := 0
  address : UInt32 := 0
  deriving DecidableEq, Repr

/-- `daq_total_size`, in sixteen bits. -/
def daqTotalSize (fields : List DaqField) : UInt16 :=
  fields.foldl (fun total field => total + field.size.toUInt16) 0

/-- `daq_field_offset`, in eight bits: byte 0 of the frame is the ODT number. -/
def daqFieldOffset (fields : List DaqField) (index : Nat) : UInt8 :=
  if fields.length ≤ index then 0
  else (fields.take index).foldl (fun offset field => offset + field.size) 1

/-- `daq_anchor_matches`: the first `expectLen` bytes of `expect` stand at `offset`. -/
def daqAnchorMatches (frame : List UInt8) (offset : UInt8) (expect : List UInt8)
    (expectLen : UInt8) : Bool :=
  decide (offset.toNat + expectLen.toNat ≤ frame.length) &&
    (frame.drop offset.toNat).take expectLen.toNat = expect.take expectLen.toNat

end EspCars.Ccp
