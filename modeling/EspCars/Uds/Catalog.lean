import EspCars.Lib.Binary
import EspCars.Lib.Search
import EspCars.Lib.Struct
import EspCars.Lib.Text

/-!
# The catalog reader

`components/uds/uds_catalog.h`: the checks of `Catalog::open`, the record accessors, and the lookup
of a name in the hash index. The mapped bytes are a list, and so is what `const char *` points to,
without the NUL.
-/

namespace EspCars.Uds

open EspCars.Lib

/-! ## The format -/

def magic : List UInt8 := ascii "ESPDCAT" ++ [0]

/-- `CATALOG_MIN_SIZE`, and the first byte a table may occupy. -/
def catalogMinSize : Nat := 0x50

def catalogFormatVersion : Nat := 1
def ecuRecordSize : Nat := 24
def groupRecordSize : Nat := 20
def fieldRecordSize : Nat := 20
def scaleRecordSize : Nat := 24
def indexRecordSize : Nat := 12

/-- The three kinds of names. -/
inductive NameKind
  | ecu | group | field
  deriving DecidableEq, Repr

def NameKind.toNat : NameKind → Nat
  | .ecu => 1
  | .group => 2
  | .field => 3

/-- Bits 28 to 31 of a target word are its kind, the others its index. -/
def targetUnit : Nat := 0x10000000

def loadU8 (s : List UInt8) (off : Nat) : Nat := loadLe 1 (s.drop off)
def loadU16 (s : List UInt8) (off : Nat) : Nat := loadLe 2 (s.drop off)
def loadU32 (s : List UInt8) (off : Nat) : Nat := loadLe 4 (s.drop off)
def loadI32 (s : List UInt8) (off : Nat) : Int := Int.bmod (loadU32 s off) 0x100000000
def loadF32 (s : List UInt8) (off : Nat) : Binary32 := ⟨UInt32.ofNat (loadU32 s off)⟩

/-- `fnv1a` -/
def fnv1a (name : List UInt8) : UInt32 :=
  name.foldl (fun h b => (h ^^^ b.toUInt32) * 0x01000193) 0x811C9DC5

/-- One turn of the inner loop of `crc32_ieee`. -/
def crcBit (crc : UInt32) : UInt32 := (crc >>> 1) ^^^ (0xEDB88320 &&& (0 - (crc &&& 1)))

/-- `crc32_ieee` -/
def crc32Ieee (data : List UInt8) : UInt32 :=
  data.foldl (fun crc b => Nat.repeat crcBit 8 (crc ^^^ b.toUInt32)) 0xFFFFFFFF ^^^ 0xFFFFFFFF

/-! ## Views -/

/-- `EcuView` -/
structure EcuView where
  name : List UInt8
  requestId : Nat
  responseId : Nat
  flags : Nat
  blockSize : Nat
  stMinRaw : Nat
  p2Ms : Nat
  p2ExtMs : Nat
  groupFirst : Nat
  groupCount : Nat
  deriving DecidableEq

/-- `GroupView` -/
structure GroupView where
  name : List UInt8
  reqOff : Nat
  reqLen : Nat
  sid : Nat
  flags : Nat
  fieldFirst : Nat
  fieldCount : Nat
  did : Nat
  respMinLen : Nat
  deriving DecidableEq

/-- `GROUP_FLAG_SAFE_READ`, bit 0. -/
def GroupView.safeRead (g : GroupView) : Bool := g.flags % 2 = 1

/-- `FieldView` -/
structure FieldView where
  name : List UInt8
  unit : List UInt8
  bitPos : Nat
  bitSize : Nat
  flags : Nat
  scaleFirst : Nat
  scaleCount : Nat
  repeatCount : Nat
  repeatStride : Nat
  groupIndex : Nat
  deriving DecidableEq

/-- `ScaleView` -/
structure ScaleView where
  low : Int
  high : Int
  factor : Binary32
  offset : Binary32
  text : List UInt8
  flags : Nat
  deriving DecidableEq

/-! ## The reader -/

/-- `Catalog`: the blob and its header. -/
structure Catalog where
  base : List UInt8
  totalSize : Nat
  flags : Nat
  crc : Nat
  ecusOff : Nat
  ecuCount : Nat
  groupsOff : Nat
  groupCount : Nat
  fieldsOff : Nat
  fieldCount : Nat
  scalesOff : Nat
  scaleCount : Nat
  reqbytesOff : Nat
  reqbytesLen : Nat
  stringsOff : Nat
  stringsLen : Nat
  indexOff : Nat
  indexCount : Nat
  deriving DecidableEq

namespace Catalog

/-- `table_ok_` -/
def tableOk (off count recordSize total : Nat) : Bool :=
  count = 0 ∨ off % 4 = 0 ∧ catalogMinSize ≤ off ∧ off + count * recordSize ≤ total

/-- `range_ok_` -/
def rangeOk (off len total : Nat) : Bool :=
  len = 0 ∨ catalogMinSize ≤ off ∧ off + len ≤ total

/-- The fields that `open` reads from the header, before any check of them. -/
def ofHeader (base : List UInt8) : Catalog where
  base := base
  totalSize := loadU32 base 0x0C
  flags := loadU16 base 0x0A
  crc := loadU32 base 0x10
  ecusOff := loadU32 base 0x14
  ecuCount := loadU16 base 0x18
  groupsOff := loadU32 base 0x1C
  groupCount := loadU16 base 0x20
  fieldsOff := loadU32 base 0x24
  fieldCount := loadU16 base 0x28
  scalesOff := loadU32 base 0x2C
  scaleCount := loadU16 base 0x30
  reqbytesOff := loadU32 base 0x34
  reqbytesLen := loadU32 base 0x38
  stringsOff := loadU32 base 0x3C
  stringsLen := loadU32 base 0x40
  indexOff := loadU32 base 0x44
  indexCount := loadU32 base 0x48

def tablesOk (c : Catalog) : Bool :=
  tableOk c.ecusOff c.ecuCount ecuRecordSize c.totalSize &&
    tableOk c.groupsOff c.groupCount groupRecordSize c.totalSize &&
    tableOk c.fieldsOff c.fieldCount fieldRecordSize c.totalSize &&
    tableOk c.scalesOff c.scaleCount scaleRecordSize c.totalSize &&
    tableOk c.indexOff c.indexCount indexRecordSize c.totalSize

/-- Both pools, and the NUL at either end of the strings. -/
def poolsOk (c : Catalog) : Bool :=
  rangeOk c.reqbytesOff c.reqbytesLen c.totalSize &&
    rangeOk c.stringsOff c.stringsLen c.totalSize && c.stringsLen != 0 &&
    loadU8 c.base c.stringsOff == 0 && loadU8 c.base (c.stringsOff + c.stringsLen - 1) == 0

/-- `open`, on the mapped bytes. -/
def open? (base : List UInt8) : Option Catalog :=
  let c := ofHeader base
  if base.length < catalogMinSize then none
  else if base.take 8 ≠ magic then none
  else if loadU16 base 0x08 ≠ catalogFormatVersion then none
  else if c.totalSize < catalogMinSize ∨ base.length < c.totalSize then none
  else if !c.tablesOk then none
  else if !c.poolsOk then none
  else if (crc32Ieee ((base.take c.totalSize).drop 64)).toNat ≠ c.crc then none
  else some c

variable (c : Catalog)

/-- `string` -/
def string (ref : Nat) : List UInt8 :=
  if c.stringsLen ≤ ref then [] else cstr (c.base.drop (c.stringsOff + ref))

/-- `ecu` -/
def ecu (i : Nat) : Option EcuView :=
  if c.ecuCount ≤ i then none
  else
    let r := c.base.drop (c.ecusOff + i * ecuRecordSize)
    some
      { name := c.string (loadU32 r 0x00)
        requestId := loadU32 r 0x04
        responseId := loadU32 r 0x08
        flags := loadU16 r 0x0C
        blockSize := loadU8 r 0x0E
        stMinRaw := loadU8 r 0x0F
        p2Ms := loadU16 r 0x10
        p2ExtMs := loadU16 r 0x12
        groupFirst := loadU16 r 0x14
        groupCount := loadU16 r 0x16 }

/-- `group` -/
def group (i : Nat) : Option GroupView :=
  if c.groupCount ≤ i then none
  else
    let r := c.base.drop (c.groupsOff + i * groupRecordSize)
    some
      { name := c.string (loadU32 r 0x00)
        reqOff := loadU32 r 0x04
        reqLen := loadU8 r 0x08
        sid := loadU8 r 0x09
        flags := loadU16 r 0x0A
        fieldFirst := loadU16 r 0x0C
        fieldCount := loadU16 r 0x0E
        did := loadU16 r 0x10
        respMinLen := loadU16 r 0x12 }

/-- `field` -/
def field (i : Nat) : Option FieldView :=
  if c.fieldCount ≤ i then none
  else
    let r := c.base.drop (c.fieldsOff + i * fieldRecordSize)
    some
      { name := c.string (loadU32 r 0x00)
        unit := c.string (loadU32 r 0x04)
        bitPos := loadU16 r 0x08
        bitSize := loadU8 r 0x0A
        flags := loadU8 r 0x0B
        scaleFirst := loadU16 r 0x0C
        scaleCount := loadU8 r 0x0E
        repeatCount := loadU8 r 0x0F
        repeatStride := loadU16 r 0x10
        groupIndex := loadU16 r 0x12 }

/-- `scale` -/
def scale (i : Nat) : Option ScaleView :=
  if c.scaleCount ≤ i then none
  else
    let r := c.base.drop (c.scalesOff + i * scaleRecordSize)
    some
      { low := loadI32 r 0x00
        high := loadI32 r 0x04
        factor := loadF32 r 0x08
        offset := loadF32 r 0x0C
        text := c.string (loadU32 r 0x10)
        flags := loadU16 r 0x14 }

/-- The request bytes of a group, if they lie in their pool. -/
def requestBytes (g : GroupView) : Option (List UInt8) :=
  if g.reqLen = 0 then none
  else if g.reqOff < c.reqbytesOff then none
  else if c.reqbytesLen < g.reqOff - c.reqbytesOff + g.reqLen then none
  else some ((c.base.drop g.reqOff).take g.reqLen)

def indexInRange : NameKind → Nat → Bool
  | .ecu, i => i < c.ecuCount
  | .group, i => i < c.groupCount
  | .field, i => i < c.fieldCount

def entryHash (i : Nat) : Nat := loadU32 (c.base.drop (c.indexOff + i * indexRecordSize)) 0

/-- What the walk over one hash makes of an entry: the index it points to, if it is one. -/
def candidate (name : List UInt8) (kind : NameKind) (i : Nat) : Option Nat :=
  let e := c.base.drop (c.indexOff + i * indexRecordSize)
  let target := loadU32 e 8
  if target / targetUnit ≠ kind.toNat then none
  else if c.string (loadU32 e 4) ≠ name then none
  else if !c.indexInRange kind (target % targetUnit) then none
  else some (target % targetUnit)

/-- The lookup of a C string. -/
def find (name : List UInt8) (kind : NameKind) : Option Nat :=
  let h := (fnv1a name).toNat
  let lo := lowerBound c.entryHash h c.indexCount 0 c.indexCount
  ((List.range' lo (c.indexCount - lo)).takeWhile fun i => c.entryHash i = h).findSome?
    (c.candidate name kind)

end Catalog

end EspCars.Uds
