import EspCars.Lib.BitField
import EspCars.Lib.Utf8
import EspCars.Uds.Compiler
import Mathlib

/-!
# The compiler's own reader

`components/uds/catalog.py`: `read_catalog`, with its checks in their order, and the Python twin of
the decoder, `extract` and `evaluate`. `struct` unpacks the numbers that the device loads. What the
error texts say about an offset or a name is left out.
-/

namespace EspCars.Uds.Compiler

open EspCars.Lib

/-! ## Aliases -/

/-- The order of names: by code points, and so by the bytes of the encoding. -/
def NameLe (a b : Name) : Prop := ¬List.Lex (fun x y : Nat => x < y) (b.map UInt8.toNat)
  (a.map UInt8.toNat)

instance : DecidableRel NameLe := fun _ _ => inferInstanceAs (Decidable (¬_))

/-- `sorted(set(aliases) - {name})`, what `Group.__post_init__` makes of the aliases. -/
def normalise (name : Name) (aliases : List Name) : List Name :=
  (aliases.dedup.filter (· ≠ name)).insertionSort NameLe

/-! ## Errors -/

/-- The tables of a catalog. -/
inductive Table
  | ecu | group | field | scale | index
  deriving DecidableEq

/-- Why the reader refuses a blob. -/
inductive ReadError
  | length | magic | version | totalSize
  | alignment (table : Table)
  | range (table : Table)
  | requestPool | stringPool | noStrings | firstString | lastString
  | crc
  | stringRef (ref : Nat)
  | utf8 (ref : Nat)
  | scaleRun (field : Nat)
  | groupIndex (field : Nat)
  | blockSize (field : Nat)
  | blockAlignment (field : Nat)
  | bitSize (field : Nat)
  | unsorted (entry : Nat)
  | hash (entry : Nat)
  | target (entry : Nat)
  | fieldRun (group : Nat)
  | requestBytes (group : Nat)
  | emptyRequest (group : Nat)
  | sid (group : Nat)
  | fieldGroup (field : Nat)
  | groupRun (ecu : Nat)
  deriving DecidableEq

def demand (p : Prop) [Decidable p] (e : ReadError) : Except ReadError Unit :=
  if p then .ok () else .error e

/-! ## The layout -/

/-- `check_table` -/
def checkTable (table : Table) (off count size total : Nat) : Except ReadError Unit :=
  if count = 0 then .ok ()
  else do
    demand (off % 4 = 0) (.alignment table)
    demand (catalogMinSize ≤ off ∧ off + count * size ≤ total) (.range table)

/-- The checks of the header, the tables, the pools and the checksum. -/
def checkLayout (data : List UInt8) : Except ReadError Uds.Catalog := do
  demand (catalogMinSize ≤ data.length) .length
  let c := Uds.Catalog.ofHeader data
  demand (data.take 8 = magic) .magic
  demand (loadU16 data 0x08 = catalogFormatVersion) .version
  demand (catalogMinSize ≤ c.totalSize ∧ c.totalSize ≤ data.length) .totalSize
  checkTable .ecu c.ecusOff c.ecuCount ecuRecordSize c.totalSize
  checkTable .group c.groupsOff c.groupCount groupRecordSize c.totalSize
  checkTable .field c.fieldsOff c.fieldCount fieldRecordSize c.totalSize
  checkTable .scale c.scalesOff c.scaleCount scaleRecordSize c.totalSize
  checkTable .index c.indexOff c.indexCount indexRecordSize c.totalSize
  demand (catalogMinSize ≤ c.reqbytesOff ∧ c.reqbytesOff + c.reqbytesLen ≤ c.totalSize)
    .requestPool
  demand (catalogMinSize ≤ c.stringsOff ∧ c.stringsOff + c.stringsLen ≤ c.totalSize) .stringPool
  demand (1 ≤ c.stringsLen) .noStrings
  demand (loadU8 data c.stringsOff = 0) .firstString
  demand (loadU8 data (c.stringsOff + c.stringsLen - 1) = 0) .lastString
  demand ((crc32Ieee ((data.take c.totalSize).drop 64)).toNat = c.crc) .crc
  return c

/-! ## Records -/

section Records

variable (c : Uds.Catalog)

/-- `read_str` -/
def readStr (ref : Nat) : Except ReadError Name := do
  demand (ref < c.stringsLen) (.stringRef ref)
  let s := cstr (c.base.drop (c.stringsOff + ref))
  demand (utf8 s) (.utf8 ref)
  return s

/-- A row of the scale table. -/
def readScale (i : Nat) : Except ReadError Scale := do
  let r := c.base.drop (c.scalesOff + i * scaleRecordSize)
  let text ← readStr c (loadU32 r 0x10)
  return { low := loadI32 r 0x00
           high := loadI32 r 0x04
           factor := loadF32 r 0x08
           offset := loadF32 r 0x0C
           text := text
           invalid := (loadU16 r 0x14).testBit 1 }

/-- The geometry of a block, or the size of a number. -/
def checkBits (i flags bitPos bitSize : Nat) : Except ReadError Unit :=
  if flags.testBit 2 || flags.testBit 3 then do
    demand (bitSize % 8 = 0 ∧ 8 ≤ bitSize ∧ bitSize ≤ maxBlockBits) (.blockSize i)
    demand (bitPos % 8 = 0) (.blockAlignment i)
  else demand (1 ≤ bitSize ∧ bitSize ≤ maxNumericBits) (.bitSize i)

/-- A field, and the group that it says it belongs to. -/
def readField (scales : List Scale) (i : Nat) : Except ReadError (Field × Nat) := do
  let r := c.base.drop (c.fieldsOff + i * fieldRecordSize)
  let bitPos := loadU16 r 0x08
  let bitSize := loadU8 r 0x0A
  let flags := loadU8 r 0x0B
  let scaleFirst := loadU16 r 0x0C
  let nScales := loadU8 r 0x0E
  let groupIndex := loadU16 r 0x12
  demand (scaleFirst + nScales ≤ c.scaleCount) (.scaleRun i)
  demand (groupIndex < c.groupCount) (.groupIndex i)
  checkBits i flags bitPos bitSize
  let name ← readStr c (loadU32 r 0x00)
  let unit ← readStr c (loadU32 r 0x04)
  return ({ name := name
            unit := unit
            bitPos := bitPos
            bitSize := bitSize
            signed := flags.testBit 0
            byteswap := flags.testBit 1
            ascii := flags.testBit 2
            hexdump := flags.testBit 3
            scales := (scales.drop scaleFirst).take nScales
            repeatCount := max (loadU8 r 0x0F) 1
            repeatStride := loadU16 r 0x10 }, groupIndex)

/-- The loop over the name index, behind an entry with hash and target `prev`: the names of every
group, in the order in which they are listed. -/
def readIndex (prev : Nat × Nat) : List Nat → Except ReadError (List (Nat × Name))
  | [] => .ok []
  | i :: is => do
    let e := c.base.drop (c.indexOff + i * indexRecordSize)
    let h := loadU32 e 0
    let target := loadU32 e 8
    demand (¬(h < prev.1 ∨ h = prev.1 ∧ target < prev.2)) (.unsorted i)
    let name ← readStr c (loadU32 e 4)
    demand ((fnv1a name).toNat = h) (.hash i)
    let kind := target / targetUnit
    let idx := target % targetUnit
    demand (¬(kind = NameKind.ecu.toNat ∧ c.ecuCount ≤ idx)) (.target i)
    demand (¬(kind = NameKind.group.toNat ∧ c.groupCount ≤ idx)) (.target i)
    demand (¬(kind = NameKind.field.toNat ∧ c.fieldCount ≤ idx)) (.target i)
    let names ← readIndex (h, target) is
    return if kind = NameKind.group.toNat then (idx, name) :: names else names

/-- The names that the index lists for group `i`. -/
def namesOf (names : List (Nat × Name)) (i : Nat) : List Name :=
  (names.filter fun p => p.1 = i).map Prod.snd

/-- Every field of the run of group `i` belongs to it. -/
def checkOwner (i fieldFirst : Nat) (run : List (Field × Nat)) : Except ReadError Unit :=
  match run.findIdx? fun f => f.2 ≠ i with
  | some j => .error (.fieldGroup (fieldFirst + j))
  | none => .ok ()

/-- A row of the group table. -/
def readGroup (fields : List (Field × Nat)) (names : List (Nat × Name)) (i : Nat) :
    Except ReadError Group := do
  let r := c.base.drop (c.groupsOff + i * groupRecordSize)
  let reqOff := loadU32 r 0x04
  let reqLen := loadU8 r 0x08
  let flags := loadU16 r 0x0A
  let fieldFirst := loadU16 r 0x0C
  let nFields := loadU16 r 0x0E
  demand (fieldFirst + nFields ≤ c.fieldCount) (.fieldRun i)
  demand (c.reqbytesOff ≤ reqOff ∧ reqOff + reqLen ≤ c.reqbytesOff + c.reqbytesLen)
    (.requestBytes i)
  let request := (c.base.drop reqOff).take reqLen
  demand (1 ≤ reqLen) (.emptyRequest i)
  demand ((request.headD 0).toNat = loadU8 r 0x09) (.sid i)
  let name ← readStr c (loadU32 r 0x00)
  let run := (fields.drop fieldFirst).take nFields
  checkOwner i fieldFirst run
  return { name := name
           request := request
           fields := run.map Prod.fst
           aliases := normalise name (namesOf names i)
           needsSession := flags.testBit 1
           needsSecurity := flags.testBit 2
           securityLevel := flags / 256 % 16 }

/-- A row of the ECU table. -/
def readEcu (groups : List Group) (i : Nat) : Except ReadError Ecu := do
  let r := c.base.drop (c.ecusOff + i * ecuRecordSize)
  let groupFirst := loadU16 r 0x14
  let nGroups := loadU16 r 0x16
  demand (groupFirst + nGroups ≤ c.groupCount) (.groupRun i)
  let name ← readStr c (loadU32 r 0x00)
  return { name := name
           requestId := loadU32 r 0x04
           responseId := loadU32 r 0x08
           extendedId := (loadU16 r 0x0C).testBit 0
           blockSize := loadU8 r 0x0E
           stMinRaw := loadU8 r 0x0F
           p2Ms := loadU16 r 0x10
           p2ExtMs := loadU16 r 0x12
           groups := (groups.drop groupFirst).take nGroups }

def readScales : Except ReadError (List Scale) := (List.range c.scaleCount).mapM (readScale c)

def readFields (scales : List Scale) : Except ReadError (List (Field × Nat)) :=
  (List.range c.fieldCount).mapM (readField c scales)

def readGroups (fields : List (Field × Nat)) (names : List (Nat × Name)) :
    Except ReadError (List Group) :=
  (List.range c.groupCount).mapM (readGroup c fields names)

def readEcus (groups : List Group) : Except ReadError (List Ecu) :=
  (List.range c.ecuCount).mapM (readEcu c groups)

end Records

/-- `read_catalog` -/
def readCatalog (data : List UInt8) : Except ReadError Catalog := do
  let c ← checkLayout data
  let scales ← readScales c
  let fields ← readFields c scales
  let names ← readIndex c (0, 0) (List.range c.indexCount)
  let groups ← readGroups c fields names
  let ecus ← readEcus c groups
  return { ecus := ecus }

/-! ## Extraction and evaluation -/

/-- Why a value cannot be extracted. -/
inductive ExtractError
  /-- The bytes of a block field are copied, not extracted. -/
  | block
  /-- `IndexError` -/
  | index
  deriving DecidableEq

def Field.block (f : Field) : Bool := f.ascii || f.hexdump

/-- Bit `i` behind `base`, pushed into the number. -/
def pushBit (response : List UInt8) (base raw i : Nat) : Except ExtractError Nat :=
  match response[(base + i) / 8]? with
  | none => .error .index
  | some byte => .ok (2 * raw + byte.toNat / 2 ^ (7 - (base + i) % 8) % 2)

/-- `extract` -/
def extract (f : Field) (response : List UInt8) (k : Nat) : Except ExtractError Int :=
  if f.block then .error .block
  else do
    let base := f.bitPos + k * f.repeatStride
    let raw ← (List.range f.bitSize).foldlM (pushBit response base) 0
    let raw := if f.byteswap then swapBytes ((f.bitSize + 7) / 8) raw else raw
    return if f.signed ∧ f.bitSize < 64 then signExtend f.bitSize raw else raw

def Scale.Contains (s : Scale) (raw : Int) : Prop := s.low ≤ raw ∧ raw ≤ s.high

instance (s : Scale) (raw : Int) : Decidable (s.Contains raw) :=
  inferInstanceAs (Decidable (_ ∧ _))

/-- The number of the row that decides about a raw value. -/
def rowOf (f : Field) (raw : Int) : Option Nat := f.scales.findIdx? fun s => s.Contains raw

/-- The number, unless it is not available, and the text, unless there is none. -/
def evaluate (f : Field) (raw : Int) : Option Exact × Option Name :=
  if f.scales = [] then (some (.ofInt raw), none)
  else
    match f.scales.find? fun s => s.Contains raw with
    | none => (none, none)
    | some s =>
      let text := if s.text = [] then none else some s.text
      if s.invalid then (none, text)
      else (some (((Exact.ofInt raw).mul s.factor.exact).add s.offset.exact), text)

end EspCars.Uds.Compiler
