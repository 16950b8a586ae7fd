import EspCars.Lib.Pool
import EspCars.Uds.Catalog
import Mathlib

/-!
# The catalog compiler

`components/uds/catalog.py`: the semantic model, the limits and `write_catalog`. A name is the list
of the bytes of its UTF-8 encoding, and the integers are natural numbers: a negative one is refused
by the limits or does not fit its record field. The texts of the limit errors are left out.
-/

namespace EspCars.Uds.Compiler

open EspCars.Lib

/-- A name by its bytes. -/
abbrev Name := List UInt8

/-! ## The semantic model -/

/-- `Scale` -/
structure Scale where
  low : Int
  high : Int
  factor : Binary32
  offset : Binary32
  text : Name := []
  invalid : Bool := false
  deriving DecidableEq

/-- `Field` -/
structure Field where
  name : Name
  bitPos : Nat
  bitSize : Nat
  unit : Name := []
  signed : Bool := false
  byteswap : Bool := false
  ascii : Bool := false
  hexdump : Bool := false
  scales : List Scale := []
  repeatCount : Nat := 1
  repeatStride : Nat := 0
  deriving DecidableEq

def Field.bitEnd (f : Field) : Nat := f.bitPos + (f.repeatCount - 1) * f.repeatStride + f.bitSize

def Field.isEnum (f : Field) : Bool := f.scales.any fun s => s.text ≠ [] ∧ !s.invalid

/-- A flag word, from bit 0 on. -/
def flagWord (flags : List Bool) : Nat := flags.foldr (fun b n => b.toNat + 2 * n) 0

def Field.flags (f : Field) : Nat := flagWord [f.signed, f.byteswap, f.ascii, f.hexdump, f.isEnum]

/-- `NO_INDEX` -/
def noIndex : Nat := 0xFFFF

def safeReadSids : List UInt8 := [0x22, 0x1A, 0x21, 0x19, 0x03, 0x07, 0x17]

/-- `Group` -/
structure Group where
  name : Name
  request : List UInt8
  fields : List Field := []
  aliases : List Name := []
  needsSession : Bool := false
  needsSecurity : Bool := false
  securityLevel : Nat := 0
  deriving DecidableEq

namespace Group

variable (g : Group)

/-- `request[0]`; the limits refuse an empty request. -/
def sid : UInt8 := g.request.headD 0

def did : Nat :=
  match g.request with
  | 0x22 :: high :: low :: _ => high.toNat * 256 + low.toNat
  | _ => noIndex

def safeRead : Bool := safeReadSids.contains g.sid

def respMinLen : Nat := ((g.fields.map Field.bitEnd).foldr Nat.max 0 + 7) / 8

/-- The security level is in bits 8 to 11. -/
def flags : Nat :=
  flagWord [g.safeRead, g.needsSession, g.needsSecurity] + g.securityLevel % 16 * 256

/-- What the name index lists for the group. -/
def names : List Name := g.name :: g.aliases

end Group

/-- `Ecu` -/
structure Ecu where
  name : Name
  requestId : Nat
  responseId : Nat
  extendedId : Bool := false
  blockSize : Nat := 0
  stMinRaw : Nat := 0
  p2Ms : Nat := 0
  p2ExtMs : Nat := 0
  groups : List Group := []
  deriving DecidableEq

def Ecu.flags (e : Ecu) : Nat := flagWord [e.extendedId]

/-- `Catalog` -/
structure Catalog where
  ecus : List Ecu
  deriving DecidableEq

def Catalog.groups (cat : Catalog) : List Group := cat.ecus.flatMap Ecu.groups

def Catalog.fields (cat : Catalog) : List Field := cat.groups.flatMap Group.fields

/-! ## The limits -/

/-- Why a catalog is refused by its limits. -/
inductive LimitError
  | ecus | groups | fields
  | requestLength (group : Name)
  | securityLevel (group : Name)
  | fieldNameTwice (group : Name)
  | fieldOrder (group : Name)
  | repeatCount (field : Name)
  | scalarStride (field : Name)
  | overlap (field : Name)
  | blockSize (field : Name)
  | blockAlignment (field : Name)
  | bitSize (field : Name)
  | lastBit (field : Name)
  | scaleRows (field : Name)
  | scaleBound (field : Name)
  | scales
  deriving DecidableEq

def maxRecords : Nat := 65534
def maxNumericBits : Nat := 64
def maxBlockBits : Nat := 248
def maxBitEnd : Nat := 65535
def maxReqLen : Nat := 255
def maxRepeatCount : Nat := 255
def i32Min : Int := -2147483648
def i32Max : Int := 2147483647

def require (p : Prop) [Decidable p] (e : LimitError) : Except LimitError Unit :=
  if p then .ok () else .error e

/-- The limits of a field. -/
def checkField (f : Field) : Except LimitError Unit := do
  require (1 ≤ f.repeatCount ∧ f.repeatCount ≤ maxRepeatCount) (.repeatCount f.name)
  if f.repeatCount = 1 then require (f.repeatStride = 0) (.scalarStride f.name)
  else require (f.bitSize ≤ f.repeatStride) (.overlap f.name)
  if f.ascii || f.hexdump then
    require (f.bitSize % 8 = 0 ∧ 8 ≤ f.bitSize ∧ f.bitSize ≤ maxBlockBits) (.blockSize f.name)
    require (f.bitPos % 8 = 0) (.blockAlignment f.name)
  else require (1 ≤ f.bitSize ∧ f.bitSize ≤ maxNumericBits) (.bitSize f.name)
  require (f.bitEnd ≤ maxBitEnd) (.lastBit f.name)
  require (f.scales.length ≤ 255) (.scaleRows f.name)
  f.scales.forM fun s =>
    require (i32Min ≤ s.low ∧ s.low ≤ i32Max ∧ i32Min ≤ s.high ∧ s.high ≤ i32Max)
      (.scaleBound f.name)

/-- The limits of a group. -/
def checkGroup (g : Group) : Except LimitError Unit := do
  require (1 ≤ g.request.length ∧ g.request.length ≤ maxReqLen) (.requestLength g.name)
  require (g.securityLevel ≤ 15) (.securityLevel g.name)
  require (g.fields.map Field.name).Nodup (.fieldNameTwice g.name)
  require ((g.fields.map Field.bitPos).Pairwise (· ≤ ·)) (.fieldOrder g.name)
  g.fields.forM checkField

/-- `_check_limits` -/
def checkLimits (cat : Catalog) : Except LimitError Unit := do
  require (cat.ecus.length ≤ maxRecords) .ecus
  require (cat.groups.length ≤ maxRecords) .groups
  require (cat.fields.length ≤ maxRecords) .fields
  cat.groups.forM checkGroup
  require ((cat.fields.map fun f => f.scales.length).sum ≤ maxRecords) .scales

/-! ## Records -/

/-- The numbers of a field record. -/
structure FieldRecord where
  nameRef : Nat
  unitRef : Nat
  bitPos : Nat
  bitSize : Nat
  flags : Nat
  scaleFirst : Nat
  scaleCount : Nat
  repeatCount : Nat
  repeatStride : Nat
  groupIndex : Nat
  deriving DecidableEq

/-- The request is given by its offset in its pool. -/
structure GroupRecord where
  nameRef : Nat
  reqOff : Nat
  reqLen : Nat
  sid : Nat
  flags : Nat
  fieldFirst : Nat
  fieldCount : Nat
  did : Nat
  respMinLen : Nat
  deriving DecidableEq

/-- The numbers of an ECU record. -/
structure EcuRecord where
  nameRef : Nat
  requestId : Nat
  responseId : Nat
  flags : Nat
  blockSize : Nat
  stMinRaw : Nat
  p2Ms : Nat
  p2ExtMs : Nat
  groupFirst : Nat
  groupCount : Nat
  deriving DecidableEq

/-- An entry of a name index. -/
structure IndexEntry where
  hash : Nat
  nameRef : Nat
  target : Nat
  deriving DecidableEq

def ecuFields : List Nat := [4, 4, 4, 2, 1, 1, 2, 2, 2, 2]
def groupFields : List Nat := [4, 4, 1, 1, 2, 2, 2, 2, 2]
def fieldFields : List Nat := [4, 4, 2, 1, 1, 2, 1, 1, 2, 2]
def scaleFields : List Nat := [4, 4, 4, 4, 4, 2, 2]
def indexFields : List Nat := [4, 4, 4]

def EcuRecord.pack (r : EcuRecord) : Option (List UInt8) :=
  Lib.pack ecuFields
    [r.nameRef, r.requestId, r.responseId, r.flags, r.blockSize, r.stMinRaw, r.p2Ms, r.p2ExtMs,
      r.groupFirst, r.groupCount]

def GroupRecord.pack (reqbytesOff : Nat) (r : GroupRecord) : Option (List UInt8) :=
  Lib.pack groupFields
    [r.nameRef, reqbytesOff + r.reqOff, r.reqLen, r.sid, r.flags, r.fieldFirst, r.fieldCount, r.did,
      r.respMinLen]

def FieldRecord.pack (r : FieldRecord) : Option (List UInt8) :=
  Lib.pack fieldFields
    [r.nameRef, r.unitRef, r.bitPos, r.bitSize, r.flags, r.scaleFirst, r.scaleCount, r.repeatCount,
      r.repeatStride, r.groupIndex]

/-- A signed field as its two's complement. -/
def packI32 (v : Int) : Nat := (v % 4294967296).toNat

def Scale.pack (textRef : Nat) (s : Scale) : Option (List UInt8) :=
  Lib.pack scaleFields
    [packI32 s.low, packI32 s.high, s.factor.bits.toNat, s.offset.bits.toNat, textRef,
      flagWord [s.text ≠ [], s.invalid], 0]

def IndexEntry.pack (e : IndexEntry) : Option (List UInt8) :=
  Lib.pack indexFields [e.hash, e.nameRef, e.target]

/-! ## The walk -/

/-- Runs are the same if their scales are equal, and then both zeros are. -/
def scaleKey (run : List Scale) : List Scale :=
  run.map fun s => { s with factor := s.factor.posZero, offset := s.offset.posZero }

/-- What the walk over the catalog has collected. -/
structure Tables where
  strings : Pool UInt8 Name := { contents := [0], offs := [([], 0)] }
  requests : Pool UInt8 (List UInt8) := {}
  scales : Pool Scale (List Scale) := {}
  ecus : List EcuRecord := []
  groups : List GroupRecord := []
  fields : List FieldRecord := []
  indexNames : List (Name × NameKind × Nat) := []
  anyText : Bool := false

namespace Tables

variable (t : Tables)

/-- `intern` -/
def intern (s : Name) : Nat × Tables :=
  let (off, strings) := t.strings.intern id [0] s
  (off, { t with strings := strings })

/-- `intern_req` -/
def internReq (b : List UInt8) : Nat × Tables :=
  let (off, requests) := t.requests.intern id [] b
  (off, { t with requests := requests })

/-- `intern_scales` -/
def internScales (run : List Scale) : Nat × Tables :=
  if run = [] then (0, t)
  else
    let (first, scales) := t.scales.intern scaleKey [] run
    (first, { t with scales := scales })

def internAll (names : List Name) : Tables := names.foldl (fun t s => (t.intern s).2) t

/-- An entry of the name index. -/
def listName (name : Name) (kind : NameKind) (i : Nat) : Tables :=
  { t with indexNames := t.indexNames ++ [(name, kind, i)] }

/-- The body of the loop over the fields of group `gi`. -/
def addField (gi : Nat) (f : Field) : Tables :=
  let (nameRef, t) := t.intern f.name
  let t := t.listName f.name .field t.fields.length
  let (unitRef, t) := t.intern f.unit
  let t := t.internAll (f.scales.map Scale.text)
  let (scaleFirst, t) := t.internScales f.scales
  let record : FieldRecord :=
    { nameRef := nameRef, unitRef := unitRef, bitPos := f.bitPos, bitSize := f.bitSize
      flags := f.flags, scaleFirst := scaleFirst, scaleCount := f.scales.length
      repeatCount := f.repeatCount, repeatStride := f.repeatStride, groupIndex := gi }
  { t with
    fields := t.fields ++ [record]
    anyText := t.anyText || f.scales.any fun s => s.text ≠ [] }

/-- Intern a name and list it, as it is done for the aliases. -/
def addAlias (gi : Nat) (name : Name) : Tables := (t.intern name).2.listName name .group gi

/-- The records of a group. -/
def addGroup (g : Group) : Tables :=
  let gi := t.groups.length
  let (nameRef, t) := t.intern g.name
  let t := t.listName g.name .group gi
  let t := g.aliases.foldl (fun t name => t.addAlias gi name) t
  let (reqOff, t) := t.internReq g.request
  let fieldFirst := t.fields.length
  let t := g.fields.foldl (fun t f => t.addField gi f) t
  let record : GroupRecord :=
    { nameRef := nameRef, reqOff := reqOff, reqLen := g.request.length, sid := g.sid.toNat
      flags := g.flags, fieldFirst := fieldFirst, fieldCount := g.fields.length, did := g.did
      respMinLen := g.respMinLen }
  { t with groups := t.groups ++ [record] }

/-- The records of an ECU. -/
def addEcu (e : Ecu) : Tables :=
  let ei := t.ecus.length
  let (nameRef, t) := t.intern e.name
  let t := t.listName e.name .ecu ei
  let groupFirst := t.groups.length
  let t := e.groups.foldl addGroup t
  let record : EcuRecord :=
    { nameRef := nameRef, requestId := e.requestId, responseId := e.responseId, flags := e.flags
      blockSize := e.blockSize, stMinRaw := e.stMinRaw, p2Ms := e.p2Ms, p2ExtMs := e.p2ExtMs
      groupFirst := groupFirst, groupCount := e.groups.length }
  { t with ecus := t.ecus ++ [record] }

/-- `interned[s]` -/
def refOf (s : Name) : Nat := (t.strings.lookup s).getD 0

end Tables

/-- The order of the index: by hash, then by target, then by name. -/
def IndexEntry.Before (a b : IndexEntry) : Prop :=
  a.hash < b.hash ∨ a.hash = b.hash ∧
    (a.target < b.target ∨ a.target = b.target ∧ a.nameRef ≤ b.nameRef)

instance : DecidableRel IndexEntry.Before :=
  fun _ _ => inferInstanceAs (Decidable (_ ∨ _ ∧ (_ ∨ _ ∧ _)))

/-- Entries without duplicates, sorted. -/
def Tables.index (t : Tables) : List IndexEntry :=
  (t.indexNames.eraseDups.map fun (name, kind, i) =>
    { hash := (fnv1a name).toNat, nameRef := t.refOf name
      target := kind.toNat * targetUnit + i : IndexEntry }).insertionSort IndexEntry.Before

/-- The tables of a catalog. -/
def tablesOf (cat : Catalog) : Tables := cat.ecus.foldl Tables.addEcu {}

/-! ## The blob -/

/-- The fields of the header behind the magic, and those of its extension. -/
def headerFields : List Nat := [2, 2, 4, 4, 4, 2, 2, 4, 2, 2, 4, 2, 2, 4, 2, 2, 4, 4, 4]

def extFields : List Nat := [4, 4, 4, 4]

/-- The sections of a blob in their order, packed; the strings end it. -/
structure Sections where
  ecus : List (List UInt8)
  groups : List (List UInt8)
  fields : List (List UInt8)
  scales : List (List UInt8)
  reqbytes : List UInt8
  index : List (List UInt8)
  strings : List UInt8

namespace Sections

variable (s : Sections)

def ecusOff : Nat := catalogMinSize
def groupsOff : Nat := ecusOff + s.ecus.length * ecuRecordSize
def fieldsOff : Nat := s.groupsOff + s.groups.length * groupRecordSize
def scalesOff : Nat := s.fieldsOff + s.fields.length * fieldRecordSize
def reqbytesOff : Nat := s.scalesOff + s.scales.length * scaleRecordSize

/-- The zeros that align what follows the requests. -/
def padding : Nat := (4 - (s.reqbytesOff + s.reqbytes.length) % 4) % 4

def indexOff : Nat := s.reqbytesOff + s.reqbytes.length + s.padding
def stringsOff : Nat := s.indexOff + s.index.length * indexRecordSize
def totalSize : Nat := s.stringsOff + s.strings.length

/-- The bytes behind the header. -/
def body : List UInt8 :=
  s.ecus.flatten ++ (s.groups.flatten ++ (s.fields.flatten ++ (s.scales.flatten ++
    (s.reqbytes ++ (List.replicate s.padding 0 ++ (s.index.flatten ++ s.strings))))))

/-- The bytes of the header. -/
def header (flags crc : Nat) : Option (List UInt8) :=
  pack headerFields
    [catalogFormatVersion, flags, s.totalSize, crc, ecusOff, s.ecus.length, 0,
      s.groupsOff, s.groups.length, 0, s.fieldsOff, s.fields.length, 0,
      s.scalesOff, s.scales.length, 0, s.reqbytesOff, s.reqbytes.length, s.stringsOff]

def ext : Option (List UInt8) :=
  pack extFields [s.strings.length, s.indexOff, s.index.length, 0]

end Sections

/-- The packed sections; the offset of the requests is known once the tables are. -/
def sectionsOf (t : Tables) : Option Sections := do
  let ecus ← t.ecus.mapM EcuRecord.pack
  let fields ← t.fields.mapM FieldRecord.pack
  let scales ← t.scales.contents.mapM fun s => s.pack (t.refOf s.text)
  let reqbytesOff := catalogMinSize + t.ecus.length * ecuRecordSize +
    t.groups.length * groupRecordSize + t.fields.length * fieldRecordSize +
    t.scales.contents.length * scaleRecordSize
  let groups ← t.groups.mapM (GroupRecord.pack reqbytesOff)
  let index ← t.index.mapM IndexEntry.pack
  some
    { ecus := ecus, groups := groups, fields := fields, scales := scales
      reqbytes := t.requests.contents, index := index, strings := t.strings.contents }

/-- `FLAG_NAMES` and `FLAG_TEXTS`. -/
def headerFlags (t : Tables) : Nat := flagWord [true, t.anyText]

/-- The blob of the sections; the checksum covers everything behind the first 64 bytes. -/
def blobOf (s : Sections) (flags : Nat) : Option (List UInt8) := do
  let ext ← s.ext
  let header ← s.header flags (crc32Ieee (ext ++ s.body)).toNat
  some (magic ++ (header ++ (ext ++ s.body)))

/-- Why `write_catalog` fails. -/
inductive WriteError
  | limit (e : LimitError)
  /-- A number does not fit its record field. -/
  | struct
  deriving DecidableEq

/-- `write_catalog` -/
def writeCatalog (cat : Catalog) : Except WriteError (List UInt8) :=
  match checkLimits cat with
  | .error e => .error (.limit e)
  | .ok () =>
    match (sectionsOf (tablesOf cat)).bind fun s => blobOf s (headerFlags (tablesOf cat)) with
    | some blob => .ok blob
    | none => .error .struct

end EspCars.Uds.Compiler
