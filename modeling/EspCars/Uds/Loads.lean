import EspCars.Lib.Region
import EspCars.Uds.SameNumber

/-!
# The loads of the catalog reader

`components/uds/uds_catalog.h` and `uds_decode.h` once more, load by load and with the machine
arithmetic of the addresses: `uint32_t` where the code adds in 32 bits, and a `size_t` of `w` bits
for the offset of a record. A function has no result if it loads outside its region, which for
`open` is what was mapped, and for an open catalog its `total_size` bytes.
-/

namespace EspCars.Uds

open EspCars.Lib

/-- A sum in a `uint32_t`. -/
def u32 (n : Nat) : Nat := n % 2 ^ 32

theorem u32_eq {n : Nat} (h : n < 2 ^ 32) : u32 n = n := Nat.mod_eq_of_lt h

/-- The bytes of a field that is copied, `field_bytes`. -/
def fieldBytes (resp : List UInt8) (f : FieldView) (element : Nat) : Option (List UInt8) :=
  if f.bitSize = 0 ∨ f.repeatCount = 0 ∨ f.repeatCount ≤ element then none
  else if f.start element % 8 ≠ 0 ∨ f.bitSize % 8 ≠ 0 then none
  else if resp.length < f.start element / 8 + f.bitSize / 8 then none
  else some ((resp.drop (f.start element / 8)).take (f.bitSize / 8))

namespace Loading

def loadU8 (region : List UInt8) (off : Nat) : Option Nat := fetchLe region 1 off
def loadU16 (region : List UInt8) (off : Nat) : Option Nat := fetchLe region 2 off
def loadU32 (region : List UInt8) (off : Nat) : Option Nat := fetchLe region 4 off

/-! ## `open` -/

/-- Every member that `open` reads from the header. -/
def readHeader (base : List UInt8) : Option Uds.Catalog := do
  return { base := base
           totalSize := ← loadU32 base 0x0C
           flags := ← loadU16 base 0x0A
           crc := ← loadU32 base 0x10
           ecusOff := ← loadU32 base 0x14
           ecuCount := ← loadU16 base 0x18
           groupsOff := ← loadU32 base 0x1C
           groupCount := ← loadU16 base 0x20
           fieldsOff := ← loadU32 base 0x24
           fieldCount := ← loadU16 base 0x28
           scalesOff := ← loadU32 base 0x2C
           scaleCount := ← loadU16 base 0x30
           reqbytesOff := ← loadU32 base 0x34
           reqbytesLen := ← loadU32 base 0x38
           stringsOff := ← loadU32 base 0x3C
           stringsLen := ← loadU32 base 0x40
           indexOff := ← loadU32 base 0x44
           indexCount := ← loadU32 base 0x48 }

/-- The pools, and the two bytes that are loaded to check the strings. -/
def poolsOk (base : List UInt8) (c : Uds.Catalog) : Option Bool :=
  if !Uds.Catalog.rangeOk c.reqbytesOff c.reqbytesLen c.totalSize then some false
  else if !Uds.Catalog.rangeOk c.stringsOff c.stringsLen c.totalSize then some false
  else if c.stringsLen = 0 then some false
  else do
    let first ← loadU8 base c.stringsOff
    if first ≠ 0 then some false
    else
      let last ← loadU8 base (u32 (c.stringsOff + c.stringsLen - 1))
      return last = 0

/-- `open`, byte by byte. -/
def open? (base : List UInt8) : Option (Option Uds.Catalog) :=
  if base.length < catalogMinSize then some none
  else do
    let head ← fetchBytes base 8 0
    if head ≠ magic then some none
    else
      let version ← loadU16 base 0x08
      if version ≠ catalogFormatVersion then some none
      else
        let total ← loadU32 base 0x0C
        if total < catalogMinSize ∨ base.length < total then some none
        else
          let c ← readHeader base
          if !c.tablesOk then some none
          else
            let pools ← poolsOk base c
            if !pools then some none
            else
              let checked ← fetchBytes base (u32 (total - 64)) 64
              return if (crc32Ieee checked).toNat ≠ c.crc then none else some c

/-! ## The accessors -/

section

variable (w : Nat) (c : Uds.Catalog)

/-- What an open catalog may read. -/
def region : List UInt8 := c.base.take c.totalSize

/-- `base_ + off + static_cast<size_t>(i) * size` -/
def recordAt (off i size : Nat) : Nat := off + i * size % 2 ^ w

/-- A string as far as it is read, up to its NUL. -/
def string (ref : Nat) : Option (List UInt8) :=
  if c.stringsLen ≤ ref then some []
  else fetchCstr (region c) c.stringsLen (c.stringsOff + ref)

def ecu (i : Nat) : Option (Option EcuView) :=
  if c.ecuCount ≤ i then some none
  else do
    let r := recordAt w c.ecusOff i ecuRecordSize
    return some
      { name := ← string c (← loadU32 (region c) (r + 0x00))
        requestId := ← loadU32 (region c) (r + 0x04)
        responseId := ← loadU32 (region c) (r + 0x08)
        flags := ← loadU16 (region c) (r + 0x0C)
        blockSize := ← loadU8 (region c) (r + 0x0E)
        stMinRaw := ← loadU8 (region c) (r + 0x0F)
        p2Ms := ← loadU16 (region c) (r + 0x10)
        p2ExtMs := ← loadU16 (region c) (r + 0x12)
        groupFirst := ← loadU16 (region c) (r + 0x14)
        groupCount := ← loadU16 (region c) (r + 0x16) }

def group (i : Nat) : Option (Option GroupView) :=
  if c.groupCount ≤ i then some none
  else do
    let r := recordAt w c.groupsOff i groupRecordSize
    return some
      { name := ← string c (← loadU32 (region c) (r + 0x00))
        reqOff := ← loadU32 (region c) (r + 0x04)
        reqLen := ← loadU8 (region c) (r + 0x08)
        sid := ← loadU8 (region c) (r + 0x09)
        flags := ← loadU16 (region c) (r + 0x0A)
        fieldFirst := ← loadU16 (region c) (r + 0x0C)
        fieldCount := ← loadU16 (region c) (r + 0x0E)
        did := ← loadU16 (region c) (r + 0x10)
        respMinLen := ← loadU16 (region c) (r + 0x12) }

def field (i : Nat) : Option (Option FieldView) :=
  if c.fieldCount ≤ i then some none
  else do
    let r := recordAt w c.fieldsOff i fieldRecordSize
    return some
      { name := ← string c (← loadU32 (region c) (r + 0x00))
        unit := ← string c (← loadU32 (region c) (r + 0x04))
        bitPos := ← loadU16 (region c) (r + 0x08)
        bitSize := ← loadU8 (region c) (r + 0x0A)
        flags := ← loadU8 (region c) (r + 0x0B)
        scaleFirst := ← loadU16 (region c) (r + 0x0C)
        scaleCount := ← loadU8 (region c) (r + 0x0E)
        repeatCount := ← loadU8 (region c) (r + 0x0F)
        repeatStride := ← loadU16 (region c) (r + 0x10)
        groupIndex := ← loadU16 (region c) (r + 0x12) }

def scale (i : Nat) : Option (Option ScaleView) :=
  if c.scaleCount ≤ i then some none
  else do
    let r := recordAt w c.scalesOff i scaleRecordSize
    return some
      { low := Int.bmod (← loadU32 (region c) (r + 0x00)) 0x100000000
        high := Int.bmod (← loadU32 (region c) (r + 0x04)) 0x100000000
        factor := ⟨UInt32.ofNat (← loadU32 (region c) (r + 0x08))⟩
        offset := ⟨UInt32.ofNat (← loadU32 (region c) (r + 0x0C))⟩
        text := ← string c (← loadU32 (region c) (r + 0x10))
        flags := ← loadU16 (region c) (r + 0x14) }

/-- The request bytes of a group, all of them read. -/
def requestBytes (g : GroupView) : Option (Option (List UInt8)) :=
  if g.reqLen = 0 then some none
  else if g.reqOff < c.reqbytesOff then some none
  else if c.reqbytesLen < g.reqOff - c.reqbytesOff + g.reqLen then some none
  else (fetchBytes (region c) g.reqLen g.reqOff).map some

/-! ## `find` -/

/-- The bisection; without a turn left it has no result. -/
def lowerBound (h : Nat) : Nat → Nat → Nat → Option Nat
  | 0, _, _ => none
  | turns + 1, lo, hi =>
    if lo < hi then do
      let mid := u32 (lo + (hi - lo) / 2)
      let key ← loadU32 (region c) (recordAt w c.indexOff mid indexRecordSize + 0)
      if key < h then lowerBound h turns (u32 (mid + 1)) hi else lowerBound h turns lo mid
    else some lo

/-- The walk over the entries of one hash; without a turn left it has no result. -/
def walk (name : List UInt8) (kind : NameKind) (h : Nat) : Nat → Nat → Option (Option Nat)
  | 0, _ => none
  | turns + 1, i =>
    if c.indexCount ≤ i then some none
    else do
      let e := recordAt w c.indexOff i indexRecordSize
      let key ← loadU32 (region c) (e + 0)
      if key ≠ h then some none
      else
        let target ← loadU32 (region c) (e + 8)
        if target / targetUnit ≠ kind.toNat then walk name kind h turns (u32 (i + 1))
        else
          let own ← string c (← loadU32 (region c) (e + 4))
          if own ≠ name then walk name kind h turns (u32 (i + 1))
          else if !c.indexInRange kind (target % targetUnit) then
            walk name kind h turns (u32 (i + 1))
          else some (some (target % targetUnit))

/-- `find`, byte by byte. -/
def find (name : List UInt8) (kind : NameKind) : Option (Option Nat) := do
  let h := (fnv1a name).toNat
  let lo ← lowerBound w c h (c.indexCount + 1) 0 c.indexCount
  walk w c name kind h (c.indexCount + 1) lo

/-! ## The decoder -/

def matchRow (scaleFirst : Nat) (raw : Int) : Nat → Nat → Option (Option (Nat × ScaleView))
  | _, 0 => some none
  | i, n + 1 => do
    match ← scale w c (u32 (scaleFirst + i)) with
    | none => some none
    | some row =>
      if row.Contains raw then some (some (i, row)) else matchRow scaleFirst raw (i + 1) n

def evaluateScales (f : FieldView) (raw : Int) : Option Decoded :=
  if f.scaleCount = 0 then some { value := .ofInt raw, valid := true }
  else do
    match ← matchRow w c f.scaleFirst raw 0 f.scaleCount with
    | none => return {}
    | some (_, row) =>
      let text := if row.hasText then some row.text else none
      return if row.invalid then { text := text }
        else
          { value := ((Exact.ofInt raw).mul row.factor.exact).add row.offset.exact
            text := text
            valid := true }

end

/-- The first bit of an element. -/
def start (f : FieldView) (element : Nat) : Nat :=
  u32 (f.bitPos + u32 (element * f.repeatStride))

/-- The bit `i` behind `first`, pushed into the accumulator. -/
def pushBit (resp : List UInt8) (first : Nat) (raw : UInt64) (i : Nat) : Option UInt64 := do
  let bitIndex := u32 (first + i)
  let b ← fetch resp (bitIndex / 8)
  return raw <<< 1 ||| UInt64.ofNat (b.toNat / 2 ^ (7 - bitIndex % 8) % 2)

/-- `extract_raw`, byte by byte. -/
def extractRaw (resp : List UInt8) (f : FieldView) (element : Nat) : Option (Option Int) :=
  if f.bitSize = 0 ∨ 64 < f.bitSize then some none
  else if f.repeatCount = 0 ∨ f.repeatCount ≤ element then some none
  else if resp.length < u32 (u32 (start f element + f.bitSize) + 7) / 8 then some none
  else do
    let raw ← (List.range f.bitSize).foldlM (pushBit resp (start f element)) 0
    return some (adjust f raw).toInt64.toInt

/-- The bytes of a block field, all of them read. -/
def fieldBytes (resp : List UInt8) (f : FieldView) (element : Nat) :
    Option (Option (List UInt8)) :=
  if f.bitSize = 0 ∨ f.repeatCount = 0 ∨ f.repeatCount ≤ element then some none
  else if start f element % 8 ≠ 0 ∨ f.bitSize % 8 ≠ 0 then some none
  else if resp.length < start f element / 8 + f.bitSize / 8 then some none
  else (fetchBytes resp (f.bitSize / 8) (start f element / 8)).map some

def decodeNumeric (w : Nat) (c : Uds.Catalog) (f : FieldView) (resp : List UInt8) (element : Nat) :
    Option Decoded := do
  match ← extractRaw resp f element with
  | none => return {}
  | some raw => evaluateScales w c f raw

end Loading

end EspCars.Uds
