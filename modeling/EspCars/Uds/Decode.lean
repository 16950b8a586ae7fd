import EspCars.Lib.BitField
import EspCars.Uds.Catalog

/-!
# The decoder

`components/uds/uds_decode.h`: whether a response covers a field, the bits of one of its elements,
and what its scale rows make of them. The offset of a bit fits 32 bits, so that it is a natural
number here; a float is the exact number that it rounds.
-/

namespace EspCars.Uds

open EspCars.Lib

/-! ## Extraction -/

namespace FieldView

variable (f : FieldView)

/-- `FIELD_FLAG_SIGNED`, bit 0. -/
def signed : Bool := f.flags.testBit 0

/-- `FIELD_FLAG_BYTESWAP`, bit 1. -/
def byteswap : Bool := f.flags.testBit 1

/-- The first bit of an element. -/
def start (element : Nat) : Nat := f.bitPos + element * f.repeatStride

end FieldView

/-- `field_covered` -/
def fieldCovered (f : FieldView) (respLen element : Nat) : Bool :=
  if f.bitSize = 0 ∨ f.repeatCount = 0 ∨ f.repeatCount ≤ element then false
  else (f.start element + f.bitSize + 7) / 8 ≤ respLen

/-- What becomes of the accumulator. -/
def adjust (f : FieldView) (raw : UInt64) : UInt64 :=
  let raw := if f.byteswap then swapBytes64 ((f.bitSize + 7) / 8) raw else raw
  if f.signed ∧ f.bitSize < 64 then signExtend64 f.bitSize raw else raw

/-- `extract_raw` -/
def extractRaw (resp : List UInt8) (f : FieldView) (element : Nat) : Option Int :=
  if f.bitSize = 0 ∨ 64 < f.bitSize then none
  else if f.repeatCount = 0 ∨ f.repeatCount ≤ element then none
  else if resp.length < (f.start element + f.bitSize + 7) / 8 then none
  else some (adjust f (readBits resp (f.start element) f.bitSize)).toInt64.toInt

/-! ## Evaluation -/

namespace ScaleView

variable (row : ScaleView)

/-- `SCALE_FLAG_TEXT`, bit 0. -/
def hasText : Bool := row.flags.testBit 0

/-- `SCALE_FLAG_INVALID`, bit 1. -/
def invalid : Bool := row.flags.testBit 1

def Contains (raw : Int) : Prop := row.low ≤ raw ∧ raw ≤ row.high

instance (raw : Int) : Decidable (row.Contains raw) := inferInstanceAs (Decidable (_ ∧ _))

end ScaleView

/-- `text` is `none` unless a row with a text matched; a value that is not valid is no number. -/
structure Decoded where
  value : Exact := .nan
  text : Option (List UInt8) := none
  valid : Bool := false
  deriving DecidableEq

namespace Catalog

variable (c : Catalog)

/-- The loop over the rows, with the number of the row that matched. -/
def matchRow (scaleFirst : Nat) (raw : Int) : Nat → Nat → Option (Nat × ScaleView)
  | _, 0 => none
  | i, n + 1 =>
    match c.scale (scaleFirst + i) with
    | none => none
    | some row => if row.Contains raw then some (i, row) else matchRow scaleFirst raw (i + 1) n

/-- The number of the row that decides about a raw value. -/
def rowOf (f : FieldView) (raw : Int) : Option Nat :=
  (c.matchRow f.scaleFirst raw 0 f.scaleCount).map Prod.fst

/-- `evaluate_scales` -/
def evaluateScales (f : FieldView) (raw : Int) : Decoded :=
  if f.scaleCount = 0 then { value := .ofInt raw, valid := true }
  else
    match c.matchRow f.scaleFirst raw 0 f.scaleCount with
    | none => {}
    | some (_, row) =>
      let text := if row.hasText then some row.text else none
      if row.invalid then { text := text }
      else
        { value := ((Exact.ofInt raw).mul row.factor.exact).add row.offset.exact
          text := text
          valid := true }

/-- `decode_numeric` -/
def decodeNumeric (f : FieldView) (resp : List UInt8) (element : Nat) : Decoded :=
  match extractRaw resp f element with
  | none => {}
  | some raw => c.evaluateScales f raw

end Catalog

end EspCars.Uds
