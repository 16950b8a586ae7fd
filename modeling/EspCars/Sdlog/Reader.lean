import EspCars.Lib.Decimal
import EspCars.SdLogger.LogFormat

/-!
# The parsers of a card file

The functions of `script/sdlog.py` that read one number, stamp, token or line. A file is decoded
as Latin-1, so a character of the source is a byte here; an exception is the `ValueError` that the
source raises, with what it says.
-/

namespace EspCars.Sdlog

open EspCars.Lib EspCars.SdLogger

/-- A string by its bytes. -/
abbrev Str := List UInt8

/-- The `ValueError`s. -/
inductive Malformed
  | notDecimal (text : Str)
  | notAnInt (text : Str)
  | tooManyDigits (digits : Nat)
  | notHex (text : Str)
  | beyond64Bits (text : Str)
  | notAnchored (text : Str)
  | beforeAnchor (text : Str)
  | unknownFlags (flags token : Str)
  | fieldCount (expected got : Nat)
  | halfByte (chars : Nat)
  | beyond8Bytes (bytes : Nat)
  | tooFewFields (expected got : Nat)
  | levelToken (token : Str)
  | unknownType (kind : Option UInt8)
  | truncated (head : Str)
  | utcFields
  | originFields
  | clockFields
  | clockPairing (basis src : Str)
  | clockDetail (src : Str)
  | cardWithoutSeq
  | identFields
  | identItem (item : Str)
  | identRepeats (key : Str)
  deriving DecidableEq

/-! ## Numbers -/

/-- `str.isdigit` for a Latin-1 character: the superscripts count. -/
def isDigitChar (c : UInt8) : Bool := isDecimal c || c = 0xB2 || c = 0xB3 || c = 0xB9

/-- The longest text that `int` converts. -/
def maxIntDigits : Nat := 4300

/-- `int` of a text of `isdigit` characters. -/
def pyInt (text : Str) : Except Malformed Nat :=
  if ¬ text.all isDecimal then .error (.notAnInt text)
  else if text.length > maxIntDigits then .error (.tooManyDigits text.length)
  else .ok (decFrom 0 text)

/-- `_parse_u`. -/
def parseU (text : Str) : Except Malformed Nat :=
  if text = [] ∨ ¬ text.all isDigitChar then .error (.notDecimal text) else pyInt text

/-- `_parse_x`. -/
def parseX (text : Str) : Except Malformed Nat :=
  if text = [] then .error (.notHex text)
  else
    match hexFrom 0 text with
    | none => .error (.notHex text)
    | some v => .ok v

/-- `_parse_u64_x`. -/
def parseU64X (text : Str) : Except Malformed Nat :=
  if text.length > 16 then .error (.beyond64Bits text) else parseX text

/-- `_parse_abs_stamp`. -/
def parseAbsStamp (text : Str) : Except Malformed Nat :=
  if text.head? ≠ some anchorMark then .error (.notAnchored text) else parseX text.tail

/-! ## `Chain` -/

/-- The time of the record before. -/
structure Chain where
  prev : Nat := 0
  started : Bool := false
  deriving DecidableEq, Repr

/-- `Chain.read`: the absolute time and the chain behind it. An exception leaves the chain. -/
def Chain.read (c : Chain) (text : Str) : Except Malformed (Nat × Chain) :=
  if text.head? = some anchorMark then do
    let prev ← parseX text.tail
    pure (prev, { prev := prev, started := true })
  else do
    let value ← parseX text
    if c.started = false then .error (.beforeAnchor text)
    else pure (c.prev + value, { c with prev := c.prev + value })

/-! ## Stream lines -/

/-- `RECORD_KINDS`: `C`, `L`, `U` and `I`. -/
def recordKinds : List UInt8 := [67, 76, 85, 73]

/-- `X`. -/
def textKind : UInt8 := 88

/-- `FLAG_LETTERS`. -/
def flagLetterSet : Str := ascii "xrts~"

def isHex (c : UInt8) : Bool := (hexVal c).isSome

/-- `split_token`, for a token that is not empty. -/
def splitToken (token : Str) : Except Malformed (UInt8 × Nat × Str) := do
  let tag ← parseX (token.tail.takeWhile isHex)
  let flags := token.tail.dropWhile isHex
  if ¬ flags.all (flagLetterSet.contains ·) then .error (.unknownFlags flags token)
  else pure (token.headD 0, tag, flags)

/-- `RECORD_FIELDS`. -/
def recordFields : Nat := 4

/-- `TEXT_FIELDS`. -/
def textFields : Nat := 4

/-- `MAX_DATA_HEX`. -/
def maxDataHex : Nat := 16

/-- The field at `i`, empty beyond the last one. -/
def field (fs : List Str) (i : Nat) : Str := fs.getD i []

/-- `_check_record`. -/
def checkRecord (fs : List Str) : Except Malformed Unit :=
  if fs.length ≠ recordFields then .error (.fieldCount recordFields fs.length)
  else do
    let _ ← parseX (field fs 2)
    let data := field fs 3
    if data.length % 2 ≠ 0 then .error (.halfByte data.length)
    else if data.length > maxDataHex then .error (.beyond8Bytes (data.length / 2))
    else if data ≠ [] then do
      let _ ← parseX data
      pure ()
    else pure ()

/-- `_check_text`. -/
def checkText (fs : List Str) : Except Malformed Unit :=
  if fs.length < textFields then .error (.tooFewFields textFields fs.length)
  else if (field fs 0).length ≠ 2 then .error (.levelToken (field fs 0))
  else pure ()

/-! ## UTC and the wall clock -/

/-- `(1 << 64) - 1`. -/
def maxU64 : Nat := 2 ^ 64 - 1

/-- `UtcAnchor`: the boot time and the UTC that belongs to it. -/
structure UtcAnchor where
  pair : Option (Nat × Nat) := none
  deriving DecidableEq, Repr

def UtcAnchor.set (boot utc : Nat) : UtcAnchor := { pair := some (boot, utc) }

def UtcAnchor.resolve (a : UtcAnchor) (boot : Nat) : Option Nat :=
  a.pair.map fun (boot₀, utc₀) =>
    if boot ≥ boot₀ then min maxU64 (utc₀ + (boot - boot₀)) else utc₀ - (boot₀ - boot)

/-- The keys of `CLOCK_BASES`. -/
inductive ClockBasis
  | utc | drift | est
  deriving DecidableEq, Repr

/-- `CLOCK_BASES`. -/
def ClockBasis.rank : ClockBasis → Nat
  | .utc => 3
  | .drift => 2
  | .est => 1

/-- The keys of `CLOCK_SOURCES`. -/
inductive ClockSource
  | sync | warm | sleep | card | build
  deriving DecidableEq, Repr

/-- `CLOCK_SOURCES`. -/
def ClockSource.basis : ClockSource → ClockBasis
  | .sync => .utc
  | .warm => .utc
  | .sleep => .drift
  | .card => .est
  | .build => .est

def ClockBasis.ofText (text : Str) : Option ClockBasis :=
  if text = ascii "utc" then some .utc
  else if text = ascii "drift" then some .drift
  else if text = ascii "est" then some .est
  else none

def ClockSource.ofText (text : Str) : Option ClockSource :=
  if text = ascii "sync" then some .sync
  else if text = ascii "warm" then some .warm
  else if text = ascii "sleep" then some .sleep
  else if text = ascii "card" then some .card
  else if text = ascii "build" then some .build
  else none

/-- `ClockPoint` -/
structure ClockPoint where
  tUs : Nat
  utcUs : Nat
  basis : ClockBasis
  src : ClockSource
  detail : Option Nat := none
  deriving DecidableEq, Repr

def ClockPoint.resolve (p : ClockPoint) (boot : Nat) : Int :=
  max 0 (min (maxU64 : Int) (p.utcUs + ((boot : Int) - p.tUs)))

/-- `ClockCorrection` -/
structure ClockCorrection where
  tUs : Nat
  was : ClockPoint
  deltaUs : Int
  deriving DecidableEq, Repr

/-- `ClockState` -/
structure ClockState where
  current : Option ClockPoint := none
  first : Option ClockPoint := none
  corrections : List ClockCorrection := []
  lines : Nat := 0
  deriving DecidableEq, Repr

/-- `ClockState.offer`. -/
def ClockState.offer (s : ClockState) (point : ClockPoint) (fromClockLine : Bool) : ClockState :=
  let s := if fromClockLine then
      { s with lines := s.lines + 1, first := s.first.orElse fun _ => some point }
    else s
  match s.current with
  | some current =>
    if point.basis.rank < current.basis.rank then s
    else
      let corrections := if point.basis = .utc ∧ current.basis ≠ .utc then
          s.corrections ++ [⟨point.tUs, current, point.utcUs - current.resolve point.tUs⟩]
        else s.corrections
      { s with corrections := corrections, current := some point }
  | none => { s with current := some point }

/-- The optional last field of a `#clock` line. -/
def clockDetail (fs : List Str) (src : ClockSource) : Except Malformed (Option Nat) :=
  if fs.length = 6 then
    if src ≠ .card ∧ src ≠ .sleep then .error (.clockDetail (field fs 4))
    else do
      let detail ← parseU (field fs 5)
      pure (some detail)
  else if src = .card then .error .cardWithoutSeq
  else pure none

/-- `parse_clock_line`. -/
def parseClockLine (line : Str) : Except Malformed ClockPoint :=
  let fs := fields line
  if field fs 0 ≠ ascii "#clock" ∨ fs.length ≠ 5 ∧ fs.length ≠ 6 then .error .clockFields
  else do
    let tUs ← parseAbsStamp (field fs 1)
    let utcUs ← parseU64X (field fs 2)
    match ClockBasis.ofText (field fs 3), ClockSource.ofText (field fs 4) with
    | some basis, some src =>
      if src.basis ≠ basis then .error (.clockPairing (field fs 3) (field fs 4))
      else do
        let detail ← clockDetail fs src
        pure { tUs := tUs, utcUs := utcUs, basis := basis, src := src, detail := detail }
    | _, _ => .error (.clockPairing (field fs 3) (field fs 4))

/-! ## `#ident` -/

/-- The items of a `#ident` line behind those in `parsed`, whose keys may not come again. -/
def identItems (parsed : List (Str × Str)) : List Str → Except Malformed (List (Str × Str))
  | [] => .ok parsed
  | item :: items =>
    let key := item.takeWhile (· ≠ 0x3D)
    if ¬ item.contains 0x3D ∨ key = [] then .error (.identItem item)
    else if key ∈ parsed.map Prod.fst then .error (.identRepeats key)
    else identItems (parsed ++ [(key, item.drop (key.length + 1))]) items

/-- `parse_ident_line`. -/
def parseIdentLine (line : Str) : Except Malformed (List (Str × Str)) :=
  let fs := fields line
  if field fs 0 ≠ ascii "#ident" ∨ fs.length < 2 then .error .identFields
  else identItems [] fs.tail

end EspCars.Sdlog
