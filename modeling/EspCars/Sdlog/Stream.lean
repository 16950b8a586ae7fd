import EspCars.Sdlog.TornLine

/-!
# The reader of stream lines

`StreamReader` of `script/sdlog.py`, from which the decoder and `extract` take the records. It
opens the file as text: a carriage return ends a line like a newline does, alone or before one
(`universalNewlines`). A line without an end is not read.
-/

namespace EspCars.Sdlog

open EspCars.Lib EspCars.SdLogger

/-- Carriage return. -/
def carriageReturn : UInt8 := 13

/-- What a file opened as text is read as. -/
def universalNewlines : List UInt8 → List UInt8
  | [] => []
  | c :: text =>
    if c = carriageReturn then
      if text.head? = some newline then universalNewlines text
      else newline :: universalNewlines text
    else c :: universalNewlines text

/-- `ReadError`, and the `ValueError` of `int` that nothing catches. -/
inductive ReadError
  | unknownVersion (version : Option Nat)
  | uncaught (e : Malformed)
  | unreadableUtc
  | unreadableClock
  | unreadableStamp
  deriving DecidableEq

/-- `StreamLine` -/
structure StreamLine where
  kind : UInt8
  tUs : Nat
  utcUs : Option Nat
  fields : List Str
  line : Str
  utcBest : Option (Int × ClockBasis) := none
  deriving DecidableEq

/-- The locals of `__iter__`, and `labels` with the latest entry first. -/
structure StreamReader where
  estimates : Bool := false
  labels : List (Nat × Str) := []
  chain : Chain := {}
  utcAnchor : UtcAnchor := {}
  clock : ClockState := {}
  deriving DecidableEq

namespace StreamReader

/-- `label`. -/
def label (r : StreamReader) (tag : Nat) (token : Str) : Str := (r.labels.lookup tag).getD token

/-- `#sdlog,`. -/
def readHeader (r : StreamReader) (fs : List Str) : Except ReadError StreamReader :=
  let text := field fs 1
  if fs.length > 1 ∧ text ≠ [] ∧ text.all isDigitChar then
    match pyInt text with
    | .error e => .error (.uncaught e)
    | .ok version =>
      if version ∈ supportedFormatVersions then .ok r else .error (.unknownVersion (some version))
  else .error (.unknownVersion none)

/-- `#src,`. -/
def readSource (r : StreamReader) (fs : List Str) : StreamReader :=
  if fs.length ≥ 4 then
    match parseX (field fs 3) with
    | .error _ => r
    | .ok tag => { r with labels := (tag, field fs 2) :: r.labels }
  else r

/-- `#utc,` and a bare `#utc`. -/
def readUtc (r : StreamReader) (fs : List Str) : Except ReadError StreamReader :=
  match Scan.parseUtc fs with
  | .error _ => .error .unreadableUtc
  | .ok (boot, utc) => .ok { r with
      utcAnchor := UtcAnchor.set boot utc
      clock := r.clock.offer { tUs := boot, utcUs := utc, basis := .utc, src := .sync } false }

/-- `#clock,`, for a reader with estimates. -/
def readClock (r : StreamReader) (line : Str) : Except ReadError StreamReader :=
  match parseClockLine line with
  | .error _ => .error .unreadableClock
  | .ok point => .ok { r with clock := r.clock.offer point true }

/-- A meta line. -/
def readMeta (r : StreamReader) (line : Str) : Except ReadError StreamReader :=
  let fs := fields line
  if ascii "#sdlog," <+: line then r.readHeader fs
  else if ascii "#src," <+: line then .ok (r.readSource fs)
  else if ascii "#utc," <+: line ∨ line = ascii "#utc" then r.readUtc fs
  else if ascii "#clock," <+: line ∧ r.estimates = true then r.readClock line
  else .ok r

/-- One line: the reader behind it and what it yields. -/
def readLine (r : StreamReader) (line : Str) : Except ReadError (StreamReader × Option StreamLine) :=
  if isMeta line then (r.readMeta line).map (·, none)
  else
    let fs := fields line
    match (field fs 0).head? with
    | none => .ok (r, none)
    | some kind =>
      if kind ∈ recordKinds ∨ kind = textKind then
        if fs.length > 1 then
          match r.chain.read (field fs 1) with
          | .error _ => .error .unreadableStamp
          | .ok (tUs, chain) =>
            .ok ({ r with chain := chain },
              some { kind := kind, tUs := tUs, utcUs := r.utcAnchor.resolve tUs, fields := fs
                     line := line
                     utcBest := if r.estimates then
                         r.clock.current.map fun c => (c.resolve tUs, c.basis)
                       else none })
        else .ok (r, none)
      else .ok (r, none)

/-- The lines yielded, and the error that stops the reader if there is one. -/
def readLines (r : StreamReader) : List Str → List StreamLine × Option ReadError
  | [] => ([], none)
  | line :: rest =>
    match r.readLine line with
    | .error e => ([], some e)
    | .ok (r, yielded) =>
      let (items, error) := r.readLines rest
      (yielded.toList ++ items, error)

/-- The lines yielded, each with the reader that its consumer asks for labels. -/
def yields (r : StreamReader) : List Str → List (StreamReader × StreamLine)
  | [] => []
  | line :: rest =>
    match r.readLine line with
    | .error _ => []
    | .ok (r, yielded) => (yielded.map (r, ·)).toList ++ r.yields rest

end StreamReader

/-- Iterating over `StreamReader(path, estimates)`, from the bytes of the file. -/
def streamFile (estimates : Bool) (raw : List UInt8) : List StreamLine × Option ReadError :=
  ({ estimates := estimates } : StreamReader).readLines (lines newline (universalNewlines raw))

/-- The same, with the reader behind each line. -/
def streamYields (estimates : Bool) (raw : List UInt8) : List (StreamReader × StreamLine) :=
  ({ estimates := estimates } : StreamReader).yields (lines newline (universalNewlines raw))

end EspCars.Sdlog
