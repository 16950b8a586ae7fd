import EspCars.SdLogger.LineWriter

/-!
# Stream lines and meta lines

The delta chain of `components/sd_logger/log_format.h`, the formatters of the two stream lines and
of the timed meta lines. A formatter returns the bytes it writes, none if the room is too small.
-/

namespace EspCars.SdLogger

open EspCars.Lib

/-- The fields of a line. -/
def fields (line : List UInt8) : List (List UInt8) := lines 44 line ++ [unfinished 44 line]

def isMeta (line : List UInt8) : Bool := line.head? = some 35

/-! ## `DeltaClock` -/

def resyncUs : UInt64 := 1000000

def anchorEvery : UInt32 := 256

/-- `DeltaClock` -/
structure DeltaClock where
  prev : UInt64 := 0
  run : UInt32 := 0
  started : Bool := false
  deriving DecidableEq

namespace DeltaClock

def needsAnchor (c : DeltaClock) (tFull : UInt64) : Bool :=
  !c.started || tFull < c.prev || tFull - c.prev > resyncUs || c.run ≥ anchorEvery

/-- Whether the line carries an anchor, and the number it carries. -/
def encode (c : DeltaClock) (tFull : UInt64) : (Bool × UInt64) × DeltaClock :=
  let anchor := c.needsAnchor tFull
  ((anchor, if anchor then tFull else tFull - c.prev),
    { prev := tFull, started := true, run := if anchor then 0 else c.run + 1 })

end DeltaClock

/-! ## The source table -/

/-- `KIND_CAN`, `KIND_LIN`, `KIND_USER` and `KIND_ISOTP`. -/
inductive SourceKind
  | can | lin | user | isotp
  deriving DecidableEq, Repr

def SourceKind.letter : SourceKind → UInt8
  | .can => 67
  | .lin => 76
  | .user => 85
  | .isotp => 73

/-- `SourceEntry` -/
structure SourceEntry where
  tag : UInt8
  kind : SourceKind
  label : List UInt8
  deriving DecidableEq

def maxSources : Nat := 16

def maxLabel : Nat := 8

/-- `SourceTable` -/
abbrev SourceTable := List SourceEntry

namespace SourceTable

def sanitise (c : UInt8) : UInt8 :=
  if (48 ≤ c ∧ c ≤ 57) ∨ (65 ≤ c ∧ c ≤ 90) ∨ (97 ≤ c ∧ c ≤ 122) ∨ c = 95 ∨ c = 45 then c else 95

/-- `none` is the null pointer; a label ends at its NUL. -/
def add (t : SourceTable) (tag : UInt8) (kind : SourceKind) (label : Option (List UInt8)) :
    Bool × SourceTable :=
  match label with
  | none => (false, t)
  | some label =>
    if t.length ≥ maxSources ∨ label = [] then (false, t)
    else (true, t ++ [⟨tag, kind, (label.take maxLabel).map sanitise⟩])

def lookup (t : SourceTable) (tag : UInt8) : Option SourceEntry := t.find? (·.tag = tag)

end SourceTable

/-! ## Stream lines -/

/-- `LogRecord` -/
structure LogRecord where
  tUs : UInt32
  id : UInt32
  source : UInt8
  flags : UInt8
  len : UInt8
  data : Vector UInt8 8
  deriving DecidableEq

/-- `format_record` -/
def formatRecord (room : Nat) (clock : DeltaClock) (rec : LogRecord) (tFull : UInt64)
    (sources : SourceTable) : List UInt8 × DeltaClock :=
  if room < minRoom then ([], clock)
  else
    let w := LineWriter.ofRoom room
    let w := w.ch (((sources.lookup rec.source).map (·.kind.letter)).getD SourceKind.user.letter)
    let w := w.u32Hex rec.source.toUInt32
    let w := w.flags rec.flags
    let w := w.comma
    let ((anchor, step), clock) := clock.encode tFull
    let w := w.stamp anchor step
    let w := w.comma
    let w := w.u32Hex rec.id
    let w := w.comma
    let w := w.hexBytes (rec.data.toList.take (if rec.len > 8 then 8 else rec.len.toNat))
    (w.finish, clock)

def levelLetter (level : UInt8) : UInt8 :=
  if level = 1 then 69
  else if level = 2 then 87
  else if level = 3 then 73
  else if level = 4 then 67
  else if level = 5 then 68
  else if level = 6 ∨ level = 7 then 86
  else 63

/-- `format_text` -/
def formatText (room : Nat) (clock : DeltaClock) (tFull : UInt64) (level : UInt8)
    (tag msg : List UInt8) (truncated : Bool) : List UInt8 × DeltaClock :=
  if room < minRoom then ([], clock)
  else
    let w := LineWriter.ofRoom room
    let w := w.ch 88
    let w := w.ch (levelLetter level)
    let w := w.comma
    let ((anchor, step), clock) := clock.encode tFull
    let w := w.stamp anchor step
    let w := w.comma
    let w := w.escaped tag true
    let w := w.comma
    let w := w.escaped msg false
    let w := if truncated ∧ !w.overflow then w.ch truncatedMark else w
    (w.finish, clock)

/-! ## Meta lines -/

/-- `format_drop` -/
def formatDrop (room : Nat) (tFull : UInt64) (what : List UInt8) (whatLabel : Option (List UInt8))
    (delta total : UInt32) : List UInt8 :=
  if room < minRoom then []
  else
    let w := (LineWriter.ofRoom room).raw (ascii "#drop,")
    let w := (w.stamp true tFull).comma.raw what
    let w := match whatLabel with
      | some label => (w.ch 58).raw label
      | none => w
    ((w.comma.u64 delta.toUInt64).comma.u64 total.toUInt64).finish

/-- `format_gap` -/
def formatGap (room : Nat) (tFull : UInt64) (chunks : UInt32) (bytes : UInt64)
    (firstSeq lastSeq : UInt32) : List UInt8 :=
  if room < minRoom then []
  else
    let w := (LineWriter.ofRoom room).raw (ascii "#gap,")
    let w := ((w.stamp true tFull).comma.u64 chunks.toUInt64).comma.u64 bytes
    ((w.comma.u64 firstSeq.toUInt64).comma.u64 lastSeq.toUInt64).finish

/-- `format_close` -/
def formatClose (room : Nat) (tFull : UInt64) (reason : List UInt8) : List UInt8 :=
  if room < minRoom then []
  else
    let w := (LineWriter.ofRoom room).raw (ascii "#close,")
    ((w.stamp true tFull).comma.raw reason).finish

end EspCars.SdLogger
