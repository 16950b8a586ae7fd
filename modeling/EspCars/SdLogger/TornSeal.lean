import EspCars.SdLogger.ClockBasis

/-!
# Sealing a torn file

`components/sd_logger/torn_seal.h`: the scanner that decides how a file ends, and the seal.
-/

namespace EspCars.SdLogger

open EspCars.Lib

def sealLineMax : Nat := 64

def closeRecovered : List UInt8 := ascii "recovered"

/-- `format_recovered_close` -/
def formatRecoveredClose (room : Nat) (tUs : UInt64) : List UInt8 :=
  formatClose room tUs closeRecovered

/-- `TailKind` -/
inductive TailKind
  | closed | torn | noCut | readErr
  deriving DecidableEq, Repr

def headSize : Nat := 48

/-- `head_` is the start of the line, `head_[0 .. min(len_, 48))`. -/
structure TornTailScanner where
  head : List UInt8 := []
  len : Nat := 0
  overlong : Bool := false
  pos : Nat
  windowStart : Nat
  skipping : Bool
  haveNl : Bool := false
  lastKnown : Bool := false
  lastClosed : Bool := false
  readFailed : Bool := false
  cut : Nat := 0
  stamp : UInt64 := 0
  deriving DecidableEq

/-- The greater one. -/
def newest (stamp : UInt64) : Option UInt64 → UInt64
  | some t => if t > stamp then t else stamp
  | none => stamp

namespace TornTailScanner

def init (windowStart : Nat) : TornTailScanner :=
  { pos := windowStart, windowStart, skipping := windowStart > 0 }

/-- The stamp field lies within the head. -/
def wholeStamp (head : List UInt8) (overlong : Bool) : Bool :=
  !overlong || (head.dropWhile (· ≠ 44)).tail.contains 44

def resetLine (s : TornTailScanner) : TornTailScanner := { s with head := [], len := 0, overlong := false }

/-- `end_line_` -/
def endLine (s : TornTailScanner) : TornTailScanner :=
  let s := { s with haveNl := true, cut := s.pos }
  if s.skipping then { s with skipping := false, lastKnown := false }.resetLine
  else
    let s := { s with lastKnown := true, lastClosed := ascii "#close," <+: s.head }
    let stamp :=
      if ascii "#sdlog," <+: s.head then 0
      else if isMeta s.head then
        newest s.stamp (if wholeStamp s.head s.overlong then parseMetaStamp s.head else none)
      else s.stamp
    { s with stamp }.resetLine

/-- `feed` -/
def feed (s : TornTailScanner) (c : UInt8) : TornTailScanner :=
  let s := { s with pos := s.pos + 1 }
  if c = newline then s.endLine
  else if s.skipping then s
  else
    let s := if s.len < headSize then { s with head := s.head ++ [c] } else { s with overlong := true }
    { s with len := s.len + 1 }

/-- `kind` -/
def kind (s : TornTailScanner) : TailKind :=
  if s.readFailed then .readErr
  else if !s.haveNl then (if s.windowStart = 0 then .torn else .noCut)
  else if !s.lastKnown then .noCut
  else if s.lastClosed then .closed
  else .torn

/-- `cut()`. -/
def cutAt (s : TornTailScanner) : Nat := if s.haveNl then s.cut else 0

end TornTailScanner

/-- `SealResult` -/
inductive SealResult
  | closed | sealed | noCut | readFailed | openFailed | truncFailed | writeFailed | syncFailed
  deriving DecidableEq, Repr

/-- What the card makes of the four calls. A truncate that fails may have cut the file, a write
that fails may have put some of its bytes on the card. -/
structure SealIo where
  opens : Bool
  truncates : Bool
  cutAnyway : Bool
  written : Nat
  syncs : Bool
  deriving DecidableEq

def SealIo.working : SealIo := ⟨true, true, true, sealLineMax, true⟩

/-- The result and the file left behind. -/
def sealTornTail (io : SealIo) (tail : TornTailScanner) (file : List UInt8) :
    SealResult × List UInt8 :=
  match tail.kind with
  | .closed => (.closed, file)
  | .noCut => (.noCut, file)
  | .readErr => (.readFailed, file)
  | .torn =>
    let line := formatRecoveredClose sealLineMax tail.stamp
    if !io.opens then (.openFailed, file)
    else if !io.truncates then
      (.truncFailed, if io.cutAnyway then file.take tail.cutAt else file)
    else
      let file := file.take tail.cutAt
      if io.written < line.length then (.writeFailed, file ++ line.take io.written)
      else
        let file := file ++ line
        if !io.syncs then (.syncFailed, file) else (.sealed, file)

/-- The boot's read of one file: its last `window` bytes. -/
def scanTail (window : Nat) (file : List UInt8) : TornTailScanner :=
  let start := file.length - window
  (file.drop start).foldl TornTailScanner.feed (TornTailScanner.init start)

end EspCars.SdLogger
