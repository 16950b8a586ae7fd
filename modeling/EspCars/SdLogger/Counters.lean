import Mathlib
import EspCars.Lib.Spool
import EspCars.SdLogger.GapLines

/-!
# What the logger counts

The rings of `components/sd_logger/sd_logger.cpp`, the block of its writer, and its counters: the
records that were written, and six counters of losses, each with the value that a `#drop` line has
stated last. A line of the block is kept with what it is. What `write()`, `fsync()`, `open()` and
the mount answer, when a file is full, and the text of any line but records, texts and `#drop` comes
from outside (`Env`); so does the order of the steps of the producers and of the writer.

No function reads `Output.committed`, `written`, `discarded` and `skipped`, nor `Logger.pushed`,
`counted`, `shed`, `refused` and `saturated`: they keep what became of lines and records.
-/

namespace EspCars.SdLogger.Ledger

open EspCars.Lib

/-! ## Lines and records -/

/-- The counters that have a `#drop` marker. The last two are counted tap by tap. -/
inductive LossCounter
  | card | write | ring | text
  | tap (i : Nat)
  | tapShutdown (i : Nat)
  deriving DecidableEq, Repr

/-- What a line is. -/
inductive Entry
  | record (number : Nat)
  | drop (c : LossCounter) (delta total : UInt32)
  | other
  deriving DecidableEq

/-- A line with the entry that it makes. -/
structure Line where
  text : List UInt8
  entry : Entry := .other
  deriving DecidableEq

/-- A record of a text stream. -/
structure TextRecord where
  tUs : UInt32
  level : UInt8
  tag : List UInt8
  msg : List UInt8
  truncated : Bool
  deriving DecidableEq

/-- A record of the ring; records are numbered as they are accepted. -/
structure Queued where
  number : Nat
  record : LogRecord
  deriving DecidableEq

/-- The ends of the record lines of the block. -/
structure UnflushedRecordTracker where
  ends : List Nat := []
  deriving DecidableEq

namespace UnflushedRecordTracker

def maxRecords : Nat := 512

def count (t : UnflushedRecordTracker) : Nat := t.ends.length

/-- `commit_record` -/
def commitRecord (t : UnflushedRecordTracker) (stop : Nat) : UnflushedRecordTracker :=
  if t.count < maxRecords then ⟨t.ends ++ [stop]⟩ else t

/-- `consume` -/
def consume (t : UnflushedRecordTracker) (bytes : Nat) : UnflushedRecordTracker :=
  ⟨(t.ends.dropWhile (· ≤ bytes)).map (· - bytes)⟩

end UnflushedRecordTracker

/-- `reconstruct_us` -/
def reconstructUs (now64 : UInt64) (t32 : UInt32) : UInt64 :=
  let age := (now64.toUInt32 - t32).toBitVec.toInt
  let full := now64.toBitVec.toInt - age
  if full < 0 then 0 else UInt64.ofNat full.toNat

/-- What the build fixes, and the answers from outside; the `n`-th question is answered by `n`. -/
structure Env where
  sources : SourceTable := []
  /-- The labels of the CAN taps. -/
  labels : List (List UInt8) := []
  bufferDepth : Nat := 2048
  textDepth : Nat := 0
  /-- The bytes that `write()` takes at most; 0 stands for a failure. -/
  write : Nat → Nat
  fsync : Nat → Bool
  /-- The size of the file that is opened, none if it cannot be. -/
  opens : Nat → Option UInt32
  mounts : Nat → Bool
  shouldRotate : Nat → Bool
  /-- A meta line that is due. -/
  metaLine : Nat → Option (List UInt8)
  /-- The lines of a header, each with the room that it asks for. -/
  header : Nat → List (Nat × List UInt8)

/-! ## The file -/

/-- The block, the file behind it, and the counters of losses. -/
structure Output where
  asked : Nat := 0
  mounted : Bool := false
  fileOpen : Bool := false
  stamps : DeltaClock := {}
  block : List (Piece Line) := []
  unflushed : UnflushedRecordTracker := {}
  fileBytes : UInt32 := 0
  total : LossCounter → UInt32 := fun _ => 0
  marked : LossCounter → UInt32 := fun _ => 0
  /-- The lines that went into the block. -/
  committed : List Line := []
  /-- The lines of which `write()` has taken the last byte. -/
  written : List (Piece Line) := []
  /-- The lines that were in the block when it was reset. -/
  discarded : List (Piece Line) := []
  /-- A file was opened over a loss of text that had not been marked. -/
  skipped : Bool := false

namespace Output

variable (env : Env) (s : Output)

def ask : Output := { s with asked := s.asked + 1 }

/-- So many losses are counted. -/
def count (c : LossCounter) (n : UInt32) : Output :=
  { s with total := Function.update s.total c (s.total c + n) }

def room : Nat := blockBufSize - Spool.pending s.block

/-- `BlockBuffer::reset` -/
def resetBlock : Output := { s with discarded := s.discarded ++ s.block, block := [] }

/-- `enter_failed_` -/
def enterFailed : Output :=
  { (s.count .write (UInt32.ofNat s.unflushed.count)).resetBlock with
    mounted := false, fileOpen := false, unflushed := {} }

/-- `write()` has taken `n` bytes of the block. -/
def accept (n : Nat) : Output :=
  { s with
    written := s.written ++ (Spool.consume n s.block).1
    block := (Spool.consume n s.block).2
    unflushed := s.unflushed.consume n }

/-- The loop of `flush_block_` over `len` bytes; each turn takes some of them. -/
def writeLoop : Nat → Nat → Output → Bool × Output
  | 0, _, s => (true, s)
  | turns + 1, len, s =>
    if len = 0 then (true, s)
    else
      let n := min (env.write s.asked) len
      if n = 0 then (false, s.ask.enterFailed) else writeLoop turns (len - n) (s.ask.accept n)

/-- `flush_block_` -/
def flushBlock (all : Bool) : Bool × Output :=
  if !s.fileOpen then (false, s)
  else
    let len := if all then Spool.pending s.block else Spool.pending s.block / sector * sector
    writeLoop env len len s

/-- `ensure_room_` -/
def ensureRoom (need : Nat) : Bool × Output :=
  if !s.fileOpen then (false, s)
  else if need ≤ s.room then (true, s)
  else
    match s.flushBlock env false with
    | (false, s) => (false, s)
    | (true, s) => (decide (need ≤ s.room), s)

/-- `commit_line_` -/
def commitLine (text : List UInt8) (entry : Entry) : Output :=
  if text.length = 0 then s
  else
    { s with
      block := s.block ++ [{ item := { text, entry }, left := text.length }]
      fileBytes := s.fileBytes + UInt32.ofNat text.length
      committed := s.committed ++ [{ text, entry }] }

/-- A line that is formatted into the room there is. -/
def emit (line : Nat × List UInt8) : Output :=
  match s.ensureRoom env line.1 with
  | (false, s) => s
  | (true, s) => s.commitLine (line.2.take s.room) .other

/-- `write_utc_marker_`, `write_clock_line_`, `#gap`, `#rotate` and `#close`: a meta line, if it is
due. -/
def writeMeta : Output :=
  match env.metaLine s.asked with
  | none => s.ask
  | some text => s.ask.emit env (maxLine, text)

/-! ### `#drop` -/

def what : LossCounter → List UInt8
  | .card => ascii "card"
  | .write => ascii "write"
  | .ring => ascii "ring"
  | .text => ascii "text"
  | .tap _ => ascii "tap"
  | .tapShutdown _ => ascii "tap_shutdown"

def whatLabel : LossCounter → Option (List UInt8)
  | .tap i => env.labels[i]?
  | .tapShutdown i => env.labels[i]?
  | _ => none

/-- One marker of `write_drop_markers_`, if it is due. -/
def writeDropMarker (now64 : UInt64) (c : LossCounter) : Output :=
  if s.total c = s.marked c then s
  else
    let delta := s.total c - s.marked c
    let total := s.total c
    match s.ensureRoom env maxLine with
    | (false, s) => s
    | (true, s) =>
      let text := formatDrop s.room now64 (what c) (whatLabel env c) delta total
      { s.commitLine text (.drop c delta total) with marked := Function.update s.marked c total }

/-- `write_drop_markers_` -/
def writeDropMarkers (now64 : UInt64) : Output :=
  let taps := (List.range env.labels.length).flatMap fun i => [.tap i, .tapShutdown i]
  let s := [.card, .write].foldl (fun s c => s.writeDropMarker env now64 c) s
  let s := s.writeMeta env
  (.ring :: .text :: taps).foldl (fun s c => s.writeDropMarker env now64 c) s

/-! ### Opening and closing -/

/-- `sync_file_` -/
def syncFile : Output :=
  match s.flushBlock env false with
  | (false, s) => s
  | (true, s) => if env.fsync s.asked then s.ask else s.ask.enterFailed

/-- `close_file_` -/
def closeFile : Bool × Output :=
  if !s.fileOpen then (false, s)
  else
    match ((s.writeMeta env).writeMeta env).flushBlock env true with
    | (false, s) => (false, s)
    | (true, s) =>
      if env.fsync s.asked then (true, { s.ask with fileOpen := false })
      else (false, s.ask.enterFailed)

/-- `write_file_header_` -/
def writeFileHeader : Output :=
  let s := (env.header s.asked).foldl (fun s line => s.emit env line)
    { s.ask with stamps := {} }
  { s with
    marked := Function.update s.marked .text (s.total .text)
    skipped := s.skipped || decide (s.total .text ≠ s.marked .text) }

/-- `open_next_file_` -/
def openNextFile : Bool × Output :=
  match env.opens s.asked with
  | none => (false, { s.ask with fileOpen := false })
  | some size =>
    let s := { s.ask with fileOpen := true, fileBytes := size }.resetBlock.writeFileHeader env
    (s.fileOpen, s)

/-- The file after a close is opened, or the card has failed. -/
def openOrFail : Output :=
  match s.openNextFile env with
  | (true, s) => s
  | (false, s) => s.enterFailed

/-- `rotate_file_` -/
def rotateFile : Output :=
  match (s.writeMeta env).closeFile env with
  | (false, s) => s
  | (true, s) => s.openOrFail env

/-- `maybe_rotate_` -/
def maybeRotate (dying : Bool) : Output :=
  if !s.fileOpen || dying then s
  else if env.shouldRotate s.asked then s.ask.rotateFile env else s.ask

/-- `unmount_card_` -/
def unmountCard : Output := { s with fileOpen := false }.resetBlock

/-- The card is mounted and a file opened on it, in `setup`, `try_recover_` and `confine_format`. -/
def mountAndOpen : Output :=
  if env.mounts s.asked then
    match s.ask.openNextFile env with
    | (true, s) => { s with mounted := true }
    | (false, s) => s.unmountCard
  else s.ask

/-- `try_recover_` -/
def tryRecover : Output := s.unmountCard.mountAndOpen env

end Output

/-! ## The rings and the tasks -/

/-- The writer task. It is parked by `debug_freeze_writer_`, and closing in `emergency_close_`. -/
inductive Task
  | absent | running | parked | closing
  deriving DecidableEq

/-- What the writer has taken from a ring and not yet written. -/
inductive Popped
  | record (q : Queued)
  | text (t : TextRecord)
  deriving DecidableEq

/-- The logger as far as records and drops pass through it. -/
structure Logger where
  out : Output := {}
  task : Task := .absent
  dying : Bool := false
  reopenAfterFreeze : Bool := false
  ring : List Queued := []
  textRing : List TextRecord := []
  popped : Option Popped := none
  recordsWritten : UInt32 := 0
  /-- How many records were accepted. -/
  pushed : Nat := 0
  /-- The records that `records_written_` counts. -/
  counted : List Nat := []
  /-- The records that were accepted and are counted as dropped for a missing card. -/
  shed : List Nat := []
  /-- How many other losses are counted as such. -/
  refused : Nat := 0
  /-- The tracker had no place for a record. -/
  saturated : Bool := false

namespace Logger

variable (env : Env) (s : Logger)

/-- `push_record`; `saw` is what the producer has read of `mounted_`. -/
def pushRecord (saw : Bool) (rec : LogRecord) : Logger :=
  if !saw then { s with out := s.out.count .card 1, refused := s.refused + 1 }
  else if s.ring.length + 1 = env.bufferDepth then { s with out := s.out.count .ring 1 }
  else { s with ring := s.ring ++ [⟨s.pushed, rec⟩], pushed := s.pushed + 1 }

/-- `on_log_message`, past its check of the level. -/
def onLogMessage (saw : Bool) (text : TextRecord) : Logger :=
  if env.textDepth = 0 then s
  else if !saw then { s with out := s.out.count .card 1, refused := s.refused + 1 }
  else if s.textRing.length + 1 = env.textDepth then { s with out := s.out.count .text 1 }
  else { s with textRing := s.textRing ++ [text] }

/-- `pop_record_` -/
def popRecord : Logger :=
  match s.ring with
  | [] => s
  | q :: ring => { s with ring, popped := some (.record q) }

/-- `pop_text_` -/
def popText : Logger :=
  match s.textRing with
  | [] => s
  | t :: textRing => { s with textRing, popped := some (.text t) }

/-- `write_record_` -/
def writeRecord (now64 : UInt64) (q : Queued) : Logger :=
  match s.out.ensureRoom env maxLine with
  | (false, out) => { s with out := out.count .card 1, shed := s.shed ++ [q.number] }
  | (true, out) =>
    let line := formatRecord out.room out.stamps q.record (reconstructUs now64 q.record.tUs)
      env.sources
    let out := { out with stamps := line.2 }.commitLine line.1 (.record q.number)
    let out' :=
      { out with unflushed := out.unflushed.commitRecord (Spool.pending out.block) }
    { s with
      out := out'.maybeRotate env s.dying
      recordsWritten := s.recordsWritten + 1
      counted := s.counted ++ [q.number]
      saturated := s.saturated || decide (UnflushedRecordTracker.maxRecords ≤ out.unflushed.count) }

/-- `write_text_` -/
def writeText (now64 : UInt64) (t : TextRecord) : Logger :=
  match s.out.ensureRoom env maxLine with
  | (false, out) => { s with out := out.count .card 1, refused := s.refused + 1 }
  | (true, out) =>
    let line := formatText out.room out.stamps (reconstructUs now64 t.tUs) t.level t.tag t.msg
      t.truncated
    { s with out := ({ out with stamps := line.2 }.commitLine line.1 .other).maybeRotate env s.dying }

/-- What was popped is written. -/
def writePopped (now64 : UInt64) : Logger :=
  match s.popped with
  | none => s
  | some (.record q) => { s with popped := none }.writeRecord env now64 q
  | some (.text t) => { s with popped := none }.writeText env now64 t

/-- `debug_freeze_writer_`, until the writer is parked. -/
def freeze : Logger :=
  if s.out.fileOpen then
    match s.out.closeFile env with
    | (true, out) => { s with out, reopenAfterFreeze := true, task := .parked }
    | (false, out) => { s with out, task := .parked }
  else { s with task := .parked }

/-- `debug_freeze_writer_`, from there on. -/
def resume : Logger :=
  if s.reopenAfterFreeze && !s.dying && s.out.mounted then
    { s with out := s.out.openOrFail env, reopenAfterFreeze := false, task := .running }
  else { s with task := .running }

/-- `emergency_close_`, before the rings are drained; `tails` are the sizes of the tap rings. -/
def beginEmergencyClose (tails : Nat → UInt32) : Logger :=
  let out := (List.range env.labels.length).foldl
    (fun (out : Output) i => out.count (.tapShutdown i) (tails i)) { s.out with mounted := false }
  { s with out, task := .closing }

/-- `emergency_close_`, after the rings were drained. -/
def endEmergencyClose (now64 : UInt64) : Logger :=
  let out :=
    if s.out.fileOpen then ((s.out.writeDropMarkers env now64).closeFile env).2 else s.out
  { s with out := out.unmountCard, task := .absent }

/-- The writer stops for `confine_format`. -/
def confineStop : Logger :=
  let out := if s.out.fileOpen then (s.out.closeFile env).2 else s.out
  { s with out := { out with mounted := false }, task := .absent }

/-- `confine_format` without a writer, which is created at its end or not. -/
def confineFormat (created : Bool) : Logger :=
  let out := { s.out with mounted := false }.tryRecover env
  { s with out, task := if created then .running else .absent }

/-! ## Runs -/

/-- What the tasks do with the logger. -/
inductive Op
  | push (saw : Bool) (rec : LogRecord)
  | log (saw : Bool) (text : TextRecord)
  | tapDrop (i : Nat) (n : UInt32)
  | requestClose
  | popRecord
  | popText
  | write (now64 : UInt64)
  | metaLine
  | dropMarkers (now64 : UInt64)
  | maybeRotate
  | flush
  | sync
  | recover
  | freeze
  | resume
  | beginEmergencyClose (tails : Nat → UInt32)
  | endEmergencyClose (now64 : UInt64)
  | confineStop
  | confineFormat (created : Bool)

/-- The writer is in its loop and has nothing popped. -/
def idle : Bool := s.task = .running && s.popped = none

/-- The writer may pop. -/
def draining : Bool := (s.task = .running || s.task = .closing) && s.popped = none && s.out.fileOpen

def step (s : Logger) : Op → Logger
  | .push saw rec => s.pushRecord env saw rec
  | .log saw text => s.onLogMessage env saw text
  | .tapDrop i n => { s with out := s.out.count (.tap i) n }
  | .requestClose => { s with dying := true }
  | .popRecord => if s.draining then s.popRecord else s
  | .popText => if s.draining then s.popText else s
  | .write now64 => s.writePopped env now64
  | .metaLine => if s.idle then { s with out := s.out.writeMeta env } else s
  | .dropMarkers now64 =>
    if s.idle && s.out.fileOpen then { s with out := s.out.writeDropMarkers env now64 } else s
  | .maybeRotate => if s.idle then { s with out := s.out.maybeRotate env s.dying } else s
  | .flush => if s.idle then { s with out := (s.out.flushBlock env false).2 } else s
  | .sync => if s.idle then { s with out := s.out.syncFile env } else s
  | .recover =>
    if s.idle && !s.out.fileOpen && !s.dying then { s with out := s.out.tryRecover env } else s
  | .freeze => if s.idle then s.freeze env else s
  | .resume => if s.task = .parked then s.resume env else s
  | .beginEmergencyClose tails =>
    if s.idle && s.dying then s.beginEmergencyClose env tails else s
  | .endEmergencyClose now64 =>
    if s.task = .closing && s.popped = none then s.endEmergencyClose env now64 else s
  | .confineStop => if s.idle then s.confineStop env else s
  | .confineFormat created => if s.task = .absent then s.confineFormat env created else s

/-- The logger after `setup`; the writer task was created or not. -/
def setup (created : Bool) : Logger :=
  { out := ({} : Output).tryRecover env, task := if created then .running else .absent }

def run (created : Bool) (ops : List Op) : Logger := exec (step env) (setup env created) ops

end Logger

end EspCars.SdLogger.Ledger
