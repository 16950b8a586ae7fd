import EspCars.SdLogger.LogFormat
import EspCars.SdLogger.Retention

/-!
# The gap lines of the writer

The writer of `components/sd_logger/sd_logger.cpp` as far as a discard window goes: from the policy
to a line in the block buffer, through `write()` to the card, and back to the owed window when the
block is lost. The block is kept line by line, each with the bytes that `write()` has not accepted,
and `written` keeps the lines whose last byte was accepted. A window carries the losses that it was
taken for, which no function reads; the text of any line but the gap line comes from outside.
-/

namespace EspCars.SdLogger

open EspCars.Lib

variable {capacity : Nat}

def sector : Nat := 512

def blockBufSize : Nat := 8 * sector

/-- The line that states a window. -/
def gapLine (room : Nat) (t : UInt64) (w : DiscardStats) : List UInt8 :=
  formatGap room t w.chunks w.bytes w.firstSeq w.lastSeq

/-- A window with the losses that it is for. -/
structure Window where
  stats : DiscardStats := {}
  losses : List ChunkEntry := []
  deriving DecidableEq

/-- A line of the block: `left` of its bytes have not been accepted. -/
structure Line where
  text : List UInt8
  left : Nat := text.length
  window : Option Window := none
  deriving DecidableEq

def Line.losses (l : Line) : List ChunkEntry := (l.window.map Window.losses).getD []

/-- What the lines state. -/
def stated (lines : List Line) : List ChunkEntry := lines.flatMap Line.losses

/-- `pending` -/
def pending (block : List Line) : Nat := (block.map Line.left).sum

/-- `consume`: the lines that are through with the first `n` bytes, and what stays in the block. -/
def consume : Nat → List Line → List Line × List Line
  | _, [] => ([], [])
  | n, l :: block =>
    if l.left ≤ n then
      let (done, rest) := consume (n - l.left) block
      (l :: done, rest)
    else ([], { l with left := l.left - n } :: block)

/-- A line that is to be written, with what `write()` answers should the block have to be flushed
for it. -/
structure Emission where
  need : Nat := maxLine
  text : List UInt8
  writes : List Nat := []

/-- What a close says and how it ends. -/
structure Closing where
  clock : Option Emission := none
  last : Emission
  writes : List Nat := []
  synced : Bool := true

/-- A file is opened with `size` bytes in it, or it cannot be. -/
structure Opening where
  seq : UInt32
  size : Option UInt32
  header : List Emission := []

/-- The state of the writer. -/
structure Writer (capacity : Nat) where
  policy : CollectionPolicy capacity := {}
  /-- What was discarded, beside the policy. -/
  losses : Losses := {}
  fileOpen : Bool := false
  seq : UInt32 := 0
  fileBytes : UInt32 := 0
  /-- The true length of the file with what is committed to it, and the longest so far. -/
  fileLength : Nat := 0
  longest : Nat := 0
  block : List Line := []
  written : List Line := []
  owed : Window := {}
  inflight : Window := {}
  gapLineEnd : UInt32 := 0

namespace Writer

variable (s : Writer capacity)

def room : Nat := blockBufSize - pending s.block

/-! ## The window -/

/-- `owe_gap_` -/
def oweGap (w : Window) : Writer capacity :=
  if w.stats.chunks = 0 then s
  else if s.owed.stats.chunks = 0 then { s with owed := w }
  else
    { s with
      owed :=
        { stats :=
            { s.owed.stats with
              chunks := s.owed.stats.chunks + w.stats.chunks
              bytes := s.owed.stats.bytes + w.stats.bytes
              lastSeq := w.stats.lastSeq }
          losses := s.owed.losses ++ w.losses } }

/-- `retire_gap_if_durable_` -/
def retireGapIfDurable : Writer capacity :=
  if s.inflight.stats.chunks = 0 then s
  else
    let buffered := UInt32.ofNat (pending s.block)
    let onCard := if buffered < s.fileBytes then s.fileBytes - buffered else 0
    if onCard < s.gapLineEnd then s else { s with inflight := {}, gapLineEnd := 0 }

/-- `drop_unflushed_gap_` -/
def dropUnflushedGap : Writer capacity :=
  let s := s.retireGapIfDurable
  if s.inflight.stats.chunks = 0 then { s with gapLineEnd := 0 }
  else
    let newer := s.owed
    oweGap { s with owed := s.inflight, inflight := {}, gapLineEnd := 0 } newer

/-! ## The index -/

/-- A call on the index; the window is taken by `write_drop_markers_` alone. -/
def index (c : CollectionPolicy.Call) : Writer capacity :=
  if c = .takePendingDiscards then s
  else
    { s with policy := s.policy.step c, losses := CollectionPolicy.nextLosses s.policy s.losses c }

/-- The pending window is owed. -/
def takeWindow : Writer capacity :=
  if s.policy.pending.chunks = 0 then s
  else
    oweGap
      { s with
        policy := s.policy.step .takePendingDiscards
        losses := CollectionPolicy.nextLosses s.policy s.losses .takePendingDiscards }
      { stats := s.policy.takePendingDiscards.1, losses := s.losses.current }

/-! ## The block and the file -/

/-- `enter_failed_` -/
def enterFailed : Writer capacity :=
  index { dropUnflushedGap { s with fileOpen := false } with block := [] } .clear

/-- `write()` has accepted `n` bytes. -/
def accept (n : Nat) : Writer capacity :=
  { s with written := s.written ++ (consume n s.block).1, block := (consume n s.block).2 }

/-- The loop of `flush_block_` over `len` bytes. A `write()` answers the bytes it has accepted, 0
stands for a failure, and those after the list accept everything. -/
def writeLoop : List Nat → Nat → Writer capacity → Bool × Writer capacity
  | [], len, s => (true, s.accept len)
  | n :: writes, len, s =>
    if len = 0 then (true, s)
    else if n = 0 then (false, s.enterFailed)
    else writeLoop writes (len - min n len) (s.accept (min n len))

/-- `flush_block_` -/
def flushBlock (all : Bool) (writes : List Nat) : Bool × Writer capacity :=
  if !s.fileOpen then (false, s)
  else writeLoop writes (if all then pending s.block else pending s.block / sector * sector) s

/-- `ensure_room_` -/
def ensureRoom (need : Nat) (writes : List Nat) : Bool × Writer capacity :=
  if !s.fileOpen then (false, s)
  else if need ≤ s.room then (true, s)
  else
    match s.flushBlock false writes with
    | (false, s) => (false, s)
    | (true, s) => (decide (need ≤ s.room), s)

/-- `commit_line_` -/
def commitLine (text : List UInt8) (window : Option Window) : Writer capacity :=
  if text.length = 0 then s
  else
    { s with
      block := s.block ++ [{ text := text, window := window }]
      fileBytes := s.fileBytes + UInt32.ofNat text.length
      fileLength := s.fileLength + text.length
      longest := max s.longest (s.fileLength + text.length) }

/-- A line that is formatted into the room there is. -/
def emit (e : Emission) : Writer capacity :=
  match s.ensureRoom e.need e.writes with
  | (false, s) => s
  | (true, s) => s.commitLine (e.text.take s.room) none

/-- The owed window goes into a line. -/
def emitGap (now : UInt64) (writes : List Nat) : Writer capacity :=
  if s.owed.stats.chunks ≠ 0 ∧ s.inflight.stats.chunks = 0 then
    match s.ensureRoom maxLine writes with
    | (false, s) => s
    | (true, s) =>
      let text := gapLine s.room now s.owed.stats
      if 0 < text.length then
        let s' := s.commitLine text (some s.owed)
        { s' with inflight := s.owed, owed := {}, gapLineEnd := s'.fileBytes }
      else s
  else s

/-- `write_drop_markers_`, with the markers that come before and after the gap line. -/
def writeDropMarkers (now : UInt64) (before : List Emission) (writes : List Nat)
    (after : List Emission) : Writer capacity :=
  after.foldl emit (emitGap (takeWindow (before.foldl emit s).retireGapIfDurable) now writes)

/-- `sync_file_` -/
def syncFile (writes : List Nat) (synced : Bool) : Writer capacity :=
  match s.flushBlock false writes with
  | (false, s) => s
  | (true, s) => if synced then s else s.enterFailed

/-- `close_file_` -/
def closeFile (c : Closing) : Bool × Writer capacity :=
  if !s.fileOpen then (false, s)
  else
    match (c.clock.toList ++ [c.last]).foldl emit s |>.flushBlock true c.writes with
    | (false, s) => (false, s)
    | (true, s) =>
      let s := s.retireGapIfDurable
      if !c.synced then (false, s.enterFailed)
      else (true, index { s with fileOpen := false } (.seal_ s.seq s.fileBytes.toUInt64))

/-- `open_next_file_` -/
def openNextFile (o : Opening) : Bool × Writer capacity :=
  let s := s.dropUnflushedGap
  match o.size with
  | none => (false, { s with fileOpen := false, seq := o.seq })
  | some size =>
    let s := o.header.foldl emit
      { s with
        fileOpen := true, seq := o.seq, fileBytes := size, block := []
        fileLength := size.toNat, longest := max s.longest size.toNat }
    if !s.fileOpen then (false, s)
    else (true, s.index (.add o.seq s.fileBytes.toUInt64 .open_))

/-- `unmount_card_` -/
def unmountCard : Writer capacity :=
  { dropUnflushedGap { s.index .clear with fileOpen := false } with block := [] }

/-- `rotate_file_` -/
def rotateFile (e : Emission) (c : Closing) (o : Opening) : Writer capacity :=
  match (s.emit e).closeFile c with
  | (false, s) => s
  | (true, s) =>
    match s.openNextFile o with
    | (true, s) => s
    | (false, s) => s.enterFailed

/-- `debug_freeze_writer_`; the calls are made while the writer is parked. -/
def debugFreezeWriter (c : Closing) (calls : List CollectionPolicy.Call) (o : Opening) :
    Writer capacity :=
  match s.closeFile c with
  | (false, s) => s
  | (true, s) =>
    match (calls.foldl index s).openNextFile o with
    | (true, s) => s
    | (false, s) => s.enterFailed

/-- `try_recover_`, and the start of `setup`: the card is mounted if there is an opening, and the
calls are those of the scan. -/
def tryRecover (calls : List CollectionPolicy.Call) (o : Option Opening) : Writer capacity :=
  let s := s.unmountCard
  match o with
  | none => s
  | some o =>
    match (calls.foldl index s).openNextFile o with
    | (true, s) => s
    | (false, s) => s.unmountCard

/-! ## Runs -/

/-- What the writer does next. -/
inductive Op
  | line (e : Emission)
  | markers (now : UInt64) (before : List Emission) (writes : List Nat) (after : List Emission)
  | flush (writes : List Nat)
  | sync (writes : List Nat) (synced : Bool)
  | rotate (e : Emission) (c : Closing) (o : Opening)
  | freeze (c : Closing) (calls : List CollectionPolicy.Call) (o : Opening)
  | close (c : Closing)
  | unmount
  | recover (calls : List CollectionPolicy.Call) (o : Option Opening)
  | index (c : CollectionPolicy.Call)

def step : Op → Writer capacity
  | .line e => s.emit e
  | .markers now before writes after => s.writeDropMarkers now before writes after
  | .flush writes => (s.flushBlock false writes).2
  | .sync writes synced => s.syncFile writes synced
  | .rotate e c o => s.rotateFile e c o
  | .freeze c calls o => s.debugFreezeWriter c calls o
  | .close c => (s.closeFile c).2
  | .unmount => s.unmountCard
  | .recover calls o => s.tryRecover calls o
  | .index c => s.index c

/-- The writer of a boot after the operations. -/
def run (ops : List Op) : Writer capacity := exec step {} ops

end Writer

end EspCars.SdLogger
