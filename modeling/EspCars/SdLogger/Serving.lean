import EspCars.SdLogger.Collection

/-!
# The writer and the collection server

The index, the card and the two tasks of `components/sd_logger/sd_logger.cpp` that share them: the
httpd task that grants transfers and takes confirms, and the writer that discards, renames, seals,
unmounts and scans. A step is one section under the index lock or one call of the filesystem; what
the card answers, the clock and the bus decide comes with the step. Between two steps the writer is
at a `Place` of its code.

A file carries an `id` and the state what it takes to say whose file was confirmed; no step of
either task reads them.
-/

namespace EspCars.SdLogger

open EspCars.Lib

variable {capacity : Nat}

/-! ## The victims of retention -/

def seqWrapWindow (capacity : Nat) : UInt32 :=
  if 256 < capacity then capacity.toUInt32 else 256

def seqBefore (capacity : Nat) (a b : UInt32) : Bool :=
  let aa := a % seqModulus
  let bb := b % seqModulus
  let forward := if bb ≥ aa then bb - aa else seqModulus - (aa - bb)
  if forward = 0 then false
  else if forward ≤ seqWrapWindow capacity then true
  else if seqModulus - forward ≤ seqWrapWindow capacity then false
  else aa < bb

namespace CollectionPolicy

/-- One turn of the loop of `oldest_`. -/
def older (capacity : Nat) (state : ChunkState) (skipServing : Bool) (best : Option ChunkEntry)
    (entry : ChunkEntry) : Option ChunkEntry :=
  if entry.state ≠ state ∨ (skipServing ∧ entry.serving) then best
  else
    match best with
    | none => some entry
    | some b => if seqBefore capacity entry.seq b.seq then some entry else best

variable (p : CollectionPolicy capacity)

/-- The oldest entry in a state. -/
def oldest (state : ChunkState) (skipServing : Bool) : Option ChunkEntry :=
  p.chunks.foldl (older capacity state skipServing) none

def full : Bool := p.chunks.length ≥ capacity

def isServing (seq : UInt32) : Bool := ((p.find seq).map (·.serving)).getD false

/-- `next_victim` -/
def nextVictim (fillPercent : UInt8) : Option ChunkEntry :=
  if ¬p.enabled ∨ fillPercent < p.retentionPercent then none
  else
    match p.oldest .confirmed true with
    | some victim => some victim
    | none => if (p.oldest .confirmed false).isSome then none else p.oldest .sealed true

/-- `index_pressure_victim` -/
def indexPressureVictim : Option ChunkEntry :=
  if ¬p.enabled ∨ ¬p.full then none else p.oldest .confirmed true

end CollectionPolicy

/-! ## The card -/

/-- What the name of a file on the card ends in. -/
inductive Extension
  | log | upl | csv
  deriving DecidableEq

/-- A file of the card that a scan looks at. -/
structure CardFile where
  id : Nat
  seq : UInt32
  ext : Extension
  deriving DecidableEq

def CardFile.name (f : CardFile) : UInt32 × Extension := (f.seq, f.ext)

/-- `format_chunk_name` -/
def extensionOf : ChunkState → Extension
  | .confirmed => .upl
  | _ => .log

/-- The extension of a chunk, which a `.CSV` is not. -/
def chunkStateOf : Extension → Option ChunkState
  | .log => some .sealed
  | .upl => some .confirmed
  | .csv => none

/-- The files of the card. -/
abbrev Directory := List CardFile

namespace Directory

def lookup (dir : Directory) (seq : UInt32) (ext : Extension) : Option CardFile :=
  Keyed.find CardFile.name (seq, ext) dir

def remove (dir : Directory) (seq : UInt32) (ext : Extension) : Directory :=
  Keyed.erase CardFile.name (seq, ext) dir

/-- The files named by a number, whatever their extension. -/
def numbered (dir : Directory) (seq : UInt32) : List Nat :=
  (dir.filter (·.seq = seq)).map (·.id)

end Directory

/-! ## The two tasks -/

/-- `confirm_q_` holds the number alone; `aim` is the file that was accepted. -/
structure Intent where
  seq : UInt32
  aim : Option Nat
  deriving DecidableEq

/-- A transfer granted by `collection_begin_serve`, or by one of the debug pages. -/
structure Transfer where
  id : Nat
  seq : UInt32
  debug : Bool
  deriving DecidableEq

/-- Who has reserved a chunk. -/
inductive Party
  | transfer (id : Nat)
  | writer
  deriving DecidableEq

/-- Where `discard_reserved_chunk_` goes on. -/
inductive Return
  | retention
  | pressureBefore
  | pressureAfter
  deriving DecidableEq

/-- Where the writer is between two of its steps. -/
inductive Place
  | writing
  | discarding (seq : UInt32) (state : ChunkState) (back : Return)
  | reclaiming (seq : UInt32) (back : Return)
  | dropping (seq : UInt32) (back : Return)
  | releasing (seq : UInt32) (back : Return)
  | receiving (intent : Intent) (renameable reserved : Bool)
  | moving (intent : Intent) (reserved : Bool)
  | confirming (seq : UInt32) (reserved gone : Bool) (moved : Option Nat)
  | sealing
  | sealed
  | losing
  | failed
  | draining
  | drained
  | unmounted
  | mounted
  | opened
  | scanning (todo : Directory) (next : UInt32)
  | tracking (file : CardFile) (state : ChunkState) (todo : Directory) (next : UInt32)
  | scanned
  | pressing (back : Return)
  | creating
  | refused
  | heading
  | adding (again : Bool)
  deriving DecidableEq

/-- The logger as far as chunks are served, discarded and confirmed. -/
structure Logger (capacity : Nat) where
  policy : CollectionPolicy capacity := {}
  servingOpen : Bool := false
  card : Option Directory := none
  seq : UInt32 := 0
  confirmQ : List Intent := []
  transfersInFlight : Nat := 0
  place : Place := .unmounted
  holds : List Transfer := []
  ending : Nat := 0
  raw : Nat := 0
  granted : Nat := 0
  setBy : UInt32 → Option Party := fun _ => none
  writes : Option Nat := none
  accepted : List Nat := []
  files : Nat := 0

def confirmQueueDepth : Nat := 4

/-- A step of one of the tasks. -/
inductive Action
  | beginServe (seq : UInt32)
  | beginDebug (seq : UInt32) (named : ChunkState)
  | clearServe (id : Nat)
  | endServe
  | endDebug (id : Nat)
  | beginRaw
  | endRaw
  | confirm (seq : UInt32)
  | retain (fill : UInt8)
  | drain
  | closeFile (flushed : Bool)
  | fail
  | fence
  | writer (ok : Bool) (bytes : UInt64)
  | unmount
  | mount (dir : Directory)
  | restate (seq : UInt32) (bytes : UInt64)
  | openNextFile

namespace Logger

variable (s : Logger capacity)

def dir : Directory := s.card.getD []

/-- The file that bears the name of a chunk, unless the writer has it open. -/
def sealedFile (seq : UInt32) : Option Nat :=
  ((s.dir.lookup seq .log).map (·.id)).filter (s.writes ≠ some ·)

/-! ## The httpd task -/

/-- Mark the entry, which is there, and count the transfer. -/
def grant (seq : UInt32) (debug : Bool) : Logger capacity :=
  { s with
    policy := (s.policy.markServing seq).2
    transfersInFlight := s.transfersInFlight + 1
    holds := s.holds ++ [⟨s.granted, seq, debug⟩]
    granted := s.granted + 1
    setBy := fun n => if n = seq then some (.transfer s.granted) else s.setBy n }

/-- The state that is answered, the bytes of a chunk that is granted, and what is left. -/
def collectionBeginServe (seq : UInt32) : (ChunkState × Option UInt32) × Logger capacity :=
  if ¬s.servingOpen then ((.none, none), s)
  else
    match s.policy.find seq with
    | none => ((.none, none), s)
    | some entry =>
      if entry.state ≠ .sealed then ((entry.state, none), s)
      else if s.policy.isServing seq then ((entry.state, none), s)
      else if ¬(s.policy.markServing seq).1 then ((entry.state, none), s)
      else ((entry.state, some entry.bytes), s.grant seq false)

/-- `FsDebugResult` -/
inductive FsDebugResult
  | unavailable | notIndexed | ok
  deriving DecidableEq

/-- How `collection_fs_debug` and `collection_chain_debug` begin; the name says a state. -/
def beginDebug (seq : UInt32) (named : ChunkState) : FsDebugResult × Logger capacity :=
  if ¬s.servingOpen ∨ s.card.isNone then (.unavailable, s)
  else
    match s.policy.find seq with
    | none => (.notIndexed, s)
    | some entry =>
      if extensionOf named ≠ extensionOf entry.state ∨ s.policy.isServing seq ∨
          ¬(s.policy.markServing seq).1 then (.notIndexed, s)
      else (.ok, s.grant seq true)

/-- The first half of `collection_end_serve`. -/
def clearServe (id : Nat) : Logger capacity :=
  match s.holds.find? (fun t => t.id = id ∧ ¬t.debug) with
  | none => s
  | some t =>
    { s with
      policy := s.policy.clearServing t.seq
      holds := s.holds.erase t
      ending := s.ending + 1 }

def endServe : Logger capacity :=
  if s.ending = 0 then s
  else { s with ending := s.ending - 1, transfersInFlight := s.transfersInFlight - 1 }

/-- How the two debug reads end. -/
def endDebug (id : Nat) : Logger capacity :=
  match s.holds.find? (fun t => t.id = id ∧ t.debug) with
  | none => s
  | some t =>
    { s with
      policy := s.policy.clearServing t.seq
      holds := s.holds.erase t
      transfersInFlight := s.transfersInFlight - 1 }

/-- `collection_begin_raw_read` -/
def beginRawRead : Logger capacity :=
  if ¬s.servingOpen ∨ s.card.isNone then s
  else { s with raw := s.raw + 1, transfersInFlight := s.transfersInFlight + 1 }

/-- `collection_end_raw_read` -/
def endRawRead : Logger capacity :=
  if s.raw = 0 then s
  else { s with raw := s.raw - 1, transfersInFlight := s.transfersInFlight - 1 }

/-- `ConfirmResult` -/
inductive ConfirmResult
  | busy | notTracked | isOpen | confirmed
  deriving DecidableEq

/-- The answer CONFIRMED, which every sealed file of that number on the card hears. -/
def hear (seq : UInt32) : Logger capacity :=
  { s with accepted := s.accepted ++ (s.dir.numbered seq).filter (s.writes ≠ some ·) }

/-- `collection_confirm` -/
def collectionConfirm (seq : UInt32) : ConfirmResult × Logger capacity :=
  if ¬s.servingOpen then (.busy, s)
  else
    match s.policy.find seq with
    | none => (.notTracked, s)
    | some entry =>
      if entry.state = .open_ then (.isOpen, s)
      else if entry.state = .confirmed then (.confirmed, s.hear seq)
      else if s.confirmQ.length ≥ confirmQueueDepth then (.busy, s)
      else
        (.confirmed,
          { s.hear seq with
            confirmQ := s.confirmQ ++ [⟨seq, s.sealedFile seq⟩]
            policy := (s.policy.confirm seq).2 })

/-! ## The writer task -/

/-- The reservation of the writer. -/
def reserve (seq : UInt32) : Bool × Logger capacity :=
  if (s.policy.markServing seq).1 then
    (true,
      { s with
        policy := (s.policy.markServing seq).2
        setBy := fun n => if n = seq then some .writer else s.setBy n })
  else (false, s)

/-- `discard_reserved_chunk_` returns. -/
def resume (back : Return) (dropped : Bool) : Logger capacity :=
  { s with
    place := match back with
      | .retention => .writing
      | .pressureBefore => .creating
      | .pressureAfter => if dropped then .adding true else .writing }

/-- Choose, reserve, and go to the unlink. -/
def reserveVictim (victim : Option ChunkEntry) (back : Return) : Logger capacity :=
  match victim with
  | none => s.resume back false
  | some v =>
    if (s.reserve v.seq).1 then
      { (s.reserve v.seq).2 with place := .discarding v.seq v.state back }
    else s.resume back false

/-- The unlink of `discard_reserved_chunk_`. -/
def discardUnlink (seq : UInt32) (state : ChunkState) (back : Return) (ok : Bool) :
    Logger capacity :=
  match s.dir.lookup seq (extensionOf state) with
  | none =>
    { s with place := if state = .sealed then .dropping seq back else .reclaiming seq back }
  | some _ =>
    if ok then
      { s with
        card := s.card.map (·.remove seq (extensionOf state))
        place := .dropping seq back }
    else { s with place := .releasing seq back }

/-- The unlink of a chunk that was confirmed and not renamed. -/
def reclaimUnlink (seq : UInt32) (back : Return) (ok : Bool) : Logger capacity :=
  { s with
    card := if ok then s.card.map (·.remove seq .log) else s.card
    place := .dropping seq back }

def dropReserved (seq : UInt32) (back : Return) : Logger capacity :=
  let dropped := (s.policy.clearServing seq).discard seq
  { s with policy := dropped.2 }.resume back dropped.1

def releaseReserved (seq : UInt32) (back : Return) : Logger capacity :=
  { s with policy := s.policy.clearServing seq }.resume back false

/-- The peek of `drain_confirms_` and the section under the lock. -/
def drainConfirms : Logger capacity :=
  match s.confirmQ with
  | [] => s
  | intent :: _ =>
    if s.policy.isServing intent.seq then s
    else if ((s.policy.find intent.seq).map (·.state)) = some .open_ then
      { s with place := .receiving intent false false }
    else
      { (s.reserve intent.seq).2 with
        place := .receiving intent true (s.reserve intent.seq).1 }

def receiveIntent (intent : Intent) (renameable reserved : Bool) : Logger capacity :=
  match s.confirmQ with
  | [] => { s with place := if reserved then .releasing intent.seq .retention else .writing }
  | _ :: rest =>
    { s with
      confirmQ := rest
      place := if renameable then .moving intent reserved else .writing }

/-- The rename of `drain_confirms_`, which refuses a name that exists. -/
def renameChunk (intent : Intent) (reserved ok : Bool) : Logger capacity :=
  match s.dir.lookup intent.seq .log with
  | none => { s with place := .confirming intent.seq reserved true none }
  | some f =>
    if ok ∧ (s.dir.lookup intent.seq .upl).isNone then
      { s with
        card := s.card.map fun dir => dir.remove intent.seq .log ++ [{ f with ext := .upl }]
        place := .confirming intent.seq reserved true (some f.id) }
    else { s with place := .confirming intent.seq reserved false none }

def applyConfirm (seq : UInt32) (reserved gone : Bool) : Logger capacity :=
  let p := if reserved then s.policy.clearServing seq else s.policy
  { s with policy := if gone then (p.confirm seq).2 else p, place := .writing }

/-- The fd is gone; the section under the lock of `enter_failed_` is to come. -/
def lose : Logger capacity := { s with writes := none, place := .losing }

/-- The section under the lock of `unmount_card_`. -/
def closeGate : Logger capacity :=
  { s with servingOpen := false, policy := s.policy.clear, place := .draining }

/-- A card is mounted. -/
def mountCard (dir : Directory) : Logger capacity :=
  { s with
    card := some dir
    files := (dir.map (·.id + 1)).foldl max s.files
    place := .mounted }

/-- One directory entry of `scan_next_seq_`, up to the count. -/
def scanEntry (f : CardFile) (todo : Directory) (next : UInt32) : Logger capacity :=
  let next := if f.seq + 1 > next then f.seq + 1 else next
  { s with
    place := match chunkStateOf f.ext with
      | none => .scanning todo next
      | some state =>
        if s.policy.chunks.length + 1 ≥ capacity then .scanning todo next
        else .tracking f state todo next }

/-- The first section of `open_next_file_`. -/
def beginOpen (seq : UInt32) : Logger capacity :=
  { s with
    seq
    place := if s.policy.enabled ∧ s.policy.full then .pressing .pressureBefore else .creating }

/-- `open` with `O_CREAT` and `O_APPEND`: what is there is no longer the file that was sealed. -/
def createFile : Logger capacity :=
  let name := s.seq % seqModulus
  { s with
    card := s.card.map fun dir => dir.remove name .log ++ [⟨s.files, name, .log⟩]
    writes := some s.files
    files := s.files + 1
    place := .heading }

def addOpen (bytes : UInt64) (again : Bool) : Logger capacity :=
  let added := s.policy.add s.seq bytes .open_
  { s with
    policy := added.2
    place := if ¬added.1 ∧ s.policy.full ∧ ¬again then .pressing .pressureAfter else .writing }

/-- The next piece of what the writer is in the middle of: what the card answers, and the size of
the file where one is asked for. -/
def proceed (ok : Bool) (bytes : UInt64) : Logger capacity :=
  match s.place with
  | .writing => s
  | .discarding seq state back => s.discardUnlink seq state back ok
  | .reclaiming seq back => s.reclaimUnlink seq back ok
  | .dropping seq back => s.dropReserved seq back
  | .releasing seq back => s.releaseReserved seq back
  | .receiving intent renameable reserved => s.receiveIntent intent renameable reserved
  | .moving intent reserved => s.renameChunk intent reserved ok
  | .confirming seq reserved gone _ => s.applyConfirm seq reserved gone
  | .sealing => { s with policy := (s.policy.seal_ s.seq bytes).2, place := .sealed }
  | .sealed => s
  | .losing => { s with policy := s.policy.clear, place := .failed }
  | .failed => s
  | .draining => { s with place := .drained }
  | .drained => { s with card := none, place := .unmounted }
  | .unmounted => s
  | .mounted => { s with servingOpen := true, place := .opened }
  | .opened =>
    if ok then { s with policy := s.policy.clear, place := .scanning s.dir 0 }
    else { s with policy := s.policy.clear, seq := 0, place := .scanned }
  | .scanning [] next => { s with seq := next, place := .scanned }
  | .scanning (f :: todo) next => s.scanEntry f todo next
  | .tracking f state todo next =>
    { s with policy := (s.policy.add f.seq bytes state).2, place := .scanning todo next }
  | .scanned => s
  | .pressing back => s.reserveVictim s.policy.indexPressureVictim back
  | .creating => if ok then s.createFile else { s with place := .refused }
  | .refused => s.lose
  | .heading => if ok then { s with place := .adding false } else s.lose
  | .adding again => s.addOpen bytes again

/-- An action that its task is not at the place for does nothing. -/
def step : Action → Logger capacity
  | .beginServe seq => (s.collectionBeginServe seq).2
  | .beginDebug seq named => (s.beginDebug seq named).2
  | .clearServe id => s.clearServe id
  | .endServe => s.endServe
  | .endDebug id => s.endDebug id
  | .beginRaw => s.beginRawRead
  | .endRaw => s.endRawRead
  | .confirm seq => (s.collectionConfirm seq).2
  | .retain fill =>
    if s.place = .writing then s.reserveVictim (s.policy.nextVictim fill) .retention else s
  | .drain => if s.place = .writing then s.drainConfirms else s
  | .closeFile flushed =>
    if s.place = .writing then
      if flushed then { s with writes := none, place := .sealing } else s.lose
    else s
  | .fail => if s.place = .writing then s.lose else s
  | .fence =>
    if s.place ∈ [.writing, .sealed, .failed, .scanned, .unmounted] then
      { s with servingOpen := false }
    else s
  | .writer ok bytes => s.proceed ok bytes
  | .unmount =>
    if s.place ∈ [.failed, .refused, .sealed, .opened, .scanned, .unmounted] then s.closeGate else s
  | .mount dir => if s.place = .unmounted then s.mountCard dir else s
  | .restate seq bytes =>
    if s.place = .scanned then { s with policy := (s.policy.restateSealedBytes seq bytes).2 } else s
  | .openNextFile =>
    if s.place = .sealed then s.beginOpen (s.seq + 1)
    else if s.place = .scanned then s.beginOpen s.seq
    else s

/-- The component as `setup` configures it. -/
def start (enabled : Bool) (retentionPercent : UInt8) : Logger capacity :=
  { policy := { enabled, retentionPercent } }

def run (enabled : Bool) (retentionPercent : UInt8) (actions : List Action) : Logger capacity :=
  exec step (start enabled retentionPercent) actions

end Logger

end EspCars.SdLogger
