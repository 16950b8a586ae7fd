import Mathlib

/-!
# Loading an archive into a sink

`load_chunk`, `pending_files` and `cmd_run` of `script/sdlog_decode.py` against the sink that
`FakeSink` is: the rows of three tables, each with its chunk key, and the markers of the files. A
run is the list of calls it makes on the sink; a run that is killed, or whose sink fails, has made
the first of them. The calls that only ask the sink come before all others.

What is read from a chunk's bytes (`parse_file`, `StreamReader`, the decoders of the device under
its catalog) is a parameter, as are the types of names, bytes, keys, catalogs and rows. One device
is modelled: every call names its device, and the sink keeps devices apart.
-/

namespace EspCars.Sdlog

variable {φ β κ γ ρ : Type}

/-- `ROW_TABLES`. -/
inductive Table where
  | frames
  | signals
  | events
  deriving DecidableEq, Repr

/-! ## The sink -/

/-- A row of the table `chunks`. -/
structure Marker (φ κ γ : Type) where
  file : φ
  chunk : κ
  catalog : γ
  ok : Bool
  frames : Nat
  signals : Nat
  deriving DecidableEq

/-- `FakeSink`, for one device. `chunks` is in the order of `decoded_at`. -/
structure FakeSink (φ κ γ ρ : Type) where
  rows : Table → List (κ × ρ) := fun _ => []
  chunks : List (Marker φ κ γ) := []

/-- The calls that change the sink. -/
inductive SinkCall (φ κ γ ρ : Type) where
  | deleteChunks (keys : List κ)
  | insert (table : Table) (rows : List (κ × ρ))
  | insertMarker (m : Marker φ κ γ)

namespace FakeSink

/-- The newest marker of a file; `chunk_state` and `chunk_keys` are read off it. -/
def latest [DecidableEq φ] (s : FakeSink φ κ γ ρ) (file : φ) : Option (Marker φ κ γ) :=
  s.chunks.reverse.find? fun m => m.file = file

/-- The sink behind a call. -/
def call [DecidableEq κ] (s : FakeSink φ κ γ ρ) : SinkCall φ κ γ ρ → FakeSink φ κ γ ρ
  | .deleteChunks keys => { s with rows := fun t => (s.rows t).filter fun r => r.1 ∉ keys }
  | .insert table rows =>
    { s with rows := Function.update s.rows table (s.rows table ++ rows) }
  | .insertMarker m => { s with chunks := s.chunks ++ [m] }

def calls [DecidableEq κ] (s : FakeSink φ κ γ ρ) (cs : List (SinkCall φ κ γ ρ)) :
    FakeSink φ κ γ ρ :=
  cs.foldl call s

/-- The rows under a chunk key. -/
def rowsOf [DecidableEq κ] (s : FakeSink φ κ γ ρ) (chunk : κ) (t : Table) : List (κ × ρ) :=
  (s.rows t).filter fun r => r.1 = chunk

end FakeSink

/-! ## One chunk -/

/-- What one record adds: its frame, and what the decoders make of it. -/
structure ChunkRecord (ρ : Type) where
  frame : ρ
  signals : List ρ := []
  events : List ρ := []

/-- What reading a chunk yields: its records, what the decoders add at the end, and whether the
reading ended in an error after these records. -/
structure Reading (ρ : Type) where
  records : List (ChunkRecord ρ)
  signals : List ρ := []
  events : List ρ := []
  failed : Bool := false

/-- What the bytes of a chunk are taken for. -/
structure Loader (β κ γ ρ : Type) where
  /-- `seq` and the digest. -/
  chunk : β → κ
  /-- The file has a `#close`. -/
  closed : β → Bool
  /-- `_defect_reason`, given whether there is a `.torn` sidecar for these bytes. -/
  defect : β → Bool → Bool
  read : β → γ → Reading ρ

/-- A file of the archive: its bytes, and whether its `.torn` sidecar vouches for them. -/
structure Chunk (β : Type) where
  bytes : β
  torn : Bool := false

/-- One `insert` of a batch. -/
def insertRows (chunk : κ) (t : Table) (rows : List ρ) : SinkCall φ κ γ ρ :=
  .insert t (rows.map fun r => (chunk, r))

/-- A full buffer is inserted; the call, if any, and the buffer after it. -/
def flush (chunk : κ) (t : Table) (batchRows : Nat) (rows : List ρ) :
    List (SinkCall φ κ γ ρ) × List ρ :=
  if batchRows ≤ rows.length then ([insertRows chunk t rows], []) else ([], rows)

/-- The batches of the reading loop, and the frame and signal rows left in its buffers.
`batchRows` is the batch size. -/
def batches (chunk : κ) (batchRows : Nat) :
    List (ChunkRecord ρ) → List ρ → List ρ → List (SinkCall φ κ γ ρ) × List ρ × List ρ
  | [], frames, signals => ([], frames, signals)
  | r :: rest, frames, signals =>
    let frames := flush chunk .frames batchRows (frames ++ [r.frame])
    let signals := flush chunk .signals batchRows (signals ++ r.signals)
    let after := batches chunk batchRows rest frames.2 signals.2
    (frames.1 ++ signals.1 ++ after.1, after.2)

/-- The rows a call inserts. -/
def SinkCall.inserted : SinkCall φ κ γ ρ → Nat
  | .insert _ rows => rows.length
  | _ => 0

/-- `load_chunk`; `cleared` holds the keys the run has already deleted. -/
def loadChunk [DecidableEq κ] (load : Loader β κ γ ρ) (batchRows : Nat) (catalog : γ)
    (cleared : List κ) (file : φ) (c : Chunk β) : List (SinkCall φ κ γ ρ) :=
  let chunk := load.chunk c.bytes
  let delete := if chunk ∈ cleared then [] else [.deleteChunks [chunk]]
  let torn := !load.closed c.bytes && c.torn
  if load.defect c.bytes torn then
    delete ++ [.insertMarker ⟨file, chunk, catalog, false, 0, 0⟩]
  else
    let reading := load.read c.bytes catalog
    let b := batches chunk batchRows reading.records [] []
    if reading.failed then
      let drop :=
        if (b.1.map SinkCall.inserted).sum ≠ 0 then [.deleteChunks [chunk]] else []
      delete ++ b.1 ++ drop ++ [.insertMarker ⟨file, chunk, catalog, false, 0, 0⟩]
    else
      let signals := b.2.2 ++ reading.signals
      let events := reading.records.flatMap (·.events) ++ reading.events
      let last := [insertRows chunk .frames b.2.1, insertRows chunk .signals signals,
        insertRows chunk .events events]
      let framesIn := reading.records.length
      let signalsIn := (reading.records.flatMap (·.signals) ++ reading.signals).length
      delete ++ b.1 ++ last ++ [.insertMarker ⟨file, chunk, catalog, true, framesIn, signalsIn⟩]

/-! ## A run -/

section Run

variable [DecidableEq φ] [DecidableEq κ] [DecidableEq γ]

/-- `pending_files`: `files` are the names in the device's directory, in order. -/
def pendingFiles (s : FakeSink φ κ γ ρ) (catalog : γ) (files : List φ) : List φ :=
  files.filter fun file => (s.latest file).all fun m => decide (m.catalog ≠ catalog)

/-- The loop of `cmd_run` over the files to do. -/
def loadAll (load : Loader β κ γ ρ) (archive : φ → Chunk β) (batchRows : Nat) (catalog : γ) :
    List κ → List φ → List (SinkCall φ κ γ ρ)
  | _, [] => []
  | cleared, file :: files =>
    loadChunk load batchRows catalog cleared file (archive file) ++
      loadAll load archive batchRows catalog
        (cleared.filter (· ≠ load.chunk (archive file).bytes)) files

/-- The keys `cmd_run` deletes at once: those of the files it does again. -/
def redoneKeys (s : FakeSink φ κ γ ρ) (todo : List φ) : List κ :=
  (todo.filterMap s.latest).map (·.chunk)

/-- The calls of `cmd_run`. -/
def cmdRun (load : Loader β κ γ ρ) (archive : φ → Chunk β) (batchRows : Nat) (catalog : γ)
    (files : List φ) (s : FakeSink φ κ γ ρ) : List (SinkCall φ κ γ ρ) :=
  let todo := pendingFiles s catalog files
  let cleared := redoneKeys s todo
  (if cleared = [] then [] else [.deleteChunks cleared]) ++
    loadAll load archive batchRows catalog cleared todo

end Run

end EspCars.Sdlog
