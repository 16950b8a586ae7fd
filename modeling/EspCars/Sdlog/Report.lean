import EspCars.Sdlog.Reader

/-!
# What the checker makes of a file

`parse_file` of `script/sdlog.py`. `Scan` is what its loop carries from line to line. A line
handler gives the scan behind the line and the `ValueError` it ended with, if it did: what was
assigned before the exception stays assigned.
-/

namespace EspCars.Sdlog

open EspCars.Lib EspCars.SdLogger

/-! ## The report -/

/-- One `#src` line. -/
structure Source where
  kind : Str
  label : Str
  tag : Nat
  origin : Str
  detail : Str
  deriving DecidableEq

/-- `Drop` -/
structure Drop where
  tUs : Nat
  what : Str
  delta : Nat
  total : Nat
  deriving DecidableEq

/-- `Gap` -/
structure Gap where
  tUs : Nat
  chunks : Nat
  bytes : Nat
  firstSeq : Nat
  lastSeq : Nat
  deriving DecidableEq

/-- `Report` -/
structure Report where
  formatVersion : Option Nat := none
  seq : Option Nat := none
  esphomeVersion : Str := []
  sources : List Source := []
  counts : List (UInt8 × Nat) := []
  labels : List (Str × Nat) := []
  drops : List Drop := []
  gaps : List Gap := []
  rotateTo : Str := []
  closeReason : Option Str := none
  tornTail : Bool := false
  badLines : List (Nat × Malformed × Str) := []
  firstTUs : Option Nat := none
  lastTUs : Option Nat := none
  firstUtcUs : Option Nat := none
  lastUtcUs : Option Nat := none
  origin : Option Str := none
  idents : List (List (Str × Str)) := []
  clock : ClockState := {}
  utcAnchorCount : Nat := 0
  totalLines : Nat := 0
  legacy : Bool := false
  deriving DecidableEq

/-- `d[key] = d.get(key, 0) + 1`. -/
def bump {κ : Type} [DecidableEq κ] (key : κ) : List (κ × Nat) → List (κ × Nat)
  | [] => [(key, 1)]
  | (k, n) :: d => if k = key then (k, n + 1) :: d else (k, n) :: bump key d

/-- `SUPPORTED_FORMAT_VERSIONS`. -/
def supportedFormatVersions : List Nat := [2]

namespace Report

/-- `label_for`: the first source with the tag names it. -/
def labelFor (r : Report) (tag : Nat) (token : Str) : Str :=
  ((r.sources.find? (·.tag = tag)).map (·.label)).getD token

/-- `unsupported_version`. -/
def unsupportedVersion (r : Report) : Bool :=
  match r.formatVersion with
  | some v => v ∉ supportedFormatVersions
  | none => false

/-- `clean`. -/
def clean (r : Report) : Bool := r.badLines = []

/-- `_note_time`. -/
def noteTime (r : Report) (tUs : Nat) : Report :=
  { r with firstTUs := r.firstTUs.orElse fun _ => some tUs, lastTUs := some tUs }

/-- `_note_utc`. -/
def noteUtc (r : Report) (utcUs : Option Nat) : Report :=
  match utcUs with
  | none => r
  | some utcUs =>
    { r with firstUtcUs := r.firstUtcUs.orElse fun _ => some utcUs, lastUtcUs := some utcUs }

end Report

/-! ## One line -/

/-- What the loop of `parse_file` carries; `stopped` is an early return. -/
structure Scan where
  report : Report := {}
  chain : Chain := {}
  utcAnchor : UtcAnchor := {}
  stopped : Bool := false
  deriving DecidableEq

namespace Scan

/-- The `#sdlog` case of `_parse_meta`. The version and the name of the run are assigned one after
the other. -/
def metaHeader (s : Scan) (fs : List Str) : Scan × Option Malformed :=
  if fs.length < 5 then (s, some (.truncated (ascii "#sdlog")))
  else
    match parseU (field fs 1) with
    | .error e => (s, some e)
    | .ok version =>
      let s := { s with report := { s.report with formatVersion := some version } }
      match parseU (field fs 2) with
      | .error e => (s, some e)
      | .ok seq =>
        let s := { s with
          report := { s.report with seq := some seq, esphomeVersion := field fs 4 } }
        if version ∈ supportedFormatVersions then
          match parseAbsStamp (field fs 3) with
          | .error e => (s, some e)
          | .ok _ => (s, none)
        else (s, none)

/-- `Source(...)` of a `#src` line. -/
def parseSource (fs : List Str) : Except Malformed Source :=
  if fs.length < 6 then .error (.truncated (ascii "#src"))
  else do
    let tag ← parseX (field fs 3)
    pure { kind := field fs 1, label := field fs 2, tag := tag, origin := field fs 4
           detail := field fs 5 }

/-- `Drop(...)` of a `#drop` line. -/
def parseDrop (fs : List Str) : Except Malformed Drop :=
  if fs.length < 5 then .error (.truncated (ascii "#drop"))
  else do
    let tUs ← parseAbsStamp (field fs 1)
    let delta ← parseU (field fs 3)
    let total ← parseU (field fs 4)
    pure { tUs := tUs, what := field fs 2, delta := delta, total := total }

/-- `Gap(...)` of a `#gap` line. -/
def parseGap (fs : List Str) : Except Malformed Gap :=
  if fs.length < 6 then .error (.truncated (ascii "#gap"))
  else do
    let tUs ← parseAbsStamp (field fs 1)
    let chunks ← parseU (field fs 2)
    let bytes ← parseU (field fs 3)
    let firstSeq ← parseU (field fs 4)
    let lastSeq ← parseU (field fs 5)
    pure { tUs := tUs, chunks := chunks, bytes := bytes, firstSeq := firstSeq, lastSeq := lastSeq }

/-- The two numbers of a `#utc` line. -/
def parseUtc (fs : List Str) : Except Malformed (Nat × Nat) :=
  if fs.length ≠ 3 then .error .utcFields
  else do
    let boot ← parseU64X (field fs 1)
    let utc ← parseU64X (field fs 2)
    pure (boot, utc)

/-- A line whose value is only taken when all of it has been read. -/
def taking {α : Type} (s : Scan) (parsed : Except Malformed α) (take : α → Scan) :
    Scan × Option Malformed :=
  match parsed with
  | .error e => (s, some e)
  | .ok v => (take v, none)

/-- The meta lines that `_parse_meta` reads. -/
inductive MetaHead
  | sdlog | src | drop | gap | rotate | close | utc | clock | ident | origin | other
  deriving DecidableEq, Repr

/-- The first field of the line; `other` is the legend and whatever a newer writer adds. -/
def MetaHead.ofText (head : Str) : MetaHead :=
  if head = ascii "#sdlog" then .sdlog
  else if head = ascii "#src" then .src
  else if head = ascii "#drop" then .drop
  else if head = ascii "#gap" then .gap
  else if head = ascii "#rotate" then .rotate
  else if head = ascii "#close" then .close
  else if head = ascii "#utc" then .utc
  else if head = ascii "#clock" then .clock
  else if head = ascii "#ident" then .ident
  else if head = ascii "#origin" then .origin
  else .other

/-- `_parse_meta`. -/
def parseMeta (s : Scan) (line : Str) : Scan × Option Malformed :=
  let fs := fields line
  let r := s.report
  match MetaHead.ofText (field fs 0) with
  | .sdlog => s.metaHeader fs
  | .src =>
    s.taking (parseSource fs) fun v => { s with report := { r with sources := r.sources ++ [v] } }
  | .drop =>
    s.taking (parseDrop fs) fun v => { s with report := { r with drops := r.drops ++ [v] } }
  | .gap =>
    s.taking (parseGap fs) fun v => { s with report := { r with gaps := r.gaps ++ [v] } }
  | .rotate =>
    if fs.length < 3 then (s, some (.truncated (ascii "#rotate")))
    else ({ s with report := { r with rotateTo := field fs 2 } }, none)
  | .close =>
    if fs.length < 3 then (s, some (.truncated (ascii "#close")))
    else ({ s with report := { r with closeReason := some (field fs 2) } }, none)
  | .utc =>
    s.taking (parseUtc fs) fun (boot, utc) =>
      { s with
        utcAnchor := UtcAnchor.set boot utc
        report := { r with
          utcAnchorCount := r.utcAnchorCount + 1
          clock := r.clock.offer { tUs := boot, utcUs := utc, basis := .utc, src := .sync } false } }
  | .clock =>
    s.taking (parseClockLine line) fun v =>
      { s with report := { r with clock := r.clock.offer v true } }
  | .ident =>
    s.taking (parseIdentLine line) fun v => { s with report := { r with idents := r.idents ++ [v] } }
  | .origin =>
    if fs.length ≠ 2 then (s, some .originFields)
    else ({ s with report := { r with origin := some (field fs 1) } }, none)
  | .other => (s, none)

/-- A record line whose stamp has been read. -/
def countRecord (s : Scan) (fs : List Str) (kind : UInt8) (tUs : Nat) : Scan × Option Malformed :=
  match splitToken (field fs 0) with
  | .error e => (s, some e)
  | .ok (_, tag, _) =>
    match checkRecord fs with
    | .error e => (s, some e)
    | .ok _ =>
      let r := (s.report.noteTime tUs).noteUtc (s.utcAnchor.resolve tUs)
      ({ s with report := { r with
          counts := bump kind r.counts
          labels := bump (r.labelFor tag (field fs 0)) r.labels } }, none)

/-- A text line whose stamp has been read. -/
def countText (s : Scan) (fs : List Str) (tUs : Nat) : Scan × Option Malformed :=
  match checkText fs with
  | .error e => (s, some e)
  | .ok _ =>
    let r := (s.report.noteTime tUs).noteUtc (s.utcAnchor.resolve tUs)
    ({ s with report := { r with counts := bump textKind r.counts } }, none)

/-- A line that is not a meta line. The chain has moved on even if the rest is malformed. -/
def parseStream (s : Scan) (line : Str) : Scan × Option Malformed :=
  let fs := fields line
  match (field fs 0).head? with
  | none => (s, some (.unknownType none))
  | some kind =>
    if kind ∈ recordKinds ∨ kind = textKind then
      if fs.length < 2 then (s, some (.tooFewFields 2 fs.length))
      else
        match s.chain.read (field fs 1) with
        | .error e => (s, some e)
        | .ok (tUs, chain) =>
          let s := { s with chain := chain }
          if kind ∈ recordKinds then s.countRecord fs kind tUs else s.countText fs tUs
    else (s, some (.unknownType (some kind)))

/-- The body of the `try`. -/
def parseLine (s : Scan) (line : Str) : Scan × Option Malformed :=
  if isMeta line then
    match s.parseMeta line with
    | (s, none) => ({ s with stopped := s.report.unsupportedVersion }, none)
    | (s, some e) => (s, some e)
  else s.parseStream line

/-- The `except` clause: a line that raised is listed, the torn last one is not. -/
def settle (number : Nat) (line : Str) (last : Bool) : Scan × Option Malformed → Scan
  | (s, none) => s
  | (s, some e) =>
    if last then s
    else
      { s with report := { s.report with
          badLines := s.report.badLines ++ [(number, e, line.take 80)] } }

/-- One turn of the loop. `last` says that the line is the last one and has no newline. -/
def turn (s : Scan) (number : Nat) (line : Str) (last : Bool) : Scan :=
  if s.stopped ∨ line = [] then s
  else
    let s := { s with report := { s.report with totalLines := s.report.totalLines + 1 } }
    if ascii "#pad," <+: line then s
    else if number = 1 ∧ ascii "# " <+: line then
      { s with report := { s.report with legacy := true }, stopped := true }
    else settle number line last (s.parseLine line)

/-- The turns for complete lines, the first of which has the number `number`. -/
def turns (s : Scan) (number : Nat) : List Str → Scan
  | [] => s
  | line :: rest => (s.turn number line false).turns (number + 1) rest

/-- The scan behind the complete lines of a file. -/
def ofLines (whole : List Str) : Scan := turns {} 1 whole

end Scan

/-- `parse_file`, from the bytes of the file. Nothing reads the torn tail flag of the report but
the `except` clause, which is told of it. -/
def parseFile (raw : List UInt8) : Report :=
  let whole := lines newline raw
  let rest := unfinished newline raw
  let s := Scan.ofLines whole
  let s := if rest = [] then s else s.turn (whole.length + 1) rest true
  { s.report with tornTail := rest ≠ [] ∨ raw = [] }

end EspCars.Sdlog
