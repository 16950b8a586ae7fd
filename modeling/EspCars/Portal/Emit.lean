import EspCars.Lib.Json
import EspCars.Portal.Tree

/-!
# The emitter

What the portal writes, byte for byte: `json_string`, `number_u32` and `number_float` of the
`ChunkWriter` and the functions of `components/portal/portal_core.h` from `write_csv_as_json_array`
to `write_envelope`. A function is the list of the bytes it hands to the writer; how the writer
cuts them into frames, and that a failed flush ends it, is left out. The cast of a NaN to an integer
is undefined in the code, so its outcome is a parameter (`castNan`).
-/

namespace EspCars.Portal

open EspCars.Lib

/-! ## Names -/

/-- `state_name` -/
def stateName : State → List UInt8
  | .ok => ascii "ok"
  | .stale => ascii "stale"
  | .degraded => ascii "degraded"
  | .refused => ascii "refused"
  | .silent => ascii "silent"
  | .absent => ascii "absent"
  | .unreachable => ascii "unreachable"
  | .unknown => ascii "unknown"
  | .incompatible => ascii "incompatible"

/-- `classification_name` -/
def classificationName : Classification → List UInt8
  | .real => ascii "real"
  | .sna => ascii "sna"
  | .implausibleValue => ascii "implausible"

/-- `level_name` -/
def levelName : Level → Option (List UInt8)
  | .ok => some (ascii "ok")
  | .warn => some (ascii "warn")
  | .bad => some (ascii "bad")
  | .none => none

/-- `control_name` -/
def controlName : Control → List UInt8
  | .switch => ascii "switch"
  | .button => ascii "button"
  | .select => ascii "select"
  | .number => ascii "number"

/-- `action_state_name` -/
def actionStateName : ActionState → List UInt8
  | .none => ascii "none"
  | .running => ascii "running"
  | .accepted => ascii "accepted"
  | .refused => ascii "refused"

/-- `action_code_name` -/
def actionCodeName : ActionCode → List UInt8
  | .none => ascii "none"
  | .queued => ascii "queued"
  | .applied => ascii "applied"
  | .invalidBody => ascii "invalid_body"
  | .wrongType => ascii "wrong_type"
  | .outOfRange => ascii "out_of_range"
  | .unknownOption => ascii "unknown_option"
  | .disabled => ascii "disabled"
  | .bodyTooLarge => ascii "body_too_large"

/-! ## `ChunkWriter` -/

def hexLower (d : UInt8) : UInt8 := (ascii "0123456789abcdef").getD d.toNat 0

def jsonChar (c : UInt8) : List UInt8 :=
  if c = 0x22 ∨ c = 0x5C then [0x5C, c]
  else if c = 0x08 then ascii "\\b"
  else if c = 0x0C then ascii "\\f"
  else if c = 0x0A then ascii "\\n"
  else if c = 0x0D then ascii "\\r"
  else if c = 0x09 then ascii "\\t"
  else if c < 0x20 then ascii "\\u00" ++ [hexLower (c >>> 4), hexLower (c &&& 0x0F)]
  else [c]

/-- `json_string` -/
def jsonString (value : List UInt8) : List UInt8 :=
  ascii "\"" ++ (value.flatMap jsonChar ++ ascii "\"")

/-- `json_string` of a pointer that may be null. -/
def jsonStringOf (value : Option (List UInt8)) : List UInt8 := jsonString (value.getD [])

/-- `number_u32` -/
def numberU32 (value : UInt32) : List UInt8 := decDigits 10 value.toNat

/-- `static_cast<double>` of the magnitude of a number. -/
def toDouble (value : Binary32) : Magnitude64 :=
  if value.isFinite then .finite (value.units * 2 ^ 925) else .infinite

/-- `0.5` -/
def oneHalf : Magnitude64 := .finite (2 ^ 1073)

/-- The integer part, `UINT64_MAX` at most. -/
def clippedInt : Magnitude64 → Nat
  | .finite scaled => min (scaled / 2 ^ 1074) (2 ^ 64 - 1)
  | .infinite => 2 ^ 64 - 1

/-- `|value| * 10^decimals + 0.5` as an integer of 64 bits. -/
def scaledInt (castNan : UInt64) (value : Binary32) (decimals : Nat) : Nat :=
  if value.isNan then castNan.toNat
  else clippedInt (((toDouble value).mul (.ofNat (10 ^ decimals))).add oneHalf)

/-- `value < 0` -/
def isBelowZero (value : Binary32) : Bool := !value.isNan && decide (value.toInt < 0)

def numberFloat (castNan : UInt64) (value : Binary32) (decimals : Nat) : List UInt8 :=
  let decimals := min decimals 6
  let scaled := scaledInt castNan value decimals
  (if isBelowZero value then ascii "-" else []) ++ (decDigits 20 (scaled / 10 ^ decimals) ++
    if decimals = 0 then [] else ascii "." ++ padDigits decimals (scaled % 10 ^ decimals))

def writeBool (b : Bool) : List UInt8 := if b then ascii "true" else ascii "false"

/-- A string, or the JSON null. -/
def stringOrNull (value : Option (List UInt8)) : List UInt8 :=
  match value with
  | some value => jsonString value
  | none => ascii "null"

def u32OrNull (value : Option UInt32) : List UInt8 :=
  match value with
  | some value => numberU32 value
  | none => ascii "null"

/-- What the loops over an array write: a comma before every element but the first. -/
def withCommas : List (List UInt8) → List UInt8
  | [] => []
  | [x] => x
  | x :: y :: xs => x ++ ascii "," ++ withCommas (y :: xs)

def writeArray (xs : List (List UInt8)) : List UInt8 := ascii "[" ++ withCommas xs ++ ascii "]"

/-- A `why`; the evidence is what stands between its braces. -/
def writeWhy (code : List UInt8) (detail : Option (List UInt8)) (evidence : List UInt8 := []) :
    List UInt8 :=
  ascii "\x7b\"code\":" ++ jsonString code ++
  ascii ",\"detail\":" ++ stringOrNull detail ++
  ascii ",\"since_ms\":null,\"evidence\":\x7b" ++ evidence ++
  ascii "\x7d\x7d"

/-! ## Values -/

/-- The pieces between the commas of a text; nothing behind a last comma. -/
def csvTokens : Nat → List UInt8 → List (List UInt8)
  | 0, _ => []
  | fuel + 1, csv =>
    if csv = [] then []
    else csv.takeWhile (· ≠ 0x2C) :: csvTokens fuel ((csv.dropWhile (· ≠ 0x2C)).drop 1)

/-- The strings of `write_csv_as_json_array`: a token is copied into 40 bytes. -/
def csvAsJsonArray (csv : Option (List UInt8)) : List (List UInt8) :=
  match csv with
  | none => []
  | some csv => (csvTokens csv.length csv).map fun token => token.take 39

section

variable (castNan : UInt64)

/-- `value`, and `raw` again of a value that is not a boolean. -/
def writeReading (v : ValueSample) : List UInt8 :=
  if v.isText then jsonStringOf v.text else numberFloat castNan v.number v.decimals

/-- `write_value` -/
def writeValue (v : ValueSample) (budget : Option UInt32) : List UInt8 :=
  let verdict := classifyValue v budget
  let isSna : Bool := verdict.classification = .sna
  ascii "\x7b\"key\":" ++ jsonString v.key ++
  ascii ",\"label\":" ++ jsonString v.label ++
  ascii ",\"unit\":" ++ stringOrNull v.unit ++
  ascii ",\"value\":" ++
    (if isSna then ascii "null"
    else if v.isBool then writeBool v.reading
    else writeReading castNan v) ++
  ascii ",\"raw\":" ++ (if isSna || v.isBool then ascii "null" else writeReading castNan v) ++
  ascii ",\"raw_hex\":null,\"classification\":" ++
    jsonString (classificationName verdict.classification) ++
  ascii ",\"state\":" ++ jsonString (stateName verdict.state) ++
  ascii ",\"why\":" ++
    (if verdict.state = .ok then ascii "null"
    else writeWhy (verdict.whyCode.getD []) verdict.detail) ++
  ascii ",\"level\":" ++ stringOrNull (levelName (limitHit v).level) ++
  ascii "\x7d"

/-- Within a thousandth of an integer. -/
def isWhole (scaled : Nat) : Bool :=
  let frac := scaled % 2 ^ 1074
  frac * 1000 < 2 ^ 1074 ∨ 999 * 2 ^ 1074 < frac * 1000

/-- The loop of `shortest_decimals`; `v` is the bound without its sign. -/
def shortestDecimalsFrom : Nat → Nat → Magnitude64 → Magnitude64 → Nat
  | 0, _, _, _ => 6
  | fuel + 1, d, v, scale =>
    match v.mul scale with
    | .infinite => 6
    | .finite scaled =>
      if isWhole scaled then d else shortestDecimalsFrom fuel (d + 1) v (scale.mul (.ofNat 10))

/-- The fewest decimals that write a bound. -/
def shortestDecimals (x : Binary32) : Nat :=
  if !x.isFinite || 10 ^ 12 * 2 ^ 149 ≤ x.units then 0
  else shortestDecimalsFrom 6 0 (.finite (x.units * 2 ^ 925)) (.ofNat 1)

def writeBound (bound : HitBound) : List UInt8 :=
  match bound with
  | .when b => ascii "\x7b\"when\":" ++ writeBool b ++ ascii "\x7d"
  | .below b =>
    ascii "\x7b\"below\":" ++ numberFloat castNan b (shortestDecimals b) ++ ascii "\x7d"
  | .above b =>
    ascii "\x7b\"above\":" ++ numberFloat castNan b (shortestDecimals b) ++ ascii "\x7d"

/-- The evidence of `limit`. -/
def writeLimitEvidence (limit : ValueSample × LimitHit) : List UInt8 :=
  ascii "\"value\":" ++ jsonString limit.1.key ++
  ascii ",\"level\":" ++ jsonStringOf (levelName limit.2.level) ++
  ascii ",\"reading\":" ++
    (if limit.1.isBool then writeBool limit.1.reading
    else numberFloat castNan limit.1.number limit.1.decimals) ++
  ascii ",\"bound\":" ++ writeBound castNan limit.2.bound

variable (s : Snapshot) (r : Resolved)

/-- The children that `child_degraded` names. -/
def degradedChildren (index : Nat) : List Nat :=
  (s.children index).filter fun j => r.states j ≠ .ok && !s.childIsQuiet r.states j

def nodeId (index : Nat) : List UInt8 := (s.nodes[index]?.map NodeDef.id).getD []

def writeChildrenEvidence (index : Nat) : List UInt8 :=
  ascii "\"children\":\x7b" ++
  withCommas ((degradedChildren s r index).map fun j =>
    jsonString (nodeId s j) ++ ascii ":" ++ jsonString (stateName (r.states j))) ++
  ascii "\x7d"

/-- `write_node_why`. Of the three kinds of evidence a reason has one at most. -/
def writeNodeWhy (node : NodeDef) (index : Nat) : List UInt8 :=
  if r.states index = .ok then ascii "null"
  else
    let reason := describeNodeReason node (r.states index)
    writeWhy (reason.code.getD []) none
      (reason.evidence.getD [] ++
      (match reason.limit with
        | some limit => writeLimitEvidence castNan limit
        | none => []) ++
      (if reason.evidenceChildren then
        (if reason.evidence.isSome || reason.limit.isSome then ascii "," else []) ++
          writeChildrenEvidence s r index
      else []))

end

/-! ## Provenance -/

/-- The walk from `walk` upward, at most `fuel` steps of it: the nodes it visits. -/
def walkUp (s : Snapshot) : Nat → Option Nat → List Nat
  | 0, _ => []
  | _, none => []
  | fuel + 1, some walk =>
    match s.nodes[walk]? with
    | none => []
    | some node => walk :: walkUp s fuel node.parent

/-- The strict ancestors of a node. -/
def ancestors (s : Snapshot) (index : Nat) : List Nat :=
  walkUp s s.nodes.length (s.nodes[index]?.bind NodeDef.parent)

/-- The first node with that id. -/
def indexOf (s : Snapshot) (id : List UInt8) : Option Nat :=
  s.nodes.findIdx? fun node => node.id = id

/-- `is_skeleton_node`: a strict ancestor of a node that is owned. -/
def isSkeletonNode (s : Snapshot) (index : Nat) : Bool :=
  s.identity.owns.any fun ownedId =>
    (indexOf s ownedId).any fun ownedIndex => (ancestors s ownedIndex).contains index

/-- `write_provenance` -/
def writeProvenance (s : Snapshot) (r : Resolved) (node : NodeDef) (index : Nat) : List UInt8 :=
  if isSkeletonNode s index then ascii "null"
  else
    ascii "\x7b\"origin\":\"local\",\"board\":" ++ stringOrNull s.identity.board ++
    ascii ",\"node_id\":" ++ stringOrNull s.identity.nodeId ++
    ascii ",\"age_ms\":" ++ u32OrNull (r.ages index) ++
    ascii ",\"budget_ms\":" ++ u32OrNull node.budget ++
    ascii ",\"trust\":" ++
      jsonString (if trustConfirmed node then ascii "confirmed" else ascii "assumed") ++
    ascii ",\"seq\":" ++ numberU32 s.seq ++
    ascii "\x7d"

/-! ## Series -/

/-- `SERIES_MAX_ELEMENTS` -/
def seriesMaxElements : Nat := 64

/-- What is made of the answer of the callback. -/
def resolvedElement (raw : Option SeriesElement) : SeriesElement :=
  match raw with
  | none => {}
  | some raw =>
    if raw.cls = 0x73 then { cls := 0x73 }
    else if raw.cls = 0x2D then { cls := 0x2D }
    else if (raw.cls = 0x72 ∨ raw.cls = 0x69) ∧ raw.hasValue then
      { cls := raw.cls, hasValue := true, value := raw.value }
    else {}

def resolvedElements (d : SeriesDef) : List SeriesElement :=
  (List.range (min d.count seriesMaxElements)).map fun i => resolvedElement (d.element i)

/-- `write_series` -/
def writeSeries (castNan : UInt64) (d : SeriesDef) : List UInt8 :=
  let resolved := resolvedElements d
  ascii "\x7b\"key\":" ++ jsonString d.key ++
  ascii ",\"label\":" ++ jsonString d.label ++
  ascii ",\"unit\":" ++ stringOrNull d.unit ++
  ascii ",\"index_base\":" ++ numberU32 d.indexBase ++
  ascii ",\"index\":null" ++
  ascii ",\"index_frame\":" ++ stringOrNull d.indexFrame ++
  ascii ",\"values\":" ++
    writeArray (resolved.map fun e =>
      if e.hasValue then numberFloat castNan e.value d.decimals else ascii "null") ++
  ascii ",\"class\":\"" ++ resolved.map (·.cls) ++ ascii "\"" ++
  ascii ",\"pack_index_base\":" ++ u32OrNull d.packIndexBase ++
  ascii "\x7d"

/-- The series that a node emits, if it declares one and is not absent. -/
def emittedSeries (s : Snapshot) (r : Resolved) (index : Nat) : Option SeriesDef :=
  if r.states index = .absent then none else s.nodes[index]?.bind NodeDef.series

def subtreeHasSeries (s : Snapshot) (r : Resolved) (rootIndex : Nat) : Bool :=
  rootIndex < s.nodes.length &&
    ((emittedSeries s r rootIndex).isSome ||
      (List.range s.nodes.length).any fun i =>
        rootIndex < i && (emittedSeries s r i).isSome && (ancestors s i).contains rootIndex)

/-! ## Actions -/

section

variable (castNan : UInt64)

/-- `write_action_value` -/
def writeActionValue (v : ActionValue) (decimals : Nat) : List UInt8 :=
  match v with
  | .bool b => writeBool b
  | .number x => numberFloat castNan x decimals
  | .text t => jsonString t
  | .none => ascii "null"

/-- `write_action_result` -/
def writeActionResult (r : ActionResult) (decimals : Nat) : List UInt8 :=
  ascii "\x7b\"state\":" ++ jsonString (actionStateName r.state) ++
  ascii ",\"why\":" ++ writeWhy (actionCodeName r.code) none ++
  ascii ",\"age_ms\":" ++ numberU32 r.ageMs ++
  ascii ",\"value\":" ++ writeActionValue castNan r.value decimals ++
  ascii "\x7d"

def writeOptionalNumber (known : Bool) (value : Binary32) (decimals : Nat) : List UInt8 :=
  if known && value.isFinite then numberFloat castNan value decimals else ascii "null"

def writeActionBody : Control → List UInt8
  | .switch => ascii "\x7b\"value\":\"bool\"\x7d"
  | .select => ascii "\x7b\"value\":\"string\"\x7d"
  | .number => ascii "\x7b\"value\":\"number\"\x7d"
  | .button => ascii "null"

/-- The member `value` of an action. -/
def writeEntityState (d : ActionDef) (a : ActionSample) : List UInt8 :=
  if !a.hasValue then ascii "null"
  else
    match d.control with
    | .button => ascii "null"
    | .switch => writeBool a.boolean
    | .select => jsonString a.text
    | .number =>
      if a.number.isFinite then numberFloat castNan a.number d.decimals else ascii "null"

/-- `write_action` -/
def writeAction (nodeId : List UInt8) (d : ActionDef) (a : ActionSample) : List UInt8 :=
  let enabled := a.enabled || decide (d.control = .switch) || decide (d.control = .button)
  let isNumber : Bool := d.control = .number
  ascii "\x7b\"key\":" ++ jsonString d.key ++
  ascii ",\"label\":" ++ jsonString d.label ++
  ascii ",\"method\":\"POST\",\"path\":\"/api/v1/actions/" ++ nodeId ++ ascii "/" ++ d.key ++
  ascii "\",\"enabled\":" ++ writeBool enabled ++
  ascii ",\"why\":" ++
    (if enabled then ascii "null" else writeWhy (ascii "entity_unavailable") none) ++
  ascii ",\"body\":" ++ writeActionBody d.control ++
  ascii ",\"control\":" ++ jsonString (controlName d.control) ++
  ascii ",\"value\":" ++ writeEntityState castNan d a ++
  ascii ",\"options\":" ++
    (if d.control = .select then writeArray (d.options.map jsonString) else ascii "null") ++
  ascii ",\"min\":" ++ writeOptionalNumber castNan (isNumber && a.hasMin) a.min d.decimals ++
  ascii ",\"max\":" ++ writeOptionalNumber castNan (isNumber && a.hasMax) a.max d.decimals ++
  ascii ",\"step\":" ++ writeOptionalNumber castNan (isNumber && a.hasStep) a.step d.decimals ++
  ascii ",\"unit\":" ++ (if isNumber then stringOrNull a.unit else ascii "null") ++
  ascii ",\"result\":" ++
    (if a.result.state = .none then ascii "null"
    else writeActionResult castNan a.result d.decimals) ++
  ascii "\x7d"

end

/-! ## Nodes -/

section

variable (castNan : UInt64) (s : Snapshot) (r : Resolved)

def writeRole (node : NodeDef) : List UInt8 :=
  match node.role with
  | none => []
  | some role =>
    ascii ",\"role\":" ++ jsonString role ++
    ascii ",\"roles_available\":" ++
      writeArray ((csvAsJsonArray node.rolesAvailable).map jsonString)

/-- `write_node`; a child comes behind its parent in the table, so the number of nodes is fuel
enough. -/
def writeNode : Nat → Nat → List UInt8
  | 0, _ => []
  | fuel + 1, index =>
    match s.nodes[index]? with
    | none => []
    | some node =>
      ascii "\x7b\"id\":" ++ jsonString node.id ++
      ascii ",\"kind\":" ++ jsonString node.kind ++
      ascii ",\"label\":" ++ jsonString node.label ++
      ascii ",\"state\":" ++ jsonString (stateName (r.states index)) ++
      ascii ",\"why\":" ++ writeNodeWhy castNan s r node index ++
      ascii ",\"provenance\":" ++ writeProvenance s r node index ++
      ascii ",\"values\":" ++
        writeArray (node.values.map fun v => writeValue castNan v node.budget) ++
      ascii ",\"series\":" ++
        (match emittedSeries s r index with
          | some d => writeSeries castNan d
          | none => ascii "null") ++
      ascii ",\"children\":" ++ writeArray ((s.children index).map (writeNode fuel)) ++
      ascii ",\"actions\":" ++
        writeArray (node.actions.map fun a => writeAction castNan node.id a.1 a.2) ++
      writeRole node ++
      ascii "\x7d"

end

/-! ## The envelope -/

def Identity.complete (id : Identity) : Bool := id.board.isSome && id.nodeId.isSome && id.mac.isSome

/-- A part of the identity, which is only named where the identity is complete. -/
def Identity.named (id : Identity) (part : Option (List UInt8)) : Option (List UInt8) :=
  if id.complete then part else none

/-- `write_served_by` -/
def writeServedBy (s : Snapshot) : List UInt8 :=
  let id := s.identity
  ascii "\x7b\"board\":" ++ stringOrNull (id.named id.board) ++
  ascii ",\"node_id\":" ++ stringOrNull (id.named id.nodeId) ++
  ascii ",\"mac\":" ++ stringOrNull (id.named id.mac) ++
  ascii ",\"state\":" ++ jsonString (if id.complete then ascii "ok" else ascii "unknown") ++
  ascii ",\"why\":" ++
    (if id.complete then ascii "null" else writeWhy (ascii "no_identity") none) ++
  ascii ",\"uptime_ms\":" ++ numberU32 s.uptimeMs ++
  ascii ",\"build\":" ++ jsonString (id.build.getD (ascii "unknown")) ++
  ascii ",\"owns\":" ++ writeArray ((if id.complete then id.owns else []).map jsonString) ++
  ascii ",\"components\":" ++ writeArray (id.components.map jsonString) ++
  ascii "\x7d"

/-- The nearest strict ancestor that declares a role. -/
def ancestorRole (s : Snapshot) (rootIndex : Nat) : Option NodeDef :=
  ((ancestors s rootIndex).filterMap fun i => s.nodes[i]?).find? fun node => node.role.isSome

def writeAncestorRole (s : Snapshot) (rootIndex : Nat) : List UInt8 :=
  match ancestorRole s rootIndex with
  | none => ascii "null"
  | some ancestor =>
    ascii "\x7b\"node\":" ++ jsonString ancestor.id ++
    ascii ",\"label\":" ++ jsonString ancestor.label ++
    ascii ",\"role\":" ++ jsonStringOf ancestor.role ++
    ascii "\x7d"

/-- A link of the envelope. -/
def writeLink (link : LinkDef) : List UInt8 :=
  ascii "\x7b\"rel\":" ++ jsonString link.rel ++
  ascii ",\"label\":" ++ jsonString link.label ++
  ascii ",\"href\":" ++ jsonString link.href ++
  ascii "\x7d"

/-- The node that a `?path=` names, if one does. -/
def narrowedTo (s : Snapshot) (path : Option (List UInt8)) : Option Nat := path.bind (indexOf s)

/-- `write_envelope` -/
def writeEnvelope (castNan : UInt64) (s : Snapshot) (r : Resolved) (path : Option (List UInt8)) :
    List UInt8 :=
  let rootIndex := (narrowedTo s path).getD 0
  ascii "\x7b\"schema_version\":" ++ numberU32 2 ++
  ascii ",\"seq\":" ++ numberU32 s.seq ++
  ascii ",\"series_legend\":" ++
    (if subtreeHasSeries s r rootIndex then
      ascii "\x7b\"r\":\"real\",\"s\":\"SNA\",\"i\":\"implausible\",\"-\":\"not measured\"\x7d"
    else ascii "null") ++
  ascii ",\"served_by\":" ++ writeServedBy s ++
  ascii ",\"peers\":[]" ++
  ascii ",\"links\":" ++ writeArray (s.links.map writeLink) ++
  (match narrowedTo s path with
    | some index =>
      ascii ",\"path\":" ++ jsonString (nodeId s index) ++
      ascii ",\"ancestor_role\":" ++ writeAncestorRole s index
    | none => []) ++
  ascii ",\"tree\":" ++ writeNode castNan s r s.nodes.length rootIndex ++
  ascii "\x7d"

end EspCars.Portal
