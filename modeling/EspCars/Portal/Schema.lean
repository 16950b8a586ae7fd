import EspCars.Lib.Json

/-!
# The validator of the state envelope

`script/portal_schema.py`. A violation keeps its path and its code; the detail, a text for the
reader, is left out. A dictionary is a JSON object (`get?` is the last member of a name) and a
string is its UTF-8 bytes.
-/

namespace EspCars.Portal.Schema

open EspCars.Lib

/-- A violation and where it is. -/
structure Violation where
  path : String
  code : String
  deriving DecidableEq

def check (ok : Bool) (path code : String) : List Violation := if ok then [] else [⟨path, code⟩]

@[simp] theorem check_eq_nil {ok : Bool} {path code : String} :
    check ok path code = [] ↔ ok = true := by
  cases ok <;> simp [check]

/-! ## Types -/

def isStr : Json → Bool
  | .str _ => true
  | _ => false

def isNull : Json → Bool
  | .null => true
  | _ => false

def isDict : Json → Bool
  | .obj _ => true
  | _ => false

/-- The value of an `int`: a number without a fraction and without an exponent. -/
def intValue? : Json → Option Int
  | .num n =>
    if n.decimals = 0 ∧ n.exponent = none then
      some (if n.negative then -(n.mantissa : Int) else n.mantissa)
    else none
  | _ => none

def isStrOrNull (j : Json) : Bool := isNull j || isStr j

def isNonnegInt (j : Json) : Bool := (intValue? j).any (0 ≤ ·)

def isNonnegIntOrNull (j : Json) : Bool := isNull j || isNonnegInt j

/-- The strings of a list of strings. -/
def strings? : Json → Option (List (List UInt8))
  | .arr xs => xs.mapM fun
    | .str s => some s
    | _ => none
  | _ => none

def isListOfStr (j : Json) : Bool := (strings? j).isSome

/-- One of these words. -/
def isWord (words : List String) : Json → Bool
  | .str s => words.any fun word => ascii word = s
  | _ => false

/-- `get` of a dictionary, with `None` for a key that is not there. -/
def get (j : Json) (key : String) : Json := (j.get? key).getD .null

def has (j : Json) (key : String) : Bool := (j.get? key).isSome

/-- A rule on a member, where it is there. -/
def onKey (j : Json) (key : String) (rule : Json → List Violation) : List Violation :=
  match j.get? key with
  | some x => rule x
  | none => []

def isIdentStr : Json → Bool
  | .str s => isIdent s
  | _ => false

def missingKeys (j : Json) (keys : List String) (path : String) : List Violation :=
  keys.flatMap fun key => check (has j key) path "missing_key"

/-- `_check_key_order` -/
def unknownKeys (j : Json) (expected : List String) (path : String) : List Violation :=
  match j with
  | .obj fields =>
    fields.flatMap fun field =>
      check (expected.any fun key => ascii key = field.1) path "unknown_key"
  | _ => []

/-! ## Words -/

def states : List String :=
  ["ok", "stale", "degraded", "refused", "silent", "absent", "down", "unreachable", "unknown",
    "incompatible"]

def origins : List String := ["local", "peer", "cache"]

def trusts : List String := ["confirmed", "assumed"]

def servedByKeys : List String :=
  ["board", "node_id", "mac", "state", "why", "uptime_ms", "build", "owns", "components"]

def whyKeys : List String := ["code", "detail", "since_ms", "evidence"]

def provenanceKeys : List String :=
  ["origin", "board", "node_id", "age_ms", "budget_ms", "trust", "seq"]

def evidenceDiscriminators : List (String × List String) :=
  [("never_announced", ["rx_frames", "announced"]), ("no_transfer", ["rx_frames", "announced"]),
    ("crc_fail", ["crc_fail_count"]),
    ("negative_response", ["nrc_hex", "nrc_code_hex", "nrc_name"])]

/-! ## `why` -/

/-- `_validate_why_block` -/
def validateWhyBlock (why : Json) (path : String) : List Violation :=
  missingKeys why whyKeys path ++
  unknownKeys why whyKeys path ++
  onKey why "code" (fun code =>
    check (isIdentStr code) (path ++ ".code") "why_code_not_machine_readable") ++
  onKey why "detail" (fun detail => check (isStrOrNull detail) (path ++ ".detail") "wrong_type") ++
  onKey why "since_ms" (fun since =>
    check (isNonnegIntOrNull since) (path ++ ".since_ms") "wrong_type") ++
  onKey why "evidence" (fun evidence =>
    check (isDict evidence) (path ++ ".evidence") "wrong_type") ++
  onKey why "evidence" (fun evidence =>
    evidenceDiscriminators.flatMap fun entry =>
      if isWord [entry.1] (get why "code") && isDict evidence then
        check (entry.2.any (has evidence)) (path ++ ".evidence") "evidence_without_discriminator"
      else [])

def checkWhy (stateIsOk : Bool) (why : Json) (path : String) : List Violation :=
  check (isNull why == stateIsOk) path "why_state_mismatch" ++
  (if isDict why then validateWhyBlock why path
  else check (stateIsOk || isNull why) path "wrong_type")

/-! ## Provenance -/

/-- `_validate_provenance` -/
def validateProvenance (provenance state : Json) (path : String) : List Violation :=
  let isDown := isWord ["down"] state
  let isOk := isWord ["ok"] state
  let isStale := isWord ["stale"] state
  if isNull provenance then check (!isDown) path "down_not_confirmed"
  else if !isDict provenance then [⟨path, "wrong_type"⟩]
  else
    let age := get provenance "age_ms"
    let budget := get provenance "budget_ms"
    missingKeys provenance provenanceKeys path ++
    unknownKeys provenance provenanceKeys path ++
    onKey provenance "origin" (fun x =>
      check (isWord origins x) (path ++ ".origin") "wrong_type") ++
    onKey provenance "trust" (fun x => check (isWord trusts x) (path ++ ".trust") "wrong_type") ++
    (["board", "node_id"].flatMap fun key =>
      onKey provenance key fun x => check (isStrOrNull x) (path ++ "." ++ key) "wrong_type") ++
    (["age_ms", "budget_ms", "seq"].flatMap fun key =>
      onKey provenance key fun x =>
        check (isNonnegIntOrNull x) (path ++ "." ++ key) "wrong_type") ++
    check (!isDown || isWord ["confirmed"] (get provenance "trust")) path "down_not_confirmed" ++
    (match intValue? age, intValue? budget with
      | some age, some budget =>
        check (!isOk || age ≤ budget) path "ok_past_budget" ++
        check (!isStale || budget < age) path "stale_within_budget"
      | _, _ => []) ++
    check (!isStale || !isNull age) path "stale_without_age"

/-- The text begins with this one and a point. -/
def isBelow (root id : List UInt8) : Bool := (root ++ ascii ".").isPrefixOf id

def isInside (roots : List (List UInt8)) (id : Json) : Bool :=
  match id with
  | .str id => roots.any fun root => root = id || isBelow root id
  | _ => false

/-- `_validate_provenance_placement` for one node; the results of its children stand before its
own. -/
def placeNode (roots : List (List UInt8)) (servedByBoard : Json) (node : Json)
    (children : List (String → List Violation × Bool)) : String → List Violation × Bool :=
  fun path =>
    let results := children.mapIdx fun i child => child (path ++ ".children[" ++ toString i ++ "]")
    let inside := isInside roots (get node "id")
    let anyDescendantInside := results.any Prod.snd
    let provenance := get node "provenance"
    if !isDict node then ([], false)
    else
      (results.flatMap Prod.fst ++
        (if inside then check (!isNull provenance) path "provenance_null_inside_mount"
        else if anyDescendantInside then
          check (isNull provenance) path "provenance_on_skeleton_node"
        else check (!isNull provenance) path "provenance_null_unmounted") ++
        (if isWord ["local"] (get provenance "origin") then
          check (!isNull servedByBoard || isNull (get provenance "board")) (path ++ ".provenance")
            "provenance_names_board_without_identity"
        else []),
      inside || anyDescendantInside)

def validateProvenancePlacement (roots : List (List UInt8)) (servedByBoard tree : Json)
    (path : String) : List Violation × Bool :=
  Json.foldAlong "children" (placeNode roots servedByBoard) tree path

/-! ## `served_by` -/

/-- `_validate_served_by` -/
def validateServedBy (servedBy : Json) (path : String) : List Violation :=
  if !isDict servedBy then [⟨path, "wrong_type"⟩]
  else
    let state := get servedBy "state"
    let identity := ["board", "node_id", "mac"].map (get servedBy)
    let owns := (strings? (get servedBy "owns"))
    missingKeys servedBy servedByKeys path ++
    unknownKeys servedBy servedByKeys path ++
    (["board", "node_id", "mac", "build"].flatMap fun key =>
      onKey servedBy key fun x => check (isStrOrNull x) (path ++ "." ++ key) "wrong_type") ++
    onKey servedBy "state" (fun x => check (isWord states x) (path ++ ".state") "unknown_state") ++
    onKey servedBy "why" (fun why => checkWhy (isWord ["ok"] state) why (path ++ ".why")) ++
    onKey servedBy "uptime_ms" (fun x =>
      check (isNonnegIntOrNull x) (path ++ ".uptime_ms") "wrong_type") ++
    onKey servedBy "owns" (fun x => check (isListOfStr x) (path ++ ".owns") "wrong_type") ++
    onKey servedBy "components" (fun x =>
      check (isListOfStr x) (path ++ ".components") "wrong_type") ++
    check (!isWord ["unknown"] state || (identity.all isNull && owns = some [] &&
      isWord ["no_identity"] (get (get servedBy "why") "code"))) path "no_identity_inconsistent" ++
    check (!isWord ["ok"] state || ((identity.all fun x => !isNull x) &&
      owns.any fun owns => !owns.isEmpty)) path "identity_incomplete"

/-- The list that `_validate_served_by` returns. -/
def servedByOwns (servedBy : Json) : List (List UInt8) := (strings? (get servedBy "owns")).getD []

end EspCars.Portal.Schema
