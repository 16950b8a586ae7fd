import EspCars.Portal.Actions

/-!
# The state tree of a portal

`ValueSample`, `NodeDef` and `Snapshot` of `components/portal/portal_core.h` and what `resolve` makes
of them: the verdict on a value, the state of a node and its reason. The tables that the generated
code cuts into slices are kept with the node they belong to, a limit with its value; what a callback
answers (the predicate of an absent node, the elements of a series) is a part of the sample. A
pointer that may be null is an `Option`.
-/

namespace EspCars.Portal

open EspCars.Lib

/-- `State` -/
inductive State
  | ok | stale | degraded | refused | silent | absent | unreachable | unknown | incompatible
  deriving DecidableEq, Repr

/-- `Classification` -/
inductive Classification
  | real | sna | implausibleValue
  deriving DecidableEq, Repr

/-- `LimitBound`: a bound that is not there is `none`. -/
structure LimitBound where
  below : Option Binary32 := none
  above : Option Binary32 := none
  deriving DecidableEq

/-- `ValueLimit` -/
structure ValueLimit where
  warn : LimitBound := {}
  bad : LimitBound := {}
  warnWhen : Option Bool := none
  badWhen : Option Bool := none
  deriving DecidableEq

/-- `Level` -/
inductive Level
  | none | ok | warn | bad
  deriving DecidableEq, Repr

/-- `static_cast<uint8_t>(level)` -/
def Level.rank : Level → Nat
  | .none => 0
  | .ok => 1
  | .warn => 2
  | .bad => 3

/-- `ValueSample` -/
structure ValueSample where
  key : List UInt8
  label : List UInt8
  unit : Option (List UInt8) := none
  text : Option (List UInt8) := none
  number : Binary32 := ⟨0⟩
  ageMs : UInt32 := 0
  decimals : Nat := 0
  isText : Bool := false
  isBool : Bool := false
  hasValue : Bool := false
  ageKnown : Bool := false
  textOverflow : Bool := false
  limit : Option ValueLimit := none
  deriving DecidableEq

/-- `SeriesElement` -/
structure SeriesElement where
  cls : UInt8 := 0x2D
  hasValue : Bool := false
  value : Binary32 := ⟨0⟩
  deriving DecidableEq

/-- A callback that is null, or that returns false, answers `none`. -/
structure SeriesDef where
  key : List UInt8
  label : List UInt8
  unit : Option (List UInt8) := none
  indexFrame : Option (List UInt8) := none
  indexBase : UInt32 := 0
  packIndexBase : Option UInt32 := none
  count : Nat := 0
  decimals : Nat := 0
  element : Nat → Option SeriesElement := fun _ => none

/-- `budget` is none where `budget_known` is false, `absentFn` where there is no predicate. -/
structure NodeDef where
  id : List UInt8
  kind : List UInt8
  label : List UInt8
  parent : Option Nat := none
  values : List ValueSample := []
  budget : Option UInt32 := none
  onDemand : Bool := false
  absentWhy : Option (List UInt8) := none
  role : Option (List UInt8) := none
  rolesAvailable : Option (List UInt8) := none
  unknownValueKey : Option (List UInt8) := none
  unknownEquals : Option (List UInt8) := none
  unknownWhy : Option (List UInt8) := none
  trustValueKey : Option (List UInt8) := none
  series : Option SeriesDef := none
  absentFn : Option Bool := none
  absentEvidence : Option (List UInt8) := none
  actions : List (ActionDef × ActionSample) := []

/-- `Identity` -/
structure Identity where
  board : Option (List UInt8) := none
  nodeId : Option (List UInt8) := none
  mac : Option (List UInt8) := none
  build : Option (List UInt8) := none
  owns : List (List UInt8) := []
  components : List (List UInt8) := []
  deriving DecidableEq

/-- `LinkDef` -/
structure LinkDef where
  rel : List UInt8
  label : List UInt8
  href : List UInt8
  deriving DecidableEq

/-- `Snapshot` -/
structure Snapshot where
  seq : UInt32 := 0
  uptimeMs : UInt32 := 0
  identity : Identity := {}
  nodes : List NodeDef := []
  links : List LinkDef := []

/-- `Resolved`: the state and, where it is known, the age of every node. -/
structure Resolved where
  states : Nat → State
  ages : Nat → Option UInt32

/-! ## Values -/

/-- `ValueVerdict` -/
structure ValueVerdict where
  classification : Classification
  state : State
  whyCode : Option (List UInt8) := none
  detail : Option (List UInt8) := none
  deriving DecidableEq

/-- `classify_value` -/
def classifyValue (v : ValueSample) (budget : Option UInt32) : ValueVerdict :=
  if !v.hasValue || !v.ageKnown then
    { classification := .sna, state := .absent, whyCode := some (ascii "value_not_available") }
  else if !v.isText && !v.isBool && !v.number.isFinite then
    { classification := .sna, state := .absent, whyCode := some (ascii "value_not_available") }
  else if v.isText && v.textOverflow then
    { classification := .sna, state := .degraded, whyCode := some (ascii "value_not_available"),
      detail := some (ascii "text longer than the configured limit") }
  else if !v.isBool && budget.any (· < v.ageMs) then
    { classification := .real, state := .stale, whyCode := some (ascii "stale_data") }
  else { classification := .real, state := .ok }

/-- The bound that a reading hit, or the reading itself of a boolean. -/
inductive HitBound
  | below (b : Binary32)
  | above (b : Binary32)
  | when (b : Bool)
  deriving DecidableEq

/-- The limit that a value is outside of. -/
structure LimitHit where
  level : Level := .none
  bound : HitBound := .below ⟨0⟩
  deriving DecidableEq

def boundHit (b : LimitBound) (x : Binary32) (level : Level) : Option LimitHit :=
  match b.below with
  | some below =>
    if x.lt below then some { level := level, bound := .below below }
    else aboveHit
  | none => aboveHit
where
  aboveHit : Option LimitHit :=
    match b.above with
    | some above =>
      if above.lt x then some { level := level, bound := .above above } else none
    | none => none

/-- `v.number != 0.0f` -/
def ValueSample.reading (v : ValueSample) : Bool := v.number.isNan || decide (v.number.toInt ≠ 0)

/-- `limit_hit` -/
def limitHit (v : ValueSample) : LimitHit :=
  match v.limit with
  | none => {}
  | some limit =>
    if v.isText || !v.hasValue || !v.ageKnown then {}
    else if !v.isBool && !v.number.isFinite then {}
    else if v.isBool then
      if limit.badWhen = some v.reading then { level := .bad, bound := .when v.reading }
      else if limit.warnWhen = some v.reading then { level := .warn, bound := .when v.reading }
      else { level := .ok }
    else
      match boundHit limit.bad v.number .bad with
      | some hit => hit
      | none => (boundHit limit.warn v.number .warn).getD { level := .ok }

/-- One turn of the loop of `worst_limit`. -/
def worseLimit (worst : Option (ValueSample × LimitHit)) (v : ValueSample) :
    Option (ValueSample × LimitHit) :=
  let hit := limitHit v
  if (hit.level = .warn ∨ hit.level = .bad) ∧
      ((worst.map fun w => w.2.level.rank).getD 0) < hit.level.rank then
    some (v, hit)
  else worst

/-- The worst of the limited values and the limit it hit. -/
def worstLimit (node : NodeDef) : Option (ValueSample × LimitHit) :=
  node.values.foldl worseLimit none

def notRequested (node : NodeDef) : Bool :=
  node.onDemand && !node.values.isEmpty && node.values.all fun v => !(v.hasValue && v.ageKnown)

/-- `find_value` -/
def findValue (node : NodeDef) (key : Option (List UInt8)) : Option ValueSample :=
  match key with
  | none => none
  | some key => node.values.find? fun v => v.key = key

/-- `is_text && has_value && !text_overflow` with that text. -/
def textIs (target : Option ValueSample) (text : List UInt8) : Bool :=
  target.any fun v => v.isText && v.hasValue && !v.textOverflow && v.text = some text

/-- `unknown_when_matches` -/
def unknownWhenMatches (node : NodeDef) : Bool :=
  match node.unknownValueKey, node.unknownEquals with
  | some key, some equals => textIs (findValue node (some key)) equals
  | _, _ => false

/-- `trust_confirmed` -/
def trustConfirmed (node : NodeDef) : Bool :=
  match node.trustValueKey with
  | some key => textIs (findValue node (some key)) (ascii "CONFIRMED")
  | none => false

/-! ## Nodes -/

/-- `severity` -/
def severity : State → Nat
  | .ok => 0
  | .stale => 1
  | .degraded | .refused | .silent => 2
  | .absent | .unreachable => 3
  | .unknown | .incompatible => 4

/-- `node_is_absent` -/
def nodeIsAbsent (node : NodeDef) : Bool := node.absentWhy.isSome && node.absentFn.getD true

def anyUnavailable (node : NodeDef) : Bool :=
  node.values.any fun v => (classifyValue v node.budget).classification = .sna

/-- A value that is read and whose age is past the budget. -/
def anyStale (node : NodeDef) : Bool :=
  node.values.any fun v =>
    (classifyValue v node.budget).classification ≠ .sna ∧
      (classifyValue v node.budget).state = .stale

/-- The largest of the known ages. -/
def maxAge (node : NodeDef) : Option UInt32 :=
  if node.values.any (·.ageKnown) then
    some (node.values.foldl (fun age v => if v.ageKnown && age < v.ageMs then v.ageMs else age) 0)
  else none

/-- The first pass of `resolve`, for one node. -/
def ownState (node : NodeDef) : State × Option UInt32 :=
  if nodeIsAbsent node then (.absent, none)
  else if node.unknownValueKey.isSome && unknownWhenMatches node then
    (.unknown, (findValue node node.unknownValueKey).bind fun target =>
      if target.ageKnown then some target.ageMs else none)
  else if notRequested node then (.unknown, none)
  else if anyUnavailable node || (worstLimit node).isSome then (.degraded, maxAge node)
  else if anyStale node then (.stale, maxAge node)
  else (.ok, maxAge node)

namespace Snapshot

variable (s : Snapshot)

/-- The indices of the children of a node, in the order of the table. -/
def children (index : Nat) : List Nat :=
  (List.range s.nodes.length).filter fun j =>
    index < j ∧ (s.nodes[j]?.bind NodeDef.parent) = some index

def isNotRequested (index : Nat) : Bool := s.nodes[index]?.any notRequested

def childIsQuiet (states : Nat → State) (index : Nat) : Bool :=
  states index = .unknown ∧ s.isNotRequested index

/-- The second pass of `resolve`, for one node. -/
def upgrade (states : Nat → State) (index : Nat) : Nat → State :=
  if severity .degraded ≤ severity (states index) then states
  else if (s.children index).any fun j => states j ≠ .ok ∧ !s.childIsQuiet states j then
    fun i => if i = index then .degraded else states i
  else states

/-- The second pass of `resolve`, from the node before `n` down to the root. -/
def propagate : Nat → (Nat → State) → Nat → State
  | 0, states => states
  | index + 1, states => propagate index (s.upgrade states index)

def ownStates (index : Nat) : State := ((s.nodes[index]?.map ownState).getD (.ok, none)).1

/-- `resolve` -/
def resolve : Resolved where
  states := s.propagate s.nodes.length s.ownStates
  ages index := ((s.nodes[index]?.map ownState).getD (.ok, none)).2

end Snapshot

/-- `NodeReason`; a null code is that of a node that is ok. -/
structure NodeReason where
  code : Option (List UInt8)
  evidenceChildren : Bool := false
  evidence : Option (List UInt8) := none
  limit : Option (ValueSample × LimitHit) := none

/-- `describe_node_reason` -/
def describeNodeReason (node : NodeDef) (state : State) : NodeReason :=
  if state = .ok then { code := none }
  else if state = .absent then { code := node.absentWhy, evidence := node.absentEvidence }
  else if unknownWhenMatches node then { code := node.unknownWhy }
  else if state = .unknown && notRequested node then { code := some (ascii "not_requested") }
  else if anyUnavailable node then { code := some (ascii "entities_unavailable") }
  else
    match worstLimit node with
    | some limit => { code := some (ascii "limit"), limit := some limit }
    | none =>
      if anyStale node then { code := some (ascii "stale_data") }
      else { code := some (ascii "child_degraded"), evidenceChildren := true }

end EspCars.Portal
