import EspCars.Portal.Tree

/-!
# The configuration of a portal

The tree of `components/portal/__init__.py`: what the schema accepts of it, and the table of nodes
that `to_code` makes of it. The live state of what a node is bound to (an entity, the predicate of
an absent node, the elements of a series) stands with the binding, so the table is that of a sample.
A text is its bytes as C sees them.
-/

namespace EspCars.Portal

open EspCars.Lib

/-! ## Values, series, actions -/

/-- What a value is bound to, with the state it has published and its age. -/
inductive ValueEntity
  | sensor (state : Option (Binary32 × UInt32))
  | textSensor (state : Option (List UInt8 × UInt32))
  | binarySensor (state : Option (Bool × UInt32))
  deriving DecidableEq

/-- An entry of `values`. -/
structure ValueConf where
  key : List UInt8
  label : List UInt8
  unit : Option (List UInt8) := none
  decimals : Nat := 0
  cadence : Option Nat := none
  warn : Option LimitBound := none
  bad : Option LimitBound := none
  warnWhen : Option Bool := none
  badWhen : Option Bool := none
  entity : ValueEntity
  deriving DecidableEq

/-- `_limit_bound`: one of the two at least. -/
def LimitBound.accepted (b : LimitBound) : Bool := b.below.isSome || b.above.isSome

/-- `VALUE_SCHEMA` with `_no_cadence_on_binary_sensor` and `_limits_fit_entity`. -/
def ValueConf.accepted (v : ValueConf) : Bool :=
  let numeric := v.warn.isSome || v.bad.isSome
  let boolean := v.warnWhen.isSome || v.badWhen.isSome
  isIdent v.key && !v.label.isEmpty && decide (v.decimals ≤ 6) && v.cadence.all (1 ≤ ·) &&
    v.warn.all LimitBound.accepted && v.bad.all LimitBound.accepted &&
    match v.entity with
    | .sensor _ => !boolean
    | .textSensor _ => !numeric && !boolean
    | .binarySensor _ => !numeric && v.cadence.isNone

/-- An entry of `series`. -/
structure SeriesConf where
  key : List UInt8
  label : List UInt8
  unit : Option (List UInt8) := none
  indexBase : Nat := 0
  indexFrame : Option (List UInt8) := none
  count : Nat
  decimals : Nat := 0
  resolvedPackIndexBase : Option Nat := none
  element : Nat → Option SeriesElement := fun _ => none

def SeriesConf.accepted (c : SeriesConf) : Bool :=
  isIdent c.key && !c.label.isEmpty && c.indexFrame.all isIdent && decide (1 ≤ c.count) &&
    decide (c.count ≤ 64) && decide (c.decimals ≤ 6)

/-- An action; `source` is the id of its entity. -/
structure ActionConf where
  action : ActionDef
  source : List UInt8 := []
  sample : ActionSample := {}
  deriving DecidableEq

def ActionConf.accepted (a : ActionConf) : Bool :=
  isIdent a.action.key && !a.action.label.isEmpty && decide (a.action.decimals ≤ 6)

/-- The block `unknown_when`. -/
structure UnknownWhen where
  value : List UInt8
  equals : List UInt8
  why : List UInt8
  deriving DecidableEq

/-- An entry of `ABSENT_PROVIDERS`. -/
structure AbsentProvider where
  evidence : Option (List UInt8) := none
  forWhy : List (List UInt8) := []
  defaultWhy : Option (List UInt8) := none
  actionEvidence : Bool := false
  deriving DecidableEq

/-- `absent_when`, with what the predicate answers. -/
structure AbsentWhen where
  provider : AbsentProvider
  source : List UInt8
  verdict : Bool
  deriving DecidableEq

/-! ## Nodes -/

/-- A node without its children. `budgetMs` is none where the key is left out, `absent` where it is
not declared. -/
structure NodeFields where
  segment : List UInt8
  kind : List UInt8
  label : List UInt8
  budgetMs : Option (Option Nat) := none
  values : List ValueConf := []
  actions : List ActionConf := []
  role : Option (List UInt8) := none
  rolesAvailable : List (List UInt8) := []
  absent : Option (List UInt8) := none
  absentWhen : Option AbsentWhen := none
  unknownWhen : Option UnknownWhen := none
  trustFrom : Option (List UInt8) := none
  series : Option SeriesConf := none
  onDemand : Bool := false

/-- An entry of `nodes` with its children. -/
inductive NodeConf
  | node (fields : NodeFields) (children : List NodeConf)

namespace NodeFields

variable (f : NodeFields)

/-- `absent`, or the default of the provider. -/
def absentWhy : Option (List UInt8) :=
  f.absent.orElse fun _ => f.absentWhen.bind fun w => w.provider.defaultWhy

def evidenceGated : List (List UInt8) :=
  [ascii "never_announced", ascii "no_transfer", ascii "crc_fail", ascii "negative_response"]

/-- `_provider_backs_why` -/
def backsWhy (provider : AbsentProvider) (code : List UInt8) : Bool :=
  provider.evidence.any (fun evidence => !evidence.isEmpty) && provider.forWhy.contains code

/-- `_validate_absent_evidence` -/
def absentEvidenceOk : Bool :=
  f.absentWhy.all fun code =>
    !evidenceGated.contains code || f.absentWhen.any fun w => backsWhy w.provider code

def ownKeys : List (List UInt8) := f.values.map (·.key)

def hasBinarySensor : Bool :=
  f.values.any fun v =>
    match v.entity with
    | .binarySensor _ => true
    | _ => false

/-- `_validate_node_cross_fields` -/
def crossFieldsOk (hasChildren : Bool) : Bool :=
  (f.absentWhen.isNone || f.absentWhy.isSome) &&
  (!f.onDemand || !f.values.isEmpty) &&
  (f.absentWhy.isNone ||
    (f.role.isNone && f.unknownWhen.isNone &&
      (f.absentWhen.isSome ||
        (f.values.isEmpty && !hasChildren && f.series.isNone && f.actions.isEmpty)))) &&
  f.absentEvidenceOk &&
  f.role.all (fun role => f.rolesAvailable.contains role) &&
  f.series.all (fun series => !f.ownKeys.contains series.key) &&
  decide (f.actions.map (·.action.key)).Nodup &&
  f.unknownWhen.all (fun w => !hasChildren && f.ownKeys.contains w.value) &&
  f.trustFrom.all (fun key => f.ownKeys.contains key) &&
  (f.budgetMs.all Option.isNone || !f.hasBinarySensor)

/-- The schema of one node, but for its children. -/
def accepted (hasChildren : Bool) : Bool :=
  isIdent f.segment && !f.kind.isEmpty && !f.label.isEmpty &&
  f.budgetMs.all (fun budget => budget.all (1 ≤ ·)) &&
  f.values.all ValueConf.accepted && f.actions.all ActionConf.accepted &&
  f.role.all isIdent && f.rolesAvailable.all isIdent && f.absent.all isIdent &&
  f.unknownWhen.all (fun w =>
    isIdent w.value && isIdent w.why && !evidenceGated.contains w.why) &&
  f.trustFrom.all isIdent && f.series.all SeriesConf.accepted &&
  f.crossFieldsOk hasChildren

/-- `_apply_derived_budget` -/
def budget : Option Nat :=
  match f.budgetMs with
  | some budget => budget
  | none =>
    if f.values.isEmpty then none
    else (f.values.mapM ValueConf.cadence).map fun cadences => 3 * cadences.foldl max 0

end NodeFields

namespace NodeConf

def fields : NodeConf → NodeFields
  | .node fields _ => fields

def children : NodeConf → List NodeConf
  | .node _ children => children

def segment (c : NodeConf) : List UInt8 := c.fields.segment

/-- `_unique_segments` -/
def uniqueSegments (nodes : List NodeConf) : Bool := decide (nodes.map segment).Nodup

mutual

/-- `NODE_SCHEMA` -/
def accepted : NodeConf → Bool
  | .node fields children =>
    fields.accepted (!children.isEmpty) && uniqueSegments children && acceptedAll children

def acceptedAll : List NodeConf → Bool
  | [] => true
  | c :: cs => accepted c && acceptedAll cs

end

mutual

/-- The number of nodes from this one down. -/
def size : NodeConf → Nat
  | .node _ children => 1 + sizeAll children

def sizeAll : List NodeConf → Nat
  | [] => 0
  | c :: cs => size c + sizeAll cs

end

end NodeConf

/-- The dotted id of a child; those of the root are bare. -/
def childId (parentIndex : Nat) (parentId segment : List UInt8) : List UInt8 :=
  if parentIndex = 0 then segment else parentId ++ ascii "." ++ segment

mutual

/-- `_iter_tree`, from a node with that id on. -/
def iterNode (id : List UInt8) : NodeConf → List (List UInt8 × NodeFields)
  | .node fields children => (id, fields) :: iterChildren id children

def iterChildren (parentId : List UInt8) : List NodeConf → List (List UInt8 × NodeFields)
  | [] => []
  | c :: cs => iterNode (parentId ++ ascii "." ++ c.segment) c ++ iterChildren parentId cs

end

/-- `_iter_tree` of a whole tree: the ids on top are bare. -/
def iterTree (tree : List NodeConf) : List (List UInt8 × NodeFields) :=
  tree.flatMap fun c => iterNode c.segment c

/-- The configuration of the component. -/
structure PortalConf where
  board : Option (List UInt8) := none
  nodeId : Option (List UInt8) := none
  mac : Option (List UInt8) := none
  build : List UInt8 := []
  owns : List (List UInt8) := []
  components : List (List UInt8) := []
  rootLabel : List UInt8
  textMax : Nat := 48
  tree : List NodeConf

namespace PortalConf

variable (c : PortalConf)

def identityComplete : Bool := c.board.isSome && c.nodeId.isSome && c.mac.isSome

/-- `_validate_owns` -/
def ownsAccepted : Bool :=
  c.owns.all (fun owned => (iterTree c.tree).any fun node => node.1 = owned) &&
    decide c.owns.Nodup && (!c.identityComplete || !c.owns.isEmpty)

/-- The schema of the whole configuration, as far as it is about the tree and the identity. -/
def accepted : Bool :=
  !c.rootLabel.isEmpty && decide (16 ≤ c.textMax) && !c.tree.isEmpty &&
    NodeConf.uniqueSegments c.tree && NodeConf.acceptedAll c.tree && c.ownsAccepted

/-! ## The table -/

/-- `sample_` for one value. -/
def sampleValue (v : ValueConf) : ValueSample :=
  let limited := v.warn.isSome || v.bad.isSome || v.warnWhen.isSome || v.badWhen.isSome
  let sample : ValueSample :=
    { key := v.key, label := v.label, unit := v.unit, decimals := v.decimals
      limit := if limited then
        some { warn := v.warn.getD {}, bad := v.bad.getD {}, warnWhen := v.warnWhen,
               badWhen := v.badWhen }
      else none }
  match v.entity with
  | .sensor none => sample
  | .sensor (some (state, age)) =>
    { sample with number := state, ageMs := age, hasValue := true, ageKnown := true }
  | .textSensor none => { sample with isText := true }
  | .textSensor (some (state, age)) =>
    { sample with
      isText := true, text := some ((cstr state).take (c.textMax - 1)), ageMs := age
      textOverflow := decide (c.textMax - 1 < state.length), hasValue := true, ageKnown := true }
  | .binarySensor none => { sample with isBool := true }
  | .binarySensor (some (state, age)) =>
    { sample with
      isBool := true, number := .ofBool state, ageMs := age, hasValue := true, ageKnown := true }

def seriesDef (series : SeriesConf) : SeriesDef where
  key := series.key
  label := series.label
  unit := series.unit
  indexFrame := series.indexFrame
  indexBase := UInt32.ofNat series.indexBase
  packIndexBase := series.resolvedPackIndexBase.map UInt32.ofNat
  count := series.count
  decimals := series.decimals
  element := series.element

/-- The first action that is bound to the switch, as the evidence of `switch_off` names it. -/
def actionOfSwitch (source : List UInt8) : Option (List UInt8) :=
  (iterTree c.tree).findSome? fun node =>
    (node.2.actions.find? fun a => a.action.control = .switch ∧ a.source = source).map fun a =>
      node.1 ++ ascii "/" ++ a.action.key

def absentEvidence (w : AbsentWhen) : Option (List UInt8) :=
  if w.provider.actionEvidence then
    (c.actionOfSwitch w.source).map fun ref => ascii "\"action\":\"" ++ ref ++ ascii "\""
  else w.provider.evidence.filter fun evidence => !evidence.isEmpty

/-- `",".join(roles)`, or no text at all. -/
def rolesCsv (roles : List (List UInt8)) : Option (List UInt8) :=
  if roles.isEmpty then none else some (List.intercalate (ascii ",") roles)

/-- `add_node` with the values, the series and the actions of the node. -/
def nodeDef (f : NodeFields) (id : List UInt8) (parent : Option Nat) : NodeDef where
  id := id
  kind := f.kind
  label := f.label
  parent := parent
  values := f.values.map c.sampleValue
  budget := f.budget.map UInt32.ofNat
  onDemand := f.onDemand
  absentWhy := f.absentWhy
  role := f.role
  rolesAvailable := rolesCsv f.rolesAvailable
  unknownValueKey := f.unknownWhen.map (·.value)
  unknownEquals := f.unknownWhen.map (·.equals)
  unknownWhy := f.unknownWhen.map (·.why)
  trustValueKey := f.trustFrom
  series := f.series.map seriesDef
  absentFn := f.absentWhen.map (·.verdict)
  absentEvidence := f.absentWhen.bind c.absentEvidence
  actions := f.actions.map fun a => (a.action, a.sample)

mutual

/-- `emit` of `to_code`: the node takes the next index, and its children the ones behind it. -/
def emitNode (parent : Option Nat) (index : Nat) (id : List UInt8) : NodeConf → List NodeDef
  | .node fields children =>
    c.nodeDef fields id parent :: emitChildren index (index + 1) id children

def emitChildren (parentIndex next : Nat) (parentId : List UInt8) : List NodeConf → List NodeDef
  | [] => []
  | child :: children =>
    emitNode (some parentIndex) next (childId parentIndex parentId child.segment) child ++
      emitChildren parentIndex (next + child.size) parentId children

end

/-- The root, whose children are the tree. -/
def root : NodeConf :=
  .node { segment := ascii "car", kind := ascii "car", label := c.rootLabel } c.tree

/-- The table of the tree. -/
def nodes : List NodeDef := c.emitNode none 0 (ascii "car") c.root

def identity : Identity where
  board := c.board
  nodeId := c.nodeId
  mac := c.mac
  build := some c.build
  owns := c.owns
  components := c.components

/-- A sample of the portal, as a response finds it. -/
def snapshot (seq uptimeMs : UInt32) (links : List LinkDef) : Snapshot where
  seq := seq
  uptimeMs := uptimeMs
  identity := c.identity
  nodes := c.nodes
  links := links

end PortalConf

end EspCars.Portal
