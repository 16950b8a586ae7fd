import EspCars.CanGateway.Rules

/-!
# From the YAML of a route to its rule table

The `routes` schema of `components/can_gateway/__init__.py` with its validators, the arguments of the
`add_rule` calls that `to_code` emits, and the constructor, `add_rule` and `set_last_rule_e2e` of
`GatewayRoute`. An optional key that is absent is `none`; an optional list must have an element, so
an absent one is the empty list. Python's integers are natural numbers here, the validated ones being
nonnegative.
-/

namespace EspCars.CanGateway.Config

/-! ## The schema -/

/-- `byte_order` -/
inductive ByteOrder
  | little | big
  deriving DecidableEq, Repr

/-- `action` -/
inductive RuleAction
  | accept | drop
  deriving DecidableEq, Repr

/-- An entry of `data`. -/
structure PatchByte where
  index : Nat
  value : Nat
  mask : Nat := 0xFF
  deriving DecidableEq

/-- An entry of `signals`. -/
structure SignalPatch where
  bitOffset : Nat
  bitLength : Nat
  byteOrder : ByteOrder := .little
  value : Option Nat := none
  deriving DecidableEq

/-- The block `e2e`. -/
structure E2e where
  crcByte : Nat
  firstByte : Nat := 0
  lastByte : Option Nat := none
  polynomial : Nat := 0x1D
  deriving DecidableEq

/-- The block `modify`. -/
structure Modify where
  canId : Option Nat := none
  useExtendedId : Option Bool := none
  data : List PatchByte := []
  signals : List SignalPatch := []
  e2e : Option E2e := none
  deriving DecidableEq

/-- `hasId` is whether the key `id` is there. -/
structure Rule where
  hasId : Bool := false
  canId : Nat
  canIdMask : Option Nat := none
  useExtendedId : Bool := false
  remoteTransmissionRequest : Option Bool := none
  action : RuleAction := .accept
  modify : Option Modify := none
  deriving DecidableEq

/-- A route as the YAML has it. -/
structure Route where
  filters : List Rule := []
  defaultAction : RuleAction := .accept
  deriving DecidableEq

/-- Which entry of `modify` claims a bit. -/
inductive Claimant
  | data (index : Nat)
  | signal (i : Nat)
  deriving DecidableEq, Repr

/-- The two places of a CAN ID in a rule. -/
inductive IdKey
  | canId | modifyCanId
  deriving DecidableEq, Repr

/-- The reasons for `cv.Invalid`, with what their texts name. -/
inductive Invalid
  | outOfRange
  | tooManyFilters
  | noKey
  | idExceeds (what : IdKey) (canId : Nat) (extended : Bool)
  | maskExceeds (mask : Nat) (extended : Bool)
  | neverMatches (canId mask : Nat)
  | idWithoutModify
  | modifyDropped
  | valuelessSignal
  | demotedWithoutId
  | maskedWithoutId
  | byteTwice (index : Nat)
  | runsPast (order : ByteOrder) (startBit bitLength : Nat)
  | valueTooWide (value bitLength : Nat)
  | crcByteZero
  | emptyRange (first last : Nat)
  | crcInside (crc first last : Nat)
  | bitTwice (byte bit : Nat) (owner who : Claimant)
  | nothingToRepair
  | crcPatched (crc : Nat)
  deriving DecidableEq, Repr

/-- `if not ok: raise` -/
def require (ok : Bool) (reason : Invalid) : Except Invalid Unit :=
  if ok then .ok () else .error reason

/-- `x & ~mask` -/
def andNot (x mask : Nat) : Nat := x ^^^ (x &&& mask)

def standardIdMax : Nat := 0x7FF

def extendedIdMax : Nat := 0x1FFFFFFF

def maxRouteFilters : Nat := 255

/-- `_id_bound` -/
def idBound (extended : Bool) : Nat := if extended then extendedIdMax else standardIdMax

/-- `_check_id_fits` -/
def checkIdFits (canId : Nat) (extended : Bool) (what : IdKey) : Except Invalid Unit :=
  require (canId ≤ idBound extended) (.idExceeds what canId extended)

/-! ## Bits of the payload -/

/-- The walk of a Motorola field from its most significant bit. -/
def motorolaBits : Nat → Nat → Nat → Option (List (Nat × Nat))
  | 0, _, _ => some []
  | left + 1, byte, bit =>
    if 8 ≤ byte then none
    else
      (if bit = 0 then motorolaBits left (byte + 1) 7 else motorolaBits left byte (bit - 1)).map
        fun cells => (byte, bit) :: cells

/-- `signal_bits`: byte and bit, the least significant first. -/
def signalBits (startBit bitLength : Nat) (order : ByteOrder) : Option (List (Nat × Nat)) :=
  match order with
  | .little =>
    (List.range bitLength).mapM fun k =>
      if 64 ≤ startBit + k then none else some ((startBit + k) / 8, (startBit + k) % 8)
  | .big => (motorolaBits bitLength (startBit / 8) (startBit % 8)).map List.reverse

/-- `_check_signal_fits` -/
def checkSignalFits (startBit bitLength : Nat) (order : ByteOrder) : Except Invalid Unit :=
  require (signalBits startBit bitLength order).isSome (.runsPast order startBit bitLength)

/-- The cells of a field that fits. -/
def SignalPatch.cells (sig : SignalPatch) : List (Nat × Nat) :=
  (signalBits sig.bitOffset sig.bitLength sig.byteOrder).getD []

/-! ## Validators -/

/-- `PATCH_BYTE_SCHEMA` -/
def validatePatchByte (patch : PatchByte) : Except Invalid Unit :=
  require (patch.index ≤ 7 ∧ patch.value ≤ 255 ∧ patch.mask ≤ 255) .outOfRange

/-- `_validate_patch_bytes`, with the indices seen before. -/
def validatePatchBytes : List PatchByte → List Nat → Except Invalid Unit
  | [], _ => .ok ()
  | patch :: patches, seen =>
    if patch.index ∈ seen then .error (.byteTwice patch.index)
    else validatePatchBytes patches (patch.index :: seen)

/-- `SIGNAL_PATCH_SCHEMA` with `_validate_signal_patch`. -/
def validateSignalPatch (sig : SignalPatch) : Except Invalid Unit := do
  require (sig.bitOffset ≤ 63 ∧ 1 ≤ sig.bitLength ∧ sig.bitLength ≤ 32) .outOfRange
  require (sig.value.all (· ≤ 0xFFFFFFFF)) .outOfRange
  checkSignalFits sig.bitOffset sig.bitLength sig.byteOrder
  match sig.value with
  | some value => require (value < 1 <<< sig.bitLength) (.valueTooWide value sig.bitLength)
  | none => .ok ()

/-- `_validate_e2e` -/
def validateE2eRange (e2e : E2e) (last : Nat) : Except Invalid E2e := do
  require (e2e.firstByte ≤ last) (.emptyRange e2e.firstByte last)
  require (¬ (e2e.firstByte ≤ e2e.crcByte ∧ e2e.crcByte ≤ last))
    (.crcInside e2e.crcByte e2e.firstByte last)
  return { e2e with lastByte := some last }

/-- `E2E_SCHEMA`; `last_byte` is the byte before the CRC byte where it is absent. -/
def validateE2e (e2e : E2e) : Except Invalid E2e := do
  require (e2e.crcByte ≤ 7 ∧ e2e.firstByte ≤ 7 ∧ e2e.lastByte.all (· ≤ 7) ∧
    1 ≤ e2e.polynomial ∧ e2e.polynomial ≤ 255) .outOfRange
  match e2e.lastByte with
  | some last => validateE2eRange e2e last
  | none =>
    require (e2e.crcByte ≠ 0) .crcByteZero
    validateE2eRange e2e (e2e.crcByte - 1)

/-- What an entry of `data` claims. -/
def PatchByte.claims (patch : PatchByte) : List ((Nat × Nat) × Claimant) :=
  ((List.range 8).filter fun bit => patch.mask &&& 1 <<< bit ≠ 0).map fun bit =>
    ((patch.index, bit), .data patch.index)

/-- `claim` -/
def claim (owner : List ((Nat × Nat) × Claimant)) (c : (Nat × Nat) × Claimant) :
    Except Invalid (List ((Nat × Nat) × Claimant)) :=
  match owner.find? fun o => o.1 = c.1 with
  | some o => .error (.bitTwice c.1.1 c.1.2 o.2 c.2)
  | none => .ok (owner ++ [c])

/-- Every claim, in the order of the loops of `_payload_cells`. -/
def Modify.claims (modify : Modify) : List ((Nat × Nat) × Claimant) :=
  modify.data.flatMap PatchByte.claims ++
    modify.signals.zipIdx.flatMap fun sig => sig.1.cells.map fun cell => (cell, .signal sig.2)

/-- `_payload_cells` -/
def payloadCells (modify : Modify) : Except Invalid (List ((Nat × Nat) × Claimant)) :=
  modify.claims.foldlM claim []

/-- `_validate_modify` -/
def validateModifyCells (modify : Modify) : Except Invalid Unit := do
  let owner ← payloadCells modify
  match modify.e2e with
  | none => .ok ()
  | some e2e =>
    require (!owner.isEmpty) .nothingToRepair
    require (owner.all fun o => o.1.1 ≠ e2e.crcByte) (.crcPatched e2e.crcByte)

/-- `MODIFY_SCHEMA` -/
def validateModify (modify : Modify) : Except Invalid Modify := do
  require (modify.canId.all (· ≤ extendedIdMax)) .outOfRange
  modify.data.forM validatePatchByte
  validatePatchBytes modify.data []
  modify.signals.forM validateSignalPatch
  let e2e ← modify.e2e.mapM validateE2e
  let modify := { modify with e2e := e2e }
  require (modify.canId.isSome || modify.useExtendedId.isSome || !modify.data.isEmpty ||
    !modify.signals.isEmpty) .noKey
  validateModifyCells modify
  return modify

/-- The part of `_validate_rule` about the frame that goes out. -/
def checkOutput (rule : Rule) (mask : Nat) (modify : Modify) : Except Invalid Unit :=
  let extended := rule.useExtendedId
  let outExtended := modify.useExtendedId.getD extended
  match modify.canId with
  | some newId => checkIdFits newId outExtended .modifyCanId
  | none =>
    if extended ∧ ¬ outExtended then .error .demotedWithoutId
    else if outExtended ≠ extended ∧ mask ≠ idBound extended then .error .maskedWithoutId
    else .ok ()

/-- `_validate_rule` -/
def validateRuleIds (rule : Rule) : Except Invalid Rule := do
  let extended := rule.useExtendedId
  checkIdFits rule.canId extended .canId
  let mask := rule.canIdMask.getD (idBound extended)
  let rule := { rule with canIdMask := some mask }
  require (mask ≤ idBound extended) (.maskExceeds mask extended)
  require (andNot rule.canId mask = 0) (.neverMatches rule.canId mask)
  match rule.modify with
  | none =>
    require (!rule.hasId) .idWithoutModify
    return rule
  | some modify =>
    require (rule.action ≠ .drop) .modifyDropped
    require (rule.hasId || modify.signals.all fun sig => sig.value.isSome) .valuelessSignal
    checkOutput rule mask modify
    return rule

/-- `FILTER_SCHEMA` -/
def validateRule (rule : Rule) : Except Invalid Rule := do
  require (rule.canId ≤ extendedIdMax ∧ rule.canIdMask.all (· ≤ extendedIdMax)) .outOfRange
  let modify ← rule.modify.mapM validateModify
  validateRuleIds { rule with modify := modify }

/-- `ROUTE_SCHEMA`, but for the ports. -/
def validateRoute (route : Route) : Except Invalid Route := do
  let filters ← route.filters.mapM validateRule
  require (filters.length ≤ maxRouteFilters) .tooManyFilters
  return { route with filters := filters }

/-! ## The emitted calls -/

def ruleFlagExtended : UInt8 := 0x01
def ruleFlagCheckRtr : UInt8 := 0x02
def ruleFlagRtrValue : UInt8 := 0x04
def ruleFlagDrop : UInt8 := 0x08
def ruleFlagHasPatch : UInt8 := 0x10
def ruleFlagOutExt : UInt8 := 0x20
def ruleFlagReplaceId : UInt8 := 0x40

/-- The flags that `_rule_flags` collects. -/
def ruleFlagList (rule : Rule) : List UInt8 :=
  (if rule.useExtendedId then [ruleFlagExtended] else []) ++
  (match rule.remoteTransmissionRequest with
    | none => []
    | some rtr => ruleFlagCheckRtr :: if rtr then [ruleFlagRtrValue] else []) ++
  (if rule.action = .drop then [ruleFlagDrop] else []) ++
  match rule.modify with
  | none => []
  | some modify =>
    let outExtended := modify.useExtendedId.getD rule.useExtendedId
    ruleFlagHasPatch :: (if outExtended then [ruleFlagOutExt] else []) ++
      if modify.canId.isSome ∨ outExtended ≠ rule.useExtendedId then [ruleFlagReplaceId] else []

/-- `_rule_flags` -/
def ruleFlags (rule : Rule) : UInt8 := (ruleFlagList rule).foldl (· ||| ·) 0

/-- `0xFFFF_FFFF_FFFF_FFFF` -/
def full64 : Nat := 2 ^ 64 - 1

/-- One entry of `data` in the loop of `_packed_patch_masks`. -/
def packByte (masks : Nat × Nat) (patch : PatchByte) : Nat × Nat :=
  let shift := 8 * patch.index
  (masks.1 &&& andNot full64 (patch.mask <<< shift),
    masks.2 ||| (patch.value &&& patch.mask) <<< shift)

/-- Bit `k` of the value of a signal. -/
def packBit (value : Nat) (masks : Nat × Nat) (cell : (Nat × Nat) × Nat) : Nat × Nat :=
  let pos := 8 * cell.1.1 + cell.1.2
  (masks.1 &&& andNot full64 (1 <<< pos),
    if value >>> cell.2 &&& 1 ≠ 0 then masks.2 ||| 1 <<< pos else masks.2)

/-- One entry of `signals`. -/
def packSignal (masks : Nat × Nat) (sig : SignalPatch) : Nat × Nat :=
  match sig.value with
  | none => masks
  | some value => sig.cells.zipIdx.foldl (packBit value) masks

/-- `_packed_patch_masks` -/
def packedPatchMasks (modify : Option Modify) : Nat × Nat :=
  let andMask := (List.range 8).foldl (fun mask index => mask ||| 0xFF <<< (8 * index)) 0
  match modify with
  | none => (andMask, 0)
  | some modify => modify.signals.foldl packSignal (modify.data.foldl packByte (andMask, 0))

/-- `_declared_mask` -/
def declaredMask (modify : Option Modify) : Nat :=
  match modify with
  | none => 0
  | some modify =>
    match payloadCells modify with
    | .ok owner => owner.foldl (fun declared o => declared ||| 1 <<< (8 * o.1.1 + o.1.2)) 0
    | .error _ => 0

end Config

/-! ## `GatewayRoute` -/

open Config

def RuleFlags.ofByte (flags : UInt8) : RuleFlags where
  extended := flags &&& ruleFlagExtended ≠ 0
  checkRtr := flags &&& ruleFlagCheckRtr ≠ 0
  rtrValue := flags &&& ruleFlagRtrValue ≠ 0
  drop := flags &&& ruleFlagDrop ≠ 0
  hasPatch := flags &&& ruleFlagHasPatch ≠ 0

/-- Byte `i` at the bits `8 * i`. -/
def unpackBytes (v : UInt64) : Bytes8 := .ofFn fun i => (v >>> UInt64.ofNat (8 * i)).toUInt8

/-- The rules are a vector of a fixed capacity, which takes no more when it is full. -/
structure GatewayRoute where
  capacity : Nat
  rules : List RuleEntry := []
  ruleCount : UInt8 := 0
  defaultDrop : Bool := false
  deriving DecidableEq

namespace GatewayRoute

/-- The constructor. -/
def ofCount (ruleCount : UInt8) (defaultAccept : Bool) : GatewayRoute :=
  { capacity := ruleCount.toNat, defaultDrop := !defaultAccept }

/-- `add_rule`; `patch` is whether a `RulePatch` is given. -/
def addRule (route : GatewayRoute) (matchId matchMask : UInt32) (flags : UInt8) (newId : UInt32)
    (andMask orValue : UInt64) (patch : Bool) (declaredMask : UInt64) : GatewayRoute :=
  let data : PatchData :=
    { replaceId := flags &&& ruleFlagReplaceId ≠ 0, newCanId := newId
      newExtended := flags &&& ruleFlagOutExt ≠ 0
      andMask := unpackBytes andMask, orValue := unpackBytes orValue }
  let entry : RuleEntry :=
    { matchId := matchId, matchMask := matchMask
      flags := .ofByte (flags &&& (ruleFlagExtended ||| ruleFlagCheckRtr ||| ruleFlagRtrValue |||
        ruleFlagDrop ||| ruleFlagHasPatch)) }
  let entry :=
    if patch then { entry with banks := some (RulePatch.init data declaredMask).banks }
    else { entry with staticPatch := data }
  let rules := if route.rules.length < route.capacity then route.rules ++ [entry] else route.rules
  { route with rules := rules, ruleCount := UInt8.ofNat rules.length }

/-- `set_last_rule_e2e` -/
def setLastRuleE2e (route : GatewayRoute) (crcIndex first last poly : UInt8) : GatewayRoute :=
  match route.rules.getLast? with
  | none => route
  | some entry =>
    { route with
      rules := route.rules.dropLast ++
        [{ entry with e2e := { crcIndex := crcIndex, first := first, last := last, poly := poly } }] }

/-- `table_` -/
def table (route : GatewayRoute) : RouteTable :=
  { rules := route.rules.take route.ruleCount.toNat, defaultDrop := route.defaultDrop }

end GatewayRoute

namespace Config

/-- What `to_code` emits for one rule. -/
def emitRule (route : GatewayRoute) (rule : Rule) : GatewayRoute :=
  let newId := (rule.modify.bind Modify.canId).getD rule.canId
  let masks := packedPatchMasks rule.modify
  let route := route.addRule (UInt32.ofNat rule.canId) (UInt32.ofNat (rule.canIdMask.getD 0))
    (ruleFlags rule) (UInt32.ofNat newId) (UInt64.ofNat masks.1) (UInt64.ofNat masks.2) rule.hasId
    (UInt64.ofNat (declaredMask rule.modify))
  match rule.modify.bind Modify.e2e with
  | none => route
  | some e2e =>
    route.setLastRuleE2e (UInt8.ofNat e2e.crcByte) (UInt8.ofNat e2e.firstByte)
      (UInt8.ofNat (e2e.lastByte.getD 0)) (UInt8.ofNat e2e.polynomial)

/-- The route that the calls of `to_code` build. -/
def toCode (route : Route) : GatewayRoute :=
  route.filters.foldl emitRule
    (.ofCount (UInt8.ofNat route.filters.length) (route.defaultAction = .accept))

end Config

end EspCars.CanGateway
