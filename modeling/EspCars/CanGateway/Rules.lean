import EspCars.CanGateway.Patch

/-!
# The rule table and what a route does with a frame

`RuleEntry`, `match_rule`, `apply_patch`, the E2E repair and `process_frame` of
`components/can_gateway/gateway_core.h`. Header and payload of a frame travel as one value; the
in-place changes of the source are the returned frame.
-/

namespace EspCars.CanGateway

/-- A received frame as `process_frame` sees it: `dlc` is clamped, the payload buffer is not. -/
structure CanFrame where
  canId : UInt32 := 0
  extended : Bool := false
  rtr : Bool := false
  dlc : Nat := 0
  data : Bytes8 := .replicate maxFrameDataLen 0
  deriving DecidableEq

/-! ## E2E -/

/-- One bit of the shift register of `crc8_linear`. -/
def crc8Shift (poly crc : UInt8) : UInt8 :=
  if crc &&& 0x80 ≠ 0 then crc <<< 1 ^^^ poly else crc <<< 1

def crc8Byte (poly crc byte : UInt8) : UInt8 := (crc8Shift poly)^[8] (crc ^^^ byte)

/-- `crc8_linear` -/
def crc8Linear (data : List UInt8) (poly : UInt8) : UInt8 := data.foldl (crc8Byte poly) 0

/-- `E2E_NONE`. -/
def e2eNone : UInt8 := 0xFF

/-- The CRC of a rule: `e2e_*`. -/
structure E2eCrc where
  crcIndex : UInt8 := e2eNone
  first : UInt8 := 0
  last : UInt8 := 0
  poly : UInt8 := 0x1D
  deriving DecidableEq

def E2eCrc.enabled (e : E2eCrc) : Bool := e.crcIndex ≠ e2eNone

/-- `e2e_fix_crc`: the payload after the repair. -/
def e2eFixCrc (e : E2eCrc) (before data : Bytes8) (dlc : Nat) : Bytes8 :=
  if !e.enabled ∨ e.last.toNat ≥ dlc ∨ e.crcIndex.toNat ≥ dlc ∨ e.first > e.last then data
  else
    let n := e.last.toNat - e.first.toNat + 1
    let delta := (List.range n).map fun i =>
      before.toList.getD (e.first.toNat + i) 0 ^^^ data.toList.getD (e.first.toNat + i) 0
    if delta.all (· == 0) then data
    else
      data.setIfInBounds e.crcIndex.toNat
        (data.toList.getD e.crcIndex.toNat 0 ^^^ crc8Linear delta e.poly)

/-! ## Rules -/

/-- The `RULE_FLAG_*` bits, one field each. -/
structure RuleFlags where
  extended : Bool := false
  checkRtr : Bool := false
  rtrValue : Bool := false
  drop : Bool := false
  hasPatch : Bool := false
  deriving DecidableEq

/-- `banks` is what the pointer points at when the frame is processed, `none` the null
pointer. -/
structure RuleEntry where
  matchId : UInt32
  matchMask : UInt32
  flags : RuleFlags
  staticPatch : PatchData := {}
  banks : Option PatchBanks := none
  e2e : E2eCrc := {}
  deriving DecidableEq

namespace RuleEntry

def «matches» (r : RuleEntry) (f : CanFrame) : Bool :=
  if f.extended ≠ r.flags.extended then false
  else if f.canId &&& r.matchMask ≠ r.matchId then false
  else if r.flags.checkRtr ∧ f.rtr ≠ r.flags.rtrValue then false
  else true

/-- `effective_patch` -/
def effectivePatch (r : RuleEntry) : PatchData :=
  match r.banks with
  | some banks => banks.activePatch
  | none => r.staticPatch

end RuleEntry

/-- The rules of a route and its default action. -/
structure RouteTable where
  rules : List RuleEntry := []
  defaultDrop : Bool := false
  deriving DecidableEq

/-- What `process_frame` decides. -/
inductive FrameAction
  | forward | dropFiltered
  deriving DecidableEq, Repr

/-- The first rule that matches. -/
def matchRule (table : RouteTable) (f : CanFrame) : Option RuleEntry :=
  table.rules.find? (·.matches f)

/-- `apply_patch` -/
def applyPatch (patch : PatchData) (f : CanFrame) : CanFrame :=
  let f := if patch.replaceId then
      { f with canId := patch.newCanId, extended := patch.newExtended }
    else f
  if f.rtr then f
  else
    { f with
      data := .ofFn fun i =>
        if i < min f.dlc maxFrameDataLen then
          (f.data.get i &&& patch.andMask.get i) ||| patch.orValue.get i
        else f.data.get i }

/-- `process_frame` -/
def processFrame (table : RouteTable) (f : CanFrame) : FrameAction × CanFrame :=
  match matchRule table f with
  | none => (if table.defaultDrop then .dropFiltered else .forward, f)
  | some rule =>
    if rule.flags.drop then (.dropFiltered, f)
    else if rule.flags.hasPatch then
      let patched := applyPatch rule.effectivePatch f
      if rule.e2e.enabled && !f.rtr then
        (.forward, { patched with
          data := e2eFixCrc rule.e2e f.data patched.data (min f.dlc maxFrameDataLen) })
      else (.forward, patched)
    else (.forward, f)

end EspCars.CanGateway
