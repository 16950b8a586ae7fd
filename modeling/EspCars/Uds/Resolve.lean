import EspCars.Uds.Catalog

/-!
# Names on the device

`UdsHub::resolve_ecu_`, `find_group_` and `resolve_binding_` of `components/uds/uds.cpp`: how the hub
finds its ECU, a group and the field of a binding in the catalog that is flashed.
-/

namespace EspCars.Uds

/-- `UDS_INTERVAL_NEVER` -/
def intervalNever : Nat := 0

/-- The names, the element and the interval that codegen emits for an entity. -/
structure UdsBinding where
  groupName : List UInt8
  fieldName : List UInt8
  element : Nat := 0
  intervalMs : Nat := intervalNever
  deriving DecidableEq

namespace Catalog

variable (c : Catalog)

/-- `resolve_ecu_`; `none` as a name is no `ecu:` in the configuration. -/
def resolveEcu (ecuName : Option (List UInt8)) : Option EcuView :=
  match ecuName with
  | some name => (c.find name .ecu).bind c.ecu
  | none => if c.ecuCount ≠ 1 then none else c.ecu 0

/-- `find_group_`; `none` as an ECU is one that has not been resolved. -/
def findGroup (ecu : Option EcuView) (name : List UInt8) : Option Nat :=
  match c.find name .group with
  | none => none
  | some gi =>
    match ecu with
    | none => some gi
    | some ecu =>
      if gi < ecu.groupFirst ∨ ecu.groupFirst + ecu.groupCount ≤ gi then none else some gi

/-- The walk of `resolve_binding_` over the fields of a group, from the field `fi` on. -/
def walkFields (b : UdsBinding) : Nat → Nat → Option Nat
  | 0, _ => none
  | count + 1, fi =>
    match c.field fi with
    | none => none
    | some f =>
      if f.name ≠ b.fieldName then walkFields b count (fi + 1)
      else if f.repeatCount ≤ b.element then none
      else some fi

/-- `resolve_binding_`: the group and the field of the binding. -/
def resolveBinding (ecu : Option EcuView) (b : UdsBinding) : Option (Nat × Nat) :=
  match c.findGroup ecu b.groupName with
  | none => none
  | some gi =>
    match c.group gi with
    | none => none
    | some g => (c.walkFields b g.fieldCount g.fieldFirst).map fun fi => (gi, fi)

end Catalog

end EspCars.Uds
