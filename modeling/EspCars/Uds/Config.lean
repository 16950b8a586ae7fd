import EspCars.Uds.Compiler
import EspCars.Uds.Resolve

/-!
# Names in the configuration

`_ecu_of`, `resolve_group` and `resolve_field` of `components/uds/__init__.py`: what the validation
takes an `ecu:`, a `service:` and a `field:` for, in the catalog of the configuration. A record is
answered with its position in its list, which says which of two equal records it is. The texts of
the errors are left out, and so are the close matches in them.
-/

namespace EspCars.Uds.Config

open Lib Compiler

/-- Why a reference does not resolve. -/
inductive ResolveError
  | ecuRequired
  | unknownEcu
  | noDid
  | unknownService
  | noField
  | unknownField
  | ambiguousField
  | elementOutOfRange
  deriving DecidableEq, Repr

/-- The key that an error names. -/
inductive ConfigKey
  | ecu | service | field | element
  deriving DecidableEq, Repr

/-- The path of the error. -/
def ResolveError.path : ResolveError → ConfigKey
  | .ecuRequired | .unknownEcu => .ecu
  | .noDid | .unknownService => .service
  | .noField | .unknownField | .ambiguousField => .field
  | .elementOutOfRange => .element

/-- A `service:` is a qualifier or a DID. -/
inductive ServiceRef
  | name (s : Name)
  | did (d : Nat)
  deriving DecidableEq

def ecuOf (cat : Compiler.Catalog) (name : Option Name) : Except ResolveError (Ecu × Nat) :=
  match name with
  | none =>
    match cat.ecus with
    | [ecu] => .ok (ecu, 0)
    | _ => .error .ecuRequired
  | some name =>
    match cat.ecus.zipIdx.find? fun p => p.1.name = name with
    | some p => .ok p
    | none => .error .unknownEcu

/-- The group of a service. -/
def resolveGroup (ecu : Ecu) (service : ServiceRef) : Except ResolveError (Group × Nat) :=
  match service with
  | .did d =>
    match ecu.groups.zipIdx.filter fun p => p.1.did = d ∧ p.1.did ≠ noIndex with
    | [] => .error .noDid
    | hit :: _ => .ok hit
  | .name s =>
    match ecu.groups.zipIdx.find? fun p => p.1.names.contains s with
    | some p => .ok p
    | none => .error .unknownService

/-- The groups that are searched for a field. -/
def searchedGroups (ecu : Ecu) : Option ServiceRef → Except ResolveError (List (Group × Nat))
  | some service => (resolveGroup ecu service).map ([·])
  | none => .ok ecu.groups.zipIdx

/-- The fields of that name in the groups. -/
def fieldHits (groups : List (Group × Nat)) (field : Name) :
    List ((Group × Nat) × (Field × Nat)) :=
  groups.flatMap fun g => (g.1.fields.zipIdx.filter fun f => f.1.name = field).map (g, ·)

/-- `resolve_field` -/
def resolveField (ecu : Ecu) (field : Name) (service : Option ServiceRef) (element : Nat) :
    Except ResolveError ((Group × Nat) × (Field × Nat)) :=
  match searchedGroups ecu service with
  | .error e => .error e
  | .ok groups =>
    match fieldHits groups field with
    | [] => .error (if service.isSome then .noField else .unknownField)
    | [hit] => if hit.2.1.repeatCount ≤ element then .error .elementOutOfRange else .ok hit
    | _ => .error .ambiguousField

/-! ## Entities -/

/-- What `ecu:`, `field:`, `service:` and `element:` of an entity say. -/
structure Binding where
  ecuName : Option Name
  field : Name
  service : Option ServiceRef
  element : Nat

/-- What the validation chooses: an ECU, a group of it and a field of that, each at its position. -/
structure Choice where
  ecu : Ecu
  e : Nat
  group : Group
  k : Nat
  field : Field
  j : Nat

namespace Binding

variable (b : Binding)

def choose (cat : Compiler.Catalog) : Except ResolveError Choice :=
  match ecuOf cat b.ecuName with
  | .error e => .error e
  | .ok (ecu, e) =>
    match resolveField ecu b.field b.service b.element with
    | .error e => .error e
    | .ok ((g, k), (f, j)) => .ok { ecu := ecu, e := e, group := g, k := k, field := f, j := j }

/-- What codegen emits for the entity, as the device reads it. -/
def emitted (x : Choice) : UdsBinding :=
  { groupName := cstr x.group.name, fieldName := cstr b.field, element := b.element }

end Binding

/-! ## The final validation -/

def textSlotCap : Nat := 64
def maxRequest : Nat := 32

/-- An entity of `sensor:` or `text_sensor:`. -/
structure Entity where
  binding : Binding
  wantText : Bool
  /-- `binding_interval`: 0 for `never`. -/
  intervalMs : Nat

def isText (f : Field) : Bool := f.ascii || f.hexdump || f.isEnum

/-- The bytes that a text field renders to. -/
def renderedLen (f : Field) : Nat :=
  if f.hexdump then f.bitSize / 4
  else if f.ascii then f.bitSize / 8
  else (f.scales.map fun s => s.text.length).foldr max 0

/-- Why an entity is refused. -/
inductive BindError
  | resolve (e : ResolveError)
  | isNumeric
  | isText
  | textSlot
  | request

/-- `binding_final_validate` -/
def bindingFinalValidate (cat : Compiler.Catalog) (entity : Entity) : Except BindError Choice :=
  match entity.binding.choose cat with
  | .error e => .error (.resolve e)
  | .ok x =>
    if isText x.field ≠ entity.wantText then
      .error (if entity.wantText then .isNumeric else .isText)
    else if entity.wantText ∧ textSlotCap < renderedLen x.field + 1 then .error .textSlot
    else if maxRequest < x.group.request.length then .error .request
    else .ok x

/-- The automation actions that name the hub. -/
inductive HubAction
  | read (service : ServiceRef)
  | execute (service : ServiceRef)
  | raw

/-- The `uds:` block with what refers to it. -/
structure HubYaml where
  ecuName : Option Name := none
  allowActiveServices : Bool := false
  maxConsecutiveFailures : Nat := 3
  entities : List Entity := []
  actions : List HubAction := []
  /-- `max_message_size` of the transport. -/
  maxMessageSize : Nat := 256

/-- Why a hub is refused. -/
inductive HubError
  | resolve (e : ResolveError)
  | needsActiveServices
  | notSafeRead
  | messageSize

/-- The gate for one action, and the group that it adds. -/
def checkAction (ecu : Ecu) (allow : Bool) : HubAction → Except HubError (List Group)
  | .read service =>
    match resolveGroup ecu service with
    | .error e => .error (.resolve e)
    | .ok (g, _) => if g.safeRead then .ok [g] else .error .notSafeRead
  | .execute service =>
    if !allow then .error .needsActiveServices
    else
      match resolveGroup ecu service with
      | .error e => .error (.resolve e)
      | .ok (g, _) => .ok [g]
  | .raw => if allow then .ok [] else .error .needsActiveServices

def boundGroup (ecu : Ecu) (entity : Entity) : Except HubError Group :=
  match resolveField ecu entity.binding.field entity.binding.service entity.binding.element with
  | .error e => .error (.resolve e)
  | .ok ((g, _), _) => .ok g

/-- `_final_validate` for the only hub of a configuration. -/
def finalValidate (cat : Compiler.Catalog) (yaml : HubYaml) : Except HubError Unit :=
  match ecuOf cat yaml.ecuName with
  | .error e => .error (.resolve e)
  | .ok (ecu, _) => do
    let bound ← yaml.entities.mapM (boundGroup ecu)
    let used ← yaml.actions.mapM (checkAction ecu yaml.allowActiveServices)
    if (bound ++ used.flatten).any fun g => yaml.maxMessageSize < g.respMinLen then
      .error .messageSize
    else .ok ()

/-- The validation accepts the hub and each of its entities. -/
def HubYaml.accepted (yaml : HubYaml) (cat : Compiler.Catalog) : Bool :=
  (finalValidate cat yaml).isOk &&
    yaml.entities.all fun entity =>
      entity.binding.ecuName == yaml.ecuName && (bindingFinalValidate cat entity).isOk

/-! ## Code generation -/

/-- `register_binding`: what is emitted for an entity that was accepted. -/
def registerBinding (cat : Compiler.Catalog) (entity : Entity) : Option UdsBinding :=
  match bindingFinalValidate cat entity with
  | .error _ => none
  | .ok x => some { entity.binding.emitted x with intervalMs := entity.intervalMs }

/-- The bindings of the hub. -/
def emittedBindings (cat : Compiler.Catalog) (yaml : HubYaml) : List UdsBinding :=
  yaml.entities.filterMap (registerBinding cat)

/-- `_sizes`: a poll slot for each group that is polled, as the byte that is emitted. -/
def pollSlots (cat : Compiler.Catalog) (yaml : HubYaml) : Nat :=
  (((emittedBindings cat yaml).filter fun b => b.intervalMs ≠ intervalNever).map
    UdsBinding.groupName).eraseDups.length % 256

end EspCars.Uds.Config
