import EspCars.Lib.Fallible
import EspCars.Lib.Json
import EspCars.Uds.Compiler

/-!
# Arrays and names

What `script/uds_catalog.py` makes of the fields of a group: `_find_array_runs` and
`_collapse_arrays` fold runs of equal fields into one record each, and `_assign_unique_names` tells
the records apart. A field goes with the qualifier of the service that it comes from. The decimal
digits of Python's `\d` and `int` are parameters; the texts of the warnings, and of why a field was
renamed, are left out.
-/

namespace EspCars.Uds.Compiler

open EspCars.Lib

/-- A `str`. -/
abbrev Qualifier := List Char

/-- A field and its service. -/
abbrev Item := Field × Qualifier

/-- Why the compiler gives up. -/
inductive CompileError
  | arrayTooLong (name : Name) (count : Nat)
  | nameTaken (group name : Name)
  | namesCollide (group : Name)
  deriving DecidableEq

/-! ## Runs -/

section

variable (isDigit : Char → Bool) (digitValue : Char → Nat)

/-- `re.sub(r"_?\d+", "", qualifier)` -/
def stripNumbers : Qualifier → Qualifier
  | [] => []
  | c :: s =>
    if isDigit c || c = '_' && s.head?.any isDigit then stripNumbers s else c :: stripNumbers s

/-- The last number in a qualifier. -/
def trailingIndex (qualifier : Qualifier) : Option Nat :=
  let digits := ((qualifier.reverse.dropWhile fun c => !isDigit c).takeWhile isDigit).reverse
  if digits = [] then none else some (digits.foldl (fun v c => 10 * v + digitValue c) 0)

/-- How many of the numbers are the ordinals from `base` on. -/
def ordinals (idx : List (Option Nat)) (base : Nat) : Nat :=
  idx.zipIdx.countP fun p => p.1 = some (p.2 + base)

def readsAsIndices (services : List Qualifier) : Bool :=
  let idx := services.map (trailingIndex isDigit digitValue)
  services.length < max (ordinals idx 0) (ordinals idx 1) * 2

/-- `==` of two rows. -/
def Scale.same (a b : Scale) : Bool :=
  a.low = b.low && a.high = b.high && a.factor.eq b.factor && a.offset.eq b.offset &&
    a.text = b.text && a.invalid = b.invalid

/-- `==` of two tuples of rows. -/
def sameScales : List Scale → List Scale → Bool
  | [], [] => true
  | a :: as, b :: bs => a.same b && sameScales as bs
  | _, _ => false

/-- `_same_shape` -/
def sameShape (a b : Field) : Bool :=
  a.name = b.name && a.bitSize = b.bitSize && a.unit = b.unit && a.signed = b.signed &&
    a.byteswap = b.byteswap && a.ascii = b.ascii && a.hexdump = b.hexdump &&
    sameScales a.scales b.scales

/-- Elements at equal distances. -/
structure ArrayRun where
  start : Nat
  count : Nat
  stride : Nat
  deriving DecidableEq, Repr

variable (items : List Item)

/-- The inner loop: how far a run reaches that holds up to `j`, and its stride. -/
def extendRun : Nat → Nat → Option Nat → Nat × Option Nat
  | 0, j, stride => (j, stride)
  | fuel + 1, j, stride =>
    match items[j - 1]?, items[j]? with
    | some prev, some cur =>
      if !sameShape prev.1 cur.1 then (j, stride)
      else if stripNumbers isDigit cur.2 ≠ stripNumbers isDigit prev.2 then (j, stride)
      -- `step < cur.bit_size`, where the step may be negative
      else if cur.1.bitPos < prev.1.bitPos + cur.1.bitSize then (j, stride)
      else
        let step := cur.1.bitPos - prev.1.bitPos
        match stride with
        | none => extendRun fuel (j + 1) (some step)
        | some s => if step ≠ s then (j, stride) else extendRun fuel (j + 1) stride
    | _, _ => (j, stride)

/-- The outer loop from `i` on. -/
def findArrayRuns : Nat → Nat → List ArrayRun
  | 0, _ => []
  | fuel + 1, i =>
    if i < items.length then
      let (j, stride) := extendRun isDigit items items.length (i + 1) none
      let count := j - i
      if 3 ≤ count ∧
          readsAsIndices isDigit digitValue (((items.drop i).take count).map Prod.snd) then
        { start := i, count := count, stride := stride.getD 0 } :: findArrayRuns fuel j
      else findArrayRuns fuel (i + 1)
    else []

/-! ## `_collapse_arrays` -/

/-- What is noted of an array. -/
structure ArrayInfo where
  count : Nat
  stride : Nat
  firstService : Qualifier
  lastService : Qualifier
  deriving DecidableEq

/-- The loop from field `i` and record `out` on. -/
def collapseFrom (runs : List ArrayRun) :
    Nat → Nat → Nat → Except CompileError (List Item × List (Nat × ArrayInfo))
  | 0, _, _ => .ok ([], [])
  | fuel + 1, i, out =>
    match items[i]? with
    | none => .ok ([], [])
    | some (base, service) =>
      match runs.find? fun run => run.start = i with
      | some run =>
        if maxRepeatCount < run.count then .error (.arrayTooLong base.name run.count)
        else do
          let (rest, info) ← collapseFrom runs fuel (i + run.count) (out + 1)
          let array : ArrayInfo :=
            { count := run.count
              stride := run.stride
              firstService := service
              lastService := (items[i + run.count - 1]?.map Prod.snd).getD [] }
          return (({ base with repeatCount := run.count, repeatStride := run.stride },
            stripNumbers isDigit service) :: rest, (out, array) :: info)
      | none => do
        let (rest, info) ← collapseFrom runs fuel (i + 1) (out + 1)
        return ((base, service) :: rest, info)

/-- `_collapse_arrays` -/
def collapseArrays : Except CompileError (List Item × List (Nat × ArrayInfo)) :=
  let runs := findArrayRuns isDigit digitValue items items.length 0
  if runs = [] then .ok (items, []) else collapseFrom isDigit items runs items.length 0 0

end

/-! ## `_assign_unique_names` -/

/-- Which rule gave a field its name. -/
inductive NameRule
  | presentation | service | position
  deriving DecidableEq

/-- What is noted of the name of a field. -/
structure NameNote where
  rule : NameRule := .presentation
  wouldHaveBeen : Option Name := none
  array : Option ArrayInfo := none
  deriving DecidableEq

/-- A field, its service, its name if it has been chosen, and the note about it. -/
structure NameSlot where
  field : Field
  service : Qualifier
  chosen : Option Name := none
  note : NameNote := {}

/-- A qualifier as a name of the catalog. -/
def encodeQualifier (s : Qualifier) : Name := s.flatMap fun c => Json.encodePoint c.toNat

/-- Rule (a): the presentation qualifier if no other field has it. -/
def byPresentation (items : List Item) : List NameSlot :=
  items.map fun item =>
    { field := item.1
      service := item.2
      chosen := if items.countP (fun other => other.1.name = item.1.name) = 1 then
        some item.1.name else none }

/-- Names are equal if their bytes are. -/
local instance : LawfulBEq Name := inferInstance

/-- Rule (b): the service qualifier; `count` is how often it occurs among the fields without a
name. -/
def byService (count : Qualifier → Nat) (taken : List Name) :
    List NameSlot → List NameSlot × List Name
  | [] => ([], taken)
  | s :: slots =>
    let cand := encodeQualifier s.service
    if s.chosen = none ∧ s.service ≠ [] ∧ count s.service = 1 ∧ cand ∉ taken then
      let (rest, taken) := byService count (cand :: taken) slots
      ({ s with chosen := some cand
                note := { rule := .service, wouldHaveBeen := some s.field.name } } :: rest, taken)
    else
      let (rest, taken) := byService count taken slots
      (s :: rest, taken)

/-- Rule (c): the presentation qualifier and the position. -/
def byPosition (group : Name) (taken : List Name) :
    List NameSlot → Except CompileError (List NameSlot)
  | [] => .ok []
  | s :: slots =>
    match s.chosen with
    | some _ => do
      let rest ← byPosition group taken slots
      return s :: rest
    | none => do
      let cand := s.field.name ++ ascii "@" ++ decText (s.field.bitPos / 8) ++ ascii "." ++
        decText (s.field.bitPos % 8)
      if cand ∈ taken then .error (.nameTaken group cand)
      else
        let rest ← byPosition group (cand :: taken) slots
        return { s with chosen := some cand
                        note := { rule := .position, wouldHaveBeen := some s.field.name } } :: rest

/-- `_assign_unique_names` -/
def assignUniqueNames (group : Name) (items : List Item) (arrays : List (Nat × ArrayInfo)) :
    Except CompileError (List Field × List NameNote) := do
  let first := byPresentation items
  let taken := (first.filterMap NameSlot.chosen).filter (· ≠ [])
  let pending := (first.filter fun s => s.chosen = none).map NameSlot.service
  let (second, taken) := byService (fun q => pending.count q) taken first
  let slots ← byPosition group taken second
  let renamed := slots.map fun s => { s.field with name := s.chosen.getD [] }
  let notes := slots.zipIdx.map fun p =>
    { p.1.note with array := (arrays.find? fun a => a.1 = p.2).map Prod.snd }
  if (renamed.map Field.name).Nodup then return (renamed, notes)
  else .error (.namesCollide group)

end EspCars.Uds.Compiler
