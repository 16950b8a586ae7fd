import EspCars.Uds.Accepted

/-!
# What the compiler's reader raises

`read_catalog` of `components/uds/catalog.py` once more, now with every exception that its calls can
end in: an unpacking behind the end, a subscript out of range, a NUL that is not there, and bytes
that are no UTF-8. Only the last of them happens; it is not one of the errors that the reader
promises, and the checks in the order in which they are made tell when.
-/

namespace EspCars.Uds.Compiler

open EspCars.Lib

/-- The exceptions that the reader lets through. -/
inductive Raised
  | formatError (e : ReadError)
  | structError
  | indexError
  | valueError
  | unicodeDecodeError
  deriving DecidableEq

/-- `if not p: raise FormatError` -/
def ensure (p : Prop) [Decidable p] (e : ReadError) : Except Raised Unit :=
  if p then .ok () else .error (.formatError e)

/-- `unpack_from`: the record, and what follows it. -/
def unpackFrom (size : Nat) (data : List UInt8) (off : Nat) : Except Raised (List UInt8) :=
  if off + size ≤ data.length then .ok (data.drop off) else .error .structError

/-- `xs[i]` -/
def subscript {α : Type} (xs : List α) (i : Nat) : Except Raised α :=
  match xs[i]? with
  | some x => .ok x
  | none => .error .indexError

/-- `data[start:stop]` -/
def slice (data : List UInt8) (start stop : Nat) : List UInt8 :=
  (data.drop start).take (stop - start)

/-- `data.index(0, start)` -/
def indexOfNul (data : List UInt8) (start : Nat) : Except Raised Nat :=
  match (data.drop start).findIdx? fun b => b = 0 with
  | some i => .ok (start + i)
  | none => .error .valueError

/-- `decode("utf-8")` -/
def decodeUtf8 (s : List UInt8) : Except Raised Name :=
  if utf8 s then .ok s else .error .unicodeDecodeError

namespace Raising

/-! ## The layout -/

def checkTable (table : Table) (off count size total : Nat) : Except Raised Unit :=
  if count = 0 then .ok ()
  else do
    ensure (off % 4 = 0) (.alignment table)
    ensure (catalogMinSize ≤ off ∧ off + count * size ≤ total) (.range table)

def checkLayout (data : List UInt8) : Except Raised Uds.Catalog := do
  ensure (catalogMinSize ≤ data.length) .length
  let header ← unpackFrom catalogMinSize data 0
  let c := Uds.Catalog.ofHeader header
  ensure (header.take 8 = magic) .magic
  ensure (loadU16 header 0x08 = catalogFormatVersion) .version
  ensure (catalogMinSize ≤ c.totalSize ∧ c.totalSize ≤ data.length) .totalSize
  checkTable .ecu c.ecusOff c.ecuCount ecuRecordSize c.totalSize
  checkTable .group c.groupsOff c.groupCount groupRecordSize c.totalSize
  checkTable .field c.fieldsOff c.fieldCount fieldRecordSize c.totalSize
  checkTable .scale c.scalesOff c.scaleCount scaleRecordSize c.totalSize
  checkTable .index c.indexOff c.indexCount indexRecordSize c.totalSize
  ensure (catalogMinSize ≤ c.reqbytesOff ∧ c.reqbytesOff + c.reqbytesLen ≤ c.totalSize)
    .requestPool
  ensure (catalogMinSize ≤ c.stringsOff ∧ c.stringsOff + c.stringsLen ≤ c.totalSize)
    .stringPool
  ensure (1 ≤ c.stringsLen) .noStrings
  let first ← subscript data c.stringsOff
  ensure (first.toNat = 0) .firstString
  let last ← subscript data (c.stringsOff + c.stringsLen - 1)
  ensure (last.toNat = 0) .lastString
  ensure ((crc32Ieee (slice data 64 c.totalSize)).toNat = c.crc) .crc
  return c

/-! ## Records -/

section Records

variable (c : Uds.Catalog)

def readStr (ref : Nat) : Except Raised Name := do
  ensure (ref < c.stringsLen) (.stringRef ref)
  let start := c.stringsOff + ref
  let stop ← indexOfNul c.base start
  decodeUtf8 (slice c.base start stop)

def readScale (i : Nat) : Except Raised Scale := do
  let r ← unpackFrom scaleRecordSize c.base (c.scalesOff + i * scaleRecordSize)
  let text ← readStr c (loadU32 r 0x10)
  return { low := loadI32 r 0x00
           high := loadI32 r 0x04
           factor := loadF32 r 0x08
           offset := loadF32 r 0x0C
           text := text
           invalid := (loadU16 r 0x14).testBit 1 }

def checkBits (i flags bitPos bitSize : Nat) : Except Raised Unit :=
  if flags.testBit 2 || flags.testBit 3 then do
    ensure (bitSize % 8 = 0 ∧ 8 ≤ bitSize ∧ bitSize ≤ maxBlockBits) (.blockSize i)
    ensure (bitPos % 8 = 0) (.blockAlignment i)
  else ensure (1 ≤ bitSize ∧ bitSize ≤ maxNumericBits) (.bitSize i)

def readField (scales : List Scale) (i : Nat) : Except Raised (Field × Nat) := do
  let r ← unpackFrom fieldRecordSize c.base (c.fieldsOff + i * fieldRecordSize)
  let bitPos := loadU16 r 0x08
  let bitSize := loadU8 r 0x0A
  let flags := loadU8 r 0x0B
  let scaleFirst := loadU16 r 0x0C
  let nScales := loadU8 r 0x0E
  let groupIndex := loadU16 r 0x12
  ensure (scaleFirst + nScales ≤ c.scaleCount) (.scaleRun i)
  ensure (groupIndex < c.groupCount) (.groupIndex i)
  checkBits i flags bitPos bitSize
  let name ← readStr c (loadU32 r 0x00)
  let unit ← readStr c (loadU32 r 0x04)
  return ({ name := name
            unit := unit
            bitPos := bitPos
            bitSize := bitSize
            signed := flags.testBit 0
            byteswap := flags.testBit 1
            ascii := flags.testBit 2
            hexdump := flags.testBit 3
            scales := (scales.drop scaleFirst).take nScales
            repeatCount := max (loadU8 r 0x0F) 1
            repeatStride := loadU16 r 0x10 }, groupIndex)

/-- The set of names that `group_aliases` holds for a group; only that it is there matters. -/
def aliasSet (idx : Nat) : Except Raised Unit :=
  if idx < c.groupCount then .ok () else .error .indexError

def readIndex (prev : Nat × Nat) : List Nat → Except Raised (List (Nat × Name))
  | [] => .ok []
  | i :: is => do
    let e ← unpackFrom indexRecordSize c.base (c.indexOff + i * indexRecordSize)
    let h := loadU32 e 0
    let target := loadU32 e 8
    ensure (¬(h < prev.1 ∨ h = prev.1 ∧ target < prev.2)) (.unsorted i)
    let name ← readStr c (loadU32 e 4)
    ensure ((fnv1a name).toNat = h) (.hash i)
    let kind := target / targetUnit
    let idx := target % targetUnit
    ensure (¬(kind = NameKind.ecu.toNat ∧ c.ecuCount ≤ idx)) (.target i)
    ensure (¬(kind = NameKind.group.toNat ∧ c.groupCount ≤ idx)) (.target i)
    (if kind = NameKind.group.toNat then aliasSet c idx else .ok ())
    ensure (¬(kind = NameKind.field.toNat ∧ c.fieldCount ≤ idx)) (.target i)
    let names ← readIndex (h, target) is
    return if kind = NameKind.group.toNat then (idx, name) :: names else names

/-- The loop over the run of a group: `n` fields from `first` on. -/
def checkOwner (fieldsGroup : List Nat) (i : Nat) : Nat → Nat → Except Raised Unit
  | _, 0 => .ok ()
  | first, n + 1 => do
    let g ← subscript fieldsGroup first
    ensure (g = i) (.fieldGroup first)
    checkOwner fieldsGroup i (first + 1) n

def readGroup (fields : List (Field × Nat)) (names : List (Nat × Name))
    (raw : List UInt8 × Nat) : Except Raised Group := do
  let r := raw.1
  let i := raw.2
  let reqOff := loadU32 r 0x04
  let reqLen := loadU8 r 0x08
  let flags := loadU16 r 0x0A
  let fieldFirst := loadU16 r 0x0C
  let nFields := loadU16 r 0x0E
  ensure (fieldFirst + nFields ≤ c.fieldCount) (.fieldRun i)
  ensure (c.reqbytesOff ≤ reqOff ∧ reqOff + reqLen ≤ c.reqbytesOff + c.reqbytesLen)
    (.requestBytes i)
  let request := slice c.base reqOff (reqOff + reqLen)
  ensure (1 ≤ reqLen) (.emptyRequest i)
  let first ← subscript request 0
  ensure (first.toNat = loadU8 r 0x09) (.sid i)
  let name ← readStr c (loadU32 r 0x00)
  aliasSet c i
  checkOwner (fields.map Prod.snd) i fieldFirst nFields
  return { name := name
           request := request
           fields := ((fields.drop fieldFirst).take nFields).map Prod.fst
           aliases := normalise name (namesOf names i)
           needsSession := flags.testBit 1
           needsSecurity := flags.testBit 2
           securityLevel := flags / 256 % 16 }

def readEcu (groups : List Group) (i : Nat) : Except Raised Ecu := do
  let r ← unpackFrom ecuRecordSize c.base (c.ecusOff + i * ecuRecordSize)
  let groupFirst := loadU16 r 0x14
  let nGroups := loadU16 r 0x16
  ensure (groupFirst + nGroups ≤ c.groupCount) (.groupRun i)
  let name ← readStr c (loadU32 r 0x00)
  return { name := name
           requestId := loadU32 r 0x04
           responseId := loadU32 r 0x08
           extendedId := (loadU16 r 0x0C).testBit 0
           blockSize := loadU8 r 0x0E
           stMinRaw := loadU8 r 0x0F
           p2Ms := loadU16 r 0x10
           p2ExtMs := loadU16 r 0x12
           groups := (groups.drop groupFirst).take nGroups }

/-- `raw_groups` -/
def rawGroups : Except Raised (List (List UInt8)) :=
  (List.range c.groupCount).mapM fun i =>
    unpackFrom groupRecordSize c.base (c.groupsOff + i * groupRecordSize)

end Records

def readCatalog (data : List UInt8) : Except Raised Catalog := do
  let c ← checkLayout data
  let scales ← (List.range c.scaleCount).mapM (readScale c)
  let fields ← (List.range c.fieldCount).mapM (readField c scales)
  let names ← readIndex c (0, 0) (List.range c.indexCount)
  let raws ← rawGroups c
  let groups ← raws.zipIdx.mapM (readGroup c fields names)
  let ecus ← (List.range c.ecuCount).mapM (readEcu c groups)
  return { ecus := ecus }

end Raising

/-! ## The two readers are one -/

/-- The exception of an error. -/
def raisedOf : ReadError → Raised
  | .utf8 _ => .unicodeDecodeError
  | e => .formatError e

/-- The reader without the exceptions that do not happen. -/
def raising {α : Type} (x : Except ReadError α) : Except Raised α := x.mapError raisedOf

section

variable {α β : Type}

@[simp] theorem raising_ok (a : α) : raising (.ok a) = .ok a := rfl

@[simp] theorem raising_pure (a : α) : raising (pure a) = .ok a := rfl

@[simp] theorem raising_bind (x : Except ReadError α) (f : α → Except ReadError β) :
    raising (x >>= f) = raising x >>= fun a => raising (f a) := by
  cases x <;> rfl

theorem raising_demand {p : Prop} [Decidable p] {e : ReadError} (h : raisedOf e = .formatError e) :
    raising (demand p e) = ensure p e := by
  unfold demand ensure
  split_ifs
  · rfl
  · exact congrArg Except.error h

theorem ok_bind {ε : Type} (a : α) (f : α → Except ε β) : Except.ok a >>= f = f a := rfl

/-- Up to here the two readers do the same, and if the check holds from here on too. -/
theorem raising_demand_bind {p : Prop} [Decidable p] {e : ReadError}
    {f : Unit → Except ReadError β} {g : Unit → Except Raised β}
    (h : raisedOf e = .formatError e) (hfg : p → raising (f ()) = g ()) :
    raising (demand p e >>= f) = ensure p e >>= g := by
  rw [raising_bind, raising_demand h]
  unfold ensure
  split_ifs with hp
  · exact hfg hp
  · rfl

theorem raising_bind_congr {x : Except ReadError α} {y : Except Raised α}
    {f : α → Except ReadError β} {g : α → Except Raised β} (h : raising x = y)
    (hfg : ∀ a, x = .ok a → raising (f a) = g a) : raising (x >>= f) = y >>= g := by
  subst h
  cases x with
  | ok a => exact hfg a rfl
  | error e => rfl

theorem raising_mapM {f : α → Except ReadError β} {g : α → Except Raised β} {xs : List α}
    (h : ∀ a ∈ xs, raising (f a) = g a) : raising (xs.mapM f) = xs.mapM g := by
  induction xs with
  | nil => rfl
  | cons a xs ih =>
    rw [List.mapM_cons, List.mapM_cons]
    refine raising_bind_congr (h a List.mem_cons_self) fun b _ => ?_
    refine raising_bind_congr (ih fun a' ha' => h a' (List.mem_cons_of_mem a ha')) fun bs _ => ?_
    rfl

end

theorem subscript_eq_ok {α : Type} {xs : List α} {i : Nat} {x : α} (h : xs[i]? = some x) :
    subscript xs i = .ok x := by
  rw [subscript, h]

/-- A byte inside the data is read. -/
theorem subscript_byte {data : List UInt8} {i : Nat} (h : i < data.length) :
    ∃ b, subscript data i = .ok b ∧ data[i]? = some b ∧ b.toNat = loadU8 data i := by
  refine ⟨data[i], subscript_eq_ok (List.getElem?_eq_getElem h), List.getElem?_eq_getElem h, ?_⟩
  rw [loadU8, List.drop_eq_getElem_cons h]
  simp [loadLe, List.getElem?_eq_getElem h]

theorem raising_checkTable {table : Table} {off count size total : Nat} :
    raising (checkTable table off count size total) =
      Raising.checkTable table off count size total := by
  unfold checkTable Raising.checkTable
  split_ifs
  · rfl
  · exact raising_demand_bind rfl fun _ => raising_demand rfl

theorem raising_checkLayout (data : List UInt8) :
    raising (checkLayout data) = Raising.checkLayout data := by
  unfold checkLayout Raising.checkLayout
  refine raising_demand_bind rfl fun hlength => ?_
  have hunpack : unpackFrom catalogMinSize data 0 = .ok data := by
    rw [unpackFrom, if_pos (by omega), List.drop_zero]
  rw [hunpack, ok_bind]
  refine raising_demand_bind rfl fun _ => ?_
  refine raising_demand_bind rfl fun _ => ?_
  refine raising_demand_bind rfl fun htotal => ?_
  refine raising_bind_congr raising_checkTable fun _ _ => ?_
  refine raising_bind_congr raising_checkTable fun _ _ => ?_
  refine raising_bind_congr raising_checkTable fun _ _ => ?_
  refine raising_bind_congr raising_checkTable fun _ _ => ?_
  refine raising_bind_congr raising_checkTable fun _ _ => ?_
  refine raising_demand_bind rfl fun _ => ?_
  refine raising_demand_bind rfl fun hstrings => ?_
  refine raising_demand_bind rfl fun hsome => ?_
  obtain ⟨first, hfirst, -, hfirstByte⟩ :=
    @subscript_byte data (Uds.Catalog.ofHeader data).stringsOff (by omega)
  obtain ⟨last, hlast, -, hlastByte⟩ :=
    @subscript_byte data ((Uds.Catalog.ofHeader data).stringsOff +
      (Uds.Catalog.ofHeader data).stringsLen - 1) (by omega)
  rw [hfirst, hlast, ok_bind, hfirstByte]
  refine raising_demand_bind rfl fun _ => ?_
  rw [ok_bind, hlastByte]
  refine raising_demand_bind rfl fun _ => ?_
  have hslice : slice data 64 (Uds.Catalog.ofHeader data).totalSize =
      (data.take (Uds.Catalog.ofHeader data).totalSize).drop 64 := by
    rw [slice, List.drop_take]
  rw [hslice]
  refine raising_demand_bind rfl fun _ => rfl

/-! ## What the layout is good for -/

/-- What is known of a catalog behind the checks of its layout. -/
structure Laid (c : Uds.Catalog) : Prop where
  total : c.totalSize ≤ c.base.length
  tables : c.tablesOk = true
  requests : c.reqbytesOff + c.reqbytesLen ≤ c.totalSize
  strings : c.stringsOff + c.stringsLen ≤ c.totalSize
  nul : loadU8 c.base (c.stringsOff + c.stringsLen - 1) = 0

theorem laid_of_checkLayout {data : List UInt8} {c : Uds.Catalog}
    (h : checkLayout data = .ok c) : Laid c := by
  unfold checkLayout at h
  simp only [demand_bind_eq_ok, checkTable_bind_eq_ok] at h
  obtain ⟨-, -, -, htotal, hecus, hgroups, hfields, hscales, hindex, hrequests, hstrings, -, -,
    hlast, -, h⟩ := h
  cases h
  exact
    { total := htotal.2
      tables := tablesOk_iff.mpr ⟨hecus, hgroups, hfields, hscales, hindex⟩
      requests := hrequests.2
      strings := hstrings.2
      nul := hlast }

section

variable {c : Uds.Catalog} (hc : Laid c)

include hc

variable {i : Nat} {fields : List (Field × Nat)}

/-- Every record of a table is inside the data. -/
theorem unpackFrom_record {off count size : Nat}
    (htable : Uds.Catalog.tableOk off count size c.totalSize = true) (hi : i < count) :
    unpackFrom size c.base (off + i * size) = .ok (c.base.drop (off + i * size)) := by
  have htotal := hc.total
  unfold Uds.Catalog.tableOk at htable
  rw [decide_eq_true_iff] at htable
  have hend := (htable.resolve_left (by omega)).2.2
  have hrow : (i + 1) * size ≤ count * size := Nat.mul_le_mul_right size hi
  rw [Nat.add_one_mul] at hrow
  rw [unpackFrom, if_pos (by omega)]

/-- The NUL at the end of the pool ends every string of it. -/
theorem raising_readStr (ref : Nat) : raising (readStr c ref) = Raising.readStr c ref := by
  unfold readStr Raising.readStr
  refine raising_demand_bind rfl fun href => ?_
  have htotal := hc.total
  have hstrings := hc.strings
  dsimp only
  set s := c.base.drop (c.stringsOff + ref) with hs
  have hnul : ∃ x ∈ s, (fun b => decide (b = 0)) x = true := by
    obtain ⟨b, -, hget, hbyte⟩ :=
      @subscript_byte c.base (c.stringsOff + c.stringsLen - 1) (by omega)
    rw [hc.nul] at hbyte
    refine ⟨b, ?_, decide_eq_true (UInt8.toNat_inj.mp hbyte)⟩
    apply List.mem_of_getElem? (i := c.stringsLen - 1 - ref)
    rw [hs, List.getElem?_drop, ← hget]
    congr 1
    omega
  have hindex : indexOfNul c.base (c.stringsOff + ref) =
      .ok (c.stringsOff + ref + s.findIdx fun b => decide (b = 0)) := by
    rw [indexOfNul, List.findIdx?_eq_some_of_exists hnul]
  have hslice : slice c.base (c.stringsOff + ref)
      (c.stringsOff + ref + s.findIdx fun b => decide (b = 0)) = cstr s := by
    rw [slice, Nat.add_sub_cancel_left, cstr, List.takeWhile_eq_take_findIdx_not]
    simp [hs]
  rw [hindex, ok_bind, hslice, decodeUtf8]
  unfold demand
  split_ifs <;> rfl

theorem raising_readScale (hi : i < c.scaleCount) :
    raising (readScale c i) = Raising.readScale c i := by
  unfold readScale Raising.readScale
  rw [unpackFrom_record hc (tablesOk_iff.mp hc.tables).2.2.2.1 hi, ok_bind]
  exact raising_bind_congr (raising_readStr hc _) fun _ _ => rfl

omit hc in
theorem raising_checkBits {flags bitPos bitSize : Nat} :
    raising (checkBits i flags bitPos bitSize) = Raising.checkBits i flags bitPos bitSize := by
  unfold checkBits Raising.checkBits
  split_ifs
  · exact raising_demand_bind rfl fun _ => raising_demand rfl
  · exact raising_demand rfl

theorem raising_readField (scales : List Scale) (hi : i < c.fieldCount) :
    raising (readField c scales i) = Raising.readField c scales i := by
  unfold readField Raising.readField
  rw [unpackFrom_record hc (tablesOk_iff.mp hc.tables).2.2.1 hi, ok_bind]
  refine raising_demand_bind rfl fun _ => ?_
  refine raising_demand_bind rfl fun _ => ?_
  refine raising_bind_congr raising_checkBits fun _ _ => ?_
  refine raising_bind_congr (raising_readStr hc _) fun _ _ => ?_
  exact raising_bind_congr (raising_readStr hc _) fun _ _ => rfl

theorem raising_readIndex {is : List Nat} (his : ∀ i ∈ is, i < c.indexCount)
    (prev : Nat × Nat) : raising (readIndex c prev is) = Raising.readIndex c prev is := by
  induction is generalizing prev with
  | nil => rfl
  | cons i is ih =>
    unfold readIndex Raising.readIndex
    rw [unpackFrom_record hc (tablesOk_iff.mp hc.tables).2.2.2.2 (his i List.mem_cons_self),
      ok_bind]
    refine raising_demand_bind rfl fun _ => ?_
    refine raising_bind_congr (raising_readStr hc _) fun _ _ => ?_
    refine raising_demand_bind rfl fun _ => ?_
    refine raising_demand_bind rfl fun _ => ?_
    refine raising_demand_bind rfl fun hgroup => ?_
    -- the set of names is looked up only behind the check of its index
    rw [not_and, Nat.not_le] at hgroup
    have hset : ∀ kind idx : Nat, (kind = NameKind.group.toNat → idx < c.groupCount) →
        (if kind = NameKind.group.toNat then Raising.aliasSet c idx else .ok ()) = .ok () := by
      intro kind idx hidx
      split_ifs with hkind
      · exact if_pos (hidx hkind)
      · rfl
    rw [hset _ _ hgroup]
    refine raising_demand_bind rfl fun _ => ?_
    exact raising_bind_congr (ih (fun i hi => his i (List.mem_cons_of_mem _ hi)) _) fun _ _ => rfl

omit hc in
theorem raising_checkOwner {first n : Nat} (hn : first + n ≤ fields.length) :
    raising (checkOwner i first ((fields.drop first).take n)) =
      Raising.checkOwner (fields.map Prod.snd) i first n := by
  induction n generalizing first with
  | zero => simp [checkOwner, Raising.checkOwner]
  | succ n ih =>
    have hfirst : first < fields.length := by omega
    rw [List.drop_eq_getElem_cons hfirst, List.take_succ_cons, Raising.checkOwner,
      subscript_eq_ok (x := fields[first].2) (by simp [hfirst]), ok_bind, ← ih (by omega)]
    unfold checkOwner ensure
    rw [List.findIdx?_cons]
    by_cases howner : fields[first].2 = i
    · rw [if_pos howner]
      simp only [howner, ne_eq, not_true, decide_false, Bool.false_eq_true, if_false]
      cases ((fields.drop (first + 1)).take n).findIdx? fun f => decide ¬f.2 = i with
      | none => rfl
      | some j =>
        rw [Option.map_some]
        dsimp only
        rw [show first + (j + 1) = first + 1 + j by omega]
        rfl
    · rw [if_neg howner]
      simp only [howner, ne_eq, not_false_iff, decide_true, if_true]
      rfl

theorem raising_readGroup (hfields : fields.length = c.fieldCount)
    (names : List (Nat × Name)) (hi : i < c.groupCount) :
    raising (readGroup c fields names i) = Raising.readGroup c fields names
      (c.base.drop (c.groupsOff + i * groupRecordSize), i) := by
  unfold readGroup Raising.readGroup
  refine raising_demand_bind rfl fun hrun => ?_
  refine raising_demand_bind rfl fun hrequest => ?_
  refine raising_demand_bind rfl fun hlen => ?_
  have htotal := hc.total
  have hrequests := hc.requests
  dsimp only
  set r := c.base.drop (c.groupsOff + i * groupRecordSize)
  have hslice : slice c.base (loadU32 r 4) (loadU32 r 4 + loadU8 r 8) =
      (c.base.drop (loadU32 r 4)).take (loadU8 r 8) := by
    rw [slice, Nat.add_sub_cancel_left]
  rw [hslice]
  have hfirst : 0 < ((c.base.drop (loadU32 r 4)).take (loadU8 r 8)).length := by
    rw [List.length_take, List.length_drop]
    omega
  have hhead : ((c.base.drop (loadU32 r 4)).take (loadU8 r 8))[0]? =
      some (((c.base.drop (loadU32 r 4)).take (loadU8 r 8)).headD 0) := by
    rw [List.getElem?_eq_getElem hfirst, List.headD_eq_head?_getD, List.head?_eq_getElem?,
      List.getElem?_eq_getElem hfirst, Option.getD_some]
  rw [subscript_eq_ok hhead, ok_bind]
  refine raising_demand_bind rfl fun _ => ?_
  refine raising_bind_congr (raising_readStr hc _) fun _ _ => ?_
  rw [Raising.aliasSet, if_pos hi, ok_bind]
  exact raising_bind_congr (raising_checkOwner (by omega)) fun _ _ => rfl

theorem rawGroups_eq : Raising.rawGroups c = .ok ((List.range c.groupCount).map fun i =>
    c.base.drop (c.groupsOff + i * groupRecordSize)) := by
  unfold Raising.rawGroups
  have hmap : ∀ is : List Nat, (∀ i ∈ is, i < c.groupCount) →
      (is.mapM fun i => unpackFrom groupRecordSize c.base (c.groupsOff + i * groupRecordSize)) =
        .ok (is.map fun i => c.base.drop (c.groupsOff + i * groupRecordSize)) := by
    intro is his
    induction is with
    | nil => rfl
    | cons i is ih =>
      rw [List.mapM_cons, unpackFrom_record hc (tablesOk_iff.mp hc.tables).2.1
        (his i List.mem_cons_self), ok_bind, ih fun i hi => his i (List.mem_cons_of_mem _ hi)]
      rfl
  exact hmap _ fun i hi => List.mem_range.mp hi

theorem raising_readEcu (groups : List Group) (hi : i < c.ecuCount) :
    raising (readEcu c groups i) = Raising.readEcu c groups i := by
  unfold readEcu Raising.readEcu
  rw [unpackFrom_record hc (tablesOk_iff.mp hc.tables).1 hi, ok_bind]
  refine raising_demand_bind rfl fun _ => ?_
  exact raising_bind_congr (raising_readStr hc _) fun _ _ => rfl

theorem raising_readGroups (hfields : fields.length = c.fieldCount)
    (names : List (Nat × Name)) : raising (readGroups c fields names) =
      ((List.range c.groupCount).map fun i =>
        c.base.drop (c.groupsOff + i * groupRecordSize)).zipIdx.mapM
        (Raising.readGroup c fields names) := by
  have hzip : ((List.range c.groupCount).map fun i =>
      c.base.drop (c.groupsOff + i * groupRecordSize)).zipIdx =
      (List.range c.groupCount).map fun i =>
        (c.base.drop (c.groupsOff + i * groupRecordSize), i) := by
    apply List.ext_getElem
    · simp
    · intro i hi hi'
      simp
  rw [readGroups, hzip, List.mapM_map]
  exact raising_mapM fun i hi => raising_readGroup hc hfields names (List.mem_range.mp hi)

end

/-- No exception but the ones of the reader and of a decoding is raised. -/
theorem raising_readCatalog (data : List UInt8) :
    raising (readCatalog data) = Raising.readCatalog data := by
  unfold readCatalog Raising.readCatalog
  refine raising_bind_congr (raising_checkLayout data) fun c hlayout => ?_
  have hc := laid_of_checkLayout hlayout
  refine raising_bind_congr
    (raising_mapM fun i hi => raising_readScale hc (List.mem_range.mp hi)) fun scales _ => ?_
  refine raising_bind_congr
    (raising_mapM fun i hi => raising_readField hc scales (List.mem_range.mp hi))
    fun fields hfields => ?_
  refine raising_bind_congr
    (raising_readIndex hc (fun i hi => List.mem_range.mp hi) (0, 0)) fun names _ => ?_
  rw [rawGroups_eq hc, ok_bind]
  refine raising_bind_congr
    (raising_readGroups hc (mapM_range_eq_ok.mp hfields).1 names) fun groups _ => ?_
  exact raising_bind_congr
    (raising_mapM fun i hi => raising_readEcu hc groups (List.mem_range.mp hi)) fun _ _ => rfl

end EspCars.Uds.Compiler
