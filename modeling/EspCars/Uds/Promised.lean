import EspCars.Uds.Raises

/-!
# When the reader fails as promised

`read_catalog` promises `FormatError` and nothing else, but a string that is no UTF-8 escapes as
what the codec raises. The records are checked one after the other; which exception comes out is
decided by the first check that fails.
-/

namespace EspCars.Uds.Compiler

open EspCars.Lib

/-- A check of a record: whether it holds, and whether it is the decoding of a string. -/
structure Check where
  holds : Bool
  decodes : Bool := false
  deriving DecidableEq, Repr

/-- The first check that fails. -/
def firstFailing (checks : List Check) : Option Check := checks.find? fun k => !k.holds

theorem firstFailing_append (l l' : List Check) :
    firstFailing (l ++ l') = (firstFailing l).or (firstFailing l') := List.find?_append

/-! ## The checks of the records, in their order -/

section

variable (c : Uds.Catalog)

def strChecks (ref : Nat) : List Check :=
  [{ holds := ref < c.stringsLen },
    { holds := utf8 (cstr (c.base.drop (c.stringsOff + ref))), decodes := true }]

/-- The checks of a row. -/
def scaleChecks (i : Nat) : List Check :=
  strChecks c (loadU32 (c.base.drop (c.scalesOff + i * scaleRecordSize)) 0x10)

/-- What is demanded of the geometry of a field. -/
def BitsOk (flags bitPos bitSize : Nat) : Prop :=
  if flags.testBit 2 || flags.testBit 3 then
    (bitSize % 8 = 0 ∧ 8 ≤ bitSize ∧ bitSize ≤ maxBlockBits) ∧ bitPos % 8 = 0
  else 1 ≤ bitSize ∧ bitSize ≤ maxNumericBits

instance (flags bitPos bitSize : Nat) : Decidable (BitsOk flags bitPos bitSize) :=
  inferInstanceAs (Decidable (ite ..))

/-- The checks of a field. -/
def fieldChecks (i : Nat) : List Check :=
  let r := c.base.drop (c.fieldsOff + i * fieldRecordSize)
  [{ holds := loadU16 r 0x0C + loadU8 r 0x0E ≤ c.scaleCount },
    { holds := loadU16 r 0x12 < c.groupCount },
    { holds := BitsOk (loadU8 r 0x0B) (loadU16 r 0x08) (loadU8 r 0x0A) }] ++
    (strChecks c (loadU32 r 0x00) ++ strChecks c (loadU32 r 0x04))

/-- Hash and target of an index entry. -/
def entryKey (i : Nat) : Nat × Nat :=
  let e := c.base.drop (c.indexOff + i * indexRecordSize)
  (loadU32 e 0, loadU32 e 8)

/-- The checks of entry `i` behind one with hash and target `prev`. -/
def entryChecks (prev : Nat × Nat) (i : Nat) : List Check :=
  let e := c.base.drop (c.indexOff + i * indexRecordSize)
  let h := loadU32 e 0
  let target := loadU32 e 8
  let kind := target / targetUnit
  let idx := target % targetUnit
  [{ holds := ¬(h < prev.1 ∨ h = prev.1 ∧ target < prev.2) }] ++
    (strChecks c (loadU32 e 4) ++
      [{ holds := (fnv1a (cstr (c.base.drop (c.stringsOff + loadU32 e 4)))).toNat = h },
        { holds := ¬(kind = NameKind.ecu.toNat ∧ c.ecuCount ≤ idx) },
        { holds := ¬(kind = NameKind.group.toNat ∧ c.groupCount ≤ idx) },
        { holds := ¬(kind = NameKind.field.toNat ∧ c.fieldCount ≤ idx) }])

def indexChecks (prev : Nat × Nat) : List Nat → List Check
  | [] => []
  | i :: is => entryChecks c prev i ++ indexChecks (entryKey c i) is

/-- The group that a field says it belongs to. -/
def fieldGroup (i : Nat) : Nat :=
  loadU16 (c.base.drop (c.fieldsOff + i * fieldRecordSize)) 0x12

/-- The checks of a group. -/
def groupChecks (i : Nat) : List Check :=
  let r := c.base.drop (c.groupsOff + i * groupRecordSize)
  let fieldFirst := loadU16 r 0x0C
  let nFields := loadU16 r 0x0E
  [{ holds := fieldFirst + nFields ≤ c.fieldCount },
    { holds := c.reqbytesOff ≤ loadU32 r 0x04 ∧
        loadU32 r 0x04 + loadU8 r 0x08 ≤ c.reqbytesOff + c.reqbytesLen },
    { holds := 1 ≤ loadU8 r 0x08 },
    { holds := loadU8 c.base (loadU32 r 0x04) = loadU8 r 0x09 }] ++
    (strChecks c (loadU32 r 0x00) ++
      [{ holds := ∀ k ∈ List.range' fieldFirst nFields, fieldGroup c k = i }])

/-- The checks of an ECU. -/
def ecuChecks (i : Nat) : List Check :=
  let r := c.base.drop (c.ecusOff + i * ecuRecordSize)
  [{ holds := loadU16 r 0x14 + loadU16 r 0x16 ≤ c.groupCount }] ++ strChecks c (loadU32 r 0x00)

/-- Every check behind those of the layout. -/
def recordChecks : List Check :=
  (List.range c.scaleCount).flatMap (scaleChecks c) ++
    ((List.range c.fieldCount).flatMap (fieldChecks c) ++
      (indexChecks c (0, 0) (List.range c.indexCount) ++
        ((List.range c.groupCount).flatMap (groupChecks c) ++
          (List.range c.ecuCount).flatMap (ecuChecks c))))

end

/-! ## A reader and its checks -/

/-- The checks of a reader: it answers if they all hold, and otherwise the first that fails says
whether it is a decoding that fails. -/
def Decides {α : Type} (checks : List Check) : Except ReadError α → Prop
  | .ok _ => firstFailing checks = none
  | .error e => ∃ k, firstFailing checks = some k ∧
      (k.decodes = true ↔ raisedOf e = .unicodeDecodeError)

section

variable {α β : Type} {l l' : List Check}

theorem Decides.pure (a : α) : Decides [] (.ok a) := rfl

theorem Decides.bind {x : Except ReadError α} {f : α → Except ReadError β} (h : Decides l x)
    (hf : ∀ a, x = .ok a → Decides l' (f a)) : Decides (l ++ l') (x >>= f) := by
  cases x with
  | error e =>
    obtain ⟨k, hk, hdecodes⟩ := h
    exact ⟨k, by rw [firstFailing_append, hk, Option.some_or], hdecodes⟩
  | ok a =>
    have hnone : firstFailing l = none := h
    have hnext := hf a rfl
    have hsame : firstFailing (l ++ l') = firstFailing l' := by
      rw [firstFailing_append, hnone, Option.none_or]
    rw [ok_bind]
    unfold Decides at hnext ⊢
    rwa [hsame]

/-- The last step of a reader makes no check. -/
theorem Decides.map {x : Except ReadError α} {f : α → β} (h : Decides l x) :
    Decides l (x >>= fun a => .ok (f a)) := by
  have hbind := @Decides.bind _ _ _ [] _ _ h fun a _ => Decides.pure (f a)
  rwa [List.append_nil] at hbind

theorem decides_demand {p : Prop} [Decidable p] {e : ReadError} {k : Check} (hp : k.holds = decide p)
    (he : k.decodes = true ↔ raisedOf e = .unicodeDecodeError) : Decides [k] (demand p e) := by
  unfold demand
  split_ifs with h
  · simp [Decides, firstFailing, hp, h]
  · exact ⟨k, by simp [firstFailing, hp, h], he⟩

/-- A check in front of the rest. -/
theorem decides_demand_bind {p : Prop} [Decidable p] {e : ReadError} {k : Check}
    {f : Unit → Except ReadError β} (hp : k.holds = decide p)
    (he : k.decodes = true ↔ raisedOf e = .unicodeDecodeError) (hf : p → Decides l (f ())) :
    Decides (k :: l) (demand p e >>= f) :=
  (decides_demand hp he).bind fun _ h => hf (demand_eq_ok.mp h)

theorem decides_mapM {f : α → Except ReadError β} {checks : α → List Check} {xs : List α}
    (h : ∀ a ∈ xs, Decides (checks a) (f a)) : Decides (xs.flatMap checks) (xs.mapM f) := by
  induction xs with
  | nil => exact Decides.pure []
  | cons a xs ih =>
    rw [List.flatMap_cons, List.mapM_cons]
    refine (h a List.mem_cons_self).bind fun b _ => ?_
    exact (ih fun a' ha' => h a' (List.mem_cons_of_mem a ha')).map

end

section

variable (c : Uds.Catalog)

theorem decides_readStr (ref : Nat) : Decides (strChecks c ref) (readStr c ref) := by
  unfold readStr strChecks
  refine decides_demand_bind rfl (by simp [raisedOf]) fun _ => ?_
  exact (decides_demand (by simp) (by simp [raisedOf])).map

theorem decides_readScale (i : Nat) : Decides (scaleChecks c i) (readScale c i) :=
  (decides_readStr c _).map

theorem decides_checkBits (i flags bitPos bitSize : Nat) :
    Decides [{ holds := BitsOk flags bitPos bitSize }] (checkBits i flags bitPos bitSize) := by
  unfold checkBits
  split_ifs with hblock
  · by_cases hsize : bitSize % 8 = 0 ∧ 8 ≤ bitSize ∧ bitSize ≤ maxBlockBits
    · rw [demand, if_pos hsize, ok_bind]
      apply decides_demand
      · simp [BitsOk, hblock, hsize]
      · simp [raisedOf]
    · rw [demand, if_neg hsize]
      exact ⟨{ holds := BitsOk flags bitPos bitSize },
        by simp [firstFailing, BitsOk, hblock, hsize], by simp [raisedOf]⟩
  · apply decides_demand
    · simp [BitsOk, hblock]
    · simp [raisedOf]

theorem decides_readField (scales : List Scale) (i : Nat) :
    Decides (fieldChecks c i) (readField c scales i) := by
  unfold readField fieldChecks
  refine decides_demand_bind rfl (by simp [raisedOf]) fun _ => ?_
  refine decides_demand_bind rfl (by simp [raisedOf]) fun _ => ?_
  refine (decides_checkBits ..).bind fun _ _ => ?_
  refine (decides_readStr c _).bind fun _ _ => ?_
  exact (decides_readStr c _).map

theorem readField_snd {scales : List Scale} {i : Nat} {f : Field × Nat}
    (h : readField c scales i = .ok f) : f.2 = fieldGroup c i := by
  unfold readField at h
  simp only [demand_bind_eq_ok] at h
  obtain ⟨-, -, h⟩ := h
  obtain ⟨_, -, h⟩ := bind_eq_ok.mp h
  obtain ⟨_, -, h⟩ := bind_eq_ok.mp h
  obtain ⟨_, -, h⟩ := bind_eq_ok.mp h
  cases h
  rfl

theorem decides_readIndex (prev : Nat × Nat) (is : List Nat) :
    Decides (indexChecks c prev is) (readIndex c prev is) := by
  induction is generalizing prev with
  | nil => exact Decides.pure []
  | cons i is ih =>
    unfold readIndex indexChecks entryChecks
    rw [List.append_assoc, List.append_assoc]
    refine decides_demand_bind rfl (by simp [raisedOf]) fun _ => ?_
    refine (decides_readStr c _).bind fun name hname => ?_
    obtain ⟨href, -, rfl⟩ := readStr_eq_ok.mp hname
    rw [Uds.Catalog.string, if_neg (Nat.not_le.mpr href)]
    generalize fnv1a _ = hash
    refine decides_demand_bind (by dsimp only) (by simp [raisedOf]) fun _ => ?_
    refine decides_demand_bind rfl (by simp [raisedOf]) fun _ => ?_
    refine decides_demand_bind rfl (by simp [raisedOf]) fun _ => ?_
    refine decides_demand_bind rfl (by simp [raisedOf]) fun _ => ?_
    exact (ih _).map

variable {c} {fields : List (Field × Nat)}

/-- The owner that a field names is the number in its record. -/
theorem decides_checkOwner {k : Check} {i first n : Nat} (hdecodes : k.decodes = false)
    (hfields : ∀ j f, fields[j]? = some f → f.2 = fieldGroup c j)
    (hn : first + n ≤ fields.length)
    (hholds : k.holds = decide (∀ j ∈ List.range' first n, fieldGroup c j = i)) :
    Decides [k] (checkOwner i first ((fields.drop first).take n)) := by
  have hrun : ((fields.drop first).take n).map Prod.snd =
      (List.range' first n).map (fieldGroup c) := by
    apply List.ext_getElem
    · simp
      omega
    · intro j hj hj'
      simp only [List.length_map, List.length_take, List.length_drop] at hj
      simp only [List.getElem_map, List.getElem_take, List.getElem_drop, List.getElem_range',
        Nat.one_mul]
      exact hfields _ _ (List.getElem?_eq_getElem _)
  have hall : (∀ f ∈ (fields.drop first).take n, f.2 = i) ↔
      ∀ j ∈ List.range' first n, fieldGroup c j = i := by
    have hmem := congrArg (fun l => ∀ g ∈ l, g = i) hrun
    simpa only [List.forall_mem_map] using iff_of_eq hmem
  unfold checkOwner
  cases hfind : ((fields.drop first).take n).findIdx? fun f => f.2 ≠ i with
  | none =>
    rw [List.findIdx?_eq_none_iff] at hfind
    have : k.holds = true := by
      rw [hholds, decide_eq_true_iff]
      apply hall.mp
      intro f hf
      simpa using hfind f hf
    simp [Decides, firstFailing, this]
  | some j =>
    have : k.holds = false := by
      rw [hholds, decide_eq_false_iff_not]
      intro hsame
      have hnone : ((fields.drop first).take n).findIdx? (fun f => f.2 ≠ i) = none := by
        rw [List.findIdx?_eq_none_iff]
        intro f hf
        simpa using hall.mpr hsame f hf
      rw [hnone] at hfind
      cases hfind
    refine ⟨k, by simp [firstFailing, this], ?_⟩
    simp [hdecodes, raisedOf]

theorem decides_readGroup (hlength : fields.length = c.fieldCount)
    (hfields : ∀ j f, fields[j]? = some f → f.2 = fieldGroup c j) (names : List (Nat × Name))
    (i : Nat) : Decides (groupChecks c i) (readGroup c fields names i) := by
  unfold readGroup groupChecks
  refine decides_demand_bind rfl (by simp [raisedOf]) fun hrun => ?_
  refine decides_demand_bind rfl (by simp [raisedOf]) fun _ => ?_
  refine decides_demand_bind rfl (by simp [raisedOf]) fun hlen => ?_
  refine decides_demand_bind ?_ (by simp [raisedOf]) fun _ => ?_
  · -- the first byte of a request that is not empty
    have hhead : ∀ (s : List UInt8) (n : Nat), 1 ≤ n → (s.take n).headD 0 = s.headD 0 := by
      intro s n hn
      cases s with
      | nil => rw [List.take_nil]
      | cons b s =>
        obtain ⟨m, rfl⟩ := Nat.exists_eq_add_of_le' hn
        rw [List.take_succ_cons, List.headD_cons, List.headD_cons]
    have hload (s : List UInt8) (off : Nat) : loadU8 s off = ((s.drop off).headD 0).toNat := by
      simp [loadU8, loadLe]
    rw [hhead _ _ hlen, ← hload]
  refine (decides_readStr c _).bind fun _ _ => ?_
  exact (decides_checkOwner rfl hfields (by omega) rfl).map

theorem decides_readEcu (groups : List Group) (i : Nat) :
    Decides (ecuChecks c i) (readEcu c groups i) := by
  unfold readEcu ecuChecks
  refine decides_demand_bind rfl (by simp [raisedOf]) fun _ => ?_
  exact (decides_readStr c _).map

end

/-- Behind the layout, the checks of the records decide. -/
theorem decides_readCatalog {data : List UInt8} {c : Uds.Catalog} (h : checkLayout data = .ok c) :
    Decides (recordChecks c) (readCatalog data) := by
  unfold readCatalog recordChecks
  rw [h, ok_bind]
  refine (decides_mapM fun i _ => decides_readScale c i).bind fun scales _ => ?_
  refine (decides_mapM fun i _ => decides_readField c scales i).bind fun fields hfields => ?_
  refine (decides_readIndex c _ _).bind fun names _ => ?_
  obtain ⟨hlength, hread⟩ := mapM_range_eq_ok.mp hfields
  refine (decides_mapM fun i _ => decides_readGroup hlength
    (fun j f hf => readField_snd c (hread j f hf)) names i).bind fun groups _ => ?_
  exact (decides_mapM fun i _ => decides_readEcu groups i).map

/-- A reader that fails with a `FormatError` if it fails. -/
def Formats {α : Type} (x : Except ReadError α) : Prop :=
  ∀ e, x = .error e → raisedOf e = .formatError e

theorem formats_demand {p : Prop} [Decidable p] {e : ReadError}
    (h : raisedOf e = .formatError e) : Formats (demand p e) := by
  unfold demand
  split_ifs
  · nofun
  · rintro _ ⟨⟩
    exact h

theorem Formats.bind {α β : Type} {x : Except ReadError α} {f : α → Except ReadError β}
    (h : Formats x) (hf : ∀ a, Formats (f a)) : Formats (x >>= f) := by
  cases x with
  | ok a => exact hf a
  | error e =>
    rintro _ ⟨⟩
    exact h e rfl

theorem formats_checkTable (table : Table) (off count size total : Nat) :
    Formats (checkTable table off count size total) := by
  unfold checkTable
  split_ifs
  · rintro _ ⟨⟩
  · exact (formats_demand rfl).bind fun _ => formats_demand rfl

/-- No check of the layout decodes a string. -/
theorem formats_checkLayout (data : List UInt8) : Formats (checkLayout data) := by
  unfold checkLayout
  refine (formats_demand rfl).bind fun _ => ?_
  refine (formats_demand rfl).bind fun _ => ?_
  refine (formats_demand rfl).bind fun _ => ?_
  refine (formats_demand rfl).bind fun _ => ?_
  refine (formats_checkTable _ _ _ _ _).bind fun _ => ?_
  refine (formats_checkTable _ _ _ _ _).bind fun _ => ?_
  refine (formats_checkTable _ _ _ _ _).bind fun _ => ?_
  refine (formats_checkTable _ _ _ _ _).bind fun _ => ?_
  refine (formats_checkTable _ _ _ _ _).bind fun _ => ?_
  refine (formats_demand rfl).bind fun _ => ?_
  refine (formats_demand rfl).bind fun _ => ?_
  refine (formats_demand rfl).bind fun _ => ?_
  refine (formats_demand rfl).bind fun _ => ?_
  refine (formats_demand rfl).bind fun _ => ?_
  refine (formats_demand rfl).bind fun _ => ?_
  nofun

/-! ## The promise -/

/-- A catalog that the device opens too, or a `FormatError`. -/
def Promised (data : List UInt8) : Prop :=
  (∃ cat, Raising.readCatalog data = .ok cat ∧ (Uds.Catalog.open? data).isSome) ∨
    ∃ e, Raising.readCatalog data = .error (.formatError e)

/-- The layout is one that the device opens and whose request pool is in place, and the first check
of a record that fails is the decoding of a string. -/
def UndecodableFirst (data : List UInt8) : Prop :=
  ∃ c k, Uds.Catalog.open? data = some c ∧ catalogMinSize ≤ c.reqbytesOff ∧
    c.reqbytesOff + c.reqbytesLen ≤ c.totalSize ∧
    firstFailing (recordChecks c) = some k ∧ k.decodes = true

/-- The reader keeps its promise but where a string that cannot be decoded is the first thing that
is wrong with the records. -/
theorem promised_iff (data : List UInt8) : Promised data ↔ ¬UndecodableFirst data := by
  unfold Promised
  rw [← raising_readCatalog]
  cases hlayout : checkLayout data with
  | ok c =>
    obtain ⟨hopen, hrequests, hend⟩ := checkLayout_eq_ok.mp hlayout
    have hunique : UndecodableFirst data ↔
        ∃ k, firstFailing (recordChecks c) = some k ∧ k.decodes = true := by
      constructor
      · rintro ⟨c', k, hopen', -, -, hk⟩
        cases hopen.symm.trans hopen'
        exact ⟨k, hk⟩
      · rintro ⟨k, hk⟩
        exact ⟨c, k, hopen, hrequests, hend, hk⟩
    have hreads := decides_readCatalog hlayout
    rw [hunique]
    cases hread : readCatalog data with
    | ok cat =>
      rw [hread] at hreads
      have hnone : firstFailing (recordChecks c) = none := hreads
      refine iff_of_true (.inl ⟨cat, rfl, by rw [hopen]; rfl⟩) ?_
      rintro ⟨k, hk, -⟩
      rw [hnone] at hk
      cases hk
    | error e =>
      rw [hread] at hreads
      obtain ⟨k, hk, hdecodes⟩ := hreads
      have hkind : (∃ k, firstFailing (recordChecks c) = some k ∧ k.decodes = true) ↔
          raisedOf e = .unicodeDecodeError := by
        rw [hk, ← hdecodes]
        simp
      rw [hkind]
      constructor
      · rintro (⟨cat, h, -⟩ | ⟨e', h⟩) hunicode
        · cases h
        · have h : raisedOf e = .formatError e' := Except.error.inj h
          rw [hunicode] at h
          cases h
      · intro hformat
        refine .inr ⟨e, congrArg Except.error ?_⟩
        cases e with
        | utf8 ref => exact absurd rfl hformat
        | _ => rfl
  | error e =>
    have hread : readCatalog data = .error e := by
      rw [readCatalog, hlayout]
      rfl
    rw [hread]
    refine iff_of_true (.inr ⟨e, congrArg Except.error (formats_checkLayout data e hlayout)⟩) ?_
    rintro ⟨c, k, hopen, hrequests, hend, -⟩
    rw [checkLayout_eq_ok.mpr ⟨hopen, hrequests, hend⟩] at hlayout
    cases hlayout

/-- A catalog of one ECU, with the byte `0xFF` as its name. -/
def latinBlob : List UInt8 :=
  magic ++ [0x01, 0x00, 0x00, 0x00, 0x6B, 0x00, 0x00, 0x00, 0x44, 0x09, 0x09, 0x41,
    0x50, 0x00, 0x00, 0x00, 0x01, 0x00, 0x00, 0x00, 0x50, 0x00, 0x00, 0x00, 0x00, 0x00, 0x00, 0x00,
    0x50, 0x00, 0x00, 0x00, 0x00, 0x00, 0x00, 0x00, 0x50, 0x00, 0x00, 0x00, 0x00, 0x00, 0x00, 0x00,
    0x50, 0x00, 0x00, 0x00, 0x00, 0x00, 0x00, 0x00, 0x68, 0x00, 0x00, 0x00, 0x03, 0x00, 0x00, 0x00,
    0x50, 0x00, 0x00, 0x00, 0x00, 0x00, 0x00, 0x00, 0x00, 0x00, 0x00, 0x00] ++
  [0x01, 0x00, 0x00, 0x00, 0xE0, 0x07, 0x00, 0x00, 0xE8, 0x07, 0x00, 0x00,
    0x00, 0x00, 0x00, 0x00, 0x00, 0x00, 0x00, 0x00, 0x00, 0x00, 0x00, 0x00] ++ [0x00, 0xFF, 0x00]

set_option maxRecDepth 8000 in
/-- The device opens it, and the reader raises what it does not promise. -/
theorem not_promised_latinBlob :
    Raising.readCatalog latinBlob = .error .unicodeDecodeError ∧
      (Uds.Catalog.open? latinBlob).isSome = true ∧ ¬∀ data, Promised data := by
  have hread : Raising.readCatalog latinBlob = .error .unicodeDecodeError := by decide
  refine ⟨hread, by decide, ?_⟩
  intro h
  rcases h latinBlob with ⟨cat, hcat, -⟩ | ⟨e, he⟩
  · rw [hread] at hcat
    cases hcat
  · rw [hread] at he
    cases he

end EspCars.Uds.Compiler
