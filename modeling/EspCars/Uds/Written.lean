import EspCars.Uds.Compiler

/-!
# What the walk writes

The walk of `write_catalog` over the ECUs, their groups and the fields of these: every record
refers to the names, requests and scales it was made from, wherever the pools end, and the name
index lists every name with the index of its record.
-/

namespace EspCars.Uds.Compiler

open EspCars.Lib List

/-! ## Records and what they were made from -/

/-- The pools of `t` are the beginning of those of `t'`. -/
structure Grows (t t' : Tables) : Prop where
  strings : t.strings.contents <+: t'.strings.contents
  requests : t.requests.contents <+: t'.requests.contents
  scales : t.scales.contents <+: t'.scales.contents
  lookup : ∀ n off, t.strings.lookup n = some off → t'.strings.lookup n = some off

theorem Grows.refl (t : Tables) : Grows t t :=
  ⟨prefix_rfl, prefix_rfl, prefix_rfl, fun _ _ h => h⟩

variable {t t' t'' : Tables} {gi first : Nat}

theorem Grows.trans (h : Grows t t') (h' : Grows t' t'') : Grows t t'' where
  strings := h.strings.trans h'.strings
  requests := h.requests.trans h'.requests
  scales := h.scales.trans h'.scales
  lookup := fun n off hn => h'.lookup n off (h.lookup n off hn)

/-- The record stands for the field. -/
structure FieldWritten (t : Tables) (gi : Nat) (f : Field) (r : FieldRecord) : Prop where
  name : Pool.Holds t.strings.contents r.nameRef (f.name ++ [0])
  unit : Pool.Holds t.strings.contents r.unitRef (f.unit ++ [0])
  scales : f.scales ≠ [] →
    ∃ run, scaleKey run = scaleKey f.scales ∧ Pool.Holds t.scales.contents r.scaleFirst run
  values : r = { r with
    bitPos := f.bitPos, bitSize := f.bitSize, flags := f.flags, scaleCount := f.scales.length
    repeatCount := f.repeatCount, repeatStride := f.repeatStride, groupIndex := gi }

/-- The record stands for the group. -/
structure GroupWritten (t : Tables) (fieldFirst : Nat) (g : Group) (r : GroupRecord) : Prop where
  name : Pool.Holds t.strings.contents r.nameRef (g.name ++ [0])
  request : Pool.Holds t.requests.contents r.reqOff g.request
  values : r = { r with
    reqLen := g.request.length, sid := g.sid.toNat, flags := g.flags, fieldFirst := fieldFirst
    fieldCount := g.fields.length, did := g.did, respMinLen := g.respMinLen }

/-- The record stands for the ECU. -/
structure EcuWritten (t : Tables) (groupFirst : Nat) (e : Ecu) (r : EcuRecord) : Prop where
  name : Pool.Holds t.strings.contents r.nameRef (e.name ++ [0])
  values : r = { r with
    requestId := e.requestId, responseId := e.responseId, flags := e.flags
    blockSize := e.blockSize, stMinRaw := e.stMinRaw, p2Ms := e.p2Ms, p2ExtMs := e.p2ExtMs
    groupFirst := groupFirst, groupCount := e.groups.length }

theorem FieldWritten.mono {f : Field} {r : FieldRecord}
    (h : FieldWritten t gi f r) (hgrows : Grows t t') : FieldWritten t' gi f r where
  name := h.name.mono hgrows.strings
  unit := h.unit.mono hgrows.strings
  scales := by
    intro hne
    obtain ⟨run, hkey, hrun⟩ := h.scales hne
    exact ⟨run, hkey, hrun.mono hgrows.scales⟩
  values := h.values

theorem GroupWritten.mono {g : Group} {r : GroupRecord}
    (h : GroupWritten t first g r) (hgrows : Grows t t') : GroupWritten t' first g r where
  name := h.name.mono hgrows.strings
  request := h.request.mono hgrows.requests
  values := h.values

theorem GroupWritten.of_eq {first' : Nat} {g : Group} {r : GroupRecord}
    (heq : first = first') (h : GroupWritten t first g r) : GroupWritten t first' g r := heq ▸ h

theorem EcuWritten.mono {e : Ecu} {r : EcuRecord}
    (h : EcuWritten t first e r) (hgrows : Grows t t') : EcuWritten t' first e r where
  name := h.name.mono hgrows.strings
  values := h.values

/-! ## Numbering -/

/-- The fields with the index of their group. -/
def numberFields : Nat → List Group → List (Nat × Field)
  | _, [] => []
  | gi, g :: gs => g.fields.map (gi, ·) ++ numberFields (gi + 1) gs

/-- The groups with the index of their first field. -/
def numberGroups : Nat → List Group → List (Nat × Group)
  | _, [] => []
  | fi, g :: gs => (fi, g) :: numberGroups (fi + g.fields.length) gs

/-- The ECUs with the index of their first group. -/
def numberEcus : Nat → List Ecu → List (Nat × Ecu)
  | _, [] => []
  | gi, e :: es => (gi, e) :: numberEcus (gi + e.groups.length) es

def fieldIndex : Nat → List Field → List (Name × NameKind × Nat)
  | _, [] => []
  | fi, f :: fs => (f.name, .field, fi) :: fieldIndex (fi + 1) fs

def groupIndex : Nat → Nat → List Group → List (Name × NameKind × Nat)
  | _, _, [] => []
  | gi, fi, g :: gs =>
    g.names.map (·, .group, gi) ++
      (fieldIndex fi g.fields ++ groupIndex (gi + 1) (fi + g.fields.length) gs)

def ecuIndex : Nat → Nat → Nat → List Ecu → List (Name × NameKind × Nat)
  | _, _, _, [] => []
  | ei, gi, fi, e :: es =>
    (e.name, .ecu, ei) :: (groupIndex gi fi e.groups ++
      ecuIndex (ei + 1) (gi + e.groups.length) (fi + (e.groups.flatMap Group.fields).length) es)

theorem numberFields_append (gi : Nat) (gs gs' : List Group) :
    numberFields gi (gs ++ gs') = numberFields gi gs ++ numberFields (gi + gs.length) gs' := by
  induction gs generalizing gi with
  | nil => rfl
  | cons g gs ih =>
    rw [cons_append, numberFields, numberFields, ih, append_assoc, length_cons, Nat.add_assoc,
      Nat.add_comm 1]

theorem numberGroups_append (fi : Nat) (gs gs' : List Group) :
    numberGroups fi (gs ++ gs') =
      numberGroups fi gs ++ numberGroups (fi + (gs.flatMap Group.fields).length) gs' := by
  induction gs generalizing fi with
  | nil => rfl
  | cons g gs ih =>
    rw [cons_append, numberGroups, numberGroups, ih, cons_append, flatMap_cons, length_append,
      Nat.add_assoc]

/-! ## The pools -/

/-- The offsets refer to what they were given for, every listed name is interned, and the strings
are framed by NULs. -/
structure Tables.Sound (t : Tables) : Prop where
  strings : t.strings.Sound id [0]
  requests : t.requests.Sound id []
  scales : t.scales.Sound scaleKey []
  listed : ∀ x ∈ t.indexNames, ∃ off, t.strings.lookup x.1 = some off
  first : t.strings.contents.head? = some 0
  last : t.strings.contents.getLast? = some 0

theorem sound_start : Tables.Sound {} where
  strings := by
    intro k off h
    obtain ⟨rfl, rfl⟩ : k = [] ∧ off = 0 := by simpa using h
    exact ⟨[], rfl, Nat.zero_le _, prefix_rfl⟩
  requests := nofun
  scales := nofun
  listed := nofun
  first := rfl
  last := rfl

/-- `t'` is `t` with more in its pools. -/
structure Pooled (t t' : Tables) : Prop extends Grows t t' where
  sound : t'.Sound
  ecus : t'.ecus = t.ecus
  groups : t'.groups = t.groups
  fields : t'.fields = t.fields
  index : t'.indexNames = t.indexNames

theorem Pooled.trans (h : Pooled t t') (h' : Pooled t' t'') : Pooled t t'' where
  toGrows := h.toGrows.trans h'.toGrows
  sound := h'.sound
  ecus := h'.ecus.trans h.ecus
  groups := h'.groups.trans h.groups
  fields := h'.fields.trans h.fields
  index := h'.index.trans h.index

namespace Tables.Sound

variable {t : Tables}

theorem intern (h : t.Sound) (s : Name) :
    Pooled t (t.intern s).2 ∧
      Pool.Holds (t.intern s).2.strings.contents (t.intern s).1 (s ++ [0]) ∧
      (t.intern s).2.strings.lookup s = some (t.intern s).1 := by
  obtain ⟨hsound, run, hkey, hholds⟩ := Pool.sound_intern h.strings s
  obtain rfl : run = s := hkey
  have hinitial := Pool.contents_intern id [0] t.strings run
  have hlookup : ∀ n off, t.strings.lookup n = some off →
      (t.strings.intern id [0] run).2.lookup n = some off :=
    fun n off hn => Pool.lookup_intern_of_some hn run
  refine ⟨⟨⟨hinitial, prefix_rfl, prefix_rfl, hlookup⟩, ⟨hsound, h.requests, h.scales, ?_, ?_, ?_⟩,
    rfl, rfl, rfl, rfl⟩, hholds, Pool.lookup_intern run⟩
  · intro x hx
    obtain ⟨off, hoff⟩ := h.listed x hx
    exact ⟨off, hlookup _ _ hoff⟩
  · obtain ⟨rest, hrest⟩ := hinitial
    show (t.strings.intern id [0] run).2.contents.head? = some 0
    rw [← hrest, head?_append, h.first]
    rfl
  · show (t.strings.intern id [0] run).2.contents.getLast? = some 0
    unfold Pool.intern
    split
    · exact h.last
    · rw [← append_assoc, getLast?_concat]

theorem internReq (h : t.Sound) (b : List UInt8) :
    Pooled t (t.internReq b).2 ∧
      Pool.Holds (t.internReq b).2.requests.contents (t.internReq b).1 b := by
  obtain ⟨hsound, run, hkey, hholds⟩ := Pool.sound_intern h.requests b
  obtain rfl : run = b := hkey
  rw [append_nil] at hholds
  exact ⟨⟨⟨prefix_rfl, Pool.contents_intern id [] t.requests run, prefix_rfl, fun _ _ hn => hn⟩,
    ⟨h.strings, hsound, h.scales, h.listed, h.first, h.last⟩, rfl, rfl, rfl, rfl⟩, hholds⟩

theorem internScales (h : t.Sound) (run : List Scale) :
    Pooled t (t.internScales run).2 ∧
      (run ≠ [] → ∃ run', scaleKey run' = scaleKey run ∧
        Pool.Holds (t.internScales run).2.scales.contents (t.internScales run).1 run') := by
  unfold Tables.internScales
  split_ifs with hnil
  · exact ⟨⟨Grows.refl t, h, rfl, rfl, rfl, rfl⟩, fun hne => absurd hnil hne⟩
  · obtain ⟨hsound, run', hkey, hholds⟩ := Pool.sound_intern h.scales run
    rw [append_nil] at hholds
    exact ⟨⟨⟨prefix_rfl, prefix_rfl, Pool.contents_intern scaleKey [] t.scales run,
        fun _ _ hn => hn⟩,
      ⟨h.strings, h.requests, hsound, h.listed, h.first, h.last⟩, rfl, rfl, rfl, rfl⟩,
      fun _ => ⟨run', hkey, hholds⟩⟩

theorem internAll (h : t.Sound) (names : List Name) : Pooled t (t.internAll names) := by
  unfold Tables.internAll
  induction names generalizing t with
  | nil => exact ⟨Grows.refl t, h, rfl, rfl, rfl, rfl⟩
  | cons s names ih =>
    have hs := (h.intern s).1
    exact hs.trans (ih hs.sound)

theorem listName (h : t.Sound) {name : Name} {off : Nat}
    (hname : t.strings.lookup name = some off) (kind : NameKind) (i : Nat) :
    (t.listName name kind i).Sound where
  strings := h.strings
  requests := h.requests
  scales := h.scales
  listed := by
    intro x hx
    rcases mem_append.mp hx with hx | hx
    · exact h.listed x hx
    · rw [mem_singleton.mp hx]
      exact ⟨off, hname⟩
  first := h.first
  last := h.last

/-- Records are added without a change of the pools. -/
theorem of_pools (h : t.Sound) {t' : Tables} (hstrings : t'.strings = t.strings)
    (hrequests : t'.requests = t.requests) (hscales : t'.scales = t.scales)
    (hindex : t'.indexNames = t.indexNames) : t'.Sound := by
  constructor
  · rw [hstrings]
    exact h.strings
  · rw [hrequests]
    exact h.requests
  · rw [hscales]
    exact h.scales
  · rw [hindex, hstrings]
    exact h.listed
  · rw [hstrings]
    exact h.first
  · rw [hstrings]
    exact h.last

end Tables.Sound

theorem Grows.of_pools (h : Grows t t') (hstrings : t''.strings = t'.strings)
    (hrequests : t''.requests = t'.requests) (hscales : t''.scales = t'.scales) :
    Grows t t'' := by
  constructor
  · rw [hstrings]
    exact h.strings
  · rw [hrequests]
    exact h.requests
  · rw [hscales]
    exact h.scales
  · rw [hstrings]
    exact h.lookup

/-- Interning a name and listing it. -/
theorem named_spec (h : t.Sound) (name : Name) (kind : NameKind) (i : Nat) :
    ((t.intern name).2.listName name kind i).Sound ∧
      Grows t ((t.intern name).2.listName name kind i) ∧
      Pool.Holds ((t.intern name).2.listName name kind i).strings.contents (t.intern name).1
        (name ++ [0]) := by
  obtain ⟨hpooled, hholds, hlookup⟩ := h.intern name
  exact ⟨hpooled.sound.listName hlookup kind i, hpooled.toGrows.of_pools rfl rfl rfl, hholds⟩

/-! ## Fields -/

/-- `t'` is `t` with the fields `fs` of group `gi`. -/
structure FieldsAdded (gi : Nat) (fs : List Field) (t t' : Tables) : Prop where
  sound : t'.Sound
  grows : Grows t t'
  ecus : t'.ecus = t.ecus
  groups : t'.groups = t.groups
  index : t'.indexNames = t.indexNames ++ fieldIndex t.fields.length fs
  fields : ∃ rs, t'.fields = t.fields ++ rs ∧ Forall₂ (FieldWritten t' gi) fs rs

theorem fieldsAdded_nil (h : t.Sound) : FieldsAdded gi [] t t where
  sound := h
  grows := Grows.refl t
  ecus := rfl
  groups := rfl
  index := (append_nil _).symm
  fields := ⟨[], (append_nil _).symm, .nil⟩

theorem FieldsAdded.length_fields {fs : List Field}
    (h : FieldsAdded gi fs t t') : t'.fields.length = t.fields.length + fs.length := by
  obtain ⟨rs, hrs, hwritten⟩ := h.fields
  rw [hrs, length_append, hwritten.length_eq]

theorem FieldsAdded.cons {gi : Nat} {f : Field} {fs : List Field} {t t' t'' : Tables}
    (h : FieldsAdded gi [f] t t') (h' : FieldsAdded gi fs t' t'') :
    FieldsAdded gi (f :: fs) t t'' where
  sound := h'.sound
  grows := h.grows.trans h'.grows
  ecus := h'.ecus.trans h.ecus
  groups := h'.groups.trans h.groups
  index := by
    rw [h'.index, h.index, append_assoc, h.length_fields]
    rfl
  fields := by
    obtain ⟨rs, hrs, hwritten⟩ := h.fields
    obtain ⟨rs', hrs', hwritten'⟩ := h'.fields
    refine ⟨rs ++ rs', by rw [hrs', hrs, append_assoc], ?_⟩
    exact rel_append (R := FieldWritten t'' gi) (hwritten.imp fun _ _ hw => hw.mono h'.grows)
      hwritten'

theorem addField_added (h : t.Sound) (gi : Nat) (f : Field) :
    FieldsAdded gi [f] t (t.addField gi f) := by
  obtain ⟨hlisted, hgrows, hname⟩ := named_spec h f.name .field t.fields.length
  obtain ⟨hunit, hholds, -⟩ := hlisted.intern f.unit
  have htexts := hunit.sound.internAll (f.scales.map Scale.text)
  obtain ⟨hscales, hruns⟩ := htexts.sound.internScales f.scales
  have hrest := htexts.trans hscales
  have hall := hunit.trans hrest
  constructor
  · exact hall.sound.of_pools rfl rfl rfl rfl
  · exact (hgrows.trans hall.toGrows).of_pools rfl rfl rfl
  · exact hall.ecus
  · exact hall.groups
  · exact hall.index
  · refine ⟨[_], congrArg (· ++ [_]) hall.fields, .cons ?_ .nil⟩
    exact ⟨hname.mono hall.strings, hholds.mono hrest.strings, hruns, rfl⟩

theorem addFields_added (gi : Nat) (fs : List Field) (h : t.Sound) :
    FieldsAdded gi fs t (fs.foldl (fun t f => t.addField gi f) t) := by
  induction fs generalizing t with
  | nil => exact fieldsAdded_nil h
  | cons f fs ih =>
    have hf := addField_added h gi f
    exact hf.cons (ih hf.sound)

/-! ## Groups -/

/-- `t'` is `t` with the groups `gs`. -/
structure GroupsAdded (gs : List Group) (t t' : Tables) : Prop where
  sound : t'.Sound
  grows : Grows t t'
  ecus : t'.ecus = t.ecus
  index : t'.indexNames = t.indexNames ++ groupIndex t.groups.length t.fields.length gs
  fields : ∃ rs, t'.fields = t.fields ++ rs ∧
    Forall₂ (fun p r => FieldWritten t' p.1 p.2 r) (numberFields t.groups.length gs) rs
  groups : ∃ rs, t'.groups = t.groups ++ rs ∧
    Forall₂ (fun p r => GroupWritten t' p.1 p.2 r) (numberGroups t.fields.length gs) rs

theorem length_numberFields (gi : Nat) (gs : List Group) :
    (numberFields gi gs).length = (gs.flatMap Group.fields).length := by
  induction gs generalizing gi with
  | nil => rfl
  | cons g gs ih =>
    rw [numberFields, flatMap_cons, length_append, length_append, length_map, ih]

theorem length_numberGroups (fi : Nat) (gs : List Group) :
    (numberGroups fi gs).length = gs.length := by
  induction gs generalizing fi with
  | nil => rfl
  | cons g gs ih => rw [numberGroups, length_cons, length_cons, ih]

theorem GroupsAdded.length_fields {gs : List Group} (h : GroupsAdded gs t t') :
    t'.fields.length = t.fields.length + (gs.flatMap Group.fields).length := by
  obtain ⟨rs, hrs, hwritten⟩ := h.fields
  rw [hrs, length_append, ← hwritten.length_eq, length_numberFields]

theorem GroupsAdded.length_groups {gs : List Group} (h : GroupsAdded gs t t') :
    t'.groups.length = t.groups.length + gs.length := by
  obtain ⟨rs, hrs, hwritten⟩ := h.groups
  rw [hrs, length_append, ← hwritten.length_eq, length_numberGroups]

theorem groupsAdded_nil (h : t.Sound) : GroupsAdded [] t t where
  sound := h
  grows := Grows.refl t
  ecus := rfl
  index := (append_nil _).symm
  fields := ⟨[], (append_nil _).symm, .nil⟩
  groups := ⟨[], (append_nil _).symm, .nil⟩

theorem GroupsAdded.cons {g : Group} {gs : List Group} {t t' t'' : Tables}
    (h : GroupsAdded [g] t t') (h' : GroupsAdded gs t' t'') : GroupsAdded (g :: gs) t t'' where
  sound := h'.sound
  grows := h.grows.trans h'.grows
  ecus := h'.ecus.trans h.ecus
  index := by
    have hfields := h.length_fields
    rw [flatMap_cons, flatMap_nil, append_nil] at hfields
    rw [h'.index, h.index, h.length_groups, hfields]
    simp only [groupIndex, append_assoc, append_nil, length_singleton]
  fields := by
    obtain ⟨rs, hrs, hwritten⟩ := h.fields
    obtain ⟨rs', hrs', hwritten'⟩ := h'.fields
    refine ⟨rs ++ rs', by rw [hrs', hrs, append_assoc], ?_⟩
    have hsplit := numberFields_append t.groups.length [g] gs
    rw [singleton_append, length_singleton] at hsplit
    rw [h.length_groups] at hwritten'
    rw [hsplit]
    exact rel_append (R := fun p r => FieldWritten t'' p.1 p.2 r)
      (hwritten.imp fun _ _ hw => hw.mono h'.grows) hwritten'
  groups := by
    obtain ⟨rs, hrs, hwritten⟩ := h.groups
    obtain ⟨rs', hrs', hwritten'⟩ := h'.groups
    refine ⟨rs ++ rs', by rw [hrs', hrs, append_assoc], ?_⟩
    have hsplit := numberGroups_append t.fields.length [g] gs
    rw [singleton_append] at hsplit
    rw [h.length_fields] at hwritten'
    rw [hsplit]
    exact rel_append (R := fun p r => GroupWritten t'' p.1 p.2 r)
      (hwritten.imp fun _ _ hw => hw.mono h'.grows) hwritten'

/-- The aliases of group `gi`. -/
theorem addAliases_spec (gi : Nat) (aliases : List Name) (h : t.Sound) :
    let t' := aliases.foldl (fun t name => t.addAlias gi name) t
    t'.Sound ∧ Grows t t' ∧ t'.ecus = t.ecus ∧ t'.groups = t.groups ∧ t'.fields = t.fields ∧
      t'.indexNames = t.indexNames ++ aliases.map (·, .group, gi) := by
  induction aliases generalizing t with
  | nil => exact ⟨h, Grows.refl t, rfl, rfl, rfl, (append_nil _).symm⟩
  | cons name aliases ih =>
    obtain ⟨hsound, hgrows, -⟩ := named_spec h name .group gi
    obtain ⟨hsound', hgrows', hecus, hgroups, hfields, hindex⟩ := ih hsound
    refine ⟨hsound', hgrows.trans hgrows', hecus, hgroups, hfields, ?_⟩
    exact hindex.trans (append_assoc _ _ _)

theorem addGroup_added (h : t.Sound) (g : Group) : GroupsAdded [g] t (t.addGroup g) := by
  obtain ⟨hlisted, hgrows, hname⟩ := named_spec h g.name .group t.groups.length
  obtain ⟨hsound₁, hgrows₁, hecus₁, hgroups₁, hfields₁, hindex₁⟩ :=
    addAliases_spec t.groups.length g.aliases hlisted
  obtain ⟨hpooled, hrequest⟩ := hsound₁.internReq g.request
  have hadded := addFields_added t.groups.length g.fields hpooled.sound
  have hgrows₂ := hpooled.toGrows.trans hadded.grows
  have hfields : (((g.aliases.foldl (fun t' name => t'.addAlias t.groups.length name)
      ((t.intern g.name).2.listName g.name .group t.groups.length)).internReq
        g.request).2).fields = t.fields := hpooled.fields.trans hfields₁
  constructor
  · exact hadded.sound.of_pools rfl rfl rfl rfl
  · exact ((hgrows.trans hgrows₁).trans hgrows₂).of_pools rfl rfl rfl
  · exact hadded.ecus.trans (hpooled.ecus.trans hecus₁)
  · refine hadded.index.trans ?_
    rw [hpooled.index, hindex₁, hfields]
    simp only [groupIndex, Group.names, map_cons, append_nil, append_assoc, cons_append]
    exact append_assoc t.indexNames [(g.name, NameKind.group, t.groups.length)] _
  · obtain ⟨rs, hrs, hwritten⟩ := hadded.fields
    refine ⟨rs, hrs.trans (by rw [hfields]), ?_⟩
    rw [numberFields, numberFields, append_nil, forall₂_map_left_iff]
    exact hwritten.imp fun _ _ hw => hw.mono ((Grows.refl _).of_pools rfl rfl rfl)
  · refine ⟨[_], congrArg (· ++ [_]) (hadded.groups.trans (hpooled.groups.trans hgroups₁)), ?_⟩
    refine .cons (GroupWritten.of_eq (congrArg length hfields) ?_) .nil
    exact ⟨hname.mono (hgrows₁.trans hgrows₂).strings, hrequest.mono hadded.grows.requests, rfl⟩

theorem addGroups_added (gs : List Group) (h : t.Sound) :
    GroupsAdded gs t (gs.foldl Tables.addGroup t) := by
  induction gs generalizing t with
  | nil => exact groupsAdded_nil h
  | cons g gs ih =>
    have hg := addGroup_added h g
    exact hg.cons (ih hg.sound)

/-! ## ECUs -/

/-- `t'` is `t` with the ECUs `es`. -/
structure EcusAdded (es : List Ecu) (t t' : Tables) : Prop where
  sound : t'.Sound
  grows : Grows t t'
  index : t'.indexNames =
    t.indexNames ++ ecuIndex t.ecus.length t.groups.length t.fields.length es
  fields : ∃ rs, t'.fields = t.fields ++ rs ∧
    Forall₂ (fun p r => FieldWritten t' p.1 p.2 r)
      (numberFields t.groups.length (es.flatMap Ecu.groups)) rs
  groups : ∃ rs, t'.groups = t.groups ++ rs ∧
    Forall₂ (fun p r => GroupWritten t' p.1 p.2 r)
      (numberGroups t.fields.length (es.flatMap Ecu.groups)) rs
  ecus : ∃ rs, t'.ecus = t.ecus ++ rs ∧
    Forall₂ (fun p r => EcuWritten t' p.1 p.2 r) (numberEcus t.groups.length es) rs

theorem length_numberEcus (gi : Nat) (es : List Ecu) :
    (numberEcus gi es).length = es.length := by
  induction es generalizing gi with
  | nil => rfl
  | cons e es ih => rw [numberEcus, length_cons, length_cons, ih]

theorem ecusAdded_nil (h : t.Sound) : EcusAdded [] t t where
  sound := h
  grows := Grows.refl t
  index := (append_nil _).symm
  fields := ⟨[], (append_nil _).symm, .nil⟩
  groups := ⟨[], (append_nil _).symm, .nil⟩
  ecus := ⟨[], (append_nil _).symm, .nil⟩

theorem addEcu_added (h : t.Sound) (e : Ecu) : EcusAdded [e] t (t.addEcu e) := by
  obtain ⟨hlisted, hgrows, hname⟩ := named_spec h e.name .ecu t.ecus.length
  have hadded := addGroups_added e.groups hlisted
  constructor
  · exact hadded.sound.of_pools rfl rfl rfl rfl
  · exact (hgrows.trans hadded.grows).of_pools rfl rfl rfl
  · refine hadded.index.trans ?_
    rw [ecuIndex, ecuIndex, append_nil]
    exact append_assoc t.indexNames [(e.name, NameKind.ecu, t.ecus.length)] _
  · obtain ⟨rs, hrs, hwritten⟩ := hadded.fields
    refine ⟨rs, hrs, ?_⟩
    rw [flatMap_cons, flatMap_nil, append_nil]
    exact hwritten.imp fun _ _ hw => hw.mono ((Grows.refl _).of_pools rfl rfl rfl)
  · obtain ⟨rs, hrs, hwritten⟩ := hadded.groups
    refine ⟨rs, hrs, ?_⟩
    rw [flatMap_cons, flatMap_nil, append_nil]
    exact hwritten.imp fun _ _ hw => hw.mono ((Grows.refl _).of_pools rfl rfl rfl)
  · refine ⟨[_], congrArg (· ++ [_]) hadded.ecus, .cons ?_ .nil⟩
    exact ⟨hname.mono hadded.grows.strings, rfl⟩

theorem EcusAdded.cons {e : Ecu} {es : List Ecu} {t t' t'' : Tables}
    (h : EcusAdded [e] t t') (h' : EcusAdded es t' t'') : EcusAdded (e :: es) t t'' := by
  obtain ⟨fs, hfs, hwf⟩ := h.fields
  obtain ⟨gs, hgs, hwg⟩ := h.groups
  obtain ⟨rs, hrs, hwe⟩ := h.ecus
  have hlf : t'.fields.length = t.fields.length + (e.groups.flatMap Group.fields).length := by
    rw [hfs, length_append, ← hwf.length_eq, length_numberFields, flatMap_cons, flatMap_nil,
      append_nil]
  have hlg : t'.groups.length = t.groups.length + e.groups.length := by
    rw [hgs, length_append, ← hwg.length_eq, length_numberGroups, flatMap_cons, flatMap_nil,
      append_nil]
  have hle : t'.ecus.length = t.ecus.length + 1 := by
    rw [hrs, length_append, ← hwe.length_eq]
    rfl
  constructor
  · exact h'.sound
  · exact h.grows.trans h'.grows
  · rw [h'.index, h.index, hlf, hlg, hle]
    simp only [ecuIndex, append_assoc, append_nil, cons_append]
  · obtain ⟨fs', hfs', hwf'⟩ := h'.fields
    refine ⟨fs ++ fs', by rw [hfs', hfs, append_assoc], ?_⟩
    rw [flatMap_cons, numberFields_append]
    rw [flatMap_cons, flatMap_nil, append_nil] at hwf
    rw [hlg] at hwf'
    exact rel_append (R := fun p r => FieldWritten t'' p.1 p.2 r)
      (hwf.imp fun _ _ hw => hw.mono h'.grows) hwf'
  · obtain ⟨gs', hgs', hwg'⟩ := h'.groups
    refine ⟨gs ++ gs', by rw [hgs', hgs, append_assoc], ?_⟩
    rw [flatMap_cons, numberGroups_append]
    rw [flatMap_cons, flatMap_nil, append_nil] at hwg
    rw [hlf] at hwg'
    exact rel_append (R := fun p r => GroupWritten t'' p.1 p.2 r)
      (hwg.imp fun _ _ hw => hw.mono h'.grows) hwg'
  · obtain ⟨rs', hrs', hwe'⟩ := h'.ecus
    refine ⟨rs ++ rs', by rw [hrs', hrs, append_assoc], ?_⟩
    rw [hlg] at hwe'
    exact rel_append (R := fun p r => EcuWritten t'' p.1 p.2 r)
      (hwe.imp fun _ _ hw => hw.mono h'.grows) hwe'

theorem addEcus_added (es : List Ecu) (h : t.Sound) :
    EcusAdded es t (es.foldl Tables.addEcu t) := by
  induction es generalizing t with
  | nil => exact ecusAdded_nil h
  | cons e es ih =>
    have he := addEcu_added h e
    exact he.cons (ih he.sound)

/-! ## The whole catalog -/

/-- The tables of a catalog. -/
structure Written (cat : Catalog) (t : Tables) : Prop where
  sound : t.Sound
  index : t.indexNames = ecuIndex 0 0 0 cat.ecus
  fields : Forall₂ (fun p r => FieldWritten t p.1 p.2 r) (numberFields 0 cat.groups) t.fields
  groups : Forall₂ (fun p r => GroupWritten t p.1 p.2 r) (numberGroups 0 cat.groups) t.groups
  ecus : Forall₂ (fun p r => EcuWritten t p.1 p.2 r) (numberEcus 0 cat.ecus) t.ecus

theorem written_tablesOf (cat : Catalog) : Written cat (tablesOf cat) := by
  have h := addEcus_added cat.ecus sound_start
  obtain ⟨fs, hfs, hwf⟩ := h.fields
  obtain ⟨gs, hgs, hwg⟩ := h.groups
  obtain ⟨rs, hrs, hwe⟩ := h.ecus
  rw [nil_append] at hfs hgs hrs
  subst hfs hgs hrs
  exact ⟨h.sound, h.index, hwf, hwg, hwe⟩

end EspCars.Uds.Compiler
