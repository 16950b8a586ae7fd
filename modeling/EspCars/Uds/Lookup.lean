import EspCars.Lib.Fallible
import EspCars.Uds.Layout
import EspCars.Uds.Written
import Mathlib

/-!
# Reading a written catalog

The blob of `write_catalog`, mapped into memory with anything behind it, opens; every accessor
answers the record of its index; and a lookup answers the lowest index listed under a name that the
device takes for the one it looks for, which is one with the same hash and the same C string.
-/

namespace EspCars.Uds.Compiler

open EspCars.Lib List

/-! ## Lists in step -/

variable {i fi gi ei : Nat} {gs : List Group} {n : Name} {es : List Ecu} {cat : Catalog}
  {t : Tables}

theorem forall₂_getElem? {α β : Type} {R : α → β → Prop} {l : List α} {l' : List β}
    (h : Forall₂ R l l') {a : α} (ha : l[i]? = some a) :
    ∃ b, l'[i]? = some b ∧ R a b := by
  induction h generalizing i with
  | nil => cases ha
  | @cons a' b' l l' hab _ ih =>
    cases i with
    | zero =>
      cases ha
      exact ⟨b', rfl, hab⟩
    | succ i => exact ih ha

theorem getElem?_numberEcus (gi : Nat) (es : List Ecu) (i : Nat) :
    (numberEcus gi es)[i]? =
      es[i]?.map fun e => (gi + ((es.take i).flatMap Ecu.groups).length, e) := by
  induction es generalizing gi i with
  | nil => rfl
  | cons e es ih =>
    cases i with
    | zero => rfl
    | succ i =>
      rw [numberEcus, getElem?_cons_succ, getElem?_cons_succ, ih, take_succ_cons, flatMap_cons,
        length_append, Nat.add_assoc]

theorem getElem?_numberGroups (fi : Nat) (gs : List Group) (k : Nat) :
    (numberGroups fi gs)[k]? =
      gs[k]?.map fun g => (fi + ((gs.take k).flatMap Group.fields).length, g) := by
  induction gs generalizing fi k with
  | nil => rfl
  | cons g gs ih =>
    cases k with
    | zero => rfl
    | succ k =>
      rw [numberGroups, getElem?_cons_succ, getElem?_cons_succ, ih, take_succ_cons, flatMap_cons,
        length_append, Nat.add_assoc]

theorem getElem?_numberFields (gi : Nat) {k j : Nat} {g : Group} {f : Field}
    (hk : gs[k]? = some g) (hj : g.fields[j]? = some f) :
    (numberFields gi gs)[((gs.take k).flatMap Group.fields).length + j]? = some (gi + k, f) := by
  induction gs generalizing gi k with
  | nil => cases hk
  | cons g' gs ih =>
    cases k with
    | zero =>
      cases hk
      obtain ⟨hlt, -⟩ := List.getElem?_eq_some_iff.mp hj
      rw [take_zero, flatMap_nil, length_nil, Nat.zero_add, numberFields,
        getElem?_append_left (by rwa [length_map]), getElem?_map, hj]
      rfl
    | succ k =>
      rw [take_succ_cons, flatMap_cons, length_append, numberFields,
        getElem?_append_right (by rw [length_map]; omega), length_map, Nat.add_assoc,
        Nat.add_sub_cancel_left, ih (gi + 1) hk]
      congr 2
      omega

/-! ## The index -/

/-- An element of two lists one behind the other, with its number. -/
theorem exists_append {α : Type} {l l' : List α} {P : α → Prop} {base : Nat} :
    (∃ j x, (l ++ l')[j]? = some x ∧ P x ∧ i = base + j) ↔
      (∃ j x, l[j]? = some x ∧ P x ∧ i = base + j) ∨
        ∃ j x, l'[j]? = some x ∧ P x ∧ i = base + l.length + j := by
  constructor
  · rintro ⟨j, x, hj, hx, rfl⟩
    by_cases hlt : j < l.length
    · rw [getElem?_append_left hlt] at hj
      exact .inl ⟨j, x, hj, hx, rfl⟩
    · rw [getElem?_append_right (by omega)] at hj
      exact .inr ⟨j - l.length, x, hj, hx, by omega⟩
  · rintro (⟨j, x, hj, hx, rfl⟩ | ⟨j, x, hj, hx, rfl⟩)
    · obtain ⟨hlt, -⟩ := List.getElem?_eq_some_iff.mp hj
      exact ⟨j, x, by rwa [getElem?_append_left hlt], hx, rfl⟩
    · refine ⟨l.length + j, x, ?_, hx, by omega⟩
      rw [getElem?_append_right (Nat.le_add_right _ _), Nat.add_sub_cancel_left]
      exact hj

theorem exists_cons {α : Type} {a : α} {l : List α} {P : α → Prop} {base : Nat} :
    (∃ j x, (a :: l)[j]? = some x ∧ P x ∧ i = base + j) ↔
      (P a ∧ i = base) ∨ ∃ j x, l[j]? = some x ∧ P x ∧ i = base + 1 + j := by
  rw [← singleton_append, exists_append]
  simp [getElem?_singleton]

theorem mem_fieldIndex {kind : NameKind} {fs : List Field} : (n, kind, i) ∈ fieldIndex fi fs ↔
      ∃ j f, fs[j]? = some f ∧ n = f.name ∧ kind = .field ∧ i = fi + j := by
  induction fs generalizing fi with
  | nil =>
    refine iff_of_false nofun ?_
    rintro ⟨j, f, hj, -⟩
    cases hj
  | cons f fs ih =>
    rw [fieldIndex, mem_cons, ih]
    constructor
    · rintro (h | ⟨j, f', hj, hn, hkind, rfl⟩)
      · cases h
        exact ⟨0, f, rfl, rfl, rfl, rfl⟩
      · exact ⟨j + 1, f', hj, hn, hkind, by omega⟩
    · rintro ⟨j, f', hj, rfl, rfl, rfl⟩
      cases j with
      | zero =>
        cases hj
        exact Or.inl rfl
      | succ j => exact Or.inr ⟨j, f', hj, rfl, rfl, by omega⟩

theorem mem_groupIndex : (n, NameKind.group, i) ∈ groupIndex gi fi gs ↔
      ∃ k g, gs[k]? = some g ∧ n ∈ g.names ∧ i = gi + k := by
  induction gs generalizing gi fi with
  | nil =>
    refine iff_of_false nofun ?_
    rintro ⟨k, g, hk, -⟩
    cases hk
  | cons g gs ih =>
    rw [groupIndex, mem_append, mem_append, ih, exists_cons, ← or_assoc]
    refine or_congr_left ⟨?_, fun h => .inl (mem_map.mpr ⟨n, h.1, by rw [h.2]⟩)⟩
    rintro (h | h)
    · obtain ⟨n', hn', heq⟩ := mem_map.mp h
      cases heq
      exact ⟨hn', rfl⟩
    · obtain ⟨j, f, -, -, hkind, -⟩ := mem_fieldIndex.mp h
      cases hkind

theorem mem_groupIndex_field : (n, NameKind.field, i) ∈ groupIndex gi fi gs ↔
      ∃ j f, (gs.flatMap Group.fields)[j]? = some f ∧ n = f.name ∧ i = fi + j := by
  induction gs generalizing gi fi with
  | nil =>
    refine iff_of_false nofun ?_
    rintro ⟨j, f, hj, -⟩
    cases hj
  | cons g gs ih =>
    rw [groupIndex, mem_append, mem_append, mem_fieldIndex, ih, flatMap_cons, exists_append,
      or_iff_right (by simp)]
    simp

theorem notMem_groupIndex : (n, NameKind.ecu, i) ∉ groupIndex gi fi gs := by
  induction gs generalizing gi fi with
  | nil => nofun
  | cons g gs ih =>
    intro h
    rcases mem_append.mp h with h | h
    · obtain ⟨n', -, heq⟩ := mem_map.mp h
      cases heq
    · rcases mem_append.mp h with h | h
      · obtain ⟨j, f, -, -, hkind, -⟩ := mem_fieldIndex.mp h
        cases hkind
      · exact ih h

theorem mem_ecuIndex_ecu : (n, NameKind.ecu, i) ∈ ecuIndex ei gi fi es ↔
      ∃ k e, es[k]? = some e ∧ n = e.name ∧ i = ei + k := by
  induction es generalizing ei gi fi with
  | nil =>
    refine iff_of_false nofun ?_
    rintro ⟨k, e, hk, -⟩
    cases hk
  | cons e es ih =>
    rw [ecuIndex, mem_cons, mem_append, ih, exists_cons, or_iff_right notMem_groupIndex]
    simp

theorem mem_ecuIndex_group : (n, NameKind.group, i) ∈ ecuIndex ei gi fi es ↔
      ∃ k g, (es.flatMap Ecu.groups)[k]? = some g ∧ n ∈ g.names ∧ i = gi + k := by
  induction es generalizing ei gi fi with
  | nil =>
    refine iff_of_false nofun ?_
    rintro ⟨k, g, hk, -⟩
    cases hk
  | cons e es ih =>
    rw [ecuIndex, mem_cons, mem_append, mem_groupIndex, ih, flatMap_cons, exists_append]
    exact or_iff_right (by simp)

theorem mem_ecuIndex_field : (n, NameKind.field, i) ∈ ecuIndex ei gi fi es ↔
      ∃ j f, ((es.flatMap Ecu.groups).flatMap Group.fields)[j]? = some f ∧ n = f.name ∧
        i = fi + j := by
  induction es generalizing ei gi fi with
  | nil =>
    refine iff_of_false nofun ?_
    rintro ⟨j, f, hj, -⟩
    cases hj
  | cons e es ih =>
    rw [ecuIndex, mem_cons, mem_append, mem_groupIndex_field, ih, flatMap_cons, flatMap_append,
      exists_append]
    exact or_iff_right (by simp)

/-- The name is listed for the record of that kind and index. -/
def Listed (cat : Catalog) (n : Name) : NameKind → Nat → Prop
  | .ecu, i => ∃ e, cat.ecus[i]? = some e ∧ n = e.name
  | .group, i => ∃ g, cat.groups[i]? = some g ∧ n ∈ g.names
  | .field, i => ∃ f, cat.fields[i]? = some f ∧ n = f.name

theorem mem_indexNames {kind : NameKind} :
    (n, kind, i) ∈ (tablesOf cat).indexNames ↔ Listed cat n kind i := by
  rw [(written_tablesOf cat).index]
  cases kind with
  | ecu =>
    rw [mem_ecuIndex_ecu]
    constructor
    · rintro ⟨k, e, hk, hn, rfl⟩
      exact ⟨e, by rwa [Nat.zero_add], hn⟩
    · rintro ⟨e, hi, hn⟩
      exact ⟨i, e, hi, hn, (Nat.zero_add i).symm⟩
  | group =>
    rw [mem_ecuIndex_group]
    constructor
    · rintro ⟨k, g, hk, hn, rfl⟩
      exact ⟨g, by rwa [Nat.zero_add], hn⟩
    · rintro ⟨g, hi, hn⟩
      exact ⟨i, g, hi, hn, (Nat.zero_add i).symm⟩
  | field =>
    rw [mem_ecuIndex_field]
    constructor
    · rintro ⟨k, f, hk, hn, rfl⟩
      exact ⟨f, by rwa [Nat.zero_add], hn⟩
    · rintro ⟨f, hi, hn⟩
      exact ⟨i, f, hi, hn, (Nat.zero_add i).symm⟩

/-! ## The order of the index -/

instance : Std.Total IndexEntry.Before where
  total a b := by
    unfold IndexEntry.Before
    omega

instance : IsTrans IndexEntry IndexEntry.Before where
  trans a b c := by
    unfold IndexEntry.Before
    omega

theorem index_sorted (t : Tables) : t.index.Pairwise IndexEntry.Before :=
  pairwise_insertionSort IndexEntry.Before _

theorem mem_index {e : IndexEntry} : e ∈ t.index ↔ ∃ n kind i, (n, kind, i) ∈ t.indexNames ∧
      e = { hash := (fnv1a n).toNat, nameRef := t.refOf n
            target := kind.toNat * targetUnit + i } := by
  rw [Tables.index, mem_insertionSort, mem_map]
  constructor
  · rintro ⟨⟨n, kind, i⟩, hmem, rfl⟩
    exact ⟨n, kind, i, mem_eraseDups.mp hmem, rfl⟩
  · rintro ⟨n, kind, i, hmem, rfl⟩
    exact ⟨(n, kind, i), mem_eraseDups.mpr hmem, rfl⟩

/-! ## What was packed -/

/-- A catalog that was written, in memory. -/
structure Flashed (cat : Catalog) where
  sections : Sections
  written : sectionsOf (tablesOf cat) = some sections
  mapped : Mapped sections (headerFlags (tablesOf cat))

/-- The tables as they were packed. -/
structure Packed (t : Tables) (s : Sections) : Prop where
  ecus : Forall₂ (fun r bytes => r.pack = some bytes) t.ecus s.ecus
  groups : Forall₂ (fun r bytes => GroupRecord.pack s.reqbytesOff r = some bytes) t.groups s.groups
  fields : Forall₂ (fun r bytes => r.pack = some bytes) t.fields s.fields
  scales : Forall₂ (fun r bytes => Scale.pack (t.refOf r.text) r = some bytes) t.scales.contents
    s.scales
  index : Forall₂ (fun r bytes => r.pack = some bytes) t.index s.index
  reqbytes : s.reqbytes = t.requests.contents
  strings : s.strings = t.strings.contents

theorem packed_of_sectionsOf {s : Sections} (h : sectionsOf t = some s) : Packed t s := by
  unfold sectionsOf at h
  obtain ⟨ecus, hecus, h⟩ := Option.bind_eq_some_iff.mp h
  obtain ⟨fields, hfields, h⟩ := Option.bind_eq_some_iff.mp h
  obtain ⟨scales, hscales, h⟩ := Option.bind_eq_some_iff.mp h
  obtain ⟨groups, hgroups, h⟩ := Option.bind_eq_some_iff.mp h
  obtain ⟨index, hindex, h⟩ := Option.bind_eq_some_iff.mp h
  cases h
  have hecus := forall₂_of_mapM hecus
  have hfields := forall₂_of_mapM hfields
  have hscales := forall₂_of_mapM hscales
  have hgroups := forall₂_of_mapM hgroups
  refine ⟨hecus, ?_, hfields, hscales, forall₂_of_mapM hindex, rfl, rfl⟩
  rw [hecus.length_eq, hfields.length_eq, hscales.length_eq, hgroups.length_eq] at hgroups
  exact hgroups

theorem length_of_forall₂ {α : Type} {f : α → Option (List UInt8)} {size : Nat} {l : List α}
    {table : List (List UInt8)} (h : Forall₂ (fun a bytes => f a = some bytes) l table)
    (hsize : ∀ a bytes, f a = some bytes → bytes.length = size) :
    ∀ r ∈ table, r.length = size := by
  induction h with
  | nil => nofun
  | @cons a bytes l table hab _ ih =>
    intro r hr
    rcases mem_cons.mp hr with rfl | hr
    · exact hsize a r hab
    · exact ih r hr

theorem Packed.wellFormed {s : Sections} (h : Packed t s) (ht : t.Sound) : s.WellFormed where
  ecus := length_of_forall₂ h.ecus fun _ _ hr => length_pack hr
  groups := length_of_forall₂ h.groups fun _ _ hr => length_pack hr
  fields := length_of_forall₂ h.fields fun _ _ hr => length_pack hr
  scales := length_of_forall₂ h.scales fun _ _ hr => length_pack hr
  index := length_of_forall₂ h.index fun _ _ hr => length_pack hr
  first := by
    rw [h.strings]
    exact ht.first
  last := by
    rw [h.strings]
    exact ht.last

theorem require_eq_ok {p : Prop} [Decidable p] {e : LimitError} {u : Unit} :
    require p e = .ok u ↔ p := by
  unfold require
  split_ifs with hp
  · exact iff_of_true rfl hp
  · exact iff_of_false nofun hp

theorem counts_of_checkLimits (h : checkLimits cat = .ok ()) :
    cat.ecus.length ≤ maxRecords ∧ cat.groups.length ≤ maxRecords ∧
      cat.fields.length ≤ maxRecords := by
  unfold checkLimits at h
  obtain ⟨_, hecus, h⟩ := bind_eq_ok.mp h
  obtain ⟨_, hgroups, h⟩ := bind_eq_ok.mp h
  obtain ⟨_, hfields, _⟩ := bind_eq_ok.mp h
  exact ⟨require_eq_ok.mp hecus, require_eq_ok.mp hgroups, require_eq_ok.mp hfields⟩

/-- A group within the limits has a request, and its fields have different names. -/
theorem group_of_checkLimits (h : checkLimits cat = .ok ()) {g : Group}
    (hg : g ∈ cat.groups) : g.request ≠ [] ∧ (g.fields.map Field.name).Nodup := by
  unfold checkLimits at h
  obtain ⟨_, _, h⟩ := bind_eq_ok.mp h
  obtain ⟨_, _, h⟩ := bind_eq_ok.mp h
  obtain ⟨_, _, h⟩ := bind_eq_ok.mp h
  obtain ⟨_, hgroups, _⟩ := bind_eq_ok.mp h
  have hgroup := forM_eq_ok hgroups g hg
  unfold checkGroup at hgroup
  obtain ⟨_, hrequest, hgroup⟩ := bind_eq_ok.mp hgroup
  obtain ⟨_, _, hgroup⟩ := bind_eq_ok.mp hgroup
  obtain ⟨_, hnodup, _⟩ := bind_eq_ok.mp hgroup
  refine ⟨?_, require_eq_ok.mp hnodup⟩
  rw [← length_pos_iff]
  exact (require_eq_ok.mp hrequest).1

theorem limits_of_writeCatalog {blob : List UInt8}
    (h : writeCatalog cat = .ok blob) : checkLimits cat = .ok () := by
  unfold writeCatalog at h
  split at h
  · cases h
  · assumption

namespace Flashed

/-- A blob that was written, with what is mapped behind it. -/
theorem exists_of_writeCatalog {cat : Catalog} {blob : List UInt8}
    (h : writeCatalog cat = .ok blob) (rest : List UInt8) :
    ∃ d : Flashed cat, d.mapped.memory = blob ++ rest := by
  unfold writeCatalog at h
  split at h
  · cases h
  · split at h
    · next blob' hblob =>
      cases h
      obtain ⟨s, hs, hblob⟩ := Option.bind_eq_some_iff.mp hblob
      obtain ⟨m, hm⟩ := Mapped.exists_of_blobOf hblob rest
      exact ⟨⟨s, hs, m⟩, hm⟩
    · cases h

variable {cat : Catalog} (d : Flashed cat)

def opened : Uds.Catalog := d.mapped.opened

theorem packed : Packed (tablesOf cat) d.sections := packed_of_sectionsOf d.written

theorem sound : (tablesOf cat).Sound := (written_tablesOf cat).sound

theorem wellFormed : d.sections.WellFormed := d.packed.wellFormed sound

theorem open?_memory : Uds.Catalog.open? d.mapped.memory = some d.opened :=
  d.mapped.open?_memory d.wellFormed

theorem string_opened {ref : Nat} {name : Name}
    (h : Pool.Holds (tablesOf cat).strings.contents ref (name ++ [0])) :
    d.opened.string ref = cstr name := by
  apply d.mapped.string_opened d.wellFormed
  rw [d.packed.strings]
  exact h

/-! ## The accessors -/

theorem ecu_opened {i : Nat} {e : Ecu} (hi : cat.ecus[i]? = some e) :
    d.opened.ecu i = some
      { name := cstr e.name, requestId := e.requestId, responseId := e.responseId, flags := e.flags
        blockSize := e.blockSize, stMinRaw := e.stMinRaw, p2Ms := e.p2Ms, p2ExtMs := e.p2ExtMs
        groupFirst := ((cat.ecus.take i).flatMap Ecu.groups).length
        groupCount := e.groups.length } := by
  have hnumber := getElem?_numberEcus 0 cat.ecus i
  rw [hi, Option.map_some, Nat.zero_add] at hnumber
  obtain ⟨r, hr, hwritten⟩ := forall₂_getElem? (written_tablesOf cat).ecus hnumber
  obtain ⟨bytes, hbytes, hpack⟩ := forall₂_getElem? d.packed.ecus hr
  obtain ⟨rest, hrest⟩ := d.mapped.exists_ecu d.wellFormed hbytes
  obtain ⟨hlt, -⟩ := List.getElem?_eq_some_iff.mp hbytes
  rw [Uds.Catalog.ecu, if_neg (show ¬ d.opened.ecuCount ≤ i from Nat.not_le.mpr hlt)]
  dsimp only
  rw [show d.opened.base.drop (d.opened.ecusOff + i * ecuRecordSize) = bytes ++ rest from hrest]
  have hload := fun i off => @loadLe_field ecuFields _ bytes hpack rest i off
  unfold loadU8 loadU16 loadU32
  rw [hload 0 0x00 rfl rfl rfl, hload 1 0x04 rfl rfl rfl, hload 2 0x08 rfl rfl rfl,
    hload 3 0x0C rfl rfl rfl, hload 4 0x0E rfl rfl rfl, hload 5 0x0F rfl rfl rfl,
    hload 6 0x10 rfl rfl rfl, hload 7 0x12 rfl rfl rfl, hload 8 0x14 rfl rfl rfl,
    hload 9 0x16 rfl rfl rfl, d.string_opened hwritten.name, hwritten.values]

theorem group_opened {k : Nat} {g : Group} (hk : cat.groups[k]? = some g) :
    ∃ off, Pool.Holds (tablesOf cat).requests.contents off g.request ∧
      d.opened.group k = some
        { name := cstr g.name, reqOff := d.sections.reqbytesOff + off
          reqLen := g.request.length, sid := g.sid.toNat, flags := g.flags
          fieldFirst := ((cat.groups.take k).flatMap Group.fields).length
          fieldCount := g.fields.length, did := g.did, respMinLen := g.respMinLen } := by
  have hnumber := getElem?_numberGroups 0 cat.groups k
  rw [hk, Option.map_some, Nat.zero_add] at hnumber
  obtain ⟨r, hr, hwritten⟩ := forall₂_getElem? (written_tablesOf cat).groups hnumber
  obtain ⟨bytes, hbytes, hpack⟩ := forall₂_getElem? d.packed.groups hr
  obtain ⟨rest, hrest⟩ := d.mapped.exists_group d.wellFormed hbytes
  obtain ⟨hlt, -⟩ := List.getElem?_eq_some_iff.mp hbytes
  refine ⟨r.reqOff, hwritten.request, ?_⟩
  rw [Uds.Catalog.group, if_neg (show ¬ d.opened.groupCount ≤ k from Nat.not_le.mpr hlt)]
  dsimp only
  rw [show d.opened.base.drop (d.opened.groupsOff + k * groupRecordSize) = bytes ++ rest from hrest]
  have hload := fun i off => @loadLe_field groupFields _ bytes hpack rest i off
  unfold loadU8 loadU16 loadU32
  rw [hload 0 0x00 rfl rfl rfl, hload 1 0x04 rfl rfl rfl, hload 2 0x08 rfl rfl rfl,
    hload 3 0x09 rfl rfl rfl, hload 4 0x0A rfl rfl rfl, hload 5 0x0C rfl rfl rfl,
    hload 6 0x0E rfl rfl rfl, hload 7 0x10 rfl rfl rfl, hload 8 0x12 rfl rfl rfl,
    d.string_opened hwritten.name, hwritten.values]

/-- The request bytes are the group's. -/
theorem requestBytes_opened {k : Nat} {g : Group} (hk : cat.groups[k]? = some g)
    (hrequest : g.request ≠ []) {view : GroupView} (hview : d.opened.group k = some view) :
    d.opened.requestBytes view = some g.request := by
  obtain ⟨off, hoff, hgroup⟩ := d.group_opened hk
  rw [hview] at hgroup
  cases hgroup
  refine d.mapped.requestBytes_opened d.wellFormed ?_ rfl rfl hrequest
  rw [d.packed.reqbytes]
  exact hoff

/-- The record of the field at the index `i` among all fields. -/
theorem record_opened {i gi : Nat} {f : Field} (hi : (numberFields 0 cat.groups)[i]? = some (gi, f)) :
    ∃ r, FieldWritten (tablesOf cat) gi f r ∧ d.opened.field i = some
      { name := cstr f.name, unit := cstr f.unit, bitPos := f.bitPos, bitSize := f.bitSize
        flags := f.flags, scaleFirst := r.scaleFirst, scaleCount := f.scales.length
        repeatCount := f.repeatCount, repeatStride := f.repeatStride, groupIndex := gi } := by
  obtain ⟨r, hr, hwritten⟩ := forall₂_getElem? (written_tablesOf cat).fields hi
  obtain ⟨bytes, hbytes, hpack⟩ := forall₂_getElem? d.packed.fields hr
  obtain ⟨rest, hrest⟩ := d.mapped.exists_field d.wellFormed hbytes
  obtain ⟨hlt, -⟩ := List.getElem?_eq_some_iff.mp hbytes
  refine ⟨r, hwritten, ?_⟩
  rw [Uds.Catalog.field, if_neg (show ¬ d.opened.fieldCount ≤ i from Nat.not_le.mpr hlt)]
  dsimp only
  rw [show d.opened.base.drop (d.opened.fieldsOff + i * fieldRecordSize) = bytes ++ rest from hrest]
  have hload := fun i off => @loadLe_field fieldFields _ bytes hpack rest i off
  unfold loadU8 loadU16 loadU32
  rw [hload 0 0x00 rfl rfl rfl, hload 1 0x04 rfl rfl rfl, hload 2 0x08 rfl rfl rfl,
    hload 3 0x0A rfl rfl rfl, hload 4 0x0B rfl rfl rfl, hload 5 0x0C rfl rfl rfl,
    hload 6 0x0E rfl rfl rfl, hload 7 0x0F rfl rfl rfl, hload 8 0x10 rfl rfl rfl,
    hload 9 0x12 rfl rfl rfl, d.string_opened hwritten.name, d.string_opened hwritten.unit,
    hwritten.values]

/-- The record of field `j` of group `k`, which is at the index `i` among all fields. -/
theorem field_opened {k j i : Nat} {g : Group} {f : Field} (hk : cat.groups[k]? = some g)
    (hj : g.fields[j]? = some f)
    (hi : ((cat.groups.take k).flatMap Group.fields).length + j = i) :
    ∃ scaleFirst, d.opened.field i = some
      { name := cstr f.name, unit := cstr f.unit, bitPos := f.bitPos, bitSize := f.bitSize
        flags := f.flags, scaleFirst := scaleFirst, scaleCount := f.scales.length
        repeatCount := f.repeatCount, repeatStride := f.repeatStride, groupIndex := k } := by
  have hnumber := getElem?_numberFields 0 hk hj
  rw [hi, Nat.zero_add] at hnumber
  obtain ⟨r, -, hview⟩ := d.record_opened hnumber
  exact ⟨r.scaleFirst, hview⟩

theorem count_opened (kind : NameKind) (i : Nat) :
    d.opened.indexInRange kind i = true ↔
      i < match kind with
        | .ecu => cat.ecus.length
        | .group => cat.groups.length
        | .field => cat.fields.length := by
  have hwritten := written_tablesOf cat
  cases kind with
  | ecu =>
    have hlen := hwritten.ecus.length_eq.trans d.packed.ecus.length_eq
    rw [length_numberEcus] at hlen
    rw [hlen]
    exact decide_eq_true_iff
  | group =>
    have hlen := hwritten.groups.length_eq.trans d.packed.groups.length_eq
    rw [length_numberGroups] at hlen
    rw [hlen]
    exact decide_eq_true_iff
  | field =>
    have hlen := hwritten.fields.length_eq.trans d.packed.fields.length_eq
    rw [length_numberFields] at hlen
    rw [show cat.fields.length = _ from hlen]
    exact decide_eq_true_iff

/-! ## Lookups -/

/-- The limits bound every index. -/
theorem lt_targetUnit (h : checkLimits cat = .ok ()) {n : Name} {kind : NameKind} {i : Nat}
    (hn : Listed cat n kind i) : i < targetUnit ∧ d.opened.indexInRange kind i = true := by
  obtain ⟨hecus, hgroups, hfields⟩ := counts_of_checkLimits h
  rw [count_opened]
  unfold targetUnit maxRecords at *
  cases kind with
  | ecu =>
    obtain ⟨e, hi, -⟩ := hn
    obtain ⟨hlt, -⟩ := List.getElem?_eq_some_iff.mp hi
    exact ⟨by omega, hlt⟩
  | group =>
    obtain ⟨g, hi, -⟩ := hn
    obtain ⟨hlt, -⟩ := List.getElem?_eq_some_iff.mp hi
    exact ⟨by omega, hlt⟩
  | field =>
    obtain ⟨f, hi, -⟩ := hn
    obtain ⟨hlt, -⟩ := List.getElem?_eq_some_iff.mp hi
    exact ⟨by omega, hlt⟩

theorem entry_opened {p : Nat} {e : IndexEntry} (hp : (tablesOf cat).index[p]? = some e) :
    d.opened.entryHash p = e.hash ∧
      loadU32 (d.opened.base.drop (d.opened.indexOff + p * indexRecordSize)) 4 = e.nameRef ∧
      loadU32 (d.opened.base.drop (d.opened.indexOff + p * indexRecordSize)) 8 = e.target := by
  obtain ⟨bytes, hbytes, hpack⟩ := forall₂_getElem? d.packed.index hp
  obtain ⟨rest, hrest⟩ := d.mapped.exists_entry d.wellFormed hbytes
  rw [Uds.Catalog.entryHash,
    show d.opened.base.drop (d.opened.indexOff + p * indexRecordSize) = bytes ++ rest from hrest]
  have hload := fun i off => @loadLe_field indexFields _ bytes hpack rest i off
  exact ⟨hload 0 0 rfl rfl rfl, hload 1 4 rfl rfl rfl, hload 2 8 rfl rfl rfl⟩

/-- What the walk makes of the entry of a listed name. -/
theorem candidate_opened (h : checkLimits cat = .ok ()) {p : Nat} {e : IndexEntry}
    (hp : (tablesOf cat).index[p]? = some e) {n : Name} {kind : NameKind} {i : Nat}
    (hmem : (n, kind, i) ∈ (tablesOf cat).indexNames)
    (he : e = { hash := (fnv1a n).toNat, nameRef := (tablesOf cat).refOf n
                target := kind.toNat * targetUnit + i }) (query : Name) (wanted : NameKind) :
    d.opened.candidate query wanted p =
      if kind = wanted ∧ cstr n = query then some i else none := by
  obtain ⟨-, hname, htarget⟩ := d.entry_opened hp
  obtain ⟨hlt, hrange⟩ := d.lt_targetUnit h (mem_indexNames.mp hmem)
  have hstring : d.opened.string e.nameRef = cstr n := by
    obtain ⟨off, hoff⟩ := (@sound cat).listed _ hmem
    obtain ⟨run, hkey, hholds⟩ := (@sound cat).strings n off (Pool.mem_of_lookup hoff)
    obtain rfl : run = n := hkey
    apply d.string_opened
    rw [he, Tables.refOf, hoff]
    exact hholds
  have hunit : 0 < targetUnit := by decide
  have hdiv : e.target / targetUnit = kind.toNat := by
    rw [he, Nat.mul_comm, Nat.mul_add_div hunit, Nat.div_eq_of_lt hlt, Nat.add_zero]
  have hmod : e.target % targetUnit = i := by
    rw [he, Nat.mul_comm, Nat.mul_add_mod, Nat.mod_eq_of_lt hlt]
  have hkind : kind.toNat = wanted.toNat ↔ kind = wanted := by
    cases kind <;> cases wanted <;> decide
  rw [Uds.Catalog.candidate, hname, htarget, hdiv, hmod, hstring]
  by_cases hk : kind = wanted
  · subst hk
    by_cases hq : cstr n = query
    · simp [hq, hrange]
    · simp [hq]
  · simp [hkind, hk]

end Flashed

/-- In a sorted index the lookup takes the first candidate with the hash. -/
theorem find_eq {c : Uds.Catalog}
    (hsorted : ∀ i j, i ≤ j → j < c.indexCount → c.entryHash i ≤ c.entryHash j)
    (query : List UInt8) (kind : NameKind) :
    c.find query kind =
      ((range c.indexCount).filter fun i => c.entryHash i = (fnv1a query).toNat).findSome?
        (c.candidate query kind) := by
  obtain ⟨hle, hbelow, habove⟩ := lowerBound_spec hsorted (k := (fnv1a query).toNat)
    (Nat.le_refl (c.indexCount - 0)) (Nat.zero_le _) (Nat.le_refl _) nofun
    (fun i hi hlt => absurd hlt (Nat.not_lt.mpr hi))
  rw [Uds.Catalog.find]
  rw [Nat.sub_zero] at hle hbelow habove
  generalize lowerBound c.entryHash (fnv1a query).toNat c.indexCount 0 c.indexCount = lo at *
  have hrange : range' lo (c.indexCount - lo) = (range c.indexCount).drop lo := by
    rw [range_eq_range', drop_range']
    simp
  rw [hrange, takeWhile_drop_eq_filter]
  · rw [pairwise_iff_getElem]
    intro i j hi hj hij
    rw [length_range] at hi hj
    rw [getElem_range, getElem_range]
    exact hsorted i j (Nat.le_of_lt hij) hj
  · intro i hi
    rw [take_range, mem_range] at hi
    exact hbelow i (by omega)
  · intro i hi
    rw [← hrange, mem_range'_1] at hi
    exact habove i hi.1 (by omega)

/-- The device takes the name for the one it looks for. -/
def Taken (query n : Name) : Prop := fnv1a n = fnv1a query ∧ cstr n = query

instance (query n : Name) : Decidable (Taken query n) :=
  inferInstanceAs (Decidable (_ ∧ _))

namespace Flashed

variable {cat : Catalog} (d : Flashed cat)

theorem indexCount_opened : d.opened.indexCount = (tablesOf cat).index.length :=
  d.packed.index.length_eq.symm

variable {i : Nat} {query : Name} {kind : NameKind}

theorem entryHash_mono {j : Nat} (hij : i ≤ j) (hj : j < d.opened.indexCount) :
    d.opened.entryHash i ≤ d.opened.entryHash j := by
  rw [d.indexCount_opened] at hj
  rcases Nat.eq_or_lt_of_le hij with rfl | hlt
  · exact Nat.le_refl _
  · obtain ⟨hi', -, -⟩ := d.entry_opened (List.getElem?_eq_getElem (Nat.lt_trans hlt hj))
    obtain ⟨hj', -, -⟩ := d.entry_opened (List.getElem?_eq_getElem hj)
    have hbefore :=
      pairwise_iff_getElem.mp (index_sorted (tablesOf cat)) i j (Nat.lt_trans hlt hj) hj hlt
    unfold IndexEntry.Before at hbefore
    omega

/-- A candidate comes from a listed name that is taken for the query. -/
theorem listed_of_candidate (h : checkLimits cat = .ok ())
    {p : Nat} (hp : p < (tablesOf cat).index.length)
    (hhash : d.opened.entryHash p = (fnv1a query).toNat)
    (hcandidate : d.opened.candidate query kind p = some i) :
    (∃ n, Listed cat n kind i ∧ Taken query n) ∧
      (tablesOf cat).index[p].target = kind.toNat * targetUnit + i := by
  have hentry := List.getElem?_eq_getElem hp
  obtain ⟨n, kind', i', hmem, he⟩ := mem_index.mp (getElem_mem hp)
  rw [d.candidate_opened h hentry hmem he query kind] at hcandidate
  rw [(d.entry_opened hentry).1, he, UInt32.toNat_inj] at hhash
  split_ifs at hcandidate with htaken
  cases hcandidate
  obtain ⟨rfl, hquery⟩ := htaken
  refine ⟨⟨n, mem_indexNames.mp hmem, hhash, hquery⟩, ?_⟩
  rw [he]

/-- Every listed name that is taken for the query is a candidate. -/
theorem exists_candidate (h : checkLimits cat = .ok ()) {n : Name} (hlisted : Listed cat n kind i)
    (htaken : Taken query n) :
    ∃ p, p < (tablesOf cat).index.length ∧ d.opened.entryHash p = (fnv1a query).toNat ∧
      d.opened.candidate query kind p = some i := by
  have hmem := mem_indexNames.mpr hlisted
  obtain ⟨p, hp, he⟩ := getElem_of_mem (mem_index.mpr ⟨n, kind, i, hmem, rfl⟩)
  have hentry := List.getElem?_eq_getElem hp
  refine ⟨p, hp, ?_, ?_⟩
  · rw [(d.entry_opened hentry).1, he, htaken.1]
  · rw [d.candidate_opened h hentry hmem he query kind, if_pos ⟨rfl, htaken.2⟩]

/-- The first candidate has the lowest index. -/
theorem isLeast_of_find (h : checkLimits cat = .ok ()) (hfind : d.opened.find query kind = some i) :
    IsLeast {i | ∃ n, Listed cat n kind i ∧ Taken query n} i := by
  rw [find_eq fun _ _ hij hj => d.entryHash_mono hij hj, d.indexCount_opened] at hfind
  obtain ⟨before, p, after, hsplit, hp, hnone⟩ := findSome?_eq_some_iff.mp hfind
  have hmem : ∀ p' ∈ before ++ p :: after, p' < (tablesOf cat).index.length ∧
      d.opened.entryHash p' = (fnv1a query).toNat := by
    intro p' hp'
    rw [← hsplit, mem_filter, mem_range, decide_eq_true_eq] at hp'
    exact hp'
  obtain ⟨hlt, hhash⟩ := hmem p (mem_append_right _ (mem_cons_self ..))
  obtain ⟨hlisted, htarget⟩ := d.listed_of_candidate h hlt hhash hp
  refine ⟨hlisted, ?_⟩
  rintro i' ⟨n, hn, htaken⟩
  obtain ⟨p', hlt', hhash', hp'⟩ := d.exists_candidate h hn htaken
  have hp'mem : p' ∈ before ++ p :: after := by
    rw [← hsplit, mem_filter, mem_range, decide_eq_true_eq]
    exact ⟨hlt', hhash'⟩
  have hsorted : (before ++ p :: after).Pairwise (· < ·) := by
    rw [← hsplit]
    exact pairwise_lt_range.filter _
  have hle : p ≤ p' := by
    rcases mem_append.mp hp'mem with hbefore | hafter
    · rw [hnone p' hbefore] at hp'
      cases hp'
    · rcases mem_cons.mp hafter with rfl | hafter
      · exact Nat.le_refl _
      · exact Nat.le_of_lt (rel_of_pairwise_cons (pairwise_append.mp hsorted).2.1 hafter)
  rcases Nat.eq_or_lt_of_le hle with rfl | hlt''
  · rw [hp] at hp'
    cases hp'
    exact Nat.le_refl _
  · have horder := pairwise_iff_getElem.mp (index_sorted (tablesOf cat)) p p' hlt hlt' hlt''
    have htarget' := (d.listed_of_candidate h hlt' hhash' hp').2
    have hentry := (d.entry_opened (List.getElem?_eq_getElem hlt)).1
    have hentry' := (d.entry_opened (List.getElem?_eq_getElem hlt')).1
    unfold IndexEntry.Before at horder
    omega

/-- A lookup answers the lowest index that is listed under a name taken for the query. -/
theorem find_eq_some_iff (h : checkLimits cat = .ok ()) (query : Name) (kind : NameKind) (i : Nat) :
    d.opened.find query kind = some i ↔
      IsLeast {i | ∃ n, Listed cat n kind i ∧ Taken query n} i := by
  refine ⟨d.isLeast_of_find h, ?_⟩
  intro hleast
  cases hfind : d.opened.find query kind with
  | some i' => rw [(d.isLeast_of_find h hfind).unique hleast]
  | none =>
    obtain ⟨n, hlisted, htaken⟩ := hleast.1
    obtain ⟨p, hlt, hhash, hp⟩ := d.exists_candidate h hlisted htaken
    rw [find_eq fun _ _ hij hj => d.entryHash_mono hij hj, d.indexCount_opened,
      findSome?_eq_none_iff] at hfind
    rw [hfind p (by rw [mem_filter, mem_range, decide_eq_true_eq]; exact ⟨hlt, hhash⟩)] at hp
    cases hp

end Flashed

end EspCars.Uds.Compiler
