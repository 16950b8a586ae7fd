import EspCars.Uds.Decode
import EspCars.Uds.RoundTrip

/-!
# The compiler, its reader and the device

What `write_catalog` writes is read back as an equal catalog, for which the same blob is written
again, and the device that it is flashed to reads the same records: `ecu`, `group`, `field` and
`scale` answer the flattened catalog and nothing behind it, `request_bytes` the requests, `find` the
first record of a name, and a response covers a group from its shortest length on.
-/

namespace EspCars.Uds

open EspCars.Lib Compiler List

/-! ## Equality -/

namespace Compiler

/-- `==` on scales: both zeros are equal. -/
structure Scale.Equal (s s' : Scale) : Prop where
  low : s.low = s'.low
  high : s.high = s'.high
  factor : s.factor.eq s'.factor = true
  offset : s.offset.eq s'.offset = true
  text : s.text = s'.text
  invalid : s.invalid = s'.invalid

def Field.Equal (f f' : Field) : Prop :=
  { f with scales := [] } = { f' with scales := [] } ∧ Forall₂ Scale.Equal f.scales f'.scales

def Group.Equal (g g' : Group) : Prop :=
  { g with fields := [] } = { g' with fields := [] } ∧ Forall₂ Field.Equal g.fields g'.fields

def Ecu.Equal (e e' : Ecu) : Prop :=
  { e with groups := [] } = { e' with groups := [] } ∧ Forall₂ Group.Equal e.groups e'.groups

/-- `==` on catalogs. -/
def Catalog.Equal (cat cat' : Catalog) : Prop := Forall₂ Ecu.Equal cat.ecus cat'.ecus

/-- The factor and the offset are numbers. -/
def Scale.Finite (s : Scale) : Prop := s.factor.isFinite = true ∧ s.offset.isFinite = true

instance (s : Scale) : Decidable s.Finite := inferInstanceAs (Decidable (_ ∧ _))

theorem forall₂_of_map_eq {α β : Type} {R : α → α → Prop} {f : α → β} {l l' : List α}
    (h : l.map f = l'.map f) (hR : ∀ a ∈ l, ∀ b, f a = f b → R a b) : Forall₂ R l l' := by
  induction l generalizing l' with
  | nil =>
    rw [map_eq_nil_iff.mp h.symm]
    exact .nil
  | cons a l ih =>
    cases l' with
    | nil => cases h
    | cons b l' =>
      obtain ⟨hab, hrest⟩ := cons_eq_cons.mp h
      exact .cons (hR a mem_cons_self b hab) (ih hrest fun a ha => hR a (mem_cons_of_mem _ ha))

theorem scales_equal {run run' : List Scale} (hfinite : ∀ s ∈ run, s.Finite)
    (h : scaleKey run = scaleKey run') : Forall₂ Scale.Equal run run' := by
  apply forall₂_of_map_eq h
  intro s hs s' heq
  obtain ⟨hfactor, hoffset⟩ := hfinite s hs
  obtain ⟨hlow, hhigh, hfactor', hoffset', htext, hinvalid⟩ := Scale.mk.inj heq
  exact ⟨hlow, hhigh, Binary32.eq_of_posZero hfactor hfactor',
    Binary32.eq_of_posZero hoffset hoffset', htext, hinvalid⟩

theorem Field.equal_of_zeroed {f f' : Field} (hfinite : ∀ s ∈ f.scales, s.Finite)
    (h : f.zeroed = f'.zeroed) : f.Equal f' :=
  ⟨congrArg (fun f : Field => { f with scales := [] }) h,
    scales_equal hfinite (congrArg Field.scales h)⟩

theorem Group.equal_of_zeroed {g g' : Group} (hfinite : ∀ f ∈ g.fields, ∀ s ∈ f.scales, s.Finite)
    (h : g.zeroed = g'.zeroed) : g.Equal g' :=
  ⟨congrArg (fun g : Group => { g with fields := [] }) h,
    forall₂_of_map_eq (congrArg Group.fields h) fun f hf _ =>
      Field.equal_of_zeroed (hfinite f hf)⟩

theorem Ecu.equal_of_zeroed {e e' : Ecu}
    (hfinite : ∀ g ∈ e.groups, ∀ f ∈ g.fields, ∀ s ∈ f.scales, s.Finite)
    (h : e.zeroed = e'.zeroed) : e.Equal e' :=
  ⟨congrArg (fun e : Ecu => { e with groups := [] }) h,
    forall₂_of_map_eq (congrArg Ecu.groups h) fun g hg _ =>
      Group.equal_of_zeroed (hfinite g hg)⟩

theorem Catalog.equal_of_zeroed {cat cat' : Catalog}
    (hfinite : ∀ f ∈ cat.fields, ∀ s ∈ f.scales, s.Finite) (h : cat.zeroed = cat'.zeroed) :
    cat.Equal cat' := by
  refine forall₂_of_map_eq (congrArg Catalog.ecus h) fun e he _ => Ecu.equal_of_zeroed ?_
  intro g hg f hf
  exact hfinite f (mem_flatMap.mpr ⟨g, mem_flatMap.mpr ⟨e, he, hg⟩, hf⟩)

/-! ## The catalog that is read back -/

theorem strings_zeroed (cat : Catalog) : cat.zeroed.strings = cat.strings := by
  have hfield : ∀ f : Field, f.zeroed.strings = f.strings := by
    intro f
    unfold Field.strings
    rw [show f.zeroed.scales = scaleKey f.scales from rfl, map_text_scaleKey]
    rfl
  have hgroup : ∀ g : Group, g.zeroed.strings = g.strings := by
    intro g
    unfold Group.strings
    rw [show g.zeroed.fields = g.fields.map Field.zeroed from rfl, flatMap_map]
    simp only [hfield]
    rfl
  have hecu : ∀ e : Ecu, e.zeroed.strings = e.strings := by
    intro e
    unfold Ecu.strings
    rw [show e.zeroed.groups = e.groups.map Group.zeroed from rfl, flatMap_map]
    simp only [hgroup]
    rfl
  unfold Catalog.strings
  rw [show cat.zeroed.ecus = cat.ecus.map Ecu.zeroed from rfl, flatMap_map]
  simp only [hecu]

/-- Names, units and texts end where C lets them end, and the aliases are as `Group` keeps them. -/
structure WellNamed (cat : Catalog) : Prop where
  strings : ∀ s ∈ cat.strings, Terminated s
  aliases : ∀ g ∈ cat.groups, g.aliases = normalise g.name g.aliases

theorem WellNamed.of_zeroed {cat cat' : Catalog} (h : WellNamed cat)
    (hzeroed : cat'.zeroed = cat.zeroed) : WellNamed cat' where
  strings := by
    rw [← strings_zeroed, hzeroed, strings_zeroed]
    exact h.strings
  aliases := by
    intro g hg
    have hmem : g.zeroed ∈ cat.groups.map Group.zeroed := by
      rw [← groups_zeroed, ← hzeroed, groups_zeroed]
      exact mem_map_of_mem hg
    obtain ⟨g', hg', heq⟩ := mem_map.mp hmem
    have hname : g.zeroed.name = g'.zeroed.name := congrArg Group.name heq.symm
    have haliases : g.zeroed.aliases = g'.zeroed.aliases := congrArg Group.aliases heq.symm
    rw [show g.name = g'.name from hname, show g.aliases = g'.aliases from haliases]
    exact h.aliases g' hg'

/-- Whatever is mapped behind a blob, the reader makes an equal catalog of it, for which the same
blob is written. -/
theorem readCatalog_writeCatalog {cat : Catalog} {blob : List UInt8}
    (hblob : writeCatalog cat = .ok blob) (hnamed : WellNamed cat) (rest : List UInt8) :
    ∃ cat', readCatalog (blob ++ rest) = .ok cat' ∧ cat.zeroed = cat'.zeroed ∧
      writeCatalog cat' = .ok blob := by
  have hzeroed := zeroed_reread cat
  have hblob' := (writeCatalog_reread cat).trans hblob
  obtain ⟨d, hd⟩ := Flashed.exists_of_writeCatalog hblob' rest
  have hnamed' := hnamed.of_zeroed hzeroed
  refine ⟨cat.reread, ?_, hzeroed.symm, hblob'⟩
  rw [← hd]
  exact d.readCatalog_opened (stored_reread cat) (limits_of_writeCatalog hblob') hnamed'.strings
    hnamed'.aliases

/-! ## What the device reads -/

/-- The view of the ECU. -/
def Ecu.view (e : Ecu) (groupFirst : Nat) : EcuView where
  name := e.name
  requestId := e.requestId
  responseId := e.responseId
  flags := e.flags
  blockSize := e.blockSize
  stMinRaw := e.stMinRaw
  p2Ms := e.p2Ms
  p2ExtMs := e.p2ExtMs
  groupFirst := groupFirst
  groupCount := e.groups.length

/-- The view of the group. -/
def Group.view (g : Group) (reqOff fieldFirst : Nat) : GroupView where
  name := g.name
  reqOff := reqOff
  reqLen := g.request.length
  sid := g.sid.toNat
  flags := g.flags
  fieldFirst := fieldFirst
  fieldCount := g.fields.length
  did := g.did
  respMinLen := g.respMinLen

/-- The view of the field. -/
def Field.view (f : Field) (scaleFirst groupIndex : Nat) : FieldView where
  name := f.name
  unit := f.unit
  bitPos := f.bitPos
  bitSize := f.bitSize
  flags := f.flags
  scaleFirst := scaleFirst
  scaleCount := f.scales.length
  repeatCount := f.repeatCount
  repeatStride := f.repeatStride
  groupIndex := groupIndex

/-- The view of the row. -/
def Scale.view (s : Scale) : ScaleView where
  low := s.low
  high := s.high
  factor := s.factor
  offset := s.offset
  text := s.text
  flags := flagWord [s.text ≠ [], s.invalid]

/-- Every accessor answers the records of the catalog, in the order in which the catalog lists
them, and nothing behind the last one. -/
structure Reads (c : Uds.Catalog) (cat : Catalog) : Prop where
  ecu : ∀ i, c.ecu i =
    cat.ecus[i]?.map fun e => e.view ((cat.ecus.take i).flatMap Ecu.groups).length
  group : ∀ k, ∃ reqOff, c.group k =
    cat.groups[k]?.map fun g => g.view reqOff ((cat.groups.take k).flatMap Group.fields).length
  requestBytes : ∀ k g view, cat.groups[k]? = some g → c.group k = some view →
    c.requestBytes view = some g.request
  field : ∀ i, ∃ scaleFirst, c.field i =
    (numberFields 0 cat.groups)[i]?.map fun p => p.2.view scaleFirst p.1
  scale : ∀ i f view, cat.fields[i]? = some f → c.field i = some view →
    ∃ run, Forall₂ Scale.Equal f.scales run ∧
      ∀ j s, run[j]? = some s → c.scale (view.scaleFirst + j) = some s.view

namespace Flashed

variable {cat : Catalog} (d : Flashed cat)

theorem scale_opened {i : Nat} {s : Scale} (hi : (tablesOf cat).scales.contents[i]? = some s)
    (hrange : InRange s) {off : Nat} (hoff : (tablesOf cat).strings.lookup s.text = some off)
    (htext : Terminated s.text) : d.opened.scale i = some s.view := by
  obtain ⟨bytes, hbytes, hpack⟩ := forall₂_getElem? d.packed.scales hi
  obtain ⟨rest, hrest⟩ := d.mapped.exists_scale d.wellFormed hbytes
  obtain ⟨hlt, -⟩ := List.getElem?_eq_some_iff.mp hbytes
  have hload := fun i off => @loadLe_field scaleFields _ bytes hpack rest i off
  obtain ⟨-, -, hstring⟩ := readStr_eq_ok.mp (d.readStr_refOf hoff htext)
  rw [Uds.Catalog.scale, if_neg (show ¬ d.opened.scaleCount ≤ i from Nat.not_le.mpr hlt)]
  dsimp only
  rw [show d.opened.base.drop (d.opened.scalesOff + i * scaleRecordSize) = bytes ++ rest from hrest]
  unfold loadI32 loadF32 loadU16 loadU32
  rw [hload 0 0x00 rfl rfl rfl, hload 1 0x04 rfl rfl rfl, hload 2 0x08 rfl rfl rfl,
    hload 3 0x0C rfl rfl rfl, hload 4 0x10 rfl rfl rfl, hload 5 0x14 rfl rfl rfl,
    bmod_packI32 hrange.1 hrange.2.1, bmod_packI32 hrange.2.2.1 hrange.2.2.2, UInt32.ofNat_toNat,
    UInt32.ofNat_toNat, ← hstring]
  rfl

/-- The rows of a field. -/
theorem scales_opened (hlimits : checkLimits cat = .ok ()) (hnamed : WellNamed cat)
    (hfinite : ∀ f ∈ cat.fields, ∀ s ∈ f.scales, s.Finite) {gi : Nat} {f : Field}
    {r : FieldRecord} (hf : f ∈ cat.fields) (hwritten : FieldWritten (tablesOf cat) gi f r) :
    ∃ run, Forall₂ Scale.Equal f.scales run ∧
      ∀ j s, run[j]? = some s → d.opened.scale (r.scaleFirst + j) = some s.view := by
  by_cases hnil : f.scales = []
  · rw [hnil]
    exact ⟨[], .nil, nofun⟩
  · obtain ⟨run, hkey, hinside, rest, hrest⟩ := hwritten.scales hnil
    refine ⟨run, scales_equal (hfinite f hf) hkey.symm, ?_⟩
    intro j s hj
    obtain ⟨hlt, -⟩ := List.getElem?_eq_some_iff.mp hj
    have hstored : (tablesOf cat).scales.contents[r.scaleFirst + j]? = some s := by
      rw [← getElem?_drop, ← hrest, getElem?_append_left hlt, hj]
    obtain ⟨⟨hrange, htext⟩, off, hoff⟩ :=
      (scalesKnown hlimits hnamed.strings).known s (mem_of_getElem? hstored)
    exact d.scale_opened hstored hrange hoff htext

theorem cstr_terminated (hnamed : WellNamed cat) {n : Name} (hn : n ∈ cat.strings) : cstr n = n :=
  cstr_eq_self (hnamed.strings n hn).1

theorem reads_opened (hlimits : checkLimits cat = .ok ()) (hnamed : WellNamed cat)
    (hfinite : ∀ f ∈ cat.fields, ∀ s ∈ f.scales, s.Finite) : Reads d.opened cat where
  ecu := by
    intro i
    cases hi : cat.ecus[i]? with
    | none =>
      rw [getElem?_eq_none_iff, ← d.ecuCount_opened] at hi
      rw [Uds.Catalog.ecu, if_pos hi]
      rfl
    | some e =>
      rw [d.ecu_opened hi, cstr_terminated hnamed (mem_flatMap.mpr
        ⟨e, mem_of_getElem? hi, mem_cons_self⟩)]
      rfl
  group := by
    intro k
    cases hk : cat.groups[k]? with
    | none =>
      rw [getElem?_eq_none_iff, ← d.groupCount_opened] at hk
      rw [Uds.Catalog.group, if_pos hk]
      exact ⟨0, rfl⟩
    | some g =>
      obtain ⟨off, -, hview⟩ := d.group_opened hk
      rw [hview, cstr_terminated hnamed (Catalog.mem_strings_group (mem_of_getElem? hk)
        (mem_append_left _ mem_cons_self))]
      exact ⟨_, rfl⟩
  requestBytes := by
    intro k g view hk hview
    exact d.requestBytes_opened hk (group_of_checkLimits hlimits (mem_of_getElem? hk)).1 hview
  field := by
    intro i
    cases hi : (numberFields 0 cat.groups)[i]? with
    | none =>
      rw [getElem?_eq_none_iff, length_numberFields] at hi
      rw [Uds.Catalog.field, if_pos (d.fieldCount_opened ▸ hi)]
      exact ⟨0, rfl⟩
    | some p =>
      obtain ⟨r, -, hview⟩ := d.record_opened hi
      have hf : p.2 ∈ cat.fields := by
        rw [Catalog.fields, ← map_snd_numberFields 0]
        exact mem_map_of_mem (mem_of_getElem? hi)
      rw [hview, cstr_terminated hnamed (Catalog.mem_strings_field hf mem_cons_self),
        cstr_terminated hnamed (Catalog.mem_strings_field hf
          (mem_cons_of_mem _ mem_cons_self))]
      exact ⟨r.scaleFirst, rfl⟩
  scale := by
    intro i f view hi hview
    have hnumber : ∃ gi, (numberFields 0 cat.groups)[i]? = some (gi, f) := by
      rw [Catalog.fields, ← map_snd_numberFields 0, getElem?_map, Option.map_eq_some_iff] at hi
      obtain ⟨⟨gi, f'⟩, hp, rfl⟩ := hi
      exact ⟨gi, hp⟩
    obtain ⟨gi, hgi⟩ := hnumber
    obtain ⟨r, hwritten, hview'⟩ := d.record_opened hgi
    obtain rfl := Option.some.inj (hview'.symm.trans hview)
    exact d.scales_opened hlimits hnamed hfinite (mem_of_getElem? hi) hwritten

end Flashed

/-! ## Lookups -/

/-- `find` answers the lowest index that is listed under the name, and none for any other name. -/
structure Finds (c : Uds.Catalog) (cat : Catalog) : Prop where
  lowest : ∀ name kind i, c.find name kind = some i ↔ IsLeast {i | Listed cat name kind i} i
  missing : ∀ name kind, c.find name kind = none ↔ ∀ i, ¬Listed cat name kind i

theorem Flashed.finds_opened {cat : Catalog} (d : Flashed cat) (hlimits : checkLimits cat = .ok ())
    (hnamed : WellNamed cat) : Finds d.opened cat := by
  have hlowest : ∀ name kind i,
      d.opened.find name kind = some i ↔ IsLeast {i | Listed cat name kind i} i := by
    intro name kind i
    rw [d.find_eq_some_iff hlimits]
    have hset : {i | ∃ n, Listed cat n kind i ∧ Taken name n} = {i | Listed cat name kind i} := by
      ext i
      constructor
      · rintro ⟨n, hlisted, -, hn⟩
        rw [cstr_terminated hnamed (Catalog.mem_strings_listed hlisted)] at hn
        exact hn ▸ hlisted
      · intro hlisted
        exact ⟨name, hlisted, rfl, cstr_terminated hnamed (Catalog.mem_strings_listed hlisted)⟩
    rw [hset]
  refine ⟨hlowest, ?_⟩
  intro name kind
  constructor
  · intro hnone i hlisted
    classical
    have hsome : ∃ j, Listed cat name kind j := ⟨i, hlisted⟩
    have hj : IsLeast {i | Listed cat name kind i} (Nat.find hsome) :=
      ⟨Nat.find_spec hsome, fun _ hi => Nat.find_min' hsome hi⟩
    rw [(hlowest name kind _).mpr hj] at hnone
    cases hnone
  · intro hnot
    cases hfind : d.opened.find name kind with
    | none => rfl
    | some i => exact absurd ((hlowest name kind i).mp hfind).1 (hnot i)

/-! ## Coverage -/

theorem foldr_max_le_iff {l : List Nat} {n : Nat} : l.foldr Nat.max 0 ≤ n ↔ ∀ a ∈ l, a ≤ n := by
  induction l with
  | nil => exact iff_of_true (Nat.zero_le n) nofun
  | cons a l ih => rw [foldr_cons, Nat.max_le, ih, forall_mem_cons]

/-- An element is covered if the last bit of it is. -/
theorem fieldCovered_view {f : Field} (hlimit : FieldLimits f) {first gi n element : Nat}
    (helement : element < f.repeatCount) :
    fieldCovered (f.view first gi) n element = true ↔
      f.bitPos + element * f.repeatStride + f.bitSize ≤ 8 * n := by
  have hsize := hlimit.bitSize
  have hcount := hlimit.count
  unfold fieldCovered FieldView.start
  show (if f.bitSize = 0 ∨ f.repeatCount = 0 ∨ f.repeatCount ≤ element then false else
    decide ((f.bitPos + element * f.repeatStride + f.bitSize + 7) / 8 ≤ n)) = true ↔ _
  rw [if_neg (by omega), decide_eq_true_iff]
  omega

/-- All elements of a field are covered if the last one is. -/
theorem covered_iff_bitEnd {f : Field} (hlimit : FieldLimits f) {first gi n : Nat} :
    (∀ element < f.repeatCount, fieldCovered (f.view first gi) n element = true) ↔
      f.bitEnd ≤ 8 * n := by
  have hcount := hlimit.count
  constructor
  · intro h
    exact (fieldCovered_view hlimit (by omega)).mp (h (f.repeatCount - 1) (by omega))
  · intro h element helement
    rw [fieldCovered_view hlimit helement]
    have hle : element * f.repeatStride ≤ (f.repeatCount - 1) * f.repeatStride :=
      Nat.mul_le_mul_right _ (by omega)
    unfold Field.bitEnd at h
    omega

/-- A response covers every element of every field of a group from `resp_min_len` on. -/
def Covering (c : Uds.Catalog) (cat : Catalog) : Prop :=
  ∀ k g view, cat.groups[k]? = some g → c.group k = some view → ∀ n,
    (∀ j < view.fieldCount, ∀ f, c.field (view.fieldFirst + j) = some f →
      ∀ element < f.repeatCount, fieldCovered f n element = true) ↔ view.respMinLen ≤ n

theorem Reads.covering {c : Uds.Catalog} {cat : Catalog} (h : Reads c cat)
    (hlimits : checkLimits cat = .ok ()) : Covering c cat := by
  intro k g view hk hview n
  obtain ⟨off, hgroup⟩ := h.group k
  rw [hview, hk] at hgroup
  obtain rfl := Option.some.inj hgroup
  have hfield : ∀ j f, g.fields[j]? = some f → ∃ first,
      c.field (((cat.groups.take k).flatMap Group.fields).length + j) = some (f.view first k) := by
    intro j f hj
    obtain ⟨first, hf⟩ := h.field (((cat.groups.take k).flatMap Group.fields).length + j)
    rw [getElem?_numberFields 0 hk hj, Nat.zero_add] at hf
    exact ⟨first, hf⟩
  have hlimit : ∀ f ∈ g.fields, FieldLimits f := fun f hf =>
    fieldLimits_of_checkLimits hlimits (mem_flatMap.mpr ⟨g, mem_of_getElem? hk, hf⟩)
  have hlen : g.respMinLen ≤ n ↔ ∀ f ∈ g.fields, f.bitEnd ≤ 8 * n := by
    rw [← forall_mem_map (f := Field.bitEnd) (P := fun a => a ≤ 8 * n), ← foldr_max_le_iff]
    unfold Group.respMinLen
    omega
  show (∀ j < g.fields.length, _) ↔ g.respMinLen ≤ n
  rw [hlen]
  constructor
  · intro hcovered f hf
    obtain ⟨j, hj⟩ := List.getElem?_of_mem hf
    obtain ⟨hlt, -⟩ := List.getElem?_eq_some_iff.mp hj
    obtain ⟨first, hview'⟩ := hfield j f hj
    exact (covered_iff_bitEnd (hlimit f hf)).mp (hcovered j hlt _ hview')
  · intro hend j hj v hv
    obtain ⟨first, hview'⟩ := hfield j _ (List.getElem?_eq_getElem hj)
    obtain rfl := Option.some.inj (hview'.symm.trans hv)
    have hmem := getElem_mem hj
    exact (covered_iff_bitEnd (hlimit _ hmem)).mpr (hend _ hmem)

/-! ## Agreement -/

/-- The reader and the device have the catalog of the blob, with whatever is mapped behind it. -/
structure Agrees (cat : Catalog) (blob rest : List UInt8) : Prop where
  readBack : ∃ cat', readCatalog (blob ++ rest) = .ok cat' ∧ cat.Equal cat' ∧
    writeCatalog cat' = .ok blob
  device : ∃ c, Uds.Catalog.open? (blob ++ rest) = some c ∧ Reads c cat ∧ Finds c cat ∧
    Covering c cat

theorem agrees_of_writeCatalog {cat : Catalog} {blob : List UInt8}
    (hblob : writeCatalog cat = .ok blob) (hnamed : WellNamed cat)
    (hfinite : ∀ f ∈ cat.fields, ∀ s ∈ f.scales, s.Finite) (rest : List UInt8) :
    Agrees cat blob rest := by
  have hlimits := limits_of_writeCatalog hblob
  constructor
  · obtain ⟨cat', hread, hzeroed, hwrite⟩ := readCatalog_writeCatalog hblob hnamed rest
    exact ⟨cat', hread, Catalog.equal_of_zeroed hfinite hzeroed, hwrite⟩
  · obtain ⟨d, hd⟩ := Flashed.exists_of_writeCatalog hblob rest
    have hreads := d.reads_opened hlimits hnamed hfinite
    exact ⟨d.opened, hd ▸ d.open?_memory, hreads, d.finds_opened hlimits hnamed,
      hreads.covering hlimits⟩

/-! ## A unit that C cuts -/

/-- One byte with a scale and that unit. -/
def unitCatalog (unit : Name) : Catalog :=
  { ecus :=
      [{ name := ascii "A", requestId := 0x7E0, responseId := 0x7E8
         groups :=
          [{ name := ascii "G", request := [0x22, 0x02, 0x07], aliases := [ascii "H"]
             fields :=
              [{ name := ascii "F", bitPos := 24, bitSize := 8, unit := unit
                 scales := [{ low := 0, high := 254, factor := ⟨0x3F000000⟩, offset := ⟨0⟩ }] }]
          }] }] }

theorem exists_blob_unit (unit : Name) (h : (writeCatalog (unitCatalog unit)).isOk = true) :
    ∃ blob, writeCatalog (unitCatalog unit) = .ok blob := by
  cases hblob : writeCatalog (unitCatalog unit) with
  | ok blob => exact ⟨blob, rfl⟩
  | error e =>
    rw [hblob] at h
    cases h

theorem agrees_sample : ∃ blob, writeCatalog (unitCatalog (ascii "V")) = .ok blob ∧
    Agrees (unitCatalog (ascii "V")) blob [0xFF] := by
  obtain ⟨blob, hblob⟩ := exists_blob_unit (ascii "V") (by decide +kernel)
  exact ⟨blob, hblob, agrees_of_writeCatalog hblob ⟨by decide, by decide⟩
    (by decide) [0xFF]⟩

/-- The names have no NUL, but the unit has one: what is read back ends before it. -/
theorem not_readBack_sample :
    ¬ ∀ (cat : Catalog) (blob : List UInt8), NulFree cat → (∀ s ∈ cat.strings, utf8 s = true) →
      (∀ g ∈ cat.groups, g.aliases = normalise g.name g.aliases) →
      (∀ f ∈ cat.fields, ∀ s ∈ f.scales, s.Finite) → writeCatalog cat = .ok blob →
      ∃ cat', readCatalog blob = .ok cat' ∧ cat.Equal cat' := by
  intro h
  obtain ⟨blob, hblob⟩ := exists_blob_unit [0x61, 0, 0x62] (by decide +kernel)
  obtain ⟨cat', hread, hequal⟩ := h _ blob ⟨by decide, by decide, by decide⟩
    (by decide) (by decide) (by decide) hblob
  have hcut : (writeCatalog (unitCatalog [0x61, 0, 0x62])).toOption.bind
      (fun blob => (readCatalog blob).toOption) = some (unitCatalog [0x61]) := by decide +kernel
  rw [hblob] at hcut
  obtain rfl : cat' = unitCatalog [0x61] := by
    change (readCatalog blob).toOption = _ at hcut
    rw [hread] at hcut
    exact Option.some.inj hcut
  obtain ⟨⟨-, hgroups⟩, -⟩ := forall₂_cons.mp hequal
  obtain ⟨⟨-, hfields⟩, -⟩ := forall₂_cons.mp hgroups
  obtain ⟨⟨hfield, -⟩, -⟩ := forall₂_cons.mp hfields
  exact absurd (congrArg Field.unit hfield) (by decide)

end Compiler

end EspCars.Uds
