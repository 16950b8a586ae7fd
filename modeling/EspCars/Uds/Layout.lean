import EspCars.Uds.Compiler

/-!
# The sections of a blob

Where the reader finds what `write_catalog` has laid out: it opens the blob, whatever lies behind
it in the mapped memory, and the record of every table is found at its index.
-/

namespace EspCars.Uds.Compiler

open EspCars.Lib Sections

/-- The records have the size of their table, and the strings have a NUL at either end. -/
structure Sections.WellFormed (s : Sections) : Prop where
  ecus : ∀ r ∈ s.ecus, r.length = ecuRecordSize
  groups : ∀ r ∈ s.groups, r.length = groupRecordSize
  fields : ∀ r ∈ s.fields, r.length = fieldRecordSize
  scales : ∀ r ∈ s.scales, r.length = scaleRecordSize
  index : ∀ r ∈ s.index, r.length = indexRecordSize
  first : s.strings.head? = some 0
  last : s.strings.getLast? = some 0

/-- A blob in memory, with what is mapped behind it. -/
structure Mapped (s : Sections) (flags : Nat) where
  header : List UInt8
  ext : List UInt8
  rest : List UInt8
  packedHeader : s.header flags (crc32Ieee (ext ++ s.body)).toNat = some header
  packedExt : s.ext = some ext

namespace Mapped

variable {s : Sections} {flags : Nat} (m : Mapped s flags)

def memory : List UInt8 := magic ++ (m.header ++ (m.ext ++ (s.body ++ m.rest)))

theorem exists_of_blobOf {blob : List UInt8} (h : blobOf s flags = some blob)
    (rest : List UInt8) : ∃ m : Mapped s flags, m.memory = blob ++ rest := by
  unfold blobOf at h
  obtain ⟨ext, hext, h⟩ := Option.bind_eq_some_iff.mp h
  obtain ⟨header, hheader, h⟩ := Option.bind_eq_some_iff.mp h
  refine ⟨⟨header, ext, rest, hheader, hext⟩, ?_⟩
  rw [← Option.some.inj h]
  simp only [memory, List.append_assoc]

theorem length_header : m.header.length = 56 := length_pack m.packedHeader

theorem length_ext : m.ext.length = 16 := length_pack m.packedExt

/-- A field of the header. -/
theorem load_header (i off : Nat) {w v : Nat} (hw : headerFields[i]? = some w)
    (hv : [catalogFormatVersion, flags, s.totalSize, (crc32Ieee (m.ext ++ s.body)).toNat,
      ecusOff, s.ecus.length, 0, s.groupsOff, s.groups.length, 0, s.fieldsOff,
      s.fields.length, 0, s.scalesOff, s.scales.length, 0, s.reqbytesOff, s.reqbytes.length,
      s.stringsOff][i]? = some v)
    (hoff : 8 + (headerFields.take i).sum = off) : loadLe w (m.memory.drop off) = v :=
  loadLe_record m.packedHeader magic _ i hw hv hoff

/-- A field of the header's extension. -/
theorem load_ext (i off : Nat) {w v : Nat} (hw : extFields[i]? = some w)
    (hv : [s.strings.length, s.indexOff, s.index.length, 0][i]? = some v)
    (hoff : 64 + (extFields.take i).sum = off) : loadLe w (m.memory.drop off) = v := by
  have hlen : (magic ++ m.header).length + (extFields.take i).sum = off := by
    rw [List.length_append, m.length_header]
    exact hoff
  have h := loadLe_record m.packedExt (magic ++ m.header) (s.body ++ m.rest) i hw hv hlen
  rw [List.append_assoc] at h
  exact h

/-- What the reader makes of the header. -/
def opened : Uds.Catalog where
  base := m.memory
  totalSize := s.totalSize
  flags := flags
  crc := (crc32Ieee (m.ext ++ s.body)).toNat
  ecusOff := Sections.ecusOff
  ecuCount := s.ecus.length
  groupsOff := s.groupsOff
  groupCount := s.groups.length
  fieldsOff := s.fieldsOff
  fieldCount := s.fields.length
  scalesOff := s.scalesOff
  scaleCount := s.scales.length
  reqbytesOff := s.reqbytesOff
  reqbytesLen := s.reqbytes.length
  stringsOff := s.stringsOff
  stringsLen := s.strings.length
  indexOff := s.indexOff
  indexCount := s.index.length

theorem ofHeader_memory : Uds.Catalog.ofHeader m.memory = m.opened := by
  unfold Uds.Catalog.ofHeader opened loadU16 loadU32
  rw [m.load_header 1 0x0A rfl rfl rfl, m.load_header 2 0x0C rfl rfl rfl,
    m.load_header 3 0x10 rfl rfl rfl, m.load_header 4 0x14 rfl rfl rfl,
    m.load_header 5 0x18 rfl rfl rfl, m.load_header 7 0x1C rfl rfl rfl,
    m.load_header 8 0x20 rfl rfl rfl, m.load_header 10 0x24 rfl rfl rfl,
    m.load_header 11 0x28 rfl rfl rfl, m.load_header 13 0x2C rfl rfl rfl,
    m.load_header 14 0x30 rfl rfl rfl, m.load_header 16 0x34 rfl rfl rfl,
    m.load_header 17 0x38 rfl rfl rfl, m.load_header 18 0x3C rfl rfl rfl,
    m.load_ext 0 0x40 rfl rfl rfl, m.load_ext 1 0x44 rfl rfl rfl, m.load_ext 2 0x48 rfl rfl rfl]

/-! ## Where the sections are -/

theorem drop_ecus : m.memory.drop ecusOff = s.body ++ m.rest := by
  have hsplit : m.memory = (magic ++ (m.header ++ m.ext)) ++ (s.body ++ m.rest) := by
    simp only [memory, List.append_assoc]
  rw [hsplit]
  apply List.drop_left'
  rw [List.length_append, List.length_append, m.length_header, m.length_ext]
  rfl

variable (h : s.WellFormed)

include h

theorem drop_groups : m.memory.drop s.groupsOff = s.groups.flatten ++ (s.fields.flatten ++
    (s.scales.flatten ++ (s.reqbytes ++ (List.replicate s.padding 0 ++ (s.index.flatten ++
      (s.strings ++ m.rest)))))) := by
  rw [groupsOff, ← List.drop_drop, m.drop_ecus]
  simp only [body, List.append_assoc]
  exact List.drop_left' (length_flatten h.ecus)

theorem drop_fields : m.memory.drop s.fieldsOff = s.fields.flatten ++ (s.scales.flatten ++
    (s.reqbytes ++ (List.replicate s.padding 0 ++ (s.index.flatten ++
      (s.strings ++ m.rest))))) := by
  rw [fieldsOff, ← List.drop_drop, m.drop_groups h]
  exact List.drop_left' (length_flatten h.groups)

theorem drop_scales : m.memory.drop s.scalesOff = s.scales.flatten ++ (s.reqbytes ++
    (List.replicate s.padding 0 ++ (s.index.flatten ++ (s.strings ++ m.rest)))) := by
  rw [scalesOff, ← List.drop_drop, m.drop_fields h]
  exact List.drop_left' (length_flatten h.fields)

theorem drop_reqbytes : m.memory.drop s.reqbytesOff = s.reqbytes ++
    (List.replicate s.padding 0 ++ (s.index.flatten ++ (s.strings ++ m.rest))) := by
  rw [reqbytesOff, ← List.drop_drop, m.drop_scales h]
  exact List.drop_left' (length_flatten h.scales)

theorem drop_index : m.memory.drop s.indexOff = s.index.flatten ++ (s.strings ++ m.rest) := by
  rw [indexOff, ← List.drop_drop, ← List.drop_drop, m.drop_reqbytes h, List.drop_left]
  exact List.drop_left' List.length_replicate

theorem drop_strings : m.memory.drop s.stringsOff = s.strings ++ m.rest := by
  rw [stringsOff, ← List.drop_drop, m.drop_index h]
  exact List.drop_left' (length_flatten h.index)

/-! ## Opening -/

theorem length_memory : m.memory.length = s.totalSize + m.rest.length := by
  have hle : s.stringsOff ≤ m.memory.length := by
    by_contra hlt
    have hnil := m.drop_strings h
    rw [List.drop_of_length_le (by omega)] at hnil
    have hfirst := h.first
    rw [(List.append_eq_nil_iff.mp hnil.symm).1] at hfirst
    cases hfirst
  have hlen := congrArg List.length (m.drop_strings h)
  rw [List.length_drop, List.length_append] at hlen
  rw [totalSize]
  omega

theorem strings_ne_nil : s.strings ≠ [] := by
  intro hnil
  have hfirst := h.first
  rw [hnil] at hfirst
  cases hfirst

omit h in
theorem tablesOk_opened : m.opened.tablesOk = true := by
  have hof : ∀ {off count size : Nat}, off % 4 = 0 → catalogMinSize ≤ off →
      off + count * size ≤ s.totalSize →
      Uds.Catalog.tableOk off count size s.totalSize = true := by
    intro off count size halign hmin hend
    exact decide_eq_true (Or.inr ⟨halign, hmin, hend⟩)
  simp only [Uds.Catalog.tablesOk, opened, Bool.and_eq_true]
  refine ⟨⟨⟨⟨?_, ?_⟩, ?_⟩, ?_⟩, ?_⟩ <;> apply hof <;>
    simp only [totalSize, stringsOff, indexOff, padding,
      reqbytesOff, scalesOff, fieldsOff, groupsOff,
      ecusOff, catalogMinSize, ecuRecordSize, groupRecordSize, fieldRecordSize,
      scaleRecordSize, indexRecordSize] <;>
    omega

theorem poolsOk_opened : m.opened.poolsOk = true := by
  have hfirst : loadU8 m.memory s.stringsOff = 0 := by
    rw [loadU8, m.drop_strings h]
    obtain ⟨c, strings, hstrings⟩ := List.exists_cons_of_ne_nil (strings_ne_nil h)
    have hc := h.first
    rw [hstrings] at hc
    cases hc
    rw [hstrings]
    rfl
  have hlast : loadU8 m.memory (s.stringsOff + s.strings.length - 1) = 0 := by
    have hpos := List.length_pos_iff.mpr (strings_ne_nil h)
    obtain ⟨strings, hstrings⟩ := List.getLast?_eq_some_iff.mp h.last
    have hlen := congrArg List.length hstrings
    rw [List.length_append, List.length_singleton] at hlen
    rw [loadU8, Nat.add_sub_assoc hpos, ← List.drop_drop, m.drop_strings h, hstrings,
      List.append_assoc, List.length_append, List.length_singleton, Nat.add_sub_cancel,
      List.drop_left]
    rfl
  have hof : ∀ {off len : Nat}, catalogMinSize ≤ off → off + len ≤ s.totalSize →
      Uds.Catalog.rangeOk off len s.totalSize = true := by
    intro off len hmin hend
    exact decide_eq_true (Or.inr ⟨hmin, hend⟩)
  have hpos := List.length_pos_iff.mpr (strings_ne_nil h)
  simp only [Uds.Catalog.poolsOk, opened, hfirst, hlast, Bool.and_eq_true, bne_iff_ne,
    beq_self_eq_true, and_true]
  refine ⟨⟨?_, ?_⟩, Nat.ne_of_gt hpos⟩ <;> apply hof <;>
    simp only [totalSize, stringsOff, indexOff, reqbytesOff,
      scalesOff, fieldsOff, groupsOff, ecusOff] <;>
    omega

/-- A blob that was written opens. -/
theorem open?_memory : Uds.Catalog.open? m.memory = some m.opened := by
  have hlen := m.length_memory h
  have htotal : catalogMinSize ≤ s.totalSize := by
    simp only [totalSize, stringsOff, indexOff, reqbytesOff,
      scalesOff, fieldsOff, groupsOff, ecusOff]
    omega
  have hmagic : m.memory.take 8 = magic := List.take_left' rfl
  have hversion : loadU16 m.memory 0x08 = catalogFormatVersion := m.load_header 0 0x08 rfl rfl rfl
  have hcrc : (crc32Ieee ((m.memory.take s.totalSize).drop 64)).toNat = m.opened.crc := by
    have hsplit : m.memory = (magic ++ m.header) ++ (m.ext ++ s.body) ++ m.rest := by
      simp only [memory, List.append_assoc]
    have hblob : ((magic ++ m.header) ++ (m.ext ++ s.body)).length = s.totalSize := by
      have heq := congrArg List.length hsplit
      rw [List.length_append] at heq
      omega
    rw [hsplit, List.take_left' hblob, List.drop_left' (by
      rw [List.length_append, m.length_header]
      rfl)]
    rfl
  simp only [Catalog.open?, m.ofHeader_memory, hmagic, hversion, m.tablesOk_opened,
    m.poolsOk_opened h, ne_eq, not_true_eq_false, if_false, Bool.not_true, Bool.false_eq_true]
  rw [if_neg (by omega), if_neg (by simp only [opened]; omega), if_neg (by
    rw [not_not]
    exact hcrc)]

/-! ## Reading the tables -/

variable {i : Nat} {record : List UInt8}

theorem exists_ecu (hi : s.ecus[i]? = some record) :
    ∃ rest, m.memory.drop (ecusOff + i * ecuRecordSize) = record ++ rest := by
  rw [← List.drop_drop, m.drop_ecus, body, List.append_assoc]
  exact drop_flatten h.ecus hi _

theorem exists_group (hi : s.groups[i]? = some record) :
    ∃ rest, m.memory.drop (s.groupsOff + i * groupRecordSize) = record ++ rest := by
  rw [← List.drop_drop, m.drop_groups h]
  exact drop_flatten h.groups hi _

theorem exists_field (hi : s.fields[i]? = some record) :
    ∃ rest, m.memory.drop (s.fieldsOff + i * fieldRecordSize) = record ++ rest := by
  rw [← List.drop_drop, m.drop_fields h]
  exact drop_flatten h.fields hi _

theorem exists_scale (hi : s.scales[i]? = some record) :
    ∃ rest, m.memory.drop (s.scalesOff + i * scaleRecordSize) = record ++ rest := by
  rw [← List.drop_drop, m.drop_scales h]
  exact drop_flatten h.scales hi _

theorem exists_entry (hi : s.index[i]? = some record) :
    ∃ rest, m.memory.drop (s.indexOff + i * indexRecordSize) = record ++ rest := by
  rw [← List.drop_drop, m.drop_index h]
  exact drop_flatten h.index hi _

/-- An interned string. -/
theorem string_opened {ref : Nat} {name : List UInt8}
    (hname : Pool.Holds s.strings ref (name ++ [0])) : m.opened.string ref = cstr name := by
  have hlt : ref < s.strings.length := hname.lt_length (List.concat_ne_nil _ _)
  obtain ⟨hle, rest, hrest⟩ := hname
  rw [Uds.Catalog.string, if_neg (show ¬ m.opened.stringsLen ≤ ref from Nat.not_le.mpr hlt)]
  show cstr (m.memory.drop (s.stringsOff + ref)) = _
  rw [← List.drop_drop, m.drop_strings h, List.drop_append_of_le_length hle, ← hrest,
    List.append_assoc, List.append_assoc]
  exact cstr_append_zero name _

/-- The request bytes of a view that refers to them. -/
theorem requestBytes_opened {g : GroupView} {off : Nat} {request : List UInt8}
    (hrequest : Pool.Holds s.reqbytes off request) (hoff : g.reqOff = s.reqbytesOff + off)
    (hlen : g.reqLen = request.length) (hpos : request ≠ []) :
    m.opened.requestBytes g = some request := by
  obtain ⟨hle, rest, hrest⟩ := hrequest
  have hin := congrArg List.length hrest
  rw [List.length_append, List.length_drop] at hin
  have hlenpos := List.length_pos_iff.mpr hpos
  rw [Uds.Catalog.requestBytes, if_neg (by omega), if_neg (by simp only [opened]; omega),
    if_neg (by simp only [opened]; omega)]
  show some ((m.memory.drop g.reqOff).take g.reqLen) = _
  rw [hoff, hlen, ← List.drop_drop, m.drop_reqbytes h, List.drop_append_of_le_length hle, ← hrest,
    List.append_assoc, List.take_left]

end Mapped

end EspCars.Uds.Compiler
