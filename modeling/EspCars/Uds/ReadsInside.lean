import EspCars.Uds.Loads

/-!
# The reader stays inside the blob

A matching checksum says nothing about what the records hold, so that every offset, count, reference
and index of an open catalog is arbitrary. The checks of `open` bound the tables and the pools, the
accessors bound the index, and the decoder bounds the bits: no load is outside its region, and what
is loaded is what the reader is said to see.
-/

namespace EspCars.Uds

open EspCars.Lib

/-- What `open` leaves behind. -/
structure Inside (c : Catalog) : Prop where
  total : c.totalSize ≤ c.base.length
  small : c.totalSize < 2 ^ 32
  tables : c.tablesOk = true
  requests : Catalog.rangeOk c.reqbytesOff c.reqbytesLen c.totalSize = true
  strings : c.stringsOff + c.stringsLen ≤ c.totalSize
  nul : c.base[c.stringsOff + c.stringsLen - 1]? = some 0
  entries : c.indexCount < 2 ^ 32

theorem byte_of_loadU8 {s : List UInt8} {i : Nat} (hi : i < s.length) (h : loadU8 s i = 0) :
    s[i]? = some 0 := by
  have hvalue : loadU8 s i = s[i].toNat := by
    rw [loadU8, List.drop_eq_getElem_cons hi, loadLe, List.headD_cons, loadLe]
    omega
  rw [List.getElem?_eq_getElem hi, Option.some.injEq]
  apply UInt8.toNat_inj.mp
  rw [← hvalue, h]
  rfl

theorem inside_of_open {mapped : List UInt8} {c : Catalog} (h : Catalog.open? mapped = some c) :
    Inside c := by
  unfold Catalog.open? at h
  dsimp only at h
  split_ifs at h with hlength hmagic hversion htotal htables hpools hcrc
  cases h
  rw [Bool.not_eq_true, Bool.not_eq_false'] at htables hpools
  obtain ⟨hrequests, hstrings, hsome, -, hlast⟩ := poolsOk_iff.mp hpools
  have hend := ((rangeOk_iff.mp hstrings).resolve_left hsome).2
  have hsize : (Catalog.ofHeader mapped).totalSize ≤ mapped.length := by omega
  exact
    { total := hsize
      small := loadLe_lt 4 _
      tables := htables
      requests := hrequests
      strings := hend
      nul := byte_of_loadU8 (by show _ < mapped.length; omega) hlast
      entries := loadLe_lt 4 _ }

namespace Loading

/-! ## Single loads -/

section

variable {w : Nat} {c : Uds.Catalog} (hc : Inside c)

include hc

theorem loadU8_at {r k : Nat} (h : r + k + 1 ≤ c.totalSize) :
    loadU8 (region c) (r + k) = some (Uds.loadU8 (c.base.drop r) k) := by
  rw [loadU8, region, fetchLe_take hc.total (by omega), Uds.loadU8, List.drop_drop]

theorem loadU16_at {r k : Nat} (h : r + k + 2 ≤ c.totalSize) :
    loadU16 (region c) (r + k) = some (Uds.loadU16 (c.base.drop r) k) := by
  rw [loadU16, region, fetchLe_take hc.total (by omega), Uds.loadU16, List.drop_drop]

theorem loadU32_at {r k : Nat} (h : r + k + 4 ≤ c.totalSize) :
    loadU32 (region c) (r + k) = some (Uds.loadU32 (c.base.drop r) k) := by
  rw [loadU32, region, fetchLe_take hc.total (by omega), Uds.loadU32, List.drop_drop]

theorem loadU32_first {r : Nat} (h : r + 4 ≤ c.totalSize) :
    loadU32 (region c) r = some (Uds.loadU32 (c.base.drop r) 0) :=
  loadU32_at hc (k := 0) h

/-- The NUL at the end of the pool ends every string of it. -/
theorem string_eq (ref : Nat) : string c ref = some (c.string ref) := by
  unfold string Uds.Catalog.string
  split_ifs with href
  · rfl
  · have hstrings := hc.strings
    exact fetchCstr_take hc.total hc.nul (by omega) (by omega) (by omega)

/-- The offset of a record does not wrap, and the record is inside. -/
theorem recordAt_eq (hw : 32 ≤ w) {off count size i : Nat}
    (htable : Uds.Catalog.tableOk off count size c.totalSize = true) (hi : i < count) :
    recordAt w off i size = off + i * size ∧ off + i * size + size ≤ c.totalSize := by
  unfold Uds.Catalog.tableOk at htable
  rw [decide_eq_true_iff] at htable
  have hend := (htable.resolve_left (by omega)).2.2
  have hrow : (i + 1) * size ≤ count * size := Nat.mul_le_mul_right size hi
  rw [Nat.add_one_mul] at hrow
  have hsmall := hc.small
  have hpow : 2 ^ 32 ≤ 2 ^ w := Nat.pow_le_pow_right Nat.two_pos hw
  rw [recordAt, Nat.mod_eq_of_lt (by omega)]
  exact ⟨rfl, by omega⟩

/-! ## The accessors -/

theorem ecu_eq (hw : 32 ≤ w) (i : Nat) : ecu w c i = some (c.ecu i) := by
  unfold ecu Uds.Catalog.ecu
  split_ifs with hi
  · rfl
  obtain ⟨hrecord, hend⟩ := recordAt_eq hc hw (tablesOk_iff.mp hc.tables).1 (Nat.not_le.mp hi)
  dsimp only
  rw [hrecord]
  generalize c.ecusOff + i * ecuRecordSize = r at hend ⊢
  simp only [ecuRecordSize] at hend
  rw [loadU32_first hc (by omega)]
  simp (disch := omega) only [loadU32_at hc, loadU16_at hc, loadU8_at hc,
    string_eq hc, Option.bind_eq_bind, Option.bind_some, Option.pure_def]

theorem group_eq (hw : 32 ≤ w) (i : Nat) : group w c i = some (c.group i) := by
  unfold group Uds.Catalog.group
  split_ifs with hi
  · rfl
  obtain ⟨hrecord, hend⟩ := recordAt_eq hc hw (tablesOk_iff.mp hc.tables).2.1 (Nat.not_le.mp hi)
  dsimp only
  rw [hrecord]
  generalize c.groupsOff + i * groupRecordSize = r at hend ⊢
  simp only [groupRecordSize] at hend
  rw [loadU32_first hc (by omega)]
  simp (disch := omega) only [loadU32_at hc, loadU16_at hc, loadU8_at hc,
    string_eq hc, Option.bind_eq_bind, Option.bind_some, Option.pure_def]

theorem field_eq (hw : 32 ≤ w) (i : Nat) : field w c i = some (c.field i) := by
  unfold field Uds.Catalog.field
  split_ifs with hi
  · rfl
  obtain ⟨hrecord, hend⟩ := recordAt_eq hc hw (tablesOk_iff.mp hc.tables).2.2.1 (Nat.not_le.mp hi)
  dsimp only
  rw [hrecord]
  generalize c.fieldsOff + i * fieldRecordSize = r at hend ⊢
  simp only [fieldRecordSize] at hend
  rw [loadU32_first hc (by omega)]
  simp (disch := omega) only [loadU32_at hc, loadU16_at hc, loadU8_at hc,
    string_eq hc, Option.bind_eq_bind, Option.bind_some, Option.pure_def]

theorem scale_eq (hw : 32 ≤ w) (i : Nat) : scale w c i = some (c.scale i) := by
  unfold scale Uds.Catalog.scale
  split_ifs with hi
  · rfl
  obtain ⟨hrecord, hend⟩ :=
    recordAt_eq hc hw (tablesOk_iff.mp hc.tables).2.2.2.1 (Nat.not_le.mp hi)
  dsimp only
  rw [hrecord]
  generalize c.scalesOff + i * scaleRecordSize = r at hend ⊢
  simp only [scaleRecordSize] at hend
  rw [loadU32_first hc (by omega)]
  simp (disch := omega) only [loadU32_at hc, loadU16_at hc, string_eq hc,
    Option.bind_eq_bind, Option.bind_some, Option.pure_def]
  rfl

theorem requestBytes_eq (g : GroupView) : requestBytes c g = some (c.requestBytes g) := by
  unfold requestBytes Uds.Catalog.requestBytes
  split_ifs with hempty hbelow habove
  · rfl
  · rfl
  · rfl
  · have hrequests := hc.requests
    rw [rangeOk_iff] at hrequests
    have hend := (hrequests.resolve_left (by omega)).2
    rw [region, fetchBytes_take hc.total (by omega)]
    rfl

/-! ## `find` -/

theorem lowerBound_eq (hw : 32 ≤ w) (h : Nat) {turns lo hi : Nat} (hturns : hi - lo ≤ turns)
    (hhi : hi ≤ c.indexCount) :
    lowerBound w c h (turns + 1) lo hi = some (Lib.lowerBound c.entryHash h turns lo hi) := by
  induction turns generalizing lo hi with
  | zero =>
    rw [lowerBound, if_neg (by omega), Lib.lowerBound]
  | succ turns ih =>
    rw [lowerBound, Lib.lowerBound]
    split_ifs with hlt
    · have hentries := hc.entries
      dsimp only
      rw [u32_eq (n := lo + (hi - lo) / 2) (by omega), u32_eq (by omega)]
      obtain ⟨hrecord, hend⟩ := recordAt_eq hc hw (i := lo + (hi - lo) / 2)
        (tablesOk_iff.mp hc.tables).2.2.2.2 (by omega)
      simp only [indexRecordSize] at hrecord hend ⊢
      rw [hrecord, loadU32_at hc (by omega)]
      show (if Uds.Catalog.entryHash c _ < h then _ else _) = _
      split_ifs with hkey
      · exact ih (by omega) hhi
      · exact ih (by omega) (by omega)
    · rfl

/-- The walk sees the entries of its hash one after the other. -/
theorem walk_eq (hw : 32 ≤ w) (name : List UInt8) (kind : NameKind) (h : Nat) {n i turns : Nat}
    (hi : i + n = c.indexCount) (hturns : n < turns) :
    walk w c name kind h turns i =
      some (((List.range' i n).takeWhile fun i => c.entryHash i = h).findSome?
        (c.candidate name kind)) := by
  induction n generalizing i turns with
  | zero =>
    obtain ⟨turns, rfl⟩ := Nat.exists_eq_add_of_le' hturns
    rw [walk, if_pos (by omega)]
    rfl
  | succ n ih =>
    obtain ⟨turns, rfl⟩ := Nat.exists_eq_add_of_le' (Nat.zero_lt_of_lt hturns)
    have hentries := hc.entries
    obtain ⟨hrecord, hend⟩ := recordAt_eq hc hw (i := i)
      (tablesOk_iff.mp hc.tables).2.2.2.2 (by omega)
    have hnext := @ih (i + 1) turns (by omega) (by omega)
    rw [walk, if_neg (by omega), List.range'_succ, List.takeWhile_cons]
    dsimp only
    rw [u32_eq (n := i + 1) (by omega), hnext, hrecord]
    simp only [indexRecordSize] at hend
    rw [loadU32_at hc (by simp only [indexRecordSize]; omega),
      loadU32_at hc (by simp only [indexRecordSize]; omega),
      loadU32_at hc (by simp only [indexRecordSize]; omega)]
    simp only [Option.bind_eq_bind, Option.bind_some, string_eq hc]
    change (if Uds.Catalog.entryHash c i ≠ h then _ else _) = _
    by_cases hkey : c.entryHash i = h
    · rw [if_neg (not_not.mpr hkey), if_pos (decide_eq_true hkey), List.findSome?_cons]
      unfold Uds.Catalog.candidate
      dsimp only
      split_ifs <;> rfl
    · rw [if_pos hkey, if_neg (by simpa using hkey)]
      rfl

/-- Both loops of `find` end. -/
theorem find_eq (hw : 32 ≤ w) (name : List UInt8) (kind : NameKind) :
    find w c name kind = some (c.find name kind) := by
  unfold find Uds.Catalog.find
  dsimp only
  rw [lowerBound_eq hc hw _ (by omega) le_rfl]
  have hlo : Lib.lowerBound c.entryHash (fnv1a name).toNat c.indexCount 0 c.indexCount ≤
      c.indexCount := lowerBound_le _ _ _ (Nat.zero_le _)
  exact walk_eq hc hw name kind _ (by omega) (by omega)

/-! ## The decoder -/

theorem matchRow_eq (hw : 32 ≤ w) {scaleFirst : Nat} (raw : Int) {i n : Nat}
    (hrows : scaleFirst + i + n < 2 ^ 32) :
    matchRow w c scaleFirst raw i n = some (c.matchRow scaleFirst raw i n) := by
  induction n generalizing i with
  | zero => rfl
  | succ n ih =>
    rw [matchRow, Uds.Catalog.matchRow, u32_eq (by omega), scale_eq hc hw,
      ih (i := i + 1) (by omega)]
    cases c.scale (scaleFirst + i) with
    | none => rfl
    | some row =>
      simp only [Option.bind_eq_bind, Option.bind_some]
      split_ifs <;> rfl

theorem evaluateScales_eq (hw : 32 ≤ w) {f : FieldView}
    (hrows : f.scaleFirst + f.scaleCount < 2 ^ 32) (raw : Int) :
    evaluateScales w c f raw = some (c.evaluateScales f raw) := by
  unfold evaluateScales Uds.Catalog.evaluateScales
  rw [matchRow_eq hc hw raw (by omega)]
  split_ifs
  · rfl
  · cases c.matchRow f.scaleFirst raw 0 f.scaleCount with
    | none => rfl
    | some row => rfl

end

/-- The bits up to the end of a field are pushed one by one. -/
theorem foldlM_pushBit {resp : List UInt8} {first n : Nat} (hn : first + n ≤ 8 * resp.length)
    (hsmall : first + n < 2 ^ 32) :
    (List.range n).foldlM (pushBit resp first) 0 = some (readBits resp first n) := by
  induction n with
  | zero => rfl
  | succ n ih =>
    have hbyte : (first + n) / 8 < resp.length := by omega
    rw [readBits, List.range_succ, List.foldlM_append, List.foldl_append, ih (by omega) (by omega)]
    simp only [List.foldlM_cons, List.foldlM_nil, List.foldl_cons, List.foldl_nil,
      Option.bind_eq_bind, Option.bind_some, pushBit, fetch]
    rw [u32_eq (by omega), List.getElem?_eq_getElem hbyte]
    simp only [Option.bind_some, Option.pure_def, bitAt, List.getD_eq_getElem _ _ hbyte]
    rfl

end Loading

/-- The members of a view are of 16 and 8 bits. -/
structure FieldView.Typed (f : FieldView) : Prop where
  bitPos : f.bitPos < 2 ^ 16
  bitSize : f.bitSize < 2 ^ 8
  scaleFirst : f.scaleFirst < 2 ^ 16
  scaleCount : f.scaleCount < 2 ^ 8
  repeatCount : f.repeatCount < 2 ^ 8
  repeatStride : f.repeatStride < 2 ^ 16

namespace Loading

section

variable {f : FieldView} (hf : f.Typed)

include hf

/-- The first bit of an element that exists fits a `uint32_t`, and is where it should be. -/
theorem start_eq {element : Nat} (helement : element < f.repeatCount) :
    start f element = f.start element ∧ f.start element < 2 ^ 25 := by
  have hcount := hf.repeatCount
  have hstride := hf.repeatStride
  have hpos := hf.bitPos
  have hproduct : element * f.repeatStride ≤ 2 ^ 8 * 2 ^ 16 :=
    Nat.mul_le_mul (by omega) (by omega)
  rw [start, u32_eq (n := element * f.repeatStride) (by omega), u32_eq (by omega)]
  unfold FieldView.start
  exact ⟨rfl, by omega⟩

theorem extractRaw_eq (resp : List UInt8) (element : Nat) :
    extractRaw resp f element = some (Uds.extractRaw resp f element) := by
  unfold extractRaw Uds.extractRaw
  by_cases hsize : f.bitSize = 0 ∨ 64 < f.bitSize
  · rw [if_pos hsize, if_pos hsize]
  rw [if_neg hsize, if_neg hsize]
  by_cases hcount : f.repeatCount = 0 ∨ f.repeatCount ≤ element
  · rw [if_pos hcount, if_pos hcount]
  rw [if_neg hcount, if_neg hcount]
  obtain ⟨hstart, hsmall⟩ := start_eq hf (show element < f.repeatCount by omega)
  rw [hstart, u32_eq (n := f.start element + f.bitSize) (by omega), u32_eq (by omega)]
  split_ifs with hshort
  · rfl
  · rw [foldlM_pushBit (by omega) (by omega)]
    rfl

theorem fieldBytes_eq (resp : List UInt8) (element : Nat) :
    fieldBytes resp f element = some (Uds.fieldBytes resp f element) := by
  unfold fieldBytes Uds.fieldBytes
  by_cases hcount : f.bitSize = 0 ∨ f.repeatCount = 0 ∨ f.repeatCount ≤ element
  · rw [if_pos hcount, if_pos hcount]
  rw [if_neg hcount, if_neg hcount, (start_eq hf (show element < f.repeatCount by omega)).1]
  split_ifs with hunaligned hshort
  · rfl
  · rfl
  · rw [fetchBytes_all (by omega)]
    rfl

theorem decodeNumeric_eq {w : Nat} {c : Uds.Catalog} (hc : Inside c) (hw : 32 ≤ w)
    (resp : List UInt8) (element : Nat) :
    decodeNumeric w c f resp element = some (c.decodeNumeric f resp element) := by
  have hfirst := hf.scaleFirst
  have hcount := hf.scaleCount
  unfold decodeNumeric Uds.Catalog.decodeNumeric
  rw [extractRaw_eq hf]
  cases Uds.extractRaw resp f element with
  | none => rfl
  | some raw => exact evaluateScales_eq hc hw (by omega) raw

end

/-! ## `open` -/

theorem readHeader_eq {mapped : List UInt8} (h : catalogMinSize ≤ mapped.length) :
    readHeader mapped = some (Uds.Catalog.ofHeader mapped) := by
  have h32 : ∀ k, k + 4 ≤ 0x50 → loadU32 mapped k = some (Uds.loadU32 mapped k) :=
    fun k hk => fetchLe_all (Nat.le_trans hk h)
  have h16 : ∀ k, k + 2 ≤ 0x50 → loadU16 mapped k = some (Uds.loadU16 mapped k) :=
    fun k hk => fetchLe_all (Nat.le_trans hk h)
  unfold readHeader Uds.Catalog.ofHeader
  simp (disch := omega) only [h32, h16, Option.bind_eq_bind, Option.bind_some, Option.pure_def]

theorem poolsOk_eq {mapped : List UInt8} {c : Uds.Catalog} (hbase : c.base = mapped)
    (htotal : c.totalSize ≤ mapped.length) (hsmall : c.totalSize < 2 ^ 32) :
    poolsOk mapped c = some c.poolsOk := by
  unfold poolsOk Uds.Catalog.poolsOk
  cases hrequests : Uds.Catalog.rangeOk c.reqbytesOff c.reqbytesLen c.totalSize with
  | false => rfl
  | true =>
    cases hstrings : Uds.Catalog.rangeOk c.stringsOff c.stringsLen c.totalSize with
    | false => rfl
    | true =>
      by_cases hempty : c.stringsLen = 0
      · simp [hempty]
      have hend := ((rangeOk_iff.mp hstrings).resolve_left hempty).2
      rw [u32_eq (by omega), loadU8, loadU8, fetchLe_all (by omega), fetchLe_all (by omega),
        hbase]
      by_cases hfirst : loadLe 1 (mapped.drop c.stringsOff) = 0
      · simp [hempty, hfirst, Uds.loadU8, bne, beq_eq_decide]
      · simp [hempty, hfirst, Uds.loadU8]

theorem open?_eq (mapped : List UInt8) : open? mapped = some (Uds.Catalog.open? mapped) := by
  unfold open? Uds.Catalog.open?
  by_cases hlength : mapped.length < catalogMinSize
  · simp only [hlength, if_true]
  have hmin : catalogMinSize ≤ mapped.length := Nat.not_lt.mp hlength
  have hwithin : 0x50 ≤ mapped.length := hmin
  have hversion : loadU16 mapped 0x08 = some (Uds.loadU16 mapped 0x08) := fetchLe_all (by omega)
  have htotal : loadU32 mapped 0x0C = some (Uds.Catalog.ofHeader mapped).totalSize :=
    fetchLe_all (by omega)
  rw [if_neg hlength, fetchBytes_all (by omega), hversion, htotal, readHeader_eq hmin]
  simp only [hlength, if_false, List.drop_zero, Option.bind_eq_bind, Option.bind_some]
  by_cases hmagic : mapped.take 8 ≠ magic
  · rw [if_pos hmagic, if_pos hmagic]
  rw [if_neg hmagic, if_neg hmagic]
  by_cases hformat : Uds.loadU16 mapped 0x08 ≠ catalogFormatVersion
  · rw [if_pos hformat, if_pos hformat]
  rw [if_neg hformat, if_neg hformat]
  by_cases hsize : (Uds.Catalog.ofHeader mapped).totalSize < catalogMinSize ∨
      mapped.length < (Uds.Catalog.ofHeader mapped).totalSize
  · rw [if_pos hsize, if_pos hsize]
  rw [if_neg hsize, if_neg hsize]
  have hinside : (Uds.Catalog.ofHeader mapped).totalSize ≤ mapped.length := by omega
  have hsmall : (Uds.Catalog.ofHeader mapped).totalSize < 2 ^ 32 := loadLe_lt 4 _
  have hbody : 64 ≤ (Uds.Catalog.ofHeader mapped).totalSize := by
    have : ¬(Uds.Catalog.ofHeader mapped).totalSize < 0x50 := fun h => hsize (.inl h)
    omega
  have hpools : poolsOk mapped (Uds.Catalog.ofHeader mapped) =
      some (Uds.Catalog.ofHeader mapped).poolsOk := poolsOk_eq rfl hinside hsmall
  rw [hpools, u32_eq (by omega), fetchBytes_all (by omega), ← List.drop_take]
  simp only [Option.bind_some, Option.pure_def]
  split_ifs <;> rfl

end Loading

/-- Whatever was mapped, `open` loads inside it; and whatever it opened, no accessor, lookup or
decoding of any argument loads outside the blob or the response, and each of them ends. -/
theorem reads_inside {w : Nat} (hw : 32 ≤ w) (mapped : List UInt8) :
    Loading.open? mapped = some (Catalog.open? mapped) ∧
      (∀ (f : FieldView), f.Typed → ∀ (resp : List UInt8) (element : Nat),
        Loading.extractRaw resp f element = some (extractRaw resp f element) ∧
          Loading.fieldBytes resp f element = some (fieldBytes resp f element)) ∧
      ∀ c, Catalog.open? mapped = some c →
        (∀ i, Loading.ecu w c i = some (c.ecu i)) ∧ (∀ i, Loading.group w c i = some (c.group i)) ∧
        (∀ i, Loading.field w c i = some (c.field i)) ∧
        (∀ i, Loading.scale w c i = some (c.scale i)) ∧
        (∀ g, Loading.requestBytes c g = some (c.requestBytes g)) ∧
        (∀ ref, Loading.string c ref = some (c.string ref)) ∧
        (∀ name kind, Loading.find w c name kind = some (c.find name kind)) ∧
        ∀ (f : FieldView), f.Typed →
          (∀ raw, Loading.evaluateScales w c f raw = some (c.evaluateScales f raw)) ∧
          ∀ (resp : List UInt8) (element : Nat),
            Loading.decodeNumeric w c f resp element = some (c.decodeNumeric f resp element) := by
  refine ⟨Loading.open?_eq mapped, ?_, ?_⟩
  · intro f hf resp element
    exact ⟨Loading.extractRaw_eq hf resp element, Loading.fieldBytes_eq hf resp element⟩
  · intro c hopen
    have hc := inside_of_open hopen
    refine ⟨Loading.ecu_eq hc hw, Loading.group_eq hc hw, Loading.field_eq hc hw,
      Loading.scale_eq hc hw, Loading.requestBytes_eq hc, Loading.string_eq hc,
      Loading.find_eq hc hw, ?_⟩
    intro f hf
    have hfirst := hf.scaleFirst
    have hcount := hf.scaleCount
    exact ⟨Loading.evaluateScales_eq hc hw (by omega), Loading.decodeNumeric_eq hf hc hw⟩

open Compiler in
/-- Every accessor of a compiled catalog, and its field in a response. -/
theorem reads_inside_wideBlob :
    32 ≤ 32 ∧ wideView.Typed ∧
      Catalog.open? wideBlob = some (Catalog.ofHeader wideBlob) ∧
      Loading.field 32 (Catalog.ofHeader wideBlob) 0 = some (some wideView) ∧
      Loading.extractRaw (wideResponse [0, 0, 0, 0, 0, 0, 0, 5]) wideView 0 =
        some (extractRaw (wideResponse [0, 0, 0, 0, 0, 0, 0, 5]) wideView 0) := by
  have hview : wideView.Typed := by constructor <;> decide
  obtain ⟨-, hdecode, hopened⟩ := reads_inside (le_refl 32) wideBlob
  refine ⟨le_rfl, hview, open?_wideBlob, ?_, (hdecode wideView hview _ 0).1⟩
  rw [(hopened _ open?_wideBlob).2.2.1 0, field_wideBlob]

end EspCars.Uds
