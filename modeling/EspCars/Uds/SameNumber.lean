import EspCars.Uds.Accepted
import EspCars.Uds.Decode

/-!
# The same number on both sides

What the device decodes from a response, against what the compiler's twin of its decoder does, for
every blob that the compiler's reader accepts. Both take the same number out of the same bits
(`reading`), the device modulo `2 ^ 64`. They agree on an element exactly if the device has the
number and the text of its row is marked as one, or if no row matches on either side.
-/

namespace EspCars.Uds

open EspCars.Lib Compiler List

/-! ## Rows -/

/-- What the compiler's reader makes of a row. -/
def scaleOf (row : ScaleView) : Scale where
  low := row.low
  high := row.high
  factor := row.factor
  offset := row.offset
  text := row.text
  invalid := row.invalid

variable {c : Uds.Catalog} {i first k : Nat} {scales : List Scale} {raw : Int} {f : Field}
  {resp : List UInt8} {v : FieldView}

theorem readScale_eq_ok {s : Scale} (hi : i < c.scaleCount)
    (h : readScale c i = .ok s) : ∃ row, c.scale i = some row ∧ s = scaleOf row := by
  unfold readScale at h
  obtain ⟨text, htext, h⟩ := bind_eq_ok.mp h
  rw [Uds.Catalog.scale, if_neg (Nat.not_le.mpr hi)]
  refine ⟨_, rfl, ?_⟩
  have hs := Except.ok.inj h
  rw [(readStr_eq_ok.mp htext).2.2] at hs
  unfold scaleOf ScaleView.invalid
  dsimp only
  exact hs.symm

/-- The scales are the rows from `first` on. -/
def RowsFrom (c : Uds.Catalog) (first : Nat) (scales : List Scale) : Prop :=
  ∀ j s, scales[j]? = some s → ∃ row, c.scale (first + j) = some row ∧ s = scaleOf row

theorem rowsFrom_of_readScales (h : readScales c = .ok scales) (first n : Nat) :
    RowsFrom c first ((scales.drop first).take n) := by
  obtain ⟨hlen, hread⟩ := mapM_range_eq_ok.mp h
  intro j s hj
  obtain ⟨hlt, -⟩ := List.getElem?_eq_some_iff.mp hj
  rw [length_take] at hlt
  rw [getElem?_take_of_lt (by omega), getElem?_drop] at hj
  obtain ⟨hin, -⟩ := List.getElem?_eq_some_iff.mp hj
  exact readScale_eq_ok (hlen ▸ hin) (hread _ _ hj)

theorem RowsFrom.tail {s : Scale}
    (h : RowsFrom c (first + i) (s :: scales)) : RowsFrom c (first + (i + 1)) scales := by
  intro j s' hj
  obtain ⟨row, hrow, hs⟩ := h (j + 1) s' hj
  refine ⟨row, ?_, hs⟩
  rw [← hrow]
  congr 1
  omega

/-- The loop over the rows finds the first one that contains the value. -/
theorem find_matchRow (h : RowsFrom c (first + i) scales) (raw : Int) :
    (c.matchRow first raw i scales.length).map (fun p => scaleOf p.2) =
        scales.find? (fun s => s.Contains raw) ∧
      (c.matchRow first raw i scales.length).map Prod.fst =
        (scales.findIdx? fun s => s.Contains raw).map (i + ·) := by
  induction scales generalizing i with
  | nil => exact ⟨rfl, rfl⟩
  | cons s scales ih =>
    obtain ⟨row, hrow, rfl⟩ := h 0 s rfl
    rw [Nat.add_zero] at hrow
    rw [length_cons, Uds.Catalog.matchRow, hrow]
    dsimp only
    have hsame : (scaleOf row).Contains raw ↔ row.Contains raw := Iff.rfl
    by_cases hraw : row.Contains raw
    · simp only [find?_cons, findIdx?_cons, hsame, hraw, decide_true, if_true]
      exact ⟨rfl, rfl⟩
    · obtain ⟨hfind, hidx⟩ := ih h.tail
      simp only [find?_cons, findIdx?_cons, hsame, hraw, decide_false, if_false, hfind, hidx,
        Bool.false_eq_true, Option.map_map, true_and]
      congr 1
      funext j
      rw [Function.comp_apply]
      omega

theorem loadI32_lt (s : List UInt8) (off : Nat) : loadI32 s off < 2 ^ 31 := by
  have hlt := Int.bmod_lt (x := loadU32 s off) (m := 0x100000000) (by decide)
  unfold loadI32
  omega

/-- No row reaches up to `2 ^ 31`. -/
theorem RowsFrom.not_contains (h : RowsFrom c first scales) (hraw : 2 ^ 31 ≤ raw) :
    ∀ s ∈ scales, ¬s.Contains raw := by
  intro s hs hcontains
  obtain ⟨j, hj⟩ := List.getElem?_of_mem hs
  obtain ⟨row, hrow, rfl⟩ := h j s hj
  unfold Uds.Catalog.scale at hrow
  split_ifs at hrow
  have hhigh : row.high < 2 ^ 31 := by
    rw [← Option.some.inj hrow]
    dsimp only
    exact loadI32_lt _ _
  have hle : raw ≤ row.high := hcontains.2
  omega

/-! ## Fields -/

/-- What the compiler's reader makes of a field record and the scale rows. -/
def fieldOf (scales : List Scale) (v : FieldView) : Field where
  name := v.name
  bitPos := v.bitPos
  bitSize := v.bitSize
  unit := v.unit
  signed := v.signed
  byteswap := v.byteswap
  ascii := v.flags.testBit 2
  hexdump := v.flags.testBit 3
  scales := (scales.drop v.scaleFirst).take v.scaleCount
  repeatCount := max v.repeatCount 1
  repeatStride := v.repeatStride

theorem readField_eq_ok {gi : Nat}
    (hi : i < c.fieldCount) (h : readField c scales i = .ok (f, gi)) :
    ∃ v, c.field i = some v ∧ f = fieldOf scales v ∧
      v.scaleFirst + v.scaleCount ≤ c.scaleCount ∧
      (f.block = false → 1 ≤ v.bitSize ∧ v.bitSize ≤ 64) := by
  unfold readField at h
  obtain ⟨_, hrun, h⟩ := bind_eq_ok.mp h
  obtain ⟨_, _, h⟩ := bind_eq_ok.mp h
  obtain ⟨_, hsize, h⟩ := bind_eq_ok.mp h
  obtain ⟨name, hname, h⟩ := bind_eq_ok.mp h
  obtain ⟨unit, hunit, h⟩ := bind_eq_ok.mp h
  have hf := congrArg Prod.fst (Except.ok.inj h)
  rw [Uds.Catalog.field, if_neg (Nat.not_le.mpr hi)]
  refine ⟨_, rfl, ?_, demand_eq_ok.mp hrun, ?_⟩
  · rw [← show _ = f from hf, (readStr_eq_ok.mp hname).2.2,
      (readStr_eq_ok.mp hunit).2.2]
    rfl
  · intro hblock
    unfold checkBits at hsize
    split at hsize
    · next htrue =>
      rw [← show _ = f from hf] at hblock
      exact absurd (show (false : Bool) = true from hblock.symm.trans htrue) Bool.false_ne_true
    · exact demand_eq_ok.mp hsize

/-! ## The number in an element -/

/-- The element is inside the response. -/
def Covers (resp : List UInt8) (f : Field) (k : Nat) : Prop :=
  f.bitPos + k * f.repeatStride + f.bitSize ≤ 8 * resp.length

instance (resp : List UInt8) (f : Field) (k : Nat) : Decidable (Covers resp f k) :=
  inferInstanceAs (Decidable (_ ≤ _))

/-- The number in the bits of an element: the bytes in the other order, then the sign. -/
def reading (f : Field) (resp : List UInt8) (k : Nat) : Int :=
  let raw := bitsAt resp (f.bitPos + k * f.repeatStride) f.bitSize
  let raw := if f.byteswap then swapBytes ((f.bitSize + 7) / 8) raw else raw
  if f.signed ∧ f.bitSize < 64 then signExtend f.bitSize raw else raw

/-- The bits that the twin collects. -/
theorem foldlM_pushBit {start n : Nat} (h : start + n ≤ 8 * resp.length) :
    (List.range n).foldlM (pushBit resp start) 0 = .ok (bitsAt resp start n) := by
  induction n with
  | zero => rfl
  | succ n ih =>
    have hin : (start + n) / 8 < resp.length := by omega
    rw [range_succ, foldlM_append, ih (by omega)]
    refine bind_eq_ok.mpr ⟨_, rfl, ?_⟩
    rw [foldlM_cons]
    refine bind_eq_ok.mpr ⟨_, ?_, rfl⟩
    rw [pushBit, List.getElem?_eq_getElem hin, bitsAt, bitAt, getD_eq_getElem _ _ hin]

theorem extract_eq (hblock : f.block = false)
    (h : Covers resp f k) : Compiler.extract f resp k = .ok (reading f resp k) := by
  rw [Compiler.extract, hblock, if_neg (by decide)]
  exact bind_eq_ok.mpr ⟨_, foldlM_pushBit h, rfl⟩

/-- The accumulator before the sign. -/
theorem raw_lt (hsize : f.bitSize ≤ 64) (resp : List UInt8) (k : Nat) : (if f.byteswap then
        swapBytes ((f.bitSize + 7) / 8)
          (bitsAt resp (f.bitPos + k * f.repeatStride) f.bitSize)
      else bitsAt resp (f.bitPos + k * f.repeatStride) f.bitSize) < 2 ^ 64 := by
  split
  · have hle : 256 ^ ((f.bitSize + 7) / 8) ≤ 256 ^ 8 :=
      Nat.pow_le_pow_right (by decide) (by omega)
    exact Nat.lt_of_lt_of_le (swapBytes_lt _ _) hle
  · have hle : 2 ^ f.bitSize ≤ 2 ^ 64 := Nat.pow_le_pow_right Nat.two_pos hsize
    exact Nat.lt_of_lt_of_le (bitsAt_lt _ _ _) hle

theorem reading_bounds (hpos : 1 ≤ f.bitSize) (hsize : f.bitSize ≤ 64)
    (resp : List UInt8) (k : Nat) : -2 ^ 63 ≤ reading f resp k ∧ reading f resp k < 2 ^ 64 := by
  have hlt := raw_lt hsize resp k
  unfold reading
  dsimp only
  split
  · next hsigned =>
    have hlow : (2 : Int) ^ (f.bitSize - 1) ≤ 2 ^ 63 :=
      pow_le_pow_right₀ (by decide) (by omega)
    have hle := le_signExtend (v := if f.byteswap then
      swapBytes ((f.bitSize + 7) / 8) (bitsAt resp (f.bitPos + k * f.repeatStride) f.bitSize)
        else bitsAt resp (f.bitPos + k * f.repeatStride) f.bitSize) hpos
    have hge := signExtend_le f.bitSize (if f.byteswap then
      swapBytes ((f.bitSize + 7) / 8) (bitsAt resp (f.bitPos + k * f.repeatStride) f.bitSize)
        else bitsAt resp (f.bitPos + k * f.repeatStride) f.bitSize)
    omega
  · omega

/-- The device reads the number modulo `2 ^ 64`. -/
theorem extractRaw_eq (hpos : 1 ≤ v.bitSize) (hsize : v.bitSize ≤ 64) (hk : k < v.repeatCount)
    (h : Covers resp (fieldOf scales v) k) :
    extractRaw resp v k = some (wrap64 (reading (fieldOf scales v) resp k)) := by
  have hcovers : v.start k + v.bitSize ≤ 8 * resp.length := h
  have hraw : (if v.byteswap then
      swapBytes64 ((v.bitSize + 7) / 8) (readBits resp (v.start k) v.bitSize)
        else readBits resp (v.start k) v.bitSize).toNat =
      if v.byteswap then swapBytes ((v.bitSize + 7) / 8) (bitsAt resp (v.start k) v.bitSize)
        else bitsAt resp (v.start k) v.bitSize := by
    split
    · rw [toNat_swapBytes64 (by omega), toNat_readBits hsize]
    · exact toNat_readBits hsize
  rw [extractRaw, if_neg (by omega), if_neg (by omega), if_neg (by omega), adjust]
  congr 1
  by_cases hsigned : v.signed = true ∧ v.bitSize < 64
  · rw [if_pos hsigned, toInt_signExtend64 hpos hsigned.2, hraw]
    congr 1
    exact (if_pos hsigned).symm
  · rw [if_neg hsigned, toInt_toInt64, hraw]
    congr 1
    exact (if_neg hsigned).symm

/-! ## Evaluation -/

/-- The number, unless it is not available. -/
def Decoded.number (d : Decoded) : Option Exact := if d.valid then some d.value else none

/-- The row that contains the value, if there is one, is marked as a text exactly if it has one. -/
def TextMarked (c : Uds.Catalog) (v : FieldView) (raw : Int) : Prop :=
  ∀ i row, c.matchRow v.scaleFirst raw 0 v.scaleCount = some (i, row) →
    (row.hasText = true ↔ row.text ≠ [])

/-- No row contains the value. -/
def Unmatched (f : Field) (raw : Int) : Prop := ∀ s ∈ f.scales, ¬s.Contains raw

theorem rowOf_eq_none : Compiler.rowOf f raw = none ↔ Unmatched f raw := by
  rw [Compiler.rowOf, findIdx?_eq_none_iff]
  simp only [decide_eq_false_iff_not, Unmatched]

theorem evaluate_of_unmatched (hne : f.scales ≠ [])
    (h : Unmatched f raw) : evaluate f raw = (none, none) := by
  have hfind : f.scales.find? (fun s => s.Contains raw) = none := by
    rw [find?_eq_none]
    intro s hs
    rw [decide_eq_true_eq]
    exact h s hs
  rw [evaluate, if_neg hne, hfind]

/-- Given one value, the two sides differ at most in the text. -/
theorem evaluateScales_eq
    (hrows : RowsFrom c v.scaleFirst f.scales) (hlen : f.scales.length = v.scaleCount)
    (raw : Int) :
    (c.evaluateScales v raw).number = (evaluate f raw).1 ∧
      c.rowOf v raw = Compiler.rowOf f raw ∧
      ((c.evaluateScales v raw).text = (evaluate f raw).2 ↔ TextMarked c v raw) := by
  obtain ⟨hfind, hidx⟩ := find_matchRow (i := 0) hrows raw
  rw [hlen] at hfind hidx
  have hrow : c.rowOf v raw = Compiler.rowOf f raw := by
    rw [Uds.Catalog.rowOf, hidx, Compiler.rowOf]
    simp only [Nat.zero_add, Option.map_id']
  rw [Uds.Catalog.evaluateScales, evaluate, ← hfind]
  unfold TextMarked
  by_cases hzero : v.scaleCount = 0
  · rw [if_pos hzero, if_pos (length_eq_zero_iff.mp (hlen.trans hzero)), hzero]
    exact ⟨rfl, hrow, iff_of_true rfl nofun⟩
  · have hne : f.scales ≠ [] := fun hnil => hzero (hlen.symm.trans (length_eq_zero_iff.mpr hnil))
    rw [if_neg hzero, if_neg hne]
    cases hmatch : c.matchRow v.scaleFirst raw 0 v.scaleCount with
    | none => exact ⟨rfl, hrow, iff_of_true rfl nofun⟩
    | some p =>
      obtain ⟨i, row⟩ := p
      have htext : ((if row.hasText then some row.text else none) =
          (if row.text = [] then none else some row.text)) ↔
            (row.hasText = true ↔ row.text ≠ []) := by
        by_cases hhas : row.hasText = true <;> by_cases hnil : row.text = [] <;>
          simp [hhas, hnil]
      have hmarked : (∀ i' row', some (i, row) = some (i', row') →
          (row'.hasText = true ↔ row'.text ≠ [])) ↔ (row.hasText = true ↔ row.text ≠ []) := by
        constructor
        · intro h
          exact h i row rfl
        · intro h i' row' heq
          cases heq
          exact h
      rw [hmarked]
      show _ ∧ _ ∧ _
      have hinvalid : (scaleOf row).invalid = row.invalid := rfl
      simp only [Option.map_some, hinvalid]
      cases row.invalid with
      | true => exact ⟨rfl, hrow, htext⟩
      | false => exact ⟨rfl, hrow, htext⟩

/-! ## Agreement -/

/-- Both decoders answer the same for an element: the number or that there is none, the text, and
the row. -/
def SameAnswer (c : Uds.Catalog) (v : FieldView) (f : Field) (resp : List UInt8) (k : Nat) : Prop :=
  ∃ raw, Compiler.extract f resp k = .ok raw ∧
    (c.decodeNumeric v resp k).number = (evaluate f raw).1 ∧
    (c.decodeNumeric v resp k).text = (evaluate f raw).2 ∧
    (extractRaw resp v k).bind (c.rowOf v) = Compiler.rowOf f raw

/-- The field is a number, and either the device has the number of the element and the text of its
row, or no row matches on either side. -/
def OneReading (c : Uds.Catalog) (v : FieldView) (f : Field) (resp : List UInt8) (k : Nat) : Prop :=
  f.block = false ∧
    (v.repeatCount ≠ 0 ∧ reading f resp k < 2 ^ 63 ∧ TextMarked c v (reading f resp k) ∨
      f.scales ≠ [] ∧ Unmatched f (reading f resp k) ∧
        (v.repeatCount ≠ 0 → Unmatched f (wrap64 (reading f resp k))))

theorem textMarked_of_unmatched
    (hrow : c.rowOf v raw = Compiler.rowOf f raw) (h : Unmatched f raw) : TextMarked c v raw := by
  intro i row hmatch
  rw [rowOf_eq_none.mpr h, Uds.Catalog.rowOf, hmatch] at hrow
  cases hrow

theorem number_eq_none (h : none = (evaluate f raw).1) : f.scales ≠ [] := by
  intro hnil
  rw [evaluate, if_pos hnil] at h
  cases h

/-- An answer without a row agrees with one for which no row matches. -/
theorem noRow_iff :
    (none = (evaluate f raw).1 ∧ none = (evaluate f raw).2 ∧ none = Compiler.rowOf f raw) ↔
      f.scales ≠ [] ∧ Unmatched f raw := by
  constructor
  · rintro ⟨hnumber, -, hrow⟩
    exact ⟨number_eq_none hnumber, rowOf_eq_none.mp hrow.symm⟩
  · rintro ⟨hne, hunmatched⟩
    rw [evaluate_of_unmatched hne hunmatched, rowOf_eq_none.mpr hunmatched]
    exact ⟨rfl, rfl, rfl⟩

/-- A number that the device does not have only agrees if no row matches. -/
theorem other_iff {other : Int}
    (hrows : RowsFrom c v.scaleFirst f.scales) (hlen : f.scales.length = v.scaleCount)
    (hne : other ≠ raw) (hraw : Unmatched f raw) :
    (c.evaluateScales v other).number = (evaluate f raw).1 ∧
        (c.evaluateScales v other).text = (evaluate f raw).2 ∧
        c.rowOf v other = Compiler.rowOf f raw ↔
      f.scales ≠ [] ∧ Unmatched f other := by
  obtain ⟨hnumber, hrow, htext⟩ := evaluateScales_eq hrows hlen other
  rw [hnumber, hrow]
  by_cases hnil : f.scales = []
  · refine iff_of_false ?_ (fun h => h.1 hnil)
    rintro ⟨h, -⟩
    rw [evaluate, if_pos hnil, evaluate, if_pos hnil] at h
    exact hne (Int.cast_inj.mp (Exact.finite.inj (Option.some.inj h)))
  · rw [evaluate_of_unmatched hnil hraw, rowOf_eq_none.mpr hraw, rowOf_eq_none]
    constructor
    · rintro ⟨-, -, h⟩
      exact ⟨hnil, h⟩
    · rintro ⟨-, h⟩
      have hnone := evaluate_of_unmatched hnil h
      rw [htext.mpr (textMarked_of_unmatched hrow h), hnone]
      exact ⟨rfl, rfl, h⟩

theorem sameAnswer_iff_oneReading
    (hscales : readScales c = .ok scales) (hrun : v.scaleFirst + v.scaleCount ≤ c.scaleCount)
    (hsize : (fieldOf scales v).block = false → 1 ≤ v.bitSize ∧ v.bitSize ≤ 64)
    (hk : k < (fieldOf scales v).repeatCount) (hcovers : Covers resp (fieldOf scales v) k) :
    SameAnswer c v (fieldOf scales v) resp k ↔ OneReading c v (fieldOf scales v) resp k := by
  obtain ⟨hlength, -⟩ := mapM_range_eq_ok.mp hscales
  have hrows : RowsFrom c v.scaleFirst (fieldOf scales v).scales :=
    rowsFrom_of_readScales hscales _ _
  have hlen : (fieldOf scales v).scales.length = v.scaleCount := by
    show ((scales.drop v.scaleFirst).take v.scaleCount).length = _
    rw [length_take, length_drop, hlength]
    omega
  have hcount : (fieldOf scales v).repeatCount = max v.repeatCount 1 := rfl
  generalize hf : fieldOf scales v = f at *
  unfold SameAnswer OneReading
  cases hblock : f.block with
  | true =>
    refine iff_of_false ?_ (fun h => nomatch h.1)
    rintro ⟨raw, hraw, -⟩
    rw [Compiler.extract, hblock] at hraw
    cases hraw
  | false =>
    obtain ⟨hpos, hmax⟩ := hsize hblock
    rw [extract_eq hblock hcovers]
    have hone : ∀ P : Int → Prop, (∃ raw, (Except.ok (reading f resp k) : Except ExtractError Int) =
        .ok raw ∧ P raw) ↔ P (reading f resp k) := by
      intro P
      constructor
      · rintro ⟨raw, hraw, h⟩
        cases hraw
        exact h
      · exact fun h => ⟨_, rfl, h⟩
    rw [hone, eq_self_iff_true, true_and]
    by_cases hzero : v.repeatCount = 0
    · -- The twin takes a count of zero for one, the device finds no element.
      have hnone : extractRaw resp v k = none := by
        rw [extractRaw, if_neg (by omega), if_pos (Or.inl hzero)]
      rw [Uds.Catalog.decodeNumeric, hnone, hzero]
      simp only [ne_eq, not_true_eq_false, false_and, false_or, false_implies, and_true]
      exact noRow_iff
    · have hraw : extractRaw resp v k = some (wrap64 (reading f resp k)) := by
        rw [← hf] at hcovers ⊢
        exact extractRaw_eq hpos hmax (by omega) hcovers
      have hbounds : -2 ^ 63 ≤ reading f resp k ∧ reading f resp k < 2 ^ 64 := by
        rw [← hf]
        exact reading_bounds hpos hmax resp k
      rw [Uds.Catalog.decodeNumeric, hraw, Option.bind_some]
      simp only [ne_eq, hzero, not_false_eq_true, true_and, true_implies]
      by_cases hlt : reading f resp k < 2 ^ 63
      · obtain ⟨hnumber, hrow, htext⟩ := evaluateScales_eq hrows hlen (reading f resp k)
        rw [wrap64_of_lt hbounds.1 hlt, hnumber, hrow, htext]
        simp only [hlt, true_and, and_true]
        refine ⟨Or.inl, ?_⟩
        rintro (hmarked | ⟨-, hunmatched, -⟩)
        · exact hmarked
        · exact textMarked_of_unmatched hrow hunmatched
      · -- No row reaches up to the number, and the device has another one.
        have hhigh : 2 ^ 63 ≤ reading f resp k := Int.not_lt.mp hlt
        have hunmatched : Unmatched f (reading f resp k) :=
          hrows.not_contains (by omega)
        simp only [hlt, false_and, false_or, hunmatched, true_and]
        refine other_iff hrows hlen ?_ hunmatched
        rw [wrap64_of_le hhigh hbounds.2]
        omega

/-! ## Every blob -/

/-- The fields of the catalog are those of the table. -/
theorem mem_fields_of_readCatalog {fields : List (Field × Nat)}
    {names : List (Nat × Name)} {groups : List Group} {ecus : List Ecu}
    (hgroups : readGroups c fields names = .ok groups) (hecus : readEcus c groups = .ok ecus)
    (hf : f ∈ (Compiler.Catalog.mk ecus).fields) :
    ∃ i gi : Nat, fields[i]? = some (f, gi) := by
  obtain ⟨g, hg, hf⟩ := mem_flatMap.mp hf
  obtain ⟨e, he, hg⟩ := mem_flatMap.mp hg
  obtain ⟨i, hi⟩ := List.getElem?_of_mem he
  have hread := (mapM_range_eq_ok.mp hecus).2 i e hi
  unfold readEcu at hread
  obtain ⟨_, _, hread⟩ := bind_eq_ok.mp hread
  obtain ⟨_, _, hread⟩ := bind_eq_ok.mp hread
  rw [← Except.ok.inj hread] at hg
  obtain ⟨j, hj⟩ := List.getElem?_of_mem (mem_of_mem_drop (mem_of_mem_take hg))
  have hread := (mapM_range_eq_ok.mp hgroups).2 j g hj
  unfold readGroup at hread
  obtain ⟨_, _, hread⟩ := bind_eq_ok.mp hread
  obtain ⟨_, _, hread⟩ := bind_eq_ok.mp hread
  obtain ⟨_, _, hread⟩ := bind_eq_ok.mp hread
  obtain ⟨_, _, hread⟩ := bind_eq_ok.mp hread
  obtain ⟨_, _, hread⟩ := bind_eq_ok.mp hread
  obtain ⟨_, _, hread⟩ := bind_eq_ok.mp hread
  rw [← Except.ok.inj hread] at hf
  obtain ⟨p, hp, rfl⟩ := mem_map.mp hf
  obtain ⟨i, hi⟩ := List.getElem?_of_mem (mem_of_mem_drop (mem_of_mem_take hp))
  exact ⟨i, p.2, hi⟩

/-- In every blob that the reader accepts, the two decoders agree on an element that the response
covers if and only if the device has its number and text, or no row matches. -/
theorem decoders_agree_iff {data : List UInt8} {cat : Compiler.Catalog}
    (h : readCatalog data = .ok cat) :
    ∃ c scales fields, Uds.Catalog.open? data = some c ∧ readScales c = .ok scales ∧
      readFields c scales = .ok fields ∧
      (∀ f ∈ cat.fields, ∃ i gi : Nat, fields[i]? = some (f, gi)) ∧
      ∀ (i gi : Nat) (f : Field), fields[i]? = some (f, gi) → ∃ v, c.field i = some v ∧
        ∀ k < f.repeatCount, ∀ resp, Covers resp f k →
          (SameAnswer c v f resp k ↔ OneReading c v f resp k) := by
  unfold readCatalog at h
  obtain ⟨c, hlayout, h⟩ := bind_eq_ok.mp h
  obtain ⟨scales, hscales, h⟩ := bind_eq_ok.mp h
  obtain ⟨fields, hfields, h⟩ := bind_eq_ok.mp h
  obtain ⟨names, -, h⟩ := bind_eq_ok.mp h
  obtain ⟨groups, hgroups, h⟩ := bind_eq_ok.mp h
  obtain ⟨ecus, hecus, h⟩ := bind_eq_ok.mp h
  refine ⟨c, scales, fields, open?_of_checkLayout hlayout, hscales, hfields, ?_, ?_⟩
  · rw [← Except.ok.inj h]
    exact fun f hf => mem_fields_of_readCatalog hgroups hecus hf
  · intro i gi f hi
    obtain ⟨hlen, hread⟩ := mapM_range_eq_ok.mp hfields
    obtain ⟨hlt, -⟩ := List.getElem?_eq_some_iff.mp hi
    obtain ⟨v, hv, rfl, hrun, hsize⟩ := readField_eq_ok (hlen ▸ hlt) (hread i _ hi)
    exact ⟨v, hv, fun k hk resp hcovers =>
      sameAnswer_iff_oneReading hscales hrun hsize hk hcovers⟩

/-! ## A field of 64 bits -/

/-- A counter up to 1000, with a row for `-1`. -/
def wideField : Field :=
  { name := ascii "F", bitPos := 24, bitSize := 64
    scales :=
      [{ low := 0, high := 1000, factor := ⟨0x3F800000⟩, offset := ⟨0⟩ },
        { low := -1, high := -1, factor := ⟨0x3F800000⟩, offset := ⟨0⟩ }] }

def wideCatalog : Compiler.Catalog :=
  { ecus :=
      [{ name := ascii "E", requestId := 0x7E0, responseId := 0x7E8
         groups :=
          [{ name := ascii "G", request := [0x22, 0x02, 0x07], fields := [wideField] }] }] }

def wideBlob : List UInt8 := (writeCatalog wideCatalog).toOption.getD []

def wideView : FieldView :=
  { name := ascii "F", unit := [], bitPos := 24, bitSize := 64, flags := 0, scaleFirst := 0
    scaleCount := 2, repeatCount := 1, repeatStride := 0, groupIndex := 0 }

/-- The response with a number of eight bytes. -/
def wideResponse (bytes : List UInt8) : List UInt8 := [0x62, 0x02, 0x07] ++ bytes

theorem readCatalog_wideBlob : readCatalog wideBlob = .ok wideCatalog := by decide +kernel

set_option maxRecDepth 20000 in
theorem open?_wideBlob :
    Uds.Catalog.open? wideBlob = some (Uds.Catalog.ofHeader wideBlob) := by decide

theorem readScales_wideBlob :
    readScales (Uds.Catalog.ofHeader wideBlob) = .ok wideField.scales := by decide +kernel

set_option maxRecDepth 20000 in
theorem readFields_wideBlob :
    readFields (Uds.Catalog.ofHeader wideBlob) wideField.scales = .ok [(wideField, 0)] := by
  decide

set_option maxRecDepth 20000 in
theorem field_wideBlob : (Uds.Catalog.ofHeader wideBlob).field 0 = some wideView := by
  decide

set_option maxRecDepth 20000 in
/-- The number 5 is read as the same on both sides. -/
theorem decoders_agree_sample :
    ∃ c, Uds.Catalog.open? wideBlob = some c ∧
      SameAnswer c wideView wideField (wideResponse [0, 0, 0, 0, 0, 0, 0, 5]) 0 := by
  obtain ⟨c, scales, fields, hopen, hscales, hfields, -, hall⟩ :=
    decoders_agree_iff readCatalog_wideBlob
  obtain rfl := Option.some.inj (open?_wideBlob.symm.trans hopen)
  obtain rfl := Except.ok.inj (readScales_wideBlob.symm.trans hscales)
  obtain rfl := Except.ok.inj (readFields_wideBlob.symm.trans hfields)
  obtain ⟨v, hv, hiff⟩ := hall 0 0 wideField rfl
  obtain rfl := Option.some.inj (field_wideBlob.symm.trans hv)
  have hreading : reading wideField (wideResponse [0, 0, 0, 0, 0, 0, 0, 5]) 0 = 5 := by
    decide
  refine ⟨_, hopen, (hiff 0 (by decide) _ (by decide)).mpr ⟨rfl, Or.inl ⟨by decide, ?_, ?_⟩⟩⟩
  · rw [hreading]
    decide
  · rw [hreading]
    intro i row hmatch
    have hrow : ((Uds.Catalog.ofHeader wideBlob).matchRow 0 5 0 2).map
        (fun p => (p.2.hasText, p.2.text)) = some (false, []) := by decide
    rw [show (Uds.Catalog.ofHeader wideBlob).matchRow 0 5 0 2 = some (i, row) from hmatch] at hrow
    obtain ⟨hhas, htext⟩ := Prod.mk.inj (Option.some.inj hrow)
    rw [hhas, htext]
    decide

/-- The decoders answer the same for every element that a response covers, numbers of 64 bits
without rows and sign apart. -/
def AnswersSame (data : List UInt8) : Prop :=
  ∀ c scales fields, Uds.Catalog.open? data = some c → readScales c = .ok scales →
    readFields c scales = .ok fields →
    ∀ (i gi : Nat) (f : Field) (v : FieldView), fields[i]? = some (f, gi) → c.field i = some v →
      ¬(f.scales = [] ∧ f.signed = false ∧ f.bitSize = 64) →
      ∀ k < f.repeatCount, ∀ resp, Covers resp f k → SameAnswer c v f resp k

set_option maxRecDepth 20000 in
/-- The device takes the number `2 ^ 64 - 1` for `-1`, which a row contains. -/
theorem answers_differ :
    ¬∀ data cat, readCatalog data = .ok cat → AnswersSame data := by
  intro h
  obtain ⟨raw, hraw, hnumber, -⟩ := h _ _ readCatalog_wideBlob _ _ _ open?_wideBlob
    readScales_wideBlob readFields_wideBlob 0 0 wideField wideView rfl field_wideBlob (by decide)
    0 (by decide) (wideResponse (List.replicate 8 255)) (by decide)
  have hreading : Compiler.extract wideField (wideResponse (List.replicate 8 255)) 0 =
      .ok (2 ^ 64 - 1) := by decide
  rw [hreading] at hraw
  obtain rfl := Except.ok.inj hraw
  have hdevice : ((Uds.Catalog.ofHeader wideBlob).decodeNumeric wideView
      (wideResponse (List.replicate 8 255)) 0).number.isSome = true := by decide
  have htwin : (evaluate wideField (2 ^ 64 - 1)).1.isSome = false := by decide
  rw [hnumber, htwin] at hdevice
  cases hdevice

end EspCars.Uds
