import EspCars.Uds.Lookup
import EspCars.Uds.Reader

/-!
# What the compiler's reader accepts

The reader of the compiler and the one of the device check the same layout, except that the former
also checks where an empty request pool is.
-/

namespace EspCars.Uds

open EspCars.Lib Compiler

theorem demand_eq_ok {p : Prop} [Decidable p] {e : ReadError} {u : Unit} :
    demand p e = .ok u ↔ p := by
  unfold demand
  split_ifs with hp
  · exact iff_of_true rfl hp
  · exact iff_of_false nofun hp

/-- A check in front of the rest of a reader. -/
theorem demand_bind_eq_ok {β : Type} {p : Prop} [Decidable p] {e : ReadError}
    {f : Unit → Except ReadError β} {b : β} : demand p e >>= f = .ok b ↔ p ∧ f () = .ok b := by
  rw [bind_eq_ok]
  constructor
  · rintro ⟨_, hp, h⟩
    exact ⟨demand_eq_ok.mp hp, h⟩
  · rintro ⟨hp, h⟩
    exact ⟨(), demand_eq_ok.mpr hp, h⟩

variable {off : Nat} {c : Uds.Catalog}

theorem checkTable_eq_ok {table : Table} {count size total : Nat} {u : Unit} :
    checkTable table off count size total = .ok u ↔
      Uds.Catalog.tableOk off count size total = true := by
  unfold checkTable Uds.Catalog.tableOk
  rw [decide_eq_true_iff]
  split_ifs with hcount
  · exact iff_of_true rfl (Or.inl hcount)
  · rw [demand_bind_eq_ok, demand_eq_ok, or_iff_right hcount]

theorem checkTable_bind_eq_ok {β : Type} {table : Table} {count size total : Nat}
    {f : Unit → Except ReadError β} {b : β} :
    checkTable table off count size total >>= f = .ok b ↔
      Uds.Catalog.tableOk off count size total = true ∧ f () = .ok b := by
  rw [bind_eq_ok]
  constructor
  · rintro ⟨_, hp, h⟩
    exact ⟨checkTable_eq_ok.mp hp, h⟩
  · rintro ⟨hp, h⟩
    exact ⟨(), checkTable_eq_ok.mpr hp, h⟩

theorem tablesOk_iff :
    c.tablesOk = true ↔ Uds.Catalog.tableOk c.ecusOff c.ecuCount ecuRecordSize c.totalSize = true ∧
      Uds.Catalog.tableOk c.groupsOff c.groupCount groupRecordSize c.totalSize = true ∧
      Uds.Catalog.tableOk c.fieldsOff c.fieldCount fieldRecordSize c.totalSize = true ∧
      Uds.Catalog.tableOk c.scalesOff c.scaleCount scaleRecordSize c.totalSize = true ∧
      Uds.Catalog.tableOk c.indexOff c.indexCount indexRecordSize c.totalSize = true := by
  unfold Uds.Catalog.tablesOk
  simp only [Bool.and_eq_true, and_assoc]

theorem poolsOk_iff :
    c.poolsOk = true ↔ Uds.Catalog.rangeOk c.reqbytesOff c.reqbytesLen c.totalSize = true ∧
      Uds.Catalog.rangeOk c.stringsOff c.stringsLen c.totalSize = true ∧ c.stringsLen ≠ 0 ∧
      loadU8 c.base c.stringsOff = 0 ∧ loadU8 c.base (c.stringsOff + c.stringsLen - 1) = 0 := by
  unfold Uds.Catalog.poolsOk
  simp only [Bool.and_eq_true, and_assoc, beq_iff_eq, bne_iff_ne]

theorem rangeOk_iff {len total : Nat} : Uds.Catalog.rangeOk off len total = true ↔
      len = 0 ∨ catalogMinSize ≤ off ∧ off + len ≤ total := decide_eq_true_iff

/-- Both readers accept the same layouts. -/
theorem checkLayout_eq_ok {data : List UInt8} :
    checkLayout data = .ok c ↔ Uds.Catalog.open? data = some c ∧
      catalogMinSize ≤ c.reqbytesOff ∧ c.reqbytesOff + c.reqbytesLen ≤ c.totalSize := by
  unfold checkLayout
  dsimp only
  simp only [demand_bind_eq_ok, checkTable_bind_eq_ok]
  unfold Uds.Catalog.open?
  dsimp only
  constructor
  · rintro ⟨hlength, hmagic, hversion, htotal, hecus, hgroups, hfields, hscales, hindex, hrequests,
      hstrings, hsome, hfirst, hlast, hcrc, h⟩
    rw [if_neg (Nat.not_lt.mpr hlength), if_neg (not_not.mpr hmagic),
      if_neg (not_not.mpr hversion), if_neg (by omega),
      tablesOk_iff.mpr ⟨hecus, hgroups, hfields, hscales, hindex⟩,
      poolsOk_iff.mpr ⟨rangeOk_iff.mpr (Or.inr hrequests), rangeOk_iff.mpr (Or.inr hstrings),
        Nat.ne_of_gt hsome, hfirst, hlast⟩,
      if_neg (by decide), if_neg (by decide), if_neg (not_not.mpr hcrc)]
    cases h
    exact ⟨rfl, hrequests⟩
  · rintro ⟨h, hrequests⟩
    split_ifs at h with hlength hmagic hversion htotal hnot hnot' hcrc
    cases h
    rw [Bool.not_eq_true, Bool.not_eq_false'] at hnot hnot'
    obtain ⟨hecus, hgroups, hfields, hscales, hindex⟩ := tablesOk_iff.mp hnot
    obtain ⟨-, hstrings, hsome, hfirst, hlast⟩ := poolsOk_iff.mp hnot'
    exact ⟨Nat.not_lt.mp hlength, not_not.mp hmagic, not_not.mp hversion, by omega, hecus, hgroups,
      hfields, hscales, hindex, hrequests, (rangeOk_iff.mp hstrings).resolve_left hsome, Nat.pos_of_ne_zero hsome,
      hfirst, hlast, not_not.mp hcrc, rfl⟩

/-- The device opens every blob that the reader finds laid out well. -/
theorem open?_of_checkLayout {data : List UInt8}
    (h : checkLayout data = .ok c) : Uds.Catalog.open? data = some c :=
  (checkLayout_eq_ok.mp h).1

/-- Both readers find the same string. -/
theorem readStr_eq_ok {ref : Nat} {name : Name} :
    readStr c ref = .ok name ↔ ref < c.stringsLen ∧ utf8 name = true ∧ name = c.string ref := by
  unfold readStr
  dsimp only
  rw [demand_bind_eq_ok, demand_bind_eq_ok]
  constructor
  · rintro ⟨href, hutf8, h⟩
    obtain rfl := Except.ok.inj h
    rw [Uds.Catalog.string, if_neg (Nat.not_le.mpr href)]
    exact ⟨href, hutf8, rfl⟩
  · rintro ⟨href, hutf8, rfl⟩
    rw [Uds.Catalog.string, if_neg (Nat.not_le.mpr href)] at hutf8 ⊢
    exact ⟨href, hutf8, rfl⟩

end EspCars.Uds
