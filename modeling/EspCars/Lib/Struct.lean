import Mathlib

/-!
# Packed records

Numbers as little-endian bytes, and records of such numbers without padding between them, as
Python's `struct` packs them. A reader takes a field from the bytes of the record on by its offset,
which is the sum of the widths before it; a table is a list of records of one size.
-/

namespace EspCars.Lib

/-- The lowest `width` bytes of `v`, the least significant first. -/
def le : Nat → Nat → List UInt8
  | 0, _ => []
  | width + 1, v => UInt8.ofNat v :: le width (v / 256)

/-- The number in the first `width` bytes, where a missing byte counts as zero. -/
def loadLe : Nat → List UInt8 → Nat
  | 0, _ => 0
  | width + 1, s => (s.headD 0).toNat + 256 * loadLe width s.tail

@[simp] theorem length_le (width v : Nat) : (le width v).length = width := by
  induction width generalizing v with
  | zero => rfl
  | succ width ih => rw [le, List.length_cons, ih]

variable {v w : Nat} {ws vs : List Nat} {bytes : List UInt8}

theorem loadLe_le {width : Nat} (h : v < 256 ^ width) (rest : List UInt8) :
    loadLe width (le width v ++ rest) = v := by
  induction width generalizing v with
  | zero =>
    have h0 : v = 0 := by simpa using h
    rw [h0, loadLe]
  | succ width ih =>
    have hdiv : v / 256 < 256 ^ width := by
      rw [Nat.pow_succ] at h
      omega
    rw [le, List.cons_append, loadLe, List.headD_cons, List.tail_cons, ih hdiv, UInt8.toNat_ofNat']
    omega

theorem loadLe_lt (width : Nat) (s : List UInt8) : loadLe width s < 256 ^ width := by
  induction width generalizing s with
  | zero => exact Nat.one_pos
  | succ width ih =>
    have hhead := (s.headD 0).toNat_lt
    have htail := ih s.tail
    rw [loadLe, Nat.pow_succ]
    omega

theorem le_loadLe (s : List UInt8) : le s.length (loadLe s.length s) = s := by
  induction s with
  | nil => rfl
  | cons b s ih =>
    have hb := b.toNat_lt
    have hdiv : (b.toNat + 256 * loadLe s.length s) / 256 = loadLe s.length s := by omega
    have hmod : UInt8.ofNat (b.toNat + 256 * loadLe s.length s) = b := by
      rw [← UInt8.toNat_inj, UInt8.toNat_ofNat']
      omega
    rw [List.length_cons, loadLe, List.headD_cons, List.tail_cons, le, hmod, hdiv, ih]

/-! ## Records -/

/-- The record of the values, unless one does not fit its width. -/
def pack : List Nat → List Nat → Option (List UInt8)
  | [], [] => some []
  | w :: ws, v :: vs => if v < 256 ^ w then (pack ws vs).map (le w v ++ ·) else none
  | _, _ => none

theorem pack_cons_eq_some : pack (w :: ws) (v :: vs) = some bytes ↔
      v < 256 ^ w ∧ ∃ rest, pack ws vs = some rest ∧ bytes = le w v ++ rest := by
  rw [pack]
  split_ifs with h
  · rw [Option.map_eq_some_iff]
    constructor
    · rintro ⟨rest, hrest, rfl⟩
      exact ⟨h, rest, hrest, rfl⟩
    · rintro ⟨-, rest, hrest, rfl⟩
      exact ⟨rest, hrest, rfl⟩
  · exact iff_of_false nofun (fun hr => h hr.1)

theorem length_pack (h : pack ws vs = some bytes) : bytes.length = ws.sum := by
  induction ws generalizing vs bytes with
  | nil =>
    cases vs with
    | nil =>
      cases h
      rfl
    | cons v vs => cases h
  | cons w ws ih =>
    cases vs with
    | nil => cases h
    | cons v vs =>
      obtain ⟨-, rest, hrest, rfl⟩ := pack_cons_eq_some.mp h
      rw [List.length_append, length_le, ih hrest, List.sum_cons]

/-- A field is found behind the fields before it. -/
theorem loadLe_pack (h : pack ws vs = some bytes)
    (rest : List UInt8) {i : Nat} (hw : ws[i]? = some w) (hv : vs[i]? = some v) :
    loadLe w ((bytes ++ rest).drop (ws.take i).sum) = v := by
  induction ws generalizing vs bytes i with
  | nil => cases hw
  | cons w' ws ih =>
    cases vs with
    | nil => cases hv
    | cons v' vs =>
      obtain ⟨hlt, tail, htail, rfl⟩ := pack_cons_eq_some.mp h
      cases i with
      | zero =>
        cases hw
        cases hv
        rw [List.take_zero, List.sum_nil, List.drop_zero, List.append_assoc]
        exact loadLe_le hlt _
      | succ i =>
        have hdrop : ((le w' v' ++ tail) ++ rest).drop ((w' :: ws).take (i + 1)).sum =
            (tail ++ rest).drop (ws.take i).sum := by
          rw [List.take_succ_cons, List.sum_cons, List.append_assoc, ← List.drop_drop,
            List.drop_left' (length_le w' v')]
        rw [hdrop]
        exact ih htail hw hv

theorem loadLe_field {ws vs : List Nat} {bytes : List UInt8} (h : pack ws vs = some bytes)
    (rest : List UInt8) (i off : Nat) {w v : Nat} (hw : ws[i]? = some w) (hv : vs[i]? = some v)
    (hoff : (ws.take i).sum = off) : loadLe w ((bytes ++ rest).drop off) = v :=
  hoff ▸ loadLe_pack h rest hw hv

/-- The same with the offset in a blob that holds the record. -/
theorem loadLe_record (h : pack ws vs = some bytes)
    (before rest : List UInt8) (i : Nat) {off : Nat} (hw : ws[i]? = some w)
    (hv : vs[i]? = some v) (hoff : before.length + (ws.take i).sum = off) :
    loadLe w ((before ++ (bytes ++ rest)).drop off) = v := by
  rw [← hoff, ← List.drop_drop, List.drop_left]
  exact loadLe_pack h rest hw hv

/-! ## Tables -/

/-- The record at index `i` of a table of records of one size. -/
theorem drop_flatten {table : List (List UInt8)} {size : Nat}
    (h : ∀ record ∈ table, record.length = size) {i : Nat} {record : List UInt8}
    (hi : table[i]? = some record) (rest : List UInt8) :
    ∃ rest', (table.flatten ++ rest).drop (i * size) = record ++ rest' := by
  induction table generalizing i with
  | nil => cases hi
  | cons first table ih =>
    have hfirst := h first (List.mem_cons_self ..)
    cases i with
    | zero =>
      cases hi
      exact ⟨table.flatten ++ rest, by
        rw [Nat.zero_mul, List.drop_zero, List.flatten_cons, List.append_assoc]⟩
    | succ i =>
      obtain ⟨rest', hrest'⟩ := ih (fun r hr => h r (List.mem_cons_of_mem _ hr)) hi
      refine ⟨rest', ?_⟩
      rw [List.flatten_cons, List.append_assoc, Nat.succ_mul, Nat.add_comm, ← List.drop_drop,
        List.drop_left' hfirst]
      exact hrest'

theorem length_flatten {table : List (List UInt8)} {size : Nat}
    (h : ∀ record ∈ table, record.length = size) : table.flatten.length = table.length * size := by
  induction table with
  | nil => simp
  | cons first table ih =>
    rw [List.flatten_cons, List.length_append, List.length_cons, Nat.succ_mul,
      h first (List.mem_cons_self ..), ih (fun r hr => h r (List.mem_cons_of_mem _ hr)),
      Nat.add_comm]

end EspCars.Lib
