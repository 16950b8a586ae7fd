import Mathlib

/-!
# Binary search in a sorted column

`lowerBound` is the loop that halves `[lo, hi)` until it has the first index whose key is not below
the one looked for. In a table sorted by its keys the rows with one key follow from there on, so
that a walk until the key changes sees exactly these. `bisect` only says whether the key is there.
-/

namespace EspCars.Lib

/-- The bisection; `hi - lo` turns are enough. -/
def lowerBound (key : Nat → Nat) (k : Nat) : Nat → Nat → Nat → Nat
  | 0, lo, _ => lo
  | fuel + 1, lo, hi =>
    if lo < hi then
      let mid := lo + (hi - lo) / 2
      if key mid < k then lowerBound key k fuel (mid + 1) hi else lowerBound key k fuel lo mid
    else lo

/-- Below the bound every key is smaller, from there on none is. -/
theorem lowerBound_spec {key : Nat → Nat} {k n : Nat}
    (hsorted : ∀ i j, i ≤ j → j < n → key i ≤ key j) {fuel lo hi : Nat} (hfuel : hi - lo ≤ fuel)
    (hlo : lo ≤ hi) (hhi : hi ≤ n) (hbelow : ∀ i < lo, key i < k)
    (habove : ∀ i, hi ≤ i → i < n → k ≤ key i) :
    lowerBound key k fuel lo hi ≤ n ∧ (∀ i < lowerBound key k fuel lo hi, key i < k) ∧
      ∀ i, lowerBound key k fuel lo hi ≤ i → i < n → k ≤ key i := by
  induction fuel generalizing lo hi with
  | zero =>
    have heq : lo = hi := by omega
    rw [lowerBound]
    subst heq
    exact ⟨hhi, hbelow, habove⟩
  | succ fuel ih =>
    rw [lowerBound]
    dsimp only
    split_ifs with hlt hmid
    · refine ih (by omega) (by omega) hhi ?_ habove
      intro i hi'
      exact Nat.lt_of_le_of_lt (hsorted i _ (by omega) (by omega)) hmid
    · refine ih (by omega) (by omega) (by omega) hbelow ?_
      intro i hmi hin
      exact Nat.le_trans (Nat.le_of_not_lt hmid) (hsorted _ i hmi hin)
    · have heq : lo = hi := by omega
      subst heq
      exact ⟨hhi, hbelow, habove⟩

theorem lowerBound_le (key : Nat → Nat) (k fuel : Nat) {lo hi : Nat} (h : lo ≤ hi) :
    lowerBound key k fuel lo hi ≤ hi := by
  induction fuel generalizing lo hi with
  | zero => exact h
  | succ fuel ih =>
    rw [lowerBound]
    dsimp only
    split_ifs with hlt hmid
    · exact ih (by omega)
    · exact Nat.le_trans (ih (by omega)) (by omega)
    · exact h

/-- The bisection that ends where it meets `k`; `hi - lo` turns are enough. -/
def bisect (key : Nat → Nat) (k : Nat) : Nat → Nat → Nat → Bool
  | 0, _, _ => false
  | fuel + 1, lo, hi =>
    if lo < hi then
      let mid := lo + (hi - lo) / 2
      if key mid < k then bisect key k fuel (mid + 1) hi
      else if k < key mid then bisect key k fuel lo mid
      else true
    else false

theorem bisect_iff {key : Nat → Nat} {k n : Nat}
    (hsorted : ∀ i j, i ≤ j → j < n → key i ≤ key j) {fuel lo hi : Nat} (hfuel : hi - lo ≤ fuel)
    (hhi : hi ≤ n) : bisect key k fuel lo hi = true ↔ ∃ i, lo ≤ i ∧ i < hi ∧ key i = k := by
  induction fuel generalizing lo hi with
  | zero =>
    rw [bisect]
    constructor
    · intro h
      cases h
    · rintro ⟨i, hlo, hlt, -⟩
      omega
  | succ fuel ih =>
    rw [bisect]
    dsimp only
    split_ifs with hlt hbelow habove
    · rw [ih (by omega) hhi]
      constructor
      · rintro ⟨i, hlo, hi', heq⟩
        exact ⟨i, by omega, hi', heq⟩
      · rintro ⟨i, hlo, hi', heq⟩
        refine ⟨i, ?_, hi', heq⟩
        by_contra hle
        have hkey := hsorted i (lo + (hi - lo) / 2) (by omega) (by omega)
        omega
    · rw [ih (by omega) (by omega)]
      constructor
      · rintro ⟨i, hlo, hi', heq⟩
        exact ⟨i, hlo, by omega, heq⟩
      · rintro ⟨i, hlo, hi', heq⟩
        refine ⟨i, hlo, ?_, heq⟩
        by_contra hle
        have hkey := hsorted (lo + (hi - lo) / 2) i (by omega) (by omega)
        omega
    · exact ⟨fun _ => ⟨lo + (hi - lo) / 2, by omega, by omega, by omega⟩, fun _ => rfl⟩
    · constructor
      · intro h
        cases h
      · rintro ⟨i, hlo, hi', -⟩
        omega

section Walk

variable {ε : Type} {key : ε → Nat} {k : Nat} {table : List ε}

/-- From the first row whose key is not below `k` on, the rows with key `k` come first. -/
theorem takeWhile_drop_eq_filter (hsorted : table.Pairwise fun a b => key a ≤ key b) {lo : Nat}
    (hbelow : ∀ row ∈ table.take lo, key row < k) (habove : ∀ row ∈ table.drop lo, k ≤ key row) :
    (table.drop lo).takeWhile (fun row => key row = k) = table.filter fun row => key row = k := by
  have hfilter : table.filter (fun row => decide (key row = k)) =
      (table.drop lo).filter fun row => decide (key row = k) := by
    conv_lhs => rw [← List.take_append_drop lo table, List.filter_append]
    rw [List.filter_eq_nil_iff.mpr, List.nil_append]
    intro row hrow heq
    exact Nat.ne_of_lt (hbelow row hrow) (of_decide_eq_true heq)
  rw [hfilter]
  have hrest : (table.drop lo).Pairwise fun a b => key a ≤ key b :=
    hsorted.sublist (List.drop_sublist lo table)
  generalize table.drop lo = rest at habove hrest
  induction rest with
  | nil => rfl
  | cons row rest ih =>
    obtain ⟨hrow, hrest⟩ := List.pairwise_cons.mp hrest
    by_cases heq : key row = k
    · rw [List.takeWhile_cons_of_pos (by simpa using heq), List.filter_cons_of_pos (by simpa using heq),
        ih (fun r hr => habove r (List.mem_cons_of_mem _ hr)) hrest]
    · rw [List.takeWhile_cons_of_neg (by simpa using heq), eq_comm, List.filter_eq_nil_iff]
      intro r hr heq'
      have hk : k < key row :=
        Nat.lt_of_le_of_ne (habove row (List.mem_cons_self ..)) (Ne.symm heq)
      have hkr : key r = k := of_decide_eq_true heq'
      rcases List.mem_cons.mp hr with rfl | hr
      · omega
      · have hle := hrow r hr
        omega

end Walk

end EspCars.Lib
