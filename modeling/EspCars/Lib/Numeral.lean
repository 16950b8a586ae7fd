import EspCars.Lib.Decimal
import EspCars.Lib.Text

/-!
# Numerals

Which numerals are those of an emitter: a run of digits that is read as a number and written again
is the same exactly if it has no zero in front (`Unpadded`), in base sixteen and in base ten.
-/

namespace EspCars.Lib

/-- No zero in front, but for the number zero. -/
def Unpadded (s : List UInt8) : Prop := s.head? = some 48 → s.length = 1

instance (s : List UInt8) : Decidable (Unpadded s) := inferInstanceAs (Decidable (_ → _))

variable {s : List UInt8} {v width : Nat}

/-! ## Hexadecimal numbers -/

set_option maxRecDepth 8000 in
theorem hexDigit_of_hexVal {c : UInt8} {d : Nat} (h : hexVal c = some d) :
    d < 16 ∧ hexDigit d = c := by
  revert d
  revert c
  decide

/-- The last digit of a number. -/
theorem hexFrom_concat {c : UInt8} (h : hexFrom 0 (s ++ [c]) = some v) :
    ∃ u d, hexFrom 0 s = some u ∧ hexVal c = some d ∧ v = u * 16 + d := by
  rw [hexFrom_append] at h
  obtain ⟨u, hu, h⟩ := Option.bind_eq_some_iff.mp h
  rw [hexFrom] at h
  cases hd : hexVal c with
  | none =>
    rw [hd] at h
    cases h
  | some d =>
    rw [hd] at h
    cases h
    exact ⟨u, d, hu, rfl, rfl⟩

theorem hexDigits_zero (width : Nat) : hexDigits width 0 = [] := by
  cases width with
  | zero => rfl
  | succ width => exact if_pos rfl

theorem hexDigits_of_hexFrom (h : hexFrom 0 s = some v)
    (hlength : s.length ≤ width) (hhead : s.head? ≠ some 48) : hexDigits width v = s := by
  induction s using List.reverseRecOn generalizing width v with
  | nil =>
    cases h
    exact hexDigits_zero width
  | append_singleton s c ih =>
    obtain ⟨u, d, hu, hd, rfl⟩ := hexFrom_concat h
    obtain ⟨hlt, hdigit⟩ := hexDigit_of_hexVal hd
    rw [List.length_append, List.length_singleton] at hlength
    obtain ⟨width, rfl⟩ : ∃ w, width = w + 1 := ⟨width - 1, by omega⟩
    have hrest : s.head? ≠ some 48 := by
      by_cases hs : s = []
      · rw [hs]
        nofun
      · rwa [List.head?_append_of_ne_nil s hs] at hhead
    have hdigits := ih hu (Nat.le_of_succ_le_succ hlength) hrest
    have hpos : u * 16 + d ≠ 0 := by
      intro hzero
      have hu0 : u = 0 := by omega
      have hd0 : d = 0 := by omega
      subst hu0 hd0
      have hs : s = [] := hdigits.symm.trans (hexDigits_zero width)
      subst hs
      rw [← hdigit] at hhead
      exact hhead rfl
    have hdiv : (u * 16 + d) / 16 = u := by omega
    have hmod : (u * 16 + d) % 16 = d := by omega
    rw [hexDigits, if_neg hpos, hdiv, hmod, hdigits, hdigit]

theorem head_hexDigits (h : v < 16 ^ width) (hv : v ≠ 0) : (hexDigits width v).head? ≠ some 48 := by
  induction width generalizing v with
  | zero =>
    rw [Nat.pow_zero] at h
    omega
  | succ width ih =>
    have hdiv : v / 16 < 16 ^ width := by
      rw [Nat.pow_succ] at h
      omega
    rw [hexDigits, if_neg hv]
    by_cases hzero : v / 16 = 0
    · rw [hzero, hexDigits_zero, List.nil_append, List.head?_cons]
      have hmod : 0 < v % 16 ∧ v % 16 < 16 := by omega
      revert hmod
      generalize v % 16 = d
      rintro ⟨hpos, hlt⟩
      interval_cases d <;> decide
    · have hne : hexDigits width (v / 16) ≠ [] := by
        obtain ⟨w, rfl⟩ : ∃ w, width = w + 1 := by
          cases width with
          | zero =>
            rw [Nat.pow_zero] at hdiv
            omega
          | succ w => exact ⟨w, rfl⟩
        rw [hexDigits, if_neg hzero]
        exact List.append_ne_nil_of_right_ne_nil _ (List.cons_ne_nil _ _)
      rw [List.head?_append_of_ne_nil _ hne]
      exact ih hdiv hzero

/-- A number that was read is written again as it was, if it had no zero in front. -/
theorem hexText_eq_iff (h : hexFrom 0 s = some v) (hne : s ≠ [])
    (hlength : s.length ≤ width) (hv : v < 16 ^ width) : hexText width v = s ↔ Unpadded s := by
  constructor
  · rintro rfl hzero
    rw [hexText] at hzero ⊢
    split_ifs at hzero ⊢ with h0
    · rfl
    · exact absurd hzero (head_hexDigits hv h0)
  · intro hplain
    by_cases hzero : s.head? = some 48
    · have hone : s = [48] := by
        obtain ⟨c, rfl⟩ := List.length_eq_one_iff.mp (hplain hzero)
        rw [List.head?_cons] at hzero
        rw [Option.some.inj hzero]
      subst hone
      cases h
      rfl
    · have hdigits := hexDigits_of_hexFrom h hlength hzero
      have h0 : v ≠ 0 := by
        rintro rfl
        exact hne (hdigits.symm.trans (hexDigits_zero width))
      rw [hexText, if_neg h0, hdigits]

/-! ## Decimal numbers -/

theorem decDigit_of_isDecimal {c : UInt8} (h : isDecimal c = true) :
    decDigit (c.toNat - 48) = c := by
  rw [isDecimal_iff] at h
  apply UInt8.toNat.inj
  rw [decDigit_toNat]
  omega

theorem decDigits_of_decFrom {fuel : Nat} (h : ∀ c ∈ s, isDecimal c = true)
    (hne : s ≠ []) (hlength : s.length ≤ fuel) (hplain : Unpadded s) :
    decDigits fuel (decFrom 0 s) = s := by
  induction s using List.reverseRecOn generalizing fuel with
  | nil => exact absurd rfl hne
  | append_singleton s c ih =>
    have hc : isDecimal c = true := h c (List.mem_append_right s (List.mem_singleton_self c))
    have hs : ∀ d ∈ s, isDecimal d = true := fun d hd => h d (List.mem_append_left [c] hd)
    have hvalue : decFrom 0 (s ++ [c]) = decFrom 0 s * 10 + (c.toNat - 48) := decFrom_append 0 s [c]
    have hdigit := decDigit_of_isDecimal hc
    rw [isDecimal_iff] at hc
    have hdiv : decFrom 0 (s ++ [c]) / 10 = decFrom 0 s := by omega
    have hlast : decDigit (decFrom 0 (s ++ [c])) = c := by
      have hmod : decFrom 0 (s ++ [c]) % 10 = (c.toNat - 48) % 10 := by omega
      rw [decDigit, hmod]
      exact hdigit
    rw [List.length_append, List.length_singleton] at hlength
    obtain ⟨fuel, rfl⟩ : ∃ f, fuel = f + 1 := ⟨fuel - 1, by omega⟩
    rw [decDigits, hdiv, hlast]
    by_cases hnil : s = []
    · subst hnil
      exact congrArg (· ++ [c]) (if_pos rfl)
    · -- what is in front has no zero in front, so it is not zero
      have hrest : s.head? ≠ some 48 := by
        intro hhead
        rw [Unpadded, List.head?_append_of_ne_nil _ hnil] at hplain
        have hone := hplain hhead
        rw [List.length_append, List.length_singleton] at hone
        exact hnil (List.length_eq_zero_iff.mp (by omega))
      have hdigits := ih hs hnil (Nat.le_of_succ_le_succ hlength) fun hhead => absurd hhead hrest
      have hpos : decFrom 0 s ≠ 0 := by
        intro hzero
        rw [hzero] at hdigits
        apply hrest
        rw [← hdigits]
        cases fuel with
        | zero =>
          rw [← hdigits] at hnil
          exact absurd rfl hnil
        | succ fuel => rfl
      rw [if_neg hpos, hdigits]

/-- A number that was read is written again as it was, if it had no zero in front. -/
theorem decDigits_eq_iff {fuel : Nat} (h : ∀ c ∈ s, isDecimal c = true)
    (hne : s ≠ []) (hlength : s.length ≤ fuel) (hv : decFrom 0 s < 10 ^ fuel) :
    decDigits fuel (decFrom 0 s) = s ↔ Unpadded s := by
  constructor
  · intro heq hzero
    by_cases h0 : decFrom 0 s = 0
    · obtain ⟨fuel, rfl⟩ : ∃ f, fuel = f + 1 := by
        cases fuel with
        | zero =>
          rw [← heq] at hne
          exact absurd rfl hne
        | succ fuel => exact ⟨fuel, rfl⟩
      rw [← heq, h0]
      rfl
    · rw [← heq] at hzero
      exact absurd hzero (head_decDigits hv h0)
  · exact decDigits_of_decFrom h hne hlength

end EspCars.Lib
