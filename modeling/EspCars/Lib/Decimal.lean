import Mathlib

/-!
# Decimal numbers as text

The digits of a number without leading zeros, the digits of a fraction of fixed width, and the
value of a run of digits.
-/

namespace EspCars.Lib

def isDecimal (c : UInt8) : Bool := 0x30 ≤ c ∧ c ≤ 0x39

def decDigit (d : Nat) : UInt8 := (48 + d % 10).toUInt8

/-- The digits of `v`, at most `fuel` of them. -/
def decDigits : Nat → Nat → List UInt8
  | 0, _ => []
  | fuel + 1, v => (if v / 10 = 0 then [] else decDigits fuel (v / 10)) ++ [decDigit v]

def decText (v : Nat) : List UInt8 := decDigits (v + 1) v

/-- The last `d` digits of `v`. -/
def padDigits : Nat → Nat → List UInt8
  | 0, _ => []
  | d + 1, v => padDigits d (v / 10) ++ [decDigit v]

/-- The digits read on from the value `v`. -/
def decFrom (v : Nat) (s : List UInt8) : Nat := s.foldl (fun v c => v * 10 + (c.toNat - 48)) v

theorem decDigit_toNat (d : Nat) : (decDigit d).toNat = 48 + d % 10 := by
  have h : d % 10 < 10 := Nat.mod_lt _ (by decide)
  unfold decDigit
  rw [Nat.toUInt8, UInt8.toNat_ofNat']
  omega

theorem isDecimal_iff {c : UInt8} : isDecimal c = true ↔ 48 ≤ c.toNat ∧ c.toNat ≤ 57 := by
  unfold isDecimal
  rw [decide_eq_true_iff, UInt8.le_iff_toNat_le, UInt8.le_iff_toNat_le]
  rfl

theorem isDecimal_decDigit (d : Nat) : isDecimal (decDigit d) = true := by
  rw [isDecimal_iff, decDigit_toNat]
  omega

theorem isDecimal_of_mem_decDigits {fuel v : Nat} {c : UInt8} (h : c ∈ decDigits fuel v) :
    isDecimal c = true := by
  induction fuel generalizing v with
  | zero => cases h
  | succ fuel ih =>
    rw [decDigits, List.mem_append, List.mem_singleton] at h
    rcases h with h | rfl
    · split at h
      · cases h
      · exact ih h
    · exact isDecimal_decDigit v

theorem isDecimal_of_mem_padDigits {d v : Nat} {c : UInt8} (h : c ∈ padDigits d v) :
    isDecimal c = true := by
  induction d generalizing v with
  | zero => cases h
  | succ d ih =>
    rw [padDigits, List.mem_append, List.mem_singleton] at h
    rcases h with h | rfl
    · exact ih h
    · exact isDecimal_decDigit v

theorem decFrom_append (v : Nat) (a b : List UInt8) :
    decFrom v (a ++ b) = decFrom (decFrom v a) b :=
  List.foldl_append ..

theorem le_decFrom (v : Nat) (s : List UInt8) : v ≤ decFrom v s := by
  induction s generalizing v with
  | nil => exact Nat.le_refl v
  | cons c s ih =>
    refine Nat.le_trans ?_ (ih (v * 10 + (c.toNat - 48)))
    omega

theorem decFrom_singleton (v d : Nat) : decFrom v [decDigit d] = v * 10 + d % 10 := by
  show v * 10 + ((decDigit d).toNat - 48) = _
  rw [decDigit_toNat]
  omega

theorem div_ten_lt {v w : Nat} (h : v < 10 ^ (w + 1)) : v / 10 < 10 ^ w := by
  rw [Nat.div_lt_iff_lt_mul (by decide)]
  rwa [Nat.pow_succ] at h

theorem decFrom_decDigits {fuel v : Nat} (h : v < 10 ^ fuel) : decFrom 0 (decDigits fuel v) = v := by
  induction fuel generalizing v with
  | zero => rw [decDigits]; show 0 = v; omega
  | succ fuel ih =>
    rw [decDigits, decFrom_append, decFrom_singleton]
    have hlt : v / 10 < 10 ^ fuel := div_ten_lt h
    split
    next hz =>
      show 0 * 10 + v % 10 = v
      omega
    next hz =>
      rw [ih hlt]
      omega

theorem lt_ten_pow (v : Nat) : v < 10 ^ (v + 1) :=
  Nat.lt_trans (Nat.lt_succ_self v) (Nat.lt_pow_self (by decide))

theorem decFrom_decText (v : Nat) : decFrom 0 (decText v) = v := decFrom_decDigits (lt_ten_pow v)

theorem decFrom_padDigits (w d v : Nat) : decFrom w (padDigits d v) = w * 10 ^ d + v % 10 ^ d := by
  induction d generalizing v with
  | zero =>
    show w = _
    rw [Nat.pow_zero, Nat.mod_one]
    omega
  | succ d ih =>
    rw [padDigits, decFrom_append, decFrom_singleton, ih, Nat.add_mul, Nat.mul_assoc, ← Nat.pow_succ]
    have h := Nat.mod_mul (x := v) (a := 10) (b := 10 ^ d)
    rw [Nat.pow_succ, Nat.mul_comm (10 ^ d) 10, h]
    omega

theorem length_padDigits (d v : Nat) : (padDigits d v).length = d := by
  induction d generalizing v with
  | zero => rfl
  | succ d ih => rw [padDigits, List.length_append, ih]; rfl

theorem decDigits_ne_nil (fuel v : Nat) : decDigits (fuel + 1) v ≠ [] := by
  rw [decDigits]
  exact List.append_ne_nil_of_right_ne_nil _ (List.cons_ne_nil _ _)

theorem decText_ne_nil (v : Nat) : decText v ≠ [] := decDigits_ne_nil v v

/-- A number of two digits or more does not begin with a zero. -/
theorem head_decDigits {fuel v : Nat} (h : v < 10 ^ fuel) (hv : v ≠ 0) :
    (decDigits fuel v).head? ≠ some 0x30 := by
  induction fuel generalizing v with
  | zero => nofun
  | succ fuel ih =>
    have hlt : v / 10 < 10 ^ fuel := div_ten_lt h
    rw [decDigits]
    split
    next hz =>
      rw [List.nil_append, List.head?_cons]
      intro heq
      have hd := congrArg UInt8.toNat (Option.some.inj heq)
      rw [decDigit_toNat] at hd
      have : (0x30 : UInt8).toNat = 48 := rfl
      omega
    next hz =>
      rw [List.head?_append]
      intro heq
      cases hhead : (decDigits fuel (v / 10)).head? with
      | none =>
        rw [List.head?_eq_none_iff] at hhead
        cases fuel with
        | zero => rw [Nat.pow_zero] at hlt; omega
        | succ fuel => exact decDigits_ne_nil _ _ hhead
      | some c =>
        rw [hhead] at heq
        exact ih hlt hz (hhead.trans heq)

theorem decDigits_stable {f g v : Nat} (hf : v < 10 ^ (f + 1)) (hg : v < 10 ^ (g + 1)) :
    decDigits (f + 1) v = decDigits (g + 1) v := by
  induction f generalizing g v with
  | zero =>
    have hz : v / 10 = 0 := by omega
    rw [decDigits, decDigits.eq_2 v g, if_pos hz, if_pos hz]
  | succ f ih =>
    rw [decDigits.eq_2 v (f + 1), decDigits.eq_2 v g]
    by_cases hz : v / 10 = 0
    · rw [if_pos hz, if_pos hz]
    · rw [if_neg hz, if_neg hz]
      cases g with
      | zero => omega
      | succ g =>
        rw [ih (div_ten_lt hf) (div_ten_lt hg)]

/-- Enough digits are all the digits. -/
theorem decDigits_eq_decText {fuel v : Nat} (h : v < 10 ^ (fuel + 1)) :
    decDigits (fuel + 1) v = decText v :=
  decDigits_stable h (lt_ten_pow v)

end EspCars.Lib
