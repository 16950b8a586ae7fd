import Mathlib

/-!
# Free-running counters

A 32-bit counter that is only ever incremented, seen as the number of times it was. The distance
of two counters is exact as long as it fits the word. The cell of a counter in an array of `n` is
its value modulo `n`, and that is the number modulo `n` only if the wrap of the word meets `n`.
-/

namespace EspCars.Lib

theorem uint32_ofNat_succ (c : Nat) : UInt32.ofNat c + 1 = UInt32.ofNat (c + 1) := by
  rw [UInt32.ofNat_add]
  rfl

theorem toNat_distance {h t : Nat} (hle : h ≤ t) (hlt : t - h < 2 ^ 32) :
    (UInt32.ofNat t - UInt32.ofNat h).toNat = t - h := by
  rw [UInt32.toNat_sub, UInt32.toNat_ofNat', UInt32.toNat_ofNat']
  omega

/-- The cell of an array of `n` that a counter points to. -/
def slot (n : Nat) [NeZero n] (c : UInt32) : Fin n := Fin.ofNat n c.toNat

variable {n : Nat} [NeZero n]

theorem val_slot (c : Nat) : (slot n (UInt32.ofNat c)).val = c % 2 ^ 32 % n := by
  rw [slot, Fin.val_ofNat, UInt32.toNat_ofNat']

/-- Counters less than `n` apart have different cells, if the word is a multiple of `n` or has not
wrapped yet. -/
theorem slot_ne {c d : Nat} (hw : n ∣ 2 ^ 32 ∨ d < 2 ^ 32) (hcd : c < d) (hdn : d < c + n) :
    slot n (UInt32.ofNat c) ≠ slot n (UInt32.ofNat d) := by
  intro heq
  have hval : c % 2 ^ 32 % n = d % 2 ^ 32 % n := by
    rw [← val_slot, ← val_slot, heq]
  have hmod : c % n = d % n := by
    rcases hw with hdvd | hlt
    · rwa [Nat.mod_mod_of_dvd _ hdvd, Nat.mod_mod_of_dvd _ hdvd] at hval
    · rwa [Nat.mod_eq_of_lt (hcd.trans hlt), Nat.mod_eq_of_lt hlt] at hval
  have hdvd : n ∣ d - c := (Nat.modEq_iff_dvd' (by omega)).mp hmod
  have := Nat.le_of_dvd (by omega) hdvd
  omega

/-- The last multiple of `n` before the wrap and the wrap itself share a cell. -/
theorem slot_wrap :
    slot n (UInt32.ofNat (2 ^ 32 - 2 ^ 32 % n)) = slot n (UInt32.ofNat (2 ^ 32)) := by
  apply Fin.ext
  rw [val_slot, val_slot, Nat.mod_self, Nat.zero_mod]
  have hmod : (2 ^ 32 - 2 ^ 32 % n) % n = 0 :=
    Nat.sub_mod_eq_zero_of_mod_eq (Nat.mod_mod (2 ^ 32) n).symm
  by_cases h0 : 2 ^ 32 % n = 0
  · rw [h0, Nat.sub_zero, Nat.mod_self, Nat.zero_mod]
  · have hlt : 2 ^ 32 - 2 ^ 32 % n < 2 ^ 32 := Nat.sub_lt (by decide) (Nat.pos_of_ne_zero h0)
    rw [Nat.mod_eq_of_lt hlt, hmod]

end EspCars.Lib
