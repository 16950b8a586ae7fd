import EspCars.Lib.Struct
import Mathlib

/-!
# Bit fields

Fields of any width at any bit of a byte string, the most significant bit first: the number in
them, its bytes in the other order, and its reading in two's complement, over the natural numbers;
and the same steps in a 64-bit accumulator. The accumulator holds the exact number as long as the
field has 64 bits at most (`toNat_readBits`, `toNat_swapBytes64`), and what is read from it as a
signed number is the exact one modulo `2 ^ 64` (`toInt_signExtend64`).
-/

namespace EspCars.Lib

/-! ## Exact numbers -/

/-- Bit `i`, where a missing byte counts as zero. -/
def bitAt (s : List UInt8) (i : Nat) : Nat := (s.getD (i / 8) 0).toNat / 2 ^ (7 - i % 8) % 2

/-- The number in the bits from `start` on. -/
def bitsAt (s : List UInt8) (start : Nat) : Nat → Nat
  | 0 => 0
  | n + 1 => 2 * bitsAt s start n + bitAt s (start + n)

/-- The lowest `n` bytes in the other order. -/
def swapBytes (n v : Nat) : Nat := loadLe n (le n v).reverse

/-- The number whose bit `n - 1` counts negative. -/
def signExtend (n v : Nat) : Int := if v / 2 ^ (n - 1) % 2 = 1 then (v : Int) - 2 ^ n else v

theorem bitAt_lt (s : List UInt8) (i : Nat) : bitAt s i < 2 := Nat.mod_lt _ Nat.two_pos

theorem bitsAt_lt (s : List UInt8) (start n : Nat) : bitsAt s start n < 2 ^ n := by
  induction n with
  | zero => exact Nat.one_pos
  | succ n ih =>
    have hbit := bitAt_lt s (start + n)
    rw [bitsAt, Nat.pow_succ]
    omega

theorem le_succ_append (n v : Nat) : le (n + 1) v = le n v ++ [UInt8.ofNat (v / 256 ^ n)] := by
  induction n generalizing v with
  | zero =>
    rw [Nat.pow_zero, Nat.div_one]
    rfl
  | succ n ih =>
    rw [le, ih, Nat.div_div_eq_div_mul, Nat.mul_comm, ← Nat.pow_succ]
    rfl

theorem swapBytes_succ (n v : Nat) :
    swapBytes (n + 1) v = v / 256 ^ n % 256 + 256 * swapBytes n v := by
  rw [swapBytes, le_succ_append, List.reverse_append, List.reverse_singleton, List.singleton_append,
    loadLe, List.headD_cons, List.tail_cons, UInt8.toNat_ofNat']
  rfl

theorem swapBytes_lt (n v : Nat) : swapBytes n v < 256 ^ n := loadLe_lt n _

theorem signExtend_le (n v : Nat) : signExtend n v ≤ v := by
  unfold signExtend
  have hpos : (0 : Int) < 2 ^ n := Int.pow_pos (by decide)
  split <;> omega

/-- The number is not below the lowest one of `n` bits, even if it has more of them. -/
theorem le_signExtend {n v : Nat} (hn : 0 < n) : -2 ^ (n - 1) ≤ signExtend n v := by
  unfold signExtend
  have hpos : (0 : Int) < 2 ^ (n - 1) := Int.pow_pos (by decide)
  split
  · next hbit =>
    have hle : 2 ^ (n - 1) ≤ v := by
      by_contra hlt
      rw [Nat.div_eq_of_lt (Nat.lt_of_not_le hlt)] at hbit
      exact absurd hbit (by decide)
    have hpow : (2 : Int) ^ n = 2 * 2 ^ (n - 1) := by
      rw [← pow_succ', Nat.sub_add_cancel hn]
    have hle' : (2 : Int) ^ (n - 1) ≤ v := by exact_mod_cast hle
    omega
  · omega

/-! ## The accumulator -/

/-- The bits pushed into the accumulator one by one. -/
def readBits (s : List UInt8) (start n : Nat) : UInt64 :=
  (List.range n).foldl (fun raw i => raw <<< 1 ||| UInt64.ofNat (bitAt s (start + i))) 0

def swapBytes64 (n : Nat) (raw : UInt64) : UInt64 :=
  (List.range n).foldl
    (fun swapped j =>
      swapped ||| (raw >>> UInt64.ofNat (8 * j) &&& 0xFF) <<< UInt64.ofNat (8 * (n - 1 - j)))
    0

def signExtend64 (n : Nat) (raw : UInt64) : UInt64 :=
  if raw >>> UInt64.ofNat (n - 1) &&& 1 ≠ 0 then raw - (1 : UInt64) <<< UInt64.ofNat n else raw

/-- A number modulo `2 ^ 64`, from `-2 ^ 63` on. -/
def wrap64 (v : Int) : Int := v.bmod (2 ^ 64)

theorem toNat_shift {k : Nat} (hk : k < 64) : (UInt64.ofNat k).toNat % 64 = k := by
  rw [UInt64.toNat_ofNat_of_lt' (by simp only [UInt64.size]; omega), Nat.mod_eq_of_lt hk]

theorem toNat_shiftLeft {x : UInt64} {k : Nat} (hk : k < 64) (hx : x.toNat * 2 ^ k < 2 ^ 64) :
    (x <<< UInt64.ofNat k).toNat = x.toNat * 2 ^ k := by
  rw [UInt64.toNat_shiftLeft, toNat_shift hk, Nat.shiftLeft_eq, Nat.mod_eq_of_lt hx]

/-- Bits put in below others are added to them. -/
theorem or_eq_add {high low k : Nat} (hlow : low < 2 ^ k) :
    high * 2 ^ k ||| low = high * 2 ^ k + low := by
  rw [Nat.mul_comm, Nat.two_pow_add_eq_or_of_lt hlow]

theorem toNat_readBits {s : List UInt8} {start n : Nat} (hn : n ≤ 64) :
    (readBits s start n).toNat = bitsAt s start n := by
  induction n with
  | zero => rfl
  | succ n ih =>
    have hprev := ih (Nat.le_of_succ_le hn)
    have hlt := bitsAt_lt s start n
    have hpow : 2 ^ n ≤ 2 ^ 63 := Nat.pow_le_pow_right Nat.two_pos (by omega)
    have hbit := bitAt_lt s (start + n)
    have hlow : (UInt64.ofNat (bitAt s (start + n))).toNat = bitAt s (start + n) :=
      UInt64.toNat_ofNat_of_lt' (by simp only [UInt64.size]; omega)
    have hshift : (readBits s start n <<< 1).toNat = bitsAt s start n * 2 ^ 1 := by
      rw [← hprev]
      exact toNat_shiftLeft (k := 1) (by decide) (by rw [hprev]; omega)
    rw [readBits, List.range_succ, List.foldl_append, List.foldl_cons, List.foldl_nil,
      UInt64.toNat_or, hlow, bitsAt, Nat.mul_comm]
    exact (congrArg (· ||| bitAt s (start + n)) hshift).trans (or_eq_add hbit)

/-- Byte `j`, shifted down and masked. -/
theorem toNat_byte (raw : UInt64) {j : Nat} (hj : j < 8) :
    (raw >>> UInt64.ofNat (8 * j) &&& 0xFF).toNat = raw.toNat / 256 ^ j % 256 := by
  rw [UInt64.toNat_and, UInt64.toNat_shiftRight, toNat_shift (by omega),
    Nat.shiftRight_eq_div_pow, Nat.pow_mul]
  exact Nat.and_two_pow_sub_one_eq_mod _ 8

/-- Byte `j` goes below the `j` bytes before it, which are above `k + 1` zero bytes. -/
theorem toNat_swapTurn {raw swapped : UInt64} {j k : Nat} (hjk : j + k < 8)
    (h : swapped.toNat = swapBytes j raw.toNat * 256 ^ (k + 1)) :
    (swapped ||| (raw >>> UInt64.ofNat (8 * j) &&& 0xFF) <<< UInt64.ofNat (8 * k)).toNat =
      swapBytes (j + 1) raw.toNat * 256 ^ k := by
  have hbyte := toNat_byte raw (show j < 8 by omega)
  have hlt : raw.toNat / 256 ^ j % 256 < 256 := Nat.mod_lt _ (by decide)
  have hbelow : raw.toNat / 256 ^ j % 256 * 2 ^ (8 * k) < 2 ^ (8 * (k + 1)) := by
    rw [Nat.mul_add, Nat.pow_add, Nat.mul_comm]
    exact Nat.mul_lt_mul_of_pos_left hlt (Nat.two_pow_pos _)
  have hroom : 2 ^ (8 * (k + 1)) ≤ 2 ^ 64 := Nat.pow_le_pow_right Nat.two_pos (by omega)
  have hlow : ((raw >>> UInt64.ofNat (8 * j) &&& 0xFF) <<< UInt64.ofNat (8 * k)).toNat =
      raw.toNat / 256 ^ j % 256 * 2 ^ (8 * k) := by
    rw [← hbyte]
    apply toNat_shiftLeft (by omega)
    rw [hbyte]
    exact Nat.lt_of_lt_of_le hbelow hroom
  have hpow : ∀ m, 256 ^ m = 2 ^ (8 * m) := fun m => (Nat.pow_mul 2 8 m).symm
  rw [UInt64.toNat_or, h, hlow, hpow, or_eq_add hbelow, swapBytes_succ, hpow, hpow]
  ring

theorem toNat_swapBytes64 {n : Nat} (hn : n ≤ 8) (raw : UInt64) :
    (swapBytes64 n raw).toNat = swapBytes n raw.toNat := by
  have hturns : ∀ j ≤ n, ((List.range j).foldl (fun swapped j =>
      swapped ||| (raw >>> UInt64.ofNat (8 * j) &&& 0xFF) <<< UInt64.ofNat (8 * (n - 1 - j)))
        0).toNat = swapBytes j raw.toNat * 256 ^ (n - j) := by
    intro j
    induction j with
    | zero =>
      intro _
      rw [swapBytes, le, List.reverse_nil, loadLe, Nat.zero_mul]
      rfl
    | succ j ih =>
      intro hj
      have hk : n - (j + 1) = n - 1 - j := by omega
      have hprev := ih (Nat.le_of_succ_le hj)
      rw [show n - j = n - 1 - j + 1 by omega] at hprev
      rw [List.range_succ, List.foldl_append, List.foldl_cons, List.foldl_nil, hk]
      exact toNat_swapTurn (by omega) hprev
  have hall := hturns n (Nat.le_refl n)
  rw [Nat.sub_self, Nat.pow_zero, Nat.mul_one] at hall
  exact hall

theorem toInt_toInt64 (x : UInt64) : x.toInt64.toInt = wrap64 x.toNat :=
  BitVec.toInt_eq_toNat_bmod x.toBitVec

theorem toInt_signExtend64 {n : Nat} (hpos : 0 < n) (hn : n < 64) (raw : UInt64) :
    (signExtend64 n raw).toInt64.toInt = wrap64 (signExtend n raw.toNat) := by
  have hbit : (raw >>> UInt64.ofNat (n - 1) &&& 1).toNat = raw.toNat / 2 ^ (n - 1) % 2 := by
    rw [UInt64.toNat_and, UInt64.toNat_shiftRight, toNat_shift (by omega),
      Nat.shiftRight_eq_div_pow]
    exact Nat.and_one_is_mod _
  have hset : raw >>> UInt64.ofNat (n - 1) &&& 1 ≠ 0 ↔ raw.toNat / 2 ^ (n - 1) % 2 = 1 := by
    rw [← hbit, Ne, ← UInt64.toNat_inj, show (0 : UInt64).toNat = 0 from rfl, hbit]
    omega
  unfold signExtend64 signExtend
  by_cases h : raw.toNat / 2 ^ (n - 1) % 2 = 1
  · have hone : ((1 : UInt64) <<< UInt64.ofNat n).toNat = 2 ^ n := by
      rw [toNat_shiftLeft hn, show (1 : UInt64).toNat = 1 from rfl, Nat.one_mul]
      rw [show (1 : UInt64).toNat = 1 from rfl, Nat.one_mul]
      exact Nat.pow_lt_pow_right (by decide) hn
    have hle : 2 ^ n ≤ 2 ^ 64 := Nat.pow_le_pow_right Nat.two_pos (Nat.le_of_lt hn)
    have hsub : ((2 ^ 64 - 2 ^ n + raw.toNat : Nat) : Int) =
        raw.toNat - 2 ^ n + (2 ^ 64 : Nat) := by
      rw [Int.natCast_add, Int.natCast_sub hle]
      push_cast
      ring
    rw [if_pos (hset.mpr h), if_pos h, toInt_toInt64, UInt64.toNat_sub, hone]
    unfold wrap64
    rw [Int.natCast_emod, hsub, Int.emod_bmod]
    exact Int.add_bmod_right ..
  · rw [if_neg (mt hset.mp h), if_neg h, toInt_toInt64]

/-- The wrapped number is the exact one if there is a place for it. -/
theorem wrap64_of_lt {v : Int} (hlow : -2 ^ 63 ≤ v) (hhigh : v < 2 ^ 63) : wrap64 v = v := by
  unfold wrap64
  rw [Int.bmod_def]
  omega

theorem wrap64_of_le {v : Int} (hlow : 2 ^ 63 ≤ v) (hhigh : v < 2 ^ 64) :
    wrap64 v = v - 2 ^ 64 := by
  unfold wrap64
  rw [Int.bmod_def]
  omega

end EspCars.Lib
