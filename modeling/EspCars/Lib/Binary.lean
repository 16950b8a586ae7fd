import Mathlib

/-!
# Binary floating point

`binary32` numbers as their bit patterns, as code that copies the bits of a `float` sees them, and
non-negative `binary64` numbers as multiples of the smallest one, which is all that a decimal
parser computes with. Every operation is the exact one followed by one rounding to nearest, ties
to even.
-/

namespace EspCars.Lib

/-! ## Rounding -/

/-- The integer nearest to `num / den`, the even one of two. -/
def roundHalfEven (num den : Nat) : Nat :=
  let q := num / den
  let r := num % den
  if 2 * r < den then q
  else if den < 2 * r then q + 1
  else if q % 2 = 0 then q
  else q + 1

/-- `num / den` rounded to an integer of at most `p` significant bits. -/
def roundUnits (p num den : Nat) : Nat :=
  let k := Nat.log2 (num / den) + 1 - p
  2 ^ k * roundHalfEven num (den * 2 ^ k)

/-! ## `float` -/

/-- A single precision number by its bits. -/
structure Binary32 where
  bits : UInt32
  deriving DecidableEq

namespace Binary32

def isNegative (x : Binary32) : Bool := x.bits >>> 31 = 1

def exponent (x : Binary32) : Nat := (x.bits >>> 23 &&& 0xFF).toNat

def fraction (x : Binary32) : Nat := (x.bits &&& 0x7FFFFF).toNat

def isFinite (x : Binary32) : Bool := x.exponent ≠ 255

def isNan (x : Binary32) : Bool := x.exponent = 255 ∧ x.fraction ≠ 0

/-- The magnitude as a multiple of `2 ^ -149`. An infinity counts as `2 ^ 128`, which is more than
every finite number. -/
def units (x : Binary32) : Nat :=
  if x.exponent = 0 then x.fraction else (2 ^ 23 + x.fraction) * 2 ^ (x.exponent - 1)

/-- The number as a multiple of `2 ^ -149`, if it is one. -/
def toInt (x : Binary32) : Int := if x.isNegative then -x.units else x.units

/-- `a < b` -/
def lt (a b : Binary32) : Bool := !a.isNan && !b.isNan && decide (a.toInt < b.toInt)

/-- `a == b` -/
def eq (a b : Binary32) : Bool := !a.isNan && !b.isNan && decide (a.toInt = b.toInt)

/-- The number with `-0.0` as `0.0`. -/
def posZero (x : Binary32) : Binary32 := if x.bits = 0x80000000 then ⟨0⟩ else x

theorem isNan_posZero (x : Binary32) : x.posZero.isNan = x.isNan := by
  unfold posZero
  split_ifs with hx
  · obtain ⟨bits⟩ := x
    obtain rfl : bits = 0x80000000 := hx
    rfl
  · rfl

theorem toInt_posZero (x : Binary32) : x.posZero.toInt = x.toInt := by
  unfold posZero
  split_ifs with hx
  · obtain ⟨bits⟩ := x
    obtain rfl : bits = 0x80000000 := hx
    rfl
  · rfl

/-- Numbers that differ in the sign of a zero at most are equal. -/
theorem eq_of_posZero {a b : Binary32} (ha : a.isFinite = true) (h : a.posZero = b.posZero) :
    a.eq b = true := by
  have hnan : a.isNan = false := decide_eq_false fun hnan => of_decide_eq_true ha hnan.1
  have hnan' : b.isNan = false := by
    rw [← isNan_posZero, ← h, isNan_posZero, hnan]
  have hint : a.toInt = b.toInt := by
    rw [← toInt_posZero, h, toInt_posZero]
  rw [eq, hnan, hnan', decide_eq_true hint]
  rfl

/-- `1.0f` and `0.0f`, the two numbers that a boolean is carried as. -/
def ofBool (b : Bool) : Binary32 := ⟨if b then 0x3F800000 else 0⟩

def infinityUnits : Nat := 2 ^ 277

/-- The number of that sign and magnitude, if it has 24 significant bits at most; an infinity from
`infinityUnits` on. -/
def ofUnits (negative : Bool) (u : Nat) : Binary32 :=
  let u := min u infinityUnits
  let k := Nat.log2 u - 23
  let magnitude := if u < 2 ^ 23 then u else (k + 1) * 2 ^ 23 + (u / 2 ^ k - 2 ^ 23)
  ⟨UInt32.ofNat (magnitude + if negative then 2 ^ 31 else 0)⟩

end Binary32

/-! ## Exact arithmetic -/

/-- What a float stands for, and a sum or product of such before it is rounded. -/
inductive Exact
  | finite (q : Rat)
  | infinite (negative : Bool)
  | nan
  deriving DecidableEq

namespace Exact

def mul : Exact → Exact → Exact
  | .finite a, .finite b => .finite (a * b)
  | .finite a, .infinite s | .infinite s, .finite a =>
    if a = 0 then .nan else .infinite (s ^^ decide (a < 0))
  | .infinite s, .infinite t => .infinite (s ^^ t)
  | .nan, _ | _, .nan => .nan

def add : Exact → Exact → Exact
  | .finite a, .finite b => .finite (a + b)
  | .finite _, .infinite s | .infinite s, .finite _ => .infinite s
  | .infinite s, .infinite t => if s = t then .infinite s else .nan
  | .nan, _ | _, .nan => .nan

def ofInt (n : Int) : Exact := .finite n

end Exact

/-- The number as a fraction. -/
def Binary32.exact (x : Binary32) : Exact :=
  if x.isNan then .nan
  else if x.isFinite then .finite (x.toInt / 2 ^ 149)
  else .infinite x.isNegative

/-! ## `double` -/

/-- A number that is not negative, as a multiple of `2 ^ -1074`. -/
inductive Magnitude64
  | finite (units : Nat)
  | infinite
  deriving DecidableEq

namespace Magnitude64

/-- A sum, product or quotient rounded to 53 bits. -/
def round (num den : Nat) : Magnitude64 :=
  let u := roundUnits 53 num den
  if u < 2 ^ (1024 + 1074) then .finite u else .infinite

def ofNat (n : Nat) : Magnitude64 := round (n * 2 ^ 1074) 1

/-- The sum, rounded. -/
def add : Magnitude64 → Magnitude64 → Magnitude64
  | .finite a, .finite b => round (a + b) 1
  | _, _ => .infinite

/-- Never taken of a zero and an infinity. -/
def mul : Magnitude64 → Magnitude64 → Magnitude64
  | .finite a, .finite b => round (a * b) (2 ^ 1074)
  | _, _ => .infinite

/-- Never taken of two infinities, nor by zero. -/
def div : Magnitude64 → Magnitude64 → Magnitude64
  | .finite a, .finite b => round (a * 2 ^ 1074) b
  | .finite _, .infinite => .finite 0
  | .infinite, _ => .infinite

end Magnitude64

/-- A double precision number by sign and magnitude. -/
structure Binary64 where
  negative : Bool := false
  magnitude : Magnitude64 := .finite 0
  deriving DecidableEq

namespace Binary64

/-- The largest finite `float`. -/
def floatMax : Nat := (2 ^ 24 - 1) * 2 ^ (104 + 1074)

/-- The number as a multiple of `2 ^ -1074`, an infinity as `2 ^ 1024`. -/
def toInt (x : Binary64) : Int :=
  let u : Nat := match x.magnitude with
    | .finite u => u
    | .infinite => 2 ^ (1024 + 1074)
  if x.negative then -u else u

/-- Within the range of `float`. -/
def isFinite (x : Binary64) : Bool :=
  match x.magnitude with
  | .finite u => u ≤ floatMax
  | .infinite => false

/-- `static_cast<float>(x)` -/
def toFloat (x : Binary64) : Binary32 :=
  match x.magnitude with
  | .finite u => .ofUnits x.negative (roundUnits 24 u (2 ^ 925))
  | .infinite => .ofUnits x.negative Binary32.infinityUnits

/-- `static_cast<double>(f)` as a multiple of `2 ^ -1074`. -/
def unitsOfFloat (f : Binary32) : Int := f.toInt * 2 ^ 925

end Binary64

example : (Binary64.toFloat ⟨true, .ofNat 5⟩).bits = 0xC0A00000 := by decide +kernel

example : (Binary64.toFloat ⟨false, .div (.ofNat 1) (.ofNat 10)⟩).bits = 0x3DCCCCCD := by
  decide +kernel

end EspCars.Lib
