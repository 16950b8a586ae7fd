import EspCars.Lib.Struct
import EspCars.Lib.Text

/-!
# Loads from a region of memory

A program that reads memory byte by byte, where a load outside the region it may read has no
result. That such a program has one says that it stays inside, and the lemmas here say what it is:
what the same read finds in the list of the bytes.
-/

namespace EspCars.Lib

/-- A load; `none` is an access outside the region. -/
def fetch (region : List UInt8) (i : Nat) : Option UInt8 := region[i]?

/-- A little-endian number. -/
def fetchLe (region : List UInt8) : Nat → Nat → Option Nat
  | 0, _ => some 0
  | width + 1, off => do
    let low ← fetch region off
    let high ← fetchLe region width (off + 1)
    return low.toNat + 256 * high

def fetchBytes (region : List UInt8) : Nat → Nat → Option (List UInt8)
  | 0, _ => some []
  | n + 1, off => do
    let b ← fetch region off
    let rest ← fetchBytes region n (off + 1)
    return b :: rest

/-- A string up to its NUL, which is one of the next `fuel` bytes. -/
def fetchCstr (region : List UInt8) : Nat → Nat → Option (List UInt8)
  | 0, _ => none
  | fuel + 1, off => do
    let b ← fetch region off
    if b = 0 then return []
    else
      let rest ← fetchCstr region fuel (off + 1)
      return b :: rest

section

variable {s : List UInt8} {n : Nat} (hn : n ≤ s.length)

include hn

/-- The region is the first `n` bytes of the memory. -/
theorem fetch_take {i : Nat} (h : i < n) :
    ∃ b, fetch (s.take n) i = some b ∧ s.drop i = b :: s.drop (i + 1) := by
  have hi : i < s.length := by omega
  refine ⟨s[i], ?_, List.drop_eq_getElem_cons hi⟩
  rw [fetch, List.getElem?_take_of_lt h, List.getElem?_eq_getElem hi]

theorem fetchLe_take {width off : Nat} (h : off + width ≤ n) :
    fetchLe (s.take n) width off = some (loadLe width (s.drop off)) := by
  induction width generalizing off with
  | zero => rfl
  | succ width ih =>
    obtain ⟨b, hb, hdrop⟩ := fetch_take hn (show off < n by omega)
    rw [fetchLe, hb, ih (by omega), hdrop, loadLe, List.headD_cons, List.tail_cons]
    rfl

theorem fetchBytes_take {len off : Nat} (h : off + len ≤ n) :
    fetchBytes (s.take n) len off = some ((s.drop off).take len) := by
  induction len generalizing off with
  | zero => rfl
  | succ len ih =>
    obtain ⟨b, hb, hdrop⟩ := fetch_take hn (show off < n by omega)
    rw [fetchBytes, hb, ih (by omega), hdrop, List.take_succ_cons]
    rfl

/-- A NUL inside the region ends the string. -/
theorem fetchCstr_take {fuel off k : Nat} (hk : s[k]? = some 0) (hoff : off ≤ k) (hkn : k < n)
    (hfuel : k < off + fuel) :
    fetchCstr (s.take n) fuel off = some (cstr (s.drop off)) := by
  induction fuel generalizing off with
  | zero => omega
  | succ fuel ih =>
    obtain ⟨b, hb, hdrop⟩ := fetch_take hn (show off < n by omega)
    rw [fetchCstr, hb, hdrop, cstr, List.takeWhile_cons]
    by_cases hzero : b = 0
    · simp [hzero]
    · have hne : off ≠ k := by
        rintro rfl
        have hget := congrArg List.head? hdrop
        rw [List.head?_drop, hk, List.head?_cons] at hget
        exact hzero (Option.some.inj hget).symm
      have hrest := @ih (off + 1) (by omega) (by omega)
      rw [cstr] at hrest
      simp [hzero, hrest]

end

/-- The region is the whole memory. -/
theorem fetchLe_all {s : List UInt8} {width off : Nat} (h : off + width ≤ s.length) :
    fetchLe s width off = some (loadLe width (s.drop off)) := by
  have hall := fetchLe_take le_rfl h
  rwa [List.take_length] at hall

theorem fetchBytes_all {s : List UInt8} {len off : Nat} (h : off + len ≤ s.length) :
    fetchBytes s len off = some ((s.drop off).take len) := by
  have hall := fetchBytes_take le_rfl h
  rwa [List.take_length] at hall

end EspCars.Lib
