import Mathlib

/-!
# Text as bytes

ASCII text, C strings, and numbers in hexadecimal: upper-case digits without leading zeros, as an
emitter with a digit buffer of fixed size writes them, and the parser that takes exactly the digits.
-/

namespace EspCars.Lib

/-- The bytes of an ASCII text. -/
def ascii (s : String) : List UInt8 := s.toList.map (·.toNat.toUInt8)

/-- The bytes of a C string: those before the first NUL. -/
def cstr (s : List UInt8) : List UInt8 := s.takeWhile (· ≠ 0)

variable {s : List UInt8} {width v : Nat}

theorem cstr_eq_self (h : 0 ∉ s) : cstr s = s := by
  apply List.takeWhile_eq_self_iff.mpr
  intro c hc
  rw [decide_eq_true_iff]
  rintro rfl
  exact h hc

theorem zero_notMem_cstr (s : List UInt8) : 0 ∉ cstr s := by
  intro h
  simpa using List.mem_takeWhile_imp h

/-- A C string ends at the first NUL, whatever follows it. -/
theorem cstr_append_zero (s rest : List UInt8) : cstr (s ++ 0 :: rest) = cstr s := by
  induction s with
  | nil => rfl
  | cons c s ih =>
    unfold cstr at ih ⊢
    rw [List.cons_append, List.takeWhile_cons, List.takeWhile_cons, ih]

/-! ## Identifiers -/

def isIdentChar (c : UInt8) : Bool :=
  0x61 ≤ c ∧ c ≤ 0x7A ∨ 0x30 ≤ c ∧ c ≤ 0x39 ∨ c = 0x5F

/-- `^[a-z][a-z0-9_]*$` as Python matches it: the end is also before a newline at the end. -/
def isIdent (s : List UInt8) : Bool :=
  match s with
  | [] => false
  | c :: s =>
    decide (0x61 ≤ c ∧ c ≤ 0x7A) &&
      (s.all isIdentChar || (s.getLast? = some 0x0A && s.dropLast.all isIdentChar))

/-- The bytes of an identifier. -/
theorem of_mem_isIdent (h : isIdent s = true) {c : UInt8} (hc : c ∈ s) :
    isIdentChar c = true ∨ c = 0x0A := by
  cases s with
  | nil => cases hc
  | cons d s =>
    rw [isIdent, Bool.and_eq_true, Bool.or_eq_true, Bool.and_eq_true, decide_eq_true_iff,
      decide_eq_true_iff, List.all_eq_true, List.all_eq_true] at h
    obtain ⟨hd, hs⟩ := h
    rcases List.mem_cons.mp hc with rfl | hc
    · left
      unfold isIdentChar
      exact decide_eq_true (.inl hd)
    · rcases hs with hall | ⟨hlast, hall⟩
      · exact .inl (hall c hc)
      · have hne : s ≠ [] := List.ne_nil_of_mem hc
        rw [List.getLast?_eq_some_getLast hne] at hlast
        rw [← List.dropLast_concat_getLast hne, List.mem_append, List.mem_singleton,
          Option.some.inj hlast] at hc
        exact hc.imp (hall c) id

theorem dot_notMem_isIdent (h : isIdent s = true) : 0x2E ∉ s := by
  intro hc
  rcases of_mem_isIdent h hc with hchar | hchar
  · exact absurd hchar (by decide)
  · exact absurd hchar (by decide)

/-! ## Dotted names -/

/-- What a name with one segment more is made of. -/
theorem append_dot_inj {a b t : List UInt8} (hs : 0x2E ∉ s) (ht : 0x2E ∉ t)
    (h : a ++ 0x2E :: s = b ++ 0x2E :: t) : a = b ∧ s = t := by
  rcases List.append_eq_append_iff.mp h with ⟨m, hb, hm⟩ | ⟨m, ha, hm⟩
  · cases m with
    | nil => exact ⟨by rw [hb, List.append_nil], (List.cons.inj hm).2⟩
    | cons c m =>
      rw [(List.cons.inj hm).2] at hs
      exact absurd (List.mem_append_right m List.mem_cons_self) hs
  · cases m with
    | nil => exact ⟨by rw [ha, List.append_nil], (List.cons.inj hm).2.symm⟩
    | cons c m =>
      rw [(List.cons.inj hm).2] at ht
      exact absurd (List.mem_append_right m List.mem_cons_self) ht

/-- A name with one segment more is below the name itself and what that is below. -/
theorem dot_prefix_append {r b t : List UInt8} (ht : 0x2E ∉ t) :
    r ++ [0x2E] <+: b ++ 0x2E :: t ↔ r = b ∨ r ++ [0x2E] <+: b := by
  constructor
  · rintro ⟨rest, h⟩
    rw [List.append_assoc, List.singleton_append] at h
    rcases List.append_eq_append_iff.mp h with ⟨m, hb, hm⟩ | ⟨m, hr, hm⟩
    · cases m with
      | nil => exact .inl (by rw [hb, List.append_nil])
      | cons c m =>
        right
        rw [hb, ← (List.cons.inj hm).1]
        exact ⟨m, by rw [List.append_assoc, List.singleton_append]⟩
    · cases m with
      | nil => exact .inl (by rw [hr, List.append_nil])
      | cons c m =>
        rw [(List.cons.inj hm).2] at ht
        exact absurd (List.mem_append_right m List.mem_cons_self) ht
  · rintro (rfl | ⟨rest, h⟩)
    · exact ⟨t, by rw [List.append_assoc, List.singleton_append]⟩
    · exact ⟨rest ++ 0x2E :: t, by rw [← h, List.append_assoc (r ++ [0x2E])]⟩

theorem not_prefix_dot {r t : List UInt8} (ht : 0x2E ∉ t) : ¬r ++ [0x2E] <+: t := by
  intro h
  exact ht (h.subset (List.mem_append_right r List.mem_cons_self))

/-! ## Hexadecimal numbers -/

def hexDigit (d : Nat) : UInt8 := (ascii "0123456789ABCDEF").getD d 0

/-- The last `width` digits of `v`, from the first that is not zero on. -/
def hexDigits : Nat → Nat → List UInt8
  | 0, _ => []
  | width + 1, v => if v = 0 then [] else hexDigits width (v / 16) ++ [hexDigit (v % 16)]

def hexText (width v : Nat) : List UInt8 := if v = 0 then ascii "0" else hexDigits width v

def hexVal (c : UInt8) : Option Nat :=
  if 48 ≤ c ∧ c ≤ 57 then some (c - 48).toNat
  else if 65 ≤ c ∧ c ≤ 70 then some (c - 55).toNat
  else none

/-- The digits read on from the value `v`. -/
def hexFrom (v : Nat) : List UInt8 → Option Nat
  | [] => some v
  | c :: s =>
    match hexVal c with
    | some d => hexFrom (v * 16 + d) s
    | none => none

theorem hexVal_hexDigit {d : Nat} (h : d < 16) : hexVal (hexDigit d) = some d := by
  revert d
  decide

theorem hexFrom_append (v : Nat) (a b : List UInt8) :
    hexFrom v (a ++ b) = (hexFrom v a).bind (hexFrom · b) := by
  induction a generalizing v with
  | nil => rfl
  | cons c a ih =>
    rw [List.cons_append, hexFrom, hexFrom]
    cases hexVal c with
    | none => rfl
    | some d => exact ih _

theorem hexFrom_hexDigits (h : v < 16 ^ width) : hexFrom 0 (hexDigits width v) = some v := by
  induction width generalizing v with
  | zero =>
    have h0 : v = 0 := by simpa using h
    rw [h0]
    rfl
  | succ width ih =>
    rw [hexDigits]
    split_ifs with h0
    · rw [h0]
      rfl
    · have hdiv : v / 16 < 16 ^ width := by
        rw [Nat.pow_succ] at h
        omega
      rw [hexFrom_append, ih hdiv, Option.bind_some, hexFrom,
        hexVal_hexDigit (Nat.mod_lt _ (by decide))]
      exact congrArg some (by omega)

/-- What the emitter writes, the parser reads. -/
theorem hexFrom_hexText (h : v < 16 ^ width) : hexFrom 0 (hexText width v) = some v := by
  rw [hexText]
  split_ifs with h0
  · rw [h0]
    decide
  · exact hexFrom_hexDigits h

theorem length_hexDigits_le (width v : Nat) : (hexDigits width v).length ≤ width := by
  induction width generalizing v with
  | zero => exact Nat.le_refl 0
  | succ width ih =>
    rw [hexDigits]
    split_ifs
    · exact Nat.zero_le _
    · rw [List.length_append, List.length_singleton]
      exact Nat.succ_le_succ (ih _)

theorem length_hexText_le (hw : 0 < width) (v : Nat) : (hexText width v).length ≤ width := by
  rw [hexText]
  split_ifs
  · exact hw
  · exact length_hexDigits_le width v

theorem hexText_ne_nil (hw : 0 < width) (v : Nat) : hexText width v ≠ [] := by
  rw [hexText]
  split_ifs with h0
  · decide
  · obtain ⟨width, rfl⟩ := Nat.exists_eq_succ_of_ne_zero (Nat.ne_of_gt hw)
    rw [hexDigits, if_neg h0]
    exact List.append_ne_nil_of_right_ne_nil _ (List.cons_ne_nil _ _)

theorem hexVal_of_mem_hexDigits {c : UInt8} (h : c ∈ hexDigits width v) : hexVal c ≠ none := by
  induction width generalizing v with
  | zero => cases h
  | succ width ih =>
    rw [hexDigits] at h
    split_ifs at h
    · cases h
    · rcases List.mem_append.mp h with h | h
      · exact ih h
      · rw [List.mem_singleton.mp h, hexVal_hexDigit (Nat.mod_lt _ (by decide))]
        exact Option.some_ne_none _

/-- No byte that is not a digit occurs in a number. -/
theorem notMem_hexText {c : UInt8} (hc : hexVal c = none) (width v : Nat) :
    c ∉ hexText width v := by
  rw [hexText]
  split_ifs
  · intro h
    rw [List.mem_singleton.mp h] at hc
    revert hc
    decide
  · exact fun h => hexVal_of_mem_hexDigits h hc

end EspCars.Lib
