import EspCars.Lib.Json
import EspCars.Portal.Request

/-!
# The grammar of an action body

JSON as relations between a text, what it says, and the text behind it, and that the parser of
`portal_core.h` reads just that: the strings with what they are decoded to, the numbers, and the
values that it skips, which are `loose` in how they write `true`, `false` and `null`.
-/

namespace EspCars.Portal

open EspCars.Lib
open EspCars.Lib.Json (StringUnit codeUnit? encodeUnits encodePoint)

/-- Blanks up to what follows them. -/
def Blank (s rest : List UInt8) : Prop := ∃ ws, (∀ c ∈ ws, isSpace c = true) ∧ s = ws ++ rest

theorem Blank.refl (s : List UInt8) : Blank s s := ⟨[], nofun, rfl⟩

theorem blank_skipWs (s : List UInt8) : Blank s (skipWs s) :=
  ⟨s.takeWhile isSpace, fun _ hc => List.mem_takeWhile_imp hc,
    (List.takeWhile_append_dropWhile ..).symm⟩

variable {s rest : List UInt8} {c : UInt8} {n : Nat} {units : List StringUnit}

theorem Blank.skipWs_eq (h : Blank s rest) : skipWs s = skipWs rest := by
  obtain ⟨ws, hws, rfl⟩ := h
  exact List.dropWhile_append_of_pos hws

theorem skipWs_cons (h : isSpace c = false) (s : List UInt8) : skipWs (c :: s) = c :: s := by
  rw [skipWs, List.dropWhile_cons_of_neg (by simp [h])]

/-- Skipping blanks stops at the first byte that is none. -/
theorem blank_iff (hc : isSpace c = false) : Blank s (c :: rest) ↔ skipWs s = c :: rest := by
  constructor
  · intro h
    rw [h.skipWs_eq, skipWs_cons hc]
  · intro h
    rw [← h]
    exact blank_skipWs s

theorem Blank.head {p : UInt8 → Bool}
    (h : Blank s (c :: rest)) (hspace : ∀ d, isSpace d = true → p d = true) (hc : p c = true) :
    ∀ d ∈ s.head?, p d = true := by
  obtain ⟨ws, hws, rfl⟩ := h
  cases ws with
  | nil =>
    rintro d ⟨⟩
    exact hc
  | cons w ws =>
    rintro d ⟨⟩
    exact hspace w (hws w List.mem_cons_self)

theorem Blank.length_le {s rest : List UInt8} (h : Blank s rest) : rest.length ≤ s.length := by
  obtain ⟨ws, -, rfl⟩ := h
  simp

/-! ## Strings -/

/-- A string behind its opening quote: what it is made of, and what follows the closing quote. -/
inductive Text : List UInt8 → List StringUnit → List UInt8 → Prop
  | close (rest : List UInt8) : Text (0x22 :: rest) [] rest
  | plain {c : UInt8} {s rest : List UInt8} {units : List StringUnit} : ¬c < 0x20 → c ≠ 0x22 →
      c ≠ 0x5C → Text s units rest → Text (c :: s) (.byte c :: units) rest
  | escape {e c : UInt8} {s rest : List UInt8} {units : List StringUnit} :
      simpleEscape e = some c → Text s units rest → Text (0x5C :: e :: s) (.byte c :: units) rest
  | code {a b c d : UInt8} {n : Nat} {s rest : List UInt8} {units : List StringUnit} :
      codeUnit? a b c d = some n → Text s units rest →
      Text (0x5C :: 0x75 :: a :: b :: c :: d :: s) (.code n :: units) rest

/-- What the parser makes of a unit. -/
def written : StringUnit → List UInt8
  | .byte c => [c]
  | .code n => decodeEscape (UInt32.ofNat n)

set_option maxRecDepth 8000 in
/-- The digits as the code reads them are those of the grammar. -/
theorem hexDigit?_eq (c : UInt8) :
    hexDigit? c = (Json.hexDigit? c).map UInt32.ofNat ∧ ∀ d ∈ Json.hexDigit? c, d < 16 := by
  obtain ⟨n, hn, rfl⟩ : ∃ n < 256, c = UInt8.ofNat n :=
    ⟨c.toNat, c.toNat_lt, UInt8.ofNat_toNat.symm⟩
  revert n
  decide

/-- One more hexadecimal digit. -/
theorem shiftDigit_eq {x d : Nat} (hx : x < 2 ^ 12) (hd : d < 16) :
    UInt32.ofNat x <<< 4 ||| UInt32.ofNat d = UInt32.ofNat (x * 16 + d) := by
  have hor : x <<< 4 ||| d = x * 16 + d := by
    rw [← Nat.shiftLeft_add_eq_or_of_lt (by omega), Nat.shiftLeft_eq]
  apply UInt32.toNat_inj.mp
  rw [UInt32.toNat_or, UInt32.toNat_shiftLeft]
  simp only [UInt32.toNat_ofNat']
  rw [Nat.mod_eq_of_lt (by omega : x < 2 ^ 32), Nat.mod_eq_of_lt (by omega : d < 2 ^ 32),
    Nat.mod_eq_of_lt (by omega : x * 16 + d < 2 ^ 32), ← hor]
  congr 1
  exact Nat.mod_eq_of_lt (by simp [Nat.shiftLeft_eq]; omega)

theorem codePoint?_eq (a b c d : UInt8) :
    codePoint? a b c d = (codeUnit? a b c d).map UInt32.ofNat ∧
      ∀ n ∈ codeUnit? a b c d, n < 2 ^ 16 := by
  obtain ⟨ha, ha'⟩ := hexDigit?_eq a
  obtain ⟨hb, hb'⟩ := hexDigit?_eq b
  obtain ⟨hc, hc'⟩ := hexDigit?_eq c
  obtain ⟨hd, hd'⟩ := hexDigit?_eq d
  unfold codePoint? codeUnit?
  rw [ha, hb, hc, hd]
  cases hva : Json.hexDigit? a with
  | none => exact ⟨rfl, nofun⟩
  | some a =>
  cases hvb : Json.hexDigit? b with
  | none => exact ⟨rfl, nofun⟩
  | some b =>
  cases hvc : Json.hexDigit? c with
  | none => exact ⟨rfl, nofun⟩
  | some c =>
  cases hvd : Json.hexDigit? d with
  | none => exact ⟨rfl, nofun⟩
  | some d =>
  have ha16 := ha' _ hva
  have hb16 := hb' _ hvb
  have hc16 := hc' _ hvc
  have hd16 := hd' _ hvd
  constructor
  · show some _ = some _
    rw [shiftDigit_eq (by omega) hb16, shiftDigit_eq (by omega) hc16, shiftDigit_eq (by omega) hd16]
  · rintro n ⟨⟩
    omega

theorem parseStringBody_iff {d : List UInt8} : parseStringBody s = some (d, rest) ↔
      ∃ units, Text s units rest ∧ d = units.flatMap written := by
  constructor
  · intro h
    fun_induction parseStringBody s generalizing d rest with
    | case1 => cases h
    | case2 =>
      cases h
      exact ⟨[], .close _, rfl⟩
    | case3 => cases h
    | case4 ch s hquote hlow hplain ih =>
      obtain ⟨⟨d, rest⟩, htail, heq⟩ := Option.map_eq_some_iff.mp h
      cases heq
      obtain ⟨units, htext, rfl⟩ := ih htail
      exact ⟨_, .plain hlow hquote hplain htext, rfl⟩
    | case5 => cases h
    | case6 => cases h
    | case7 ch hquote hlow hplain a b c d' s cp hpoint ih =>
      obtain rfl := not_not.mp hplain
      obtain ⟨⟨d, rest⟩, htail, heq⟩ := Option.map_eq_some_iff.mp h
      cases heq
      obtain ⟨units, htext, rfl⟩ := ih htail
      rw [(codePoint?_eq a b c d').1] at hpoint
      obtain ⟨n, hn, rfl⟩ := Option.map_eq_some_iff.mp hpoint
      exact ⟨_, .code hn htext, rfl⟩
    | case8 => cases h
    | case9 ch hquote hlow hplain esc s hshort c hesc ih =>
      obtain rfl := not_not.mp hplain
      obtain ⟨⟨d, rest⟩, htail, heq⟩ := Option.map_eq_some_iff.mp h
      cases heq
      obtain ⟨units, htext, rfl⟩ := ih htail
      exact ⟨_, .escape hesc htext, rfl⟩
  · rintro ⟨units, htext, rfl⟩
    induction htext with
    | close rest =>
      rw [parseStringBody.eq_def]
      rfl
    | plain hlow hquote hplain _ ih =>
      rw [parseStringBody.eq_def]
      simp [hquote, hlow, hplain, ih, written]
    | @escape e c s rest units hesc _ ih =>
      have hne : e ≠ 0x75 := by
        rintro rfl
        cases hesc
      rw [parseStringBody.eq_def]
      simp [hesc, ih, written, hne]
    | @code a b c d n s rest units hn _ ih =>
      have hpoint : codePoint? a b c d = some (UInt32.ofNat n) := by
        rw [(codePoint?_eq a b c d).1, hn]
        rfl
      rw [parseStringBody.eq_def]
      simp [hpoint, ih, written]

/-! ### What a string says -/

def Surrogate (n : Nat) : Prop := 0xD800 ≤ n ∧ n < 0xE000

theorem or_shift {i a b : Nat} (h : b < 2 ^ i) : b ||| a * 2 ^ i = a * 2 ^ i + b := by
  rw [Nat.or_comm, ← Nat.shiftLeft_eq, Nat.shiftLeft_add_eq_or_of_lt h]

theorem decodeEscape_surrogate (h : Surrogate n) : decodeEscape (UInt32.ofNat n) = [0x3F] := by
  obtain ⟨hlow, hhigh⟩ := h
  have hn : (UInt32.ofNat n).toNat = n := by
    rw [UInt32.toNat_ofNat']
    exact Nat.mod_eq_of_lt (by omega)
  unfold decodeEscape
  simp only [UInt32.lt_iff_toNat_lt, UInt32.le_iff_toNat_le, hn, UInt32.reduceToNat]
  rw [if_neg (by omega), if_neg (by omega), if_pos (by omega)]

/-- Off the surrogates the code writes UTF-8. -/
theorem decodeEscape_eq (hlt : n < 2 ^ 16) (h : ¬Surrogate n) :
    decodeEscape (UInt32.ofNat n) = encodePoint n := by
  have hn : (UInt32.ofNat n).toNat = n := by
    rw [UInt32.toNat_ofNat']
    exact Nat.mod_eq_of_lt (by omega)
  have hbyte {x : UInt32} {m : Nat} (hx : x.toNat = m) : x.toUInt8 = m.toUInt8 := by
    rw [← hx]
    simp
  have htail : UInt32.toNat (UInt32.ofNat n &&& 0x3F ||| 0x80) = 0x80 + n % 0x40 := by
    rw [UInt32.toNat_or, UInt32.toNat_and, hn]
    show n &&& 2 ^ 6 - 1 ||| 2 * 2 ^ 6 = _
    rw [Nat.and_two_pow_sub_one_eq_mod, or_shift (Nat.mod_lt _ (by decide))]
    rfl
  have hmiddle : UInt32.toNat (UInt32.ofNat n >>> 6 &&& 0x3F ||| 0x80) =
      0x80 + n / 0x40 % 0x40 := by
    rw [UInt32.toNat_or, UInt32.toNat_and, UInt32.toNat_shiftRight, hn]
    show n >>> 6 &&& 2 ^ 6 - 1 ||| 2 * 2 ^ 6 = _
    rw [Nat.and_two_pow_sub_one_eq_mod, Nat.shiftRight_eq_div_pow,
      or_shift (Nat.mod_lt _ (by decide))]
    rfl
  unfold decodeEscape encodePoint
  have hne : ¬(0xD800 ≤ n ∧ n ≤ 0xDFFF) := fun hs => h ⟨hs.1, by omega⟩
  simp only [UInt32.lt_iff_toNat_lt, UInt32.le_iff_toNat_le, hn, UInt32.reduceToNat, if_neg hne,
    if_pos (show n < 0x10000 from hlt)]
  split_ifs with h1 h2
  · exact congrArg (fun b => [b]) (hbyte hn)
  · have hhead : UInt32.toNat (UInt32.ofNat n >>> 6 ||| 0xC0) = 0xC0 + n / 0x40 := by
      rw [UInt32.toNat_or, UInt32.toNat_shiftRight, hn]
      show n >>> 6 ||| 3 * 2 ^ 6 = _
      rw [Nat.shiftRight_eq_div_pow, or_shift (by omega)]
      rfl
    rw [hbyte hhead, hbyte htail]
  · have hhead : UInt32.toNat (UInt32.ofNat n >>> 12 ||| 0xE0) = 0xE0 + n / 0x1000 := by
      rw [UInt32.toNat_or, UInt32.toNat_shiftRight, hn]
      show n >>> 12 ||| 7 * 2 ^ 5 = _
      rw [Nat.shiftRight_eq_div_pow, or_shift (by omega)]
      rfl
    rw [hbyte hhead, hbyte hmiddle, hbyte htail]

theorem encodeUnits_code (h : ¬Surrogate n) (units : List StringUnit) :
    encodeUnits (.code n :: units) = encodePoint n ++ encodeUnits units := by
  match units with
  | [] => rfl
  | .byte _ :: _ => rfl
  | .code _ :: _ => exact if_neg fun hpair => h ⟨hpair.1, by omega⟩

theorem Text.code_lt (h : Text s units rest) : ∀ n, .code n ∈ units → n < 2 ^ 16 := by
  induction h with
  | close => nofun
  | plain _ _ _ _ ih => simpa using ih
  | escape _ _ ih => simpa using ih
  | code hn _ ih =>
    intro m hm
    rcases List.mem_cons.mp hm with heq | hm
    · cases heq
      exact (codePoint?_eq ..).2 _ hn
    · exact ih m hm

/-- Without surrogates a string is decoded to what it says. -/
theorem flatMap_written (hlt : ∀ n, .code n ∈ units → n < 2 ^ 16)
    (h : ∀ n, .code n ∈ units → ¬Surrogate n) : units.flatMap written = encodeUnits units := by
  induction units with
  | nil => rfl
  | cons unit units ih =>
    have htail := ih (fun n hn => hlt n (List.mem_cons_of_mem _ hn))
      (fun n hn => h n (List.mem_cons_of_mem _ hn))
    rw [List.flatMap_cons, htail]
    cases unit with
    | byte c => rfl
    | code n =>
      have hn := h n List.mem_cons_self
      rw [encodeUnits_code hn, written, decodeEscape_eq (hlt n List.mem_cons_self) hn]

theorem encodePoint_high (h : 0x80 ≤ n) (hlt : n < 0x110000) : ∃ b ∈ encodePoint n, ¬b < 0x80 := by
  unfold encodePoint
  split_ifs
  · omega
  all_goals
    refine ⟨_, List.mem_cons_self, ?_⟩
    simp [UInt8.lt_iff_toNat_lt]
    omega

theorem not_surrogate_of_ascii (h : ∀ b ∈ encodePoint n, b < 0x80) : ¬Surrogate n := by
  rintro ⟨hlow, hhigh⟩
  obtain ⟨b, hb, hnot⟩ := encodePoint_high (show 0x80 ≤ n by omega) (by omega)
  exact hnot (h b hb)

/-- A surrogate shows in what a string says. -/
theorem not_surrogate (h : ∀ b ∈ encodeUnits units, b < 0x80) :
    ∀ n, .code n ∈ units → ¬Surrogate n := by
  fun_induction encodeUnits units with
  | case1 => nofun
  | case2 c units ih => simpa using ih fun b hb => h b (List.mem_cons_of_mem _ hb)
  | case3 hi lo units hpair ih =>
    obtain ⟨b, hb, hhigh⟩ := encodePoint_high
      (show 0x80 ≤ 0x10000 + (hi - 0xD800) * 0x400 + (lo - 0xDC00) by omega) (by omega)
    exact absurd (h b (List.mem_append_left _ hb)) hhigh
  | case4 hi lo units hpair ih =>
    have hhi := not_surrogate_of_ascii fun b hb => h b (List.mem_append_left _ hb)
    have htail := ih fun b hb => h b (List.mem_append_right _ hb)
    intro n hn
    rcases List.mem_cons.mp hn with heq | hn
    · cases heq
      exact hhi
    · exact htail n hn
  | case5 u units hlast ih =>
    have hu := not_surrogate_of_ascii fun b hb => h b (List.mem_append_left _ hb)
    have htail := ih fun b hb => h b (List.mem_append_right _ hb)
    intro n hn
    rcases List.mem_cons.mp hn with heq | hn
    · cases heq
      exact hu
    · exact htail n hn

theorem zero_notMem_encodePoint (hn : n ≠ 0) (hlt : n < 0x110000) : 0 ∉ encodePoint n := by
  unfold encodePoint
  split_ifs <;> simp [← UInt8.toNat_inj] <;> omega

/-- Without an escaped NUL what is decoded is a C string. -/
theorem zero_notMem_written
    (h : Text s units rest) (hnul : .code 0 ∉ units) : 0 ∉ units.flatMap written := by
  induction h with
  | close => simp
  | plain hlow _ _ _ ih =>
    have htail := ih (by simpa using hnul)
    simp only [List.flatMap_cons, written, List.singleton_append, List.mem_cons, not_or]
    refine ⟨?_, htail⟩
    rintro rfl
    exact hlow (by decide)
  | @escape e c _ _ _ hesc _ ih =>
    have htail := ih (by simpa using hnul)
    simp only [List.flatMap_cons, written, List.singleton_append, List.mem_cons, not_or]
    refine ⟨?_, htail⟩
    rintro rfl
    unfold simpleEscape at hesc
    split_ifs at hesc with h1 <;> cases hesc
    revert h1
    decide
  | @code a b c d n _ _ units hn _ ih =>
    have htail := ih fun h => hnul (List.mem_cons_of_mem _ h)
    have hlt := (codePoint?_eq ..).2 _ hn
    have hne : n ≠ 0 := by
      rintro rfl
      exact hnul List.mem_cons_self
    rw [List.flatMap_cons, List.mem_append, not_or]
    refine ⟨?_, htail⟩
    by_cases hs : Surrogate n
    · rw [written, decodeEscape_surrogate hs]
      decide
    · rw [written, decodeEscape_eq hlt hs]
      exact zero_notMem_encodePoint hne (by omega)

/-! ### Keys -/

theorem isValueKey_of_encodeUnits
    (htext : Text s units rest) (h : encodeUnits units = ascii "value") :
    isValueKey (units.flatMap written) = true := by
  have hplain : ∀ n, .code n ∈ units → ¬Surrogate n := by
    apply not_surrogate
    rw [h]
    simp [ascii]
  rw [flatMap_written htext.code_lt hplain, h]
  decide

/-- Without an escaped NUL only `value` is taken for `value`. -/
theorem encodeUnits_of_isValueKey (htext : Text s units rest) (hnul : .code 0 ∉ units)
    (h : isValueKey (units.flatMap written) = true) : encodeUnits units = ascii "value" := by
  rw [isValueKey, decide_eq_true_iff, cstr_eq_self (zero_notMem_written htext hnul)] at h
  have hplain : ∀ n, .code n ∈ units → ¬Surrogate n := by
    intro n hn hs
    have hmem : (0x3F : UInt8) ∈ units.flatMap written := by
      refine List.mem_flatMap.mpr ⟨_, hn, ?_⟩
      rw [written, decodeEscape_surrogate hs]
      exact List.mem_cons_self
    rw [h.2] at hmem
    simp [ascii] at hmem
  rw [← flatMap_written htext.code_lt hplain, h.2]

/-! ## Numbers -/

/-- Digits, one at least. -/
def Digits (s : List UInt8) : Prop := s ≠ [] ∧ ∀ c ∈ s, isDigit c = true

/-- A fraction part: its digits, and how it is written. -/
inductive Fraction : List UInt8 → List UInt8 → Prop
  | none : Fraction [] []
  | some {digits : List UInt8} : Digits digits → Fraction digits (0x2E :: digits)

/-- An exponent part: its value, and how it is written. -/
inductive Exponent : Int → List UInt8 → Prop
  | none : Exponent 0 []
  | plain {e : UInt8} {digits : List UInt8} : e = 0x65 ∨ e = 0x45 → Digits digits →
      Exponent (exponentOf digits) (e :: digits)
  | plus {e : UInt8} {digits : List UInt8} : e = 0x65 ∨ e = 0x45 → Digits digits →
      Exponent (exponentOf digits) (e :: 0x2B :: digits)
  | minus {e : UInt8} {digits : List UInt8} : e = 0x65 ∨ e = 0x45 → Digits digits →
      Exponent (-(exponentOf digits : Int)) (e :: 0x2D :: digits)

/-- A JSON number and its value, as double arithmetic has it: 30 digits behind the point count. -/
inductive Number : List UInt8 → Binary64 → Prop
  | mk (negative : Bool) {int frac point exp : List UInt8} {e : Int} : Digits int →
      (int.head? = some 0x30 → int.length = 1) → Fraction frac point → Exponent e exp →
      Number ((if negative then [0x2D] else []) ++ (int ++ (point ++ exp)))
        { negative := negative
          magnitude := scaleDecimal ((int ++ frac.take 30).foldl pushDigit (.finite 0))
            (e - (frac.take 30).length) }

/-- Digits up to what is none. -/
theorem Digits.span {digits rest : List UInt8} (h : Digits digits)
    (hrest : ∀ c ∈ rest.head?, isDigit c = false) :
    (digits ++ rest).takeWhile isDigit = digits ∧ (digits ++ rest).dropWhile isDigit = rest :=
  Json.span_digits h.2 hrest

theorem digits_takeWhile (h : s.takeWhile isDigit ≠ []) :
    Digits (s.takeWhile isDigit) := ⟨h, fun _ hc => List.mem_takeWhile_imp hc⟩

/-- Digits and nothing behind them. -/
theorem digits_of_dropWhile (hne : s.takeWhile isDigit ≠ [])
    (hdrop : s.dropWhile isDigit = []) : Digits s ∧ s.takeWhile isDigit = s := by
  have hspan := List.takeWhile_append_dropWhile (p := isDigit) (l := s)
  rw [hdrop, List.append_nil] at hspan
  have hdigits := digits_takeWhile hne
  rw [hspan] at hdigits
  exact ⟨hdigits, hspan⟩

theorem Digits.takeWhile_eq (h : Digits s) :
    s.takeWhile isDigit = s ∧ s.dropWhile isDigit = [] := by
  have hspan := @Digits.span s [] h nofun
  rwa [List.append_nil] at hspan

theorem Digits.head_ne (h : Digits s) (hc : isDigit c = false) : ∃ d t, s = d :: t ∧ d ≠ c := by
  obtain ⟨d, t, rfl⟩ := List.exists_cons_of_ne_nil h.1
  refine ⟨d, t, rfl, ?_⟩
  rintro rfl
  rw [h.2 d List.mem_cons_self] at hc
  cases hc

theorem takeExponent_iff {e : Int} : takeExponent s = some (e, []) ↔ Exponent e s := by
  constructor
  · intro h
    cases s with
    | nil =>
      cases h
      exact .none
    | cons c rest =>
      by_cases he : c = 0x65 ∨ c = 0x45
      · rw [takeExponent, if_pos he] at h
        dsimp only at h
        by_cases hnone : (takeSign rest true).2.takeWhile isDigit = []
        · rw [if_pos hnone] at h
          cases h
        rw [if_neg hnone] at h
        obtain ⟨heq, hdrop⟩ := Prod.mk.inj (Option.some.inj h)
        obtain ⟨hdigits, hall⟩ := digits_of_dropWhile hnone hdrop
        rw [hall] at heq
        subst heq
        cases rest with
        | nil => exact absurd rfl hdigits.1
        | cons d rest =>
          by_cases hminus : d = 0x2D
          · subst hminus
            exact .minus he hdigits
          by_cases hplus : d = 0x2B
          · subst hplus
            exact .plus he hdigits
          have hsign : takeSign (d :: rest) true = (false, d :: rest) := by
            simp [takeSign, hminus, hplus]
          rw [hsign] at hdigits ⊢
          exact .plain he hdigits
      · rw [takeExponent, if_neg he] at h
        cases h
  · intro h
    cases h with
    | none => rfl
    | plain he hd =>
      obtain ⟨c, t, rfl, hminus⟩ := hd.head_ne (c := 0x2D) (by decide)
      obtain ⟨_, _, heq, hplus⟩ := hd.head_ne (c := 0x2B) (by decide)
      obtain ⟨rfl, rfl⟩ := List.cons.inj heq
      rw [takeExponent, if_pos he]
      simp [takeSign, hminus, hplus, hd.takeWhile_eq]
    | plus he hd =>
      rw [takeExponent, if_pos he]
      simp [takeSign, hd.takeWhile_eq, hd.1]
    | minus he hd =>
      rw [takeExponent, if_pos he]
      simp [takeSign, hd.takeWhile_eq, hd.1]

theorem takeFraction_some {m m' : Magnitude64} {e : Int}
    (h : takeFraction m s = some (m', e, rest)) :
    ∃ frac point, Fraction frac point ∧ s = point ++ rest ∧
      m' = (frac.take 30).foldl pushDigit m ∧ e = -((frac.take 30).length : Int) := by
  cases s with
  | nil =>
    cases h
    exact ⟨[], [], .none, rfl, rfl, rfl⟩
  | cons c s =>
    by_cases hpoint : c = 0x2E
    · rw [takeFraction, if_pos hpoint] at h
      dsimp only at h
      by_cases hnone : s.takeWhile isDigit = []
      · rw [if_pos hnone] at h
        cases h
      rw [if_neg hnone] at h
      cases h
      refine ⟨_, _, .some (digits_takeWhile hnone), ?_, rfl, rfl⟩
      rw [hpoint, List.cons_append, List.takeWhile_append_dropWhile]
    · rw [takeFraction, if_neg hpoint] at h
      cases h
      exact ⟨[], [], .none, rfl, rfl, rfl⟩

theorem takeFraction_append {frac point : List UInt8} (h : Fraction frac point)
    (hrest : ∀ c ∈ rest.head?, isDigit c = false ∧ c ≠ 0x2E) (m : Magnitude64) :
    takeFraction m (point ++ rest) =
      some ((frac.take 30).foldl pushDigit m, -((frac.take 30).length : Int), rest) := by
  cases h with
  | none =>
    cases rest with
    | nil => rfl
    | cons c rest => simp [takeFraction, (hrest c rfl).2]
  | some hd =>
    have hspan := hd.span fun c hc => (hrest c hc).1
    simp [takeFraction, hspan.1, hspan.2, hd.1]

theorem takeSign_spec (s : List UInt8) :
    s = (if (takeSign s false).1 then [0x2D] else []) ++ (takeSign s false).2 := by
  cases s with
  | nil => rfl
  | cons c s =>
    by_cases hminus : c = 0x2D
    · subst hminus
      rfl
    · simp [takeSign, hminus]

/-- What may follow the digits of a number does not go on with them. -/
theorem Exponent.head {e : Int} (h : Exponent e s) :
    ∀ c ∈ s.head?, isDigit c = false ∧ c ≠ 0x2E := by
  cases h with
  | none => nofun
  | plain he hd | plus he hd | minus he hd =>
    rintro c ⟨⟩
    rcases he with rfl | rfl <;> decide

theorem Fraction.head {frac point : List UInt8} (h : Fraction frac point)
    (hrest : ∀ c ∈ rest.head?, isDigit c = false ∧ c ≠ 0x2E) :
    ∀ c ∈ (point ++ rest).head?, isDigit c = false := by
  cases h with
  | none => exact fun c hc => (hrest c hc).1
  | some hd =>
    rintro c ⟨⟩
    decide

/-- `parse_number_span` takes the numbers of JSON. -/
theorem parseNumberSpan_iff {x : Binary64} : parseNumberSpan s false = some x ↔ Number s x := by
  constructor
  · intro h
    have hsign := takeSign_spec s
    unfold parseNumberSpan at h
    dsimp only at h
    revert h hsign
    obtain ⟨negative, p⟩ := takeSign s false
    intro h hsign
    dsimp only at h hsign
    split at h
    · cases h
    · rename_i m fracExp rest hfraction
      split_ifs at h with hnone hzero
      obtain ⟨frac, point, hfrac, hdrop, rfl, rfl⟩ := takeFraction_some hfraction
      split at h
      · cases h
      · rename_i e last hexp
        split_ifs at h with hlast
        rw [ne_eq, not_not] at hlast
        subst hlast
        cases h
        have hp : p = p.takeWhile isDigit ++ (point ++ rest) := by
          rw [← hdrop, List.takeWhile_append_dropWhile]
        have hleading : (p.takeWhile isDigit).head? = some 0x30 →
            (p.takeWhile isDigit).length = 1 := by
          intro hhead
          have hpos := List.length_pos_iff.mpr hnone
          have hle : ¬1 < (p.takeWhile isDigit).length := fun hlt => hzero ⟨rfl, hlt, hhead⟩
          omega
        have hnumber := Number.mk negative (digits_takeWhile hnone) hleading hfrac
          (takeExponent_iff.mp hexp)
        rw [← hp, ← hsign, List.foldl_append, sub_eq_neg_add] at hnumber
        exact hnumber
  · rintro ⟨negative, hint, hleading, hfrac, hexp⟩
    rename_i int frac point exp e
    obtain ⟨d, t, hcons, hne⟩ := hint.head_ne (c := 0x2D) (by decide)
    have hsign : takeSign ((if negative then [0x2D] else []) ++ (int ++ (point ++ exp))) false =
        (negative, int ++ (point ++ exp)) := by
      cases negative with
      | true => rfl
      | false => simp [hcons, takeSign, hne]
    have hspan := hint.span (hfrac.head hexp.head)
    have hfraction := takeFraction_append hfrac hexp.head (int.foldl pushDigit (.finite 0))
    have hzero : ¬((!false) = true ∧ 1 < int.length ∧ int.head? = some 0x30) := by
      rintro ⟨-, hlt, hhead⟩
      have hone := hleading hhead
      omega
    unfold parseNumberSpan
    rw [hsign]
    dsimp only
    rw [hspan.1, hspan.2, hfraction]
    dsimp only
    rw [if_neg hint.1, if_neg hzero, takeExponent_iff.mpr hexp]
    dsimp only
    rw [if_neg (by simp), List.foldl_append, neg_add_eq_sub]

theorem skipWs_skipWs (s : List UInt8) : skipWs (skipWs s) = skipWs s :=
  (blank_skipWs s).skipWs_eq.symm

theorem skipMembers_skipWs (fuel depth : Nat) (isObject : Bool) (s : List UInt8) :
    skipMembers fuel depth isObject (skipWs s) = skipMembers fuel depth isObject s := by
  cases fuel with
  | zero => rw [skipMembers, skipMembers]
  | succ fuel => rw [skipMembers, skipMembers, skipWs_skipWs]

theorem skipJsonValue_skipWs (fuel depth : Nat) (s : List UInt8) :
    skipJsonValue fuel depth (skipWs s) = skipJsonValue fuel depth s := by
  cases fuel with
  | zero => rw [skipJsonValue, skipJsonValue]
  | succ fuel => rw [skipJsonValue, skipJsonValue, skipWs_skipWs]

end EspCars.Portal
