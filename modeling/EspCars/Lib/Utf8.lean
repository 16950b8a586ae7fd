import EspCars.Lib.Json

/-!
# UTF-8

The well-formed sequences of RFC 3629 as a machine that takes one byte at a time. A byte of ASCII
is only taken between characters, so a text that is cut at such bytes is UTF-8 if and only if its
pieces are (`utf8_append_cons`), and the text of a JSON document is UTF-8 if and only if its
strings are (`utf8_render`).
-/

namespace EspCars.Lib

/-- Between characters, or before a byte from `lo` to `hi` with `more` bytes behind it. -/
inductive Utf8State
  | start
  | tail (lo hi : UInt8) (more : Nat)
  deriving DecidableEq

namespace Utf8State

def first (c : UInt8) : Option Utf8State :=
  if c < 0x80 then some start
  else if c < 0xC2 then none
  else if c < 0xE0 then some (tail 0x80 0xBF 0)
  else if c = 0xE0 then some (tail 0xA0 0xBF 1)
  else if c = 0xED then some (tail 0x80 0x9F 1)
  else if c < 0xF0 then some (tail 0x80 0xBF 1)
  else if c = 0xF0 then some (tail 0x90 0xBF 2)
  else if c < 0xF4 then some (tail 0x80 0xBF 2)
  else if c = 0xF4 then some (tail 0x80 0x8F 2)
  else none

def step : Utf8State → UInt8 → Option Utf8State
  | start, c => first c
  | tail lo hi more, c =>
    if 0x80 ≤ c ∧ lo ≤ c ∧ c ≤ hi then
      some (if more = 0 then start else tail 0x80 0xBF (more - 1))
    else none

/-- The state behind a text. -/
def run : Utf8State → List UInt8 → Option Utf8State
  | q, [] => some q
  | q, c :: s => (step q c).bind fun q => run q s

theorem run_append (q : Utf8State) (a b : List UInt8) :
    run q (a ++ b) = (run q a).bind fun q => run q b := by
  induction a generalizing q with
  | nil => rfl
  | cons c a ih =>
    rw [List.cons_append, run, run, Option.bind_assoc]
    congr 1
    ext1 q
    exact ih q

theorem step_ascii {c : UInt8} (h : c < 0x80) (q : Utf8State) :
    step q c = if q = start then some start else none := by
  cases q with
  | start => exact if_pos h
  | tail lo hi more => exact if_neg fun hc => UInt8.not_lt.mpr hc.1 h

theorem run_ascii {s : List UInt8} (h : ∀ c ∈ s, c < 0x80) (hne : s ≠ []) (q : Utf8State) :
    run q s = if q = start then some start else none := by
  induction s generalizing q with
  | nil => exact absurd rfl hne
  | cons c s ih =>
    rw [run, step_ascii (h c List.mem_cons_self)]
    by_cases hq : q = start
    · rw [if_pos hq, Option.bind_some]
      cases s with
      | nil => rfl
      | cons d s =>
        rw [ih (fun c hc => h c (List.mem_cons_of_mem _ hc)) (List.cons_ne_nil _ _), if_pos rfl]
    · rw [if_neg hq]
      rfl

end Utf8State

open Utf8State

/-- The text is UTF-8. -/
def utf8 (s : List UInt8) : Bool := run start s = some start

theorem utf8_nil : utf8 [] = true := rfl

/-- A byte of ASCII stands between characters. -/
theorem utf8_append_cons {c : UInt8} (h : c < 0x80) (a b : List UInt8) :
    utf8 (a ++ c :: b) = (utf8 a && utf8 b) := by
  unfold utf8
  rw [run_append]
  cases hrun : run start a with
  | none => rfl
  | some q =>
    rw [Option.bind_some, run, step_ascii h]
    cases q with
    | start => rfl
    | tail lo hi more => rfl

theorem utf8_cons {c : UInt8} (h : c < 0x80) (s : List UInt8) : utf8 (c :: s) = utf8 s :=
  utf8_append_cons h [] s

theorem utf8_ascii_append {a : List UInt8} (h : ∀ c ∈ a, c < 0x80) (b : List UInt8) :
    utf8 (a ++ b) = utf8 b := by
  induction a with
  | nil => rfl
  | cons c a ih =>
    rw [List.cons_append, utf8_cons (h c List.mem_cons_self),
      ih fun c hc => h c (List.mem_cons_of_mem _ hc)]

namespace Json

/-! ## The text of a document -/

theorem hexLower_ascii {c : UInt8} (h : c < 0x20) :
    hexLower (c >>> 4) < 0x80 ∧ hexLower (c &&& 0x0F) < 0x80 := by
  obtain ⟨n, hn, rfl⟩ : ∃ n < 32, c = UInt8.ofNat n :=
    ⟨c.toNat, UInt8.lt_iff_toNat_lt.mp h, (UInt8.ofNat_toNat).symm⟩
  revert n
  decide

theorem escapeByte_ascii {c : UInt8} (h : c < 0x80) : ∀ d ∈ escapeByte c, d < 0x80 := by
  unfold escapeByte
  split_ifs with _ _ _ _ _ _ hcontrol
  · simpa using h
  · simp
  · simp
  · simp
  · simp
  · simp
  · simpa using hexLower_ascii hcontrol
  · simpa using h

theorem escapeByte_ne_nil (c : UInt8) : escapeByte c ≠ [] := by
  unfold escapeByte
  split_ifs <;> exact List.cons_ne_nil _ _

theorem escapeByte_high {c : UInt8} (h : ¬c < 0x80) : escapeByte c = [c] := by
  have hne : ∀ d : UInt8, d < 0x80 → c ≠ d := by
    rintro d hd rfl
    exact h hd
  have hlow : ¬c < 0x20 := fun hc => h (UInt8.lt_trans hc (by decide))
  unfold escapeByte
  rw [if_neg (not_or.mpr ⟨hne _ (by decide), hne _ (by decide)⟩), if_neg (hne _ (by decide)),
    if_neg (hne _ (by decide)), if_neg (hne _ (by decide)), if_neg (hne _ (by decide)),
    if_neg (hne _ (by decide)), if_neg hlow]

theorem run_escape (q : Utf8State) (s : List UInt8) : run q (s.flatMap escapeByte) = run q s := by
  induction s generalizing q with
  | nil => rfl
  | cons c s ih =>
    have hc : run q (escapeByte c) = step q c := by
      by_cases h : c < 0x80
      · rw [run_ascii (escapeByte_ascii h) (escapeByte_ne_nil c), step_ascii h]
      · rw [escapeByte_high h, run]
        exact Option.bind_fun_some (step q c)
    rw [List.flatMap_cons, run_append, hc, run]
    congr 1
    ext1 q
    exact ih q

theorem utf8_renderString (s rest : List UInt8) :
    utf8 (renderString s ++ rest) = (utf8 s && utf8 rest) := by
  have hescape : utf8 (s.flatMap escapeByte) = utf8 s := by
    unfold utf8
    rw [run_escape]
  unfold renderString
  rw [List.cons_append, List.append_assoc, List.singleton_append, utf8_cons (by decide),
    utf8_append_cons (by decide), hescape]

theorem ascii_of_isDecimal {c : UInt8} (h : isDecimal c = true) : c < 0x80 := by
  rw [isDecimal_iff] at h
  rw [UInt8.lt_iff_toNat_lt]
  exact Nat.lt_of_le_of_lt h.2 (by decide)

theorem renderNumber_ascii (n : JsonNumber) : ∀ c ∈ renderNumber n, c < 0x80 := by
  have hdigits : ∀ v, ∀ c ∈ decText v, c < 0x80 := fun v c hc =>
    ascii_of_isDecimal (isDecimal_of_mem_decDigits hc)
  have hsign : ∀ (b : Prop) [Decidable b], ∀ c ∈ (if b then [0x2D] else [] : List UInt8), c < 0x80 := by
    intro b _ c hc
    split at hc
    · rw [List.mem_singleton.mp hc]
      decide
    · cases hc
  have hexponent : ∀ c ∈ renderExponent n.exponent, c < 0x80 := by
    intro c hc
    cases hn : n.exponent with
    | none =>
      rw [hn] at hc
      cases hc
    | some e =>
      rw [hn, renderExponent, List.mem_cons, List.mem_append] at hc
      rcases hc with rfl | hc | hc
      · decide
      · exact hsign _ c hc
      · exact hdigits _ c hc
  intro c hc
  unfold renderNumber at hc
  rw [List.mem_append, List.mem_append, List.mem_append] at hc
  rcases hc with hc | hc | hc | hc
  · exact hsign _ c hc
  · exact hdigits _ c hc
  · split at hc
    · cases hc
    · rcases List.mem_cons.mp hc with rfl | hc
      · decide
      · exact ascii_of_isDecimal (isDecimal_of_mem_padDigits hc)
  · exact hexponent c hc

mutual

theorem utf8_render_append : ∀ (j : Json) (rest : List UInt8),
    utf8 (render j ++ rest) = (j.texts.all utf8 && utf8 rest)
  | null, rest => utf8_ascii_append (by decide +kernel) rest
  | bool true, rest => utf8_ascii_append (by decide +kernel) rest
  | bool false, rest => utf8_ascii_append (by decide +kernel) rest
  | num n, rest => utf8_ascii_append (renderNumber_ascii n) rest
  | str s, rest => by
    rw [render, utf8_renderString, texts, List.all_cons, List.all_nil, Bool.and_true]
  | arr xs, rest => by
    rw [render, List.cons_append, List.append_assoc, List.singleton_append, utf8_cons (by decide),
      utf8_renderElements xs, utf8_cons (by decide), texts]
  | obj fields, rest => by
    rw [render, List.cons_append, List.append_assoc, List.singleton_append, utf8_cons (by decide),
      utf8_renderMembers fields, utf8_cons (by decide), texts]

theorem utf8_renderElements : ∀ (xs : List Json) (rest : List UInt8),
    utf8 (renderElements xs ++ rest) = ((textsOfElements xs).all utf8 && utf8 rest)
  | [], _ => rfl
  | [x], rest => by
    rw [renderElements, utf8_render_append x, textsOfElements, textsOfElements, List.append_nil]
  | x :: y :: xs, rest => by
    rw [renderElements, List.append_assoc, List.cons_append, utf8_render_append x,
      utf8_cons (by decide), utf8_renderElements (y :: xs)]
    simp only [textsOfElements, List.all_append, Bool.and_assoc]

theorem utf8_renderMembers : ∀ (fields : List (List UInt8 × Json)) (rest : List UInt8),
    utf8 (renderMembers fields ++ rest) = ((textsOfMembers fields).all utf8 && utf8 rest)
  | [], _ => rfl
  | [(key, x)], rest => by
    rw [renderMembers, List.append_assoc, List.cons_append, utf8_renderString,
      utf8_cons (by decide), utf8_render_append x, textsOfMembers, textsOfMembers, List.append_nil,
      List.all_cons, Bool.and_assoc]
  | (key, x) :: y :: fields, rest => by
    rw [renderMembers, List.append_assoc, List.cons_append, List.append_assoc, List.cons_append,
      utf8_renderString, utf8_cons (by decide), utf8_render_append x, utf8_cons (by decide),
      utf8_renderMembers (y :: fields)]
    simp only [textsOfMembers, List.all_append, List.all_cons, List.cons_append, Bool.and_assoc]

end

/-- The text of a document is UTF-8 if and only if its strings are. -/
theorem utf8_render (j : Json) : utf8 (render j) = j.texts.all utf8 := by
  have h := utf8_render_append j []
  rwa [List.append_nil, utf8_nil, Bool.and_true] at h

/-- A document received as bytes: they have to be UTF-8. -/
def loads (s : List UInt8) : Option Json := if utf8 s then parse s else none

theorem loads_render (j : Json) : loads (render j) = if j.texts.all utf8 then some j else none := by
  unfold loads
  rw [utf8_render, parse_render]

end Json

end EspCars.Lib
