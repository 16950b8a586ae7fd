import EspCars.Lib.Decimal
import EspCars.Lib.Text
import Mathlib

/-!
# JSON

Documents as trees, the compact text of a document and the parser of RFC 8259, which reads that
text back (`parse_render`). A string is the list of its bytes: that a text is UTF-8 is no concern
of the grammar here. A number is kept as it is written, so nothing of it is rounded.
-/

namespace EspCars.Lib

/-- A number as it is written: the digits without the point, how many of them are behind the point,
and the exponent. -/
structure JsonNumber where
  negative : Bool := false
  mantissa : Nat
  decimals : Nat := 0
  exponent : Option Int := none
  deriving DecidableEq

/-- A JSON document; strings are bytes. -/
inductive Json
  | null
  | bool (b : Bool)
  | num (n : JsonNumber)
  | str (s : List UInt8)
  | arr (xs : List Json)
  | obj (fields : List (List UInt8 × Json))

/-! ## Rendering -/

namespace Json

def hexLower (d : UInt8) : UInt8 := if d < 10 then 0x30 + d else 0x57 + d

/-- A byte between quotes. -/
def escapeByte (c : UInt8) : List UInt8 :=
  if c = 0x22 ∨ c = 0x5C then [0x5C, c]
  else if c = 0x08 then [0x5C, 0x62]
  else if c = 0x0C then [0x5C, 0x66]
  else if c = 0x0A then [0x5C, 0x6E]
  else if c = 0x0D then [0x5C, 0x72]
  else if c = 0x09 then [0x5C, 0x74]
  else if c < 0x20 then [0x5C, 0x75, 0x30, 0x30, hexLower (c >>> 4), hexLower (c &&& 0x0F)]
  else [c]

def renderString (s : List UInt8) : List UInt8 := 0x22 :: (s.flatMap escapeByte ++ [0x22])

def renderExponent : Option Int → List UInt8
  | none => []
  | some e => 0x65 :: ((if e < 0 then [0x2D] else []) ++ decText e.natAbs)

def renderNumber (n : JsonNumber) : List UInt8 :=
  (if n.negative then [0x2D] else []) ++ (decText (n.mantissa / 10 ^ n.decimals) ++
    ((if n.decimals = 0 then [] else 0x2E :: padDigits n.decimals (n.mantissa % 10 ^ n.decimals)) ++
      renderExponent n.exponent))

mutual

/-- The text of a document. -/
def render : Json → List UInt8
  | null => ascii "null"
  | bool true => ascii "true"
  | bool false => ascii "false"
  | num n => renderNumber n
  | str s => renderString s
  | arr xs => 0x5B :: (renderElements xs ++ [0x5D])
  | obj fields => 0x7B :: (renderMembers fields ++ [0x7D])

/-- The elements with commas between them. -/
def renderElements : List Json → List UInt8
  | [] => []
  | [x] => render x
  | x :: y :: xs => render x ++ 0x2C :: renderElements (y :: xs)

/-- The members with commas between them. -/
def renderMembers : List (List UInt8 × Json) → List UInt8
  | [] => []
  | [(key, x)] => renderString key ++ 0x3A :: render x
  | (key, x) :: y :: fields =>
    renderString key ++ 0x3A :: (render x ++ 0x2C :: renderMembers (y :: fields))

end

/-! ## Looking into a document -/

/-- The last member of that name, as a dictionary built from the members keeps it. -/
def get? (j : Json) (key : String) : Option Json :=
  match j with
  | obj fields => (fields.reverse.find? fun field => field.1 = ascii key).map Prod.snd
  | _ => none

mutual

/-- The strings of a document, keys included. -/
def texts : Json → List (List UInt8)
  | str s => [s]
  | arr xs => textsOfElements xs
  | obj fields => textsOfMembers fields
  | _ => []

def textsOfElements : List Json → List (List UInt8)
  | [] => []
  | x :: xs => texts x ++ textsOfElements xs

def textsOfMembers : List (List UInt8 × Json) → List (List UInt8)
  | [] => []
  | (key, x) :: fields => key :: texts x ++ textsOfMembers fields

end

section

variable {β : Type} (key : String) (f : Json → List β → β)

mutual

/-- A fold over the documents below one another as elements of the arrays under that key. -/
def foldAlong : Json → β
  | obj fields => f (obj fields) (foldMembers fields)
  | null => f null []
  | bool b => f (bool b) []
  | num n => f (num n) []
  | str s => f (str s) []
  | arr xs => f (arr xs) []

def foldMembers : List (List UInt8 × Json) → List β
  | [] => []
  | (k, x) :: fields =>
    if fields.any (fun field => field.1 = ascii key) then foldMembers fields
    else if k = ascii key then
      match x with
      | arr xs => foldElements xs
      | _ => []
    else []

def foldElements : List Json → List β
  | [] => []
  | x :: xs => foldAlong x :: foldElements xs

end

theorem foldElements_eq (xs : List Json) : foldElements key f xs = xs.map (foldAlong key f) := by
  induction xs with
  | nil => rfl
  | cons x xs ih => rw [foldElements, ih, List.map_cons]

end

/-! ## Parsing -/

def isBlank (c : UInt8) : Bool := c = 0x20 ∨ c = 0x09 ∨ c = 0x0A ∨ c = 0x0D

def skipBlank (s : List UInt8) : List UInt8 := s.dropWhile isBlank

/-- Behind a word. -/
def afterWord (word : String) (s : List UInt8) : Option (List UInt8) :=
  if (ascii word).isPrefixOf s then some (s.drop (ascii word).length) else none

def hexDigit? (c : UInt8) : Option Nat :=
  if 0x30 ≤ c ∧ c ≤ 0x39 then some (c.toNat - 0x30)
  else if 0x41 ≤ c ∧ c ≤ 0x46 then some (c.toNat - 0x37)
  else if 0x61 ≤ c ∧ c ≤ 0x66 then some (c.toNat - 0x57)
  else none

/-- The code unit of the digits of `\uXXXX`. -/
def codeUnit? (a b c d : UInt8) : Option Nat :=
  match hexDigit? a, hexDigit? b, hexDigit? c, hexDigit? d with
  | some a, some b, some c, some d => some (((a * 16 + b) * 16 + c) * 16 + d)
  | _, _, _, _ => none

def simpleEscape? (c : UInt8) : Option UInt8 :=
  if c = 0x22 ∨ c = 0x5C ∨ c = 0x2F then some c
  else if c = 0x62 then some 0x08
  else if c = 0x66 then some 0x0C
  else if c = 0x6E then some 0x0A
  else if c = 0x72 then some 0x0D
  else if c = 0x74 then some 0x09
  else none

/-- What a string is made of: bytes, and code units that were escaped. -/
inductive StringUnit
  | byte (c : UInt8)
  | code (u : Nat)

def scanString : List UInt8 → Option (List StringUnit × List UInt8)
  | [] => none
  | ch :: rest =>
    if ch = 0x22 then some ([], rest)
    else if ch < 0x20 then none
    else if ch ≠ 0x5C then (scanString rest).map fun (units, rest) => (.byte ch :: units, rest)
    else
      match rest with
      | [] => none
      | 0x75 :: a :: b :: c :: d :: rest =>
        match codeUnit? a b c d with
        | none => none
        | some u => (scanString rest).map fun (units, rest) => (.code u :: units, rest)
      | esc :: rest =>
        match simpleEscape? esc with
        | none => none
        | some c => (scanString rest).map fun (units, rest) => (.byte c :: units, rest)

/-- The bytes of a code point. -/
def encodePoint (cp : Nat) : List UInt8 :=
  if cp < 0x80 then [cp.toUInt8]
  else if cp < 0x800 then [(0xC0 + cp / 0x40).toUInt8, (0x80 + cp % 0x40).toUInt8]
  else if cp < 0x10000 then
    [(0xE0 + cp / 0x1000).toUInt8, (0x80 + cp / 0x40 % 0x40).toUInt8, (0x80 + cp % 0x40).toUInt8]
  else
    [(0xF0 + cp / 0x40000).toUInt8, (0x80 + cp / 0x1000 % 0x40).toUInt8,
      (0x80 + cp / 0x40 % 0x40).toUInt8, (0x80 + cp % 0x40).toUInt8]

/-- Two code units in a row that are a surrogate pair are one code point. -/
def encodeUnits : List StringUnit → List UInt8
  | [] => []
  | .byte c :: units => c :: encodeUnits units
  | .code hi :: .code lo :: units =>
    if 0xD800 ≤ hi ∧ hi < 0xDC00 ∧ 0xDC00 ≤ lo ∧ lo < 0xE000 then
      encodePoint (0x10000 + (hi - 0xD800) * 0x400 + (lo - 0xDC00)) ++ encodeUnits units
    else encodePoint hi ++ encodeUnits (.code lo :: units)
  | .code u :: units => encodePoint u ++ encodeUnits units

/-- A string with its quotes. -/
def parseString (s : List UInt8) : Option (List UInt8 × List UInt8) :=
  match s with
  | c :: rest =>
    if c = 0x22 then (scanString rest).map fun (units, rest) => (encodeUnits units, rest) else none
  | [] => none

/-- The sign of a number or of an exponent. -/
def takeSign (plus : Bool) (s : List UInt8) : Bool × List UInt8 :=
  match s with
  | c :: rest =>
    if c = 0x2D then (true, rest) else if plus ∧ c = 0x2B then (false, rest) else (false, s)
  | [] => (false, s)

/-- A fraction with its point, if there is one. -/
def takeFraction (s : List UInt8) : Option (List UInt8 × List UInt8) :=
  match s with
  | c :: rest =>
    if c = 0x2E then
      if rest.takeWhile isDecimal = [] then none
      else some (rest.takeWhile isDecimal, rest.dropWhile isDecimal)
    else some ([], s)
  | [] => some ([], s)

def takeExponent (s : List UInt8) : Option (Option Int × List UInt8) :=
  match s with
  | c :: rest =>
    if c = 0x65 ∨ c = 0x45 then
      let (negative, rest) := takeSign true rest
      let e := rest.takeWhile isDecimal
      if e = [] then none
      else some (some (if negative then -decFrom 0 e else decFrom 0 e), rest.dropWhile isDecimal)
    else some (none, s)
  | [] => some (none, s)

def parseNumber (s : List UInt8) : Option (JsonNumber × List UInt8) :=
  let (negative, s) := takeSign false s
  let whole := s.takeWhile isDecimal
  if whole = [] ∨ 1 < whole.length ∧ whole.head? = some 0x30 then none
  else
    match takeFraction (s.dropWhile isDecimal) with
    | none => none
    | some (fraction, s) =>
      match takeExponent s with
      | none => none
      | some (exponent, s) =>
        some ({ negative := negative, mantissa := decFrom 0 (whole ++ fraction),
                decimals := fraction.length, exponent := exponent }, s)

/-- Behind a colon; nothing, where there is none. -/
def afterColon (s : List UInt8) : List UInt8 :=
  match skipBlank s with
  | c :: rest => if c = 0x3A then rest else []
  | [] => []

mutual

def parseValue : Nat → List UInt8 → Option (Json × List UInt8)
  | 0, _ => none
  | fuel + 1, s =>
    match skipBlank s with
    | [] => none
    | c :: rest =>
      if c = 0x22 then (parseString (c :: rest)).map fun (s, rest) => (str s, rest)
      else if c = 0x7B then
        if (skipBlank rest).head? = some 0x7D then some (obj [], (skipBlank rest).tail)
        else (parseMembers fuel rest).map fun (fields, rest) => (obj fields, rest)
      else if c = 0x5B then
        if (skipBlank rest).head? = some 0x5D then some (arr [], (skipBlank rest).tail)
        else (parseElements fuel rest).map fun (xs, rest) => (arr xs, rest)
      else if c = 0x74 then (afterWord "true" (c :: rest)).map fun rest => (bool true, rest)
      else if c = 0x66 then (afterWord "false" (c :: rest)).map fun rest => (bool false, rest)
      else if c = 0x6E then (afterWord "null" (c :: rest)).map fun rest => (null, rest)
      else (parseNumber (c :: rest)).map fun (n, rest) => (num n, rest)

/-- The elements of an array, of which there is one at least, and its closing bracket. -/
def parseElements : Nat → List UInt8 → Option (List Json × List UInt8)
  | 0, _ => none
  | fuel + 1, s =>
    match parseValue fuel s with
    | none => none
    | some (x, rest) =>
      match skipBlank rest with
      | [] => none
      | c :: rest =>
        if c = 0x2C then (parseElements fuel rest).map fun (xs, rest) => (x :: xs, rest)
        else if c = 0x5D then some ([x], rest)
        else none

/-- The members of an object, of which there is one at least, and its closing brace. -/
def parseMembers : Nat → List UInt8 → Option (List (List UInt8 × Json) × List UInt8)
  | 0, _ => none
  | fuel + 1, s =>
    match parseString (skipBlank s) with
    | none => none
    | some (key, rest) =>
      match parseValue fuel (afterColon rest) with
      | none => none
      | some (x, rest) =>
        match skipBlank rest with
        | [] => none
        | c :: rest =>
          if c = 0x2C then
            (parseMembers fuel rest).map fun (fields, rest) => ((key, x) :: fields, rest)
          else if c = 0x7D then some ([(key, x)], rest)
          else none

end

/-- A text that is one value, with blanks around it. -/
def parse (s : List UInt8) : Option Json :=
  match parseValue (s.length + 1) s with
  | some (j, rest) => if skipBlank rest = [] then some j else none
  | none => none

/-! ## What is rendered is read back -/

variable {c : UInt8} {rest : List UInt8}

theorem skipBlank_cons (h : isBlank c = false) (s : List UInt8) : skipBlank (c :: s) = c :: s :=
  List.dropWhile_cons_of_neg (by rw [h]; exact Bool.false_ne_true)

/-- How a byte comes out of its escape. -/
def unitOf (c : UInt8) : StringUnit :=
  if c < 0x20 ∧ simpleEscape? (((escapeByte c).drop 1).headD 0) = none then .code c.toNat
  else .byte c

/-- The control characters, and how each of them is escaped. -/
theorem scanString_control (h : c < 0x20) (rest : List UInt8) : scanString (escapeByte c ++ rest) =
      (scanString rest).map fun (units, rest) => (unitOf c :: units, rest) := by
  obtain ⟨n, hn, rfl⟩ : ∃ n < 32, c = UInt8.ofNat n :=
    ⟨c.toNat, UInt8.lt_iff_toNat_lt.mp h, (UInt8.ofNat_toNat).symm⟩
  interval_cases n <;> (rw [scanString.eq_def]; rfl)

theorem scanString_escapeByte (c : UInt8) (rest : List UInt8) :
    scanString (escapeByte c ++ rest) =
      (scanString rest).map fun (units, rest) => (unitOf c :: units, rest) := by
  by_cases hlow : c < 0x20
  · exact scanString_control hlow rest
  have hunit : unitOf c = .byte c := if_neg fun h => hlow h.1
  rw [hunit]
  by_cases hquote : c = 0x22 ∨ c = 0x5C
  · rcases hquote with rfl | rfl <;> (rw [scanString.eq_def]; rfl)
  have hne : ∀ d : UInt8, d < 0x20 → c ≠ d := by
    rintro d hd rfl
    exact hlow hd
  have hescape : escapeByte c = [c] := by
    unfold escapeByte
    rw [if_neg hquote, if_neg (hne _ (by decide)), if_neg (hne _ (by decide)),
      if_neg (hne _ (by decide)), if_neg (hne _ (by decide)), if_neg (hne _ (by decide)), if_neg hlow]
  rw [not_or] at hquote
  rw [hescape, List.singleton_append, scanString.eq_def]
  dsimp only
  rw [if_neg hquote.1, if_neg hlow, if_pos hquote.2]

theorem scanString_flatMap (s rest : List UInt8) :
    scanString (s.flatMap escapeByte ++ 0x22 :: rest) = some (s.map unitOf, rest) := by
  induction s with
  | nil =>
    rw [List.flatMap_nil, List.nil_append, scanString.eq_def]
    rfl
  | cons c s ih =>
    rw [List.flatMap_cons, List.append_assoc, scanString_escapeByte, ih]
    rfl

theorem encodeUnits_map (s : List UInt8) : encodeUnits (s.map unitOf) = s := by
  induction s with
  | nil => rfl
  | cons c s ih =>
    rw [List.map_cons]
    by_cases h : c < 0x20 ∧ simpleEscape? (((escapeByte c).drop 1).headD 0) = none
    · have hunit : unitOf c = .code c.toNat := if_pos h
      have hlow : c.toNat < 32 := UInt8.lt_iff_toNat_lt.mp h.1
      have hpoint : encodePoint c.toNat = [c] := by
        unfold encodePoint
        rw [if_pos (by omega), Nat.toUInt8, UInt8.ofNat_toNat]
      rw [hunit]
      cases hs : s.map unitOf with
      | nil =>
        rw [hs] at ih
        rw [encodeUnits, hpoint, ih]
        · rfl
        · intro lo rest hnil
          cases hnil
      | cons u us =>
        rw [hs] at ih
        cases u with
        | byte b =>
          rw [encodeUnits, hpoint, ih]
          · rfl
          · intro lo rest hnil
            cases hnil
        | code lo =>
          rw [encodeUnits, if_neg (by omega), hpoint, ih]
          rfl
    · have hunit : unitOf c = .byte c := if_neg h
      rw [hunit, encodeUnits, ih]

theorem parseString_render (s rest : List UInt8) :
    parseString (renderString s ++ rest) = some (s, rest) := by
  show (scanString (s.flatMap escapeByte ++ [0x22] ++ rest)).map _ = _
  rw [List.append_assoc, List.singleton_append, scanString_flatMap, Option.map_some]
  dsimp only
  rw [encodeUnits_map]

/-- What may follow a value in a rendered document. -/
def Delimited (rest : List UInt8) : Prop :=
  ∀ c ∈ rest.head?, c = 0x2C ∨ c = 0x5D ∨ c = 0x7D

theorem delimited_nil : Delimited [] := nofun

theorem delimited_cons (h : c = 0x2C ∨ c = 0x5D ∨ c = 0x7D) (rest : List UInt8) :
    Delimited (c :: rest) := by
  intro d hd
  cases hd
  exact h

/-! ### Numbers -/

theorem span_digits {d : List UInt8} (hd : ∀ c ∈ d, isDecimal c = true)
    (hrest : ∀ c ∈ rest.head?, isDecimal c = false) :
    (d ++ rest).takeWhile isDecimal = d ∧ (d ++ rest).dropWhile isDecimal = rest := by
  rw [List.takeWhile_append_of_pos hd, List.dropWhile_append_of_pos hd]
  cases rest with
  | nil => exact ⟨List.append_nil d, rfl⟩
  | cons c rest =>
    have hc : ¬isDecimal c = true := by
      rw [hrest c rfl]
      exact Bool.false_ne_true
    rw [List.takeWhile_cons_of_neg hc, List.dropWhile_cons_of_neg hc, List.append_nil]
    exact ⟨rfl, rfl⟩

/-- Neither a digit nor what could go on a number. -/
def Ends (rest : List UInt8) : Prop :=
  ∀ c ∈ rest.head?, isDecimal c = false ∧ c ≠ 0x2E ∧ c ≠ 0x65 ∧ c ≠ 0x45

theorem Delimited.ends (h : Delimited rest) : Ends rest := by
  intro c hc
  rcases h c hc with rfl | rfl | rfl <;> decide

theorem ne_of_isDecimal {d : UInt8} (hc : isDecimal c = true) (hd : isDecimal d = false) :
    c ≠ d := by
  rintro rfl
  rw [hc] at hd
  cases hd

/-- The digits of a number, of which there is one at least. -/
theorem decText_eq_cons (v : Nat) : ∃ c ds, decText v = c :: ds ∧ isDecimal c = true := by
  cases h : decText v with
  | nil => exact absurd h (decText_ne_nil v)
  | cons c ds =>
    have hmem : c ∈ decText v := h ▸ List.mem_cons_self
    exact ⟨c, ds, rfl, isDecimal_of_mem_decDigits hmem⟩

theorem takeSign_digits (plus : Bool) (v : Nat) (rest : List UInt8) :
    takeSign plus (decText v ++ rest) = (false, decText v ++ rest) := by
  obtain ⟨c, ds, heq, hc⟩ := decText_eq_cons v
  rw [heq, List.cons_append, takeSign, if_neg (ne_of_isDecimal hc (by decide)),
    if_neg fun h => ne_of_isDecimal hc (by decide) h.2]

theorem takeSign_render (plus negative : Bool) (v : Nat) (rest : List UInt8) :
    takeSign plus ((if negative then [0x2D] else []) ++ (decText v ++ rest)) =
      (negative, decText v ++ rest) := by
  cases negative with
  | true => rfl
  | false => exact takeSign_digits plus v rest

theorem decText_span (v : Nat) (h : ∀ c ∈ rest.head?, isDecimal c = false) :
    (decText v ++ rest).takeWhile isDecimal = decText v ∧
      (decText v ++ rest).dropWhile isDecimal = rest :=
  span_digits (fun _ hc => isDecimal_of_mem_decDigits hc) h

theorem takeExponent_render (e : Option Int) (h : Delimited rest) :
    takeExponent (renderExponent e ++ rest) = some (e, rest) := by
  cases e with
  | none =>
    cases rest with
    | nil => rfl
    | cons c rest =>
      have hc := h.ends c rfl
      show takeExponent (c :: rest) = _
      rw [takeExponent, if_neg (not_or.mpr ⟨hc.2.2.1, hc.2.2.2⟩)]
  | some e =>
    have hsign : takeSign true
        ((if e < 0 then [0x2D] else []) ++ (decText e.natAbs ++ rest)) =
          (decide (e < 0), decText e.natAbs ++ rest) := by
      have hs := takeSign_render true (decide (e < 0)) e.natAbs rest
      simpa only [decide_eq_true_eq] using hs
    have hspan := decText_span e.natAbs fun c hc => (h.ends c hc).1
    rw [renderExponent, List.cons_append, List.append_assoc, takeExponent, if_pos (Or.inl rfl), hsign]
    dsimp only
    rw [hspan.1, hspan.2, if_neg (decText_ne_nil _), decFrom_decText]
    congr 3
    by_cases he : e < 0
    · rw [if_pos (decide_eq_true he)]
      omega
    · rw [if_neg (by simpa using he)]
      omega

/-- What follows the digits before the point. -/
theorem renderExponent_ends (e : Option Int) (h : Delimited rest) :
    ∀ c ∈ (renderExponent e ++ rest).head?, isDecimal c = false ∧ c ≠ 0x2E := by
  intro c hc
  cases e with
  | none => exact ⟨(h.ends c hc).1, (h.ends c hc).2.1⟩
  | some e =>
    cases hc
    decide

theorem takeFraction_render (n : JsonNumber) (h : Delimited rest) :
    takeFraction ((if n.decimals = 0 then []
        else 0x2E :: padDigits n.decimals (n.mantissa % 10 ^ n.decimals)) ++
          (renderExponent n.exponent ++ rest)) =
      some (padDigits n.decimals (n.mantissa % 10 ^ n.decimals),
        renderExponent n.exponent ++ rest) := by
  have hends := renderExponent_ends n.exponent h
  by_cases hd : n.decimals = 0
  · rw [if_pos hd, hd, List.nil_append]
    cases hs : renderExponent n.exponent ++ rest with
    | nil => rfl
    | cons c s => rw [takeFraction, if_neg (hends c (by rw [hs]; rfl)).2]; rfl
  · have hspan := span_digits (d := padDigits n.decimals (n.mantissa % 10 ^ n.decimals))
      (fun _ hc => isDecimal_of_mem_padDigits hc) fun c hc => (hends c hc).1
    have hne : padDigits n.decimals (n.mantissa % 10 ^ n.decimals) ≠ [] := by
      intro heq
      have hlen := congrArg List.length heq
      rw [length_padDigits] at hlen
      exact hd hlen
    rw [if_neg hd, List.cons_append, takeFraction, if_pos rfl, hspan.1, hspan.2, if_neg hne]

theorem decFrom_render (m d : Nat) :
    decFrom 0 (decText (m / 10 ^ d) ++ padDigits d (m % 10 ^ d)) = m := by
  rw [decFrom_append, decFrom_decText, decFrom_padDigits, Nat.mod_mod]
  exact Nat.div_add_mod' m _

theorem not_leadingZero (v : Nat) :
    ¬(decText v = [] ∨ 1 < (decText v).length ∧ (decText v).head? = some 0x30) := by
  rintro (h | ⟨hlen, hhead⟩)
  · exact decText_ne_nil v h
  · by_cases hv : v = 0
    · subst hv
      exact absurd hlen (by decide)
    · exact head_decDigits (lt_ten_pow v) hv hhead

theorem parseNumber_render (n : JsonNumber) (h : Delimited rest) :
    parseNumber (renderNumber n ++ rest) = some (n, rest) := by
  have hhead : ∀ c ∈ ((if n.decimals = 0 then []
      else 0x2E :: padDigits n.decimals (n.mantissa % 10 ^ n.decimals)) ++
        (renderExponent n.exponent ++ rest)).head?, isDecimal c = false := by
    intro c hc
    split at hc
    · exact (renderExponent_ends n.exponent h c hc).1
    · cases hc
      decide
  have hspan := decText_span (n.mantissa / 10 ^ n.decimals) hhead
  unfold parseNumber renderNumber
  rw [List.append_assoc, List.append_assoc, List.append_assoc, takeSign_render]
  dsimp only
  rw [hspan.1, hspan.2, if_neg (not_leadingZero _), takeFraction_render n h]
  dsimp only
  rw [takeExponent_render n.exponent h]
  dsimp only
  rw [decFrom_render, length_padDigits]

/-! ### Values -/

/-- A rendered value begins with neither a blank nor a closing bracket. -/
theorem render_head (j : Json) : ∃ c s, render j = c :: s ∧ isBlank c = false ∧ c ≠ 0x5D := by
  cases j with
  | null => exact ⟨_, _, rfl, by decide, by decide⟩
  | bool b => cases b <;> exact ⟨_, _, rfl, by decide, by decide⟩
  | num n =>
    obtain ⟨negative, m, d, e⟩ := n
    cases negative with
    | true => exact ⟨_, _, rfl, by decide, by decide⟩
    | false =>
      obtain ⟨c, ds, heq, hc⟩ := decText_eq_cons (m / 10 ^ d)
      have hblank : isBlank c = false := by
        cases hb : isBlank c with
        | false => rfl
        | true =>
          simp only [isBlank, decide_eq_true_eq] at hb
          rcases hb with rfl | rfl | rfl | rfl <;> cases hc
      have hrender : render (num ⟨false, m, d, e⟩) = c :: (ds ++
          ((if d = 0 then [] else 0x2E :: padDigits d (m % 10 ^ d)) ++ renderExponent e)) := by
        show decText (m / 10 ^ d) ++ _ = _
        rw [heq]
        rfl
      exact ⟨_, _, hrender, hblank, ne_of_isDecimal hc (by decide)⟩
  | str s => exact ⟨_, _, rfl, by decide, by decide⟩
  | arr xs => exact ⟨_, _, rfl, by decide, by decide⟩
  | obj fields => exact ⟨_, _, rfl, by decide, by decide⟩

theorem skipBlank_render (j : Json) (rest : List UInt8) :
    skipBlank (render j ++ rest) = render j ++ rest := by
  obtain ⟨c, s, heq, hblank, -⟩ := render_head j
  rw [heq, List.cons_append, skipBlank_cons hblank]

theorem afterWord_append (word : String) (rest : List UInt8) :
    afterWord word (ascii word ++ rest) = some rest := by
  unfold afterWord
  rw [if_pos (List.isPrefixOf_iff_prefix.mpr (List.prefix_append _ _)), List.drop_left]

theorem parseNumber_value (n : JsonNumber) (fuel : Nat) (h : Delimited rest) :
    parseValue (fuel + 1) (render (num n) ++ rest) = some (num n, rest) := by
  obtain ⟨c, s, heq, hblank, hbracket⟩ := render_head (num n)
  have hparse := parseNumber_render n h
  have hword : ∀ d : UInt8, (parseNumber (d :: (s ++ rest))).isSome → d ≠ 0x22 ∧ d ≠ 0x7B ∧
      d ≠ 0x5B ∧ d ≠ 0x74 ∧ d ≠ 0x66 ∧ d ≠ 0x6E := by
    intro d hd
    refine ⟨?_, ?_, ?_, ?_, ?_, ?_⟩ <;> (rintro rfl; cases hd)
  rw [parseValue, skipBlank_render, heq, List.cons_append]
  dsimp only
  have hcons : renderNumber n ++ rest = c :: (s ++ rest) := congrArg (· ++ rest) heq
  rw [hcons] at hparse
  obtain ⟨h1, h2, h3, h4, h5, h6⟩ := hword c (by rw [hparse]; rfl)
  rw [if_neg h1, if_neg h2, if_neg h3, if_neg h4, if_neg h5, if_neg h6, hparse]
  rfl

theorem length_render_pos (j : Json) : 0 < (render j).length := by
  obtain ⟨c, s, heq, -⟩ := render_head j
  rw [heq]
  exact Nat.succ_pos _

theorem renderElements_head (x : Json) (xs : List Json) :
    ∃ c s, renderElements (x :: xs) = c :: s ∧ isBlank c = false ∧ c ≠ 0x5D := by
  obtain ⟨c, s, heq, h⟩ := render_head x
  cases xs with
  | nil => exact ⟨c, s, heq, h⟩
  | cons y xs =>
    refine ⟨c, s ++ 0x2C :: renderElements (y :: xs), ?_, h⟩
    rw [renderElements, heq, List.cons_append]

theorem renderMembers_head (key : List UInt8) (x : Json) (fields : List (List UInt8 × Json)) :
    ∃ s, renderMembers ((key, x) :: fields) = 0x22 :: s := by
  cases fields with
  | nil => exact ⟨_, rfl⟩
  | cons y fields => exact ⟨_, rfl⟩

theorem afterColon_cons (rest : List UInt8) : afterColon (0x3A :: rest) = rest := rfl

theorem skipBlank_renderString (s rest : List UInt8) :
    skipBlank (renderString s ++ rest) = renderString s ++ rest :=
  skipBlank_cons (by decide) _

/-- With this much fuel, all that is no longer than it is read back. -/
structure ReadsBack (fuel : Nat) : Prop where
  value (j : Json) (rest : List UInt8) : (render j).length ≤ fuel → Delimited rest →
    parseValue fuel (render j ++ rest) = some (j, rest)
  elements (x : Json) (xs : List Json) (rest : List UInt8) :
    (renderElements (x :: xs)).length < fuel →
      parseElements fuel (renderElements (x :: xs) ++ 0x5D :: rest) = some (x :: xs, rest)
  members (key : List UInt8) (x : Json) (fields : List (List UInt8 × Json)) (rest : List UInt8) :
    (renderMembers ((key, x) :: fields)).length < fuel →
      parseMembers fuel (renderMembers ((key, x) :: fields) ++ 0x7D :: rest) =
        some ((key, x) :: fields, rest)

section Step

variable {fuel : Nat} (ih : ReadsBack fuel)

include ih

theorem parseValue_succ (j : Json) (rest : List UInt8) (hfuel : (render j).length ≤ fuel + 1)
    (h : Delimited rest) : parseValue (fuel + 1) (render j ++ rest) = some (j, rest) := by
  match j with
  | null =>
    rw [parseValue, skipBlank_render]
    exact congrArg (Option.map fun rest => (null, rest)) (afterWord_append "null" rest)
  | bool true =>
    rw [parseValue, skipBlank_render]
    exact congrArg (Option.map fun rest => (bool true, rest)) (afterWord_append "true" rest)
  | bool false =>
    rw [parseValue, skipBlank_render]
    exact congrArg (Option.map fun rest => (bool false, rest)) (afterWord_append "false" rest)
  | num n => exact parseNumber_value n fuel h
  | str s =>
    rw [parseValue, skipBlank_render]
    exact congrArg (Option.map fun (s, rest) => (str s, rest)) (parseString_render s rest)
  | arr [] =>
    rw [parseValue, skipBlank_render]
    rfl
  | arr (x :: xs) =>
    rw [render, List.length_cons, List.length_append, List.length_singleton] at hfuel
    have hxs := ih.elements x xs rest (by omega)
    obtain ⟨c, s, heq, hblank, hbracket⟩ := renderElements_head x xs
    have hhead : (skipBlank (renderElements (x :: xs) ++ 0x5D :: rest)).head? ≠ some 0x5D := by
      rw [heq, List.cons_append, skipBlank_cons hblank]
      intro hc
      exact hbracket (Option.some.inj hc)
    rw [parseValue, skipBlank_render, render, List.cons_append, List.append_assoc]
    dsimp only
    rw [if_neg (by decide), if_neg (by decide), if_pos rfl, List.singleton_append,
      if_neg hhead, hxs]
    rfl
  | obj [] =>
    rw [parseValue, skipBlank_render]
    rfl
  | obj ((key, x) :: fields) =>
    rw [render, List.length_cons, List.length_append, List.length_singleton] at hfuel
    have hxs := ih.members key x fields rest (by omega)
    obtain ⟨s, heq⟩ := renderMembers_head key x fields
    have hhead : (skipBlank (renderMembers ((key, x) :: fields) ++ 0x7D :: rest)).head? ≠
        some 0x7D := by
      rw [heq, List.cons_append, skipBlank_cons (by decide)]
      nofun
    rw [parseValue, skipBlank_render, render, List.cons_append, List.append_assoc]
    dsimp only
    rw [if_neg (by decide), if_pos rfl, List.singleton_append, if_neg hhead, hxs]
    rfl

theorem parseElements_succ (x : Json) (xs : List Json) (rest : List UInt8)
    (hfuel : (renderElements (x :: xs)).length < fuel + 1) :
    parseElements (fuel + 1) (renderElements (x :: xs) ++ 0x5D :: rest) = some (x :: xs, rest) := by
  match xs with
  | [] =>
    have hx := ih.value x (0x5D :: rest) (Nat.le_of_lt_succ hfuel) (delimited_cons (by decide) rest)
    rw [renderElements, parseElements, hx]
    rfl
  | y :: ys =>
    rw [renderElements, List.length_append, List.length_cons] at hfuel
    have hx := ih.value x (0x2C :: (renderElements (y :: ys) ++ 0x5D :: rest)) (by omega)
      (delimited_cons (by decide) _)
    have hpos := length_render_pos x
    have hys := ih.elements y ys rest (by omega)
    rw [renderElements, List.append_assoc, List.cons_append, parseElements, hx]
    dsimp only
    rw [skipBlank_cons (by decide)]
    dsimp only
    rw [if_pos rfl, hys]
    rfl

theorem parseMembers_succ (key : List UInt8) (x : Json) (fields : List (List UInt8 × Json))
    (rest : List UInt8) (hfuel : (renderMembers ((key, x) :: fields)).length < fuel + 1) :
    parseMembers (fuel + 1) (renderMembers ((key, x) :: fields) ++ 0x7D :: rest) =
      some ((key, x) :: fields, rest) := by
  match fields with
  | [] =>
    rw [renderMembers, List.length_append, List.length_cons] at hfuel
    have hx := ih.value x (0x7D :: rest) (by omega) (delimited_cons (by decide) rest)
    rw [renderMembers, List.append_assoc, List.cons_append, parseMembers, skipBlank_renderString,
      parseString_render]
    dsimp only
    rw [afterColon_cons, hx]
    rfl
  | (key', y) :: fields =>
    rw [renderMembers, List.length_append, List.length_cons, List.length_append,
      List.length_cons] at hfuel
    have hx := ih.value x (0x2C :: (renderMembers ((key', y) :: fields) ++ 0x7D :: rest)) (by omega)
      (delimited_cons (by decide) _)
    have hfields := ih.members key' y fields rest (by omega)
    rw [renderMembers, List.append_assoc, List.cons_append, List.append_assoc, List.cons_append,
      parseMembers, skipBlank_renderString, parseString_render]
    dsimp only
    rw [afterColon_cons, hx]
    dsimp only
    rw [skipBlank_cons (by decide)]
    dsimp only
    rw [if_pos rfl, hfields]
    rfl

end Step

theorem readsBack (fuel : Nat) : ReadsBack fuel := by
  induction fuel with
  | zero =>
    refine ⟨?_, ?_, ?_⟩
    · intro j rest hfuel
      exact absurd (length_render_pos j) (Nat.not_lt.mpr hfuel)
    · nofun
    · nofun
  | succ fuel ih =>
    exact ⟨parseValue_succ ih, parseElements_succ ih, parseMembers_succ ih⟩

/-- A document is read back from its text. -/
theorem parse_render (j : Json) : parse (render j) = some j := by
  have h := (readsBack ((render j).length + 1)).value j [] (Nat.le_succ _) delimited_nil
  rw [List.append_nil] at h
  unfold parse
  rw [h]
  rfl

end Json

end EspCars.Lib
