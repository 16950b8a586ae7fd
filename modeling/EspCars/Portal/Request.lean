import EspCars.Lib.Binary
import EspCars.Lib.Text

/-!
# The body of an action request

The parser of `components/portal/portal_core.h`, from `is_space` to `parse_json_body`. A span or a
cursor is the list of bytes from it on; a function that fails answers `none`, whatever it has
written to its outputs by then. Loops that the code bounds by the end of the body have the number
of bytes left as fuel (each turn takes one at least).
-/

namespace EspCars.Portal

open EspCars.Lib

def isSpace (c : UInt8) : Bool := c = 0x20 ∨ c = 0x09 ∨ c = 0x0A ∨ c = 0x0D

def lower (c : UInt8) : UInt8 := if 0x41 ≤ c ∧ c ≤ 0x5A then c - 0x41 + 0x61 else c

/-- The word, in either case. -/
def equalsCi (text : List UInt8) (word : String) : Bool := text.map lower = ascii word

def isDigit (c : UInt8) : Bool := 0x30 ≤ c ∧ c ≤ 0x39

/-! ## Numbers -/

/-- `mantissa * 10.0 + (*p - '0')` -/
def pushDigit (mantissa : Magnitude64) (c : UInt8) : Magnitude64 :=
  (mantissa.mul (.ofNat 10)).add (.ofNat (c - 0x30).toNat)

/-- The square-and-multiply loop for `10 ^ e`; nine bits are enough for an `e` up to 400. -/
def scaleLoop : Nat → Nat → Magnitude64 → Magnitude64 → Magnitude64
  | 0, _, scale, _ => scale
  | fuel + 1, e, scale, base =>
    if e = 0 then scale
    else scaleLoop fuel (e / 2) (if e % 2 = 1 then scale.mul base else scale) (base.mul base)

/-- The value of a mantissa and a decimal exponent. -/
def scaleDecimal (mantissa : Magnitude64) (exp10 : Int) : Magnitude64 :=
  if mantissa = .finite 0 then mantissa
  else if exp10 > 400 then .infinite
  else if exp10 < -400 then .finite 0
  else
    let scale := scaleLoop 9 exp10.natAbs (.ofNat 1) (.ofNat 10)
    if exp10 < 0 then mantissa.div scale else mantissa.mul scale

/-- The digits of an exponent, which stop counting from 100000 on. -/
def exponentOf (digits : List UInt8) : Nat :=
  digits.foldl (fun e c => if e < 100000 then e * 10 + (c - 0x30).toNat else e) 0

/-- A sign at the front: whether it is a minus, and what follows. -/
def takeSign (s : List UInt8) (allowPlus : Bool) : Bool × List UInt8 :=
  match s with
  | c :: rest =>
    if c = 0x2D then (true, rest)
    else if allowPlus ∧ c = 0x2B then (false, rest)
    else (false, s)
  | [] => (false, s)

/-- The exponent part: its value and what follows. `none` is an `e` without digits. -/
def takeExponent (s : List UInt8) : Option (Int × List UInt8) :=
  match s with
  | c :: rest =>
    if c = 0x65 ∨ c = 0x45 then
      let (negative, rest) := takeSign rest true
      let digits := rest.takeWhile isDigit
      if digits = [] then none
      else
        let e : Int := exponentOf digits
        some (if negative then -e else e, rest.dropWhile isDigit)
    else some (0, s)
  | [] => some (0, s)

/-- The fraction part: at most 30 of its digits count. `none` is a point without digits. -/
def takeFraction (mantissa : Magnitude64) (s : List UInt8) :
    Option (Magnitude64 × Int × List UInt8) :=
  match s with
  | c :: rest =>
    if c = 0x2E then
      let digits := rest.takeWhile isDigit
      if digits = [] then none
      else
        let counted := digits.take 30
        some (counted.foldl pushDigit mantissa, -(counted.length : Int), rest.dropWhile isDigit)
    else some (mantissa, 0, s)
  | [] => some (mantissa, 0, s)

/-- `parse_number_span` -/
def parseNumberSpan (s : List UInt8) (allowPlus : Bool) : Option Binary64 :=
  let (negative, p) := takeSign s allowPlus
  let digits := p.takeWhile isDigit
  let mantissa := digits.foldl pushDigit (.finite 0)
  match takeFraction mantissa (p.dropWhile isDigit) with
  | none => none
  | some (mantissa, fracExp, p) =>
    if digits = [] then none
    else if !allowPlus ∧ 1 < digits.length ∧ digits.head? = some 0x30 then none
    else
      match takeExponent p with
      | none => none
      | some (e, p) =>
        if p ≠ [] then none
        else some { negative := negative, magnitude := scaleDecimal mantissa (fracExp + e) }

/-! ## Strings -/

def hexDigit? (c : UInt8) : Option UInt32 :=
  if 0x30 ≤ c ∧ c ≤ 0x39 then some (c - 0x30).toUInt32
  else if 0x61 ≤ c ∧ c ≤ 0x66 then some (c - 0x61 + 10).toUInt32
  else if 0x41 ≤ c ∧ c ≤ 0x46 then some (c - 0x41 + 10).toUInt32
  else none

/-- The bytes that `\uXXXX` is decoded to. -/
def decodeEscape (cp : UInt32) : List UInt8 :=
  if cp < 0x80 then [cp.toUInt8]
  else if cp < 0x800 then [(cp >>> 6 ||| 0xC0).toUInt8, (cp &&& 0x3F ||| 0x80).toUInt8]
  else if 0xD800 ≤ cp ∧ cp ≤ 0xDFFF then [0x3F]
  else
    [(cp >>> 12 ||| 0xE0).toUInt8, (cp >>> 6 &&& 0x3F ||| 0x80).toUInt8,
      (cp &&& 0x3F ||| 0x80).toUInt8]

/-- The escapes of one character. -/
def simpleEscape (c : UInt8) : Option UInt8 :=
  if c = 0x22 ∨ c = 0x5C ∨ c = 0x2F then some c
  else if c = 0x62 then some 0x08
  else if c = 0x66 then some 0x0C
  else if c = 0x6E then some 0x0A
  else if c = 0x72 then some 0x0D
  else if c = 0x74 then some 0x09
  else none

/-- The four digits of `\uXXXX`. -/
def codePoint? (a b c d : UInt8) : Option UInt32 := do
  let a ← hexDigit? a
  let b ← hexDigit? b
  let c ← hexDigit? c
  let d ← hexDigit? d
  return ((a <<< 4 ||| b) <<< 4 ||| c) <<< 4 ||| d

/-- The rest of a string behind its opening quote: the decoded bytes and what follows the closing
quote. -/
def parseStringBody : List UInt8 → Option (List UInt8 × List UInt8)
  | [] => none
  | ch :: rest =>
    if ch = 0x22 then some ([], rest)
    else if ch < 0x20 then none
    else if ch ≠ 0x5C then
      (parseStringBody rest).map fun (s, rest) => (ch :: s, rest)
    else
      match rest with
      | [] => none
      | 0x75 :: a :: b :: c :: d :: rest =>
        match codePoint? a b c d with
        | none => none
        | some cp => (parseStringBody rest).map fun (s, rest) => (decodeEscape cp ++ s, rest)
      | esc :: rest =>
        match simpleEscape esc with
        | none => none
        | some c => (parseStringBody rest).map fun (s, rest) => (c :: s, rest)

/-- `parse_json_string` without a limit on what it writes. -/
def parseJsonString : List UInt8 → Option (List UInt8 × List UInt8)
  | 0x22 :: rest => parseStringBody rest
  | _ => none

/-! ## Values -/

def skipWs (s : List UInt8) : List UInt8 := s.dropWhile isSpace

mutual

/-- `skip_json_value`: what follows the value. -/
def skipJsonValue : Nat → Nat → List UInt8 → Option (List UInt8)
  | 0, _, _ => none
  | fuel + 1, depth, s =>
    if depth > 8 then none
    else
      match skipWs s with
      | [] => none
      | 0x22 :: rest => (parseStringBody rest).map Prod.snd
      | 0x7B :: rest =>
        match skipWs rest with
        | 0x7D :: rest => some rest
        | rest => skipMembers fuel depth true rest
      | 0x5B :: rest =>
        match skipWs rest with
        | 0x5D :: rest => some rest
        | rest => skipMembers fuel depth false rest
      | s =>
        let isEnd := fun c => isSpace c || c = 0x2C || c = 0x7D || c = 0x5D
        let word := s.takeWhile fun c => !isEnd c
        if equalsCi word "true" || equalsCi word "false" || equalsCi word "null" ||
            (parseNumberSpan word false).isSome then
          some (s.dropWhile fun c => !isEnd c)
        else none

/-- The members of an object, or the elements of an array, and the closing bracket. -/
def skipMembers : Nat → Nat → Bool → List UInt8 → Option (List UInt8)
  | 0, _, _, _ => none
  | fuel + 1, depth, isObject, s => do
    let s := skipWs s
    let s ← if isObject then do
        let (_, rest) ← parseJsonString s
        match skipWs rest with
        | 0x3A :: rest => some rest
        | _ => none
      else some s
    let rest ← skipJsonValue fuel (depth + 1) s
    match skipWs rest with
    | c :: rest =>
      if c = 0x2C then skipMembers fuel depth isObject rest
      else if c = if isObject then 0x7D else 0x5D then some rest
      else none
    | [] => none

end

/-- `JsonKind` -/
inductive JsonKind
  | missing | bool | number | text | nullValue | other
  deriving DecidableEq, Repr

/-- `ACTION_TEXT_MAX`, the terminating NUL included. -/
def actionTextMax : Nat := 64

/-- `JsonValue`: what the scanner makes of a scalar. -/
structure JsonValue where
  kind : JsonKind := .missing
  boolean : Bool := false
  number : Binary64 := {}
  text : List UInt8 := []
  truncated : Bool := false
  deriving DecidableEq

/-- The value of a member `value`, and what follows it. -/
def parseMemberValue (s : List UInt8) : Option (JsonValue × List UInt8) :=
  match s with
  | [] => none
  | 0x22 :: rest =>
    (parseStringBody rest).map fun (text, rest) =>
      ({ kind := .text, text := text.take (actionTextMax - 1),
         truncated := actionTextMax - 1 < text.length }, rest)
  | 0x7B :: _ | 0x5B :: _ =>
    (skipJsonValue (2 * s.length + 1) 0 s).map fun rest => ({ kind := .other }, rest)
  | s =>
    let isEnd := fun c => isSpace c || c = 0x2C || c = 0x7D
    let word := s.takeWhile fun c => !isEnd c
    let rest := s.dropWhile fun c => !isEnd c
    if word = ascii "true" then some ({ kind := .bool, boolean := true }, rest)
    else if word = ascii "false" then some ({ kind := .bool }, rest)
    else if word = ascii "null" then some ({ kind := .nullValue }, rest)
    else (parseNumberSpan word false).map fun v => ({ kind := .number, number := v }, rest)

/-- Keys are read into 16 bytes, and a key that does not fit is never `value`. -/
def isValueKey (key : List UInt8) : Bool :=
  key.length ≤ 15 ∧ cstr key = ascii "value"

/-- The members of the body from one on: the last `value` among them, and what follows the closing
brace. -/
def parseMembers : Nat → JsonValue → List UInt8 → Option (JsonValue × List UInt8)
  | 0, _, _ => none
  | fuel + 1, found, s => do
    let (key, rest) ← parseJsonString (skipWs s)
    let rest ← match skipWs rest with
      | 0x3A :: rest => some (skipWs rest)
      | _ => none
    if rest = [] then none
    else
      let (found, rest) ←
        if isValueKey key then parseMemberValue rest
        else (skipJsonValue (2 * rest.length + 1) 0 rest).map fun rest => (found, rest)
      match skipWs rest with
      | 0x2C :: rest => parseMembers fuel found rest
      | 0x7D :: rest => some (found, rest)
      | _ => none

/-- `parse_json_body`: the last member `value`, if there is one; `none` inside is an empty body. -/
def parseJsonBody (body : List UInt8) : Option (Option JsonValue) :=
  match skipWs body with
  | [] => some none
  | 0x7B :: rest => do
    let (found, rest) ← match skipWs rest with
      | 0x7D :: rest => some (({} : JsonValue), rest)
      | s => parseMembers (s.length + 1) {} s
    if skipWs rest = [] then some (some found) else none
  | _ => none

end EspCars.Portal
