import EspCars.Lib.Cursor
import EspCars.Portal.Values

/-!
# The loads of the body's parser

The parser of `portal_core.h` once more, load by load: a cursor is an index, every load goes to the
region from the start of the body to its end (for `parse_number_span` and `equals_ci` to the span
they are given), and a function has no result at all if it loads outside. Inside the result, `none`
is a body that is refused.
-/

namespace EspCars.Portal.Loading

open EspCars.Lib
open EspCars.Lib.Cursor

section

variable (r : List UInt8)

def skipWs (p : Nat) : Option Nat := do
  let (_, p) ← loop r isSpace (fun _ _ => ()) r.length () p
  return p

/-! ## Numbers -/

def takeSign (allowPlus : Bool) (p : Nat) : Option (Bool × Nat) := do
  match ← peek r p with
  | some c =>
    if c = 0x2D then return (true, p + 1)
    else if allowPlus ∧ c = 0x2B then return (false, p + 1)
    else return (false, p)
  | none => return (false, p)

/-- A digit behind the point: mantissa, exponent and count. -/
def pushFraction : Magnitude64 × Int × Nat → UInt8 → Magnitude64 × Int × Nat
  | (m, e, n), c => if n < 30 then (pushDigit m c, e - 1, n + 1) else (m, e, n + 1)

def takeFraction (m : Magnitude64) (p : Nat) : Option (Option ((Magnitude64 × Int) × Nat)) := do
  if (← peek r p) = some 0x2E then
    let ((m, e, n), p) ← loop r isDigit pushFraction r.length (m, 0, 0) (p + 1)
    return if n = 0 then none else some ((m, e), p)
  else return some ((m, 0), p)

def pushExponent : Nat × Nat → UInt8 → Nat × Nat
  | (e, n), c => (if e < 100000 then e * 10 + (c - 0x30).toNat else e, n + 1)

def takeExponent (p : Nat) : Option (Option (Int × Nat)) := do
  let c ← peek r p
  if c = some 0x65 ∨ c = some 0x45 then
    let (negative, p) ← takeSign r true (p + 1)
    let ((e, n), p) ← loop r isDigit pushExponent r.length (0, 0) p
    return if n = 0 then none else some (if negative then -(e : Int) else e, p)
  else return some (0, p)

/-- The second look at the integer part, from the start of the span. -/
def leadingZero : Option Bool := do
  let c ← fetch r 0
  let c ← if c = 0x2D then fetch r 1 else some c
  return c = 0x30

/-- `parse_number_span` as JSON calls it. -/
def parseNumberSpan : Option (Option Binary64) := do
  let (negative, p) ← takeSign r false 0
  let ((m, n), p) ← loop r isDigit (fun (m, n) c => (pushDigit m c, n + 1)) r.length
    (.finite 0, 0) p
  let number ← andThen (takeFraction r m p) fun (m, fracExp) p => do
    if n = 0 then return none
    else if ← if 1 < n then leadingZero r else some false then return none
    else
      andThen (takeExponent r p) fun e p =>
        return if p ≠ r.length then none
        else some ({ negative := negative, magnitude := scaleDecimal m (fracExp + e) }, p)
  return number.map Prod.fst

/-! ## Strings -/

/-- The rest of a string behind its opening quote. -/
def parseStringBody : Nat → Nat → Option (Option (List UInt8 × Nat))
  | 0, _ => return none
  | fuel + 1, p => do
    let more (d : List UInt8) (p : Nat) :=
      andThen (parseStringBody fuel p) fun s p => return some (d ++ s, p)
    match ← peek r p with
    | none => return none
    | some ch =>
      if ch = 0x22 then return some ([], p + 1)
      else if ch < 0x20 then return none
      else if ch ≠ 0x5C then more [ch] (p + 1)
      else
        match ← peek r (p + 1) with
        | none => return none
        | some esc =>
          if esc = 0x75 then
            if r.length - (p + 2) < 4 then return none
            else
              match codePoint? (← fetch r (p + 2)) (← fetch r (p + 3)) (← fetch r (p + 4))
                (← fetch r (p + 5)) with
              | none => return none
              | some cp => more (decodeEscape cp) (p + 6)
          else
            match simpleEscape esc with
            | none => return none
            | some c => more [c] (p + 2)

/-- A string, read byte by byte. -/
def parseJsonString (p : Nat) : Option (Option (List UInt8 × Nat)) := do
  if (← peek r p) = some 0x22 then parseStringBody r r.length (p + 1) else return none

/-! ## Values -/

/-- The span up to a byte of `ends`, and the cursor behind it. -/
def span (ends : UInt8 → Bool) (p : Nat) : Option (List UInt8 × Nat) := do
  let (_, q) ← loop r (fun c => !ends c) (fun _ _ => ()) r.length () p
  return ((r.drop p).take (q - p), q)

/-- `equals_ci` from byte `i` on. -/
def equalsCi : List UInt8 → Nat → Option Bool
  | [], i => return i = r.length
  | w :: word, i => do
    if i < r.length then
      let c ← fetch r i
      if lower c ≠ w then return false else equalsCi word (i + 1)
    else return false

def isLooseWord : Option Bool := do
  if ← equalsCi r (ascii "true") 0 then return true
  else if ← equalsCi r (ascii "false") 0 then return true
  else if ← equalsCi r (ascii "null") 0 then return true
  else return (← parseNumberSpan r).isSome

/-- `n == size && std::memcmp(start, word, size) == 0` -/
def isWord (word : List UInt8) : Option Bool := do
  if r.length = word.length then return (← fetchBytes r word.length 0) = word else return false

mutual

def skipJsonValue : Nat → Nat → Nat → Option (Option (Unit × Nat))
  | 0, _, _ => return none
  | fuel + 1, depth, p => do
    if depth > 8 then return none
    else
      let p ← skipWs r p
      match ← peek r p with
      | none => return none
      | some ch =>
        if ch = 0x22 then andThen (parseJsonString r p) fun _ p => return some ((), p)
        else if ch = 0x7B ∨ ch = 0x5B then
          let p ← skipWs r (p + 1)
          if (← peek r p) = some (if ch = 0x7B then 0x7D else 0x5D) then return some ((), p + 1)
          else skipMembers fuel depth (ch = 0x7B) p
        else
          let (w, p) ← span r (fun c => isSpace c || c = 0x2C || c = 0x7D || c = 0x5D) p
          return if ← isLooseWord w then some ((), p) else none

def skipMembers : Nat → Nat → Bool → Nat → Option (Option (Unit × Nat))
  | 0, _, _, _ => return none
  | fuel + 1, depth, isObject, p => do
    let p ← skipWs r p
    let label := if isObject then
        andThen (parseJsonString r p) fun _ p => do expect r 0x3A (← skipWs r p)
      else return some ((), p)
    andThen label fun _ p => andThen (skipJsonValue fuel (depth + 1) p) fun _ p => do
      let p ← skipWs r p
      match ← peek r p with
      | some c =>
        if c = 0x2C then skipMembers fuel depth isObject (p + 1)
        else if c = if isObject then 0x7D else 0x5D then return some ((), p + 1)
        else return none
      | none => return none

end

def parseMemberValue (p : Nat) : Option (Option (JsonValue × Nat)) := do
  match ← peek r p with
  | none => return none
  | some ch =>
    if ch = 0x22 then
      andThen (parseJsonString r p) fun text p =>
        return some ({ kind := .text, text := text.take (actionTextMax - 1),
                       truncated := actionTextMax - 1 < text.length }, p)
    else if ch = 0x7B ∨ ch = 0x5B then
      andThen (skipJsonValue r (2 * (r.length - p) + 1) 0 p) fun _ p =>
        return some ({ kind := .other }, p)
    else
      let (w, p) ← span r (fun c => isSpace c || c = 0x2C || c = 0x7D) p
      if ← isWord w (ascii "true") then return some ({ kind := .bool, boolean := true }, p)
      else if ← isWord w (ascii "false") then return some ({ kind := .bool }, p)
      else if ← isWord w (ascii "null") then return some ({ kind := .nullValue }, p)
      else
        return (← parseNumberSpan w).map fun v => ({ kind := .number, number := v }, p)

def parseMembers : Nat → JsonValue → Nat → Option (Option (JsonValue × Nat))
  | 0, _, _ => return none
  | fuel + 1, found, p => do
    let p ← skipWs r p
    andThen (parseJsonString r p) fun key p => do
      let p ← skipWs r p
      andThen (expect r 0x3A p) fun _ p => do
        let p ← skipWs r p
        if (← peek r p) = none then return none
        else
          let value := if isValueKey key then parseMemberValue r p
            else andThen (skipJsonValue r (2 * (r.length - p) + 1) 0 p) fun _ p =>
              return some (found, p)
          andThen value fun found p => do
            let p ← skipWs r p
            match ← peek r p with
            | none => return none
            | some c =>
              if c = 0x2C then parseMembers fuel found (p + 1)
              else if c = 0x7D then return some (found, p + 1)
              else return none

/-- `parse_json_body`, the one place where `evaluate_action_json` reads the body. -/
def parseJsonBody : Option (Option (Option JsonValue)) := do
  let p ← skipWs r 0
  match ← peek r p with
  | none => return some none
  | some c =>
    if c ≠ 0x7B then return none
    else
      let p ← skipWs r (p + 1)
      let members ← if (← peek r p) = some 0x7D then pure (some (({} : JsonValue), p + 1))
        else parseMembers r (r.length - p + 1) {} p
      match members with
      | none => return none
      | some (found, p) =>
        let p ← skipWs r p
        return if (← peek r p) = none then some (some found) else none

end

/-! ## What is loaded -/

section

variable {r s : List UInt8} {p : Nat} (h : At r p s)

include h

theorem skipWs_at : ∃ q, skipWs r p = some q ∧ At r q (Portal.skipWs s) := by
  obtain ⟨q, hloop, hq, -⟩ := h.loop isSpace (fun _ _ => ()) ()
    (h.length ▸ Nat.sub_le ..)
  exact ⟨q, by rw [skipWs, hloop]; rfl, hq⟩

theorem takeSign_at (allowPlus : Bool) :
    ∃ q, takeSign r allowPlus p = some ((Portal.takeSign s allowPlus).1, q) ∧
      At r q (Portal.takeSign s allowPlus).2 := by
  unfold takeSign Portal.takeSign
  rw [h.peek]
  cases s with
  | nil => exact ⟨p, rfl, h⟩
  | cons c s =>
    by_cases hminus : c = 0x2D
    · exact ⟨p + 1, by simp [hminus], by simpa [hminus] using h.next⟩
    by_cases hplus : allowPlus = true ∧ c = 0x2B
    · exact ⟨p + 1, by simp [hplus], by simpa [hplus] using h.next⟩
    · exact ⟨p, by simp [hminus, hplus], by simpa [hminus, hplus] using h⟩

omit h in
theorem foldl_pushFraction (digits : List UInt8) (m : Magnitude64) (e : Int) (n : Nat) :
    digits.foldl pushFraction (m, e, n) =
      ((digits.take (30 - n)).foldl pushDigit m, e - (digits.take (30 - n)).length,
        n + digits.length) := by
  induction digits generalizing m e n with
  | nil => simp
  | cons c digits ih =>
    rw [List.foldl_cons, pushFraction]
    split_ifs with hn
    · rw [ih, show 30 - n = 30 - (n + 1) + 1 by omega]
      simp only [List.take_succ_cons, List.foldl_cons, List.length_cons]
      refine Prod.ext rfl (Prod.ext ?_ ?_) <;> simp <;> omega
    · rw [ih, show 30 - (n + 1) = 0 by omega, show 30 - n = 0 by omega]
      simp
      omega

theorem takeFraction_at (m : Magnitude64) :
    Follows r (takeFraction r m p)
      ((Portal.takeFraction m s).map fun z => ((z.1, z.2.1), z.2.2)) := by
  unfold takeFraction
  rw [h.peek]
  cases s with
  | nil => exact Follows.pure h
  | cons c s =>
    by_cases hpoint : c = 0x2E
    · subst hpoint
      obtain ⟨q, hloop, hq, -⟩ := h.next.loop isDigit pushFraction (m, 0, 0)
        (h.next.length ▸ Nat.sub_le ..)
      rw [foldl_pushFraction] at hloop
      simp only [Option.pure_def, Option.bind_eq_bind, Option.bind_some, List.head?_cons, if_true,
        hloop, Nat.zero_add, List.length_eq_zero_iff]
      by_cases hnone : s.takeWhile isDigit = []
      · simp [Portal.takeFraction, hnone, Follows]
      · simp only [Portal.takeFraction, hnone, if_true, if_false, Option.map_some, Nat.sub_zero,
          Int.zero_sub]
        exact Follows.pure hq
    · simp only [Portal.takeFraction, hpoint, List.head?_cons, Option.some.injEq, if_false,
        Option.map_some, Option.bind_eq_bind, Option.bind_some]
      exact Follows.pure h

omit h in
theorem foldl_pushExponent (digits : List UInt8) (e n : Nat) :
    digits.foldl pushExponent (e, n) =
      (digits.foldl (fun e c => if e < 100000 then e * 10 + (c - 0x30).toNat else e) e,
        n + digits.length) := by
  induction digits generalizing e n with
  | nil => rfl
  | cons c digits ih =>
    rw [List.foldl_cons, pushExponent, ih, List.foldl_cons, List.length_cons]
    exact Prod.ext rfl (by show n + 1 + digits.length = _; omega)

theorem takeExponent_at : Follows r (takeExponent r p) (Portal.takeExponent s) := by
  unfold takeExponent
  rw [h.peek]
  cases s with
  | nil => exact Follows.pure h
  | cons c s =>
    by_cases he : c = 0x65 ∨ c = 0x45
    · obtain ⟨q, hsign, hq⟩ := takeSign_at h.next true
      obtain ⟨q', hloop, hq', -⟩ := hq.loop isDigit pushExponent (0, 0)
        (hq.length ▸ Nat.sub_le ..)
      rw [foldl_pushExponent] at hloop
      simp only [Option.pure_def, Option.bind_eq_bind, Option.bind_some, List.head?_cons,
        Option.some.injEq, he, if_true, hsign, hloop, Nat.zero_add, List.length_eq_zero_iff,
        Portal.takeExponent]
      by_cases hnone : (Portal.takeSign s true).2.takeWhile isDigit = []
      · simp [hnone, Follows]
      · simp only [hnone, if_false]
        exact Follows.pure hq'
    · simp only [Portal.takeExponent, he, List.head?_cons, Option.some.injEq, if_false,
        Option.bind_eq_bind, Option.bind_some]
      exact Follows.pure h

end

variable {r s : List UInt8} {fuel p depth : Nat}

/-- The second look finds the first digit. -/
theorem leadingZero_eq (h : 1 < ((Portal.takeSign r false).2.takeWhile isDigit).length) :
    leadingZero r =
      some (decide (((Portal.takeSign r false).2.takeWhile isDigit).head? = some 0x30)) := by
  have hhead : ∀ {d : UInt8} {t : List UInt8}, 1 < ((d :: t).takeWhile isDigit).length →
      ((d :: t).takeWhile isDigit).head? = some d := by
    intro d t hlen
    cases hd : isDigit d <;> simp_all
  cases r with
  | nil => simp [Portal.takeSign] at h
  | cons c r =>
    by_cases hminus : c = 0x2D
    · subst hminus
      have hsign : Portal.takeSign (0x2D :: r) false = (true, r) := rfl
      rw [hsign] at h ⊢
      cases r with
      | nil => simp at h
      | cons d t =>
        rw [hhead h]
        simp [leadingZero, fetch]
    · have hsign : Portal.takeSign (c :: r) false = (false, c :: r) := by
        simp [Portal.takeSign, hminus]
      rw [hsign] at h ⊢
      rw [hhead h]
      simp [leadingZero, fetch, hminus]

theorem foldl_count (digits : List UInt8) (m : Magnitude64) (n : Nat) :
    digits.foldl (fun z c => (pushDigit z.1 c, z.2 + 1)) (m, n) =
      (digits.foldl pushDigit m, n + digits.length) := by
  induction digits generalizing m n with
  | nil => rfl
  | cons c digits ih =>
    rw [List.foldl_cons, ih, List.foldl_cons, List.length_cons]
    exact Prod.ext rfl (by show n + 1 + digits.length = _; omega)

/-- The exponent ends the number. -/
theorem exponent_tail_eq {t : List UInt8} {q : Nat} (negative : Bool) (m : Magnitude64) (e : Int)
    (hexponent : Follows r (takeExponent r q) (Portal.takeExponent t)) :
    ((andThen (takeExponent r q) fun e' p =>
        return if p ≠ r.length then none
        else some ((⟨negative, scaleDecimal m (e + e')⟩ : Binary64), p)).bind
      fun number => some (number.map Prod.fst)) =
      some (match Portal.takeExponent t with
        | none => none
        | some (e', p) =>
          if p ≠ [] then none
          else some (⟨negative, scaleDecimal m (e + e')⟩ : Binary64)) := by
  revert hexponent
  rcases Portal.takeExponent t with _ | ⟨e', t'⟩
  · intro hexponent
    rw [show takeExponent r q = some none from hexponent]
    rfl
  · rintro ⟨p', hexponent, hp'⟩
    rw [hexponent]
    by_cases hend : t' = []
    · simp [andThen, hend, hp'.eq_end_iff.mpr hend]
    · simp [andThen, hend, mt hp'.eq_end_iff.mp hend]

/-- A number is read inside its span. -/
theorem parseNumberSpan_eq (r : List UInt8) :
    parseNumberSpan r = some (Portal.parseNumberSpan r false) := by
  have hstart : At r 0 r := ⟨Nat.zero_le _, rfl⟩
  obtain ⟨p, hsign, hp⟩ := takeSign_at hstart false
  have hleading := leadingZero_eq (r := r)
  unfold parseNumberSpan Portal.parseNumberSpan
  rw [hsign]
  revert hp hleading
  obtain ⟨negative, s⟩ := Portal.takeSign r false
  intro hp hleading
  obtain ⟨q, hloop, hq, -⟩ := hp.loop isDigit
    (fun z c => (pushDigit z.1 c, z.2 + 1)) (.finite 0, 0)
    (hp.length ▸ Nat.sub_le ..)
  rw [foldl_count] at hloop
  have hfraction := takeFraction_at hq ((s.takeWhile isDigit).foldl pushDigit (.finite 0))
  simp only [Option.bind_eq_bind, Option.bind_some, hloop, andThen, Nat.zero_add]
  revert hfraction
  rcases Portal.takeFraction ((s.takeWhile isDigit).foldl pushDigit (.finite 0))
    (s.dropWhile isDigit) with _ | ⟨m, e, t⟩
  · intro hfraction
    rw [show takeFraction r _ q = some none from hfraction]
    rfl
  · rintro ⟨q', hfraction, hq'⟩
    have hexponent := takeExponent_at hq'
    simp only [hfraction, Option.bind_some, List.length_eq_zero_iff]
    by_cases hnone : s.takeWhile isDigit = []
    · simp [hnone]
    rw [if_neg hnone, if_neg hnone]
    by_cases hlong : 1 < (s.takeWhile isDigit).length
    · rw [if_pos hlong, hleading hlong, Option.bind_some]
      by_cases hhead : (s.takeWhile isDigit).head? = some 0x30
      · simp [hlong, hhead]
      · rw [if_neg (by simp [hhead]), if_neg (by simp [hhead])]
        exact exponent_tail_eq negative m e hexponent
    · rw [if_neg hlong, if_neg Bool.false_ne_true, if_neg fun hzero => hlong hzero.2.1]
      exact exponent_tail_eq negative m e hexponent

/-! ### Strings and words -/

/-- Bytes of a string behind those that are read. -/
theorem follows_more {d : List UInt8}
    (ih : Follows r (parseStringBody r fuel p) (Portal.parseStringBody s)) :
    Follows r (andThen (parseStringBody r fuel p) fun s p => return some (d ++ s, p))
      ((Portal.parseStringBody s).map fun z => (d ++ z.1, z.2)) := by
  rw [Option.map_eq_bind]
  exact ih.andThen fun _ _ _ hp => Follows.pure hp

theorem parseStringBody_at (h : At r p s) (hfuel : s.length ≤ fuel) :
    Follows r (parseStringBody r fuel p) (Portal.parseStringBody s) := by
  induction fuel generalizing p s with
  | zero =>
    obtain rfl := List.eq_nil_of_length_eq_zero (Nat.le_zero.mp hfuel)
    rfl
  | succ fuel ih =>
    rw [parseStringBody, h.peek, Portal.parseStringBody.eq_def]
    cases s with
    | nil => rfl
    | cons ch s =>
      have hs : s.length ≤ fuel := Nat.le_of_succ_le_succ hfuel
      by_cases hquote : ch = 0x22
      · simpa [hquote] using Follows.pure h.next
      by_cases hlow : ch < 0x20
      · simp [hquote, hlow, Follows]
      by_cases hplain : ch ≠ 0x5C
      · simpa [hquote, hlow, hplain] using follows_more (d := [ch]) (ih h.next hs)
      obtain rfl := not_not.mp hplain
      cases s with
      | nil => simp [h.next.peek, Follows]
      | cons esc s =>
        have hesc := h.next.next
        by_cases hcode : esc = 0x75
        · subst hcode
          have hlen := hesc.length
          rw [show p + 1 + 1 = p + 2 from rfl] at hlen
          rcases s with _ | ⟨a, _ | ⟨b, _ | ⟨c, _ | ⟨d, s⟩⟩⟩⟩
          iterate 4
            · simp only [List.length_cons, List.length_nil] at hlen
              have hshort : r.length - (p + 2) < 4 := by omega
              simp [h.next.peek, hshort, simpleEscape, Follows]
          · have hmore := fun cp => follows_more (d := decodeEscape cp)
              (ih hesc.next.next.next.next (by simp at hs; omega))
            have hlong : ¬r.length - (p + 2) < 4 := by
              simp only [List.length_cons] at hlen
              omega
            simp only [List.head?_cons, h.next.peek, Option.bind_eq_bind, Option.bind_some, hlong,
              if_false, if_true, hesc.fetch, hesc.next.fetch, hesc.next.next.fetch,
              hesc.next.next.next.fetch]
            cases hpoint : codePoint? a b c d with
            | none => simp [Follows]
            | some cp => simpa [hpoint] using hmore cp
        · cases hsimple : simpleEscape esc with
          | none => simp [h.next.peek, hcode, hsimple, Follows]
          | some c =>
            have hmore := follows_more (d := [c]) (ih hesc (by simp at hs; omega))
            simpa [h.next.peek, hcode, hsimple] using hmore

theorem parseJsonString_at (h : At r p s) :
    Follows r (parseJsonString r p) (Portal.parseJsonString s) := by
  unfold parseJsonString Portal.parseJsonString
  rw [h.peek]
  cases s with
  | nil => rfl
  | cons c s =>
    by_cases hquote : c = 0x22
    · subst hquote
      exact parseStringBody_at h.next (h.next.length ▸ Nat.sub_le ..)
    · split
      · rename_i heq
        exact absurd (List.cons.inj heq).1 hquote
      · simp [hquote, Follows]

/-- The span of a word, and the cursor behind it. -/
theorem span_at (h : At r p s) (ends : UInt8 → Bool) :
    ∃ q, span r ends p = some (s.takeWhile fun c => !ends c, q) ∧
      At r q (s.dropWhile fun c => !ends c) := by
  obtain ⟨q, hloop, hq, hlen⟩ := h.loop (fun c => !ends c) (fun _ _ => ()) ()
    (h.length ▸ Nat.sub_le ..)
  have htake := List.prefix_iff_eq_take.mp (List.takeWhile_prefix (fun c => !ends c) (l := s))
  have hsub : q - p = (s.takeWhile fun c => !ends c).length := by omega
  refine ⟨q, ?_, hq⟩
  rw [span, hloop, h.2]
  show some (s.take (q - p), q) = _
  rw [hsub, ← htake]

theorem equalsCi_eq (r word : List UInt8) (i : Nat) (hi : i ≤ r.length) :
    equalsCi r word i = some (decide ((r.map lower).drop i = word)) := by
  induction word generalizing i with
  | nil =>
    have hend : i = r.length ↔ (r.map lower).drop i = [] := by
      rw [List.drop_eq_nil_iff, List.length_map]
      omega
    simp only [equalsCi, ← hend]
    rfl
  | cons w word ih =>
    rw [equalsCi]
    split_ifs with hlt
    · rw [List.drop_eq_getElem_cons (by simpa using hlt), fetch, List.getElem?_eq_getElem hlt,
        List.getElem_map]
      by_cases hw : lower r[i] = w
      · simp [hw, ih (i + 1) hlt]
      · simp [hw]
    · simp [List.drop_eq_nil_of_le (show (r.map lower).length ≤ i by simpa using hlt)]

theorem isLooseWord_eq (r : List UInt8) :
    isLooseWord r = some (Portal.equalsCi r "true" || Portal.equalsCi r "false" ||
      Portal.equalsCi r "null" || (Portal.parseNumberSpan r false).isSome) := by
  have hword : ∀ w : String, equalsCi r (ascii w) 0 = some (Portal.equalsCi r w) := fun w =>
    equalsCi_eq r (ascii w) 0 (Nat.zero_le _)
  unfold isLooseWord
  rw [hword, hword, hword, parseNumberSpan_eq]
  cases Portal.equalsCi r "true" <;> cases Portal.equalsCi r "false" <;>
    cases Portal.equalsCi r "null" <;> rfl

theorem isWord_eq (r word : List UInt8) : isWord r word = some (decide (r = word)) := by
  unfold isWord
  split_ifs with hlen
  · rw [← hlen, fetchBytes_all (by simp)]
    simp
  · have hne : r ≠ word := fun h => hlen (h ▸ rfl)
    simp [hne]

/-! ### Values -/

theorem skipJsonValue_at (h : At r p s)
    (ih : ∀ {s : List UInt8} {p : Nat} (isObject : Bool), At r p s →
      Follows r (skipMembers r fuel depth isObject p)
        ((Portal.skipMembers fuel depth isObject s).map fun t => ((), t))) :
    Follows r (skipJsonValue r (fuel + 1) depth p)
      ((Portal.skipJsonValue (fuel + 1) depth s).map fun t => ((), t)) := by
  rw [skipJsonValue]
  by_cases hdepth : depth > 8
  · simp [Portal.skipJsonValue, hdepth, Follows]
  obtain ⟨q, hskip, hq⟩ := skipWs_at h
  rw [if_neg hdepth, hskip]
  simp only [Option.bind_eq_bind, Option.bind_some, hq.peek]
  have hle : depth ≤ 8 := by omega
  cases hs : Portal.skipWs s with
  | nil => simp [Portal.skipJsonValue, hdepth, hs, Follows]
  | cons c t =>
    rw [hs] at hq
    simp only [List.head?_cons]
    by_cases hquote : c = 0x22
    · subst hquote
      rw [if_pos rfl, skipJsonValue_string hle hs, Option.map_map, Option.map_eq_bind]
      exact (parseJsonString_at hq).andThen fun _ _ _ hp => Follows.pure hp
    rw [if_neg hquote]
    by_cases hbracket : ∃ isObject, c = openBracket isObject
    · obtain ⟨isObject, rfl⟩ := hbracket
      obtain ⟨q', hskip', hq'⟩ := skipWs_at hq.next
      have hopen : openBracket isObject = 0x7B ∨ openBracket isObject = 0x5B := by
        cases isObject <;> simp [openBracket]
      rw [if_pos hopen, skipJsonValue_bracket hle hs, hskip']
      have hclose : (if openBracket isObject = 0x7B then (0x7D : UInt8) else 0x5D) =
          closeBracket isObject := by cases isObject <;> rfl
      have hkind : decide (openBracket isObject = 0x7B) = isObject := by cases isObject <;> rfl
      simp only [Option.bind_some, hq'.peek, hclose, hkind]
      by_cases hempty : (Portal.skipWs t).head? = some (closeBracket isObject)
      · obtain ⟨v, hv⟩ := List.head?_eq_some_iff.mp hempty
        rw [hv] at hq'
        rw [if_pos hempty, if_pos hempty, hv]
        exact Follows.pure hq'.next
      · rw [if_neg hempty, if_neg hempty]
        exact ih isObject hq'
    · have hopen : ¬(c = 0x7B ∨ c = 0x5B) := by
        rintro (rfl | rfl)
        · exact hbracket ⟨true, rfl⟩
        · exact hbracket ⟨false, rfl⟩
      obtain ⟨q', hspan, hq'⟩ := span_at hq isWordEnd
      have hword : ∀ rest, Portal.skipJsonValue (fuel + 1) depth s = some rest ↔ _ := fun rest =>
        skipJsonValue_word hle hs
          ⟨hquote, fun h => hopen (.inl h), fun h => hopen (.inr h)⟩
      simp only [hs, looseWord_iff] at hword
      rw [if_neg hopen, show (fun c => isSpace c || c = 0x2C || c = 0x7D || c = 0x5D) = isWordEnd
        from rfl, hspan]
      simp only [Option.bind_some, isLooseWord_eq]
      revert hword
      generalize (_ || _ || _ || Option.isSome _) = isWord
      intro hword
      cases isWord with
      | true =>
        rw [(hword _).mpr ⟨rfl, rfl⟩]
        exact Follows.pure hq'
      | false =>
        have hnone : Portal.skipJsonValue (fuel + 1) depth s = none := by
          rw [Option.eq_none_iff_forall_ne_some]
          exact fun rest hrest => Bool.false_ne_true ((hword rest).mp hrest).1
        rw [hnone]
        rfl

/-- A value, and what stands behind it: the closing bracket, or a comma and the next value. -/
theorem item_at {t : List UInt8} {isObject : Bool} (h : At r p t)
    (ihValue : ∀ {s : List UInt8} {p : Nat}, At r p s →
      Follows r (skipJsonValue r fuel (depth + 1) p)
        ((Portal.skipJsonValue fuel (depth + 1) s).map fun t => ((), t)))
    (ihItems : ∀ {s : List UInt8} {p : Nat}, At r p s →
      Follows r (skipMembers r fuel depth isObject p)
        ((Portal.skipMembers fuel depth isObject s).map fun t => ((), t))) :
    Follows r
      (andThen (skipJsonValue r fuel (depth + 1) p) fun _ p => do
        let p ← skipWs r p
        match ← peek r p with
        | some c =>
          if c = 0x2C then skipMembers r fuel depth isObject (p + 1)
          else if c = if isObject then 0x7D else 0x5D then return some ((), p + 1)
          else return none
        | none => return none)
      (((Portal.skipJsonValue fuel (depth + 1) t).bind fun v =>
        match Portal.skipWs v with
        | c :: rest =>
          if c = 0x2C then Portal.skipMembers fuel depth isObject rest
          else if c = if isObject then 0x7D else 0x5D then some rest
          else none
        | [] => none).map fun t => ((), t)) := by
  have hvalue := ihValue h
  revert hvalue
  rcases Portal.skipJsonValue fuel (depth + 1) t with _ | v
  · intro hvalue
    rw [andThen, show skipJsonValue r fuel (depth + 1) p = some none from hvalue]
    rfl
  · rintro ⟨p', hvalue, hp'⟩
    obtain ⟨q, hskip, hq⟩ := skipWs_at hp'
    simp only [andThen, hvalue, Option.bind_eq_bind, Option.bind_some, hskip, hq.peek]
    revert hq
    rcases Portal.skipWs v with _ | ⟨c, rest⟩
    · exact fun _ => rfl
    · intro hq
      simp only [List.head?_cons]
      by_cases hcomma : c = 0x2C
      · rw [if_pos hcomma, if_pos hcomma]
        exact ihItems hq.next
      rw [if_neg hcomma, if_neg hcomma]
      by_cases hclose : c = if isObject then 0x7D else 0x5D
      · rw [if_pos hclose, if_pos hclose]
        exact Follows.pure hq.next
      · rw [if_neg hclose, if_neg hclose]
        rfl

theorem skipMembers_at {isObject : Bool} (h : At r p s)
    (ihValue : ∀ {s : List UInt8} {p : Nat}, At r p s →
      Follows r (skipJsonValue r fuel (depth + 1) p)
        ((Portal.skipJsonValue fuel (depth + 1) s).map fun t => ((), t)))
    (ihItems : ∀ {s : List UInt8} {p : Nat}, At r p s →
      Follows r (skipMembers r fuel depth isObject p)
        ((Portal.skipMembers fuel depth isObject s).map fun t => ((), t))) :
    Follows r (skipMembers r (fuel + 1) depth isObject p)
      ((Portal.skipMembers (fuel + 1) depth isObject s).map fun t => ((), t)) := by
  have htail {p : Nat} {t : List UInt8} (hp : At r p t) := item_at hp ihValue ihItems
  obtain ⟨q, hskip, hq⟩ := skipWs_at h
  rw [skipMembers, Portal.skipMembers, hskip]
  cases isObject with
  | false => exact htail hq
  | true =>
    have hstring := parseJsonString_at hq
    simp only [Option.bind_eq_bind, Option.bind_some, if_true] at htail ⊢
    revert hstring
    rcases Portal.parseJsonString (Portal.skipWs s) with _ | ⟨k, u⟩
    · intro hstring
      simp only [andThen, show parseJsonString r q = some none from hstring]
      rfl
    · rintro ⟨p', hstring, hp'⟩
      obtain ⟨q', hskip', hq'⟩ := skipWs_at hp'
      simp only [andThen, hstring, Option.bind_eq_bind, Option.bind_some, hskip'] at htail ⊢
      revert hq'
      rcases Portal.skipWs u with _ | ⟨c, t⟩
      · intro hq'
        rw [hq'.expect_ne (by simp)]
        rfl
      · intro hq'
        by_cases hc : c = 0x3A
        · subst hc
          obtain ⟨p'', hcolon, hp''⟩ := hq'.expect
          rw [hcolon]
          exact htail hp''
        · rw [hq'.expect_ne (by simpa using hc)]
          split
          · rename_i heq
            exact absurd (List.cons.inj heq).1 hc
          · rfl

theorem skip_at (fuel : Nat) : (∀ {s : List UInt8} {p depth : Nat}, At r p s →
      Follows r (skipJsonValue r fuel depth p)
        ((Portal.skipJsonValue fuel depth s).map fun t => ((), t))) ∧
    ∀ {s : List UInt8} {p depth : Nat} {isObject : Bool}, At r p s →
      Follows r (skipMembers r fuel depth isObject p)
        ((Portal.skipMembers fuel depth isObject s).map fun t => ((), t)) := by
  induction fuel with
  | zero =>
    constructor
    · intro s p depth h
      rw [skipJsonValue, Portal.skipJsonValue]
      rfl
    · intro s p depth isObject h
      rw [skipMembers, Portal.skipMembers]
      rfl
  | succ fuel ih =>
    exact ⟨fun h => skipJsonValue_at h fun _ hp => ih.2 hp,
      fun h => skipMembers_at h (fun hp => ih.1 hp) fun hp => ih.2 hp⟩

/-- A value that is skipped, and what is noted for it. -/
theorem follows_skipped {α : Type} (h : At r p s) (a : α) :
    Follows r (andThen (skipJsonValue r fuel depth p) fun _ p => return some (a, p))
      ((Portal.skipJsonValue fuel depth s).map fun t => (a, t)) := by
  have hskip := @(skip_at fuel).1 s p depth h
  revert hskip
  rcases Portal.skipJsonValue fuel depth s with _ | t
  · intro hskip
    rw [show skipJsonValue r fuel depth p = some none from hskip]
    rfl
  · rintro ⟨q, hskip, hq⟩
    rw [hskip]
    exact Follows.pure hq

theorem parseMemberValue_at (h : At r p s) :
    Follows r (parseMemberValue r p) (Portal.parseMemberValue s) := by
  have hlen := h.length
  unfold parseMemberValue Portal.parseMemberValue
  rw [h.peek]
  split
  · rfl
  · rw [Option.map_eq_bind]
    exact (parseJsonString_at h).andThen fun _ _ _ hp => Follows.pure hp
  · rw [hlen]
    exact follows_skipped h _
  · rw [hlen]
    exact follows_skipped h _
  · rename_i hnil hquote hbrace hbracket
    cases s with
    | nil => exact absurd rfl hnil
    | cons c s =>
      have h1 : c ≠ 0x22 := fun heq => hquote s (by rw [heq])
      have h2 : ¬(c = 0x7B ∨ c = 0x5B) := by
        rintro (rfl | rfl)
        · exact hbrace s rfl
        · exact hbracket s rfl
      obtain ⟨q, hspan, hq⟩ := span_at h fun c => isSpace c || c = 0x2C || c = 0x7D
      simp only [List.head?_cons, Option.bind_eq_bind, Option.bind_some, h1, h2, if_false, hspan,
        isWord_eq, parseNumberSpan_eq, decide_eq_true_eq]
      revert hq
      generalize (c :: s).takeWhile _ = w, (c :: s).dropWhile _ = t
      intro hq
      by_cases htrue : w = ascii "true"
      · rw [if_pos htrue, if_pos htrue]
        exact Follows.pure hq
      by_cases hfalse : w = ascii "false"
      · rw [if_neg htrue, if_neg htrue, if_pos hfalse, if_pos hfalse]
        exact Follows.pure hq
      by_cases hnull : w = ascii "null"
      · rw [if_neg htrue, if_neg htrue, if_neg hfalse, if_neg hfalse, if_pos hnull, if_pos hnull]
        exact Follows.pure hq
      rw [if_neg htrue, if_neg htrue, if_neg hfalse, if_neg hfalse, if_neg hnull, if_neg hnull]
      cases Portal.parseNumberSpan w false with
      | none => rfl
      | some x => exact Follows.pure hq

/-- What stands behind a member: the closing brace, or a comma and the next member. -/
theorem member_tail_at (ih : ∀ {found : JsonValue} {p : Nat} {s : List UInt8}, At r p s →
      Follows r (parseMembers r fuel found p) (Portal.parseMembers fuel found s))
    (found : JsonValue) (p : Nat) (v : List UInt8) (h : At r p v) :
    Follows r (do
      let p ← skipWs r p
      match ← peek r p with
      | none => return none
      | some c =>
        if c = 0x2C then parseMembers r fuel found (p + 1)
        else if c = 0x7D then return some (found, p + 1)
        else return none)
      (match Portal.skipWs v with
      | 0x2C :: rest => Portal.parseMembers fuel found rest
      | 0x7D :: rest => some (found, rest)
      | _ => none) := by
  obtain ⟨q, hskip, hq⟩ := skipWs_at h
  rw [hskip]
  simp only [Option.bind_eq_bind, Option.bind_some, hq.peek]
  revert hq
  rcases Portal.skipWs v with _ | ⟨c, rest⟩
  · exact fun _ => rfl
  intro hq
  by_cases hcomma : c = 0x2C
  · subst hcomma
    exact ih hq.next
  by_cases hbrace : c = 0x7D
  · subst hbrace
    exact Follows.pure hq.next
  · simp [hcomma, hbrace, Follows]

/-- The members of the body, turn by turn. -/
theorem parseMembers_at {fuel : Nat} {found : JsonValue} {r s : List UInt8} {p : Nat}
    (h : At r p s) :
    Follows r (parseMembers r fuel found p) (Portal.parseMembers fuel found s) := by
  induction fuel generalizing found p s with
  | zero => rfl
  | succ fuel ih =>
    obtain ⟨q, hskip, hq⟩ := skipWs_at h
    rw [parseMembers, Portal.parseMembers, hskip]
    refine (parseJsonString_at hq).andThen fun key p u hp => ?_
    obtain ⟨q, hskip, hq⟩ := skipWs_at hp
    simp only [hskip, Option.bind_eq_bind, Option.bind_some]
    revert hq
    rcases Portal.skipWs u with _ | ⟨c, t⟩
    · intro hq
      rw [hq.expect_ne (by simp)]
      rfl
    intro hq
    by_cases hcolon : c = 0x3A
    · subst hcolon
      obtain ⟨p', hexpect, hp'⟩ := hq.expect
      obtain ⟨q', hskip', hq'⟩ := skipWs_at hp'
      simp only [Option.bind_some, hexpect, andThen_some, hskip', hq'.peek,
        List.head?_eq_none_iff]
      show Follows r (if Portal.skipWs t = [] then _ else _)
        (if Portal.skipWs t = [] then _ else _)
      by_cases hnil : Portal.skipWs t = []
      · rw [if_pos hnil, if_pos hnil]
        rfl
      rw [if_neg hnil, if_neg hnil]
      cases isValueKey key with
      | true => exact (parseMemberValue_at hq').andThen (member_tail_at ih)
      | false =>
        rw [← hq'.length]
        exact (follows_skipped hq' found).andThen (member_tail_at ih)
    · rw [hq.expect_ne (by simpa using hcolon)]
      simp [hcolon, Follows]

/-- The body is read inside its bounds. -/
theorem parseJsonBody_eq (body : List UInt8) :
    parseJsonBody body = some (Portal.parseJsonBody body) := by
  obtain ⟨q, hskip, hq⟩ := skipWs_at (r := body) (p := 0) ⟨Nat.zero_le _, List.drop_zero⟩
  unfold parseJsonBody Portal.parseJsonBody
  simp only [hskip, Option.bind_eq_bind, Option.bind_some, hq.peek]
  revert hq
  rcases Portal.skipWs body with _ | ⟨c, s⟩
  · exact fun _ => rfl
  intro hq
  by_cases hbrace : c = 0x7B
  · subst hbrace
    obtain ⟨q', hskip', hq'⟩ := skipWs_at hq.next
    have htail : ∀ (found : JsonValue) (p : Nat) (rest : List UInt8), At body p rest →
        (do
          let p ← skipWs body p
          return if (← peek body p) = none then some (some found) else none) =
          some (if Portal.skipWs rest = [] then some (some found) else none) := by
      intro found p rest hp
      obtain ⟨q, hskip, hq⟩ := skipWs_at hp
      simp [hskip, hq.peek, List.head?_eq_none_iff]
    simp only [List.head?_cons, ne_eq, not_true, if_false, hskip', Option.bind_some, hq'.peek]
    by_cases hclose : (Portal.skipWs s).head? = some 0x7D
    · obtain ⟨rest, hrest⟩ := List.head?_eq_some_iff.mp hclose
      rw [hrest] at hq'
      rw [if_pos hclose, hrest]
      exact htail {} _ _ hq'.next
    · have hmembers := @parseMembers_at ((Portal.skipWs s).length + 1) {} _ _ _ hq'
      rw [if_neg hclose, ← hq'.length]
      split
      · rename_i heq
        exact absurd (by rw [heq]; rfl) hclose
      revert hmembers
      rcases Portal.parseMembers ((Portal.skipWs s).length + 1) {} (Portal.skipWs s) with
        _ | ⟨found, rest⟩
      · intro hmembers
        rw [show parseMembers body _ {} q' = some none from hmembers]
        rfl
      · rintro ⟨p, hmembers, hp⟩
        rw [hmembers]
        exact htail found p rest hp
  · simp [hbrace]

end EspCars.Portal.Loading
