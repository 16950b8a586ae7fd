import EspCars.Portal.Grammar

/-!
# The values of an action body

The words and values of JSON, and that `skip_json_value` skips just them: a value inside eight
containers at most. Its grammar has the words as a parameter, since the code is loose there: it
takes `true`, `false` and `null` in any case.
-/

namespace EspCars.Portal

open EspCars.Lib
open EspCars.Lib.Json (StringUnit)

/-! ## Words -/

/-- A value as a member named `value` gives it. -/
inductive Given
  | bool (b : Bool)
  | null
  | number (x : Binary64)
  | text (units : List StringUnit)
  | container
  /-- The value of another member. -/
  | other

/-- The words of JSON. -/
inductive ScalarWord : Given → List UInt8 → Prop
  | true : ScalarWord (.bool true) (ascii "true")
  | false : ScalarWord (.bool false) (ascii "false")
  | null : ScalarWord .null (ascii "null")
  | number {x : Binary64} {w : List UInt8} : Number w x → ScalarWord (.number x) w

/-- A word of the JSON grammar. -/
def StrictWord (w : List UInt8) : Prop := ∃ given, ScalarWord given w

/-- The words of a value that is skipped, in any case. -/
def LooseWord (w : List UInt8) : Prop :=
  w.map lower ∈ [ascii "true", ascii "false", ascii "null"] ∨ ∃ x, Number w x

variable {w s rest : List UInt8} {isObject : Bool} {n : Nat}

theorem ScalarWord.loose {given : Given} (h : ScalarWord given w) : LooseWord w := by
  cases h with
  | number hx => exact .inr ⟨_, hx⟩
  | true | false | null => exact .inl (by decide)

/-- The bytes of numbers. -/
def isNumberByte (c : UInt8) : Bool :=
  isDigit c || c = 0x2B || c = 0x2D || c = 0x2E || c = 0x65 || c = 0x45

/-- The bytes of words. -/
def isWordByte (c : UInt8) : Bool := isNumberByte c || 0x61 ≤ lower c && lower c ≤ 0x7A

/-- What ends a word, and what begins another kind of value. -/
def isMark (c : UInt8) : Bool :=
  isSpace c || c = 0x2C || c = 0x7D || c = 0x5D || c = 0x22 || c = 0x7B || c = 0x5B

theorem isMark_of_isWordByte {c : UInt8} (h : isWordByte c = true) : isMark c = false := by
  rw [Bool.eq_false_iff]
  intro hmark
  simp only [isMark, isSpace, Bool.or_eq_true, decide_eq_true_iff, or_assoc] at hmark
  rcases hmark with rfl | rfl | rfl | rfl | rfl | rfl | rfl | rfl | rfl | rfl <;>
    exact absurd h (by decide)

theorem Number.bytes {x : Binary64} (h : Number w x) : w ≠ [] ∧ ∀ c ∈ w, isNumberByte c = true := by
  have hdigit {s : List UInt8} (hs : Digits s) : ∀ c ∈ s, isNumberByte c = true := by
    intro c hc
    simp [isNumberByte, hs.2 c hc]
  obtain ⟨negative, hint, -, hfrac, hexp⟩ := h
  rename_i int frac point exp e
  constructor
  · simp [hint.1]
  · intro c hc
    rcases List.mem_append.mp hc with hc | hc
    · cases negative with
      | true =>
        rw [List.mem_singleton.mp hc]
        decide
      | false => cases hc
    rcases List.mem_append.mp hc with hc | hc
    · exact hdigit hint c hc
    rcases List.mem_append.mp hc with hc | hc
    · cases hfrac with
      | none => cases hc
      | some hd =>
        rcases List.mem_cons.mp hc with rfl | hc
        · decide
        · exact hdigit hd c hc
    · cases hexp with
      | none => cases hc
      | plain he hd =>
        rcases List.mem_cons.mp hc with rfl | hc
        · rcases he with rfl | rfl <;> decide
        · exact hdigit hd c hc
      | plus he hd | minus he hd =>
        rcases List.mem_cons.mp hc with rfl | hc
        · rcases he with rfl | rfl <;> decide
        rcases List.mem_cons.mp hc with rfl | hc
        · decide
        · exact hdigit hd c hc

theorem LooseWord.wordBytes (h : LooseWord w) : w ≠ [] ∧ ∀ c ∈ w, isWordByte c = true := by
  rcases h with h | ⟨x, hx⟩
  · have hne : w.map lower ≠ [] := by
      intro hnil
      rw [hnil] at h
      revert h
      decide
    refine ⟨fun hnil => hne (by rw [hnil]; rfl), ?_⟩
    intro c hc
    have hmem : lower c ∈ w.map lower := List.mem_map_of_mem hc
    have hletter : ∀ word ∈ [ascii "true", ascii "false", ascii "null"],
        ∀ d ∈ word, 0x61 ≤ d ∧ d ≤ 0x7A := by simp [ascii]
    have hbounds := hletter _ h _ hmem
    simp [isWordByte, hbounds.1, hbounds.2]
  · exact ⟨hx.bytes.1, fun c hc => by simp [isWordByte, hx.bytes.2 c hc]⟩

theorem looseWord_iff : LooseWord w ↔ (equalsCi w "true" ||
    equalsCi w "false" || equalsCi w "null" || (parseNumberSpan w false).isSome) = true := by
  simp [LooseWord, equalsCi, Option.isSome_iff_exists, parseNumberSpan_iff, or_assoc]

/-- How a word begins. -/
theorem LooseWord.head (h : LooseWord w) :
    ∃ c w', w = c :: w' ∧ isSpace c = false ∧ c ≠ 0x5D ∧ c ≠ 0x22 ∧ c ≠ 0x7B ∧ c ≠ 0x5B := by
  obtain ⟨hne, hbytes⟩ := h.wordBytes
  obtain ⟨c, w, rfl⟩ := List.exists_cons_of_ne_nil hne
  have hmark := isMark_of_isWordByte (hbytes c List.mem_cons_self)
  simp only [isMark, Bool.or_eq_false_iff, decide_eq_false_iff_not] at hmark
  obtain ⟨⟨⟨⟨⟨⟨hspace, -⟩, -⟩, hclose⟩, hquote⟩, hbrace⟩, hopen⟩ := hmark
  exact ⟨c, w, rfl, hspace, hclose, hquote, hbrace, hopen⟩

/-- A word up to the first byte that ends it. -/
theorem LooseWord.span {w rest : List UInt8} (h : LooseWord w) {p : UInt8 → Bool}
    (hp : ∀ c, isMark c = false → p c = false) (hrest : ∀ c ∈ rest.head?, p c = true) :
    (w ++ rest).takeWhile (fun c => !p c) = w ∧ (w ++ rest).dropWhile (fun c => !p c) = rest := by
  have hw : ∀ c ∈ w, (!p c) = true := by
    intro c hc
    rw [hp c (isMark_of_isWordByte (h.wordBytes.2 c hc))]
    rfl
  rw [List.takeWhile_append_of_pos hw, List.dropWhile_append_of_pos hw]
  cases rest with
  | nil => simp
  | cons c rest => simp [hrest c rfl]

/-! ## Values -/

/-- What a member of an object has in front of its value: its key and the colon. -/
def Key (units : List StringUnit) (s rest : List UInt8) : Prop :=
  ∃ t u, Blank s (0x22 :: t) ∧ Text t units u ∧ Blank u (0x3A :: rest)

def Label (isObject : Bool) (s rest : List UInt8) : Prop :=
  if isObject then ∃ units, Key units s rest else s = rest

def openBracket (isObject : Bool) : UInt8 := if isObject then 0x7B else 0x5B

def closeBracket (isObject : Bool) : UInt8 := if isObject then 0x7D else 0x5D

/-- What the parser is in the middle of. -/
inductive Form
  | value
  /-- The members of an object or the elements of an array, and the closing bracket. -/
  | items (isObject : Bool)

/-- Such a form, nested in `n` containers at most, and what follows it. -/
inductive Written (word : List UInt8 → Prop) : Form → Nat → List UInt8 → List UInt8 → Prop
  | string {n : Nat} {s rest : List UInt8} {units : List StringUnit} : Text s units rest →
      Written word .value n (0x22 :: s) rest
  | word {n : Nat} {w s rest : List UInt8} : word w → s = w ++ rest → Written word .value n s rest
  | empty {n : Nat} (isObject : Bool) {s rest : List UInt8} :
      Blank s (closeBracket isObject :: rest) →
      Written word .value n (openBracket isObject :: s) rest
  | filled {n : Nat} {isObject : Bool} {s rest : List UInt8} :
      Written word (.items isObject) n s rest →
      Written word .value (n + 1) (openBracket isObject :: s) rest
  | last {n : Nat} {isObject : Bool} {s t u v rest : List UInt8} : Label isObject s t →
      Blank t u → Written word .value n u v → Blank v (closeBracket isObject :: rest) →
      Written word (.items isObject) n s rest
  | more {n : Nat} {isObject : Bool} {s t u v s' rest : List UInt8} : Label isObject s t →
      Blank t u → Written word .value n u v → Blank v (0x2C :: s') →
      Written word (.items isObject) n s' rest → Written word (.items isObject) n s rest

/-! ## Skipping a value -/

def isWordEnd (c : UInt8) : Bool := isSpace c || c = 0x2C || c = 0x7D || c = 0x5D

theorem not_isWordEnd (c : UInt8) (h : isMark c = false) : isWordEnd c = false := by
  simp only [isMark, Bool.or_eq_false_iff, decide_eq_false_iff_not] at h
  simp [isWordEnd, h]

theorem isWordEnd_of_isSpace (c : UInt8) (h : isSpace c = true) : isWordEnd c = true := by
  simp [isWordEnd, h]

/-- A word can end here. -/
def WordEnd (rest : List UInt8) : Prop := ∀ c ∈ rest.head?, isWordEnd c = true

/-- A closing brace, or what is in front of it. -/
theorem match_brace {α : Type} (s : List UInt8) (closed items : List UInt8 → α) :
    (match s with
      | 0x7D :: rest => closed rest
      | rest => items rest) = if s.head? = some 0x7D then closed s.tail else items s := by
  split
  · rfl
  · rename_i hne
    rw [if_neg]
    intro hhead
    obtain ⟨rest, hcons⟩ := List.head?_eq_some_iff.mp hhead
    exact hne rest hcons

theorem match_square {α : Type} (s : List UInt8) (closed items : List UInt8 → α) :
    (match s with
      | 0x5D :: rest => closed rest
      | rest => items rest) = if s.head? = some 0x5D then closed s.tail else items s := by
  split
  · rfl
  · rename_i hne
    rw [if_neg]
    intro hhead
    obtain ⟨rest, hcons⟩ := List.head?_eq_some_iff.mp hhead
    exact hne rest hcons

section

variable {fuel depth : Nat} {s t : List UInt8} (hdepth : depth ≤ 8)

include hdepth

theorem skipJsonValue_string (h : skipWs s = 0x22 :: t) :
    skipJsonValue (fuel + 1) depth s = (parseStringBody t).map Prod.snd := by
  rw [skipJsonValue, if_neg (by omega), h]
  rfl

theorem skipJsonValue_bracket {isObject : Bool} (h : skipWs s = openBracket isObject :: t) :
    skipJsonValue (fuel + 1) depth s =
      if (skipWs t).head? = some (closeBracket isObject) then some (skipWs t).tail
      else skipMembers fuel depth isObject (skipWs t) := by
  cases isObject with
  | true =>
    rw [skipJsonValue, if_neg (by omega), h]
    exact match_brace (skipWs t) some (skipMembers fuel depth true)
  | false =>
    rw [skipJsonValue, if_neg (by omega), h]
    exact match_square (skipWs t) some (skipMembers fuel depth false)

theorem skipJsonValue_word {c : UInt8} (h : skipWs s = c :: t)
    (hc : c ≠ 0x22 ∧ c ≠ 0x7B ∧ c ≠ 0x5B) {rest : List UInt8} :
    skipJsonValue (fuel + 1) depth s = some rest ↔
      LooseWord ((skipWs s).takeWhile fun c => !isWordEnd c) ∧
        (skipWs s).dropWhile (fun c => !isWordEnd c) = rest := by
  rw [skipJsonValue, if_neg (by omega), looseWord_iff, h]
  split
  · rename_i heq
    cases heq
  · rename_i heq
    exact absurd (List.cons.inj heq).1 hc.1
  · rename_i heq
    exact absurd (List.cons.inj heq).1 hc.2.1
  · rename_i heq
    exact absurd (List.cons.inj heq).1 hc.2.2
  · exact Option.ite_none_right_eq_some.trans (and_congr_right' Option.some_inj)

end

/-- The key and the colon behind it, as the code reads them. -/
theorem key_sound {u k : List UInt8} (h : parseJsonString (skipWs s) = some (k, u))
    (hcolon : skipWs u = 0x3A :: rest) : ∃ units, k = units.flatMap written ∧ Key units s rest := by
  unfold parseJsonString at h
  split at h
  · rename_i t hquote
    obtain ⟨units, htext, hk⟩ := parseStringBody_iff.mp h
    exact ⟨units, hk, t, u, (blank_iff (by decide)).mpr hquote, htext,
      (blank_iff (by decide)).mpr hcolon⟩
  · cases h

theorem Key.parse {units : List StringUnit} (h : Key units s rest) :
    ∃ u, parseJsonString (skipWs s) = some (units.flatMap written, u) ∧
      skipWs u = 0x3A :: rest := by
  obtain ⟨t, u, hquote, htext, hcolon⟩ := h
  refine ⟨u, ?_, (blank_iff (by decide)).mp hcolon⟩
  rw [(blank_iff (by decide)).mp hquote]
  exact parseStringBody_iff.mpr ⟨units, htext, rfl⟩

/-- What stands behind a value: the closing bracket, or a comma and the next value. -/
theorem next_item_iff {v : List UInt8} {more : List UInt8 → Option (List UInt8)} : (match v with
      | c :: rest =>
        if c = 0x2C then more rest
        else if c = if isObject then 0x7D else 0x5D then some rest
        else none
      | [] => none) = some rest ↔ v = closeBracket isObject :: rest ∨
        ∃ s', v = 0x2C :: s' ∧ more s' = some rest := by
  cases v with
  | nil => simp
  | cons c t =>
    have hne : (0x2C : UInt8) ≠ closeBracket isObject := by cases isObject <;> decide
    by_cases hcomma : c = 0x2C
    · subst hcomma
      simp [hne]
    · simp [hcomma, closeBracket]

/-- One turn of the loop in `skip_json_value`. -/
theorem skipMembers_iff {fuel depth : Nat} : skipMembers (fuel + 1) depth isObject s = some rest ↔
      ∃ t v, Label isObject s t ∧ skipJsonValue fuel (depth + 1) t = some v ∧
        (skipWs v = closeBracket isObject :: rest ∨
          ∃ s', skipWs v = 0x2C :: s' ∧ skipMembers fuel depth isObject s' = some rest) := by
  rw [skipMembers]
  cases isObject with
  | true =>
    constructor
    · intro h
      obtain ⟨⟨k, u⟩, hkey, h⟩ := Option.bind_eq_some_iff.mp h
      dsimp only at h
      split at h
      · rename_i t hcolon
        obtain ⟨_, ⟨⟩, h⟩ := Option.bind_eq_some_iff.mp h
        obtain ⟨v, hv, h⟩ := Option.bind_eq_some_iff.mp h
        obtain ⟨units, -, hlabel⟩ := key_sound hkey hcolon
        exact ⟨t, v, ⟨units, hlabel⟩, hv, next_item_iff.mp h⟩
      · cases h
    · rintro ⟨t, v, ⟨units, hlabel⟩, hv, h⟩
      obtain ⟨u, hkey, hcolon⟩ := hlabel.parse
      refine Option.bind_eq_some_iff.mpr ⟨_, hkey, ?_⟩
      dsimp only
      rw [hcolon]
      exact Option.bind_eq_some_iff.mpr
        ⟨t, rfl, Option.bind_eq_some_iff.mpr ⟨v, hv, next_item_iff.mpr h⟩⟩
  | false =>
    constructor
    · intro h
      obtain ⟨v, hv, h⟩ := Option.bind_eq_some_iff.mp h
      rw [skipJsonValue_skipWs] at hv
      exact ⟨s, v, rfl, hv, next_item_iff.mp h⟩
    · rintro ⟨t, v, hlabel, hv, h⟩
      obtain rfl : s = t := hlabel
      rw [← skipJsonValue_skipWs] at hv
      exact Option.bind_eq_some_iff.mpr ⟨v, hv, next_item_iff.mpr h⟩

/-- What the code skips is a value. -/
theorem skip_sound (fuel : Nat) :
    (∀ {depth : Nat} {s rest : List UInt8}, skipJsonValue fuel depth s = some rest →
      depth ≤ 8 ∧ Written LooseWord .value (8 - depth) (skipWs s) rest) ∧
    ∀ {depth : Nat} {isObject : Bool} {s rest : List UInt8},
      skipMembers fuel depth isObject s = some rest →
      depth + 1 ≤ 8 ∧ Written LooseWord (.items isObject) (8 - (depth + 1)) s rest := by
  induction fuel with
  | zero =>
    constructor
    · intro depth s rest h
      rw [skipJsonValue] at h
      cases h
    · intro depth isObject s rest h
      rw [skipMembers] at h
      cases h
  | succ fuel ih =>
    obtain ⟨ihValue, ihItems⟩ := ih
    constructor
    · intro depth s rest h
      have hdepth : depth ≤ 8 := by
        by_contra hdepth
        rw [skipJsonValue, if_pos (by omega)] at h
        cases h
      refine ⟨hdepth, ?_⟩
      cases hs : skipWs s with
      | nil =>
        rw [skipJsonValue, if_neg (by omega), hs] at h
        cases h
      | cons c t =>
        by_cases hquote : c = 0x22
        · subst hquote
          rw [skipJsonValue_string hdepth hs] at h
          obtain ⟨⟨d, v⟩, hbody, rfl⟩ := Option.map_eq_some_iff.mp h
          obtain ⟨units, htext, -⟩ := parseStringBody_iff.mp hbody
          exact .string htext
        by_cases hbracket : ∃ isObject, c = openBracket isObject
        · obtain ⟨isObject, rfl⟩ := hbracket
          rw [skipJsonValue_bracket hdepth hs] at h
          split_ifs at h with hempty
          · obtain ⟨v, hclose⟩ := List.head?_eq_some_iff.mp hempty
            have hblank := blank_skipWs t
            rw [hclose] at h hblank
            cases h
            exact .empty isObject hblank
          · rw [skipMembers_skipWs] at h
            obtain ⟨hlt, hitems⟩ := ihItems h
            have hfilled := Written.filled hitems
            rwa [show 8 - (depth + 1) + 1 = 8 - depth by omega] at hfilled
        · have hother : c ≠ 0x22 ∧ c ≠ 0x7B ∧ c ≠ 0x5B :=
            ⟨hquote, fun h => hbracket ⟨true, h⟩, fun h => hbracket ⟨false, h⟩⟩
          obtain ⟨hword, hrest⟩ := (skipJsonValue_word hdepth hs hother).mp h
          rw [← hs, ← hrest]
          exact .word hword (List.takeWhile_append_dropWhile ..).symm
    · intro depth isObject s rest h
      obtain ⟨t, v, hlabel, hvalue, hnext⟩ := skipMembers_iff.mp h
      obtain ⟨hdepth, hwritten⟩ := ihValue hvalue
      refine ⟨hdepth, ?_⟩
      rcases hnext with hclose | ⟨s', hcomma, hitems⟩
      · refine .last hlabel (blank_skipWs t) hwritten ?_
        rw [← hclose]
        exact blank_skipWs v
      · refine .more hlabel (blank_skipWs t) hwritten ?_ (ihItems hitems).2
        rw [← hcomma]
        exact blank_skipWs v

theorem Text.length_lt {units : List StringUnit} (h : Text s units rest) :
    rest.length < s.length := by
  induction h with
  | close => simp
  | plain _ _ _ _ ih => simp; omega
  | escape _ _ ih => simp; omega
  | code _ _ ih => simp; omega

theorem Label.length_le {isObject : Bool} {s rest : List UInt8} (h : Label isObject s rest) :
    rest.length ≤ s.length := by
  cases isObject with
  | true =>
    obtain ⟨units, t, u, hquote, htext, hcolon⟩ := h
    have h1 := hquote.length_le
    have h2 := htext.length_lt
    have h3 := hcolon.length_le
    simp only [List.length_cons] at h1 h3
    omega
  | false => exact Nat.le_of_eq (congrArg List.length (Eq.symm h))

theorem Written.length_lt {form : Form}
    (h : Written LooseWord form n s rest) : rest.length < s.length := by
  induction h with
  | string htext =>
    have hlt := htext.length_lt
    simp only [List.length_cons]
    omega
  | word hword heq =>
    have hpos := List.length_pos_iff.mpr hword.wordBytes.1
    rw [heq, List.length_append]
    omega
  | empty isObject hclose =>
    have hle := hclose.length_le
    simp only [List.length_cons] at hle ⊢
    omega
  | filled _ ih =>
    simp only [List.length_cons]
    omega
  | last hlabel hblank _ hclose ih =>
    have h1 := hlabel.length_le
    have h2 := hblank.length_le
    have h3 := hclose.length_le
    simp only [List.length_cons] at h3
    omega
  | more hlabel hblank _ hcomma _ ih ih' =>
    have h1 := hlabel.length_le
    have h2 := hblank.length_le
    have h3 := hcomma.length_le
    simp only [List.length_cons] at h3
    omega

/-- How a value begins. -/
theorem Written.head (h : Written LooseWord .value n s rest) :
    ∃ c t, s = c :: t ∧ isSpace c = false ∧ c ≠ 0x5D := by
  cases h with
  | string htext => exact ⟨_, _, rfl, by decide, by decide⟩
  | word hword heq =>
    obtain ⟨c, w, rfl, hspace, hne, -⟩ := hword.head
    exact ⟨c, _, heq, hspace, hne⟩
  | empty isObject | @filled _ isObject =>
    refine ⟨_, _, rfl, ?_⟩
    cases isObject <;> decide

/-- What is in a container does not begin with its closing bracket. -/
theorem not_closeBracket {t u v : List UInt8}
    (hlabel : Label isObject s t) (hblank : Blank t u) (hvalue : Written LooseWord .value n u v) :
    (skipWs s).head? ≠ some (closeBracket isObject) := by
  cases isObject with
  | true =>
    obtain ⟨units, k, w, hquote, -⟩ := hlabel
    rw [(blank_iff (by decide)).mp hquote]
    simp [closeBracket]
  | false =>
    obtain rfl : s = t := hlabel
    obtain ⟨c, w, rfl, hspace, hne⟩ := hvalue.head
    rw [(blank_iff hspace).mp hblank]
    simpa [closeBracket] using hne

/-- What a form needs for the code to read it. -/
def Reads : Form → Nat → List UInt8 → List UInt8 → Prop
  | .value, n, t, rest => ∀ fuel depth s, Blank s t → t.length ≤ fuel + rest.length →
      depth + n ≤ 8 → WordEnd rest → skipJsonValue fuel depth s = some rest
  | .items isObject, n, s, rest => (skipWs s).head? ≠ some (closeBracket isObject) ∧
      ∀ fuel depth, s.length ≤ fuel + rest.length → depth + n < 8 →
        skipMembers fuel depth isObject s = some rest

theorem exists_succ {fuel a b : Nat} (hlt : b < a) (hfuel : a ≤ fuel + b) : ∃ f, fuel = f + 1 :=
  Nat.exists_eq_add_one.mpr (by omega)

theorem closeBracket_wordEnd (isObject : Bool) : isWordEnd (closeBracket isObject) = true := by
  cases isObject <;> decide

theorem isSpace_closeBracket (isObject : Bool) : isSpace (closeBracket isObject) = false := by
  cases isObject <;> decide

/-- A value is skipped. -/
theorem Written.reads {form : Form}
    (h : Written LooseWord form n s rest) : Reads form n s rest := by
  induction h with
  | @string n t rest units htext =>
    intro fuel depth s hblank hfuel hdepth _
    obtain ⟨fuel, rfl⟩ := exists_succ (Written.string (n := n) htext).length_lt hfuel
    rw [skipJsonValue_string (by omega) ((blank_iff (by decide)).mp hblank),
      parseStringBody_iff.mpr ⟨units, htext, rfl⟩]
    rfl
  | @word n w t rest hword heq =>
    intro fuel depth s hblank hfuel hdepth hend
    obtain ⟨fuel, rfl⟩ := exists_succ (Written.word (n := n) hword heq).length_lt hfuel
    have hspan := hword.span not_isWordEnd hend
    obtain ⟨c, w', rfl, hspace, -, hquote, hbrace, hopen⟩ := hword.head
    subst heq
    have hs := (blank_iff hspace).mp hblank
    rw [skipJsonValue_word (by omega) hs ⟨hquote, hbrace, hopen⟩, hs]
    exact ⟨hspan.1.symm ▸ hword, hspan.2⟩
  | @empty n isObject t rest hclose =>
    intro fuel depth s hblank hfuel hdepth _
    obtain ⟨fuel, rfl⟩ :=
      exists_succ (@Written.empty LooseWord n isObject _ _ hclose).length_lt hfuel
    have hs := (blank_iff (by cases isObject <;> decide)).mp hblank
    rw [skipJsonValue_bracket (by omega) hs, (blank_iff (isSpace_closeBracket _)).mp hclose]
    exact if_pos rfl
  | @filled n isObject t rest hitems ih =>
    intro fuel depth s hblank hfuel hdepth _
    obtain ⟨fuel, rfl⟩ := exists_succ (Written.filled hitems).length_lt hfuel
    have hs := (blank_iff (by cases isObject <;> decide)).mp hblank
    rw [skipJsonValue_bracket (by omega) hs, if_neg ih.1, skipMembers_skipWs]
    rw [List.length_cons] at hfuel
    exact ih.2 fuel depth (by omega) (by omega)
  | @last n isObject s t u v rest hlabel hblank hvalue hclose ih =>
    refine ⟨not_closeBracket hlabel hblank hvalue, fun fuel depth hfuel hdepth => ?_⟩
    obtain ⟨fuel, rfl⟩ := exists_succ (Written.last hlabel hblank hvalue hclose).length_lt hfuel
    have hlength := (List.length_cons ▸ hclose.length_le : rest.length + 1 ≤ v.length)
    have hs := hlabel.length_le
    have ht := hblank.length_le
    have hskip := ih fuel (depth + 1) t hblank (by omega) (by omega)
      (hclose.head isWordEnd_of_isSpace (closeBracket_wordEnd _))
    exact skipMembers_iff.mpr
      ⟨t, v, hlabel, hskip, .inl ((blank_iff (isSpace_closeBracket _)).mp hclose)⟩
  | @more n isObject s t u v s' rest hlabel hblank hvalue hcomma hitems ih ih' =>
    refine ⟨not_closeBracket hlabel hblank hvalue, fun fuel depth hfuel hdepth => ?_⟩
    obtain ⟨fuel, rfl⟩ :=
      exists_succ (Written.more hlabel hblank hvalue hcomma hitems).length_lt hfuel
    have hlength := (List.length_cons ▸ hcomma.length_le : s'.length + 1 ≤ v.length)
    have hs := hlabel.length_le
    have ht := hblank.length_le
    have hv := hvalue.length_lt
    have hskip := ih fuel (depth + 1) t hblank (by have := hitems.length_lt; omega) (by omega)
      (hcomma.head isWordEnd_of_isSpace (by decide))
    have hnext := ih'.2 fuel depth (by omega) (by omega)
    exact skipMembers_iff.mpr
      ⟨t, v, hlabel, hskip, .inr ⟨s', (blank_iff (by decide)).mp hcomma, hnext⟩⟩

end EspCars.Portal
