import EspCars.Portal.Actions
import EspCars.Portal.BodyLoads

/-!
# What an action accepts

The objects of JSON, and `parse_json_body` on them. An action accepts a body exactly if that is an
object whose last `value` fits the action, and reads nothing outside the body.
-/

namespace EspCars.Portal

open EspCars.Lib
open EspCars.Lib.Json (StringUnit encodeUnits)

/-! ## Objects -/

def named (units : List StringUnit) : Bool := encodeUnits units = ascii "value"

/-- The value of a member that is named `value`, or is not. -/
inductive MemberValue (word : List UInt8 → Prop) : Bool → Given → List UInt8 → List UInt8 → Prop
  | word {given : Given} {w s rest : List UInt8} : ScalarWord given w → s = w ++ rest →
      MemberValue word true given s rest
  | text {units : List StringUnit} {s rest : List UInt8} : Text s units rest →
      MemberValue word true (.text units) (0x22 :: s) rest
  | container {isObject : Bool} {s rest : List UInt8} :
      Written word .value 8 (openBracket isObject :: s) rest →
      MemberValue word true .container (openBracket isObject :: s) rest
  | other {s rest : List UInt8} : Written word .value 8 s rest →
      MemberValue word false .other s rest

/-- The members of an object and the closing brace. -/
inductive Members (word : List UInt8 → Prop) :
    List (List StringUnit × Given) → List UInt8 → List UInt8 → Prop
  | last {units : List StringUnit} {given : Given} {s t u v rest : List UInt8} : Key units s t →
      Blank t u → MemberValue word (named units) given u v → Blank v (0x7D :: rest) →
      Members word [(units, given)] s rest
  | more {units : List StringUnit} {given : Given} {ms : List (List StringUnit × Given)}
      {s t u v s' rest : List UInt8} : Key units s t → Blank t u →
      MemberValue word (named units) given u v → Blank v (0x2C :: s') → Members word ms s' rest →
      Members word ((units, given) :: ms) s rest

/-- A text that is an object with these members. -/
def Object (word : List UInt8 → Prop) (ms : List (List StringUnit × Given)) (body : List UInt8) :
    Prop :=
  ∃ s rest, Blank body (0x7B :: s) ∧ (Blank s (0x7D :: rest) ∧ ms = [] ∨ Members word ms s rest) ∧
    Blank rest []

/-- The last member named `value`. -/
def lastValue (ms : List (List StringUnit × Given)) : Option Given :=
  ((ms.filter fun m => named m.1).getLast?).map Prod.snd

/-- A value as the parser notes it. -/
def Given.json : Given → JsonValue
  | .bool b => { kind := .bool, boolean := b }
  | .null => { kind := .nullValue }
  | .number x => { kind := .number, number := x }
  | .text units =>
    { kind := .text
      text := (units.flatMap written).take (actionTextMax - 1)
      truncated := actionTextMax - 1 < (units.flatMap written).length }
  | .container => { kind := .other }
  | .other => {}

variable {w rest v s body : List UInt8} {given : Given} {found' found : JsonValue} {fuel : Nat}
  {units : List StringUnit} {ms : List (List StringUnit × Given)} {word : List UInt8 → Prop}

theorem scalarWord_of_parse {jv : JsonValue}
    (h : (if w = ascii "true" then some (({ kind := .bool, boolean := true } : JsonValue), v)
      else if w = ascii "false" then some ({ kind := .bool }, v)
      else if w = ascii "null" then some ({ kind := .nullValue }, v)
      else (parseNumberSpan w false).map fun x => ({ kind := .number, number := x }, v)) =
        some (jv, rest)) : rest = v ∧ ∃ given, ScalarWord given w := by
  split_ifs at h with htrue hfalse hnull
  · subst htrue
    cases h
    exact ⟨rfl, _, .true⟩
  · subst hfalse
    cases h
    exact ⟨rfl, _, .false⟩
  · subst hnull
    cases h
    exact ⟨rfl, _, .null⟩
  · obtain ⟨x, hx, heq⟩ := Option.map_eq_some_iff.mp h
    cases heq
    exact ⟨rfl, _, .number (parseNumberSpan_iff.mp hx)⟩

theorem parseMemberValue_sound {jv : JsonValue} (h : parseMemberValue s = some (jv, rest)) :
    ∃ given, MemberValue LooseWord true given s rest := by
  unfold parseMemberValue at h
  split at h
  · cases h
  · obtain ⟨⟨d, v⟩, hbody, heq⟩ := Option.map_eq_some_iff.mp h
    cases heq
    obtain ⟨units, htext, -⟩ := parseStringBody_iff.mp hbody
    exact ⟨_, .text htext⟩
  · obtain ⟨v, hskip, heq⟩ := Option.map_eq_some_iff.mp h
    cases heq
    have hvalue := ((skip_sound _).1 hskip).2
    rw [skipWs_cons (by decide)] at hvalue
    exact ⟨_, @MemberValue.container _ true _ _ hvalue⟩
  · obtain ⟨v, hskip, heq⟩ := Option.map_eq_some_iff.mp h
    cases heq
    have hvalue := ((skip_sound _).1 hskip).2
    rw [skipWs_cons (by decide)] at hvalue
    exact ⟨_, @MemberValue.container _ false _ _ hvalue⟩
  · obtain ⟨rfl, given, hword⟩ := scalarWord_of_parse h
    exact ⟨given, .word hword (List.takeWhile_append_dropWhile ..).symm⟩

/-- Where the value of a member named `value` can be, any other value can. -/
theorem MemberValue.written {b : Bool}
    (h : MemberValue LooseWord b given s rest) : Written LooseWord .value 8 s rest := by
  cases h with
  | word hword heq => exact .word hword.loose heq
  | text htext => exact .string htext
  | container hvalue | other hvalue => exact hvalue

/-- What the parser does with the value of a member. -/
def ValueStep (isValue : Bool) (found f : JsonValue) (s rest : List UInt8) : Prop :=
  if isValue then parseMemberValue s = some (f, rest)
  else f = found ∧ skipJsonValue (2 * s.length + 1) 0 s = some rest

/-- What stands behind a member: the closing brace, or a comma and the next member. -/
theorem next_member_iff {f : JsonValue} {more : List UInt8 → Option (JsonValue × List UInt8)} :
    (match v with
      | 0x2C :: rest => more rest
      | 0x7D :: rest => some (f, rest)
      | _ => none) = some (found', rest) ↔ v = 0x7D :: rest ∧ f = found' ∨
        ∃ s', v = 0x2C :: s' ∧ more s' = some (found', rest) := by
  split
  · simp
  · simp [and_comm]
  · rename_i hcomma hbrace
    refine iff_of_false nofun ?_
    rintro (⟨heq, -⟩ | ⟨s', heq, -⟩)
    · exact hbrace _ heq
    · exact hcomma _ heq

/-- One turn of the loop in `parse_json_body`. -/
theorem parseMembers_iff : parseMembers (fuel + 1) found s = some (found', rest) ↔
      ∃ k u t v f, parseJsonString (skipWs s) = some (k, u) ∧ skipWs u = 0x3A :: t ∧
        skipWs t ≠ [] ∧ ValueStep (isValueKey k) found f (skipWs t) v ∧
        (skipWs v = 0x7D :: rest ∧ f = found' ∨
          ∃ s', skipWs v = 0x2C :: s' ∧ parseMembers fuel f s' = some (found', rest)) := by
  rw [parseMembers]
  constructor
  · intro h
    obtain ⟨⟨k, u⟩, hkey, h⟩ := Option.bind_eq_some_iff.mp h
    dsimp only at h
    split at h
    · rename_i t hcolon
      obtain ⟨_, ⟨⟩, h⟩ := Option.bind_eq_some_iff.mp h
      by_cases hnil : skipWs t = []
      · rw [if_pos hnil] at h
        cases h
      rw [if_neg hnil] at h
      cases hvalue : isValueKey k with
      | true =>
        rw [hvalue, if_pos rfl] at h
        obtain ⟨⟨f, v⟩, hparse, h⟩ := Option.bind_eq_some_iff.mp h
        exact ⟨k, u, t, v, f, hkey, hcolon, hnil, hvalue ▸ hparse, next_member_iff.mp h⟩
      | false =>
        rw [hvalue, if_neg Bool.false_ne_true] at h
        obtain ⟨⟨f, v⟩, hskip, h⟩ := Option.bind_eq_some_iff.mp h
        obtain ⟨_, hskip, heq⟩ := Option.map_eq_some_iff.mp hskip
        cases heq
        exact ⟨k, u, t, v, found, hkey, hcolon, hnil, hvalue ▸ ⟨rfl, hskip⟩, next_member_iff.mp h⟩
    · cases h
  · rintro ⟨k, u, t, v, f, hkey, hcolon, hnil, hvalue, h⟩
    refine Option.bind_eq_some_iff.mpr ⟨_, hkey, ?_⟩
    dsimp only
    rw [hcolon]
    refine Option.bind_eq_some_iff.mpr ⟨_, rfl, ?_⟩
    rw [if_neg hnil]
    cases hk : isValueKey k with
    | true =>
      rw [hk] at hvalue
      rw [if_pos rfl]
      exact Option.bind_eq_some_iff.mpr ⟨_, hvalue, next_member_iff.mpr h⟩
    | false =>
      rw [hk] at hvalue
      obtain ⟨heq, hskip⟩ := hvalue
      rw [heq] at h
      rw [if_neg Bool.false_ne_true, hskip]
      exact next_member_iff.mpr h

/-- What the parser takes for the members of an object are members. -/
theorem parseMembers_sound
    (h : parseMembers fuel found s = some (found', rest)) : ∃ ms, Members LooseWord ms s rest := by
  induction fuel generalizing found s with
  | zero => cases h
  | succ fuel ih =>
    obtain ⟨k, u, t, v, f, hparse, hcolon, -, hvalue, hnext⟩ := parseMembers_iff.mp h
    obtain ⟨units, rfl, hkey⟩ := key_sound hparse hcolon
    have hgiven : ∃ given, MemberValue LooseWord (named units) given (skipWs t) v := by
      cases hnamed : named units with
      | true =>
        have hk : isValueKey (units.flatMap written) = true := by
          obtain ⟨_, _, -, htext, -⟩ := hkey
          exact isValueKey_of_encodeUnits htext (of_decide_eq_true hnamed)
        rw [hk] at hvalue
        exact parseMemberValue_sound hvalue
      | false =>
        unfold ValueStep at hvalue
        split_ifs at hvalue
        · obtain ⟨given, hmember⟩ := parseMemberValue_sound hvalue
          exact ⟨_, .other hmember.written⟩
        · have hwritten := ((skip_sound _).1 hvalue.2).2
          rw [skipWs_skipWs] at hwritten
          exact ⟨_, .other hwritten⟩
    obtain ⟨given, hgiven⟩ := hgiven
    rcases hnext with ⟨hclose, -⟩ | ⟨s', hcomma, hrest⟩
    · exact ⟨_, .last hkey (blank_skipWs t) hgiven ((blank_iff (by decide)).mpr hclose)⟩
    · obtain ⟨ms, hms⟩ := ih hrest
      exact ⟨_, .more hkey (blank_skipWs t) hgiven ((blank_iff (by decide)).mpr hcomma) hms⟩

def isMemberEnd (c : UInt8) : Bool := isSpace c || c = 0x2C || c = 0x7D

theorem not_isMemberEnd (c : UInt8) (h : isMark c = false) : isMemberEnd c = false := by
  simp only [isMark, Bool.or_eq_false_iff, decide_eq_false_iff_not] at h
  simp [isMemberEnd, h]

theorem isMemberEnd_of_isSpace (c : UInt8) (h : isSpace c = true) : isMemberEnd c = true := by
  simp [isMemberEnd, h]

theorem wordEnd_of_memberEnd (h : ∀ c ∈ rest.head?, isMemberEnd c = true) : WordEnd rest := by
  intro c hc
  have hc := h c hc
  simp only [isMemberEnd, isWordEnd, Bool.or_eq_true] at hc ⊢
  exact .inl hc

/-- A word of JSON is taken for what it says. -/
theorem ScalarWord.parse {r : List UInt8} (h : ScalarWord given w) (hw : v = w) (hr : r = rest) :
    (if v = ascii "true" then some (({ kind := .bool, boolean := Bool.true } : JsonValue), r)
      else if v = ascii "false" then some ({ kind := .bool }, r)
      else if v = ascii "null" then some ({ kind := .nullValue }, r)
      else (parseNumberSpan v Bool.false).map fun x => ({ kind := .number, number := x }, r)) =
        some (given.json, rest) := by
  subst hw hr
  cases h with
  | true => rfl
  | false => rfl
  | null => rfl
  | number hx =>
    have hparse := parseNumberSpan_iff.mpr hx
    have hne : ∀ word ∈ [ascii "true", ascii "false", ascii "null"], v ≠ word := by
      rintro word hword rfl
      have hnone : ∀ word ∈ [ascii "true", ascii "false", ascii "null"],
          parseNumberSpan word Bool.false = none := by decide
      rw [hnone v hword] at hparse
      cases hparse
    rw [if_neg (hne _ (by simp)), if_neg (hne _ (by simp)), if_neg (hne _ (by simp)), hparse]
    rfl

/-- A value of a member is read for what it is. -/
theorem MemberValue.parse (h : MemberValue LooseWord true given s rest)
    (hend : ∀ c ∈ rest.head?, isMemberEnd c = true) :
    parseMemberValue s = some (given.json, rest) := by
  cases h with
  | @word _ w _ _ hword heq =>
    have hspan := hword.loose.span not_isMemberEnd hend
    obtain ⟨c, w', rfl, -, -, hquote, hbrace, hopen⟩ := hword.loose.head
    subst heq
    unfold parseMemberValue
    split
    · rename_i heq
      cases heq
    · rename_i heq
      exact absurd (List.cons.inj heq).1 hquote
    · rename_i heq
      exact absurd (List.cons.inj heq).1 hbrace
    · rename_i heq
      exact absurd (List.cons.inj heq).1 hopen
    · exact hword.parse hspan.1 hspan.2
  | text htext =>
    exact Option.map_eq_some_iff.mpr ⟨_, parseStringBody_iff.mpr ⟨_, htext, rfl⟩, rfl⟩
  | @container isObject t _ hvalue =>
    have hskip : skipJsonValue (2 * (openBracket isObject :: t).length + 1) 0
        (openBracket isObject :: t) = some rest :=
      hvalue.reads _ 0 _ (Blank.refl _) (by omega) (by omega) (wordEnd_of_memberEnd hend)
    cases isObject with
    | true => exact Option.map_eq_some_iff.mpr ⟨_, hskip, rfl⟩
    | false => exact Option.map_eq_some_iff.mpr ⟨_, hskip, rfl⟩

/-- Without an escaped NUL a key is `value` to the code exactly if it is. -/
theorem Key.isValueKey_eq (h : Key units s rest)
    (hnul : .code 0 ∉ units) : isValueKey (units.flatMap written) = named units := by
  obtain ⟨_, _, -, htext, -⟩ := h
  rw [Bool.eq_iff_iff, named, decide_eq_true_iff]
  exact ⟨encodeUnits_of_isValueKey htext hnul, isValueKey_of_encodeUnits htext⟩

theorem MemberValue.step {b : Bool} {given : Given} {t u v : List UInt8} (hblank : Blank t u)
    (h : MemberValue LooseWord b given u v) (hend : ∀ c ∈ v.head?, isMemberEnd c = true)
    (found : JsonValue) :
    skipWs t ≠ [] ∧ ValueStep b found (if b then given.json else found) (skipWs t) v := by
  obtain ⟨c, w, rfl, hspace, -⟩ := h.written.head
  rw [(blank_iff hspace).mp hblank]
  refine ⟨List.cons_ne_nil _ _, ?_⟩
  cases b with
  | true => exact h.parse hend
  | false =>
    exact ⟨rfl, h.written.reads _ 0 _ (Blank.refl _) (by omega) (by omega)
      (wordEnd_of_memberEnd hend)⟩

theorem lastValue_cons (m : List StringUnit × Given) (ms : List (List StringUnit × Given)) :
    lastValue (m :: ms) = (lastValue ms).or (if named m.1 then some m.2 else none) := by
  unfold lastValue
  cases hm : named m.1 with
  | true =>
    rw [List.filter_cons, if_pos hm, List.getLast?_cons]
    cases (ms.filter fun m => named m.1).getLast? <;> rfl
  | false =>
    rw [List.filter_cons, if_neg (by simp [hm])]
    simp

/-- One turn of the loop, read forwards. -/
theorem parseMembers_turn {t u : List UInt8} (hkey : Key units s t) (hnul : .code 0 ∉ units)
    (hblank : Blank t u) (hvalue : MemberValue LooseWord (named units) given u v)
    (hend : ∀ c ∈ v.head?, isMemberEnd c = true)
    (h : skipWs v = 0x7D :: rest ∧ (if named units then given.json else found) = found' ∨
      ∃ s', skipWs v = 0x2C :: s' ∧
        parseMembers fuel (if named units then given.json else found) s' = some (found', rest)) :
    parseMembers (fuel + 1) found s = some (found', rest) := by
  obtain ⟨w, hparse, hcolon⟩ := hkey.parse
  obtain ⟨hne, hstep⟩ := hvalue.step hblank hend found
  refine parseMembers_iff.mpr ⟨_, w, t, v, _, hparse, hcolon, hne, ?_, h⟩
  rwa [hkey.isValueKey_eq hnul]

/-- Members are read, and the last that is named `value` is what is found. -/
theorem Members.parse (h : Members LooseWord ms s rest) (hnul : ∀ m ∈ ms, .code 0 ∉ m.1)
    (hfuel : s.length ≤ fuel) (found : JsonValue) :
    parseMembers fuel found s = some (((lastValue ms).map Given.json).getD found, rest) := by
  induction h generalizing fuel found with
  | @last units given s t u v rest hkey hblank hvalue hclose =>
    have hkeyLength := @Label.length_le true _ _ ⟨units, hkey⟩
    have hblankLength := hblank.length_le
    have hvalueLength := hvalue.written.length_lt
    have hcloseLength := hclose.length_le
    rw [List.length_cons] at hcloseLength
    obtain ⟨fuel, rfl⟩ : ∃ f, fuel = f + 1 := Nat.exists_eq_add_one.mpr (by omega)
    refine parseMembers_turn hkey (hnul _ List.mem_cons_self) hblank hvalue
      (hclose.head isMemberEnd_of_isSpace (by decide)) (.inl ⟨(blank_iff (by decide)).mp hclose, ?_⟩)
    rw [lastValue_cons]
    cases named units <;> rfl
  | @more units given ms s t u v s' rest hkey hblank hvalue hcomma hms ih =>
    have hkeyLength := @Label.length_le true _ _ ⟨units, hkey⟩
    have hblankLength := hblank.length_le
    have hvalueLength := hvalue.written.length_lt
    have hcommaLength := hcomma.length_le
    rw [List.length_cons] at hcommaLength
    obtain ⟨fuel, rfl⟩ : ∃ f, fuel = f + 1 := Nat.exists_eq_add_one.mpr (by omega)
    have hrest := @ih fuel (fun m hm => hnul m (List.mem_cons_of_mem _ hm)) (by omega)
      (if named units then given.json else found)
    refine parseMembers_turn hkey (hnul _ List.mem_cons_self) hblank hvalue
      (hcomma.head isMemberEnd_of_isSpace (by decide)) (.inr ⟨s', (blank_iff (by decide)).mp hcomma, ?_⟩)
    rw [hrest, lastValue_cons]
    cases lastValue ms <;> cases named units <;> rfl

theorem key_skipWs : Key units (skipWs s) rest ↔ Key units s rest := by
  simp only [Key, blank_iff (show isSpace 0x22 = false by decide), skipWs_skipWs]

theorem members_skipWs : Members LooseWord ms (skipWs s) rest ↔ Members LooseWord ms s rest := by
  constructor
  · intro h
    generalize hs : skipWs s = s' at h
    cases h with
    | last hkey hblank hvalue hclose =>
      exact .last (key_skipWs.mp (hs ▸ hkey)) hblank hvalue hclose
    | more hkey hblank hvalue hcomma hms =>
      exact .more (key_skipWs.mp (hs ▸ hkey)) hblank hvalue hcomma hms
  · intro h
    cases h with
    | last hkey hblank hvalue hclose => exact .last (key_skipWs.mpr hkey) hblank hvalue hclose
    | more hkey hblank hvalue hcomma hms =>
      exact .more (key_skipWs.mpr hkey) hblank hvalue hcomma hms

theorem Members.head (h : Members LooseWord ms s rest) : ∃ t, skipWs s = 0x22 :: t := by
  cases h with
  | last hkey | more hkey =>
    obtain ⟨t, u, hquote, -⟩ := hkey
    exact ⟨t, (blank_iff (by decide)).mp hquote⟩

/-- An object is read, and its last `value` is what is found. -/
theorem Object.parse (h : Object LooseWord ms body) (hnul : ∀ m ∈ ms, .code 0 ∉ m.1) :
    parseJsonBody body = some (some (((lastValue ms).map Given.json).getD {})) := by
  obtain ⟨s, rest, hbody, hms, hrest⟩ := h
  have hend : skipWs rest = [] := hrest.skipWs_eq
  have hbrace := (blank_iff (by decide)).mp hbody
  unfold parseJsonBody
  split
  · rename_i hnil
    rw [hbrace] at hnil
    cases hnil
  · rename_i t ht
    obtain ⟨-, rfl⟩ := List.cons.inj (hbrace.symm.trans ht)
    dsimp only
    rcases hms with ⟨hclose, rfl⟩ | hms
    · rw [(blank_iff (by decide)).mp hclose]
      exact Option.bind_eq_some_iff.mpr ⟨_, rfl, if_pos hend⟩
    · obtain ⟨t, hs⟩ := hms.head
      have hparse := (members_skipWs.mpr hms).parse hnul (Nat.le_succ _) {}
      rw [hs] at hparse ⊢
      exact Option.bind_eq_some_iff.mpr ⟨_, hparse, if_pos hend⟩
  · rename_i hother
    exact absurd hbrace (hother s)

/-- A body that is read is an object or empty. -/
theorem parseJsonBody_sound {parsed : Option JsonValue} (h : parseJsonBody body = some parsed) :
    parsed = none ∧ Blank body [] ∨ ∃ ms, Object LooseWord ms body := by
  unfold parseJsonBody at h
  split at h
  · rename_i hempty
    cases h
    exact .inl ⟨rfl, hempty ▸ blank_skipWs body⟩
  · rename_i s hbrace
    have hbody : Blank body (0x7B :: s) := (blank_iff (by decide)).mpr hbrace
    right
    dsimp only at h
    split at h
    · rename_i rest hclose
      obtain ⟨_, ⟨⟩, h⟩ := Option.bind_eq_some_iff.mp h
      split_ifs at h with hend
      exact ⟨[], s, rest, hbody, .inl ⟨(blank_iff (by decide)).mpr hclose, rfl⟩,
        hend ▸ blank_skipWs rest⟩
    · obtain ⟨⟨found, rest⟩, hms, h⟩ := Option.bind_eq_some_iff.mp h
      split_ifs at h with hend
      obtain ⟨ms, hmembers⟩ := parseMembers_sound hms
      exact ⟨ms, s, rest, hbody, .inr (members_skipWs.mp hmembers), hend ▸ blank_skipWs rest⟩
  · cases h

/-! ## What is accepted -/

/-- What an action asks of a body whose last `value` is given, and the value it then accepts. -/
inductive Fits (d : ActionDef) (sample : ActionSample) : Option Given → ActionValue → Prop
  | switch (b : Bool) : d.control = .switch → Fits d sample (some (.bool b)) (.bool b)
  | select {units : List StringUnit} : d.control = .select → encodeUnits units ∈ d.options →
      (encodeUnits units).length < actionTextMax →
      Fits d sample (some (.text units)) (.text (encodeUnits units))
  | number {x : Binary64} : d.control = .number → x.isFinite = true →
      (sample.hasMin = true → sample.min.isNan = false →
        Binary64.unitsOfFloat sample.min ≤ x.toInt) →
      (sample.hasMax = true → sample.max.isNan = false →
        x.toInt ≤ Binary64.unitsOfFloat sample.max) →
      Fits d sample (some (.number x)) (.number x.toFloat)
  | button (given : Option Given) : d.control = .button → Fits d sample given .none

/-- Escapes that stand for no text: no key has a NUL, and the text of the last `value` neither a
NUL nor a surrogate. -/
def NoLostText (ms : List (List StringUnit × Given)) : Prop :=
  (∀ m ∈ ms, .code 0 ∉ m.1) ∧
    ∀ units, lastValue ms = some (.text units) → ∀ n, .code n ∈ units → n ≠ 0 ∧ ¬Surrogate n

section

variable {d : ActionDef} {sample : ActionSample} {body : List UInt8}
  (henabled : actionEnabled d sample = true) (hlength : body.length ≤ actionBodyMax)

include henabled hlength

theorem evaluateActionJson_eq :
    evaluateActionJson d sample false body =
      match parseJsonBody body with
      | none => refuse 400 .invalidBody
      | some parsed =>
        if d.control = .button then accept
        else
          match parsed with
          | none => refuse 400 .invalidBody
          | some jv =>
            if jv.kind = .missing then refuse 400 .invalidBody else evaluateTyped d sample jv := by
  unfold evaluateActionJson evaluateGuarded
  rw [henabled, if_neg (by decide), if_neg (by decide)]
  exact if_neg (by omega)

/-- Without an object, only a button is driven, and only by an empty body. -/
theorem accepts_blank_iff (hnone : ∀ ms, ¬Object LooseWord ms body) :
    (evaluateActionJson d sample false body).verdict = .accept ↔
      d.control = .button ∧ Blank body [] := by
  rw [evaluateActionJson_eq henabled hlength]
  cases hparse : parseJsonBody body with
  | none =>
    refine iff_of_false nofun ?_
    rintro ⟨-, hblank⟩
    have hempty : skipWs body = [] := hblank.skipWs_eq
    rw [parseJsonBody, hempty] at hparse
    cases hparse
  | some parsed =>
    rcases parseJsonBody_sound hparse with ⟨rfl, hblank⟩ | ⟨ms, hms⟩
    · dsimp only
      split_ifs with hbutton
      · exact iff_of_true rfl ⟨hbutton, hblank⟩
      · exact iff_of_false nofun fun h => hbutton h.1
    · exact absurd hms (hnone ms)

end

theorem MemberValue.exists_text {b : Bool} (h : MemberValue word b (.text units) s rest) :
    ∃ t u, Text t units u := by
  cases h with
  | word hword => cases hword
  | text htext => exact ⟨_, _, htext⟩

theorem Members.text (h : Members word ms s rest)
    (hlast : lastValue ms = some (.text units)) : ∃ t u, Text t units u := by
  induction h with
  | last _ _ hvalue _ =>
    rw [lastValue_cons] at hlast
    split_ifs at hlast
    · cases hlast
      exact hvalue.exists_text
    · cases hlast
  | more _ _ hvalue _ _ ih =>
    rw [lastValue_cons, Option.or_eq_some_iff] at hlast
    rcases hlast with hlast | ⟨-, hlast⟩
    · exact ih hlast
    · split_ifs at hlast
      cases hlast
      exact hvalue.exists_text

/-- What the code keeps of the text of the last `value`. -/
theorem Object.text (h : Object LooseWord ms body) (hkept : NoLostText ms)
    (hlast : lastValue ms = some (.text units)) :
    units.flatMap written = encodeUnits units ∧ cstr (encodeUnits units) = encodeUnits units := by
  obtain ⟨s, rest, -, ⟨-, rfl⟩ | hms, -⟩ := h
  · cases hlast
  · obtain ⟨t, u, htext⟩ := hms.text hlast
    have hcode := hkept.2 units hlast
    have heq := flatMap_written htext.code_lt fun n hn => (hcode n hn).2
    have hzero := zero_notMem_written htext fun h0 => (hcode 0 h0).1 rfl
    rw [heq] at hzero
    exact ⟨heq, cstr_eq_self hzero⟩

section

variable {d : ActionDef} {sample : ActionSample} {body : List UInt8}
  {ms : List (List StringUnit × Given)}

/-- An answer that accepts what is asked for, and this value. -/
def Answers (o : ActionOutcome) (asked : ActionValue → Prop) : Prop :=
  (o.verdict = .accept ↔ ∃ v, asked v) ∧ ∀ v, asked v → o.value = v

theorem answers_refuse {asked : ActionValue → Prop} (h : ∀ v, ¬asked v) (http : Nat)
    (code : ActionCode) (value : ActionValue) : Answers (refuse http code value) asked :=
  ⟨iff_of_false nofun fun ⟨v, hv⟩ => h v hv, fun v hv => absurd hv (h v)⟩

theorem answers_accept {asked : ActionValue → Prop} {value : ActionValue}
    (h : ∀ v, asked v ↔ v = value) : Answers (accept value) asked :=
  ⟨iff_of_true rfl ⟨value, (h value).mpr rfl⟩, fun v hv => ((h v).mp hv).symm⟩

/-- The text of the last `value` is an option to the code exactly if it is one and fits. -/
theorem text_known_iff (h : Object LooseWord ms body) (hkept : NoLostText ms)
    {units : List StringUnit} (hlast : lastValue ms = some (.text units)) :
    ((Given.text units).json.truncated || !hasOption d (Given.text units).json.text) = false ↔
      encodeUnits units ∈ d.options ∧ (encodeUnits units).length < actionTextMax := by
  obtain ⟨heq, hcstr⟩ := h.text hkept hlast
  simp only [Given.json, heq, Bool.or_eq_false_iff, Bool.not_eq_false', decide_eq_false_iff_not]
  constructor
  · rintro ⟨hfits, hoption⟩
    have hlt : (encodeUnits units).length < actionTextMax := by
      unfold actionTextMax at hfits ⊢
      omega
    rw [List.take_of_length_le (by omega), hasOption, hcstr, List.contains_iff_mem] at hoption
    exact ⟨hoption, hlt⟩
  · rintro ⟨hmem, hlt⟩
    rw [List.take_of_length_le (by omega), hasOption, hcstr, List.contains_iff_mem]
    exact ⟨by omega, hmem⟩

theorem outOfRange_eq_false {x : Binary64} : outOfRange sample x = false ↔ x.isFinite = true ∧
    (sample.hasMin = true → sample.min.isNan = false →
      Binary64.unitsOfFloat sample.min ≤ x.toInt) ∧
    (sample.hasMax = true → sample.max.isNan = false →
      x.toInt ≤ Binary64.unitsOfFloat sample.max) := by
  simp [outOfRange, and_assoc]

/-- What the code makes of the last `value`. -/
theorem evaluateTyped_answers (h : Object LooseWord ms body) (hkept : NoLostText ms) {given : Given}
    (hlast : lastValue ms = some given) (hbutton : d.control ≠ .button) :
    Answers (evaluateTyped d sample given.json) (Fits d sample (some given)) := by
  unfold evaluateTyped
  dsimp only
  cases hcontrol : d.control with
  | button => exact absurd hcontrol hbutton
  | switch =>
    dsimp only
    split_ifs with hkind
    · refine answers_refuse (fun v hv => ?_) _ _ _
      cases hv <;> simp_all [Given.json]
    · obtain ⟨b, rfl⟩ : ∃ b, given = .bool b := by
        cases given <;> simp_all [Given.json]
      refine answers_accept fun v => ⟨fun hv => ?_, fun hv => hv ▸ .switch b hcontrol⟩
      cases hv <;> simp_all [valueFrom, Given.json]
  | select =>
    dsimp only
    split_ifs with hkind hoption
    · refine answers_refuse (fun v hv => ?_) _ _ _
      cases hv <;> simp_all [Given.json]
    · refine answers_refuse (fun v hv => ?_) _ _ _
      cases hv with
      | switch _ hc | number hc | button _ hc => simp [hcontrol] at hc
      | select _ hmem hlt =>
        rw [(text_known_iff h hkept hlast).mpr ⟨hmem, hlt⟩] at hoption
        cases hoption
    · obtain ⟨units, rfl⟩ : ∃ units, given = .text units := by
        cases given <;> simp_all [Given.json]
      obtain ⟨hmem, hlt⟩ := (text_known_iff h hkept hlast).mp (Bool.eq_false_of_not_eq_true hoption)
      obtain ⟨heq, hcstr⟩ := h.text hkept hlast
      have hvalue : valueFrom (Given.text units).json = .text (encodeUnits units) := by
        have hle : (encodeUnits units).length ≤ actionTextMax - 1 := by omega
        simp [valueFrom, Given.json, heq, List.take_of_length_le hle, hcstr]
      rw [hvalue]
      refine answers_accept fun v => ⟨fun hv => ?_, fun hv => hv ▸ .select hcontrol hmem hlt⟩
      cases hv with
      | select => rfl
      | button _ hc => simp [hcontrol] at hc
  | number =>
    dsimp only
    split_ifs with hkind hrange
    · refine answers_refuse (fun v hv => ?_) _ _ _
      cases hv <;> simp_all [Given.json]
    · refine answers_refuse (fun v hv => ?_) _ _ _
      cases hv with
      | switch _ hc | select hc | button _ hc => simp [hcontrol] at hc
      | number _ hfinite hmin hmax =>
        rw [Given.json, outOfRange_eq_false.mpr ⟨hfinite, hmin, hmax⟩] at hrange
        cases hrange
    · obtain ⟨x, rfl⟩ : ∃ x, given = .number x := by
        cases given <;> simp_all [Given.json]
      obtain ⟨hfinite, hmin, hmax⟩ :=
        outOfRange_eq_false.mp (Bool.eq_false_of_not_eq_true hrange)
      have hvalue : valueFrom (Given.number x).json = .number x.toFloat := by
        simp only [Given.json] at hfinite
        simp [valueFrom, Given.json, hfinite]
      rw [hvalue]
      refine answers_accept fun v =>
        ⟨fun hv => ?_, fun hv => hv ▸ .number hcontrol hfinite hmin hmax⟩
      cases hv with
      | number => rfl
      | button _ hc => simp [hcontrol] at hc

/-- An object drives the action exactly if its last `value` fits. -/
theorem accepts_object (henabled : actionEnabled d sample = true)
    (hlength : body.length ≤ actionBodyMax) (h : Object LooseWord ms body) (hkept : NoLostText ms) :
    Answers (evaluateActionJson d sample false body) (Fits d sample (lastValue ms)) := by
  rw [evaluateActionJson_eq henabled hlength, h.parse hkept.1]
  dsimp only
  split_ifs with hbutton hmissing
  · refine answers_accept fun v => ⟨fun hv => ?_, fun hv => hv ▸ .button _ hbutton⟩
    generalize lastValue ms = last at hv
    cases hv <;> simp_all
  · refine answers_refuse (fun v hv => ?_) _ _ _
    revert hmissing hv
    rcases lastValue ms with _ | given
    · rintro - (_ | _ | _ | ⟨_, hc⟩)
      exact hbutton hc
    · rintro hmissing hv
      cases hv <;> simp_all [Given.json]
  · cases hlast : lastValue ms with
    | none => simp [hlast] at hmissing
    | some given => exact evaluateTyped_answers h hkept hlast hbutton

end

/-- A body is accepted exactly if it is an object whose last `value` fits the action, or for a
button an empty one; the value that is accepted is the one that is given, and no byte outside the
body is read. -/
theorem accepts_iff {d : ActionDef} {sample : ActionSample} {body : List UInt8}
    (henabled : actionEnabled d sample = true) (hlength : body.length ≤ actionBodyMax) :
    Loading.parseJsonBody body = some (parseJsonBody body) ∧
      ((∀ ms, ¬Object LooseWord ms body) →
        ((evaluateActionJson d sample false body).verdict = .accept ↔
          d.control = .button ∧ Blank body [])) ∧
      ∀ ms, Object LooseWord ms body → NoLostText ms →
        Answers (evaluateActionJson d sample false body) (Fits d sample (lastValue ms)) :=
  ⟨Loading.parseJsonBody_eq body, accepts_blank_iff henabled hlength,
    fun _ h hkept => accepts_object henabled hlength h hkept⟩

def valueKey : List StringUnit := (ascii "value").map .byte

/-- An object with one member, which is named `value`. -/
theorem object_value (h : MemberValue word true given s [0x7D]) : Object word [(valueKey, given)]
      (0x7B :: 0x22 :: 0x76 :: 0x61 :: 0x6C :: 0x75 :: 0x65 :: 0x22 :: 0x3A :: s) := by
  have htext : Text (0x76 :: 0x61 :: 0x6C :: 0x75 :: 0x65 :: 0x22 :: 0x3A :: s) valueKey
      (0x3A :: s) := by
    repeat refine .plain (by decide) (by decide) (by decide) ?_
    exact .close _
  have hnamed : named valueKey = true := by decide
  exact ⟨_, [], Blank.refl _, .inr (.last ⟨_, _, Blank.refl _, htext, Blank.refl _⟩
    (Blank.refl _) (hnamed.symm ▸ h) (Blank.refl _)), Blank.refl _⟩

def trueBody : List UInt8 := 0x7B :: 0x22 :: 0x76 :: 0x61 :: 0x6C :: 0x75 :: 0x65 :: 0x22 :: 0x3A ::
  (ascii "true" ++ [0x7D])

def aSwitch : ActionDef := { key := ascii "fan", label := ascii "Fan", control := .switch }

theorem accepts_iff_true :
    Loading.parseJsonBody trueBody = some (parseJsonBody trueBody) ∧
      Answers (evaluateActionJson aSwitch {} false trueBody)
        (Fits aSwitch {} (some (.bool true))) := by
  have h := @accepts_iff aSwitch {} trueBody (by decide) (by decide)
  have hobject : Object LooseWord [(valueKey, .bool true)] trueBody :=
    object_value (.word .true rfl)
  have hlast : lastValue [(valueKey, Given.bool true)] = some (.bool true) := by
    rw [lastValue_cons]
    rfl
  refine ⟨h.1, hlast ▸ h.2.2 _ hobject ⟨by simp [valueKey], ?_⟩⟩
  rw [hlast]
  nofun

/-! ### Bodies that the code does not take for what they are -/

/-- Behind each `N` of what a form is made of, there is a quote. -/
def Quoted (s rest : List UInt8) : Prop :=
  ∃ v, s = v ++ rest ∧ ∀ a b, v = a ++ 0x4E :: b → 0x22 ∈ b

theorem Quoted.trans {t u : List UInt8} (h : Quoted s t) (h' : Quoted t u) : Quoted s u := by
  obtain ⟨v, rfl, hv⟩ := h
  obtain ⟨w, rfl, hw⟩ := h'
  refine ⟨v ++ w, (List.append_assoc ..).symm, fun a b hsplit => ?_⟩
  rcases List.append_eq_append_iff.mp hsplit with ⟨m, rfl, hm⟩ | ⟨m, rfl, hm⟩
  · exact hw m b hm
  · cases m with
    | nil => exact hw [] b hm.symm
    | cons c m =>
      obtain ⟨rfl, rfl⟩ := List.cons.inj hm
      exact List.mem_append_left _ (hv a m rfl)

theorem Quoted.plain {v rest : List UInt8} (h : 0x4E ∉ v) : Quoted (v ++ rest) rest :=
  ⟨v, rfl, fun _ _ hsplit => absurd (hsplit ▸ List.mem_append_right _ List.mem_cons_self) h⟩

theorem Quoted.byte {c : UInt8} (h : c ≠ 0x4E) (rest : List UInt8) : Quoted (c :: rest) rest :=
  Quoted.plain (v := [c]) (by simpa using h.symm)

theorem Blank.quoted (h : Blank s rest) : Quoted s rest := by
  obtain ⟨ws, hws, rfl⟩ := h
  exact Quoted.plain fun hmem => absurd (hws _ hmem) (by decide)

theorem Text.quoted (h : Text s units rest) : Quoted s rest := by
  obtain ⟨v, rfl⟩ : ∃ v, s = v ++ [0x22] ++ rest := by
    induction h with
    | close rest => exact ⟨[], rfl⟩
    | @plain c _ _ _ _ _ _ _ ih =>
      obtain ⟨v, rfl⟩ := ih
      exact ⟨c :: v, rfl⟩
    | @escape e _ _ _ _ _ _ ih =>
      obtain ⟨v, rfl⟩ := ih
      exact ⟨0x5C :: e :: v, rfl⟩
    | @code a b c d _ _ _ _ _ _ ih =>
      obtain ⟨v, rfl⟩ := ih
      exact ⟨0x5C :: 0x75 :: a :: b :: c :: d :: v, rfl⟩
  refine ⟨_, rfl, fun a b hsplit => ?_⟩
  rcases List.eq_nil_or_concat b with rfl | ⟨b, c, rfl⟩
  · exact absurd (List.append_inj' hsplit rfl).2 (by decide)
  · have hconcat : v ++ [0x22] = (a ++ 0x4E :: b) ++ [c] := by simpa using hsplit
    obtain ⟨rfl⟩ := (List.append_inj' hconcat rfl).2
    simp

theorem Key.quoted (h : Key units s rest) : Quoted s rest := by
  obtain ⟨t, u, hquote, htext, hcolon⟩ := h
  exact hquote.quoted.trans ((Quoted.byte (by decide) t).trans
    (htext.quoted.trans (hcolon.quoted.trans (Quoted.byte (by decide) rest))))

theorem StrictWord.quoted (h : StrictWord w) (rest : List UInt8) : Quoted (w ++ rest) rest := by
  obtain ⟨given, h⟩ := h
  apply Quoted.plain
  cases h with
  | true | false | null => decide
  | number hx =>
    intro hmem
    exact absurd (hx.bytes.2 _ hmem) (by decide)

theorem Written.quoted {form : Form} {n : Nat}
    (h : Written StrictWord form n s rest) : Quoted s rest := by
  have hopen : ∀ isObject rest, Quoted (openBracket isObject :: rest) rest := fun isObject rest =>
    Quoted.byte (by cases isObject <;> decide) rest
  have hclose : ∀ isObject rest, Quoted (closeBracket isObject :: rest) rest := fun isObject rest =>
    Quoted.byte (by cases isObject <;> decide) rest
  have hlabel : ∀ {isObject : Bool} {s t : List UInt8}, Label isObject s t → Quoted s t := by
    intro isObject s t h
    cases isObject with
    | true => exact h.elim fun _ hkey => hkey.quoted
    | false =>
      obtain rfl : s = t := h
      exact Quoted.plain (v := []) nofun
  induction h with
  | string htext => exact (Quoted.byte (by decide) _).trans htext.quoted
  | word hword heq => exact heq ▸ hword.quoted _
  | empty isObject hend => exact (hopen ..).trans (hend.quoted.trans (hclose ..))
  | filled _ ih => exact (hopen ..).trans ih
  | last hkey hblank _ hend ih =>
    exact (hlabel hkey).trans (hblank.quoted.trans (ih.trans (hend.quoted.trans (hclose ..))))
  | more hkey hblank _ hcomma _ ih ih' =>
    exact (hlabel hkey).trans (hblank.quoted.trans (ih.trans (hcomma.quoted.trans
      ((Quoted.byte (by decide) _).trans ih'))))

theorem Members.quoted (h : Members StrictWord ms s rest) : Quoted s rest := by
  have hvalue : ∀ {b : Bool} {given : Given} {s rest : List UInt8},
      MemberValue StrictWord b given s rest → Quoted s rest := by
    intro b given s rest h
    cases h with
    | word hword heq => exact heq ▸ StrictWord.quoted ⟨_, hword⟩ _
    | text htext => exact (Quoted.byte (by decide) _).trans htext.quoted
    | container hwritten | other hwritten => exact hwritten.quoted
  induction h with
  | last hkey hblank h hend =>
    exact hkey.quoted.trans (hblank.quoted.trans ((hvalue h).trans (hend.quoted.trans
      (Quoted.byte (by decide) _))))
  | more hkey hblank h hcomma _ ih =>
    exact hkey.quoted.trans (hblank.quoted.trans ((hvalue h).trans (hcomma.quoted.trans
      ((Quoted.byte (by decide) _).trans ih))))

/-- A name without letters, and `NULL`. -/
def nullBody : List UInt8 := [0x7B, 0x22, 0x22, 0x3A, 0x4E, 0x55, 0x4C, 0x4C, 0x7D]

theorem not_object_nullBody (ms : List (List StringUnit × Given)) :
    ¬Object StrictWord ms nullBody := by
  rintro ⟨s, rest, hbody, hms, hrest⟩
  have hinner : Quoted s rest := by
    rcases hms with ⟨hclose, -⟩ | hms
    · exact hclose.quoted.trans (Quoted.byte (by decide) rest)
    · exact hms.quoted
  obtain ⟨v, hv, hquoted⟩ := hbody.quoted.trans ((Quoted.byte (by decide) s).trans
    (hinner.trans hrest.quoted))
  rw [List.append_nil] at hv
  exact absurd (hquoted [0x7B, 0x22, 0x22, 0x3A] [0x55, 0x4C, 0x4C, 0x7D] hv.symm) (by decide)

/-- An option of 64 bytes. -/
def longOption : List UInt8 := List.replicate 64 0x61

def longBody : List UInt8 :=
  0x7B :: 0x22 :: 0x76 :: 0x61 :: 0x6C :: 0x75 :: 0x65 :: 0x22 :: 0x3A :: 0x22 ::
    (longOption ++ [0x22, 0x7D])

def longSelect : ActionDef :=
  { key := ascii "mode", label := ascii "Mode", control := .select, options := [longOption] }

def aButton : ActionDef := { key := ascii "reset", label := ascii "Reset", control := .button }

theorem text_replicate (n : Nat) :
    Text (List.replicate n 0x61 ++ 0x22 :: rest) (List.replicate n (.byte 0x61)) rest := by
  induction n with
  | zero => exact .close rest
  | succ n ih => exact .plain (by decide) (by decide) (by decide) ih

set_option maxRecDepth 8000 in
/-- An option that is too long for the code is refused; a body that is no JSON is accepted. -/
theorem accepts_differs :
    (Object StrictWord [(valueKey, .text (List.replicate 64 (.byte 0x61)))] longBody ∧
      encodeUnits (List.replicate 64 (.byte 0x61)) ∈ longSelect.options ∧
      (evaluateActionJson longSelect {} false longBody).verdict ≠ .accept) ∧
    (∀ ms, ¬Object StrictWord ms nullBody) ∧ ¬Blank nullBody [] ∧
      (evaluateActionJson aButton {} false nullBody).verdict = .accept := by
  refine ⟨⟨object_value (.text (text_replicate 64)), by decide, by decide⟩,
    not_object_nullBody, fun hblank => ?_, by decide⟩
  exact absurd hblank.skipWs_eq (by decide)

end EspCars.Portal
