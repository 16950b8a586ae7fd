import EspCars.Portal.Document
import EspCars.Portal.Schema

/-!
# The validator on the pieces that are emitted

What the rules of the validator say of an object whose keys are literals, of a number, a text or a
`why` as the emitter writes them.
-/

namespace EspCars.Portal

open EspCars.Lib EspCars.Portal.Schema

/-! ## Objects with literal keys -/

theorem has_object {fields : List (String × Json)} {key : String}
    (h : key ∈ fields.map Prod.fst) : has (object fields) key = true := by
  obtain ⟨field, hmem, rfl⟩ := List.mem_map.mp h
  unfold has object Json.get?
  rw [Option.isSome_map, List.find?_isSome]
  exact ⟨(ascii field.1, field.2),
    List.mem_reverse.mpr (List.mem_map.mpr ⟨field, hmem, rfl⟩), decide_eq_true rfl⟩

theorem missingKeys_object {fields : List (String × Json)} {keys : List String} {path : String}
    (h : ∀ key ∈ keys, key ∈ fields.map Prod.fst) :
    missingKeys (object fields) keys path = [] := by
  unfold missingKeys
  rw [List.flatMap_eq_nil_iff]
  intro key hkey
  rw [check_eq_nil]
  exact has_object (h key hkey)

theorem unknownKeys_object {fields : List (String × Json)} {expected : List String} {path : String}
    (h : ∀ key ∈ fields.map Prod.fst, key ∈ expected) :
    unknownKeys (object fields) expected path = [] := by
  unfold unknownKeys object
  rw [List.flatMap_eq_nil_iff]
  intro field hfield
  obtain ⟨literal, hmem, rfl⟩ := List.mem_map.mp hfield
  rw [check_eq_nil, List.any_eq_true]
  exact ⟨literal.1, h _ (List.mem_map.mpr ⟨literal, hmem, rfl⟩), decide_eq_true rfl⟩

/-! ## Scalars -/

theorem strings?_map (xs : List (List UInt8)) :
    strings? (.arr (xs.map Json.str)) = some xs := by
  show (xs.map Json.str).mapM _ = _
  induction xs with
  | nil => rfl
  | cons x xs ih =>
    rw [List.map_cons, List.mapM_cons, ih]
    rfl

theorem isListOfStr_map (xs : List (List UInt8)) :
    isListOfStr (.arr (xs.map Json.str)) = true := by
  rw [isListOfStr, strings?_map]
  rfl

theorem isStrOrNull_textOrNull (t : Option (List UInt8)) : isStrOrNull (textOrNull t) = true := by
  cases t <;> rfl

theorem isNull_textOrNull (t : Option (List UInt8)) : isNull (textOrNull t) = t.isNone := by
  cases t <;> rfl

theorem intValue?_u32Json (v : UInt32) : intValue? (u32Json v) = some (v.toNat : Int) := rfl

theorem isNonnegInt_u32Json (v : UInt32) : isNonnegInt (u32Json v) = true := by
  have h : (0 : Int) ≤ v.toNat := Int.natCast_nonneg _
  rw [isNonnegInt, intValue?_u32Json]
  exact decide_eq_true h

theorem isNonnegIntOrNull_u32Json (v : UInt32) : isNonnegIntOrNull (u32Json v) = true := by
  rw [isNonnegIntOrNull, isNonnegInt_u32Json, Bool.or_true]

theorem isWord_str (words : List String) (s : List UInt8) :
    isWord words (.str s) = words.any fun word => ascii word = s :=
  rfl

/-! ## `why` -/

/-- The evidence that the code asks for is there. -/
def discriminated (code : List UInt8) (evidence : Json) : Bool :=
  evidenceDiscriminators.all fun entry => ascii entry.1 ≠ code || entry.2.any (has evidence)

theorem get?_whyJson (code : List UInt8) (detail : Option (List UInt8))
    (evidence : List (List UInt8 × Json)) :
    (whyJson code detail evidence).get? "code" = some (.str code) ∧
    (whyJson code detail evidence).get? "detail" = some (textOrNull detail) ∧
    (whyJson code detail evidence).get? "since_ms" = some .null ∧
    (whyJson code detail evidence).get? "evidence" = some (.obj evidence) := by
  unfold whyJson
  simp +decide [Json.get?, object]

/-- A `why` is well formed if its code is machine readable and has its evidence. -/
theorem validateWhyBlock_whyJson (code : List UInt8) (detail : Option (List UInt8))
    (evidence : List (List UInt8 × Json)) (path : String) :
    validateWhyBlock (whyJson code detail evidence) path = [] ↔
      isIdent code = true ∧ discriminated code (.obj evidence) = true := by
  obtain ⟨hcode, hdetail, hsince, hevidence⟩ := get?_whyJson code detail evidence
  have hmissing : missingKeys (whyJson code detail evidence) whyKeys path = [] :=
    missingKeys_object (by simp [whyKeys])
  have hunknown : unknownKeys (whyJson code detail evidence) whyKeys path = [] :=
    unknownKeys_object (by simp [whyKeys])
  have hdiscriminated : (evidenceDiscriminators.flatMap fun entry =>
      if isWord [entry.1] (.str code) && isDict (.obj evidence) then
        check (entry.2.any (has (.obj evidence))) (path ++ ".evidence")
          "evidence_without_discriminator"
      else []) = [] ↔ discriminated code (.obj evidence) = true := by
    rw [List.flatMap_eq_nil_iff, discriminated, List.all_eq_true]
    apply forall₂_congr
    intro entry _
    rw [isWord_str, List.any_cons, List.any_nil, Bool.or_false]
    by_cases hword : ascii entry.1 = code
    · simp [hword, isDict]
    · simp [hword]
  unfold validateWhyBlock
  rw [hmissing, hunknown]
  simp only [onKey, hcode, hdetail, hsince, hevidence, Schema.get, Option.getD_some,
    List.nil_append, List.append_eq_nil_iff, check_eq_nil, hdiscriminated]
  simp [isStrOrNull_textOrNull, isNonnegIntOrNull, isNull, isDict, isIdentStr]

/-- What is said of a `why` that is there just where the state is not ok. -/
theorem checkWhy_ite (isOk : Bool) (code : List UInt8) (detail : Option (List UInt8))
    (evidence : List (List UInt8 × Json)) (path : String) :
    checkWhy isOk (if isOk then .null else whyJson code detail evidence) path = [] ↔
      (isOk = false → isIdent code = true ∧ discriminated code (.obj evidence) = true) := by
  cases isOk with
  | true => simp [checkWhy, isNull, isDict]
  | false =>
    have hnull : isNull (whyJson code detail evidence) = false := rfl
    have hdict : isDict (whyJson code detail evidence) = true := rfl
    simp [checkWhy, hnull, hdict, validateWhyBlock_whyJson]

end EspCars.Portal
