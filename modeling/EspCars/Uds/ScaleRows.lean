import EspCars.Uds.Reader

/-!
# The scale rows of a presentation

`_build_scales` of `script/uds_catalog.py` for the rows of the database, and what becomes of their
meaning. The database is read by the first of its rows that covers a raw value; the compiler drops,
widens and clamps the rows one by one, so that another row may come first. Python's `casefold` and
the word characters of its `re` are parameters.
-/

namespace EspCars.Uds.Compiler

open EspCars.Lib

/-! ## Sentinel texts -/

section

variable (casefold : Name → List Char) (isWord : Char → Bool)

def invalidTextPatterns : List (List Char) :=
  ["not available", "not asvailable", "nicht verfügbar", "invalid", "sna", "no signal"].map
    String.toList

/-- `\b` between two neighbours, of which one may be missing. -/
def isBoundary (a b : Option Char) : Bool := a.any isWord != b.any isWord

/-- `search` for a pattern between two word boundaries; `prev` stands before the text. -/
def searchWord (pattern : List Char) (prev : Option Char) : List Char → Bool
  | [] => false
  | c :: s =>
    pattern.isPrefixOf (c :: s) && isBoundary isWord prev (some c) &&
        isBoundary isWord pattern.getLast? ((c :: s).drop pattern.length).head? ||
      searchWord pattern (some c) s

/-- `is_invalid_text` -/
def isInvalidText (text : Name) : Bool :=
  invalidTextPatterns.any fun p => searchWord isWord p none (casefold text)

end

/-! ## `_build_scales` -/

/-- A row of the database; an `enum_description` that is null or missing is no text. -/
structure PresentationRow where
  low : Int
  high : Int
  factor : Binary64
  offset : Binary64
  text : Name := []
  deriving DecidableEq

/-- An entry of `invalid_overrides`; `none` is a key that is not there. -/
structure InvalidOverride where
  text : Option Name := none
  field : Option Name := none
  invalid : Bool
  deriving DecidableEq

/-- What is said about a field; every text starts with its name. -/
inductive ScaleWarning
  | widened
  | dropped (text : Name) (raw : Int)
  | clamped (raw : Int)
  deriving DecidableEq

/-- An entry of `dropped`. -/
structure DroppedRow where
  field : Name
  text : Name
  bound : Int
  deriving DecidableEq

/-- The scales with what the compiler says of the rows. -/
structure BuiltScales where
  scales : List Scale := []
  warnings : List ScaleWarning := []
  dropped : List DroppedRow := []
  deriving DecidableEq

/-- `bound & 0xFFFFFFFF` of a negative bound. -/
def unsignedBound (bound : Int) : Int := if bound < 0 then bound % 0x100000000 else bound

/-- A bound of a row that is kept: a negative one is clamped. -/
def fixedBound (bound : Int) : Int :=
  if bound < 0 then min (unsignedBound bound) i32Max else bound

/-- `struct.pack("<f", x)` and back; `none` is an `OverflowError`. -/
def packFloat (x : Binary64) : Option Binary32 :=
  if x.toFloat.isFinite || x.magnitude = .infinite then some x.toFloat else none

namespace PresentationRow

/-- A linear row whose bounds are absent. -/
def Unbounded (r : PresentationRow) : Prop :=
  r.text = [] ∧ r.low = 0 ∧ r.high = 0 ∧
    ¬(r.factor.magnitude = .finite 0 ∧ r.offset.magnitude = .finite 0)

instance (r : PresentationRow) : Decidable r.Unbounded := inferInstanceAs (Decidable (_ ∧ _))

end PresentationRow

section

variable (casefold : Name → List Char) (isWord : Char → Bool) (fieldName : Name)
  (overrides : List InvalidOverride)

/-- Whether a row is a sentinel: by its text, unless an override says otherwise, the last one. -/
def rowInvalid (text : Name) : Bool :=
  overrides.foldl
    (fun invalid ov =>
      if ov.text = some text ∧ ov.field.getD fieldName = fieldName then ov.invalid else invalid)
    (decide (text ≠ []) && isInvalidText casefold isWord text)

/-- The row of the catalog, with the bounds that were made of its own. -/
def packRow (r : PresentationRow) (low high : Int) : Option Scale := do
  let factor ← packFloat r.factor
  let offset ← packFloat r.offset
  return { low := low
           high := high
           factor := factor
           offset := offset
           text := r.text
           invalid := rowInvalid casefold isWord fieldName overrides r.text }

/-- One turn of the loop. -/
def buildRow (signed : Bool) (r : PresentationRow) : Option BuiltScales :=
  if r.Unbounded then do
    let scale ← packRow casefold isWord fieldName overrides r
      (if signed then i32Min else 0) i32Max
    return { scales := [scale], warnings := [.widened] }
  else if signed then do
    let scale ← packRow casefold isWord fieldName overrides r r.low r.high
    return { scales := [scale] }
  else
    let unrepresentable := ([r.low, r.high].filter fun b => b < 0).map unsignedBound
    if unrepresentable ≠ [] ∧ r.text ≠ [] then
      some { warnings := [.dropped r.text (unrepresentable.headD 0)]
             dropped := [{ field := fieldName, text := r.text, bound := unrepresentable.headD 0 }] }
    else do
      let scale ← packRow casefold isWord fieldName overrides r (fixedBound r.low)
        (fixedBound r.high)
      return { scales := [scale], warnings := unrepresentable.map .clamped }

/-- `_build_scales` -/
def buildScales (signed : Bool) : List PresentationRow → Option BuiltScales
  | [] => some {}
  | r :: rows => do
    let first ← buildRow casefold isWord fieldName overrides signed r
    let rest ← buildScales signed rows
    return { scales := first.scales ++ rest.scales
             warnings := first.warnings ++ rest.warnings
             dropped := first.dropped ++ rest.dropped }

end

/-! ## What the rows mean -/

/-- What is made of a raw value: a text, and the factor and the offset of the number unless it is
not available. -/
structure Outcome where
  linear : Option (Binary32 × Binary32) := none
  text : Option Name := none
  deriving DecidableEq

/-- The raw value itself: a factor of 1 and no offset. -/
def Outcome.passthrough : Outcome := { linear := some (⟨0x3F800000⟩, ⟨0⟩) }

def Scale.outcome (s : Scale) : Outcome :=
  { linear := if s.invalid then none else some (s.factor, s.offset)
    text := if s.text = [] then none else some s.text }

/-- `evaluate`, up to the number that the coefficients make of the raw value. -/
def outcome (scales : List Scale) (raw : Int) : Outcome :=
  if scales = [] then .passthrough
  else ((scales.find? fun s => s.Contains raw).map Scale.outcome).getD {}

def Outcome.number (o : Outcome) (raw : Int) : Option Exact :=
  o.linear.map fun p => ((Exact.ofInt raw).mul p.1.exact).add p.2.exact

theorem evaluate_eq_outcome (f : Field) (raw : Int) :
    evaluate f raw = ((outcome f.scales raw).number raw, (outcome f.scales raw).text) := by
  unfold evaluate outcome
  split_ifs with hempty
  · have hone : (Binary32.exact ⟨0x3F800000⟩) = .finite 1 := by decide +kernel
    have hzero : (Binary32.exact ⟨0⟩) = .finite 0 := by decide +kernel
    simp [Outcome.passthrough, Outcome.number, hone, hzero, Exact.ofInt, Exact.mul, Exact.add]
  · cases f.scales.find? fun s => s.Contains raw with
    | none => rfl
    | some s => cases hinvalid : s.invalid <;> simp [Scale.outcome, Outcome.number, hinvalid]

section

variable (casefold : Name → List Char) (isWord : Char → Bool) (fieldName : Name)
  (overrides : List InvalidOverride)

namespace PresentationRow

/-- The raw values of a row of an unsigned field, as the format reads it. -/
def Covers (r : PresentationRow) (raw : Int) : Prop :=
  r.Unbounded ∨ unsignedBound r.low ≤ raw ∧ raw ≤ unsignedBound r.high

instance (r : PresentationRow) (raw : Int) : Decidable (r.Covers raw) :=
  inferInstanceAs (Decidable (_ ∨ _))

def outcome (r : PresentationRow) : Outcome :=
  { linear := if rowInvalid casefold isWord fieldName overrides r.text then none
      else some (r.factor.toFloat, r.offset.toFloat)
    text := if r.text = [] then none else some r.text }

/-- A row with a text and a negative bound. -/
def Unrepresentable (r : PresentationRow) : Prop := r.text ≠ [] ∧ (r.low < 0 ∨ r.high < 0)

instance (r : PresentationRow) : Decidable r.Unrepresentable :=
  inferInstanceAs (Decidable (_ ∧ _))

/-- A row without a text that begins above the largest `int32_t` and is clamped onto it. -/
def ClampedOnto (r : PresentationRow) (raw : Int) : Prop :=
  r.text = [] ∧ r.low < 0 ∧ raw = i32Max ∧ raw < unsignedBound r.low ∧ raw ≤ unsignedBound r.high

instance (r : PresentationRow) (raw : Int) : Decidable (r.ClampedOnto raw) :=
  inferInstanceAs (Decidable (_ ∧ _))

/-- What decides in the catalog: a row that is kept and covers the raw value or is clamped onto
it. -/
def Decides (r : PresentationRow) (raw : Int) : Prop :=
  ¬r.Unrepresentable ∧ (r.Covers raw ∨ r.ClampedOnto raw)

instance (r : PresentationRow) (raw : Int) : Decidable (r.Decides raw) :=
  inferInstanceAs (Decidable (_ ∧ _))

end PresentationRow

open PresentationRow

/-- The outcome of the first row with a property. -/
def firstOutcome (p : PresentationRow → Bool) (rows : List PresentationRow) : Outcome :=
  ((rows.find? p).map (PresentationRow.outcome casefold isWord fieldName overrides)).getD {}

/-- The meaning of the database rows of an unsigned field. -/
def declared (rows : List PresentationRow) (raw : Int) : Outcome :=
  if rows = [] then .passthrough
  else firstOutcome casefold isWord fieldName overrides (fun r => r.Covers raw) rows

/-- The first row that concerns a raw value is dropped though it covers it, or is clamped onto it
though it does not, and the row that decides instead says something else. -/
def Displaced (raw : Int) : List PresentationRow → Prop
  | [] => False
  | r :: rows =>
    if r.Covers raw then
      r.Unrepresentable ∧ r.outcome casefold isWord fieldName overrides ≠
        firstOutcome casefold isWord fieldName overrides (fun r => r.Decides raw) rows
    else if r.ClampedOnto raw then
      r.outcome casefold isWord fieldName overrides ≠
        firstOutcome casefold isWord fieldName overrides (fun r => r.Covers raw) rows
    else Displaced raw rows

/-! ## The rows that are built -/

variable {casefold isWord fieldName overrides}

theorem toFloat_of_packFloat {x : Binary64} {y : Binary32} (h : packFloat x = some y) :
    y = x.toFloat := by
  unfold packFloat at h
  split_ifs at h
  exact (Option.some.inj h).symm

theorem packRow_spec {r : PresentationRow} {low high : Int} {s : Scale}
    (h : packRow casefold isWord fieldName overrides r low high = some s) :
    s.low = low ∧ s.high = high ∧
      s.outcome = r.outcome casefold isWord fieldName overrides := by
  unfold packRow at h
  obtain ⟨factor, hfactor, h⟩ := Option.bind_eq_some_iff.mp h
  obtain ⟨offset, hoffset, h⟩ := Option.bind_eq_some_iff.mp h
  cases h
  rw [toFloat_of_packFloat hfactor, toFloat_of_packFloat hoffset]
  exact ⟨rfl, rfl, rfl⟩

/-- A row of an unsigned field is dropped, or is the row that decides where it does. -/
theorem buildRow_spec {r : PresentationRow} {b : BuiltScales}
    (h : buildRow casefold isWord fieldName overrides false r = some b) :
    (r.Unrepresentable ∧ b.scales = []) ∨
      ¬r.Unrepresentable ∧ ∃ s, b.scales = [s] ∧
        s.outcome = r.outcome casefold isWord fieldName overrides ∧
        ∀ raw : Int, 0 ≤ raw → raw ≤ i32Max → (s.Contains raw ↔ r.Decides raw) := by
  unfold buildRow at h
  simp only [Bool.false_eq_true, if_false] at h
  split_ifs at h with hunbounded hdropped
  · -- the bounds are absent
    obtain ⟨s, hs, h⟩ := Option.bind_eq_some_iff.mp h
    cases h
    obtain ⟨hlow, hhigh, houtcome⟩ := packRow_spec hs
    have hkept : ¬r.Unrepresentable := fun hu => hu.1 hunbounded.1
    refine .inr ⟨hkept, s, rfl, houtcome, fun raw h0 hmax => ?_⟩
    exact iff_of_true ⟨hlow ▸ h0, hhigh ▸ hmax⟩ ⟨hkept, .inl (.inl hunbounded)⟩
  · -- a text and a negative bound
    cases h
    refine .inl ⟨⟨hdropped.2, ?_⟩, rfl⟩
    by_contra hnone
    rw [not_or] at hnone
    exact hdropped.1 (by simp [hnone.1, hnone.2])
  · obtain ⟨s, hs, h⟩ := Option.bind_eq_some_iff.mp h
    cases h
    obtain ⟨hlow, hhigh, houtcome⟩ := packRow_spec hs
    have hkept : ¬r.Unrepresentable := by
      rintro ⟨htext, hnegative⟩
      obtain ⟨b, hb, hneg⟩ : ∃ b ∈ [r.low, r.high], b < 0 :=
        hnegative.elim (fun h => ⟨_, by simp, h⟩) (fun h => ⟨_, by simp, h⟩)
      exact hdropped ⟨List.ne_nil_of_mem (List.mem_map_of_mem
        (List.mem_filter.mpr ⟨hb, decide_eq_true hneg⟩)), htext⟩
    refine .inr ⟨hkept, s, rfl, houtcome, fun raw h0 hmax => ?_⟩
    have htext : r.low < 0 ∨ r.high < 0 → r.text = [] := fun hneg =>
      by_contra fun htext => hkept ⟨htext, hneg⟩
    -- bounds that are not negative stay, and a negative one is clamped from above
    unfold Scale.Contains Decides Covers ClampedOnto
    rw [hlow, hhigh]
    simp only [hkept, hunbounded, not_false_iff, true_and, false_or]
    unfold fixedBound unsignedBound i32Max at *
    by_cases hlow' : r.low < 0
    · simp only [hlow', if_true, true_or, forall_const] at htext ⊢
      simp only [htext, true_and]
      split <;> omega
    · by_cases hhigh' : r.high < 0
      · simp only [hlow', hhigh', if_true, if_false, false_and, and_false, or_false]
        omega
      · simp only [hlow', hhigh', if_false, false_and, and_false, or_false]

/-- The rows of the catalog are those that are kept, and the first of them that has a raw value
reads as the first row that decides. -/
theorem outcome_buildScales {rows : List PresentationRow} {b : BuiltScales}
    (h : buildScales casefold isWord fieldName overrides false rows = some b) :
    (b.scales = [] ↔ ∀ r ∈ rows, r.Unrepresentable) ∧
      ∀ raw : Int, 0 ≤ raw → raw ≤ i32Max →
        ((b.scales.find? fun s => s.Contains raw).map Scale.outcome).getD {} =
          firstOutcome casefold isWord fieldName overrides (fun r => r.Decides raw) rows := by
  induction rows generalizing b with
  | nil =>
    cases h
    exact ⟨by simp, fun _ _ _ => rfl⟩
  | cons r rows ih =>
    obtain ⟨first, hfirst, h⟩ := Option.bind_eq_some_iff.mp h
    obtain ⟨rest, hrest, h⟩ := Option.bind_eq_some_iff.mp h
    cases h
    obtain ⟨hnil, hreads⟩ := ih hrest
    unfold firstOutcome at hreads ⊢
    rcases buildRow_spec hfirst with
      ⟨hdropped, hscales⟩ | ⟨hkept, s, hscales, houtcome, hdecides⟩
    · refine ⟨by simp [hscales, hnil, hdropped], fun raw h0 hmax => ?_⟩
      have hnot : ¬r.Decides raw := fun hd => hd.1 hdropped
      rw [List.find?_cons_of_neg (by simpa using hnot), ← hreads raw h0 hmax]
      simp [hscales]
    · refine ⟨by simp [hscales, hkept], fun raw h0 hmax => ?_⟩
      dsimp only
      rw [hscales, List.singleton_append]
      by_cases hd : r.Decides raw
      · have hs : s.Contains raw := (hdecides raw h0 hmax).mpr hd
        rw [List.find?_cons_of_pos (by simpa using hs), List.find?_cons_of_pos (by simpa using hd)]
        exact houtcome
      · have hs : ¬s.Contains raw := fun hs => hd ((hdecides raw h0 hmax).mp hs)
        rw [List.find?_cons_of_neg (by simpa using hs), List.find?_cons_of_neg (by simpa using hd)]
        exact hreads raw h0 hmax

/-- A raw value that is not displaced is read by the row that covers it first. -/
theorem firstOutcome_iff (raw : Int) (rows : List PresentationRow) :
    firstOutcome casefold isWord fieldName overrides (fun r => r.Decides raw) rows =
        firstOutcome casefold isWord fieldName overrides (fun r => r.Covers raw) rows ↔
      ¬Displaced casefold isWord fieldName overrides raw rows := by
  induction rows with
  | nil => exact iff_of_true rfl id
  | cons r rows ih =>
    rw [Displaced]
    have hcons : ∀ p : PresentationRow → Bool,
        firstOutcome casefold isWord fieldName overrides p (r :: rows) =
          if p r then r.outcome casefold isWord fieldName overrides
          else firstOutcome casefold isWord fieldName overrides p rows := by
      intro p
      unfold firstOutcome
      rw [List.find?_cons]
      cases p r <;> rfl
    by_cases hcovers : r.Covers raw
    · by_cases hdropped : r.Unrepresentable
      · have hnot : ¬r.Decides raw := fun hd => hd.1 hdropped
        simp [hcons, hcovers, hnot, hdropped, eq_comm]
      · have hd : r.Decides raw := ⟨hdropped, .inl hcovers⟩
        simp [hcons, hcovers, hd, hdropped]
    · by_cases hclamped : r.ClampedOnto raw
      · have hd : r.Decides raw := ⟨fun hu => hu.1 hclamped.1, .inr hclamped⟩
        simp [hcons, hcovers, hd, hclamped]
      · have hnot : ¬r.Decides raw := fun hd => hd.2.elim hcovers hclamped
        simp [hcons, hcovers, hnot, hclamped, ih]

end

/-- The catalog keeps the meaning of the rows if not all of them are dropped and no raw value is
displaced, and in no other case. -/
theorem scales_keep_meaning_iff (casefold : Name → List Char) (isWord : Char → Bool)
    (fieldName : Name) (overrides : List InvalidOverride) {rows : List PresentationRow}
    {b : BuiltScales} (h : buildScales casefold isWord fieldName overrides false rows = some b) :
    (∀ raw : Int, 0 ≤ raw → raw < 2 ^ 31 →
        outcome b.scales raw = declared casefold isWord fieldName overrides rows raw) ↔
      (rows = [] ∨ ∃ r ∈ rows, ¬r.Unrepresentable) ∧
        ∀ raw : Int, 0 ≤ raw → raw < 2 ^ 31 →
          ¬Displaced casefold isWord fieldName overrides raw rows := by
  obtain ⟨hnil, hreads⟩ := outcome_buildScales h
  have hmax : ∀ raw : Int, raw < 2 ^ 31 → raw ≤ i32Max := by
    intro raw hraw
    unfold i32Max
    omega
  by_cases hrows : rows = []
  · subst hrows
    have hempty : b.scales = [] := hnil.mpr (by simp)
    refine iff_of_true (fun raw _ _ => ?_) ⟨.inl rfl, fun raw _ _ => id⟩
    rw [outcome, declared, if_pos hempty, if_pos rfl]
  by_cases hall : ∀ r ∈ rows, r.Unrepresentable
  · -- nothing is left, and the raw value itself is published
    refine iff_of_false (fun hsame => ?_) ?_
    · have hzero := hsame 0 le_rfl (by decide)
      rw [outcome, declared, if_pos (hnil.mpr hall), if_neg hrows] at hzero
      unfold firstOutcome at hzero
      cases hfind : rows.find? fun r => r.Covers 0 with
      | none =>
        rw [hfind] at hzero
        cases hzero
      | some r =>
        rw [hfind] at hzero
        have htext := congrArg Outcome.text hzero
        have hr := (hall r (List.mem_of_find?_eq_some hfind)).1
        simp [Outcome.passthrough, PresentationRow.outcome, hr] at htext
    · rintro ⟨hnone | ⟨r, hr, hkept⟩, -⟩
      · exact hrows hnone
      · exact hkept (hall r hr)
  · have hsome : ∃ r ∈ rows, ¬r.Unrepresentable := by
      simpa only [not_forall, exists_prop] using hall
    have hscales : b.scales ≠ [] := fun hempty => hall (hnil.mp hempty)
    have hraw : ∀ raw : Int, 0 ≤ raw → raw < 2 ^ 31 →
        (outcome b.scales raw = declared casefold isWord fieldName overrides rows raw ↔
          ¬Displaced casefold isWord fieldName overrides raw rows) := by
      intro raw h0 hlt
      rw [outcome, declared, if_neg hscales, if_neg hrows, hreads raw h0 (hmax raw hlt)]
      exact firstOutcome_iff raw rows
    constructor
    · intro hsame
      exact ⟨.inr hsome, fun raw h0 hlt => (hraw raw h0 hlt).mp (hsame raw h0 hlt)⟩
    · rintro ⟨-, hnone⟩ raw h0 hlt
      exact (hraw raw h0 hlt).mpr (hnone raw h0 hlt)

/-! ## Two presentations -/

/-- `casefold` and the word characters of an ASCII text. -/
def asciiFold (text : Name) : List Char := text.map fun b => (Char.ofNat b.toNat).toLower

def asciiWord (c : Char) : Bool := c.isAlphanum || c = '_'

def one64 : Binary64 := { magnitude := .ofNat 1 }

def notAvailable : Name := ascii "Not Available"

/-- The sentinel of a full range behind a linear row. -/
def sentinelRows : List PresentationRow :=
  [{ low := 0, high := 200, factor := one64, offset := {} },
    { low := -1, high := -1, factor := {}, offset := {}, text := notAvailable }]

/-- A sentinel that begins inside the linear row behind it. -/
def coveredRows : List PresentationRow :=
  [{ low := 100, high := -1, factor := {}, offset := {}, text := notAvailable },
    { low := 0, high := 200, factor := one64, offset := {} }]

/-- What is built of both. -/
def linearScales : BuiltScales :=
  { scales := [{ low := 0, high := 200, factor := ⟨0x3F800000⟩, offset := ⟨0⟩ }]
    warnings := [.dropped notAvailable 0xFFFFFFFF]
    dropped := [{ field := ascii "F", text := notAvailable, bound := 0xFFFFFFFF }] }

theorem scales_keep_meaning_sentinel :
    buildScales asciiFold asciiWord (ascii "F") [] false sentinelRows = some linearScales ∧
      ∀ raw : Int, 0 ≤ raw → raw < 2 ^ 31 → outcome linearScales.scales raw =
        declared asciiFold asciiWord (ascii "F") [] sentinelRows raw := by
  have hbuilt : buildScales asciiFold asciiWord (ascii "F") [] false sentinelRows =
      some linearScales := by decide +kernel
  refine ⟨hbuilt, (scales_keep_meaning_iff asciiFold asciiWord (ascii "F") [] hbuilt).mpr
    ⟨.inr ⟨_, List.mem_cons_self, fun h => h.1 rfl⟩, ?_⟩⟩
  intro raw h0 hlt
  have htext : notAvailable ≠ [] := by decide
  simp [sentinelRows, Displaced, PresentationRow.Covers, PresentationRow.Unbounded,
    PresentationRow.Unrepresentable, PresentationRow.ClampedOnto, unsignedBound, htext]
  exact fun _ hbig => absurd hlt (by omega)

/-- A value that is not available becomes the number 150. -/
theorem not_scales_keep_meaning :
    (declared asciiFold asciiWord (ascii "F") [] coveredRows 150).linear = none ∧
      (outcome linearScales.scales 150).linear = some (⟨0x3F800000⟩, ⟨0⟩) ∧
      ¬∀ (casefold : Name → List Char) (isWord : Char → Bool) (fieldName : Name)
        (overrides : List InvalidOverride) (rows : List PresentationRow) (b : BuiltScales),
        buildScales casefold isWord fieldName overrides false rows = some b →
        ∀ raw : Int, 0 ≤ raw → raw < 2 ^ 31 →
          outcome b.scales raw = declared casefold isWord fieldName overrides rows raw := by
  have hdeclared : (declared asciiFold asciiWord (ascii "F") [] coveredRows 150).linear = none := by
    decide
  have hnumber : (outcome linearScales.scales 150).linear = some (⟨0x3F800000⟩, ⟨0⟩) := by
    decide
  refine ⟨hdeclared, hnumber, fun h => ?_⟩
  have hsame := h asciiFold asciiWord (ascii "F") [] coveredRows linearScales (by decide +kernel)
    150 (by decide) (by decide)
  rw [hsame, hdeclared] at hnumber
  cases hnumber

end EspCars.Uds.Compiler
