import EspCars.Lib.Utf8
import EspCars.Portal.Emit

/-!
# The documents that are emitted

The envelope and its parts as JSON documents, and that the emitter writes just their text. How a
floating point number is written is a parameter of the documents: the emitter writes those of
`numberJson`.
-/

namespace EspCars.Portal

open EspCars.Lib

/-! ## Pieces -/

/-- An object whose keys are literals of the code. -/
def object (fields : List (String × Json)) : Json :=
  .obj (fields.map fun field => (ascii field.1, field.2))

def u32Json (v : UInt32) : Json := .num { mantissa := v.toNat }

def textOrNull : Option (List UInt8) → Json
  | some text => .str text
  | none => .null

def u32OrNullJson : Option UInt32 → Json
  | some v => u32Json v
  | none => .null

/-- What `number_float` writes. -/
def numberJson (castNan : UInt64) (v : Binary32) (decimals : Nat) : Json :=
  .num { negative := isBelowZero v, mantissa := scaledInt castNan v (min decimals 6),
         decimals := min decimals 6 }

theorem hexLower_eq : ∀ n < 32, hexLower (UInt8.ofNat n >>> 4) =
    Json.hexLower (UInt8.ofNat n >>> 4) ∧
      hexLower (UInt8.ofNat n &&& 0x0F) = Json.hexLower (UInt8.ofNat n &&& 0x0F) := by
  decide

theorem jsonChar_eq (c : UInt8) : jsonChar c = Json.escapeByte c := by
  unfold jsonChar Json.escapeByte
  split_ifs with h1 h2 h3 h4 h5 h6 h7
  · rfl
  · rfl
  · rfl
  · rfl
  · rfl
  · rfl
  · have h := hexLower_eq c.toNat (UInt8.lt_iff_toNat_lt.mp h7)
    rw [UInt8.ofNat_toNat] at h
    rw [h.1, h.2]
    rfl
  · rfl

theorem jsonString_eq (s : List UInt8) : jsonString s = (Json.str s).render := by
  have h : jsonChar = Json.escapeByte := funext jsonChar_eq
  unfold jsonString
  rw [h]
  rfl

theorem jsonStringOf_eq (s : Option (List UInt8)) :
    jsonStringOf s = (Json.str (s.getD [])).render :=
  jsonString_eq _

theorem numberU32_eq (v : UInt32) : numberU32 v = (u32Json v).render := by
  have hlt : v.toNat < 10 ^ 10 := Nat.lt_trans v.toNat_lt (by decide)
  have h := @decDigits_eq_decText 9 _ hlt
  have hrender : (u32Json v).render = decText (v.toNat / 1) ++ [] := rfl
  unfold numberU32
  rw [h, hrender, Nat.div_one, List.append_nil]

theorem clippedInt_lt (m : Magnitude64) : clippedInt m < 2 ^ 64 := by
  cases m with
  | finite u => exact Nat.lt_of_le_of_lt (Nat.min_le_right _ _) (by decide)
  | infinite => exact (by decide : 2 ^ 64 - 1 < 2 ^ 64)

theorem scaledInt_lt (castNan : UInt64) (v : Binary32) (d : Nat) :
    scaledInt castNan v d < 2 ^ 64 := by
  unfold scaledInt
  split
  · exact castNan.toNat_lt
  · exact clippedInt_lt _

theorem renderNumber_decimals (negative : Bool) {scaled : Nat} (d : Nat) (h : scaled < 2 ^ 64) :
    (if negative then ascii "-" else []) ++ (decDigits 20 (scaled / 10 ^ d) ++
        if d = 0 then [] else ascii "." ++ padDigits d (scaled % 10 ^ d)) =
      (Json.num { negative := negative, mantissa := scaled, decimals := d }).render := by
  have hdigits : decDigits 20 (scaled / 10 ^ d) = decText (scaled / 10 ^ d) :=
    @decDigits_eq_decText 19 _
      (Nat.lt_of_le_of_lt (Nat.div_le_self _ _) (Nat.lt_trans h (by decide)))
  rw [hdigits, Json.render, Json.renderNumber]
  dsimp only [Json.renderExponent]
  rw [List.append_nil]
  rfl

theorem numberFloat_eq (castNan : UInt64) (v : Binary32) (d : Nat) :
    numberFloat castNan v d = (numberJson castNan v d).render :=
  renderNumber_decimals (isBelowZero v) (min d 6) (scaledInt_lt castNan v (min d 6))

theorem writeBool_eq (b : Bool) : writeBool b = (Json.bool b).render := by
  cases b <;> rfl

theorem stringOrNull_eq (s : Option (List UInt8)) : stringOrNull s = (textOrNull s).render := by
  cases s with
  | none => rfl
  | some s => exact jsonString_eq s

theorem u32OrNull_eq (v : Option UInt32) : u32OrNull v = (u32OrNullJson v).render := by
  cases v with
  | none => rfl
  | some v => exact numberU32_eq v

theorem withCommas_map {α : Type} {f : α → List UInt8} {g : α → Json} {xs : List α}
    (h : ∀ x ∈ xs, f x = (g x).render) : withCommas (xs.map f) = Json.renderElements (xs.map g) := by
  induction xs with
  | nil => rfl
  | cons x xs ih =>
    have hx := h x List.mem_cons_self
    have hxs := ih fun y hy => h y (List.mem_cons_of_mem _ hy)
    cases xs with
    | nil => exact hx
    | cons y xs =>
      show f x ++ ascii "," ++ withCommas ((y :: xs).map f) = _
      rw [hx, hxs, List.append_assoc]
      rfl

theorem writeArray_map {α : Type} {f : α → List UInt8} {g : α → Json} {l : List α}
    (h : ∀ x ∈ l, f x = (g x).render) : writeArray (l.map f) = (Json.arr (l.map g)).render := by
  unfold writeArray
  rw [withCommas_map h, Json.render]
  rfl

theorem writeArray_strings (xs : List (List UInt8)) :
    writeArray (xs.map jsonString) = (Json.arr (xs.map Json.str)).render :=
  writeArray_map fun x _ => jsonString_eq x

/-- The members of an object and its closing brace. -/
def membersText : List (String × Json) → List UInt8
  | [] => [0x7D]
  | [(key, x)] => Json.renderString (ascii key) ++ 0x3A :: (x.render ++ [0x7D])
  | (key, x) :: y :: fields =>
    Json.renderString (ascii key) ++ 0x3A :: (x.render ++ 0x2C :: membersText (y :: fields))

theorem render_object (fields : List (String × Json)) :
    (object fields).render = 0x7B :: membersText fields := by
  show 0x7B :: (Json.renderMembers (fields.map _) ++ [0x7D]) = _
  congr 1
  induction fields with
  | nil => rfl
  | cons x fields ih =>
    obtain ⟨key, x⟩ := x
    cases fields with
    | nil =>
      show Json.renderString (ascii key) ++ 0x3A :: x.render ++ [0x7D] = _
      rw [List.append_assoc]
      rfl
    | cons y fields =>
      rw [membersText, ← ih]
      simp only [List.map_cons, Json.renderMembers, List.append_assoc, List.cons_append]

/-! ## Identity -/

/-- The block `why`. -/
def whyJson (code : List UInt8) (detail : Option (List UInt8))
    (evidence : List (List UInt8 × Json) := []) : Json :=
  object [("code", .str code), ("detail", textOrNull detail), ("since_ms", .null),
    ("evidence", .obj evidence)]

theorem writeWhy_eq (code : List UInt8) (detail : Option (List UInt8))
    (evidence : List (List UInt8 × Json)) :
    writeWhy code detail (Json.renderMembers evidence) = (whyJson code detail evidence).render := by
  have hobj : (Json.obj evidence).render = 0x7B :: (Json.renderMembers evidence ++ [0x7D]) := rfl
  unfold writeWhy whyJson
  rw [render_object]
  simp only [List.append_assoc, jsonString_eq, stringOrNull_eq, membersText, hobj, List.cons_append]
  rfl

theorem writeWhy_nil (code : List UInt8) (detail : Option (List UInt8)) :
    writeWhy code detail = (whyJson code detail).render :=
  writeWhy_eq code detail []

theorem ite_render (c : Prop) [Decidable c] (x y : Json) :
    (if c then x.render else y.render) = (if c then x else y).render := by
  split_ifs <;> rfl

theorem null_render : ascii "null" = Json.null.render := rfl

/-- The block `served_by`. -/
def servedByJson (s : Snapshot) : Json :=
  let id := s.identity
  object [
    ("board", textOrNull (id.named id.board)),
    ("node_id", textOrNull (id.named id.nodeId)),
    ("mac", textOrNull (id.named id.mac)),
    ("state", .str (if id.complete then ascii "ok" else ascii "unknown")),
    ("why", if id.complete then .null else whyJson (ascii "no_identity") none),
    ("uptime_ms", u32Json s.uptimeMs),
    ("build", .str (id.build.getD (ascii "unknown"))),
    ("owns", .arr ((if id.complete then id.owns else []).map Json.str)),
    ("components", .arr (id.components.map Json.str))]

theorem writeServedBy_eq (s : Snapshot) : writeServedBy s = (servedByJson s).render := by
  unfold writeServedBy servedByJson
  rw [render_object]
  simp only [List.append_assoc, jsonString_eq, numberU32_eq, stringOrNull_eq, writeArray_strings,
    writeWhy_nil, null_render, ite_render]
  rfl

def provenanceJson (s : Snapshot) (r : Resolved) (node : NodeDef) (index : Nat) : Json :=
  if isSkeletonNode s index then .null
  else
    object [
      ("origin", .str (ascii "local")),
      ("board", textOrNull s.identity.board),
      ("node_id", textOrNull s.identity.nodeId),
      ("age_ms", u32OrNullJson (r.ages index)),
      ("budget_ms", u32OrNullJson node.budget),
      ("trust", .str (if trustConfirmed node then ascii "confirmed" else ascii "assumed")),
      ("seq", u32Json s.seq)]

theorem writeProvenance_eq (s : Snapshot) (r : Resolved) (node : NodeDef) (index : Nat) :
    writeProvenance s r node index = (provenanceJson s r node index).render := by
  unfold writeProvenance provenanceJson
  by_cases h : isSkeletonNode s index
  · rw [if_pos h, if_pos h]
    rfl
  · rw [if_neg h, if_neg h, render_object]
    simp only [List.append_assoc, jsonString_eq, numberU32_eq, stringOrNull_eq, u32OrNull_eq]
    rfl

/-! ## Values and series -/

section

variable (num : Binary32 → Nat → Json)

def readingJson (v : ValueSample) : Json :=
  if v.isText then .str (v.text.getD []) else num v.number v.decimals

/-- An element of `values`. -/
def valueJson (v : ValueSample) (budget : Option UInt32) : Json :=
  let verdict := classifyValue v budget
  let isSna : Bool := verdict.classification = .sna
  object [
    ("key", .str v.key),
    ("label", .str v.label),
    ("unit", textOrNull v.unit),
    ("value", if isSna then .null else if v.isBool then .bool v.reading else readingJson num v),
    ("raw", if isSna || v.isBool then .null else readingJson num v),
    ("raw_hex", .null),
    ("classification", .str (classificationName verdict.classification)),
    ("state", .str (stateName verdict.state)),
    ("why", if verdict.state = .ok then .null
      else whyJson (verdict.whyCode.getD []) verdict.detail),
    ("level", textOrNull (levelName (limitHit v).level))]

def elementJson (d : SeriesDef) (e : SeriesElement) : Json :=
  if e.hasValue then num e.value d.decimals else .null

/-- An element of `series`. -/
def seriesJson (d : SeriesDef) : Json :=
  object [
    ("key", .str d.key),
    ("label", .str d.label),
    ("unit", textOrNull d.unit),
    ("index_base", u32Json d.indexBase),
    ("index", .null),
    ("index_frame", textOrNull d.indexFrame),
    ("values", .arr ((resolvedElements d).map (elementJson num d))),
    ("class", .str ((resolvedElements d).map (·.cls))),
    ("pack_index_base", u32OrNullJson d.packIndexBase)]

end

section

variable (castNan : UInt64)

theorem writeReading_eq (v : ValueSample) :
    writeReading castNan v = (readingJson (numberJson castNan) v).render := by
  unfold writeReading readingJson
  split_ifs
  · exact jsonStringOf_eq _
  · exact numberFloat_eq castNan _ _

theorem writeValue_eq (v : ValueSample) (budget : Option UInt32) :
    writeValue castNan v budget = (valueJson (numberJson castNan) v budget).render := by
  unfold writeValue valueJson
  rw [render_object]
  simp only [List.append_assoc, jsonString_eq, stringOrNull_eq, writeReading_eq, writeBool_eq,
    writeWhy_nil, null_render, ite_render]
  rfl

/-- The class of a series is made of four characters, none of which is escaped. -/
theorem cls_mem (d : SeriesDef) {e : SeriesElement} (h : e ∈ resolvedElements d) :
    e.cls = 0x72 ∨ e.cls = 0x73 ∨ e.cls = 0x69 ∨ e.cls = 0x2D := by
  obtain ⟨i, -, rfl⟩ := List.mem_map.mp h
  unfold resolvedElement
  split
  · exact .inr (.inr (.inr rfl))
  · split_ifs with h1 h2 h3
    · exact .inr (.inl rfl)
    · exact .inr (.inr (.inr rfl))
    · rcases h3.1 with h3 | h3
      · exact .inl h3
      · exact .inr (.inr (.inl h3))
    · exact .inr (.inr (.inr rfl))

theorem renderString_class (d : SeriesDef) :
    (Json.str ((resolvedElements d).map (·.cls))).render =
      0x22 :: ((resolvedElements d).map (·.cls) ++ [0x22]) := by
  have hplain : ∀ es : List SeriesElement, (∀ e ∈ es, e ∈ resolvedElements d) →
      (es.map (·.cls)).flatMap Json.escapeByte = es.map (·.cls) := by
    intro es hes
    induction es with
    | nil => rfl
    | cons e es ih =>
      have he : Json.escapeByte e.cls = [e.cls] := by
        rcases cls_mem d (hes e List.mem_cons_self) with h | h | h | h <;> (rw [h]; rfl)
      rw [List.map_cons, List.flatMap_cons, he, ih fun e he => hes e (List.mem_cons_of_mem _ he)]
      rfl
  rw [Json.render, Json.renderString, hplain _ fun _ he => he]

theorem writeSeries_eq (d : SeriesDef) :
    writeSeries castNan d = (seriesJson (numberJson castNan) d).render := by
  have helement : ∀ e : SeriesElement,
      (if e.hasValue then numberFloat castNan e.value d.decimals else ascii "null") =
        (elementJson (numberJson castNan) d e).render := by
    intro e
    unfold elementJson
    split_ifs
    · exact numberFloat_eq castNan _ _
    · rfl
  have hvalues := writeArray_map (l := resolvedElements d) fun e _ => helement e
  unfold writeSeries seriesJson
  rw [render_object]
  simp only [List.append_assoc, jsonString_eq, stringOrNull_eq, numberU32_eq, u32OrNull_eq, hvalues,
    membersText, renderString_class, List.cons_append]
  rfl

end

/-! ## Reasons -/

/-- The members of the fragment that a provider declares. -/
def evidenceFields (fragment : List UInt8) : List (List UInt8 × Json) :=
  match Json.parse (0x7B :: (fragment ++ [0x7D])) with
  | some (.obj fields) => fields
  | _ => []

section

variable (num : Binary32 → Nat → Json)

def boundJson : HitBound → Json
  | .when b => object [("when", .bool b)]
  | .below b => object [("below", num b (shortestDecimals b))]
  | .above b => object [("above", num b (shortestDecimals b))]

def limitFields (limit : ValueSample × LimitHit) : List (List UInt8 × Json) :=
  [(ascii "value", .str limit.1.key),
    (ascii "level", .str ((levelName limit.2.level).getD [])),
    (ascii "reading",
      if limit.1.isBool then .bool limit.1.reading else num limit.1.number limit.1.decimals),
    (ascii "bound", boundJson num limit.2.bound)]

def childrenFields (s : Snapshot) (r : Resolved) (index : Nat) : List (List UInt8 × Json) :=
  (degradedChildren s r index).map fun j => (nodeId s j, .str (stateName (r.states j)))

def reasonFields (s : Snapshot) (r : Resolved) (index : Nat) (reason : NodeReason) :
    List (List UInt8 × Json) :=
  if reason.evidenceChildren then [(ascii "children", .obj (childrenFields s r index))]
  else
    match reason.limit with
    | some limit => limitFields num limit
    | none => (reason.evidence.map evidenceFields).getD []

/-- The block `why` of a node. -/
def nodeWhyJson (s : Snapshot) (r : Resolved) (node : NodeDef) (index : Nat) : Json :=
  if r.states index = .ok then .null
  else
    let reason := describeNodeReason node (r.states index)
    whyJson (reason.code.getD []) none (reasonFields num s r index reason)

end

/-- The three kinds of evidence exclude each other. -/
theorem describeNodeReason_evidence (node : NodeDef) (state : State) :
    let reason := describeNodeReason node state
    (reason.evidence = none ∨ reason.evidence = node.absentEvidence) ∧
      (reason.limit.isSome → reason.evidence = none) ∧
      (reason.evidenceChildren → reason.evidence = none ∧ reason.limit = none) := by
  dsimp only
  unfold describeNodeReason
  split_ifs
  · exact ⟨.inl rfl, nofun, nofun⟩
  · exact ⟨.inr rfl, nofun, nofun⟩
  · exact ⟨.inl rfl, nofun, nofun⟩
  · exact ⟨.inl rfl, nofun, nofun⟩
  · exact ⟨.inl rfl, nofun, nofun⟩
  · split
    · exact ⟨.inl rfl, fun _ => rfl, nofun⟩
    · exact ⟨.inl rfl, nofun, nofun⟩
  · split
    · exact ⟨.inl rfl, fun _ => rfl, nofun⟩
    · exact ⟨.inl rfl, nofun, fun _ => ⟨rfl, rfl⟩⟩

section

variable (castNan : UInt64)

theorem writeBound_eq (bound : HitBound) :
    writeBound castNan bound = (boundJson (numberJson castNan) bound).render := by
  cases bound with
  | below b =>
    rw [writeBound, boundJson, render_object, numberFloat_eq, List.append_assoc]
    rfl
  | above b =>
    rw [writeBound, boundJson, render_object, numberFloat_eq, List.append_assoc]
    rfl
  | when b =>
    rw [writeBound, boundJson, render_object, writeBool_eq, List.append_assoc]
    rfl

theorem writeLimitEvidence_eq (limit : ValueSample × LimitHit) :
    writeLimitEvidence castNan limit =
      Json.renderMembers (limitFields (numberJson castNan) limit) := by
  unfold writeLimitEvidence limitFields
  simp only [List.append_assoc, jsonString_eq, jsonStringOf_eq, writeBool_eq, numberFloat_eq,
    writeBound_eq, ite_render]
  rfl

theorem withCommas_members {α : Type} {f : α → List UInt8} {g : α → List UInt8 × Json}
    (h : ∀ x, f x = Json.renderString (g x).1 ++ 0x3A :: (g x).2.render) (xs : List α) :
    withCommas (xs.map f) = Json.renderMembers (xs.map g) := by
  induction xs with
  | nil => rfl
  | cons x xs ih =>
    cases xs with
    | nil => exact h x
    | cons y xs =>
      show f x ++ ascii "," ++ withCommas ((y :: xs).map f) = _
      rw [h x, ih, List.append_assoc, List.append_assoc]
      rfl

theorem writeChildrenEvidence_eq (s : Snapshot) (r : Resolved) (index : Nat) :
    writeChildrenEvidence s r index =
      Json.renderMembers [(ascii "children", .obj (childrenFields s r index))] := by
  have hmembers := withCommas_members
    (f := fun j => jsonString (nodeId s j) ++ ascii ":" ++ jsonString (stateName (r.states j)))
    (g := fun j => (nodeId s j, Json.str (stateName (r.states j)))) (by
      intro j
      rw [jsonString_eq, jsonString_eq, List.append_assoc]
      rfl) (degradedChildren s r index)
  unfold writeChildrenEvidence childrenFields
  rw [hmembers, List.append_assoc]
  rfl

/-- The fragment of a node is the text of members. -/
def NodeDef.FragmentOk (node : NodeDef) : Prop :=
  ∀ fragment ∈ node.absentEvidence, Json.renderMembers (evidenceFields fragment) = fragment

theorem writeNodeWhy_eq {s : Snapshot} {r : Resolved} {node : NodeDef} (h : node.FragmentOk)
    (index : Nat) : writeNodeWhy castNan s r node index =
      (nodeWhyJson (numberJson castNan) s r node index).render := by
  unfold writeNodeWhy nodeWhyJson
  by_cases hok : r.states index = .ok
  · rw [if_pos hok, if_pos hok]
    rfl
  · rw [if_neg hok, if_neg hok, ← writeWhy_eq]
    dsimp only
    congr 1
    obtain ⟨hfragment, hlimit, hchildren⟩ := describeNodeReason_evidence node (r.states index)
    generalize describeNodeReason node (r.states index) = reason at hfragment hlimit hchildren ⊢
    unfold reasonFields
    by_cases hc : reason.evidenceChildren = true
    · obtain ⟨hnone, hnolimit⟩ := hchildren hc
      rw [if_pos hc, if_pos hc, hnone, hnolimit]
      exact writeChildrenEvidence_eq s r index
    · rw [if_neg hc, if_neg hc, List.append_nil]
      cases hl : reason.limit with
      | some limit =>
        rw [hlimit (by rw [hl]; rfl)]
        exact writeLimitEvidence_eq castNan limit
      | none =>
        dsimp only
        rw [List.append_nil]
        cases he : reason.evidence with
        | none => rfl
        | some fragment =>
          have hmem : fragment ∈ node.absentEvidence := by
            rcases hfragment with hnone | hsome
            · rw [hnone] at he
              cases he
            · rw [← hsome, he]
              rfl
          exact (h fragment hmem).symm

end

/-! ## Actions -/

section

variable (num : Binary32 → Nat → Json)

def actionValueJson (v : ActionValue) (decimals : Nat) : Json :=
  match v with
  | .bool b => .bool b
  | .number x => num x decimals
  | .text t => .str t
  | .none => .null

def actionResultJson (r : ActionResult) (decimals : Nat) : Json :=
  object [
    ("state", .str (actionStateName r.state)),
    ("why", whyJson (actionCodeName r.code) none),
    ("age_ms", u32Json r.ageMs),
    ("value", actionValueJson num r.value decimals)]

def optionalNumberJson (known : Bool) (value : Binary32) (decimals : Nat) : Json :=
  if known && value.isFinite then num value decimals else .null

def actionBodyJson : Control → Json
  | .switch => object [("value", .str (ascii "bool"))]
  | .select => object [("value", .str (ascii "string"))]
  | .number => object [("value", .str (ascii "number"))]
  | .button => .null

def entityStateJson (d : ActionDef) (a : ActionSample) : Json :=
  if !a.hasValue then .null
  else
    match d.control with
    | .button => .null
    | .switch => .bool a.boolean
    | .select => .str a.text
    | .number => if a.number.isFinite then num a.number d.decimals else .null

def actionPath (nodeId key : List UInt8) : List UInt8 :=
  ascii "/api/v1/actions/" ++ (nodeId ++ (ascii "/" ++ key))

/-- An element of `actions`. -/
def actionJson (nodeId : List UInt8) (d : ActionDef) (a : ActionSample) : Json :=
  let enabled := a.enabled || decide (d.control = .switch) || decide (d.control = .button)
  let isNumber : Bool := d.control = .number
  object [
    ("key", .str d.key),
    ("label", .str d.label),
    ("method", .str (ascii "POST")),
    ("path", .str (actionPath nodeId d.key)),
    ("enabled", .bool enabled),
    ("why", if enabled then .null else whyJson (ascii "entity_unavailable") none),
    ("body", actionBodyJson d.control),
    ("control", .str (controlName d.control)),
    ("value", entityStateJson num d a),
    ("options", if d.control = .select then .arr (d.options.map Json.str) else .null),
    ("min", optionalNumberJson num (isNumber && a.hasMin) a.min d.decimals),
    ("max", optionalNumberJson num (isNumber && a.hasMax) a.max d.decimals),
    ("step", optionalNumberJson num (isNumber && a.hasStep) a.step d.decimals),
    ("unit", if isNumber then textOrNull a.unit else .null),
    ("result", if a.result.state = .none then .null else actionResultJson num a.result d.decimals)]

end

/-- A text that stands between quotes as it is. -/
def Plain (s : List UInt8) : Prop := ∀ c ∈ s, Json.escapeByte c = [c]

theorem Plain.append {a b : List UInt8} (ha : Plain a) (hb : Plain b) : Plain (a ++ b) := by
  intro c hc
  rcases List.mem_append.mp hc with h | h
  · exact ha c h
  · exact hb c h

theorem Plain.flatMap {s : List UInt8} (h : Plain s) : s.flatMap Json.escapeByte = s := by
  induction s with
  | nil => rfl
  | cons c s ih =>
    rw [List.flatMap_cons, h c List.mem_cons_self, ih fun d hd => h d (List.mem_cons_of_mem _ hd)]
    rfl

theorem Plain.render {s : List UInt8} (h : Plain s) : (Json.str s).render = 0x22 :: (s ++ [0x22]) := by
  rw [Json.render, Json.renderString, h.flatMap]

section

variable (castNan : UInt64)

theorem writeActionValue_eq (v : ActionValue) (d : Nat) :
    writeActionValue castNan v d = (actionValueJson (numberJson castNan) v d).render := by
  cases v with
  | none => rfl
  | bool b => exact writeBool_eq b
  | number x => exact numberFloat_eq castNan x d
  | text t => exact jsonString_eq t

theorem writeActionResult_eq (r : ActionResult) (d : Nat) :
    writeActionResult castNan r d = (actionResultJson (numberJson castNan) r d).render := by
  unfold writeActionResult actionResultJson
  rw [render_object]
  simp only [List.append_assoc, jsonString_eq, numberU32_eq, writeWhy_nil, writeActionValue_eq]
  rfl

theorem writeOptionalNumber_eq (known : Bool) (v : Binary32) (d : Nat) :
    writeOptionalNumber castNan known v d =
      (optionalNumberJson (numberJson castNan) known v d).render := by
  unfold writeOptionalNumber optionalNumberJson
  split_ifs
  · exact numberFloat_eq castNan v d
  · rfl

theorem writeActionBody_eq (control : Control) :
    writeActionBody control = (actionBodyJson control).render := by
  cases control <;> rfl

theorem writeEntityState_eq (d : ActionDef) (a : ActionSample) :
    writeEntityState castNan d a = (entityStateJson (numberJson castNan) d a).render := by
  unfold writeEntityState entityStateJson
  cases a.hasValue with
  | false => rfl
  | true =>
    cases d.control with
    | switch => exact writeBool_eq _
    | button => rfl
    | select => exact jsonString_eq _
    | number =>
      cases hfinite : a.number.isFinite with
      | true => exact numberFloat_eq castNan _ _
      | false => rfl

set_option maxRecDepth 8000 in
theorem actionPath_plain {nodeId key : List UInt8} (hid : Plain nodeId) (hkey : Plain key) :
    Plain (actionPath nodeId key) := by
  have hprefix : Plain (ascii "/api/v1/actions/") := by
    unfold Plain
    decide
  have hslash : Plain (ascii "/") := by
    unfold Plain
    decide
  exact hprefix.append (hid.append (hslash.append hkey))

theorem writeActionPath_eq {nodeId key : List UInt8} (hid : Plain nodeId) (hkey : Plain key)
    (rest : List UInt8) :
    ascii ",\"method\":\"POST\",\"path\":\"/api/v1/actions/" ++ (nodeId ++ (ascii "/" ++ (key ++
        (ascii "\",\"enabled\":" ++ rest)))) =
      ascii ",\"method\":\"POST\",\"path\":" ++ ((Json.str (actionPath nodeId key)).render ++
        (ascii ",\"enabled\":" ++ rest)) := by
  have hpath : ascii ",\"method\":\"POST\",\"path\":\"/api/v1/actions/" =
      ascii ",\"method\":\"POST\",\"path\":" ++ 0x22 :: ascii "/api/v1/actions/" := rfl
  have henabled : ascii "\",\"enabled\":" = 0x22 :: ascii ",\"enabled\":" := rfl
  rw [(actionPath_plain hid hkey).render, hpath, henabled]
  simp [actionPath]

set_option maxRecDepth 2000 in
theorem writeAction_eq {nodeId : List UInt8} {d : ActionDef} (hid : Plain nodeId)
    (hkey : Plain d.key) (a : ActionSample) :
    writeAction castNan nodeId d a = (actionJson (numberJson castNan) nodeId d a).render := by
  unfold writeAction actionJson
  rw [render_object]
  simp only [List.append_assoc, writeActionPath_eq hid hkey, jsonString_eq, stringOrNull_eq,
    writeBool_eq, writeWhy_nil, writeActionBody_eq, writeEntityState_eq, writeArray_strings,
    writeOptionalNumber_eq, writeActionResult_eq, null_render, ite_render]
  rfl

end

/-! ## Nodes and the envelope -/

section

variable (num : Binary32 → Nat → Json) (s : Snapshot) (r : Resolved)

def roleFields (node : NodeDef) : List (String × Json) :=
  match node.role with
  | none => []
  | some role =>
    [("role", .str role),
      ("roles_available", .arr ((csvAsJsonArray node.rolesAvailable).map Json.str))]

/-- A node with the documents of its children. -/
def nodeObject (node : NodeDef) (index : Nat) (children : List Json) : Json :=
  object ([
    ("id", .str node.id),
    ("kind", .str node.kind),
    ("label", .str node.label),
    ("state", .str (stateName (r.states index))),
    ("why", nodeWhyJson num s r node index),
    ("provenance", provenanceJson s r node index),
    ("values", .arr (node.values.map fun v => valueJson num v node.budget)),
    ("series", ((emittedSeries s r index).map (seriesJson num)).getD .null),
    ("children", .arr children),
    ("actions", .arr (node.actions.map fun a => actionJson num node.id a.1 a.2))] ++
    roleFields node)

/-- A node with its children. -/
def nodeJson : Nat → Nat → Json
  | 0, _ => .null
  | fuel + 1, index =>
    match s.nodes[index]? with
    | none => .null
    | some node => nodeObject num s r node index ((s.children index).map (nodeJson fuel))

def ancestorRoleJson (rootIndex : Nat) : Json :=
  match ancestorRole s rootIndex with
  | none => .null
  | some ancestor =>
    object [("node", .str ancestor.id), ("label", .str ancestor.label),
      ("role", .str (ancestor.role.getD []))]

def legendJson : Json :=
  object [("r", .str (ascii "real")), ("s", .str (ascii "SNA")), ("i", .str (ascii "implausible")),
    ("-", .str (ascii "not measured"))]

def linkJson (link : LinkDef) : Json :=
  object [("rel", .str link.rel), ("label", .str link.label), ("href", .str link.href)]

def narrowedFields (path : Option (List UInt8)) : List (String × Json) :=
  match narrowedTo s path with
  | some index => [("path", .str (nodeId s index)), ("ancestor_role", ancestorRoleJson s index)]
  | none => []

def treeJson (path : Option (List UInt8)) : Json :=
  nodeJson num s r s.nodes.length ((narrowedTo s path).getD 0)

/-- The whole document. -/
def envelopeJson (path : Option (List UInt8)) : Json :=
  object ([
    ("schema_version", u32Json 2),
    ("seq", u32Json s.seq),
    ("series_legend",
      if subtreeHasSeries s r ((narrowedTo s path).getD 0) then legendJson else .null),
    ("served_by", servedByJson s),
    ("peers", .arr []),
    ("links", .arr (s.links.map linkJson))] ++ (narrowedFields s path ++
    [("tree", treeJson num s r path)]))

end

/-- What is written as it stands is plain text: the ids and the keys in the paths of the actions,
and the fragments of evidence. -/
structure NodeDef.Plain (node : NodeDef) : Prop where
  fragment : node.FragmentOk
  path : ∀ a ∈ node.actions, EspCars.Portal.Plain node.id ∧ EspCars.Portal.Plain a.1.key

theorem mem_children {s : Snapshot} {index j : Nat} :
    j ∈ s.children index ↔
      j < s.nodes.length ∧ index < j ∧ (s.nodes[j]?.bind NodeDef.parent) = some index := by
  unfold Snapshot.children
  rw [List.mem_filter, List.mem_range, decide_eq_true_iff]

section

variable (castNan : UInt64) {s : Snapshot} (hs : ∀ node ∈ s.nodes, node.Plain) (r : Resolved)

set_option maxRecDepth 2000 in
theorem writeNodeObject_eq {node : NodeDef} (h : node.Plain) (index : Nat)
    {children : List (List UInt8)} {childrenJson : List Json}
    (hchildren : writeArray children = (Json.arr childrenJson).render) :
    ascii "\x7b\"id\":" ++ jsonString node.id ++
      ascii ",\"kind\":" ++ jsonString node.kind ++
      ascii ",\"label\":" ++ jsonString node.label ++
      ascii ",\"state\":" ++ jsonString (stateName (r.states index)) ++
      ascii ",\"why\":" ++ writeNodeWhy castNan s r node index ++
      ascii ",\"provenance\":" ++ writeProvenance s r node index ++
      ascii ",\"values\":" ++
        writeArray (node.values.map fun v => writeValue castNan v node.budget) ++
      ascii ",\"series\":" ++
        (match emittedSeries s r index with
          | some d => writeSeries castNan d
          | none => ascii "null") ++
      ascii ",\"children\":" ++ writeArray children ++
      ascii ",\"actions\":" ++
        writeArray (node.actions.map fun a => writeAction castNan node.id a.1 a.2) ++
      writeRole node ++
      ascii "\x7d" =
        (nodeObject (numberJson castNan) s r node index childrenJson).render := by
  have hvalues := writeArray_map (l := node.values) (f := fun v => writeValue castNan v node.budget)
    (g := fun v => valueJson (numberJson castNan) v node.budget)
    fun v _ => writeValue_eq castNan v node.budget
  have hactions := writeArray_map (l := node.actions)
    (f := fun a => writeAction castNan node.id a.1 a.2)
    (g := fun a => actionJson (numberJson castNan) node.id a.1 a.2) (by
      intro a ha
      obtain ⟨hid, hkey⟩ := h.path a ha
      exact writeAction_eq castNan hid hkey a.2)
  have hseries : (match emittedSeries s r index with
      | some d => writeSeries castNan d
      | none => ascii "null") =
        (((emittedSeries s r index).map (seriesJson (numberJson castNan))).getD .null).render := by
    cases emittedSeries s r index with
    | none => rfl
    | some d => exact writeSeries_eq castNan d
  rw [hseries]
  unfold nodeObject writeRole roleFields
  rw [render_object]
  cases node.role with
  | none =>
    simp only [List.append_assoc, jsonString_eq, writeNodeWhy_eq castNan h.fragment,
      writeProvenance_eq, hvalues, hchildren, hactions]
    rfl
  | some role =>
    simp only [List.append_assoc, jsonString_eq, writeNodeWhy_eq castNan h.fragment,
      writeProvenance_eq, hvalues, hchildren, hactions, writeArray_strings]
    rfl

include hs

theorem writeNode_eq {fuel index : Nat} (hfuel : s.nodes.length ≤ index + fuel)
    (hindex : index < s.nodes.length) :
    writeNode castNan s r fuel index = (nodeJson (numberJson castNan) s r fuel index).render := by
  induction fuel generalizing index with
  | zero => omega
  | succ fuel ih =>
    have hget : s.nodes[index]? = some s.nodes[index] := List.getElem?_eq_getElem hindex
    have hchildren := writeArray_map (l := s.children index) (f := writeNode castNan s r fuel)
      fun j hj => ih (by have := (mem_children.mp hj).2.1; omega) (mem_children.mp hj).1
    rw [writeNode, nodeJson, hget]
    exact writeNodeObject_eq castNan r (hs _ (List.getElem_mem hindex)) index hchildren

end

theorem writeAncestorRole_eq (s : Snapshot) (rootIndex : Nat) :
    writeAncestorRole s rootIndex = (ancestorRoleJson s rootIndex).render := by
  unfold writeAncestorRole ancestorRoleJson
  cases ancestorRole s rootIndex with
  | none => rfl
  | some ancestor =>
    dsimp only
    rw [render_object]
    simp only [List.append_assoc, jsonString_eq, jsonStringOf_eq]
    rfl

theorem writeLink_eq (link : LinkDef) : writeLink link = (linkJson link).render := by
  unfold writeLink linkJson
  rw [render_object]
  simp only [List.append_assoc, jsonString_eq]
  rfl

theorem indexOf_lt {s : Snapshot} {id : List UInt8} {index : Nat} (h : indexOf s id = some index) :
    index < s.nodes.length :=
  (List.findIdx?_eq_some_iff_findIdx_eq.mp h).1

theorem narrowedTo_lt {s : Snapshot} (hne : s.nodes ≠ []) (path : Option (List UInt8)) :
    (narrowedTo s path).getD 0 < s.nodes.length := by
  cases h : narrowedTo s path with
  | none => exact List.length_pos_iff.mpr hne
  | some index =>
    obtain ⟨id, -, hid⟩ := Option.bind_eq_some_iff.mp h
    exact indexOf_lt hid

theorem legend_render :
    ascii "\x7b\"r\":\"real\",\"s\":\"SNA\",\"i\":\"implausible\",\"-\":\"not measured\"\x7d" =
      legendJson.render :=
  rfl

/-- The envelope is the text of its document. -/
theorem writeEnvelope_eq (castNan : UInt64) {s : Snapshot} (hs : ∀ node ∈ s.nodes, node.Plain)
    (hne : s.nodes ≠ []) (r : Resolved) (path : Option (List UInt8)) :
    writeEnvelope castNan s r path = (envelopeJson (numberJson castNan) s r path).render := by
  have htree : writeNode castNan s r s.nodes.length ((narrowedTo s path).getD 0) =
      (treeJson (numberJson castNan) s r path).render :=
    writeNode_eq castNan hs r (Nat.le_add_left _ _) (narrowedTo_lt hne path)
  have hlinks := writeArray_map (l := s.links) fun link _ => writeLink_eq link
  unfold writeEnvelope envelopeJson narrowedFields
  dsimp only
  rw [render_object, htree]
  cases narrowedTo s path with
  | none =>
    simp only [List.append_assoc, numberU32_eq, legend_render, null_render, ite_render,
      writeServedBy_eq, hlinks]
    rfl
  | some index =>
    simp only [List.append_assoc, jsonString_eq, numberU32_eq, legend_render, null_render, ite_render,
      writeServedBy_eq, hlinks, writeAncestorRole_eq]
    rfl

/-- What a client that accepts only UTF-8 makes of the envelope. -/
theorem loads_writeEnvelope (castNan : UInt64) {s : Snapshot} (hs : ∀ node ∈ s.nodes, node.Plain)
    (hne : s.nodes ≠ []) (r : Resolved) (path : Option (List UInt8)) :
    Json.loads (writeEnvelope castNan s r path) =
      if (envelopeJson (numberJson castNan) s r path).texts.all utf8 then
        some (envelopeJson (numberJson castNan) s r path)
      else none := by
  rw [writeEnvelope_eq castNan hs hne, Json.loads_render]

end EspCars.Portal
