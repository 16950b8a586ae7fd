import EspCars.Portal.Request

/-!
# What an action request is answered

`ActionDef`, `ActionSample` and `ActionResult` of `components/portal/portal_core.h`, the sampling of
an action's entity (`Portal::sample_action_`) and the evaluation of a request, `evaluate_action_json`
and `evaluate_action_text`. A C string is the list of its bytes, without the NUL.
-/

namespace EspCars.Portal

open EspCars.Lib

/-- `Control` -/
inductive Control
  | switch | button | select | number
  deriving DecidableEq, Repr

/-- `ActionState`; `none` is never invoked since boot. -/
inductive ActionState
  | none | running | accepted | refused
  deriving DecidableEq, Repr

/-- `ActionCode`: why the result is what it is. -/
inductive ActionCode
  | none | queued | applied | invalidBody | wrongType | outOfRange | unknownOption | disabled
  | bodyTooLarge
  deriving DecidableEq, Repr

/-- A requested value as parsed. -/
inductive ActionValue
  | none
  | bool (b : Bool)
  | number (v : Binary32)
  | text (s : List UInt8)
  deriving DecidableEq

/-- `ActionResult` -/
structure ActionResult where
  state : ActionState := .none
  code : ActionCode := .none
  ageMs : UInt32 := 0
  value : ActionValue := .none
  deriving DecidableEq

/-- `ActionDef` -/
structure ActionDef where
  key : List UInt8
  label : List UInt8
  control : Control
  decimals : Nat := 0
  options : List (List UInt8) := []
  deriving DecidableEq

/-- `ActionSample` -/
structure ActionSample where
  enabled : Bool := true
  hasValue : Bool := false
  boolean : Bool := false
  number : Binary32 := ⟨0⟩
  text : List UInt8 := []
  hasMin : Bool := false
  hasMax : Bool := false
  hasStep : Bool := false
  min : Binary32 := ⟨0⟩
  max : Binary32 := ⟨0⟩
  step : Binary32 := ⟨0⟩
  unit : Option (List UInt8) := none
  result : ActionResult := {}
  deriving DecidableEq

/-! ## Sampling -/

/-- The entity that an action drives: the state of a switch, the active option of a select, the
state and the traits of a number. -/
inductive Entity
  | switch (state : Bool)
  | button
  | select (active : Option (List UInt8))
  | number (state min max step : Binary32) (unit : List UInt8)
  deriving DecidableEq

def Entity.control : Entity → Control
  | .switch _ => .switch
  | .button => .button
  | .select _ => .select
  | .number .. => .number

/-- `sample_action_`. The fields it does not write keep what they held. -/
def sampleAction (out : ActionSample) (entity : Entity) : ActionSample :=
  let out := { out with
    enabled := true, hasValue := false, hasMin := false, hasMax := false, hasStep := false,
    unit := none }
  match entity with
  | .switch state => { out with hasValue := true, boolean := state }
  | .button => out
  | .select active =>
    match active with
    | some option =>
      { out with text := option.take (actionTextMax - 1), hasValue := true, enabled := true }
    | none => { out with enabled := false }
  | .number state min max step unit =>
    { out with
      hasValue := !state.isNan, number := state
      hasMin := !min.isNan, min := min
      hasMax := !max.isNan, max := max
      hasStep := !step.isNan, step := step
      unit := if unit = [] then none else some unit
      enabled := !state.isNan }

/-! ## Evaluation -/

/-- `Verdict` -/
inductive Verdict
  | accept | refuse | busy
  deriving DecidableEq, Repr

/-- The verdict with the reply. -/
structure ActionOutcome where
  verdict : Verdict := .refuse
  http : Nat := 400
  code : ActionCode := .none
  value : ActionValue := .none
  deriving DecidableEq

/-- `ACTION_BODY_MAX` -/
def actionBodyMax : Nat := 256

def refuse (http : Nat) (code : ActionCode) (value : ActionValue := .none) : ActionOutcome :=
  { verdict := .refuse, http := http, code := code, value := value }

/-- A request that is queued. -/
def accept (value : ActionValue := .none) : ActionOutcome :=
  { verdict := .accept, http := 202, code := .queued, value := value }

/-- `has_option` -/
def hasOption (d : ActionDef) (text : List UInt8) : Bool := d.options.contains (cstr text)

def valueFrom (jv : JsonValue) : ActionValue :=
  match jv.kind with
  | .bool => .bool jv.boolean
  | .number => if jv.number.isFinite then .number jv.number.toFloat else .none
  | .text => .text ((cstr jv.text).take (actionTextMax - 1))
  | _ => .none

def actionEnabled (d : ActionDef) (sample : ActionSample) : Bool :=
  d.control = .switch ∨ d.control = .button ∨ sample.enabled

/-- Below the minimum or above the maximum, where there is one; nothing is below or above a NaN. -/
def outOfRange (sample : ActionSample) (v : Binary64) : Bool :=
  !v.isFinite ||
    sample.hasMin && !sample.min.isNan && decide (v.toInt < Binary64.unitsOfFloat sample.min) ||
    sample.hasMax && !sample.max.isNan && decide (Binary64.unitsOfFloat sample.max < v.toInt)

def evaluateTyped (d : ActionDef) (sample : ActionSample) (jv : JsonValue) : ActionOutcome :=
  let parsed := valueFrom jv
  match d.control with
  | .switch => if jv.kind ≠ .bool then refuse 400 .wrongType parsed else accept parsed
  | .select =>
    if jv.kind ≠ .text then refuse 400 .wrongType parsed
    else if jv.truncated || !hasOption d jv.text then refuse 422 .unknownOption parsed
    else accept parsed
  | .number =>
    if jv.kind ≠ .number then refuse 400 .wrongType parsed
    else if outOfRange sample jv.number then refuse 422 .outOfRange parsed
    else accept parsed
  | .button => accept parsed

/-- The `value` field of a form, typed by the control. -/
def formValue (control : Control) (text : List UInt8) : JsonValue :=
  let asText : JsonValue :=
    { kind := .text, text := text.take (actionTextMax - 1), truncated := actionTextMax ≤ text.length }
  match control with
  | .switch =>
    if equalsCi text "true" || equalsCi text "on" || text = ascii "1" then
      { asText with kind := .bool, boolean := true }
    else if equalsCi text "false" || equalsCi text "off" || text = ascii "0" then
      { asText with kind := .bool }
    else asText
  | .number =>
    match parseNumberSpan text true with
    | some n => { asText with kind := .number, number := n }
    | none =>
      if equalsCi text "nan" || equalsCi text "inf" || equalsCi text "+inf" ||
          equalsCi text "-inf" || equalsCi text "infinity" then
        { asText with kind := .number, number := { magnitude := .infinite } }
      else asText
  | _ => asText

/-- A request as `serve_action_` reads it: the body it was sent, or the field `value` of a form, if
there is one, and the length of the form's body. -/
inductive ActionRequest
  | json (body : List UInt8)
  | form (value : Option (List UInt8)) (contentLength : Nat)
  deriving DecidableEq

/-- What the two evaluations share: disabled, busy and size, in this order, and then the body. -/
def evaluateGuarded (d : ActionDef) (sample : ActionSample) (busy : Bool) (bodyLen : Nat)
    (rest : ActionOutcome) : ActionOutcome :=
  if !actionEnabled d sample then refuse 409 .disabled
  else if busy then { verdict := .busy, http := 409 }
  else if bodyLen > actionBodyMax then refuse 400 .bodyTooLarge
  else rest

/-- `evaluate_action_json` -/
def evaluateActionJson (d : ActionDef) (sample : ActionSample) (busy : Bool) (body : List UInt8) :
    ActionOutcome :=
  evaluateGuarded d sample busy body.length <|
    match parseJsonBody body with
    | none => refuse 400 .invalidBody
    | some parsed =>
      if d.control = .button then accept
      else
        match parsed with
        | none => refuse 400 .invalidBody
        | some jv =>
          if jv.kind = .missing then refuse 400 .invalidBody else evaluateTyped d sample jv

/-- `evaluate_action_text` -/
def evaluateActionText (d : ActionDef) (sample : ActionSample) (busy : Bool)
    (value : Option (List UInt8)) (bodyLen : Nat) : ActionOutcome :=
  evaluateGuarded d sample busy bodyLen <|
    if d.control = .button then accept
    else
      match value with
      | none => refuse 400 .invalidBody
      | some text => evaluateTyped d sample (formValue d.control (cstr text))

def evaluateAction (d : ActionDef) (sample : ActionSample) (busy : Bool) :
    ActionRequest → ActionOutcome
  | .json body => evaluateActionJson d sample busy body
  | .form value contentLength => evaluateActionText d sample busy value contentLength

/-! ## What an answer says -/

section Outcome

variable {d : ActionDef} {sample : ActionSample} {request : ActionRequest}

theorem evaluateAction_disabled (busy : Bool) (h : actionEnabled d sample = false) :
    evaluateAction d sample busy request = refuse 409 .disabled := by
  cases request with
  | json body =>
    simp only [evaluateAction, evaluateActionJson, evaluateGuarded, h, Bool.not_false, if_true]
  | form value contentLength =>
    simp only [evaluateAction, evaluateActionText, evaluateGuarded, h, Bool.not_false, if_true]

theorem evaluateAction_busy (h : actionEnabled d sample = true) :
    evaluateAction d sample true request = { verdict := .busy, http := 409 } := by
  cases request with
  | json body =>
    simp only [evaluateAction, evaluateActionJson, evaluateGuarded, h, Bool.not_true, if_true,
      Bool.false_eq_true, if_false]
  | form value contentLength =>
    simp only [evaluateAction, evaluateActionText, evaluateGuarded, h, Bool.not_true, if_true,
      Bool.false_eq_true, if_false]

/-- A request is answered 202 if and only if it is accepted, and then it is queued. -/
structure Answered (outcome : ActionOutcome) : Prop where
  http : outcome.http = 202 ↔ outcome.verdict = .accept
  queued : outcome.verdict = .accept → outcome.code = .queued

theorem answered_refuse {http : Nat} {code : ActionCode} {value : ActionValue} (h : http ≠ 202) :
    Answered (refuse http code value) :=
  ⟨⟨fun heq => absurd heq h, nofun⟩, nofun⟩

theorem answered_accept (value : ActionValue) : Answered (accept value) :=
  ⟨⟨fun _ => rfl, fun _ => rfl⟩, fun _ => rfl⟩

theorem answered_evaluateTyped (jv : JsonValue) : Answered (evaluateTyped d sample jv) := by
  unfold evaluateTyped
  cases d.control with
  | switch =>
    dsimp only
    split_ifs
    · exact answered_refuse (by decide)
    · exact answered_accept _
  | select =>
    dsimp only
    split_ifs
    · exact answered_refuse (by decide)
    · exact answered_refuse (by decide)
    · exact answered_accept _
  | number =>
    dsimp only
    split_ifs
    · exact answered_refuse (by decide)
    · exact answered_refuse (by decide)
    · exact answered_accept _
  | button => exact answered_accept _

theorem answered_evaluateGuarded {busy : Bool} {bodyLen : Nat} {rest : ActionOutcome}
    (h : Answered rest) : Answered (evaluateGuarded d sample busy bodyLen rest) := by
  unfold evaluateGuarded
  split_ifs
  · exact answered_refuse (by decide)
  · exact ⟨⟨nofun, nofun⟩, nofun⟩
  · exact answered_refuse (by decide)
  · exact h

theorem answered_evaluateAction (busy : Bool) (request : ActionRequest) :
    Answered (evaluateAction d sample busy request) := by
  cases request with
  | json body =>
    apply answered_evaluateGuarded
    split
    · exact answered_refuse (by decide)
    · split_ifs
      · exact answered_accept _
      · split
        · exact answered_refuse (by decide)
        · split_ifs
          · exact answered_refuse (by decide)
          · exact answered_evaluateTyped _
  | form value contentLength =>
    apply answered_evaluateGuarded
    split_ifs
    · exact answered_accept _
    · split
      · exact answered_refuse (by decide)
      · exact answered_evaluateTyped _

/-- Nothing is accepted while an invocation is pending. -/
theorem busy_of_accept {busy : Bool} (h : (evaluateAction d sample busy request).verdict = .accept) :
    busy = false := by
  cases busy with
  | false => rfl
  | true =>
    cases henabled : actionEnabled d sample with
    | false =>
      rw [evaluateAction_disabled true henabled] at h
      cases h
    | true =>
      rw [evaluateAction_busy henabled] at h
      cases h

end Outcome

end EspCars.Portal
