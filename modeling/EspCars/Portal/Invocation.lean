import EspCars.Lib.Run
import EspCars.Portal.Actions
import Mathlib

/-!
# Requests and the main loop

`Portal::serve_action_` on the web server's task and `run_actions_` and `sample_` on the main loop,
over the `n` actions of a portal. Every critical section of the mutex is one event, and so is the
call of the entity, which is made outside of it; between them anything else can happen, the
entities included. What was answered 202 and what was performed is kept in full.

`serve_action_` records the outcome of a request even while an earlier one is pending, when the
action has lost its state in between: `disabled` is checked before `busy`. The main loop then
completes the earlier request on top of that record. `Undisturbed` says that this does not happen,
and then all that is recorded is true (`truthful_iff`).
-/

namespace EspCars.Portal

open EspCars.Lib

/-- `ActionRuntime`. -/
structure ActionRuntime where
  pending : Bool := false
  pendingValue : ActionValue := .none
  result : ActionResult := {}
  deriving DecidableEq

/-- Where the main loop is: before the first critical section of an action, about to call its
entity, before the second critical section, or before `sample_`. -/
inductive LoopState (n : Nat)
  | actions (i : Nat)
  | performing (i : Fin n) (value : ActionValue)
  | recording (i : Fin n)
  | sampling
  deriving DecidableEq

/-- The runtime and the sample of every action, its entity, the main loop, and the history: which
verdict the shown value of an action comes from, what was answered 202 and what was performed. -/
structure Invocations (n : Nat) where
  rt : Fin n → ActionRuntime
  samples : Fin n → ActionSample
  entities : Fin n → Entity
  loop : LoopState n := .actions 0
  recordedBy : Fin n → Option Verdict := fun _ => none
  answered : List (Fin n × ActionValue) := []
  performed : List (Fin n × ActionValue) := []

/-- What happens in one of the tasks. -/
inductive InvocationEvent (n : Nat)
  /-- A POST request for the action it names, if there is one; `authorized` and `locked` are what
  the login and the mutex (within 200 ms) answer. -/
  | request (target : Option (Fin n)) (authorized locked : Bool) (request : ActionRequest)
  /-- The next step of the main loop; `locked` is the answer of the mutex where it is tried. -/
  | main (locked : Bool)
  | entity (i : Fin n) (entity : Entity)
  deriving DecidableEq

namespace Invocations

variable {n : Nat} (defs : Fin n → ActionDef)

/-- After `setup`, with the entities in any state. -/
def init (entities : Fin n → Entity) : Invocations n where
  rt := fun _ => {}
  samples := fun _ => {}
  entities := entities

/-- Both places that hold the result of an action. -/
def setResult (s : Invocations n) (i : Fin n) (rt : ActionRuntime) : Invocations n :=
  { s with
    rt := Function.update s.rt i rt
    samples := Function.update s.samples i { s.samples i with result := rt.result } }

/-- The critical section of `serve_action_`. -/
def serveAction (s : Invocations n) (i : Fin n) (request : ActionRequest) : Invocations n :=
  let outcome := evaluateAction (defs i) (s.samples i) (s.rt i).pending request
  match outcome.verdict with
  | .busy => s
  | .refuse =>
    let result : ActionResult :=
      { state := .refused, code := outcome.code, value := outcome.value }
    { s.setResult i { s.rt i with result := result } with
      recordedBy := Function.update s.recordedBy i (some .refuse) }
  | .accept =>
    let result : ActionResult :=
      { state := .running, code := outcome.code, value := outcome.value }
    { s.setResult i { pending := true, pendingValue := outcome.value, result := result } with
      recordedBy := Function.update s.recordedBy i (some .accept)
      answered := s.answered ++ [(i, outcome.value)] }

/-- One step of `run_actions_`, or `sample_` behind them. -/
def mainStep (s : Invocations n) (locked : Bool) : Invocations n :=
  match s.loop with
  | .actions i =>
    if h : i < n then
      if !locked then { s with loop := .sampling }
      else if (s.rt ⟨i, h⟩).pending then
        { s with loop := .performing ⟨i, h⟩ (s.rt ⟨i, h⟩).pendingValue }
      else { s with loop := .actions (i + 1) }
    else { s with loop := .sampling }
  | .performing i value =>
    { s with performed := s.performed ++ [(i, value)], loop := .recording i }
  | .recording i =>
    let rt := s.rt i
    let result := { rt.result with state := .accepted, code := .applied }
    { s.setResult i { rt with pending := false, result := result } with loop := .actions (i + 1) }
  | .sampling =>
    if locked then
      { s with
        samples := fun i =>
          { sampleAction (s.samples i) (s.entities i) with result := (s.rt i).result }
        loop := .actions 0 }
    else { s with loop := .actions 0 }

/-- An entity keeps its kind. -/
def step (s : Invocations n) : InvocationEvent n → Invocations n
  | .request (some i) true true request => s.serveAction defs i request
  | .request .. => s
  | .main locked => s.mainStep locked
  | .entity i entity =>
    if entity.control = (defs i).control then
      { s with entities := Function.update s.entities i entity }
    else s

/-- The values of the entries about `i`. -/
def valuesOf (i : Fin n) (log : List (Fin n × ActionValue)) : List ActionValue :=
  (log.filter (·.1 = i)).map Prod.snd

/-- The value that the entity of `i` is still to be called with. -/
def waiting (s : Invocations n) (i : Fin n) : List ActionValue :=
  if (s.rt i).pending ∧ s.loop ≠ .recording i then [(s.rt i).pendingValue] else []

/-- Everything answered 202 is performed once, in order, and nothing else is; what is pending is
shown as running, and what is shown as applied was asked for and performed. -/
structure Truthful (s : Invocations n) : Prop where
  once : ∀ i, valuesOf i s.answered = valuesOf i s.performed ++ s.waiting i
  settles : ∃ k, ∀ i, (exec mainStep s (List.replicate k true)).waiting i = []
  shown : ∀ i, (s.samples i).result = (s.rt i).result
  running : ∀ i, (s.rt i).pending → (s.rt i).result.state = .running ∧
    (s.rt i).result.code = .queued ∧ (s.rt i).result.value = (s.rt i).pendingValue
  applied : ∀ i, (s.rt i).result.state = .accepted → (s.rt i).result.code = .applied ∧
    (i, (s.rt i).result.value) ∈ s.answered ∧ (i, (s.rt i).result.value) ∈ s.performed
  accepted : ∀ i, (s.rt i).result.state = .accepted → s.recordedBy i = some .accept

/-- The event is not a request for an action that is pending and has lost its state. -/
def Undisturbed (s : Invocations n) : InvocationEvent n → Prop
  | .request (some i) true true _ =>
    ¬ ((s.rt i).pending ∧ actionEnabled (defs i) (s.samples i) = false)
  | _ => True

/-! ## The main loop alone -/

section Progress

variable {s s' s'' : Invocations n}

/-- The main loop gets from `s` to `s'` while nothing else happens and the mutex is free. -/
def Reaches (s s' : Invocations n) : Prop :=
  ∃ k, exec mainStep s (List.replicate k true) = s'

theorem Reaches.refl (s : Invocations n) : Reaches s s := ⟨0, rfl⟩

theorem Reaches.trans (h : Reaches s s') (h' : Reaches s' s'') : Reaches s s'' := by
  obtain ⟨k, rfl⟩ := h
  obtain ⟨k', rfl⟩ := h'
  exact ⟨k + k', by rw [← List.replicate_append_replicate, exec_append]⟩

theorem Reaches.step (h : Reaches (s.mainStep true) s') : Reaches s s' :=
  Reaches.trans ⟨1, rfl⟩ h

/-- The second critical section of `i` ends what was pending. -/
theorem pending_recorded {i : Fin n} (h : s.loop = .recording i) :
    (s.mainStep true).loop = .actions (i + 1) ∧
      ∀ j, ((s.mainStep true).rt j).pending → (s.rt j).pending ∧ j ≠ i := by
  unfold mainStep
  rw [h]
  apply And.intro rfl
  intro j hj
  by_cases hji : j = i
  · subst hji
    simp only [setResult, Function.update_self] at hj
    cases hj
  · simp only [setResult, Function.update_of_ne hji] at hj
    exact ⟨hj, hji⟩

theorem exists_performed {i : Fin n} {value : ActionValue} (h : s.loop = .performing i value) :
    ∃ s', Reaches s s' ∧ s'.loop = .actions (i + 1) ∧
      ∀ j, (s'.rt j).pending → (s.rt j).pending ∧ j ≠ i := by
  have hnext : (s.mainStep true).loop = .recording i ∧ (s.mainStep true).rt = s.rt := by
    unfold mainStep
    rw [h]
    exact ⟨rfl, rfl⟩
  have hrec := pending_recorded hnext.1
  rw [hnext.2] at hrec
  exact ⟨_, (Reaches.refl _).step.step, hrec⟩

/-- The turn of `i` in `run_actions_`. -/
theorem exists_turn {i : Nat} (hi : i < n) (h : s.loop = .actions i) :
    ∃ s', Reaches s s' ∧ s'.loop = .actions (i + 1) ∧
      ∀ j : Fin n, (s'.rt j).pending → (s.rt j).pending ∧ j.val ≠ i := by
  cases hpending : (s.rt ⟨i, hi⟩).pending with
  | false =>
    have hnext : s.mainStep true = { s with loop := .actions (i + 1) } := by
      unfold mainStep
      rw [h]
      simp only [hi, dite_true, hpending, Bool.not_true, Bool.false_eq_true, if_false]
    refine ⟨{ s with loop := .actions (i + 1) }, ⟨1, hnext⟩, rfl, ?_⟩
    intro j hj
    refine ⟨hj, ?_⟩
    intro hji
    have heq : j = ⟨i, hi⟩ := Fin.ext hji
    rw [heq, hpending] at hj
    cases hj
  | true =>
    have hnext : s.mainStep true =
        { s with loop := .performing ⟨i, hi⟩ (s.rt ⟨i, hi⟩).pendingValue } := by
      unfold mainStep
      rw [h]
      simp only [hi, dite_true, hpending, Bool.not_true, Bool.false_eq_true, if_false, if_true]
    obtain ⟨s', hreach, hloop, hrest⟩ := exists_performed (s := s.mainStep true) (by rw [hnext])
    refine ⟨s', hreach.step, hloop, ?_⟩
    intro j hj
    obtain ⟨hold, hne⟩ := hrest j hj
    rw [hnext] at hold
    exact ⟨hold, fun hji => hne (Fin.ext hji)⟩

/-- From the first critical section of `i` on, every action from `i` on is done with. -/
theorem exists_passed {i : Nat} (hi : i ≤ n) (h : s.loop = .actions i) :
    ∃ s', Reaches s s' ∧ s'.loop = .actions n ∧
      ∀ j : Fin n, (s'.rt j).pending → (s.rt j).pending ∧ j.val < i := by
  induction hk : n - i generalizing s i with
  | zero =>
    have hin : i = n := by omega
    refine ⟨s, Reaches.refl s, by rw [h, hin], ?_⟩
    intro j hj
    exact ⟨hj, by omega⟩
  | succ k ih =>
    obtain ⟨s₁, hreach₁, hloop₁, hturn⟩ := exists_turn (by omega) h
    obtain ⟨s₂, hreach₂, hloop₂, hrest⟩ := ih (by omega) hloop₁ (by omega)
    refine ⟨s₂, hreach₁.trans hreach₂, hloop₂, ?_⟩
    intro j hj
    obtain ⟨hj₁, hlt⟩ := hrest j hj
    obtain ⟨hj₀, hne⟩ := hturn j hj₁
    exact ⟨hj₀, by omega⟩

/-- The end of a pass and `sample_` lead to the next pass. -/
theorem reaches_start_of_end {i : Nat} (hi : n ≤ i) (h : s.loop = .actions i) :
    ∃ s', Reaches s s' ∧ s'.loop = .actions 0 := by
  have hnext : (s.mainStep true).loop = .sampling := by
    unfold mainStep
    rw [h]
    simp only [Nat.not_lt.mpr hi, dite_false]
  refine ⟨_, (Reaches.refl _).step.step, ?_⟩
  rw [mainStep, hnext]
  rfl

theorem reaches_start (s : Invocations n) : ∃ s', Reaches s s' ∧ s'.loop = .actions 0 := by
  have hactions : ∀ {s : Invocations n} {i : Nat}, s.loop = .actions i →
      ∃ s', Reaches s s' ∧ s'.loop = .actions 0 := by
    intro s i h
    rcases Nat.le_total i n with hi | hi
    · obtain ⟨s₁, hreach₁, hloop₁, -⟩ := exists_passed hi h
      obtain ⟨s₂, hreach₂, hloop₂⟩ := reaches_start_of_end (Nat.le_refl n) hloop₁
      exact ⟨s₂, hreach₁.trans hreach₂, hloop₂⟩
    · exact reaches_start_of_end hi h
  cases h : s.loop with
  | actions i => exact hactions h
  | performing i value =>
    obtain ⟨s₁, hreach₁, hloop₁, -⟩ := exists_performed h
    obtain ⟨s₂, hreach₂, hloop₂⟩ := hactions hloop₁
    exact ⟨s₂, hreach₁.trans hreach₂, hloop₂⟩
  | recording i =>
    obtain ⟨s₁, hreach₁, hloop₁⟩ := hactions (pending_recorded h).1
    exact ⟨s₁, hreach₁.step, hloop₁⟩
  | sampling =>
    refine ⟨_, (Reaches.refl _).step, ?_⟩
    rw [mainStep, h]
    rfl

/-- Left alone, the main loop performs everything. -/
theorem exists_settled (s : Invocations n) :
    ∃ k, ∀ i, (exec mainStep s (List.replicate k true)).waiting i = [] := by
  obtain ⟨s₁, hreach₁, hloop₁⟩ := reaches_start s
  obtain ⟨s₂, hreach₂, -, hnone⟩ := exists_passed (Nat.zero_le n) hloop₁
  obtain ⟨k, hk⟩ := hreach₁.trans hreach₂
  refine ⟨k, ?_⟩
  intro i
  rw [hk]
  apply if_neg
  intro hpending
  exact absurd (hnone i hpending.1).2 (Nat.not_lt_zero _)

end Progress

/-! ## What the events keep -/

section Invariant

theorem valuesOf_append (i : Fin n) (log log' : List (Fin n × ActionValue)) :
    valuesOf i (log ++ log') = valuesOf i log ++ valuesOf i log' := by
  rw [valuesOf, List.filter_append, List.map_append]
  rfl

theorem valuesOf_self (i : Fin n) (value : ActionValue) : valuesOf i [(i, value)] = [value] := by
  simp [valuesOf]

theorem valuesOf_of_ne {i j : Fin n} (h : j ≠ i) (value : ActionValue) :
    valuesOf i [(j, value)] = [] := by
  simp [valuesOf, h]

theorem mem_valuesOf {i : Fin n} {value : ActionValue} {log : List (Fin n × ActionValue)} :
    value ∈ valuesOf i log ↔ (i, value) ∈ log := by
  simp [valuesOf]

/-- What the main loop carries is what is pending, and it has been performed before it is
recorded. -/
def Carries (s : Invocations n) : LoopState n → Prop
  | .performing i value => (s.rt i).pending ∧ value = (s.rt i).pendingValue
  | .recording i => (s.rt i).pending ∧ (i, (s.rt i).pendingValue) ∈ s.performed
  | _ => True

/-- Every answer 202 is performed once or waits, and the samples show it. -/
structure Sound (s : Invocations n) : Prop where
  once : ∀ i, valuesOf i s.answered = valuesOf i s.performed ++ s.waiting i
  shown : ∀ i, (s.samples i).result = (s.rt i).result
  running : ∀ i, (s.rt i).pending → (s.rt i).result.state = .running ∧
    (s.rt i).result.code = .queued ∧ (s.rt i).result.value = (s.rt i).pendingValue ∧
    s.recordedBy i = some .accept
  applied : ∀ i, (s.rt i).result.state = .accepted → (s.rt i).result.code = .applied ∧
    (i, (s.rt i).result.value) ∈ s.performed ∧ s.recordedBy i = some .accept
  carries : Carries s s.loop

namespace Sound

variable {s : Invocations n} {defs : Fin n → ActionDef}

theorem init (entities : Fin n → Entity) : Sound (Invocations.init entities) where
  once := fun _ => rfl
  shown := fun _ => rfl
  running := nofun
  applied := nofun
  carries := trivial

theorem truthful (h : Sound s) : Truthful s where
  once := h.once
  settles := exists_settled s
  shown := h.shown
  running := fun i hi => ⟨(h.running i hi).1, (h.running i hi).2.1, (h.running i hi).2.2.1⟩
  applied := by
    intro i hi
    obtain ⟨hcode, hperformed, -⟩ := h.applied i hi
    refine ⟨hcode, ?_, hperformed⟩
    rw [← mem_valuesOf, h.once i]
    exact List.mem_append_left _ (mem_valuesOf.mpr hperformed)
  accepted := fun i hi => (h.applied i hi).2.2

/-- A step that touches neither the runtime nor the history nor what the main loop carries. -/
theorem of_eq (h : Sound s) {s' : Invocations n} (hrt : s'.rt = s.rt)
    (hshown : ∀ i, (s'.samples i).result = (s.rt i).result)
    (hanswered : s'.answered = s.answered) (hperformed : s'.performed = s.performed)
    (hby : s'.recordedBy = s.recordedBy) (hloop : ∀ i, s'.loop = .recording i ↔ s.loop = .recording i)
    (hcarries : Carries s s'.loop) : Sound s' := by
  constructor
  · intro i
    have hwaiting : s'.waiting i = s.waiting i := by
      unfold waiting
      rw [hrt]
      simp only [ne_eq, hloop]
    rw [hanswered, hperformed, hwaiting]
    exact h.once i
  · rw [hrt]
    exact hshown
  · rw [hrt, hby]
    exact h.running
  · rw [hrt, hby, hperformed]
    exact h.applied
  · unfold Carries at hcarries ⊢
    rw [hrt, hperformed]
    exact hcarries

theorem refused (h : Sound s) {i : Fin n} (hfree : (s.rt i).pending = false)
    (outcome : ActionOutcome) :
    Sound { s.setResult i
        { s.rt i with
          result := { state := .refused, code := outcome.code, value := outcome.value } } with
      recordedBy := Function.update s.recordedBy i (some .refuse) } := by
  have hpending : ∀ j, (Function.update s.rt i { s.rt i with
      result := { state := .refused, code := outcome.code, value := outcome.value } } j).pending =
      (s.rt j).pending := by
    intro j
    by_cases hji : j = i
    · rw [hji, Function.update_self]
    · rw [Function.update_of_ne hji]
  have hvalue : ∀ j, (Function.update s.rt i { s.rt i with
      result := { state := .refused, code := outcome.code, value := outcome.value } } j).pendingValue =
      (s.rt j).pendingValue := by
    intro j
    by_cases hji : j = i
    · rw [hji, Function.update_self]
    · rw [Function.update_of_ne hji]
  constructor
  · intro j
    have honce := h.once j
    unfold waiting at honce ⊢
    simp only [setResult, hpending, hvalue]
    exact honce
  · intro j
    by_cases hji : j = i
    · simp only [hji, setResult, Function.update_self]
    · simp only [setResult, Function.update_of_ne hji]
      exact h.shown j
  · intro j hj
    simp only [setResult, hpending] at hj
    have hji : j ≠ i := by
      rintro rfl
      rw [hfree] at hj
      cases hj
    simp only [setResult, Function.update_of_ne hji]
    exact h.running j hj
  · intro j hj
    by_cases hji : j = i
    · simp only [hji, setResult, Function.update_self] at hj
      cases hj
    · simp only [setResult, Function.update_of_ne hji] at hj ⊢
      exact h.applied j hj
  · have hcarries := h.carries
    cases hloop : s.loop with
    | performing j value =>
      rw [hloop] at hcarries
      simpa only [setResult, hloop, Carries, hpending, hvalue] using hcarries
    | recording j =>
      rw [hloop] at hcarries
      simpa only [setResult, hloop, Carries, hpending, hvalue] using hcarries
    | actions j | sampling =>
      simp only [setResult, hloop, Carries]

theorem accepted (h : Sound s) {i : Fin n} (hfree : (s.rt i).pending = false)
    (value : ActionValue) :
    Sound { s.setResult i
        { pending := true, pendingValue := value,
          result := { state := .running, code := .queued, value := value } } with
      recordedBy := Function.update s.recordedBy i (some .accept)
      answered := s.answered ++ [(i, value)] } := by
  -- the main loop carries only what is pending
  have hidle : s.loop ≠ .recording i := by
    intro hloop
    have hcarries := h.carries
    rw [hloop] at hcarries
    rw [hcarries.1] at hfree
    cases hfree
  constructor
  · intro j
    by_cases hji : j = i
    · subst hji
      have hbefore : s.waiting j = [] := by
        apply if_neg
        intro hpending
        rw [hfree] at hpending
        cases hpending.1
      have hafter := h.once j
      rw [hbefore, List.append_nil] at hafter
      rw [valuesOf_append, valuesOf_self, hafter]
      congr 1
      simp only [waiting, setResult, Function.update_self, ne_eq, hidle, not_false_eq_true,
        and_self, if_true]
    · have hafter := h.once j
      rw [valuesOf_append, valuesOf_of_ne (Ne.symm hji), List.append_nil]
      unfold waiting at hafter ⊢
      simp only [setResult, Function.update_of_ne hji]
      exact hafter
  · intro j
    by_cases hji : j = i
    · simp only [hji, setResult, Function.update_self]
    · simp only [setResult, Function.update_of_ne hji]
      exact h.shown j
  · intro j hj
    by_cases hji : j = i
    · simp only [hji, setResult, Function.update_self, and_self]
    · simp only [setResult, Function.update_of_ne hji] at hj ⊢
      exact h.running j hj
  · intro j hj
    by_cases hji : j = i
    · simp only [hji, setResult, Function.update_self] at hj
      cases hj
    · simp only [setResult, Function.update_of_ne hji] at hj ⊢
      exact h.applied j hj
  · have hcarries := h.carries
    cases hloop : s.loop with
    | performing j carried =>
      rw [hloop] at hcarries
      have hji : j ≠ i := by
        rintro rfl
        rw [hcarries.1] at hfree
        cases hfree
      simpa only [setResult, hloop, Carries, Function.update_of_ne hji] using hcarries
    | recording j =>
      rw [hloop] at hcarries
      have hji : j ≠ i := by
        rintro rfl
        exact hidle hloop
      simpa only [setResult, hloop, Carries, Function.update_of_ne hji] using hcarries
    | actions j | sampling =>
      simp only [setResult, hloop, Carries]

/-- A request for an action that is pending is answered busy as long as it has its state. -/
theorem serveAction (h : Sound s) {i : Fin n} (request : ActionRequest)
    (hu : ¬ ((s.rt i).pending ∧ actionEnabled (defs i) (s.samples i) = false)) :
    Sound (s.serveAction defs i request) := by
  unfold Invocations.serveAction
  dsimp only
  cases hverdict :
      (evaluateAction (defs i) (s.samples i) (s.rt i).pending request).verdict with
  | busy => exact h
  | refuse =>
    apply h.refused
    cases hpending : (s.rt i).pending with
    | false => rfl
    | true =>
      have henabled : actionEnabled (defs i) (s.samples i) = true := by
        cases henabled : actionEnabled (defs i) (s.samples i) with
        | true => rfl
        | false => exact absurd ⟨hpending, henabled⟩ hu
      rw [hpending, evaluateAction_busy henabled] at hverdict
      cases hverdict
  | accept =>
    dsimp only
    rw [(answered_evaluateAction _ request).queued hverdict]
    exact h.accepted (busy_of_accept hverdict) _

theorem perform (h : Sound s) {i : Fin n} {value : ActionValue}
    (hloop : s.loop = .performing i value) :
    Sound { s with performed := s.performed ++ [(i, value)], loop := .recording i } := by
  have hcarries := h.carries
  rw [hloop] at hcarries
  obtain ⟨hpending, rfl⟩ := hcarries
  constructor
  · intro j
    have honce := h.once j
    unfold waiting at honce ⊢
    rw [hloop] at honce
    by_cases hji : j = i
    · subst hji
      simp only [hpending, ne_eq, reduceCtorEq, not_false_eq_true, and_self, if_true] at honce
      simp only [not_true_eq_false, and_false, if_false, ne_eq, valuesOf_append, valuesOf_self,
        List.append_nil]
      exact honce
    · have hne : LoopState.recording i ≠ .recording j := by
        intro heq
        cases heq
        exact hji rfl
      simp only [ne_eq, reduceCtorEq, not_false_eq_true, and_true] at honce
      simp only [hne, ne_eq, not_false_eq_true, and_true, valuesOf_append,
        valuesOf_of_ne (Ne.symm hji), List.append_nil]
      exact honce
  · exact h.shown
  · exact h.running
  · intro j hj
    obtain ⟨hcode, hperformed, hby⟩ := h.applied j hj
    exact ⟨hcode, List.mem_append_left _ hperformed, hby⟩
  · exact ⟨hpending, List.mem_append_right _ (List.mem_singleton.mpr rfl)⟩

theorem record (h : Sound s) {i : Fin n} (hloop : s.loop = .recording i) :
    Sound { s.setResult i
        { s.rt i with
          pending := false
          result := { (s.rt i).result with state := .accepted, code := .applied } } with
      loop := .actions (i + 1) } := by
  have hcarries := h.carries
  rw [hloop] at hcarries
  obtain ⟨hpending, hperformed⟩ := hcarries
  obtain ⟨-, -, hvalue, hby⟩ := h.running i hpending
  constructor
  · intro j
    have honce := h.once j
    unfold waiting at honce ⊢
    rw [hloop] at honce
    by_cases hji : j = i
    · subst hji
      simp only [not_true_eq_false, and_false, if_false, ne_eq] at honce
      simp only [setResult, Function.update_self, Bool.false_eq_true, false_and, if_false]
      exact honce
    · have hne : LoopState.recording i ≠ .recording j := by
        intro heq
        cases heq
        exact hji rfl
      simp only [hne, ne_eq, not_false_eq_true, and_true] at honce
      simp only [setResult, Function.update_of_ne hji, ne_eq, reduceCtorEq, not_false_eq_true,
        and_true]
      exact honce
  · intro j
    by_cases hji : j = i
    · simp only [hji, setResult, Function.update_self]
    · simp only [setResult, Function.update_of_ne hji]
      exact h.shown j
  · intro j hj
    have hji : j ≠ i := by
      rintro rfl
      simp only [setResult, Function.update_self] at hj
      cases hj
    simp only [setResult, Function.update_of_ne hji] at hj ⊢
    exact h.running j hj
  · intro j hj
    by_cases hji : j = i
    · subst hji
      simp only [setResult, Function.update_self, true_and]
      rw [hvalue]
      exact ⟨hperformed, hby⟩
    · simp only [setResult, Function.update_of_ne hji] at hj ⊢
      exact h.applied j hj
  · exact trivial

theorem mainStep (h : Sound s) (locked : Bool) : Sound (s.mainStep locked) := by
  have hquiet : ∀ {loop : LoopState n}, (∀ i, s.loop ≠ .recording i) →
      (∀ i, loop ≠ .recording i) → Carries s loop → Sound { s with loop := loop } := by
    intro loop hbefore hafter hcarries
    refine h.of_eq rfl h.shown rfl rfl rfl ?_ hcarries
    exact fun i => iff_of_false (hafter i) (hbefore i)
  unfold Invocations.mainStep
  cases hloop : s.loop with
  | actions i =>
    have hbefore : ∀ j, s.loop ≠ .recording j := by
      intro j
      rw [hloop]
      nofun
    dsimp only
    split_ifs with hi hlocked hpending
    · exact hquiet hbefore nofun trivial
    · exact hquiet hbefore nofun ⟨hpending, rfl⟩
    · exact hquiet hbefore nofun trivial
    · exact hquiet hbefore nofun trivial
  | performing i value => exact h.perform hloop
  | recording i => exact h.record hloop
  | sampling =>
    have hbefore : ∀ j, s.loop ≠ .recording j := by
      intro j
      rw [hloop]
      nofun
    dsimp only
    split_ifs
    · refine h.of_eq rfl (fun _ => rfl) rfl rfl rfl ?_ trivial
      exact fun i => iff_of_false nofun (hbefore i)
    · exact hquiet hbefore nofun trivial

theorem step (h : Sound s) {event : InvocationEvent n} (hu : Undisturbed defs s event) :
    Sound (s.step defs event) := by
  cases event with
  | request target authorized locked request =>
    cases target with
    | none => exact h
    | some i =>
      cases authorized with
      | false => exact h
      | true =>
        cases locked with
        | false => exact h
        | true => exact h.serveAction request hu
  | main locked => exact h.mainStep locked
  | entity i entity =>
    simp only [Invocations.step]
    split_ifs
    · exact h.of_eq rfl h.shown rfl rfl rfl (fun _ => Iff.rfl) h.carries
    · exact h

end Sound

/-- A request for a pending action that has lost its state is recorded over the running result. -/
theorem not_truthful_of_disturbed {s : Invocations n} {event : InvocationEvent n}
    (h : ¬ Undisturbed defs s event) : ¬ Truthful (s.step defs event) := by
  unfold Undisturbed at h
  split at h
  · next i request =>
    obtain ⟨hpending, hdisabled⟩ := not_not.mp h
    have hstep : s.step defs (.request (some i) true true request) =
        { s.setResult i
            { s.rt i with result := { state := .refused, code := .disabled, value := .none } } with
          recordedBy := Function.update s.recordedBy i (some .refuse) } := by
      simp only [step, serveAction, evaluateAction_disabled _ hdisabled, refuse]
    intro htruthful
    have hrunning := (htruthful.running i (by
      rw [hstep]
      simpa only [setResult, Function.update_self] using hpending)).1
    rw [hstep] at hrunning
    simp only [setResult, Function.update_self] at hrunning
    cases hrunning
  · exact absurd trivial h

/-- Every run stays truthful exactly as long as no request meets an action that is pending and has
lost its state. -/
theorem truthful_iff (entities : Fin n → Entity) (events : List (InvocationEvent n)) :
    (∀ before, before <+: events → Truthful (exec (step defs) (init entities) before)) ↔
      Admitted (Undisturbed defs) (step defs) (init entities) events := by
  constructor
  · intro htruthful
    by_contra hbreak
    obtain ⟨before, event, hinitial, -, hdisturbed⟩ := Admitted.exists_first_break hbreak
    have hafter := htruthful _ hinitial
    rw [exec_append] at hafter
    exact not_truthful_of_disturbed defs hdisturbed hafter
  · rintro hadmitted before ⟨after, rfl⟩
    apply Sound.truthful
    refine (Admitted.append_iff.mp hadmitted).1.invariant Sound ?_ (Sound.init entities)
    exact fun s event hu h => h.step hu

end Invariant

/-! ## A select that loses its state -/

def sampleDef : ActionDef :=
  { key := ascii "mode", label := ascii "Mode", control := .select, options := [ascii "eco"] }

def sampleRequest : InvocationEvent 1 := .request (some 0) true true (.form (some (ascii "eco")) 9)

/-- The second request is refused, and then shown as applied without a value. -/
def sampleEvents : List (InvocationEvent 1) :=
  [sampleRequest, .entity 0 (.select none), .main false, .main true, sampleRequest, .main true,
    .main true, .main true]

theorem not_truthful_sample :
    ¬ ∀ before, before <+: sampleEvents →
      Truthful (exec (step fun _ => sampleDef) (init fun _ => .select (some (ascii "eco")))
        before) := by
  intro htruthful
  have hend := htruthful _ (List.prefix_refl _)
  have hby := hend.accepted 0 (by decide)
  revert hby
  decide

end Invocations

end EspCars.Portal
