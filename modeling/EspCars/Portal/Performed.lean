import EspCars.Portal.Invocation

/-!
# What an entity is called with

A request is checked on the web server's task and performed on the main loop, later and from a copy
of the value. Whatever happens in between, an entity is called with a value of its own kind only: a
select with an option, cut as the copy is, and a number with what a finite one is as a `float`.
-/

namespace EspCars.Portal

open EspCars.Lib

def ActionDef.Takes (d : ActionDef) : ActionValue → Prop
  | .none => d.control = .button
  | .bool _ => d.control = .switch
  | .text t => d.control = .select ∧ ∃ option ∈ d.options, t = option.take (actionTextMax - 1)
  | .number x => d.control = .number ∧ ∃ v : Binary64, v.isFinite = true ∧ x = v.toFloat

/-! ## One request -/

section Request

variable {d : ActionDef} {sample : ActionSample}

def TakesIfAccepted (d : ActionDef) (outcome : ActionOutcome) : Prop :=
  outcome.verdict = .accept → d.Takes outcome.value

theorem takes_refuse {http : Nat} {code : ActionCode} {value : ActionValue} :
    TakesIfAccepted d (refuse http code value) := nofun

theorem takes_evaluateTyped (jv : JsonValue) (hbutton : d.control ≠ .button) :
    TakesIfAccepted d (evaluateTyped d sample jv) := by
  unfold evaluateTyped
  cases hcontrol : d.control with
  | switch =>
    dsimp only
    split_ifs with hkind
    · exact takes_refuse
    · intro _
      show d.Takes (valueFrom jv)
      rw [valueFrom, not_not.mp hkind]
      exact hcontrol
  | select =>
    dsimp only
    split_ifs with hkind hoption
    · exact takes_refuse
    · exact takes_refuse
    · intro _
      rw [Bool.or_eq_true, Bool.not_eq_true', not_or, Bool.not_eq_false] at hoption
      show d.Takes (valueFrom jv)
      rw [valueFrom, not_not.mp hkind]
      exact ⟨hcontrol, _, List.contains_iff_mem.mp hoption.2, rfl⟩
  | number =>
    dsimp only
    split_ifs with hkind hrange
    · exact takes_refuse
    · exact takes_refuse
    · intro _
      have hfinite : jv.number.isFinite = true := by
        unfold outOfRange at hrange
        simp only [Bool.or_eq_true, not_or, Bool.not_eq_true', Bool.not_eq_false] at hrange
        exact hrange.1.1
      show d.Takes (valueFrom jv)
      rw [valueFrom, not_not.mp hkind]
      dsimp only
      rw [if_pos hfinite]
      exact ⟨hcontrol, jv.number, hfinite, rfl⟩
  | button => exact absurd hcontrol hbutton

theorem takes_evaluateGuarded {busy : Bool} {bodyLen : Nat} {rest : ActionOutcome}
    (h : TakesIfAccepted d rest) :
    TakesIfAccepted d (evaluateGuarded d sample busy bodyLen rest) := by
  unfold evaluateGuarded
  split_ifs
  · exact takes_refuse
  · nofun
  · exact takes_refuse
  · exact h

theorem takes_evaluateAction (busy : Bool) (request : ActionRequest) :
    TakesIfAccepted d (evaluateAction d sample busy request) := by
  cases request with
  | json body =>
    apply takes_evaluateGuarded
    split
    · exact takes_refuse
    · split_ifs with hbutton
      · exact fun _ => hbutton
      · split
        · exact takes_refuse
        · split_ifs
          · exact takes_refuse
          · exact takes_evaluateTyped _ hbutton
  | form value contentLength =>
    apply takes_evaluateGuarded
    split_ifs with hbutton
    · exact fun _ => hbutton
    · split
      · exact takes_refuse
      · exact takes_evaluateTyped _ hbutton

end Request

/-! ## Runs -/

namespace Invocations

variable {n : Nat} {defs : Fin n → ActionDef} {s : Invocations n}

/-- What is pending, what the main loop is about to perform and what it has performed is a value
that the action takes. -/
structure Fit (defs : Fin n → ActionDef) (s : Invocations n) : Prop where
  pending : ∀ i, (s.rt i).pending → (defs i).Takes (s.rt i).pendingValue
  performing : ∀ i value, s.loop = .performing i value → (defs i).Takes value
  performed : ∀ entry ∈ s.performed, (defs entry.1).Takes entry.2

namespace Fit

/-- A step that changes one runtime, and calls no entity. -/
theorem update (h : Fit defs s) {s' : Invocations n} {i : Fin n} {rt : ActionRuntime}
    (hrun : s'.rt = Function.update s.rt i rt) (hperformed : s'.performed = s.performed)
    (hloop : ∀ j value, s'.loop = .performing j value → s.loop = .performing j value)
    (hrt : rt.pending → (defs i).Takes rt.pendingValue) : Fit defs s' := by
  refine ⟨fun j hj => ?_, fun j value hj => h.performing j value (hloop j value hj), ?_⟩
  · rw [hrun] at hj ⊢
    by_cases hji : j = i
    · subst hji
      rw [Function.update_self] at hj ⊢
      exact hrt hj
    · rw [Function.update_of_ne hji] at hj ⊢
      exact h.pending j hj
  · rw [hperformed]
    exact h.performed

theorem serveAction (h : Fit defs s) (i : Fin n) (request : ActionRequest) :
    Fit defs (s.serveAction defs i request) := by
  unfold Invocations.serveAction
  dsimp only
  cases hverdict :
      (evaluateAction (defs i) (s.samples i) (s.rt i).pending request).verdict with
  | busy => exact h
  | refuse =>
    exact h.update rfl rfl (fun _ _ hloop => hloop) (h.pending i)
  | accept =>
    exact h.update rfl rfl (fun _ _ hloop => hloop) fun _ => takes_evaluateAction _ _ hverdict

theorem mainStep (h : Fit defs s) (locked : Bool) : Fit defs (s.mainStep locked) := by
  unfold Invocations.mainStep
  cases hloop : s.loop with
  | actions i =>
    dsimp only
    split_ifs with hi hlocked hpending
    · exact ⟨h.pending, nofun, h.performed⟩
    · refine ⟨h.pending, fun j value hj => ?_, h.performed⟩
      cases hj
      exact h.pending _ hpending
    · exact ⟨h.pending, nofun, h.performed⟩
    · exact ⟨h.pending, nofun, h.performed⟩
  | performing i value =>
    refine ⟨h.pending, nofun, fun entry hentry => ?_⟩
    rcases List.mem_append.mp hentry with hbefore | hnow
    · exact h.performed entry hbefore
    · rw [List.mem_singleton.mp hnow]
      exact h.performing i value hloop
  | recording i => exact h.update rfl rfl nofun nofun
  | sampling =>
    dsimp only
    split_ifs
    · exact ⟨h.pending, nofun, h.performed⟩
    · exact ⟨h.pending, nofun, h.performed⟩

theorem step (h : Fit defs s) (event : InvocationEvent n) : Fit defs (s.step defs event) := by
  unfold Invocations.step
  split
  · exact h.serveAction _ _
  · exact h
  · exact h.mainStep _
  · split_ifs
    · exact { h with }
    · exact h

end Fit

/-- In every run, whatever the requests, the entities and the mutex do between the steps of the
main loop, an entity is called only with what its action takes. -/
theorem performed_takes (defs : Fin n → ActionDef) (entities : Fin n → Entity)
    (events : List (InvocationEvent n)) :
    (exec (step defs) (init entities) events).performed.Forall fun entry =>
      (defs entry.1).Takes entry.2 := by
  have hrun : ∀ s, Fit defs s → Fit defs (exec (step defs) s events) := by
    induction events with
    | nil => exact fun s h => h
    | cons event events ih => exact fun s h => ih _ (h.step event)
  exact List.forall_iff_forall_mem.mpr (hrun (init entities) ⟨nofun, nofun, nofun⟩).performed

end Invocations

end EspCars.Portal
