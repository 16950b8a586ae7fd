import EspCars.CanGateway.Conservation

/-!
# Orphans across bus-off periods

A frame halted by bus-off is an orphan until its slot is reclaimed. `History` counts them without
looking at the tracker: whether the halted frame of the current bus-off period is still waiting
for the reclaim section, and how many periods since the last completion ended without it. The
count is exact, so a port is unblocked when it is error-active with an idle driver if and only if
nothing was missed when it got there.

The reclaim section runs once for each bus-off *edge between two samples* of `loop_`; two bus-off
periods without a sample between them share one edge, and the second one is missed.
-/

namespace EspCars.CanGateway

open EspCars.Lib

variable {cfg : PortConfig} {τ : Type}

/-- `missed` bus-off periods since the last completion have ended with their halted frame
unreclaimed; `halted` says that the current period has such a frame. -/
structure History where
  missed : Nat := 0
  halted : Bool := false
  deriving DecidableEq

namespace Port

def History.next (p : Port cfg τ) (h : History) : PortEvent τ → History
  | .txDone _ => if p.driver.mounted.isSome then {} else h
  | .stateChange new =>
    if p.state ≠ .busOff ∧ new = .busOff then { h with halted := p.driver.mounted.isSome }
    else if p.state = .busOff ∧ new ≠ .busOff then
      { missed := h.missed + h.halted.toNat, halted := false }
    else h
  | .loop _ =>
    if p.reclaimDue then
      if h.halted then { h with halted := false } else { h with missed := h.missed - 1 }
    else h
  | _ => h

/-- A port that becomes error-active with nothing to send has missed no bus-off period. -/
def Attended (s : Port cfg τ × History) : PortEvent τ → Prop
  | .stateChange .active => s.1.driver.held = [] → s.2 = {}
  | _ => True

instance (s : Port cfg τ × History) : (e : PortEvent τ) → Decidable (Attended s e)
  | .stateChange .active => inferInstanceAs (Decidable (_ → _))
  | .stateChange .warning => inferInstanceAs (Decidable True)
  | .stateChange .passive => inferInstanceAs (Decidable True)
  | .stateChange .busOff => inferInstanceAs (Decidable True)
  | .rx _ _ _ => inferInstanceAs (Decidable True)
  | .txDone _ => inferInstanceAs (Decidable True)
  | .inject _ _ => inferInstanceAs (Decidable True)
  | .loop _ => inferInstanceAs (Decidable True)

def stepWithHistory [DecidableEq τ] (s : Port cfg τ × History) (e : PortEvent τ) :
    Port cfg τ × History := (s.1.step e, History.next s.1 s.2 e)

/-- Nothing is tracked, and only `inject` calls in progress hold slots. -/
structure Unblocked (p : Port cfg τ) : Prop where
  tracked : p.outstanding.toList = []
  forward : ∀ i, p.pool.isUsed i = false
  inject : ∀ i, p.injectPool.isUsed i = true → ∃ t, (p.injectPc t).Holds i

/-- A frame to be forwarded and a frame to be injected reach the driver. -/
structure AcceptsNext [DecidableEq τ] (p : Port cfg τ) : Prop where
  forward : ∀ frame, (processFrame cfg.table frame).1 = .forward →
    ∃ i, (p.step (.rx true (some frame) true)).driver.held = [.forward i]
  inject : cfg.canTransmit = true → (∀ t, p.injectPc t = .idle) →
    ∀ t, (exec Port.step p (List.replicate 3 (.inject t true))).driver.held = [.inject 0]

/-- What is left of the pass of `loop_` in progress, and one whole pass. -/
def loopPass (p : Port cfg τ) (nowMs : UInt32) : List (PortEvent τ) :=
  match p.loopPc with
  | .idle => List.replicate 3 (.loop nowMs)
  | .sampled _ _ => List.replicate 5 (.loop nowMs)
  | .reclaimed _ _ => List.replicate 4 (.loop nowMs)

/-- Wherever the run leaves the port error-active with an idle driver, a pass of `loop_` leaves it
unblocked. -/
def NeverMute [DecidableEq τ] (cfg : PortConfig) (events : List (PortEvent τ)) : Prop :=
  ∀ before after, events = before ++ after →
    (exec step ({} : Port cfg τ) before).state = .active →
    (exec step ({} : Port cfg τ) before).driver.held = [] → ∀ nowMs,
    let p := exec step ({} : Port cfg τ) before
    Unblocked (exec step p (p.loopPass nowMs)) ∧ AcceptsNext (exec step p (p.loopPass nowMs))

/-- The history counts the orphans, and what the condition on the steps keeps out. -/
structure Counted (p : Port cfg τ) (h : History) (orphans : List SlotRef) : Prop where
  sound : Sound p orphans
  count : orphans.length = h.missed + h.halted.toNat
  current : p.state ≠ .busOff → h.halted = false

section Steps

variable {p : Port cfg τ} {h : History} {orphans : List SlotRef}

theorem Driver.held_submit_ne (d : Driver) (slot : SlotRef) : (d.submit slot).held ≠ [] := by
  unfold Driver.submit Driver.held
  split <;> simp_all

theorem History.next_halted (hcurrent : h.halted = false)
    (e : PortEvent τ) (he : ∀ new, e ≠ .stateChange new) :
    (History.next p h e).halted = false := by
  cases e with
  | rx enabled received transmitOk => exact hcurrent
  | txDone success =>
    simp only [History.next]
    split_ifs
    · rfl
    · exact hcurrent
  | stateChange new => exact absurd rfl (he new)
  | inject task transmitOk => exact hcurrent
  | loop nowMs =>
    simp only [History.next]
    split_ifs
    · rfl
    · exact hcurrent
    · exact hcurrent

theorem Counted.step [DecidableEq τ] (hc : Counted p h orphans) (e : PortEvent τ) :
    Counted (p.step e) (History.next p h e) (p.nextOrphans orphans e) := by
  have hcount := hc.count
  have hcurrent := hc.current
  refine ⟨hc.sound.step e, ?_, fun hs => ?_⟩
  · cases e with
    | rx enabled received transmitOk => exact hcount
    | inject task transmitOk => exact hcount
    | txDone success =>
      simp only [nextOrphans, History.next]
      split_ifs
      · rfl
      · exact hcount
    | stateChange new =>
      simp only [nextOrphans, History.next]
      split_ifs with henter hleave
      · rw [List.length_append, hcount, hcurrent henter.1]
        cases p.driver.mounted <;> rfl
      · rw [hcount]
        rfl
      · exact hcount
    | loop nowMs =>
      simp only [nextOrphans, History.next]
      split_ifs with hdue hhalted
      · rw [List.length_tail, hcount, hhalted]
        rfl
      · rw [List.length_tail, hcount]
        simp [hhalted]
      · exact hcount
  · by_cases he : ∃ new, e = .stateChange new
    · obtain ⟨new, rfl⟩ := he
      have hnew : new ≠ .busOff := hs
      simp only [History.next, hnew, and_false, if_false, ne_eq, not_false_eq_true, and_true]
      split_ifs with hoff
      · rfl
      · exact hcurrent hoff
    · have hne : ∀ new, e ≠ .stateChange new := fun new hn => he ⟨new, hn⟩
      rw [state_step p e hne] at hs
      exact History.next_halted (hcurrent hs) e hne

/-- An error-active port with nothing to send has missed nothing. -/
def Clear (p : Port cfg τ) (h : History) : Prop :=
  p.state = .active → p.driver.held = [] → h = {}

theorem Clear.step [DecidableEq τ] (hc : Counted p h orphans) (hclear : Clear p h)
    {e : PortEvent τ} (ha : Attended (p, h) e) : Clear (p.step e) (History.next p h e) := by
  intro hs hheld
  cases e with
  | rx enabled received transmitOk =>
    obtain ⟨hstate, _, hdriver | ⟨slot, hdriver⟩⟩ :=
      Submits.handleRxIsr p enabled received transmitOk
    · exact hclear (hstate ▸ hs) (hdriver ▸ hheld)
    · exact absurd (hdriver ▸ hheld) (Driver.held_submit_ne _ _)
  | inject task transmitOk =>
    obtain ⟨hstate, _, hdriver | ⟨slot, hdriver⟩⟩ := Submits.injectStep p task transmitOk
    · exact hclear (hstate ▸ hs) (hdriver ▸ hheld)
    · exact absurd (hdriver ▸ hheld) (Driver.held_submit_ne _ _)
  | txDone success =>
    simp only [History.next]
    cases hm : p.driver.mounted with
    | none =>
      have hstep : p.handleTxDoneIsr success = p := by
        unfold Port.handleTxDoneIsr
        rw [hm]
      have hs' : (p.handleTxDoneIsr success).state = .active := hs
      have hheld' : (p.handleTxDoneIsr success).driver.held = [] := hheld
      rw [hstep] at hs' hheld'
      exact hclear hs' hheld'
    | some slot => rfl
  | stateChange new =>
    have hnew : new = .active := hs
    subst hnew
    have hheld' : (p.driver.changeState p.state .active).held = [] := hheld
    have hbefore : p.driver.held = [] := by
      by_cases hoff : p.state = .busOff
      · have hchange : p.driver.changeState p.state .active = p.driver.mountNext := by
          simp [Driver.changeState, hoff]
        rw [hchange, Driver.held_mountNext] at hheld'
        simp [Driver.held, hheld', hc.sound.halted hoff]
      · have hchange : p.driver.changeState p.state .active = p.driver := by
          simp [Driver.changeState, hoff]
        rwa [hchange] at hheld'
    have hnone : h = {} := ha hbefore
    subst hnone
    simp only [History.next, reduceCtorEq, and_false, if_false]
    split_ifs <;> rfl
  | loop nowMs =>
    obtain ⟨hstate, hdriver⟩ := p.loopStep_links nowMs
    have hs' : p.state = .active := hstate ▸ hs
    have hdue : p.reclaimDue = false := by
      unfold Port.reclaimDue
      split
      · simp [hs']
      · rfl
    simp only [History.next, hdue, Bool.false_eq_true, if_false]
    exact hclear hs' (hdriver ▸ hheld)

/-- Between bus-off periods an idle driver leaves nothing tracked but the orphans. -/
theorem Counted.unblocked_iff (hc : Counted p h orphans) (hs : p.state = .active)
    (hheld : p.driver.held = []) : Unblocked p ↔ h = {} := by
  have htracked : p.outstanding.toList = orphans := by
    rw [hc.sound.fifo, hheld, List.append_nil]
  have hcurrent : h.halted = false := hc.current (by rw [hs]; decide)
  have hcount : orphans.length = h.missed := by
    rw [hc.count, hcurrent]
    rfl
  constructor
  · intro hu
    have hmissed : h.missed = 0 := by
      rw [← hcount, ← htracked, hu.tracked]
      rfl
    obtain ⟨missed, halted⟩ := h
    dsimp only at hmissed hcurrent
    rw [hmissed, hcurrent]
  · rintro rfl
    rw [List.eq_nil_of_length_eq_zero hcount] at htracked
    have hledger := hc.sound.ledger
    rw [htracked] at hledger
    refine ⟨htracked, fun i => ?_, fun i hi => ?_⟩
    · rw [Bool.eq_false_iff]
      intro hi
      cases (hledger.forward i).mp hi
    · rcases (hledger.inject i).mp hi with hmem | hheld
      · cases hmem
      · exact hheld

theorem Counted.run [DecidableEq τ] {s : Port cfg τ × History} (hc : Counted s.1 s.2 orphans)
    (events : List (PortEvent τ)) :
    ∃ orphans', Counted (exec stepWithHistory s events).1 (exec stepWithHistory s events).2
      orphans' := by
  induction events generalizing s orphans with
  | nil => exact ⟨orphans, hc⟩
  | cons e events ih => exact ih (hc.step e)

theorem Clear.run [DecidableEq τ] {s : Port cfg τ × History} (hc : Counted s.1 s.2 orphans)
    (hclear : Clear s.1 s.2) {events : List (PortEvent τ)}
    (hr : Admitted Attended stepWithHistory s events) :
    Clear (exec stepWithHistory s events).1 (exec stepWithHistory s events).2 := by
  induction events generalizing s orphans with
  | nil => exact hclear
  | cons e events ih => exact ih (hc.step e) (hclear.step hc hr.1) hr.2

theorem exec_stepWithHistory [DecidableEq τ] (s : Port cfg τ × History)
    (events : List (PortEvent τ)) :
    (exec stepWithHistory s events).1 = exec Port.step s.1 events := by
  induction events generalizing s with
  | nil => rfl
  | cons e events ih => exact ih _

theorem Driver.held_changeState_active {d : Driver} {old : NodeState} (h : d.held = []) :
    (d.changeState old .active).held = [] := by
  by_cases hoff : old = .busOff
  · simp only [Driver.changeState, hoff, ne_eq, not_true_eq_false, if_false,
      reduceCtorEq, not_false_eq_true, and_self, if_true, Driver.held_mountNext]
    exact (List.append_eq_nil_iff.mp h).2
  · simp only [Driver.changeState, hoff, reduceCtorEq, and_false, false_and, if_false]
    exact h

/-- Leaving bus-off for error-active, nothing missed afterwards is nothing missed before. -/
theorem History.next_active (hcurrent : p.state ≠ .busOff → h.halted = false)
    (hnext : History.next p h (.stateChange .active) = {}) : h = {} := by
  obtain ⟨missed, halted⟩ := h
  by_cases hoff : p.state = .busOff
  · simp only [History.next, hoff, reduceCtorEq, and_false, if_false, ne_eq, not_false_eq_true,
      and_self, if_true, History.mk.injEq, and_true] at hnext
    cases halted with
    | false => simpa using hnext
    | true => cases hnext
  · simp only [History.next, hoff, reduceCtorEq, and_false, false_and, if_false] at hnext
    exact hnext

/-- While the port is error-active, `loop_` changes nothing that decides whether it is blocked. -/
theorem loops_active [DecidableEq τ] {s : Port cfg τ × History} (hs : s.1.state = .active)
    (n : Nat) (nowMs : UInt32) :
    (exec stepWithHistory s (List.replicate n (.loop nowMs))).1.state = .active ∧
      (exec stepWithHistory s (List.replicate n (.loop nowMs))).1.driver = s.1.driver ∧
      (exec stepWithHistory s (List.replicate n (.loop nowMs))).2 = s.2 := by
  induction n generalizing s with
  | zero => exact ⟨hs, rfl, rfl⟩
  | succ n ih =>
    obtain ⟨p, h⟩ := s
    have hp : p.state = .active := hs
    obtain ⟨hstate, hdriver⟩ := p.loopStep_links nowMs
    have hdue : p.reclaimDue = false := by
      unfold Port.reclaimDue
      split
      · simp [hp]
      · rfl
    have hnext : History.next p h (.loop nowMs) = h := by simp [History.next, hdue]
    obtain ⟨ihstate, ihdriver, ihnext⟩ :=
      ih (s := stepWithHistory (p, h) (.loop nowMs)) (hstate.trans hp)
    exact ⟨ihstate, ihdriver.trans hdriver, ihnext.trans hnext⟩

theorem loopPass_active [DecidableEq τ] {s : Port cfg τ × History} (hs : s.1.state = .active)
    (nowMs : UInt32) :
    (exec stepWithHistory s (s.1.loopPass nowMs)).1.state = .active ∧
      (exec stepWithHistory s (s.1.loopPass nowMs)).1.driver = s.1.driver ∧
      (exec stepWithHistory s (s.1.loopPass nowMs)).2 = s.2 := by
  unfold Port.loopPass
  cases s.1.loopPc with
  | idle => exact loops_active hs 3 nowMs
  | sampled state now => exact loops_active hs 5 nowMs
  | reclaimed state now => exact loops_active hs 4 nowMs

theorem Driver.held_submit_nil {d : Driver} (h : d.held = []) (slot : SlotRef) :
    (d.submit slot).held = [slot] := by
  obtain ⟨hm, hq⟩ := List.append_eq_nil_iff.mp h
  rw [Driver.held_submit (fun _ => hq), h]
  rfl

theorem Unblocked.acceptsNext [DecidableEq τ] (hu : Unblocked p) (hs : p.state = .active)
    (hheld : p.driver.held = []) : AcceptsNext p := by
  have hroom : p.outstanding.size < cfg.txQueueDepth := by
    rw [OutstandingTracker.size_eq, hu.tracked]
    exact cfg.txQueueDepth_pos
  constructor
  · intro frame hforward
    rcases p.pool.acquire_cases with ⟨i, _, _, hacq⟩ | ⟨hfull, _⟩
    · refine ⟨i, ?_⟩
      obtain ⟨frame', hframe⟩ : ∃ frame', processFrame cfg.table frame = (.forward, frame') :=
        ⟨_, Prod.ext hforward rfl⟩
      have hstep : (p.step (.rx true (some frame) true)).driver = p.driver.submit (.forward i) := by
        simp only [Port.step, Port.handleRxIsr, Bool.not_true, Bool.false_eq_true, if_false, hs,
          reduceCtorEq, hacq, hframe, hroom, true_and, if_true]
        rfl
      rw [hstep, Driver.held_submit_nil hheld]
    · exact absurd (hfull 0 cfg.txSlots_pos) (by rw [hu.forward 0]; decide)
  · intro htransmit hidle t
    have hfree : p.injectPool.isUsed 0 = false := by
      rw [Bool.eq_false_iff]
      intro hused
      obtain ⟨t', ht'⟩ := hu.inject 0 hused
      rw [hidle t'] at ht'
      exact ht'
    have hscan : p.injectStep t true =
        { p with injectPc := Function.update p.injectPc t (.scanning 0) } := by
      simp [Port.injectStep, hidle t, htransmit, hs]
    have hclaim : (p.injectStep t true).injectStep t true =
        { p with
          injectPool := p.injectPool.claim 0
          injectPc := Function.update p.injectPc t (.claimed 0) } := by
      rw [hscan]
      simp [Port.injectStep, cfg.injectSlots_pos, hfree]
    have hoff : (((p.injectStep t true).injectStep t true).injectStep t true).driver =
        p.driver.submit (.inject 0) := by
      rw [hclaim]
      simp [Port.injectStep, hs, hroom, Port.handOff]
    change (((p.injectStep t true).injectStep t true).injectStep t true).driver.held = _
    rw [hoff, Driver.held_submit_nil hheld]

end Steps

theorem Counted.start :
    Counted (({}, {}) : Port cfg τ × History).1 (({}, {}) : Port cfg τ × History).2 [] :=
  ⟨Sound.start, rfl, fun _ => rfl⟩

/-- A port is never mute in a run if and only if the run misses no bus-off period. -/
theorem neverMute_iff [DecidableEq τ] (events : List (PortEvent τ)) :
    NeverMute cfg events ↔
      Admitted Attended stepWithHistory (({}, {}) : Port cfg τ × History) events := by
  have hpass : ∀ {s : Port cfg τ × History} {orphans : List SlotRef} (nowMs : UInt32),
      Counted s.1 s.2 orphans → s.1.state = .active → s.1.driver.held = [] →
      (Unblocked (exec step s.1 (s.1.loopPass nowMs)) ↔ s.2 = {}) := by
    intro s orphans nowMs hc hs hheld
    obtain ⟨orphans', hc'⟩ := hc.run (s.1.loopPass nowMs)
    obtain ⟨hs', hdriver, hhistory⟩ := loopPass_active hs nowMs
    rw [← exec_stepWithHistory, hc'.unblocked_iff hs' (by rw [hdriver, hheld]), hhistory]
  constructor
  · intro hmute
    apply Admitted.of_forall
    intro before e after heq
    obtain ⟨orphans, hc⟩ := Counted.start.run before
    have hp : (exec stepWithHistory (({}, {}) : Port cfg τ × History) before).1 =
        exec step {} before := exec_stepWithHistory _ _
    generalize exec stepWithHistory (({}, {}) : Port cfg τ × History) before = s at hc hp ⊢
    obtain ⟨p, h⟩ := s
    by_cases he : e = .stateChange .active
    · subst he
      intro hheld
      have hafter : exec step {} (before ++ [.stateChange .active]) =
          p.step (.stateChange .active) := by
        rw [exec_append, ← hp]
        rfl
      have hidle : (p.step (.stateChange .active)).driver.held = [] :=
        Driver.held_changeState_active hheld
      have hun := hmute (before ++ [.stateChange .active]) after (by rw [heq, List.append_assoc]; rfl)
        (by rw [hafter]; rfl) (by rw [hafter, hidle]) 0
      rw [hafter] at hun
      have hnext := (hpass (s := stepWithHistory (p, h) (.stateChange .active)) 0
        (hc.step (.stateChange .active)) rfl hidle).mp hun.1
      exact History.next_active hc.current hnext
    · unfold Attended
      split
      · exact absurd rfl he
      · trivial
  · intro hr before after heq hs hheld nowMs
    rw [heq, Admitted.append_iff] at hr
    obtain ⟨orphans, hc⟩ := Counted.start.run before
    have hclear := Clear.run Counted.start (fun _ _ => rfl) hr.1
    have hp : (exec stepWithHistory (({}, {}) : Port cfg τ × History) before).1 =
        exec step {} before := exec_stepWithHistory _ _
    generalize exec stepWithHistory (({}, {}) : Port cfg τ × History) before = s at hc hp hclear
    rw [← hp] at hs hheld ⊢
    have hun := (hpass nowMs hc hs hheld).mpr (hclear hs hheld)
    obtain ⟨hs', hdriver, _⟩ := loopPass_active hs nowMs
    rw [exec_stepWithHistory] at hs' hdriver
    exact ⟨hun, hun.acceptsNext hs' (by rw [hdriver, hheld])⟩

/-! ## A mute port -/

/-- The second bus-off period follows the first before `loop_` has sampled the recovery. -/
def muteRun : List (PortEvent Unit) :=
  [PortEvent.rx true (some {}) true, PortEvent.stateChange .busOff] ++
    List.replicate 3 (PortEvent.loop 0) ++ List.replicate 3 (PortEvent.loop 200) ++
    [PortEvent.stateChange .active, PortEvent.rx true (some {}) true,
      PortEvent.stateChange .busOff] ++
    List.replicate 3 (PortEvent.loop 300) ++ List.replicate 3 (PortEvent.loop 500) ++
    [PortEvent.stateChange .active]

theorem muteRun_mute : ¬ NeverMute minimalConfig muteRun := by
  intro h
  have hun := h muteRun [] (List.append_nil _).symm (by decide) (by decide) 600
  have htracked := hun.1.tracked
  revert htracked
  decide

end Port

end EspCars.CanGateway
