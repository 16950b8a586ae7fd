import EspCars.CanGateway.Port

/-!
# What `loop_` reports about bus-off

The callbacks and the bus-off sensor depend on the states that `loop_` samples, one a pass, and on
nothing else: `Report` is the part of the supervisor that they move. The recovered callback is for
the edge from bus-off to error-active between two samples. A sample of warning or passive directly
after a sample of bus-off takes that edge away, and the port stays reported as off.
-/

namespace EspCars.CanGateway

open EspCars.Lib

/-- What has been reported, and the last sample. -/
structure Report where
  last : NodeState := .active
  callbacks : List Callback := []
  sensor : Option Bool := none
  deriving DecidableEq

namespace Report

/-- The report behind a sample. -/
def next (r : Report) (sample : NodeState) : Report :=
  if sample = r.last then r
  else if sample = .busOff then ⟨sample, r.callbacks ++ [.busOff], some true⟩
  else if r.last = .busOff ∧ sample = .active then
    ⟨sample, r.callbacks ++ [.recovered], some false⟩
  else { r with last := sample }

/-- The `i`-th callback of a port that reports every bus-off and every recovery. -/
def expected (i : Nat) : Callback := if i % 2 = 0 then .busOff else .recovered

def Alternates (callbacks : List Callback) : Prop :=
  ∀ i, (h : i < callbacks.length) → callbacks[i] = expected i

/-- The callbacks alternate, and the sensor is not on when the last sample was error-active. -/
structure Agrees (r : Report) : Prop where
  alternates : Alternates r.callbacks
  sensor : r.last = .active → r.sensor ≠ some true

/-- Bus-off is sampled, then warning or passive, and later something that depends on the recovery
in between. -/
def MissesRecovery (samples : List NodeState) : Prop :=
  ∃ before m between s after, samples = before ++ .busOff :: m :: (between ++ s :: after) ∧
    (m = .warning ∨ m = .passive) ∧ (s = .active ∨ s = .busOff)

/-! ### Alternation -/

theorem alternates_append_iff {callbacks : List Callback} {c : Callback} :
    Alternates (callbacks ++ [c]) ↔ Alternates callbacks ∧ c = expected callbacks.length := by
  constructor
  · intro h
    constructor
    · intro i hi
      have hi' := h i (by simp only [List.length_append]; omega)
      rwa [List.getElem_append_left hi] at hi'
    · have hlast := h callbacks.length (by simp)
      rwa [List.getElem_concat_length rfl] at hlast
  · rintro ⟨h, rfl⟩ i hi
    by_cases hlt : i < callbacks.length
    · rw [List.getElem_append_left hlt]
      exact h i hlt
    · simp only [List.length_append, List.length_singleton] at hi
      have heq : i = callbacks.length := by omega
      subst heq
      rw [List.getElem_concat_length rfl]

/-- Two reports of bus-off in a row. -/
theorem not_alternates_twice (callbacks : List Callback) :
    ¬ Alternates (callbacks ++ [.busOff] ++ [.busOff]) := by
  intro h
  obtain ⟨hfirst, hsecond⟩ := alternates_append_iff.mp h
  obtain ⟨_, hfirst⟩ := alternates_append_iff.mp hfirst
  simp only [expected, List.length_append, List.length_singleton] at hfirst hsecond
  split_ifs at hfirst hsecond with h1 h2
  omega

/-! ### Every recovery sampled -/

/-- Every bus-off that has been reported has been reported as over. -/
structure Healthy (r : Report) : Prop where
  last : r.last ≠ .busOff
  alternates : Alternates r.callbacks
  even : r.callbacks.length % 2 = 0
  sensor : r.sensor ≠ some true

/-- The last bus-off has been reported and not its end. -/
structure Off (r : Report) : Prop where
  last : r.last ≠ .active
  alternates : Alternates r.callbacks
  odd : r.callbacks.length % 2 = 1
  sensor : r.sensor = some true

variable {r : Report} {m : NodeState}

theorem Healthy.next (h : Healthy r) {sample : NodeState} (hs : sample ≠ .busOff) :
    Healthy (r.next sample) := by
  unfold Report.next
  split_ifs with hsame hoff
  · exact h
  · exact absurd hoff.1 h.last
  · exact ⟨hs, h.alternates, h.even, h.sensor⟩

theorem Healthy.enter (h : Healthy r) : Off (r.next .busOff) := by
  have hne : NodeState.busOff ≠ r.last := h.last.symm
  rw [Report.next, if_neg hne, if_pos rfl]
  refine ⟨fun hlast => NodeState.noConfusion hlast, ?_, ?_, rfl⟩
  · refine alternates_append_iff.mpr ⟨h.alternates, ?_⟩
    rw [expected, if_pos h.even]
  · have heven := h.even
    simp only [List.length_append, List.length_singleton]
    omega

theorem Off.recover (h : Off r) (hlast : r.last = .busOff) : Healthy (r.next .active) := by
  rw [Report.next, if_neg (by rw [hlast]; decide), if_neg (by decide), if_pos ⟨hlast, rfl⟩]
  refine ⟨fun hoff => NodeState.noConfusion hoff, ?_, ?_, fun hon => by cases hon⟩
  · refine alternates_append_iff.mpr ⟨h.alternates, ?_⟩
    rw [expected, if_neg (by rw [h.odd]; decide)]
  · have hodd := h.odd
    simp only [List.length_append, List.length_singleton]
    omega

/-- Off stays off at a sample of warning or passive. -/
theorem Off.linger (h : Off r) (hm : m = .warning ∨ m = .passive) : Off (r.next m) := by
  have hactive : m ≠ .active := by rcases hm with rfl | rfl <;> decide
  have hoff : m ≠ .busOff := by rcases hm with rfl | rfl <;> decide
  unfold Report.next
  split_ifs with hsame hrecover
  · exact h
  · exact absurd hrecover.2 hactive
  · exact ⟨hactive, h.alternates, h.odd, h.sensor⟩

theorem Healthy.agrees (h : Healthy r) : Agrees r := ⟨h.alternates, fun _ => h.sensor⟩

theorem Off.agrees (h : Off r) : Agrees r :=
  ⟨h.alternates, fun hactive => absurd hactive h.last⟩

theorem NodeState.cases_off (s : NodeState) :
    (s = .warning ∨ s = .passive) ∨ s = .active ∨ s = .busOff := by
  cases s <;> decide

theorem last_next (r : Report) (sample : NodeState) : (r.next sample).last = sample := by
  unfold Report.next
  split_ifs with hsame
  · exact hsame.symm
  · rfl
  · rfl
  · rfl

/-- Without a missed recovery the report is healthy, or off since the last sample of bus-off. -/
theorem reached {samples : List NodeState} (h : ¬ MissesRecovery samples) :
    Healthy (exec next {} samples) ∨
      (Off (exec next {} samples) ∧ ∃ before, samples = before ++ [.busOff]) ∨
      (Off (exec next {} samples) ∧ ∃ before m between,
        samples = before ++ .busOff :: m :: between ∧ (m = .warning ∨ m = .passive)) := by
  induction samples using List.reverseRecOn with
  | nil =>
    left
    refine ⟨by decide, ?_, rfl, by decide⟩
    intro i hi
    cases hi
  | append_singleton samples s ih =>
    have hbefore : ¬ MissesRecovery samples := by
      rintro ⟨before, m, between, s', after, rfl, hm, hs⟩
      exact h ⟨before, m, between, s', after ++ [s], by simp, hm, hs⟩
    rw [exec_append, exec_cons, exec_nil]
    rcases ih hbefore with hhealthy | ⟨hoff, before, hsamples⟩ |
      ⟨hoff, before, m, between, hsamples, hm⟩
    · by_cases hs : s = .busOff
      · subst hs
        exact Or.inr (Or.inl ⟨hhealthy.enter, samples, rfl⟩)
      · exact Or.inl (hhealthy.next hs)
    · have hlast : (exec next {} samples).last = .busOff := by
        rw [hsamples, exec_append]
        exact last_next _ _
      rcases NodeState.cases_off s with hs | rfl | rfl
      · refine Or.inr (Or.inr ⟨hoff.linger hs, before, s, [], ?_, hs⟩)
        rw [hsamples]
        simp
      · exact Or.inl (hoff.recover hlast)
      · refine Or.inr (Or.inl ⟨?_, samples, rfl⟩)
        rw [Report.next, if_pos hlast.symm]
        exact hoff
    · rcases NodeState.cases_off s with hs | hs
      · refine Or.inr (Or.inr ⟨hoff.linger hs, before, m, between ++ [s], ?_, hm⟩)
        rw [hsamples]
        simp
      · refine absurd ⟨before, m, between, s, [], ?_, hm, hs⟩ h
        rw [hsamples]
        simp

/-! ### A recovery missed -/

/-- Bus-off is the last thing reported. -/
structure Stuck (r : Report) : Prop where
  sensor : r.sensor = some true
  callbacks : ∃ callbacks, r.callbacks = callbacks ++ [.busOff]

theorem stuck_of_busOff (samples : List NodeState)
    (h : (exec next {} samples).last = .busOff) : Stuck (exec next {} samples) := by
  induction samples using List.reverseRecOn with
  | nil => cases h
  | append_singleton samples s ih =>
    rw [exec_append, exec_cons, exec_nil] at h ⊢
    rw [last_next] at h
    subst h
    generalize exec next {} samples = r at ih ⊢
    by_cases hsame : NodeState.busOff = r.last
    · rw [Report.next, if_pos hsame]
      exact ih hsame.symm
    · rw [Report.next, if_neg hsame, if_pos rfl]
      exact ⟨rfl, _, rfl⟩

theorem Stuck.linger (h : Stuck r) (hm : m = .warning ∨ m = .passive) : Stuck (r.next m) := by
  have hactive : m ≠ .active := by rcases hm with rfl | rfl <;> decide
  have hoff : m ≠ .busOff := by rcases hm with rfl | rfl <;> decide
  unfold Report.next
  split_ifs with hsame hrecover
  · exact h
  · exact absurd hrecover.2 hactive
  · exact ⟨h.sensor, h.callbacks⟩

/-- A stuck report goes wrong at the next sample of error-active or bus-off. -/
theorem Stuck.disagrees (h : Stuck r) {s : NodeState} (hlast : r.last = m)
    (hm : m = .warning ∨ m = .passive) (hs : s = .active ∨ s = .busOff) :
    ¬ Agrees (r.next s) := by
  have hne : s ≠ r.last := by
    rw [hlast]
    rcases hm with rfl | rfl <;> rcases hs with rfl | rfl <;> decide
  have hnot : r.last ≠ .busOff := by
    rw [hlast]
    rcases hm with rfl | rfl <;> decide
  intro hagrees
  rcases hs with rfl | rfl
  · rw [Report.next, if_neg hne, if_neg (by decide), if_neg (fun hoff => hnot hoff.1)] at hagrees
    exact hagrees.sensor rfl h.sensor
  · obtain ⟨callbacks, hcallbacks⟩ := h.callbacks
    rw [Report.next, if_neg hne, if_pos rfl, hcallbacks] at hagrees
    exact not_alternates_twice callbacks hagrees.alternates

theorem Stuck.exists_disagrees (h : Stuck r) (hlast : r.last = m)
    (hm : m = .warning ∨ m = .passive) (between : List NodeState) {s : NodeState}
    (hs : s = .active ∨ s = .busOff) (after : List NodeState) :
    ∃ shown, shown <+: between ++ s :: after ∧ ¬ Agrees (exec next r shown) := by
  induction between generalizing r m with
  | nil => exact ⟨[s], ⟨after, rfl⟩, h.disagrees hlast hm hs⟩
  | cons x between ih =>
    rcases NodeState.cases_off x with hx | hx
    · obtain ⟨shown, hshown, hdis⟩ := ih (h.linger hx) (last_next r x) hx
      exact ⟨x :: shown, (List.prefix_cons_inj x).mpr hshown, hdis⟩
    · exact ⟨[x], ⟨between ++ s :: after, rfl⟩, h.disagrees hlast hm hx⟩

/-- What is reported agrees with the samples if and only if they show every recovery that something
later depends on. -/
theorem agrees_iff (samples : List NodeState) :
    (∀ shown, shown <+: samples → Agrees (exec next {} shown)) ↔ ¬ MissesRecovery samples := by
  constructor
  · rintro hall ⟨before, m, between, s, after, rfl, hm, hs⟩
    have hstuck : Stuck (exec next {} (before ++ [.busOff])) := by
      apply stuck_of_busOff _
      rw [exec_append]
      exact last_next _ _
    obtain ⟨shown, ⟨rest, hrest⟩, hdis⟩ :=
      (hstuck.linger hm).exists_disagrees (last_next _ _) hm between hs after
    apply hdis
    have hagrees := hall (before ++ [.busOff] ++ m :: shown)
      ⟨rest, by rw [← hrest]; simp⟩
    rwa [exec_append, exec_cons] at hagrees
  · rintro hnone shown ⟨rest, rfl⟩
    have hshown : ¬ MissesRecovery shown := by
      rintro ⟨before, m, between, s, after, rfl, hm, hs⟩
      exact hnone ⟨before, m, between, s, after ++ rest, by simp, hm, hs⟩
    rcases reached hshown with h | ⟨h, _⟩ | ⟨h, _⟩
    · exact h.agrees
    · exact h.agrees
    · exact h.agrees

end Report

/-! ## The port -/

namespace Port

variable {cfg : PortConfig} {τ : Type}

/-- The state that `loop_` reads at the start of a pass. -/
def sampled (p : Port cfg τ) : PortEvent τ → Option NodeState
  | .loop _ => if p.loopPc = .idle then some p.state else none
  | _ => none

def report (p : Port cfg τ) : Report :=
  ⟨p.supervisor.lastLoopState, p.supervisor.callbacks, p.supervisor.busOffSensor⟩

theorem report_edge (v : Supervisor) (state : NodeState) (nowMs : UInt32) :
    (⟨(v.edge state nowMs).lastLoopState, (v.edge state nowMs).callbacks,
      (v.edge state nowMs).busOffSensor⟩ : Report) =
      Report.next ⟨v.lastLoopState, v.callbacks, v.busOffSensor⟩ state := by
  simp only [Supervisor.edge, Report.next]
  split_ifs <;> first | rfl | contradiction

theorem sampled_loop (p : Port cfg τ) (nowMs : UInt32) :
    p.sampled (.loop nowMs) = if p.loopPc = .idle then some p.state else none := rfl

theorem report_step [DecidableEq τ] (p : Port cfg τ) (e : PortEvent τ) :
    (p.step e).report = exec Report.next p.report (p.sampled e).toList := by
  by_cases he : ∃ nowMs, e = .loop nowMs
  · obtain ⟨nowMs, rfl⟩ := he
    change (p.loopStep nowMs).report = _
    unfold Port.loopStep
    cases hpc : p.loopPc with
    | idle =>
      rw [sampled_loop, if_pos hpc]
      exact report_edge p.supervisor p.state nowMs
    | sampled state now =>
      rw [sampled_loop, if_neg (by rw [hpc]; exact LoopPc.noConfusion)]
      dsimp only
      split_ifs
      · simp only [report, p.reclaimSection_links.2.2, Option.toList_none, exec_nil]
      · rfl
    | reclaimed state now =>
      rw [sampled_loop, if_neg (by rw [hpc]; exact LoopPc.noConfusion)]
      dsimp only
      split_ifs
      · split <;> rfl
      · rfl
      · rfl
  · have hne : ∀ nowMs, e ≠ .loop nowMs := fun nowMs hn => he ⟨nowMs, hn⟩
    have hnone : p.sampled e = none := by
      cases e with
      | loop nowMs => exact absurd rfl (hne nowMs)
      | _ => rfl
    rw [hnone, report, supervisor_step p e hne]
    rfl

/-- In every run: the callbacks alternate, starting with bus-off, and the sensor is off after every
pass that reads error-active, if and only if the samples of `loop_` miss no recovery. -/
theorem reporting_agrees_iff [DecidableEq τ] (events : List (PortEvent τ)) :
    (∀ before, before <+: events → (exec step ({} : Port cfg τ) before).report.Agrees) ↔
      ¬ Report.MissesRecovery (observed sampled step ({} : Port cfg τ) events) := by
  have hreport : ∀ before : List (PortEvent τ), (exec step ({} : Port cfg τ) before).report =
      exec Report.next {} (observed sampled step {} before) :=
    fun before => exec_observed report report_step {} before
  rw [← Report.agrees_iff]
  constructor
  · intro h shown hshown
    obtain ⟨before, hbefore, rfl⟩ := exists_prefix_observed hshown
    rw [← hreport]
    exact h before hbefore
  · rintro h before ⟨rest, rfl⟩
    rw [hreport]
    apply h _
    rw [observed_append]
    exact List.prefix_append _ _

/-- The port goes error-passive between two samples of its recovery. -/
def passiveRun : List (PortEvent Unit) :=
  [.stateChange .busOff, .loop 0, .loop 0, .loop 0, .stateChange .active, .stateChange .passive,
    .loop 200, .loop 200, .loop 200, .stateChange .active, .loop 300]

theorem passiveRun_disagrees : ¬ ∀ before, before <+: passiveRun →
    (exec step ({} : Port minimalConfig Unit) before).report.Agrees := by
  intro h
  exact (h passiveRun (List.prefix_refl _)).sensor rfl rfl

end Port

end EspCars.CanGateway
