import EspCars.CanGateway.Port
import EspCars.Lib.Counter

/-!
# The recovery schedule

A pass of `loop_` samples the state of the port and infers the edges from the last two samples. It
calls `twai_node_recover` only in bus-off, each call at least the current delay behind the one
before it, and the delay doubles with each of them up to its cap.

The delay falls back to the first one only once `on_recovered` has been told, and that takes a
sample of bus-off with one of error-active right behind it. A port that is sampled error-warning or
error-passive on its way back keeps the delay that it has, for as long as it stays healthy.
-/

namespace EspCars.CanGateway

open EspCars.Lib RecoveryBackoff

/-! ## One pass -/

namespace Supervisor

/-- The reclaim section, as far as it touches these fields. -/
def reclaimed (v : Supervisor) (state : NodeState) : Supervisor :=
  if state = .busOff ∧ !v.busOffHeadReclaimed then { v with busOffHeadReclaimed := true } else v

/-- The last part of `loop_`, and whether it calls `twai_node_recover`. -/
def recovery (v : Supervisor) (state : NodeState) (nowMs : UInt32) : Bool × Supervisor :=
  if state = .busOff then
    match v.backoff.shouldAttempt nowMs with
    | (true, backoff) => (true, { v with backoff := backoff.onBusOff nowMs })
    | (false, _) => (false, v)
  else if state = .active then
    (false, { v with backoff := v.backoff.onStableTick nowMs })
  else (false, v)

def pass (v : Supervisor) (state : NodeState) (nowMs : UInt32) : Bool × Supervisor :=
  ((v.edge state nowMs).reclaimed state).recovery state nowMs

end Supervisor

namespace Port

variable {cfg : PortConfig} {τ : Type}

/-- The three steps of a pass of `loop_`, which no other event interferes with: only `loop_` touches
the supervisor (`supervisor_step`). -/
theorem loop_pass (p : Port cfg τ) (hidle : p.loopPc = .idle) (nowMs t t' : UInt32) :
    let q := ((p.loopStep nowMs).loopStep t).loopStep t'
    q.loopPc = .idle ∧ q.supervisor = (p.supervisor.pass p.state nowMs).2 ∧
      q.recoverCalls = p.recoverCalls + (p.supervisor.pass p.state nowMs).1.toNat := by
  have hsampled : p.loopStep nowMs = { p with
      supervisor := p.supervisor.edge p.state nowMs
      loopPc := .sampled p.state nowMs } := by
    simp [loopStep, hidle]
  have hreclaimed : ∀ q : Port cfg τ, q.reclaimSection.recoverCalls = q.recoverCalls := by
    intro q
    unfold reclaimSection
    dsimp only
    split_ifs
    · split
      · rename_i orphan outstanding _
        cases orphan <;> rfl
      · rfl
    · rfl
  rw [hsampled]
  simp only [loopStep, Supervisor.pass, Supervisor.reclaimed, Supervisor.recovery]
  split_ifs <;> simp_all [reclaimSection_links] <;> split <;> simp_all

end Port

/-! ## The passes of a run -/

/-- What one pass reads: the state that it samples, and the time on a clock that does not wrap. -/
structure Sample where
  state : NodeState
  timeMs : Nat
  deriving DecidableEq

namespace Supervisor

def sampled (v : Supervisor) (s : Sample) : Supervisor :=
  (v.pass s.state (UInt32.ofNat s.timeMs)).2

/-- What `loop_` keeps after the passes that sampled these. -/
def after (samples : List Sample) : Supervisor := exec sampled {} samples

/-- The pass that samples `s` calls `twai_node_recover`. -/
def recovers (before : List Sample) (s : Sample) : Bool :=
  ((after before).pass s.state (UInt32.ofNat s.timeMs)).1

/-- The current delay. -/
def delayAfter (samples : List Sample) : Nat := (after samples).backoff.delayMs.toNat

end Supervisor

open Supervisor

def lastState (samples : List Sample) : NodeState := (samples.getLast?.map Sample.state).getD .active

def Ordered (samples : List Sample) : Prop := samples.Pairwise (·.timeMs ≤ ·.timeMs)

/-- The pass that samples `s` sets the time of a call: behind the edge into bus-off, and behind
another call. -/
def Schedules (before : List Sample) (s : Sample) : Prop :=
  s.state = .busOff ∧ (lastState before ≠ .busOff ∨ recovers before s = true)

/-- The calls and the delays of a run. -/
structure Paced (samples : List Sample) : Prop where
  busOff : ∀ before s, before ++ [s] <+: samples → recovers before s = true → s.state = .busOff
  apart : ∀ before r mid s, before ++ r :: (mid ++ [s]) <+: samples → recovers before r = true →
    recovers (before ++ r :: mid) s = true →
      r.timeMs + delayAfter (before ++ r :: mid) ≤ s.timeMs
  scheduled : ∀ before s, before ++ [s] <+: samples → recovers before s = true →
    ∃ b q mid, before = b ++ q :: mid ∧ Schedules b q ∧ q.timeMs + delayAfter before ≤ s.timeMs ∧
      ∀ m r, m ++ [r] <+: mid → recovers (b ++ q :: m) r = false
  first : delayAfter [] = 100
  doubled : ∀ before s, before ++ [s] <+: samples → recovers before s = true →
    delayAfter (before ++ [s]) = min 3200 (2 * delayAfter before)
  kept : ∀ before s, before ++ [s] <+: samples → recovers before s = false →
    delayAfter (before ++ [s]) = delayAfter before ∨
      delayAfter (before ++ [s]) = 100 ∧ s.state = .active ∧
        ∃ b r mid, before = b ++ r :: mid ∧ lastState b = .busOff ∧ r.state = .active ∧
          r.timeMs + 10000 ≤ s.timeMs ∧ ∀ x ∈ mid, x.state ≠ .busOff

/-- Ten seconds of samples that are all error-active bring the first delay back, and it stays until
the next call. -/
def ResetsWhenStable (samples : List Sample) : Prop :=
  ∀ before first mid last rest, before ++ first :: (mid ++ last :: rest) <+: samples →
    (∀ s ∈ first :: (mid ++ [last]), s.state = .active) →
    first.timeMs + 10000 ≤ last.timeMs → (∀ s ∈ rest, s.state ≠ .busOff) →
      delayAfter (before ++ first :: (mid ++ last :: rest)) = 100

/-- Between a sample of bus-off and the next one of error-active, there is no other. -/
def DirectRecoveries (samples : List Sample) : Prop :=
  ∀ before q mid s, before ++ q :: (mid ++ [s]) <+: samples → q.state = .busOff →
    s.state = .active → (∀ x ∈ mid, x.state = .warning ∨ x.state = .passive) → mid = []

/-- The clock does not wrap between two samples of a healthy port, up to the ten seconds. -/
def SampledOften (samples : List Sample) : Prop :=
  samples.IsChain fun s t => t.timeMs < s.timeMs + (2 ^ 32 - 10000)

/-! ## What a pass can do -/

/-- The schedule behind a pass, and whether the pass calls. -/
inductive Passed (last : NodeState) (b : RecoveryBackoff) (nowMs : UInt32) :
    NodeState → Bool → RecoveryBackoff → Prop
  | fell : last ≠ .busOff → Passed last b nowMs .busOff false (b.onBusOff nowMs)
  | called (delayMs : UInt32) : last = .busOff → b.pending = true →
      nowMs - b.dueAtMs < 0x80000000 → delayMs.toNat = min 3200 (2 * b.delayMs.toNat) →
      Passed last b nowMs .busOff true ({ b with delayMs := delayMs }.onBusOff nowMs)
  | waited : last = .busOff → Passed last b nowMs .busOff false b
  | recovered : last = .busOff → Passed last b nowMs .active false (b.onRecovered nowMs)
  | reset : last ≠ .busOff → b.stableSinceValid = true →
      10000 ≤ (nowMs - b.stableSinceMs).toNat → Passed last b nowMs .active false
        { b with delayMs := RecoveryBackoff.initialDelayMs, stableSinceValid := false }
  | stable : last ≠ .busOff →
      (b.stableSinceValid = true → (nowMs - b.stableSinceMs).toNat < 10000) →
      Passed last b nowMs .active false b
  | degraded {state : NodeState} : state = .warning ∨ state = .passive →
      Passed last b nowMs state false b

namespace Supervisor

theorem backoff_reclaimed (v : Supervisor) (state : NodeState) :
    (v.reclaimed state).backoff = v.backoff ∧
      (v.reclaimed state).lastLoopState = v.lastLoopState := by
  unfold reclaimed
  split_ifs <;> exact ⟨rfl, rfl⟩

theorem toNat_doubled {d : UInt32} (hle : d.toNat ≤ 3200) :
    (if d * 2 > maxDelayMs then maxDelayMs else d * 2).toNat =
      min 3200 (2 * d.toNat) := by
  have htwice : (d * 2).toNat = 2 * d.toNat := by
    rw [UInt32.toNat_mul, show (2 : UInt32).toNat = 2 from rfl]
    omega
  have hmax : maxDelayMs.toNat = 3200 := rfl
  split_ifs with h
  · rw [gt_iff_lt, UInt32.lt_iff_toNat_lt] at h
    omega
  · rw [gt_iff_lt, UInt32.lt_iff_toNat_lt] at h
    omega

/-- A call that has just been scheduled is not due. -/
theorem not_due {nowMs d : UInt32} (hpos : 0 < d.toNat) (hle : d.toNat ≤ 3200) :
    nowMs - (nowMs + d) ≥ 0x80000000 := by
  rw [ge_iff_le, UInt32.le_iff_toNat_le, UInt32.toNat_sub, UInt32.toNat_add,
    show (0x80000000 : UInt32).toNat = 2 ^ 31 from rfl]
  have := nowMs.toNat_lt
  omega

/-- The recovery part in bus-off, where the last sample was bus-off as well. -/
theorem passed_busOff {b : RecoveryBackoff} {nowMs : UInt32} (hle : b.delayMs.toNat ≤ 3200) :
    Passed .busOff b nowMs .busOff (b.shouldAttempt nowMs).1
      (if (b.shouldAttempt nowMs).1 then (b.shouldAttempt nowMs).2.onBusOff nowMs else b) := by
  unfold shouldAttempt
  split_ifs with h h' h'
  · cases h'
  · exact .waited rfl
  · obtain ⟨hpending, hdue⟩ := not_or.mp h
    refine .called _ rfl (by simpa using hpending) (UInt32.not_le.mp hdue) (toNat_doubled hle)
  · exact absurd rfl h'

/-- The recovery part in error-active. -/
theorem passed_active {last : NodeState} {b : RecoveryBackoff} {nowMs : UInt32}
    (hlast : last ≠ .busOff) : Passed last b nowMs .active false (b.onStableTick nowMs) := by
  unfold onStableTick
  split_ifs with h
  · exact .reset hlast h.1 (UInt32.le_iff_toNat_le.mp h.2)
  · refine .stable hlast fun hvalid => ?_
    exact UInt32.lt_iff_toNat_lt.mp (UInt32.not_le.mp fun hdue => h ⟨hvalid, hdue⟩)

theorem onStableTick_onRecovered (b : RecoveryBackoff) (nowMs : UInt32) :
    (b.onRecovered nowMs).onStableTick nowMs = b.onRecovered nowMs := by
  simp [onStableTick, onRecovered, stableResetMs]

theorem passed (v : Supervisor) (state : NodeState) (nowMs : UInt32)
    (hpos : 0 < v.backoff.delayMs.toNat) (hle : v.backoff.delayMs.toNat ≤ 3200) :
    Passed v.lastLoopState v.backoff nowMs state (v.pass state nowMs).1
        (v.pass state nowMs).2.backoff ∧
      (v.pass state nowMs).2.lastLoopState = state := by
  have hbackoff := (v.edge state nowMs).backoff_reclaimed state
  have hlast : (v.edge state nowMs).lastLoopState = state := by
    unfold edge
    dsimp only
    split_ifs <;> simp_all
  unfold pass recovery
  by_cases hbus : state = .busOff
  · subst hbus
    rw [if_pos rfl, hbackoff.1]
    by_cases hfell : v.lastLoopState = .busOff
    · have hedge : v.edge .busOff nowMs = v := by simp [edge, hfell]
      have hpassed := @passed_busOff v.backoff nowMs hle
      rw [hedge] at hbackoff hlast ⊢
      rw [hfell]
      split
      · rename_i backoff heq
        rw [heq] at hpassed
        exact ⟨hpassed, hbackoff.2.trans hlast⟩
      · rename_i backoff heq
        rw [heq] at hpassed
        exact ⟨hbackoff.1.symm ▸ hpassed, hbackoff.2.trans hlast⟩
    · have hedge : (v.edge .busOff nowMs).backoff = v.backoff.onBusOff nowMs := by
        simp [edge, Ne.symm hfell]
      have hwaits : (v.backoff.onBusOff nowMs).shouldAttempt nowMs =
          (false, v.backoff.onBusOff nowMs) := by
        rw [shouldAttempt, if_pos (.inr (not_due hpos hle))]
      rw [hedge, hwaits]
      exact ⟨hbackoff.1.symm ▸ hedge.symm ▸ .fell hfell, hbackoff.2.trans hlast⟩
  · rw [if_neg hbus]
    by_cases hactive : state = .active
    · subst hactive
      rw [if_pos rfl, hbackoff.1]
      by_cases hrecovered : v.lastLoopState = .busOff
      · have hedge : (v.edge .active nowMs).backoff = v.backoff.onRecovered nowMs := by
          simp [edge, hrecovered]
        rw [hedge, onStableTick_onRecovered]
        exact ⟨.recovered hrecovered, hbackoff.2.trans hlast⟩
      · have hedge : (v.edge .active nowMs).backoff = v.backoff := by
          unfold edge
          dsimp only
          split_ifs <;> simp_all
        rw [hedge]
        exact ⟨passed_active hrecovered, hbackoff.2.trans hlast⟩
    · rw [if_neg hactive]
      have hedge : (v.edge state nowMs).backoff = v.backoff := by
        unfold edge
        dsimp only
        split_ifs <;> simp_all
      refine ⟨hbackoff.1.symm ▸ hedge.symm ▸ .degraded ?_, hbackoff.2.trans hlast⟩
      cases state <;> simp_all

end Supervisor

/-! ## What a run keeps -/

section

variable {samples : List Sample} {s : Sample}

@[simp] theorem after_concat (samples : List Sample) (s : Sample) :
    after (samples ++ [s]) = ((after samples).pass s.state (UInt32.ofNat s.timeMs)).2 :=
  exec_append _ _ _ _

@[simp] theorem lastState_concat (samples : List Sample) (s : Sample) :
    lastState (samples ++ [s]) = s.state := by
  simp [lastState]

theorem ordered_concat_iff : Ordered (samples ++ [s]) ↔
    Ordered samples ∧ ∀ x ∈ samples, x.timeMs ≤ s.timeMs := by
  simp [Ordered, List.pairwise_append]

/-- The pass that scheduled the next call, and none that called since. -/
def ScheduledBy (samples : List Sample) (dueMs : Nat → Prop) : Prop :=
  ∃ b q mid, samples = b ++ q :: mid ∧ Schedules b q ∧ dueMs q.timeMs ∧
    ∀ m r, m ++ [r] <+: mid → recovers (b ++ q :: m) r = false

theorem ScheduledBy.concat {dueMs : Nat → Prop} (h : ScheduledBy samples dueMs)
    (hs : recovers samples s = false) : ScheduledBy (samples ++ [s]) dueMs := by
  obtain ⟨b, q, mid, rfl, hq, hdue, hquiet⟩ := h
  refine ⟨b, q, mid ++ [s], by simp, hq, hdue, fun m r hm => ?_⟩
  rcases List.prefix_concat_iff.mp hm with heq | hm
  · obtain ⟨rfl, hr⟩ := List.append_inj' heq rfl
    rwa [List.singleton_inj.mp hr]
  · exact hquiet m r hm

/-- The recovery that the schedule has been told of, and no bus-off since. -/
def StableSince (samples : List Sample) (sinceMs : UInt32) : Prop :=
  ∃ b r mid, samples = b ++ r :: mid ∧ lastState b = .busOff ∧ r.state = .active ∧
    sinceMs = UInt32.ofNat r.timeMs ∧ ∀ x ∈ mid, x.state ≠ .busOff

theorem StableSince.concat {sinceMs : UInt32} (h : StableSince samples sinceMs)
    (hs : s.state ≠ .busOff) : StableSince (samples ++ [s]) sinceMs := by
  obtain ⟨b, r, mid, rfl, hb, hr, hsince, hmid⟩ := h
  refine ⟨b, r, mid ++ [s], by simp, hb, hr, hsince, fun x hx => ?_⟩
  rcases List.mem_append.mp hx with hx | hx
  · exact hmid x hx
  · rwa [List.mem_singleton.mp hx]

theorem StableSince.lastState_ne {sinceMs : UInt32} (h : StableSince samples sinceMs) :
    lastState samples ≠ .busOff := by
  obtain ⟨b, r, mid, rfl, hb, hr, hsince, hmid⟩ := h
  rcases List.eq_nil_or_concat' mid with rfl | ⟨mid, x, rfl⟩
  · simp [hr]
  · have hx := hmid x (by simp)
    rw [← List.cons_append, ← List.append_assoc, lastState_concat]
    exact hx

/-- The schedule and the samples behind it. -/
structure Watched (samples : List Sample) (v : Supervisor) : Prop where
  last : v.lastLoopState = lastState samples
  pos : 100 ≤ v.backoff.delayMs.toNat
  cap : v.backoff.delayMs.toNat ≤ 3200
  pending : v.backoff.pending = true → v.backoff.stableSinceValid = false ∧
    ScheduledBy samples fun t =>
      v.backoff.dueAtMs = UInt32.ofNat (t + v.backoff.delayMs.toNat)
  since : v.backoff.stableSinceValid = true → StableSince samples v.backoff.stableSinceMs

theorem scheduledBy_self {dueMs : Nat → Prop} (hs : Schedules samples s) (hdue : dueMs s.timeMs) :
    ScheduledBy (samples ++ [s]) dueMs :=
  ⟨samples, s, [], rfl, hs, hdue, by simp⟩

theorem dueAt_onBusOff (t : Nat) (d : UInt32) :
    UInt32.ofNat t + d = UInt32.ofNat (t + d.toNat) := by
  rw [UInt32.ofNat_add, UInt32.ofNat_toNat]

theorem Watched.start : Watched [] (after []) where
  last := rfl
  pos := by decide
  cap := by decide
  pending h := by cases h
  since h := by cases h

theorem Passed.bounds {last : NodeState} {b b' : RecoveryBackoff} {nowMs : UInt32}
    {state : NodeState} {calls : Bool} (h : Passed last b nowMs state calls b')
    (hpos : 100 ≤ b.delayMs.toNat) (hcap : b.delayMs.toNat ≤ 3200) :
    100 ≤ b'.delayMs.toNat ∧ b'.delayMs.toNat ≤ 3200 := by
  cases h with
  | fell | waited | recovered | stable | degraded => exact ⟨hpos, hcap⟩
  | called delayMs hbus hold hdue hdelay =>
    simp only [onBusOff]
    omega
  | reset =>
    exact ⟨show 100 ≤ initialDelayMs.toNat by decide,
      show initialDelayMs.toNat ≤ 3200 by decide⟩

theorem Watched.concat (h : Watched samples (after samples)) :
    Watched (samples ++ [s]) (after (samples ++ [s])) := by
  have hpassed := (after samples).passed s.state (UInt32.ofNat s.timeMs)
    (Nat.lt_of_lt_of_le (by omega) h.pos) h.cap
  rw [h.last] at hpassed
  rw [after_concat]
  obtain ⟨hcase, hlast⟩ := hpassed
  have hcalls : recovers samples s = ((after samples).pass s.state (UInt32.ofNat s.timeMs)).1 := rfl
  revert hcase hlast hcalls
  generalize (after samples).pass s.state (UInt32.ofNat s.timeMs) = r
  obtain ⟨calls, last, reclaimed, backoff, recoveries, callbacks, sensor⟩ := r
  intro hcase hlast hcalls
  dsimp only at hcase hlast hcalls ⊢
  obtain ⟨-, hpos, hcap, hpending, hsince⟩ := h
  have hbounds := hcase.bounds hpos hcap
  refine ⟨hlast.trans (lastState_concat samples s).symm, hbounds.1, hbounds.2, fun hp => ?_,
    fun hv => ?_⟩ <;> dsimp only at *
  · generalize hstate : s.state = state at hcase
    cases hcase with
    | fell hup => exact ⟨rfl, scheduledBy_self ⟨hstate, .inl hup⟩ (dueAt_onBusOff _ _)⟩
    | called delayMs hbus hold hdue hdelay =>
      exact ⟨rfl, scheduledBy_self ⟨hstate, .inr hcalls⟩ (dueAt_onBusOff _ _)⟩
    | recovered hbus => cases hp
    | reset hup hvalid hdue => exact absurd hvalid (by simp [(hpending hp).1])
    | waited | stable | degraded => exact ⟨(hpending hp).1, (hpending hp).2.concat hcalls⟩
  · generalize hstate : s.state = state at hcase
    cases hcase with
    | fell => cases hv
    | called => cases hv
    | waited hbus => exact absurd hbus (hsince hv).lastState_ne
    | recovered hbus => exact ⟨samples, s, [], rfl, hbus, hstate, rfl, by simp⟩
    | reset => cases hv
    | stable => exact (hsince hv).concat (by simp [hstate])
    | degraded hdegraded =>
      exact (hsince hv).concat (by rcases hdegraded with h | h <;> simp [hstate, h])

theorem watched (samples : List Sample) : Watched samples (after samples) := by
  induction samples using List.reverseRecOn with
  | nil => exact Watched.start
  | append_singleton samples s ih => exact ih.concat

/-- What the pass that samples `s` does with the schedule. -/
theorem passed_after (samples : List Sample) (s : Sample) :
    Passed (lastState samples) (after samples).backoff (UInt32.ofNat s.timeMs) s.state
      (recovers samples s) (after (samples ++ [s])).backoff := by
  have h := watched samples
  rw [← h.last, after_concat]
  exact ((after samples).passed s.state (UInt32.ofNat s.timeMs)
    (Nat.lt_of_lt_of_le (by omega) h.pos) h.cap).1

/-- A call that is due is not made before its time. -/
theorem le_of_due {t d now : Nat} (hle : t ≤ now) (hd : d ≤ 3200)
    (hdue : UInt32.ofNat now - UInt32.ofNat (t + d) < 0x80000000) : t + d ≤ now := by
  rw [UInt32.lt_iff_toNat_lt, UInt32.toNat_sub, UInt32.toNat_ofNat', UInt32.toNat_ofNat',
    show (0x80000000 : UInt32).toNat = 2 ^ 31 from rfl] at hdue
  omega

/-- A call is behind the pass that scheduled it by the current delay. -/
theorem scheduled_of_recovers (hordered : Ordered (samples ++ [s]))
    (hs : recovers samples s = true) :
    ScheduledBy samples fun t => t + delayAfter samples ≤ s.timeMs := by
  have h := watched samples
  have hcase := passed_after samples s
  rw [hs] at hcase
  generalize s.state = state, (after (samples ++ [s])).backoff = b at hcase
  cases hcase with
  | called delayMs hbus hpending hdue hdelay =>
    obtain ⟨-, b, q, mid, heq, hq, hdueAt, hquiet⟩ := h.pending hpending
    refine ⟨b, q, mid, heq, hq, ?_, hquiet⟩
    rw [hdueAt] at hdue
    refine le_of_due ((ordered_concat_iff.mp hordered).2 q ?_) h.cap hdue
    rw [heq]
    simp

theorem state_of_recovers (hs : recovers samples s = true) : s.state = .busOff := by
  have hcase := passed_after samples s
  rw [hs] at hcase
  generalize hstate : s.state = state, (after (samples ++ [s])).backoff = b at hcase
  cases hcase with
  | called => rfl

theorem apart_of_recovers {before mid : List Sample} {r : Sample}
    (hordered : Ordered (before ++ r :: (mid ++ [s]))) (hr : recovers before r = true)
    (hs : recovers (before ++ r :: mid) s = true) :
    r.timeMs + delayAfter (before ++ r :: mid) ≤ s.timeMs := by
  have hsplit : before ++ r :: (mid ++ [s]) = before ++ r :: mid ++ [s] := by simp
  rw [hsplit] at hordered
  obtain ⟨b, q, m, heq, -, hdue, hquiet⟩ := scheduled_of_recovers hordered hs
  have hpair := (ordered_concat_iff.mp hordered).1
  suffices hle : r.timeMs ≤ q.timeMs by omega
  rcases List.append_eq_append_iff.mp heq with ⟨a, rfl, ha⟩ | ⟨a, rfl, ha⟩
  · cases a with
    | nil => cases ha; exact Nat.le_refl _
    | cons x a =>
      cases ha
      have hmem : q ∈ a ++ q :: m := by simp
      exact (List.pairwise_cons.mp (List.pairwise_append.mp hpair).2.1).1 q hmem
  · cases a with
    | nil => cases ha; exact Nat.le_refl _
    | cons x a =>
      -- a call behind the pass that scheduled this one
      cases ha
      have hnone := hquiet a r ⟨mid, by simp⟩
      rw [hr] at hnone
      cases hnone

theorem paced_of_ordered (hordered : Ordered samples) : Paced samples where
  busOff before s _ hs := state_of_recovers hs
  apart before r mid s hle hr hs :=
    apart_of_recovers (hordered.sublist hle.sublist) hr hs
  scheduled before s hle hs := scheduled_of_recovers (hordered.sublist hle.sublist) hs
  first := rfl
  doubled before s hle hs := by
    have hcase := passed_after before s
    rw [hs] at hcase
    unfold delayAfter
    generalize s.state = state, (after (before ++ [s])).backoff = b at hcase
    cases hcase with
    | called delayMs hbus hpending hdue hdelay => exact hdelay
  kept before s hle hs := by
    have hcase := passed_after before s
    have h := watched before
    rw [hs] at hcase
    unfold delayAfter
    generalize hstate : s.state = state, (after (before ++ [s])).backoff = b at hcase
    cases hcase with
    | fell | waited | recovered | stable | degraded => exact .inl rfl
    | reset hup hvalid hdue =>
      refine .inr ⟨rfl, rfl, ?_⟩
      obtain ⟨b, r, mid, heq, hb, hr, hsince, hmid⟩ := h.since hvalid
      refine ⟨b, r, mid, heq, hb, hr, ?_, hmid⟩
      have hordered' := (ordered_concat_iff.mp (hordered.sublist hle.sublist)).2 r (by simp [heq])
      rw [hsince, UInt32.toNat_sub, UInt32.toNat_ofNat', UInt32.toNat_ofNat'] at hdue
      omega

/-! ### The delay behind a healthy bus -/

/-- A recovery is under way, or the schedule has been told of the last one, or it has nothing to
forget. -/
def Notified (samples : List Sample) : Prop :=
  delayAfter samples = 100 ∨ (after samples).backoff.stableSinceValid = true ∨
    ∃ b q mid, samples = b ++ q :: mid ∧ q.state = .busOff ∧
      ∀ x ∈ mid, x.state = .warning ∨ x.state = .passive

theorem Notified.concat (h : Notified samples) (hdirect : DirectRecoveries (samples ++ [s])) :
    Notified (samples ++ [s]) := by
  have hcase := passed_after samples s
  unfold Notified delayAfter at *
  generalize hstate : s.state = state, recovers samples s = calls,
    (after (samples ++ [s])).backoff = b at hcase ⊢
  cases hcase with
  | fell | called | waited => exact .inr (.inr ⟨samples, s, [], rfl, hstate, by simp⟩)
  | recovered => exact .inr (.inl rfl)
  | reset => exact .inl rfl
  | stable hup hwaits =>
    rcases h with h | h | ⟨b, q, mid, rfl, hq, hmid⟩
    · exact .inl h
    · exact .inr (.inl h)
    · obtain rfl := hdirect b q mid s ⟨[], by simp⟩ hq hstate hmid
      exact absurd hq (by simpa using hup)
  | degraded hdegraded =>
    rcases h with h | h | ⟨b, q, mid, rfl, hq, hmid⟩
    · exact .inl h
    · exact .inr (.inl h)
    · refine .inr (.inr ⟨b, q, mid ++ [s], by simp, hq, fun x hx => ?_⟩)
      rcases List.mem_append.mp hx with hx | hx
      · exact hmid x hx
      · rw [List.mem_singleton.mp hx, hstate]
        exact hdegraded

theorem DirectRecoveries.of_prefix {before : List Sample} (h : DirectRecoveries samples)
    (hle : before <+: samples) : DirectRecoveries before :=
  fun b q mid s hmid => h b q mid s (hmid.trans hle)

theorem notified (hdirect : DirectRecoveries samples) : Notified samples := by
  induction samples using List.reverseRecOn with
  | nil => exact .inl rfl
  | append_singleton samples s ih =>
    exact (ih (hdirect.of_prefix (List.prefix_append ..))).concat hdirect

/-- A port has been error-active since `first`: the schedule is back at its start, or it measures
the time. -/
def Measuring (samples : List Sample) (first last : Sample) : Prop :=
  delayAfter samples = 100 ∨ (after samples).backoff.stableSinceValid = true ∧
    ∃ before, (UInt32.ofNat last.timeMs - (after samples).backoff.stableSinceMs).toNat =
      before + (last.timeMs - first.timeMs) ∧ before + (last.timeMs - first.timeMs) < 10000

theorem measuring_first (h : Notified samples) (hdirect : DirectRecoveries (samples ++ [s]))
    (hs : s.state = .active) : Measuring (samples ++ [s]) s s := by
  have hcase := passed_after samples s
  unfold Measuring delayAfter
  rw [hs] at hcase
  generalize recovers samples s = calls, (after (samples ++ [s])).backoff = b at hcase ⊢
  cases hcase with
  | recovered => exact .inr ⟨rfl, 0, by simp [onRecovered], by simp⟩
  | reset => exact .inl rfl
  | stable hup hwaits =>
    rcases h with h | h | ⟨b, q, mid, rfl, hq, hmid⟩
    · exact .inl h
    · exact .inr ⟨h, _, by rw [Nat.sub_self, Nat.add_zero], by simpa using hwaits h⟩
    · obtain rfl := hdirect b q mid s ⟨[], by simp⟩ hq hs hmid
      exact absurd hq (by simpa using hup)
  | degraded hdegraded => simp at hdegraded

theorem Measuring.concat {first last : Sample} (h : Measuring samples first last)
    (hlast : lastState samples = .active) (hs : s.state = .active)
    (hfirst : first.timeMs ≤ last.timeMs) (hle : last.timeMs ≤ s.timeMs)
    (hoften : s.timeMs < last.timeMs + (2 ^ 32 - 10000)) :
    Measuring (samples ++ [s]) first s := by
  have hcase := passed_after samples s
  unfold Measuring delayAfter at *
  rw [hs, hlast] at hcase
  generalize recovers samples s = calls, (after (samples ++ [s])).backoff = b at hcase ⊢
  cases hcase with
  | recovered hbus => cases hbus
  | reset => exact .inl rfl
  | stable hup hwaits =>
    rcases h with h | ⟨hvalid, before, hsince, hlt⟩
    · exact .inl h
    · have hnow := hwaits hvalid
      refine .inr ⟨hvalid, before, ?_⟩
      rw [UInt32.toNat_sub, UInt32.toNat_ofNat'] at hsince hnow ⊢
      omega
  | degraded hdegraded => simp at hdegraded

/-- Error-active samples behind each other. -/
theorem measuring_window {before w : List Sample} {first last : Sample}
    (hordered : Ordered (before ++ first :: w)) (hdirect : DirectRecoveries (before ++ first :: w))
    (hoften : SampledOften (before ++ first :: w)) (hall : ∀ x ∈ first :: w, x.state = .active)
    (hlast : (first :: w).getLast? = some last) :
    Measuring (before ++ first :: w) first last ∧ first.timeMs ≤ last.timeMs := by
  induction w using List.reverseRecOn generalizing last with
  | nil =>
    cases hlast
    have hnotified := notified (hdirect.of_prefix (List.prefix_append ..))
    exact ⟨measuring_first hnotified hdirect (hall _ (by simp)), Nat.le_refl _⟩
  | append_singleton w s ih =>
    have hsplit : before ++ first :: (w ++ [s]) = before ++ first :: w ++ [s] := by simp
    rw [← List.cons_append, List.getLast?_concat] at hlast
    cases hlast
    rw [hsplit] at hordered hdirect hoften ⊢
    obtain ⟨l, hl⟩ : ∃ l, (first :: w).getLast? = some l :=
      ⟨_, List.getLast?_eq_getLast_of_ne_nil (by simp)⟩
    have hinit := (List.isChain_append.mp hoften).1
    have hwall : ∀ x ∈ first :: w, x.state = .active := fun x hx => hall x (by
      rcases List.mem_cons.mp hx with rfl | hx <;> simp [*])
    have hgo := ih (ordered_concat_iff.mp hordered).1 (hdirect.of_prefix (List.prefix_append ..))
      hinit hwall hl
    have hbefore : (before ++ first :: w).getLast? = some l := by
      rw [List.getLast?_append, hl, Option.some_or]
    have hle := (ordered_concat_iff.mp hordered).2 l (List.mem_of_getLast? hbefore)
    have hnear := (List.isChain_append.mp hoften).2.2 l hbefore s rfl
    refine ⟨hgo.1.concat ?_ (hall s (by simp)) hgo.2 hle hnear, hgo.2.trans hle⟩
    rw [lastState, hbefore]
    exact hwall l (List.mem_of_getLast? hl)

theorem delayAfter_concat_of_healthy (hup : lastState samples ≠ .busOff) (hs : s.state ≠ .busOff)
    (h : delayAfter samples = 100) : delayAfter (samples ++ [s]) = 100 := by
  have hcase := passed_after samples s
  unfold delayAfter at *
  generalize hstate : s.state = state, recovers samples s = calls,
    (after (samples ++ [s])).backoff = b at hcase ⊢
  cases hcase with
  | fell | called | waited => exact absurd hstate hs
  | recovered hbus => exact absurd hbus hup
  | reset => rfl
  | stable | degraded => exact h

theorem resetsWhenStable_of_direct (hordered : Ordered samples) (hdirect : DirectRecoveries samples)
    (hoften : SampledOften samples) : ResetsWhenStable samples := by
  intro before first mid last rest hle hall htime hrest
  induction rest using List.reverseRecOn with
  | nil =>
    obtain ⟨tail, rfl⟩ := hle
    have hlast : (first :: (mid ++ [last])).getLast? = some last := by
      rw [← List.cons_append, List.getLast?_concat]
    have hwindow := measuring_window (hordered.sublist (List.prefix_append ..).sublist)
      (hdirect.of_prefix (List.prefix_append ..)) (List.isChain_append.mp hoften).1 hall hlast
    rcases hwindow.1 with h | ⟨-, elapsed, -, hlt⟩
    · exact h
    · omega
  | append_singleton rest s ih =>
    have hsplit : before ++ first :: (mid ++ last :: (rest ++ [s])) =
        before ++ first :: (mid ++ last :: rest) ++ [s] := by simp
    rw [hsplit] at hle ⊢
    have hgo := ih ((List.prefix_append ..).trans hle) fun x hx => hrest x (by simp [hx])
    refine delayAfter_concat_of_healthy ?_ (hrest s (by simp)) hgo
    rcases List.eq_nil_or_concat' rest with rfl | ⟨init, x, rfl⟩
    · rw [← List.cons_append, ← List.append_assoc, lastState_concat, hall last (by simp)]
      nofun
    · rw [← List.cons_append, ← List.cons_append, ← List.append_assoc, ← List.append_assoc,
        lastState_concat]
      exact hrest x (by simp)

/-- The schedule of a port, whatever it samples; it starts anew behind a healthy bus if the recovery
was sampled as one edge. -/
theorem recovery_schedule (hordered : Ordered samples) :
    Paced samples ∧
      (DirectRecoveries samples → SampledOften samples → ResetsWhenStable samples) :=
  ⟨paced_of_ordered hordered, resetsWhenStable_of_direct hordered⟩

end

/-- A second of bus-off and ten of error-active. -/
def oneEdge : List Sample :=
  [⟨.busOff, 0⟩, ⟨.busOff, 100⟩, ⟨.active, 300⟩, ⟨.active, 10300⟩]

theorem recovery_schedule_direct : ResetsWhenStable oneEdge := by
  have hstates : ∀ x ∈ oneEdge, x.state = .busOff ∨ x.state = .active := by decide
  refine (recovery_schedule (by unfold Ordered oneEdge; decide)).2 ?_
    (by unfold SampledOften oneEdge; decide)
  intro before q mid s hle _ _ hmid
  refine List.eq_nil_iff_forall_not_mem.mpr fun x hx => ?_
  have hx' := hle.subset (show x ∈ before ++ q :: (mid ++ [s]) by simp [hx])
  rcases hstates x hx', hmid x hx with ⟨h | h, h' | h'⟩ <;> simp [h] at h'

/-- The same with one sample of error-warning on the way back. -/
def throughWarning : List Sample :=
  [⟨.busOff, 0⟩, ⟨.busOff, 100⟩, ⟨.warning, 200⟩, ⟨.active, 300⟩, ⟨.active, 10300⟩]

theorem throughWarning_escalated :
    Ordered throughWarning ∧ SampledOften throughWarning ∧ ¬ResetsWhenStable throughWarning := by
  refine ⟨by unfold Ordered throughWarning; decide, by unfold SampledOften throughWarning; decide,
    fun h => ?_⟩
  have hreset := h [⟨.busOff, 0⟩, ⟨.busOff, 100⟩, ⟨.warning, 200⟩] ⟨.active, 300⟩ []
    ⟨.active, 10300⟩ [] ⟨[], rfl⟩ (by simp) (by decide) (by simp)
  exact absurd hreset (by decide)

end EspCars.CanGateway
