import EspCars.Lib.Run

/-!
# The retry ladder of the card

`RecoveryPolicy` says when the writer may try to mount a failed card again. Beside it, the run
keeps when the ladder was armed and when each attempt was made, on a clock that does not wrap, and
the busy budget of each attempt.
-/

namespace EspCars.SdLogger

open EspCars.Lib

/-- `RecoveryState` -/
inductive RecoveryState
  | idle | waiting | exhausted
  deriving DecidableEq

/-- `RecoveryPolicy` -/
structure RecoveryPolicy where
  enabled : Bool := false
  state : RecoveryState := .idle
  initialDelayMs : UInt32 := 1000
  maxDelayMs : UInt32 := 30000
  maxAttempts : UInt32 := 0
  attempts : UInt32 := 0
  delayMs : UInt32 := 1000
  deadlineMs : UInt32 := 0
  inBandReset : Bool := false
  initialBusyTimeoutMs : UInt32 := 2000
  maxBusyTimeoutMs : UInt32 := 10000
  busyTimeoutMs : UInt32 := 2000
  deriving DecidableEq

namespace RecoveryPolicy

/-- `reset` -/
def reset (p : RecoveryPolicy) : RecoveryPolicy :=
  { p with
    state := .idle
    attempts := 0
    delayMs := p.initialDelayMs
    deadlineMs := 0
    busyTimeoutMs := p.initialBusyTimeoutMs }

/-- `configure` -/
def configure (p : RecoveryPolicy) (initialDelayMs maxDelayMs maxAttempts : UInt32) :
    RecoveryPolicy :=
  let initial := if initialDelayMs = 0 then 1 else initialDelayMs
  reset { p with
    enabled := true
    initialDelayMs := initial
    maxDelayMs := if maxDelayMs < initial then initial else maxDelayMs
    maxAttempts := maxAttempts }

/-- `configure_reset` -/
def configureReset (p : RecoveryPolicy) (enabled : Bool)
    (busyTimeoutMs maxBusyTimeoutMs : UInt32) : RecoveryPolicy :=
  let initial := if busyTimeoutMs = 0 then 1 else busyTimeoutMs
  { p with
    inBandReset := enabled
    initialBusyTimeoutMs := initial
    maxBusyTimeoutMs := if maxBusyTimeoutMs < initial then initial else maxBusyTimeoutMs
    busyTimeoutMs := initial }

/-- `arm` -/
def arm (p : RecoveryPolicy) (nowMs : UInt32) : RecoveryPolicy :=
  if !p.enabled ∨ p.state ≠ .idle then p
  else
    { p with
      state := .waiting
      delayMs := p.initialDelayMs
      deadlineMs := nowMs + p.initialDelayMs }

/-- The cast to `int32_t` makes the difference negative from `2^31` on. -/
def due (p : RecoveryPolicy) (nowMs : UInt32) : Bool :=
  p.state = .waiting ∧ nowMs - p.deadlineMs < 0x80000000

/-- `delay >= max / 2 ? max : delay * 2`. -/
def doubled (d max : UInt32) : UInt32 := if d ≥ max / 2 then max else d * 2

/-- `note_attempt` -/
def noteAttempt (p : RecoveryPolicy) (nowMs : UInt32) : RecoveryPolicy :=
  if p.state ≠ .waiting then p
  else
    let p := { p with attempts := p.attempts + 1 }
    if p.maxAttempts ≠ 0 ∧ p.attempts ≥ p.maxAttempts then { p with state := .exhausted }
    else
      let delayMs := doubled p.delayMs p.maxDelayMs
      let p := { p with delayMs := delayMs, deadlineMs := nowMs + delayMs }
      if p.attempts > 2 then
        { p with busyTimeoutMs := doubled p.busyTimeoutMs p.maxBusyTimeoutMs }
      else p

end RecoveryPolicy

/-! ## Runs -/

/-- What is asked of the ladder. -/
inductive LadderCall
  | arm (timeMs : Nat)
  | attempt (timeMs : Nat)
  | reset
  deriving DecidableEq

/-- The policy, the time of the last call, and since the last `reset` the time at which it was armed
with those of the attempts, and the busy budgets of the attempts. -/
structure Ladder where
  policy : RecoveryPolicy
  nowMs : Nat := 0
  times : List Nat := []
  budgets : List Nat := []

namespace Ladder

/-- The ladder behind `configure` and `configure_reset`. -/
def configured (initialDelayMs maxDelayMs maxAttempts : UInt32) (inBandReset : Bool)
    (busyTimeoutMs maxBusyTimeoutMs : UInt32) : Ladder where
  policy := (RecoveryPolicy.configure {} initialDelayMs maxDelayMs maxAttempts).configureReset
    inBandReset busyTimeoutMs maxBusyTimeoutMs

/-- The ladder behind a call. -/
def step (r : Ladder) : LadderCall → Ladder
  | .arm t =>
    { r with
      policy := r.policy.arm (UInt32.ofNat t)
      nowMs := t
      times := if r.policy.state = .idle then [t] else r.times }
  | .attempt t =>
    let policy := r.policy.noteAttempt (UInt32.ofNat t)
    { policy := policy
      nowMs := t
      times := r.times ++ [t]
      budgets := r.budgets ++ [policy.busyTimeoutMs.toNat] }
  | .reset => { r with policy := r.policy.reset, times := [], budgets := [] }

end Ladder

/-- The delays, the budget of attempts and the busy budgets that a ladder runs with. -/
structure Settings where
  initial : Nat
  max : Nat
  maxAttempts : Nat
  busy : Nat
  maxBusy : Nat

namespace Settings

/-- What `configure` and `configure_reset` make of what they are given. -/
def clamped (initialDelayMs maxDelayMs maxAttempts busyTimeoutMs maxBusyTimeoutMs : Nat) :
    Settings where
  initial := Nat.max 1 initialDelayMs
  max := Nat.max maxDelayMs (Nat.max 1 initialDelayMs)
  maxAttempts := maxAttempts
  busy := Nat.max 1 busyTimeoutMs
  maxBusy := Nat.max maxBusyTimeoutMs (Nat.max 1 busyTimeoutMs)

/-- The wait before the attempt behind `k` others. -/
def wait (c : Settings) : Nat → Nat
  | 0 => c.initial
  | k + 1 =>
    if c.initial * 2 ^ k ≥ c.max / 2 then c.max else min c.max (c.initial * 2 ^ (k + 1))

variable {c : Settings}

theorem wait_succ (hle : c.initial ≤ c.max) (k : Nat) :
    c.wait (k + 1) = if c.wait k ≥ c.max / 2 then c.max else 2 * c.wait k := by
  cases k with
  | zero =>
    rw [show c.wait 0 = c.initial from rfl]
    simp only [wait, Nat.pow_zero, Nat.mul_one, Nat.zero_add, Nat.pow_one]
    split_ifs
    · rfl
    · omega
  | succ k =>
    simp only [wait, Nat.pow_succ, ← Nat.mul_assoc]
    generalize c.initial * 2 ^ k = d
    split_ifs <;> omega

theorem wait_le_max (hle : c.initial ≤ c.max) (k : Nat) : c.wait k ≤ c.max := by
  cases k with
  | zero => exact hle
  | succ k =>
    simp only [wait]
    split_ifs <;> omega

theorem wait_le_succ (hle : c.initial ≤ c.max) (k : Nat) : c.wait k ≤ c.wait (k + 1) := by
  have := wait_le_max hle k
  rw [wait_succ hle]
  split_ifs <;> omega

end Settings

theorem RecoveryPolicy.toNat_doubled {d cap : UInt32} :
    (doubled d cap).toNat = if d.toNat ≥ cap.toNat / 2 then cap.toNat else 2 * d.toNat := by
  unfold doubled
  have hhalf : (cap / 2).toNat = cap.toNat / 2 := UInt32.toNat_div ..
  have htwo : (2 : UInt32).toNat = 2 := rfl
  have hcap := cap.toNat_lt
  simp only [ge_iff_le, UInt32.le_iff_toNat_le, hhalf]
  split_ifs with h
  · rfl
  · rw [UInt32.toNat_mul, htwo]
    omega

namespace Ladder

/-- The time at which the next attempt is due. -/
def dueAt (c : Settings) (r : Ladder) : Nat := r.times.getLastD 0 + c.wait (r.times.length - 1)

/-- Time goes on, and an attempt is made when it is due, less than `2^31` behind the deadline. -/
def Admits (c : Settings) (r : Ladder) : LadderCall → Prop
  | .arm t => r.nowMs ≤ t
  | .attempt t => r.nowMs ≤ t ∧ t < r.dueAt c + 2 ^ 31 ∧ r.policy.due (UInt32.ofNat t) = true
  | .reset => True

instance (c : Settings) (r : Ladder) : (call : LadderCall) → Decidable (Admits c r call)
  | .arm _ => inferInstanceAs (Decidable (_ ≤ _))
  | .attempt _ => inferInstanceAs (Decidable (_ ∧ _))
  | .reset => inferInstanceAs (Decidable True)

/-- What the ladder keeps to. It waits from the call that arms it until the budget is spent, and
while it waits the next attempt is due from `dueAt` on and not before. -/
structure Schedule (c : Settings) (r : Ladder) : Prop where
  idle : r.policy.state = .idle ↔ r.times = []
  apart : ∀ k t t', r.times[k]? = some t → r.times[k + 1]? = some t' → t + c.wait k ≤ t'
  due : r.policy.state = .waiting → ∀ t, r.nowMs ≤ t → t < r.dueAt c + 2 ^ 31 →
    (r.policy.due (UInt32.ofNat t) = true ↔ r.dueAt c ≤ t)
  limit : c.maxAttempts ≠ 0 → r.times.length ≤ c.maxAttempts + 1
  spent : r.policy.state = .exhausted → c.maxAttempts ≠ 0 ∧ r.times.length = c.maxAttempts + 1 ∧
    ∀ nowMs, r.policy.due nowMs = false
  pending : r.policy.state ≠ .idle → ∀ nowMs, r.policy.arm nowMs = r.policy
  budgets : r.budgets.length = r.times.length - 1
  early : ∀ b ∈ r.budgets.take 2, b = c.busy
  nondecreasing : r.budgets.Pairwise (· ≤ ·)
  capped : ∀ b ∈ r.budgets, b ≤ c.maxBusy

/-- The settings that no call changes, and what a state of the policy says of the run. -/
structure Ok (c : Settings) (r : Ladder) : Prop where
  enabled : r.policy.enabled = true
  initial : r.policy.initialDelayMs.toNat = c.initial
  max : r.policy.maxDelayMs.toNat = c.max
  maxAttempts : r.policy.maxAttempts.toNat = c.maxAttempts
  initialBusy : r.policy.initialBusyTimeoutMs.toNat = c.busy
  maxBusy : r.policy.maxBusyTimeoutMs.toNat = c.maxBusy
  attempts : r.policy.attempts = UInt32.ofNat (r.times.length - 1)
  busyEarly : r.budgets.length < 2 → r.policy.busyTimeoutMs.toNat = c.busy
  busyCapped : r.policy.busyTimeoutMs.toNat ≤ c.maxBusy
  busyLast : ∀ b ∈ r.budgets, b ≤ r.policy.busyTimeoutMs.toNat
  budgets : r.budgets.length = r.times.length - 1
  idle : r.policy.state = .idle ↔ r.times = []
  waiting : r.policy.state = .waiting →
    r.policy.delayMs.toNat = c.wait (r.times.length - 1) ∧
      r.policy.deadlineMs = UInt32.ofNat (r.dueAt c) ∧
      r.times.getLastD 0 ≤ r.nowMs ∧ (c.maxAttempts ≠ 0 → r.times.length ≤ c.maxAttempts)
  exhausted : r.policy.state = .exhausted →
    c.maxAttempts ≠ 0 ∧ r.times.length = c.maxAttempts + 1
  apart : ∀ k t t', r.times[k]? = some t → r.times[k + 1]? = some t' → t + c.wait k ≤ t'
  early : ∀ b ∈ r.budgets.take 2, b = c.busy
  nondecreasing : r.budgets.Pairwise (· ≤ ·)

section

variable {c : Settings} {r : Ladder}

theorem Ok.due_iff (h : Ok c r) (hle : c.initial ≤ c.max) (hmax : c.max < 2 ^ 31)
    (hwaiting : r.policy.state = .waiting) {t : Nat} (ht : r.nowMs ≤ t)
    (hnear : t < r.dueAt c + 2 ^ 31) :
    r.policy.due (UInt32.ofNat t) = true ↔ r.dueAt c ≤ t := by
  obtain ⟨-, hdeadline, hlast, -⟩ := h.waiting hwaiting
  have hwait := c.wait_le_max hle (r.times.length - 1)
  have hdue : r.dueAt c = r.times.getLastD 0 + c.wait (r.times.length - 1) := rfl
  rw [RecoveryPolicy.due, hwaiting, hdeadline, decide_eq_true_iff, UInt32.lt_iff_toNat_lt,
    UInt32.toNat_sub, UInt32.toNat_ofNat', UInt32.toNat_ofNat',
    show (0x80000000 : UInt32).toNat = 2 ^ 31 from rfl]
  simp only [true_and]
  omega

theorem Ok.schedule (h : Ok c r) (hle : c.initial ≤ c.max) (hmax : c.max < 2 ^ 31) :
    Schedule c r where
  idle := h.idle
  apart := h.apart
  due hwaiting _ ht hnear := h.due_iff hle hmax hwaiting ht hnear
  limit hlimited := by
    cases hstate : r.policy.state with
    | idle => simp [h.idle.mp hstate]
    | waiting => exact Nat.le_succ_of_le ((h.waiting hstate).2.2.2 hlimited)
    | exhausted => exact Nat.le_of_eq (h.exhausted hstate).2
  spent hspent := by
    refine ⟨(h.exhausted hspent).1, (h.exhausted hspent).2, fun nowMs => ?_⟩
    simp [RecoveryPolicy.due, hspent]
  pending hstate nowMs := by simp [RecoveryPolicy.arm, hstate]
  budgets := h.budgets
  early := h.early
  nondecreasing := h.nondecreasing
  capped b hb := (h.busyLast b hb).trans h.busyCapped

/-- Behind `reset`. -/
theorem Ok.reset (h : Ok c r) (hbusy : c.busy ≤ c.maxBusy) : Ok c (r.step .reset) where
  enabled := h.enabled
  initial := h.initial
  max := h.max
  maxAttempts := h.maxAttempts
  initialBusy := h.initialBusy
  maxBusy := h.maxBusy
  attempts := rfl
  busyEarly _ := h.initialBusy
  busyCapped := h.initialBusy.symm ▸ hbusy
  busyLast := by simp [step]
  budgets := rfl
  idle := by simp [step, RecoveryPolicy.reset]
  waiting hstate := by cases hstate
  exhausted hstate := by cases hstate
  apart := by simp [step]
  early := by simp [step]
  nondecreasing := .nil

theorem Ok.arm (h : Ok c r) {t : Nat} (ht : r.nowMs ≤ t) : Ok c (r.step (.arm t)) := by
  by_cases hidle : r.policy.state = .idle
  · have hnone := h.idle.mp hidle
    have hattempts := h.attempts
    have hbudgets := h.budgets
    have harm : r.policy.arm (UInt32.ofNat t) = { r.policy with
        state := .waiting
        delayMs := r.policy.initialDelayMs
        deadlineMs := UInt32.ofNat t + r.policy.initialDelayMs } := by
      simp [RecoveryPolicy.arm, hidle, h.enabled]
    have hstep : r.step (.arm t) = { r with
        policy := r.policy.arm (UInt32.ofNat t)
        nowMs := t
        times := [t] } := by simp [step, hidle]
    rw [hnone] at hattempts hbudgets
    rw [hstep, harm]
    refine { h with
      attempts := hattempts
      budgets := hbudgets
      idle := by simp
      waiting := fun _ => ⟨h.initial, ?_, Nat.le_refl t, Nat.one_le_iff_ne_zero.mpr⟩
      exhausted := nofun
      apart := fun k t t' _ hnext => by simp at hnext }
    show UInt32.ofNat t + r.policy.initialDelayMs = UInt32.ofNat (t + c.initial)
    rw [UInt32.ofNat_add, ← h.initial, UInt32.ofNat_toNat]
  · have harm : r.policy.arm (UInt32.ofNat t) = r.policy := by simp [RecoveryPolicy.arm, hidle]
    have hstep : r.step (.arm t) = { r with nowMs := t } := by simp [step, harm, hidle]
    rw [hstep]
    refine { h with waiting := fun hstate => ?_ }
    obtain ⟨hdelay, hdeadline, hlast, hlimit⟩ := h.waiting hstate
    exact ⟨hdelay, hdeadline, hlast.trans ht, hlimit⟩

/-- The attempt that spends the budget, and one that schedules another. -/
theorem noteAttempt_cases {p : RecoveryPolicy} (hwaiting : p.state = .waiting) (nowMs : UInt32) :
    ((p.maxAttempts ≠ 0 ∧ p.attempts + 1 ≥ p.maxAttempts) ∧
      p.noteAttempt nowMs = { p with state := .exhausted, attempts := p.attempts + 1 }) ∨
    (¬(p.maxAttempts ≠ 0 ∧ p.attempts + 1 ≥ p.maxAttempts) ∧
      p.noteAttempt nowMs = { p with
        attempts := p.attempts + 1
        delayMs := RecoveryPolicy.doubled p.delayMs p.maxDelayMs
        deadlineMs := nowMs + RecoveryPolicy.doubled p.delayMs p.maxDelayMs
        busyTimeoutMs := if p.attempts + 1 > 2 then RecoveryPolicy.doubled p.busyTimeoutMs p.maxBusyTimeoutMs
          else p.busyTimeoutMs }) := by
  unfold RecoveryPolicy.noteAttempt
  by_cases hspent : p.maxAttempts ≠ 0 ∧ p.attempts + 1 ≥ p.maxAttempts
  · exact .inl ⟨hspent, by simp [hwaiting, hspent]⟩
  · refine .inr ⟨hspent, ?_⟩
    rw [if_neg (by simp [hwaiting])]
    dsimp only
    rw [if_neg hspent]
    split_ifs <;> rfl

/-- The budget of one more attempt. -/
theorem Ok.budgets_concat (h : Ok c r) {b : Nat} (hle : r.policy.busyTimeoutMs.toNat ≤ b)
    (hearly : r.budgets.length < 2 → b = c.busy) :
    (∀ x ∈ (r.budgets ++ [b]).take 2, x = c.busy) ∧ (r.budgets ++ [b]).Pairwise (· ≤ ·) ∧
      ∀ x ∈ r.budgets ++ [b], x ≤ b := by
  have hlast : ∀ x ∈ r.budgets, x ≤ b := fun x hx => (h.busyLast x hx).trans hle
  refine ⟨fun x hx => ?_, ?_, fun x hx => ?_⟩
  · rw [List.take_append] at hx
    rcases List.mem_append.mp hx with hx | hx
    · exact h.early x hx
    · have hshort : r.budgets.length < 2 := by
        by_contra hlong
        rw [show 2 - r.budgets.length = 0 by omega] at hx
        cases hx
      rw [List.mem_singleton.mp (List.mem_of_mem_take hx)]
      exact hearly hshort
  · rw [List.pairwise_append]
    exact ⟨h.nondecreasing, List.pairwise_singleton .., fun x hx y hy =>
      List.mem_singleton.mp hy ▸ hlast x hx⟩
  · rcases List.mem_append.mp hx with hx | hx
    · exact hlast x hx
    · exact Nat.le_of_eq (List.mem_singleton.mp hx)

theorem Ok.attempt (h : Ok c r) (hle : c.initial ≤ c.max) (hmax : c.max < 2 ^ 31) {t : Nat}
    (ht : Admits c r (.attempt t)) : Ok c (r.step (.attempt t)) := by
  obtain ⟨htime, hnear, hdue⟩ := ht
  have hwaiting : r.policy.state = .waiting := (of_decide_eq_true hdue).1
  obtain ⟨hdelay, hdeadline, hlast, hlimit⟩ := h.waiting hwaiting
  have hreached := (h.due_iff hle hmax hwaiting htime hnear).mp hdue
  obtain ⟨k, hk⟩ : ∃ k, r.times.length = k + 1 := by
    refine Nat.exists_eq_succ_of_ne_zero fun hzero => ?_
    have := h.idle.mpr (List.eq_nil_of_length_eq_zero hzero)
    rw [hwaiting] at this
    cases this
  have hbudgets := h.budgets
  have hattempts : r.policy.attempts + 1 = UInt32.ofNat (k + 1) := by
    rw [h.attempts, hk, Nat.add_sub_cancel, UInt32.ofNat_add]
    rfl
  rw [hk, Nat.add_sub_cancel] at hdelay hbudgets
  have hcount : (r.policy.attempts + 1).toNat = (k + 1) % 2 ^ 32 := by
    rw [hattempts, UInt32.toNat_ofNat']
  have hbound : c.maxAttempts < 2 ^ 32 := h.maxAttempts ▸ r.policy.maxAttempts.toNat_lt
  have hlen : (r.times ++ [t]).length = k + 2 := by simp [hk]
  have hapart : ∀ j u u', (r.times ++ [t])[j]? = some u → (r.times ++ [t])[j + 1]? = some u' →
      u + c.wait j ≤ u' := by
    intro j u u' hu hu'
    have hj : j + 1 < (r.times ++ [t]).length := (List.getElem?_eq_some_iff.mp hu').1
    rw [List.getElem?_append_left (by omega)] at hu
    by_cases hj' : j + 1 < r.times.length
    · rw [List.getElem?_append_left hj'] at hu'
      exact h.apart j u u' hu hu'
    · obtain rfl : j = k := by omega
      rw [← hk, List.getElem?_concat_length, Option.some.injEq] at hu'
      have hu'' : r.times.getLastD 0 = u := by
        rw [List.getLastD_eq_getLast?, List.getLast?_eq_getElem?, hk, Nat.add_sub_cancel, hu]
        rfl
      rw [dueAt, hk, Nat.add_sub_cancel, hu''] at hreached
      omega
  rcases noteAttempt_cases hwaiting (UInt32.ofNat t) with ⟨⟨hlimited, hspent⟩, heq⟩ | ⟨hleft, heq⟩
  · have hnonzero : c.maxAttempts ≠ 0 := by
      rw [← h.maxAttempts]
      exact fun hzero => hlimited (UInt32.toNat_inj.mp hzero)
    have hk' := hlimit hnonzero
    rw [ge_iff_le, UInt32.le_iff_toNat_le, h.maxAttempts, hcount] at hspent
    have hbusy := h.budgets_concat (Nat.le_refl _) h.busyEarly
    simp only [step, heq]
    exact { h with
      attempts := by rw [hlen]; exact hattempts
      idle := by simp
      waiting := nofun
      exhausted := fun _ => ⟨hnonzero, by rw [hlen]; omega⟩
      apart := hapart
      budgets := by simp [hk, hbudgets]
      busyEarly := fun hshort => h.busyEarly (by
        rw [List.length_append] at hshort
        omega)
      busyLast := hbusy.2.2
      early := hbusy.1
      nondecreasing := hbusy.2.1 }
  · have hwait : (RecoveryPolicy.doubled r.policy.delayMs r.policy.maxDelayMs).toNat =
        c.wait (k + 1) := by
      rw [RecoveryPolicy.toNat_doubled, hdelay, h.max, c.wait_succ hle]
    have hleft' : c.maxAttempts ≠ 0 → k + 2 ≤ c.maxAttempts := by
      intro hlimited
      have hk' := hlimit hlimited
      have hnonzero : r.policy.maxAttempts ≠ 0 := fun hzero =>
        hlimited (by rw [← h.maxAttempts, hzero]; rfl)
      have hless := UInt32.not_le.mp fun hge => hleft ⟨hnonzero, hge⟩
      rw [UInt32.lt_iff_toNat_lt, h.maxAttempts, hcount] at hless
      omega
    generalize hbudget : (if r.policy.attempts + 1 > 2 then
      RecoveryPolicy.doubled r.policy.busyTimeoutMs r.policy.maxBusyTimeoutMs
        else r.policy.busyTimeoutMs) = b at heq
    have hb : r.policy.busyTimeoutMs.toNat ≤ b.toNat ∧ b.toNat ≤ c.maxBusy := by
      have hcapped := h.busyCapped
      rw [← hbudget]
      split_ifs
      · rw [RecoveryPolicy.toNat_doubled, h.maxBusy]
        split_ifs <;> omega
      · exact ⟨Nat.le_refl _, hcapped⟩
    have hearly : r.budgets.length < 2 → b.toNat = c.busy := by
      intro hshort
      rw [← h.busyEarly hshort, ← hbudget, if_neg]
      rw [gt_iff_lt, UInt32.lt_iff_toNat_lt, hcount, show (2 : UInt32).toNat = 2 from rfl]
      omega
    have hbusy := h.budgets_concat hb.1 hearly
    simp only [step, heq]
    exact { h with
      attempts := by rw [hlen]; exact hattempts
      idle := by simp [hwaiting]
      waiting := fun _ => ⟨by rw [hlen]; exact hwait, by
        simp only [dueAt, hlen, List.getLastD_concat]
        rw [show k + 2 - 1 = k + 1 from rfl, ← hwait, UInt32.ofNat_add, UInt32.ofNat_toNat],
        by simp, by rw [hlen]; exact hleft'⟩
      exhausted := fun hstate => by rw [hwaiting] at hstate; cases hstate
      apart := hapart
      budgets := by simp [hk, hbudgets]
      busyEarly := fun hshort => hearly (by
        rw [List.length_append] at hshort
        omega)
      busyCapped := hb.2
      busyLast := hbusy.2.2
      early := hbusy.1
      nondecreasing := hbusy.2.1 }

theorem Ok.step (h : Ok c r) (hle : c.initial ≤ c.max) (hmax : c.max < 2 ^ 31)
    (hbusy : c.busy ≤ c.maxBusy) (call : LadderCall) (ht : Admits c r call) :
    Ok c (r.step call) := by
  cases call with
  | arm t => exact h.arm ht
  | attempt t => exact h.attempt hle hmax ht
  | reset => exact h.reset hbusy

/-- A spent ladder stays spent until `reset`. -/
theorem exhausted_later {later : List LadderCall} (hr : Admitted (Admits c) step r later)
    (hreset : .reset ∉ later) (h : r.policy.state = .exhausted) :
    (exec step r later).policy.state = .exhausted := by
  induction later generalizing r with
  | nil => exact h
  | cons call later ih =>
    rw [List.mem_cons, not_or] at hreset
    refine ih hr.2 hreset.2 ?_
    cases call with
    | arm t => simp [step, RecoveryPolicy.arm, h]
    | attempt t =>
      have hdue := hr.1.2.2
      simp [RecoveryPolicy.due, h] at hdue
    | reset => exact absurd rfl hreset.1

end

theorem toNat_clamp (d : UInt32) : (if d = 0 then 1 else d : UInt32).toNat = Nat.max 1 d.toNat := by
  split_ifs with h
  · subst h
    rfl
  · exact (Nat.max_eq_right (Nat.pos_of_ne_zero fun hzero => h (UInt32.toNat_inj.mp hzero))).symm

theorem toNat_clamp_max (d low : UInt32) :
    (if d < low then low else d).toNat = Nat.max d.toNat low.toNat := by
  split_ifs with h
  · exact (Nat.max_eq_right (Nat.le_of_lt (UInt32.lt_iff_toNat_lt.mp h))).symm
  · exact (Nat.max_eq_left (UInt32.le_iff_toNat_le.mp (UInt32.not_lt.mp h))).symm

theorem ok_configured (initialDelayMs maxDelayMs maxAttempts : UInt32) (inBandReset : Bool)
    (busyTimeoutMs maxBusyTimeoutMs : UInt32) :
    Ok (.clamped initialDelayMs.toNat maxDelayMs.toNat maxAttempts.toNat busyTimeoutMs.toNat
        maxBusyTimeoutMs.toNat)
      (configured initialDelayMs maxDelayMs maxAttempts inBandReset busyTimeoutMs
        maxBusyTimeoutMs) where
  enabled := rfl
  initial := toNat_clamp _
  max := (toNat_clamp_max ..).trans (by rw [toNat_clamp]; rfl)
  maxAttempts := rfl
  initialBusy := toNat_clamp _
  maxBusy := (toNat_clamp_max ..).trans (by rw [toNat_clamp]; rfl)
  attempts := rfl
  busyEarly _ := toNat_clamp _
  busyCapped := Nat.le_trans (Nat.le_of_eq (toNat_clamp _)) (Nat.le_max_right ..)
  busyLast := nofun
  budgets := rfl
  idle := iff_of_true rfl rfl
  waiting := nofun
  exhausted := nofun
  apart k t t' h := by cases h
  early := nofun
  nondecreasing := .nil

/-- The ladder keeps its schedule for whatever it is configured with, clamped. -/
theorem ladder_schedule (initialDelayMs maxDelayMs maxAttempts : UInt32) (inBandReset : Bool)
    (busyTimeoutMs maxBusyTimeoutMs : UInt32) (hinitial : initialDelayMs.toNat < 2 ^ 31)
    (hmax : maxDelayMs.toNat < 2 ^ 31) :
    let c := Settings.clamped initialDelayMs.toNat maxDelayMs.toNat maxAttempts.toNat
      busyTimeoutMs.toNat maxBusyTimeoutMs.toNat
    let start := configured initialDelayMs maxDelayMs maxAttempts inBandReset busyTimeoutMs
      maxBusyTimeoutMs
    (∀ k, c.wait k ≤ c.wait (k + 1) ∧ c.wait (k + 1) ≤ c.max) ∧
      ∀ calls, Admitted (Admits c) step start calls →
        Schedule c (exec step start calls) ∧
          ∀ later, Admitted (Admits c) step (exec step start calls) later → .reset ∉ later →
            (exec step start calls).policy.state = .exhausted →
              (exec step start (calls ++ later)).policy.state = .exhausted := by
  intro c start
  have hle : c.initial ≤ c.max := Nat.le_max_right ..
  have hcap : c.max < 2 ^ 31 := Nat.max_lt.mpr ⟨hmax, Nat.max_lt.mpr ⟨by decide, hinitial⟩⟩
  refine ⟨fun k => ⟨c.wait_le_succ hle k, c.wait_le_max hle _⟩, fun calls hr => ⟨?_, ?_⟩⟩
  · have hok : Ok c (exec step start calls) :=
      Admitted.invariant (Ok c)
        (fun r call ht h => h.step hle hcap (Nat.le_max_right ..) call ht) hr (ok_configured ..)
    exact hok.schedule hle hcap
  · intro later hlater hreset hspent
    rw [exec_append]
    exact exhausted_later hlater hreset hspent

theorem ladder_schedule_twice :
    Schedule (.clamped 1000 30000 3 2000 10000)
      (exec step (configured 1000 30000 3 true 2000 10000)
        [.arm 4294967000, .attempt 4294968000, .attempt 4294970500]) :=
  ((ladder_schedule 1000 30000 3 true 2000 10000 (by decide) (by decide)).2
    [.arm 4294967000, .attempt 4294968000, .attempt 4294970500] (by decide)).1

/-- A delay above its maximum raises the maximum: with 2000 ms and a maximum of 1000 ms, the first
wait is 2000 ms. -/
theorem waits_longer :
    let policy := (exec step (configured 2000 1000 0 false 2000 10000) [.arm 0]).policy
    policy.state = .waiting ∧ policy.due 1000 = false ∧ policy.due 1999 = false := by
  decide

end Ladder

end EspCars.SdLogger
