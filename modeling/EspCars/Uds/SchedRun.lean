import EspCars.Lib.Run
import EspCars.Uds.Sched

/-!
# Runs of the poll scheduler

The calls of `GroupScheduler` in any order, on a clock that does not wrap: what the scheduler sees of
it is its last 32 bits. Beside the scheduler a run keeps, for every slot, when it is due on that clock
and how often it has failed since it last succeeded.
-/

namespace EspCars.Uds

open EspCars.Lib

/-- `millis()`: the last 32 bits of the clock. -/
def msOf (now : Nat) : UInt32 := UInt32.ofNat now

/-- A call of the scheduler. -/
inductive SchedOp
  | add (groupIndex : Nat) (intervalMs : UInt32)
  | next (p2Ms : UInt32)
  | armDeadline (ms : UInt32)
  | onSuccess (slot : Nat)
  | onFailure (slot : Nat)
  | cancelInFlight
  | suspend (slot : Nat)
  | poll
  deriving DecidableEq

namespace PollEntry

variable (e : PollEntry)

/-- What a verdict makes of the entry. -/
def judged (failed : Bool) (now : UInt32) (maxFailures : Nat) : PollEntry :=
  if failed then e.failed now maxFailures else e.succeeded now

/-- How long after the verdict the slot is due again. -/
def delay (failed : Bool) : UInt32 := if failed then e.nextBackoff else e.intervalMs

@[simp] theorem judged_intervalMs (failed : Bool) (now : UInt32) (maxFailures : Nat) :
    (e.judged failed now maxFailures).intervalMs = e.intervalMs := by
  cases failed <;> rfl

@[simp] theorem judged_suspended (failed : Bool) (now : UInt32) (maxFailures : Nat) :
    (e.judged failed now maxFailures).suspended = e.suspended := by
  cases failed <;> rfl

@[simp] theorem judged_nextDueMs (failed : Bool) (now : UInt32) (maxFailures : Nat) :
    (e.judged failed now maxFailures).nextDueMs = now + e.delay failed := by
  cases failed <;> rfl

end PollEntry

namespace GroupScheduler

/-- `init` -/
def init (capacity maxFailures : Nat) : GroupScheduler where
  capacity := capacity
  maxFailures := maxFailures

variable (s : GroupScheduler) (now : UInt32)

/-- The scheduler after a call. -/
def call : SchedOp → GroupScheduler
  | .add groupIndex intervalMs => (s.add groupIndex intervalMs now).2
  | .next p2Ms => (s.next now p2Ms).2
  | .armDeadline ms => s.armDeadline now ms
  | .onSuccess slot => (s.onSuccess slot now).2
  | .onFailure slot => (s.onFailure slot now).2
  | .cancelInFlight => s.cancelInFlight
  | .suspend slot => s.suspend slot
  | .poll => (s.poll now).2

/-- The slot that a call passes a verdict on, and whether it failed: one that is reported, or the one
in flight once its deadline has passed. -/
def verdict : SchedOp → Option (Nat × Bool)
  | .onSuccess slot => if slot < s.entries.length then some (slot, false) else none
  | .onFailure slot => if slot < s.entries.length then some (slot, true) else none
  | .poll =>
    match s.inFlight with
    | some slot =>
      if timeReached now s.deadlineMs ∧ slot < s.entries.length then some (slot, true) else none
    | none => none
  | _ => none

/-- The entry that a call adds. -/
def added : SchedOp → Option PollEntry
  | .add groupIndex intervalMs =>
    if s.capacity ≤ s.entries.length ∨ wrapHorizon ≤ intervalMs then none
    else some { intervalMs := intervalMs, nextDueMs := now, groupIndex := groupIndex }
  | _ => none

/-- The slot that a call hands out. -/
def handedOut : SchedOp → Option Nat
  | .next p2Ms => (s.next now p2Ms).1
  | _ => none

/-- What a call tells its caller of a slot: that it became unavailable, or (`false`) that it
recovered. -/
def signal : SchedOp → Option (Nat × Bool)
  | .onSuccess slot => if (s.onSuccess slot now).1 then some (slot, false) else none
  | .onFailure slot => if (s.onFailure slot now).1 then some (slot, true) else none
  | .poll => (s.poll now).1.filter Prod.snd
  | _ => none

variable {s now}

theorem inFlight_release (slot : Nat) :
    (s.release slot).inFlight = if s.inFlight = some slot then none else s.inFlight := by
  unfold release
  split <;> rfl

/-! ## What a call does -/

/-- A call that passes no verdict, adds nothing and hands nothing out. -/
structure Silent (s : GroupScheduler) (now : UInt32) (op : SchedOp) : Prop where
  verdict : s.verdict now op = none
  added : s.added now op = none
  handedOut : s.handedOut now op = none
  signal : s.signal now op = none

/-- Everything that a call can do. -/
inductive Moves (s : GroupScheduler) (now : UInt32) (op : SchedOp) : GroupScheduler → Prop
  | quiet (deadlineMs : UInt32) (hop : op ≠ .cancelInFlight) (hsilent : s.Silent now op) :
      Moves s now op { s with deadlineMs := deadlineMs }
  | cancelled (hop : op = .cancelInFlight) (hsilent : s.Silent now op) :
      Moves s now op s.cancelInFlight
  | handedOut (slot : Nat) (deadlineMs : UInt32) (hflight : s.inFlight = none)
      (hbest : s.best now = some slot) (hout : s.handedOut now op = some slot)
      (hverdict : s.verdict now op = none) (hadded : s.added now op = none)
      (hsignal : s.signal now op = none) :
      Moves s now op { s with inFlight := some slot, deadlineMs := deadlineMs }
  | added (groupIndex : Nat) (intervalMs : UInt32) (hinterval : intervalMs < wrapHorizon)
      (hadded : s.added now op =
        some { intervalMs := intervalMs, nextDueMs := now, groupIndex := groupIndex })
      (hverdict : s.verdict now op = none) (hout : s.handedOut now op = none)
      (hsignal : s.signal now op = none) :
      Moves s now op { s with entries := s.entries ++
        [{ intervalMs := intervalMs, nextDueMs := now, groupIndex := groupIndex }] }
  | judged (slot : Nat) (e : PollEntry) (failed : Bool) (hentry : s.entries[slot]? = some e)
      (hverdict : s.verdict now op = some (slot, failed)) (hadded : s.added now op = none)
      (hout : s.handedOut now op = none)
      (hsignal : s.signal now op =
        if (if failed then e.crosses s.maxFailures else e.unavailable) then some (slot, failed)
        else none) :
      Moves s now op { s.release slot with
        entries := s.entries.set slot (e.judged failed now s.maxFailures) }
  | suspended (slot : Nat) (e : PollEntry) (hentry : s.entries[slot]? = some e)
      (hsilent : s.Silent now op) :
      Moves s now op { s.release slot with
        entries := s.entries.set slot { e with suspended := true } }

theorem moves_onSuccess (slot : Nat) :
    Moves s now (.onSuccess slot) (s.onSuccess slot now).2 := by
  cases hentry : s.entries[slot]? with
  | none =>
    have hlen : ¬slot < s.entries.length := Nat.not_lt.mpr (List.getElem?_eq_none_iff.mp hentry)
    have hquiet : Silent s now (.onSuccess slot) := by
      refine ⟨if_neg hlen, rfl, rfl, ?_⟩
      rw [signal, onSuccess, hentry]
      rfl
    rw [onSuccess, hentry]
    exact .quiet s.deadlineMs nofun hquiet
  | some e =>
    have hlen : slot < s.entries.length := (List.getElem?_eq_some_iff.mp hentry).1
    have hsignal : s.signal now (.onSuccess slot) = if e.unavailable then some (slot, false)
        else none := by
      rw [signal, onSuccess, hentry]
    have hverdict : s.verdict now (.onSuccess slot) = some (slot, false) := if_pos hlen
    have hmoves := Moves.judged slot e false hentry hverdict rfl rfl hsignal
    rw [onSuccess, hentry]
    exact hmoves

theorem moves_onFailure (slot : Nat) :
    Moves s now (.onFailure slot) (s.onFailure slot now).2 := by
  cases hentry : s.entries[slot]? with
  | none =>
    have hlen : ¬slot < s.entries.length := Nat.not_lt.mpr (List.getElem?_eq_none_iff.mp hentry)
    have hquiet : Silent s now (.onFailure slot) := by
      refine ⟨if_neg hlen, rfl, rfl, ?_⟩
      rw [signal, onFailure, hentry]
      rfl
    rw [onFailure, hentry]
    exact .quiet s.deadlineMs (by simp) hquiet
  | some e =>
    have hlen : slot < s.entries.length := (List.getElem?_eq_some_iff.mp hentry).1
    have hsignal : s.signal now (.onFailure slot) = if e.crosses s.maxFailures then some (slot, true)
        else none := by
      rw [signal, onFailure, hentry]
    have hverdict : s.verdict now (.onFailure slot) = some (slot, true) := if_pos hlen
    have hmoves := Moves.judged slot e true hentry hverdict rfl rfl hsignal
    rw [onFailure, hentry]
    exact hmoves

theorem moves_poll : Moves s now .poll (s.poll now).2 := by
  unfold poll
  cases hflight : s.inFlight with
  | none =>
    have hquiet : Silent s now .poll := by
      refine ⟨?_, rfl, rfl, ?_⟩
      · rw [verdict, hflight]
      · rw [signal, poll, hflight]
        rfl
    exact .quiet s.deadlineMs nofun hquiet
  | some slot =>
    dsimp only
    by_cases hreached : timeReached now s.deadlineMs = true
    · rw [if_pos hreached]
      cases hentry : s.entries[slot]? with
      | none =>
        have hlen : ¬slot < s.entries.length :=
          Nat.not_lt.mpr (List.getElem?_eq_none_iff.mp hentry)
        have hquiet : Silent s now .poll := by
          refine ⟨?_, rfl, rfl, ?_⟩
          · rw [verdict, hflight]
            exact if_neg fun h => hlen h.2
          · rw [signal, poll, hflight]
            simp only [hreached, if_true, onFailure, hentry]
            rfl
        rw [onFailure, hentry]
        exact .quiet s.deadlineMs nofun hquiet
      | some e =>
        have hlen : slot < s.entries.length := (List.getElem?_eq_some_iff.mp hentry).1
        have hverdict : s.verdict now .poll = some (slot, true) := by
          rw [verdict, hflight]
          exact if_pos ⟨hreached, hlen⟩
        have hsignal : s.signal now .poll =
            if e.crosses s.maxFailures then some (slot, true) else none := by
          rw [signal, poll, hflight]
          simp only [hreached, if_true, onFailure, hentry]
          cases e.crosses s.maxFailures <;> rfl
        have hmoves := Moves.judged slot e true hentry hverdict rfl rfl hsignal
        rw [onFailure, hentry]
        exact hmoves
    · rw [if_neg hreached]
      have hquiet : Silent s now .poll := by
        refine ⟨?_, rfl, rfl, ?_⟩
        · rw [verdict, hflight]
          exact if_neg fun h => hreached h.1
        · rw [signal, poll, hflight]
          simp [hreached]
      exact .quiet s.deadlineMs nofun hquiet

theorem moves_next (p2Ms : UInt32) : Moves s now (.next p2Ms) (s.next now p2Ms).2 := by
  cases hflight : s.inFlight with
  | some slot =>
    have hnext : s.next now p2Ms = (none, s) := by
      rw [next, hflight]
      rfl
    have hquiet : Silent s now (.next p2Ms) := ⟨rfl, rfl, congrArg Prod.fst hnext, rfl⟩
    rw [hnext]
    exact .quiet s.deadlineMs nofun hquiet
  | none =>
    cases hbest : s.best now with
    | none =>
      have hnext : s.next now p2Ms = (none, s) := by
        rw [next, hflight, hbest]
        rfl
      have hquiet : Silent s now (.next p2Ms) := ⟨rfl, rfl, congrArg Prod.fst hnext, rfl⟩
      rw [hnext]
      exact .quiet s.deadlineMs nofun hquiet
    | some slot =>
      have hnext : s.next now p2Ms =
          (some slot, { s with inFlight := some slot, deadlineMs := now + p2Ms }) := by
        rw [next, hflight, hbest]
        rfl
      rw [hnext]
      exact .handedOut slot (now + p2Ms) hflight hbest (congrArg Prod.fst hnext) rfl rfl rfl

theorem moves_add (groupIndex : Nat) (intervalMs : UInt32) :
    Moves s now (.add groupIndex intervalMs) (s.add groupIndex intervalMs now).2 := by
  by_cases hfull : s.capacity ≤ s.entries.length ∨ wrapHorizon ≤ intervalMs
  · have hquiet : Silent s now (.add groupIndex intervalMs) := ⟨rfl, if_pos hfull, rfl, rfl⟩
    rw [add, if_pos hfull]
    exact .quiet s.deadlineMs nofun hquiet
  · have hinterval : intervalMs < wrapHorizon := UInt32.not_le.mp fun h => hfull (.inr h)
    rw [add, if_neg hfull]
    exact .added groupIndex intervalMs hinterval (if_neg hfull) rfl rfl rfl

theorem moves_suspend (slot : Nat) : Moves s now (.suspend slot) (s.suspend slot) := by
  cases hentry : s.entries[slot]? with
  | none =>
    rw [suspend, hentry]
    exact .quiet s.deadlineMs (by simp) ⟨rfl, rfl, rfl, rfl⟩
  | some e =>
    have hmoves := Moves.suspended slot e hentry (⟨rfl, rfl, rfl, rfl⟩ : Silent s now (.suspend slot))
    rw [suspend, hentry]
    exact hmoves

theorem moves_call (s : GroupScheduler) (now : UInt32) (op : SchedOp) :
    Moves s now op (s.call now op) := by
  cases op with
  | add groupIndex intervalMs => exact moves_add groupIndex intervalMs
  | next p2Ms => exact moves_next p2Ms
  | armDeadline ms =>
    have hquiet : Silent s now (.armDeadline ms) := ⟨rfl, rfl, rfl, rfl⟩
    rw [call, armDeadline]
    split
    · exact .quiet _ nofun hquiet
    · exact .quiet s.deadlineMs nofun hquiet
  | onSuccess slot => exact moves_onSuccess slot
  | onFailure slot => exact moves_onFailure slot
  | cancelInFlight => exact .cancelled rfl ⟨rfl, rfl, rfl, rfl⟩
  | suspend slot => exact moves_suspend slot
  | poll => exact moves_poll

end GroupScheduler

/-! ## The run -/

/-- The scheduler on a clock that does not wrap, with what it was told. -/
structure SchedRun where
  sched : GroupScheduler
  now : Nat := 0
  due : Nat → Nat := fun _ => 0
  streak : Nat → Nat := fun _ => 0

namespace SchedRun

/-- The milliseconds since the call before, and the call. -/
abbrev Call := Nat × SchedOp

/-- A scheduler behind `init`. -/
def start (capacity maxFailures : Nat) : SchedRun where
  sched := GroupScheduler.init capacity maxFailures

variable (r : SchedRun) (c : Call)

/-- The time of a call. -/
def timeOf : Nat := r.now + c.1

def verdict : Option (Nat × Bool) := r.sched.verdict (msOf (r.timeOf c)) c.2

def added : Option PollEntry := r.sched.added (msOf (r.timeOf c)) c.2

def handedOut : Option Nat := r.sched.handedOut (msOf (r.timeOf c)) c.2

def signal : Option (Nat × Bool) := r.sched.signal (msOf (r.timeOf c)) c.2

/-- The slot whose request in flight the call settles. -/
def settled : Option Nat :=
  ((r.verdict c).map Prod.fst).filter fun slot => r.sched.inFlight = some slot

/-- The entry of a slot that is not suspended. -/
def Polled (slot : Nat) (e : PollEntry) : Prop :=
  r.sched.entries[slot]? = some e ∧ e.suspended = false

def dueAfter : Nat → Nat :=
  match r.verdict c, r.added c with
  | some (slot, failed), _ =>
    let delay := (r.sched.entries[slot]?).elim 0 fun e => (e.delay failed).toNat
    Function.update r.due slot (r.timeOf c + delay)
  | none, some _ => Function.update r.due r.sched.entries.length (r.timeOf c)
  | none, none => r.due

def streakAfter : Nat → Nat :=
  match r.verdict c, r.added c with
  | some (slot, failed), _ =>
    Function.update r.streak slot (if failed then r.streak slot + 1 else 0)
  | none, some _ => Function.update r.streak r.sched.entries.length 0
  | none, none => r.streak

/-- The run behind a call. -/
def step : SchedRun where
  sched := r.sched.call (msOf (r.timeOf c)) c.2
  now := r.timeOf c
  due := r.dueAfter c
  streak := r.streakAfter c

variable {r c}

theorem now_le_step : r.now ≤ (r.step c).now := Nat.le_add_right _ _

variable {slot : Nat} {e : PollEntry}

theorem dueAfter_judged {failed : Bool}
    (hverdict : r.verdict c = some (slot, failed)) (hentry : r.sched.entries[slot]? = some e) :
    r.dueAfter c = Function.update r.due slot (r.timeOf c + (e.delay failed).toNat) := by
  simp only [dueAfter, hverdict, hentry, Option.elim]

theorem streakAfter_judged {failed : Bool} (hverdict : r.verdict c = some (slot, failed)) :
    r.streakAfter c =
      Function.update r.streak slot (if failed then r.streak slot + 1 else 0) := by
  simp only [streakAfter, hverdict]

theorem dueAfter_added (hverdict : r.verdict c = none) (hadded : r.added c = some e) :
    r.dueAfter c = Function.update r.due r.sched.entries.length (r.timeOf c) := by
  simp only [dueAfter, hverdict, hadded]

theorem streakAfter_added (hverdict : r.verdict c = none) (hadded : r.added c = some e) :
    r.streakAfter c = Function.update r.streak r.sched.entries.length 0 := by
  simp only [streakAfter, hverdict, hadded]

theorem dueAfter_kept (hverdict : r.verdict c = none) (hadded : r.added c = none) :
    r.dueAfter c = r.due := by
  simp only [dueAfter, hverdict, hadded]

theorem streakAfter_kept (hverdict : r.verdict c = none) (hadded : r.added c = none) :
    r.streakAfter c = r.streak := by
  simp only [streakAfter, hverdict, hadded]

/-! ## What a call does to one slot -/

/-- What becomes of the entry of a slot: it is judged, or it is kept up to its suspension. -/
theorem entry_step (hentry : r.sched.entries[slot]? = some e) :
    ∃ e', (r.step c).sched.entries[slot]? = some e' ∧
      ((∃ failed, r.verdict c = some (slot, failed) ∧
          e' = e.judged failed (msOf (r.timeOf c)) r.sched.maxFailures ∧
          (r.step c).due slot = r.timeOf c + (e.delay failed).toNat ∧
          (r.step c).streak slot = if failed then r.streak slot + 1 else 0) ∨
        ((∀ failed, r.verdict c ≠ some (slot, failed)) ∧
          (e' = e ∨ e' = { e with suspended := true }) ∧
          (r.step c).due slot = r.due slot ∧ (r.step c).streak slot = r.streak slot)) := by
  have hlt : slot < r.sched.entries.length := (List.getElem?_eq_some_iff.mp hentry).1
  have hmoves := GroupScheduler.moves_call r.sched (msOf (r.timeOf c)) c.2
  simp only [step]
  generalize r.sched.call (msOf (r.timeOf c)) c.2 = s' at hmoves
  cases hmoves with
  | quiet deadlineMs hop hsilent =>
    have hverdict : r.verdict c = none := hsilent.verdict
    have hadded : r.added c = none := hsilent.added
    refine ⟨e, hentry, .inr ⟨?_, .inl rfl, ?_, ?_⟩⟩
    · simp [hverdict]
    · rw [dueAfter_kept hverdict hadded]
    · rw [streakAfter_kept hverdict hadded]
  | cancelled hop hsilent =>
    have hverdict : r.verdict c = none := hsilent.verdict
    have hadded : r.added c = none := hsilent.added
    refine ⟨e, hentry, .inr ⟨?_, .inl rfl, ?_, ?_⟩⟩
    · simp [hverdict]
    · rw [dueAfter_kept hverdict hadded]
    · rw [streakAfter_kept hverdict hadded]
  | handedOut slot' deadlineMs hflight hbest hout hverdict hadded hsignal =>
    replace hverdict : r.verdict c = none := hverdict
    refine ⟨e, hentry, .inr ⟨?_, .inl rfl, ?_, ?_⟩⟩
    · simp [hverdict]
    · rw [dueAfter_kept hverdict hadded]
    · rw [streakAfter_kept hverdict hadded]
  | added groupIndex intervalMs hinterval hadded hverdict hout hsignal =>
    replace hverdict : r.verdict c = none := hverdict
    refine ⟨e, ?_, .inr ⟨?_, .inl rfl, ?_, ?_⟩⟩
    · rw [List.getElem?_append_left hlt, hentry]
    · simp [hverdict]
    · rw [dueAfter_added hverdict hadded, Function.update_of_ne (Nat.ne_of_lt hlt)]
    · rw [streakAfter_added hverdict hadded, Function.update_of_ne (Nat.ne_of_lt hlt)]
  | judged slot' e₁ failed hentry' hverdict hadded hout hsignal =>
    replace hverdict : r.verdict c = some (slot', failed) := hverdict
    by_cases heq : slot' = slot
    · subst heq
      obtain rfl : e₁ = e := Option.some.inj (hentry'.symm.trans hentry)
      refine ⟨_, List.getElem?_set_self hlt, .inl ⟨failed, hverdict, rfl, ?_, ?_⟩⟩
      · rw [dueAfter_judged hverdict hentry', Function.update_self]
      · rw [streakAfter_judged hverdict, Function.update_self]
    · refine ⟨e, ?_, .inr ⟨?_, .inl rfl, ?_, ?_⟩⟩
      · rw [List.getElem?_set_ne heq, hentry]
      · simp [hverdict, heq]
      · rw [dueAfter_judged hverdict hentry', Function.update_of_ne (Ne.symm heq)]
      · rw [streakAfter_judged hverdict, Function.update_of_ne (Ne.symm heq)]
  | suspended slot' e₁ hentry' hsilent =>
    have hverdict : r.verdict c = none := hsilent.verdict
    have hadded : r.added c = none := hsilent.added
    have hkept : r.dueAfter c slot = r.due slot ∧ r.streakAfter c slot = r.streak slot := by
      rw [dueAfter_kept hverdict hadded, streakAfter_kept hverdict hadded]
      exact ⟨rfl, rfl⟩
    by_cases heq : slot' = slot
    · subst heq
      obtain rfl : e₁ = e := Option.some.inj (hentry'.symm.trans hentry)
      exact ⟨_, List.getElem?_set_self hlt, .inr ⟨by simp [hverdict], .inr rfl, hkept⟩⟩
    · refine ⟨e, ?_, .inr ⟨by simp [hverdict], .inl rfl, hkept⟩⟩
      rw [List.getElem?_set_ne heq, hentry]

theorem intervalMs_step {e' : PollEntry} (hentry : r.sched.entries[slot]? = some e)
    (hentry' : (r.step c).sched.entries[slot]? = some e') : e'.intervalMs = e.intervalMs := by
  obtain ⟨e₁, hentry₁, hcase⟩ := entry_step (c := c) hentry
  obtain rfl : e₁ = e' := Option.some.inj (hentry₁.symm.trans hentry')
  rcases hcase with ⟨failed, -, rfl, -⟩ | ⟨-, rfl | rfl, -⟩
  · exact PollEntry.judged_intervalMs ..
  · rfl
  · rfl

theorem intervalMs_exec (hentry : r.sched.entries[slot]? = some e) (calls : List Call) :
    ∃ e', (exec step r calls).sched.entries[slot]? = some e' ∧ e'.intervalMs = e.intervalMs := by
  induction calls generalizing r e with
  | nil => exact ⟨e, hentry, rfl⟩
  | cons c calls ih =>
    obtain ⟨e₁, hentry₁, -⟩ := entry_step (c := c) hentry
    obtain ⟨e', hentry', hinterval⟩ := ih hentry₁
    exact ⟨e', hentry', hinterval.trans (intervalMs_step hentry hentry₁)⟩

/-- A slot that was not there is the one that is added. -/
theorem new_entry {e' : PollEntry} (hentry : r.sched.entries[slot]? = none)
    (hentry' : (r.step c).sched.entries[slot]? = some e') :
    e'.intervalMs < wrapHorizon ∧ e'.nextDueMs = msOf (r.timeOf c) ∧ e'.backoffMs = 0 ∧
      e'.consecutiveFailures = 0 ∧ e'.unavailable = false ∧ e'.suspended = false ∧
      r.verdict c = none ∧ r.signal c = none ∧
      (r.step c).due slot = r.timeOf c ∧ (r.step c).streak slot = 0 := by
  have hmoves := GroupScheduler.moves_call r.sched (msOf (r.timeOf c)) c.2
  simp only [step] at hentry' ⊢
  generalize r.sched.call (msOf (r.timeOf c)) c.2 = s' at hmoves hentry'
  have hset (slot' : Nat) (e₁ : PollEntry) : (r.sched.entries.set slot' e₁)[slot]? = none := by
    rw [List.getElem?_eq_none_iff, List.length_set]
    exact List.getElem?_eq_none_iff.mp hentry
  cases hmoves with
  | quiet deadlineMs hop hsilent => cases hentry.symm.trans hentry'
  | cancelled hop hsilent => cases hentry.symm.trans hentry'
  | handedOut slot' deadlineMs hflight hbest hout hverdict hadded hsignal =>
    cases hentry.symm.trans hentry'
  | judged slot' e₁ failed hentry₁ hverdict hadded hout hsignal =>
    cases (hset _ _).symm.trans hentry'
  | suspended slot' e₁ hentry₁ hsilent => cases (hset _ _).symm.trans hentry'
  | added groupIndex intervalMs hinterval hadded hverdict hout hsignal =>
    have hle : r.sched.entries.length ≤ slot := List.getElem?_eq_none_iff.mp hentry
    dsimp only at hentry'
    rw [List.getElem?_append_right hle, List.getElem?_singleton] at hentry'
    split_ifs at hentry' with hzero
    · obtain rfl : slot = r.sched.entries.length := by omega
      obtain rfl := Option.some.inj hentry'
      refine ⟨hinterval, rfl, rfl, rfl, rfl, rfl, hverdict, hsignal, ?_, ?_⟩
      · rw [dueAfter_added hverdict hadded, Function.update_self]
      · rw [streakAfter_added hverdict hadded, Function.update_self]

/-! ## Delays -/

/-- The backed-off delay after `k` failures in a row. -/
def backoffAfter (interval k : Nat) : Nat := if k = 0 then 0 else min 60000 (max interval 1 * 2 ^ k)

theorem backoffAfter_succ (interval k : Nat) :
    backoffAfter interval (k + 1) = min 60000 (max interval 1 * 2 ^ (k + 1)) := by
  simp [backoffAfter]

theorem toNat_nextBackoff {k : Nat} (h : e.backoffMs.toNat = backoffAfter e.intervalMs.toNat k) :
    e.nextBackoff.toNat = min 60000 (max e.intervalMs.toNat 1 * 2 ^ (k + 1)) := by
  have hne (n : UInt32) : n ≠ 0 ↔ n.toNat ≠ 0 := not_congr UInt32.toNat_inj.symm
  unfold PollEntry.nextBackoff
  generalize hseed : (if e.backoffMs ≠ 0 then e.backoffMs
    else if e.intervalMs ≠ 0 then e.intervalMs else 1) = seed
  -- the delay doubles what it was, or the interval behind a success
  have hseed' : min 60000 (max e.intervalMs.toNat 1 * 2 ^ (k + 1)) = min 60000 (seed.toNat * 2) := by
    cases k with
    | zero =>
      have hzero : e.backoffMs = 0 := UInt32.toNat_inj.mp h
      rw [hzero] at hseed
      subst hseed
      by_cases hinterval : e.intervalMs = 0
      · simp [hinterval]
      · have hpos : e.intervalMs.toNat ≠ 0 := (hne _).mp hinterval
        simp [hinterval, Nat.max_eq_left (Nat.one_le_iff_ne_zero.mpr hpos)]
    | succ k =>
      rw [backoffAfter_succ] at h
      have hpow : 0 < max e.intervalMs.toNat 1 * 2 ^ (k + 1) :=
        Nat.mul_pos (by omega) (Nat.two_pow_pos _)
      have hbackoff : e.backoffMs ≠ 0 := (hne _).mpr (by omega)
      rw [if_pos hbackoff] at hseed
      subst hseed
      rw [h, Nat.pow_succ, ← Nat.mul_assoc]
      omega
  rw [hseed']
  have hcap : backoffCapMs.toNat = 60000 := rfl
  have hhalf : (backoffCapMs / 2).toNat = 30000 := rfl
  dsimp only
  split_ifs with hlt
  · rw [UInt32.lt_iff_toNat_lt, hhalf] at hlt
    omega
  · rw [UInt32.lt_iff_toNat_lt, hhalf] at hlt
    rw [UInt32.toNat_mul, show UInt32.toNat 2 = 2 from rfl]
    omega

/-! ## What holds in every state -/

/-- What the table says of a slot agrees with the clock that does not wrap. -/
structure Clocked (r : SchedRun) (slot : Nat) (e : PollEntry) : Prop where
  due : e.nextDueMs = msOf (r.due slot)
  near : r.due slot < r.now + 2 ^ 31
  interval : e.intervalMs.toNat < 2 ^ 31
  backoff : e.backoffMs.toNat = backoffAfter e.intervalMs.toNat (r.streak slot)

/-- A state that a run reaches. -/
def Ok (r : SchedRun) : Prop :=
  ∀ (slot : Nat) (e : PollEntry), r.sched.entries[slot]? = some e → r.Clocked slot e

theorem ok_start (capacity maxFailures : Nat) : (start capacity maxFailures).Ok := by
  intro slot e h
  cases h

theorem toNat_wrapHorizon : wrapHorizon.toNat = 2 ^ 31 := rfl

/-- How long after a verdict the slot is due again. -/
theorem Clocked.toNat_delay (h : r.Clocked slot e) (failed : Bool) : (e.delay failed).toNat =
      if failed then min 60000 (max e.intervalMs.toNat 1 * 2 ^ (r.streak slot + 1))
      else e.intervalMs.toNat := by
  cases failed with
  | false => rfl
  | true => exact toNat_nextBackoff h.backoff

theorem Clocked.delay_lt (h : r.Clocked slot e) (failed : Bool) :
    (e.delay failed).toNat < 2 ^ 31 := by
  rw [h.toNat_delay]
  have := h.interval
  split <;> omega

theorem msOf_add (now : Nat) (ms : UInt32) : msOf now + ms = msOf (now + ms.toNat) := by
  rw [msOf, msOf, UInt32.ofNat_add, UInt32.ofNat_toNat]

theorem Ok.step (h : r.Ok) (c : Call) : (r.step c).Ok := by
  intro slot e' hentry'
  have hnow : (r.step c).now = r.timeOf c := rfl
  have hle : r.now ≤ r.timeOf c := now_le_step (c := c)
  cases hentry : r.sched.entries[slot]? with
  | none =>
    obtain ⟨hinterval, hdue, hbackoff, -, -, -, -, -, hdue', hstreak⟩ := new_entry hentry hentry'
    refine ⟨by rw [hdue, hdue'], by rw [hdue', hnow]; omega, UInt32.lt_iff_toNat_lt.mp hinterval, ?_⟩
    rw [hbackoff, hstreak]
    rfl
  | some e =>
    have hclocked := h slot e hentry
    obtain ⟨e₁, hentry₁, hcase⟩ := entry_step (c := c) hentry
    obtain rfl : e₁ = e' := Option.some.inj (hentry₁.symm.trans hentry')
    rcases hcase with ⟨failed, -, rfl, hdue', hstreak⟩ | ⟨-, hkept, hdue', hstreak⟩
    · refine ⟨?_, ?_, by simpa using hclocked.interval, ?_⟩
      · rw [hdue', PollEntry.judged_nextDueMs, msOf_add]
      · rw [hdue', hnow]
        have := hclocked.delay_lt failed
        omega
      · rw [hstreak, PollEntry.judged_intervalMs]
        cases failed with
        | false => rfl
        | true =>
          rw [if_pos rfl, backoffAfter_succ]
          exact toNat_nextBackoff hclocked.backoff
    · have hfields : e₁.nextDueMs = e.nextDueMs ∧ e₁.intervalMs = e.intervalMs ∧
          e₁.backoffMs = e.backoffMs := by
        rcases hkept with rfl | rfl <;> exact ⟨rfl, rfl, rfl⟩
      refine ⟨?_, ?_, ?_, ?_⟩
      · rw [hfields.1, hdue', hclocked.due]
      · rw [hdue', hnow]
        exact Nat.lt_of_lt_of_le hclocked.near (by omega)
      · rw [hfields.2.1]
        exact hclocked.interval
      · rw [hfields.2.2, hfields.2.1, hstreak, hclocked.backoff]

theorem ok_exec (h : r.Ok) (calls : List Call) : (exec SchedRun.step r calls).Ok := by
  induction calls generalizing r with
  | nil => exact h
  | cons c calls ih => exact ih (h.step c)

/-! ## The selection on a clock that does not wrap -/

/-- A time that has come, and is not half of the counter ago. -/
theorem toNat_overdue {now due : Nat} (hle : due ≤ now) (hlt : now < due + 2 ^ 31) :
    (msOf now - msOf due).toNat = now - due := by
  rw [msOf, msOf, UInt32.toNat_sub, UInt32.toNat_ofNat', UInt32.toNat_ofNat']
  omega

/-- A time that is not half of the counter ahead counts as reached only if it has come. -/
theorem due_le_of_reached {now due : Nat} (hnear : due < now + 2 ^ 31)
    (h : msOf now - msOf due < wrapHorizon) : due ≤ now := by
  rw [msOf, msOf, UInt32.lt_iff_toNat_lt, UInt32.toNat_sub, UInt32.toNat_ofNat',
    UInt32.toNat_ofNat', toNat_wrapHorizon] at h
  omega

theorem Clocked.due_le (h : r.Clocked slot e)
    (hdue : e.Due (msOf (r.timeOf c))) : r.due slot ≤ r.timeOf c := by
  refine due_le_of_reached ?_ (h.due ▸ hdue.2)
  exact Nat.lt_of_lt_of_le h.near (Nat.add_le_add_right (Nat.le_add_right _ _) _)

/-- What is known of a slot that is handed out. -/
theorem handedOut_spec (h : r.Ok) (hout : r.handedOut c = some slot) :
    r.sched.inFlight = none ∧ ∃ e, r.Polled slot e ∧ r.due slot ≤ r.timeOf c ∧
      ∀ other e', r.Polled other e' → r.due other ≤ r.timeOf c →
        r.timeOf c < r.due other + 2 ^ 31 → r.due slot ≤ r.due other := by
  have hmoves := GroupScheduler.moves_call r.sched (msOf (r.timeOf c)) c.2
  generalize r.sched.call (msOf (r.timeOf c)) c.2 = s' at hmoves
  cases hmoves with
  | quiet deadlineMs hop hsilent => cases hsilent.handedOut.symm.trans hout
  | cancelled hop hsilent => cases hsilent.handedOut.symm.trans hout
  | added groupIndex intervalMs hinterval hadded hverdict hnone hsignal =>
    cases hnone.symm.trans hout
  | judged slot' e failed hentry hverdict hadded hnone hsignal => cases hnone.symm.trans hout
  | suspended slot' e hentry hsilent => cases hsilent.handedOut.symm.trans hout
  | handedOut slot' deadlineMs hflight hbest hout' hverdict hadded hsignal =>
    obtain rfl : slot' = slot := Option.some.inj (hout'.symm.trans hout)
    obtain ⟨e, hentry, hdue, hmost⟩ := GroupScheduler.best_spec hbest
    have hclocked := h slot' e hentry
    refine ⟨hflight, e, ⟨hentry, hdue.1⟩, hclocked.due_le hdue, ?_⟩
    intro other e' hpolled hcome hlate
    have hclocked' := h other e' hpolled.1
    have hoverdue := toNat_overdue hcome hlate
    have hdue' : e'.Due (msOf (r.timeOf c)) := by
      refine ⟨hpolled.2, ?_⟩
      rw [hclocked'.due, UInt32.lt_iff_toNat_lt, hoverdue, toNat_wrapHorizon]
      omega
    -- the other one is not more overdue modulo the counter, and so not on the clock
    have hle := UInt32.le_iff_toNat_le.mp (hmost other e' hpolled.1 hdue')
    have hlt := UInt32.lt_iff_toNat_lt.mp hdue.2
    rw [hclocked'.due, hoverdue, hclocked.due, msOf, msOf, UInt32.toNat_sub, UInt32.toNat_ofNat',
      UInt32.toNat_ofNat'] at hle
    have hcome' := hclocked.due_le hdue
    omega

end SchedRun

end EspCars.Uds
