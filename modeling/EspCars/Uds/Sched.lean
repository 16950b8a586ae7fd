import Mathlib

/-!
# The poll scheduler

`components/uds/uds_sched.h`: one entry for each polled group, one request in flight, and the
deadline of that request. The milliseconds are a free-running 32-bit counter, and a time counts as
reached while the distance to it is below half of the counter's range.
-/

namespace EspCars.Uds

/-- `SCHED_BACKOFF_CAP_MS` -/
def backoffCapMs : UInt32 := 60000

/-- The distance from which on a time is not reached, and the intervals that `add` refuses. -/
def wrapHorizon : UInt32 := 0x80000000

/-- `sched_time_reached` -/
def timeReached (now due : UInt32) : Bool := now - due < wrapHorizon

/-- `PollEntry` -/
structure PollEntry where
  intervalMs : UInt32
  nextDueMs : UInt32
  backoffMs : UInt32 := 0
  groupIndex : Nat
  consecutiveFailures : Nat := 0
  suspended : Bool := false
  unavailable : Bool := false
  deriving DecidableEq

namespace PollEntry

variable (e : PollEntry)

/-- The entry behind an answer. -/
def succeeded (now : UInt32) : PollEntry :=
  { e with
    consecutiveFailures := 0, backoffMs := 0, nextDueMs := now + e.intervalMs
    unavailable := false }

/-- The delay after one more failure. -/
def nextBackoff : UInt32 :=
  let backoff := if e.backoffMs ≠ 0 then e.backoffMs else if e.intervalMs ≠ 0 then e.intervalMs else 1
  if backoffCapMs / 2 < backoff then backoffCapMs else backoff * 2

/-- The failures that are counted with one more. -/
def nextFailures : Nat := min (e.consecutiveFailures + 1) 0xFF

/-- One more failure makes the group unavailable. -/
def crosses (maxFailures : Nat) : Bool := !e.unavailable ∧ maxFailures ≤ e.nextFailures

/-- The entry behind a failure. -/
def failed (now : UInt32) (maxFailures : Nat) : PollEntry :=
  { e with
    consecutiveFailures := e.nextFailures, backoffMs := e.nextBackoff
    nextDueMs := now + e.nextBackoff, unavailable := e.unavailable || e.crosses maxFailures }

/-- The entry may be selected. -/
def Due (now : UInt32) : Prop := e.suspended = false ∧ now - e.nextDueMs < wrapHorizon

theorem nextBackoff_bounds : 0 < e.nextBackoff.toNat ∧ e.nextBackoff.toNat ≤ 60000 := by
  unfold nextBackoff
  have hcap : backoffCapMs.toNat = 60000 := rfl
  have hhalf : (backoffCapMs / 2).toNat = 30000 := rfl
  generalize hseed : (if e.backoffMs ≠ 0 then e.backoffMs
    else if e.intervalMs ≠ 0 then e.intervalMs else 1) = seed
  have hpos : 0 < seed.toNat := by
    have hne (n : UInt32) (h : n ≠ 0) : 0 < n.toNat :=
      Nat.pos_of_ne_zero fun h' => h (UInt32.toNat_inj.mp h')
    split_ifs at hseed with hbackoff hinterval
    · exact hseed ▸ hne _ hbackoff
    · exact hseed ▸ hne _ hinterval
    · exact hseed ▸ Nat.one_pos
  dsimp only
  split_ifs with hlt
  · omega
  · rw [UInt32.lt_iff_toNat_lt, hhalf] at hlt
    rw [UInt32.toNat_mul, show UInt32.toNat 2 = 2 from rfl]
    omega

/-- A group that has just failed is not due. -/
theorem not_due_failed (now : UInt32) (maxFailures : Nat) : ¬ (e.failed now maxFailures).Due now := by
  rintro ⟨-, hlt⟩
  obtain ⟨hpos, hle⟩ := e.nextBackoff_bounds
  rw [failed, UInt32.lt_iff_toNat_lt, UInt32.toNat_sub, UInt32.toNat_add,
    show wrapHorizon.toNat = 2147483648 from rfl] at hlt
  have := now.toNat_lt
  omega

end PollEntry

/-- `GroupScheduler` -/
structure GroupScheduler where
  entries : List PollEntry := []
  capacity : Nat
  maxFailures : Nat
  inFlight : Option Nat := none
  deadlineMs : UInt32 := 0
  deriving DecidableEq

namespace GroupScheduler

variable (s : GroupScheduler)

/-- `add` -/
def add (groupIndex : Nat) (intervalMs now : UInt32) : Bool × GroupScheduler :=
  if s.capacity ≤ s.entries.length ∨ wrapHorizon ≤ intervalMs then (false, s)
  else
    let e : PollEntry := { intervalMs := intervalMs, nextDueMs := now, groupIndex := groupIndex }
    (true, { s with entries := s.entries ++ [e] })

/-- One turn of the scan: the best slot so far, and by how much it is overdue. -/
def pick (now : UInt32) (best : Option (Nat × UInt32)) (e : PollEntry × Nat) :
    Option (Nat × UInt32) :=
  if e.1.suspended then best
  else if wrapHorizon ≤ now - e.1.nextDueMs then best
  else
    match best with
    | none => some (e.2, now - e.1.nextDueMs)
    | some (slot, overdue) =>
      if overdue < now - e.1.nextDueMs then some (e.2, now - e.1.nextDueMs) else some (slot, overdue)

/-- The most overdue slot, and the first of those. -/
def best (now : UInt32) : Option Nat := (s.entries.zipIdx.foldl (pick now) none).map Prod.fst

/-- `next` -/
def next (now p2Ms : UInt32) : Option Nat × GroupScheduler :=
  if s.inFlight.isSome then (none, s)
  else
    match s.best now with
    | none => (none, s)
    | some slot => (some slot, { s with inFlight := some slot, deadlineMs := now + p2Ms })

/-- `arm_deadline` -/
def armDeadline (now ms : UInt32) : GroupScheduler :=
  if s.inFlight.isSome then { s with deadlineMs := now + ms } else s

/-- `extend_deadline` -/
def extendDeadline (now ms : UInt32) : GroupScheduler := s.armDeadline now ms

/-- `cancel_in_flight` -/
def cancelInFlight : GroupScheduler := { s with inFlight := none }

/-- The slot is not in flight any more. -/
def release (slot : Nat) : GroupScheduler :=
  if s.inFlight = some slot then { s with inFlight := none } else s

/-- Whether the group was unavailable until then. -/
def onSuccess (slot : Nat) (now : UInt32) : Bool × GroupScheduler :=
  match s.entries[slot]? with
  | none => (false, s)
  | some e =>
    (e.unavailable, { s.release slot with entries := s.entries.set slot (e.succeeded now) })

/-- Whether the group becomes unavailable. -/
def onFailure (slot : Nat) (now : UInt32) : Bool × GroupScheduler :=
  match s.entries[slot]? with
  | none => (false, s)
  | some e =>
    (e.crosses s.maxFailures,
      { s.release slot with entries := s.entries.set slot (e.failed now s.maxFailures) })

/-- The slot whose deadline has passed, and whether its group becomes unavailable. -/
def poll (now : UInt32) : Option (Nat × Bool) × GroupScheduler :=
  match s.inFlight with
  | none => (none, s)
  | some slot =>
    if timeReached now s.deadlineMs then
      let (unavailable, s) := s.onFailure slot now
      (some (slot, unavailable), s)
    else (none, s)

/-- `suspend` -/
def suspend (slot : Nat) : GroupScheduler :=
  match s.entries[slot]? with
  | none => s
  | some e => { s.release slot with entries := s.entries.set slot { e with suspended := true } }

variable {s}

/-! ## The selection -/

variable {now : UInt32} {e : PollEntry} {l : List (PollEntry × Nat)} {slot : Nat}
  {s' : GroupScheduler}

theorem pick_of_not_due {e : PollEntry × Nat} (h : ¬ e.1.Due now)
    (best : Option (Nat × UInt32)) : pick now best e = best := by
  unfold pick
  split_ifs with hsuspended hdue
  · rfl
  · rfl
  · exact absurd ⟨Bool.not_eq_true _ ▸ hsuspended, UInt32.not_le.mp hdue⟩ h

theorem pick_of_due {e : PollEntry × Nat} (h : e.1.Due now) (best : Option (Nat × UInt32)) :
    pick now best e =
      match best with
      | none => some (e.2, now - e.1.nextDueMs)
      | some (slot, overdue) =>
        if overdue < now - e.1.nextDueMs then some (e.2, now - e.1.nextDueMs)
        else some (slot, overdue) := by
  unfold pick
  rw [if_neg (by rw [h.1]; exact Bool.false_ne_true), if_neg (UInt32.not_le.mpr h.2)]

/-- The scan ends with a due slot, and none is more overdue. -/
theorem foldl_pick {best : Option (Nat × UInt32)} {overdue : UInt32}
    (h : l.foldl (pick now) best = some (slot, overdue)) :
    (best = some (slot, overdue) ∨
        ∃ e, (e, slot) ∈ l ∧ e.Due now ∧ overdue = now - e.nextDueMs) ∧
      (∀ other, best = some other → other.2 ≤ overdue) ∧
      ∀ e ∈ l, e.1.Due now → now - e.1.nextDueMs ≤ overdue := by
  induction l generalizing best with
  | nil =>
    obtain rfl : best = some (slot, overdue) := h
    exact ⟨.inl rfl, fun other hother => Option.some.inj hother ▸ UInt32.le_refl _, by simp⟩
  | cons e l ih =>
    rw [List.foldl_cons] at h
    obtain ⟨hfrom, hbest, hrest⟩ := ih h
    by_cases hdue : e.1.Due now
    · rw [pick_of_due hdue] at hfrom hbest
      -- the turn keeps the more overdue of the two
      have hturn : now - e.1.nextDueMs ≤ overdue ∧ ∀ other, best = some other → other.2 ≤ overdue := by
        cases best with
        | none => exact ⟨hbest _ rfl, by simp⟩
        | some other =>
          dsimp only at hbest
          split_ifs at hbest with hlt
          · have hle := hbest _ rfl
            refine ⟨hle, fun o ho => ?_⟩
            rw [← Option.some.inj ho]
            exact UInt32.le_trans (UInt32.le_of_lt hlt) hle
          · have hle := hbest _ rfl
            refine ⟨UInt32.le_trans (UInt32.not_lt.mp hlt) hle, fun o ho => ?_⟩
            rw [← Option.some.inj ho]
            exact hle
      refine ⟨?_, hturn.2, ?_⟩
      · rcases hfrom with hsame | ⟨e', he', hdue', heq⟩
        · cases best with
          | none =>
            cases hsame
            exact .inr ⟨e.1, List.mem_cons_self, hdue, rfl⟩
          | some other =>
            dsimp only at hsame
            split_ifs at hsame
            · cases hsame
              exact .inr ⟨e.1, List.mem_cons_self, hdue, rfl⟩
            · exact .inl hsame
        · exact .inr ⟨e', List.mem_cons_of_mem _ he', hdue', heq⟩
      · intro e' he' hdue'
        rcases List.mem_cons.mp he' with rfl | he'
        · exact hturn.1
        · exact hrest e' he' hdue'
    · rw [pick_of_not_due hdue] at hfrom hbest
      refine ⟨hfrom.imp_right ?_, hbest, ?_⟩
      · rintro ⟨e', he', hdue', heq⟩
        exact ⟨e', List.mem_cons_of_mem _ he', hdue', heq⟩
      · intro e' he' hdue'
        rcases List.mem_cons.mp he' with rfl | he'
        · exact absurd hdue' hdue
        · exact hrest e' he' hdue'

/-- The selected slot is due, and no due slot is more overdue. -/
theorem best_spec (h : s.best now = some slot) : ∃ e, s.entries[slot]? = some e ∧ e.Due now ∧
      ∀ (other : Nat) (e' : PollEntry), s.entries[other]? = some e' → e'.Due now →
        now - e'.nextDueMs ≤ now - e.nextDueMs := by
  obtain ⟨⟨slot', overdue⟩, hfold, rfl⟩ := Option.map_eq_some_iff.mp h
  obtain ⟨hnone | ⟨e, he, hdue, rfl⟩, -, hmost⟩ := foldl_pick hfold
  · cases hnone
  · refine ⟨e, List.mem_zipIdx_iff_getElem?.mp he, hdue, ?_⟩
    intro other e' hother hdue'
    exact hmost (e', other) (List.mem_zipIdx_iff_getElem?.mpr hother) hdue'

theorem foldl_pick_of_not_due (h : ∀ e ∈ l, ¬ e.1.Due now) (best : Option (Nat × UInt32)) :
    l.foldl (pick now) best = best := by
  induction l generalizing best with
  | nil => rfl
  | cons e l ih =>
    rw [List.foldl_cons, pick_of_not_due (h e (List.mem_cons_self ..))]
    exact ih (fun e' he' => h e' (List.mem_cons_of_mem _ he')) best

/-- A slot that is as overdue as any that follows stays the best one. -/
theorem foldl_pick_of_le {overdue : UInt32} (h : ∀ e ∈ l, now - e.1.nextDueMs ≤ overdue) :
    l.foldl (pick now) (some (slot, overdue)) = some (slot, overdue) := by
  induction l with
  | nil => rfl
  | cons e l ih =>
    have hkeep : pick now (some (slot, overdue)) e = some (slot, overdue) := by
      by_cases hdue : e.1.Due now
      · rw [pick_of_due hdue]
        exact if_neg (UInt32.not_lt.mpr (h e (List.mem_cons_self ..)))
      · exact pick_of_not_due hdue _
    rw [List.foldl_cons, hkeep]
    exact ih fun e' he' => h e' (List.mem_cons_of_mem _ he')

/-- A due slot is selected if no slot before it is due and none after it is more overdue. -/
theorem best_eq_some (he : s.entries[slot]? = some e)
    (hdue : e.Due now) (hbefore : ∀ e' ∈ s.entries.take slot, ¬ e'.Due now)
    (hafter : ∀ e' ∈ s.entries.drop (slot + 1), now - e'.nextDueMs ≤ now - e.nextDueMs) :
    s.best now = some slot := by
  obtain ⟨hlt, rfl⟩ := List.getElem?_eq_some_iff.mp he
  have hsplit : s.entries.zipIdx =
      (s.entries.take slot).zipIdx ++
        (s.entries[slot], slot) :: (s.entries.drop (slot + 1)).zipIdx (slot + 1) := by
    conv_lhs => rw [← List.take_append_drop slot s.entries, List.zipIdx_append,
      List.drop_eq_getElem_cons hlt, List.zipIdx_cons, List.length_take,
      Nat.min_eq_left (Nat.le_of_lt hlt), Nat.zero_add]
  have hfront : (s.entries.take slot).zipIdx.foldl (pick now) none = none :=
    foldl_pick_of_not_due (fun e' he' => hbefore e'.1 (List.fst_mem_of_mem_zipIdx he')) none
  rw [best, hsplit, List.foldl_append, List.foldl_cons, hfront, pick_of_due hdue]
  dsimp only
  rw [foldl_pick_of_le]
  · rfl
  · intro e' he'
    exact hafter e'.1 (List.fst_mem_of_mem_zipIdx he')

/-! ## The slot in flight -/

theorem suspend_eq (hentry : s.entries[slot]? = some e) (hflight : s.inFlight = some slot) :
    s.suspend slot =
      { s with inFlight := none, entries := s.entries.set slot { e with suspended := true } } := by
  rw [suspend, hentry, release, if_pos hflight]

theorem onFailure_eq (hentry : s.entries[slot]? = some e)
    (hflight : s.inFlight = some slot) (now : UInt32) :
    s.onFailure slot now =
      (e.crosses s.maxFailures,
        { s with inFlight := none, entries := s.entries.set slot (e.failed now s.maxFailures) }) := by
  rw [onFailure, hentry, release, if_pos hflight]

/-! ## The groups of the table -/

/-- The groups of the slots. -/
def groups (s : GroupScheduler) : List Nat := s.entries.map PollEntry.groupIndex

theorem groups_set {e' : PollEntry} (hslot : s.entries[slot]? = some e)
    (h : e'.groupIndex = e.groupIndex) :
    (s.entries.set slot e').map PollEntry.groupIndex = s.groups := by
  rw [List.map_set, h, groups]
  apply List.ext_getElem?
  intro i
  rw [List.getElem?_set]
  split_ifs with hi hlt
  · rw [← hi, List.getElem?_map, hslot]
    rfl
  · rw [List.getElem?_eq_none (by omega)]
  · rfl

@[simp] theorem groups_armDeadline (now ms : UInt32) : (s.armDeadline now ms).groups = s.groups := by
  unfold armDeadline
  split <;> rfl

@[simp] theorem groups_next (now ms : UInt32) : (s.next now ms).2.groups = s.groups := by
  unfold next
  split
  · rfl
  · split <;> rfl

theorem groups_of_next {ms : UInt32} {slot : Option Nat}
    (h : s.next now ms = (slot, s')) : s'.groups = s.groups := by
  have hgroups : (s.next now ms).2.groups = s.groups := groups_next now ms
  rwa [h] at hgroups

/-- The slot that is selected has a group. -/
theorem next_spec {ms : UInt32}
    (h : s.next now ms = (some slot, s')) : ∃ gi, s'.groups[slot]? = some gi := by
  unfold next at h
  split at h
  · cases h
  · split at h
    · cases h
    · next slot' hbest =>
      cases h
      obtain ⟨e, he, -⟩ := best_spec hbest
      exact ⟨e.groupIndex, by rw [groups, List.getElem?_map, he, Option.map_some]⟩

@[simp] theorem groups_onSuccess (slot : Nat) (now : UInt32) :
    (s.onSuccess slot now).2.groups = s.groups := by
  unfold onSuccess
  split
  · rfl
  · next e hslot => exact groups_set hslot rfl

@[simp] theorem groups_onFailure (slot : Nat) (now : UInt32) :
    (s.onFailure slot now).2.groups = s.groups := by
  unfold onFailure
  split
  · rfl
  · next e hslot => exact groups_set hslot rfl

@[simp] theorem groups_suspend (slot : Nat) : (s.suspend slot).groups = s.groups := by
  unfold suspend
  split
  · rfl
  · next e hslot => exact groups_set hslot rfl

@[simp] theorem groups_poll (now : UInt32) : (s.poll now).2.groups = s.groups := by
  unfold poll
  split
  · rfl
  · split_ifs
    · exact groups_onFailure ..
    · rfl

theorem groups_of_poll {expired : Option (Nat × Bool)}
    (h : s.poll now = (expired, s')) : s'.groups = s.groups := by
  have hgroups : (s.poll now).2.groups = s.groups := groups_poll now
  rwa [h] at hgroups

end GroupScheduler

end EspCars.Uds
