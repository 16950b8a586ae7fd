import EspCars.Uds.Gate

/-!
# The request in flight

The hub and its scheduler both know which request is in flight. They agree on it in every state
reached (`Agree`), so a step can be told by what it does to the one deadline and to the log
(`Flight`): sliding, timing out and issuing in the loop, ending or waiting on at a message. From
these the requests and their ends alternate in every log.
-/

namespace EspCars.Uds

open EspCars.Lib GroupScheduler

/-! ## The log -/

/-- A request that the transport took. -/
def HubAct.sent : HubAct → Bool
  | .offer _ _ _ taken => taken
  | _ => false

def HubAct.ends : HubAct → Bool
  | .ended _ => true
  | _ => false

/-- Neither sends a request nor bears on the one that is in flight. -/
def HubAct.neutral : HubAct → Bool
  | .offer _ _ _ taken => !taken
  | .decode _ _ | .unavailable _ => true
  | .pending | .ended _ => false

def sentCount (log : List (Nat × HubAct)) : Nat := log.countP fun p => p.2.sent

def endedCount (log : List (Nat × HubAct)) : Nat := log.countP fun p => p.2.ends

/-- At every point of the log all requests but the last one have ended, and none has twice. -/
def Paired (log : List (Nat × HubAct)) : Prop :=
  ∀ before, before <+: log →
    endedCount before ≤ sentCount before ∧ sentCount before ≤ endedCount before + 1

/-- The log is paired, and says whether a request is in flight. -/
structure Books (busy : Bool) (log : List (Nat × HubAct)) : Prop where
  paired : Paired log
  balance : sentCount log = endedCount log + busy.toNat

theorem books_nil : Books false [] := by
  refine ⟨?_, rfl⟩
  intro before h
  rw [List.prefix_nil.mp h]
  exact ⟨Nat.le_refl _, Nat.le_succ _⟩

/-- One act more. -/
theorem Books.act {busy busy' : Bool} {log : List (Nat × HubAct)} (h : Books busy log) (now : Nat)
    {a : HubAct} (hbusy : busy.toNat + a.sent.toNat = busy'.toNat + a.ends.toNat) :
    Books busy' (log ++ [(now, a)]) := by
  have hsent : sentCount (log ++ [(now, a)]) = sentCount log + a.sent.toNat := by
    unfold sentCount
    rw [List.countP_append]
    cases ha : a.sent <;> simp [ha]
  have hended : endedCount (log ++ [(now, a)]) = endedCount log + a.ends.toNat := by
    unfold endedCount
    rw [List.countP_append]
    cases ha : a.ends <;> simp [ha]
  have hbalance : sentCount (log ++ [(now, a)]) =
      endedCount (log ++ [(now, a)]) + busy'.toNat := by
    rw [hsent, hended, h.balance]
    omega
  refine ⟨?_, hbalance⟩
  intro before hbefore
  rcases List.prefix_concat_iff.mp hbefore with rfl | hbefore
  · have := busy'.toNat_le
    omega
  · exact h.paired before hbefore

theorem Books.neutral {busy : Bool} {log acts : List (Nat × HubAct)} (h : Books busy log)
    (hacts : ∀ p ∈ acts, p.2.neutral = true) : Books busy (log ++ acts) := by
  induction acts generalizing log with
  | nil => rwa [List.append_nil]
  | cons p acts ih =>
    obtain ⟨now, a⟩ := p
    have ha : a.neutral = true := hacts (now, a) List.mem_cons_self
    have hstep : Books busy (log ++ [(now, a)]) := by
      apply h.act now
      cases a with
      | offer origin group req taken =>
        cases taken with
        | false => rfl
        | true => cases ha
      | pending => cases ha
      | ended outcome => cases ha
      | decode group resp => rfl
      | unavailable group => rfl
    rw [List.append_cons]
    exact ih hstep fun q hq => hacts q (List.mem_cons_of_mem _ hq)

/-! ## The scheduler -/

namespace GroupScheduler

variable {s : GroupScheduler}

theorem onSuccess_eq {slot : Nat} {e : PollEntry} (hentry : s.entries[slot]? = some e)
    (hflight : s.inFlight = some slot) (now : UInt32) :
    s.onSuccess slot now =
      (e.unavailable,
        { s with inFlight := none, entries := s.entries.set slot (e.succeeded now) }) := by
  rw [onSuccess, hentry, release, if_pos hflight]

/-- The scheduler selects a slot of its table, or stays as it is. -/
theorem next_cases (now ms : UInt32) :
    s.next now ms = (none, s) ∨
      ∃ slot e, s.entries[slot]? = some e ∧
        s.next now ms = (some slot, { s with inFlight := some slot, deadlineMs := now + ms }) := by
  unfold next
  split_ifs
  · exact .inl rfl
  · cases hbest : s.best now with
    | none => exact .inl rfl
    | some slot =>
      obtain ⟨e, he, -⟩ := best_spec hbest
      exact .inr ⟨slot, e, he, rfl⟩

end GroupScheduler

/-! ## The two sides agree -/

/-- The deadline of the request in flight, if there is one, and the log. -/
structure Flight where
  deadline : Option UInt32
  log : List (Nat × HubAct)
  deriving DecidableEq

namespace UdsHub

def flight (h : UdsHub) : Flight where
  deadline :=
    match h.inFlight with
    | .none => none
    | .polled => some h.sched.deadlineMs
    | _ => some h.ownDeadlineMs
  log := h.log

/-- The slot that the scheduler has in flight is the one that the hub polls. -/
structure Agree (h : UdsHub) : Prop where
  slot : h.sched.inFlight = if h.inFlight = .polled then some h.inFlightSlot else none
  entry : h.inFlight = .polled → ∃ e, h.sched.entries[h.inFlightSlot]? = some e

variable {h : UdsHub}

theorem flight_deadline_eq_none : h.flight.deadline = none ↔ h.inFlight = .none := by
  unfold flight
  cases h.inFlight <;> simp

theorem Agree.act (ha : Agree h) (now : Nat) (a : HubAct) : Agree (h.act now a) :=
  ⟨ha.slot, ha.entry⟩

theorem Agree.count (ha : Agree h) (f : UdsCounters → UdsCounters) : Agree (h.count f) :=
  ⟨ha.slot, ha.entry⟩

theorem agree_idle (hsched : h.sched.inFlight = none) (hidle : h.inFlight = .none) : Agree h where
  slot := by
    rw [hsched, hidle]
    rfl
  entry := by
    rw [hidle]
    nofun

/-- The hubs differ only in what waits and in whether they are enabled. -/
def OnlyWaiting (h h' : UdsHub) : Prop := ∃ ondemand rawPending enabled,
  h' = { h with ondemand := ondemand, rawPending := rawPending, enabled := enabled }

theorem OnlyWaiting.refl (h : UdsHub) : OnlyWaiting h h :=
  ⟨h.ondemand, h.rawPending, h.enabled, rfl⟩

variable {h' : UdsHub} {l : List (Nat × HubAct)} {now : Nat}

theorem OnlyWaiting.trans {h h'' : UdsHub} (first : OnlyWaiting h h')
    (second : OnlyWaiting h' h'') : OnlyWaiting h h'' := by
  obtain ⟨_, _, _, rfl⟩ := first
  obtain ⟨ondemand, rawPending, enabled, rfl⟩ := second
  exact ⟨ondemand, rawPending, enabled, rfl⟩

theorem onlyWaiting_enqueue (h : UdsHub) (gi : Nat) : OnlyWaiting h (h.enqueue gi) := by
  unfold enqueue
  split_ifs
  · exact OnlyWaiting.refl h
  · exact ⟨h.ondemand ++ [gi], h.rawPending, h.enabled, rfl⟩

theorem onlyWaiting_call (h : UdsHub) (c : Call) : OnlyWaiting h (h.call c) := by
  cases c with
  | read name =>
    show OnlyWaiting h (h.requestRead name)
    unfold requestRead
    split
    · exact OnlyWaiting.refl h
    · split
      · exact OnlyWaiting.refl h
      · split
        · exact OnlyWaiting.refl h
        · split_ifs
          · exact OnlyWaiting.refl h
          · exact onlyWaiting_enqueue h _
  | execute name =>
    show OnlyWaiting h (h.requestExecute name)
    unfold requestExecute
    split_ifs
    · exact OnlyWaiting.refl h
    · split
      · exact OnlyWaiting.refl h
      · split
        · exact OnlyWaiting.refl h
        · exact onlyWaiting_enqueue h _
  | raw data =>
    show OnlyWaiting h (h.sendRaw data)
    unfold sendRaw
    split_ifs
    · exact OnlyWaiting.refl h
    · exact OnlyWaiting.refl h
    · exact OnlyWaiting.refl h
    · exact ⟨h.ondemand, data, h.enabled, rfl⟩
  | setEnabled enabled => exact ⟨h.ondemand, h.rawPending, enabled, rfl⟩

theorem onlyWaiting_calls (h : UdsHub) (calls : List Call) :
    OnlyWaiting h (calls.foldl call h) := by
  induction calls generalizing h with
  | nil => exact OnlyWaiting.refl h
  | cons c calls ih => exact (onlyWaiting_call h c).trans (ih (h.call c))

theorem OnlyWaiting.agree (hw : OnlyWaiting h h') (ha : Agree h) : Agree h' := by
  obtain ⟨_, _, _, rfl⟩ := hw
  exact { ha with }

theorem OnlyWaiting.flight (hw : OnlyWaiting h h') : h'.flight = h.flight := by
  obtain ⟨_, _, _, rfl⟩ := hw
  rfl

/-! ## The loop -/

theorem agree_slideDeadline (ha : Agree h) (now : Nat) : Agree (h.slideDeadline now) := by
  unfold slideDeadline extendDeadline armDeadline
  split
  · exact ha
  · split_ifs
    · exact { ha with }
    · exact { ha with }
  · exact { ha with }

/-- The deadline of a request in flight is a response time from now. -/
theorem flight_slideDeadline (ha : Agree h) (now : Nat) :
    (h.slideDeadline now).flight =
      { h.flight with
        deadline := h.flight.deadline.map fun _ => millis now + UInt32.ofNat h.p2Ms } := by
  have hslot := ha.slot
  unfold slideDeadline extendDeadline armDeadline flight
  cases hflight : h.inFlight with
  | none => rw [hflight, Option.map_none]
  | polled =>
    rw [hflight, if_pos rfl] at hslot
    dsimp only
    rw [hslot, Option.isSome_some, if_pos rfl, Option.map_some]
  | ondemand => rw [Option.map_some]
  | raw => rw [Option.map_some]

/-- The request in flight ends. -/
def Ended (h h' : UdsHub) (now : Nat) (outcome : Outcome) : Prop :=
  ∃ acts, (∀ p ∈ acts, p.2.neutral = true) ∧
    h'.flight = ⟨none, h.log ++ acts ++ [(now, .ended outcome)]⟩

theorem neutral_singleton (now : Nat) {a : HubAct} (ha : a.neutral = true) :
    ∀ p ∈ [(now, a)], p.2.neutral = true := by
  intro p hp
  rw [List.mem_singleton.mp hp]
  exact ha

theorem ended_act (hacts : ∀ p ∈ l, p.2.neutral = true) (hidle : h'.inFlight = .none)
    (hlog : h'.log = h.log ++ l) (now : Nat) (outcome : Outcome) :
    Ended h (h'.act now (.ended outcome)) now outcome := by
  refine ⟨l, hacts, ?_⟩
  unfold flight act
  rw [hidle, hlog]

theorem timedOut_calls (hacts : ∀ p ∈ l, p.2.neutral = true) (hsched : h'.sched.inFlight = none)
    (hidle : h'.inFlight = .none) (hlog : h'.log = h.log ++ l) (now : Nat) (calls : List Call) :
    Agree (calls.foldl call (h'.act now (.ended .timeout))) ∧
      Ended h (calls.foldl call (h'.act now (.ended .timeout))) now .timeout := by
  have hw := onlyWaiting_calls (h'.act now (.ended .timeout)) calls
  obtain ⟨acts, hneutral, hflight⟩ := ended_act hacts hidle hlog now .timeout
  exact ⟨hw.agree (agree_idle hsched hidle), acts, hneutral, hw.flight.trans hflight⟩

theorem checkDeadline_polled (ha : Agree h) (hpolled : h.inFlight = .polled) (now : Nat)
    (calls : List Call) :
    if timeReached (millis now) h.sched.deadlineMs then
      Agree (h.checkDeadline now calls) ∧ Ended h (h.checkDeadline now calls) now .timeout
    else h.checkDeadline now calls = h := by
  have hslot := ha.slot
  obtain ⟨e, he⟩ := ha.entry hpolled
  rw [hpolled, if_pos rfl] at hslot
  unfold checkDeadline
  rw [hpolled]
  dsimp only
  unfold poll
  rw [hslot]
  dsimp only
  split_ifs with hreached
  · rw [onFailure_eq he hslot]
    dsimp only
    split_ifs with hcrosses
    · exact timedOut_calls (neutral_singleton now rfl) rfl rfl rfl now calls
    · exact timedOut_calls (l := []) nofun rfl rfl (List.append_nil _).symm now calls
  · show ({ h with inFlight := .polled } : UdsHub) = h
    rw [← hpolled]

/-- The request in flight is failed where its deadline is reached, and only there. -/
theorem checkDeadline_spec (ha : Agree h) (now : Nat) (calls : List Call) :
    if h.flight.deadline.any (timeReached (millis now)) then
      Agree (h.checkDeadline now calls) ∧ Ended h (h.checkDeadline now calls) now .timeout
    else h.checkDeadline now calls = h := by
  have hown (hown : h.flight.deadline = some h.ownDeadlineMs)
      (hcheck : h.checkDeadline now calls =
        if timeReached (millis now) h.ownDeadlineMs then
          calls.foldl call (((h.count fun n =>
            { n with timeouts := n.timeouts + 1 }).finishInFlight).act now (.ended .timeout))
        else h) (hnot : h.inFlight ≠ .polled) :
      if h.flight.deadline.any (timeReached (millis now)) then
        Agree (h.checkDeadline now calls) ∧ Ended h (h.checkDeadline now calls) now .timeout
      else h.checkDeadline now calls = h := by
    have hslot := ha.slot
    rw [if_neg hnot] at hslot
    rw [hown, hcheck, Option.any_some]
    split_ifs
    · refine timedOut_calls (l := []) nofun ?_ ?_ ?_ now calls
      · exact hslot
      · rfl
      · exact (List.append_nil _).symm
    · rfl
  cases hflight : h.inFlight with
  | none =>
    rw [flight_deadline_eq_none.mpr hflight]
    unfold checkDeadline
    rw [hflight]
    rfl
  | polled =>
    have hpolled := checkDeadline_polled ha hflight now calls
    have hdeadline : h.flight.deadline = some h.sched.deadlineMs := by
      unfold flight
      rw [hflight]
    rwa [hdeadline, Option.any_some]
  | ondemand =>
    refine hown ?_ ?_ (by rw [hflight]; nofun)
    · unfold flight
      rw [hflight]
    · unfold checkDeadline
      rw [hflight]
  | raw =>
    refine hown ?_ ?_ (by rw [hflight]; nofun)
    · unfold flight
      rw [hflight]
    · unfold checkDeadline
      rw [hflight]

/-- A request is sent, or none is. -/
def Issued (h h' : UdsHub) (now : Nat) (taken : Bool) : Prop :=
  (∃ acts, (∀ p ∈ acts, p.2.neutral = true) ∧ h'.flight = ⟨none, h.log ++ acts⟩) ∨
    taken = true ∧ ∃ origin group req,
      h'.flight = ⟨some (millis now + UInt32.ofNat h.p2Ms),
        h.log ++ [(now, .offer origin group req true)]⟩

theorem agree_issueRaw (ha : Agree h) (hidle : h.inFlight = .none) (now : Nat) (taken : Bool) :
    Agree (h.issueRaw now taken) := by
  have hslot := ha.slot
  rw [hidle] at hslot
  unfold issueRaw
  cases taken with
  | false => exact agree_idle hslot hidle
  | true => exact ⟨hslot, nofun⟩

theorem issued_issueRaw (hidle : h.inFlight = .none) (now : Nat) (taken : Bool) :
    Issued h (h.issueRaw now taken) now taken := by
  unfold issueRaw
  cases taken with
  | false =>
    refine .inl ⟨[(now, .offer .raw noGroup h.rawPending false)], neutral_singleton now rfl, ?_⟩
    unfold flight act
    dsimp only
    rw [hidle]
    rfl
  | true => exact .inr ⟨rfl, .raw, noGroup, h.rawPending, rfl⟩

/-- Nothing is sent: the acts of the step do not bear on a request. -/
theorem issued_idle (hl : ∀ p ∈ l, p.2.neutral = true)
    (hidle : h'.inFlight = .none) (hlog : h'.log = h.log ++ l) (now : Nat) (taken : Bool) :
    Issued h h' now taken := by
  refine .inl ⟨l, hl, ?_⟩
  unfold flight
  rw [hidle, hlog]

theorem issueOndemand_spec (ha : Agree h) (hidle : h.inFlight = .none) (c : Catalog) (now : Nat)
    (taken : Bool) (gi : Nat) :
    Agree (h.issueOndemand c now taken gi) ∧
      Issued h (h.issueOndemand c now taken gi) now taken := by
  have hslot := ha.slot
  rw [hidle] at hslot
  unfold issueOndemand
  rcases sendGroup_cases (h := h) c now taken .ondemand gi with
    ⟨-, hsend⟩ | ⟨g, req, -, -, hsend⟩
  · rw [hsend]
    refine ⟨agree_idle hslot hidle, issued_idle (l := []) nofun hidle ?_ now taken⟩
    exact (List.append_nil _).symm
  · rw [hsend]
    cases taken with
    | false =>
      refine ⟨agree_idle hslot hidle, issued_idle (neutral_singleton now ?_) ?_ rfl now false⟩
      · rfl
      · exact hidle
    | true => exact ⟨⟨hslot, nofun⟩, .inr ⟨rfl, .ondemand, gi, req, rfl⟩⟩

theorem issuePolled_spec {slot : Nat} {e : PollEntry} (hentry : h.sched.entries[slot]? = some e)
    (hslot : h.sched.inFlight = some slot) (hidle : h.inFlight = .none) (c : Catalog) (now : Nat)
    (hdeadline : h.sched.deadlineMs = millis now + UInt32.ofNat h.p2Ms) (taken : Bool) (gi : Nat) :
    Agree (h.issuePolled c now taken slot gi) ∧
      Issued h (h.issuePolled c now taken slot gi) now taken := by
  unfold issuePolled
  rcases sendGroup_cases (h := h) c now taken .polled gi with
    ⟨-, hsend⟩ | ⟨g, req, -, -, hsend⟩
  · rw [hsend]
    dsimp only
    rw [suspend_eq hentry hslot]
    refine ⟨agree_idle rfl hidle, issued_idle (neutral_singleton now ?_) ?_ rfl now taken⟩
    · rfl
    · exact hidle
  · rw [hsend]
    cases taken with
    | false =>
      refine ⟨agree_idle rfl hidle, issued_idle (neutral_singleton now ?_) ?_ rfl now false⟩
      · rfl
      · exact hidle
    | true =>
      refine ⟨⟨hslot, fun _ => ⟨e, hentry⟩⟩, .inr ⟨rfl, .polled, gi, req, ?_⟩⟩
      rw [← hdeadline]
      rfl

/-- With nothing in flight one request is sent at most. -/
theorem issueNext_spec (ha : Agree h) (hidle : h.inFlight = .none) (c : Catalog) (now : Nat)
    (taken : Bool) :
    Agree (h.issueNext c now taken) ∧ Issued h (h.issueNext c now taken) now taken := by
  unfold issueNext
  split_ifs
  · exact ⟨agree_issueRaw ha hidle now taken, issued_issueRaw hidle now taken⟩
  · split
    · exact issueOndemand_spec ha hidle c now taken _
    · rcases next_cases (s := h.sched) (millis now) (UInt32.ofNat h.p2Ms) with
        hnone | ⟨slot, e, he, hsome⟩
      · rw [hnone]
        exact ⟨ha, issued_idle (l := []) nofun hidle (List.append_nil _).symm now taken⟩
      · rw [hsome]
        exact issuePolled_spec
          (h := { h with sched := { h.sched with
            inFlight := some slot, deadlineMs := millis now + UInt32.ofNat h.p2Ms } })
          he rfl hidle c now rfl taken _

/-! ## The callbacks -/

theorem failInFlight_spec (ha : Agree h) (now : Nat) (outcome : Outcome) :
    Agree (h.failInFlight now outcome) ∧ Ended h (h.failInFlight now outcome) now outcome := by
  have hslot := ha.slot
  unfold failInFlight
  by_cases hpolled : h.inFlight = .polled
  · obtain ⟨e, he⟩ := ha.entry hpolled
    rw [if_pos hpolled] at hslot ⊢
    rw [onFailure_eq he hslot]
    dsimp only
    split_ifs
    · exact ⟨agree_idle rfl rfl, ended_act (neutral_singleton now rfl) rfl rfl now outcome⟩
    · exact ⟨agree_idle rfl rfl,
        ended_act (l := []) nofun rfl (List.append_nil _).symm now outcome⟩
  · rw [if_neg hpolled] at hslot ⊢
    exact ⟨agree_idle hslot rfl,
      ended_act (l := []) nofun rfl (List.append_nil _).symm now outcome⟩

theorem suspendInFlight_spec (ha : Agree h) (now : Nat) (nrc : UInt8) :
    Agree (h.suspendInFlight now nrc) ∧
      Ended h (h.suspendInFlight now nrc) now (.negative nrc) := by
  have hslot := ha.slot
  unfold suspendInFlight
  by_cases hpolled : h.inFlight = .polled
  · obtain ⟨e, he⟩ := ha.entry hpolled
    rw [if_pos hpolled] at hslot
    rw [if_pos hpolled, suspend_eq he hslot]
    exact ⟨agree_idle rfl rfl, ended_act (neutral_singleton now rfl) rfl rfl now _⟩
  · rw [if_neg hpolled] at hslot ⊢
    exact ⟨agree_idle hslot rfl, ended_act (neutral_singleton now rfl) rfl rfl now _⟩

/-- The end of a request that succeeded. -/
theorem succeed_spec (ha : Agree h')
    (hacts : ∀ p ∈ l, p.2.neutral = true) (hlog : h'.log = h.log ++ l) (now : Nat) :
    let h'' :=
      if h'.inFlight = .polled then
        { h' with sched := (h'.sched.onSuccess h'.inFlightSlot (millis now)).2 }
      else h'
    Agree (h''.finishInFlight.act now (.ended .accepted)) ∧
      Ended h (h''.finishInFlight.act now (.ended .accepted)) now .accepted := by
  have hslot := ha.slot
  dsimp only
  by_cases hpolled : h'.inFlight = .polled
  · obtain ⟨e, he⟩ := ha.entry hpolled
    rw [if_pos hpolled] at hslot ⊢
    rw [onSuccess_eq he hslot]
    refine ⟨agree_idle rfl rfl, ended_act hacts ?_ ?_ now _⟩
    · rfl
    · exact hlog
  · rw [if_neg hpolled] at hslot ⊢
    refine ⟨agree_idle hslot rfl, ended_act hacts ?_ ?_ now _⟩
    · rfl
    · exact hlog

theorem acceptResponse_spec (ha : Agree h) (now : Nat) (resp : List UInt8) (uncovered : Bool) :
    Agree (h.acceptResponse now resp uncovered) ∧
      Ended h (h.acceptResponse now resp uncovered) now .accepted := by
  have hcounted : Agree (h.count fun n =>
      { n with
        responsesAccepted := n.responsesAccepted + 1
        partialResponses := n.partialResponses + (if uncovered then 1 else 0) }) := ha.count _
  unfold acceptResponse
  dsimp only
  generalize hcount : (h.count fun n =>
    { n with
      responsesAccepted := n.responsesAccepted + 1
      partialResponses := n.partialResponses + (if uncovered then 1 else 0) }) = counted at hcounted ⊢
  have hlog : counted.log = h.log := by
    rw [← hcount]
    rfl
  by_cases hraw : counted.inFlight = .raw
  · rw [if_pos hraw]
    exact succeed_spec (l := []) hcounted nofun (hlog.trans (List.append_nil h.log).symm) now
  · rw [if_neg hraw]
    have hdecode : HubAct.neutral (.decode counted.inFlightGroup resp) = true := rfl
    refine succeed_spec (hcounted.act now _) (neutral_singleton now hdecode) ?_ now
    rw [act, hlog]

/-- A negative response with which the request goes on. -/
def AcceptsPending (h : UdsHub) (resp : List UInt8) : Prop :=
  h.inFlight ≠ .none ∧ h.req ≠ [] ∧
    classifyResponse h.req resp h.inFlightRespMin = .negative 0x78 ∧ h.pendingStreak < udsMaxPending

/-- The request in flight goes on, with the longer deadline. -/
def Waits (h h' : UdsHub) (now : Nat) : Prop :=
  h'.flight = ⟨some (millis now + UInt32.ofNat h.p2ExtMs), h.log ++ [(now, .pending)]⟩

theorem handleNegative_pending (ha : Agree h) (hbusy : h.inFlight ≠ .none)
    (hstreak : h.pendingStreak < udsMaxPending) (now : Nat) :
    Agree (h.handleNegative now 0x78) ∧ Waits h (h.handleNegative now 0x78) now := by
  have hslot := ha.slot
  have hclass : classifyNrc 0x78 = .pending := rfl
  unfold handleNegative
  rw [hclass]
  dsimp only
  rw [if_neg (by omega : ¬udsMaxPending < h.pendingStreak + 1)]
  unfold Waits flight extendDeadline armDeadline
  by_cases hpolled : h.inFlight = .polled
  · obtain ⟨e, he⟩ := ha.entry hpolled
    rw [if_pos hpolled] at hslot
    rw [act, if_pos hpolled]
    dsimp only
    rw [hslot, hpolled, Option.isSome_some, if_pos rfl]
    exact ⟨⟨rfl, fun _ => ⟨e, he⟩⟩, rfl⟩
  · rw [if_neg hpolled] at hslot
    rw [act, if_neg hpolled]
    dsimp only
    refine ⟨⟨by rw [if_neg hpolled]; exact hslot, fun h => absurd h hpolled⟩, ?_⟩
    cases hflight : h.inFlight with
    | none => exact absurd hflight hbusy
    | polled => exact absurd hflight hpolled
    | ondemand => rfl
    | raw => rfl

theorem handleNegative_ends (ha : Agree h) {nrc : UInt8}
    (hends : nrc ≠ 0x78 ∨ udsMaxPending ≤ h.pendingStreak) (now : Nat) :
    Agree (h.handleNegative now nrc) ∧ Ended h (h.handleNegative now nrc) now (.negative nrc) := by
  unfold handleNegative
  split
  · next hclass =>
    have hnrc : nrc = 0x78 := by
      unfold classifyNrc at hclass
      split_ifs at hclass with h78
      exact h78
    have hstreak : udsMaxPending < h.pendingStreak + 1 :=
      Nat.lt_succ_of_le (hends.resolve_left (not_not.mpr hnrc))
    dsimp only
    rw [if_pos hstreak]
    exact failInFlight_spec (h := { h with pendingStreak := h.pendingStreak + 1 }) { ha with } now _
  · exact suspendInFlight_spec ha now nrc
  · exact suspendInFlight_spec ha now nrc
  · exact failInFlight_spec ha now _
  · exact failInFlight_spec ha now _

/-- A message that is not taken for an answer changes counters only. -/
def Unanswered (h : UdsHub) (resp : List UInt8) : Prop :=
  h.inFlight = .none ∨ h.req = [] ∨
    classifyResponse h.req resp h.inFlightRespMin = .notOurs ∨
      classifyResponse h.req resp h.inFlightRespMin = .tooShort

theorem onMessage_unanswered {resp : List UInt8} (hu : Unanswered h resp) (now : Nat) :
    ∃ f, h.onMessage now resp = h.count f := by
  unfold onMessage
  split_ifs with hforeign
  · exact ⟨_, rfl⟩
  · rcases hu with hidle | hreq | hverdict | hverdict
    · exact absurd (.inl hidle) hforeign
    · exact absurd (.inr hreq) hforeign
    · rw [hverdict]
      exact ⟨_, rfl⟩
    · rw [hverdict]
      exact ⟨_, rfl⟩

/-- A message that is taken for an answer: the request goes on, or it ends. -/
theorem onMessage_answered (ha : Agree h) {resp : List UInt8} (hanswered : ¬Unanswered h resp)
    (now : Nat) :
    Agree (h.onMessage now resp) ∧ h.inFlight ≠ .none ∧
      (AcceptsPending h resp ∧ Waits h (h.onMessage now resp) now ∨
        ¬AcceptsPending h resp ∧
          ∃ outcome, outcome ≠ .timeout ∧ Ended h (h.onMessage now resp) now outcome) := by
  unfold Unanswered at hanswered
  simp only [not_or] at hanswered
  obtain ⟨hbusy, hreq, hnotOurs, htooShort⟩ := hanswered
  unfold onMessage
  rw [if_neg (by rw [not_or]; exact ⟨hbusy, hreq⟩)]
  cases hverdict : classifyResponse h.req resp h.inFlightRespMin with
  | notOurs => exact absurd hverdict hnotOurs
  | tooShort => exact absurd hverdict htooShort
  | covered =>
    obtain ⟨hagree, hended⟩ := acceptResponse_spec ha now resp false
    refine ⟨hagree, hbusy, .inr ⟨?_, .accepted, nofun, hended⟩⟩
    rintro ⟨-, -, hpending, -⟩
    rw [hverdict] at hpending
    cases hpending
  | uncovered =>
    obtain ⟨hagree, hended⟩ := acceptResponse_spec ha now resp true
    refine ⟨hagree, hbusy, .inr ⟨?_, .accepted, nofun, hended⟩⟩
    rintro ⟨-, -, hpending, -⟩
    rw [hverdict] at hpending
    cases hpending
  | negative nrc =>
    dsimp only
    generalize hcounted : (h.count fun n =>
      { n with negativeResponses := n.negativeResponses + 1, lastNrc := nrc }) = counted
    have hagree : Agree counted := by
      rw [← hcounted]
      exact ha.count _
    have hsame : counted.inFlight = h.inFlight ∧ counted.pendingStreak = h.pendingStreak ∧
        counted.p2ExtMs = h.p2ExtMs ∧ counted.log = h.log := by
      rw [← hcounted]
      exact ⟨rfl, rfl, rfl, rfl⟩
    obtain ⟨hflight, hstreak, hp2, hlog⟩ := hsame
    by_cases hpending : AcceptsPending h resp
    · obtain ⟨-, -, hnrc, hlt⟩ := hpending
      rw [hverdict] at hnrc
      cases hnrc
      obtain ⟨hagree', hwaits⟩ := handleNegative_pending hagree (by rwa [hflight])
        (by rwa [hstreak]) now
      refine ⟨hagree', hbusy, .inl ⟨⟨hbusy, hreq, hverdict, hlt⟩, ?_⟩⟩
      unfold Waits at hwaits ⊢
      rw [hwaits, hp2, hlog]
    · have hends : nrc ≠ 0x78 ∨ udsMaxPending ≤ counted.pendingStreak := by
        rw [hstreak]
        by_contra hcontra
        rw [not_or, not_not, Nat.not_le] at hcontra
        rw [hcontra.1] at hverdict
        exact hpending ⟨hbusy, hreq, hverdict, hcontra.2⟩
      obtain ⟨hagree', acts, hneutral, hended⟩ := handleNegative_ends hagree hends now
      refine ⟨hagree', hbusy, .inr ⟨hpending, .negative nrc, nofun, acts, hneutral, ?_⟩⟩
      rw [hended, hlog]

/-! ## What the setup decides -/

/-- What no step changes. -/
def fixed (h : UdsHub) : Option Catalog × Nat × Nat × Bool :=
  (h.catalog, h.p2Ms, h.p2ExtMs, h.consumer)

theorem OnlyWaiting.fixed (hw : OnlyWaiting h h') : h'.fixed = h.fixed := by
  obtain ⟨_, _, _, rfl⟩ := hw
  rfl

@[simp] theorem fixed_act (now : Nat) (a : HubAct) : (h.act now a).fixed = h.fixed := rfl

@[simp] theorem fixed_count (f : UdsCounters → UdsCounters) : (h.count f).fixed = h.fixed := rfl

@[simp] theorem fixed_finishInFlight : h.finishInFlight.fixed = h.fixed := rfl

theorem fixed_slideDeadline (now : Nat) : (h.slideDeadline now).fixed = h.fixed := by
  unfold slideDeadline
  split <;> rfl

theorem fixed_checkDeadline (now : Nat) (calls : List Call) :
    (h.checkDeadline now calls).fixed = h.fixed := by
  unfold checkDeadline
  dsimp only
  split
  · rfl
  · split
    · rfl
    · rw [(onlyWaiting_calls _ calls).fixed]
      split_ifs <;> rfl
  · split_ifs
    · rw [(onlyWaiting_calls _ calls).fixed]
      rfl
    · rfl

theorem fixed_sendGroup (c : Catalog) (now : Nat) (taken : Bool) (origin : InFlight) (gi : Nat) :
    (h.sendGroup c now taken origin gi).2.fixed = h.fixed := by
  unfold sendGroup
  split
  · rfl
  · split
    · rfl
    · cases taken <;> rfl

theorem fixed_issueNext (c : Catalog) (now : Nat) (taken : Bool) :
    (h.issueNext c now taken).fixed = h.fixed := by
  have hsend (h : UdsHub) (origin : InFlight) (gi : Nat) {result : SendResult} {h' : UdsHub}
      (heq : h.sendGroup c now taken origin gi = (result, h')) : h'.fixed = h.fixed := by
    have hfixed := fixed_sendGroup (h := h) c now taken origin gi
    rwa [heq] at hfixed
  unfold issueNext
  split_ifs
  · unfold issueRaw
    cases taken <;> rfl
  · split
    · unfold issueOndemand
      split
      · next heq =>
        have hsent := hsend _ _ _ heq
        exact hsent
      · next heq =>
        have hsent := hsend _ _ _ heq
        exact hsent
      · next heq =>
        have hsent := hsend _ _ _ heq
        exact hsent
    · split
      · rfl
      · unfold issuePolled
        split
        · next heq =>
          have hsent := hsend _ _ _ heq
          exact hsent
        · next heq =>
          have hsent := hsend _ _ _ heq
          exact hsent
        · next heq =>
          have hsent := hsend _ _ _ heq
          exact hsent

theorem fixed_loop (now : Nat) (receiving taken : Bool) (calls : List Call) :
    (h.loop now receiving taken calls).fixed = h.fixed := by
  unfold loop
  split
  · rfl
  · dsimp only
    have hslide : (if receiving then h.slideDeadline now else h).fixed = h.fixed := by
      split_ifs
      · exact fixed_slideDeadline now
      · rfl
    generalize (if receiving then h.slideDeadline now else h) = slid at hslide ⊢
    split_ifs
    · rw [fixed_issueNext, fixed_checkDeadline, hslide]
    · rw [fixed_checkDeadline, hslide]

theorem fixed_failInFlight (now : Nat) (outcome : Outcome) :
    (h.failInFlight now outcome).fixed = h.fixed := by
  unfold failInFlight
  split_ifs
  · dsimp only
    split_ifs <;> rfl
  · rfl

theorem fixed_suspendInFlight (now : Nat) (nrc : UInt8) :
    (h.suspendInFlight now nrc).fixed = h.fixed := by
  unfold suspendInFlight
  split_ifs <;> rfl

theorem fixed_handleNegative (now : Nat) (nrc : UInt8) :
    (h.handleNegative now nrc).fixed = h.fixed := by
  unfold handleNegative
  split
  · dsimp only
    split_ifs
    · exact fixed_failInFlight (h := { h with pendingStreak := h.pendingStreak + 1 }) now _
    · rfl
    · rfl
  · exact fixed_suspendInFlight now nrc
  · exact fixed_suspendInFlight now nrc
  · exact fixed_failInFlight now _
  · exact fixed_failInFlight now _

theorem fixed_acceptResponse (now : Nat) (resp : List UInt8) (uncovered : Bool) :
    (h.acceptResponse now resp uncovered).fixed = h.fixed := by
  unfold acceptResponse
  dsimp only [count]
  cases h.inFlight <;> rfl

theorem fixed_onMessage (now : Nat) (resp : List UInt8) :
    (h.onMessage now resp).fixed = h.fixed := by
  unfold onMessage
  split_ifs
  · rfl
  · split
    · rfl
    · rfl
    · exact fixed_handleNegative now _
    · exact fixed_acceptResponse now resp false
    · exact fixed_acceptResponse now resp true

theorem fixed_step (e : Event) : (h.step e).fixed = h.fixed := by
  cases e with
  | loop now receiving taken calls => exact fixed_loop now receiving taken calls
  | message now resp =>
    show (if h.consumer then h.onMessage now resp else h).fixed = h.fixed
    split_ifs
    · exact fixed_onMessage now resp
    · rfl
  | error now =>
    show (if h.consumer then h.onError now else h).fixed = h.fixed
    unfold onError
    split_ifs
    · rfl
    · exact fixed_failInFlight now _
    · rfl
  | call c => exact (onlyWaiting_call h c).fixed

/-! ## Runs -/

/-- The two sides agree, the log is paired, and a hub without a catalog has nothing in flight. -/
structure Sound (h : UdsHub) : Prop where
  agree : Agree h
  books : Books h.flight.deadline.isSome h.log
  closed : h.catalog = none → h.inFlight = .none

theorem Ended.books {outcome : Outcome} (he : Ended h h' now outcome)
    (hb : Books true h.log) : Books h'.flight.deadline.isSome h'.log := by
  obtain ⟨acts, hneutral, hflight⟩ := he
  have hlog : h'.log = h.log ++ acts ++ [(now, .ended outcome)] := congrArg Flight.log hflight
  rw [hflight, hlog]
  exact (hb.neutral hneutral).act now rfl

theorem Issued.books {taken : Bool} (hi : Issued h h' now taken)
    (hb : Books false h.log) : Books h'.flight.deadline.isSome h'.log := by
  rcases hi with ⟨acts, hneutral, hflight⟩ | ⟨-, origin, group, req, hflight⟩
  · have hlog : h'.log = h.log ++ acts := congrArg Flight.log hflight
    rw [hflight, hlog]
    exact hb.neutral hneutral
  · have hlog : h'.log = h.log ++ [(now, .offer origin group req true)] :=
      congrArg Flight.log hflight
    rw [hflight, hlog]
    exact hb.act now rfl

theorem Waits.books (hw : Waits h h' now) (hb : Books true h.log) :
    Books h'.flight.deadline.isSome h'.log := by
  have hlog : h'.log = h.log ++ [(now, .pending)] := congrArg Flight.log hw
  rw [hw, hlog]
  exact hb.act now rfl

theorem Ended.idle {outcome : Outcome} (he : Ended h h' now outcome) : h'.inFlight = .none := by
  obtain ⟨acts, -, hflight⟩ := he
  rw [← flight_deadline_eq_none, hflight]

/-- A request is in flight, so the log says so. -/
theorem Sound.busy (hs : Sound h) (hbusy : h.inFlight ≠ .none) : Books true h.log := by
  have hsome : h.flight.deadline.isSome = true := by
    rw [Option.isSome_iff_ne_none, Ne, flight_deadline_eq_none]
    exact hbusy
  rw [← hsome]
  exact hs.books

theorem sound_calls (hs : Sound h) (calls : List Call) : Sound (calls.foldl call h) := by
  obtain ⟨ondemand, rawPending, enabled, heq⟩ := onlyWaiting_calls h calls
  rw [heq]
  exact ⟨⟨hs.agree.slot, hs.agree.entry⟩, hs.books, hs.closed⟩

/-- What is left of a loop after the deadline has been looked at. -/
theorem sound_issue (hs : Sound h) {c : Catalog} (hc : h.catalog = some c) (now : Nat)
    (taken : Bool) :
    Sound (if h.inFlight = .none ∧ h.enabled then h.issueNext c now taken else h) := by
  split_ifs with hidle
  · obtain ⟨hagree, hissued⟩ := issueNext_spec hs.agree hidle.1 c now taken
    have hbooks := hs.books
    rw [flight_deadline_eq_none.mpr hidle.1] at hbooks
    refine ⟨hagree, hissued.books hbooks, ?_⟩
    intro hnone
    have hfixed := congrArg Prod.fst (fixed_issueNext (h := h) c now taken)
    exact absurd (hfixed.symm.trans hnone) (by rw [fixed, hc]; nofun)
  · exact hs

theorem sound_checkDeadline (hs : Sound h) (now : Nat) (calls : List Call) :
    Sound (h.checkDeadline now calls) := by
  have hspec := checkDeadline_spec hs.agree now calls
  split_ifs at hspec with hreached
  · obtain ⟨hagree, hended⟩ := hspec
    have hbusy : h.inFlight ≠ .none := by
      intro hidle
      rw [flight_deadline_eq_none.mpr hidle] at hreached
      cases hreached
    exact ⟨hagree, hended.books (hs.busy hbusy), fun _ => hended.idle⟩
  · rw [hspec]
    exact hs

theorem sound_slideDeadline (hs : Sound h) (now : Nat) : Sound (h.slideDeadline now) := by
  have hflight := flight_slideDeadline hs.agree now
  have hlog : (h.slideDeadline now).log = h.log := congrArg Flight.log hflight
  refine ⟨agree_slideDeadline hs.agree now, ?_, ?_⟩
  · rw [hflight, hlog, Option.isSome_map]
    exact hs.books
  · intro hnone
    have hfixed : (h.slideDeadline now).catalog = h.catalog :=
      congrArg Prod.fst (fixed_slideDeadline (h := h) now)
    rw [← flight_deadline_eq_none, hflight,
      flight_deadline_eq_none.mpr (hs.closed (hfixed.symm.trans hnone))]
    rfl

theorem sound_loop (hs : Sound h) (now : Nat) (receiving taken : Bool) (calls : List Call) :
    Sound (h.loop now receiving taken calls) := by
  unfold loop
  split
  · exact hs
  · next c hc =>
    dsimp only
    have hslid : Sound (if receiving then h.slideDeadline now else h) ∧
        (if receiving then h.slideDeadline now else h).catalog = some c := by
      split_ifs
      · exact ⟨sound_slideDeadline hs now,
          (congrArg Prod.fst (fixed_slideDeadline (h := h) now)).trans hc⟩
      · exact ⟨hs, hc⟩
    generalize (if receiving then h.slideDeadline now else h) = slid at hslid ⊢
    have hcatalog : (slid.checkDeadline now calls).catalog = some c :=
      (congrArg Prod.fst (fixed_checkDeadline (h := slid) now calls)).trans hslid.2
    exact sound_issue (sound_checkDeadline hslid.1 now calls) hcatalog now taken

theorem sound_onMessage (hs : Sound h) (now : Nat) (resp : List UInt8) :
    Sound (h.onMessage now resp) := by
  by_cases hu : Unanswered h resp
  · obtain ⟨f, heq⟩ := onMessage_unanswered hu now
    rw [heq]
    exact ⟨hs.agree.count f, hs.books, hs.closed⟩
  · obtain ⟨hagree, hbusy, ⟨-, hwaits⟩ | ⟨-, outcome, -, hended⟩⟩ :=
      onMessage_answered hs.agree hu now
    · refine ⟨hagree, hwaits.books (hs.busy hbusy), ?_⟩
      intro hnone
      have hfixed := congrArg Prod.fst (fixed_onMessage (h := h) now resp)
      exact absurd (hs.closed (hfixed.symm.trans hnone)) hbusy
    · exact ⟨hagree, hended.books (hs.busy hbusy), fun _ => hended.idle⟩

theorem sound_onError (hs : Sound h) (now : Nat) : Sound (h.onError now) := by
  unfold onError
  split_ifs with hidle
  · exact hs
  · obtain ⟨hagree, hended⟩ := failInFlight_spec hs.agree now .transportError
    exact ⟨hagree, hended.books (hs.busy hidle), fun _ => hended.idle⟩

theorem sound_step (hs : Sound h) (e : Event) : Sound (h.step e) := by
  cases e with
  | loop now receiving taken calls => exact sound_loop hs now receiving taken calls
  | message now resp =>
    show Sound (if h.consumer then h.onMessage now resp else h)
    split_ifs
    · exact sound_onMessage hs now resp
    · exact hs
  | error now =>
    show Sound (if h.consumer then h.onError now else h)
    split_ifs
    · exact sound_onError hs now
    · exact hs
  | call c => exact sound_calls hs [c]

/-- The setup sends nothing. -/
theorem setup_idle (cfg : HubConfig) (boot : Nat) :
    (setup cfg boot).sched.inFlight = none ∧ (setup cfg boot).inFlight = .none ∧
      (setup cfg boot).log = [] := by
  unfold setup
  split
  · exact ⟨rfl, rfl, rfl⟩
  · next c _ =>
    dsimp only
    split
    · exact ⟨rfl, rfl, rfl⟩
    · next ecu _ =>
      refine ⟨?_, rfl, rfl⟩
      exact (buildPollTable_fresh (millis boot) (polled c ecu cfg.bindings) [] _).1

theorem sound_setup (cfg : HubConfig) (boot : Nat) : Sound (setup cfg boot) := by
  obtain ⟨hsched, hidle, hlog⟩ := setup_idle cfg boot
  refine ⟨agree_idle hsched hidle, ?_, fun _ => hidle⟩
  rw [flight_deadline_eq_none.mpr hidle, hlog]
  exact books_nil

theorem sound_exec (hs : Sound h) (events : List Event) : Sound (exec step h events) := by
  induction events generalizing h with
  | nil => exact hs
  | cons e events ih => exact ih (sound_step hs e)

theorem sound_run (cfg : HubConfig) (boot : Nat) (events : List Event) :
    Sound (run cfg boot events) := sound_exec (sound_setup cfg boot) events

/-- The request in flight has timed out, and at most one other was sent after it. -/
def TimedOut (h h' : UdsHub) (now : Nat) (taken : Bool) : Prop :=
  ∃ acts rest, (∀ p ∈ acts, p.2.neutral = true) ∧
    h'.log = h.log ++ acts ++ [(now, .ended .timeout)] ++ rest ∧
    (h'.inFlight = .none ∧ (∀ p ∈ rest, p.2.neutral = true) ∨
      taken = true ∧ ∃ origin group req, rest = [(now, .offer origin group req true)])

theorem timedOut_loop (hs : Sound h)
    (hpast : h.flight.deadline.any (timeReached (millis now)) = true) (taken : Bool)
    (calls : List Call) : TimedOut h (h.loop now false taken calls) now taken := by
  have hbusy : h.inFlight ≠ .none := by
    intro hidle
    rw [flight_deadline_eq_none.mpr hidle] at hpast
    cases hpast
  have hspec := checkDeadline_spec hs.agree now calls
  rw [if_pos hpast] at hspec
  obtain ⟨hagree, hended⟩ := hspec
  have hidle := hended.idle
  obtain ⟨acts, hneutral, hflight⟩ := hended
  have hlog := congrArg Flight.log hflight
  cases hcatalog : h.catalog with
  | none => exact absurd (hs.closed hcatalog) hbusy
  | some c =>
    unfold loop
    rw [hcatalog]
    dsimp only
    rw [if_neg Bool.false_ne_true]
    split_ifs with hnext
    · obtain ⟨-, ⟨rest, hrest, hflight'⟩ | ⟨htaken, origin, group, req, hflight'⟩⟩ :=
        issueNext_spec hagree hidle c now taken
      · refine ⟨acts, rest, hneutral, ?_, .inl ⟨?_, hrest⟩⟩
        · exact (congrArg Flight.log hflight').trans (congrArg (· ++ rest) hlog)
        · rw [← flight_deadline_eq_none, hflight']
      · refine ⟨acts, [(now, .offer origin group req true)], hneutral, ?_, .inr ⟨htaken, ?_⟩⟩
        · exact (congrArg Flight.log hflight').trans (congrArg (· ++ _) hlog)
        · exact ⟨origin, group, req, rfl⟩
    · refine ⟨acts, [], hneutral, ?_, .inl ⟨hidle, nofun⟩⟩
      exact hlog.trans (List.append_nil _).symm

theorem in_flight_accounted (cfg : HubConfig) (boot : Nat) (events : List Event) :
    ((run cfg boot events).sched.inFlight =
      if (run cfg boot events).inFlight = .polled then some (run cfg boot events).inFlightSlot
      else none) ∧
    Paired (run cfg boot events).log ∧
    sentCount (run cfg boot events).log =
      endedCount (run cfg boot events).log +
        (if (run cfg boot events).inFlight = .none then 0 else 1) ∧
    (∀ now resp, Unanswered (run cfg boot events) resp →
      { (run cfg boot events).step (.message now resp) with
        counters := (run cfg boot events).counters } = run cfg boot events) ∧
    ∀ now taken calls, (run cfg boot events).flight.deadline.any (timeReached (millis now)) = true →
      TimedOut (run cfg boot events) ((run cfg boot events).step (.loop now false taken calls)) now
        taken := by
  have hs := sound_run cfg boot events
  generalize run cfg boot events = h at hs ⊢
  refine ⟨hs.agree.slot, hs.books.paired, ?_, ?_, ?_⟩
  · have hbalance := hs.books.balance
    by_cases hidle : h.inFlight = .none
    · rw [if_pos hidle]
      rw [flight_deadline_eq_none.mpr hidle] at hbalance
      exact hbalance
    · rw [if_neg hidle]
      exact (hs.busy hidle).balance
  · intro now resp hu
    show { (if h.consumer then h.onMessage now resp else h) with counters := h.counters } = h
    split_ifs
    · obtain ⟨f, heq⟩ := onMessage_unanswered hu now
      rw [heq]
      rfl
    · rfl
  · intro now taken calls hpast
    exact timedOut_loop hs hpast taken calls

/-! ## The next request in the loop of a timeout -/

/-- A hub that sends what an automation hands to it. -/
def rawConfig : HubConfig := { memory := some routineBlob, allowActiveServices := true }

/-- One raw request is in flight, and one more waits. -/
def rawEvents : List Event :=
  [.call (.raw [0x3E, 0x00]), .loop 0 false true [], .call (.raw [0x22, 0xF1, 0x90])]

set_option maxRecDepth 20000 in
theorem in_flight_past_deadline_sample :
    ¬ ∀ (cfg : HubConfig) (boot : Nat) (events : List Event) (now : Nat) (taken : Bool)
      (calls : List Call),
        (run cfg boot events).flight.deadline.any (timeReached (millis now)) = true →
          ((run cfg boot events).step (.loop now false taken calls)).inFlight = .none := by
  intro h
  have hidle := h rawConfig 0 rawEvents 200 true [] (by decide)
  have hraw : ((run rawConfig 0 rawEvents).step (.loop 200 false true [])).inFlight = .raw := by
    decide
  rw [hidle] at hraw
  cases hraw

end UdsHub

end EspCars.Uds
