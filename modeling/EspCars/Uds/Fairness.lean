import EspCars.Uds.SchedRun

/-!
# The poll scheduler is fair

What holds along every run of the calls of the scheduler that is not late by half of the counter: what
is handed out, how often a slot is served while another one waits, how long a failed slot is put off,
and that what a slot is said to be alternates.
-/

namespace EspCars.Uds

open EspCars.Lib

namespace SchedRun

/-- A call that comes less than half of the counter behind every due time. -/
def InTime (r : SchedRun) (c : Call) : Prop :=
  ∀ e ∈ r.sched.entries.zipIdx, e.1.suspended = false → r.timeOf c < r.due e.2 + 2 ^ 31

instance (r : SchedRun) (c : Call) : Decidable (r.InTime c) :=
  inferInstanceAs (Decidable (∀ e ∈ r.sched.entries.zipIdx, _))

/-- The slot is polled, and the time it is due at has come and is not set anew. -/
def Waits (slot due : Nat) (r : SchedRun) (c : Call) : Prop :=
  (∃ e, r.Polled slot e) ∧ r.due slot = due ∧ due ≤ r.timeOf c

/-- Nothing is in flight, the slot is polled and due, and no other such slot is more overdue. -/
structure Selects (r : SchedRun) (c : Call) (slot : Nat) : Prop where
  free : r.sched.inFlight = none
  due : ∃ e, r.Polled slot e ∧ r.due slot ≤ r.timeOf c
  first : ∀ other e, r.Polled other e → r.due other ≤ r.timeOf c →
    r.timeOf c - r.due other ≤ r.timeOf c - r.due slot

/-- What a slot is said to become along a run: unavailable, or (`false`) recovered. -/
def signalsOf (slot : Nat) (r : SchedRun) (calls : List Call) : List Bool :=
  ((observed signal step r calls).filter fun p => p.1 = slot).map Prod.snd

/-- What is promised of the calls of a run that starts in `r`. -/
structure Fair (r : SchedRun) (calls : List Call) : Prop where
  selects : ∀ before c after slot, calls = before ++ c :: after →
    (exec step r before).handedOut c = some slot → (exec step r before).Selects c slot
  suspended : ∀ before between c after slot e, calls = before ++ (between ++ c :: after) →
    (exec step r before).sched.entries[slot]? = some e → e.suspended = true →
    (exec step r (before ++ between)).handedOut c ≠ some slot
  served : ∀ before between after slot due other, calls = before ++ (between ++ after) →
    Admitted (Waits slot due) step (exec step r before) between → other ≠ slot →
    (∀ e, (exec step r (before ++ between)).sched.entries[other]? = some e → e.intervalMs ≠ 0) →
    (observed settled step (exec step r before) between).count other ≤ 1
  delayed : ∀ before c after slot e, calls = before ++ c :: after →
    (exec step r before).sched.entries[slot]? = some e →
    (exec step r before).verdict c = some (slot, true) →
    ∃ e' k, (exec step r (before ++ [c])).sched.entries[slot]? = some e' ∧
      k = (exec step r before).streak slot + 1 ∧ (exec step r (before ++ [c])).streak slot = k ∧
      e'.nextDueMs =
        msOf ((exec step r before).timeOf c + min 60000 (max e.intervalMs.toNat 1 * 2 ^ k))
  alternates : ∀ slot, List.IsChain (· ≠ ·) (false :: signalsOf slot r calls)

variable {r : SchedRun} {c : Call}

/-! ## Selection and suspension -/

variable {slot : Nat} {e : PollEntry}

theorem InTime.lt (h : r.InTime c) (he : r.Polled slot e) : r.timeOf c < r.due slot + 2 ^ 31 :=
  h (e, slot) (List.mem_zipIdx_iff_getElem?.mpr he.1) he.2

theorem selects_of_handedOut (hok : r.Ok) (htime : r.InTime c)
    (hout : r.handedOut c = some slot) : r.Selects c slot := by
  obtain ⟨hflight, e, hpolled, hcome, hmost⟩ := handedOut_spec hok hout
  refine ⟨hflight, ⟨e, hpolled, hcome⟩, fun other e' hpolled' hcome' => ?_⟩
  have hle := hmost other e' hpolled' hcome' (htime.lt hpolled')
  omega

theorem suspended_exec (hentry : r.sched.entries[slot]? = some e)
    (hsuspended : e.suspended = true) (calls : List Call) :
    ∃ e', (exec step r calls).sched.entries[slot]? = some e' ∧ e'.suspended = true := by
  induction calls generalizing r e with
  | nil => exact ⟨e, hentry, hsuspended⟩
  | cons c calls ih =>
    obtain ⟨e', hentry', hcase⟩ := entry_step (c := c) hentry
    apply ih hentry'
    rcases hcase with ⟨failed, -, rfl, -⟩ | ⟨-, rfl | rfl, -⟩
    · rw [PollEntry.judged_suspended, hsuspended]
    · exact hsuspended
    · rfl

theorem handedOut_ne_of_suspended (hok : r.Ok)
    (hentry : r.sched.entries[slot]? = some e) (hsuspended : e.suspended = true) :
    r.handedOut c ≠ some slot := by
  intro hout
  obtain ⟨-, e', hpolled, -⟩ := handedOut_spec hok hout
  obtain rfl : e' = e := Option.some.inj (hpolled.1.symm.trans hentry)
  rw [hpolled.2] at hsuspended
  cases hsuspended

/-! ## Service while a slot waits -/

theorem verdict_lt {failed : Bool} (h : r.verdict c = some (slot, failed)) :
    ∃ e, r.sched.entries[slot]? = some e := by
  have hmoves := GroupScheduler.moves_call r.sched (msOf (r.timeOf c)) c.2
  generalize r.sched.call (msOf (r.timeOf c)) c.2 = s' at hmoves
  cases hmoves with
  | quiet deadlineMs hop hsilent => cases hsilent.verdict.symm.trans h
  | cancelled hop hsilent => cases hsilent.verdict.symm.trans h
  | handedOut slot' deadlineMs hflight hbest hout hverdict hadded hsignal =>
    cases hverdict.symm.trans h
  | added groupIndex intervalMs hinterval hadded hverdict hout hsignal =>
    cases hverdict.symm.trans h
  | judged slot' e failed' hentry hverdict hadded hout hsignal =>
    cases hverdict.symm.trans h
    exact ⟨e, hentry⟩
  | suspended slot' e hentry hsilent => cases hsilent.verdict.symm.trans h

/-- A slot gets in flight by being handed out, and is settled by a verdict. -/
theorem inFlight_step (h : (r.step c).sched.inFlight = some slot) :
    (r.sched.inFlight = some slot ∧ ∀ failed, r.verdict c ≠ some (slot, failed)) ∨
      r.handedOut c = some slot := by
  have hmoves := GroupScheduler.moves_call r.sched (msOf (r.timeOf c)) c.2
  simp only [step] at h
  generalize r.sched.call (msOf (r.timeOf c)) c.2 = s' at hmoves h
  cases hmoves with
  | quiet deadlineMs hop hsilent =>
    have hverdict : r.verdict c = none := hsilent.verdict
    exact .inl ⟨h, by simp [hverdict]⟩
  | cancelled hop hsilent => cases h
  | handedOut slot' deadlineMs hflight hbest hout hverdict hadded hsignal =>
    exact .inr (hout.trans h)
  | added groupIndex intervalMs hinterval hadded hverdict hout hsignal =>
    replace hverdict : r.verdict c = none := hverdict
    exact .inl ⟨h, by simp [hverdict]⟩
  | judged slot' e failed hentry hverdict hadded hout hsignal =>
    replace hverdict : r.verdict c = some (slot', failed) := hverdict
    dsimp only at h
    rw [GroupScheduler.inFlight_release] at h
    split_ifs at h with hsame
    refine .inl ⟨h, fun failed' hjudged => hsame ?_⟩
    obtain ⟨rfl, -⟩ := Prod.mk.inj (Option.some.inj (hverdict.symm.trans hjudged))
    exact h
  | suspended slot' e hentry hsilent =>
    have hverdict : r.verdict c = none := hsilent.verdict
    dsimp only at h
    rw [GroupScheduler.inFlight_release] at h
    split_ifs at h
    exact .inl ⟨h, by simp [hverdict]⟩

theorem settled_eq_some_iff : r.settled c = some slot ↔
      r.sched.inFlight = some slot ∧ ∃ failed, r.verdict c = some (slot, failed) := by
  simp [settled, Option.filter_eq_some_iff, and_comm]

/-- The slot is not in flight, and due behind the one that waits. -/
structure Behind (due other : Nat) (r : SchedRun) : Prop where
  entry : ∃ e, r.sched.entries[other]? = some e ∧ e.intervalMs ≠ 0
  later : due < r.due other
  idle : r.sched.inFlight ≠ some other

theorem delay_pos (h : e.intervalMs ≠ 0) (failed : Bool) : 0 < (e.delay failed).toNat := by
  cases failed with
  | false => exact Nat.pos_of_ne_zero fun h' => h (UInt32.toNat_inj.mp h')
  | true => exact e.nextBackoff_bounds.1

section Waiting

variable {slot due other : Nat} (hok : r.Ok) (htime : r.InTime c) (hwait : Waits slot due r c)

include hok htime hwait in
theorem not_handedOut_behind (hbehind : due < r.due other) : r.handedOut c ≠ some other := by
  intro hout
  obtain ⟨⟨e, hpolled⟩, hdue, hcome⟩ := hwait
  obtain ⟨-, -, -, -, hmost⟩ := handedOut_spec hok hout
  have hle := hmost slot e hpolled (by omega) (htime.lt hpolled)
  omega

include hok htime hwait in
theorem Behind.step (h : Behind due other r) : Behind due other (r.step c) := by
  obtain ⟨e, hentry, hinterval⟩ := h.entry
  obtain ⟨e', hentry', hcase⟩ := entry_step (c := c) hentry
  refine ⟨⟨e', hentry', ?_⟩, ?_, ?_⟩
  · rcases hcase with ⟨failed, -, rfl, -⟩ | ⟨-, rfl | rfl, -⟩
    · rwa [PollEntry.judged_intervalMs]
    · exact hinterval
    · exact hinterval
  · rcases hcase with ⟨failed, -, -, hdue, -⟩ | ⟨-, -, hdue, -⟩
    · have hpos := delay_pos hinterval failed
      have hcome := hwait.2.2
      omega
    · rw [hdue]
      exact h.later
  · intro hflight
    rcases inFlight_step hflight with ⟨hflight, -⟩ | hout
    · exact h.idle hflight
    · exact not_handedOut_behind hok htime hwait h.later hout

include hwait in
/-- A slot that has been served is due behind the one that waits. -/
theorem behind_of_settled (hsettled : r.settled c = some other)
    (hinterval : ∀ e, r.sched.entries[other]? = some e → e.intervalMs ≠ 0) :
    Behind due other (r.step c) := by
  obtain ⟨hflight, failed, hverdict⟩ := settled_eq_some_iff.mp hsettled
  obtain ⟨e, hentry⟩ := verdict_lt hverdict
  obtain ⟨e', hentry', hcase⟩ := entry_step (c := c) hentry
  rcases hcase with ⟨failed', hverdict', rfl, hdue, -⟩ | ⟨hnone, -⟩
  · refine ⟨⟨_, hentry', ?_⟩, ?_, ?_⟩
    · rw [PollEntry.judged_intervalMs]
      exact hinterval e hentry
    · have hpos := delay_pos (hinterval e hentry) failed'
      have hcome := hwait.2.2
      omega
    · intro hflight'
      rcases inFlight_step hflight' with ⟨-, hnone⟩ | hout
      · exact hnone failed hverdict
      · have hmoves := GroupScheduler.moves_call r.sched (msOf (r.timeOf c)) c.2
        generalize r.sched.call (msOf (r.timeOf c)) c.2 = s' at hmoves
        cases hmoves with
        | quiet _ _ hsilent => cases hsilent.handedOut.symm.trans hout
        | cancelled _ hsilent => cases hsilent.handedOut.symm.trans hout
        | handedOut _ _ hfree => cases hfree.symm.trans hflight
        | added _ _ _ _ _ hnone => cases hnone.symm.trans hout
        | judged _ _ _ _ _ _ hnone => cases hnone.symm.trans hout
        | suspended _ _ _ hsilent => cases hsilent.handedOut.symm.trans hout
  · exact absurd hverdict (hnone failed)

end Waiting

theorem count_settled_of_behind {due other : Nat} {calls : List Call} (hok : r.Ok)
    (htime : Admitted InTime step r calls) (hwait : Admitted (Waits slot due) step r calls)
    (h : Behind due other r) : (observed settled step r calls).count other = 0 := by
  induction calls generalizing r with
  | nil => rfl
  | cons c calls ih =>
    have hne : r.settled c ≠ some other := fun hsettled =>
      h.idle (settled_eq_some_iff.mp hsettled).1
    have hcount : (r.settled c).toList.count other = 0 := by
      apply List.count_eq_zero_of_not_mem
      simpa using hne
    rw [observed_cons, List.count_append, hcount,
      ih (hok.step c) htime.2 hwait.2 (h.step hok htime.1 hwait.1)]

/-- While a slot waits, every other one is served once at most. -/
theorem count_settled_le {due other : Nat} {calls : List Call} (hok : r.Ok)
    (htime : Admitted InTime step r calls) (hwait : Admitted (Waits slot due) step r calls)
    (hinterval : ∀ e, (exec step r calls).sched.entries[other]? = some e → e.intervalMs ≠ 0) :
    (observed settled step r calls).count other ≤ 1 := by
  induction calls generalizing r with
  | nil => exact Nat.zero_le 1
  | cons c calls ih =>
    rw [observed_cons, List.count_append]
    by_cases hsettled : r.settled c = some other
    · have hnonzero (e : PollEntry) (hentry : r.sched.entries[other]? = some e) :
          e.intervalMs ≠ 0 := by
        obtain ⟨e', hentry', heq⟩ := intervalMs_exec hentry (c :: calls)
        rw [← heq]
        exact hinterval e' hentry'
      have hbehind := behind_of_settled hwait.1 hsettled hnonzero
      rw [count_settled_of_behind (hok.step c) htime.2 hwait.2 hbehind, hsettled]
      simp
    · have hcount : (r.settled c).toList.count other = 0 := by
        apply List.count_eq_zero_of_not_mem
        simpa using hsettled
      rw [hcount, Nat.zero_add]
      exact ih (hok.step c) htime.2 hwait.2 hinterval

/-! ## Signals -/

/-- What the slot was last said to be. -/
def saidUnavailable (r : SchedRun) (slot : Nat) : Bool :=
  ((r.sched.entries[slot]?).map PollEntry.unavailable).getD false

theorem unavailable_failed (e : PollEntry) (now : UInt32) (maxFailures : Nat) :
    (e.judged true now maxFailures).unavailable = (e.unavailable || e.crosses maxFailures) := rfl

theorem unavailable_succeeded (e : PollEntry) (now : UInt32) (maxFailures : Nat) :
    (e.judged false now maxFailures).unavailable = false := rfl

theorem crosses_available {maxFailures : Nat} (h : e.crosses maxFailures = true) :
    e.unavailable = false := by
  simp only [PollEntry.crosses, Bool.decide_and, Bool.and_eq_true, decide_eq_true_eq] at h
  simpa using h.1

/-- A signal says that the slot changes, and without one it does not. -/
theorem said_step (slot : Nat) :
    (∃ b, r.signal c = some (slot, b) ∧ r.saidUnavailable slot = !b ∧
        (r.step c).saidUnavailable slot = b) ∨
      ((∀ b, r.signal c ≠ some (slot, b)) ∧
        (r.step c).saidUnavailable slot = r.saidUnavailable slot) := by
  have hmoves := GroupScheduler.moves_call r.sched (msOf (r.timeOf c)) c.2
  simp only [saidUnavailable, step]
  generalize r.sched.call (msOf (r.timeOf c)) c.2 = s' at hmoves
  cases hmoves with
  | quiet deadlineMs hop hsilent =>
    have hsignal : r.signal c = none := hsilent.signal
    exact .inr ⟨by simp [hsignal], rfl⟩
  | cancelled hop hsilent =>
    have hsignal : r.signal c = none := hsilent.signal
    exact .inr ⟨by simp [hsignal], rfl⟩
  | handedOut slot' deadlineMs hflight hbest hout hverdict hadded hsignal =>
    replace hsignal : r.signal c = none := hsignal
    exact .inr ⟨by simp [hsignal], rfl⟩
  | added groupIndex intervalMs hinterval hadded hverdict hout hsignal =>
    replace hsignal : r.signal c = none := hsignal
    refine .inr ⟨by simp [hsignal], ?_⟩
    dsimp only
    by_cases hlt : slot < r.sched.entries.length
    · rw [List.getElem?_append_left hlt]
    · rw [List.getElem?_eq_none (Nat.not_lt.mp hlt),
        List.getElem?_append_right (Nat.not_lt.mp hlt), List.getElem?_singleton]
      split <;> rfl
  | suspended slot' e hentry hsilent =>
    have hsignal : r.signal c = none := hsilent.signal
    refine .inr ⟨by simp [hsignal], ?_⟩
    dsimp only
    by_cases heq : slot' = slot
    · subst heq
      rw [List.getElem?_set_self (List.getElem?_eq_some_iff.mp hentry).1, hentry]
      rfl
    · rw [List.getElem?_set_ne heq]
  | judged slot' e failed hentry hverdict hadded hout hsignal =>
    replace hsignal : r.signal c = if (if failed then e.crosses r.sched.maxFailures
        else e.unavailable) then some (slot', failed) else none := hsignal
    dsimp only
    by_cases heq : slot' = slot
    · subst heq
      rw [List.getElem?_set_self (List.getElem?_eq_some_iff.mp hentry).1, hentry, hsignal]
      simp only [Option.map_some, Option.getD_some]
      cases failed with
      | false =>
        rw [unavailable_succeeded]
        cases hbefore : e.unavailable with
        | false => exact .inr ⟨by simp, rfl⟩
        | true => exact .inl ⟨false, by simp⟩
      | true =>
        rw [unavailable_failed]
        cases hcrosses : e.crosses r.sched.maxFailures with
        | false => exact .inr ⟨by simp, by simp⟩
        | true => exact .inl ⟨true, by simp [crosses_available hcrosses]⟩
    · refine .inr ⟨fun b => ?_, by rw [List.getElem?_set_ne heq]⟩
      simp [hsignal, heq]

theorem signalsOf_cons (slot : Nat) (c : Call) (calls : List Call) :
    signalsOf slot r (c :: calls) =
      (((r.signal c).toList.filter fun p => p.1 = slot).map Prod.snd) ++
        signalsOf slot (r.step c) calls := by
  rw [signalsOf, observed_cons, List.filter_append, List.map_append]
  rfl

/-- The signals of a slot alternate, from what it was last said to be on. -/
theorem signals_alternate (slot : Nat) (calls : List Call) :
    List.IsChain (· ≠ ·) (r.saidUnavailable slot :: signalsOf slot r calls) := by
  induction calls generalizing r with
  | nil => exact List.isChain_singleton _
  | cons c calls ih =>
    rw [signalsOf_cons]
    rcases said_step (r := r) (c := c) slot with ⟨b, hsignal, hbefore, hafter⟩ | ⟨hnone, hkept⟩
    · have hrest := ih (r := r.step c)
      rw [hafter] at hrest
      rw [hsignal, hbefore]
      simpa using hrest
    · have hsilent : ((r.signal c).toList.filter fun p => p.1 = slot) = [] := by
        apply List.filter_eq_nil_iff.mpr
        rintro ⟨slot', b⟩ hmem
        rw [Option.mem_toList] at hmem
        simp only [decide_eq_true_eq]
        rintro rfl
        exact hnone b hmem
      have hrest := ih (r := r.step c)
      rw [hkept] at hrest
      rw [hsilent]
      exact hrest

/-! ## Every run -/

theorem delayed_step (hok : r.Ok)
    (hentry : r.sched.entries[slot]? = some e) (hverdict : r.verdict c = some (slot, true)) :
    ∃ e' k, (r.step c).sched.entries[slot]? = some e' ∧ k = r.streak slot + 1 ∧
      (r.step c).streak slot = k ∧
      e'.nextDueMs = msOf (r.timeOf c + min 60000 (max e.intervalMs.toNat 1 * 2 ^ k)) := by
  obtain ⟨e', hentry', hcase⟩ := entry_step (c := c) hentry
  rcases hcase with ⟨failed, hverdict', rfl, hdue, hstreak⟩ | ⟨hnone, -⟩
  · obtain ⟨-, rfl⟩ := Prod.mk.inj (Option.some.inj (hverdict.symm.trans hverdict'))
    refine ⟨_, r.streak slot + 1, hentry', rfl, hstreak, ?_⟩
    have hdelay := (hok slot e hentry).toNat_delay true
    rw [PollEntry.judged_nextDueMs, msOf_add, hdelay, if_pos rfl]
  · exact absurd hverdict (hnone true)

theorem fair_of_inTime (capacity maxFailures : Nat) (calls : List Call)
    (htime : Admitted InTime step (start capacity maxFailures) calls) :
    Fair (start capacity maxFailures) calls := by
  have hok (before : List Call) : (exec step (start capacity maxFailures) before).Ok :=
    ok_exec (ok_start capacity maxFailures) before
  constructor
  · rintro before c after slot rfl hout
    exact selects_of_handedOut (hok before) (Admitted.append_iff.mp htime).2.1 hout
  · rintro before between c after slot e rfl hentry hsuspended
    obtain ⟨e', hentry', hsuspended'⟩ := suspended_exec hentry hsuspended between
    rw [← exec_append] at hentry'
    exact handedOut_ne_of_suspended (hok _) hentry' hsuspended'
  · rintro before between after slot due other rfl hwait hne hinterval
    have htime' := (Admitted.append_iff.mp (Admitted.append_iff.mp htime).2).1
    rw [exec_append] at hinterval
    exact count_settled_le (hok before) htime' hwait hinterval
  · rintro before c after slot e rfl hentry hverdict
    rw [exec_append]
    exact delayed_step (hok before) hentry hverdict
  · intro slot
    exact signals_alternate (r := start capacity maxFailures) slot calls

/-- Two slots over the wrap of the counter: the first one is silent and is put off, the second one
answers. -/
theorem fair_sample :
    Fair (start 2 1)
      [(2 ^ 32 - 256, .add 10 1000), (0, .add 20 400), (0, .next 150), (160, .poll), (0, .next 150),
        (40, .onSuccess 1), (500, .next 150), (0, .cancelInFlight), (2000, .next 150)] :=
  fair_of_inTime 2 1 _ (by decide)

end SchedRun

end EspCars.Uds
