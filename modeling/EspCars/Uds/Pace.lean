import EspCars.Uds.SchedRun

/-!
# How often a group is asked

Beside a run of the poll scheduler, the requests that went out: what `next` hands out, without what
`cancel_in_flight` takes back. Two requests for one slot are its interval apart as long as the slot
does not fail with an interval above the ceiling of the backoff, behind which it would be asked again
after the ceiling.
-/

namespace EspCars.Uds

open EspCars.Lib SchedRun GroupScheduler

/-- A run, and the slot and the time of every request that went out. -/
structure Ledger where
  run : SchedRun
  asked : List (Nat × Nat) := []

/-- The times of the requests for one slot. -/
def timesOf (slot : Nat) (asked : List (Nat × Nat)) : List Nat :=
  (asked.filter fun a => a.1 = slot).map Prod.snd

namespace Ledger

/-- A scheduler behind `init`. -/
def start (capacity maxFailures : Nat) : Ledger where
  run := SchedRun.start capacity maxFailures

variable (l : Ledger) (c : SchedRun.Call) (slot : Nat)

/-- The requests that are not in flight. -/
def answered : List (Nat × Nat) :=
  if l.run.sched.inFlight.isSome then l.asked.dropLast else l.asked

def askedAfter : List (Nat × Nat) :=
  match l.run.handedOut c with
  | some slot => l.asked ++ [(slot, l.run.timeOf c)]
  | none => if c.2 = .cancelInFlight then l.answered else l.asked

/-- The ledger behind a call. -/
def step : Ledger where
  run := l.run.step c
  asked := l.askedAfter c

/-- Requests for the slot are its interval apart. -/
def Spaced : Prop :=
  ∀ e, l.run.sched.entries[slot]? = some e →
    List.IsChain (fun t t' => t + e.intervalMs.toNat ≤ t') (timesOf slot l.asked)

/-- The slot does not fail with an interval above the ceiling of the backoff. -/
def Spared (slot : Nat) (l : Ledger) (c : SchedRun.Call) : Prop :=
  l.run.verdict c = some (slot, true) →
    ∀ e ∈ l.run.sched.entries[slot]?, e.intervalMs ≤ backoffCapMs

instance (l : Ledger) (c : SchedRun.Call) : Decidable (Spared slot l c) :=
  inferInstanceAs (Decidable (_ → _))

/-- Whatever the scheduler is asked to do, requests for a slot of the interval are that far apart. -/
def PacedAt (intervalMs : UInt32) : Prop :=
  ∀ (capacity maxFailures : Nat) (calls : List SchedRun.Call) (slot : Nat) (e : PollEntry),
    (exec step (start capacity maxFailures) calls).run.sched.entries[slot]? = some e →
    e.intervalMs = intervalMs → (exec step (start capacity maxFailures) calls).Spaced slot

variable {l c slot}

/-! ## The requests of one slot -/

@[simp] theorem timesOf_append (asked more : List (Nat × Nat)) :
    timesOf slot (asked ++ more) = timesOf slot asked ++ timesOf slot more := by
  simp [timesOf]

theorem mem_timesOf {asked : List (Nat × Nat)} {t : Nat} :
    t ∈ timesOf slot asked ↔ (slot, t) ∈ asked := by
  simp [timesOf]

theorem answered_initial : l.answered <+: l.asked := by
  unfold answered
  split
  · exact l.asked.dropLast_prefix
  · exact List.prefix_rfl

theorem timesOf_initial {asked more : List (Nat × Nat)} (h : asked <+: more) :
    timesOf slot asked <+: timesOf slot more :=
  (h.filter _).map _

/-- The request in flight is the last one that went out. -/
def Flying (l : Ledger) : Prop :=
  ∀ slot, l.run.sched.inFlight = some slot → ∃ before t, l.asked = before ++ [(slot, t)]

theorem asked_of_inFlight (h : l.Flying) {slot' : Nat} (hflight : l.run.sched.inFlight = some slot') :
    ∃ t, l.asked = l.answered ++ [(slot', t)] := by
  obtain ⟨before, t, hasked⟩ := h slot' hflight
  refine ⟨t, ?_⟩
  rw [answered, hflight, hasked, Option.isSome_some, if_pos rfl, List.dropLast_concat]

theorem answered_of_free (h : l.run.sched.inFlight = none) : l.answered = l.asked := by
  rw [answered, h]
  rfl

theorem asked_handedOut {slot' : Nat} (h : l.run.handedOut c = some slot') :
    (l.step c).asked = l.asked ++ [(slot', l.run.timeOf c)] := by
  simp [step, askedAfter, h]

theorem asked_cancelled (h : c.2 = .cancelInFlight) : (l.step c).asked = l.answered := by
  have hout : l.run.handedOut c = none := by
    simp [SchedRun.handedOut, GroupScheduler.handedOut, h]
  simp [step, askedAfter, hout, h]

theorem asked_kept (hout : l.run.handedOut c = none) (h : c.2 ≠ .cancelInFlight) :
    (l.step c).asked = l.asked := by
  simp [step, askedAfter, hout, h]

/-- What a call does to the requests that went out. -/
theorem asked_step :
    (∃ slot', l.run.handedOut c = some slot' ∧ l.run.sched.inFlight = none ∧
        (l.step c).run.sched.inFlight = some slot' ∧
        (l.step c).asked = l.asked ++ [(slot', l.run.timeOf c)]) ∨
      ((l.step c).run.sched.inFlight = none ∧ (l.step c).asked = l.answered) ∨
      ((l.step c).run.sched.inFlight = l.run.sched.inFlight ∧ (l.step c).asked = l.asked) ∨
      ∃ slot', l.run.sched.inFlight = some slot' ∧ (l.step c).run.sched.inFlight = none ∧
        (l.step c).asked = l.asked ∧ ((∃ failed, l.run.verdict c = some (slot', failed)) ∨
          ∀ e, ¬(l.step c).run.Polled slot' e) := by
  by_cases hcancel : c.2 = .cancelInFlight
  · refine .inr (.inl ⟨?_, asked_cancelled hcancel⟩)
    simp [step, SchedRun.step, call, hcancel, cancelInFlight]
  have hmoves := moves_call l.run.sched (msOf (l.run.timeOf c)) c.2
  have hsched : (l.step c).run.sched = l.run.sched.call (msOf (l.run.timeOf c)) c.2 := rfl
  simp only [SchedRun.Polled, hsched]
  generalize l.run.sched.call (msOf (l.run.timeOf c)) c.2 = s' at hmoves
  cases hmoves with
  | quiet deadlineMs hop hsilent =>
    exact .inr (.inr (.inl ⟨rfl, asked_kept hsilent.handedOut hcancel⟩))
  | cancelled hop hsilent => exact absurd hop hcancel
  | handedOut slot' deadlineMs hflight hbest hout hverdict hadded hsignal =>
    exact .inl ⟨slot', hout, hflight, rfl, asked_handedOut hout⟩
  | added groupIndex intervalMs hinterval hadded hverdict hout hsignal =>
    exact .inr (.inr (.inl ⟨rfl, asked_kept hout hcancel⟩))
  | judged slot' e failed hentry hverdict hadded hout hsignal =>
    simp only [inFlight_release]
    split_ifs with hflight
    · exact .inr (.inr (.inr ⟨slot', hflight, rfl, asked_kept hout hcancel, .inl ⟨failed, hverdict⟩⟩))
    · exact .inr (.inr (.inl ⟨rfl, asked_kept hout hcancel⟩))
  | suspended slot' e hentry hsilent =>
    have hlt : slot' < l.run.sched.entries.length := (List.getElem?_eq_some_iff.mp hentry).1
    simp only [inFlight_release]
    split_ifs with hflight
    · refine .inr (.inr (.inr ⟨slot', hflight, rfl, asked_kept hsilent.handedOut hcancel, .inr ?_⟩))
      rw [List.getElem?_set_self hlt]
      rintro e' ⟨heq, hpolled⟩
      cases heq
      cases hpolled
    · exact .inr (.inr (.inl ⟨rfl, asked_kept hsilent.handedOut hcancel⟩))

theorem Flying.step (h : l.Flying) (c : SchedRun.Call) : (l.step c).Flying := by
  intro slot hflight'
  rcases asked_step (l := l) (c := c) with
    ⟨slot', -, -, hflight, hasked⟩ | ⟨hflight, -⟩ | ⟨hflight, hasked⟩ | ⟨-, -, hflight, -⟩
  · rw [hflight] at hflight'
    cases hflight'
    exact ⟨_, _, hasked⟩
  · cases hflight.symm.trans hflight'
  · rw [hasked]
    exact h slot (hflight.symm.trans hflight')
  · cases hflight.symm.trans hflight'

/-! ## The invariant -/

/-- The requests for the slot are its interval apart, and behind those that are answered the slot is
not due before that. -/
structure Paced (slot : Nat) (l : Ledger) : Prop where
  ok : l.run.Ok
  flying : l.Flying
  past : ∀ a ∈ l.asked, a.1 < l.run.sched.entries.length ∧ a.2 ≤ l.run.now
  spaced : l.Spaced slot
  settled : ∀ e, l.run.Polled slot e → ∀ t ∈ timesOf slot l.answered,
    t + e.intervalMs.toNat ≤ l.run.due slot

theorem paced_start (capacity maxFailures : Nat) : (start capacity maxFailures).Paced slot where
  ok := ok_start capacity maxFailures
  flying := by simp [Flying, start, SchedRun.start, init]
  past := by simp [start]
  spaced := by simp [Spaced, start, timesOf]
  settled := by simp [start, timesOf, answered]

variable {e : PollEntry} {calls : List SchedRun.Call}

/-- A delay of a slot that is spared is its interval at least. -/
theorem interval_le_delay (hok : l.run.Ok) (hspared : Spared slot l c)
    (hentry : l.run.sched.entries[slot]? = some e) {failed : Bool}
    (hverdict : l.run.verdict c = some (slot, failed)) :
    e.intervalMs.toNat ≤ (e.delay failed).toNat := by
  rw [(hok slot e hentry).toNat_delay]
  cases failed with
  | false => exact Nat.le_refl _
  | true =>
    have hcap : e.intervalMs.toNat ≤ 60000 :=
      UInt32.le_iff_toNat_le.mp (hspared hverdict e (Option.mem_def.mpr hentry))
    have hpow : 1 ≤ 2 ^ (l.run.streak slot + 1) := Nat.one_le_two_pow
    have hmul := Nat.le_mul_of_pos_right (max e.intervalMs.toNat 1) hpow
    rw [if_pos rfl]
    omega

/-- A request that is answered behind a call went out before it, and was answered then unless the
call judges its slot or suspends it. -/
theorem answered_step (hflying : l.Flying) {t : Nat} (ht : t ∈ timesOf slot (l.step c).answered) :
    t ∈ timesOf slot l.asked ∧ (t ∈ timesOf slot l.answered ∨
      (∃ failed, l.run.verdict c = some (slot, failed)) ∨ ∀ e, ¬(l.step c).run.Polled slot e) := by
  have hmem {asked : List (Nat × Nat)} (h : asked <+: l.asked) (ht : t ∈ timesOf slot asked) :
      t ∈ timesOf slot l.asked := (timesOf_initial h).subset ht
  rcases asked_step (l := l) (c := c) with
    ⟨slot', hout, hfree, hflight, hasked⟩ | ⟨hflight, hasked⟩ | ⟨hflight, hasked⟩ |
      ⟨slot', hflight, hfree, hasked, hend⟩
  · have hanswered : (l.step c).answered = l.answered := by
      rw [answered, hflight, hasked, answered_of_free hfree, Option.isSome_some, if_pos rfl,
        List.dropLast_concat]
    rw [hanswered] at ht
    exact ⟨hmem answered_initial ht, .inl ht⟩
  · rw [answered_of_free hflight, hasked] at ht
    exact ⟨hmem answered_initial ht, .inl ht⟩
  · have hanswered : (l.step c).answered = l.answered := by rw [answered, hflight, hasked, answered]
    rw [hanswered] at ht
    exact ⟨hmem answered_initial ht, .inl ht⟩
  · rw [answered_of_free hfree, hasked] at ht
    refine ⟨ht, ?_⟩
    obtain ⟨t', hasked'⟩ := asked_of_inFlight hflying hflight
    rw [hasked', mem_timesOf, List.mem_append, List.mem_singleton] at ht
    rcases ht with ht | ht
    · exact .inl (mem_timesOf.mpr ht)
    · obtain ⟨rfl, -⟩ := Prod.mk.inj ht
      exact .inr hend

theorem length_le_step : l.run.sched.entries.length ≤ (l.step c).run.sched.entries.length := by
  cases hlength : l.run.sched.entries.length with
  | zero => exact Nat.zero_le _
  | succ n =>
    have hentry := List.getElem?_eq_getElem (l := l.run.sched.entries) (i := n) (by omega)
    obtain ⟨e', hentry', -⟩ := entry_step (c := c) hentry
    exact (List.getElem?_eq_some_iff.mp hentry').1

/-- A slot that is not there was never asked. -/
theorem Paced.timesOf_eq_nil (h : l.Paced slot) (hentry : l.run.sched.entries[slot]? = none) :
    timesOf slot l.asked = [] := by
  apply List.eq_nil_iff_forall_not_mem.mpr
  intro t ht
  have hlt := (h.past _ (mem_timesOf.mp ht)).1
  have hle := List.getElem?_eq_none_iff.mp hentry
  omega

theorem Paced.spaced_asked (h : l.Paced slot) {e' : PollEntry}
    (hentry' : (l.step c).run.sched.entries[slot]? = some e') :
    List.IsChain (fun t t' => t + e'.intervalMs.toNat ≤ t') (timesOf slot l.asked) := by
  cases hentry : l.run.sched.entries[slot]? with
  | none =>
    rw [h.timesOf_eq_nil hentry]
    exact List.isChain_nil
  | some e =>
    rw [intervalMs_step hentry hentry']
    exact h.spaced e hentry

theorem Paced.step (h : l.Paced slot) (hspared : Spared slot l c) : (l.step c).Paced slot := by
  have hnow : l.run.now ≤ l.run.timeOf c := Nat.le_add_right _ _
  refine ⟨h.ok.step c, h.flying.step c, ?_, ?_, ?_⟩
  · have hpast (a : Nat × Nat) (ha : a ∈ l.asked) :
        a.1 < (l.step c).run.sched.entries.length ∧ a.2 ≤ (l.step c).run.now := by
      obtain ⟨hlt, hle⟩ := h.past a ha
      exact ⟨hlt.trans_le length_le_step, hle.trans hnow⟩
    rcases asked_step (l := l) (c := c) with
      ⟨slot', hout, -, -, hasked⟩ | ⟨-, hasked⟩ | ⟨-, hasked⟩ | ⟨-, -, -, hasked, -⟩
    · rw [hasked]
      intro a ha
      rcases List.mem_append.mp ha with ha | ha
      · exact hpast a ha
      · obtain rfl := List.mem_singleton.mp ha
        obtain ⟨-, e, hpolled, -⟩ := handedOut_spec h.ok hout
        have hlt := (List.getElem?_eq_some_iff.mp hpolled.1).1
        exact ⟨hlt.trans_le length_le_step, Nat.le_refl _⟩
    · rw [hasked]
      exact fun a ha => hpast a (answered_initial.subset ha)
    · rw [hasked]
      exact hpast
    · rw [hasked]
      exact hpast
  · intro e' hentry'
    have hchain := h.spaced_asked hentry'
    rcases asked_step (l := l) (c := c) with
      ⟨slot', hout, hfree, -, hasked⟩ | ⟨-, hasked⟩ | ⟨-, hasked⟩ | ⟨-, -, -, hasked, -⟩
    · rw [hasked, timesOf_append]
      by_cases heq : slot' = slot
      · subst heq
        -- the time that is due has come, and no request is to be answered before it
        obtain ⟨-, e, hpolled, hdue, -⟩ := handedOut_spec h.ok hout
        refine List.isChain_append.mpr ⟨hchain, by simp [timesOf], ?_⟩
        intro t ht t' ht'
        have hmem : t ∈ timesOf slot' l.answered := by
          rw [answered_of_free hfree]
          exact List.mem_of_getLast? ht
        have hsettled := h.settled e hpolled t hmem
        obtain rfl : t' = l.run.timeOf c := by simpa [timesOf] using ht'.symm
        rw [intervalMs_step hpolled.1 hentry']
        exact hsettled.trans hdue
      · simpa [timesOf, heq] using hchain
    · rw [hasked]
      exact List.IsChain.prefix hchain (timesOf_initial answered_initial)
    · rw [hasked]
      exact hchain
    · rw [hasked]
      exact hchain
  · intro e' hpolled' t ht
    obtain ⟨hasked, hcase⟩ := answered_step h.flying ht
    cases hentry : l.run.sched.entries[slot]? with
    | none =>
      rw [h.timesOf_eq_nil hentry] at hasked
      cases hasked
    | some e =>
      have hle := (h.past _ (mem_timesOf.mp hasked)).2
      obtain ⟨e₁, hentry₁, hstep⟩ := entry_step (c := c) hentry
      obtain rfl : e₁ = e' := Option.some.inj (hentry₁.symm.trans hpolled'.1)
      rcases hstep with ⟨failed, hverdict, rfl, hdue, -⟩ | ⟨hnone, hkept, hdue, -⟩
      · have hdelay := interval_le_delay h.ok hspared hentry hverdict
        have hdue' : (l.step c).run.due slot = l.run.timeOf c + (e.delay failed).toNat := hdue
        rw [PollEntry.judged_intervalMs, hdue']
        dsimp only at hle
        omega
      · have hdue' : (l.step c).run.due slot = l.run.due slot := hdue
        rcases hcase with hanswered | ⟨failed, hverdict⟩ | hsuspended
        · rcases hkept with rfl | rfl
          · rw [hdue']
            exact h.settled e₁ ⟨hentry, hpolled'.2⟩ t hanswered
          · cases hpolled'.2
        · exact absurd hverdict (hnone failed)
        · exact absurd hpolled' (hsuspended e₁)

/-! ## Every run -/

theorem paced_exec (h : l.Paced slot)
    (hspared : Admitted (Spared slot) step l calls) : (exec step l calls).Paced slot :=
  hspared.invariant (Paced slot) (fun _ _ hstep hpaced => hpaced.step hstep) h

theorem sched_exec (calls : List SchedRun.Call) :
    (exec step l calls).run = exec SchedRun.step l.run calls :=
  exec_part (fun _ _ => rfl) l calls

/-- A slot with an interval below the ceiling is spared all along the run. -/
theorem spared_of_interval (hentry : (exec step l calls).run.sched.entries[slot]? = some e)
    (hcap : e.intervalMs ≤ backoffCapMs) : Admitted (Spared slot) step l calls := by
  apply Admitted.of_forall
  rintro before c after rfl hverdict e₀ hentry₀
  have hexec := sched_exec (l := exec step l before) (c :: after)
  rw [exec_append, hexec] at hentry
  obtain ⟨e₁, hentry₁, hinterval⟩ := intervalMs_exec (Option.mem_def.mp hentry₀) (c :: after)
  obtain rfl : e₁ = e := Option.some.inj (hentry₁.symm.trans hentry)
  rwa [← hinterval]

/-! ## An interval above the ceiling -/

/-- A group that is added, is asked, fails, and is asked when the ceiling has passed. -/
def hasty (intervalMs : UInt32) : List SchedRun.Call :=
  [(0, .add 0 intervalMs), (0, .next 0), (0, .onFailure 0), (60000, .next 0)]

/-- The group behind `add`. -/
def fresh (intervalMs : UInt32) : PollEntry :=
  { intervalMs := intervalMs, nextDueMs := 0, groupIndex := 0 }

/-- The only group is asked when it is due. -/
theorem step_next {ms : Nat} (p2Ms : UInt32) (hentries : l.run.sched.entries = [e])
    (hfree : l.run.sched.inFlight = none) (hdue : e.Due (msOf (l.run.now + ms))) :
    (l.step (ms, .next p2Ms)).asked = l.asked ++ [(0, l.run.now + ms)] ∧
      (l.step (ms, .next p2Ms)).run.sched = { l.run.sched with
        inFlight := some 0, deadlineMs := msOf (l.run.now + ms) + p2Ms } := by
  have hbest : l.run.sched.best (msOf (l.run.now + ms)) = some 0 := by
    simp [best, pick, hentries, hdue.1, UInt32.not_le.mpr hdue.2]
  have hnext : l.run.sched.next (msOf (l.run.now + ms)) p2Ms =
      (some 0, { l.run.sched with
        inFlight := some 0, deadlineMs := msOf (l.run.now + ms) + p2Ms }) := by
    rw [next, hfree, hbest]
    rfl
  exact ⟨asked_handedOut (congrArg Prod.fst hnext), congrArg Prod.snd hnext⟩

theorem nextBackoff_fresh {intervalMs : UInt32} (hcap : backoffCapMs < intervalMs) :
    (fresh intervalMs).nextBackoff = backoffCapMs := by
  have hne : intervalMs ≠ 0 := by
    rintro rfl
    cases hcap
  have hhalf : backoffCapMs / 2 < intervalMs := UInt32.lt_trans (by decide) hcap
  simp only [PollEntry.nextBackoff, fresh, ne_eq, not_true_eq_false, if_false, hne,
    not_false_eq_true, if_true, hhalf]

/-- The second request goes out before the interval is over. -/
theorem asked_hasty {intervalMs : UInt32} (hcap : backoffCapMs < intervalMs)
    (hadd : intervalMs < wrapHorizon) :
    (exec step (start 1 1) (hasty intervalMs)).asked = [(0, 0), (0, 60000)] ∧
      ∃ e, (exec step (start 1 1) (hasty intervalMs)).run.sched.entries[0]? = some e ∧
        e.intervalMs = intervalMs := by
  let l₁ : Ledger := (start 1 1).step (0, .add 0 intervalMs)
  let l₂ : Ledger := l₁.step (0, .next 0)
  let l₃ : Ledger := l₂.step (0, .onFailure 0)
  have hroom : ¬(1 ≤ 0 ∨ wrapHorizon ≤ intervalMs) := by
    simp [UInt32.not_le.mpr hadd]
  have hsched₁ : l₁.run.sched = { init 1 1 with entries := [fresh intervalMs] } :=
    congrArg Prod.snd (if_neg hroom)
  have hnow : (fresh intervalMs).Due (msOf (l₁.run.now + 0)) :=
    ⟨rfl, (by decide : msOf 0 - 0 < wrapHorizon)⟩
  obtain ⟨hasked₂, hsched₂⟩ := step_next 0 (by rw [hsched₁]) (by rw [hsched₁]; rfl) hnow
  have hsched₃ : l₃.run.sched = { l₂.run.sched with
      inFlight := none, entries := [(fresh intervalMs).failed 0 1] } := by
    have hcall : l₃.run.sched = (l₂.run.sched.onFailure 0 (msOf 0)).2 := rfl
    rw [hcall, hsched₂, hsched₁]
    rfl
  have hnow₃ : l₃.run.now = 0 := rfl
  have hlate : ((fresh intervalMs).failed 0 1).Due (msOf (l₃.run.now + 60000)) := by
    refine ⟨rfl, ?_⟩
    rw [PollEntry.failed, nextBackoff_fresh hcap, hnow₃]
    exact (by decide : msOf (0 + 60000) - (0 + backoffCapMs) < wrapHorizon)
  obtain ⟨hasked₄, hsched₄⟩ := step_next 0 (by rw [hsched₃]) (by rw [hsched₃]) hlate
  have hasked₃ : l₃.asked = [(0, 0)] := hasked₂
  refine ⟨hasked₄.trans ?_, (fresh intervalMs).failed 0 1, ?_, rfl⟩
  · rw [hasked₃, hnow₃, Nat.zero_add]
    rfl
  · have hsched : (exec step (start 1 1) (hasty intervalMs)).run.sched =
        { l₃.run.sched with inFlight := some 0, deadlineMs := msOf (l₃.run.now + 60000) + 0 } := hsched₄
    rw [hsched, hsched₃]
    rfl

/-! ## The interval and the ceiling -/

theorem paced_of_spared {capacity maxFailures : Nat} {slot : Nat}
    (hspared : Admitted (Spared slot) step (start capacity maxFailures) calls) :
    (exec step (start capacity maxFailures) calls).Spaced slot :=
  (paced_exec (paced_start capacity maxFailures) hspared).spaced

/-- A slot that does not fail above the ceiling is asked its interval apart; and in all runs so are
the slots of an interval if and only if it is not above the ceiling. -/
theorem spaced_iff_le_cap (capacity maxFailures : Nat) (calls : List SchedRun.Call) (slot : Nat)
    (intervalMs : UInt32) (hadd : intervalMs < wrapHorizon) :
    (Admitted (Spared slot) step (start capacity maxFailures) calls →
        (exec step (start capacity maxFailures) calls).Spaced slot) ∧
      (PacedAt intervalMs ↔ intervalMs ≤ backoffCapMs) := by
  refine ⟨paced_of_spared, fun h => ?_, fun hcap => ?_⟩
  · by_contra hcap
    rw [UInt32.not_le] at hcap
    obtain ⟨hasked, e, hentry, rfl⟩ := asked_hasty hcap hadd
    have hchain := h 1 1 (hasty e.intervalMs) 0 e hentry rfl e hentry
    rw [hasked] at hchain
    have hapart : 0 + e.intervalMs.toNat ≤ 60000 := by simpa [timesOf] using hchain
    rw [UInt32.lt_iff_toNat_lt, show backoffCapMs.toNat = 60000 from rfl] at hcap
    omega
  · rintro capacity maxFailures calls slot e hentry rfl
    exact paced_of_spared (spared_of_interval hentry hcap)

/-- A slot that fails twice, and the others behind it; an interval below the ceiling. -/
theorem spaced_iff_le_cap_sample :
    (exec step (start 2 3) [(0, .add 0 1000), (0, .add 1 120000), (0, .next 150), (200, .poll),
        (0, .next 150), (40, .onSuccess 1), (3000, .next 150), (0, .onFailure 0)]).Spaced 0 ∧
      (PacedAt 1000 ↔ (1000 : UInt32) ≤ backoffCapMs) := by
  have h := spaced_iff_le_cap 2 3 [(0, .add 0 1000), (0, .add 1 120000), (0, .next 150),
    (200, .poll), (0, .next 150), (40, .onSuccess 1), (3000, .next 150), (0, .onFailure 0)] 0 1000
    (by decide)
  exact ⟨h.1 (by decide), h.2⟩

/-- Every two minutes, and asked again a minute behind the failure. -/
theorem not_spaced_hasty : ¬(exec step (start 1 1) (hasty 120000)).Spaced 0 := by
  intro h
  have hchain := h _ rfl
  revert hchain
  decide

end Ledger

end EspCars.Uds
