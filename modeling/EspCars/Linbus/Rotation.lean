import EspCars.Linbus.Master

/-!
# The rotation of the master schedule

`master_add_id_schedule` and `master_remove_id_schedule` of `components/linbus/LINCommunication.cpp`,
and what `master_send` does with the entries over a run. The scan starts behind the entry that was
tried last, so an entry that is due comes before that one again.
-/

namespace EspCars.Linbus

open EspCars.Lib

namespace Node

def write (n : Node) (i : Fin linMaxIdRqCount) (item : ScheduleItem) : Node :=
  { n with schedule := Function.update n.schedule i item }

/-- The first slot in use with the ID. -/
def slotOf (n : Node) (id : UInt8) : Option (Fin linMaxIdRqCount) :=
  (List.finRange linMaxIdRqCount).find? fun i =>
    (n.schedule i).updateInterval ≠ 0 ∧ (n.schedule i).id = id

def freeSlot (n : Node) : Option (Fin linMaxIdRqCount) :=
  (List.finRange linMaxIdRqCount).find? fun i => (n.schedule i).updateInterval = 0

/-- `master_add_id_schedule` -/
def masterAddIdSchedule (n : Node) (id : UInt8) (intervalMs : UInt32) : Node × Bool :=
  match n.slotOf id with
  | some i =>
    (n.write i { n.schedule i with
      updateInterval := intervalMs, lastSendTimeMs := 0, sentOnce := false }, true)
  | none =>
    match n.freeSlot with
    | some i => (n.write i { id := id, updateInterval := intervalMs }, true)
    | none => (n, false)

/-- `master_remove_id_schedule` -/
def masterRemoveIdSchedule (n : Node) (id : UInt8) : Node × Bool :=
  match n.slotOf id with
  | some i =>
    (n.write i { n.schedule i with updateInterval := 0, lastSendTimeMs := 0, sentOnce := false }, true)
  | none => (n, false)

/-- The slot whose header a tick tries to send. -/
def tried (n : Node) (t : Tick) : Option (Fin linMaxIdRqCount) :=
  if n.decoder.mode = .master ∧ t.locked = true ∧ n.isBusIdle 3 t = true then
    n.dueSlot (UInt32.ofNat (t.nowUs / 1000))
  else none

end Node

/-- What happens around the schedule; the bus is what the received bytes and the ticks make it. -/
inductive MasterCall
  | send (t : Tick)
  | add (id : UInt8) (intervalMs : UInt32)
  | remove (id : UInt8)
  | wire (w : Wire) (nowUs : Nat) (s : Shared)

/-- The node behind a call. -/
def MasterCall.step (n : Node) : MasterCall → Node
  | .send t => (n.masterSend t).1
  | .add id intervalMs => (n.masterAddIdSchedule id intervalMs).1
  | .remove id => (n.masterRemoveIdSchedule id).1
  | .wire w nowUs s => n.step (.wire w nowUs s)

/-- The time of a call of `master_send`, in milliseconds. -/
def MasterCall.sendMs : MasterCall → Option Nat
  | .send t => some (t.nowUs / 1000)
  | _ => none

/-- The entry in the slot stays as it is, but for being sent. -/
def KeepsEntry (i : Fin linMaxIdRqCount) (n : Node) (c : MasterCall) : Prop :=
  c.sendMs = none → (c.step n).schedule i = n.schedule i

/-- The slot stays in use. -/
def StaysScheduled (i : Fin linMaxIdRqCount) (n : Node) (c : MasterCall) : Prop :=
  ((c.step n).schedule i).updateInterval ≠ 0

/-! ## What one call does -/

namespace Node

/-- The scan takes the due slot that comes first. -/
theorem dueSlot_first {n : Node} {nowMs : UInt32} {k : Fin linMaxIdRqCount}
    (h : n.dueSlot nowMs = some k) :
    (n.schedule k).isDue nowMs = true ∧ ∀ j, (n.schedule j).isDue nowMs = true →
      k - n.scheduleScanNext ≤ j - n.scheduleScanNext := by
  unfold dueSlot at h
  rw [List.find?_map] at h
  obtain ⟨x, hx, rfl⟩ := Option.map_eq_some_iff.mp h
  obtain ⟨hdue, before, after, hsplit, hbefore⟩ := List.find?_eq_some_iff_append.mp hx
  refine ⟨hdue, fun j hj => ?_⟩
  rw [add_sub_cancel_left]
  by_contra hlt
  have hmem : j - n.scheduleScanNext ∈ before ++ x :: after := hsplit ▸ List.mem_finRange _
  have hsorted : (before ++ x :: after).Pairwise (· < ·) := hsplit ▸ List.pairwise_lt_finRange _
  rcases List.mem_append.mp hmem with hin | hin
  · have hnot := hbefore _ hin
    simp only [Function.comp_apply, add_sub_cancel, hj] at hnot
    cases hnot
  · rcases List.mem_cons.mp hin with heq | hin
    · exact hlt (le_of_eq heq.symm)
    · have hrest := List.rel_of_pairwise_cons (List.pairwise_append.mp hsorted).2.1 hin
      exact hlt (le_of_lt hrest)

/-- A tick changes the slot that it tries and no other. -/
theorem masterSend_schedule (n : Node) (t : Tick) :
    (n.masterSend t).1.schedule = (n.tried t).elim n.schedule (fun i =>
      Function.update n.schedule i { n.schedule i with
        lastSendTimeMs := UInt32.ofNat (t.nowUs / 1000), sentOnce := true }) ∧
    (n.masterSend t).1.scheduleScanNext = (n.tried t).elim n.scheduleScanNext (· + 1) ∧
    (n.masterSend t).1.masterRequestsSent =
      n.masterRequestsSent + if (n.headerSent t).isSome then 1 else 0 := by
  unfold masterSend tried headerSent
  by_cases hmode : n.decoder.mode = .master
  · by_cases hlocked : t.locked = true
    · cases hdue : n.dueSlot (UInt32.ofNat (t.nowUs / 1000)) with
      | none => simp [hmode, hlocked, hdue]
      | some i =>
        by_cases hidle : n.isBusIdle 3 t = true
        · by_cases hsent :
            (n.decoder.serial && t.sendBreak && (t.writePid && t.writeSync)) = true
          · simp [hmode, hlocked, hidle, hsent, hdue]
          · simp [hmode, hlocked, hidle, hsent, hdue]
        · simp [hmode, hlocked, hidle, hdue]
    · simp [hmode, hlocked]
  · simp [hmode]

/-- A header that is sent is that of the slot tried. -/
theorem tried_of_headerSent {n : Node} {t : Tick} {id : UInt8} (h : n.headerSent t = some id) :
    ∃ i, n.tried t = some i ∧ (n.schedule i).id = id := by
  unfold headerSent at h
  split_ifs at h with hall
  obtain ⟨i, hi, rfl⟩ := Option.map_eq_some_iff.mp h
  refine ⟨i, ?_, rfl⟩
  unfold tried
  rw [if_pos ⟨hall.1, hall.2.1, hall.2.2.1⟩, hi]

theorem tried_due {n : Node} {t : Tick} {i : Fin linMaxIdRqCount} (h : n.tried t = some i) :
    n.dueSlot (UInt32.ofNat (t.nowUs / 1000)) = some i := by
  unfold tried at h
  split_ifs at h
  exact h

/-- The main loop leaves an entry as it is or starts it anew, and never moves the scan. -/
theorem rescheduled (n : Node) (c : MasterCall) (hc : c.sendMs = none) (j : Fin linMaxIdRqCount) :
    ((c.step n).schedule j = n.schedule j ∨ ((c.step n).schedule j).sentOnce = false) ∧
      (c.step n).scheduleScanNext = n.scheduleScanNext := by
  have hwrite (i : Fin linMaxIdRqCount) (item : ScheduleItem) (hitem : item.sentOnce = false) :
      (n.write i item).schedule j = n.schedule j ∨ ((n.write i item).schedule j).sentOnce = false := by
    unfold write
    dsimp only
    by_cases hj : j = i
    · subst hj
      right
      rw [Function.update_self, hitem]
    · left
      rw [Function.update_of_ne hj]
  cases c with
  | send t => cases hc
  | wire w nowUs s => exact ⟨Or.inl rfl, rfl⟩
  | add id intervalMs =>
    unfold MasterCall.step masterAddIdSchedule
    dsimp only
    cases n.slotOf id with
    | some i => exact ⟨hwrite i _ rfl, rfl⟩
    | none =>
      cases n.freeSlot with
      | some i => exact ⟨hwrite i _ rfl, rfl⟩
      | none => exact ⟨Or.inl rfl, rfl⟩
  | remove id =>
    unfold MasterCall.step masterRemoveIdSchedule
    dsimp only
    cases n.slotOf id with
    | some i => exact ⟨hwrite i _ rfl, rfl⟩
    | none => exact ⟨Or.inl rfl, rfl⟩

end Node

/-! ## The interval -/

/-- The calls are made between the two times. -/
def Between (first last : Nat) (c : MasterCall) : Prop :=
  ∀ ms, c.sendMs = some ms → first ≤ ms ∧ ms ≤ last

section Run

variable {n : Node} {c : MasterCall} {cs : List MasterCall} {t : Tick} {i j : Fin linMaxIdRqCount}
  {first last : Nat}

/-- The entry has the interval, and was tried last within the times. -/
structure TriedIn (i : Fin linMaxIdRqCount) (intervalMs : UInt32) (first last : Nat) (n : Node) :
    Prop where
  interval : (n.schedule i).updateInterval = intervalMs
  sent : (n.schedule i).sentOnce = true
  time : ∃ ms, first ≤ ms ∧ ms ≤ last ∧ (n.schedule i).lastSendTimeMs = UInt32.ofNat ms

theorem TriedIn.step {intervalMs : UInt32} (h : TriedIn i intervalMs first last n)
    (hkeeps : KeepsEntry i n c) (htime : Between first last c) :
    TriedIn i intervalMs first last (c.step n) := by
  cases hc : c.sendMs with
  | none =>
    have hsame := hkeeps hc
    exact ⟨hsame ▸ h.interval, hsame ▸ h.sent, hsame ▸ h.time⟩
  | some ms =>
    cases c with
    | send u =>
      obtain ⟨hlo, hhi⟩ := htime ms hc
      cases hc
      obtain ⟨hschedule, -, -⟩ := n.masterSend_schedule u
      cases hk : n.tried u with
      | none =>
        rw [hk] at hschedule
        have hsame : (MasterCall.step n (.send u)).schedule = n.schedule := hschedule
        exact ⟨hsame ▸ h.interval, hsame ▸ h.sent, hsame ▸ h.time⟩
      | some k =>
        rw [hk] at hschedule
        by_cases hik : i = k
        · subst hik
          have hnew := (congrFun hschedule i).trans (Function.update_self ..)
          unfold MasterCall.step
          refine ⟨?_, ?_, u.nowUs / 1000, hlo, hhi, ?_⟩
          · rw [hnew]
            exact h.interval
          · rw [hnew]
          · rw [hnew]
        · have hsame := (congrFun hschedule i).trans (Function.update_of_ne hik ..)
          exact ⟨hsame ▸ h.interval, hsame ▸ h.sent, hsame ▸ h.time⟩
    | _ => cases hc

theorem TriedIn.run {intervalMs : UInt32} (h : TriedIn i intervalMs first last n)
    (hkeeps : Admitted (KeepsEntry i) MasterCall.step n cs) (htime : ∀ c ∈ cs, Between first last c) :
    TriedIn i intervalMs first last (exec MasterCall.step n cs) := by
  induction cs generalizing n with
  | nil => exact h
  | cons c cs ih =>
    rw [List.forall_mem_cons] at htime
    exact ih (h.step hkeeps.1 htime.1) hkeeps.2 htime.2

/-- The wrapped difference of two times is no longer than the time between them. -/
theorem TriedIn.elapsed {intervalMs : UInt32} (h : TriedIn i intervalMs first last n)
    (hdue : (n.schedule i).isDue (UInt32.ofNat last) = true) :
    intervalMs.toNat ≤ last - first := by
  obtain ⟨ms, hlo, hhi, htime⟩ := h.time
  unfold ScheduleItem.isDue at hdue
  rw [h.sent, h.interval, htime] at hdue
  have hage : intervalMs ≤ UInt32.ofNat last - UInt32.ofNat ms := by
    simpa using (Bool.and_eq_true_iff.mp hdue).2
  rw [UInt32.le_iff_toNat_le, UInt32.toNat_sub, UInt32.toNat_ofNat', UInt32.toNat_ofNat'] at hage
  omega

/-! ## The order -/

/-- The entry in slot `j` has been due since `first`, and comes before slot `i` in the scan. -/
structure Awaits (i j : Fin linMaxIdRqCount) (first last : Nat) (n : Node) : Prop where
  inUse : (n.schedule j).updateInterval ≠ 0
  ripe : (n.schedule j).sentOnce = true →
    (n.schedule j).updateInterval ≤ UInt32.ofNat first - (n.schedule j).lastSendTimeMs ∧
      (UInt32.ofNat first - (n.schedule j).lastSendTimeMs).toNat + (last - first) < 2 ^ 32
  before : j - n.scheduleScanNext < i - n.scheduleScanNext

theorem Awaits.isDue (h : Awaits i j first last n) {ms : Nat} (hlo : first ≤ ms) (hhi : ms ≤ last) :
    (n.schedule j).isDue (UInt32.ofNat ms) = true := by
  unfold ScheduleItem.isDue
  rw [Bool.and_eq_true, Bool.or_eq_true, decide_eq_true_iff, decide_eq_true_iff]
  refine ⟨h.inUse, ?_⟩
  cases hsent : (n.schedule j).sentOnce with
  | false => exact Or.inl rfl
  | true =>
    right
    obtain ⟨hage, hroom⟩ := h.ripe hsent
    have hlt := (n.schedule j).lastSendTimeMs.toNat_lt
    rw [ge_iff_le, UInt32.le_iff_toNat_le]
    rw [UInt32.le_iff_toNat_le] at hage
    rw [UInt32.toNat_sub, UInt32.toNat_ofNat'] at hage hroom ⊢
    omega

/-- Behind a slot that comes before both, the order of the two is the same. -/
theorem before_next {s i j k : Fin linMaxIdRqCount} (hk : k - s < j - s) (hij : j - s < i - s) :
    j - (k + 1) < i - (k + 1) := by
  have hshift (x : Fin linMaxIdRqCount) : x - (k + 1) = x - s - (k - s + 1) := by abel
  have hnext : (k - s + 1).val = (k - s).val + 1 :=
    Fin.val_add_one_of_lt (lt_of_lt_of_le hk (Fin.le_last _))
  have hj : k - s + 1 ≤ j - s := by
    rw [Fin.le_def, hnext]
    exact hk
  have hi : k - s + 1 ≤ i - s := le_trans hj (le_of_lt hij)
  rw [hshift j, hshift i, Fin.lt_def, Fin.sub_val_of_le hj, Fin.sub_val_of_le hi, hnext]
  rw [Fin.lt_def] at hk hij
  omega

/-- The entry waits on, unless the call tries it. -/
theorem Awaits.step (h : Awaits i j first last n) (hstays : StaysScheduled j n c)
    (htime : Between first last c) :
    (∃ u, c = .send u ∧ n.tried u = some j) ∨ Awaits i j first last (c.step n) := by
  cases hc : c.sendMs with
  | none =>
    obtain ⟨hslot, hscan⟩ := n.rescheduled c hc j
    refine Or.inr ⟨hstays, fun hsent => ?_, by rw [hscan]; exact h.before⟩
    rcases hslot with hsame | hnew
    · rw [hsame] at hsent ⊢
      exact h.ripe hsent
    · rw [hnew] at hsent
      cases hsent
  | some ms =>
    cases c with
    | send u =>
      obtain ⟨hlo, hhi⟩ := htime ms hc
      cases hc
      obtain ⟨hschedule, hscan, -⟩ := n.masterSend_schedule u
      cases hk : n.tried u with
      | none =>
        rw [hk] at hschedule hscan
        right
        unfold MasterCall.step
        exact ⟨hschedule ▸ h.inUse, hschedule ▸ h.ripe, hscan ▸ h.before⟩
      | some k =>
        by_cases hjk : j = k
        · exact Or.inl ⟨u, rfl, by rw [hjk, hk]⟩
        · rw [hk] at hschedule hscan
          have hsame := (congrFun hschedule j).trans (Function.update_of_ne hjk ..)
          have hfirst := (Node.dueSlot_first (Node.tried_due hk)).2 j (h.isDue hlo hhi)
          have hlt : k - n.scheduleScanNext < j - n.scheduleScanNext :=
            lt_of_le_of_ne hfirst fun heq => hjk (sub_left_injective heq).symm
          right
          unfold MasterCall.step
          refine ⟨hsame ▸ h.inUse, hsame ▸ h.ripe, ?_⟩
          rw [hscan]
          exact before_next hlt h.before
    | _ => cases hc

theorem Awaits.run (h : Awaits i j first last n) (hstays : Admitted (StaysScheduled j) MasterCall.step n cs)
    (htime : ∀ c ∈ cs, Between first last c) :
    (∃ before u after, cs = before ++ .send u :: after ∧
      (exec MasterCall.step n before).tried u = some j) ∨
      Awaits i j first last (exec MasterCall.step n cs) := by
  induction cs generalizing n with
  | nil => exact Or.inr h
  | cons c cs ih =>
    rw [List.forall_mem_cons] at htime
    rcases h.step hstays.1 htime.1 with ⟨u, rfl, hu⟩ | hnext
    · exact Or.inl ⟨[], u, cs, rfl, hu⟩
    · rcases ih hnext hstays.2 htime.2 with ⟨before, u, after, rfl, hu⟩ | hend
      · exact Or.inl ⟨c :: before, u, after, rfl, hu⟩
      · exact Or.inr hend

theorem Awaits.not_tried (h : Awaits i j first last n) (hle : first ≤ last)
    (ht : t.nowUs / 1000 = last) : n.tried t ≠ some i := by
  intro htried
  have hfirst := (Node.dueSlot_first (Node.tried_due htried)).2 j (ht ▸ h.isDue hle le_rfl)
  exact absurd h.before (not_lt_of_ge hfirst)

end Run

/-- The slot that is tried is the last one of the next scan. -/
theorem awaits_of_tried {n : Node} {t : Tick} {i j : Fin linMaxIdRqCount} {last : Nat}
    (h : n.tried t = some i) (hne : j ≠ i)
    (hdue : (n.schedule j).isDue (UInt32.ofNat (t.nowUs / 1000)) = true)
    (hroom : (n.schedule j).sentOnce = true →
      (UInt32.ofNat (t.nowUs / 1000) - (n.schedule j).lastSendTimeMs).toNat +
        (last - t.nowUs / 1000) < 2 ^ 32) :
    Awaits i j (t.nowUs / 1000) last (n.masterSend t).1 := by
  obtain ⟨hschedule, hscan, -⟩ := n.masterSend_schedule t
  rw [h] at hschedule hscan
  have hsame := (congrFun hschedule j).trans (Function.update_of_ne hne ..)
  unfold ScheduleItem.isDue at hdue
  rw [Bool.and_eq_true, Bool.or_eq_true, decide_eq_true_iff, decide_eq_true_iff] at hdue
  refine ⟨hsame ▸ hdue.1, ?_, ?_⟩
  · rw [hsame]
    intro hsent
    rw [hsent] at hdue
    exact ⟨hdue.2.resolve_left Bool.false_ne_true, hroom hsent⟩
  · rw [hscan]
    have hlast : i - (i + 1) = Fin.last 15 := by
      rw [sub_add_cancel_left]
      rfl
    refine lt_of_le_of_ne (hlast ▸ Fin.le_last _) fun heq => hne (sub_left_injective heq)

/-- A call sends at most one header, that of the slot it tries. Between two tries of an entry that
is kept its interval passes; and in between, every entry that was due at the first one and stays
scheduled is tried, unless the wrapped clock comes round first. -/
theorem master_rotates {n : Node} {t t' : Tick} {i : Fin linMaxIdRqCount} {cs : List MasterCall}
    (hfirst : n.tried t = some i)
    (hlast : (exec MasterCall.step (n.masterSend t).1 cs).tried t' = some i)
    (hle : t.nowUs / 1000 ≤ t'.nowUs / 1000)
    (htime : ∀ c ∈ cs, Between (t.nowUs / 1000) (t'.nowUs / 1000) c) :
    (∀ (m : Node) (u : Tick),
      (m.masterSend u).1.masterRequestsSent =
          m.masterRequestsSent + (if (m.headerSent u).isSome then 1 else 0) ∧
        ∀ id, m.headerSent u = some id → ∃ k, m.tried u = some k ∧ (m.schedule k).id = id) ∧
    (Admitted (KeepsEntry i) MasterCall.step (n.masterSend t).1 cs →
      (n.schedule i).updateInterval.toNat ≤ t'.nowUs / 1000 - t.nowUs / 1000) ∧
    ∀ j ≠ i, (n.schedule j).isDue (UInt32.ofNat (t.nowUs / 1000)) = true →
      ((n.schedule j).sentOnce = true →
        (UInt32.ofNat (t.nowUs / 1000) - (n.schedule j).lastSendTimeMs).toNat +
          (t'.nowUs / 1000 - t.nowUs / 1000) < 2 ^ 32) →
      Admitted (StaysScheduled j) MasterCall.step (n.masterSend t).1 cs →
      ∃ before u after, cs = before ++ .send u :: after ∧
        (exec MasterCall.step (n.masterSend t).1 before).tried u = some j := by
  refine ⟨fun m u => ⟨(m.masterSend_schedule u).2.2, fun id hid => Node.tried_of_headerSent hid⟩,
    fun hkeeps => ?_, fun j hne hdue hroom hstays => ?_⟩
  · obtain ⟨hschedule, -, -⟩ := n.masterSend_schedule t
    rw [hfirst] at hschedule
    have hnew := (congrFun hschedule i).trans (Function.update_self ..)
    have hstart : TriedIn i (n.schedule i).updateInterval (t.nowUs / 1000) (t'.nowUs / 1000)
        (n.masterSend t).1 :=
      ⟨by rw [hnew], by rw [hnew], t.nowUs / 1000, le_rfl, hle, by rw [hnew]⟩
    exact (hstart.run hkeeps htime).elapsed (Node.dueSlot_first (Node.tried_due hlast)).1
  · rcases (awaits_of_tried hfirst hne hdue hroom).run hstays htime with hfound | hend
    · exact hfound
    · exact absurd hlast (hend.not_tried hle rfl)

/-- Two entries of ten milliseconds. -/
def sampleMaster : Node where
  decoder := { mode := .master }
  schedule i := if i.val < 2 then { id := UInt8.ofNat i, updateInterval := 10 } else {}

theorem master_rotates_sample :
    ∃ before u after, [MasterCall.send { nowUs := 2000 }] = before ++ .send u :: after ∧
      (exec MasterCall.step (sampleMaster.masterSend { nowUs := 1000 }).1 before).tried u = some 1 := by
  refine (@master_rotates sampleMaster { nowUs := 1000 } { nowUs := 20000 } 0
    [.send { nowUs := 2000 }] ?_ ?_ ?_ ?_).2.2 1 ?_ ?_ ?_ ?_
  · decide
  · decide
  · decide
  · rw [List.forall_mem_singleton]
    rintro ms ⟨⟩
    decide
  · decide
  · decide
  · decide
  · refine ⟨?_, trivial⟩
    unfold StaysScheduled
    decide

/-- A header that could not be written is not made up for. -/
theorem not_sent_between :
    ¬ ∀ (n : Node) (t t' : Tick) (i : Fin linMaxIdRqCount) (cs : List MasterCall),
      n.tried t = some i → (n.headerSent t).isSome = true →
      (exec MasterCall.step (n.masterSend t).1 cs).tried t' = some i →
      ((exec MasterCall.step (n.masterSend t).1 cs).headerSent t').isSome = true →
      t.nowUs / 1000 ≤ t'.nowUs / 1000 →
      (∀ c ∈ cs, Between (t.nowUs / 1000) (t'.nowUs / 1000) c) → t'.nowUs / 1000 < 2 ^ 32 →
      ∀ j ≠ i, (n.schedule j).isDue (UInt32.ofNat (t.nowUs / 1000)) = true →
        Admitted (StaysScheduled j) MasterCall.step (n.masterSend t).1 cs →
        ∃ before u after, cs = before ++ .send u :: after ∧
          (exec MasterCall.step (n.masterSend t).1 before).tried u = some j ∧
          ((exec MasterCall.step (n.masterSend t).1 before).headerSent u).isSome = true := by
  intro h
  obtain ⟨before, u, after, hsplit, -, hsent⟩ := h sampleMaster { nowUs := 1000 } { nowUs := 20000 } 0
    [.send { nowUs := 2000, sendBreak := false }] (by decide) (by decide) (by decide) (by decide)
    (by decide)
    (by
      rw [List.forall_mem_singleton]
      rintro ms ⟨⟩
      decide)
    (by decide) 1 (by decide) (by decide)
    (by
      refine ⟨?_, trivial⟩
      unfold StaysScheduled
      decide)
  rcases before with - | ⟨c, before⟩
  · cases hsplit
    exact absurd hsent (by decide)
  · have hlen := congrArg List.length hsplit
    simp only [List.cons_append, List.length_cons, List.length_append, List.length_nil] at hlen
    omega

end EspCars.Linbus
