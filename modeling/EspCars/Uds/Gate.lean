import EspCars.Uds.Config
import EspCars.Uds.Hub

/-!
# The safety gate

The groups that the hub asks for. Between two requests nothing that decides about the next one
changes (`Quiet`), an action adds only what it is allowed to add, and the poll table keeps the groups
that the setup put into it. The setup puts every polled binding's group into it, whatever its
service, so the gate holds in every run exactly if these groups are safe to read.
-/

namespace EspCars.Uds

open EspCars.Lib GroupScheduler

/-- The origin, the group and the bytes of a request that was handed to the transport. -/
def HubAct.offer? : HubAct → Option (InFlight × Nat × List UInt8)
  | .offer origin gi req _ => some (origin, gi, req)
  | _ => none

/-- The bytes are the request of a group that is safe to read. -/
def SafeRequest (c : Catalog) (gi : Nat) (req : List UInt8) : Prop :=
  ∃ g, c.group gi = some g ∧ g.safeRead = true ∧ c.requestBytes g = some req

/-- A group that is safe to read, or whose request cannot be assembled. -/
def SafeGroup (c : Catalog) (gi : Nat) : Prop :=
  ∀ g req, c.group gi = some g → buildRequest c g = some req → g.safeRead = true

namespace UdsHub

variable (h : UdsHub)

/-- Every request that was handed to the transport. -/
def offers : List (InFlight × Nat × List UInt8) := h.log.filterMap fun p => p.2.offer?

/-- What the scheduler sends is safe to read, and without active services so is everything. -/
def KeepsGate : Prop :=
  ∀ origin gi req, (origin, gi, req) ∈ h.offers →
    origin = .polled ∨ h.allowActiveServices = false →
      ∃ c, h.catalog = some c ∧ SafeRequest c gi req

variable {h}

@[simp] theorem offers_act (now : Nat) (a : HubAct) :
    (h.act now a).offers = h.offers ++ a.offer?.toList := by
  unfold offers act
  rw [List.filterMap_append]
  cases ha : a.offer? <;> simp [ha]

/-! ## What does not bear on the next request -/

/-- Neither a request nor a change of what the next one is chosen from. -/
structure Quiet (h h' : UdsHub) : Prop where
  catalog : h'.catalog = h.catalog
  ecu : h'.ecu = h.ecu
  allow : h'.allowActiveServices = h.allowActiveServices
  ondemand : h'.ondemand = h.ondemand
  rawPending : h'.rawPending = h.rawPending
  groups : h'.sched.groups = h.sched.groups
  offers : h'.offers = h.offers

theorem Quiet.refl (h : UdsHub) : Quiet h h := ⟨rfl, rfl, rfl, rfl, rfl, rfl, rfl⟩

theorem Quiet.trans {h h' h'' : UdsHub} (first : Quiet h h') (second : Quiet h' h'') :
    Quiet h h'' where
  catalog := second.catalog.trans first.catalog
  ecu := second.ecu.trans first.ecu
  allow := second.allow.trans first.allow
  ondemand := second.ondemand.trans first.ondemand
  rawPending := second.rawPending.trans first.rawPending
  groups := second.groups.trans first.groups
  offers := second.offers.trans first.offers

theorem quiet_act (now : Nat) {a : HubAct} (ha : a.offer? = none) : Quiet h (h.act now a) := by
  refine ⟨rfl, rfl, rfl, rfl, rfl, rfl, ?_⟩
  rw [offers_act, ha, Option.toList_none, List.append_nil]

theorem quiet_count (f : UdsCounters → UdsCounters) : Quiet h (h.count f) :=
  ⟨rfl, rfl, rfl, rfl, rfl, rfl, rfl⟩

theorem quiet_finishInFlight : Quiet h h.finishInFlight := ⟨rfl, rfl, rfl, rfl, rfl, rfl, rfl⟩

theorem quiet_sched {s : GroupScheduler} (hs : s.groups = h.sched.groups) :
    Quiet h { h with sched := s } := ⟨rfl, rfl, rfl, rfl, rfl, hs, rfl⟩

theorem quiet_failInFlight (now : Nat) (outcome : Outcome) :
    Quiet h (h.failInFlight now outcome) := by
  unfold failInFlight
  refine Quiet.trans ?_ ((quiet_finishInFlight).trans (quiet_act now rfl))
  split_ifs
  · have hsched : Quiet h { h with sched := (h.sched.onFailure h.inFlightSlot (millis now)).2 } :=
      quiet_sched (groups_onFailure ..)
    dsimp only
    split_ifs
    · exact hsched.trans (quiet_act now rfl)
    · exact hsched
  · exact Quiet.refl h

theorem quiet_suspendInFlight (now : Nat) (nrc : UInt8) : Quiet h (h.suspendInFlight now nrc) := by
  unfold suspendInFlight
  refine Quiet.trans ?_ ((quiet_act now rfl).trans (quiet_finishInFlight.trans (quiet_act now rfl)))
  split_ifs
  · exact (quiet_sched (groups_suspend _)).trans (quiet_count _)
  · exact Quiet.refl h

theorem quiet_slideDeadline (now : Nat) : Quiet h (h.slideDeadline now) := by
  unfold slideDeadline
  split
  · exact Quiet.refl h
  · exact quiet_sched (groups_armDeadline ..)
  · exact ⟨rfl, rfl, rfl, rfl, rfl, rfl, rfl⟩

theorem quiet_handleNegative (now : Nat) (nrc : UInt8) : Quiet h (h.handleNegative now nrc) := by
  have hstreak : Quiet h { h with pendingStreak := h.pendingStreak + 1 } :=
    ⟨rfl, rfl, rfl, rfl, rfl, rfl, rfl⟩
  unfold handleNegative
  split
  · dsimp only
    split_ifs
    · exact hstreak.trans (quiet_failInFlight now _)
    · exact (hstreak.trans (quiet_act now rfl)).trans
        (quiet_sched (groups_armDeadline ..))
    · exact (hstreak.trans (quiet_act now rfl)).trans ⟨rfl, rfl, rfl, rfl, rfl, rfl, rfl⟩
  · exact quiet_suspendInFlight now nrc
  · exact quiet_suspendInFlight now nrc
  · exact quiet_failInFlight now _
  · exact quiet_failInFlight now _

theorem quiet_acceptResponse (now : Nat) (resp : List UInt8) (uncovered : Bool) :
    Quiet h (h.acceptResponse now resp uncovered) := by
  have hdecode (h : UdsHub) :
      Quiet h (if h.inFlight = .raw then h else h.act now (.decode h.inFlightGroup resp)) := by
    split_ifs
    · exact Quiet.refl h
    · exact quiet_act now rfl
  have hsched (h : UdsHub) :
      Quiet h (if h.inFlight = .polled then
        { h with sched := (h.sched.onSuccess h.inFlightSlot (millis now)).2 } else h) := by
    split_ifs
    · exact quiet_sched (groups_onSuccess ..)
    · exact Quiet.refl h
  exact (quiet_count _).trans ((hdecode _).trans ((hsched _).trans
    (quiet_finishInFlight.trans (quiet_act now rfl))))

theorem quiet_onMessage (now : Nat) (resp : List UInt8) : Quiet h (h.onMessage now resp) := by
  unfold onMessage
  split_ifs
  · exact quiet_count _
  · split
    · exact quiet_count _
    · exact quiet_count _
    · exact (quiet_count _).trans (quiet_handleNegative now _)
    · exact quiet_acceptResponse now resp false
    · exact quiet_acceptResponse now resp true

theorem quiet_onError (now : Nat) : Quiet h (h.onError now) := by
  unfold onError
  split_ifs
  · exact Quiet.refl h
  · exact quiet_failInFlight now _

/-! ## What is asked next -/

variable {c : Catalog} {gi : Nat} {cfg : HubConfig}

theorem safeRequest_of_safeGroup {g : GroupView} {req : List UInt8}
    (hsafe : SafeGroup c gi) (hg : c.group gi = some g) (hreq : buildRequest c g = some req) :
    SafeRequest c gi req :=
  ⟨g, hg, hsafe g req hg hreq, requestBytes_of_buildRequest hreq⟩

/-- The actions put nothing into the queues but what `May` be asked for by its origin. -/
structure Allows (c : Catalog) (ecu : Option EcuView) (allow : Bool) (May : InFlight → Nat → Prop) :
    Prop where
  read : ∀ name gi g, c.findGroup ecu name = some gi → c.group gi = some g → g.safeRead = true →
    May .ondemand gi
  execute : allow = true → ∀ name gi, c.findGroup ecu name = some gi → May .ondemand gi
  raw : allow = true → May .raw noGroup

/-- Nothing was asked for, and nothing waits, but what `May` be asked for. -/
structure Confined (c : Catalog) (ecu : Option EcuView) (allow : Bool) (May : InFlight → Nat → Prop)
    (h : UdsHub) : Prop where
  catalog : h.catalog = some c
  ecu : h.ecu = ecu
  allow : h.allowActiveServices = allow
  offers : ∀ origin gi req, (origin, gi, req) ∈ h.offers →
    May origin gi ∧ (origin ≠ .raw → ∃ g, c.group gi = some g ∧ buildRequest c g = some req)
  rawPending : h.rawPending ≠ [] → May .raw noGroup
  ondemand : ∀ gi ∈ h.ondemand, May .ondemand gi
  polled : ∀ gi ∈ h.sched.groups, May .polled gi

namespace Confined

variable {c : Catalog} {ecu : Option EcuView} {allow : Bool} {May : InFlight → Nat → Prop}

theorem of_quiet {h h' : UdsHub} (hg : Confined c ecu allow May h) (hq : Quiet h h') :
    Confined c ecu allow May h' where
  catalog := hq.catalog.trans hg.catalog
  ecu := hq.ecu.trans hg.ecu
  allow := hq.allow.trans hg.allow
  offers := by
    rw [hq.offers]
    exact hg.offers
  rawPending := by
    rw [hq.rawPending]
    exact hg.rawPending
  ondemand := by
    rw [hq.ondemand]
    exact hg.ondemand
  polled := by
    rw [hq.groups]
    exact hg.polled

theorem enqueue (hg : Confined c ecu allow May h) {gi : Nat} (hgi : May .ondemand gi) :
    Confined c ecu allow May (h.enqueue gi) := by
  unfold UdsHub.enqueue
  split_ifs
  · exact hg
  · refine { hg with ondemand := ?_ }
    intro gi' hgi'
    rcases List.mem_append.mp hgi' with hgi' | hgi'
    · exact hg.ondemand gi' hgi'
    · rw [List.mem_singleton.mp hgi']
      exact hgi

theorem call (ha : Allows c ecu allow May) (hg : Confined c ecu allow May h) (a : Call) :
    Confined c ecu allow May (h.call a) := by
  have hactive : ¬ (!h.allowActiveServices) = true → allow = true := by
    rw [hg.allow]
    cases allow <;> decide
  cases a with
  | read name =>
    show Confined c ecu allow May (h.requestRead name)
    unfold requestRead
    rw [hg.catalog, hg.ecu]
    dsimp only
    split
    · exact hg
    · next gi hfind =>
      split
      · exact hg
      · next g hgroup =>
        split_ifs with hsafe
        · exact hg
        · exact hg.enqueue (ha.read name gi g hfind hgroup (by simpa using hsafe))
  | execute name =>
    show Confined c ecu allow May (h.requestExecute name)
    unfold requestExecute
    split_ifs with hallow
    · exact hg
    · rw [hg.catalog, hg.ecu]
      dsimp only
      split
      · exact hg
      · next gi hfind => exact hg.enqueue (ha.execute (hactive hallow) name gi hfind)
  | raw data =>
    show Confined c ecu allow May (h.sendRaw data)
    unfold sendRaw
    split_ifs with hallow
    · exact hg
    · exact hg
    · exact hg
    · exact { hg with rawPending := fun _ => ha.raw (hactive hallow) }
  | setEnabled enabled => exact { hg with }

theorem calls (ha : Allows c ecu allow May) (hg : Confined c ecu allow May h) (as : List Call) :
    Confined c ecu allow May (as.foldl UdsHub.call h) := by
  induction as generalizing h with
  | nil => exact hg
  | cons a as ih => exact ih (hg.call ha a)

/-- What may be asked for is handed to the transport. -/
theorem offer (hg : Confined c ecu allow May h) {now : Nat} {origin : InFlight} {gi : Nat}
    {req : List UInt8} {taken : Bool} (hmay : May origin gi)
    (hreq : origin ≠ .raw → ∃ g, c.group gi = some g ∧ buildRequest c g = some req) :
    Confined c ecu allow May (h.act now (.offer origin gi req taken)) where
  catalog := hg.catalog
  ecu := hg.ecu
  allow := hg.allow
  offers := by
    intro origin' gi' req' hmem
    rw [offers_act] at hmem
    rcases List.mem_append.mp hmem with hmem | hmem
    · exact hg.offers origin' gi' req' hmem
    · cases List.mem_singleton.mp hmem
      exact ⟨hmay, hreq⟩
  rawPending := hg.rawPending
  ondemand := hg.ondemand
  polled := hg.polled

theorem sendGroup (hg : Confined c ecu allow May h) {now : Nat} {taken : Bool} {origin : InFlight}
    {gi : Nat} (hmay : May origin gi) {result : SendResult} {h' : UdsHub}
    (hsend : h.sendGroup c now taken origin gi = (result, h')) : Confined c ecu allow May h' := by
  unfold UdsHub.sendGroup at hsend
  split at hsend
  · cases hsend
    exact hg
  · next g hgroup =>
    split at hsend
    · cases hsend
      exact hg
    · next req hreq =>
      have hoffer : Confined c ecu allow May (h.act now (.offer origin gi req taken)) :=
        hg.offer hmay fun _ => ⟨g, hgroup, hreq⟩
      dsimp only at hsend
      split_ifs at hsend
      · cases hsend
        exact { hoffer with }
      · cases hsend
        exact { hoffer with }

/-- One request less on demand. -/
theorem tail (hg : Confined c ecu allow May h) :
    Confined c ecu allow May { h with ondemand := h.ondemand.tail } :=
  { hg with ondemand := fun gi hgi => hg.ondemand gi (List.mem_of_mem_tail hgi) }

theorem issueNext (hg : Confined c ecu allow May h) (now : Nat) (taken : Bool) :
    Confined c ecu allow May (h.issueNext c now taken) := by
  unfold UdsHub.issueNext
  split_ifs with hraw
  · have hoffer : Confined c ecu allow May (h.act now (.offer .raw noGroup h.rawPending taken)) :=
      hg.offer (hg.rawPending hraw) fun hno => absurd rfl hno
    unfold issueRaw
    dsimp only
    split_ifs
    · exact hoffer
    · exact { hoffer with rawPending := fun hno => absurd rfl hno }
  · split
    · next gi gis hqueue =>
      have hmay : May .ondemand gi := by
        apply hg.ondemand
        rw [hqueue]
        exact List.mem_cons_self
      unfold issueOndemand
      split
      · next h' hsend => exact hg.sendGroup hmay hsend
      · next h' hsend => exact (hg.sendGroup hmay hsend).tail
      · next h' hsend => exact { (hg.sendGroup hmay hsend).tail with }
    · split
      · next sched hnext =>
        exact hg.of_quiet (quiet_sched (groups_of_next hnext))
      · next slot sched hnext =>
        have hsched : Confined c ecu allow May { h with sched := sched } :=
          hg.of_quiet (quiet_sched (groups_of_next hnext))
        obtain ⟨gi, hgi⟩ := next_spec hnext
        have hmay : May .polled gi := hsched.polled gi (List.mem_of_getElem? hgi)
        rw [hgi, Option.getD_some]
        unfold issuePolled
        split
        · next h' hsend => exact (hsched.sendGroup hmay hsend).of_quiet (quiet_sched rfl)
        · next h' hsend =>
          exact (hsched.sendGroup hmay hsend).of_quiet
            ((quiet_sched (groups_suspend _)).trans
              ((quiet_count _).trans (quiet_act now rfl)))
        · next h' hsend => exact { hsched.sendGroup hmay hsend with }

theorem checkDeadline (ha : Allows c ecu allow May) (hg : Confined c ecu allow May h) (now : Nat)
    (calls : List Call) : Confined c ecu allow May (h.checkDeadline now calls) := by
  unfold UdsHub.checkDeadline
  dsimp only
  split
  · exact hg
  · split
    · next sched hpoll =>
      exact hg.of_quiet (quiet_sched (groups_of_poll hpoll))
    · next slot unavailable sched hpoll =>
      have hquiet := (quiet_sched (groups_of_poll hpoll)).trans
        ((quiet_count fun n => { n with timeouts := n.timeouts + 1 }).trans quiet_finishInFlight)
      apply Confined.calls ha
      split_ifs
      · exact hg.of_quiet (hquiet.trans ((quiet_act now rfl).trans (quiet_act now rfl)))
      · exact hg.of_quiet (hquiet.trans (quiet_act now rfl))
  · split_ifs
    · apply Confined.calls ha
      exact hg.of_quiet ((quiet_count _).trans (quiet_finishInFlight.trans (quiet_act now rfl)))
    · exact hg

theorem loop (ha : Allows c ecu allow May) (hg : Confined c ecu allow May h) (now : Nat)
    (receiving taken : Bool) (calls : List Call) :
    Confined c ecu allow May (h.loop now receiving taken calls) := by
  have hslide : Confined c ecu allow May (if receiving then h.slideDeadline now else h) := by
    split_ifs
    · exact hg.of_quiet (quiet_slideDeadline now)
    · exact hg
  have hcheck := hslide.checkDeadline ha now calls
  unfold UdsHub.loop
  rw [hg.catalog]
  dsimp only
  generalize (if receiving then h.slideDeadline now else h).checkDeadline now calls = h' at hcheck ⊢
  split_ifs
  · exact hcheck.issueNext now taken
  · exact hcheck

theorem step (ha : Allows c ecu allow May) (hg : Confined c ecu allow May h) (e : Event) :
    Confined c ecu allow May (h.step e) := by
  cases e with
  | loop now receiving taken calls => exact hg.loop ha now receiving taken calls
  | message now resp =>
    show Confined c ecu allow May (if h.consumer then h.onMessage now resp else h)
    split_ifs
    · exact hg.of_quiet (quiet_onMessage now resp)
    · exact hg
  | error now =>
    show Confined c ecu allow May (if h.consumer then h.onError now else h)
    split_ifs
    · exact hg.of_quiet (quiet_onError now)
    · exact hg
  | call a => exact hg.call ha a

theorem exec (ha : Allows c ecu allow May) (hg : Confined c ecu allow May h) (events : List Event) :
    Confined c ecu allow May (Lib.exec UdsHub.step h events) := by
  induction events generalizing h with
  | nil => exact hg
  | cons e events ih => exact ih (hg.step ha e)

end Confined

/-! ## The poll table of the setup -/

/-- The group has an interval that the scheduler takes. -/
def Short (l : List (Nat × UInt32)) (gi : Nat) : Prop := ∃ p ∈ l, p.1 = gi ∧ p.2 < wrapHorizon

instance (l : List (Nat × UInt32)) (gi : Nat) : Decidable (Short l gi) :=
  inferInstanceAs (Decidable (∃ p ∈ l, _))

/-- The groups that are polled, in the order of their first bindings. -/
def polledGroups (l : List (Nat × UInt32)) : List Nat :=
  ((l.map Prod.fst).filter fun gi => Short l gi).eraseDups

theorem short_cons_iff {gj : Nat} {interval : UInt32} {rest : List (Nat × UInt32)} :
    Short ((gi, interval) :: rest) gj ↔ gi = gj ∧ interval < wrapHorizon ∨ Short rest gj := by
  unfold Short
  rw [List.exists_mem_cons_iff]

theorem minInterval_lt_iff {interval : UInt32} {rest : List (Nat × UInt32)} :
    minInterval gi interval rest < wrapHorizon ↔ Short ((gi, interval) :: rest) gi := by
  rw [short_cons_iff, eq_self, true_and]
  unfold minInterval
  induction rest generalizing interval with
  | nil => simp [Short]
  | cons p rest ih =>
    obtain ⟨gj, short⟩ := p
    rw [List.foldl_cons, ih, short_cons_iff]
    split_ifs with hp
    · constructor
      · rintro (hlt | hrest)
        · exact Or.inr (Or.inl ⟨hp.1, hlt⟩)
        · exact Or.inr (Or.inr hrest)
      · rintro (hlt | ⟨-, hlt⟩ | hrest)
        · exact Or.inl (UInt32.lt_trans hp.2 hlt)
        · exact Or.inl hlt
        · exact Or.inr hrest
    · constructor
      · rintro (hlt | hrest)
        · exact Or.inl hlt
        · exact Or.inr (Or.inr hrest)
      · rintro (hlt | ⟨hgi, hlt⟩ | hrest)
        · exact Or.inl hlt
        · have hle : interval ≤ short := UInt32.not_lt.mp fun h => hp ⟨hgi, h⟩
          exact Or.inl (UInt32.lt_of_le_of_lt hle hlt)
        · exact Or.inr hrest

theorem groups_add (s : GroupScheduler) (gi : Nat) (interval now : UInt32) :
    (s.add gi interval now).2.groups =
        s.groups ++ (if interval < wrapHorizon then [gi] else []).take
          (s.capacity - s.entries.length) ∧
      (s.add gi interval now).2.capacity - (s.add gi interval now).2.entries.length =
        (s.capacity - s.entries.length) - (if interval < wrapHorizon then 1 else 0) := by
  unfold add
  by_cases hshort : interval < wrapHorizon
  · have hnot := UInt32.not_le.mpr hshort
    by_cases hfull : s.capacity ≤ s.entries.length
    · rw [if_pos (Or.inl hfull), if_pos hshort, if_pos hshort, Nat.sub_eq_zero_of_le hfull]
      simp
    · rw [if_neg (by simp [hfull, hnot]), if_pos hshort, if_pos hshort]
      refine ⟨?_, ?_⟩
      · rw [List.take_of_length_le (show [gi].length ≤ s.capacity - s.entries.length by
          rw [List.length_singleton]; omega)]
        exact List.map_append
      · show s.capacity - (s.entries ++ [_]).length = _
        rw [List.length_append, List.length_singleton]
        omega
  · rw [if_pos (Or.inr (UInt32.not_lt.mp hshort)), if_neg hshort, if_neg hshort]
    simp

theorem groups_buildPollTable (now : UInt32) (l : List (Nat × UInt32)) (seen : List Nat)
    (s : GroupScheduler) :
    (buildPollTable now l seen s).groups =
      s.groups ++ (((l.map Prod.fst).filter fun gi => gi ∉ seen ∧ Short l gi).eraseDups.take
        (s.capacity - s.entries.length)) := by
  induction l generalizing seen s with
  | nil => simp [buildPollTable]
  | cons p rest ih =>
    obtain ⟨gi, interval⟩ := p
    rw [buildPollTable]
    split_ifs with hseen
    · rw [ih, List.map_cons, List.filter_cons_of_neg (by simp [hseen])]
      congr 3
      apply List.filter_congr
      intro gj _
      by_cases hgj : gj ∈ seen
      · simp [hgj]
      · have hne : gi ≠ gj := fun h => hgj (h ▸ hseen)
        simp [hgj, short_cons_iff, hne]
    · -- What is left of the later bindings once those of this group are dropped.
      have hrest : (rest.map Prod.fst).filter (fun gj => gj ∉ gi :: seen ∧ Short rest gj) =
          ((rest.map Prod.fst).filter fun gj =>
            gj ∉ seen ∧ Short ((gi, interval) :: rest) gj).filter fun gj => !gj == gi := by
        rw [List.filter_filter]
        apply List.filter_congr
        intro gj _
        by_cases hgj : gj = gi
        · simp [hgj]
        · simp [hgj, short_cons_iff, Ne.symm hgj]
      obtain ⟨hgroups, hroom⟩ := groups_add s gi (minInterval gi interval rest) now
      rw [ih, hgroups, hroom, hrest, List.map_cons]
      by_cases hshort : Short ((gi, interval) :: rest) gi
      · rw [if_pos (minInterval_lt_iff.mpr hshort), if_pos (minInterval_lt_iff.mpr hshort),
          List.filter_cons_of_pos (by simp [hseen, hshort]), List.eraseDups_cons, List.append_assoc]
        congr 1
        cases s.capacity - s.entries.length with
        | zero => rfl
        | succ n =>
          rw [Nat.add_sub_cancel, List.take_succ_cons, List.take_succ_cons, List.take_nil]
          rfl
      · rw [if_neg (mt minInterval_lt_iff.mp hshort), if_neg (mt minInterval_lt_iff.mp hshort),
          List.filter_cons_of_neg (by simp [hshort]), List.take_nil, List.append_nil, Nat.sub_zero]
        congr 3
        rw [List.filter_filter]
        apply List.filter_congr
        intro gj _
        by_cases hgj : gj = gi
        · simp [hgj, hshort]
        · simp [hgj]

/-- The groups of the poll table that the setup of a configuration builds. -/
def tableGroups (cfg : HubConfig) (c : Catalog) (ecu : EcuView) : List Nat :=
  (polledGroups (polled c ecu cfg.bindings)).take cfg.pollSlots

theorem groups_setup {ecu : EcuView}
    (hopen : cfg.memory.bind Catalog.open? = some c) (hecu : c.resolveEcu cfg.ecuName = some ecu)
    (boot : Nat) : (setup cfg boot).sched.groups = tableGroups cfg c ecu := by
  unfold setup
  rw [hopen]
  dsimp only
  rw [hecu]
  dsimp only
  rw [groups_buildPollTable]
  unfold tableGroups polledGroups
  simp [groups]

/-- Every group of the poll table is safe to read, unless its request cannot be assembled. -/
def PolledSafe (cfg : HubConfig) : Prop :=
  ∀ c ecu, cfg.memory.bind Catalog.open? = some c → c.resolveEcu cfg.ecuName = some ecu →
    ∀ gi ∈ tableGroups cfg c ecu, SafeGroup c gi

/-- A setup that opens its catalog has asked for nothing, and what waits is the poll table. -/
theorem confined_setup {May : InFlight → Nat → Prop}
    (hopen : cfg.memory.bind Catalog.open? = some c)
    (hpolled : ∀ ecu, c.resolveEcu cfg.ecuName = some ecu →
      ∀ gi ∈ tableGroups cfg c ecu, May .polled gi) (boot : Nat) :
    Confined c (c.resolveEcu cfg.ecuName) cfg.allowActiveServices May (setup cfg boot) := by
  cases hecu : c.resolveEcu cfg.ecuName with
  | none =>
    unfold setup
    rw [hopen]
    dsimp only
    rw [hecu]
    exact ⟨rfl, rfl, rfl, nofun, fun hno => absurd rfl hno, nofun, nofun⟩
  | some ecu =>
    have hgroups := groups_setup hopen hecu boot
    unfold setup at hgroups ⊢
    rw [hopen] at hgroups ⊢
    dsimp only at hgroups ⊢
    rw [hecu] at hgroups ⊢
    refine ⟨rfl, rfl, rfl, nofun, fun hno => absurd rfl hno, nofun, ?_⟩
    rw [hgroups]
    exact hpolled ecu hecu

/-- What the gate lets through. -/
def Gated (c : Catalog) (allow : Bool) (origin : InFlight) (gi : Nat) : Prop :=
  origin = .polled ∨ allow = false → origin ≠ .raw ∧ SafeGroup c gi

theorem allows_gated (c : Catalog) (ecu : Option EcuView) (allow : Bool) :
    Allows c ecu allow (Gated c allow) where
  read := by
    intro name gi g _ hgroup hsafe _
    refine ⟨nofun, fun g' req hgroup' _ => ?_⟩
    obtain rfl : g = g' := Option.some.inj (hgroup.symm.trans hgroup')
    exact hsafe
  execute := by
    rintro hallow name gi - (horigin | hfalse)
    · cases horigin
    · rw [hallow] at hfalse
      cases hfalse
  raw := by
    rintro hallow (horigin | hfalse)
    · cases horigin
    · rw [hallow] at hfalse
      cases hfalse

theorem Confined.keepsGate {ecu : Option EcuView} {allow : Bool}
    (hg : Confined c ecu allow (Gated c allow) h) : h.KeepsGate := by
  intro origin gi req hmem hgated
  rw [hg.allow] at hgated
  obtain ⟨hmay, hreq⟩ := hg.offers origin gi req hmem
  obtain ⟨hraw, hsafe⟩ := hmay hgated
  obtain ⟨g, hgroup, hbuild⟩ := hreq hraw
  exact ⟨c, hg.catalog, safeRequest_of_safeGroup hsafe hgroup hbuild⟩

/-- A hub without a catalog sends nothing. -/
theorem offers_of_closed (hclosed : cfg.memory.bind Catalog.open? = none)
    (boot : Nat) (events : List Event) : (run cfg boot events).offers = [] := by
  have hstep (h : UdsHub) (e : Event) :
      h.catalog = none ∧ h.consumer = false ∧ h.log = [] →
        (h.step e).catalog = none ∧ (h.step e).consumer = false ∧ (h.step e).log = [] := by
    rintro ⟨hcatalog, hconsumer, hlog⟩
    cases e with
    | loop now receiving taken calls => simp [step, loop, hcatalog, hconsumer, hlog]
    | message now resp => simp [step, hcatalog, hconsumer, hlog]
    | error now => simp [step, hcatalog, hconsumer, hlog]
    | call a =>
      cases a with
      | read name => simp [step, call, requestRead, hcatalog, hconsumer, hlog]
      | execute name => simp [step, call, requestExecute, hcatalog, hconsumer, hlog]
      | raw data =>
        show (h.sendRaw data).catalog = none ∧ (h.sendRaw data).consumer = false ∧
          (h.sendRaw data).log = []
        unfold sendRaw
        split_ifs <;> exact ⟨hcatalog, hconsumer, hlog⟩
      | setEnabled enabled => exact ⟨hcatalog, hconsumer, hlog⟩
  have hrun (h : UdsHub) (hh : h.catalog = none ∧ h.consumer = false ∧ h.log = []) :
      (exec step h events).log = [] := by
    induction events generalizing h with
    | nil => exact hh.2.2
    | cons e events ih => exact ih (h.step e) (hstep h e hh)
  have hsetup : (setup cfg boot).catalog = none ∧ (setup cfg boot).consumer = false ∧
      (setup cfg boot).log = [] := by
    unfold setup
    rw [hclosed]
    exact ⟨rfl, rfl, rfl⟩
  rw [offers, run, hrun _ hsetup]
  rfl

theorem keepsGate_of_polledSafe (hsafe : PolledSafe cfg) (boot : Nat)
    (events : List Event) : (run cfg boot events).KeepsGate := by
  cases hopen : cfg.memory.bind Catalog.open? with
  | none =>
    intro origin gi req hmem
    rw [offers_of_closed hopen] at hmem
    cases hmem
  | some c =>
    have hpolled : ∀ ecu, c.resolveEcu cfg.ecuName = some ecu → ∀ gi ∈ tableGroups cfg c ecu,
        Gated c cfg.allowActiveServices .polled gi :=
      fun ecu hecu gi hgi _ => ⟨nofun, hsafe c ecu hopen hecu gi hgi⟩
    exact ((confined_setup hopen hpolled boot).exec (allows_gated _ _ _) events).keepsGate

/-! ## A run that asks for any group of the table -/

theorem sendGroup_cases (c : Catalog) (now : Nat) (taken : Bool) (origin : InFlight) (gi : Nat) :
    (¬ ∃ g req, c.group gi = some g ∧ buildRequest c g = some req) ∧
        h.sendGroup c now taken origin gi = (.unsendable, h) ∨
      ∃ g req, c.group gi = some g ∧ buildRequest c g = some req ∧
        h.sendGroup c now taken origin gi =
          if taken then
            (.sent, { h.act now (.offer origin gi req taken) with
              req := req, inFlightGroup := gi, inFlightRespMin := g.respMinLen
              pendingStreak := 0 }.count fun n => { n with requestsSent := n.requestsSent + 1 })
          else (.busy, { h.act now (.offer origin gi req taken) with req := [] }) := by
  unfold sendGroup
  cases hgroup : c.group gi with
  | none => exact Or.inl ⟨nofun, rfl⟩
  | some g =>
    cases hreq : buildRequest c g with
    | none =>
      refine Or.inl ⟨?_, by simp [hreq]⟩
      rintro ⟨g', req, hg', hreq'⟩
      cases hg'
      rw [hreq] at hreq'
      cases hreq'
    | some req =>
      refine Or.inr ⟨g, req, rfl, hreq, ?_⟩
      cases taken <;> simp [hreq]

theorem step_error (hconsumer : h.consumer = true) (now : Nat) :
    h.step (.error now) = h.onError now := if_pos hconsumer

theorem onError_of_idle (hidle : h.inFlight = .none) (now : Nat) : h.onError now = h := if_pos hidle

theorem onError_of_busy (hbusy : h.inFlight ≠ .none) (now : Nat) :
    h.onError now = h.failInFlight now .transportError := if_neg hbusy

/-- Before the slot `j` nothing is due; it and what follows it is due since the boot. -/
structure Fresh (c : Catalog) (groups : List Nat) (boot j : Nat) (h : UdsHub) : Prop where
  catalog : h.catalog = some c
  consumer : h.consumer = true
  enabled : h.enabled = true
  idle : h.inFlight = .none
  rawPending : h.rawPending = []
  ondemand : h.ondemand = []
  free : h.sched.inFlight = none
  groups : h.sched.groups = groups
  before : ∀ e ∈ h.sched.entries.take j, ¬ e.Due (millis boot)
  after : ∀ e ∈ h.sched.entries.drop j, e.suspended = false ∧ e.nextDueMs = millis boot

namespace Fresh

variable {c : Catalog} {groups : List Nat} {boot j : Nat}

/-- The scheduler with the slot in flight. -/
def asked (h : UdsHub) (boot j : Nat) : GroupScheduler :=
  { h.sched with inFlight := some j, deadlineMs := millis boot + UInt32.ofNat h.p2Ms }

theorem next_eq (hf : Fresh c groups boot j h) (hj : j < groups.length) :
    h.sched.next (millis boot) (UInt32.ofNat h.p2Ms) = (some j, asked h boot j) := by
  have hlen : j < h.sched.entries.length := by
    have hgroups := congrArg List.length hf.groups
    rw [GroupScheduler.groups, List.length_map] at hgroups
    omega
  have hdrop := List.drop_eq_getElem_cons hlen
  have hhere := hf.after _ (hdrop ▸ List.mem_cons_self ..)
  have hbest : h.sched.best (millis boot) = some j := by
    apply best_eq_some (List.getElem?_eq_getElem hlen)
    · refine ⟨hhere.1, ?_⟩
      rw [hhere.2, UInt32.sub_self]
      decide
    · exact hf.before
    · intro e he
      have hdue := (hf.after e (hdrop ▸ List.mem_cons_of_mem _ he)).2
      exact UInt32.le_iff_toNat_le.mpr (Nat.le_of_eq (by rw [hhere.2, hdue]))
  rw [next, hf.free, if_neg (by simp), hbest]
  rfl

theorem loop_eq (hf : Fresh c groups boot j h) {gi : Nat} (hj : groups[j]? = some gi) :
    h.loop boot false true [] =
      { h with sched := asked h boot j }.issuePolled c boot true j gi := by
  obtain ⟨hlt, -⟩ := List.getElem?_eq_some_iff.mp hj
  have hcheck : h.checkDeadline boot [] = h := by
    unfold checkDeadline
    rw [hf.idle]
  have hgi : (asked h boot j).groups[j]? = some gi := by
    rw [show (asked h boot j).groups = h.sched.groups from rfl, hf.groups, hj]
  unfold UdsHub.loop
  conv_lhs => rw [hf.catalog]
  dsimp only
  rw [if_neg Bool.false_ne_true, hcheck, if_pos ⟨hf.idle, hf.enabled⟩]
  unfold UdsHub.issueNext
  rw [hf.rawPending, if_neg (by simp), hf.ondemand]
  dsimp only
  rw [hf.next_eq hlt]
  dsimp only
  rw [hgi, Option.getD_some]

/-- One slot more has been asked for, and it is not due. -/
theorem of_set (hf : Fresh c groups boot j h) {h' : UdsHub} {e : PollEntry}
    (hj : j < groups.length) (hcatalog : h'.catalog = h.catalog) (hconsumer : h'.consumer = h.consumer)
    (henabled : h'.enabled = h.enabled) (hidle : h'.inFlight = .none)
    (hraw : h'.rawPending = h.rawPending) (hondemand : h'.ondemand = h.ondemand)
    (hfree : h'.sched.inFlight = none) (hgroups : h'.sched.groups = h.sched.groups)
    (hentries : h'.sched.entries = h.sched.entries.set j e) (hdue : ¬ e.Due (millis boot)) :
    Fresh c groups boot (j + 1) h' := by
  have hlen : j < h.sched.entries.length := by
    have hlength := congrArg List.length hf.groups
    rw [GroupScheduler.groups, List.length_map] at hlength
    omega
  have hset := List.set_eq_take_append_cons_drop (l := h.sched.entries) (i := j) (a := e)
  rw [if_pos hlen] at hset
  have hfront : (h.sched.entries.take j).length = j := by
    rw [List.length_take]
    omega
  refine ⟨hcatalog.trans hf.catalog, hconsumer.trans hf.consumer, henabled.trans hf.enabled, hidle,
    hraw.trans hf.rawPending, hondemand.trans hf.ondemand, hfree, hgroups.trans hf.groups, ?_, ?_⟩
  · intro e' he'
    rw [hentries, hset, List.take_append, hfront, Nat.add_sub_cancel_left, List.take_succ_cons,
      List.take_zero, List.take_of_length_le (by omega)] at he'
    rcases List.mem_append.mp he' with he' | he'
    · exact hf.before e' he'
    · rwa [List.mem_singleton.mp he']
  · intro e' he'
    rw [hentries, hset, List.drop_append, hfront, Nat.add_sub_cancel_left, List.drop_succ_cons,
      List.drop_zero, List.drop_eq_nil_of_le (by omega), List.nil_append] at he'
    apply hf.after e'
    rw [List.drop_eq_getElem_cons hlen]
    exact List.mem_cons_of_mem _ he'

/-- The next slot is asked for, and it fails at once. -/
theorem next_slot (hf : Fresh c groups boot j h) {gi : Nat} (hj : groups[j]? = some gi) :
    Fresh c groups boot (j + 1) (exec step h [.loop boot false true [], .error boot]) := by
  obtain ⟨hlt, -⟩ := List.getElem?_eq_some_iff.mp hj
  have hlen : j < h.sched.entries.length := by
    have hlength := congrArg List.length hf.groups
    rw [GroupScheduler.groups, List.length_map] at hlength
    omega
  have hentry := List.getElem?_eq_getElem hlen
  have hasked : (asked h boot j).entries[j]? = some h.sched.entries[j] := hentry
  rw [exec_cons, exec_cons, exec_nil, show h.step (.loop boot false true []) = _ from hf.loop_eq hj]
  unfold issuePolled
  rcases sendGroup_cases (h := { h with sched := asked h boot j }) c boot true .polled gi with
    ⟨-, hsend⟩ | ⟨g, req, -, -, hsend⟩
  · -- It cannot be assembled, and the slot is suspended.
    rw [hsend]
    dsimp only
    rw [step_error, onError_of_idle, suspend_eq hasked rfl]
    · exact hf.of_set hlt rfl rfl rfl hf.idle rfl rfl rfl (groups_set hentry rfl) rfl
        (fun h => Bool.false_ne_true h.1.symm)
    · exact hf.idle
    · exact hf.consumer
  · rw [hsend, if_pos rfl]
    dsimp only
    rw [step_error, onError_of_busy]
    · unfold failInFlight
      rw [if_pos rfl]
      dsimp only [count, act]
      rw [onFailure_eq hasked rfl]
      dsimp only
      have hdue := PollEntry.not_due_failed h.sched.entries[j] (millis boot) h.sched.maxFailures
      split_ifs
      · exact hf.of_set hlt rfl rfl rfl rfl rfl rfl rfl (groups_set hentry rfl) rfl
          hdue
      · exact hf.of_set hlt rfl rfl rfl rfl rfl rfl rfl (groups_set hentry rfl) rfl
          hdue
    · intro hidle
      cases hidle
    · exact hf.consumer

/-- Every slot of the table is reached. -/
theorem reach (hf : Fresh c groups boot 0 h) (hj : j < groups.length) :
    ∃ events, Fresh c groups boot j (exec step h events) := by
  induction j with
  | zero => exact ⟨[], hf⟩
  | succ j ih =>
    obtain ⟨events, hevents⟩ := ih (Nat.lt_of_succ_lt hj)
    have hslot := List.getElem?_eq_getElem (Nat.lt_of_succ_lt hj)
    refine ⟨events ++ [.loop boot false true [], .error boot], ?_⟩
    rw [exec_append]
    exact hevents.next_slot hslot

/-- The group of the slot is asked for. -/
theorem mem_offers (hf : Fresh c groups boot j h) {gi : Nat} (hj : groups[j]? = some gi)
    {g : GroupView} {req : List UInt8} (hgroup : c.group gi = some g)
    (hreq : buildRequest c g = some req) :
    (.polled, gi, req) ∈ (h.loop boot false true []).offers ∧
      (h.loop boot false true []).catalog = some c := by
  rw [hf.loop_eq hj]
  unfold issuePolled
  rcases sendGroup_cases (h := { h with sched := asked h boot j }) c boot true .polled gi with
    ⟨hnone, -⟩ | ⟨g', req', hgroup', hreq', hsend⟩
  · exact absurd ⟨g, req, hgroup, hreq⟩ hnone
  · obtain rfl := Option.some.inj (hgroup.symm.trans hgroup')
    obtain rfl := Option.some.inj (hreq.symm.trans hreq')
    rw [hsend, if_pos rfl]
    refine ⟨?_, hf.catalog⟩
    show _ ∈ (act _ boot (.offer .polled gi req true)).offers
    rw [offers_act]
    exact List.mem_append_right _ (List.mem_singleton.mpr rfl)

end Fresh

theorem buildPollTable_fresh (now : UInt32) (l : List (Nat × UInt32)) (seen : List Nat)
    (s : GroupScheduler) :
    (buildPollTable now l seen s).inFlight = s.inFlight ∧
      ∀ e ∈ (buildPollTable now l seen s).entries,
        e ∈ s.entries ∨ e.suspended = false ∧ e.nextDueMs = now := by
  induction l generalizing seen s with
  | nil => exact ⟨rfl, fun _ => Or.inl⟩
  | cons p rest ih =>
    obtain ⟨gi, interval⟩ := p
    rw [buildPollTable]
    split_ifs
    · exact ih seen s
    · obtain ⟨hflight, hentries⟩ := ih (gi :: seen) (s.add gi (minInterval gi interval rest) now).2
      refine ⟨?_, ?_⟩
      · rw [hflight]
        unfold add
        split_ifs <;> rfl
      · intro e he
        rcases hentries e he with hmem | hfresh
        · unfold add at hmem
          split_ifs at hmem
          · exact Or.inl hmem
          · rcases List.mem_append.mp hmem with hmem | hmem
            · exact Or.inl hmem
            · rw [List.mem_singleton.mp hmem]
              exact Or.inr ⟨rfl, rfl⟩
        · exact Or.inr hfresh

theorem fresh_setup {ecu : EcuView}
    (hopen : cfg.memory.bind Catalog.open? = some c) (hecu : c.resolveEcu cfg.ecuName = some ecu)
    (boot : Nat) : Fresh c (tableGroups cfg c ecu) boot 0 (setup cfg boot) := by
  have hgroups := groups_setup hopen hecu boot
  unfold setup at hgroups ⊢
  rw [hopen] at hgroups ⊢
  dsimp only at hgroups ⊢
  rw [hecu] at hgroups ⊢
  obtain ⟨hflight, hentries⟩ := buildPollTable_fresh (millis boot) (polled c ecu cfg.bindings) []
    { capacity := cfg.pollSlots, maxFailures := cfg.maxConsecutiveFailures }
  refine ⟨rfl, rfl, rfl, rfl, rfl, rfl, hflight, hgroups, nofun, ?_⟩
  intro e he
  rcases hentries e he with hmem | hfresh
  · cases hmem
  · exact hfresh

theorem polledSafe_of_keepsGate {boot : Nat}
    (hgate : ∀ events, (run cfg boot events).KeepsGate) : PolledSafe cfg := by
  intro c ecu hopen hecu gi hgi g req hgroup hreq
  obtain ⟨j, hlt, hj⟩ := List.getElem_of_mem hgi
  obtain ⟨events, hevents⟩ := (fresh_setup hopen hecu boot).reach hlt
  obtain ⟨hmem, hcatalog⟩ :=
    hevents.mem_offers (hj ▸ List.getElem?_eq_getElem hlt) hgroup hreq
  have hrun : run cfg boot (events ++ [.loop boot false true []]) =
      (exec step (setup cfg boot) events).loop boot false true [] := by
    rw [run, exec_append]
    rfl
  have hkeeps := hgate (events ++ [.loop boot false true []])
  rw [hrun] at hkeeps
  obtain ⟨c', hc', g', hgroup', hsafe, -⟩ := hkeeps .polled gi req hmem (Or.inl rfl)
  rw [hcatalog] at hc'
  obtain rfl := Option.some.inj hc'
  obtain rfl := Option.some.inj (hgroup.symm.trans hgroup')
  exact hsafe

/-- The gate holds in every run exactly if every group that the setup puts into the poll table is
safe to read. -/
theorem keepsGate_iff (cfg : HubConfig) (boot : Nat) :
    (∀ events, (run cfg boot events).KeepsGate) ↔ PolledSafe cfg :=
  ⟨polledSafe_of_keepsGate, fun hsafe events => keepsGate_of_polledSafe hsafe boot events⟩

end UdsHub

/-! ## A routine with an interval -/

/-- What codegen sets for a hub, with the bytes that are flashed. -/
def hubConfig (cat : Compiler.Catalog) (yaml : Config.HubYaml) (memory : List UInt8) : HubConfig :=
  { memory := some memory, ecuName := yaml.ecuName.map cstr
    bindings := Config.emittedBindings cat yaml, pollSlots := Config.pollSlots cat yaml
    maxConsecutiveFailures := yaml.maxConsecutiveFailures
    allowActiveServices := yaml.allowActiveServices }

/-- One ECU whose only group starts a routine. -/
def routineCatalog : Compiler.Catalog :=
  { ecus :=
      [{ name := ascii "A", requestId := 0x7E0, responseId := 0x7E8
         groups :=
          [{ name := ascii "G", request := [0x31, 0x01, 0x02]
             fields := [{ name := ascii "F", bitPos := 24, bitSize := 8 }] }] }] }

def routineBlob : List UInt8 :=
  match Compiler.writeCatalog routineCatalog with
  | .ok blob => blob
  | .error _ => []

/-- A sensor with `update_interval: 1s` on a field of its response. -/
def routineYaml : Config.HubYaml :=
  { entities :=
      [{ binding := { ecuName := none, field := ascii "F", service := none, element := 0 }
         wantText := false, intervalMs := 1000 }] }

set_option maxRecDepth 20000 in
theorem not_keepsGate_sample :
    ¬ ∀ (cat : Compiler.Catalog) (yaml : Config.HubYaml) (memory : List UInt8) (boot : Nat)
      (events : List UdsHub.Event), yaml.accepted cat = true →
        (UdsHub.run (hubConfig cat yaml memory) boot events).KeepsGate := by
  intro h
  have hgate := h routineCatalog routineYaml routineBlob 0 [.loop 0 false true []]
    (by decide) .polled 0 [0x31, 0x01, 0x02] (by decide) (Or.inl rfl)
  obtain ⟨c, hc, g, hgroup, hsafe, -⟩ := hgate
  have hflag : ((UdsHub.run (hubConfig routineCatalog routineYaml routineBlob) 0
      [.loop 0 false true []]).catalog.bind fun c => c.group 0).map GroupView.safeRead =
        some false := by decide
  rw [hc, Option.bind_some, hgroup, Option.map_some, hsafe] at hflag
  cases hflag

end EspCars.Uds
