import EspCars.Uds.InFlight

/-!
# No response timeout before its time

A request is promised P2 from when it was sent, and P2* from every 0x78 that was accepted for it. One
deadline stands for both, and each of the three rules that set it writes over what was there. The
deadline stays behind the promises as long as every step that sets it reaches at least as far
(`KeepsPromise`); after the first step that does not, a loop at the deadline breaks a promise.
-/

namespace EspCars.Uds

open EspCars.Lib

/-! ## The promises of a log -/

/-- When the last request was sent, and when the last 0x78 was accepted for it. -/
structure Promise where
  sent : Option Nat
  pending : Option Nat
  deriving DecidableEq

namespace Promise

def act (p : Promise) (e : Nat × HubAct) : Promise :=
  match e.2 with
  | .offer _ _ _ true => { sent := some e.1, pending := none }
  | .pending => { p with pending := some e.1 }
  | _ => p

/-- A timeout at `t` is not early. -/
def Kept (p : Promise) (p2Ms p2ExtMs t : Nat) : Prop :=
  (∀ t₀, p.sent = some t₀ → t₀ + p2Ms ≤ t) ∧ ∀ t₁, p.pending = some t₁ → t₁ + p2ExtMs ≤ t

theorem Kept.mono {p : Promise} {p2Ms p2ExtMs t t' : Nat} (h : p.Kept p2Ms p2ExtMs t)
    (hle : t ≤ t') : p.Kept p2Ms p2ExtMs t' :=
  ⟨fun t₀ h₀ => (h.1 t₀ h₀).trans hle, fun t₁ h₁ => (h.2 t₁ h₁).trans hle⟩

theorem act_neutral (p : Promise) {e : Nat × HubAct} (h : e.2.neutral = true) : p.act e = p := by
  obtain ⟨t, a⟩ := e
  cases a with
  | offer origin group req taken =>
    cases taken with
    | false => rfl
    | true => cases h
  | pending => cases h
  | ended outcome => rfl
  | decode group resp => rfl
  | unavailable group => rfl

end Promise

/-- The promise behind a log. -/
def promise (log : List (Nat × HubAct)) : Promise := log.foldl Promise.act ⟨none, none⟩

theorem promise_concat (log : List (Nat × HubAct)) (e : Nat × HubAct) :
    promise (log ++ [e]) = (promise log).act e := by
  unfold promise
  rw [List.foldl_append]
  rfl

theorem promise_neutral {log acts : List (Nat × HubAct)}
    (hacts : ∀ p ∈ acts, p.2.neutral = true) : promise (log ++ acts) = promise log := by
  induction acts generalizing log with
  | nil => rw [List.append_nil]
  | cons e acts ih =>
    rw [List.append_cons, ih fun p hp => hacts p (List.mem_cons_of_mem _ hp), promise_concat,
      Promise.act_neutral _ (hacts e List.mem_cons_self)]

/-- No request was failed with a response timeout before its time. -/
def Timely (p2Ms p2ExtMs : Nat) (log : List (Nat × HubAct)) : Prop :=
  ∀ before t, before ++ [(t, .ended .timeout)] <+: log → (promise before).Kept p2Ms p2ExtMs t

section Timely

variable {p2Ms p2ExtMs : Nat} {log : List (Nat × HubAct)}

theorem timely_nil : Timely p2Ms p2ExtMs [] := by
  intro before t h
  have hlen := h.length_le
  rw [List.length_append] at hlen
  exact absurd hlen (by simp)

theorem Timely.of_prefix {log' : List (Nat × HubAct)} (h : Timely p2Ms p2ExtMs log')
    (hpre : log <+: log') : Timely p2Ms p2ExtMs log :=
  fun before t hbefore => h before t (hbefore.trans hpre)

theorem timely_concat_iff {e : Nat × HubAct} :
    Timely p2Ms p2ExtMs (log ++ [e]) ↔
      Timely p2Ms p2ExtMs log ∧
        (e.2 = .ended .timeout → (promise log).Kept p2Ms p2ExtMs e.1) := by
  constructor
  · intro h
    refine ⟨h.of_prefix ⟨[e], rfl⟩, ?_⟩
    obtain ⟨t, a⟩ := e
    rintro rfl
    exact h log t ⟨[], List.append_nil _⟩
  · rintro ⟨hlog, hlast⟩ before t hbefore
    rcases List.prefix_concat_iff.mp hbefore with heq | hbefore
    · obtain ⟨rfl, hsingle⟩ := List.append_inj' heq rfl
      obtain rfl := List.singleton_inj.mp hsingle
      exact hlast rfl
    · exact hlog before t hbefore

theorem Timely.concat (h : Timely p2Ms p2ExtMs log) {e : Nat × HubAct}
    (he : e.2 ≠ .ended .timeout) : Timely p2Ms p2ExtMs (log ++ [e]) :=
  timely_concat_iff.mpr ⟨h, fun h => absurd h he⟩

theorem Timely.neutral {acts : List (Nat × HubAct)} (h : Timely p2Ms p2ExtMs log)
    (hacts : ∀ p ∈ acts, p.2.neutral = true) : Timely p2Ms p2ExtMs (log ++ acts) := by
  induction acts generalizing log with
  | nil => rwa [List.append_nil]
  | cons e acts ih =>
    rw [List.append_cons]
    apply ih
    · apply h.concat
      intro he
      have hneutral := hacts e List.mem_cons_self
      rw [he] at hneutral
      cases hneutral
    · exact fun p hp => hacts p (List.mem_cons_of_mem _ hp)

end Timely

/-! ## The clock -/

/-- A deadline that is not far ahead is reached only when its time has come. -/
theorem le_of_timeReached {now due : Nat} (hreached : timeReached (millis now) (UInt32.ofNat due))
    (hnear : due ≤ now + 65535) : due ≤ now := by
  unfold timeReached millis at hreached
  have hlt := UInt32.lt_iff_toNat_lt.mp (of_decide_eq_true hreached)
  rw [UInt32.toNat_sub, show wrapHorizon.toNat = 2147483648 from rfl] at hlt
  simp only [UInt32.toNat_ofNat'] at hlt
  omega

theorem timeReached_self (now : Nat) : timeReached (millis now) (UInt32.ofNat now) = true := by
  unfold timeReached millis
  rw [UInt32.sub_self]
  rfl

theorem millis_add (now ms : Nat) : millis now + UInt32.ofNat ms = UInt32.ofNat (now + ms) :=
  (UInt32.ofNat_add now ms).symm

namespace UdsHub

variable {h : UdsHub}

def Event.time? : Event → Option Nat
  | .loop now _ _ _ => some now
  | .message now _ => some now
  | .error now => some now
  | .call _ => none

/-- The time of an event after `last`; a call is made between two times. -/
def Event.at (last : Nat) (e : Event) : Nat := e.time?.getD last

/-- The clock does not run backwards. -/
def Ordered : Nat → List Event → Prop
  | _, [] => True
  | last, e :: events => last ≤ e.at last ∧ Ordered (e.at last) events

def lastTime (last : Nat) (events : List Event) : Nat := events.foldl Event.at last

theorem ordered_append_iff {last : Nat} {as bs : List Event} :
    Ordered last (as ++ bs) ↔ Ordered last as ∧ Ordered (lastTime last as) bs := by
  induction as generalizing last with
  | nil => exact (true_and _).symm ▸ Iff.rfl
  | cons e as ih =>
    rw [List.cons_append, Ordered, Ordered, ih, and_assoc]
    rfl

/-- The deadline that the step sets is not before the one that was promised: P2 from the loop while
the transport receives, and P2* from an accepted 0x78. -/
def KeepsPromise (h : UdsHub) : Event → Prop
  | .loop now true _ _ =>
    h.inFlight ≠ .none → ∀ t₁, (promise h.log).pending = some t₁ → t₁ + h.p2ExtMs ≤ now + h.p2Ms
  | .message now resp =>
    h.consumer = true → AcceptsPending h resp →
      ∀ t₀, (promise h.log).sent = some t₀ → t₀ + h.p2Ms ≤ now + h.p2ExtMs
  | _ => True

/-- No timeout was early, and the deadline stands for a time at which none will be. -/
structure Punctual (p2Ms p2ExtMs last : Nat) (fl : Flight) : Prop where
  timely : Timely p2Ms p2ExtMs fl.log
  sent : ∀ t₀, (promise fl.log).sent = some t₀ → t₀ ≤ last
  due : ∀ d, fl.deadline = some d → ∃ due, d = UInt32.ofNat due ∧ due ≤ last + 65535 ∧
    (promise fl.log).Kept p2Ms p2ExtMs due

namespace Punctual

variable {p2Ms p2ExtMs last : Nat}

variable {now : Nat} {h' : UdsHub}

theorem later {fl : Flight} (hp : Punctual p2Ms p2ExtMs last fl) (hle : last ≤ now) :
    Punctual p2Ms p2ExtMs now fl := by
  refine ⟨hp.timely, fun t₀ h₀ => (hp.sent t₀ h₀).trans hle, ?_⟩
  intro d hd
  obtain ⟨due, hdue, hnear, hkept⟩ := hp.due d hd
  exact ⟨due, hdue, by omega, hkept⟩

theorem slide {fl : Flight} (hp : Punctual p2Ms p2ExtMs last fl) (hp2 : p2Ms < 65536)
    (hkeeps : fl.deadline ≠ none →
      ∀ t₁, (promise fl.log).pending = some t₁ → t₁ + p2ExtMs ≤ last + p2Ms) :
    Punctual p2Ms p2ExtMs last
      { fl with deadline := fl.deadline.map fun _ => millis last + UInt32.ofNat p2Ms } := by
  refine ⟨hp.timely, hp.sent, ?_⟩
  intro d hd
  cases hdeadline : fl.deadline with
  | none =>
    rw [hdeadline] at hd
    cases hd
  | some d₀ =>
    rw [hdeadline, Option.map_some, millis_add] at hd
    refine ⟨last + p2Ms, (Option.some.inj hd).symm, by omega, ?_, ?_⟩
    · intro t₀ h₀
      exact Nat.add_le_add_right (hp.sent t₀ h₀) p2Ms
    · exact hkeeps (by rw [hdeadline]; nofun)

theorem ended {outcome : Outcome}
    (hp : Punctual p2Ms p2ExtMs now h.flight) (he : Ended h h' now outcome)
    (htime : outcome = .timeout → h.flight.deadline.any (timeReached (millis now)) = true) :
    Punctual p2Ms p2ExtMs now h'.flight := by
  obtain ⟨acts, hneutral, hflight⟩ := he
  have hpromise : promise (h.log ++ acts) = promise h.log := promise_neutral hneutral
  rw [hflight]
  refine ⟨?_, ?_, nofun⟩
  · refine timely_concat_iff.mpr ⟨hp.timely.neutral hneutral, ?_⟩
    intro hout
    have hreached := htime (HubAct.ended.inj hout)
    cases hd : h.flight.deadline with
    | none =>
      rw [hd] at hreached
      cases hreached
    | some d =>
      obtain ⟨due, rfl, hnear, hkept⟩ := hp.due d hd
      rw [hd, Option.any_some] at hreached
      rw [hpromise]
      exact hkept.mono (le_of_timeReached hreached hnear)
  · intro t₀ h₀
    rw [promise_concat, hpromise] at h₀
    exact hp.sent t₀ h₀

theorem issued {taken : Bool} (hp2 : p2Ms < 65536)
    (hp : Punctual p2Ms p2ExtMs now h.flight) (hi : Issued h h' now taken) (hms : h.p2Ms = p2Ms) :
    Punctual p2Ms p2ExtMs now h'.flight := by
  obtain ⟨acts, hneutral, hflight⟩ | ⟨-, origin, group, req, hflight⟩ := hi
  · rw [hflight]
    refine ⟨hp.timely.neutral hneutral, ?_, nofun⟩
    rw [promise_neutral hneutral]
    exact hp.sent
  · have hpromise : promise (h.log ++ [(now, .offer origin group req true)]) = ⟨some now, none⟩ :=
      promise_concat h.log _
    rw [hflight]
    refine ⟨hp.timely.concat nofun, ?_, ?_⟩
    · intro t₀ h₀
      rw [hpromise] at h₀
      exact Nat.le_of_eq (Option.some.inj h₀).symm
    · intro d hd
      rw [hms, millis_add] at hd
      refine ⟨now + p2Ms, (Option.some.inj hd).symm, by omega, ?_⟩
      rw [hpromise]
      refine ⟨?_, nofun⟩
      rintro t₀ ⟨⟩
      exact Nat.le_refl _

theorem waits (hp2 : p2ExtMs < 65536)
    (hp : Punctual p2Ms p2ExtMs now h.flight) (hw : Waits h h' now) (hms : h.p2ExtMs = p2ExtMs)
    (hkeeps : ∀ t₀, (promise h.log).sent = some t₀ → t₀ + p2Ms ≤ now + p2ExtMs) :
    Punctual p2Ms p2ExtMs now h'.flight := by
  have hpromise : promise (h.log ++ [(now, .pending)]) = { promise h.log with pending := some now } :=
    promise_concat h.log _
  unfold Waits at hw
  rw [hw]
  refine ⟨hp.timely.concat nofun, ?_, ?_⟩
  · intro t₀ h₀
    rw [hpromise] at h₀
    exact hp.sent t₀ h₀
  · intro d hd
    rw [hms, millis_add] at hd
    refine ⟨now + p2ExtMs, (Option.some.inj hd).symm, by omega, ?_⟩
    rw [hpromise]
    refine ⟨hkeeps, ?_⟩
    rintro t₁ ⟨⟩
    exact Nat.le_refl _

end Punctual

/-! ## One step -/

/-- Whose response times are `p2Ms` and `p2ExtMs`. -/
structure Timed (p2Ms p2ExtMs : Nat) (h : UdsHub) : Prop where
  sound : Sound h
  p2 : h.p2Ms = p2Ms
  p2Ext : h.p2ExtMs = p2ExtMs

variable {p2Ms p2ExtMs : Nat}

theorem Timed.of_fixed {h' : UdsHub} (ht : Timed p2Ms p2ExtMs h) (hs : Sound h')
    (hfixed : h'.fixed = h.fixed) : Timed p2Ms p2ExtMs h' := by
  have hp2 : h'.p2Ms = h.p2Ms := congrArg (fun f => f.2.1) hfixed
  have hp2Ext : h'.p2ExtMs = h.p2ExtMs := congrArg (fun f => f.2.2.1) hfixed
  exact ⟨hs, hp2.trans ht.p2, hp2Ext.trans ht.p2Ext⟩

theorem Timed.step (ht : Timed p2Ms p2ExtMs h) (e : Event) : Timed p2Ms p2ExtMs (h.step e) :=
  ht.of_fixed (sound_step ht.sound e) (fixed_step e)

theorem punctual_checkDeadline (ht : Timed p2Ms p2ExtMs h) {now : Nat}
    (hp : Punctual p2Ms p2ExtMs now h.flight) (calls : List Call) :
    Punctual p2Ms p2ExtMs now (h.checkDeadline now calls).flight := by
  have hspec := checkDeadline_spec ht.sound.agree now calls
  split_ifs at hspec with hreached
  · exact hp.ended hspec.2 fun _ => hreached
  · rwa [hspec]

theorem punctual_loop (ht : Timed p2Ms p2ExtMs h) (hp2 : p2Ms < 65536) {now : Nat}
    (hp : Punctual p2Ms p2ExtMs now h.flight) {receiving : Bool} {taken : Bool} {calls : List Call}
    (hkeeps : h.KeepsPromise (.loop now receiving taken calls)) :
    Punctual p2Ms p2ExtMs now (h.loop now receiving taken calls).flight := by
  unfold loop
  split
  · exact hp
  · next c hc =>
    dsimp only
    have hslid : Punctual p2Ms p2ExtMs now
          (if receiving then h.slideDeadline now else h).flight ∧
        Timed p2Ms p2ExtMs (if receiving then h.slideDeadline now else h) := by
      cases receiving with
      | false => exact ⟨hp, ht⟩
      | true =>
        rw [if_pos rfl]
        refine ⟨?_, ht.of_fixed (sound_slideDeadline ht.sound now) (fixed_slideDeadline now)⟩
        rw [flight_slideDeadline ht.sound.agree now, ht.p2]
        apply hp.slide hp2
        intro hbusy
        rw [Ne, flight_deadline_eq_none] at hbusy
        rw [← ht.p2, ← ht.p2Ext]
        exact hkeeps hbusy
    generalize (if receiving then h.slideDeadline now else h) = slid at hslid ⊢
    have hchecked := punctual_checkDeadline hslid.2 hslid.1 calls
    have htimed := hslid.2.of_fixed (sound_checkDeadline hslid.2.sound now calls)
      (fixed_checkDeadline (h := slid) now calls)
    split_ifs with hnext
    · exact hchecked.issued hp2 (issueNext_spec htimed.sound.agree hnext.1 c now taken).2 htimed.p2
    · exact hchecked

theorem punctual_onMessage (ht : Timed p2Ms p2ExtMs h) (hp2 : p2ExtMs < 65536) {now : Nat}
    (hp : Punctual p2Ms p2ExtMs now h.flight) {resp : List UInt8}
    (hkeeps : AcceptsPending h resp →
      ∀ t₀, (promise h.log).sent = some t₀ → t₀ + h.p2Ms ≤ now + h.p2ExtMs) :
    Punctual p2Ms p2ExtMs now (h.onMessage now resp).flight := by
  by_cases hu : Unanswered h resp
  · obtain ⟨f, heq⟩ := onMessage_unanswered hu now
    rw [heq]
    exact hp
  · obtain ⟨-, -, ⟨hpending, hwaits⟩ | ⟨-, outcome, hout, hended⟩⟩ :=
      onMessage_answered ht.sound.agree hu now
    · apply hp.waits hp2 hwaits ht.p2Ext
      rw [← ht.p2, ← ht.p2Ext]
      exact hkeeps hpending
    · exact hp.ended hended fun h => absurd h hout

/-- A step that keeps the promises, at a time that is not before the last one. -/
theorem punctual_step (ht : Timed p2Ms p2ExtMs h) (hp2 : p2Ms < 65536) (hp2Ext : p2ExtMs < 65536)
    {last : Nat} (hp : Punctual p2Ms p2ExtMs last h.flight) {e : Event}
    (hlater : last ≤ e.at last) (hkeeps : h.KeepsPromise e) :
    Punctual p2Ms p2ExtMs (e.at last) (h.step e).flight := by
  have hnow := hp.later hlater
  cases e with
  | loop now receiving taken calls => exact punctual_loop ht hp2 hnow hkeeps
  | message now resp =>
    show Punctual p2Ms p2ExtMs now (if h.consumer then h.onMessage now resp else h).flight
    split_ifs with hconsumer
    · exact punctual_onMessage ht hp2Ext hnow (hkeeps hconsumer)
    · exact hnow
  | error now =>
    show Punctual p2Ms p2ExtMs now (if h.consumer then h.onError now else h).flight
    unfold onError
    split_ifs
    · exact hnow
    · exact hnow.ended (failInFlight_spec ht.sound.agree now .transportError).2 nofun
    · exact hnow
  | call c =>
    show Punctual p2Ms p2ExtMs last (h.call c).flight
    rw [(onlyWaiting_call h c).flight]
    exact hnow

/-! ## Runs -/

theorem punctual_exec (ht : Timed p2Ms p2ExtMs h) (hp2 : p2Ms < 65536) (hp2Ext : p2ExtMs < 65536)
    {last : Nat} (hp : Punctual p2Ms p2ExtMs last h.flight) {events : List Event}
    (hclock : Ordered last events) (hkeeps : Admitted KeepsPromise step h events) :
    Timed p2Ms p2ExtMs (exec step h events) ∧
      Punctual p2Ms p2ExtMs (lastTime last events) (exec step h events).flight := by
  induction events generalizing h last with
  | nil => exact ⟨ht, hp⟩
  | cons e events ih =>
    exact ih (ht.step e) (punctual_step ht hp2 hp2Ext hp hclock.1 hkeeps.1) hclock.2 hkeeps.2

/-- The deadline is before a promise: a loop at the deadline breaks it. -/
theorem not_timely_loop (ht : Timed p2Ms p2ExtMs h) {due : Nat}
    (hdue : h.flight.deadline = some (UInt32.ofNat due))
    (hbroken : ¬(promise h.log).Kept p2Ms p2ExtMs due) :
    ¬Timely p2Ms p2ExtMs (h.step (.loop due false false [])).log := by
  intro htimely
  have hpast : h.flight.deadline.any (timeReached (millis due)) = true := by
    rw [hdue]
    exact timeReached_self due
  obtain ⟨acts, rest, hneutral, hlog, -⟩ := timedOut_loop ht.sound hpast false []
  apply hbroken
  rw [← promise_neutral hneutral]
  exact htimely (h.log ++ acts) due ⟨rest, hlog.symm⟩

/-- A step that does not keep the promises leaves a deadline before one of them. -/
theorem broken_step (ht : Timed p2Ms p2ExtMs h) (hpos : 0 < p2Ms) (hp2 : p2Ms < 65536)
    {e : Event} (hbreaks : ¬h.KeepsPromise e) (last : Nat) :
    ∃ due, e.at last ≤ due ∧ (h.step e).flight.deadline = some (UInt32.ofNat due) ∧
      ¬(promise (h.step e).log).Kept p2Ms p2ExtMs due := by
  cases e with
  | loop now receiving taken calls =>
    cases receiving with
    | false => exact absurd trivial hbreaks
    | true =>
      unfold KeepsPromise at hbreaks
      push Not at hbreaks
      obtain ⟨hbusy, t₁, hpending, hlt⟩ := hbreaks
      have hflight := flight_slideDeadline ht.sound.agree now
      obtain ⟨d, hd⟩ := Option.ne_none_iff_exists'.mp (mt flight_deadline_eq_none.mp hbusy)
      rw [hd, Option.map_some, ht.p2, millis_add] at hflight
      have hdeadline : (h.slideDeadline now).flight.deadline = some (UInt32.ofNat (now + p2Ms)) :=
        congrArg Flight.deadline hflight
      have hspec := checkDeadline_spec (agree_slideDeadline ht.sound.agree now) now calls
      have hnot : ¬timeReached (millis now) (UInt32.ofNat (now + p2Ms)) = true := by
        intro hreached
        have := le_of_timeReached hreached (by omega)
        omega
      rw [hdeadline, Option.any_some, if_neg hnot] at hspec
      have hstays : (h.slideDeadline now).inFlight ≠ .none := by
        rw [Ne, ← flight_deadline_eq_none, hdeadline]
        nofun
      have hloop : h.loop now true taken calls = h.slideDeadline now := by
        unfold loop
        split
        · next hnone => exact absurd (ht.sound.closed hnone) hbusy
        · dsimp only
          rw [if_pos rfl, hspec, if_neg fun hnext => hstays hnext.1]
      refine ⟨now + p2Ms, Nat.le_add_right _ _, ?_, ?_⟩
      · show (h.loop now true taken calls).flight.deadline = _
        rw [hloop, hdeadline]
      · show ¬(promise (h.loop now true taken calls).log).Kept p2Ms p2ExtMs (now + p2Ms)
        have hlog : (h.slideDeadline now).log = h.log := congrArg Flight.log hflight
        rw [hloop, hlog]
        intro hkept
        have hle := hkept.2 t₁ hpending
        rw [ht.p2, ht.p2Ext] at hlt
        omega
  | message now resp =>
    unfold KeepsPromise at hbreaks
    push Not at hbreaks
    obtain ⟨hconsumer, hpending, t₀, hsent, hlt⟩ := hbreaks
    obtain ⟨hbusy, hreq, hverdict, hstreak⟩ := hpending
    have hanswered : ¬Unanswered h resp := by
      unfold Unanswered
      rw [hverdict]
      simp [hbusy, hreq]
    obtain ⟨-, -, ⟨-, hwaits⟩ | ⟨hnot, -⟩⟩ := onMessage_answered ht.sound.agree hanswered now
    · have hstep : h.step (.message now resp) = h.onMessage now resp := if_pos hconsumer
      rw [hstep]
      unfold Waits at hwaits
      rw [ht.p2Ext, millis_add] at hwaits
      refine ⟨now + p2ExtMs, Nat.le_add_right _ _, congrArg Flight.deadline hwaits, ?_⟩
      have hlog : (h.onMessage now resp).log = h.log ++ [(now, .pending)] :=
        congrArg Flight.log hwaits
      rw [hlog, promise_concat]
      intro hkept
      have hle := hkept.1 t₀ hsent
      rw [ht.p2, ht.p2Ext] at hlt
      omega
    · exact absurd ⟨hbusy, hreq, hverdict, hstreak⟩ hnot
  | error now => exact absurd trivial hbreaks
  | call c => exact absurd trivial hbreaks

/-! ## What the setup takes from the catalog -/

theorem ecu_bounds {c : Catalog} {i : Nat} {ecu : EcuView} (h : c.ecu i = some ecu) :
    ecu.p2Ms < 65536 ∧ ecu.p2ExtMs < 65536 := by
  unfold Catalog.ecu at h
  split_ifs at h
  cases h
  exact ⟨loadLe_lt 2 _, loadLe_lt 2 _⟩

theorem resolveEcu_bounds {c : Catalog} {name : Option (List UInt8)} {ecu : EcuView}
    (h : c.resolveEcu name = some ecu) : ecu.p2Ms < 65536 ∧ ecu.p2ExtMs < 65536 := by
  unfold Catalog.resolveEcu at h
  split at h
  · obtain ⟨i, -, hi⟩ := Option.bind_eq_some_iff.mp h
    exact ecu_bounds hi
  · split_ifs at h
    exact ecu_bounds h

/-- The response times of every hub are positive and have 16 bits. -/
theorem setup_bounds (cfg : HubConfig) (boot : Nat) :
    0 < (setup cfg boot).p2Ms ∧ (setup cfg boot).p2Ms < 65536 ∧
      (setup cfg boot).p2ExtMs < 65536 := by
  have hdefault : 0 < udsDefaultP2Ms ∧ udsDefaultP2Ms < 65536 ∧ udsDefaultP2ExtMs < 65536 := by
    decide
  unfold setup
  split
  · exact hdefault
  · next c _ =>
    dsimp only
    split
    · exact hdefault
    · next ecu hecu =>
      obtain ⟨hp2, hp2Ext⟩ := resolveEcu_bounds hecu
      obtain ⟨hpos, hlt, hltExt⟩ := hdefault
      dsimp only
      refine ⟨?_, ?_, ?_⟩
      · split_ifs <;> omega
      · split_ifs <;> omega
      · split_ifs <;> omega

theorem timed_setup (cfg : HubConfig) (boot : Nat) :
    Timed (setup cfg boot).p2Ms (setup cfg boot).p2ExtMs (setup cfg boot) :=
  ⟨sound_setup cfg boot, rfl, rfl⟩

theorem punctual_setup (cfg : HubConfig) (boot : Nat) :
    Punctual (setup cfg boot).p2Ms (setup cfg boot).p2ExtMs boot (setup cfg boot).flight := by
  obtain ⟨-, hidle, hlog⟩ := setup_idle cfg boot
  have hflight : (setup cfg boot).flight = ⟨none, []⟩ := by
    unfold flight
    rw [hidle, hlog]
  rw [hflight]
  exact ⟨timely_nil, nofun, nofun⟩

/-- No response timeout in the run is early, nor would one be in a loop after it. -/
def NeverEarly (cfg : HubConfig) (boot : Nat) (events : List Event) : Prop :=
  ∀ more, (more = [] ∨ ∃ now taken calls, more = [Event.loop now false taken calls]) →
    Ordered boot (events ++ more) →
      Timely (setup cfg boot).p2Ms (setup cfg boot).p2ExtMs (run cfg boot (events ++ more)).log

/-- In a run in which the clock does not run backwards no response timeout is early, at any point
and in whichever loop comes next, exactly if every step keeps the promises. -/
theorem neverEarly_iff {cfg : HubConfig} {boot : Nat} {events : List Event}
    (hclock : Ordered boot events) :
    (∀ before, before <+: events → NeverEarly cfg boot before) ↔
      Admitted KeepsPromise step (setup cfg boot) events := by
  obtain ⟨hpos, hp2, hp2Ext⟩ := setup_bounds cfg boot
  have hpunctual {events : List Event} (hclock : Ordered boot events)
      (hkeeps : Admitted KeepsPromise step (setup cfg boot) events) :=
    punctual_exec (timed_setup cfg boot) hp2 hp2Ext (punctual_setup cfg boot) hclock hkeeps
  constructor
  · intro hearly
    by_contra hbreak
    obtain ⟨before, e, hinitial, hkeeps, hbreaks⟩ := Admitted.exists_first_break hbreak
    have hordered : Ordered boot (before ++ [e]) := by
      obtain ⟨after, rfl⟩ := hinitial
      exact (ordered_append_iff.mp hclock).1
    obtain ⟨htimed, -⟩ := hpunctual (ordered_append_iff.mp hordered).1 hkeeps
    obtain ⟨due, hlater, hdue, hbroken⟩ := broken_step htimed hpos hp2 hbreaks (lastTime boot before)
    have hlast : lastTime boot (before ++ [e]) = e.at (lastTime boot before) := List.foldl_append
    have hloop : Ordered boot (before ++ [e] ++ [.loop due false false []]) := by
      refine ordered_append_iff.mpr ⟨hordered, ?_, trivial⟩
      rw [hlast]
      exact hlater
    have htimely := hearly (before ++ [e]) hinitial [.loop due false false []]
      (.inr ⟨due, false, [], rfl⟩) hloop
    rw [run, exec_append, exec_append] at htimely
    exact not_timely_loop (htimed.step e) hdue hbroken htimely
  · intro hkeeps before hbefore more hmore hordered
    obtain ⟨after, rfl⟩ := hbefore
    have hinitial := (Admitted.append_iff.mp hkeeps).1
    have hadmitted : Admitted KeepsPromise step (setup cfg boot) (before ++ more) := by
      refine Admitted.append_iff.mpr ⟨hinitial, ?_⟩
      rcases hmore with rfl | ⟨now, taken, calls, rfl⟩
      · trivial
      · exact ⟨trivial, trivial⟩
    exact (hpunctual hordered hadmitted).2.timely

/-- The request of an automation is answered with 0x78, and then the transport receives something
else: the deadline is a response time from there. -/
def earlyEvents : List Event :=
  [.call (.raw [0x3E, 0x00]), .loop 0 false true [], .message 100 [0x7F, 0x3E, 0x78],
    .loop 120 true true [], .loop 270 false false []]

set_option maxRecDepth 20000 in
theorem not_timely_early :
    ¬Timely (setup rawConfig 0).p2Ms (setup rawConfig 0).p2ExtMs (run rawConfig 0 earlyEvents).log := by
  have hlog : (run rawConfig 0 earlyEvents).log =
      [(0, .offer .raw noGroup [0x3E, 0x00] true), (100, .pending)] ++ [(270, .ended .timeout)] := by
    decide
  have hms : (setup rawConfig 0).p2ExtMs = 2000 := by decide
  intro htimely
  rw [hlog, hms] at htimely
  have hkept := (htimely _ 270 ⟨[], List.append_nil _⟩).2 100 rfl
  omega

theorem timely_sample :
    ¬∀ (cfg : HubConfig) (boot : Nat) (events : List Event), Ordered boot events →
      Timely (setup cfg boot).p2Ms (setup cfg boot).p2ExtMs (run cfg boot events).log := by
  intro h
  exact not_timely_early (h rawConfig 0 earlyEvents (by simp [earlyEvents, Ordered, Event.at,
    Event.time?]))

theorem neverEarly_sample : ¬Admitted KeepsPromise step (setup rawConfig 0) earlyEvents := by
  have hclock : Ordered 0 earlyEvents := by
    simp [earlyEvents, Ordered, Event.at, Event.time?]
  intro hkeeps
  have hearly := (neverEarly_iff hclock).mpr hkeeps earlyEvents List.prefix_rfl [] (.inl rfl)
  rw [List.append_nil] at hearly
  exact not_timely_early (hearly hclock)

end UdsHub

end EspCars.Uds
