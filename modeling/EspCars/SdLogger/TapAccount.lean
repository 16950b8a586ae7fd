import EspCars.SdLogger.TapDrain

/-!
# Every captured frame is in one place

What the rings, the interrupts, the drain and `push_record` keep: a frame is refused and counted,
in the hand of its interrupt, in its ring, in the hand of the drain, or settled by `push_record`.
The steps of a ring are followed ring by ring (`Conveyed`), those of the drain by the stage that
`drain_one` is in. What the drain holds changes at three of its stages only; every other step of it
moves on with what it has (`Books.redirect`).
-/

namespace EspCars.SdLogger.TapDrain

open EspCars.Lib EspCars.CanGateway EspCars.CanGateway.Observe TapQueue Stage DrainPc

variable {k n : Nat} {depth : Queue → Nat}

/-! ## The ring by itself -/

section Sound

variable {R : Type} [NeZero n] {r : Observe.State R n}

/-- The counters of the ring count, and its slots hold what they should. -/
structure Sound (r : Observe.State R n) : Prop where
  counts : Counts r
  contents : NoClash n r → Contents r

theorem Sound.init [Inhabited R] : Sound (Observe.init : Observe.State R n) :=
  ⟨Counts.init, fun _ => Contents.init⟩

theorem Sound.step (h : Sound r) (hn : n < 2 ^ 32) (e : Observe.Event R) :
    Sound (Observe.step r e) := by
  refine ⟨h.counts.step hn e, fun hw => ?_⟩
  have hlast : NoClash n (exec Observe.step r [e]) := hw
  have hw' : NoClash n r := hlast.of_exec
  exact (h.contents hw').step h.counts hw' e

end Sound

/-! ## A ring, its interrupt and the drain -/

/-- The producer is where the interrupt is. -/
def Matches : Interrupt → Producer TapRecord → Prop
  | .pushing _, .idle => True
  | .pushing record, .loadedTail r _ => r = record
  | .pushing record, .hasRoom r _ => r = record
  | .pushing record, .wrote r _ => r = record
  | _, p => p = .idle

/-- What is so of a ring when `push_record` has settled `settled` of its frames and `drain_one` is
in `stage` with it. -/
structure Conveyed [NeZero n] (Q : TapQueue n) (settled : List TapRecord) (stage : Option Stage) :
    Prop where
  sound : Sound Q.ring
  unarmed : Q.armed = false → Q.interrupt = .idle ∧ Q.ring.accepted = []
  producer : Matches Q.interrupt Q.ring.producer
  captured : Q.captured.Perm (Q.refused ++ Q.interrupt.holds ++ Q.ring.accepted)
  consumer : Q.ring.consumer = .idle ∨ stage = some .popping
  popped : Q.ring.popped = settled ++ Stage.holds stage

namespace Conveyed

variable [NeZero n] {Q : TapQueue n} {settled : List TapRecord} {stage stage' : Option Stage}

theorem init (armed : Bool) : Conveyed ({ armed := armed } : TapQueue n) [] none := by
  constructor
  · exact Sound.init
  · intro _
    exact ⟨rfl, rfl⟩
  · rfl
  · exact List.Perm.refl _
  · exact Or.inl rfl
  · rfl

/-- The drain goes on with what it holds. -/
theorem redirect (h : Conveyed Q settled stage) (hholds : holds stage' = holds stage)
    (hconsumer : Q.ring.consumer = .idle ∨ stage' = some .popping) :
    Conveyed Q settled stage' := by
  refine ⟨h.sound, h.unarmed, h.producer, h.captured, hconsumer, ?_⟩
  rw [hholds]
  exact h.popped

theorem capture (h : Conveyed Q settled stage) (record : TapRecord) :
    Conveyed (Q.capture record) settled stage := by
  unfold TapQueue.capture
  split
  · rename_i harmed hidle
    have hproducer := h.producer
    have hcaptured := h.captured
    rw [hidle] at hproducer hcaptured
    have hring : Q.ring.producer = .idle := hproducer
    refine ⟨h.sound, ?_, ?_, ?_, h.consumer, h.popped⟩
    · intro hunarmed
      rw [harmed] at hunarmed
      cases hunarmed
    · dsimp only
      rw [hring]
      trivial
    · change (Q.captured ++ [record]).Perm (Q.refused ++ [record] ++ Q.ring.accepted)
      apply (hcaptured.append_right [record]).trans
      simp only [Interrupt.holds, List.append_nil, List.append_assoc]
      apply List.Perm.append_left
      exact List.perm_append_comm
  · exact h

/-! ### The interrupt -/

theorem armed_of_busy (h : Conveyed Q settled stage) (hbusy : Q.interrupt ≠ .idle) :
    Q.armed = true := by
  by_contra harmed
  rw [Bool.not_eq_true] at harmed
  exact hbusy (h.unarmed harmed).1

/-- A step of the ring that is none of the drain's. -/
theorem act_producer (h : Conveyed Q settled stage) (hn : n < 2 ^ 32)
    (e : Observe.Event TapRecord) {Q' : TapQueue n} (hring : Q'.ring = Observe.step Q.ring e)
    (hconsumer : Q'.ring.consumer = Q.ring.consumer) (hpopped : Q'.ring.popped = Q.ring.popped)
    (harmed : Q'.armed = true) (hproducer : Matches Q'.interrupt Q'.ring.producer)
    (hcaptured : Q'.captured.Perm (Q'.refused ++ Q'.interrupt.holds ++ Q'.ring.accepted)) :
    Conveyed Q' settled stage := by
  refine ⟨?_, ?_, hproducer, hcaptured, ?_, ?_⟩
  · rw [hring]
    exact h.sound.step hn e
  · intro hunarmed
    rw [harmed] at hunarmed
    cases hunarmed
  · rw [hconsumer]
    exact h.consumer
  · rw [hpopped]
    exact h.popped

variable {record : TapRecord} {head : UInt32}

theorem pushStep (h : Conveyed Q settled stage) (hn : n < 2 ^ 32)
    (hpushing : Q.interrupt = .pushing record) : Conveyed (Q.pushStep record) settled stage := by
  have harmed : Q.armed = true := h.armed_of_busy (by rw [hpushing]; nofun)
  have hproducer := h.producer
  have hcaptured := h.captured
  rw [hpushing] at hproducer hcaptured
  unfold TapQueue.pushStep
  split
  · rename_i hat
    have hstep : Observe.step Q.ring (.push record) =
        { Q.ring with producer := .loadedTail record Q.ring.ring.tail } := by
      simp only [Observe.step, startPush, hat]
    apply h.act_producer hn (.push record) rfl
    · simp only [act, hstep]
    · simp only [act, hstep]
    · exact harmed
    · simp only [act, hstep, hpushing]
      rfl
    · simp only [act, hstep, hpushing]
      exact hcaptured
  · rename_i r tail hat
    rw [hat] at hproducer
    have hr : r = record := hproducer
    split_ifs with hfull
    · have hstep : Observe.step Q.ring .producer = { Q.ring with producer := .idle } := by
        simp only [Observe.step, stepProducer, hat, if_pos hfull]
      apply h.act_producer hn .producer rfl
      · simp only [act, hstep]
      · simp only [act, hstep]
      · exact harmed
      · simp only [act, hstep]
        rfl
      · simp only [act, hstep]
        exact hcaptured
    · have hstep : Observe.step Q.ring .producer =
          { Q.ring with producer := .hasRoom r tail } := by
        simp only [Observe.step, stepProducer, hat, if_neg hfull]
      apply h.act_producer hn .producer rfl
      · simp only [act, hstep]
      · simp only [act, hstep]
      · exact harmed
      · simp only [act, hstep, hpushing]
        exact hr
      · simp only [act, hstep, hpushing]
        exact hcaptured
  · rename_i r tail hat
    rw [hat] at hproducer
    have hr : r = record := hproducer
    have hstep : Observe.step Q.ring .producer =
        { Q.ring with ring := Q.ring.ring.setCell tail r, producer := .wrote r tail } := by
      simp only [Observe.step, stepProducer, hat]
    apply h.act_producer hn .producer rfl
    · simp only [act, hstep]
    · simp only [act, hstep]
    · exact harmed
    · simp only [act, hstep, hpushing]
      exact hr
    · simp only [act, hstep, hpushing]
      exact hcaptured
  · rename_i r tail hat
    rw [hat] at hproducer
    have hr : r = record := hproducer
    have hstep : Observe.step Q.ring .producer =
        { Q.ring with
          ring := { Q.ring.ring with tail := tail + 1 }
          producer := .idle
          accepted := Q.ring.accepted ++ [r] } := by
      simp only [Observe.step, stepProducer, hat]
    apply h.act_producer hn .producer rfl
    · simp only [act, hstep]
    · simp only [act, hstep]
    · exact harmed
    · simp only [act, hstep]
      rfl
    · -- the frame leaves the interrupt for the ring
      simp only [act, hstep, hr]
      apply hcaptured.trans
      simp only [Interrupt.holds, List.append_nil, List.append_assoc]
      apply List.Perm.append_left
      exact List.perm_append_comm

/-- The interrupt has counted the frame that the ring took. -/
theorem countAccepted (h : Conveyed Q settled stage) (hpushed : Q.interrupt = .pushed record true) :
    Conveyed { Q with interrupt := .idle, accepted := Q.accepted + 1 } settled stage := by
  have harmed : Q.armed = true := h.armed_of_busy (by rw [hpushed]; nofun)
  have hproducer := h.producer
  have hcaptured := h.captured
  rw [hpushed] at hproducer hcaptured
  refine ⟨h.sound, ?_, hproducer, hcaptured, h.consumer, h.popped⟩
  intro hunarmed
  rw [harmed] at hunarmed
  cases hunarmed

/-- The interrupt has counted the frame that the ring refused. -/
theorem countRefused (h : Conveyed Q settled stage) (hpushed : Q.interrupt = .pushed record false) :
    Conveyed { Q with interrupt := .idle, refused := Q.refused ++ [record] } settled stage := by
  have harmed : Q.armed = true := h.armed_of_busy (by rw [hpushed]; nofun)
  have hproducer := h.producer
  have hcaptured := h.captured
  rw [hpushed] at hproducer hcaptured
  refine ⟨h.sound, ?_, hproducer, ?_, h.consumer, h.popped⟩
  · intro hunarmed
    rw [harmed] at hunarmed
    cases hunarmed
  · simp only [Interrupt.holds, List.append_nil] at hcaptured ⊢
    exact hcaptured

/-! ### The drain -/

/-- A step of the ring that is none of the interrupt's. -/
theorem act_consumer (h : Conveyed Q settled stage) (hn : n < 2 ^ 32)
    {e : Observe.Event TapRecord} (hproducer : (Observe.step Q.ring e).producer = Q.ring.producer)
    (haccepted : (Observe.step Q.ring e).accepted = Q.ring.accepted)
    (hconsumer : (Observe.step Q.ring e).consumer = .idle ∨ stage' = some .popping)
    (hpopped : (Observe.step Q.ring e).popped = settled ++ holds stage') :
    Conveyed (Q.act e) settled stage' := by
  refine ⟨h.sound.step hn e, ?_, ?_, ?_, hconsumer, hpopped⟩
  · intro hunarmed
    exact ⟨(h.unarmed hunarmed).1, haccepted.trans (h.unarmed hunarmed).2⟩
  · change Matches Q.interrupt (Observe.step Q.ring e).producer
    rw [hproducer]
    exact h.producer
  · change Q.captured.Perm (Q.refused ++ Q.interrupt.holds ++ (Observe.step Q.ring e).accepted)
    rw [haccepted]
    exact h.captured

theorem startPop (h : Conveyed Q settled (some .popping)) (hn : n < 2 ^ 32)
    (hat : Q.ring.consumer = .idle) : Conveyed (Q.act .pop) settled (some .popping) := by
  have hstep : Observe.step Q.ring .pop =
      { Q.ring with consumer := .loadedHead Q.ring.ring.head } := by
    simp only [Observe.step, Observe.startPop, hat]
  apply h.act_consumer hn
  · rw [hstep]
  · rw [hstep]
  · exact Or.inr rfl
  · rw [hstep]
    exact h.popped

theorem compare (h : Conveyed Q settled (some .popping)) (hn : n < 2 ^ 32)
    (hat : Q.ring.consumer = .loadedHead head) {stage' : Option Stage}
    (hstage : stage' = some .popping ∨ head = Q.ring.ring.tail ∧ holds stage' = []) :
    Conveyed (Q.act .consumer) settled stage' := by
  have hstep : Observe.step Q.ring .consumer =
      { Q.ring with consumer := if head = Q.ring.ring.tail then .idle else .notEmpty head } := by
    simp only [Observe.step, stepConsumer, hat]
    split_ifs <;> rfl
  apply h.act_consumer hn
  · rw [hstep]
  · rw [hstep]
  · rcases hstage with hstage | ⟨hempty, -⟩
    · exact Or.inr hstage
    · rw [hstep, if_pos hempty]
      exact Or.inl rfl
  · have hpopped := h.popped
    rw [hstep]
    rcases hstage with rfl | ⟨-, hholds⟩
    · exact hpopped
    · rw [hholds]
      exact hpopped

theorem copy (h : Conveyed Q settled (some .popping)) (hn : n < 2 ^ 32)
    (hat : Q.ring.consumer = .notEmpty head) :
    Conveyed (Q.act .consumer) settled (some .popping) := by
  have hstep : Observe.step Q.ring .consumer =
      { Q.ring with consumer := .copied (Q.ring.ring.cell head) head } := by
    simp only [Observe.step, stepConsumer, hat]
  apply h.act_consumer hn
  · rw [hstep]
  · rw [hstep]
  · exact Or.inr rfl
  · rw [hstep]
    exact h.popped

theorem step_copied {r : Observe.State TapRecord n} {out : TapRecord}
    (hat : r.consumer = .copied out head) :
    Observe.step r .consumer =
      { r with
        ring := { r.ring with head := head + 1 }
        consumer := .idle
        popped := r.popped ++ [out] } := by
  simp only [Observe.step, stepConsumer, hat]

theorem take (h : Conveyed Q settled (some .popping)) (hn : n < 2 ^ 32) {out : TapRecord}
    (hat : Q.ring.consumer = .copied out head) :
    Conveyed (Q.act .consumer) settled (some (.popped out)) := by
  have hpopped := h.popped
  apply h.act_consumer hn
  · rw [step_copied hat]
  · rw [step_copied hat]
  · rw [step_copied hat]
    exact Or.inl rfl
  · rw [step_copied hat, hpopped]
    simp only [holds, List.append_nil]

/-- `push_record` has settled what the drain held. -/
theorem settle {tap : TapRecord} {verdict : Verdict}
    (h : Conveyed Q settled (some (.counting tap verdict))) (hholds : holds stage' = []) :
    Conveyed Q (settled ++ [tap]) stage' := by
  refine ⟨h.sound, h.unarmed, h.producer, h.captured, ?_, ?_⟩
  · apply h.consumer.imp_right
    intro heq
    cases heq
  · rw [hholds, List.append_nil]
    exact h.popped

end Conveyed

/-! ## Stages -/

/-- The record that is in the ring of the writer and not yet counted as accepted. -/
def Stage.entered (source : UInt8) : Option Stage → List LogRecord
  | some (.counting tap .accepted) => [tapToLogRecord tap source]
  | _ => []

/-- The drain holds at `new` what it has held at `old`, and has not left a pop. -/
structure Continues (old new : Option Stage) : Prop where
  holds : Stage.holds new = Stage.holds old
  uncounted : Stage.uncounted new = Stage.uncounted old
  entered : ∀ source, Stage.entered source new = Stage.entered source old
  popping : old = some .popping → new = some .popping

/-- The drain is elsewhere, or about to look at `mounted_`. -/
def Outside (stage : Option Stage) : Prop := stage = none ∨ stage = some .checking

theorem Continues.refl (stage : Option Stage) : Continues stage stage :=
  ⟨rfl, rfl, fun _ => rfl, id⟩

theorem Outside.holds {stage : Option Stage} (h : Outside stage) : holds stage = [] := by
  rcases h with rfl | rfl <;> rfl

theorem Outside.entered {stage : Option Stage} (h : Outside stage) (source : UInt8) :
    entered source stage = [] := by
  rcases h with rfl | rfl <;> rfl

theorem Outside.uncounted {stage : Option Stage} (h : Outside stage) :
    uncounted stage = [] := by
  rcases h with rfl | rfl <;> rfl

theorem Continues.of_outside {old new : Option Stage} (hold : Outside old) (hnew : Outside new) :
    Continues old new := by
  rcases hold with rfl | rfl
  · rcases hnew with rfl | rfl
    · exact Continues.refl none
    · exact ⟨rfl, rfl, fun _ => rfl, nofun⟩
  · rcases hnew with rfl | rfl
    · exact ⟨rfl, rfl, fun _ => rfl, nofun⟩
    · exact Continues.refl _

section Stages

variable {i j : Fin k} {q r : Queue}

theorem stage_one_self (i : Fin k) (q : Queue) (progressed : Bool) (stage : Stage) :
    (one i q progressed stage).stage i q = some stage := by
  simp only [DrainPc.stage, and_self, if_true]

theorem stage_one_ne (h : j ≠ i ∨ r ≠ q) (progressed : Bool) (stage : Stage) :
    (one i q progressed stage).stage j r = none := by
  rw [DrainPc.stage, if_neg]
  rintro ⟨rfl, rfl⟩
  rcases h with h | h <;> exact h rfl

theorem outside_checking (i : Fin k) (q : Queue) (progressed : Bool) (j : Fin k) (r : Queue) :
    Outside ((one i q progressed .checking).stage j r) := by
  rw [stage]
  split_ifs
  · exact Or.inr rfl
  · exact Or.inl rfl

theorem outside_afterOne (i : Fin k) (q : Queue) (progressed result : Bool) (j : Fin k)
    (r : Queue) : Outside ((Logger.afterOne i q progressed result).stage j r) := by
  cases q with
  | rx => exact outside_checking i .tx result j r
  | tx => exact Or.inl rfl

/-- At a ring that the drain is not in, it may go where it does not hold anything. -/
theorem continues_ne (h : j ≠ i ∨ r ≠ q) (progressed : Bool) (stage : Stage) {d : DrainPc k}
    (hd : Outside (d.stage j r)) :
    Continues ((one i q progressed stage).stage j r) (d.stage j r) := by
  apply Continues.of_outside _ hd
  rw [stage_one_ne h]
  exact Or.inl rfl

end Stages

/-! ## Replacing a part -/

namespace Logger

variable {s : Logger k depth} {i : Fin k} {q : Queue}

theorem forall_tap {P : Fin k → Tap depth → Prop} {t : Tap depth} (hself : P i t)
    (hrest : ∀ j, j ≠ i → P j (s.taps j)) (j : Fin k) : P j ((s.setTap i t).taps j) := by
  by_cases hj : j = i
  · subst hj
    rw [taps_setTap_self]
    exact hself
  · rw [taps_setTap_ne s t hj]
    exact hrest j hj

theorem forall_queue {P : (j : Fin k) → (r : Queue) → TapQueue (depth r) → Prop}
    {Q : TapQueue (depth q)} (hself : P i q Q)
    (hrest : ∀ j r, j ≠ i ∨ r ≠ q → P j r ((s.taps j).queue r)) (j : Fin k) (r : Queue) :
    P j r (((s.setTap i ((s.taps i).setQueue q Q)).taps j).queue r) := by
  apply forall_tap (P := fun j t => P j r (t.queue r))
  · by_cases hr : r = q
    · subst hr
      rw [Tap.queue_setQueue_self]
      exact hself
    · rw [Tap.queue_setQueue_ne _ Q hr]
      exact hrest i r (Or.inr hr)
  · intro j hj
    exact hrest j r (Or.inl hj)

end Logger

namespace Tap

/-- The sum over the two rings. -/
def both (t : Tap depth) (f : {n : Nat} → TapQueue n → Nat) : Nat :=
  f (t.queue .rx) + f (t.queue .tx)

theorem both_setQueue (t : Tap depth) (q : Queue) (Q : TapQueue (depth q))
    (f : {n : Nat} → TapQueue n → Nat) :
    (t.setQueue q Q).both f + f (t.queue q) = t.both f + f Q := by
  cases q with
  | rx =>
    rw [both, both, queue_setQueue_self, queue_setQueue_ne t Q (by nofun)]
    omega
  | tx =>
    rw [both, both, queue_setQueue_self, queue_setQueue_ne t Q (by nofun)]
    omega

/-- A ring is replaced by one with as many. -/
theorem both_setQueue_eq (t : Tap depth) {q : Queue} {Q : TapQueue (depth q)}
    (f : {n : Nat} → TapQueue n → Nat) (h : f Q = f (t.queue q)) :
    (t.setQueue q Q).both f = t.both f := by
  have hboth := t.both_setQueue q Q f
  omega

end Tap

/-! ## The books -/

namespace Logger

variable (s : Logger k depth) (i : Fin k)

/-- How many popped frames of the tap `drained` has not counted. -/
def uncountedOf : Nat := (s.uncounted i .rx).length + (s.uncounted i .tx).length

def acceptedOf : Nat := (s.settledAs i .rx .accepted).length + (s.settledAs i .tx .accepted).length

end Logger

/-- What the counters of a tap say. -/
structure TapBooks (t : Tap depth) (uncounted accepted : Nat) : Prop where
  refused : t.logTapDropped = UInt32.ofNat (t.both fun Q => Q.refused.length)
  drained : t.drained + UInt32.ofNat uncounted =
    UInt32.ofNat (t.both fun Q => Q.ring.popped.length)
  accepted : t.recordRingAccepted = UInt32.ofNat accepted

variable [∀ q, NeZero (depth q)] {s : Logger k depth}

/-- What holds of every state of a run, whatever becomes of the card. -/
structure Books (s : Logger k depth) : Prop where
  conveyed : ∀ i q, Conveyed ((s.taps i).queue q) (s.settled i q) (s.drain.stage i q)
  taps : ∀ i, TapBooks (s.taps i) (s.uncountedOf i) (s.acceptedOf i)
  recorded : ∀ i q, ((s.settledAs i q .accepted).map
      (fun tap => tapToLogRecord tap (s.taps i).source) ++
    Stage.entered (s.taps i).source (s.drain.stage i q)).Sublist (s.taken ++ s.ring)
  dropped : s.droppedRecords = UInt32.ofNat ((s.allSettledAs .dropped).length + s.otherDropped)
  cardDropped : s.cardDropped =
    UInt32.ofNat ((s.allSettledAs .cardDropped).length + s.otherCardDropped)

namespace Books

variable {i : Fin k} {q : Queue} {d : DrainPc k} {progressed : Bool}

theorem conveyed_continues (h : Books s) {stage : Option Stage}
    (hc : Continues (s.drain.stage i q) stage) :
    Conveyed ((s.taps i).queue q) (s.settled i q) stage :=
  (h.conveyed i q).redirect hc.holds ((h.conveyed i q).consumer.imp_right hc.popping)

/-- The tap `i` is replaced, and the drain goes on. -/
theorem setTap (h : Books s) {t : Tap depth}
    (hconveyed : ∀ q, Conveyed (t.queue q) (s.settled i q) (d.stage i q))
    (htap : TapBooks t
      ((uncounted (d.stage i .rx)).length + (uncounted (d.stage i .tx)).length)
      (s.acceptedOf i))
    (hsource : t.source = (s.taps i).source)
    (hentered : ∀ q source,
      entered source (d.stage i q) = entered source (s.drain.stage i q))
    (hrest : ∀ j q, j ≠ i → Continues (s.drain.stage j q) (d.stage j q)) :
    Books { s.setTap i t with drain := d } := by
  constructor
  · intro j q
    apply Logger.forall_tap (P := fun j t => Conveyed (t.queue q) (s.settled j q) (d.stage j q))
    · exact hconveyed q
    · intro j hj
      exact h.conveyed_continues (hrest j q hj)
  · intro j
    apply Logger.forall_tap (P := fun j t => TapBooks t
      ((uncounted (d.stage j .rx)).length + (uncounted (d.stage j .tx)).length)
      (s.acceptedOf j))
    · exact htap
    · intro j hj
      rw [(hrest j .rx hj).uncounted, (hrest j .tx hj).uncounted]
      exact h.taps j
  · intro j q
    apply Logger.forall_tap (P := fun j t => ((s.settledAs j q .accepted).map
        (fun tap => tapToLogRecord tap t.source) ++
      entered t.source (d.stage j q)).Sublist (s.taken ++ s.ring))
    · rw [hentered, hsource]
      exact h.recorded i q
    · intro j hj
      rw [(hrest j q hj).entered]
      exact h.recorded j q
  · exact h.dropped
  · exact h.cardDropped

/-- The drain goes on with what it holds. -/
theorem redirect (h : Books s)
    (hc : ∀ i q, Continues (s.drain.stage i q) (d.stage i q)) : Books { s with drain := d } := by
  constructor
  · intro i q
    exact h.conveyed_continues (hc i q)
  · intro i
    have htap := h.taps i
    rw [Logger.uncountedOf, Logger.uncounted, Logger.uncounted, ← (hc i .rx).uncounted,
      ← (hc i .tx).uncounted] at htap
    exact htap
  · intro i q
    have hrecorded := h.recorded i q
    rw [← (hc i q).entered] at hrecorded
    exact hrecorded
  · exact h.dropped
  · exact h.cardDropped

variable {Q : TapQueue (depth q)}

/-- One ring of a tap is replaced. -/
theorem conveyed_setQueue (h : Books s) (hQ : Conveyed Q (s.settled i q) (d.stage i q))
    (hrest : ∀ r, r ≠ q → Continues (s.drain.stage i r) (d.stage i r)) (r : Queue) :
    Conveyed (((s.taps i).setQueue q Q).queue r) (s.settled i r) (d.stage i r) := by
  by_cases hr : r = q
  · subst hr
    rw [Tap.queue_setQueue_self]
    exact hQ
  · rw [Tap.queue_setQueue_ne _ Q hr]
    exact h.conveyed_continues (hrest r hr)

/-! ### The interrupts -/

/-- One ring is replaced and the drain moves on: what is popped there and not counted is what the
drain holds uncounted. -/
theorem setQueue_drain (h : Books s) (hQ : Conveyed Q (s.settled i q) (d.stage i q))
    (hrefused : Q.refused = ((s.taps i).queue q).refused)
    (hpopped : Q.ring.popped.length + (s.uncounted i q).length =
      ((s.taps i).queue q).ring.popped.length + (uncounted (d.stage i q)).length)
    (hentered : ∀ source,
      entered source (d.stage i q) = entered source (s.drain.stage i q))
    (hrest : ∀ j r, j ≠ i ∨ r ≠ q → Continues (s.drain.stage j r) (d.stage j r)) :
    Books { s.setTap i ((s.taps i).setQueue q Q) with drain := d } := by
  have htap := h.taps i
  apply h.setTap
  · exact h.conveyed_setQueue hQ fun r hr => hrest i r (Or.inr hr)
  · constructor
    · rw [(s.taps i).both_setQueue_eq _ (congrArg List.length hrefused)]
      exact htap.refused
    · have hboth := (s.taps i).both_setQueue q Q fun Q => Q.ring.popped.length
      have hsum : ((s.taps i).setQueue q Q).both (fun Q => Q.ring.popped.length) +
          s.uncountedOf i = (s.taps i).both (fun Q => Q.ring.popped.length) +
          ((uncounted (d.stage i .rx)).length +
            (uncounted (d.stage i .tx)).length) := by
        unfold Logger.uncountedOf
        cases q with
        | rx =>
          have hother := congrArg List.length (hrest i .tx (Or.inr (by decide))).uncounted
          unfold Logger.uncounted at hpopped ⊢
          omega
        | tx =>
          have hother := congrArg List.length (hrest i .rx (Or.inr (by decide))).uncounted
          unfold Logger.uncounted at hpopped ⊢
          omega
      have hword := congrArg UInt32.ofNat hsum
      rw [UInt32.ofNat_add, UInt32.ofNat_add, ← htap.drained] at hword
      change (s.taps i).drained + _ = _
      grind
    · exact htap.accepted
  · rfl
  · intro r source
    by_cases hr : r = q
    · subst hr
      exact hentered source
    · exact (hrest i r (Or.inr hr)).entered source
  · exact fun j r hj => hrest j r (Or.inl hj)

/-- One ring is replaced and the drain stays where it is. -/
theorem setQueue (h : Books s) (hQ : Conveyed Q (s.settled i q) (s.drain.stage i q))
    (hrefused : Q.refused = ((s.taps i).queue q).refused)
    (hpopped : Q.ring.popped = ((s.taps i).queue q).ring.popped) :
    Books (s.setTap i ((s.taps i).setQueue q Q)) := by
  apply h.setQueue_drain (d := s.drain) hQ hrefused
  · rw [hpopped]
    rfl
  · exact fun _ => rfl
  · exact fun j r _ => Continues.refl _

/-- One frame more is refused and counted. -/
theorem setQueue_refused (h : Books s) (hQ : Conveyed Q (s.settled i q) (s.drain.stage i q))
    (hrefused : Q.refused.length = ((s.taps i).queue q).refused.length + 1)
    (hpopped : Q.ring.popped = ((s.taps i).queue q).ring.popped) :
    Books (s.setTap i
      { (s.taps i).setQueue q Q with logTapDropped := (s.taps i).logTapDropped + 1 }) := by
  have htap := h.taps i
  have hboth := (s.taps i).both_setQueue q Q fun Q => Q.refused.length
  have hboth' := (s.taps i).both_setQueue_eq (q := q) (Q := Q) (fun Q => Q.ring.popped.length)
    (congrArg List.length hpopped)
  apply h.setTap (d := s.drain)
  · apply h.conveyed_setQueue hQ
    intro r _
    exact Continues.refl _
  · constructor
    · change (s.taps i).logTapDropped + 1 =
        UInt32.ofNat (((s.taps i).setQueue q Q).both fun Q => Q.refused.length)
      rw [htap.refused, uint32_ofNat_succ]
      congr 1
      omega
    · change (s.taps i).drained + UInt32.ofNat (s.uncountedOf i) =
        UInt32.ofNat (((s.taps i).setQueue q Q).both fun Q => Q.ring.popped.length)
      rw [hboth']
      exact htap.drained
    · exact htap.accepted
  · rfl
  · intro r source
    rfl
  · intro j r _
    exact Continues.refl _

theorem popped_pushStep {n : Nat} [NeZero n] (Q : TapQueue n) (record : TapRecord) :
    (Q.pushStep record).ring.popped = Q.ring.popped := by
  unfold pushStep
  split
  · rename_i hat
    simp only [act, Observe.step, startPush, hat]
  · rename_i hat
    split_ifs with hfull <;> simp only [act, Observe.step, stepProducer, hat, hfull, if_true, if_false]
  · rename_i hat
    simp only [act, Observe.step, stepProducer, hat]
  · rename_i hat
    simp only [act, Observe.step, stepProducer, hat]

theorem refused_pushStep {n : Nat} [NeZero n] (Q : TapQueue n) (record : TapRecord) :
    (Q.pushStep record).refused = Q.refused := by
  unfold pushStep
  split
  · rfl
  · split_ifs <;> rfl
  · rfl
  · rfl

theorem capture (h : Books s) (i : Fin k) (q : Queue) (record : TapRecord) :
    Books (s.setTap i ((s.taps i).setQueue q (((s.taps i).queue q).capture record))) := by
  apply h.setQueue
  · exact (h.conveyed i q).capture record
  · unfold TapQueue.capture
    split <;> rfl
  · unfold TapQueue.capture
    split <;> rfl

theorem interruptStep (h : Books s) (hdepth : ∀ q, depth q < 2 ^ 32) (i : Fin k) (q : Queue) :
    Books (s.setTap i ((s.taps i).interruptStep q)) := by
  unfold Tap.interruptStep
  dsimp only
  split
  · have hsame : s.setTap i (s.taps i) = s := by
      rw [Logger.setTap, Function.update_eq_self]
    rw [hsame]
    exact h
  · rename_i record hat
    apply h.setQueue
    · exact (h.conveyed i q).pushStep (hdepth q) hat
    · exact refused_pushStep _ record
    · exact popped_pushStep _ record
  · rename_i record hat
    apply h.setQueue
    · exact (h.conveyed i q).countAccepted hat
    · rfl
    · rfl
  · rename_i record hat
    apply h.setQueue_refused
    · exact (h.conveyed i q).countRefused hat
    · exact List.length_append
    · rfl

/-! ### The drain -/

/-- The drain moves about. -/
theorem wander (h : Books s) (hold : ∀ j r, Outside (s.drain.stage j r))
    (hnew : ∀ j r, Outside (d.stage j r)) : Books { s with drain := d } :=
  h.redirect fun j r => Continues.of_outside (hold j r) (hnew j r)

/-- `drain_one` goes on at its ring. -/
theorem goOn (h : Books s) {old new : Stage}
    (hat : s.drain = .one i q progressed old) (hc : Continues (some old) (some new)) :
    Books { s with drain := .one i q progressed new } := by
  apply h.redirect
  intro j r
  rw [hat]
  by_cases hjr : j ≠ i ∨ r ≠ q
  · rw [stage_one_ne hjr, stage_one_ne hjr]
    exact Continues.refl none
  · rw [not_or, not_not, not_not] at hjr
    obtain ⟨rfl, rfl⟩ := hjr
    rw [stage_one_self, stage_one_self]
    exact hc

theorem drainStep_outside (h : Books s) (hout : ∀ i q progressed stage,
    s.drain ≠ .one i q progressed stage) : Books s.drainStep := by
  have hnone : ∀ {d : DrainPc k}, (∀ i q progressed stage, d ≠ .one i q progressed stage) →
      ∀ j r, Outside (d.stage j r) := by
    intro d hd j r
    cases d with
    | one i q progressed stage => exact absurd rfl (hd i q progressed stage)
    | _ => exact Or.inl rfl
  have hold := hnone hout
  unfold Logger.drainStep
  split
  · apply h.wander hold
    intro j r
    split_ifs <;> exact Or.inl rfl
  · apply h.wander hold
    intro j r
    split_ifs <;> exact Or.inl rfl
  · apply h.wander hold
    intro j r
    split_ifs <;> exact Or.inl rfl
  · apply h.wander hold
    intro j r
    split_ifs
    · exact outside_checking _ _ _ j r
    · exact Or.inl rfl
  · rename_i hat
    exact absurd hat (hout _ _ _ _)
  · exact h

omit [∀ q, NeZero (depth q)] in
/-- At the other rings nothing changes when `drain_one` goes on at its own. -/
theorem continues_other {old : Stage} (hat : s.drain = .one i q progressed old)
    (hd : ∀ j r, j ≠ i ∨ r ≠ q → Outside (d.stage j r)) {j : Fin k} {r : Queue}
    (hjr : j ≠ i ∨ r ≠ q) : Continues (s.drain.stage j r) (d.stage j r) := by
  rw [hat]
  exact continues_ne hjr progressed old (hd j r hjr)

theorem outside_one_ne (i : Fin k) (q : Queue) (progressed : Bool) (stage : Stage) (j : Fin k)
    (r : Queue) (hjr : j ≠ i ∨ r ≠ q) :
    Outside ((one i q progressed stage).stage j r) := by
  rw [stage_one_ne hjr]
  exact Or.inl rfl

theorem popStep (h : Books s) (hdepth : ∀ q, depth q < 2 ^ 32)
    (hat : s.drain = .one i q progressed .popping) :
    Books (s.popStep i q progressed) := by
  have hstage : s.drain.stage i q = some .popping := by
    rw [hat, stage_one_self]
  have hconveyed := h.conveyed i q
  rw [hstage] at hconveyed
  have huncounted : s.uncounted i q = [] := by
    rw [Logger.uncounted, hstage]
    rfl
  have hother : ∀ {d : DrainPc k}, (∀ j r, j ≠ i ∨ r ≠ q → Outside (d.stage j r)) →
      ∀ j r, j ≠ i ∨ r ≠ q → Continues (s.drain.stage j r) (d.stage j r) :=
    fun hd j r hjr => continues_other hat hd hjr
  unfold Logger.popStep
  dsimp only
  split
  · rename_i hring
    apply h.setQueue_drain (d := s.drain)
    · rw [hstage]
      exact hconveyed.startPop (hdepth q) hring
    · rfl
    · simp only [act, Observe.step, Observe.startPop, hring]
      rfl
    · exact fun _ => rfl
    · exact fun j r _ => Continues.refl _
  · rename_i head hring
    have hpopped : (((s.taps i).queue q).act .consumer).ring.popped =
        ((s.taps i).queue q).ring.popped := by
      simp only [act, Observe.step, stepConsumer, hring]
      split_ifs <;> rfl
    split_ifs with hempty
    · have hout := outside_afterOne i q progressed false
      apply h.setQueue_drain
      · exact hconveyed.compare (hdepth q) hring (Or.inr ⟨hempty, (hout i q).holds⟩)
      · rfl
      · rw [hpopped, huncounted, (Continues.of_outside (Or.inl rfl) (hout i q)).uncounted]
        rfl
      · intro source
        rw [(Continues.of_outside (Or.inl rfl) (hout i q)).entered, hstage]
        rfl
      · exact hother fun j r _ => hout j r
    · apply h.setQueue_drain (d := s.drain)
      · rw [hstage]
        exact hconveyed.compare (hdepth q) hring (Or.inl rfl)
      · rfl
      · rw [hpopped]
        rfl
      · exact fun _ => rfl
      · exact fun j r _ => Continues.refl _
  · rename_i head hring
    apply h.setQueue_drain (d := s.drain)
    · rw [hstage]
      exact hconveyed.copy (hdepth q) hring
    · rfl
    · simp only [act, Observe.step, stepConsumer, hring]
      rfl
    · exact fun _ => rfl
    · exact fun j r _ => Continues.refl _
  · rename_i out head hring
    apply h.setQueue_drain
    · rw [stage_one_self]
      exact hconveyed.take (hdepth q) hring
    · rfl
    · rw [stage_one_self, huncounted]
      simp only [act, Conveyed.step_copied hring]
      exact List.length_append
    · intro source
      rw [stage_one_self, hstage]
      rfl
    · exact hother (outside_one_ne i q progressed _)

/-- `drained` counts the frame that has just been popped. -/
theorem countDrained (h : Books s) {tap : TapRecord}
    (hat : s.drain = .one i q progressed (.popped tap)) :
    Books { s.setTap i { s.taps i with drained := (s.taps i).drained + 1 } with
      drain := .one i q progressed (.pushing tap) } := by
  have htap := h.taps i
  have hother : ∀ j r, j ≠ i ∨ r ≠ q → Continues (s.drain.stage j r)
      ((one i q progressed (.pushing tap)).stage j r) :=
    fun j r hjr => continues_other hat (outside_one_ne i q progressed _) hjr
  have hself : ∀ {stage : Stage}, (one i q progressed stage).stage i q = some stage :=
    stage_one_self ..
  apply h.setTap
  · intro r
    by_cases hr : r = q
    · subst hr
      have hconveyed := h.conveyed i r
      rw [hat, hself] at hconveyed
      rw [hself]
      have hidle := hconveyed.consumer.resolve_right fun heq => by cases heq
      have hnext : Conveyed ((s.taps i).queue r) (s.settled i r) (some (.pushing tap)) :=
        hconveyed.redirect rfl (Or.inl hidle)
      exact hnext
    · exact h.conveyed_continues (hother i r (Or.inr hr))
  · constructor
    · exact htap.refused
    · have hcount : s.uncountedOf i =
          ((uncounted ((one i q progressed (.pushing tap)).stage i .rx)).length +
            (uncounted ((one i q progressed (.pushing tap)).stage i .tx)).length) +
          1 := by
        unfold Logger.uncountedOf Logger.uncounted
        rw [hat]
        cases q <;> simp [stage, uncounted]
      have hdrained := htap.drained
      rw [hcount, ← uint32_ofNat_succ] at hdrained
      change (s.taps i).drained + 1 + _ = _
      refine Eq.trans ?_ hdrained
      grind
    · exact htap.accepted
  · rfl
  · intro r source
    by_cases hr : r = q
    · subst hr
      rw [hat, hself, hself]
      rfl
    · exact (hother i r (Or.inr hr)).entered source
  · exact fun j r hj => hother j r (Or.inl hj)

/-- The record goes into the ring of the writer. -/
theorem enter (h : Books s) {tap : TapRecord}
    (hat : s.drain = .one i q progressed (.entering tap)) :
    Books { s with
      ring := s.ring ++ [tapToLogRecord tap (s.taps i).source]
      drain := .one i q progressed (.counting tap .accepted) } := by
  have hother : ∀ j r, j ≠ i ∨ r ≠ q → Continues (s.drain.stage j r)
      ((one i q progressed (.counting tap .accepted)).stage j r) :=
    fun j r hjr => continues_other hat (outside_one_ne i q progressed _) hjr
  have hkept : ∀ j r,
      holds ((one i q progressed (.counting tap .accepted)).stage j r) =
        holds (s.drain.stage j r) ∧
      uncounted ((one i q progressed (.counting tap .accepted)).stage j r) =
        uncounted (s.drain.stage j r) ∧
      (s.drain.stage j r = some .popping →
        (one i q progressed (.counting tap .accepted)).stage j r = some .popping) := by
    intro j r
    by_cases hjr : j ≠ i ∨ r ≠ q
    · have hc := hother j r hjr
      exact ⟨hc.holds, hc.uncounted, hc.popping⟩
    · rw [not_or, not_not, not_not] at hjr
      obtain ⟨rfl, rfl⟩ := hjr
      rw [hat, stage_one_self, stage_one_self]
      refine ⟨rfl, rfl, fun heq => ?_⟩
      cases heq
  constructor
  · intro j r
    exact (h.conveyed j r).redirect (hkept j r).1 ((h.conveyed j r).consumer.imp_right (hkept j r).2.2)
  · intro j
    have htap := h.taps j
    rw [Logger.uncountedOf, Logger.uncounted, Logger.uncounted, ← (hkept j .rx).2.1,
      ← (hkept j .tx).2.1] at htap
    exact htap
  · intro j r
    have hrecorded := h.recorded j r
    change List.Sublist (_ ++ entered _
      ((one i q progressed (.counting tap .accepted)).stage j r)) (s.taken ++ (s.ring ++ _))
    rw [← List.append_assoc]
    by_cases hjr : j ≠ i ∨ r ≠ q
    · rw [(hother j r hjr).entered]
      exact hrecorded.trans (List.sublist_append_left _ _)
    · rw [not_or, not_not, not_not] at hjr
      obtain ⟨rfl, rfl⟩ := hjr
      rw [hat, stage_one_self] at hrecorded
      rw [stage_one_self]
      simp only [entered, List.append_nil] at hrecorded ⊢
      exact hrecorded.append_right _
  · exact h.dropped
  · exact h.cardDropped

/-! ### What `push_record` has settled -/

section HandOver

variable {i : Fin k} {q : Queue} {progressed : Bool} {tap : TapRecord} {v : Verdict}

omit [∀ q, NeZero (depth q)] in
theorem settled_concat (s : Logger k depth) (x : Handed k) (j : Fin k) (r : Queue) :
    Logger.settled { s with handed := s.handed ++ [x] } j r =
      s.settled j r ++ if x.tap = j ∧ x.queue = r then [x.record] else [] := by
  simp only [Logger.settled, List.filter_append, List.map_append, List.filter_singleton,
    Bool.cond_decide]
  split_ifs <;> rfl

omit [∀ q, NeZero (depth q)] in
theorem settledAs_concat (s : Logger k depth) (x : Handed k) (j : Fin k) (r : Queue)
    (v : Verdict) : Logger.settledAs { s with handed := s.handed ++ [x] } j r v =
      s.settledAs j r v ++ if (x.tap = j ∧ x.queue = r) ∧ x.verdict = v then [x.record] else [] := by
  simp only [Logger.settledAs, List.filter_append, List.map_append, List.filter_singleton,
    Bool.cond_decide]
  split_ifs <;> rfl

omit [∀ q, NeZero (depth q)] in
theorem allSettledAs_concat (s : Logger k depth) (x : Handed k) (v : Verdict) :
    Logger.allSettledAs { s with handed := s.handed ++ [x] } v =
      s.allSettledAs v ++ if x.verdict = v then [x] else [] := by
  simp only [Logger.allSettledAs, List.filter_append, List.filter_singleton, Bool.cond_decide]

theorem conveyed_handOver (h : Books s)
    (hat : s.drain = .one i q progressed (.counting tap v)) {d : DrainPc k}
    (hd : ∀ j r, Outside (d.stage j r)) (j : Fin k) (r : Queue) :
    Conveyed ((s.taps j).queue r)
      (Logger.settled { s with handed := s.handed ++ [⟨i, q, tap, v⟩] } j r) (d.stage j r) := by
  rw [settled_concat]
  by_cases hjr : j ≠ i ∨ r ≠ q
  · have hne : ¬ (i = j ∧ q = r) := by
      rintro ⟨rfl, rfl⟩
      rcases hjr with hj | hr
      · exact hj rfl
      · exact hr rfl
    rw [if_neg hne, List.append_nil]
    exact h.conveyed_continues (continues_other hat (fun j r _ => hd j r) hjr)
  · rw [not_or, not_not, not_not] at hjr
    obtain ⟨rfl, rfl⟩ := hjr
    have hconveyed := h.conveyed j r
    rw [hat, stage_one_self] at hconveyed
    rw [if_pos ⟨rfl, rfl⟩]
    exact hconveyed.settle (hd j r).holds

omit [∀ q, NeZero (depth q)] in
/-- What was in the ring and not counted is counted. -/
theorem recorded_handOver (hat : s.drain = .one i q progressed (.counting tap v)) {d : DrainPc k}
    (hd : ∀ j r, Outside (d.stage j r)) (j : Fin k) (r : Queue) (source : UInt8) :
    (Logger.settledAs { s with handed := s.handed ++ [⟨i, q, tap, v⟩] } j r .accepted).map
        (fun tap => tapToLogRecord tap source) ++ entered source (d.stage j r) =
      (s.settledAs j r .accepted).map (fun tap => tapToLogRecord tap source) ++
        entered source (s.drain.stage j r) := by
  rw [settledAs_concat, (hd j r).entered, List.append_nil, List.map_append, hat, stage]
  congr 1
  by_cases hjr : i = j ∧ q = r
  · rw [if_pos hjr]
    cases v with
    | accepted =>
      rw [if_pos ⟨hjr, rfl⟩]
      rfl
    | dropped | cardDropped =>
      rw [if_neg fun h => by cases h.2]
      rfl
  · rw [if_neg hjr, if_neg fun h => hjr h.1]
    rfl

omit [∀ q, NeZero (depth q)] in
theorem acceptedOf_concat (s : Logger k depth) (j : Fin k) :
    Logger.acceptedOf { s with handed := s.handed ++ [⟨i, q, tap, v⟩] } j =
      s.acceptedOf j + if i = j ∧ v = .accepted then 1 else 0 := by
  simp only [Logger.acceptedOf, settledAs_concat, List.length_append]
  cases q <;> by_cases hj : i = j <;> by_cases hv : v = .accepted <;> simp [hj, hv] <;> omega

omit [∀ q, NeZero (depth q)] in
theorem uncountedOf_handOver (hat : s.drain = .one i q progressed (.counting tap v))
    {d : DrainPc k} (hd : ∀ j r, Outside (d.stage j r)) (j : Fin k) :
    (uncounted (d.stage j .rx)).length + (uncounted (d.stage j .tx)).length =
      s.uncountedOf j := by
  have hold : ∀ r, uncounted (s.drain.stage j r) = [] := by
    intro r
    rw [hat, stage]
    split_ifs <;> rfl
  rw [(hd j .rx).uncounted, (hd j .tx).uncounted, Logger.uncountedOf, Logger.uncounted,
    Logger.uncounted, hold, hold]

theorem handOver (h : Books s) (hat : s.drain = .one i q progressed (.counting tap v)) :
    Books (s.handOver i q progressed tap v) := by
  have hpolling : ∀ j r, Outside ((polling : DrainPc k).stage j r) := fun _ _ => Or.inl rfl
  have hafter := outside_afterOne i q progressed true
  have hsettled : ∀ v', (Logger.allSettledAs
      { s with handed := s.handed ++ [⟨i, q, tap, v⟩] } v').length =
        (s.allSettledAs v').length + if v = v' then 1 else 0 := by
    intro v'
    rw [allSettledAs_concat, List.length_append]
    split_ifs <;> rfl
  have htaps : ∀ {d : DrainPc k}, (∀ j r, Outside (d.stage j r)) → v ≠ .accepted → ∀ j,
      TapBooks (s.taps j)
        ((uncounted (d.stage j .rx)).length + (uncounted (d.stage j .tx)).length)
        (Logger.acceptedOf { s with handed := s.handed ++ [⟨i, q, tap, v⟩] } j) := by
    intro d hd hv j
    rw [uncountedOf_handOver hat hd, acceptedOf_concat, if_neg fun h => hv h.2]
    exact h.taps j
  have hrecorded : ∀ {d : DrainPc k}, (∀ j r, Outside (d.stage j r)) → ∀ j r,
      ((Logger.settledAs { s with handed := s.handed ++ [⟨i, q, tap, v⟩] } j r .accepted).map
          (fun tap => tapToLogRecord tap (s.taps j).source) ++
        entered (s.taps j).source (d.stage j r)).Sublist (s.taken ++ s.ring) := by
    intro d hd j r
    rw [recorded_handOver hat hd]
    exact h.recorded j r
  unfold Logger.handOver
  dsimp only
  cases v with
  | accepted =>
    constructor
    · intro j r
      apply Logger.forall_tap (P := fun j t => Conveyed (t.queue r)
        (Logger.settled { s with handed := s.handed ++ [⟨i, q, tap, .accepted⟩] } j r)
        ((Logger.afterOne i q progressed true).stage j r))
      · exact h.conveyed_handOver hat hafter i r
      · exact fun j _ => h.conveyed_handOver hat hafter j r
    · intro j
      apply Logger.forall_tap (P := fun j t => TapBooks t
        ((uncounted ((Logger.afterOne i q progressed true).stage j .rx)).length +
          (uncounted ((Logger.afterOne i q progressed true).stage j .tx)).length)
        (Logger.acceptedOf { s with handed := s.handed ++ [⟨i, q, tap, .accepted⟩] } j))
      · have htap := h.taps i
        rw [uncountedOf_handOver hat hafter, acceptedOf_concat, if_pos ⟨rfl, rfl⟩]
        refine ⟨htap.refused, htap.drained, ?_⟩
        rw [← uint32_ofNat_succ, ← htap.accepted]
      · intro j hj
        rw [uncountedOf_handOver hat hafter, acceptedOf_concat, if_neg fun h => hj h.1.symm]
        exact h.taps j
    · intro j r
      apply Logger.forall_tap (P := fun j t => ((Logger.settledAs
          { s with handed := s.handed ++ [⟨i, q, tap, .accepted⟩] } j r .accepted).map
          (fun tap => tapToLogRecord tap t.source) ++
        entered t.source ((Logger.afterOne i q progressed true).stage j r)).Sublist
          (s.taken ++ s.ring))
      · exact hrecorded hafter i r
      · exact fun j _ => hrecorded hafter j r
    · have hdropped := hsettled .dropped
      rw [if_neg (by decide)] at hdropped
      exact h.dropped.trans (congrArg (fun m => UInt32.ofNat (m + s.otherDropped)) hdropped.symm)
    · have hcard := hsettled .cardDropped
      rw [if_neg (by decide)] at hcard
      exact h.cardDropped.trans
        (congrArg (fun m => UInt32.ofNat (m + s.otherCardDropped)) hcard.symm)
  | dropped =>
    refine ⟨h.conveyed_handOver hat hpolling, htaps hpolling (by decide), hrecorded hpolling,
      ?_, ?_⟩
    · have hdropped := hsettled .dropped
      rw [if_pos rfl] at hdropped
      have hnew : s.droppedRecords + 1 =
          UInt32.ofNat ((s.allSettledAs .dropped).length + 1 + s.otherDropped) := by
        rw [h.dropped, uint32_ofNat_succ, Nat.add_right_comm]
      exact hnew.trans (congrArg (fun m => UInt32.ofNat (m + s.otherDropped)) hdropped.symm)
    · have hcard := hsettled .cardDropped
      rw [if_neg (by decide)] at hcard
      exact h.cardDropped.trans
        (congrArg (fun m => UInt32.ofNat (m + s.otherCardDropped)) hcard.symm)
  | cardDropped =>
    refine ⟨h.conveyed_handOver hat hpolling, htaps hpolling (by decide), hrecorded hpolling,
      ?_, ?_⟩
    · have hdropped := hsettled .dropped
      rw [if_neg (by decide)] at hdropped
      exact h.dropped.trans (congrArg (fun m => UInt32.ofNat (m + s.otherDropped)) hdropped.symm)
    · have hcard := hsettled .cardDropped
      rw [if_pos rfl] at hcard
      have hnew : s.cardDropped + 1 =
          UInt32.ofNat ((s.allSettledAs .cardDropped).length + 1 + s.otherCardDropped) := by
        rw [h.cardDropped, uint32_ofNat_succ, Nat.add_right_comm]
      exact hnew.trans (congrArg (fun m => UInt32.ofNat (m + s.otherCardDropped)) hcard.symm)

end HandOver

theorem drainStep (h : Books s) (hdepth : ∀ q, depth q < 2 ^ 32) : Books s.drainStep := by
  cases hat : s.drain with
  | one i q progressed stage =>
    have hchecking : stage = .checking → ∀ j r, Outside (s.drain.stage j r) := by
      rintro rfl j r
      rw [hat]
      exact outside_checking i q progressed j r
    unfold Logger.drainStep
    rw [hat]
    change Books (s.drainOne i q progressed stage)
    unfold Logger.drainOne
    cases stage with
    | checking =>
      dsimp only
      split_ifs
      · exact h.goOn hat ⟨rfl, rfl, fun _ => rfl, fun heq => by cases heq⟩
      · exact h.wander (hchecking rfl) (outside_afterOne i q progressed false)
    | popping => exact h.popStep hdepth hat
    | popped tap => exact h.countDrained hat
    | pushing tap =>
      dsimp only
      split_ifs
      · exact h.goOn hat ⟨rfl, rfl, fun _ => rfl, fun heq => by cases heq⟩
      · exact h.goOn hat ⟨rfl, rfl, fun _ => rfl, fun heq => by cases heq⟩
    | entering tap =>
      dsimp only
      split_ifs
      · exact h.goOn hat ⟨rfl, rfl, fun _ => rfl, fun heq => by cases heq⟩
      · exact h.enter hat
    | counting tap v => exact h.handOver hat
  | polling | gate | port i | turning i progressed | gone =>
    apply h.drainStep_outside
    intro i q progressed stage heq
    rw [hat] at heq
    cases heq

/-! ### The other sources and the writer -/

theorem logFrame (h : Books s) (saw : Bool) (rec : LogRecord) : Books (s.logFrame saw rec) := by
  unfold Logger.logFrame
  split_ifs
  · refine ⟨h.conveyed, h.taps, h.recorded, h.dropped, ?_⟩
    change s.cardDropped + 1 = UInt32.ofNat ((s.allSettledAs .cardDropped).length +
      (s.otherCardDropped + 1))
    rw [h.cardDropped, uint32_ofNat_succ, Nat.add_assoc]
  · refine ⟨h.conveyed, h.taps, h.recorded, ?_, h.cardDropped⟩
    change s.droppedRecords + 1 = UInt32.ofNat ((s.allSettledAs .dropped).length +
      (s.otherDropped + 1))
    rw [h.dropped, uint32_ofNat_succ, Nat.add_assoc]
  · refine ⟨h.conveyed, h.taps, fun i q => ?_, h.dropped, h.cardDropped⟩
    apply (h.recorded i q).trans
    change (s.taken ++ s.ring).Sublist (s.taken ++ (s.ring ++ [rec]))
    rw [← List.append_assoc]
    exact List.sublist_append_left _ _

theorem popRecord (h : Books s) : Books s.popRecord := by
  unfold Logger.popRecord
  split
  · rename_i rec ring _ hring
    refine ⟨h.conveyed, h.taps, fun i q => ?_, h.dropped, h.cardDropped⟩
    have hrecorded := h.recorded i q
    rw [hring] at hrecorded
    change List.Sublist _ (s.taken ++ [rec] ++ ring)
    rw [List.append_assoc]
    exact hrecorded
  · exact h

theorem turn (h : Books s) (e : Event k) : Books (s.turn e) := by
  unfold Logger.turn
  split
  · split
    · exact { h with }
    · exact h
  · split
    · exact { h with }
    · exact h
  · split
    · split_ifs
      · exact { h with }
      · exact h
    · exact h
  · split
    · exact { h with }
    · exact h
  · split
    · exact { h with }
    · exact h
  · split
    · exact { h with }
    · exact { h with }
    · exact h
  · exact h

theorem load (h : Books s) (q : Queue) (e : End) : Books (s.load q e) := by
  unfold Logger.load
  split
  · split_ifs with hi
    · dsimp only
      split
      · split_ifs
        · exact h
        · have hc := h.conveyed ⟨_, hi⟩ q
          have h' := h.setQueue (i := ⟨_, hi⟩) (q := q)
            (Q := { (s.taps ⟨_, hi⟩).queue q with
              snapped := ((s.taps ⟨_, hi⟩).queue q).ring.accepted.length })
            { hc with } rfl rfl
          exact ⟨h'.conveyed, h'.taps, h'.recorded, h'.dropped, h'.cardDropped⟩
      · split_ifs
        · exact h
        · exact { h with }
      · exact h
    · exact h
  · exact h

theorem state (h : Books s) : Books s.state := by
  unfold Logger.state
  split
  · rename_i i loads hwriter
    split_ifs with hi
    · dsimp only
      split_ifs
      · have htap := h.taps ⟨i, hi⟩
        have h' := h.setTap (i := ⟨i, hi⟩) (d := s.drain)
          (t := { s.taps ⟨i, hi⟩ with
            shutdownLost := (s.taps ⟨i, hi⟩).shutdownLost + ((loads .rx).size + (loads .tx).size)
            stated := true })
          (fun q => h.conveyed ⟨i, hi⟩ q) { htap with } rfl
          (fun _ _ => rfl) (fun j q _ => Continues.refl _)
        exact ⟨h'.conveyed, h'.taps, h'.recorded, h'.dropped, h'.cardDropped⟩
      · exact h
    · exact { h with }
  · exact h

theorem step (h : Books s) (hdepth : ∀ q, depth q < 2 ^ 32) (e : Event k) : Books (s.step e) := by
  cases e with
  | receive i record => exact h.capture i .rx record
  | txDone i e =>
    unfold Logger.step
    dsimp only
    split_ifs
    · exact h.capture i .tx _
    · exact h
  | interrupt i q => exact h.interruptStep hdepth i q
  | drain => exact h.drainStep hdepth
  | logFrame saw rec => exact h.logFrame saw rec
  | popRecord => exact h.popRecord
  | requestClose => exact { h with }
  | load q e => exact h.load q e
  | state => exact h.state
  | mount => exact h.turn .mount
  | unmount => exact h.turn .unmount
  | emergencyClose => exact h.turn .emergencyClose
  | finish => exact h.turn .finish
  | confineStop => exact h.turn .confineStop
  | confineFormat created => exact h.turn (.confineFormat created)

theorem start (c : Setup k) (mounted created : Bool) :
    Books (c.start mounted created : Logger k depth) := by
  constructor
  · exact fun i q => Conveyed.init (c.armed i q)
  · exact fun i => ⟨rfl, rfl, rfl⟩
  · exact fun i q => List.Sublist.refl _
  · rfl
  · rfl

end Books

end EspCars.SdLogger.TapDrain
