import EspCars.SdLogger.TapAccount

/-!
# What is lost at the close

`emergency_close_` has made `mounted_` false before it reads the size of a ring. So the drain enters
no pop of that ring any more, and if it is in none, the ring only fills: what lies between the two
loaded counters is what will never be popped. The one way to miss is a pop that was entered before,
with `mounted_` still true (`not_accounted_popping`).
-/

namespace EspCars.SdLogger.TapDrain

open EspCars.Lib EspCars.CanGateway EspCars.CanGateway.Observe TapDrain.Logger

variable {k n : Nat} {depth : Queue → Nat}

/-! ## A ring that is not popped -/

/-- What a step leaves of a ring that the writer may have looked at. -/
structure Kept (Q Q' : TapQueue n) (popping : Prop) : Prop where
  armed : Q'.armed = Q.armed
  snapped : Q'.snapped = Q.snapped
  accepted : Q.ring.accepted.length ≤ Q'.ring.accepted.length
  popped : popping ∨ Q'.ring.popped = Q.ring.popped

theorem Kept.refl (Q : TapQueue n) (popping : Prop) : Kept Q Q popping :=
  ⟨rfl, rfl, Nat.le_refl _, Or.inr rfl⟩

section Kept

variable [NeZero n] (Q : TapQueue n) (popping : Prop)

theorem kept_act (e : Observe.Event TapRecord)
    (h : popping ∨ (Observe.step Q.ring e).popped = Q.ring.popped) :
    Kept Q (Q.act e) popping :=
  ⟨rfl, rfl, (accepted_prefix_step Q.ring e).length_le, h⟩

omit [NeZero n] in
theorem kept_capture (record : TapRecord) : Kept Q (Q.capture record) popping := by
  unfold TapQueue.capture
  split
  · exact ⟨rfl, rfl, Nat.le_refl _, Or.inr rfl⟩
  · exact Kept.refl Q popping

theorem kept_pushStep (record : TapRecord) : Kept Q (Q.pushStep record) popping := by
  have hpopped := Books.popped_pushStep Q record
  unfold TapQueue.pushStep at hpopped ⊢
  split at hpopped
  · exact ⟨rfl, rfl, (accepted_prefix_step Q.ring _).length_le, Or.inr hpopped⟩
  · split_ifs at hpopped ⊢
    · exact ⟨rfl, rfl, (accepted_prefix_step Q.ring _).length_le, Or.inr hpopped⟩
    · exact ⟨rfl, rfl, (accepted_prefix_step Q.ring _).length_le, Or.inr hpopped⟩
  · exact ⟨rfl, rfl, (accepted_prefix_step Q.ring _).length_le, Or.inr hpopped⟩
  · exact ⟨rfl, rfl, (accepted_prefix_step Q.ring _).length_le, Or.inr hpopped⟩

end Kept

theorem kept_setQueue {t : Tap depth} {q : Queue} {Q : TapQueue (depth q)} {P : Queue → Prop}
    (hQ : Kept (t.queue q) Q (P q)) (r : Queue) :
    Kept (t.queue r) ((t.setQueue q Q).queue r) (P r) := by
  by_cases hr : r = q
  · subst hr
    rw [Tap.queue_setQueue_self]
    exact hQ
  · rw [Tap.queue_setQueue_ne t Q hr]
    exact Kept.refl _ _

/-! ## The invariant -/

section Invariant

variable {s s' : Logger k depth}

/-- The drain is in no pop of the ring, and what was in it when the writer loaded `tail_` is popped,
or still there. -/
structure Frozen (s : Logger k depth) (i : Fin k) (q : Queue) : Prop where
  still : s.drain.stage i q ≠ some .popping
  popped_le : ((s.taps i).queue q).ring.popped.length ≤ ((s.taps i).queue q).snapped
  le_accepted : ((s.taps i).queue q).snapped ≤ ((s.taps i).queue q).ring.accepted.length
  room : ((s.taps i).queue q).snapped ≤ ((s.taps i).queue q).ring.popped.length + depth q

/-- What the writer has loaded of a ring. -/
structure LoadsAt (s : Logger k depth) (i : Fin k) (q : Queue) (l : Loads) : Prop where
  unarmed : ((s.taps i).queue q).armed = false → l = {}
  tail : ∀ tail, l.tail = some tail →
    tail = UInt32.ofNat ((s.taps i).queue q).snapped ∧ Frozen s i q
  head : ∀ head, l.head = some head →
    head = UInt32.ofNat ((s.taps i).queue q).ring.popped.length ∧
      s.drain.stage i q ≠ some .popping

/-- How many frames of a ring were left behind. -/
def leftBehind (Q : TapQueue n) : Nat := Q.snapped - Q.ring.popped.length

/-- `shutdown_lost` says what was left behind. -/
structure Stated (s : Logger k depth) (i : Fin k) : Prop where
  stated : (s.taps i).stated = true
  frozen : ∀ q, ((s.taps i).queue q).armed = true → Frozen s i q
  lost : (s.taps i).shutdownLost = UInt32.ofNat ((s.taps i).both leftBehind)

/-- Nothing is stated of this tap. -/
structure NotStated (t : Tap depth) : Prop where
  stated : t.stated = false
  lost : t.shutdownLost = 0

/-- How far the writer has come with the tap `i`. -/
def TapAt (s : Logger k depth) (i : Fin k) : Writer → Prop
  | .running | .stopped => NotStated (s.taps i)
  | .closing j loads =>
    (i.val < j → Stated s i) ∧ (j ≤ i.val → NotStated (s.taps i)) ∧
      (i.val = j → ∀ q, LoadsAt s i q (loads q))
  | .finishing | .closed => Stated s i

/-- There is no card for the rest of the run. -/
def Writer.isShut : Writer → Bool
  | .running | .stopped => false
  | _ => true

/-- What the snapshot of the losses at shutdown has to do with the taps. -/
structure Snapshot (s : Logger k depth) : Prop where
  unarmed : ∀ i q, ((s.taps i).queue q).armed = false → ((s.taps i).queue q).snapped = 0
  card : s.writer.isShut = true → s.mounted = false
  tap : ∀ i, TapAt s i s.writer

/-! What is so of a tap depends on the tap and on where the drain is. -/

section Same

variable {i : Fin k} {q : Queue}

theorem Frozen.congr (h : Frozen s i q) (hdrain : s'.drain = s.drain)
    (hqueue : (s'.taps i).queue q = (s.taps i).queue q) : Frozen s' i q := by
  constructor
  · rw [hdrain]
    exact h.still
  · rw [hqueue]
    exact h.popped_le
  · rw [hqueue]
    exact h.le_accepted
  · rw [hqueue]
    exact h.room

theorem LoadsAt.congr {l : Loads} (h : LoadsAt s i q l) (hdrain : s'.drain = s.drain)
    (hqueue : (s'.taps i).queue q = (s.taps i).queue q) : LoadsAt s' i q l := by
  constructor
  · rw [hqueue]
    exact h.unarmed
  · intro tail htail
    rw [hqueue]
    exact ⟨(h.tail tail htail).1, (h.tail tail htail).2.congr hdrain hqueue⟩
  · rw [hqueue, hdrain]
    exact h.head

theorem Stated.congr (h : Stated s i) (hdrain : s'.drain = s.drain)
    (htap : s'.taps i = s.taps i) : Stated s' i := by
  constructor
  · rw [htap]
    exact h.stated
  · intro q harmed
    rw [htap] at harmed
    exact (h.frozen q harmed).congr hdrain (by rw [htap])
  · rw [htap]
    exact h.lost

end Same

/-! ## Steps that the writer has no part in -/

/-- A step of the interrupts, of the drain or of another source. -/
structure Calm (s s' : Logger k depth) : Prop where
  writer : s'.writer = s.writer
  mounted : s'.mounted = s.mounted
  stated : ∀ i, (s'.taps i).stated = (s.taps i).stated
  lost : ∀ i, (s'.taps i).shutdownLost = (s.taps i).shutdownLost
  queue : ∀ i q, Kept ((s.taps i).queue q) ((s'.taps i).queue q)
    (s.drain.stage i q = some .popping)
  still : s.mounted = false → ∀ i q, s.drain.stage i q ≠ some .popping →
    s'.drain.stage i q ≠ some .popping

namespace Calm

theorem refl (s : Logger k depth) : Calm s s :=
  ⟨rfl, rfl, fun _ => rfl, fun _ => rfl, fun _ _ => Kept.refl _ _, fun _ _ _ h => h⟩

variable {i : Fin k} {q : Queue}

theorem popped_eq (h : Calm s s') (hstill : s.drain.stage i q ≠ some .popping) :
    ((s'.taps i).queue q).ring.popped = ((s.taps i).queue q).ring.popped :=
  (h.queue i q).popped.resolve_left hstill

theorem frozen (h : Calm s s') (hcard : s.mounted = false) (hf : Frozen s i q) :
    Frozen s' i q := by
  have hq := h.queue i q
  have hpopped := h.popped_eq hf.still
  refine ⟨h.still hcard i q hf.still, ?_, ?_, ?_⟩
  · rw [hq.snapped, hpopped]
    exact hf.popped_le
  · rw [hq.snapped]
    exact hf.le_accepted.trans hq.accepted
  · rw [hq.snapped, hpopped]
    exact hf.room

theorem loadsAt (h : Calm s s') (hcard : s.mounted = false) {l : Loads}
    (hl : LoadsAt s i q l) : LoadsAt s' i q l := by
  have hq := h.queue i q
  refine ⟨fun harmed => ?_, fun tail htail => ?_, fun head hhead => ?_⟩
  · rw [hq.armed] at harmed
    exact hl.unarmed harmed
  · obtain ⟨heq, hf⟩ := hl.tail tail htail
    rw [hq.snapped]
    exact ⟨heq, h.frozen hcard hf⟩
  · obtain ⟨heq, hstill⟩ := hl.head head hhead
    rw [h.popped_eq hstill]
    exact ⟨heq, h.still hcard i q hstill⟩

theorem notStated (h : Calm s s') (hn : NotStated (s.taps i)) : NotStated (s'.taps i) :=
  ⟨(h.stated i).trans hn.stated, (h.lost i).trans hn.lost⟩

theorem of_eq (htaps : s'.taps = s.taps) (hdrain : s'.drain = s.drain)
    (hwriter : s'.writer = s.writer) (hmounted : s'.mounted = s.mounted) : Calm s s' := by
  refine ⟨hwriter, hmounted, ?_, ?_, ?_, ?_⟩
  · rw [htaps]
    exact fun _ => rfl
  · rw [htaps]
    exact fun _ => rfl
  · rw [htaps]
    exact fun _ _ => Kept.refl _ _
  · rw [hdrain]
    exact fun _ _ _ h => h

/-- A tap is replaced and the drain moves on. -/
theorem setTap {t : Tap depth} {d : DrainPc k} (hstated : t.stated = (s.taps i).stated)
    (hlost : t.shutdownLost = (s.taps i).shutdownLost)
    (hqueue : ∀ q, Kept ((s.taps i).queue q) (t.queue q) (s.drain.stage i q = some .popping))
    (hstill : s.mounted = false → ∀ i q, s.drain.stage i q ≠ some .popping →
      d.stage i q ≠ some .popping) : Calm s { s.setTap i t with drain := d } := by
  constructor
  · rfl
  · rfl
  · apply forall_tap (P := fun j t => t.stated = (s.taps j).stated) hstated
    exact fun _ _ => rfl
  · apply forall_tap (P := fun j t => t.shutdownLost = (s.taps j).shutdownLost) hlost
    exact fun _ _ => rfl
  · intro j q
    apply forall_tap (P := fun j t =>
      Kept ((s.taps j).queue q) (t.queue q) (s.drain.stage j q = some .popping))
    · exact hqueue q
    · exact fun _ _ => Kept.refl _ _
  · exact hstill

/-- A ring is replaced and the drain moves on. -/
theorem setQueue {Q : TapQueue (depth q)} {d : DrainPc k}
    (hQ : Kept ((s.taps i).queue q) Q (s.drain.stage i q = some .popping))
    (hstill : s.mounted = false → ∀ i q, s.drain.stage i q ≠ some .popping →
      d.stage i q ≠ some .popping) :
    Calm s { s.setTap i ((s.taps i).setQueue q Q) with drain := d } := by
  refine setTap ?_ ?_ ?_ hstill
  · rfl
  · rfl
  · exact kept_setQueue (P := fun r => s.drain.stage i r = some .popping) hQ

/-- The drain moves on. -/
theorem drain {d : DrainPc k} (hstill : s.mounted = false → ∀ i q,
    s.drain.stage i q ≠ some .popping → d.stage i q ≠ some .popping) :
    Calm s { s with drain := d } :=
  ⟨rfl, rfl, fun _ => rfl, fun _ => rfl, fun _ _ => Kept.refl _ _, hstill⟩

end Calm

theorem Outside.still {stage : Option Stage} (h : Outside stage) : stage ≠ some .popping := by
  rcases h with rfl | rfl
  · intro heq
    cases heq
  · intro heq
    cases heq

/-- A stage of `drain_one` that is no pop. -/
theorem still_one (i : Fin k) (q : Queue) (progressed : Bool) {stage : Stage}
    (h : stage ≠ .popping) (j : Fin k) (r : Queue) :
    (DrainPc.one i q progressed stage).stage j r ≠ some .popping := by
  rw [DrainPc.stage]
  split_ifs
  · intro heq
    exact h (Option.some.inj heq)
  · intro heq
    cases heq

theorem calm_capture (s : Logger k depth) (i : Fin k) (q : Queue) (record : TapRecord) :
    Calm s (s.setTap i ((s.taps i).setQueue q (((s.taps i).queue q).capture record))) :=
  Calm.setQueue (kept_capture _ _ record) fun _ _ _ h => h

section Steps

variable [∀ q, NeZero (depth q)]

theorem calm_interruptStep (s : Logger k depth) (i : Fin k) (q : Queue) :
    Calm s (s.setTap i ((s.taps i).interruptStep q)) := by
  unfold Tap.interruptStep
  dsimp only
  split
  · have hsame : s.setTap i (s.taps i) = s := by
      rw [setTap, Function.update_eq_self]
    rw [hsame]
    exact Calm.refl s
  · rename_i record _
    exact Calm.setQueue (kept_pushStep _ _ record) fun _ _ _ h => h
  · exact Calm.setQueue ⟨rfl, rfl, Nat.le_refl _, Or.inr rfl⟩ fun _ _ _ h => h
  · refine Calm.setTap (d := s.drain) ?_ ?_ ?_ fun _ _ _ h => h
    · rfl
    · rfl
    · exact kept_setQueue (P := fun r => s.drain.stage i r = some .popping)
        ⟨rfl, rfl, Nat.le_refl _, Or.inr rfl⟩

theorem calm_popStep {i : Fin k} {q : Queue} {progressed : Bool}
    (hat : s.drain = .one i q progressed .popping) : Calm s (s.popStep i q progressed) := by
  have hstage : s.drain.stage i q = some .popping := by
    rw [hat, stage_one_self]
  have hpop : ∀ e, Kept ((s.taps i).queue q) (((s.taps i).queue q).act e)
      (s.drain.stage i q = some .popping) :=
    fun e => kept_act _ _ e (Or.inl hstage)
  unfold popStep
  dsimp only
  split
  · exact Calm.setQueue (hpop _) fun _ _ _ h => h
  · split_ifs
    · exact Calm.setQueue (hpop _) fun _ j r _ => (outside_afterOne i q progressed false j r).still
    · exact Calm.setQueue (hpop _) fun _ _ _ h => h
  · exact Calm.setQueue (hpop _) fun _ _ _ h => h
  · exact Calm.setQueue (hpop _) fun _ j r _ => still_one i q progressed (fun heq => by cases heq) j r

theorem calm_drainOne {i : Fin k} {q : Queue} {progressed : Bool} {stage : Stage}
    (hat : s.drain = .one i q progressed stage) : Calm s (s.drainOne i q progressed stage) := by
  unfold drainOne
  cases stage with
  | checking =>
    dsimp only
    split_ifs with hpop
    · apply Calm.drain
      intro hcard
      rw [hcard, Bool.and_false] at hpop
      cases hpop
    · exact Calm.drain fun _ j r _ => (outside_afterOne i q progressed false j r).still
  | popping => exact calm_popStep hat
  | popped tap =>
    refine Calm.setTap ?_ ?_ ?_ fun _ j r _ => still_one i q progressed (fun heq => by cases heq) j r
    · rfl
    · rfl
    · exact fun _ => Kept.refl _ _
  | pushing tap =>
    dsimp only
    split_ifs
    · exact Calm.drain fun _ j r _ => still_one i q progressed (fun heq => by cases heq) j r
    · exact Calm.drain fun _ j r _ => still_one i q progressed (fun heq => by cases heq) j r
  | entering tap =>
    have hcounting : ∀ v, Calm s { s with drain := .one i q progressed (.counting tap v) } :=
      fun v => Calm.drain fun _ j r _ => still_one i q progressed (fun heq => by cases heq) j r
    dsimp only
    split_ifs
    · exact hcounting .dropped
    · have h := hcounting .accepted
      exact { h with }
  | counting tap v =>
    change Calm s (s.handOver i q progressed tap v)
    unfold handOver
    cases v with
    | accepted =>
      have h := Calm.setTap (s := s) (i := i) (d := afterOne i q progressed true)
        (t := { s.taps i with recordRingAccepted := (s.taps i).recordRingAccepted + 1 }) rfl rfl
        (fun _ => Kept.refl _ _) fun _ j r _ => (outside_afterOne i q progressed true j r).still
      exact { h with }
    | dropped | cardDropped =>
      have h := Calm.drain (s := s) (d := .polling) fun _ j r _ heq => by cases heq
      exact { h with }

theorem calm_drainStep (s : Logger k depth) : Calm s s.drainStep := by
  have hnone : ∀ {d : DrainPc k}, (∀ j r, d.stage j r = none) → Calm s { s with drain := d } := by
    intro d hd
    apply Calm.drain
    intro _ j r _ heq
    rw [hd j r] at heq
    cases heq
  unfold drainStep
  split
  · apply hnone
    intro j r
    split_ifs <;> rfl
  · apply hnone
    intro j r
    split_ifs <;> rfl
  · apply hnone
    intro j r
    split_ifs <;> rfl
  · split_ifs
    · exact Calm.drain fun _ j r _ => (outside_checking _ _ _ j r).still
    · exact hnone fun j r => rfl
  · rename_i hat
    exact calm_drainOne hat
  · exact Calm.refl s

end Steps

namespace Snapshot

theorem start (c : Setup k) (mounted created : Bool) :
    Snapshot (c.start mounted created : Logger k depth) := by
  refine ⟨fun _ _ _ => rfl, fun hshut => ?_, fun i => ?_⟩
  · cases created <;> cases hshut
  · cases created <;> exact ⟨rfl, rfl⟩

theorem calm (h : Snapshot s) (hc : Calm s s') : Snapshot s' := by
  refine ⟨fun i q harmed => ?_, fun hshut => ?_, fun i => ?_⟩
  · rw [(hc.queue i q).armed] at harmed
    exact (hc.queue i q).snapped.trans (h.unarmed i q harmed)
  · rw [hc.writer] at hshut
    exact hc.mounted.trans (h.card hshut)
  · have htap := h.tap i
    have hcard := h.card
    rw [hc.writer]
    have hstated : s.mounted = false → Stated s i → Stated s' i := by
      intro hcard hst
      have hleft : ∀ q, leftBehind ((s'.taps i).queue q) = leftBehind ((s.taps i).queue q) := by
        intro q
        rw [leftBehind, leftBehind, (hc.queue i q).snapped]
        cases harmed : ((s.taps i).queue q).armed with
        | false => rw [h.unarmed i q harmed, Nat.zero_sub, Nat.zero_sub]
        | true => rw [hc.popped_eq (hst.frozen q harmed).still]
      refine ⟨(hc.stated i).trans hst.stated, fun q harmed => ?_, ?_⟩
      · rw [(hc.queue i q).armed] at harmed
        exact hc.frozen hcard (hst.frozen q harmed)
      · rw [hc.lost, hst.lost, Tap.both, Tap.both, hleft, hleft]
    cases hwriter : s.writer with
    | running | stopped =>
      rw [hwriter] at htap
      exact hc.notStated htap
    | closing j loads =>
      rw [hwriter] at htap hcard
      obtain ⟨hdone, hahead, hnow⟩ := htap
      exact ⟨fun hij => hstated (hcard rfl) (hdone hij), fun hij => hc.notStated (hahead hij),
        fun hij q => hc.loadsAt (hcard rfl) (hnow hij q)⟩
    | finishing | closed =>
      rw [hwriter] at htap hcard
      exact hstated (hcard rfl) htap

/-- The writer and `confine_format`. -/
theorem turn (h : Snapshot s) {e : Event k} (hmeets : s.Meets e) : Snapshot (s.turn e) := by
  have htap := h.tap
  unfold Logger.turn
  split
  · split
    · rename_i hwriter
      rw [hwriter] at htap
      refine ⟨h.unarmed, fun hshut => ?_, fun i => ?_⟩
      · change s.writer.isShut = true at hshut
        rw [hwriter] at hshut
        cases hshut
      · change TapAt _ i s.writer
        rw [hwriter]
        exact htap i
    · exact h
  · split
    · rename_i hwriter
      rw [hwriter] at htap
      refine ⟨h.unarmed, fun _ => rfl, fun i => ?_⟩
      change TapAt _ i s.writer
      rw [hwriter]
      exact htap i
    · exact h
  · split
    · rename_i hwriter
      rw [hwriter] at htap
      split_ifs
      · refine ⟨h.unarmed, fun _ => rfl, fun i => ⟨fun hi => ?_, fun _ => htap i, fun _ q => ?_⟩⟩
        · exact absurd hi (Nat.not_lt_zero _)
        · refine ⟨fun _ => rfl, fun tail htail => ?_, fun head hhead => ?_⟩
          · cases htail
          · cases hhead
      · exact h
    · exact h
  · split
    · rename_i hwriter
      have hcard := h.card
      rw [hwriter] at htap hcard
      exact ⟨h.unarmed, fun _ => hcard rfl, fun i => (htap i).congr rfl rfl⟩
    · exact h
  · split
    · rename_i hwriter
      rw [hwriter] at htap
      exact ⟨h.unarmed, fun _ => rfl, htap⟩
    · exact h
  · rename_i created
    split
    · rename_i hwriter
      rw [hwriter] at htap
      refine ⟨h.unarmed, fun hshut => ?_, fun i => ?_⟩
      · cases created <;> cases hshut
      · cases created <;> exact htap i
    · rename_i hwriter
      have hopen : s.writer.isClosed = false := hmeets
      rw [hwriter] at hopen
      cases hopen
    · exact h
  · exact h

section Close

variable [∀ q, NeZero (depth q)]

omit [∀ q, NeZero (depth q)] in
/-- One more load of the ring `q` at the tap that the writer is at. -/
theorem loadOne (h : Snapshot s) {i : Fin k} {loads : Queue → Loads}
    (hwriter : s.writer = .closing i loads) {q : Queue} {l : Loads}
    (hwriter' : s'.writer = .closing i (Function.update loads q l))
    (hmounted : s'.mounted = s.mounted) (hdrain : s'.drain = s.drain)
    (hunarmed : ∀ j r, ((s'.taps j).queue r).armed = false → ((s'.taps j).queue r).snapped = 0)
    (htaps : ∀ j, j ≠ i → s'.taps j = s.taps j)
    (hqueues : ∀ r, r ≠ q → (s'.taps i).queue r = (s.taps i).queue r)
    (hnot : NotStated (s.taps i) → NotStated (s'.taps i)) (hl : LoadsAt s' i q l) :
    Snapshot s' := by
  have htap := h.tap
  have hcard := h.card
  rw [hwriter] at htap hcard
  refine ⟨hunarmed, fun _ => hmounted.trans (hcard rfl), fun j => ?_⟩
  rw [hwriter']
  refine ⟨fun hj => ?_, fun hj => ?_, fun hj r => ?_⟩
  · have hji : j ≠ i := fun heq => absurd hj (by rw [heq]; exact lt_irrefl _)
    exact ((htap j).1 hj).congr hdrain (htaps j hji)
  · by_cases hji : j = i
    · subst hji
      exact hnot ((htap j).2.1 hj)
    · rw [htaps j hji]
      exact (htap j).2.1 hj
  · have hji : j = i := Fin.ext hj
    subst hji
    by_cases hr : r = q
    · subst hr
      rw [Function.update_self]
      exact hl
    · rw [Function.update_of_ne hr]
      exact ((htap j).2.2 rfl r).congr hdrain (hqueues r hr)

section Load

variable {i : Fin k} {loads : Queue → Loads} {q : Queue}

theorem loadTail (h : Snapshot s) (hb : Books s) (hwriter : s.writer = .closing i loads)
    (harmed : ((s.taps i).queue q).armed = true) (hstill : s.drain.stage i q ≠ some .popping) :
    Snapshot { s.setTap i ((s.taps i).setQueue q { (s.taps i).queue q with
        snapped := ((s.taps i).queue q).ring.accepted.length }) with
      writer := .closing i (Function.update loads q
        { loads q with tail := some ((s.taps i).queue q).ring.ring.tail }) } := by
  have hcounts := (hb.conveyed i q).sound.counts
  have htap := h.tap i
  rw [hwriter] at htap
  have hnow := htap.2.2 rfl q
  refine h.loadOne hwriter (q := q)
    (l := { loads q with tail := some ((s.taps i).queue q).ring.ring.tail }) ?_ ?_ ?_ ?_ ?_ ?_ ?_ ?_
  · rfl
  · rfl
  · rfl
  · apply forall_queue (P := fun _ r (Q : TapQueue (depth r)) =>
      Q.armed = false → Q.snapped = 0)
    · intro hunarmed
      exact absurd (harmed.symm.trans hunarmed) (by decide)
    · exact fun j r _ => h.unarmed j r
  · exact fun j hj => taps_setTap_ne s _ hj
  · intro r hr
    change ((s.setTap i _).taps i).queue r = _
    rw [taps_setTap_self, Tap.queue_setQueue_ne _ _ hr]
  · intro hnot
    change NotStated ((s.setTap i _).taps i)
    rw [taps_setTap_self]
    exact ⟨hnot.stated, hnot.lost⟩
  · have hqueue : ((s.setTap i ((s.taps i).setQueue q { (s.taps i).queue q with
          snapped := ((s.taps i).queue q).ring.accepted.length })).taps i).queue q =
        { (s.taps i).queue q with
          snapped := ((s.taps i).queue q).ring.accepted.length } := by
      rw [taps_setTap_self, Tap.queue_setQueue_self]
    refine ⟨fun hunarmed => ?_, fun tail htail => ⟨?_, hstill, ?_, ?_, ?_⟩, fun head hhead => ?_⟩
    · rw [hqueue] at hunarmed
      exact absurd (harmed.symm.trans hunarmed) (by decide)
    · cases htail
      rw [hqueue]
      exact hcounts.tail
    · rw [hqueue]
      exact hcounts.le
    · rw [hqueue]
    · rw [hqueue]
      exact hcounts.room
    · rw [hqueue]
      exact hnow.head head hhead

theorem loadHead (h : Snapshot s) (hb : Books s) (hwriter : s.writer = .closing i loads)
    (harmed : ((s.taps i).queue q).armed = true) (hstill : s.drain.stage i q ≠ some .popping) :
    Snapshot { s with
      writer := .closing i (Function.update loads q
        { loads q with head := some ((s.taps i).queue q).ring.ring.head }) } := by
  have hcounts := (hb.conveyed i q).sound.counts
  have htap := h.tap i
  rw [hwriter] at htap
  have hnow := htap.2.2 rfl q
  refine h.loadOne hwriter (q := q)
    (l := { loads q with head := some ((s.taps i).queue q).ring.ring.head }) ?_ ?_ ?_ h.unarmed
    ?_ ?_ ?_ ?_
  · rfl
  · rfl
  · rfl
  · exact fun _ _ => rfl
  · exact fun _ _ => rfl
  · exact id
  · refine ⟨fun hunarmed => ?_, fun tail htail => ?_, fun head hhead => ?_⟩
    · exact absurd (harmed.symm.trans hunarmed) (by decide)
    · obtain ⟨heq, hf⟩ := hnow.tail tail htail
      exact ⟨heq, hf.congr rfl rfl⟩
    · cases hhead
      exact ⟨hcounts.head, hstill⟩

theorem load (h : Snapshot s) (hb : Books s) {e : End} (hmeets : s.Meets (.load q e)) :
    Snapshot (s.load q e) := by
  unfold Logger.load
  split
  · rename_i i loads hwriter
    split_ifs with hi
    · have hstill : s.drain.stage ⟨i, hi⟩ q ≠ some .popping := by
        apply hmeets ⟨i, hi⟩
        rw [hwriter]
        rfl
      dsimp only
      split
      · rename_i harmed
        split_ifs
        · exact h
        · exact h.loadTail (i := ⟨i, hi⟩) hb hwriter harmed hstill
      · rename_i harmed
        split_ifs
        · exact h
        · exact h.loadHead (i := ⟨i, hi⟩) hb hwriter harmed hstill
      · exact h
    · exact h
  · exact h

end Load

end Close

/-- `size()` between two loads during which nothing is popped. -/
theorem size_eq {h t : Nat} (hle : h ≤ t) (hroom : t - h < 2 ^ 16) :
    Loads.size { tail := some (UInt32.ofNat t), head := some (UInt32.ofNat h) } =
      UInt32.ofNat (t - h) := by
  have hdistance : (UInt32.ofNat t - UInt32.ofNat h).toNat = t - h :=
    toNat_distance hle (by omega)
  rw [← UInt32.toNat_inj]
  change (UInt32.ofNat t - UInt32.ofNat h).toUInt16.toUInt32.toNat = _
  rw [UInt16.toNat_toUInt32, UInt32.toNat_toUInt16, hdistance, UInt32.toNat_ofNat']
  omega

theorem size_loaded (h : Snapshot s) (hdepth : ∀ q, depth q < 2 ^ 16) {i : Fin k}
    {loads : Queue → Loads} {q : Queue} (hl : LoadsAt s i q (loads q))
    (hloaded : loaded (s.taps i) loads q = true) :
    (loads q).size = UInt32.ofNat (leftBehind ((s.taps i).queue q)) ∧
      (((s.taps i).queue q).armed = true → Frozen s i q) := by
  cases harmed : ((s.taps i).queue q).armed with
  | false =>
    rw [hl.unarmed harmed, leftBehind, h.unarmed i q harmed, Nat.zero_sub]
    exact ⟨rfl, fun heq => absurd heq (by decide)⟩
  | true =>
    rw [loaded, harmed, Bool.not_true, Bool.false_or, Bool.and_eq_true,
      Option.isSome_iff_exists, Option.isSome_iff_exists] at hloaded
    obtain ⟨⟨tail, htail⟩, head, hhead⟩ := hloaded
    obtain ⟨htail', hf⟩ := hl.tail tail htail
    obtain ⟨hhead', -⟩ := hl.head head hhead
    have hroom := hf.room
    have hq := hdepth q
    have hloads : loads q = { tail := some tail, head := some head } := by
      rw [← htail, ← hhead]
    rw [hloads, htail', hhead', leftBehind]
    exact ⟨size_eq hf.popped_le (by omega), fun _ => hf⟩

theorem state (h : Snapshot s) (hdepth : ∀ q, depth q < 2 ^ 16) : Snapshot s.state := by
  have htap := h.tap
  have hcard := h.card
  unfold Logger.state
  split
  · rename_i i loads hwriter
    rw [hwriter] at htap hcard
    split_ifs with hi
    · dsimp only
      split_ifs with hloaded
      · rw [Bool.and_eq_true] at hloaded
        have hnow := (htap ⟨i, hi⟩).2.2 rfl
        have hnot := (htap ⟨i, hi⟩).2.1 (Nat.le_refl i)
        have hrx := h.size_loaded hdepth (hnow .rx) hloaded.1
        have htx := h.size_loaded hdepth (hnow .tx) hloaded.2
        refine ⟨?_, fun _ => hcard rfl, fun j => ⟨fun hj => ?_, fun hj => ?_, fun _ q => ?_⟩⟩
        · apply forall_tap (P := fun _ t => ∀ q, (t.queue q).armed = false →
            (t.queue q).snapped = 0)
          · exact h.unarmed ⟨i, hi⟩
          · exact fun j _ => h.unarmed j
        · by_cases hji : j = ⟨i, hi⟩
          · subst hji
            constructor
            · change ((s.setTap _ _).taps _).stated = true
              rw [taps_setTap_self]
            · intro q harmed
              have hsame : ((s.setTap ⟨i, hi⟩ { s.taps ⟨i, hi⟩ with
                    shutdownLost :=
                      (s.taps ⟨i, hi⟩).shutdownLost + ((loads .rx).size + (loads .tx).size)
                    stated := true }).taps ⟨i, hi⟩).queue q = (s.taps ⟨i, hi⟩).queue q := by
                rw [taps_setTap_self]
              have harmed' := (congrArg TapQueue.armed hsame).symm.trans harmed
              have hf : Frozen s ⟨i, hi⟩ q := by
                cases q with
                | rx => exact hrx.2 harmed'
                | tx => exact htx.2 harmed'
              exact hf.congr rfl hsame
            · change ((s.setTap _ _).taps _).shutdownLost = UInt32.ofNat (((s.setTap _ _).taps _).both _)
              rw [taps_setTap_self]
              change (s.taps ⟨i, hi⟩).shutdownLost + ((loads .rx).size + (loads .tx).size) =
                UInt32.ofNat ((s.taps ⟨i, hi⟩).both leftBehind)
              rw [hnot.lost, hrx.1, htx.1, UInt32.zero_add, ← UInt32.ofNat_add]
              rfl
          · have hlt : j.val < i := by
              have hne : j.val ≠ i := fun heq => hji (Fin.ext heq)
              omega
            exact ((htap j).1 hlt).congr rfl (taps_setTap_ne s _ hji)
        · have hji : j ≠ ⟨i, hi⟩ := by
            rintro rfl
            exact absurd hj (Nat.not_succ_le_self i)
          change NotStated ((s.setTap _ _).taps j)
          rw [taps_setTap_ne s _ hji]
          exact (htap j).2.1 (Nat.le_of_succ_le hj)
        · refine ⟨fun _ => rfl, fun tail htail => ?_, fun head hhead => ?_⟩
          · cases htail
          · cases hhead
      · exact h
    · refine ⟨h.unarmed, fun _ => hcard rfl, fun j => ?_⟩
      exact ((htap j).1 (j.isLt.trans_le (Nat.le_of_not_lt hi))).congr rfl rfl
  · exact h

theorem step [∀ q, NeZero (depth q)] (h : Snapshot s) (hb : Books s)
    (hdepth : ∀ q, depth q < 2 ^ 16) {e : Event k} (hmeets : s.Meets e) : Snapshot (s.step e) := by
  cases e with
  | receive i record => exact h.calm (calm_capture s i .rx record)
  | txDone i e =>
    unfold Logger.step
    dsimp only
    split_ifs
    · exact h.calm (calm_capture s i .tx _)
    · exact h
  | interrupt i q => exact h.calm (calm_interruptStep s i q)
  | drain => exact h.calm (calm_drainStep s)
  | logFrame saw rec =>
    change Snapshot (s.logFrame saw rec)
    unfold logFrame
    split_ifs
    · exact h.calm (Calm.of_eq rfl rfl rfl rfl)
    · exact h.calm (Calm.of_eq rfl rfl rfl rfl)
    · exact h.calm (Calm.of_eq rfl rfl rfl rfl)
  | popRecord =>
    change Snapshot s.popRecord
    unfold popRecord
    split
    · exact h.calm (Calm.of_eq rfl rfl rfl rfl)
    · exact h
  | requestClose => exact h.calm (Calm.of_eq rfl rfl rfl rfl)
  | load q e => exact h.load hb hmeets
  | state => exact h.state hdepth
  | mount => exact h.turn hmeets
  | unmount => exact h.turn hmeets
  | emergencyClose => exact h.turn hmeets
  | finish => exact h.turn hmeets
  | confineStop => exact h.turn hmeets
  | confineFormat created => exact h.turn hmeets

theorem stated_or_not (h : Snapshot s) (i : Fin k) : Stated s i ∨ NotStated (s.taps i) := by
  have htap := h.tap i
  cases hwriter : s.writer with
  | running | stopped =>
    rw [hwriter] at htap
    exact Or.inr htap
  | closing j loads =>
    rw [hwriter] at htap
    rcases Nat.lt_or_ge i.val j with hlt | hge
    · exact Or.inl (htap.1 hlt)
    · exact Or.inr (htap.2.1 hge)
  | finishing | closed =>
    rw [hwriter] at htap
    exact Or.inl htap

end Snapshot

end Invariant

/-! ## The account -/

section Account

variable [∀ q, NeZero (depth q)] {s : Logger k depth}

omit [∀ q, NeZero (depth q)] in
/-- `push_record` has settled a frame in one of three ways. -/
theorem perm_verdicts (l : List (Handed k)) :
    l.Perm ((l.filter fun h => h.verdict = .accepted) ++ (l.filter fun h => h.verdict = .dropped) ++
      (l.filter fun h => h.verdict = .cardDropped)) := by
  induction l with
  | nil => exact List.Perm.refl _
  | cons h l ih =>
    have hcons := ih.cons h
    cases hv : h.verdict with
    | accepted =>
      simp only [List.filter_cons, hv]
      exact hcons
    | dropped =>
      simp only [List.filter_cons, hv]
      refine hcons.trans ?_
      change (h :: (_ ++ _ ++ _)).Perm (_ ++ h :: _ ++ _)
      rw [List.append_assoc, List.append_assoc, List.cons_append]
      exact List.perm_middle.symm
    | cardDropped =>
      simp only [List.filter_cons, hv]
      exact hcons.trans List.perm_middle.symm

omit [∀ q, NeZero (depth q)] in
theorem settled_perm (s : Logger k depth) (i : Fin k) (q : Queue) :
    (s.settled i q).Perm (s.settledAs i q .accepted ++ s.settledAs i q .dropped ++
      s.settledAs i q .cardDropped) := by
  have hperm := (perm_verdicts (s.handed.filter fun h => h.tap = i ∧ h.queue = q)).map (·.record)
  simp only [List.map_append, List.filter_filter, ← Bool.decide_and] at hperm
  simp only [settled, settledAs, and_comm] at hperm ⊢
  exact hperm

variable {i : Fin k} {q : Queue}

/-- A captured frame is refused, on its way, in the ring, in the drain's hand or settled. -/
theorem Books.placed (hb : Books s) (hdepth : ∀ q, depth q < 2 ^ 16)
    (hclash : NoClash (depth q) ((s.taps i).queue q).ring) :
    ((s.taps i).queue q).captured.Perm
      (((s.taps i).queue q).refused ++ ((s.taps i).queue q).interrupt.holds ++
        ((s.taps i).queue q).ring.ring.unread ++ s.inHand i q ++
        (s.settledAs i q .accepted ++ s.settledAs i q .dropped ++
          s.settledAs i q .cardDropped)) := by
  have hc := hb.conveyed i q
  have hq := hdepth q
  have hunread := (hc.sound.contents hclash).unread hc.sound.counts (by omega)
  apply hc.captured.trans
  rw [hunread, hc.popped]
  have hrest : (s.settled i q ++ Stage.holds (s.drain.stage i q) ++
      ((s.taps i).queue q).ring.ring.unread).Perm (((s.taps i).queue q).ring.ring.unread ++
        s.inHand i q ++ (s.settledAs i q .accepted ++ s.settledAs i q .dropped ++
          s.settledAs i q .cardDropped)) := by
    rw [List.append_assoc]
    apply List.perm_append_comm.trans
    exact List.perm_append_comm.append (settled_perm s i q)
  have hwhole := hrest.append_left
    (((s.taps i).queue q).refused ++ ((s.taps i).queue q).interrupt.holds)
  simp only [List.append_assoc] at hwhole ⊢
  exact hwhole

/-- What was in the ring when `tail_` was loaded is popped or left behind. -/
theorem take_snapped (hb : Books s) (hclash : NoClash (depth q) ((s.taps i).queue q).ring)
    (hle : ((s.taps i).queue q).ring.popped.length ≤ ((s.taps i).queue q).snapped) :
    ((s.taps i).queue q).ring.accepted.take ((s.taps i).queue q).snapped =
      ((s.taps i).queue q).ring.popped ++ s.left i q := by
  have hinitial := ((hb.conveyed i q).sound.contents hclash).inOrder
  have htake : (((s.taps i).queue q).ring.accepted.take ((s.taps i).queue q).snapped).take
      ((s.taps i).queue q).ring.popped.length = ((s.taps i).queue q).ring.popped := by
    rw [List.take_take, Nat.min_eq_left hle]
    exact (List.prefix_iff_eq_take.mp hinitial).symm
  conv_lhs => rw [← List.take_append_drop ((s.taps i).queue q).ring.popped.length
    (((s.taps i).queue q).ring.accepted.take ((s.taps i).queue q).snapped), htake]
  rfl

theorem Stated.bounds (h : Stated s i) (hb : Books s) (hs : Snapshot s) (q : Queue) :
    ((s.taps i).queue q).ring.popped.length ≤ ((s.taps i).queue q).snapped ∧
      ((s.taps i).queue q).snapped ≤ ((s.taps i).queue q).ring.accepted.length := by
  cases harmed : ((s.taps i).queue q).armed with
  | false =>
    have hle := (hb.conveyed i q).sound.counts.le
    have hnone := ((hb.conveyed i q).unarmed harmed).2
    rw [hnone] at hle ⊢
    rw [hs.unarmed i q harmed]
    exact ⟨hle, Nat.le_refl _⟩
  | true =>
    have hf := h.frozen q harmed
    exact ⟨hf.popped_le, hf.le_accepted⟩

theorem accounted_of_books (hb : Books s) (hs : Snapshot s) (hdepth : ∀ q, depth q < 2 ^ 16)
    (hclash : ∀ q, NoClash (depth q) ((s.taps i).queue q).ring) : s.Accounted i := by
  have htap := hb.taps i
  constructor
  · exact fun q => hb.placed hdepth (hclash q)
  · exact htap.refused
  · exact htap.drained
  · exact htap.accepted
  · exact fun q => (List.sublist_append_left _ _).trans (hb.recorded i q)
  · exact hb.dropped
  · exact hb.cardDropped
  · intro hstated q
    rcases hs.stated_or_not i with h | h
    · exact take_snapped hb (hclash q) (h.bounds hb hs q).1
    · exact absurd (hstated.symm.trans h.stated) (by decide)
  · rcases hs.stated_or_not i with h | h
    · have hleft : ∀ q, (s.left i q).length = leftBehind ((s.taps i).queue q) := by
        intro q
        rw [left, List.length_drop, List.length_take,
          Nat.min_eq_left (h.bounds hb hs q).2, leftBehind]
      rw [if_pos h.stated, hleft, hleft]
      exact h.lost
    · rw [if_neg (by rw [h.stated]; decide)]
      exact h.lost

/-- In every run in which no ring is read while the drain is inside a pop of it, and no card is
mounted after the close: every captured frame is in one place and counted there, and
`shutdown_lost` counts what was in the rings and has never been popped. -/
theorem accounted (c : Setup k) (mounted created : Bool) (hdepth : ∀ q, depth q < 2 ^ 16)
    {es : List (Event k)}
    (hmeets : Admitted Logger.Meets Logger.step (c.start mounted created : Logger k depth) es)
    (hclash : ∀ i q, NoClash (depth q)
      (((exec Logger.step (c.start mounted created : Logger k depth) es).taps i).queue q).ring)
    (i : Fin k) :
    (exec Logger.step (c.start mounted created : Logger k depth) es).Accounted i := by
  have hword : ∀ q, depth q < 2 ^ 32 := by
    intro q
    have hq := hdepth q
    omega
  obtain ⟨hb, hs⟩ := hmeets.invariant (fun s => Books s ∧ Snapshot s)
    (fun s e he ⟨hb, hs⟩ => ⟨hb.step hword e, hs.step hb hdepth he⟩)
    ⟨Books.start c mounted created, Snapshot.start c mounted created⟩
  exact accounted_of_books hb hs hdepth (hclash i)

end Account

/-! ## Two closes -/

instance (s : Logger k depth) (e : Event k) : Decidable (s.Meets e) :=
  match e with
  | .load q _ =>
    inferInstanceAs (Decidable (∀ i : Fin k, s.writer.tap = some i.val →
      s.drain.stage i q ≠ some .popping))
  | .confineFormat _ => inferInstanceAs (Decidable (s.writer.isClosed = false))
  | .receive _ _ | .txDone _ _ | .interrupt _ _ | .drain | .logFrame _ _ | .popRecord | .mount
  | .unmount | .requestClose | .emergencyClose | .state | .finish | .confineStop =>
    inferInstanceAs (Decidable True)

/-- One tap, with a ring for received frames only. -/
def oneTap : Setup 1 where
  index _ := 0
  source _ := 0
  armed _ q := q = .rx

/-- A frame is received and goes into its ring. -/
def received (canId : UInt32) : List (Event 1) :=
  .receive ⟨0, Nat.one_pos⟩ { canId } :: List.replicate 5 (.interrupt ⟨0, Nat.one_pos⟩ .rx)

/-- `emergency_close_` up to the markers. -/
def closing : List (Event 1) :=
  [.requestClose, .emergencyClose, .load .rx .tail, .load .rx .head, .state, .state]

/-- Four frames to a ring. -/
def shallow (_ : Queue) : Nat := 4

instance (q : Queue) : NeZero (shallow q) := inferInstanceAs (NeZero 4)

/-- The first frame is drained, the second one is left behind. -/
theorem accounted_left :
    let es : List (Event 1) := received 1 ++ List.replicate 13 .drain ++ received 2 ++ closing
    let s := exec Logger.step (oneTap.start true true : Logger 1 shallow) es
    (s.taps 0).recordRingAccepted = 1 ∧ (s.taps 0).shutdownLost = 1 ∧ s.Accounted 0 := by
  intro es s
  have hmeets : Admitted Logger.Meets Logger.step
      (oneTap.start true true : Logger 1 shallow) es := by
    decide
  have hclash : ∀ i q, NoClash (shallow q) ((s.taps i).queue q).ring :=
    fun _ _ => Or.inl (by decide : 4 ∣ 2 ^ 32)
  refine ⟨by decide, by decide, ?_⟩
  exact accounted oneTap true true (fun _ => (by decide : 4 < 2 ^ 16)) hmeets hclash 0

/-- The ring is read when the drain has seen the card and not yet popped: the frame is stated as
lost at the close, and then popped and counted by `push_record`. -/
theorem not_accounted_popping :
    let es : List (Event 1) := received 1 ++ List.replicate 5 .drain ++ closing ++
      List.replicate 7 .drain
    let s := exec Logger.step (oneTap.start true true : Logger 1 shallow) es
    (s.taps 0).shutdownLost = 1 ∧ s.cardDropped = 1 ∧ ¬ s.Accounted 0 := by
  intro es s
  have hlost : (s.taps 0).shutdownLost = 1 := by decide
  have hleft : UInt32.ofNat (if (s.taps 0).stated then (s.left 0 .rx).length + (s.left 0 .tx).length
      else 0) = 0 := by
    decide
  refine ⟨hlost, by decide, fun h => ?_⟩
  have hsame := h.shutdownLost
  rw [hlost, hleft] at hsame
  exact absurd hsame (by decide)

end EspCars.SdLogger.TapDrain
