import EspCars.CanGateway.EndToEnd
import EspCars.CanGateway.Station

/-!
# Bytes that were not on the wire

Two runs of a station that are given the same frames at the same times, but whose buffers held
different bytes before. `Alike` relates two records of one frame: they are equal, or the frame is a
remote frame that none of its consumers takes for a data frame. A ring run on alike records stays
alike, and what an alike record does to the consumers is the same, so that the consumers cannot
tell the two runs apart (`clients_agree`).
-/

namespace EspCars.CanGateway

open EspCars.Lib

/-! ## Two runs of a ring -/

namespace Observe

section Related

variable {A : Type} {n : Nat} {R : A → A → Prop}

/-- Producers at the same place, with related records. -/
inductive ProducerRel (R : A → A → Prop) : Producer A → Producer A → Prop
  | idle : ProducerRel R .idle .idle
  | loadedTail {a b : A} (h : R a b) (tail : UInt32) :
      ProducerRel R (.loadedTail a tail) (.loadedTail b tail)
  | hasRoom {a b : A} (h : R a b) (tail : UInt32) :
      ProducerRel R (.hasRoom a tail) (.hasRoom b tail)
  | wrote {a b : A} (h : R a b) (tail : UInt32) : ProducerRel R (.wrote a tail) (.wrote b tail)

/-- Consumers at the same place, with related records. -/
inductive ConsumerRel (R : A → A → Prop) : Consumer A → Consumer A → Prop
  | idle : ConsumerRel R .idle .idle
  | loadedHead (head : UInt32) : ConsumerRel R (.loadedHead head) (.loadedHead head)
  | notEmpty (head : UInt32) : ConsumerRel R (.notEmpty head) (.notEmpty head)
  | copied {a b : A} (h : R a b) (head : UInt32) :
      ConsumerRel R (.copied a head) (.copied b head)

/-- The same event, of related records. -/
inductive EventRel (R : A → A → Prop) : Event A → Event A → Prop
  | push {a b : A} (h : R a b) : EventRel R (.push a) (.push b)
  | producer : EventRel R .producer .producer
  | pop : EventRel R .pop .pop
  | consumer : EventRel R .consumer .consumer

/-- The two rings stand at the same place and hold related records. -/
structure Related (R : A → A → Prop) (s t : State A n) : Prop where
  head : t.ring.head = s.ring.head
  tail : t.ring.tail = s.ring.tail
  entries : ∀ i, R (s.ring.entries.get i) (t.ring.entries.get i)
  producer : ProducerRel R s.producer t.producer
  consumer : ConsumerRel R s.consumer t.consumer

variable [NeZero n] {s t : State A n}

theorem Related.cell (h : Related R s t) (index : UInt32) :
    R (s.ring.cell index) (t.ring.cell index) := h.entries (slot n index)

theorem Related.setCell (h : Related R s t) {a b : A} (hab : R a b) (index : UInt32) (i : Fin n) :
    R ((s.ring.setCell index a).entries.get i) ((t.ring.setCell index b).entries.get i) := by
  change R ((s.ring.entries.set (slot n index) a)[i.val]) ((t.ring.entries.set (slot n index) b)[i.val])
  rw [Vector.getElem_set, Vector.getElem_set]
  split_ifs
  · exact hab
  · exact h.entries i

/-- A step on related records keeps the rings related. -/
theorem Related.step (h : Related R s t) {e e' : Event A} (he : EventRel R e e') :
    Related R (Observe.step s e) (Observe.step t e') := by
  obtain ⟨hhead, htail, hentries, hproducer, hconsumer⟩ := id h
  obtain ⟨⟨cells, head, tail⟩, producer, consumer, accepted, popped⟩ := s
  obtain ⟨⟨cells', head', tail'⟩, producer', consumer', accepted', popped'⟩ := t
  dsimp only at hhead htail hentries hproducer hconsumer
  subst hhead htail
  cases he with
  | push hab =>
    cases hproducer with
    | idle => exact ⟨rfl, rfl, hentries, .loadedTail hab _, hconsumer⟩
    | loadedTail hr => exact ⟨rfl, rfl, hentries, .loadedTail hr _, hconsumer⟩
    | hasRoom hr => exact ⟨rfl, rfl, hentries, .hasRoom hr _, hconsumer⟩
    | wrote hr => exact ⟨rfl, rfl, hentries, .wrote hr _, hconsumer⟩
  | producer =>
    cases hproducer with
    | idle => exact ⟨rfl, rfl, hentries, .idle, hconsumer⟩
    | loadedTail hr at' =>
      simp only [Observe.step, stepProducer]
      split_ifs
      · exact ⟨rfl, rfl, hentries, .idle, hconsumer⟩
      · exact ⟨rfl, rfl, hentries, .hasRoom hr _, hconsumer⟩
    | hasRoom hr at' => exact ⟨rfl, rfl, h.setCell hr at', .wrote hr _, hconsumer⟩
    | wrote hr at' => exact ⟨rfl, rfl, hentries, .idle, hconsumer⟩
  | pop =>
    cases hconsumer with
    | idle => exact ⟨rfl, rfl, hentries, hproducer, .loadedHead _⟩
    | loadedHead at' => exact ⟨rfl, rfl, hentries, hproducer, .loadedHead _⟩
    | notEmpty at' => exact ⟨rfl, rfl, hentries, hproducer, .notEmpty _⟩
    | copied hr at' => exact ⟨rfl, rfl, hentries, hproducer, .copied hr _⟩
  | consumer =>
    cases hconsumer with
    | idle => exact ⟨rfl, rfl, hentries, hproducer, .idle⟩
    | loadedHead at' =>
      simp only [Observe.step, stepConsumer]
      split_ifs
      · exact ⟨rfl, rfl, hentries, hproducer, .idle⟩
      · exact ⟨rfl, rfl, hentries, hproducer, .notEmpty _⟩
    | notEmpty at' => exact ⟨rfl, rfl, hentries, hproducer, .copied (h.cell at') _⟩
    | copied hr at' => exact ⟨rfl, rfl, hentries, hproducer, .idle⟩

theorem Related.exec (h : Related R s t) {es es' : List (Event A)}
    (hes : List.Forall₂ (EventRel R) es es') :
    Related R (Lib.exec Observe.step s es) (Lib.exec Observe.step t es') := by
  induction hes generalizing s t with
  | nil => exact h
  | cons he _ ih => exact ih (h.step he)

theorem forall₂_pushCall {a b : A} (h : R a b) :
    List.Forall₂ (EventRel R) (pushCall a) (pushCall b) :=
  .cons (.push h) (.cons .producer (.cons .producer (.cons .producer .nil)))

end Related

end Observe

/-! ## What a consumer does with a remote frame -/

namespace Client

/-- The bytes of a frame that is too short to be decoded do not matter. -/
theorem isoTp_onFrame_of_short {cfg : Isotp.IsoTpConfig} (p : Isotp.IsoTpProtocol) {dlc : Nat}
    (h : dlc < cfg.addressExtensionLen.val + 1) (data data' : List UInt8) (now : UInt32)
    (accepted : Bool) :
    p.onFrame cfg data dlc now accepted = p.onFrame cfg data' dlc now accepted := by
  have hinvalid : ∀ data, Isotp.decodePci cfg data dlc = {} := fun data => if_pos h
  have hrx : ∀ (r : Isotp.RxTransfer) data, r.onFrame cfg data dlc now {} =
      (.nothing, {}, { r with ignored := r.ignored + 1 }) := by
    intro r data
    unfold Isotp.RxTransfer.onFrame
    rw [hinvalid]
  unfold Isotp.IsoTpProtocol.onFrame Isotp.IsoTpProtocol.onData Isotp.RxTransfer.writes
  simp only [hinvalid, hrx]

/-- A remote frame that is not taken for a data frame has no bytes for the consumer. -/
theorem onFrame_congr {c : Client} {view view' : FrameView} (hrtr : view.rtr = true)
    (hreads : c.reads view.dlc = false) (hview : view' = { view with data := view'.data })
    (env : CallEnv) : c.onFrame env view' = c.onFrame env view := by
  have hdlc : view'.dlc = view.dlc := by rw [hview]
  have hrtr' : view'.rtr = true := by rw [hview, hrtr]
  have hreads' := hreads
  rw [← hdlc] at hreads'
  cases c with
  | sensor s =>
    have hshort : view.dlc ≤ s.cfg.lastByte := by simpa [reads] using hreads
    have hshort' : view'.dlc ≤ s.cfg.lastByte := by simpa [reads] using hreads'
    rw [onFrame, onFrame, DecodeSensor.onFrame_of_short hshort,
      DecodeSensor.onFrame_of_short hshort']
  | binarySensor s =>
    have hshort : view.dlc ≤ s.bit / 8 := by simpa [reads] using hreads
    have hshort' : view'.dlc ≤ s.bit / 8 := by simpa [reads] using hreads'
    rw [onFrame, onFrame, DecodeBinarySensor.onFrame_of_short hshort,
      DecodeBinarySensor.onFrame_of_short hshort']
  | textSensor s =>
    have hshort : view.dlc ≤ s.cfg.lastByte := by simpa [reads] using hreads
    have hshort' : view'.dlc ≤ s.cfg.lastByte := by simpa [reads] using hreads'
    rw [onFrame, onFrame, DecodeTextSensor.onFrame_of_short hshort,
      DecodeTextSensor.onFrame_of_short hshort']
  | isoTp cfg p =>
    have hshort : view.dlc.toNat < cfg.addressExtensionLen.val + 1 := by
      simpa [reads] using hreads
    rw [onFrame, onFrame, hdlc]
    exact congrArg (Client.isoTp cfg) (isoTp_onFrame_of_short p hshort _ _ _ _)
  | ccp cfg s =>
    have hnothing : ∀ extended data, s.hub.onFrame extended true data = (s.hub, none) :=
      fun extended data => if_pos (Bool.or_true _)
    rw [onFrame, onFrame, hrtr, hrtr', hnothing, hnothing]

/-- What a consumer takes for data is a matter of its configuration. -/
theorem reads_onFrame (c : Client) (env : CallEnv) (view : FrameView) (dlc : UInt8) :
    (c.onFrame env view).reads dlc = c.reads dlc := by
  cases c with
  | sensor s => simp only [onFrame, reads, DecodeSensor.cfg_onFrame]
  | binarySensor s => simp only [onFrame, reads, DecodeBinarySensor.bit_onFrame]
  | textSensor s => simp only [onFrame, reads, DecodeTextSensor.cfg_onFrame]
  | isoTp cfg p => rfl
  | ccp cfg s => rfl

theorem reads_handle (c : Client) (input : ClientInput) (dlc : UInt8) :
    (c.handle input).reads dlc = c.reads dlc := by
  cases c <;> cases input <;> rfl

end Client

/-! ## Alike records -/

/-- The consumers that a frame with this ID reaches. -/
def Reaches (subs : List FrameSubscriber) (canId : UInt32) (extended : Bool) (i : Nat) : Prop :=
  ∃ sub, subs[i]? = some sub ∧ sub.matches canId extended = true

/-- One frame received in two runs; `reads i` is what the consumer `i` takes for data. -/
def Alike (subs : List FrameSubscriber) (reads : Nat → UInt8 → Bool) (a b : FrameRecord) : Prop :=
  b = a ∨ b = { a with data := b.data } ∧ a.rtr = true ∧
    ∀ i, Reaches subs a.canId a.extended i → reads i a.dlc = false

theorem Alike.refl {subs : List FrameSubscriber} {reads : Nat → UInt8 → Bool} (a : FrameRecord) :
    Alike subs reads a a := Or.inl rfl

theorem reaches_of_mem_dispatch {subs : List FrameSubscriber} {count : UInt16}
    {record : FrameRecord} {call : Nat × FrameView} (h : call ∈ dispatchRecord subs count record) :
    Reaches subs record.canId record.extended call.1 ∧ call.2 = record.view := by
  unfold dispatchRecord at h
  rw [dispatchFrom_eq] at h
  unfold callsFrom at h
  obtain ⟨entry, hentry, rfl⟩ := List.mem_map.mp h
  obtain ⟨hmem, hwants⟩ := List.mem_filter.mp hentry
  have hget := List.mem_zipIdx_iff_getElem?.mp hmem
  rw [List.getElem?_take] at hget
  split_ifs at hget
  exact ⟨⟨entry.1, hget, hwants⟩, rfl⟩

/-- The calls for a frame with other bytes go to the same subscribers. -/
theorem dispatchRecord_congr (subs : List FrameSubscriber) (count : UInt16) {a b : FrameRecord}
    (h : b = { a with data := b.data }) :
    dispatchRecord subs count b =
      (dispatchRecord subs count a).map fun call => (call.1, b.view) := by
  have hwants : ∀ sub : FrameSubscriber, sub.wants b.view = sub.wants a.view := by
    intro sub
    rw [h]
    rfl
  unfold dispatchRecord
  rw [dispatchFrom_eq, dispatchFrom_eq]
  unfold callsFrom
  rw [List.map_map]
  simp only [hwants]
  rfl

namespace Station

/-- What the consumers take for data. -/
def Sights (reads : Nat → UInt8 → Bool) (clients : Nat → Client) : Prop :=
  ∀ i dlc, (clients i).reads dlc = reads i dlc

variable {reads : Nat → UInt8 → Bool} {clients : Nat → Client} {f g : CanFrame}

theorem Sights.update (h : Sights reads clients) {i : Nat} {c : Client}
    (hc : ∀ dlc, c.reads dlc = (clients i).reads dlc) :
    Sights reads fun j => if j = i then c else clients j := by
  intro j dlc
  dsimp only
  split_ifs with hj
  · rw [hc, hj]
    exact h i dlc
  · exact h j dlc

theorem Sights.answer
    (h : Sights reads clients) (env : Nat → CallEnv) (k : Nat) (calls : List (Nat × FrameView)) :
    Sights reads (answer env k clients calls) := by
  induction calls generalizing k clients with
  | nil => exact h
  | cons call calls ih => exact ih (h.update fun dlc => Client.reads_onFrame _ _ _ dlc) _

/-- Callbacks whose consumers do not look at the bytes do the same with any bytes. -/
theorem answer_congr
    (h : Sights reads clients) (env : Nat → CallEnv) (k : Nat) {calls : List (Nat × FrameView)}
    {view view' : FrameView} (hrtr : view.rtr = true)
    (hview : view' = { view with data := view'.data })
    (hcalls : ∀ call ∈ calls, reads call.1 view.dlc = false ∧ call.2 = view) :
    answer env k clients (calls.map fun call => (call.1, view')) =
      answer env k clients calls := by
  induction calls generalizing k clients with
  | nil => rfl
  | cons call calls ih =>
    obtain ⟨i, view₀⟩ := call
    obtain ⟨hreads, hsame⟩ := hcalls _ (List.mem_cons_self ..)
    have hstep : (clients i).onFrame (env k) view' = (clients i).onFrame (env k) view₀ := by
      rw [show view₀ = view from hsame]
      exact Client.onFrame_congr hrtr ((h i _).trans hreads) hview _
    rw [List.map_cons, answer, answer, hstep]
    exact ih (h.update fun dlc => Client.reads_onFrame _ _ _ dlc) _
      fun call hcall => hcalls call (List.mem_cons_of_mem _ hcall)

theorem answer_dispatch {subs : List FrameSubscriber} (h : Sights reads clients)
    (env : Nat → CallEnv) (count : UInt16)
    {a b : FrameRecord} (hab : Alike subs reads a b) :
    answer env 0 clients (dispatchRecord subs count b) =
      answer env 0 clients (dispatchRecord subs count a) := by
  rcases hab with rfl | ⟨hb, hrtr, hblind⟩
  · rfl
  · have hview : b.view = { a.view with data := b.view.data } := by
      rw [hb]
      rfl
    rw [dispatchRecord_congr subs count hb]
    have hrtr' : a.view.rtr = true := hrtr
    refine answer_congr h env 0 hrtr' hview fun call hcall => ?_
    obtain ⟨hreaches, hsame⟩ := reaches_of_mem_dispatch hcall
    exact ⟨hblind call.1 hreaches, hsame⟩

/-! ## Alike stations -/

/-- Drains at the same place, with related records. -/
inductive DrainRel (R : FrameRecord → FrameRecord → Prop) : DrainPc → DrainPc → Prop
  | idle : DrainRel R .idle .idle
  | popping (drained : UInt8) : DrainRel R (.popping drained) (.popping drained)
  | dispatching (drained : UInt8) {a b : FrameRecord} (h : R a b) :
      DrainRel R (.dispatching drained a) (.dispatching drained b)

variable {n : Nat} [NeZero n] {subs : List FrameSubscriber} {reads : Nat → UInt8 → Bool}

/-- Two ports in the same place of the same run. -/
structure AlikePorts (subs : List FrameSubscriber) (reads : Nat → UInt8 → Bool)
    (s t : ObservingPort cfg τ n) : Prop where
  route : t.rx.route = s.rx.route
  consumers : t.rx.consumers = s.rx.consumers
  subscribers : s.subscribers = subs ∧ t.subscribers = subs
  maxFramesPerLoop : t.maxFramesPerLoop = s.maxFramesPerLoop
  filter : t.filter = s.filter
  drain : DrainRel (Alike subs reads) s.drain t.drain
  ring : Observe.Related (Alike subs reads) s.ring t.ring

/-- Two stations whose consumers have seen the same. -/
structure AlikeStations (subs : List FrameSubscriber) (reads : Nat → UInt8 → Bool)
    (s t : Station cfg τ n) : Prop where
  ports : AlikePorts subs reads s.port t.port
  clients : t.clients = s.clients
  sights : Sights reads s.clients

/-- What a frame is matched by: everything but its payload. -/
def SameHeader (f g : CanFrame) : Prop := g = { f with data := g.data }

theorem SameHeader.processFrame_fst (h : SameHeader f g) (table : RouteTable) :
    (processFrame table g).1 = (processFrame table f).1 := by
  have hmatch : matchRule table g = matchRule table f := by
    unfold matchRule
    congr 1
    funext rule
    rw [h]
    rfl
  unfold processFrame
  rw [hmatch]
  cases matchRule table f with
  | none => rfl
  | some rule =>
    dsimp only
    split_ifs <;> rfl

theorem SameHeader.handleRxIsr (h : SameHeader f g) (p : Port cfg τ) (enabled transmitOk : Bool) :
    p.handleRxIsr enabled (some g) transmitOk = p.handleRxIsr enabled (some f) transmitOk := by
  have haction := h.processFrame_fst cfg.table
  unfold Port.handleRxIsr
  split
  · rfl
  · split
    · rfl
    · split
      · rfl
      · dsimp only
        generalize processFrame cfg.table f = out at haction ⊢
        generalize processFrame cfg.table g = out' at haction ⊢
        obtain ⟨action, frame⟩ := out
        obtain ⟨action', frame'⟩ := out'
        cases haction
        cases action <;> rfl

theorem SameHeader.observes (h : SameHeader f g) (c : RxConsumers) :
    c.observes g = c.observes f := by
  rw [h]
  rfl

/-- One frame in two buffers. -/
def SameFrame (subs : List FrameSubscriber) (reads : Nat → UInt8 → Bool) (f g : RxFrame) : Prop :=
  SameHeader f.toCanFrame g.toCanFrame ∧
    Alike subs reads (RxPort.frameRecord f.toCanFrame) (RxPort.frameRecord g.toCanFrame)

theorem SameFrame.refl (f : RxFrame) : SameFrame subs reads f f := ⟨rfl, .refl _⟩

omit [NeZero n] in
theorem AlikePorts.buffer? {s t : ObservingPort cfg τ n} (h : AlikePorts subs reads s t)
    (e : RxEvent) : t.rx.buffer? e = s.rx.buffer? e := by
  unfold RxPort.buffer?
  rw [h.route, h.consumers]

omit [NeZero n] in
theorem AlikePorts.rejected {s t : ObservingPort cfg τ n} (h : AlikePorts subs reads s t)
    (passes : MaskFilter → RxFrame → Bool) (e : RxEvent) :
    t.rejected passes e = s.rejected passes e := by
  unfold ObservingPort.rejected
  rw [h.filter]

omit [NeZero n] in
theorem offered_eq (s : ObservingPort cfg τ n) (e : RxEvent) :
    (s.interrupted e).seen.observations.drop s.rx.seen.observations.length =
      ((e.received.map RxFrame.toCanFrame).toList.filter s.rx.consumers.observes).map
        RxPort.frameRecord := by
  have hoffered := (s.rx.offered_handleRxIsr
    { e with observeRoom := !decide (Observe.full n s.ring.ring.tail s.ring.ring.head) }).observations
  change (s.interrupted e).seen.observations = _ at hoffered
  rw [hoffered, List.drop_left]

/-- The interrupt keeps two ports alike. -/
theorem AlikePorts.handleRxIsr {s t : ObservingPort cfg τ n} (h : AlikePorts subs reads s t)
    (e : RxEvent) {received received' : Option RxFrame}
    (hsame : Option.Rel (SameFrame subs reads) received received') :
    AlikePorts subs reads (s.handleRxIsr { e with received := received })
      (t.handleRxIsr { e with received := received' }) := by
  refine
    { route := ?_
      consumers := ?_
      subscribers := h.subscribers
      maxFramesPerLoop := h.maxFramesPerLoop
      filter := h.filter
      drain := h.drain
      ring := ?_ }
  · change (t.interrupted _).route = (s.interrupted _).route
    unfold ObservingPort.interrupted
    rw [RxPort.route_handleRxIsr, RxPort.route_handleRxIsr, h.route]
    congr 1
    funext p
    cases hsame with
    | none => rfl
    | some hframe => exact hframe.1.handleRxIsr p e.enabled e.transmitOk
  · change (t.interrupted _).consumers = (s.interrupted _).consumers
    unfold ObservingPort.interrupted
    rw [RxPort.consumers_handleRxIsr, RxPort.consumers_handleRxIsr, h.consumers]
  · change Observe.Related _ (exec Observe.step s.ring _) (exec Observe.step t.ring _)
    apply h.ring.exec
    rw [offered_eq, offered_eq, h.consumers]
    cases hsame with
    | none => exact .nil
    | some hframe =>
      simp only [Option.map_some, Option.toList_some, List.filter_cons, List.filter_nil,
        hframe.1.observes]
      split_ifs
      · simpa using Observe.forall₂_pushCall hframe.2
      · exact .nil

theorem AlikePorts.popStep {s t : ObservingPort cfg τ n} (h : AlikePorts subs reads s t)
    (drained : UInt8) : AlikePorts subs reads (s.popStep drained) (t.popStep drained) := by
  have hpop := h.ring.step .pop
  have hnext := h.ring.step .consumer
  have hconsumer := h.ring.consumer
  unfold ObservingPort.popStep
  generalize hcs : s.ring.consumer = cs at hconsumer
  generalize hct : t.ring.consumer = ct at hconsumer
  cases hconsumer with
  | idle =>
    dsimp only
    rw [h.maxFramesPerLoop]
    split_ifs
    · exact { h with maxFramesPerLoop := rfl, ring := hpop }
    · exact { h with maxFramesPerLoop := rfl, drain := .idle }
  | loadedHead head =>
    dsimp only
    rw [hnext.tail]
    split_ifs
    · exact { h with ring := hnext, drain := .idle }
    · exact { h with ring := hnext }
  | notEmpty head => exact { h with ring := hnext }
  | copied hab head => exact { h with ring := hnext, drain := .dispatching drained hab }

theorem AlikePorts.drainStep {s t : ObservingPort cfg τ n} (h : AlikePorts subs reads s t) :
    AlikePorts subs reads s.drainStep t.drainStep := by
  have hdrain := h.drain
  unfold ObservingPort.drainStep
  generalize hs : s.drain = ds at hdrain
  generalize ht : t.drain = dt at hdrain
  cases hdrain with
  | idle =>
    dsimp only
    rw [h.consumers]
    split_ifs
    · exact { h with drain := .popping 0 }
    · exact h
  | popping drained => exact h.popStep drained
  | dispatching drained hab => exact { h with drain := .popping (drained + 1) }

/-- The callbacks of a step of the drain. -/
theorem calls_drainStep (s : ObservingPort cfg τ n) :
    s.drainStep.calls.drop s.calls.length =
      match s.drain with
      | .dispatching _ record =>
        dispatchRecord s.subscribers (UInt16.ofNat s.subscribers.length) record
      | _ => [] := by
  unfold ObservingPort.drainStep
  cases s.drain with
  | idle =>
    dsimp only
    split_ifs <;> exact List.drop_length
  | popping drained =>
    dsimp only
    unfold ObservingPort.popStep
    split
    · split_ifs <;> exact List.drop_length
    · dsimp only
      split_ifs <;> exact List.drop_length
    · exact List.drop_length
    · exact List.drop_length
  | dispatching drained record => exact List.drop_left

/-- A data frame has the same record whatever the buffer held before; the record of a remote frame
does not matter to consumers that take it for none. -/
theorem sameFrame_into {f : RxFrame} (old old' : Bytes8)
    (hunread : f.rtr = true → ∀ i, Reaches subs f.id f.ide i →
      reads i (UInt8.ofNat f.toCanFrame.dlc) = false) :
    SameFrame subs reads (f.into old) (f.into old') := by
  refine ⟨rfl, ?_⟩
  cases hrtr : f.rtr with
  | true => exact Or.inr ⟨rfl, hrtr, hunread hrtr⟩
  | false =>
    have hdata : ∀ old, recordData (f.into old).toCanFrame = recordData f.toCanFrame := by
      intro old
      unfold recordData
      congr 1
      funext i
      change (if i < f.toCanFrame.dlc then (f.into old).buffer.get i else 0) =
        if i < f.toCanFrame.dlc then f.buffer.get i else 0
      split_ifs with hlt
      · change (if f.rtr = true then old else Vector.ofFn fun i : Fin maxFrameDataLen =>
          if i < f.toCanFrame.dlc then f.buffer.get i else old.get i)[i.val] = _
        rw [if_neg (by rw [hrtr]; decide), Vector.getElem_ofFn, if_pos hlt]
      · rfl
    left
    unfold RxPort.frameRecord
    rw [hdata, hdata]
    rfl

variable {s t : Station cfg τ n}

theorem AlikeStations.handleRxIsr (h : AlikeStations subs reads s t) {e : RxEvent}
    (hunread : ∀ f, e.received = some f → f.rtr = true → ∀ i, Reaches subs f.id f.ide i →
      reads i (UInt8.ofNat f.toCanFrame.dlc) = false) :
    AlikeStations subs reads (s.handleRxIsr e) (t.handleRxIsr e) := by
  have hrefl : Option.Rel (SameFrame subs reads) e.received e.received := by
    cases e.received with
    | none => exact .none
    | some f => exact .some (.refl f)
  unfold Station.handleRxIsr
  rw [h.ports.buffer? e]
  split
  · next buffer f hbuffer hf =>
    exact
      { ports := h.ports.handleRxIsr e (.some (sameFrame_into _ _ (hunread f hf)))
        clients := h.clients
        sights := h.sights }
  · exact
      { ports := h.ports.handleRxIsr e hrefl
        clients := h.clients
        sights := h.sights }

theorem AlikeStations.drain (h : AlikeStations subs reads s t) (env : Nat → CallEnv) :
    AlikeStations subs reads (s.drain env) (t.drain env) := by
  refine ⟨h.ports.drainStep, ?_, ?_⟩
  · change answer env 0 t.clients _ = answer env 0 s.clients _
    rw [calls_drainStep, calls_drainStep, h.clients, h.ports.subscribers.1, h.ports.subscribers.2]
    have hdrain := h.ports.drain
    generalize s.port.drain = ds at hdrain
    generalize t.port.drain = dt at hdrain
    cases hdrain with
    | idle => rfl
    | popping drained => rfl
    | dispatching drained hab => exact answer_dispatch h.sights env _ hab
  · exact h.sights.answer env 0 _

/-- What happens to both stations keeps them alike. -/
theorem AlikeStations.step (h : AlikeStations subs reads s t)
    (passes : MaskFilter → RxFrame → Bool) {a : StationEvent cfg τ}
    (hunread : ∀ e, a = .rx e → ∀ f, e.received = some f → f.rtr = true →
      ∀ i, Reaches subs f.id f.ide i → reads i (UInt8.ofNat f.toCanFrame.dlc) = false) :
    AlikeStations subs reads (s.step passes a) (t.step passes a) := by
  cases a with
  | rx e =>
    change AlikeStations subs reads (s.receive passes e) (t.receive passes e)
    unfold Station.receive
    rw [h.ports.rejected passes e]
    split_ifs with hrejected
    · have hrejected' : t.port.rejected passes e = true := by
        rw [h.ports.rejected passes e, hrejected]
      refine { h with ports := ?_ }
      unfold ObservingPort.receive
      rw [if_pos hrejected, if_pos hrejected']
      exact { h.ports with }
    · exact h.handleRxIsr (hunread e rfl)
  | destination p =>
    refine { h with ports := ?_ }
    refine { h.ports with route := ?_ }
    change t.port.rx.route.map _ = s.port.rx.route.map _
    rw [h.ports.route]
  | drain env => exact h.drain env
  | client i input =>
    refine ⟨h.ports, ?_, h.sights.update fun dlc => Client.reads_handle _ _ dlc⟩
    change (fun j => if j = i then (t.clients i).handle input else t.clients j) = _
    rw [h.clients]
    rfl

theorem AlikeStations.exec (h : AlikeStations subs reads s t)
    (passes : MaskFilter → RxFrame → Bool) {as : List (StationEvent cfg τ)}
    (hunread : ∀ e, .rx e ∈ as → ∀ f, e.received = some f → f.rtr = true →
      ∀ i, Reaches subs f.id f.ide i → reads i (UInt8.ofNat f.toCanFrame.dlc) = false) :
    AlikeStations subs reads (exec (Station.step passes) s as)
      (exec (Station.step passes) t as) := by
  induction as generalizing s t with
  | nil => exact h
  | cons a as ih =>
    apply ih
    · apply h.step passes
      rintro e rfl
      exact hunread e (List.mem_cons_self ..)
    · exact fun e he => hunread e (List.mem_cons_of_mem _ he)

omit [NeZero n] in
theorem related_refl (s : ObservingPort cfg τ n) :
    Observe.Related (Alike subs reads) s.ring s.ring where
  head := rfl
  tail := rfl
  entries i := .refl _
  producer := by
    cases s.ring.producer with
    | idle => exact .idle
    | loadedTail record tail => exact .loadedTail (.refl record) tail
    | hasRoom record tail => exact .hasRoom (.refl record) tail
    | wrote record tail => exact .wrote (.refl record) tail
  consumer := by
    cases s.ring.consumer with
    | idle => exact .idle
    | loadedHead head => exact .loadedHead head
    | notEmpty head => exact .notEmpty head
    | copied record head => exact .copied (.refl record) head

omit [NeZero n] in
theorem alikeStations_of_sameButBuffers (h : SameButBuffers s t) :
    AlikeStations s.port.subscribers (fun i => (s.clients i).reads) s t := by
  rw [h]
  refine ⟨⟨rfl, rfl, ⟨rfl, rfl⟩, rfl, rfl, ?_, related_refl _⟩, rfl, fun i dlc => rfl⟩
  change DrainRel _ s.port.drain s.port.drain
  cases s.port.drain with
  | idle => exact .idle
  | popping drained => exact .popping drained
  | dispatching drained record => exact .dispatching drained (.refl record)

/-- Two runs that differ in the bytes left in the buffers show the consumers the same, as long as
no remote frame reaches one that takes it for a data frame. -/
theorem clients_agree (h : SameButBuffers s t) (passes : MaskFilter → RxFrame → Bool)
    {as : List (StationEvent cfg τ)} (hunread : ∀ e, .rx e ∈ as → s.Unread e) :
    (exec (Station.step passes) t as).clients = (exec (Station.step passes) s as).clients := by
  refine ((alikeStations_of_sameButBuffers h).exec passes ?_).clients
  rintro e he f hf hrtr i ⟨sub, hsub, hmatches⟩
  exact hunread e he f hf hrtr i sub hsub hmatches

/-- A port that routes nothing, with a decode sensor on byte 0 of 0x123; the staging buffer holds
`left`. -/
def sampleStation (left : UInt8) : Station minimalConfig Unit 4 where
  port := .start { maxFramesPerLoop := 4 } 128 (registry [.subscribe 0x123 false])
  buffers := { slots := fun _ => .replicate maxFrameDataLen 0, staging := .replicate maxFrameDataLen left }
  clients := fun _ => .sensor { cfg := {} }

/-- A remote frame with the ID of the sensor is received and dispatched. -/
def sampleRun (dlc : Nat) : List (StationEvent minimalConfig Unit) :=
  .rx { received := some { id := 0x123, rtr := true, dlc := dlc } } ::
    List.replicate 6 (.drain fun _ => {})

theorem clients_agree_sample :
    (exec (Station.step fun _ _ => true) (sampleStation 0x55) (sampleRun 0)).clients =
      (exec (Station.step fun _ _ => true) (sampleStation 0) (sampleRun 0)).clients := by
  have hsame : SameButBuffers (sampleStation 0) (sampleStation 0x55) := rfl
  apply clients_agree hsame
  intro e he f hf _ i sub _ _
  have hevent : e = { received := some { id := 0x123, rtr := true, dlc := 0 } } := by
    simpa [sampleRun] using he
  rw [hevent] at hf
  cases hf
  rfl

/-- What the first consumer of the sample has published. -/
def published (c : Client) : List Reading :=
  match c with
  | .sensor s => s.published
  | _ => []

/-- The sensor publishes the byte that was left in the buffer when a remote frame comes. -/
theorem not_clients_agree :
    ¬ ∀ (s t : Station minimalConfig Unit 4) (as : List (StationEvent minimalConfig Unit)),
      SameButBuffers s t → (exec (Station.step fun _ _ => true) t as).clients =
        (exec (Station.step fun _ _ => true) s as).clients := by
  intro h
  have hsame := congrArg (fun clients => published (clients 0))
    (h (sampleStation 0) (sampleStation 0x55) (sampleRun 1) rfl)
  exact absurd hsame (by decide)

end Station

end EspCars.CanGateway
