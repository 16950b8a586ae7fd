import EspCars.CanGateway.Observation

/-!
# From the wire to the subscribers

What holds between any two events of an observing port (`Inv`): the ring has accepted the wanted
frames that were not counted as overflow, what has been popped has been dispatched or is in hand,
and the calls are those of the dispatched records. With a ring that loses nothing and a number of
subscribers that fits its sixteen bits, that is what the subscribers are promised, and each of the
two is needed (`endToEnd_iff`).
-/

namespace EspCars.CanGateway

open EspCars.Lib

variable {cfg : PortConfig} {τ : Type}

/-! ## The interrupt -/

/-- What the observation makes of the frame `f`, if there is one. -/
structure RxSeen.Offered (c : RxConsumers) (room : Bool) (f : Option CanFrame)
    (before after : RxSeen) : Prop where
  observations : after.observations =
    before.observations ++ (f.toList.filter c.observes).map RxPort.frameRecord
  observed : after.observed = before.observed + if f.any c.observes && room then 1 else 0
  observeOverflow : after.observeOverflow =
    before.observeOverflow + if f.any c.observes && !room then 1 else 0

namespace RxPort

theorem offered_none (c : RxConsumers) (room : Bool) (seen : RxSeen) :
    RxSeen.Offered c room none seen seen := by
  refine ⟨?_, ?_, ?_⟩
  · simp
  · simp
  · simp

theorem offered_of_not_observe {c : RxConsumers} (h : c.observe = false) (room : Bool)
    (f : Option CanFrame) (seen : RxSeen) : RxSeen.Offered c room f seen seen := by
  have hno : c.observes = fun _ => false := by
    funext f
    rw [RxConsumers.observes, h, Bool.false_and]
  refine ⟨?_, ?_, ?_⟩
  · simp [hno]
  · cases f <;> simp [hno]
  · cases f <;> simp [hno]

variable (s : RxPort cfg τ)

theorem offered_observeFrame (e : RxEvent) (f : CanFrame) :
    RxSeen.Offered s.consumers e.observeRoom (some f) s.seen (s.observeFrame e f).seen := by
  unfold observeFrame
  by_cases hobserve : s.consumers.observe = false
  · rw [if_pos hobserve]
    exact offered_of_not_observe hobserve _ _ _
  rw [if_neg hobserve]
  have hon : s.consumers.observe = true := Bool.eq_true_of_not_eq_false hobserve
  by_cases hset : s.consumers.observeAll = false ∧ s.consumers.contains f.canId f.extended = false
  · have hno : s.consumers.observes f = false := by
      rw [RxConsumers.observes, hset.1, hset.2, Bool.or_self, Bool.and_false]
    rw [if_pos hset]
    refine ⟨?_, ?_, ?_⟩
    · simp [hno]
    · simp [hno]
    · simp [hno]
  · have hyes : s.consumers.observes f = true := by
      rw [RxConsumers.observes, hon, Bool.true_and, Bool.or_eq_true]
      by_contra hneither
      rw [not_or, Bool.not_eq_true, Bool.not_eq_true] at hneither
      exact hset hneither
    rw [if_neg hset]
    split_ifs with hroom
    · refine ⟨?_, ?_, ?_⟩
      · simp [hyes]
      · simp [hyes, hroom]
      · simp [hyes, hroom]
    · refine ⟨?_, ?_, ?_⟩
      · simp [hyes]
      · simp [hyes, hroom]
      · simp [hyes, hroom]

theorem offered_runRxTaps (e : RxEvent) (f : CanFrame) (shed : Bool) :
    RxSeen.Offered s.consumers e.observeRoom (some f) s.seen (s.runRxTaps e f shed).seen := by
  unfold runRxTaps
  rw [tapHook_eq, tapStats_eq, tapSnapshot_eq]
  obtain ⟨accepted, dropped, hlog⟩ := tapLog_eq (observeFrame _ e f) e f shed
  rw [hlog]
  obtain ⟨hobservations, hobserved, hoverflow⟩ := offered_observeFrame _ e f
  exact ⟨hobservations, hobserved, hoverflow⟩

theorem offered_receiveIntoStaging (e : RxEvent) (shed : Bool) :
    RxSeen.Offered s.consumers e.observeRoom (e.received.map RxFrame.toCanFrame) s.seen
      (s.receiveIntoStaging e shed).seen := by
  unfold receiveIntoStaging
  cases e.received with
  | none => exact offered_none _ _ _
  | some f => exact s.offered_runRxTaps e f.toCanFrame shed

theorem offered_tapShedFrame (e : RxEvent) :
    RxSeen.Offered s.consumers e.observeRoom (e.received.map RxFrame.toCanFrame) s.seen
      (s.tapShedFrame e).seen := by
  unfold tapShedFrame
  split_ifs with hactive
  · exact s.offered_receiveIntoStaging e true
  · apply offered_of_not_observe
    have hinactive := Bool.eq_false_of_not_eq_true hactive
    unfold RxConsumers.active at hinactive
    simp only [Bool.or_eq_false_iff] at hinactive
    exact hinactive.1.1.2

/-- Whatever becomes of a frame, the observation is offered it once. -/
theorem offered_handleRxIsr (e : RxEvent) :
    RxSeen.Offered s.consumers e.observeRoom (e.received.map RxFrame.toCanFrame) s.seen
      (s.handleRxIsr e).seen := by
  cases hroute : s.route with
  | none =>
    unfold handleRxIsr
    rw [hroute]
    dsimp only
    split_ifs with harmed
    · exact s.offered_receiveIntoStaging e false
    · apply offered_of_not_observe
      have hunarmed := Bool.eq_false_of_not_eq_true harmed
      unfold RxConsumers.armed at hunarmed
      simp only [Bool.or_eq_false_iff] at hunarmed
      exact hunarmed.1.1
  | some p =>
    have hcourse := s.handleRxIsr_course e hroute
    generalize s.handleRxIsr e = s' at hcourse ⊢
    cases hcourse with
    | gated d hgate hd =>
      exact offered_tapShedFrame { s with route := some { p with route := p.route.count d } } e
    | empty p' hgate hnone hp' =>
      rw [hnone]
      exact offered_none _ _ _
    | received f d p' hgate hf hp' hd =>
      rw [hf]
      exact s.offered_runRxTaps e f.toCanFrame false

theorem consumers_runRxTaps (e : RxEvent) (f : CanFrame) (shed : Bool) :
    (s.runRxTaps e f shed).consumers = s.consumers := by
  obtain ⟨seen, heq, -⟩ := s.runRxTaps_eq e f shed
  rw [heq]

theorem consumers_receiveIntoStaging (e : RxEvent) (shed : Bool) :
    (s.receiveIntoStaging e shed).consumers = s.consumers := by
  unfold receiveIntoStaging
  cases e.received with
  | none => rfl
  | some f => exact s.consumers_runRxTaps e f.toCanFrame shed

theorem consumers_tapShedFrame (e : RxEvent) : (s.tapShedFrame e).consumers = s.consumers := by
  unfold tapShedFrame
  split_ifs
  · exact s.consumers_receiveIntoStaging e true
  · rfl

theorem consumers_handleRxIsr (e : RxEvent) : (s.handleRxIsr e).consumers = s.consumers := by
  cases hroute : s.route with
  | none =>
    unfold handleRxIsr
    rw [hroute]
    dsimp only
    split_ifs
    · exact s.consumers_receiveIntoStaging e false
    · rfl
  | some p =>
    have hcourse := s.handleRxIsr_course e hroute
    generalize s.handleRxIsr e = s' at hcourse ⊢
    cases hcourse with
    | gated d hgate hd => exact consumers_tapShedFrame _ e
    | empty p' hgate hnone hp' => rfl
    | received f d p' hgate hf hp' hd => exact s.consumers_runRxTaps e f.toCanFrame false

end RxPort

/-! ## Dispatch -/

/-- The calls for one frame from the subscriber `k` on. -/
def callsFrom (subs : List FrameSubscriber) (view : FrameView) (k : Nat) : List (Nat × FrameView) :=
  ((subs.zipIdx k).filter fun sub => sub.1.wants view).map fun sub => (sub.2, view)

theorem callsFrom_cons (sub : FrameSubscriber) (subs : List FrameSubscriber) (view : FrameView)
    (k : Nat) : callsFrom (sub :: subs) view k =
      (if sub.wants view then [(k, view)] else []) ++ callsFrom subs view (k + 1) := by
  unfold callsFrom
  rw [List.zipIdx_cons, List.filter_cons]
  dsimp only
  split_ifs <;> rfl

theorem mem_callsFrom {subs : List FrameSubscriber} {view : FrameView} {k : Nat}
    {call : Nat × FrameView} (h : call ∈ callsFrom subs view k) :
    k ≤ call.1 ∧ call.1 < k + subs.length := by
  unfold callsFrom at h
  obtain ⟨entry, hentry, rfl⟩ := List.mem_map.mp h
  obtain ⟨hle, hlt, -⟩ := List.mem_zipIdx (List.mem_filter.mp hentry).1
  exact ⟨hle, hlt⟩

theorem filter_callsFrom (subs : List FrameSubscriber) (view : FrameView) (k : Nat) {j : Nat}
    {sub : FrameSubscriber} (hj : subs[j]? = some sub) :
    ((callsFrom subs view k).filter fun call => call.1 = k + j).map (·.2) =
      if sub.wants view then [view] else [] := by
  induction subs generalizing k j with
  | nil => cases hj
  | cons first subs ih =>
    rw [callsFrom_cons, List.filter_append, List.map_append]
    cases j with
    | zero =>
      have hrest : (callsFrom subs view (k + 1)).filter (fun call => call.1 = k + 0) = [] := by
        rw [List.filter_eq_nil_iff]
        intro call hcall
        have hle := (mem_callsFrom hcall).1
        simp only [decide_eq_true_eq]
        omega
      rw [List.getElem?_cons_zero, Option.some.injEq] at hj
      rw [hrest, hj, List.map_nil, List.append_nil]
      split_ifs <;> simp
    | succ j =>
      rw [List.getElem?_cons_succ] at hj
      have hfirst : (if first.wants view then [(k, view)] else []).filter
          (fun call : Nat × FrameView => call.1 = k + (j + 1)) = [] := by
        split_ifs <;> simp
      have hindex : k + (j + 1) = k + 1 + j := by omega
      rw [hfirst, List.map_nil, List.nil_append, hindex]
      exact ih (k + 1) hj

theorem dispatchFrom_eq (record : FrameRecord) (subs : List FrameSubscriber) (k : Nat) :
    dispatchFrom record k subs = callsFrom subs record.view k := by
  induction subs generalizing k with
  | nil => rfl
  | cons sub subs ih =>
    rw [dispatchFrom, ih, callsFrom_cons]
    rfl

/-- Subscribers that sixteen bits can count are all called. -/
theorem dispatchRecord_eq {subs : List FrameSubscriber} (h : subs.length < 2 ^ 16)
    (record : FrameRecord) :
    dispatchRecord subs (UInt16.ofNat subs.length) record = callsFor subs record.view := by
  have hcount : (UInt16.ofNat subs.length).toNat = subs.length := by
    rw [UInt16.toNat_ofNat', Nat.mod_eq_of_lt h]
  rw [dispatchRecord, hcount, List.take_length, dispatchFrom_eq]
  rfl

/-- One subscriber is called once for a frame that it wants. -/
theorem filter_callsFor (subs : List FrameSubscriber) (view : FrameView) {i : Nat}
    {sub : FrameSubscriber} (hi : subs[i]? = some sub) :
    ((callsFor subs view).filter fun call => call.1 = i).map (·.2) =
      if sub.wants view then [view] else [] := by
  have hcalls := filter_callsFrom subs view 0 hi
  rwa [Nat.zero_add] at hcalls

/-! ## One frame -/

namespace ObservingPort

variable {n : Nat} [NeZero n]

/-- The ways a receive interrupt can go. -/
inductive Receipt (s : ObservingPort cfg τ n) (e : RxEvent) : ObservingPort cfg τ n → Prop
  | nothing (hnone : e.received = none)
      (hobserved : (s.interrupted e).seen.observed = s.rx.seen.observed)
      (hoverflow : (s.interrupted e).seen.observeOverflow = s.rx.seen.observeOverflow) :
      Receipt s e { s with rx := s.interrupted e }
  | unwanted (f : RxFrame) (hf : e.received = some f)
      (hno : s.rx.consumers.observes f.toCanFrame = false)
      (hobserved : (s.interrupted e).seen.observed = s.rx.seen.observed)
      (hoverflow : (s.interrupted e).seen.observeOverflow = s.rx.seen.observeOverflow) :
      Receipt s e
        { s with rx := s.interrupted e, arrived := s.arrived ++ [(f.toCanFrame, false)] }
  | refused (f : RxFrame) (hf : e.received = some f)
      (hyes : s.rx.consumers.observes f.toCanFrame = true)
      (hfull : Observe.full n s.ring.ring.tail s.ring.ring.head)
      (hobserved : (s.interrupted e).seen.observed = s.rx.seen.observed)
      (hoverflow : (s.interrupted e).seen.observeOverflow = s.rx.seen.observeOverflow + 1) :
      Receipt s e
        { s with rx := s.interrupted e, arrived := s.arrived ++ [(f.toCanFrame, true)] }
  | taken (f : RxFrame) (hf : e.received = some f)
      (hyes : s.rx.consumers.observes f.toCanFrame = true)
      (hroom : ¬ Observe.full n s.ring.ring.tail s.ring.ring.head)
      (hobserved : (s.interrupted e).seen.observed = s.rx.seen.observed + 1)
      (hoverflow : (s.interrupted e).seen.observeOverflow = s.rx.seen.observeOverflow) :
      Receipt s e
        { s with
          rx := s.interrupted e
          ring := exec Observe.step s.ring
            (Observe.pushCall (RxPort.frameRecord f.toCanFrame))
          arrived := s.arrived ++ [(f.toCanFrame, false)] }

theorem handleRxIsr_receipt {s : ObservingPort cfg τ n} (h : s.ring.producer = .idle)
    (e : RxEvent) : Receipt s e (s.handleRxIsr e) := by
  obtain ⟨hobservations, hobserved, hoverflow⟩ := s.rx.offered_handleRxIsr
    { e with observeRoom := !decide (Observe.full n s.ring.ring.tail s.ring.ring.head) }
  change (s.interrupted e).seen.observations = _ at hobservations
  change (s.interrupted e).seen.observed = _ at hobserved
  change (s.interrupted e).seen.observeOverflow = _ at hoverflow
  unfold handleRxIsr
  dsimp only at hobservations hobserved hoverflow ⊢
  rw [hobservations, List.drop_left]
  cases hf : e.received with
  | none =>
    rw [hf] at hobserved hoverflow
    have hsame : ∀ n : UInt32, n + 0 = n := UInt32.add_zero
    simp only [Option.map_none, Option.toList_none, List.filter_nil, List.map_nil,
      List.flatMap_nil, exec_nil, List.append_nil]
    exact .nothing hf (hobserved.trans (hsame _)) (hoverflow.trans (hsame _))
  | some f =>
    rw [hf, Option.map_some, Option.any_some] at hobserved hoverflow
    simp only [Option.map_some, Option.toList_some, List.map_cons, List.map_nil]
    cases hwant : s.rx.consumers.observes f.toCanFrame with
    | false =>
      simp only [hwant, Bool.false_and, Bool.false_eq_true, if_false, UInt32.add_zero]
        at hobserved hoverflow
      rw [List.filter_cons_of_neg (by rw [hwant]; decide), List.filter_nil, hoverflow]
      simp only [List.map_nil, List.flatMap_nil, exec_nil, ne_eq, not_true, decide_false]
      exact .unwanted f hf hwant hobserved hoverflow
    | true =>
      rw [List.filter_cons_of_pos hwant, List.filter_nil, List.map_singleton,
        List.flatMap_singleton]
      by_cases hfull : Observe.full n s.ring.ring.tail s.ring.ring.head
      · simp only [hwant, hfull, decide_true, Bool.not_true, Bool.and_false, Bool.false_eq_true,
          if_false, Bool.not_false, Bool.and_true, if_true, UInt32.add_zero]
          at hobserved hoverflow
        have hlost : decide ((s.interrupted e).seen.observeOverflow ≠
            s.rx.seen.observeOverflow) = true := by
          rw [hoverflow]
          exact decide_eq_true (RxPort.add_one_ne _)
        rw [Observe.exec_pushCall h, if_pos hfull, hlost]
        exact .refused f hf hwant hfull hobserved hoverflow
      · simp only [hwant, hfull, decide_false, Bool.not_false, Bool.and_true, if_true,
          Bool.not_true, Bool.and_false, Bool.false_eq_true, if_false, UInt32.add_zero]
          at hobserved hoverflow
        rw [hoverflow]
        simp only [ne_eq, not_true, decide_false]
        exact .taken f hf hwant hfull hobserved hoverflow

end ObservingPort

/-! ## What holds between two events -/

namespace ObservingPort

variable {n : Nat} [NeZero n]

/-- Where the drain stands in its pass. -/
def PassAt (s : ObservingPort cfg τ n) : DrainPc → Prop
  | .idle =>
    s.ring.consumer = .idle ∧
      s.dispatched.length ≤ s.passStart + s.maxFramesPerLoop.toNat
  | .popping drained =>
    (s.ring.consumer = .idle ∨ drained < s.maxFramesPerLoop) ∧ drained ≤ s.maxFramesPerLoop ∧
      s.dispatched.length = s.passStart + drained.toNat
  | .dispatching drained _ =>
    s.ring.consumer = .idle ∧ drained < s.maxFramesPerLoop ∧
      s.dispatched.length = s.passStart + drained.toNat

/-- What holds of a port and its observe ring between two events. -/
structure Inv (s : ObservingPort cfg τ n) : Prop where
  counts : Observe.Counts s.ring
  producer : s.ring.producer = .idle
  accepted : s.ring.accepted =
    (s.kept.filter s.rx.consumers.observes).map RxPort.frameRecord
  popped : s.ring.popped = s.dispatched ++ s.inHand
  calls : s.calls = s.dispatched.flatMap
    (dispatchRecord s.subscribers (UInt16.ofNat s.subscribers.length))
  observed : s.rx.seen.observed = UInt32.ofNat s.ring.accepted.length
  overflow : s.rx.seen.observeOverflow = UInt32.ofNat (s.arrived.filter (·.2)).length
  pass : s.PassAt s.drain
  open' : s.filter ≠ none → s.rx.consumers.observe = false

variable {s : ObservingPort cfg τ n}

omit [NeZero n] in
theorem kept_append (s : ObservingPort cfg τ n) (f : CanFrame) (lost : Bool) :
    ((s.arrived ++ [(f, lost)]).filter fun a => !a.2).map (·.1) =
      s.kept ++ if lost then [] else [f] := by
  unfold kept
  rw [List.filter_append, List.map_append]
  cases lost <;> rfl

theorem lost_append (arrived : List (CanFrame × Bool)) (f : CanFrame) (lost : Bool) :
    UInt32.ofNat ((arrived ++ [(f, lost)]).filter (·.2)).length =
      UInt32.ofNat (arrived.filter (·.2)).length + if lost then 1 else 0 := by
  rw [List.filter_append, List.length_append, UInt32.ofNat_add]
  cases lost <;> rfl

/-- The ring accepts what it is offered, or `observe_overflow` counts it. -/
theorem Inv.handleRxIsr (h : Inv s) (hn : n < 2 ^ 32) (e : RxEvent) : Inv (s.handleRxIsr e) := by
  have hreceipt := handleRxIsr_receipt h.producer e
  have hconsumers : (s.interrupted e).consumers = s.rx.consumers := s.rx.consumers_handleRxIsr _
  generalize s.handleRxIsr e = s' at hreceipt ⊢
  cases hreceipt with
  | nothing hnone hobserved hoverflow =>
    exact
      { counts := h.counts
        producer := h.producer
        accepted := by rw [hconsumers]; exact h.accepted
        popped := h.popped
        calls := h.calls
        observed := hobserved.trans h.observed
        overflow := hoverflow.trans h.overflow
        pass := h.pass
        open' := by rw [hconsumers]; exact h.open' }
  | unwanted f hf hno hobserved hoverflow =>
    exact
      { counts := h.counts
        producer := h.producer
        accepted := by
          change s.ring.accepted = _
          unfold kept
          rw [hconsumers, kept_append, if_neg (by decide), List.filter_append,
            List.filter_cons_of_neg (by rw [hno]; decide), List.filter_nil, List.append_nil]
          exact h.accepted
        popped := h.popped
        calls := h.calls
        observed := hobserved.trans h.observed
        overflow := by
          rw [lost_append, if_neg (by decide), UInt32.add_zero]
          exact hoverflow.trans h.overflow
        pass := h.pass
        open' := by rw [hconsumers]; exact h.open' }
  | refused f hf hyes hfull hobserved hoverflow =>
    exact
      { counts := h.counts
        producer := h.producer
        accepted := by
          change s.ring.accepted = _
          unfold kept
          rw [hconsumers, kept_append, if_pos rfl, List.append_nil]
          exact h.accepted
        popped := h.popped
        calls := h.calls
        observed := hobserved.trans h.observed
        overflow := by
          rw [lost_append, if_pos rfl]
          exact hoverflow.trans (congrArg (· + 1) h.overflow)
        pass := h.pass
        open' := by rw [hconsumers]; exact h.open' }
  | taken f hf hyes hroom hobserved hoverflow =>
    have hring := Observe.exec_pushCall h.producer (RxPort.frameRecord f.toCanFrame)
    rw [if_neg hroom] at hring
    have hcounts := h.counts.exec hn (Observe.pushCall (RxPort.frameRecord f.toCanFrame))
    rw [hring] at hcounts ⊢
    exact
      { counts := hcounts
        producer := h.producer
        accepted := by
          change s.ring.accepted ++ _ = _
          unfold kept
          rw [hconsumers, kept_append, if_neg (by decide), List.filter_append,
            List.filter_cons_of_pos hyes, List.filter_nil, List.map_append, ← h.accepted]
          rfl
        popped := h.popped
        calls := h.calls
        observed := by
          rw [List.length_append, UInt32.ofNat_add]
          exact hobserved.trans (congrArg (· + 1) h.observed)
        overflow := by
          rw [lost_append, if_neg (by decide), UInt32.add_zero]
          exact hoverflow.trans h.overflow
        pass := h.pass
        open' := by rw [hconsumers]; exact h.open' }

theorem Inv.receive (h : Inv s) (hn : n < 2 ^ 32) (passes : MaskFilter → RxFrame → Bool)
    (e : RxEvent) : Inv (s.receive passes e) := by
  unfold ObservingPort.receive
  split_ifs with hrejected
  · have hengaged : s.filter ≠ none := by
      intro hnone
      unfold rejected at hrejected
      rw [hnone] at hrejected
      cases hrejected
    have hoff : s.rx.consumers.observes = fun _ => false := by
      funext f
      rw [RxConsumers.observes, h.open' hengaged, Bool.false_and]
    cases e.received with
    | none =>
      rw [Option.toList_none, List.map_nil, List.append_nil]
      exact h
    | some f =>
      exact
        { h with
          accepted := by
            have haccepted := h.accepted
            rw [hoff] at haccepted ⊢
            simpa using haccepted
          overflow := by
            rw [Option.toList_some, List.map_singleton, lost_append, if_neg (by decide),
              UInt32.add_zero]
            exact h.overflow }
  · exact h.handleRxIsr hn e

theorem add_one_toNat {drained limit : UInt8} (h : drained < limit) :
    (drained + 1).toNat = drained.toNat + 1 := by
  have hlt := UInt8.lt_iff_toNat_lt.mp h
  have hlimit := limit.toNat_lt
  rw [UInt8.toNat_add, UInt8.toNat_one]
  omega

theorem Inv.popStep (h : Inv s) (hn : n < 2 ^ 32) {drained : UInt8}
    (hdrain : s.drain = .popping drained) : Inv (s.popStep drained) := by
  have hpass := h.pass
  rw [hdrain] at hpass
  obtain ⟨hidle, hle, hlength⟩ := hpass
  have hpopped := h.popped
  unfold inHand at hpopped
  rw [hdrain, List.append_nil] at hpopped
  -- a pop under way was begun with room left in the pass
  have hroom : s.ring.consumer ≠ .idle → drained < s.maxFramesPerLoop := hidle.resolve_left
  unfold ObservingPort.popStep
  cases hconsumer : s.ring.consumer with
  | idle =>
    dsimp only
    split_ifs with hlt
    · have hring : Observe.step s.ring .pop =
          { s.ring with consumer := .loadedHead s.ring.ring.head } := by
        simp only [Observe.step, Observe.startPop, hconsumer]
      have hcounts := h.counts.step hn .pop
      rw [hring] at hcounts ⊢
      exact
        { h with
          counts := hcounts
          pass := by
            change PassAt _ s.drain
            rw [hdrain]
            exact ⟨Or.inr hlt, hle, hlength⟩ }
    · exact
        { h with
          popped := by
            change s.ring.popped = s.dispatched ++ []
            rw [List.append_nil, hpopped]
          pass := by
            refine ⟨hconsumer, ?_⟩
            change s.dispatched.length ≤ s.passStart + s.maxFramesPerLoop.toNat
            have hle' := UInt8.le_iff_toNat_le.mp hle
            omega }
  | loadedHead head =>
    have hlt := hroom (by simp [hconsumer])
    have hcounts := h.counts.step hn .consumer
    dsimp only
    by_cases hempty : head = s.ring.ring.tail
    · have hring : Observe.step s.ring .consumer = { s.ring with consumer := .idle } := by
        simp only [Observe.step, Observe.stepConsumer, hconsumer, if_pos hempty]
      rw [hring] at hcounts ⊢
      dsimp only
      rw [if_pos hempty]
      exact
        { h with
          counts := hcounts
          popped := by
            change s.ring.popped = s.dispatched ++ []
            rw [List.append_nil, hpopped]
          pass := by
            refine ⟨rfl, ?_⟩
            change s.dispatched.length ≤ s.passStart + s.maxFramesPerLoop.toNat
            have hle' := UInt8.le_iff_toNat_le.mp hle
            omega }
    · have hring : Observe.step s.ring .consumer = { s.ring with consumer := .notEmpty head } := by
        simp only [Observe.step, Observe.stepConsumer, hconsumer, if_neg hempty]
      rw [hring] at hcounts ⊢
      dsimp only
      rw [if_neg hempty]
      exact
        { h with
          counts := hcounts
          pass := by
            change PassAt _ s.drain
            rw [hdrain]
            exact ⟨Or.inr hlt, hle, hlength⟩ }
  | notEmpty head =>
    have hlt := hroom (by simp [hconsumer])
    have hring : Observe.step s.ring .consumer =
        { s.ring with consumer := .copied (s.ring.ring.cell head) head } := by
      simp only [Observe.step, Observe.stepConsumer, hconsumer]
    have hcounts := h.counts.step hn .consumer
    dsimp only
    rw [hring] at hcounts ⊢
    exact
      { h with
        counts := hcounts
        pass := by
          change PassAt _ s.drain
          rw [hdrain]
          exact ⟨Or.inr hlt, hle, hlength⟩ }
  | copied out head =>
    have hlt := hroom (by simp [hconsumer])
    have hring : Observe.step s.ring .consumer =
        { s.ring with
          ring := { s.ring.ring with head := head + 1 }
          consumer := .idle
          popped := s.ring.popped ++ [out] } := by
      simp only [Observe.step, Observe.stepConsumer, hconsumer]
    have hcounts := h.counts.step hn .consumer
    dsimp only
    rw [hring] at hcounts ⊢
    exact
      { h with
        counts := hcounts
        popped := by
          change s.ring.popped ++ [out] = s.dispatched ++ [out]
          rw [hpopped]
        pass := ⟨rfl, hlt, hlength⟩ }

theorem Inv.drainStep (h : Inv s) (hn : n < 2 ^ 32) : Inv s.drainStep := by
  have hpass := h.pass
  have hpopped := h.popped
  unfold inHand at hpopped
  unfold ObservingPort.drainStep
  cases hdrain : s.drain with
  | idle =>
    rw [hdrain] at hpass hpopped
    dsimp only
    split_ifs
    · exact
        { h with
          popped := hpopped
          pass := ⟨Or.inl hpass.1, UInt8.zero_le, rfl⟩ }
    · exact h
  | popping drained => exact h.popStep hn hdrain
  | dispatching drained record =>
    rw [hdrain] at hpass hpopped
    obtain ⟨hidle, hlt, hlength⟩ := hpass
    have hnext := add_one_toNat hlt
    exact
      { h with
        popped := by
          change s.ring.popped = (s.dispatched ++ [record]) ++ []
          rw [List.append_nil, hpopped]
        calls := by
          rw [List.flatMap_append, List.flatMap_singleton, ← h.calls]
        pass := by
          refine ⟨Or.inl hidle, ?_, ?_⟩
          · rw [UInt8.le_iff_toNat_le, hnext]
            exact UInt8.lt_iff_toNat_lt.mp hlt
          · change (s.dispatched ++ [record]).length = s.passStart + (drained + 1).toNat
            rw [List.length_append, hnext, hlength, List.length_singleton]
            omega }

theorem Inv.step (h : Inv s) (hn : n < 2 ^ 32) (passes : MaskFilter → RxFrame → Bool)
    (a : PortHappening cfg τ) : Inv (s.step passes a) := by
  cases a with
  | rx e => exact h.receive hn passes e
  | destination p => exact { h with }
  | drain => exact h.drainStep hn

theorem Inv.exec (h : Inv s) (hn : n < 2 ^ 32) (passes : MaskFilter → RxFrame → Bool)
    (as : List (PortHappening cfg τ)) : Inv (exec (ObservingPort.step passes) s as) := by
  induction as generalizing s with
  | nil => exact h
  | cons a as ih => exact ih (h.step hn passes a)

end ObservingPort

end EspCars.CanGateway
