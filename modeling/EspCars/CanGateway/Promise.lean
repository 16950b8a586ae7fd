import EspCars.CanGateway.EndToEnd

/-!
# What the subscribers are promised

A run of a port from `start_` on. Its ring runs as an `ObserveRing` does, so that its contents are
right as long as the counters do not wrap in the middle of the array; the set finds every ID that a
subscriber has named. `endToEnd_iff` says which depths and numbers of subscribers keep the promise
in every run.
-/

namespace EspCars.CanGateway

open EspCars.Lib

variable {cfg : PortConfig} {τ : Type}

/-! ## Registration -/

theorem registry_concat (calls : List Registration) (c : Registration) :
    registry (calls ++ [c]) = (registry calls).register c := List.foldl_concat ..

theorem length_registry (calls : List Registration) :
    (registry calls).subscribers.length = calls.length := by
  induction calls using List.reverseRecOn with
  | nil => rfl
  | append_singleton calls c ih =>
    rw [registry_concat]
    cases c with
    | subscribe canId extended =>
      change ((registry calls).subscribers ++ [_]).length = _
      simp [ih]
    | subscribeAll =>
      change ((registry calls).subscribers ++ [_]).length = _
      simp [ih]

/-- A port with a subscriber observes, and one with a `subscribe_all` observes everything. -/
theorem registry_flags (calls : List Registration) :
    ∀ sub ∈ (registry calls).subscribers, (registry calls).observed = true ∧
      (sub.all = true → (registry calls).observeAll = true) := by
  induction calls using List.reverseRecOn with
  | nil =>
    intro sub hsub
    cases hsub
  | append_singleton calls c ih =>
    intro sub hsub
    rw [registry_concat] at hsub ⊢
    cases c with
    | subscribe canId extended =>
      refine ⟨rfl, fun hall => ?_⟩
      rcases List.mem_append.mp hsub with hsub | hsub
      · exact (ih sub hsub).2 hall
      · rw [List.mem_singleton.mp hsub] at hall
        cases hall
    | subscribeAll => exact ⟨rfl, fun _ => rfl⟩

/-- The controller filters nothing on a port that is looked at. -/
theorem tryHwFilterOffload_observed (c : RxConsumers) (route : Option RouteTable)
    (accepted : Bool) : tryHwFilterOffload c route true accepted = none := by
  unfold tryHwFilterOffload
  split
  · rfl
  · cases route with
    | none => rfl
    | some table =>
      dsimp only
      split
      · rw [Bool.or_true, if_pos rfl]
      · rfl

namespace ObservingPort

variable {n : Nat} [NeZero n] {s : ObservingPort cfg τ n}

/-! ## Runs -/

omit [NeZero n] in
theorem inv_start (setup : PortSetup cfg τ) (maxIds : Nat) (calls : List Registration) :
    Inv (start setup maxIds (registry calls) : ObservingPort cfg τ n) where
  counts := .init
  producer := rfl
  accepted := rfl
  popped := rfl
  calls := rfl
  observed := rfl
  overflow := rfl
  pass := ⟨rfl, Nat.zero_le _⟩
  open' := by
    intro hfilter
    change (registry calls).observed = false
    by_contra hobserved
    rw [Bool.not_eq_false] at hobserved
    apply hfilter
    change tryHwFilterOffload _ _ ((registry calls).observed || _ || _) _ = none
    rw [hobserved, Bool.true_or, Bool.true_or]
    exact tryHwFilterOffload_observed _ _ _

/-- What setup has fixed stays. -/
structure Fixed (s s' : ObservingPort cfg τ n) : Prop where
  subscribers : s'.subscribers = s.subscribers
  maxFramesPerLoop : s'.maxFramesPerLoop = s.maxFramesPerLoop
  filter : s'.filter = s.filter
  consumers : s'.rx.consumers = s.rx.consumers

theorem fixed_popStep (s : ObservingPort cfg τ n) (drained : UInt8) :
    Fixed s (s.popStep drained) := by
  unfold popStep
  split
  · split_ifs <;> exact ⟨rfl, rfl, rfl, rfl⟩
  · dsimp only
    split_ifs <;> exact ⟨rfl, rfl, rfl, rfl⟩
  · exact ⟨rfl, rfl, rfl, rfl⟩
  · exact ⟨rfl, rfl, rfl, rfl⟩

variable (passes : MaskFilter → RxFrame → Bool)

theorem fixed_step (s : ObservingPort cfg τ n)
    (a : PortHappening cfg τ) : Fixed s (s.step passes a) := by
  cases a with
  | rx e =>
    change Fixed s (s.receive passes e)
    unfold receive
    split_ifs
    · exact ⟨rfl, rfl, rfl, rfl⟩
    · exact ⟨rfl, rfl, rfl, s.rx.consumers_handleRxIsr _⟩
  | destination p => exact ⟨rfl, rfl, rfl, rfl⟩
  | drain =>
    change Fixed s s.drainStep
    unfold drainStep
    split
    · split_ifs <;> exact ⟨rfl, rfl, rfl, rfl⟩
    · exact s.fixed_popStep _
    · exact ⟨rfl, rfl, rfl, rfl⟩

theorem fixed_exec (s : ObservingPort cfg τ n)
    (as : List (PortHappening cfg τ)) : Fixed s (exec (step passes) s as) := by
  induction as generalizing s with
  | nil => exact ⟨rfl, rfl, rfl, rfl⟩
  | cons a as ih =>
    obtain ⟨hsubscribers, hmax, hfilter, hconsumers⟩ := fixed_step passes s a
    obtain ⟨hsubscribers', hmax', hfilter', hconsumers'⟩ := ih (s.step passes a)
    exact ⟨hsubscribers'.trans hsubscribers, hmax'.trans hmax, hfilter'.trans hfilter,
      hconsumers'.trans hconsumers⟩

/-- On its ring a run of the port is a run of the ring. -/
theorem ring_step (s : ObservingPort cfg τ n) (a : PortHappening cfg τ) :
    ∃ es, (s.step passes a).ring = exec Observe.step s.ring es := by
  cases a with
  | rx e =>
    change ∃ es, (s.receive passes e).ring = exec Observe.step s.ring es
    unfold receive
    split_ifs
    · exact ⟨[], rfl⟩
    · exact ⟨_, rfl⟩
  | destination p => exact ⟨[], rfl⟩
  | drain =>
    change ∃ es, s.drainStep.ring = exec Observe.step s.ring es
    unfold drainStep
    split
    · split_ifs <;> exact ⟨[], rfl⟩
    · unfold popStep
      split
      · split_ifs
        · exact ⟨[.pop], rfl⟩
        · exact ⟨[], rfl⟩
      · dsimp only
        split_ifs <;> exact ⟨[.consumer], rfl⟩
      · exact ⟨[.consumer], rfl⟩
      · exact ⟨[.consumer], rfl⟩
    · exact ⟨[], rfl⟩

theorem ring_exec (s : ObservingPort cfg τ n) (as : List (PortHappening cfg τ)) :
    ∃ es, (exec (step passes) s as).ring = exec Observe.step s.ring es := by
  induction as generalizing s with
  | nil => exact ⟨[], rfl⟩
  | cons a as ih =>
    obtain ⟨es, hes⟩ := ring_step passes s a
    obtain ⟨rest, hrest⟩ := ih (s.step passes a)
    refine ⟨es ++ rest, ?_⟩
    rw [exec_cons, hrest, hes, exec_append]

/-! ## Sufficient -/

omit [NeZero n] in
/-- The set and `observe_all` let every frame through that a subscriber wants. -/
theorem observes_start (setup : PortSetup cfg τ) {maxIds : Nat} {calls : List Registration}
    (hids : (registry calls).ids.dedup.length ≤ maxIds) {sub : FrameSubscriber}
    (hsub : sub ∈ (registry calls).subscribers) {f : CanFrame} (hwants : sub.wants f.view = true) :
    (start setup maxIds (registry calls) : ObservingPort cfg τ n).rx.consumers.observes f =
      true := by
  obtain ⟨hobserved, hall⟩ := registry_flags calls sub hsub
  change ((registry calls).observed && ((registry calls).observeAll ||
    (SubscribedSet.insertAll (registry calls).ids : SubscribedSet maxIds).contains f.canId
      f.extended)) = true
  rw [hobserved, Bool.true_and]
  change (sub.all || (decide (sub.canId = f.canId) && decide (sub.extended = f.extended))) = true
    at hwants
  cases hevery : sub.all with
  | true => rw [hall hevery, Bool.true_or]
  | false =>
    rw [hevery, Bool.false_or, Bool.and_eq_true, decide_eq_true_iff, decide_eq_true_iff] at hwants
    rw [(SubscribedSet.contains_insertAll_iff hids f.canId f.extended).mpr, Bool.or_true]
    refine ⟨(sub.canId, sub.extended), ?_, by rw [hwants.1, hwants.2]⟩
    refine List.mem_map.mpr ⟨sub, List.mem_filter.mpr ⟨hsub, ?_⟩, rfl⟩
    rw [hevery]
    rfl

theorem filter_map_of_imp {kept : List CanFrame} {p : CanFrame → Bool} {q : FrameView → Bool}
    (h : ∀ f, q f.view = true → p f = true) :
    (((kept.filter p).map RxPort.frameRecord).map FrameRecord.view).filter q =
      (kept.map CanFrame.view).filter q := by
  have hview : FrameRecord.view ∘ RxPort.frameRecord = CanFrame.view := rfl
  rw [List.map_map, hview, List.filter_map, List.filter_map, List.filter_filter]
  congr 1
  apply List.filter_congr
  intro f _
  cases hq : q f.view with
  | false => simp [hq]
  | true => simp [hq, h f hq]

theorem toldTo_dispatched (subs : List FrameSubscriber) (records : List FrameRecord) {i : Nat}
    {sub : FrameSubscriber} (hi : subs[i]? = some sub) :
    (((records.flatMap fun record => callsFor subs record.view).filter
      fun call => call.1 = i).map (·.2)) = (records.map FrameRecord.view).filter sub.wants := by
  induction records with
  | nil => rfl
  | cons record records ih =>
    rw [List.flatMap_cons, List.filter_append, List.map_append, filter_callsFor subs _ hi, ih,
      List.map_cons, List.filter_cons]
    split_ifs <;> rfl

/-- A port whose ring holds what it was given keeps the promise. -/
theorem Inv.endToEnd (h : Inv s) (hk : Observe.Contents s.ring) (hn : n < 2 ^ 32)
    (hcount : s.subscribers.length < 2 ^ 16)
    (hobserves : ∀ sub ∈ s.subscribers, ∀ f : CanFrame, sub.wants f.view = true →
      s.rx.consumers.observes f = true) : EndToEnd s := by
  have haccepted : s.ring.accepted = s.dispatched ++ s.waiting := by
    rw [hk.unread h.counts hn, h.popped, waiting, List.append_assoc]
  have hcalls : s.calls = s.dispatched.flatMap fun record => callsFor s.subscribers record.view := by
    rw [h.calls]
    congr 1
    funext record
    exact dispatchRecord_eq hcount record
  have hwire := h.accepted
  rw [haccepted] at hwire
  refine ⟨fun i sub hi => ?_, hcalls, ?_, ?_, ?_, h.overflow, fun passes e => ?_⟩
  · rw [toldTo, hcalls, toldTo_dispatched _ _ hi, ← List.filter_append, ← List.map_append, hwire]
    exact filter_map_of_imp (hobserves sub (List.mem_of_getElem? hi))
  · rw [hwire]
    exact List.Sublist.map _ List.filter_sublist
  · have hpass := h.pass
    cases hdrain : s.drain with
    | idle =>
      rw [hdrain] at hpass
      exact hpass.2
    | popping drained =>
      rw [hdrain] at hpass
      have hle := UInt8.le_iff_toNat_le.mp hpass.2.1
      rw [hpass.2.2]
      omega
    | dispatching drained record =>
      rw [hdrain] at hpass
      have hlt := UInt8.lt_iff_toNat_lt.mp hpass.2.1
      rw [hpass.2.2]
      omega
  · rw [h.observed, haccepted, List.length_append]
  · unfold ObservingPort.receive
    split_ifs <;> rfl

/-- Every run of a port keeps it if no slot of an unread record is written. -/
theorem endToEnd_exec (setup : PortSetup cfg τ) {maxIds : Nat} {calls : List Registration}
    (hids : (registry calls).ids.dedup.length ≤ maxIds) (hn : n < 2 ^ 32)
    (hcount : calls.length < 2 ^ 16) (passes : MaskFilter → RxFrame → Bool)
    {as : List (PortHappening cfg τ)}
    (hclash : Observe.NoClash n
      (exec (step passes) (start setup maxIds (registry calls) : ObservingPort cfg τ n) as).ring) :
    EndToEnd (exec (step passes)
      (start setup maxIds (registry calls) : ObservingPort cfg τ n) as) := by
  have hinv := (inv_start (n := n) setup maxIds calls).exec hn passes as
  have hfixed := fixed_exec passes (start setup maxIds (registry calls) : ObservingPort cfg τ n) as
  obtain ⟨es, hring⟩ := ring_exec passes
    (start setup maxIds (registry calls) : ObservingPort cfg τ n) as
  generalize exec (step passes)
    (start setup maxIds (registry calls) : ObservingPort cfg τ n) as = s at *
  have hcontents : Observe.Contents s.ring := by
    rw [hring] at hclash ⊢
    exact Observe.Contents.init.exec Observe.Counts.init hn hclash
  apply hinv.endToEnd hcontents hn
  · rw [hfixed.subscribers]
    change (registry calls).subscribers.length < 2 ^ 16
    rwa [length_registry]
  · intro sub hsub f hwants
    rw [hfixed.subscribers] at hsub
    rw [hfixed.consumers]
    exact observes_start (n := n) setup hids hsub hwants

/-! ## Necessary -/

/-- Between two passes, with as many records dispatched as popped. -/
structure Quiet (s : ObservingPort cfg τ n) (frames : List CanFrame) (done : List FrameRecord) :
    Prop where
  ring : Observe.Settled s.ring (frames.map RxPort.frameRecord) done.length
  drain : s.drain = .idle
  kept : s.kept = frames
  dispatched : s.dispatched = done
  filter : s.filter = none

variable {frames : List CanFrame} {done : List FrameRecord}

theorem Quiet.feed (h : Quiet s frames done) (hn : n < 2 ^ 32)
    (hroom : frames.length < done.length + n) (passes : MaskFilter → RxFrame → Bool) {f : RxFrame}
    (hobserves : s.rx.consumers.observes f.toCanFrame = true) :
    Quiet (s.step passes (.rx { received := some f })) (frames ++ [f.toCanFrame]) done ∧
      (s.step passes (.rx { received := some f })).ring.ring.cell (UInt32.ofNat frames.length) =
        RxPort.frameRecord f.toCanFrame := by
  have hstep : s.step passes (.rx { received := some f }) =
      s.handleRxIsr { received := some f } := by
    change s.receive passes { received := some f } = _
    unfold receive rejected
    rw [h.filter]
    rfl
  have hreceipt := handleRxIsr_receipt h.ring.producer { received := some f }
  rw [hstep]
  generalize s.handleRxIsr { received := some f } = s' at hreceipt ⊢
  cases hreceipt with
  | nothing hnone => cases hnone
  | unwanted f' hf hno =>
    cases hf
    rw [hobserves] at hno
    cases hno
  | refused f' hf hyes hfull =>
    rw [h.ring.counts.full_iff hn, h.ring.accepted_eq, h.ring.popped_length, List.length_map]
      at hfull
    omega
  | taken f' hf hyes hfree =>
    cases hf
    obtain ⟨hpush, hcell⟩ := h.ring.pushCall hn (by rw [List.length_map]; exact hroom)
      (RxPort.frameRecord f.toCanFrame)
    rw [List.length_map] at hcell
    refine ⟨⟨?_, h.drain, ?_, h.dispatched, h.filter⟩, hcell⟩
    · rw [List.map_append]
      exact hpush
    · unfold ObservingPort.kept
      rw [kept_append, if_neg (by decide), h.kept]

/-- A pass that finds a record takes it out and dispatches it. -/
theorem exec_drain (hdrain : s.drain = .idle)
    (hobserve : s.rx.consumers.observe = true) (hmax : 0 < s.maxFramesPerLoop)
    (hconsumer : s.ring.consumer = .idle) (hne : s.ring.ring.head ≠ s.ring.ring.tail) :
    exec (step passes) s (List.replicate 6 .drain) =
      { s with
        ring := exec Observe.step s.ring Observe.popCall
        drain := .popping 1
        calls := s.calls ++ dispatchRecord s.subscribers (UInt16.ofNat s.subscribers.length)
          (s.ring.ring.cell s.ring.ring.head)
        dispatched := s.dispatched ++ [s.ring.ring.cell s.ring.ring.head]
        passStart := s.dispatched.length } := by
  simp only [List.replicate, exec_cons, exec_nil, step, drainStep, popStep, hdrain, hobserve,
    if_true, hmax, hconsumer, hne, if_false, Observe.step, Observe.startPop, Observe.stepConsumer,
    Observe.popCall]
  rfl

/-- A pass that finds one record ends with an empty ring. -/
theorem Quiet.drainAll (h : Quiet s frames done) (hn : n < 2 ^ 32)
    (hone : done.length + 1 = frames.length) (passes : MaskFilter → RxFrame → Bool)
    (hobserve : s.rx.consumers.observe = true) (hmax : 0 < s.maxFramesPerLoop) :
    ∃ as, Quiet (exec (step passes) s as) frames
      (done ++ [s.ring.ring.cell (UInt32.ofNat done.length)]) := by
  have hhead : s.ring.ring.head = UInt32.ofNat done.length := by
    rw [h.ring.counts.head, h.ring.popped_length]
  have hne : s.ring.ring.head ≠ s.ring.ring.tail := by
    rw [Ne, h.ring.counts.head_eq_tail_iff hn, h.ring.accepted_eq, h.ring.popped_length,
      List.length_map]
    omega
  have hsix := exec_drain passes h.drain hobserve hmax h.ring.consumer hne
  rw [hhead] at hsix
  obtain ⟨hpop, -⟩ := h.ring.popCall hn (by rw [List.length_map]; omega)
  have hempty : (exec Observe.step s.ring Observe.popCall).ring.head =
      (exec Observe.step s.ring Observe.popCall).ring.tail := by
    rw [hpop.counts.head_eq_tail_iff hn, hpop.accepted_eq, hpop.popped_length, List.length_map]
    exact hone
  generalize exec Observe.step s.ring Observe.popCall = ring at hsix hpop hempty
  have hlength : (done ++ [s.ring.ring.cell (UInt32.ofNat done.length)]).length =
      done.length + 1 := by
    rw [List.length_append, List.length_singleton]
  -- the limit ends the pass, or the next `pop` finds nothing
  by_cases hlimit : (1 : UInt8) < s.maxFramesPerLoop
  · refine ⟨List.replicate 6 .drain ++ [.drain, .drain], ?_⟩
    rw [exec_append, hsix]
    obtain ⟨cells, producer, consumer, accepted, popped⟩ := ring
    cases hpop.consumer
    dsimp only at hempty
    simp only [exec_cons, exec_nil, step, drainStep, popStep, hlimit, if_true, Observe.step,
      Observe.startPop, Observe.stepConsumer, hempty]
    refine ⟨?_, rfl, h.kept, ?_, h.filter⟩
    · rw [hlength]
      exact hpop
    · rw [h.dispatched]
  · refine ⟨List.replicate 6 .drain ++ [.drain], ?_⟩
    rw [exec_append, hsix]
    simp only [exec_cons, exec_nil, step, drainStep, popStep, hpop.consumer, hlimit, if_false]
    refine ⟨?_, rfl, h.kept, ?_, h.filter⟩
    · rw [hlength]
      exact hpop
    · rw [h.dispatched]

section Overrun

variable {f g : RxFrame}

theorem Quiet.passing (h : Quiet s [] []) (hn : n < 2 ^ 32)
    (passes : MaskFilter → RxFrame → Bool) (hobserve : s.rx.consumers.observe = true)
    (hmax : 0 < s.maxFramesPerLoop) (hf : s.rx.consumers.observes f.toCanFrame = true) (k : Nat) :
    ∃ as, Quiet (exec (step passes) s as) (.replicate k f.toCanFrame)
      (.replicate k (RxPort.frameRecord f.toCanFrame)) := by
  induction k with
  | zero => exact ⟨[], h⟩
  | succ k ih =>
    obtain ⟨as, hk⟩ := ih
    have hpos : 0 < n := Nat.pos_of_neZero n
    have hfixed := fixed_exec passes s as
    rw [← hfixed.consumers] at hobserve hf
    rw [← hfixed.maxFramesPerLoop] at hmax
    obtain ⟨hfeed, hcell⟩ := hk.feed hn (by simp only [List.length_replicate]; omega) passes hf
    have hfixed' := fixed_step passes (exec (step passes) s as) (.rx { received := some f })
    rw [← hfixed'.consumers] at hobserve
    rw [← hfixed'.maxFramesPerLoop] at hmax
    obtain ⟨bs, hdrain⟩ := hfeed.drainAll hn (by simp) passes hobserve hmax
    refine ⟨as ++ .rx { received := some f } :: bs, ?_⟩
    rw [List.length_replicate] at hcell hdrain
    rw [hcell] at hdrain
    rw [exec_append, exec_cons, List.replicate_succ', List.replicate_succ']
    exact hdrain

theorem Quiet.filling {k : Nat}
    (h : Quiet s (.replicate k f.toCanFrame) (.replicate k (RxPort.frameRecord f.toCanFrame)))
    (hn : n < 2 ^ 32) (passes : MaskFilter → RxFrame → Bool)
    (hf : s.rx.consumers.observes f.toCanFrame = true) {j : Nat} (hj : j ≤ n) :
    ∃ as, Quiet (exec (step passes) s as) (.replicate (k + j) f.toCanFrame)
      (.replicate k (RxPort.frameRecord f.toCanFrame)) := by
  induction j with
  | zero => exact ⟨[], h⟩
  | succ j ih =>
    obtain ⟨as, hk⟩ := ih (by omega)
    rw [← (fixed_exec passes s as).consumers] at hf
    obtain ⟨hfeed, -⟩ := hk.feed hn (by simp only [List.length_replicate]; omega) passes hf
    refine ⟨as ++ [.rx { received := some f }], ?_⟩
    rw [exec_append, ← Nat.add_assoc, List.replicate_succ']
    exact hfeed

/-- A ring whose depth does not divide the word hands a subscriber a frame out of its turn. -/
theorem Quiet.exists_overrun (h : Quiet s [] []) (hn : n < 2 ^ 32) (hd : ¬ n ∣ 2 ^ 32)
    (passes : MaskFilter → RxFrame → Bool) (hobserve : s.rx.consumers.observe = true)
    (hmax : 0 < s.maxFramesPerLoop) (hf : s.rx.consumers.observes f.toCanFrame = true)
    (hg : s.rx.consumers.observes g.toCanFrame = true)
    (hne : RxPort.frameRecord f.toCanFrame ≠ RxPort.frameRecord g.toCanFrame) :
    ∃ as, ¬ EndToEnd (exec (step passes) s as) := by
  have hmod : 2 ^ 32 % n ≠ 0 := fun h => hd (Nat.dvd_of_mod_eq_zero h)
  have hlt : 2 ^ 32 % n < n := Nat.mod_lt _ (Nat.pos_of_neZero n)
  have hsum : 2 ^ 32 - 2 ^ 32 % n + 2 ^ 32 % n = 2 ^ 32 := Nat.sub_add_cancel (Nat.mod_le _ _)
  -- the record of `g` will lie in the slot of the first unread one
  have hslot : slot n (UInt32.ofNat (2 ^ 32 - 2 ^ 32 % n)) =
      slot n (UInt32.ofNat (2 ^ 32 - 2 ^ 32 % n + 2 ^ 32 % n)) := by
    rw [hsum]
    exact slot_wrap
  clear hsum
  generalize 2 ^ 32 % n = j at hmod hlt hslot
  generalize 2 ^ 32 - j = k at hslot
  obtain ⟨as, hpassed⟩ := h.passing hn passes hobserve hmax hf k
  have hfixed := fixed_exec passes s as
  rw [← hfixed.consumers] at hobserve hf hg
  rw [← hfixed.maxFramesPerLoop] at hmax
  obtain ⟨bs, hfilled⟩ := hpassed.filling hn passes hf (Nat.le_of_lt hlt)
  have hfixed' := fixed_exec passes (exec (step passes) s as) bs
  rw [← hfixed'.consumers] at hobserve hg
  rw [← hfixed'.maxFramesPerLoop] at hmax
  obtain ⟨hfeed, hcell⟩ := hfilled.feed hn (by simp only [List.length_replicate]; omega) passes hg
  refine ⟨as ++ (bs ++ .rx { received := some g } :: List.replicate 6 .drain), ?_⟩
  rw [exec_append, exec_append, exec_cons]
  have hfixed'' := fixed_step passes (exec (step passes) (exec (step passes) s as) bs)
    (.rx { received := some g })
  rw [← hfixed''.consumers] at hobserve
  rw [← hfixed''.maxFramesPerLoop] at hmax
  generalize (exec (step passes) (exec (step passes) s as) bs).step passes
    (.rx { received := some g }) = t at hfeed hcell hobserve hmax ⊢
  rw [List.length_replicate, ← Observe.ObserveRing.cell_congr _ hslot] at hcell
  have hlength : t.ring.accepted.length = k + j + 1 := by
    rw [hfeed.ring.accepted_eq]
    simp
  have hhead : t.ring.ring.head = UInt32.ofNat k := by
    rw [hfeed.ring.counts.head, hfeed.ring.popped_length, List.length_replicate]
  have hunread : t.ring.ring.head ≠ t.ring.ring.tail := by
    rw [Ne, hfeed.ring.counts.head_eq_tail_iff hn, hlength, hfeed.ring.popped_length,
      List.length_replicate]
    omega
  obtain ⟨hpop, -⟩ := hfeed.ring.popCall hn (by simp only [List.length_map, List.length_append,
    List.length_replicate, List.length_singleton]; omega)
  have hrest := Observe.Counts.length_unread hpop.counts hn
  rw [hpop.accepted_eq, hpop.popped_length] at hrest
  intro hpromise
  have hreceived := hpromise.received
  rw [exec_drain passes hfeed.drain hobserve hmax hfeed.ring.consumer hunread, hhead, hcell,
    hfeed.dispatched] at hreceived
  have hkept := hfeed.kept
  unfold ObservingPort.kept at hkept hreceived
  rw [hkept] at hreceived
  have heq := hreceived.eq_of_length (by
    simp only [waiting, inHand, List.length_append, List.length_map, List.length_replicate,
      List.length_singleton, List.nil_append] at hrest ⊢
    omega)
  have hread := congrArg (·[k]?) heq
  dsimp only at hread
  rw [List.append_assoc, List.getElem?_append_right (Nat.le_of_eq (List.length_replicate ..)),
    List.length_replicate, Nat.sub_self] at hread
  have hsecond : (List.map RxPort.frameRecord
      (List.replicate (k + j) f.toCanFrame ++ [g.toCanFrame]))[k]? =
        some (RxPort.frameRecord f.toCanFrame) := by
    rw [List.map_append, List.map_replicate,
      List.getElem?_append_left (by rw [List.length_replicate]; omega), List.getElem?_replicate,
      if_pos (by omega)]
  rw [hsecond] at hread
  exact hne (Option.some.inj hread).symm

end Overrun

omit [NeZero n] in
theorem quiet_start (setup : PortSetup cfg τ) (maxIds : Nat) {calls : List Registration}
    (hobserved : (registry calls).observed = true) :
    Quiet (start setup maxIds (registry calls) : ObservingPort cfg τ n) [] [] where
  ring := ⟨.init, rfl, rfl, rfl, rfl⟩
  drain := rfl
  kept := rfl
  dispatched := rfl
  filter := by
    by_contra hfilter
    have hoff := (inv_start (n := n) setup maxIds calls).open' hfilter
    change (registry calls).observed = false at hoff
    rw [hobserved] at hoff
    cases hoff

/-- A subscriber that sixteen bits do not reach is never called. -/
theorem exists_uncalled (h : Quiet s [] []) (hn : n < 2 ^ 32)
    (passes : MaskFilter → RxFrame → Bool) (hobserve : s.rx.consumers.observe = true)
    (hmax : 0 < s.maxFramesPerLoop) (hnone : s.calls = []) {f : RxFrame}
    (hf : s.rx.consumers.observes f.toCanFrame = true) {sub : FrameSubscriber}
    (hsub : s.subscribers[(UInt16.ofNat s.subscribers.length).toNat]? = some sub)
    (hwants : sub.wants f.toCanFrame.view = true) :
    ∃ as, ¬ EndToEnd (exec (step passes) s as) := by
  have hpos : 0 < n := Nat.pos_of_neZero n
  obtain ⟨hfeed, hcell⟩ := h.feed hn (by simpa using hpos) passes hf
  refine ⟨.rx { received := some f } :: List.replicate 6 .drain, ?_⟩
  rw [exec_cons]
  have hfixed := fixed_step passes s (.rx { received := some f })
  rw [← hfixed.consumers] at hobserve
  rw [← hfixed.maxFramesPerLoop] at hmax
  rw [← hfixed.subscribers] at hsub
  have hcalls : (s.step passes (.rx { received := some f })).calls = [] := by
    change (s.receive passes _).calls = []
    unfold receive
    split_ifs <;> exact hnone
  generalize s.step passes (.rx { received := some f }) = t at *
  have hhead : t.ring.ring.head = UInt32.ofNat 0 := by
    rw [hfeed.ring.counts.head, hfeed.ring.popped_length]
    rfl
  have hunread : t.ring.ring.head ≠ t.ring.ring.tail := by
    rw [Ne, hfeed.ring.counts.head_eq_tail_iff hn, hfeed.ring.accepted_eq,
      hfeed.ring.popped_length]
    simp
  intro hpromise
  have hordered := hpromise.ordered
  rw [exec_drain passes hfeed.drain hobserve hmax hfeed.ring.consumer hunread, hhead] at hordered
  change t.calls ++ dispatchRecord t.subscribers _ _ =
    (t.dispatched ++ [_]).flatMap fun record : FrameRecord =>
      callsFor t.subscribers record.view at hordered
  have hcell' : t.ring.ring.cell (UInt32.ofNat 0) = RxPort.frameRecord f.toCanFrame := hcell
  rw [hcalls, hfeed.dispatched, hcell', List.nil_append, List.nil_append, List.flatMap_singleton,
    dispatchRecord, dispatchFrom_eq] at hordered
  have htold := filter_callsFor t.subscribers f.toCanFrame.view hsub
  rw [if_pos hwants] at htold
  change _ = callsFor t.subscribers f.toCanFrame.view at hordered
  rw [← hordered, List.filter_eq_nil_iff.mpr, List.map_nil] at htold
  · cases htold
  · intro call hcall
    have hlt := (mem_callsFrom hcall).2
    rw [Nat.zero_add, List.length_take] at hlt
    simp only [decide_eq_true_eq]
    omega

/-! ## Exactly -/

/-- A frame of this DLC that the subscriber wants. -/
def frameFor (sub : FrameSubscriber) (dlc : Nat) : RxFrame :=
  { id := sub.canId, ide := sub.extended, dlc := dlc }

theorem wants_frameFor (sub : FrameSubscriber) (dlc : Nat) :
    sub.wants (frameFor sub dlc).toCanFrame.view = true := by
  change (sub.all || (decide (sub.canId = sub.canId) && decide (sub.extended = sub.extended))) =
    true
  simp

/-- A port with subscribers keeps the promise in every run exactly when the depth of its ring is a
power of two and sixteen bits count its subscribers. -/
theorem endToEnd_iff (setup : PortSetup cfg τ) {maxIds : Nat} {calls : List Registration}
    (hsome : calls ≠ []) (hids : (registry calls).ids.dedup.length ≤ maxIds)
    (hmax : 0 < setup.maxFramesPerLoop) (hn : n < 2 ^ 16)
    (passes : MaskFilter → RxFrame → Bool) :
    (∀ as, EndToEnd (exec (step passes)
        (start setup maxIds (registry calls) : ObservingPort cfg τ n) as)) ↔
      (∃ k, n = 2 ^ k) ∧ calls.length < 2 ^ 16 := by
  have hword : n < 2 ^ 32 := by omega
  rw [← Observe.dvd_word_iff hword]
  constructor
  · intro hall
    have hlength := length_registry calls
    have hpos : 0 < calls.length := List.length_pos_iff.mpr hsome
    have wanted : ∀ i sub, (registry calls).subscribers[i]? = some sub → ∀ dlc,
        (start setup maxIds (registry calls) : ObservingPort cfg τ n).rx.consumers.observes
          (frameFor sub dlc).toCanFrame = true := fun i sub hi dlc =>
      observes_start setup hids (List.mem_of_getElem? hi) (wants_frameFor sub dlc)
    obtain ⟨first, hfirst⟩ : ∃ sub, (registry calls).subscribers[0]? = some sub :=
      ⟨_, List.getElem?_eq_getElem (by omega)⟩
    have hobserved := (registry_flags calls first (List.mem_of_getElem? hfirst)).1
    have hquiet := quiet_start (n := n) setup maxIds hobserved
    constructor
    · by_contra hd
      have hne : RxPort.frameRecord (frameFor first 0).toCanFrame ≠
          RxPort.frameRecord (frameFor first 1).toCanFrame := by
        intro heq
        have hdlc : (0 : UInt8) = 1 := congrArg FrameRecord.dlc heq
        exact absurd hdlc (by decide)
      obtain ⟨as, hbroken⟩ := hquiet.exists_overrun hword hd passes hobserved hmax
        (wanted 0 first hfirst 0) (wanted 0 first hfirst 1) hne
      exact hbroken (hall as)
    · by_contra hcount
      have hlast : (UInt16.ofNat (registry calls).subscribers.length).toNat <
          (registry calls).subscribers.length := by
        rw [UInt16.toNat_ofNat']
        omega
      have hsub := List.getElem?_eq_getElem hlast
      obtain ⟨as, hbroken⟩ := exists_uncalled hquiet hword passes hobserved hmax rfl
        (wanted _ _ hsub 0) hsub (wants_frameFor _ 0)
      exact hbroken (hall as)
  · rintro ⟨hd, hcount⟩ as
    exact endToEnd_exec setup hids hword hcount passes (Or.inl hd)

/-- A port that routes nothing and drains one frame in a pass. -/
def plainSetup : PortSetup minimalConfig Unit := { maxFramesPerLoop := 1 }

/-- Every frame passes through a ring of the default depth. -/
theorem endToEnd_iff_default :
    (∀ as, EndToEnd (exec (step fun _ _ => true)
        (start plainSetup 128 (registry [.subscribe 0x123 false, .subscribeAll]) :
          ObservingPort minimalConfig Unit 32) as)) ↔
      (∃ k, 32 = 2 ^ k) ∧ [Registration.subscribe 0x123 false, .subscribeAll].length < 2 ^ 16 :=
  endToEnd_iff plainSetup (by decide) (by decide) (by decide) (by decide) _

/-- With a depth of six, the run in which `2 ^ 32 - 4` frames pass through the ring one by one and
five more come in a row. -/
theorem not_endToEnd_six :
    ¬ ∀ as, EndToEnd (exec (step fun _ _ => true)
      (start plainSetup 128 (registry [.subscribe 0x123 false]) :
        ObservingPort minimalConfig Unit 6) as) := by
  rw [not_forall]
  have hquiet : Quiet (start plainSetup 128 (registry [.subscribe 0x123 false]) :
      ObservingPort minimalConfig Unit 6) [] [] := quiet_start plainSetup 128 rfl
  apply hquiet.exists_overrun (f := { id := 0x123 }) (g := { id := 0x123, dlc := 1 })
  · decide
  · decide
  · rfl
  · decide
  · decide
  · decide
  · decide

end ObservingPort

end EspCars.CanGateway
