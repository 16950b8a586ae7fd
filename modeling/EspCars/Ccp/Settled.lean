import EspCars.Ccp.Pending

/-!
# No operation wedges or is lost

The hub and its user over whole runs. A run is a list of what happens, each with the world it
happens in; calls may come from inside the callbacks of the hub. When no callback is running, no
command is in flight and no DAQ read collects, the hub is at rest; `Settled` says that nothing is
pending then, that the next operation is accepted, and how the ones before have ended.

The code checks only in `daq_read` whether the next command of a sequence was taken
(`not_settled_sample`). `settled_of_kept` is what holds without such a refusal.
-/

namespace EspCars.Ccp

open EspCars.Lib

/-! ## What the functions of the hub log -/

/-- The log only grows, the returns of calls apart, and the read under way stays or is gone. -/
structure Quiet (h h' : Hub) : Prop where
  log : ∃ events, h'.log = h.log ++ events ∧ ∀ e ∈ events, ∀ op, e.isReturn op = false
  read : h'.readCallback = none ∨ h'.readCallback = h.readCallback

namespace Quiet

variable {cfg : Config} {env : Env} {h h' h'' : Hub}

theorem of_same (hlog : h'.log = h.log) (hread : h'.readCallback = h.readCallback) :
    Quiet h h' :=
  ⟨⟨[], by rw [hlog, List.append_nil], nofun⟩, Or.inr hread⟩

theorem refl (h : Hub) : Quiet h h := of_same rfl rfl

theorem trans (hq : Quiet h h') (hq' : Quiet h' h'') : Quiet h h'' := by
  obtain ⟨⟨events, hlog, hevents⟩, hread⟩ := hq
  obtain ⟨⟨events', hlog', hevents'⟩, hread'⟩ := hq'
  refine ⟨⟨events ++ events', by rw [hlog', hlog, List.append_assoc], fun e he => ?_⟩, ?_⟩
  · exact (List.mem_append.mp he).elim (hevents e) (hevents' e)
  · rcases hread' with hnone | hsame
    · exact Or.inl hnone
    · rcases hread with hnone | hsame'
      · exact Or.inl (hsame.trans hnone)
      · exact Or.inr (hsame.trans hsame')

theorem after (hq : Quiet h' h'') (hlog : h'.log = h.log)
    (hread : h'.readCallback = h.readCallback) : Quiet h h'' :=
  (of_same hlog hread).trans hq

/-- One event that is not a return. -/
theorem emits (e : Event) (hlog : h'.log = h.log ++ [e]) (he : ∀ op, e.isReturn op = false)
    (hread : h'.readCallback = h.readCallback) : Quiet h h' := by
  refine ⟨⟨[e], hlog, fun e' he' => ?_⟩, Or.inr hread⟩
  rw [List.mem_singleton.mp he']
  exact he

/-- The same, and the read under way is gone. -/
theorem ends (e : Event) (hlog : h'.log = h.log ++ [e]) (he : ∀ op, e.isReturn op = false)
    (hread : h'.readCallback = none) : Quiet h h' := by
  refine ⟨⟨[e], hlog, fun e' he' => ?_⟩, Or.inl hread⟩
  rw [List.mem_singleton.mp he']
  exact he

theorem dropRead (hlog : h'.log = h.log) (hread : h'.readCallback = none) : Quiet h h' :=
  ⟨⟨[], by rw [hlog, List.append_nil], nofun⟩, Or.inl hread⟩

theorem send (h : Hub) (cro : Cro) (callback : Option CommandCallback) :
    Quiet h (h.send cfg env cro callback).1 := by
  cases hs : h.sends cfg env cro with
  | true =>
    rw [(Hub.send_of_sends hs callback).2]
    refine ⟨⟨[.sent cfg.commandId (cro.withCtr h.ctr)], rfl, fun e he => ?_⟩, Or.inr rfl⟩
    rw [List.mem_singleton.mp he]
    exact fun _ => rfl
  | false =>
    obtain ⟨ctr, hsend⟩ := Hub.send_of_not_sends hs callback
    rw [hsend]
    exact of_same rfl rfl

theorem failSequence_of_unread (hunread : h.readRemaining = 0) : Quiet h h.failSequence.1 := by
  unfold Hub.failSequence
  rw [if_neg (not_not.mpr hunread)]
  dsimp only
  split_ifs
  · cases h.writeCallback with
    | none => exact of_same rfl rfl
    | some op => exact emits (.writeDone op false) rfl (fun _ => rfl) rfl
  · exact refl h

theorem failSequence (h : Hub) : Quiet h h.failSequence.1 := by
  by_cases hread : h.readRemaining = 0
  · exact failSequence_of_unread hread
  · cases hcallback : h.readCallback with
    | none =>
      have heq : h.failSequence = Hub.failSequence
          { h with readRemaining := 0, readData := [], readCallback := none } := by
        unfold Hub.failSequence
        simp only [hcallback, ne_eq, hread, not_true_eq_false, not_false_eq_true, if_true, if_false]
      have hdropped : Quiet h { h with readRemaining := 0, readData := [], readCallback := none } :=
        dropRead rfl rfl
      rw [heq]
      exact hdropped.trans (failSequence_of_unread rfl)
    | some op =>
      have heq : h.failSequence = Hub.failSequence
          (Hub.emit { h with readRemaining := 0, readData := [], readCallback := none }
            (.readDropped op)) := by
        unfold Hub.failSequence Hub.emit
        simp only [hcallback, ne_eq, hread, not_true_eq_false, not_false_eq_true, if_true, if_false]
      have hended : Quiet h (Hub.emit
          { h with readRemaining := 0, readData := [], readCallback := none } (.readDropped op)) :=
        ends (.readDropped op) rfl (fun _ => rfl) rfl
      rw [heq]
      exact hended.trans (failSequence_of_unread rfl)

theorem readNext (h : Hub) : Quiet h (h.readNext cfg env).1 := send h _ _

theorem continueRead (h : Hub) (ok : Bool) (data : List UInt8) :
    Quiet h (h.continueRead cfg env ok data).1 := by
  unfold Hub.continueRead
  split_ifs
  · exact failSequence h
  dsimp only
  split_ifs
  · cases h.readCallback with
    | none => exact dropRead rfl rfl
    | some op => exact ends (.readDone op _) rfl (fun _ => rfl) rfl
  · exact (readNext _).after rfl rfl

theorem continueWrite (h : Hub) (ok : Bool) : Quiet h (h.continueWrite cfg env ok).1 := by
  unfold Hub.continueWrite
  split_ifs
  · exact failSequence h
  · cases h.writeCallback with
    | none => exact of_same rfl rfl
    | some op => exact emits (.writeDone op true) rfl (fun _ => rfl) rfl
  · exact (send _ _ _).after rfl rfl

theorem connectDone (h : Hub) (ok : Bool) : Quiet h (h.connectDone ok).1 := by
  unfold Hub.connectDone
  cases h.connectCallback with
  | none => exact of_same rfl rfl
  | some op => exact emits (.connectDone op ok) rfl (fun _ => rfl) rfl

theorem fireDaqRead (h : Hub) : Quiet h h.fireDaqRead.1 := by
  unfold Hub.fireDaqRead
  split_ifs
  · exact refl h
  · cases h.daqReadDone with
    | none => exact emits (.daqRead h.daqReadResult) rfl (fun _ => rfl) rfl
    | some op => exact emits (.daqDone op h.daqReadResult) rfl (fun _ => rfl) rfl

/-- A command, or else `next`. -/
theorem sendOr (h : Hub) (cro : Cro) (callback : CommandCallback) {next : Hub → Control}
    (hnext : ∀ h', Quiet h' (next h').1) :
    Quiet h (match h.send cfg env cro (some callback) with
      | (h', true) => (h', none)
      | (h', false) => next h').1 := by
  have hsend := @send cfg env h cro (some callback)
  cases hs : h.send cfg env cro (some callback) with
  | mk h' ok =>
    rw [hs] at hsend
    cases ok with
    | true => exact hsend
    | false => exact hsend.trans (hnext h')

theorem teardownStatus (h : Hub) : Quiet h (h.teardownStatus cfg env).1 :=
  sendOr h _ _ fireDaqRead

theorem teardownDaqRead (h : Hub) : Quiet h (h.teardownDaqRead cfg env).1 :=
  sendOr h _ _ teardownStatus

theorem completeDaqRead (h : Hub) (failed : Option DaqStep) :
    Quiet h (h.completeDaqRead cfg env failed).1 := by
  unfold Hub.completeDaqRead
  split_ifs
  · exact refl h
  · exact (teardownDaqRead _).after rfl rfl

theorem sendDaqStep (h : Hub) (cro : Cro) (step : DaqStep) (callback : CommandCallback) :
    Quiet h (h.sendDaqStep cfg env cro step callback).1 :=
  sendOr h _ _ fun h' => completeDaqRead h' _

theorem continueDaqWrite (h : Hub) (index : Nat) :
    Quiet h (h.continueDaqWrite cfg env index).1 := by
  unfold Hub.continueDaqWrite
  cases h.daqLayout[index]? with
  | none => exact sendDaqStep _ _ _ _
  | some field => exact sendDaqStep _ _ _ _

theorem resume (h : Hub) (callback : CommandCallback) (ok : Bool) (data : List UInt8) :
    Quiet h (h.resume cfg env callback ok data).1 := by
  cases callback with
  | connectAnd => exact connectDone h ok
  | readMta =>
    cases ok with
    | false => exact failSequence h
    | true => exact readNext h
  | readUpload => exact continueRead h ok data
  | write => exact continueWrite h ok
  | daqSize =>
    cases ok with
    | false => exact completeDaqRead h _
    | true => exact sendDaqStep h _ _ _
  | daqPtr =>
    cases ok with
    | false => exact completeDaqRead h _
    | true => exact continueDaqWrite h _
  | daqWrite index =>
    cases ok with
    | false => exact completeDaqRead h _
    | true => exact continueDaqWrite h _
  | daqStatus =>
    cases ok with
    | false => exact completeDaqRead h _
    | true => exact sendDaqStep h _ _ _
  | daqStart =>
    cases ok with
    | false => exact completeDaqRead h _
    | true => exact of_same rfl rfl
  | teardownStop => exact teardownStatus h
  | teardownStatus => exact fireDaqRead h

theorem callBack (h : Hub) (callback : Option CommandCallback) (ok : Bool) (data : List UInt8) :
    Quiet h (h.callBack cfg env callback ok data).1 := by
  cases callback with
  | none => exact refl h
  | some callback => exact resume h callback ok data

theorem handleDaqFrame (h : Hub) (frame : List UInt8) :
    Quiet h (h.handleDaqFrame cfg env frame).1 := by
  unfold Hub.handleDaqFrame
  by_cases hskip : (!h.daqCollecting || decide (frame.head? ≠ some 0)) = true
  · rw [if_pos hskip]
    exact refl h
  rw [if_neg hskip]
  dsimp only
  have hend : ∀ h' : Hub, Quiet h h' →
      Quiet h (if h'.daqTargetSamples ≤ h'.daqReadResult.framesSeen then
        h'.completeDaqRead cfg env none else (h', none)).1 := by
    intro h' hq
    split_ifs
    · exact hq.trans (completeDaqRead h' none)
    · exact hq
  refine hend _ ?_
  split
  · exact of_same rfl rfl
  · exact of_same rfl rfl

theorem run (h : Hub) (frame : Frame) : Quiet h (h.run cfg env frame).1 := by
  cases frame with
  | done => exact refl h
  | afterResponse command callback data =>
    unfold Hub.run
    dsimp only
    split_ifs
    · exact emits .connected rfl (fun _ => rfl) rfl
    · exact (callBack _ _ _ _).after rfl rfl
    · exact callBack h _ _ _
  | afterConnected callback data => exact callBack h _ _ _
  | afterError callback => exact callBack h _ _ _
  | readDone => exact of_same rfl rfl
  | daqFrame data => exact handleDaqFrame h data
  | daqReported result => exact emits (.daqRead result) rfl (fun _ => rfl) rfl

theorem finish (h : Hub) (success : Bool) (code : UInt8) (data : List UInt8) :
    Quiet h (h.finish success code data).1 := by
  cases success with
  | true => exact emits (.response h.inFlightCommand code data) rfl (fun _ => rfl) rfl
  | false => exact emits (.error h.inFlightCommand code) rfl (fun _ => rfl) rfl

theorem onFrame (h : Hub) (extended rtr : Bool) (data : List UInt8) :
    Quiet h (h.onFrame extended rtr data).1 := by
  unfold Hub.onFrame
  split_ifs
  · exact refl h
  cases decodeDto data with
  | invalid => exact refl h
  | daq pid bytes => exact emits (.daq pid bytes) rfl (fun _ => rfl) rfl
  | response returnCode ctr bytes =>
    dsimp only
    split_ifs
    · exact refl h
    · exact finish h _ _ _

theorem checkTimeout (h : Hub) : Quiet h (h.checkTimeout env).1 := by
  unfold Hub.checkTimeout
  split_ifs
  · exact finish h _ _ _
  · exact refl h

theorem checkCollect (h : Hub) : Quiet h (h.checkCollect cfg env).1 := by
  unfold Hub.checkCollect
  split_ifs
  · exact completeDaqRead h _
  · exact refl h

/-- Calls add the returns; only `read_memory` begins a read, and only where none is pending. -/
theorem perform {c : Call} (op : Nat)
    (hc : ∀ ext address len, c = .readMemory ext address len → h.readRemaining ≠ 0) :
    Quiet h (h.perform cfg env op c).1 := by
  cases c with
  | command c =>
    unfold Hub.perform
    dsimp only
    cases c.cro? cfg with
    | none => exact refl h
    | some cro => exact send h cro none
  | setEnabled enabled => exact of_same rfl rfl
  | readMemory ext address len =>
    have hrefused : h.readMemory cfg env ext address len op = (h, false) :=
      if_pos (Or.inr (Or.inr (hc ext address len rfl)))
    show Quiet h (h.readMemory cfg env ext address len op).1
    rw [hrefused]
    exact refl h
  | writeMemory ext address data =>
    unfold Hub.perform Hub.writeMemory
    dsimp only
    split_ifs
    · exact refl h
    · exact (send _ _ _).after rfl rfl
  | connectAnd =>
    unfold Hub.perform Hub.connectAnd
    dsimp only
    split_ifs
    · exact emits (.connectDone op true) rfl (fun _ => rfl) rfl
    · exact (send _ _ _).after rfl rfl
  | daqRead req =>
    unfold Hub.perform Hub.daqRead
    dsimp only
    split_ifs
    · exact refl h
    have hsend := @send cfg env (h.beginDaqRead cfg req op)
      (getDaqSize 0 cfg.byteOrder req.list req.dtoId) (some .daqSize)
    cases hs : (h.beginDaqRead cfg req op).send cfg env
        (getDaqSize 0 cfg.byteOrder req.list req.dtoId) (some .daqSize) with
    | mk h' ok =>
      rw [hs] at hsend
      have hquiet : Quiet h h' := hsend.after rfl rfl
      cases ok with
      | true => exact hquiet
      | false => exact hquiet.trans (of_same rfl rfl)

end Quiet

/-- A read that begins logs like any other call. -/
theorem Quiet.readMemory_log {cfg : Config} {env : Env} (h : Hub) (ext : UInt8) (address : UInt32)
    (len : UInt16) (op : Nat) : ∃ events,
      (h.readMemory cfg env ext address len op).1.log = h.log ++ events ∧
        ∀ e ∈ events, ∀ op, e.isReturn op = false := by
  unfold Hub.readMemory
  split_ifs
  · exact (Quiet.refl h).log
  · exact (Quiet.send { h with
      readCallback := some op, readData := [], readRemaining := len.toNat } _ _).log

/-! ## The account of a state -/

namespace State

/-- The continuations of the callbacks that are running. -/
def held (regions : List Region) : List CommandCallback :=
  regions.filterMap fun region => region.frame.callback

/-- The account of the hub and of the callbacks of its user that are running. -/
structure Inv (s : State) : Prop where
  hub : Ccp.Inv s.hub (held s.regions) []
  numbers : ∀ op, s.hub.log.countP (Event.isReturn op) = if op < s.ops then 1 else 0
  failing : ∀ region ∈ s.regions, region.frame.FailsRead → s.hub.ReadErrored

variable {cfg : Config} {env : Env} {s : State}

theorem countP_quiet {log events : List Event}
    (h : ∀ e ∈ events, ∀ op, e.isReturn op = false) (op : Nat) :
    (log ++ events).countP (Event.isReturn op) = log.countP (Event.isReturn op) := by
  have hzero : events.countP (Event.isReturn op) = 0 := by
    refine List.countP_eq_zero.mpr fun e he => ?_
    rw [h e he op]
    exact Bool.false_ne_true
  rw [List.countP_append, hzero, Nat.add_zero]

/-- An error reported stays reported while the read waits. -/
theorem readErrored_quiet {h h' : Hub} {held : List CommandCallback} {owing : List (Mark Kind)}
    (herror : h.ReadErrored) (hq : Quiet h h') (hinv : Ccp.Inv h' held owing)
    (hread : ∃ cb ∈ held, cb.kind = .read) : h'.ReadErrored := by
  obtain ⟨op, hop, hsince⟩ := herror
  obtain ⟨cb, hmem, hkind⟩ := hread
  have hwaits : Kind.read ∈ (h'.commandCallback.toList ++ held).map CommandCallback.kind := by
    rw [← hkind]
    exact List.mem_map_of_mem (List.mem_append_right _ hmem)
  obtain ⟨op', hop'⟩ := hinv.balanced.holder_of_mem hwaits
  obtain ⟨⟨events, hlog, -⟩, hsame⟩ := hq
  refine ⟨op, ?_, ?_⟩
  · rcases hsame with hnone | hsame
    · rw [show h'.readCallback = some op' from hop'] at hnone
      cases hnone
    · exact hsame.trans hop
  · rw [hlog]
    exact hsince.append events

theorem held_cons (region : Region) (regions : List Region) :
    held (region :: regions) = region.frame.callback.toList ++ held regions := by
  unfold held
  cases hcallback : region.frame.callback with
  | none => exact List.filterMap_cons_none hcallback
  | some cb => exact List.filterMap_cons_some hcallback

theorem mem_held {region : Region} {regions : List Region} (h : region ∈ regions)
    (hfails : region.frame.FailsRead) : ∃ cb ∈ held regions, cb.kind = .read := by
  obtain ⟨cb, hframe, hkind⟩ := hfails
  refine ⟨cb, List.mem_filterMap.mpr ⟨region, h, ?_⟩, hkind⟩
  rw [hframe]
  rfl

/-- The account after the hub has run until its user has control or it has returned. -/
theorem inv_enter {c : Control} (hc : Control.Inv c (held s.regions) [])
    (hnumbers : ∀ op, c.1.log.countP (Event.isReturn op) = if op < s.ops then 1 else 0)
    (hfailing : ∀ region ∈ s.regions, region.frame.FailsRead → c.1.ReadErrored)
    (inLoop : Bool) : (s.enter c inLoop).Inv := by
  obtain ⟨h, frame⟩ := c
  cases frame with
  | none => exact ⟨hc.account, hnumbers, hfailing⟩
  | some frame =>
    refine ⟨?_, hnumbers, ?_⟩
    · show Ccp.Inv h (held (⟨frame, inLoop⟩ :: s.regions)) []
      rw [held_cons]
      exact hc.account
    · intro region hmem hfails
      rcases List.mem_cons.mp hmem with rfl | hmem
      · exact hc.errored frame rfl hfails
      · exact hfailing region hmem hfails

/-- The same for what logs no return and begins no read. -/
theorem inv_enter_quiet {h : Hub}
    (hnumbers : ∀ op, h.log.countP (Event.isReturn op) = if op < s.ops then 1 else 0)
    (hfailing : ∀ region ∈ s.regions, region.frame.FailsRead → h.ReadErrored) {c : Control}
    (hc : Control.Inv c (held s.regions) []) (hq : Quiet h c.1) (inLoop : Bool) :
    (s.enter c inLoop).Inv := by
  refine inv_enter hc (fun op => ?_) (fun region hmem hfails => ?_) inLoop
  · obtain ⟨events, hlog, hevents⟩ := hq.log
    rw [hlog, countP_quiet hevents, hnumbers]
  · refine readErrored_quiet (hfailing region hmem hfails) hq hc.account ?_
    obtain ⟨cb, hcb, hkind⟩ := mem_held hmem hfails
    exact ⟨cb, List.mem_append_right _ hcb, hkind⟩

/-! ### The steps -/

/-- The return of a call settles what it was owing. -/
theorem inv_returned {h : Hub} {frame : Option Frame} {tokens : List CommandCallback} {kind : Kind}
    {op : Nat} {ok : Bool} (hc : Control.Inv (h, frame) tokens (Ccp.Inv.openings kind op ok)) :
    Control.Inv (h.emit (.returned kind op ok), frame) tokens [] := by
  constructor
  · have haccount := hc.account
    cases ok with
    | true => exact Ccp.Inv.settle haccount rfl nofun
    | false => exact Ccp.Inv.emit haccount rfl
  · intro f heq hfails
    obtain ⟨op', hop, hsince⟩ := hc.errored f heq hfails
    exact ⟨op', hop, hsince.append _⟩

theorem countP_returned (log : List Event) (kind : Kind) (op op' : Nat) (ok : Bool) :
    (log ++ [Event.returned kind op ok]).countP (Event.isReturn op') =
      log.countP (Event.isReturn op') + if op' = op then 1 else 0 := by
  have hreturn : Event.isReturn op' (.returned kind op ok) = decide (op = op') := rfl
  rw [List.countP_append, List.countP_singleton, hreturn]
  by_cases heq : op' = op
  · rw [if_pos heq, if_pos (decide_eq_true heq.symm)]
  · rw [if_neg heq, if_neg fun h => heq (of_decide_eq_true h).symm]

/-- What a call logs before it returns. -/
theorem perform_log (h : Hub) (c : Call) (op : Nat) : ∃ events,
    (h.perform cfg env op c).1.log = h.log ++ events ∧
      ∀ e ∈ events, ∀ op, e.isReturn op = false := by
  cases c with
  | readMemory ext address len => exact Quiet.readMemory_log h ext address len op
  | command c => exact (Quiet.perform op fun _ _ _ heq => Call.noConfusion heq).log
  | setEnabled enabled => exact (Quiet.perform op fun _ _ _ heq => Call.noConfusion heq).log
  | writeMemory ext address data => exact (Quiet.perform op fun _ _ _ heq => Call.noConfusion heq).log
  | connectAnd => exact (Quiet.perform op fun _ _ _ heq => Call.noConfusion heq).log
  | daqRead req => exact (Quiet.perform op fun _ _ _ heq => Call.noConfusion heq).log

/-- A running read keeps its error through any call. -/
theorem perform_failing (hinv : s.Inv) {c : Call} {op : Nat} {owing : List (Mark Kind)}
    (hc : Control.Inv ((s.hub.perform cfg env op c).1, (s.hub.perform cfg env op c).2.2)
      (held s.regions) owing) :
    ∀ region ∈ s.regions, region.frame.FailsRead → (s.hub.perform cfg env op c).1.ReadErrored := by
  intro region hmem hfails
  obtain ⟨cb, hcb, hkind⟩ := mem_held hmem hfails
  have hremaining : s.hub.readRemaining ≠ 0 := by
    have hread : Kind.read ∈
        (s.hub.commandCallback.toList ++ held s.regions).map CommandCallback.kind := by
      rw [← hkind]
      exact List.mem_map_of_mem (List.mem_append_right _ hcb)
    have hwaits := hinv.hub.balanced.waits_of_mem hread
    exact of_decide_eq_true (Bool.and_eq_true_iff.mp hwaits).1
  exact readErrored_quiet (hinv.failing region hmem hfails)
    (Quiet.perform op fun _ _ _ _ => hremaining) hc.account ⟨cb, List.mem_append_right _ hcb, hkind⟩

theorem inv_call (hinv : s.Inv) {c : Call} (hopens : s.hub.Opens cfg env c) :
    (s.call cfg env c).Inv := by
  have hc := hinv.hub.perform hopens s.ops
  obtain ⟨events, hlog, hevents⟩ := @perform_log cfg env s.hub c s.ops
  have hfailing := perform_failing hinv hc
  have hcount : ∀ op, (s.hub.perform cfg env s.ops c).1.log.countP (Event.isReturn op) =
      if op < s.ops then 1 else 0 := by
    intro op
    rw [hlog, countP_quiet hevents, hinv.numbers]
  unfold call
  cases hkind : c.kind? with
  | none =>
    rw [hkind] at hc
    exact inv_enter hc hcount hfailing false
  | some kind =>
    rw [hkind] at hc
    refine @inv_enter { s with ops := s.ops + 1 } _ (inv_returned hc) (fun op => ?_)
      (fun region hmem hfails => ?_) false
    · refine (countP_returned _ kind s.ops op _).trans ?_
      rw [hcount]
      show _ = if op < s.ops + 1 then 1 else 0
      split_ifs <;> omega
    · obtain ⟨op, hop, hsince⟩ := hfailing region hmem hfails
      exact ⟨op, hop, hsince.append _⟩

theorem inv_checkCollect {h : Hub} (hub : Ccp.Inv h (held s.regions) [])
    (hnumbers : ∀ op, h.log.countP (Event.isReturn op) = if op < s.ops then 1 else 0)
    (hfailing : ∀ region ∈ s.regions, region.frame.FailsRead → h.ReadErrored) :
    (s.enter (h.checkCollect cfg env) false).Inv :=
  inv_enter_quiet hnumbers hfailing hub.checkCollect (Quiet.checkCollect h) false

theorem inv_ret (hinv : s.Inv)
    (hgo : ∀ region ∈ s.regions.head?, ∀ cb ok data, region.frame.continues = some (cb, ok, data) →
      s.hub.CarriesOn cfg env cb ok data) : (s.ret cfg env).Inv := by
  unfold ret
  cases hregions : s.regions with
  | nil => exact hinv
  | cons region outer =>
    have hub := hinv.hub
    rw [hregions, held_cons] at hub
    have hfailing : ∀ r ∈ region :: outer, r.frame.FailsRead → s.hub.ReadErrored := by
      rw [← hregions]
      exact hinv.failing
    have hc := hub.run (hgo region (by rw [hregions]; rfl)) (hfailing region List.mem_cons_self)
    have hq := @Quiet.run cfg env s.hub region.frame
    have hrest : (State.enter { s with regions := outer } (s.hub.run cfg env region.frame)
        region.inLoop).Inv :=
      @inv_enter_quiet { s with regions := outer } s.hub hinv.numbers
        (fun r hr => hfailing r (List.mem_cons_of_mem _ hr)) _ hc hq _
    dsimp only
    cases hrun : s.hub.run cfg env region.frame with
    | mk h frame =>
      rw [hrun] at hrest
      cases frame with
      | some frame => exact hrest
      | none =>
        dsimp only
        by_cases hloop : region.inLoop = true
        · rw [if_pos hloop]
          exact inv_checkCollect hrest.hub hrest.numbers hrest.failing
        · rw [if_neg hloop]
          exact hrest

theorem inv_frame (hinv : s.Inv) (extended rtr : Bool) (data : List UInt8) :
    (s.enter (s.hub.onFrame extended rtr data) false).Inv :=
  inv_enter_quiet hinv.numbers hinv.failing (hinv.hub.onFrame extended rtr data)
    (Quiet.onFrame s.hub extended rtr data) false

theorem inv_loop (hinv : s.Inv) : (s.loop cfg env).Inv := by
  have hrest : (s.enter (s.hub.checkTimeout env) true).Inv :=
    inv_enter_quiet hinv.numbers hinv.failing hinv.hub.checkTimeout (Quiet.checkTimeout s.hub) true
  unfold loop
  cases htimeout : s.hub.checkTimeout env with
  | mk h frame =>
    rw [htimeout] at hrest
    cases frame with
    | some frame => exact hrest
    | none => exact inv_checkCollect hrest.hub hrest.numbers hrest.failing

/-! ## Runs -/

variable (cfg)

/-- A step at which no operation is started over another and no command of a sequence is refused:
a call opens its operation, and a callback that returns leaves its operation to carry on. -/
def Kept (env : Env) (s : State) : Action → Prop
  | .call c => s.hub.Opens cfg env c
  | .ret => ∀ region ∈ s.regions.head?, ∀ cb ok data, region.frame.continues = some (cb, ok, data) →
    s.hub.CarriesOn cfg env cb ok data
  | _ => True

variable {cfg}

theorem inv_step (hinv : s.Inv) {a : Action} (hkept : s.Kept cfg env a) :
    (s.step cfg env a).Inv := by
  cases a with
  | call c => exact inv_call hinv hkept
  | ret => exact inv_ret hinv hkept
  | frame extended rtr data => exact inv_frame hinv extended rtr data
  | loop => exact inv_loop hinv

theorem inv_start : ({} : State).Inv where
  hub := by
    refine ⟨fun _ => rfl, ⟨fun k => ?_, fun k => ?_, fun k op => ?_⟩, fun k => ?_, nofun,
      dropsReported_nil⟩
    · cases k <;> rfl
    · cases k <;> exact nofun
    · cases k <;> rfl
    · cases k <;> rfl
  numbers := fun op => by rw [if_neg (Nat.not_lt_zero op)]; rfl
  failing := nofun

end State

/-! ## Nothing wedges, nothing is lost -/

/-- How often the operation `op` of a kind has ended. -/
def ended (kind : Kind) (op : Nat) (log : List Event) : Nat :=
  (log.filterMap Event.mark).count (.closed kind op)

/-- No operation is pending. -/
def Hub.NothingPending (h : Hub) : Prop :=
  h.readRemaining = 0 ∧ h.writeData = [] ∧ h.connectCallback = none ∧ h.daqReadActive = false

/-- The pending operations, and the command in flight, are the same. -/
structure Hub.SamePending (h h' : Hub) : Prop where
  flight : (h'.inFlight, h'.inFlightCtr, h'.inFlightCommand, h'.deadline, h'.commandCallback) =
    (h.inFlight, h.inFlightCtr, h.inFlightCommand, h.deadline, h.commandCallback)
  read : (h'.readCallback, h'.readData, h'.readRemaining) =
    (h.readCallback, h.readData, h.readRemaining)
  write : (h'.writeData, h'.writeOffset, h'.writeCallback) =
    (h.writeData, h.writeOffset, h.writeCallback)
  connect : h'.connectCallback = h.connectCallback
  active : h'.daqReadActive = h.daqReadActive
  daq : h.daqReadActive = true →
    (h'.daqCollecting, h'.daqAnchorRequired, h'.daqRequestedOffset, h'.daqTargetSamples,
      h'.daqCollectDeadline, h'.daqReadResult, h'.daqReadReq, h'.daqLayout, h'.daqValuesValid,
      h'.daqReadDone) =
    (h.daqCollecting, h.daqAnchorRequired, h.daqRequestedOffset, h.daqTargetSamples,
      h.daqCollectDeadline, h.daqReadResult, h.daqReadReq, h.daqLayout, h.daqValuesValid,
      h.daqReadDone)

/-- The first command of an operation whose arguments are in order. -/
def Call.begins (cfg : Config) : Call → Option Cro
  | .readMemory ext address len =>
    if len ≠ 0 then some (setMta 0 cfg.byteOrder 0 ext address) else none
  | .writeMemory ext address data =>
    if data ≠ [] ∧ Hub.writeAllowed cfg Command.dnload = true then
      some (setMta 0 cfg.byteOrder 0 ext address)
    else none
  | .connectAnd => some (Ccp.connect 0 cfg.byteOrder cfg.stationAddress)
  | .daqRead req =>
    if Hub.accepts cfg req = true then some (getDaqSize 0 cfg.byteOrder req.list req.dtoId)
    else none
  | _ => none

namespace State

/-- No callback is running, no command is in flight and no DAQ read collects. -/
def AtRest (s : State) : Prop :=
  s.regions = [] ∧ s.hub.inFlight = false ∧ s.hub.daqCollecting = false

/-- `admits` says which steps are taken. -/
structure Settled (cfg : Config) (admits : State → Env × Action → Prop) (s : State) : Prop where
  idle : s.AtRest → s.hub.NothingPending
  next : s.AtRest → ∀ env c cro, c.begins cfg = some cro → s.hub.sends cfg env cro = true →
    (s.hub.perform cfg env s.ops c).2.1 = true
  once : ∀ kind op, .returned kind op true ∈ s.hub.log →
    ended kind op s.hub.log ≤ 1 ∧ (s.AtRest → ended kind op s.hub.log = 1)
  never : ∀ kind op, .returned kind op false ∈ s.hub.log →
    ∀ kind', ended kind' op s.hub.log = 0
  dropped : DropsReported s.hub.log
  refused : ∀ env c, admits s (env, .call c) → (s.hub.perform cfg env s.ops c).2.1 = false →
    s.hub.SamePending (s.hub.perform cfg env s.ops c).1

variable {cfg : Config} {env : Env} {s : State}

/-! ### At rest -/

theorem not_engaged (hinv : s.Inv) (hrest : s.AtRest) (k : Kind) : s.hub.engaged k = false := by
  obtain ⟨hregions, hflight, hcollecting⟩ := hrest
  have htokens : (s.hub.commandCallback.toList ++ held s.regions).map CommandCallback.kind = [] := by
    rw [hinv.hub.idle hflight, hregions]
    rfl
  have hwaits := hinv.hub.balanced.not_waits (k := k) (by rw [htokens]; exact List.not_mem_nil)
  have hand : (s.hub.engaged k && !(decide (k = .daq) && s.hub.daqCollecting)) = false := hwaits
  rw [hcollecting, Bool.and_false, Bool.not_false, Bool.and_true] at hand
  exact hand

theorem nothingPending (hinv : s.Inv) (hrest : s.AtRest) : s.hub.NothingPending := by
  refine ⟨?_, ?_, ?_, not_engaged hinv hrest .daq⟩
  · exact not_not.mp (of_decide_eq_false (not_engaged hinv hrest .read))
  · exact not_not.mp (of_decide_eq_false (not_engaged hinv hrest .write))
  · exact Option.isSome_eq_false_iff.mp (not_engaged hinv hrest .connect) |> Option.isNone_iff_eq_none.mp

theorem accepted (hinv : s.Inv) (hrest : s.AtRest) {c : Call} {cro : Cro}
    (hbegins : c.begins cfg = some cro) (hs : s.hub.sends cfg env cro = true) :
    (s.hub.perform cfg env s.ops c).2.1 = true := by
  obtain ⟨hread, -, -, hdaq⟩ := nothingPending hinv hrest
  have hflight : ¬ s.hub.inFlight = true := by
    rw [hrest.2.1]
    exact Bool.false_ne_true
  cases c with
  | command c => cases hbegins
  | setEnabled enabled => cases hbegins
  | readMemory ext address len =>
    obtain ⟨hlen, hcro⟩ := Option.ite_none_right_eq_some.mp hbegins
    cases hcro
    show (s.hub.readMemory cfg env ext address len s.ops).2 = true
    unfold Hub.readMemory
    rw [if_neg (not_or.mpr ⟨hlen, not_or.mpr ⟨hflight, not_not.mpr hread⟩⟩)]
    exact (Hub.send_snd _ _ _).trans hs
  | writeMemory ext address data =>
    obtain ⟨⟨hdata, hallowed⟩, hcro⟩ := Option.ite_none_right_eq_some.mp hbegins
    cases hcro
    show (s.hub.writeMemory cfg env ext address data s.ops).2 = true
    unfold Hub.writeMemory
    rw [if_neg (not_or.mpr ⟨hdata, not_or.mpr ⟨hflight, by rw [hallowed]; decide⟩⟩)]
    exact (Hub.send_snd _ _ _).trans hs
  | connectAnd =>
    cases hbegins
    show (s.hub.connectAnd cfg env s.ops).2.1 = true
    unfold Hub.connectAnd
    by_cases hconnected : s.hub.connected = true
    · rw [if_pos hconnected]
    · rw [if_neg hconnected]
      exact (Hub.send_snd _ _ _).trans hs
  | daqRead req =>
    obtain ⟨haccepts, hcro⟩ := Option.ite_none_right_eq_some.mp hbegins
    cases hcro
    show (s.hub.daqRead cfg env req s.ops).2 = true
    unfold Hub.daqRead
    rw [if_neg (not_or.mpr ⟨by rw [haccepts]; decide, not_or.mpr ⟨hflight, by rw [hdaq]; decide⟩⟩)]
    have hs' : (s.hub.beginDaqRead cfg req s.ops).sends cfg env
        (getDaqSize 0 cfg.byteOrder req.list req.dtoId) = true := hs
    dsimp only
    rw [(Hub.send_of_sends hs' _).2]

/-! ### The account of one operation -/

/-- The refusal of a call with the number `op`. -/
def isRefusal (op : Nat) : Event → Bool
  | .returned _ op' false => op' = op
  | _ => false

/-- What is opened under a number, and what is refused under it, are returns. -/
theorem opened_le (log : List Event) (kind : Kind) (op : Nat) :
    (log.filterMap Event.mark).count (.opened kind op) + log.countP (isRefusal op) ≤
      log.countP (Event.isReturn op) := by
  have hevent : ∀ e : Event, e.mark.toList.count (.opened kind op) +
      (if isRefusal op e = true then 1 else 0) ≤ if Event.isReturn op e = true then 1 else 0 := by
    intro e
    cases e with
    | returned kind' op' ok =>
      cases ok with
      | true =>
        show [Mark.opened kind' op'].count (.opened kind op) + 0 ≤ _
        by_cases hop : op' = op
        · rw [show Event.isReturn op (.returned kind' op' true) = true from decide_eq_true hop]
          exact List.count_le_length
        · rw [List.count_eq_zero.mpr fun hmem => hop (by cases List.mem_singleton.mp hmem; rfl)]
          exact Nat.zero_le _
      | false => exact Nat.le_of_eq (Nat.zero_add _)
    | sent _ _ => exact Nat.zero_le _
    | response _ _ _ => exact Nat.zero_le _
    | connected => exact Nat.zero_le _
    | error _ _ => exact Nat.zero_le _
    | daq _ _ => exact Nat.zero_le _
    | daqRead _ => exact Nat.zero_le _
    | readDone _ _ => exact Nat.zero_le _
    | readDropped _ => exact Nat.zero_le _
    | writeDone _ _ => exact Nat.zero_le _
    | connectDone _ _ => exact Nat.zero_le _
    | daqDone _ _ => exact Nat.zero_le _
  induction log with
  | nil => exact Nat.zero_le _
  | cons e log ih =>
    have hmarks : (e :: log).filterMap Event.mark =
        e.mark.toList ++ log.filterMap Event.mark := by
      cases hmark : e.mark with
      | none => exact List.filterMap_cons_none hmark
      | some m => exact List.filterMap_cons_some hmark
    rw [hmarks, List.count_append, List.countP_cons, List.countP_cons]
    have hfirst := hevent e
    omega

theorem returns_le (hinv : s.Inv) (op : Nat) : s.hub.log.countP (Event.isReturn op) ≤ 1 := by
  rw [hinv.numbers]
  split_ifs
  · exact Nat.le_refl _
  · exact Nat.zero_le _

theorem ended_le (hinv : s.Inv) (kind : Kind) (op : Nat) :
    ended kind op s.hub.log ≤ (s.hub.log.filterMap Event.mark).count (.opened kind op) := by
  have hle := hinv.hub.balanced.closed_le kind op
  rw [List.append_nil] at hle
  exact hle

theorem once (hinv : s.Inv) {kind : Kind} {op : Nat}
    (hreturned : .returned kind op true ∈ s.hub.log) :
    ended kind op s.hub.log ≤ 1 ∧ (s.AtRest → ended kind op s.hub.log = 1) := by
  have hle := ended_le hinv kind op
  have hopened := opened_le s.hub.log kind op
  have hreturns := returns_le hinv op
  refine ⟨by omega, fun hrest => ?_⟩
  have hfree := hinv.hub.notEngaged (not_engaged hinv hrest kind)
  have heq := hinv.hub.balanced.closed_eq hfree op
  rw [List.append_nil] at heq
  have hpos : 0 < (s.hub.log.filterMap Event.mark).count (.opened kind op) :=
    List.count_pos_iff.mpr (List.mem_filterMap.mpr ⟨_, hreturned, rfl⟩)
  unfold ended
  omega

theorem never (hinv : s.Inv) {kind : Kind} {op : Nat}
    (hreturned : .returned kind op false ∈ s.hub.log) (kind' : Kind) :
    ended kind' op s.hub.log = 0 := by
  have hle := ended_le hinv kind' op
  have hopened := opened_le s.hub.log kind' op
  have hreturns := returns_le hinv op
  have hpos : 0 < s.hub.log.countP (isRefusal op) :=
    List.countP_pos_iff.mpr ⟨_, hreturned, decide_eq_true rfl⟩
  omega

/-! ### Refused calls -/

theorem samePending_send (h : Hub) {cro : Cro} (hs : h.sends cfg env cro = false)
    (callback : Option CommandCallback) :
    h.SamePending (h.send cfg env cro callback).1 := by
  obtain ⟨ctr, hsend⟩ := Hub.send_of_not_sends hs callback
  rw [hsend]
  exact ⟨rfl, rfl, rfl, rfl, rfl, fun _ => rfl⟩

theorem samePending_refl (h : Hub) : h.SamePending h := ⟨rfl, rfl, rfl, rfl, rfl, fun _ => rfl⟩

/-- A call that is refused leaves every pending operation as it was. -/
theorem refused {c : Call} (hopens : s.hub.Opens cfg env c)
    (hresult : (s.hub.perform cfg env s.ops c).2.1 = false) :
    s.hub.SamePending (s.hub.perform cfg env s.ops c).1 := by
  cases c with
  | command c =>
    unfold Hub.perform at hresult ⊢
    dsimp only at hresult ⊢
    cases hcro : c.cro? cfg with
    | none => exact samePending_refl s.hub
    | some cro =>
      rw [hcro] at hresult
      exact samePending_send s.hub ((Hub.send_snd _ _ none).symm.trans hresult) none
  | setEnabled enabled => cases hresult
  | readMemory ext address len =>
    have hresult' : (s.hub.readMemory cfg env ext address len s.ops).2 = false := hresult
    show s.hub.SamePending (s.hub.readMemory cfg env ext address len s.ops).1
    unfold Hub.readMemory at hresult' ⊢
    by_cases hguard : len = 0 ∨ s.hub.inFlight = true ∨ s.hub.readRemaining ≠ 0
    · rw [if_pos hguard]
      exact samePending_refl s.hub
    · rw [if_neg hguard] at hresult'
      obtain ⟨hlen, hflight, hfree⟩ : len ≠ 0 ∧ s.hub.inFlight = false ∧
          s.hub.readRemaining = 0 := by
        simpa using hguard
      rw [Hub.send_snd] at hresult'
      exact absurd (hopens hlen hflight hfree) (Bool.eq_false_iff.mp hresult')
  | writeMemory ext address data =>
    have hresult' : (s.hub.writeMemory cfg env ext address data s.ops).2 = false := hresult
    show s.hub.SamePending (s.hub.writeMemory cfg env ext address data s.ops).1
    unfold Hub.writeMemory at hresult' ⊢
    by_cases hguard : data = [] ∨ s.hub.inFlight = true ∨
        Hub.writeAllowed cfg Command.dnload = false
    · rw [if_pos hguard]
      exact samePending_refl s.hub
    · rw [if_neg hguard] at hresult'
      obtain ⟨hdata, hflight, hallowed⟩ : data ≠ [] ∧ s.hub.inFlight = false ∧
          Hub.writeAllowed cfg Command.dnload = true := by
        simpa using hguard
      rw [Hub.send_snd] at hresult'
      exact absurd (hopens hdata hflight hallowed).2 (Bool.eq_false_iff.mp hresult')
  | connectAnd =>
    have hresult' : (s.hub.connectAnd cfg env s.ops).2.1 = false := hresult
    unfold Hub.connectAnd at hresult'
    by_cases hconnected : s.hub.connected = true
    · rw [if_pos hconnected] at hresult'
      cases hresult'
    · rw [if_neg hconnected] at hresult'
      have hsent := (Hub.send_snd _ _ _).symm.trans hresult'
      exact absurd (hopens ((Bool.not_eq_true _).mp hconnected)).2 (Bool.eq_false_iff.mp hsent)
  | daqRead req =>
    have hresult' : (s.hub.daqRead cfg env req s.ops).2 = false := hresult
    show s.hub.SamePending (s.hub.daqRead cfg env req s.ops).1
    unfold Hub.daqRead at hresult' ⊢
    by_cases hguard : Hub.accepts cfg req = false ∨ s.hub.inFlight = true ∨
        s.hub.daqReadActive = true
    · rw [if_pos hguard]
      exact samePending_refl s.hub
    · have hactive : s.hub.daqReadActive = false :=
        (Bool.not_eq_true _).mp (not_or.mp (not_or.mp hguard).2).2
      rw [if_neg hguard] at hresult' ⊢
      dsimp only at hresult' ⊢
      cases hs : (s.hub.beginDaqRead cfg req s.ops).sends cfg env
          (getDaqSize 0 cfg.byteOrder req.list req.dtoId) with
      | true =>
        rw [(Hub.send_of_sends hs _).2] at hresult'
        cases hresult'
      | false =>
        obtain ⟨ctr, hsend⟩ := Hub.send_of_not_sends hs (some .daqSize)
        rw [hsend]
        refine ⟨rfl, rfl, rfl, rfl, hactive.symm, fun hnot => ?_⟩
        rw [hactive] at hnot
        cases hnot

theorem settled (hinv : s.Inv) : s.Settled cfg fun s x => s.Kept cfg x.1 x.2 where
  idle := nothingPending hinv
  next := fun hrest _ _ _ hbegins hs => accepted hinv hrest hbegins hs
  once := fun _ _ hreturned => once hinv hreturned
  never := fun _ _ hreturned kind' => never hinv hreturned kind'
  dropped := hinv.hub.dropped
  refused := fun _ _ hkept hresult => refused hkept hresult

/-- One step, in its world. -/
def stepIn (cfg : Config) (s : State) (x : Env × Action) : State := s.step cfg x.1 x.2

/-- Where every step keeps to the condition, every state reached is settled. -/
theorem settled_of_kept (cfg : Config) (run : List (Env × Action))
    (h : Admitted (fun s x => s.Allowed x.2 ∧ s.Kept cfg x.1 x.2) (stepIn cfg) {} run) :
    (exec (stepIn cfg) {} run).Settled cfg fun s x => s.Kept cfg x.1 x.2 :=
  settled (h.invariant State.Inv (fun _ _ hx hinv => inv_step hinv hx.2) inv_start)

/-- A port that takes every frame. -/
def takesAll : Env where
  inject := fun _ => true

/-- A read of four bytes, answered. -/
def readRun : List (Env × Action) :=
  [(takesAll, .call (.readMemory 0 0x1000 4)), (takesAll, .frame false false [0xFF, 0, 0]),
    (takesAll, .ret), (takesAll, .frame false false [0xFF, 0, 1, 9, 8, 7, 6]), (takesAll, .ret),
    (takesAll, .ret)]

theorem settled_of_kept_sample :
    (exec (stepIn {}) {} readRun).Settled {} fun s x => s.Kept {} x.1 x.2 := by
  refine settled_of_kept {} readRun ?_
  refine ⟨⟨trivial, fun _ _ _ => rfl⟩, ⟨rfl, trivial⟩, ⟨nofun, ?_⟩, ⟨rfl, trivial⟩, ⟨nofun, ?_⟩,
    ⟨nofun, ?_⟩, trivial⟩
  · rintro region ⟨⟩ cb ok data ⟨⟩
    rfl
  · rintro region ⟨⟩ cb ok data ⟨⟩
    exact ⟨by decide, fun hmore => absurd rfl hmore⟩
  · rintro region ⟨⟩ cb ok data ⟨⟩

/-- A port that takes no frame: the refused read stays pending, and no later read is accepted. -/
def refusedRun : List (Env × Action) :=
  [({ inject := fun _ => false }, .call (.readMemory 0 0x1000 4))]

theorem not_settled_sample :
    ¬ ∀ (cfg : Config) (run : List (Env × Action)),
      Admitted (fun s x => s.Allowed x.2) (stepIn cfg) {} run →
        (exec (stepIn cfg) {} run).Settled cfg fun s x => s.Allowed x.2 := by
  intro h
  have hsettled := h {} refusedRun ⟨trivial, trivial⟩
  have hpending := (hsettled.idle ⟨rfl, rfl, rfl⟩).1
  cases hpending

end State

end EspCars.Ccp
