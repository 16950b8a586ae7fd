import EspCars.Ccp.Hub
import EspCars.Lib.Run
import EspCars.Lib.Slots

/-!
# Operations under way

Which operations the hub still owes an end. The four pending states of the hub are slots; what
continues an operation is the callback of the command in flight, or of a command whose answer is
being handled (`Frame.callback`). `Inv` is kept by every function of the hub, as long as no
operation is started over another and no command of a sequence is refused: `Hub.Opens` and
`Hub.CarriesOn` say that of a call and of a continuation.
-/

namespace EspCars.Ccp

open EspCars.Lib

/-! ## What is pending -/

/-- The operation a continuation belongs to. -/
def CommandCallback.kind : CommandCallback → Kind
  | .connectAnd => .connect
  | .readMta => .read
  | .readUpload => .read
  | .write => .write
  | _ => .daq

/-- The continuation a frame will call. -/
def Frame.callback : Frame → Option CommandCallback
  | .afterResponse _ callback _ => callback
  | .afterConnected callback _ => callback
  | .afterError callback => callback
  | _ => none

/-- The opening or the closing of an operation. -/
def Event.mark : Event → Option (Mark Kind)
  | .returned kind op true => some (.opened kind op)
  | .readDone op _ => some (.closed .read op)
  | .readDropped op => some (.closed .read op)
  | .writeDone op _ => some (.closed .write op)
  | .connectDone op _ => some (.closed .connect op)
  | .daqDone op _ => some (.closed .daq op)
  | _ => none

/-- The return of a call with the number `op`. -/
def Event.isReturn (op : Nat) : Event → Bool
  | .returned _ op' _ => op' = op
  | _ => false

/-- An error was reported after the read `op` had been accepted. -/
def ErrorSince (op : Nat) (log : List Event) : Prop :=
  ∃ before command code after, log = before ++ .error command code :: after ∧
    .returned .read op true ∈ before

/-- Every read that was dropped was dropped after an error had been reported. -/
def DropsReported (log : List Event) : Prop :=
  ∀ op before after, log = before ++ .readDropped op :: after → ErrorSince op before

namespace Hub

/-- An operation of the kind is pending. -/
def engaged (h : Hub) : Kind → Bool
  | .read => decide (h.readRemaining ≠ 0)
  | .write => decide (h.writeData ≠ [])
  | .connect => h.connectCallback.isSome
  | .daq => h.daqReadActive

/-- The operations under way; a DAQ read that collects waits for frames, not for an answer. -/
def slots (h : Hub) : Slots Kind where
  holder
    | .read => h.readCallback
    | .write => h.writeCallback
    | .connect => h.connectCallback
    | .daq => h.daqReadDone
  waits k := h.engaged k && !(decide (k = .daq) && h.daqCollecting)

end Hub

/-- The account of the hub. `held` are the continuations outside the hub, `owing` are openings and
closings still to be logged. -/
structure Inv (h : Hub) (held : List CommandCallback) (owing : List (Mark Kind)) : Prop where
  idle : h.inFlight = false → h.commandCallback = none
  balanced : h.slots.Balanced ((h.commandCallback.toList ++ held).map CommandCallback.kind)
    (h.log.filterMap Event.mark ++ owing)
  engaged : ∀ k, (h.slots.holder k).isSome = h.engaged k
  collecting : h.daqCollecting = true → h.daqReadActive = true
  dropped : DropsReported h.log

/-- The read under way has had an error reported. -/
def Hub.ReadErrored (h : Hub) : Prop := ∃ op, h.readCallback = some op ∧ ErrorSince op h.log

/-- A frame whose continuation fails a read. -/
def Frame.FailsRead (f : Frame) : Prop :=
  ∃ cb, f = .afterError (some cb) ∧ cb.kind = .read

/-- The account of a hub its user may have interrupted. -/
structure Control.Inv (c : Control) (held : List CommandCallback) (owing : List (Mark Kind)) :
    Prop where
  account : Ccp.Inv c.1 ((c.2.bind Frame.callback).toList ++ held) owing
  errored : ∀ f, c.2 = some f → f.FailsRead → c.1.ReadErrored

/-! ## Dropped reads -/

theorem ErrorSince.append {op : Nat} {log : List Event} (h : ErrorSince op log)
    (events : List Event) : ErrorSince op (log ++ events) := by
  obtain ⟨before, command, code, after, rfl, hmem⟩ := h
  exact ⟨before, command, code, after ++ events, by rw [List.append_assoc, List.cons_append], hmem⟩

theorem dropsReported_nil : DropsReported [] := by
  intro op before after h
  cases before <;> cases h

theorem DropsReported.concat {log : List Event} (h : DropsReported log) {e : Event}
    (he : ∀ op, e = .readDropped op → ErrorSince op log) : DropsReported (log ++ [e]) := by
  intro op before after heq
  rcases List.eq_nil_or_concat after with rfl | ⟨rest, last, rfl⟩
  · obtain ⟨rfl, hlast⟩ := List.append_inj' heq rfl
    exact he op (List.cons.inj hlast).1
  · rw [List.concat_eq_append, ← List.cons_append, ← List.append_assoc] at heq
    obtain ⟨hlog, -⟩ := List.append_inj' heq rfl
    exact h op before rest hlog

/-! ## The primitive moves -/

namespace Inv

variable {h : Hub} {held : List CommandCallback} {owing : List (Mark Kind)}

/-- An event that neither opens nor closes an operation. -/
theorem emit (hinv : Inv h held owing) {e : Event} (he : e.mark = none) :
    Inv (h.emit e) held owing where
  idle := hinv.idle
  balanced := by
    have hlog : (h.emit e).log.filterMap Event.mark = h.log.filterMap Event.mark := by
      unfold Hub.emit
      rw [List.filterMap_append, List.filterMap_cons_none he, List.filterMap_nil, List.append_nil]
    rw [hlog]
    exact hinv.balanced
  engaged := hinv.engaged
  collecting := hinv.collecting
  dropped := hinv.dropped.concat fun op heq => by
    rw [heq] at he
    cases he

/-- An event that was owing is logged. -/
theorem settle {m : Mark Kind} (hinv : Inv h held (m :: owing)) {e : Event}
    (he : e.mark = some m) (hdrop : ∀ op, e = .readDropped op → ErrorSince op h.log) :
    Inv (h.emit e) held owing where
  idle := hinv.idle
  balanced := by
    have hlog : (h.emit e).log.filterMap Event.mark ++ owing =
        h.log.filterMap Event.mark ++ m :: owing := by
      unfold Hub.emit
      rw [List.filterMap_append, List.filterMap_cons_some he, List.filterMap_nil,
        List.append_assoc, List.singleton_append]
    rw [hlog]
    exact hinv.balanced
  engaged := hinv.engaged
  collecting := hinv.collecting
  dropped := hinv.dropped.concat hdrop

/-- The callback of the command in flight comes to hand. -/
theorem land (hinv : Inv h held owing) :
    Inv { h with commandCallback := none, inFlight := false }
      (h.commandCallback.toList ++ held) owing where
  idle := fun _ => rfl
  balanced := hinv.balanced
  engaged := hinv.engaged
  collecting := hinv.collecting
  dropped := hinv.dropped

/-- A continuation in hand is exchanged for another of its operation. -/
theorem swap {cb cb' : CommandCallback} (hinv : Inv h (cb :: held) owing)
    (hkind : cb'.kind = cb.kind) : Inv h (cb' :: held) owing where
  idle := hinv.idle
  balanced := by
    have htokens : (h.commandCallback.toList ++ cb' :: held).map CommandCallback.kind =
        (h.commandCallback.toList ++ cb :: held).map CommandCallback.kind := by
      rw [List.map_append, List.map_cons, hkind, ← List.map_cons, ← List.map_append]
    rw [htokens]
    exact hinv.balanced
  engaged := hinv.engaged
  collecting := hinv.collecting
  dropped := hinv.dropped

end Inv

/-! ## Commands -/

namespace Hub

variable (cfg : Config) (env : Env)

/-- `send_` will take the command. -/
def sends (h : Hub) (cro : Cro) : Bool :=
  h.enabled && writeAllowed cfg cro.code && !h.inFlight && env.inject (cro.withCtr h.ctr)

variable {cfg env}

theorem send_snd (h : Hub) (cro : Cro) (callback : Option CommandCallback) :
    (h.send cfg env cro callback).2 = h.sends cfg env cro := by
  unfold send sends
  cases henabled : h.enabled
  · rfl
  cases hallowed : writeAllowed cfg cro.code
  · rfl
  cases hflight : h.inFlight
  · cases hinject : env.inject (cro.withCtr h.ctr)
    · simp [hinject]
    · simp [hinject]
  · rfl

theorem send_of_sends {h : Hub} {cro : Cro} (hs : h.sends cfg env cro = true)
    (callback : Option CommandCallback) :
    h.inFlight = false ∧ h.send cfg env cro callback =
      ({ h with
        ctr := h.ctr + 1
        log := h.log ++ [.sent cfg.commandId (cro.withCtr h.ctr)]
        inFlight := true
        inFlightCtr := h.ctr
        inFlightCommand := (cro.withCtr h.ctr).code
        deadline := env.now + cfg.responseTimeout
        commandCallback := callback }, true) := by
  unfold sends at hs
  simp only [Bool.and_eq_true, Bool.not_eq_true'] at hs
  obtain ⟨⟨⟨henabled, hallowed⟩, hflight⟩, hinject⟩ := hs
  refine ⟨hflight, ?_⟩
  unfold send
  simp only [henabled, hallowed, hflight, hinject, emit]
  rfl

/-- A refused command may have used up a counter, and did nothing else. -/
theorem send_of_not_sends {h : Hub} {cro : Cro} (hs : h.sends cfg env cro = false)
    (callback : Option CommandCallback) :
    ∃ ctr, h.send cfg env cro callback = ({ h with ctr := ctr }, false) := by
  have hsnd := @send_snd cfg env h cro callback
  rw [hs] at hsnd
  unfold send at hsnd ⊢
  split_ifs at hsnd ⊢
  · exact ⟨h.ctr, rfl⟩
  · exact ⟨h.ctr, rfl⟩
  · exact ⟨h.ctr, rfl⟩
  dsimp only at hsnd ⊢
  split_ifs at hsnd ⊢
  exact ⟨h.ctr + 1, rfl⟩

end Hub

namespace Inv

variable {cfg : Config} {env : Env} {h : Hub} {held : List CommandCallback}
  {owing : List (Mark Kind)}

/-- A taken command carries its continuation. -/
theorem sent (callback : Option CommandCallback) (hinv : Inv h (callback.toList ++ held) owing)
    {cro : Cro} (hs : h.sends cfg env cro = true) :
    Inv (h.send cfg env cro callback).1 held owing := by
  obtain ⟨hflight, hsend⟩ := Hub.send_of_sends hs callback
  have hempty := hinv.idle hflight
  have hbalanced := hinv.balanced
  rw [hempty, Option.toList_none, List.nil_append] at hbalanced
  rw [hsend]
  have hlog : Inv (h.emit (.sent cfg.commandId (cro.withCtr h.ctr))) (callback.toList ++ held)
      owing := hinv.emit rfl
  have hbalanced' := hlog.balanced
  rw [show (h.emit (.sent cfg.commandId (cro.withCtr h.ctr))).commandCallback = none from hempty,
    Option.toList_none, List.nil_append] at hbalanced'
  exact ⟨nofun, hbalanced', hlog.engaged, hlog.collecting, hlog.dropped⟩

/-- A refused command changes nothing that is pending. -/
theorem refused (hinv : Inv h held owing) {cro : Cro} (hs : h.sends cfg env cro = false)
    (callback : Option CommandCallback) : Inv (h.send cfg env cro callback).1 held owing := by
  obtain ⟨ctr, hsend⟩ := Hub.send_of_not_sends hs callback
  rw [hsend]
  exact { hinv with }

variable {cb : CommandCallback}

/-- The slots with a continuation in hand. -/
theorem hand (hinv : Inv h (cb :: held) owing) : h.slots.Balanced
      (cb.kind :: (h.commandCallback.toList ++ held).map CommandCallback.kind)
      (h.log.filterMap Event.mark ++ owing) := by
  refine hinv.balanced.perm ?_ (List.Perm.refl _)
  rw [← List.map_cons]
  exact List.Perm.map _ List.perm_middle

theorem holder_of_hand (hinv : Inv h (cb :: held) owing) : ∃ op, h.slots.holder cb.kind = some op :=
  hinv.hand.holder_of_mem List.mem_cons_self

theorem engaged_of_hand (hinv : Inv h (cb :: held) owing) : h.engaged cb.kind = true := by
  obtain ⟨op, hop⟩ := hinv.holder_of_hand
  rw [← hinv.engaged, hop]
  rfl

/-- An operation ends with its continuation in hand. -/
theorem close (hinv : Inv h (cb :: held) owing) (h' : Hub) (e : Event) {op : Nat}
    (hop : h.slots.holder cb.kind = some op) (hslots : h'.slots = h.slots.set cb.kind none false)
    (hcallback : h'.commandCallback = h.commandCallback) (hflight : h'.inFlight = h.inFlight)
    (hlog : h'.log = h.log) (hengaged : ∀ k, (h'.slots.holder k).isSome = h'.engaged k)
    (hcollecting : h'.daqCollecting = true → h'.daqReadActive = true)
    (he : e.mark = some (.closed cb.kind op))
    (hdrop : ∀ op, e = .readDropped op → ErrorSince op h.log) : Inv (h'.emit e) held owing := by
  have hclosed : Inv h' held (.closed cb.kind op :: owing) := by
    refine ⟨?_, ?_, hengaged, hcollecting, ?_⟩
    · rw [hflight, hcallback]
      exact hinv.idle
    · rw [hslots, hcallback, hlog]
      refine (hinv.hand.closing hop).perm (List.Perm.refl _) ?_
      rw [List.append_assoc]
      exact List.Perm.append_left _ (List.perm_append_singleton _ _)
    · rw [hlog]
      exact hinv.dropped
  refine hclosed.settle he ?_
  rw [hlog]
  exact hdrop

/-- An operation begins, and its first continuation comes to hand. -/
theorem begin (hinv : Inv h held []) (h' : Hub) {op : Nat} (hfree : h.slots.holder cb.kind = none)
    (hslots : h'.slots = h.slots.set cb.kind (some op) true)
    (hcallback : h'.commandCallback = h.commandCallback) (hflight : h'.inFlight = h.inFlight)
    (hlog : h'.log = h.log) (hengaged : ∀ k, (h'.slots.holder k).isSome = h'.engaged k)
    (hcollecting : h'.daqCollecting = true → h'.daqReadActive = true) :
    Inv h' (cb :: held) [.opened cb.kind op] := by
  refine ⟨?_, ?_, hengaged, hcollecting, ?_⟩
  · rw [hflight, hcallback]
    exact hinv.idle
  · have hbalanced := hinv.balanced
    rw [List.append_nil] at hbalanced
    rw [hslots, hcallback, hlog]
    refine (hbalanced.opening hfree op).perm ?_ (List.Perm.refl _)
    rw [← List.map_cons]
    exact List.Perm.map _ List.perm_middle.symm
  · rw [hlog]
    exact hinv.dropped

end Inv

/-! ## The memory sequences -/

namespace Inv

variable {cfg : Config} {env : Env} {h : Hub} {held : List CommandCallback}
  {owing : List (Mark Kind)}

/-- A function that left the user's callbacks alone, or entered one with nothing to continue. -/
theorem control (hinv : Inv h held owing) {frame : Option Frame}
    (hframe : frame.bind Frame.callback = none) : Control.Inv (h, frame) held owing := by
  constructor
  · rw [hframe]
    exact hinv
  · rintro f heq ⟨cb, rfl, -⟩
    rw [show frame = _ from heq] at hframe
    cases hframe

/-- A failing read ends itself, if no write is pending. -/
theorem failSequence_read {cb : CommandCallback} (hinv : Inv h (cb :: held) owing)
    (hkind : cb.kind = .read) (hwrite : h.writeData = []) (herror : h.ReadErrored) :
    Control.Inv h.failSequence held owing := by
  obtain ⟨op, hop, hsince⟩ := herror
  have hremaining : h.readRemaining ≠ 0 := by
    have hengaged := hinv.engaged_of_hand
    rw [hkind] at hengaged
    exact of_decide_eq_true hengaged
  have hfail : h.failSequence = ({ h with
      readRemaining := 0, readData := [], readCallback := none }.emit (.readDropped op), none) := by
    unfold Hub.failSequence
    rw [if_pos hremaining, hop]
    exact if_neg (not_not.mpr hwrite)
  rw [hfail]
  have hmark : (Event.readDropped op).mark = some (.closed cb.kind op) := by
    rw [hkind]
    rfl
  refine (hinv.close { h with readRemaining := 0, readData := [], readCallback := none }
    (.readDropped op) (by rw [hkind]; exact hop) ?_ rfl rfl rfl ?_ hinv.collecting hmark
    ?_).control rfl
  · rw [hkind]
    exact Slots.ext (funext fun k => by cases k <;> rfl) (funext fun k => by cases k <;> rfl)
  · intro k
    cases k with
    | read => rfl
    | write => exact hinv.engaged .write
    | connect => exact hinv.engaged .connect
    | daq => exact hinv.engaged .daq
  · rintro op' heq
    cases heq
    exact hsince

/-- The write slot is left. -/
theorem closeWrite {cb : CommandCallback} (hinv : Inv h (cb :: held) owing)
    (hkind : cb.kind = .write) {op : Nat} (hop : h.writeCallback = some op) (offset : Nat)
    (ok : Bool) : Inv ({ h with
      writeData := [], writeOffset := offset, writeCallback := none }.emit (.writeDone op ok))
      held owing := by
  have hmark : (Event.writeDone op ok).mark = some (.closed cb.kind op) := by
    rw [hkind]
    rfl
  refine hinv.close { h with writeData := [], writeOffset := offset, writeCallback := none }
    (.writeDone op ok) (by rw [hkind]; exact hop) ?_ rfl rfl rfl ?_ hinv.collecting hmark nofun
  · rw [hkind]
    exact Slots.ext (funext fun k => by cases k <;> rfl) (funext fun k => by cases k <;> rfl)
  · intro k
    cases k with
    | read => exact hinv.engaged .read
    | write => rfl
    | connect => exact hinv.engaged .connect
    | daq => exact hinv.engaged .daq

/-- A failing write ends itself, if no read is pending. -/
theorem failSequence_write {cb : CommandCallback} (hinv : Inv h (cb :: held) owing)
    (hkind : cb.kind = .write) (hread : h.readRemaining = 0) :
    Control.Inv h.failSequence held owing := by
  obtain ⟨op, hop⟩ := hinv.holder_of_hand
  rw [hkind] at hop
  have hdata : h.writeData ≠ [] := by
    have hengaged := hinv.engaged_of_hand
    rw [hkind] at hengaged
    exact of_decide_eq_true hengaged
  have hfail : h.failSequence = ({ h with
      writeData := [], writeOffset := 0, writeCallback := none }.emit (.writeDone op false),
      some .done) := by
    unfold Hub.failSequence
    rw [if_neg (not_not.mpr hread)]
    dsimp only
    rw [if_pos hdata, show h.writeCallback = some op from hop]
  rw [hfail]
  exact (hinv.closeWrite hkind hop 0 false).control rfl

end Inv

/-! ## What a continuation needs -/

namespace Hub

variable (cfg : Config) (env : Env)

/-- The continuation `cb` can carry its operation on: the answer is long enough, the next command
is taken, and where the operation fails no other sequence is pending. -/
def CarriesOn (h : Hub) (cb : CommandCallback) (ok : Bool) (data : List UInt8) : Prop :=
  match cb, ok with
  | .readMta, true =>
    h.sends cfg env (upload 0 (UInt8.ofNat (readChunk h.readRemaining))) = true
  | .readUpload, true =>
    readChunk h.readRemaining ≤ data.length ∧
      (h.readRemaining ≠ readChunk h.readRemaining →
        h.sends cfg env
          (upload 0 (UInt8.ofNat (readChunk (h.readRemaining - readChunk h.readRemaining)))) = true)
  | .write, true =>
    h.writeOffset ≠ h.writeData.length →
      h.sends cfg env (writeChunk (h.writeData.drop h.writeOffset)) = true
  | .readMta, false => h.writeData = []
  | .readUpload, false => h.writeData = []
  | .write, false => h.readRemaining = 0
  | _, _ => True

/-- A call that starts an operation starts it over no other, and its first command is taken. -/
def Opens (h : Hub) : Call → Prop
  | .readMemory ext address len =>
    len ≠ 0 → h.inFlight = false → h.readRemaining = 0 →
      h.sends cfg env (setMta 0 cfg.byteOrder 0 ext address) = true
  | .writeMemory ext address data =>
    data ≠ [] → h.inFlight = false → writeAllowed cfg Command.dnload = true →
      h.writeData = [] ∧ h.sends cfg env (setMta 0 cfg.byteOrder 0 ext address) = true
  | .connectAnd =>
    h.connected = false → h.connectCallback = none ∧
      h.sends cfg env (Ccp.connect 0 cfg.byteOrder cfg.stationAddress) = true
  | _ => True

end Hub

namespace Hub

theorem completeDaqRead_of_active (cfg : Config) (env : Env) {h : Hub}
    (hactive : h.daqReadActive = true) (failed : Option DaqStep) :
    h.completeDaqRead cfg env failed = { h with
      daqCollecting := false
      daqReadResult := { h with daqCollecting := false }.verdict failed }.teardownDaqRead
        cfg env := by
  unfold completeDaqRead
  rw [if_neg (by rw [hactive]; decide)]

end Hub

/-! ## Continuations -/

namespace Inv

variable {cfg : Config} {env : Env} {h : Hub} {held : List CommandCallback}
  {owing : List (Mark Kind)}

variable {cb : CommandCallback} {ok : Bool} {data : List UInt8}

theorem readNext (hinv : Inv h (cb :: held) owing) (hkind : cb.kind = .read)
    (hs : h.sends cfg env (upload 0 (UInt8.ofNat (readChunk h.readRemaining))) = true) :
    Control.Inv (h.readNext cfg env) held owing :=
  ((hinv.swap (show CommandCallback.readUpload.kind = cb.kind from hkind.symm)).sent
    (some .readUpload) hs).control rfl

theorem continueRead (hinv : Inv h (.readUpload :: held) owing)
    (hgo : h.CarriesOn cfg env .readUpload ok data) (herror : ok = false → h.ReadErrored) :
    Control.Inv (h.continueRead cfg env ok data) held owing := by
  cases ok with
  | false => exact hinv.failSequence_read rfl hgo (herror rfl)
  | true =>
    obtain ⟨hlong, hnext⟩ := hgo
    have hpos : h.readRemaining ≠ 0 := of_decide_eq_true hinv.engaged_of_hand
    unfold Hub.continueRead
    rw [if_neg (by simpa using hlong)]
    dsimp only
    by_cases hlast : h.readRemaining - readChunk h.readRemaining = 0
    · obtain ⟨op, hop⟩ := hinv.holder_of_hand
      rw [if_pos hlast, show h.readCallback = some op from hop, hlast]
      refine (hinv.close { h with
        readData := h.readData ++ data.take (readChunk h.readRemaining)
        readRemaining := 0
        readCallback := none } (.readDone op _) hop ?_ rfl rfl rfl ?_ hinv.collecting rfl
        nofun).control rfl
      · exact Slots.ext (funext fun k => by cases k <;> rfl) (funext fun k => by cases k <;> rfl)
      · intro k
        cases k with
        | read => rfl
        | write => exact hinv.engaged .write
        | connect => exact hinv.engaged .connect
        | daq => exact hinv.engaged .daq
    · rw [if_neg hlast]
      have hslots : { h with
          readData := h.readData ++ data.take (readChunk h.readRemaining)
          readRemaining := h.readRemaining - readChunk h.readRemaining }.slots = h.slots := by
        refine Slots.ext (funext fun k => by cases k <;> rfl) (funext fun k => ?_)
        cases k with
        | read =>
          exact congrArg (fun b => b && _) (decide_eq_decide.mpr (iff_of_true hlast hpos))
        | write => rfl
        | connect => rfl
        | daq => rfl
      have hmid : Inv { h with
          readData := h.readData ++ data.take (readChunk h.readRemaining)
          readRemaining := h.readRemaining - readChunk h.readRemaining }
          (.readUpload :: held) owing := by
        refine ⟨hinv.idle, ?_, ?_, hinv.collecting, hinv.dropped⟩
        · rw [hslots]
          exact hinv.balanced
        · intro k
          rw [hslots]
          cases k with
          | read =>
            rw [hinv.engaged .read]
            exact decide_eq_decide.mpr (iff_of_true hpos hlast)
          | write => exact hinv.engaged .write
          | connect => exact hinv.engaged .connect
          | daq => exact hinv.engaged .daq
      exact hmid.readNext rfl (hnext fun heq => hlast (by omega))

theorem readMta (hinv : Inv h (.readMta :: held) owing)
    (hgo : h.CarriesOn cfg env .readMta ok data) (herror : ok = false → h.ReadErrored) :
    Control.Inv (h.readMta cfg env ok) held owing := by
  unfold Hub.readMta
  cases ok with
  | false => exact hinv.failSequence_read rfl hgo (herror rfl)
  | true => exact hinv.readNext rfl hgo

theorem continueWrite (hinv : Inv h (.write :: held) owing)
    (hgo : h.CarriesOn cfg env .write ok data) :
    Control.Inv (h.continueWrite cfg env ok) held owing := by
  cases ok with
  | false => exact hinv.failSequence_write rfl hgo
  | true =>
    unfold Hub.continueWrite
    rw [if_neg (by decide)]
    by_cases hlast : h.writeOffset = h.writeData.length
    · obtain ⟨op, hop⟩ := hinv.holder_of_hand
      rw [if_pos hlast, show h.writeCallback = some op from hop]
      exact (hinv.closeWrite rfl hop h.writeOffset true).control rfl
    · rw [if_neg hlast]
      have hmid : ∀ offset, Inv { h with writeOffset := offset } (.write :: held) owing :=
        fun offset => { hinv with }
      exact ((hmid (h.writeOffset + min (h.writeData.drop h.writeOffset).length 6)).sent
        (some .write) (hgo hlast)).control rfl

theorem connectDone (hinv : Inv h (.connectAnd :: held) owing) (ok : Bool) :
    Control.Inv (h.connectDone ok) held owing := by
  obtain ⟨op, hop⟩ := hinv.holder_of_hand
  unfold Hub.connectDone
  rw [show h.connectCallback = some op from hop]
  refine (hinv.close { h with connectCallback := none } (.connectDone op ok) hop ?_ rfl rfl rfl ?_
    hinv.collecting rfl nofun).control rfl
  · exact Slots.ext (funext fun k => by cases k <;> rfl) (funext fun k => by cases k <;> rfl)
  · intro k
    cases k with
    | read => exact hinv.engaged .read
    | write => exact hinv.engaged .write
    | connect => rfl
    | daq => exact hinv.engaged .daq

/-! ### The DAQ read -/

theorem fireDaqRead (hinv : Inv h (cb :: held) owing)
    (hkind : cb.kind = .daq) : Control.Inv h.fireDaqRead held owing := by
  obtain ⟨op, hop⟩ := hinv.holder_of_hand
  have hactive := hinv.engaged_of_hand
  rw [hkind] at hop hactive
  have hmark : (Event.daqDone op h.daqReadResult).mark = some (.closed cb.kind op) := by
    rw [hkind]
    rfl
  unfold Hub.fireDaqRead
  rw [if_neg (by rw [show h.daqReadActive = true from hactive]; decide),
    show h.daqReadDone = some op from hop]
  refine (hinv.close { h with
    daqReadResult := {}
    daqReadDone := none
    daqReadActive := false
    daqCollecting := false
    daqReadReq := {}
    daqLayout := []
    daqValuesValid := [] } (.daqDone op h.daqReadResult) (by rw [hkind]; exact hop) ?_ rfl rfl rfl
    ?_ nofun hmark nofun).control rfl
  · rw [hkind]
    exact Slots.ext (funext fun k => by cases k <;> rfl) (funext fun k => by cases k <;> rfl)
  · intro k
    cases k with
    | read => exact hinv.engaged .read
    | write => exact hinv.engaged .write
    | connect => exact hinv.engaged .connect
    | daq => rfl

/-- A command of the DAQ read is taken, or `next` goes on with the continuation still in hand. -/
theorem sendOr {cb' : CommandCallback} (hinv : Inv h (cb :: held) owing)
    (hkind : cb'.kind = cb.kind) (cro : Cro) {next : Hub → Control}
    (hnext : ∀ h' : Hub, Inv h' (cb :: held) owing → Control.Inv (next h') held owing) :
    Control.Inv (match h.send cfg env cro (some cb') with
      | (h', true) => (h', none)
      | (h', false) => next h') held owing := by
  cases hs : h.sends cfg env cro with
  | true =>
    have hsent := (hinv.swap hkind).sent (some cb') hs
    have hsnd := @Hub.send_snd cfg env h cro (some cb')
    rw [hs] at hsnd
    cases hsend : h.send cfg env cro (some cb') with
    | mk h' ok =>
      rw [hsend] at hsent hsnd
      cases hsnd
      exact hsent.control rfl
  | false =>
    have hrefused := hinv.refused hs (some cb')
    have hsnd := @Hub.send_snd cfg env h cro (some cb')
    rw [hs] at hsnd
    cases hsend : h.send cfg env cro (some cb') with
    | mk h' ok =>
      rw [hsend] at hrefused hsnd
      cases hsnd
      exact hnext h' hrefused

theorem teardownStatus (hinv : Inv h (cb :: held) owing)
    (hkind : cb.kind = .daq) : Control.Inv (h.teardownStatus cfg env) held owing :=
  hinv.sendOr (show CommandCallback.teardownStatus.kind = cb.kind from hkind.symm) _
    fun _ hinv' => hinv'.fireDaqRead hkind

theorem teardownDaqRead (hinv : Inv h (cb :: held) owing)
    (hkind : cb.kind = .daq) : Control.Inv (h.teardownDaqRead cfg env) held owing :=
  hinv.sendOr (show CommandCallback.teardownStop.kind = cb.kind from hkind.symm) _
    fun _ hinv' => hinv'.teardownStatus hkind

/-- What does not show in the account. -/
theorem congr {h' : Hub} (hinv : Inv h held owing) (hflight : h'.inFlight = h.inFlight)
    (hcallback : h'.commandCallback = h.commandCallback) (hslots : h'.slots = h.slots)
    (hengaged : h'.engaged = h.engaged) (hcollecting : h'.daqCollecting = h.daqCollecting)
    (hlog : h'.log = h.log) : Inv h' held owing where
  idle := by rw [hflight, hcallback]; exact hinv.idle
  balanced := by rw [hslots, hcallback, hlog]; exact hinv.balanced
  engaged := by rw [hslots, hengaged]; exact hinv.engaged
  collecting := by
    rw [hcollecting, show h'.daqReadActive = h.daqReadActive from congrFun hengaged .daq]
    exact hinv.collecting
  dropped := by rw [hlog]; exact hinv.dropped

theorem completeDaqRead (hinv : Inv h (cb :: held) owing)
    (hkind : cb.kind = .daq) (failed : Option DaqStep) :
    Control.Inv (h.completeDaqRead cfg env failed) held owing := by
  have hwaits := hinv.hand.waits_of_token
  rw [hkind] at hwaits
  have hand := Bool.and_eq_true_iff.mp hwaits
  have hcollecting : h.daqCollecting = false := by simpa using hand.2
  rw [Hub.completeDaqRead_of_active cfg env hand.1]
  refine teardownDaqRead (hinv.congr rfl rfl ?_ rfl hcollecting.symm rfl) hkind
  refine Slots.ext (funext fun k => by cases k <;> rfl) (funext fun k => ?_)
  cases k with
  | read => rfl
  | write => rfl
  | connect => rfl
  | daq => exact congrArg (fun b => h.daqReadActive && !(true && b)) hcollecting.symm

/-- The same for a DAQ read that collects: its continuation comes to hand. -/
theorem completeCollecting (hinv : Inv h held owing) (hcollecting : h.daqCollecting = true)
    (failed : Option DaqStep) : Control.Inv (h.completeDaqRead cfg env failed) held owing := by
  have hactive := hinv.collecting hcollecting
  have hwaits : h.slots.waits .daq = false := by
    show (h.daqReadActive && !(true && h.daqCollecting)) = false
    rw [hcollecting]
    exact Bool.and_false _
  have hheld : (h.slots.holder .daq).isSome = true := (hinv.engaged .daq).trans hactive
  have hslots : { h with daqCollecting := false }.slots =
      h.slots.set .daq (h.slots.holder .daq) true := by
    refine Slots.ext (funext fun k => by cases k <;> rfl) (funext fun k => ?_)
    cases k with
    | read => rfl
    | write => rfl
    | connect => rfl
    | daq => exact congrArg (fun b => b && !(true && false)) hactive
  have hmid : Inv { h with daqCollecting := false } (.teardownStop :: held) owing := by
    refine ⟨hinv.idle, ?_, hinv.engaged, nofun, hinv.dropped⟩
    rw [hslots]
    refine (hinv.balanced.takingUp hheld hwaits).perm ?_ (List.Perm.refl _)
    rw [show Kind.daq = CommandCallback.teardownStop.kind from rfl, ← List.map_cons]
    exact List.Perm.map _ List.perm_middle.symm
  rw [Hub.completeDaqRead_of_active cfg env hactive]
  exact teardownDaqRead (hmid.congr rfl rfl rfl rfl rfl rfl) rfl

theorem sendDaqStep {cb' : CommandCallback} (hinv : Inv h (cb :: held) owing)
    (hkind : cb.kind = .daq) (hkind' : cb'.kind = .daq) (cro : Cro) (step : DaqStep) :
    Control.Inv (h.sendDaqStep cfg env cro step cb') held owing :=
  hinv.sendOr (hkind'.trans hkind.symm) cro fun _ hinv' => hinv'.completeDaqRead hkind _

theorem continueDaqWrite (hinv : Inv h (cb :: held) owing) (hkind : cb.kind = .daq) (index : Nat) :
    Control.Inv (h.continueDaqWrite cfg env index) held owing := by
  unfold Hub.continueDaqWrite
  cases h.daqLayout[index]? with
  | none => exact hinv.sendDaqStep hkind rfl _ _
  | some field => exact hinv.sendDaqStep hkind rfl _ _

theorem beginDaqCollect (hinv : Inv h (.daqStart :: held) owing) :
    Inv (h.beginDaqCollect env) held owing := by
  have hactive : h.daqReadActive = true := hinv.engaged_of_hand
  refine ⟨hinv.idle, ?_, hinv.engaged, fun _ => hactive, hinv.dropped⟩
  have hslots : (h.beginDaqCollect env).slots = h.slots.set .daq (h.slots.holder .daq) false := by
    refine Slots.ext (funext fun k => by cases k <;> rfl) (funext fun k => ?_)
    cases k with
    | read => rfl
    | write => rfl
    | connect => rfl
    | daq => exact Bool.and_false _
  rw [hslots]
  exact hinv.hand.pausing

/-- Whatever continuation is called, its operation goes on or ends. -/
theorem resume (hinv : Inv h (cb :: held) owing) (hgo : h.CarriesOn cfg env cb ok data)
    (herror : cb.kind = .read → ok = false → h.ReadErrored) :
    Control.Inv (h.resume cfg env cb ok data) held owing := by
  cases cb with
  | connectAnd => exact hinv.connectDone ok
  | readMta => exact hinv.readMta hgo (herror rfl)
  | readUpload => exact hinv.continueRead hgo (herror rfl)
  | write => exact hinv.continueWrite hgo
  | daqSize =>
    cases ok with
    | false => exact hinv.completeDaqRead rfl _
    | true => exact hinv.sendDaqStep rfl rfl _ _
  | daqPtr =>
    cases ok with
    | false => exact hinv.completeDaqRead rfl _
    | true => exact hinv.continueDaqWrite rfl 0
  | daqWrite index =>
    cases ok with
    | false => exact hinv.completeDaqRead rfl _
    | true => exact hinv.continueDaqWrite rfl (index + 1)
  | daqStatus =>
    cases ok with
    | false => exact hinv.completeDaqRead rfl _
    | true => exact hinv.sendDaqStep rfl rfl _ _
  | daqStart =>
    cases ok with
    | false => exact hinv.completeDaqRead rfl _
    | true => exact hinv.beginDaqCollect.control rfl
  | teardownStop => exact hinv.teardownStatus rfl
  | teardownStatus => exact hinv.fireDaqRead rfl

end Inv

/-! ## Frames -/

/-- The continuation a frame calls next, with what it is given. -/
def Frame.continues : Frame → Option (CommandCallback × Bool × List UInt8)
  | .afterResponse command callback data =>
    if command = Command.connect then none else callback.map fun cb => (cb, true, data)
  | .afterConnected callback data => callback.map fun cb => (cb, true, data)
  | .afterError callback => callback.map fun cb => (cb, false, [])
  | _ => none

namespace Inv

variable {cfg : Config} {env : Env} {h : Hub} {held : List CommandCallback}
  {owing : List (Mark Kind)}

theorem callBack {callback : Option CommandCallback}
    (hinv : Inv h (callback.toList ++ held) owing) {ok : Bool} {data : List UInt8}
    (hgo : ∀ cb, callback = some cb → h.CarriesOn cfg env cb ok data)
    (herror : ∀ cb, callback = some cb → cb.kind = .read → ok = false → h.ReadErrored) :
    Control.Inv (h.callBack cfg env callback ok data) held owing := by
  cases callback with
  | none => exact hinv.control rfl
  | some cb => exact Inv.resume hinv (hgo cb rfl) (herror cb rfl)

theorem setConnected (hinv : Inv h held owing) (connected : Bool) :
    Inv { h with connected := connected } held owing :=
  hinv.congr rfl rfl rfl rfl rfl rfl

/-- The DAQ frame is looked at, and the collection may be over. -/
theorem handleDaqFrame (hinv : Inv h held owing) (frame : List UInt8) :
    Control.Inv (h.handleDaqFrame cfg env frame) held owing := by
  unfold Hub.handleDaqFrame
  by_cases hskip : (!h.daqCollecting || decide (frame.head? ≠ some 0)) = true
  · rw [if_pos hskip]
    exact hinv.control rfl
  have hcollecting : h.daqCollecting = true := by
    by_contra hnot
    exact hskip (by rw [(Bool.not_eq_true _).mp hnot]; rfl)
  rw [if_neg hskip]
  dsimp only
  -- the sample changes the result and its validity only
  have hsample : ∀ (result : DaqReadResult) (valid : List Bool),
      Inv { h with daqReadResult := result, daqValuesValid := valid } held owing :=
    fun _ _ => hinv.congr rfl rfl rfl rfl rfl rfl
  have hend : ∀ h' : Hub, Inv h' held owing → h'.daqCollecting = true →
      Control.Inv (if h'.daqTargetSamples ≤ h'.daqReadResult.framesSeen then
        h'.completeDaqRead cfg env none else (h', none)) held owing := by
    intro h' hinv' hcollecting'
    by_cases hlast : h'.daqTargetSamples ≤ h'.daqReadResult.framesSeen
    · rw [if_pos hlast]
      exact hinv'.completeCollecting hcollecting' none
    · rw [if_neg hlast]
      exact hinv'.control rfl
  refine hend _ ?_ ?_
  · split
    · exact hsample _ _
    · exact hsample _ h.daqValuesValid
  · split
    · exact hcollecting
    · exact hcollecting

/-- What a frame left to do keeps the account. -/
theorem run {frame : Frame} (hinv : Inv h (frame.callback.toList ++ held) owing)
    (hgo : ∀ cb ok data, frame.continues = some (cb, ok, data) → h.CarriesOn cfg env cb ok data)
    (herror : frame.FailsRead → h.ReadErrored) :
    Control.Inv (h.run cfg env frame) held owing := by
  cases frame with
  | done => exact hinv.control rfl
  | afterResponse command callback data =>
    unfold Hub.run
    dsimp only
    by_cases hconnect : command = Command.connect
    · rw [if_pos hconnect]
      refine ⟨(hinv.setConnected true).emit rfl, ?_⟩
      rintro f heq ⟨cb, rfl, -⟩
      cases heq
    · rw [if_neg hconnect]
      have hgo' : ∀ cb, callback = some cb → h.CarriesOn cfg env cb true data := by
        rintro cb rfl
        exact hgo cb true data (if_neg hconnect)
      by_cases hdisconnect : command = Command.disconnect
      · rw [if_pos hdisconnect]
        refine (hinv.setConnected false).callBack ?_ nofun
        rintro cb rfl
        have := hgo' cb rfl
        cases cb <;> exact this
      · rw [if_neg hdisconnect]
        exact hinv.callBack hgo' nofun
  | afterConnected callback data =>
    refine hinv.callBack (fun cb heq => ?_) nofun
    subst heq
    exact hgo cb true data rfl
  | afterError callback =>
    refine hinv.callBack (fun cb heq => ?_) fun cb heq hkind _ =>
      herror ⟨cb, congrArg Frame.afterError heq, hkind⟩
    subst heq
    exact hgo cb false [] rfl
  | readDone =>
    have hdone : Inv { h with readData := [] } held owing := hinv.congr rfl rfl rfl rfl rfl rfl
    exact hdone.control rfl
  | daqFrame data => exact hinv.handleDaqFrame data
  | daqReported result => exact (hinv.emit rfl).control rfl

/-! ### What comes from outside -/

/-- The error of a command of a read comes after that read was accepted. -/
theorem readErrored (hinv : Inv h held []) {cb : CommandCallback}
    (hcallback : h.commandCallback = some cb) (hkind : cb.kind = .read) (command code : UInt8) :
    ({ h with commandCallback := none, inFlight := false }.emit (.error command code)).ReadErrored := by
  have hmem : Kind.read ∈ (h.commandCallback.toList ++ held).map CommandCallback.kind := by
    rw [hcallback, ← hkind]
    exact List.mem_cons_self
  obtain ⟨op, hop⟩ := hinv.balanced.holder_of_mem hmem
  refine ⟨op, hop, h.log, command, code, [], rfl, ?_⟩
  have hopened : Mark.opened Kind.read op ∈ h.log.filterMap Event.mark := by
    have hmarks := hinv.balanced.marks .read op
    rw [if_pos hop, List.append_nil] at hmarks
    exact List.count_pos_iff.mp (by omega)
  obtain ⟨e, he, hmark⟩ := List.mem_filterMap.mp hopened
  cases e with
  | returned kind op' ok =>
    cases ok with
    | true =>
      cases hmark
      exact he
    | false => cases hmark
  | sent _ _ => cases hmark
  | response _ _ _ => cases hmark
  | connected => cases hmark
  | error _ _ => cases hmark
  | daq _ _ => cases hmark
  | daqRead _ => cases hmark
  | readDone _ _ => cases hmark
  | readDropped _ => cases hmark
  | writeDone _ _ => cases hmark
  | connectDone _ _ => cases hmark
  | daqDone _ _ => cases hmark

theorem finish (hinv : Inv h held []) (success : Bool) (code : UInt8) (data : List UInt8) :
    Control.Inv (h.finish success code data) held [] := by
  cases success with
  | true =>
    refine ⟨hinv.land.emit rfl, ?_⟩
    rintro f heq ⟨cb, rfl, -⟩
    cases heq
  | false =>
    refine ⟨hinv.land.emit rfl, ?_⟩
    rintro f heq ⟨cb, rfl, hkind⟩
    have hcallback : h.commandCallback = some cb := by
      injection heq with heq
      injection heq
    exact hinv.readErrored hcallback hkind _ _

theorem onFrame (hinv : Inv h held []) (extended rtr : Bool) (data : List UInt8) :
    Control.Inv (h.onFrame extended rtr data) held [] := by
  unfold Hub.onFrame
  split_ifs
  · exact hinv.control rfl
  cases decodeDto data with
  | invalid => exact hinv.control rfl
  | daq pid bytes => exact (hinv.emit rfl).control rfl
  | response returnCode ctr bytes =>
    dsimp only
    split_ifs
    · exact hinv.control rfl
    · exact hinv.finish _ _ _

theorem checkTimeout (hinv : Inv h held []) : Control.Inv (h.checkTimeout env) held [] := by
  unfold Hub.checkTimeout
  split_ifs
  · exact hinv.finish _ _ _
  · exact hinv.control rfl

theorem checkCollect (hinv : Inv h held []) :
    Control.Inv (h.checkCollect cfg env) held [] := by
  unfold Hub.checkCollect
  split_ifs with hover
  · exact hinv.completeCollecting (Bool.and_eq_true_iff.mp hover).1 _
  · exact hinv.control rfl

/-! ### Calls -/

theorem notEngaged (hinv : Inv h held owing) {k : Kind} (hk : h.engaged k = false) :
    h.slots.holder k = none := by
  have hholder := hinv.engaged k
  rw [hk] at hholder
  exact Option.not_isSome_iff_eq_none.mp (by rw [hholder]; decide)

/-- An accepted operation is owing its opening, a refused one is nothing. -/
def openings (kind : Kind) (op : Nat) (ok : Bool) : List (Mark Kind) :=
  if ok then [.opened kind op] else []

theorem opened {cb : CommandCallback} {kind : Kind} {op : Nat}
    (hinv : Inv h (cb :: held) [.opened kind op]) {cro : Cro} (hs : h.sends cfg env cro = true) :
    Inv (h.send cfg env cro (some cb)).1 held
      (openings kind op (h.send cfg env cro (some cb)).2) := by
  rw [Hub.send_snd, hs]
  exact hinv.sent (some cb) hs

theorem readMemory (hinv : Inv h held []) {ext : UInt8} {address : UInt32} {len : UInt16}
    (hopens : h.Opens cfg env (.readMemory ext address len)) (op : Nat) :
    Inv (h.readMemory cfg env ext address len op).1 held
      (openings .read op (h.readMemory cfg env ext address len op).2) := by
  unfold Hub.readMemory
  by_cases hguard : len = 0 ∨ h.inFlight = true ∨ h.readRemaining ≠ 0
  · rw [if_pos hguard]
    exact hinv
  rw [if_neg hguard]
  obtain ⟨hlen, hflight, hfree⟩ : len ≠ 0 ∧ h.inFlight = false ∧ h.readRemaining = 0 := by
    simpa using hguard
  have hpos : len.toNat ≠ 0 := fun heq => hlen (UInt16.toNat_inj.mp heq)
  have hsends := hopens hlen hflight hfree
  have hbegun : Inv { h with
      readCallback := some op, readData := [], readRemaining := len.toNat }
      (.readMta :: held) [.opened .read op] := by
    refine hinv.begin _ (hinv.notEngaged (decide_eq_false (not_not.mpr hfree))) ?_ rfl rfl rfl ?_
      hinv.collecting
    · refine Slots.ext (funext fun k => by cases k <;> rfl) (funext fun k => ?_)
      cases k with
      | read => exact congrArg (fun b => b && !(false && _)) (decide_eq_true hpos)
      | write => rfl
      | connect => rfl
      | daq => rfl
    · intro k
      cases k with
      | read => exact (decide_eq_true hpos).symm
      | write => exact hinv.engaged .write
      | connect => exact hinv.engaged .connect
      | daq => exact hinv.engaged .daq
  exact hbegun.opened hsends

theorem writeMemory (hinv : Inv h held []) {ext : UInt8} {address : UInt32} {data : List UInt8}
    (hopens : h.Opens cfg env (.writeMemory ext address data)) (op : Nat) :
    Inv (h.writeMemory cfg env ext address data op).1 held
      (openings .write op (h.writeMemory cfg env ext address data op).2) := by
  unfold Hub.writeMemory
  by_cases hguard : data = [] ∨ h.inFlight = true ∨ Hub.writeAllowed cfg Command.dnload = false
  · rw [if_pos hguard]
    exact hinv
  rw [if_neg hguard]
  obtain ⟨hdata, hflight, hallowed⟩ : data ≠ [] ∧ h.inFlight = false ∧
      Hub.writeAllowed cfg Command.dnload = true := by
    simpa using hguard
  obtain ⟨hfree, hsends⟩ := hopens hdata hflight hallowed
  have hbegun : Inv { h with
      writeData := data, writeOffset := 0, writeCallback := some op }
      (.write :: held) [.opened .write op] := by
    refine hinv.begin _ (hinv.notEngaged (decide_eq_false (not_not.mpr hfree))) ?_ rfl rfl rfl ?_
      hinv.collecting
    · refine Slots.ext (funext fun k => by cases k <;> rfl) (funext fun k => ?_)
      cases k with
      | read => rfl
      | write => exact congrArg (fun b => b && !(false && _)) (decide_eq_true hdata)
      | connect => rfl
      | daq => rfl
    · intro k
      cases k with
      | read => exact hinv.engaged .read
      | write => exact (decide_eq_true hdata).symm
      | connect => exact hinv.engaged .connect
      | daq => exact hinv.engaged .daq
  exact hbegun.opened hsends

theorem connectAnd (hinv : Inv h held []) (hopens : h.Opens cfg env .connectAnd) (op : Nat) :
    Control.Inv ((h.connectAnd cfg env op).1, (h.connectAnd cfg env op).2.2) held
      (openings .connect op (h.connectAnd cfg env op).2.1) := by
  unfold Hub.connectAnd
  by_cases hconnected : h.connected = true
  · -- the callback has run before the call returns
    rw [if_pos hconnected]
    have hended : Inv h held [.closed .connect op, .opened .connect op] := by
      refine ⟨hinv.idle, ?_, hinv.engaged, hinv.collecting, hinv.dropped⟩
      refine ⟨hinv.balanced.tokens, hinv.balanced.held, fun k op' => ?_⟩
      have hmarks := hinv.balanced.marks k op'
      rw [List.append_nil] at hmarks
      rw [List.count_append, List.count_append, Nat.add_right_comm, hmarks]
      congr 1
      simp only [List.count_cons, List.count_nil]
      by_cases heq : k = .connect ∧ op' = op
      · obtain ⟨rfl, rfl⟩ := heq
        simp
      · have hclosed : ¬ Mark.closed Kind.connect op = Mark.closed k op' := by
          rintro ⟨⟩
          exact heq ⟨rfl, rfl⟩
        have hopened : ¬ Mark.opened Kind.connect op = Mark.opened k op' := by
          rintro ⟨⟩
          exact heq ⟨rfl, rfl⟩
        simp [hclosed, hopened]
    exact (hended.settle (show (Event.connectDone op true).mark = _ from rfl) nofun).control rfl
  · obtain ⟨hfree, hsends⟩ := hopens ((Bool.not_eq_true _).mp hconnected)
    rw [if_neg hconnected]
    have hbegun : Inv { h with connectCallback := some op } (.connectAnd :: held)
        [.opened .connect op] := by
      refine hinv.begin _ hfree ?_ rfl rfl rfl ?_ hinv.collecting
      · exact Slots.ext (funext fun k => by cases k <;> rfl) (funext fun k => by cases k <;> rfl)
      · intro k
        cases k with
        | read => exact hinv.engaged .read
        | write => exact hinv.engaged .write
        | connect => rfl
        | daq => exact hinv.engaged .daq
    exact Inv.control (hbegun.opened hsends) (show none.bind Frame.callback = none from rfl)

/-- `daq_read` looks at the answer of `send_` itself. -/
theorem daqRead (hinv : Inv h held []) (req : DaqReadRequest) (op : Nat) :
    Inv (h.daqRead cfg env req op).1 held (openings .daq op (h.daqRead cfg env req op).2) := by
  unfold Hub.daqRead
  by_cases hguard : Hub.accepts cfg req = false ∨ h.inFlight = true ∨ h.daqReadActive = true
  · rw [if_pos hguard]
    exact hinv
  rw [if_neg hguard]
  obtain ⟨-, hguard⟩ := not_or.mp hguard
  have hactive : h.daqReadActive = false := (Bool.not_eq_true _).mp (not_or.mp hguard).2
  have hfree := hinv.notEngaged (k := .daq) hactive
  have hcollecting : h.daqCollecting = false := by
    by_contra hnot
    have hbusy := hinv.collecting ((Bool.not_eq_false _).mp hnot)
    rw [hactive] at hbusy
    cases hbusy
  dsimp only
  cases hs : (h.beginDaqRead cfg req op).sends cfg env
      (getDaqSize 0 cfg.byteOrder req.list req.dtoId) with
  | true =>
    have hbegun : Inv (h.beginDaqRead cfg req op) (.daqSize :: held) [.opened .daq op] := by
      refine hinv.begin _ hfree ?_ rfl rfl rfl ?_ nofun
      · exact Slots.ext (funext fun k => by cases k <;> rfl) (funext fun k => by cases k <;> rfl)
      · intro k
        cases k with
        | read => exact hinv.engaged .read
        | write => exact hinv.engaged .write
        | connect => exact hinv.engaged .connect
        | daq => rfl
    have hsent := hbegun.sent (some .daqSize) hs
    rw [(Hub.send_of_sends hs _).2] at hsent ⊢
    exact hsent
  | false =>
    obtain ⟨ctr, hsend⟩ := Hub.send_of_not_sends hs (some .daqSize)
    rw [hsend]
    refine hinv.congr rfl rfl ?_ ?_ hcollecting.symm rfl
    · refine Slots.ext (funext fun k => ?_) (funext fun k => ?_)
      · cases k with
        | read => rfl
        | write => rfl
        | connect => rfl
        | daq => exact hfree.symm
      · cases k with
        | read => rfl
        | write => rfl
        | connect => rfl
        | daq => exact congrArg (fun b => b && !(true && h.daqCollecting)) hactive.symm
    · funext k
      cases k with
      | read => rfl
      | write => rfl
      | connect => rfl
      | daq => exact hactive.symm

theorem perform (hinv : Inv h held []) {c : Call} (hopens : h.Opens cfg env c) (op : Nat) :
    Control.Inv ((h.perform cfg env op c).1, (h.perform cfg env op c).2.2) held
      (match c.kind? with
        | some kind => openings kind op (h.perform cfg env op c).2.1
        | none => []) := by
  cases c with
  | command c =>
    unfold Hub.perform
    dsimp only [Call.kind?]
    cases c.cro? cfg with
    | none => exact hinv.control rfl
    | some cro =>
      cases hs : h.sends cfg env cro with
      | true => exact (hinv.sent none hs).control rfl
      | false => exact (hinv.refused hs none).control rfl
  | setEnabled enabled =>
    have hset : Inv { h with enabled := enabled } held [] := hinv.congr rfl rfl rfl rfl rfl rfl
    exact hset.control rfl
  | readMemory ext address len => exact (hinv.readMemory hopens op).control rfl
  | writeMemory ext address data => exact (hinv.writeMemory hopens op).control rfl
  | connectAnd => exact hinv.connectAnd hopens op
  | daqRead req => exact (hinv.daqRead req op).control rfl

end Inv

end EspCars.Ccp
