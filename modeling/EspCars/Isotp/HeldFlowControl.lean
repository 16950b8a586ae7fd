import EspCars.Isotp.Protocol

/-!
# The flow control frame that was refused

`pending_fc_` is set by `on_frame` and cleared by the retry in `loop`, and by nothing else: not when
the reassembly it belongs to is over, not when a flow control is sent in its place. `Watch` keeps
beside an instance which first frame the held frame answers and whether the CAN layer has accepted
a flow control since, so that `Wanted` can say of the held frame what the peer would.

`Keeps` is the condition on one input under which the held frame stays wanted. It is the weakest
one: after an input that breaks it, a pass of `loop` puts a stale frame on the bus
(`neverStale_iff`).
-/

namespace EspCars.Isotp

open EspCars.Lib RxTransfer

namespace RxTransfer

/-- A consecutive frame in sequence that leaves bytes missing. -/
def Continues (r : RxTransfer) (info : PciInfo) : Prop :=
  info.sequence = r.sequence + 1 &&& 0x0F ∧
    u16Add r.size (min info.payloadLen (u16Sub r.expected r.size)) < r.expected

instance (r : RxTransfer) (info : PciInfo) : Decidable (r.Continues info) :=
  inferInstanceAs (Decidable (_ ∧ _))

variable {cfg : IsoTpConfig} {r : RxTransfer} {info : PciInfo} {data : List UInt8} {dlc : Nat}
  {nowMs : UInt32} {out : Frame}

theorem state_onFirst :
    (r.onFirst cfg info data nowMs out).2.2.state = .receiving ↔ info.length ≤ r.capacity := by
  unfold onFirst
  split
  · rename_i hlong
    exact ⟨nofun, fun hle => absurd hle (Nat.not_le.mpr hlong)⟩
  · rename_i hshort
    exact ⟨fun _ => Nat.not_lt.mp hshort, fun _ => rfl⟩

theorem onConsecutive_idle (h : r.state ≠ .receiving) :
    r.onConsecutive cfg info data nowMs out =
      (.nothing, out, { r with ignored := r.ignored + 1 }) := if_pos h

/-- The four ways of a consecutive frame that is awaited: out of sequence, the last one, the last
one of a block, and any other. -/
theorem onConsecutive_receiving (h : r.state = .receiving) :
    let answer := r.onConsecutive cfg info data nowMs out
    (answer.2.2.state = .receiving ↔ r.Continues info) ∧
      (answer.1 = .sendFlowControl ↔ r.Continues info ∧ r.blockRemaining = 1) := by
  have htake : (if info.payloadLen < u16Sub r.expected r.size then info.payloadLen
      else u16Sub r.expected r.size) = min info.payloadLen (u16Sub r.expected r.size) := by
    rw [Nat.min_def]
    split_ifs <;> omega
  unfold onConsecutive
  rw [if_neg (not_not.mpr h)]
  by_cases hseq : info.sequence = r.sequence + 1 &&& 0x0F
  · rw [if_neg (not_not.mpr hseq)]
    dsimp only
    rw [htake]
    by_cases hlast : u16Add r.size (min info.payloadLen (u16Sub r.expected r.size)) ≥ r.expected
    · have hnot : ¬ r.Continues info := fun hcont => absurd hcont.2 (Nat.not_lt.mpr hlast)
      rw [if_pos hlast]
      simp [hnot]
    · have hcont : r.Continues info := ⟨hseq, Nat.not_le.mp hlast⟩
      rw [if_neg hlast]
      by_cases hzero : r.blockRemaining = 0
      · rw [if_neg (not_not.mpr hzero)]
        simp [hcont, hzero, h]
      · rw [if_pos hzero]
        by_cases hone : r.blockRemaining - 1 = 0
        · have hblock : r.blockRemaining = 1 := by omega
          rw [if_pos hone]
          simp [hcont, hblock, h]
        · have hblock : r.blockRemaining ≠ 1 := by omega
          rw [if_neg hone]
          simp [hcont, hblock, h]
  · have hnot : ¬ r.Continues info := fun hcont => hseq hcont.1
    rw [if_pos hseq]
    simp [hnot]

theorem state_poll (h : r.state = .receiving) :
    (r.poll cfg nowMs).2.state = .receiving ↔ elapsedMs nowMs r.timerStart < cfg.nCrTimeoutMs := by
  unfold poll
  rw [if_neg (not_not.mpr h)]
  split
  · rename_i hlate
    exact ⟨nofun, fun hlt => absurd hlt (UInt32.not_lt.mpr hlate)⟩
  · rename_i htime
    exact ⟨fun _ => UInt32.not_le.mp htime, fun _ => h⟩

end RxTransfer

namespace IsoTpProtocol

/-- An instance, how many first frames it has been given, which of them the held frame answers and
whether another flow control has been accepted since it is held. -/
structure Watch where
  protocol : IsoTpProtocol
  firsts : Nat := 0
  heldOf : Nat := 0
  answered : Bool := false
  deriving DecidableEq

namespace Watch

variable (cfg : IsoTpConfig)

def setup : Watch := { protocol := IsoTpProtocol.setup cfg }

/-- What a received frame does beside the instance. -/
def onFrame (w : Watch) (data : List UInt8) (dlc : Nat) (nowMs : UInt32) (accepted : Bool) :
    Watch :=
  let firsts := w.firsts + if (decodePci cfg data dlc).type = .first then 1 else 0
  let protocol := w.protocol.onFrame cfg data dlc nowMs accepted
  if (w.protocol.rx.onFrame cfg data dlc nowMs {}).1 = .sendFlowControl then
    if accepted then { w with protocol := protocol, firsts := firsts, answered := true }
    else { protocol := protocol, firsts := firsts, heldOf := firsts, answered := false }
  else { w with protocol := protocol, firsts := firsts }

def step (w : Watch) : Input → Watch
  | .frame data dlc nowMs accepted => w.onFrame cfg data dlc nowMs accepted
  | input => { w with protocol := w.protocol.step cfg input }

/-- The reassembly that the held frame answers is the current one, and nothing else has answered
it. -/
def Wanted (w : Watch) : Prop :=
  w.protocol.rx.state = .receiving ∧ w.heldOf = w.firsts ∧ w.answered = false

instance (w : Watch) : Decidable w.Wanted := inferInstanceAs (Decidable (_ ∧ _))

/-- The held frame goes out. -/
def SendsHeld (w : Watch) (input : Input) : Prop :=
  ∃ pass, input = .loop pass ∧ w.protocol.hasPendingFc ∧ pass.retryAccepted

end Watch

/-- In no pass of the run does a held frame go out that is not wanted any more. -/
def NeverStale (cfg : IsoTpConfig) (inputs : List Input) : Prop :=
  ∀ before input, before ++ [input] <+: inputs →
    let w := exec (Watch.step cfg) (Watch.setup cfg) before
    w.SendsHeld input → w.Wanted

/-- The input does not end, replace or answer the reassembly whose flow control is held, and holds
no overflow answer. -/
def Keeps (cfg : IsoTpConfig) (p : IsoTpProtocol) : Input → Prop
  | .frame data dlc _ accepted =>
    let info := decodePci cfg data dlc
    match info.type with
    | .single => p.hasPendingFc = false
    | .first => if accepted then p.hasPendingFc = false else info.length ≤ p.rx.capacity
    | .consecutive => p.hasPendingFc →
      p.rx.Continues info ∧ (p.rx.blockRemaining = 1 → accepted = false)
    | .flowControl | .invalid => True
  | .loop pass => p.hasPendingFc → pass.retryAccepted = false →
    elapsedMs pass.now p.rx.timerStart < cfg.nCrTimeoutMs
  | .send _ _ => True

/-! ## The held frame over a run -/

namespace Watch

variable {cfg : IsoTpConfig} {w : Watch}

theorem protocol_step (w : Watch) (input : Input) :
    (w.step cfg input).protocol = w.protocol.step cfg input := by
  cases input with
  | frame data dlc nowMs accepted =>
    change (w.onFrame cfg data dlc nowMs accepted).protocol = _
    unfold onFrame
    dsimp only
    split_ifs <;> rfl
  | loop pass => rfl
  | send message nowMs => rfl

/-- What is held is wanted. -/
def Fresh (w : Watch) : Prop := w.protocol.hasPendingFc → w.Wanted

theorem fresh_setup (cfg : IsoTpConfig) : (setup cfg).Fresh := nofun

/-- An input after which nothing is held, or nothing changes for the held frame. -/
theorem fresh_onFrame_of_unasked {data : List UInt8} {dlc : Nat} {nowMs : UInt32} {accepted : Bool}
    (hno : (w.protocol.rx.onFrame cfg data dlc nowMs {}).1 ≠ .sendFlowControl)
    (htype : (decodePci cfg data dlc).type ≠ .first) :
    (w.onFrame cfg data dlc nowMs accepted).Fresh ↔
      (w.protocol.hasPendingFc → w.heldOf = w.firsts ∧ w.answered = false ∧
        (w.protocol.rx.onFrame cfg data dlc nowMs {}).2.2.state = .receiving) := by
  unfold Fresh Wanted onFrame
  simp only [if_neg hno, if_neg htype, onFrame_hasPendingFc, onFrame_rx, decide_eq_false hno,
    Bool.false_and, Bool.or_false, Nat.add_zero]
  tauto

theorem fresh_onFrame_of_asked {data : List UInt8} {dlc : Nat} {nowMs : UInt32} {accepted : Bool}
    (hask : (w.protocol.rx.onFrame cfg data dlc nowMs {}).1 = .sendFlowControl) :
    (w.onFrame cfg data dlc nowMs accepted).Fresh ↔
      if accepted then w.protocol.hasPendingFc = false
      else (w.protocol.rx.onFrame cfg data dlc nowMs {}).2.2.state = .receiving := by
  unfold Fresh Wanted onFrame
  cases accepted with
  | true =>
    simp [if_pos hask, onFrame_hasPendingFc]
  | false =>
    simp [onFrame_hasPendingFc, onFrame_rx, hask]

/-- An input keeps the held frame wanted exactly when it meets the condition. -/
theorem fresh_step_iff (h : w.Fresh) (input : Input) :
    (w.step cfg input).Fresh ↔ Keeps cfg w.protocol input := by
  cases input with
  | frame data dlc nowMs accepted =>
    change (w.onFrame cfg data dlc nowMs accepted).Fresh ↔ _
    unfold Keeps
    dsimp only
    cases htype : (decodePci cfg data dlc).type with
    | single =>
      have hno : (w.protocol.rx.onFrame cfg data dlc nowMs {}).1 ≠ .sendFlowControl := by
        simp only [RxTransfer.onFrame, htype]
        intro hcontra
        cases hcontra
      have hidle : (w.protocol.rx.onFrame cfg data dlc nowMs {}).2.2.state ≠ .receiving := by
        simp only [RxTransfer.onFrame, htype]
        intro hcontra
        cases hcontra
      rw [fresh_onFrame_of_unasked hno (by rw [htype]; intro hfc; cases hfc)]
      constructor
      · intro hkept
        rw [Bool.eq_false_iff]
        intro hheld
        exact hidle (hkept hheld).2.2
      · intro hnone hheld
        rw [hnone] at hheld
        cases hheld
    | first =>
      have hask : (w.protocol.rx.onFrame cfg data dlc nowMs {}).1 = .sendFlowControl := by
        rw [RxTransfer.onFrame_first htype, action_onFirst]
      rw [fresh_onFrame_of_asked hask, RxTransfer.onFrame_first htype, state_onFirst]
    | consecutive =>
      by_cases hrec : w.protocol.rx.state = .receiving
      · have hanswer := @RxTransfer.onConsecutive_receiving cfg _ (decodePci cfg data dlc) data
          nowMs {} hrec
        rw [← onFrame_consecutive htype] at hanswer
        obtain ⟨hstate, hasks⟩ := hanswer
        by_cases hask : (w.protocol.rx.onFrame cfg data dlc nowMs {}).1 = .sendFlowControl
        · obtain ⟨hcont, hblock⟩ := hasks.mp hask
          rw [fresh_onFrame_of_asked hask, hstate]
          cases accepted with
          | true => simp [hcont, hblock]
          | false => simp [hcont]
        · rw [fresh_onFrame_of_unasked hask (by rw [htype]; intro hfc; cases hfc), hstate]
          apply forall_congr'
          intro hheld
          obtain ⟨-, hof, hanswered⟩ := h hheld
          constructor
          · intro hkept
            exact ⟨hkept.2.2, fun hblock => absurd (hasks.mpr ⟨hkept.2.2, hblock⟩) hask⟩
          · intro hcont
            exact ⟨hof, hanswered, hcont.1⟩
      · -- nothing is held while nothing is received
        have hnone : w.protocol.hasPendingFc = false := by
          rw [Bool.eq_false_iff]
          intro hheld
          exact hrec (h hheld).1
        have hno : (w.protocol.rx.onFrame cfg data dlc nowMs {}).1 ≠ .sendFlowControl := by
          rw [onFrame_consecutive htype, onConsecutive_idle hrec]
          intro hcontra
          cases hcontra
        rw [fresh_onFrame_of_unasked hno (by rw [htype]; intro hfc; cases hfc)]
        constructor
        · intro _ hheld
          rw [hnone] at hheld
          cases hheld
        · intro _ hheld
          rw [hnone] at hheld
          cases hheld
    | flowControl | invalid =>
      have hno : (w.protocol.rx.onFrame cfg data dlc nowMs {}).1 ≠ .sendFlowControl := by
        simp only [RxTransfer.onFrame, htype]
        intro hcontra
        cases hcontra
      have hsame : (w.protocol.rx.onFrame cfg data dlc nowMs {}).2.2.state =
          w.protocol.rx.state := by
        simp only [RxTransfer.onFrame, htype]
      rw [fresh_onFrame_of_unasked hno (by rw [htype]; intro hfc; cases hfc), hsame]
      apply iff_of_true _ trivial
      intro hheld
      obtain ⟨hrec, hof, hanswered⟩ := h hheld
      exact ⟨hof, hanswered, hrec⟩
  | loop pass =>
    have hfresh : (w.step cfg (.loop pass)).Fresh ↔
        (w.protocol.hasPendingFc → pass.retryAccepted = false →
          (w.protocol.rx.poll cfg pass.now).2.state = .receiving ∧ w.heldOf = w.firsts ∧
            w.answered = false) := by
      change ((w.protocol.loop cfg pass).hasPendingFc →
        (w.protocol.loop cfg pass).rx.state = .receiving ∧ w.heldOf = w.firsts ∧
          w.answered = false) ↔ _
      rw [loop_hasPendingFc, loop_rx, Bool.and_eq_true, Bool.not_eq_true', and_imp]
    rw [hfresh]
    apply forall_congr'
    intro hheld
    obtain ⟨hrec, hof, hanswered⟩ := h hheld
    rw [state_poll hrec]
    apply forall_congr'
    intro _
    exact ⟨fun hkept => hkept.1, fun htime => ⟨htime, hof, hanswered⟩⟩
  | send message nowMs =>
    apply iff_of_true _ trivial
    change (w.protocol.send (message, nowMs)).hasPendingFc →
      (w.protocol.send (message, nowMs)).rx.state = .receiving ∧ w.heldOf = w.firsts ∧
        w.answered = false
    rw [send_hasPendingFc, send_rx]
    exact h

/-- The held frame stays wanted through every input that meets the condition. -/
theorem fresh_exec {inputs : List Input}
    (h : Admitted (Keeps cfg) (IsoTpProtocol.step cfg) (IsoTpProtocol.setup cfg) inputs) :
    (exec (step cfg) (setup cfg) inputs).Fresh := by
  have hw : Admitted (fun w input => Keeps cfg (Watch.protocol w) input) (step cfg) (setup cfg)
      inputs := (admitted_part_iff protocol_step).mpr h
  apply hw.invariant
  · intro w input hkeeps hfresh
    exact (fresh_step_iff hfresh input).mpr hkeeps
  · exact fresh_setup cfg

end Watch

theorem neverStale_of_keeps {cfg : IsoTpConfig} {inputs : List Input}
    (h : Admitted (Keeps cfg) (step cfg) (setup cfg) inputs) : NeverStale cfg inputs := by
  intro before input hinitial w hsends
  obtain ⟨rest, hrest⟩ := hinitial
  rw [← hrest, List.append_assoc, Admitted.append_iff] at h
  obtain ⟨pass, -, hheld, -⟩ := hsends
  exact Watch.fresh_exec h.1 hheld

/-- Every run that agrees with `inputs` up to some point and then has a pass of `loop` is free of
stale frames if and only if every input meets the condition where it is taken. -/
theorem neverStale_iff (cfg : IsoTpConfig) (inputs : List Input) :
    (∀ before, before <+: inputs → ∀ pass, NeverStale cfg (before ++ [.loop pass])) ↔
      Admitted (Keeps cfg) (step cfg) (setup cfg) inputs := by
  constructor
  · intro h
    by_contra hbreak
    obtain ⟨before, input, hinitial, hbefore, hinput⟩ := Admitted.exists_first_break hbreak
    -- after the input that breaks the condition the held frame is stale, and the pass sends it
    have hstale : ¬ (exec (Watch.step cfg) (Watch.setup cfg) (before ++ [input])).Fresh := by
      rw [exec_append]
      intro hfresh
      have hkeeps := (Watch.fresh_step_iff (Watch.fresh_exec hbefore) input).mp hfresh
      rw [exec_part Watch.protocol_step] at hkeeps
      exact hinput hkeeps
    apply hstale
    intro hheld
    exact h (before ++ [input]) hinitial { now := 0 } _ _ (List.prefix_refl _)
      ⟨{ now := 0 }, rfl, hheld, rfl⟩
  · intro h before hinitial pass
    obtain ⟨rest, rfl⟩ := hinitial
    have hbefore := (Admitted.append_iff.mp h).1
    intro before' input hinitial' w hsends
    rcases List.prefix_concat_iff.mp hinitial' with heq | hinside
    · obtain ⟨rfl, -⟩ := List.append_inj' heq rfl
      obtain ⟨_, -, hheld, -⟩ := hsends
      exact Watch.fresh_exec hbefore hheld
    · exact neverStale_of_keeps hbefore before' input hinside hsends

set_option maxRecDepth 8000 in
/-- The flow control of a first frame is refused, the message times out, and the frame goes out. -/
theorem not_neverStale_sample :
    ¬ NeverStale {} [.frame [0x10, 0x14, 1, 2, 3, 4, 5, 6] 8 0 false,
      .loop { now := 1000, retryAccepted := false }, .loop { now := 1001 }] := by
  intro h
  have hwanted := h
    [.frame [0x10, 0x14, 1, 2, 3, 4, 5, 6] 8 0 false, .loop { now := 1000, retryAccepted := false }]
    (.loop { now := 1001 }) (List.prefix_refl _) ⟨_, rfl, by decide, rfl⟩
  revert hwanted
  decide

end IsoTpProtocol

end EspCars.Isotp
