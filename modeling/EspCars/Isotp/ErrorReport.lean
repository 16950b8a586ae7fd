import EspCars.Isotp.Protocol

/-!
# Which errors the consumer is told

An error that a machine records is reported in the same call, or it is parked in the send machine
and the next `loop` reports it. The one exception is a first frame longer than the buffer: the
receive machine records it and answers `SEND_FLOW_CONTROL`, which leaves no room for `FAILED`, so
nobody is told. The balance of recordings and reports is therefore kept up to the number of such
frames (`Balanced`), and it is even exactly when there was none (`reportedOnce_iff`).
-/

namespace EspCars.Isotp

open EspCars.Lib

namespace IsoTpProtocol

variable {cfg : IsoTpConfig}

/-- The frame is the first one of a message that the instance cannot hold. -/
def Input.tooLong (cfg : IsoTpConfig) : Input → Bool
  | .frame data dlc _ _ => RxTransfer.TooLong cfg cfg.maxMessageSize data dlc
  | _ => false

/-- Every error recorded in the run has been reported once or is parked, nothing else has been
reported, and a pass of `loop` leaves nothing parked: so at every point of the run and in one pass
after it. -/
def ReportedOnce (cfg : IsoTpConfig) (inputs : List Input) : Prop :=
  ∀ before, before <+: inputs →
    let p := exec (step cfg) (setup cfg) before
    (p.errors ++ p.tx.parked).Perm p.recorded ∧
      ∀ pass, (p.loop cfg pass).errors.Perm (p.loop cfg pass).recorded

/-! ## The balance -/

/-- Recordings and reports differ by what is parked and by `k` unreported overflows. -/
structure Balanced (cfg : IsoTpConfig) (k : Nat) (p : IsoTpProtocol) : Prop where
  capacity : p.rx.capacity = cfg.maxMessageSize
  perm : (p.errors ++ p.tx.parked ++ List.replicate k IsoTpError.overflowLocal).Perm p.recorded

namespace Balanced

variable {k : Nat} {p p' : IsoTpProtocol}

theorem setup (cfg : IsoTpConfig) : Balanced cfg 0 (setup cfg) :=
  ⟨List.length_replicate, List.Perm.refl _⟩

/-- A step that records `written` and reports `told`. -/
theorem step (h : Balanced cfg k p) {written told : List IsoTpError} {j : Nat}
    (hcap : p'.rx.capacity = p.rx.capacity) (hrecorded : p'.recorded = p.recorded ++ written)
    (herrors : p'.errors = p.errors ++ told)
    (hperm : (told ++ p'.tx.parked ++ List.replicate j IsoTpError.overflowLocal).Perm
      (p.tx.parked ++ written)) : Balanced cfg (k + j) p' := by
  constructor
  · rw [hcap, h.capacity]
  · rw [List.perm_iff_count] at hperm ⊢
    intro error
    have hstep := hperm error
    have hold := List.perm_iff_count.mp h.perm error
    rw [hrecorded, herrors, Nat.add_comm k, ← List.replicate_append_replicate]
    simp only [List.count_append] at hstep hold ⊢
    omega

/-- A step that neither records nor reports. -/
theorem of_eq (h : Balanced cfg k p) (hcap : p'.rx.capacity = p.rx.capacity)
    (hrecorded : p'.recorded = p.recorded) (herrors : p'.errors = p.errors)
    (hparked : p'.tx.parked = p.tx.parked) : Balanced cfg k p' := by
  constructor
  · rw [hcap, h.capacity]
  · rw [hrecorded, herrors, hparked]
    exact h.perm

theorem send (h : Balanced cfg k p) (message : List UInt8 × UInt32) :
    Balanced cfg k (p.send message) := by
  unfold IsoTpProtocol.send
  split
  · rename_i tx hbegin
    obtain ⟨hafter, hbefore⟩ := TxTransfer.parked_begin hbegin
    exact h.of_eq rfl rfl rfl (hafter.trans hbefore.symm)
  · exact h

theorem sends (h : Balanced cfg k p) (messages : List (List UInt8 × UInt32)) :
    Balanced cfg k (messages.foldl IsoTpProtocol.send p) := by
  induction messages generalizing p with
  | nil => exact h
  | cons message messages ih => exact ih (h.send message)

theorem onData (h : Balanced cfg k p) (data : List UInt8) (dlc : Nat) (nowMs : UInt32)
    (accepted : Bool) :
    Balanced cfg (k + if RxTransfer.TooLong cfg cfg.maxMessageSize data dlc then 1 else 0)
      (p.onData cfg data dlc nowMs accepted) := by
  apply h.step _ (onData_recorded p data dlc nowMs accepted) (onData_errors p data dlc nowMs accepted)
  · rw [onData_tx, RxTransfer.writes_onFrame, h.capacity]
    by_cases hlong : RxTransfer.TooLong cfg cfg.maxMessageSize data dlc
    · have haction : (p.rx.onFrame cfg data dlc nowMs {}).1 = .sendFlowControl := by
        apply RxTransfer.action_of_tooLong
        rwa [h.capacity]
      rw [if_pos hlong, if_pos hlong, haction]
      exact List.Perm.refl _
    · rw [if_neg hlong, if_neg hlong, List.replicate_zero, List.append_nil]
      exact List.perm_append_comm
  · rw [onData_rx, RxTransfer.capacity_onFrame]

theorem onFrame (h : Balanced cfg k p) (data : List UInt8) (dlc : Nat) (nowMs : UInt32)
    (accepted : Bool) :
    Balanced cfg (k + if RxTransfer.TooLong cfg cfg.maxMessageSize data dlc then 1 else 0)
      (p.onFrame cfg data dlc nowMs accepted) := by
  unfold IsoTpProtocol.onFrame
  dsimp only
  by_cases hfc : (decodePci cfg data dlc).type = .flowControl
  · rw [if_pos hfc, if_neg (RxTransfer.not_tooLong (by rw [hfc]; exact nofun))]
    refine h.step rfl rfl (List.append_nil _).symm ?_
    rw [TxTransfer.parked_onFlowControl, List.replicate_zero, List.append_nil]
    exact List.Perm.refl _
  · rw [if_neg hfc]
    exact h.onData data dlc nowMs accepted

theorem retryFc (h : Balanced cfg k p) (accepted : Bool) : Balanced cfg k (p.retryFc accepted) := by
  unfold IsoTpProtocol.retryFc
  split
  · exact h.of_eq rfl rfl rfl rfl
  · exact h

theorem pollRx (h : Balanced cfg k p) (nowMs : UInt32) (replies : List (List UInt8 × UInt32)) :
    Balanced cfg k (p.pollRx cfg nowMs replies) := by
  have hcap := @RxTransfer.capacity_poll cfg p.rx nowMs
  have hwrites := @RxTransfer.writes_poll cfg p.rx nowMs
  unfold IsoTpProtocol.pollRx
  dsimp only
  split
  · rename_i rx heq
    rw [heq, if_pos rfl] at hwrites
    rw [heq] at hcap
    apply sends
    apply h.step (j := 0) hcap rfl rfl
    rw [hwrites, List.replicate_zero, List.append_nil]
    exact List.perm_append_comm
  · rename_i action rx hne heq
    have hnot : action ≠ .failed := fun hfailed => hne (by rw [hfailed])
    rw [heq, if_neg hnot] at hwrites
    rw [heq] at hcap
    refine h.step (j := 0) hcap rfl (List.append_nil _).symm ?_
    rw [hwrites, List.replicate_zero, List.append_nil p.tx.parked]
    exact List.Perm.of_eq (List.append_nil p.tx.parked)

/-- A poll that hands over no failure. -/
theorem unfailed (h : Balanced cfg k p) {written : List IsoTpError}
    (hnothing : p.tx.parked ++ written = []) (hcap : p'.rx.capacity = p.rx.capacity)
    (hrecorded : p'.recorded = p.recorded ++ written) (herrors : p'.errors = p.errors)
    (hparked : p'.tx.parked = []) : Balanced cfg k p' := by
  obtain ⟨hbefore, hwritten⟩ := List.append_eq_nil_iff.mp hnothing
  apply h.of_eq hcap _ herrors
  · rw [hparked, hbefore]
  · rw [hrecorded, hwritten, List.append_nil]

theorem pollTx (h : Balanced cfg k p) (nowMs : UInt32) (n : Nat) (accepts : List Bool) :
    Balanced cfg k (pollTx cfg nowMs n p accepts) := by
  induction n generalizing p accepts with
  | zero => exact h
  | succ n ih =>
    have hreports := @TxTransfer.poll_reports cfg p.tx nowMs
    have hparked := @TxTransfer.parked_poll cfg p.tx nowMs {}
    unfold IsoTpProtocol.pollTx
    dsimp only
    split
    · rename_i frame tx heq
      rw [heq, if_neg (fun hfailed => by cases hfailed)] at hreports
      rw [heq] at hparked
      split
      · apply ih
        refine h.unfailed hreports rfl rfl rfl ?_
        exact TxTransfer.parked_confirmSent nowMs hparked
      · exact h.unfailed hreports rfl rfl rfl hparked
    · rename_i frame tx heq
      rw [heq, if_neg (fun hfailed => by cases hfailed)] at hreports
      rw [heq] at hparked
      exact h.unfailed hreports rfl rfl rfl hparked
    · rename_i frame tx heq
      rw [heq, if_pos rfl] at hreports
      rw [heq] at hparked
      have hparked' : tx.parked = [] := hparked
      refine h.step (j := 0) rfl rfl rfl ?_
      rw [hreports]
      change ([tx.error] ++ tx.parked ++ []).Perm [tx.error]
      rw [hparked']
      exact List.Perm.refl [tx.error]
    · rename_i frame tx heq
      rw [heq, if_neg (fun hfailed => by cases hfailed)] at hreports
      rw [heq] at hparked
      exact h.unfailed hreports rfl rfl rfl hparked

theorem loop (h : Balanced cfg k p) (pass : LoopPass) : Balanced cfg k (p.loop cfg pass) :=
  ((h.retryFc pass.retryAccepted).pollRx pass.now pass.replies).pollTx pass.now _ pass.accepts

theorem input (h : Balanced cfg k p) (input : Input) :
    Balanced cfg (k + if input.tooLong cfg then 1 else 0) (IsoTpProtocol.step cfg p input) := by
  cases input with
  | frame data dlc nowMs accepted =>
    have hframe := h.onFrame data dlc nowMs accepted
    by_cases hlong : RxTransfer.TooLong cfg cfg.maxMessageSize data dlc
    · rw [if_pos hlong] at hframe
      rwa [Input.tooLong, decide_eq_true hlong, if_pos rfl]
    · rw [if_neg hlong] at hframe
      rwa [Input.tooLong, decide_eq_false hlong, if_neg nofun]
  | loop pass => exact h.loop pass
  | send message nowMs => exact h.send (message, nowMs)

theorem exec (h : Balanced cfg k p) (inputs : List Input) :
    Balanced cfg (k + inputs.countP (Input.tooLong cfg)) (Lib.exec (IsoTpProtocol.step cfg) p inputs) := by
  induction inputs generalizing k p with
  | nil => exact h
  | cons input inputs ih =>
    have hrest := ih (h.input input)
    rwa [Nat.add_assoc, Nat.add_comm _ (inputs.countP _), ← List.countP_cons] at hrest

end Balanced

/-- One poll takes what is parked, and nothing is parked while the machine is polled. -/
theorem parked_pollTx (nowMs : UInt32) (n : Nat) (p : IsoTpProtocol) (accepts : List Bool)
    (h : 0 < n ∨ p.tx.parked = []) : (pollTx cfg nowMs n p accepts).tx.parked = [] := by
  induction n generalizing p accepts with
  | zero =>
    rcases h with h | h
    · cases h
    · exact h
  | succ n ih =>
    have hparked := @TxTransfer.parked_poll cfg p.tx nowMs {}
    unfold pollTx
    dsimp only
    split
    · rename_i frame tx heq
      rw [heq] at hparked
      split
      · apply ih
        exact Or.inr (TxTransfer.parked_confirmSent nowMs hparked)
      · exact hparked
    · rename_i heq
      rwa [heq] at hparked
    · rename_i heq
      rwa [heq] at hparked
    · rename_i heq
      rwa [heq] at hparked

theorem parked_loop (p : IsoTpProtocol) (pass : LoopPass) : (p.loop cfg pass).tx.parked = [] :=
  parked_pollTx pass.now _ _ _ (Or.inl (by decide))

/-- Every error is reported exactly once if and only if no first frame longer than the buffer was
received. -/
theorem reportedOnce_iff (cfg : IsoTpConfig) (inputs : List Input) :
    ReportedOnce cfg inputs ↔ ∀ input ∈ inputs, ¬ input.tooLong cfg := by
  constructor
  · intro h
    have hperm := (h inputs (List.prefix_refl _)).1
    have hbalance := ((Balanced.setup cfg).exec inputs).perm
    have hlen := hperm.length_eq.trans hbalance.length_eq.symm
    simp only [List.length_append, List.length_replicate] at hlen
    rw [← List.countP_eq_zero]
    omega
  · intro h before hinitial
    have hbalance := (Balanced.setup cfg).exec before
    have hcount : before.countP (Input.tooLong cfg) = 0 :=
      List.countP_eq_zero.mpr fun input hmem => h input (hinitial.subset hmem)
    rw [hcount] at hbalance
    constructor
    · have hperm := hbalance.perm
      rwa [List.replicate_zero, List.append_nil] at hperm
    · intro pass
      have hperm := (hbalance.loop pass).perm
      rwa [List.replicate_zero, List.append_nil, parked_loop, List.append_nil] at hperm

/-- A first frame that announces 100 bytes to an instance of 64. -/
theorem not_reportedOnce_sample :
    ¬ ReportedOnce { maxMessageSize := 64 }
      [.frame [0x10, 0x64, 1, 2, 3, 4, 5, 6] 8 0 true, .loop { now := 1 }] := by
  intro h
  have hperm := (h _ (List.prefix_refl _)).1
  revert hperm
  decide

end IsoTpProtocol

end EspCars.Isotp
