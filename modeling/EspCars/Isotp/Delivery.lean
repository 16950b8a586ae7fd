import EspCars.Isotp.Exchange

/-!
# A transfer delivers its message

Over every schedule without a timeout neither machine fails, each reports at most once and
what the receiver reports is the message; over a fair one both report.
-/

namespace EspCars.Isotp

open EspCars.Lib Exchange TxTransfer

/-! ## One poll and one confirmation of the sender -/

theorem TxTransfer.offer_of_time (t : TxTransfer) (cfg : IsoTpConfig) (now : UInt32)
    (kind : TxTransfer.Pending)
    (h : t.pending = kind → elapsedMs now t.stallStart < cfg.txStallTimeoutMs) :
    ∃ stall, t.offer cfg now kind =
      (.sendFrame, { t with pending := kind, stallStart := stall }) := by
  unfold offer
  split_ifs with hp ht
  · exact ⟨now, rfl⟩
  · have hp' : t.pending = kind := by simpa using hp
    exact absurd ht (UInt32.not_le.mpr (h hp'))
  · have hp' : t.pending = kind := by simpa using hp
    subst hp'
    exact ⟨t.stallStart, rfl⟩

section Machines

variable {l : Link} {m : List UInt8}

/-- The sender holds the message and has confirmed `k` consecutive frames of it. -/
structure Sender (l : Link) (m : List UInt8) (k : Nat) (t : TxTransfer) : Prop where
  buffer : t.buffer.take m.length = m
  size : t.size = m.length
  sent : t.sent = sentAfter l m k
  sequence : t.sequence = seqAfter k

theorem drop_buffer {b : List UInt8} (hb : b.take m.length = m) {off n : Nat}
    (h : off + n ≤ m.length) : (b.drop off).take n = (m.drop off).take n := by
  have hm : m.take m.length = m := List.take_length
  exact slice_congr_take h (hb.trans hm.symm)

theorem length_of_take {b : List UInt8} (hb : b.take m.length = m) : m.length ≤ b.length := by
  have h := congrArg List.length hb
  rw [List.length_take] at h
  omega

variable {k : Nat} {t : TxTransfer} {now : UInt32}

/-- In the middle of a block, past STmin, the next consecutive frame is offered. -/
theorem Sender.poll_consecutive
    (h : Sender l m k t) (hmax : m.length ≤ maxClassicMessageSize) (hstate : t.state = .sendCf)
    (hgate : t.gated now = false)
    (htime : t.pending = .consecutive →
      elapsedMs now t.stallStart < l.txCfg.txStallTimeoutMs) :
    ∃ stall, t.poll l.txCfg now {} =
      (.sendFrame, consecutiveFrame l m k,
        { t with
          pendingSequence := seqAfter (k + 1)
          pendingTake := takeAfter l m k
          pending := .consecutive
          stallStart := stall }) := by
  have hle := sentAfter_le l m k
  have hlen := length_of_take h.buffer
  simp only [maxClassicMessageSize] at hmax
  have hsub : u16Sub t.size t.sent = m.length - sentAfter l m k := by
    rw [h.size, h.sent, u16Sub_of_le hle (by omega)]
  have hrest : m.length - sentAfter l m k ≤ (t.buffer.drop (sentAfter l m k)).length := by
    rw [List.length_drop]
    omega
  have htake : (t.buffer.drop (sentAfter l m k)).take (takeAfter l m k) =
      (m.drop (sentAfter l m k)).take (takeAfter l m k) :=
    drop_buffer h.buffer (by simp only [takeAfter]; omega)
  have henc : encodeConsecutiveFrame l.txCfg (t.buffer.drop t.sent) (u16Sub t.size t.sent)
      (seqAfter (k + 1)) {} = (consecutiveFrame l m k, takeAfter l m k) := by
    rw [hsub, h.sent, encodeConsecutiveFrame_eq (by rfl) hrest, consecutiveFrame, ← htake,
      takeAfter]
  obtain ⟨stall, hoffer⟩ := offer_of_time
    { t with pendingSequence := seqAfter (k + 1), pendingTake := takeAfter l m k } l.txCfg now
    .consecutive htime
  refine ⟨stall, ?_⟩
  unfold poll
  simp only [hstate, h.sequence] at hoffer ⊢
  simp only [hgate, seqAfter_succ, henc, hoffer, Bool.false_eq_true, if_false]

/-- Confirming it commits its sequence number and its bytes, and closes the message or the
block when it was the last of either. -/
theorem Sender.confirm_consecutive (now : UInt32)
    (h : Sender l m k t) (hmax : m.length ≤ maxClassicMessageSize) (hstate : t.state = .sendCf)
    (hpending : t.pending = .consecutive) (hseq : t.pendingSequence = seqAfter (k + 1))
    (htake : t.pendingTake = takeAfter l m k) (hblock : 0 < t.blockRemaining) :
    Sender l m (k + 1) (t.confirmSent l.txCfg now) ∧
      (t.confirmSent l.txCfg now).state =
        (if sentAfter l m (k + 1) = m.length then .done
          else if t.blockRemaining = 1 then .waitFc else .sendCf) ∧
      (sentAfter l m (k + 1) < m.length →
        (t.confirmSent l.txCfg now).blockRemaining = t.blockRemaining - 1) := by
  have hle := sentAfter_le l m (k + 1)
  simp only [maxClassicMessageSize] at hmax
  have hsent : u16Add t.sent t.pendingTake = sentAfter l m (k + 1) := by
    rw [h.sent, htake, sentAfter_succ] at *
    exact u16Add_of_lt (by omega)
  unfold confirmSent
  simp only [hpending, hsent, hseq, h.size]
  by_cases hend : sentAfter l m (k + 1) = m.length
  · rw [if_pos (by omega), if_pos hend]
    exact ⟨⟨h.buffer, rfl, rfl, rfl⟩, rfl, by omega⟩
  · rw [if_neg (by omega), if_neg hend, if_pos (by omega)]
    by_cases hone : t.blockRemaining = 1
    · rw [if_pos (by omega), if_pos hone]
      exact ⟨⟨h.buffer, rfl, rfl, rfl⟩, rfl, fun _ => rfl⟩
    · rw [if_neg (by omega), if_neg hone]
      exact ⟨⟨h.buffer, rfl, rfl, rfl⟩, hstate, fun _ => rfl⟩

/-- What `begin` leaves and refused polls keep: the message waits for its first frame. -/
structure Begun (m : List UInt8) (t : TxTransfer) : Prop where
  buffer : t.buffer.take m.length = m
  size : t.size = m.length
  sequence : t.sequence = 0
  state : t.state = .sendFirst

theorem Begun.of_begin {t' : TxTransfer} (h : t.begin m now = some t') : Begun m t' := by
  unfold begin at h
  split_ifs at h with hrefuse
  simp only [Option.some.injEq] at h
  subst h
  refine ⟨?_, rfl, rfl, rfl⟩
  have htake := take_blit t.buffer m (Nat.zero_le _)
  simpa using htake

theorem Begun.poll_single (h : Begun m t)
    (hpos : 1 ≤ m.length) (hfit : m.length ≤ singleFrameCapacity l.txCfg)
    (htime : t.pending = .single → elapsedMs now t.stallStart < l.txCfg.txStallTimeoutMs) :
    ∃ stall, t.poll l.txCfg now {} =
      (.sendFrame, singleFrame l m, { t with pending := .single, stallStart := stall }) := by
  have hlen := length_of_take h.buffer
  obtain ⟨stall, hoffer⟩ := offer_of_time t l.txCfg now .single htime
  refine ⟨stall, ?_⟩
  have henc : encodeSingleFrame l.txCfg t.buffer t.size {} = some (singleFrame l m) := by
    rw [h.size, encodeSingleFrame_eq (by rfl) hpos hfit hlen, h.buffer]
    simp only [singleFrame, List.take_length]
  unfold poll
  simp only [h.state, henc, hoffer, Option.getD_some]
  rw [if_pos (by rw [h.size]; exact hfit)]

theorem Begun.poll_first (h : Begun m t) (hmulti : singleFrameCapacity l.txCfg < m.length)
    (htime : t.pending = .first → elapsedMs now t.stallStart < l.txCfg.txStallTimeoutMs) :
    ∃ stall, t.poll l.txCfg now {} =
      (.sendFrame, firstFrame l m, { t with pending := .first, stallStart := stall }) := by
  have hlen := length_of_take h.buffer
  have hcap := capacities l.txCfg
  obtain ⟨stall, hoffer⟩ := offer_of_time t l.txCfg now .first htime
  refine ⟨stall, ?_⟩
  have htake : t.buffer.take (firstFrameCapacity l.txCfg) =
      m.take (firstFrameCapacity l.txCfg) := by
    have hdrop := drop_buffer h.buffer (show 0 + firstFrameCapacity l.txCfg ≤ m.length by omega)
    simpa using hdrop
  have henc : encodeFirstFrame l.txCfg t.buffer t.size {} = firstFrame l m := by
    rw [h.size, encodeFirstFrame_eq (by rfl) (by omega), htake, firstFrame]
  unfold poll
  simp only [h.state, henc, hoffer]
  rw [if_neg (by rw [h.size]; omega)]

/-! ## One frame at the receiver -/

/-- The receiver has the first frame and `k` consecutive frames, in the block that starts at
`base`. -/
structure Receiving (l : Link) (m : List UInt8) (base k : Nat) (r : RxTransfer) : Prop where
  state : r.state = .receiving
  room : m.length ≤ r.buffer.length
  expected : r.expected = m.length
  size : r.size = sentAfter l m k
  written : r.buffer.take (sentAfter l m k) = m.take (sentAfter l m k)
  sequence : r.sequence = seqAfter k
  block : r.blockRemaining = base + l.rxCfg.blockSize.toNat - k

theorem onFrame_single (r : RxTransfer) (now : UInt32) (hpos : 1 ≤ m.length)
    (hfit : m.length ≤ singleFrameCapacity l.txCfg) :
    ∃ f r', r.onFrame l.rxCfg (singleFrame l m).data (singleFrame l m).dlc now {} =
      (.messageComplete, f, r') ∧ r'.state = .idle ∧ r'.message = m := by
  obtain ⟨hdec, hslice⟩ := decodePci_single {} l.addressing (by rfl) hpos hfit
    (Nat.le_refl m.length)
  have htake := take_blit r.buffer m (Nat.zero_le _)
  unfold RxTransfer.onFrame singleFrame
  simp only [hdec, hslice]
  simp only [List.take_length]
  refine ⟨_, _, rfl, ?_, ?_⟩
  · rfl
  · simpa [RxTransfer.message] using htake

theorem onFrame_first {r : RxTransfer} (now : UInt32)
    (hmulti : singleFrameCapacity l.txCfg < m.length)
    (hmax : m.length ≤ maxClassicMessageSize) (hroom : r.buffer.length = r.capacity)
    (hfit : m.length ≤ r.capacity) :
    ∃ r', r.onFrame l.rxCfg (firstFrame l m).data (firstFrame l m).dlc now {} =
      (.sendFlowControl, grant l, r') ∧ Receiving l m 0 0 r' := by
  obtain ⟨hdec, hslice⟩ := decodePci_first {} l.addressing (by rfl) hmulti hmax
    (Nat.le_refl m.length)
  have hcap := capacities l.txCfg
  have hzero := sentAfter_zero l m hmulti
  have hlen : (m.take (firstFrameCapacity l.txCfg)).length = firstFrameCapacity l.txCfg := by
    rw [List.length_take]
    omega
  have htake := take_blit r.buffer (m.take (firstFrameCapacity l.txCfg)) (Nat.zero_le _)
  simp only [hlen, Nat.zero_add, List.take_zero, List.nil_append] at htake
  unfold RxTransfer.onFrame firstFrame RxTransfer.onFirst
  simp only [hdec, hslice]
  rw [if_neg (by omega)]
  refine ⟨_, rfl, rfl, ?_, rfl, hzero.symm, ?_, rfl, by simp⟩
  · dsimp only
    rw [blit_length (by rw [hlen]; omega)]
    omega
  · rw [hzero]
    exact htake

theorem Receiving.onFrame {base : Nat} {r : RxTransfer} (now : UInt32)
    (h : Receiving l m base k r) (hmax : m.length ≤ maxClassicMessageSize)
    (hlive : sentAfter l m k < m.length) (hblock : k < base + l.rxCfg.blockSize.toNat) :
    let f := consecutiveFrame l m k
    (sentAfter l m (k + 1) = m.length ∧ ∃ out r',
      r.onFrame l.rxCfg f.data f.dlc now {} = (.messageComplete, out, r') ∧
        r'.state = .idle ∧ r'.message = m) ∨
    (sentAfter l m (k + 1) < m.length ∧ k + 1 < base + l.rxCfg.blockSize.toNat ∧ ∃ out r',
      r.onFrame l.rxCfg f.data f.dlc now {} = (.nothing, out, r') ∧
        Receiving l m base (k + 1) r') ∨
    (sentAfter l m (k + 1) < m.length ∧ k + 1 = base + l.rxCfg.blockSize.toNat ∧ ∃ r',
      r.onFrame l.rxCfg f.data f.dlc now {} = (.sendFlowControl, grant l, r') ∧
        Receiving l m (k + 1) (k + 1) r') := by
  have hle := sentAfter_le l m (k + 1)
  have hsucc := sentAfter_succ l m k
  have htake : takeAfter l m k ≤ (m.drop (sentAfter l m k)).length := by
    simp only [takeAfter, List.length_drop]
    omega
  have hcap : takeAfter l m k ≤ consecutiveFrameCapacity l.txCfg := by
    simp only [takeAfter]
    omega
  have hcaps := capacities l.txCfg
  simp only [maxClassicMessageSize] at hmax
  obtain ⟨len, hnle, hlen, hdec, hslice⟩ := decodePci_consecutive {}
    (seqAfter (k + 1)) l.addressing (by rfl) hcap htake
  simp only [frameLen] at hlen
  have hmissing : u16Sub m.length (sentAfter l m k) = m.length - sentAfter l m k :=
    u16Sub_of_le (by omega) (by omega)
  have htaken : (if len < m.length - sentAfter l m k then len
      else m.length - sentAfter l m k) = takeAfter l m k := by
    simp only [takeAfter] at hnle ⊢
    split_ifs <;> omega
  have hsize : u16Add (sentAfter l m k) (takeAfter l m k) = sentAfter l m (k + 1) := by
    rw [hsucc]
    exact u16Add_of_lt (by omega)
  have hpiece : ((m.drop (sentAfter l m k)).take (takeAfter l m k)).length =
      takeAfter l m k := by
    rw [List.length_take]
    omega
  have hroom : (blit r.buffer (sentAfter l m k)
      ((m.drop (sentAfter l m k)).take (takeAfter l m k))).length = r.buffer.length :=
    blit_length (by rw [hpiece]; have := h.room; omega)
  have hwritten : (blit r.buffer (sentAfter l m k)
      ((m.drop (sentAfter l m k)).take (takeAfter l m k))).take (sentAfter l m (k + 1)) =
        m.take (sentAfter l m (k + 1)) := by
    have htb := take_blit r.buffer ((m.drop (sentAfter l m k)).take (takeAfter l m k))
      (show sentAfter l m k ≤ r.buffer.length by have := h.room; omega)
    rw [hpiece, h.written, ← hsucc] at htb
    rw [htb, take_sentAfter_succ]
  intro f
  have hrun : r.onFrame l.rxCfg f.data f.dlc now {} =
      r.onConsecutive l.rxCfg { type := .consecutive, sequence := seqAfter (k + 1) &&& 0x0F
                                payloadOffset := l.txCfg.addressExtensionLen + 1
                                payloadLen := len } f.data now {} := by
    unfold RxTransfer.onFrame
    simp only [f, consecutiveFrame, hdec]
  have hsrc : slice f.data (l.txCfg.addressExtensionLen + 1) (takeAfter l m k) =
      (m.drop (sentAfter l m k)).take (takeAfter l m k) := hslice
  rw [hrun]
  unfold RxTransfer.onConsecutive
  simp only [h.state, h.sequence, h.block, h.expected, h.size, hmissing, htaken, hsize,
    seqAfter_masked, seqAfter_succ, hsrc, ne_eq, not_true_eq_false, if_false]
  by_cases hend : sentAfter l m (k + 1) = m.length
  · left
    rw [if_pos (by omega)]
    refine ⟨hend, _, _, rfl, rfl, ?_⟩
    rw [RxTransfer.message, hwritten, hend, List.take_length]
  · right
    rw [if_neg (by omega), if_pos (by omega)]
    by_cases hlast : k + 1 = base + l.rxCfg.blockSize.toNat
    · right
      rw [if_pos (by omega)]
      refine ⟨by omega, hlast, _, rfl, ?_⟩
      exact ⟨rfl, by rw [hroom]; exact h.room, rfl, rfl, hwritten, rfl, by simp⟩
    · left
      rw [if_neg (by omega)]
      refine ⟨by omega, by omega, _, _, rfl, ?_⟩
      exact ⟨rfl, by rw [hroom]; exact h.room, rfl, rfl, hwritten, rfl, by dsimp only; omega⟩

end Machines

/-! ## What the pair can look like -/

/-- The receiver has reported the message and still shows it. -/
structure Delivered (m : List UInt8) (s : Exchange) : Prop where
  state : s.rx.state = .idle
  message : s.rx.message = m
  reports : s.rxReports = [(.messageComplete, m)]

/-- The sender has nothing left to send and has reported so, or will at its next poll. -/
def Sent (s : Exchange) : Prop :=
  (s.tx.state = .done ∧ s.txReports = []) ∨ (s.tx.state = .idle ∧ s.txReports = [.complete])

/-- The sender has confirmed `ks` consecutive frames, the receiver has taken `kr` of them, and
both are in the block that starts at `base`. -/
structure Segmented (l : Link) (m : List UInt8) (base kr ks : Nat) (s : Exchange) : Prop where
  multi : singleFrameCapacity l.txCfg < m.length
  block : base ≤ kr ∧ kr ≤ ks ∧ ks ≤ base + l.rxCfg.blockSize.toNat
  carried : ∀ j, j < ks → sentAfter l m j < m.length
  sender : Sender l m ks s.tx
  receiver : (sentAfter l m kr < m.length ∧ Receiving l m base kr s.rx ∧ s.rxReports = []) ∨
    (sentAfter l m kr = m.length ∧ Delivered m s)
  wire : s.wire = (List.range' kr (ks - kr)).map (consecutiveFrame l m)

/-- How far the transfer of `m` is. -/
inductive Phase (l : Link) (m : List UInt8) (s : Exchange) : Prop
  | begun (tx : Begun m s.tx) (rx : s.rx.state = .idle)
      (room : s.rx.buffer.length = s.rx.capacity ∧ m.length ≤ s.rx.capacity)
      (silent : s.wire = [] ∧ s.fcOut = [] ∧ s.fcWire = [])
      (unreported : s.txReports = [] ∧ s.rxReports = [])
  | single (fits : m.length ≤ singleFrameCapacity l.txCfg) (sent : Sent s)
      (silent : s.fcOut = [] ∧ s.fcWire = [])
      (received : (s.wire = [singleFrame l m] ∧ s.rxReports = []) ∨
        (s.wire = [] ∧ Delivered m s))
  | first (multi : singleFrameCapacity l.txCfg < m.length) (tx : Sender l m 0 s.tx)
      (waiting : s.tx.state = .waitFc)
      (room : s.rx.buffer.length = s.rx.capacity ∧ m.length ≤ s.rx.capacity)
      (wire : s.wire = [firstFrame l m])
      (silent : s.fcOut = [] ∧ s.fcWire = [])
      (unreported : s.txReports = [] ∧ s.rxReports = [])
  | sending (base kr ks : Nat) (seg : Segmented l m base kr ks s)
      (state : s.tx.state = .sendCf)
      (remaining : s.tx.blockRemaining + ks = base + l.rxCfg.blockSize.toNat)
      (inBlock : ks < base + l.rxCfg.blockSize.toNat)
      (more : sentAfter l m ks < m.length)
      (silent : s.fcOut = [] ∧ s.fcWire = []) (unreported : s.txReports = [])
  | blockSent (base kr ks : Nat) (seg : Segmented l m base kr ks s)
      (waiting : s.tx.state = .waitFc) (full : ks = base + l.rxCfg.blockSize.toNat)
      (behind : kr < ks) (more : sentAfter l m ks < m.length)
      (silent : s.fcOut = [] ∧ s.fcWire = []) (unreported : s.txReports = [])
  | granted (k : Nat) (seg : Segmented l m k k k s) (waiting : s.tx.state = .waitFc)
      (more : sentAfter l m k < m.length)
      (grant : s.fcWire ++ s.fcOut = [grant l]) (unreported : s.txReports = [])
  | sent (base kr ks : Nat) (seg : Segmented l m base kr ks s) (sent : Sent s)
      (whole : sentAfter l m ks = m.length) (silent : s.fcOut = [] ∧ s.fcWire = [])

/-- What is still to be sent, in frames weighted by the events each of them costs. -/
def rank (m : List UInt8) (s : Exchange) : Nat :=
  (match s.tx.state with
    | .sendFirst => 5 * m.length + 10
    | .waitFc => 5 * (m.length - s.tx.sent) + 2
    | .sendCf => 5 * (m.length - s.tx.sent) + 2
    | .done => 1
    | .idle => 0
    | .failed => 0) +
  3 * s.wire.length + 2 * s.fcOut.length + s.fcWire.length

/-- The event moves the transfer on. -/
def Productive (l : Link) (s : Exchange) : Event → Prop
  | .pollTx now accepted =>
    s.tx.state = .done ∨ (accepted.isSome ∧ s.tx.offering l.txCfg now ≠ .none)
  | .deliver _ => s.wire ≠ []
  | .pollRx _ => False
  | .offerFc accepted => s.fcOut ≠ [] ∧ accepted = true
  | .deliverFc _ => s.fcWire ≠ []

/-- What decides the rank and which events are productive. -/
def control (s : Exchange) : TxTransfer.State × Nat × List Frame × List Frame × List Frame :=
  (s.tx.state, s.tx.sent, s.wire, s.fcOut, s.fcWire)

variable {m : List UInt8} {s : Exchange} {l : Link}

theorem rank_of_control {s' : Exchange} (h : control s' = control s) : rank m s' = rank m s := by
  simp only [control, Prod.mk.injEq] at h
  obtain ⟨h1, h2, h3, h4, h5⟩ := h
  simp only [rank, h1, h2, h3, h4, h5]

/-- One event keeps the pair in a phase, and what does not bring it nearer to the end leaves
it where it was. -/
structure Advance (l : Link) (m : List UInt8) (s : Exchange) (e : Event) : Prop where
  phase : Phase l m (s.step l e)
  progress : rank m (s.step l e) < rank m s ∨
    (¬ Productive l s e ∧ control (s.step l e) = control s)

section Steps

variable {l : Link} {m : List UInt8} {s : Exchange} {now : UInt32}

theorem Advance.of_stays {e : Event} (hphase : Phase l m s) (hstep : s.step l e = s)
    (hidle : ¬ Productive l s e) : Advance l m s e :=
  ⟨by rw [hstep]; exact hphase, Or.inr ⟨hidle, by rw [hstep]⟩⟩

theorem step_pollRx (htime : NoTimeout l s (.pollRx now)) : s.step l (.pollRx now) = s := by
  have hpoll : s.rx.poll l.rxCfg now = (.nothing, s.rx) := by
    unfold RxTransfer.poll
    split_ifs with h1 h2
    · rfl
    · exact absurd h2 (UInt32.not_le.mpr (htime (by simpa using h1)))
    · rfl
  simp only [step, hpoll]

variable {accepted : Option UInt32} {base : Nat}

theorem step_pollTx_nothing (h : s.tx.poll l.txCfg now {} = (.nothing, {}, s.tx)) :
    s.step l (.pollTx now accepted) = s := by
  simp only [step, h]

/-- A sender that waits for flow control, or that STmin holds back, offers nothing. -/
theorem poll_waits {t : TxTransfer} {cfg : IsoTpConfig}
    (h : (t.state = .waitFc ∧ elapsedMs now t.timerStart < cfg.nBsTimeoutMs) ∨
      (t.state = .sendCf ∧ t.gated now = true)) : t.poll cfg now {} = (.nothing, {}, t) := by
  unfold poll
  rcases h with ⟨hstate, htime⟩ | ⟨hstate, hgate⟩
  · simp only [hstate]
    rw [if_neg (UInt32.not_le.mpr htime)]
  · simp only [hstate, hgate, if_true]

theorem Advance.of_waiting (hphase : Phase l m s)
    (hstate : s.tx.state = .waitFc) (htime : NoTimeout l s (.pollTx now accepted)) :
    Advance l m s (.pollTx now accepted) := by
  refine .of_stays hphase (step_pollTx_nothing (poll_waits (Or.inl ⟨hstate, htime.1 hstate⟩))) ?_
  simp [Productive, hstate, offering]

/-- A finished sender reports once and is idle from then on. -/
theorem step_pollTx_sent (l : Link) (now : UInt32) (accepted : Option UInt32) (h : Sent s) :
    (s.tx.state = .done ∧ s.step l (.pollTx now accepted) =
      { s with tx := { s.tx with state := .idle }, txReports := [.complete] }) ∨
    (s.tx.state = .idle ∧ s.step l (.pollTx now accepted) = s) := by
  rcases h with ⟨hstate, hrep⟩ | ⟨hstate, hrep⟩
  · have hpoll : s.tx.poll l.txCfg now {} = (.complete, {}, { s.tx with state := .idle }) := by
      unfold poll
      simp only [hstate]
    left
    exact ⟨hstate, by simp only [step, hpoll, hrep, List.nil_append]⟩
  · right
    refine ⟨hstate, step_pollTx_nothing ?_⟩
    unfold poll
    simp only [hstate]

theorem Advance.of_sent (hphase : Phase l m s) (h : Sent s) (hidle : Phase l m
      { s with tx := { s.tx with state := .idle }, txReports := [.complete] }) :
    Advance l m s (.pollTx now accepted) := by
  rcases step_pollTx_sent l now accepted h with
      ⟨hstate, hstep⟩ | ⟨hstate, hstep⟩
  · refine ⟨hstep ▸ hidle, Or.inl ?_⟩
    rw [hstep]
    simp only [rank, hstate]
    omega
  · exact .of_stays hphase hstep (by simp [Productive, offering, hstate])

theorem Advance.of_begun (tx : Begun m s.tx) (hpos : 1 ≤ m.length) (rx : s.rx.state = .idle)
    (room : s.rx.buffer.length = s.rx.capacity ∧ m.length ≤ s.rx.capacity)
    (silent : s.wire = [] ∧ s.fcOut = [] ∧ s.fcWire = [])
    (unreported : s.txReports = [] ∧ s.rxReports = [])
    (htime : NoTimeout l s (.pollTx now accepted)) : Advance l m s (.pollTx now accepted) := by
  obtain ⟨hwire, hout, hfc⟩ := silent
  obtain ⟨htx, hrx⟩ := unreported
  have hoffering : s.tx.offering l.txCfg now =
      if m.length ≤ singleFrameCapacity l.txCfg then .single else .first := by
    simp only [offering, tx.state, tx.size]
  by_cases hfit : m.length ≤ singleFrameCapacity l.txCfg
  · rw [if_pos hfit] at hoffering
    obtain ⟨stall, hpoll⟩ := tx.poll_single hpos hfit
      (fun hp => htime.2 (by rw [hoffering]; decide) (by rw [hoffering, hp]))
    cases accepted with
    | none =>
      have hstep : s.step l (.pollTx now none) =
          { s with tx := { s.tx with pending := .single, stallStart := stall } } := by
        simp only [step, hpoll]
      refine ⟨?_, Or.inr ⟨by simp [Productive, tx.state], by rw [hstep]; rfl⟩⟩
      rw [hstep]
      exact .begun ⟨tx.buffer, tx.size, tx.sequence, tx.state⟩ rx room ⟨hwire, hout, hfc⟩
        ⟨htx, hrx⟩
    | some time =>
      have hstep : s.step l (.pollTx now (some time)) =
          { s with
            tx := { s.tx with state := .done, pending := .none, stallStart := stall }
            wire := [singleFrame l m] } := by
        simp only [step, hpoll, hwire, List.nil_append, confirmSent]
      refine ⟨?_, Or.inl ?_⟩
      · rw [hstep]
        exact .single hfit (Or.inl ⟨rfl, htx⟩) ⟨hout, hfc⟩ (Or.inl ⟨rfl, hrx⟩)
      · rw [hstep]
        simp [rank, tx.state, hwire, hout, hfc]
  · rw [if_neg hfit] at hoffering
    obtain ⟨stall, hpoll⟩ := tx.poll_first (Nat.lt_of_not_le hfit)
      (fun hp => htime.2 (by rw [hoffering]; decide) (by rw [hoffering, hp]))
    have hzero := sentAfter_zero l m (Nat.lt_of_not_le hfit)
    cases accepted with
    | none =>
      have hstep : s.step l (.pollTx now none) =
          { s with tx := { s.tx with pending := .first, stallStart := stall } } := by
        simp only [step, hpoll]
      refine ⟨?_, Or.inr ⟨by simp [Productive, tx.state], by rw [hstep]; rfl⟩⟩
      rw [hstep]
      exact .begun ⟨tx.buffer, tx.size, tx.sequence, tx.state⟩ rx room ⟨hwire, hout, hfc⟩
        ⟨htx, hrx⟩
    | some time =>
      have hstep : s.step l (.pollTx now (some time)) =
          { s with
            tx := { s.tx with
              sent := firstFrameCapacity l.txCfg
              state := .waitFc
              timerStart := time
              pending := .none
              stallStart := stall }
            wire := [firstFrame l m] } := by
        simp only [step, hpoll, hwire, List.nil_append, confirmSent]
      refine ⟨?_, Or.inl ?_⟩
      · rw [hstep]
        exact .first (Nat.lt_of_not_le hfit) ⟨tx.buffer, tx.size, hzero.symm, tx.sequence⟩ rfl
          room rfl ⟨hout, hfc⟩ ⟨htx, hrx⟩
      · rw [hstep]
        simp [rank, tx.state, hwire, hout, hfc]
        omega

/-- In the middle of a block the next frame goes out, is refused or is held back by STmin. -/
theorem Advance.of_sending {kr ks : Nat}
    (hmax : m.length ≤ maxClassicMessageSize) (seg : Segmented l m base kr ks s)
    (state : s.tx.state = .sendCf)
    (remaining : s.tx.blockRemaining + ks = base + l.rxCfg.blockSize.toNat)
    (inBlock : ks < base + l.rxCfg.blockSize.toNat) (more : sentAfter l m ks < m.length)
    (silent : s.fcOut = [] ∧ s.fcWire = []) (unreported : s.txReports = [])
    (htime : NoTimeout l s (.pollTx now accepted)) : Advance l m s (.pollTx now accepted) := by
  have hphase : Phase l m s :=
    .sending base kr ks seg state remaining inBlock more silent unreported
  cases hgate : s.tx.gated now with
  | true =>
    refine .of_stays hphase (step_pollTx_nothing (poll_waits (Or.inr ⟨state, hgate⟩))) ?_
    simp [Productive, offering, state, hgate]
  | false =>
    have hoffering : s.tx.offering l.txCfg now = .consecutive := by
      simp [offering, state, hgate]
    obtain ⟨stall, hpoll⟩ := seg.sender.poll_consecutive hmax state hgate
      (fun hp => htime.2 (by rw [hoffering]; decide) (by rw [hoffering, hp]))
    generalize htx : ({ s.tx with
      pendingSequence := seqAfter (ks + 1)
      pendingTake := takeAfter l m ks
      pending := .consecutive
      stallStart := stall } : TxTransfer) = tx at hpoll
    have hsender : Sender l m ks tx := by
      subst htx
      exact ⟨seg.sender.buffer, seg.sender.size, seg.sender.sent, seg.sender.sequence⟩
    have hstate : tx.state = .sendCf := by
      subst htx
      exact state
    have hremaining : tx.blockRemaining = s.tx.blockRemaining := by
      subst htx
      rfl
    have hblock := seg.block
    have hreceiver := seg.receiver
    cases accepted with
    | none =>
      have hstep : s.step l (.pollTx now none) = { s with tx := tx } := by
        simp only [step, hpoll]
      refine ⟨?_, Or.inr ⟨by simp [Productive, state], ?_⟩⟩
      · rw [hstep]
        refine .sending base kr ks ⟨seg.multi, hblock, seg.carried, hsender, ?_, seg.wire⟩ hstate
          (by dsimp only; omega) inBlock more silent unreported
        rcases hreceiver with h | ⟨h, hd⟩
        · exact Or.inl h
        · exact Or.inr ⟨h, hd.state, hd.message, hd.reports⟩
      · rw [hstep]
        simp only [control, hstate, state, hsender.sent, seg.sender.sent]
    | some time =>
      have hstep : s.step l (.pollTx now (some time)) =
          { s with
            tx := tx.confirmSent l.txCfg time
            wire := s.wire ++ [consecutiveFrame l m ks] } := by
        simp only [step, hpoll]
      obtain ⟨hnext, hnextState, hnextBlock⟩ := hsender.confirm_consecutive time hmax
        hstate (by rw [← htx]) (by rw [← htx]) (by rw [← htx]) (by omega)
      have hpos := takeAfter_pos l m more
      have hsucc := sentAfter_succ l m ks
      have hle := sentAfter_le l m (ks + 1)
      have hseg : Segmented l m base kr (ks + 1) (s.step l (.pollTx now (some time))) := by
        rw [hstep]
        refine ⟨seg.multi, by omega, ?_, hnext, ?_, ?_⟩
        · intro j hj
          rcases Nat.lt_succ_iff_lt_or_eq.mp hj with hlt | rfl
          · exact seg.carried j hlt
          · exact more
        · rcases hreceiver with h | ⟨h, hd⟩
          · exact Or.inl h
          · exact Or.inr ⟨h, hd.state, hd.message, hd.reports⟩
        · dsimp only
          rw [seg.wire, Nat.succ_sub hblock.2.1, List.range'_concat, List.map_append]
          congr 3
          omega
      have hrank : rank m (s.step l (.pollTx now (some time))) < rank m s := by
        rw [hstep]
        simp only [rank, hnextState, state, hnext.sent, seg.sender.sent, List.length_append,
          List.length_singleton]
        split_ifs <;> dsimp only <;> omega
      refine ⟨?_, Or.inl hrank⟩
      by_cases hend : sentAfter l m (ks + 1) = m.length
      · rw [if_pos hend] at hnextState
        refine .sent base kr (ks + 1) hseg ?_ hend ?_
        · rw [hstep]
          exact Or.inl ⟨hnextState, unreported⟩
        · rw [hstep]
          exact silent
      · rw [if_neg hend] at hnextState
        have hmore : sentAfter l m (ks + 1) < m.length := by omega
        have hb := hnextBlock hmore
        by_cases hone : tx.blockRemaining = 1
        · rw [if_pos hone] at hnextState
          refine .blockSent base kr (ks + 1) hseg ?_ (by omega) (by omega) hmore ?_ ?_ <;>
            rw [hstep]
          · exact hnextState
          · exact silent
          · exact unreported
        · rw [if_neg hone] at hnextState
          refine .sending base kr (ks + 1) hseg ?_ ?_ (by omega) hmore ?_ ?_ <;> rw [hstep]
          · exact hnextState
          · dsimp only
            omega
          · exact silent
          · exact unreported

/-- The frame at the head of the wire reaches the receiver, which takes it, closes the block
or closes the message. -/
theorem Segmented.deliver {kr ks : Nat} (now : UInt32) (hmax : m.length ≤ maxClassicMessageSize)
    (seg : Segmented l m base kr ks s) (hlt : kr < ks) :
    let s' := s.step l (.deliver now)
    s'.tx = s.tx ∧ s'.fcWire = s.fcWire ∧ s'.txReports = s.txReports ∧
      s'.wire.length + 1 = s.wire.length ∧
      ((s'.fcOut = s.fcOut ∧ Segmented l m base (kr + 1) ks s' ∧
          (sentAfter l m (kr + 1) < m.length → kr + 1 < base + l.rxCfg.blockSize.toNat)) ∨
        (kr + 1 = base + l.rxCfg.blockSize.toNat ∧ sentAfter l m (kr + 1) < m.length ∧
          s'.fcOut = s.fcOut ++ [grant l] ∧ Segmented l m (kr + 1) (kr + 1) ks s')) := by
  have hlive := seg.carried kr hlt
  obtain ⟨hb1, hb2, hb3⟩ := seg.block
  have hwire : s.wire = consecutiveFrame l m kr ::
      (List.range' (kr + 1) (ks - (kr + 1))).map (consecutiveFrame l m) := by
    rw [seg.wire, show ks - kr = ks - (kr + 1) + 1 by omega, List.range'_succ, List.map_cons]
  rcases seg.receiver with ⟨_, hrecv, hreports⟩ | ⟨h, _⟩
  rotate_left
  · omega
  rcases hrecv.onFrame now hmax hlive (by omega) with
      ⟨hend, out, r, hrun, hidle, hmessage⟩ | ⟨hmore, hin, out, r, hrun, hnext⟩ |
      ⟨hmore, hlast, r, hrun, hnext⟩
  · simp only [step, hwire, hrun, hreports, List.nil_append, hmessage]
    refine ⟨trivial, trivial, trivial, rfl, Or.inl ⟨trivial, ?_, by omega⟩⟩
    exact ⟨seg.multi, by omega, seg.carried, seg.sender, Or.inr ⟨hend, hidle, hmessage, rfl⟩, rfl⟩
  · simp only [step, hwire, hrun]
    refine ⟨trivial, trivial, trivial, rfl, Or.inl ⟨trivial, ?_, fun _ => hin⟩⟩
    exact ⟨seg.multi, by omega, seg.carried, seg.sender, Or.inl ⟨hmore, hnext, hreports⟩, rfl⟩
  · simp only [step, hwire, hrun]
    refine ⟨trivial, trivial, trivial, rfl, Or.inr ⟨hlast, hmore, trivial, ?_⟩⟩
    exact ⟨seg.multi, by omega, seg.carried, seg.sender, Or.inl ⟨hmore, hnext, hreports⟩, rfl⟩

/-- A frame off the wire outweighs the flow control it may cause. -/
theorem rank_of_taken {s' : Exchange} (htx : s'.tx = s.tx) (hfc : s'.fcWire = s.fcWire)
    (hwire : s'.wire.length + 1 = s.wire.length)
    (hout : s'.fcOut.length ≤ s.fcOut.length + 1) : rank m s' < rank m s := by
  simp only [rank, htx, hfc]
  omega

theorem Segmented.wire_nil {k : Nat} (seg : Segmented l m base k k s) : s.wire = [] := by
  rw [seg.wire, Nat.sub_self]
  rfl

theorem step_deliver_nil (h : s.wire = []) : s.step l (.deliver now) = s := by
  simp only [step, h]

theorem Advance.of_deliver (hmax : m.length ≤ maxClassicMessageSize) (hpos : 1 ≤ m.length)
    (hphase : Phase l m s) : Advance l m s (.deliver now) := by
  have hnil : s.wire = [] → Advance l m s (.deliver now) := fun h =>
    .of_stays hphase (step_deliver_nil h) (by simp [Productive, h])
  cases hphase with
  | begun _ _ _ silent _ => exact hnil silent.1
  | granted k seg _ _ _ _ => exact hnil seg.wire_nil
  | single fits sent silent received =>
    rcases received with ⟨hwire, hreports⟩ | ⟨hwire, _⟩
    · obtain ⟨out, r, hrun, hidle, hmessage⟩ := onFrame_single s.rx now hpos fits
      have hstep : s.step l (.deliver now) =
          { s with rx := r, wire := [], rxReports := [(.messageComplete, m)] } := by
        simp only [step, hwire, hrun, hreports, List.nil_append, hmessage]
      refine ⟨?_, Or.inl (rank_of_taken ?_ ?_ ?_ ?_)⟩ <;> rw [hstep]
      · exact .single fits sent silent (Or.inr ⟨rfl, hidle, hmessage, rfl⟩)
      · simp [hwire]
      · simp
    · exact hnil hwire
  | first multi tx waiting room wire silent unreported =>
    obtain ⟨r, hrun, hrecv⟩ := onFrame_first now multi hmax room.1 room.2
    have hstep : s.step l (.deliver now) =
        { s with rx := r, wire := [], fcOut := [grant l] } := by
      simp only [step, wire, hrun, silent.1, List.nil_append]
    have hzero := sentAfter_zero l m multi
    have hcaps := capacities l.txCfg
    refine ⟨?_, Or.inl (rank_of_taken ?_ ?_ ?_ ?_)⟩ <;> rw [hstep]
    · refine .granted 0 ⟨multi, by omega, by omega, tx, Or.inl ⟨by omega, hrecv, ?_⟩, rfl⟩
        waiting (by omega) ?_ unreported.1
      · exact unreported.2
      · dsimp only
        rw [silent.2]
        rfl
    · simp [wire]
    · simp
  | sending base kr ks seg state remaining inBlock more silent unreported =>
    rcases Nat.lt_or_eq_of_le seg.block.2.1 with hlt | rfl
    · obtain ⟨htx, hfc, hrep, hwire, ⟨hout, hseg, _⟩ | ⟨hlast, _⟩⟩ :=
        seg.deliver now hmax hlt
      · refine ⟨?_, Or.inl (rank_of_taken htx hfc hwire (by rw [hout]; omega))⟩
        exact .sending base (kr + 1) ks hseg (htx ▸ state) (htx ▸ remaining) inBlock more
          ⟨hout.trans silent.1, hfc.trans silent.2⟩ (hrep.trans unreported)
      · omega
    · exact hnil seg.wire_nil
  | blockSent base kr ks seg waiting full behind more silent unreported =>
    obtain ⟨htx, hfc, hrep, hwire, ⟨hout, hseg, hin⟩ | ⟨hlast, _, hout, hseg⟩⟩ :=
      seg.deliver now hmax behind
    · refine ⟨?_, Or.inl (rank_of_taken htx hfc hwire (by rw [hout]; omega))⟩
      have hmono := sentAfter_mono l m (show kr + 1 ≤ ks by omega)
      have hlt := hin (by omega)
      exact .blockSent base (kr + 1) ks hseg (htx ▸ waiting) full (by omega) more
        ⟨hout.trans silent.1, hfc.trans silent.2⟩ (hrep.trans unreported)
    · refine ⟨?_, Or.inl (rank_of_taken htx hfc hwire (by rw [hout]; simp))⟩
      obtain rfl : kr + 1 = ks := by omega
      refine .granted (kr + 1) hseg (htx ▸ waiting) more ?_ (hrep.trans unreported)
      rw [hout, hfc, silent.1, silent.2]
      rfl
  | sent base kr ks seg sent whole silent =>
    rcases Nat.lt_or_eq_of_le seg.block.2.1 with hlt | rfl
    · obtain ⟨htx, hfc, hrep, hwire, ⟨hout, hseg, _⟩ | ⟨hlast, hmore, hout, _⟩⟩ :=
        seg.deliver now hmax hlt
      · refine ⟨?_, Or.inl (rank_of_taken htx hfc hwire (by rw [hout]; omega))⟩
        refine .sent base (kr + 1) ks hseg ?_ whole ⟨hout.trans silent.1, hfc.trans silent.2⟩
        rw [Sent, htx, hrep]
        exact sent
      · have := seg.block
        obtain rfl : kr + 1 = ks := by omega
        omega
    · exact hnil seg.wire_nil

theorem Advance.of_pollTx (hmax : m.length ≤ maxClassicMessageSize)
    (hpos : 1 ≤ m.length) (hphase : Phase l m s)
    (htime : NoTimeout l s (.pollTx now accepted)) : Advance l m s (.pollTx now accepted) := by
  cases hphase with
  | begun tx rx room silent unreported => exact .of_begun tx hpos rx room silent unreported htime
  | first multi tx waiting room wire silent unreported =>
    exact .of_waiting (.first multi tx waiting room wire silent unreported) waiting htime
  | sending base kr ks seg state remaining inBlock more silent unreported =>
    exact .of_sending hmax seg state remaining inBlock more silent unreported htime
  | blockSent base kr ks seg waiting full behind more silent unreported =>
    exact .of_waiting (.blockSent base kr ks seg waiting full behind more silent unreported)
      waiting htime
  | granted k seg waiting more grant unreported =>
    exact .of_waiting (.granted k seg waiting more grant unreported) waiting htime
  | single fits sent silent received =>
    refine .of_sent (.single fits sent silent received) sent
      (.single fits (Or.inr ⟨rfl, rfl⟩) silent ?_)
    rcases received with h | ⟨hwire, hd⟩
    · exact Or.inl h
    · exact Or.inr ⟨hwire, hd.state, hd.message, hd.reports⟩
  | sent base kr ks seg sent whole silent =>
    refine .of_sent (.sent base kr ks seg sent whole silent) sent
      (.sent base kr ks ⟨seg.multi, seg.block, seg.carried, ?_, ?_, seg.wire⟩
        (Or.inr ⟨rfl, rfl⟩) whole silent)
    · exact ⟨seg.sender.buffer, seg.sender.size, seg.sender.sent, seg.sender.sequence⟩
    · rcases seg.receiver with h | ⟨h, hd⟩
      · exact Or.inl h
      · exact Or.inr ⟨h, hd.state, hd.message, hd.reports⟩

/-- Only a granted block has a flow control on its way. -/
theorem Phase.fc_cases (h : Phase l m s) :
    (s.fcOut = [] ∧ s.fcWire = []) ∨
      ∃ k, Segmented l m k k k s ∧ s.tx.state = .waitFc ∧ sentAfter l m k < m.length ∧
        s.fcWire ++ s.fcOut = [grant l] ∧ s.txReports = [] := by
  cases h with
  | granted k seg waiting more grant unreported =>
    exact Or.inr ⟨k, seg, waiting, more, grant, unreported⟩
  | begun _ _ _ silent _ => exact Or.inl silent.2
  | single _ _ silent _ => exact Or.inl silent
  | first _ _ _ _ _ silent _ => exact Or.inl silent
  | sending _ _ _ _ _ _ _ _ silent _ => exact Or.inl silent
  | blockSent _ _ _ _ _ _ _ _ silent _ => exact Or.inl silent
  | sent _ _ _ _ _ _ silent => exact Or.inl silent

theorem Advance.of_offerFc {accepted : Bool} (hphase : Phase l m s) :
    Advance l m s (.offerFc accepted) := by
  cases hout : s.fcOut with
  | nil =>
    exact .of_stays hphase (by simp only [step, hout]) (by simp [Productive, hout])
  | cons f rest =>
    rcases hphase.fc_cases with ⟨h, _⟩ | ⟨k, seg, waiting, more, hgrant, unreported⟩
    · rw [h] at hout
      cases hout
    · have hwire : s.fcWire = [] := by
        have hlen := congrArg List.length hgrant
        rw [hout] at hlen
        simp only [List.length_append, List.length_cons, List.length_nil] at hlen
        exact List.eq_nil_of_length_eq_zero (by omega)
      rw [hwire, List.nil_append] at hgrant
      cases accepted with
      | false =>
        exact .of_stays hphase (by simp [step, hgrant]) (by simp [Productive])
      | true =>
        have hstep : s.step l (.offerFc true) = { s with fcOut := [], fcWire := [grant l] } := by
          simp [step, hgrant, hwire]
        refine ⟨?_, Or.inl ?_⟩ <;> rw [hstep]
        · refine .granted k ⟨seg.multi, seg.block, seg.carried, seg.sender, ?_, seg.wire⟩ waiting
            more rfl unreported
          rcases seg.receiver with h | ⟨h, hd⟩
          · exact Or.inl h
          · exact Or.inr ⟨h, hd.state, hd.message, hd.reports⟩
        · simp [rank, hgrant, hwire]

theorem Advance.of_deliverFc (hphase : Phase l m s) : Advance l m s (.deliverFc now) := by
  cases hfc : s.fcWire with
  | nil =>
    exact .of_stays hphase (by simp only [step, hfc]) (by simp [Productive, hfc])
  | cons f rest =>
    rcases hphase.fc_cases with ⟨_, h⟩ | ⟨k, seg, waiting, more, hgrant, unreported⟩
    · rw [h] at hfc
      cases hfc
    · have hout : s.fcOut = [] := by
        have hlen := congrArg List.length hgrant
        rw [hfc] at hlen
        simp only [List.length_append, List.length_cons, List.length_nil] at hlen
        exact List.eq_nil_of_length_eq_zero (by omega)
      rw [hout, List.append_nil] at hgrant
      have hdec : decodePci l.txCfg (grant l).data (grant l).dlc =
          { type := .flowControl, status := .continue, blockSize := l.rxCfg.blockSize
            stMinRaw := l.rxCfg.stMinRaw } := by
        rw [Isotp.grant, encodeFlowControl_eq (by rfl)]
        exact decodePci_flowControl {} l.addressing.symm (by rfl)
      have hstep : s.step l (.deliverFc now) =
          { s with
            fcWire := []
            tx := { s.tx with
              blockRemaining := l.rxCfg.blockSize.toNat
              stMinMs := stMinToMs l.rxCfg.stMinRaw
              lastCfMs := now - stMinToMs l.rxCfg.stMinRaw
              state := .sendCf } } := by
        simp [step, hgrant, hdec, onFlowControl, waiting]
      have hblock : 0 < l.rxCfg.blockSize.toNat := by
        refine Nat.pos_of_ne_zero fun h => l.blockSize ?_
        exact UInt8.toNat_inj.mp h
      refine ⟨?_, Or.inl ?_⟩ <;> rw [hstep]
      · refine .sending k k k ⟨seg.multi, seg.block, seg.carried, ?_, ?_, seg.wire⟩ rfl
          (Nat.add_comm _ _) (by omega) more ⟨hout, rfl⟩ unreported
        · exact ⟨seg.sender.buffer, seg.sender.size, seg.sender.sent, seg.sender.sequence⟩
        · rcases seg.receiver with h | ⟨h, hd⟩
          · exact Or.inl h
          · exact Or.inr ⟨h, hd.state, hd.message, hd.reports⟩
      · simp [rank, hgrant, waiting]

/-- Every event, in every phase. -/
theorem Phase.step {e : Event} (hmax : m.length ≤ maxClassicMessageSize) (hpos : 1 ≤ m.length)
    (hphase : Phase l m s) (htime : NoTimeout l s e) : Advance l m s e := by
  cases e with
  | pollTx now accepted => exact .of_pollTx hmax hpos hphase htime
  | deliver now => exact .of_deliver hmax hpos hphase
  | pollRx now => exact .of_stays hphase (step_pollRx htime) (by simp [Productive])
  | offerFc accepted => exact .of_offerFc hphase
  | deliverFc now => exact .of_deliverFc hphase

end Steps

/-! ## Runs -/

theorem Phase.of_start (h : Start m s) : Phase l m s := by
  obtain ⟨t, now, _, hbegin⟩ := h.begun
  exact .begun (.of_begin hbegin) h.idle h.room h.silent h.unreported

theorem Phase.reports (h : Phase l m s) : (s.txReports = [] ∨ s.txReports = [.complete]) ∧
      (s.rxReports = [] ∨ s.rxReports = [(.messageComplete, m)]) := by
  have hsent : Sent s → s.txReports = [] ∨ s.txReports = [.complete] := by
    rintro (⟨_, h⟩ | ⟨_, h⟩)
    · exact Or.inl h
    · exact Or.inr h
  have hrecv : ∀ {base kr ks}, Segmented l m base kr ks s →
      s.rxReports = [] ∨ s.rxReports = [(.messageComplete, m)] := by
    intro base kr ks seg
    rcases seg.receiver with ⟨_, _, h⟩ | ⟨_, hd⟩
    · exact Or.inl h
    · exact Or.inr hd.reports
  cases h with
  | begun _ _ _ _ unreported => exact ⟨Or.inl unreported.1, Or.inl unreported.2⟩
  | single _ sent _ received =>
    refine ⟨hsent sent, ?_⟩
    rcases received with ⟨_, h⟩ | ⟨_, hd⟩
    · exact Or.inl h
    · exact Or.inr hd.reports
  | first _ _ _ _ _ _ unreported => exact ⟨Or.inl unreported.1, Or.inl unreported.2⟩
  | sending _ _ _ seg _ _ _ _ _ unreported => exact ⟨Or.inl unreported, hrecv seg⟩
  | blockSent _ _ _ seg _ _ _ _ _ unreported => exact ⟨Or.inl unreported, hrecv seg⟩
  | granted _ seg _ _ _ unreported => exact ⟨Or.inl unreported, hrecv seg⟩
  | sent _ _ _ seg sent _ _ => exact ⟨hsent sent, hrecv seg⟩

/-- Short of the end something is in flight or the sender has something to offer. -/
theorem Phase.enabled (h : Phase l m s) : s.wire ≠ [] ∨ s.fcOut ≠ [] ∨ s.fcWire ≠ [] ∨
      s.tx.state = .sendFirst ∨ s.tx.state = .sendCf ∨ s.tx.state = .done ∨
      (rank m s = 0 ∧ s.txReports = [.complete] ∧ Delivered m s) := by
  cases h with
  | begun tx _ _ _ _ => exact Or.inr (Or.inr (Or.inr (Or.inl tx.state)))
  | sending _ _ _ _ state _ _ _ _ _ => exact Or.inr (Or.inr (Or.inr (Or.inr (Or.inl state))))
  | first _ _ _ _ wire _ _ => exact Or.inl (by rw [wire]; simp)
  | blockSent base kr ks seg _ _ behind _ _ _ =>
    left
    rw [seg.wire, show ks - kr = ks - (kr + 1) + 1 by omega, List.range'_succ]
    simp
  | granted _ _ _ _ grant _ =>
    by_cases hout : s.fcOut = []
    · right; right; left
      intro hwire
      rw [hout, hwire] at grant
      cases grant
    · exact Or.inr (Or.inl hout)
  | single _ sent silent received =>
    rcases received with ⟨hwire, _⟩ | ⟨hwire, hd⟩
    · exact Or.inl (by rw [hwire]; simp)
    · rcases sent with ⟨hstate, _⟩ | ⟨hstate, hrep⟩
      · exact Or.inr (Or.inr (Or.inr (Or.inr (Or.inr (Or.inl hstate)))))
      · have hzero : rank m s = 0 := by simp [rank, hstate, hwire, silent.1, silent.2]
        exact Or.inr (Or.inr (Or.inr (Or.inr (Or.inr (Or.inr ⟨hzero, hrep, hd⟩)))))
  | sent base kr ks seg sent whole silent =>
    rcases Nat.lt_or_eq_of_le seg.block.2.1 with hlt | rfl
    · left
      rw [seg.wire, show ks - kr = ks - (kr + 1) + 1 by omega, List.range'_succ]
      simp
    · rcases sent with ⟨hstate, _⟩ | ⟨hstate, hrep⟩
      · exact Or.inr (Or.inr (Or.inr (Or.inr (Or.inr (Or.inl hstate)))))
      · rcases seg.receiver with ⟨hlt, _⟩ | ⟨_, hd⟩
        · omega
        · have hzero : rank m s = 0 := by
            simp [rank, hstate, seg.wire_nil, silent.1, silent.2]
          exact Or.inr (Or.inr (Or.inr (Or.inr (Or.inr (Or.inr ⟨hzero, hrep, hd⟩)))))

/-- Once nothing is left to send or to deliver, both machines have reported. -/
theorem Phase.finished (h : Phase l m s)
    (hzero : rank m s = 0) : s.txReports = [.complete] ∧ Delivered m s := by
  have hsum := hzero
  simp only [rank] at hsum
  have hlen : s.wire.length = 0 ∧ s.fcOut.length = 0 ∧ s.fcWire.length = 0 := by omega
  simp only [List.length_eq_zero_iff] at hlen
  rcases h.enabled with h | h | h | h | h | h | h
  · exact absurd hlen.1 h
  · exact absurd hlen.2.1 h
  · exact absurd hlen.2.2 h
  · simp [h] at hsum
  · simp [h] at hsum
  · simp [h] at hsum
  · exact h.2

section Runs

variable {l : Link} {m : List UInt8} {s : Exchange} {sched : Nat → Event}

theorem advance_at (hs : Start m s)
    (htime : ∀ n, NoTimeout l (stateAt (step l) s sched n) (sched n)) (n : Nat) :
    Advance l m (stateAt (step l) s sched n) (sched n) := by
  refine Phase.step hs.length.2 hs.length.1 ?_ (htime n)
  exact stateAt_invariant (Phase.of_start hs)
    (fun n h => (h.step hs.length.2 hs.length.1 (htime n)).phase) n

theorem phase_at (hs : Start m s)
    (htime : ∀ n, NoTimeout l (stateAt (step l) s sched n) (sched n)) (n : Nat) :
    Phase l m (stateAt (step l) s sched n) := by
  cases n with
  | zero => exact Phase.of_start hs
  | succ n => exact (advance_at hs htime n).phase

/-- Short of the end, a fair schedule has a later event that would be productive now. -/
theorem Fair.productive (hs : Start m s)
    (htime : ∀ n, NoTimeout l (stateAt (step l) s sched n) (sched n))
    (hfair : Fair l s sched) (n : Nat)
    (hopen : rank m (stateAt (step l) s sched n) ≠ 0) :
    ∃ k, n ≤ k ∧ (control (stateAt (step l) s sched k) =
        control (stateAt (step l) s sched n) →
      Productive l (stateAt (step l) s sched k) (sched k)) := by
  have hpolled : ∀ st, (stateAt (step l) s sched n).tx.state = st →
      st = .sendFirst ∨ st = .sendCf ∨ st = .done →
      ∃ k, n ≤ k ∧ (control (stateAt (step l) s sched k) =
          control (stateAt (step l) s sched n) →
        Productive l (stateAt (step l) s sched k) (sched k)) := by
    intro st hst hcases
    obtain ⟨k, hnk, now, time, hk, hgate⟩ := hfair.pollTx n (by
      rcases hcases with rfl | rfl | rfl <;> simp [isBusy, hst])
    refine ⟨k, hnk, fun hctl => ?_⟩
    have hstate : (stateAt (step l) s sched k).tx.state = st :=
      (congrArg Prod.fst hctl).trans hst
    rw [hk]
    rcases hcases with rfl | rfl | rfl
    · refine Or.inr ⟨rfl, ?_⟩
      simp only [offering, hstate]
      split_ifs <;> decide
    · refine Or.inr ⟨rfl, ?_⟩
      simp only [offering, hstate, hgate hstate]
      decide
    · exact Or.inl hstate
  rcases (phase_at hs htime n).enabled with h | h | h | h | h | h | h
  · obtain ⟨k, hnk, now, hk⟩ := hfair.deliver n h
    refine ⟨k, hnk, fun hctl => ?_⟩
    simp only [control, Prod.mk.injEq] at hctl
    rw [hk]
    simpa only [Productive, hctl.2.2.1] using h
  · obtain ⟨k, hnk, hk⟩ := hfair.offerFc n h
    refine ⟨k, hnk, fun hctl => ?_⟩
    simp only [control, Prod.mk.injEq] at hctl
    rw [hk]
    exact ⟨by rw [hctl.2.2.2.1]; exact h, rfl⟩
  · obtain ⟨k, hnk, now, hk⟩ := hfair.deliverFc n h
    refine ⟨k, hnk, fun hctl => ?_⟩
    simp only [control, Prod.mk.injEq] at hctl
    rw [hk]
    simpa only [Productive, hctl.2.2.2.2] using h
  · exact hpolled _ h (Or.inl rfl)
  · exact hpolled _ h (Or.inr (Or.inl rfl))
  · exact hpolled _ h (Or.inr (Or.inr rfl))
  · exact absurd h.1 hopen

/-- Whatever the CAN layers refuse and however the events are ordered, neither machine fails,
each reports completion at most once and the receiver reports the message; in a fair schedule
both do report. -/
theorem exchange_delivers (hs : Start m s)
    (htime : ∀ n, NoTimeout l (stateAt (Exchange.step l) s sched n) (sched n)) :
    (∀ n, let x := stateAt (Exchange.step l) s sched n
      (x.txReports = [] ∨ x.txReports = [.complete]) ∧
        (x.rxReports = [] ∨ x.rxReports = [(.messageComplete, m)])) ∧
    (Fair l s sched → ∃ n, ∀ k, n ≤ k → let x := stateAt (Exchange.step l) s sched k
      x.txReports = [.complete] ∧ x.rxReports = [(.messageComplete, m)] ∧ x.rx.message = m) := by
  refine ⟨fun n => (phase_at hs htime n).reports, fun hfair => ?_⟩
  have hadvance := advance_at hs htime
  have hproductive := hfair.productive hs htime
  have hphase := phase_at hs htime
  generalize hx : stateAt (Exchange.step l) s sched = x at hadvance hproductive hphase ⊢
  have hsucc : ∀ n, (x n).step l (sched n) = x (n + 1) := by
    subst hx
    exact fun _ => rfl
  have hstep : ∀ n, rank m (x (n + 1)) < rank m (x n) ∨
      (¬ Productive l (x n) (sched n) ∧ control (x (n + 1)) = control (x n) ∧
        rank m (x (n + 1)) = rank m (x n)) := by
    intro n
    have h := (hadvance n).progress
    rw [hsucc] at h
    rcases h with h | ⟨hno, hctl⟩
    · exact Or.inl h
    · exact Or.inr ⟨hno, hctl, rank_of_control hctl⟩
  obtain ⟨n, _, hn⟩ := exists_of_fair (fun n => control (x n)) (fun n => rank m (x n))
    (fun n => Productive l (x n) (sched n)) (fun n => rank m (x n) = 0) hstep hproductive 0
  refine ⟨n, fun k hk => ?_⟩
  have hzero : rank m (x k) = 0 := by
    rcases lt_or_kept (fun n => control (x n)) (fun n => rank m (x n))
      (fun n => Productive l (x n) (sched n)) hstep hk with h | ⟨_, h⟩ <;> omega
  obtain ⟨hrep, hd⟩ := (hphase k).finished hzero
  exact ⟨hrep, hd.reports, hd.message⟩

end Runs

/-! ### A run of twenty bytes in blocks of one frame -/

def sampleLink : Link where
  txCfg := { addressExtensionLen := ⟨0, Nat.zero_lt_two⟩ }
  rxCfg := { addressExtensionLen := ⟨0, Nat.zero_lt_two⟩, blockSize := 1 }
  addressing := rfl
  blockSize := by decide

def sampleMessage : List UInt8 := (List.range 20).map UInt8.ofNat

def sampleSender : TxTransfer := TxTransfer.init {} (List.replicate 32 0)

def sampleStart : Exchange where
  tx := (sampleSender.begin sampleMessage 0).getD sampleSender
  rx := RxTransfer.init {} (List.replicate 32 0)

def roundRobin (n : Nat) : Event :=
  match n % 5 with
  | 0 => .pollTx 0 (some 0)
  | 1 => .deliver 0
  | 2 => .offerFc true
  | 3 => .deliverFc 0
  | _ => .pollRx 0

theorem roundRobin_cases (n : Nat) :
    roundRobin n ∈ [Event.pollTx 0 (some 0), .deliver 0, .offerFc true, .deliverFc 0,
      .pollRx 0] := by
  unfold roundRobin
  split <;> simp

/-- After four rounds nothing changes any more. -/
theorem sample_stable {k : Nat} (hk : 16 ≤ k) :
    stateAt (step sampleLink) sampleStart roundRobin k =
      stateAt (step sampleLink) sampleStart roundRobin 16 := by
  have key : ∀ e ∈ [Event.pollTx 0 (some 0), .deliver 0, .offerFc true, .deliverFc 0, .pollRx 0],
      (stateAt (step sampleLink) sampleStart roundRobin 16).step sampleLink e =
        stateAt (step sampleLink) sampleStart roundRobin 16 := by
    decide
  exact stateAt_of_stable (fun k _ => key _ (roundRobin_cases k)) hk

/-- What holds in the first states holds in all. -/
theorem sample_forall {P : Exchange → Prop}
    (h : ∀ k, k < 17 → P (stateAt (step sampleLink) sampleStart roundRobin k)) (k : Nat) :
    P (stateAt (step sampleLink) sampleStart roundRobin k) := by
  by_cases hk : k < 17
  · exact h k hk
  · rw [sample_stable (by omega)]
    exact h 16 (by decide)

theorem sample_fair : Fair sampleLink sampleStart roundRobin where
  deliver n _ := ⟨5 * n + 1, by omega, 0, by simp [roundRobin, Nat.add_mod]⟩
  offerFc n _ := ⟨5 * n + 2, by omega, by simp [roundRobin, Nat.add_mod]⟩
  deliverFc n _ := ⟨5 * n + 3, by omega, 0, by simp [roundRobin, Nat.add_mod]⟩
  pollTx n _ := by
    refine ⟨5 * n, by omega, 0, 0, by simp [roundRobin], ?_⟩
    refine sample_forall (P := fun x => x.tx.state = .sendCf → x.tx.gated 0 = false) ?_ (5 * n)
    decide

theorem exchange_delivers_sample :
    Start sampleMessage sampleStart ∧ Fair sampleLink sampleStart roundRobin ∧
    ∃ n, ∀ k, n ≤ k →
      let x := stateAt (Exchange.step sampleLink) sampleStart roundRobin k
      x.txReports = [.complete] ∧ x.rxReports = [(.messageComplete, sampleMessage)] ∧
        x.rx.message = sampleMessage := by
  have hstart : Start sampleMessage sampleStart :=
    { length := by decide
      begun := ⟨sampleSender, 0, by decide, by decide⟩
      idle := rfl
      room := by decide
      silent := ⟨rfl, rfl, rfl⟩
      unreported := ⟨rfl, rfl⟩ }
  refine ⟨hstart, sample_fair, (exchange_delivers hstart fun n => ?_).2 sample_fair⟩
  have key := sample_forall (P := fun x => ∀ e ∈ [Event.pollTx 0 (some 0), .deliver 0,
    .offerFc true, .deliverFc 0, .pollRx 0], NoTimeout sampleLink x e) (by decide) n
  exact key _ (roundRobin_cases n)

end EspCars.Isotp
