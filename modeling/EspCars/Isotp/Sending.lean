import EspCars.Isotp.Segmentation
import EspCars.Lib.Run

/-!
# A sender and any peer

`TxTransfer` under every sequence of `begin`, `poll`, `confirm_sent`, flow controls and `abort`, at
any times. `Watch` keeps beside the machine what happened: which frames of the message were
confirmed, which frame is on offer and since when, and which CONTINUE was taken last. `Truthful`
says of one step what the peer and the caller may rely on.

`abort` leaves `pending_` as it is and `begin` does not clear it, so that the first frame of the
next message can pass for one that was offered long ago (`not_truthful_after_abort`). A run that
begins no message in such a state is truthful (`truthful_exec`), and so is every run without
`abort`.
-/

namespace EspCars.Isotp

open EspCars.Lib TxTransfer

/-- `millis()` at a time. -/
def ms (clock : Nat) : UInt32 := UInt32.ofNat clock

/-- The counter wraps, so no more time is seen to pass than has passed. -/
theorem add_le_of_elapsed {since clock : Nat} {duration : UInt32} (hle : since ≤ clock)
    (h : duration ≤ elapsedMs (ms clock) (ms since)) : since + duration.toNat ≤ clock := by
  have hlt := (ms since).toNat_lt
  have hle' := UInt32.le_iff_toNat_le.mp h
  unfold elapsedMs at hle'
  rw [UInt32.toNat_sub] at hle'
  unfold ms at hle' hlt
  rw [UInt32.toNat_ofNat', UInt32.toNat_ofNat'] at hle'
  rw [UInt32.toNat_ofNat'] at hlt
  omega

/-- The STmin that a peer asks for, in microseconds; a reserved value means the longest. -/
def stMinMicros (raw : UInt8) : Nat :=
  if raw ≤ 0x7F then raw.toNat * 1000
  else if 0xF1 ≤ raw ∧ raw ≤ 0xF9 then (raw.toNat - 0xF0) * 100
  else 127000

theorem stMinMicros_le (raw : UInt8) : stMinMicros raw ≤ (stMinToMs raw).toNat * 1000 := by
  unfold stMinMicros stMinToMs
  split_ifs with hlow hsub
  · rw [UInt8.toNat_toUInt32]
  · have hle := UInt8.le_iff_toNat_le.mp hsub.2
    rw [show (0xF9 : UInt8).toNat = 0xF9 from rfl] at hle
    rw [show (1 : UInt32).toNat = 1 from rfl]
    omega
  · rfl

namespace TxTransfer

/-- A CONTINUE that was taken, and when the consecutive frames since were confirmed. -/
structure Grant where
  blockSize : UInt8
  stMinRaw : UInt8
  confirms : List Nat := []
  deriving DecidableEq

/-- No more frames than the block has, and no two of them closer than STmin. -/
structure Grant.Kept (g : Grant) : Prop where
  block : g.blockSize ≠ 0 → g.confirms.length ≤ g.blockSize.toNat
  spaced : g.confirms.IsChain fun a b => a * 1000 + stMinMicros g.stMinRaw ≤ b * 1000

/-- `offer` is the frame that was handed out and not confirmed yet, and when it was first. -/
structure Watch where
  tx : TxTransfer
  clock : Nat := 0
  message : List UInt8 := []
  confirmed : List (List UInt8) := []
  offer : Option (List UInt8 × Nat) := none
  grant : Option Grant := none
  deriving DecidableEq

/-- A call of the sender. -/
inductive Input
  | begin (message : List UInt8)
  | poll (out : Frame) (room : out.data.length = frameLen)
  | confirm
  | flowControl (info : PciInfo)
  | abort

namespace Watch

variable (cfg : IsoTpConfig)

def tick (w : Watch) (delay : Nat) : Watch := { w with clock := w.clock + delay }

/-- Since when a frame has been offered that is offered now. -/
def since (w : Watch) (frame : List UInt8) : Nat :=
  match w.offer with
  | some (offered, first) => if offered = frame then first else w.clock
  | none => w.clock

def polled (w : Watch) (out : Frame) : TxAction × Frame × TxTransfer :=
  w.tx.poll cfg (ms w.clock) out

/-- A confirmation is that of the frame on offer; without one there is nothing to confirm. -/
def act (w : Watch) : Input → Watch
  | .begin message =>
    match w.tx.begin message (ms w.clock) with
    | some tx => { tx := tx, clock := w.clock, message := message }
    | none => w
  | .poll out _ =>
    match w.polled cfg out with
    | (.sendFrame, frame, tx) =>
      { w with tx := tx, offer := some (frame.wire, w.since frame.wire) }
    | (.nothing, _, tx) => { w with tx := tx }
    | (.complete, _, tx) => { w with tx := tx, offer := none }
    | (.failed, _, tx) => { w with tx := tx, offer := none }
  | .confirm =>
    match w.offer with
    | some (frame, _) =>
      { w with
        tx := w.tx.confirmSent cfg (ms w.clock)
        confirmed := w.confirmed ++ [frame]
        offer := none
        grant := w.grant.map fun g => { g with confirms := g.confirms ++ [w.clock] } }
    | none => w
  | .flowControl info =>
    { w with
      tx := w.tx.onFlowControl info (ms w.clock)
      grant := if w.tx.state = .waitFc ∧ info.status = .continue then
          some { blockSize := info.blockSize, stMinRaw := info.stMinRaw }
        else w.grant }
  | .abort => { w with tx := w.tx.abort, offer := none }

/-- An input some time after the last one. -/
def step (w : Watch) (input : Nat × Input) : Watch := (w.tick input.1).act cfg input.2

def start (buffer : List UInt8) : Watch := { tx := TxTransfer.init {} buffer }

/-- What the peer and the caller may rely on, after an input and in the answer to a poll. -/
structure Truthful (w : Watch) (input : Nat × Input) : Prop where
  /-- What was confirmed is the message, as far as it goes. -/
  initial : (w.step cfg input).confirmed <+: segmentation cfg (w.step cfg input).message
  /-- No consecutive frame goes out before a CONTINUE. -/
  granted : (w.step cfg input).grant = none → (w.step cfg input).confirmed.length ≤ 1
  kept : ∀ g, (w.step cfg input).grant = some g → g.Kept
  /-- A frame that was not confirmed is offered again as it was. -/
  same : ∀ out room, input.2 = .poll out room → ∀ frame since, w.offer = some (frame, since) →
    ((w.tick input.1).polled cfg out).1 = .sendFrame →
      ((w.tick input.1).polled cfg out).2.1.wire = frame
  stalled : ∀ out room, input.2 = .poll out room →
    ((w.tick input.1).polled cfg out).1 = .failed →
    ((w.tick input.1).polled cfg out).2.2.error = .txStalled →
      ∃ frame since, w.offer = some (frame, since) ∧
        since + cfg.txStallTimeoutMs.toNat ≤ w.clock + input.1

/-- What the first frame of a message is offered as. -/
def opening (message : List UInt8) : Pending :=
  if message.length ≤ singleFrameCapacity cfg then .single else .first

def openingFrame (message : List UInt8) : List UInt8 :=
  if message.length ≤ singleFrameCapacity cfg then segmentedSingle cfg message
  else segmentedFirst cfg message

/-- A message begins while nothing of its kind is left on offer. -/
def Clean (w : Watch) : Nat × Input → Prop
  | (_, .begin message) => w.tx.state = .idle → w.tx.pending ≠ opening cfg message
  | _ => True

instance (w : Watch) : (input : Nat × Input) → Decidable (w.Clean cfg input)
  | (_, .begin _) => inferInstanceAs (Decidable (_ → _))
  | (_, .poll ..) | (_, .confirm) | (_, .flowControl _) | (_, .abort) =>
    inferInstanceAs (Decidable True)

/-! ## What the machine holds -/

/-- The buffer holds the message. -/
structure Loaded (w : Watch) : Prop where
  buffer : w.tx.buffer.take w.message.length = w.message
  size : w.tx.size = w.message.length
  positive : 0 < w.message.length

/-- The first frame and `k` consecutive frames are confirmed, and more are to come. -/
structure Underway (w : Watch) (k : Nat) : Prop where
  loaded : Loaded w
  multi : singleFrameCapacity cfg < w.message.length
  more : segmentStart cfg k < w.message.length
  sent : w.tx.sent = segmentStart cfg k
  sequence : w.tx.sequence = UInt8.ofNat (k % 16)
  confirmed : w.confirmed = segmentedFirst cfg w.message ::
    (List.range k).map (segmentedConsecutive cfg w.message)

/-- What is on offer, as the machine and the watch have it. -/
def Offering (w : Watch) (kind : Pending) (frame : List UInt8) : Prop :=
  (w.offer = none ∧ w.tx.pending ≠ kind) ∨
    ∃ since, w.offer = some (frame, since) ∧ w.tx.pending = kind ∧
      w.tx.stallStart = ms since ∧ since ≤ w.clock

/-- The block that the machine counts down and the time of the last frame are those of `g`. -/
structure Paced (w : Watch) (g : Grant) : Prop where
  stMin : w.tx.stMinMs = stMinToMs g.stMinRaw
  endless : g.blockSize = 0 → w.tx.blockRemaining = 0
  counted : g.blockSize ≠ 0 → 0 < w.tx.blockRemaining ∧
    g.confirms.length + w.tx.blockRemaining = g.blockSize.toNat
  last : ∀ last ∈ g.confirms.getLast?, w.tx.lastCfMs = ms last ∧ last ≤ w.clock ∧
    ∀ frame since, w.offer = some (frame, since) → last + w.tx.stMinMs.toNat ≤ since

/-- A consecutive frame that is on offer is the next one. -/
structure Next (w : Watch) (k : Nat) : Prop where
  sequence : w.tx.pendingSequence = UInt8.ofNat ((k + 1) % 16)
  take : w.tx.pendingTake = min (w.message.length - segmentStart cfg k)
    (consecutiveFrameCapacity cfg)

def Phase (w : Watch) : Prop :=
  match w.tx.state with
  | .idle => w.offer = none
  | .done => w.offer = none ∧ w.tx.pending = .none
  | .failed => w.offer = none ∧ w.tx.pending = .none ∧ w.tx.error ≠ .txStalled
  | .sendFirst => Loaded w ∧ w.tx.sequence = 0 ∧ w.confirmed = [] ∧ w.grant = none ∧
      Offering w (opening cfg w.message) (openingFrame cfg w.message)
  | .waitFc => (∃ k, Underway cfg w k) ∧ w.offer = none ∧ w.tx.pending = .none
  | .sendCf => ∃ k g, Underway cfg w k ∧ w.grant = some g ∧ Paced w g ∧
      Offering w .consecutive (segmentedConsecutive cfg w.message k) ∧
      (w.tx.pending = .consecutive → Next cfg w k)

/-- What was confirmed begins the segmentation, and keeps to what was granted. -/
structure Inv (w : Watch) : Prop where
  room : w.tx.buffer.length = w.tx.capacity
  narrow : w.tx.capacity < 65536
  initial : w.confirmed <+: segmentation cfg w.message
  granted : w.grant = none → w.confirmed.length ≤ 1
  kept : ∀ g, w.grant = some g → g.Kept
  phase : Phase cfg w

/-! ## One offer -/

section Poll

variable {cfg} {w : Watch} {t : TxTransfer} {kind : Pending} {out frame : Frame}

theorem Loaded.le_buffer (h : Loaded w) : w.tx.size ≤ w.tx.buffer.length := by
  have hlen := congrArg List.length h.buffer
  rw [List.length_take] at hlen
  rw [h.size]
  omega

theorem Loaded.take_size (h : Loaded w) : w.tx.buffer.take w.tx.size = w.message := by
  rw [h.size]
  exact h.buffer

/-- A poll that offers a frame: the frame is on offer since it first was, or it has been for the
whole of the stall timeout. -/
theorem act_offer
    (hpoll : w.polled cfg out =
      ((t.offer cfg (ms w.clock) kind).1, frame, (t.offer cfg (ms w.clock) kind).2))
    (hpending : t.pending = w.tx.pending) (hstall : t.stallStart = w.tx.stallStart)
    (hoffer : Offering w kind frame.wire) (room : out.data.length = frameLen) :
    (∃ since, since ≤ w.clock ∧ (∀ first ∈ w.offer, first = (frame.wire, since)) ∧
      (w.offer = none → since = w.clock) ∧ (w.polled cfg out).1 = .sendFrame ∧
      w.act cfg (.poll out room) =
        { w with
          tx := { t with pending := kind, stallStart := ms since }
          offer := some (frame.wire, since) }) ∨
    ((∃ since, w.offer = some (frame.wire, since) ∧
        since + cfg.txStallTimeoutMs.toNat ≤ w.clock) ∧ (w.polled cfg out).1 = .failed ∧
      w.act cfg (.poll out room) =
        { w with
          tx := { t with error := .txStalled, state := .idle, pending := .none }
          offer := none }) := by
  unfold act
  dsimp only
  rw [hpoll]
  unfold TxTransfer.offer
  rcases hoffer with ⟨hnone, hne⟩ | ⟨since, hsome, hkind, hstart, hle⟩
  · left
    have hne' : t.pending ≠ kind := by
      rw [hpending]
      exact hne
    have hsince : w.since frame.wire = w.clock := by
      unfold Watch.since
      rw [hnone]
    rw [if_pos hne']
    dsimp only
    rw [hsince]
    refine ⟨w.clock, Nat.le_refl _, ?_, fun _ => rfl, rfl, rfl⟩
    rw [hnone]
    intro first hfirst
    cases hfirst
  · have hkind' : ¬ t.pending ≠ kind := by
      rw [hpending]
      exact not_not.mpr hkind
    rw [if_neg hkind']
    by_cases hlong : elapsedMs (ms w.clock) t.stallStart ≥ cfg.txStallTimeoutMs
    · right
      rw [if_pos hlong]
      rw [hstall, hstart] at hlong
      exact ⟨⟨since, hsome, add_le_of_elapsed hle hlong⟩, rfl, rfl⟩
    · left
      have hsince : w.since frame.wire = since := by
        unfold Watch.since
        rw [hsome]
        exact if_pos rfl
      have hsame : t = { t with pending := kind, stallStart := ms since } := by
        rw [← hkind, ← hpending, ← hstart, ← hstall]
      rw [if_neg hlong]
      dsimp only
      rw [hsince]
      refine ⟨since, hle, ?_, ?_, rfl, by rw [← hsame]⟩
      · rw [hsome]
        intro first hfirst
        cases hfirst
        rfl
      · rw [hsome]
        intro hno
        cases hno

/-- The poll that offers the first frame of a message. -/
theorem polled_sendFirst (hstate : w.tx.state = .sendFirst) (hloaded : Loaded w)
    (hroom : out.data.length = frameLen) :
    ∃ frame : Frame, frame.wire = openingFrame cfg w.message ∧ w.polled cfg out =
      ((w.tx.offer cfg (ms w.clock) (opening cfg w.message)).1, frame,
        (w.tx.offer cfg (ms w.clock) (opening cfg w.message)).2) := by
  have hbuffer := hloaded.le_buffer
  have htake := hloaded.take_size
  have hpos := hloaded.positive
  rw [← hloaded.size] at hpos
  unfold polled poll opening openingFrame
  rw [hstate, ← hloaded.size]
  dsimp only
  by_cases hsingle : w.tx.size ≤ singleFrameCapacity cfg
  · rw [if_pos hsingle, if_pos hsingle, if_pos hsingle, ← htake]
    refine ⟨_, wire_encodeSingleFrame hroom hpos hsingle hbuffer, ?_⟩
    rfl
  · rw [if_neg hsingle, if_neg hsingle, if_neg hsingle, ← htake]
    refine ⟨_, wire_encodeFirstFrame hroom (Nat.lt_of_not_le hsingle) hbuffer, ?_⟩
    rfl

/-- The poll that offers the next consecutive frame. -/
theorem polled_sendCf {k : Nat} (hstate : w.tx.state = .sendCf) (hgate : w.tx.gated (ms w.clock) = false)
    (h : Underway cfg w k) (hnarrow : w.tx.size < 65536) (hroom : out.data.length = frameLen) :
    let t := { w.tx with
      pendingSequence := UInt8.ofNat ((k + 1) % 16)
      pendingTake := min (w.message.length - segmentStart cfg k) (consecutiveFrameCapacity cfg) }
    ∃ frame : Frame, frame.wire = segmentedConsecutive cfg w.message k ∧ w.polled cfg out =
      ((t.offer cfg (ms w.clock) .consecutive).1, frame,
        (t.offer cfg (ms w.clock) .consecutive).2) := by
  intro t
  have hbuffer := h.loaded.le_buffer
  have htake := h.loaded.take_size
  have hmore := h.more
  have hsize := h.loaded.size
  obtain ⟨hwire, hcount⟩ := @wire_encodeConsecutiveFrame cfg out _ _ k hroom hbuffer
  have hnext : UInt8.ofNat (k % 16) + 1 &&& 0x0F = UInt8.ofNat ((k + 1) % 16) := by
    have key : ∀ i : Fin 16, UInt8.ofNat i + 1 &&& 0x0F = UInt8.ofNat ((i + 1) % 16) := by decide
    have hk := key ⟨k % 16, Nat.mod_lt _ (by decide)⟩
    simp only [Nat.mod_add_mod] at hk
    exact hk
  have hrest : u16Sub w.tx.size w.tx.sent = w.tx.size - segmentStart cfg k := by
    rw [h.sent]
    exact u16Sub_of_le (by omega) hnarrow
  have hencode : encodeConsecutiveFrame cfg (w.tx.buffer.drop w.tx.sent)
      (u16Sub w.tx.size w.tx.sent) (w.tx.sequence + 1 &&& 0x0F) out =
        encodeConsecutiveFrame cfg (w.tx.buffer.drop (segmentStart cfg k))
          (w.tx.size - segmentStart cfg k) (UInt8.ofNat ((k + 1) % 16)) out := by
    rw [hrest, h.sent, h.sequence, hnext]
  have hseq : w.tx.sequence + 1 &&& 0x0F = UInt8.ofNat ((k + 1) % 16) := by
    rw [h.sequence, hnext]
  have htaken : min (w.tx.size - segmentStart cfg k) (consecutiveFrameCapacity cfg) =
      min (w.message.length - segmentStart cfg k) (consecutiveFrameCapacity cfg) := by
    rw [hsize]
  rw [htake] at hwire
  rw [htaken] at hcount
  refine ⟨_, hwire, ?_⟩
  unfold polled poll
  rw [hstate]
  dsimp only
  rw [hgate, hencode, hcount, hseq]
  simp only [t, hstate, Bool.false_eq_true, if_false]

/-- What a poll answers to the caller. -/
structure Answers (cfg : IsoTpConfig) (w : Watch) (out : Frame) : Prop where
  same : ∀ offered since, w.offer = some (offered, since) → (w.polled cfg out).1 = .sendFrame →
    (w.polled cfg out).2.1.wire = offered
  stalled : (w.polled cfg out).1 = .failed → (w.polled cfg out).2.2.error = .txStalled →
    ∃ offered since, w.offer = some (offered, since) ∧
      since + cfg.txStallTimeoutMs.toNat ≤ w.clock

theorem Answers.of_offer
    (hpoll : w.polled cfg out =
      ((t.offer cfg (ms w.clock) kind).1, frame, (t.offer cfg (ms w.clock) kind).2))
    (hpending : t.pending = w.tx.pending) (hstall : t.stallStart = w.tx.stallStart)
    (hoffer : Offering w kind frame.wire) (room : out.data.length = frameLen) :
    Answers cfg w out := by
  have hframe : (w.polled cfg out).2.1 = frame := by rw [hpoll]
  rcases act_offer hpoll hpending hstall hoffer room with
    ⟨since, -, hfirst, -, hsends, -⟩ | ⟨⟨since, hsome, hlong⟩, hfails, -⟩
  · refine ⟨fun offered first hoffered _ => ?_, fun hfails => ?_⟩
    · have hsame := hfirst (offered, first) (by rw [hoffered]; rfl)
      rw [hframe]
      exact (congrArg Prod.fst hsame).symm
    · rw [hsends] at hfails
      cases hfails
  · refine ⟨fun offered first _ hsends => ?_, fun _ _ => ⟨frame.wire, since, hsome, hlong⟩⟩
    rw [hfails] at hsends
    cases hsends

theorem Answers.of_nothing (hpoll : (w.polled cfg out).1 = .nothing) : Answers cfg w out := by
  refine ⟨fun _ _ _ hsends => ?_, fun hfails => ?_⟩
  · rw [hpoll] at hsends
    cases hsends
  · rw [hpoll] at hfails
    cases hfails

theorem Answers.of_failed (hpoll : (w.polled cfg out).1 = .failed)
    (herror : (w.polled cfg out).2.2.error ≠ .txStalled) : Answers cfg w out := by
  refine ⟨fun _ _ _ hsends => ?_, fun _ hstalled => absurd hstalled herror⟩
  rw [hpoll] at hsends
  cases hsends

end Poll

/-! ## Every step -/

section Step

variable {cfg} {w w' : Watch}

/-- A step that keeps what was confirmed and granted, and the buffer. -/
theorem Inv.of_kept (h : Inv cfg w) (hbuffer : w'.tx.buffer = w.tx.buffer)
    (hcapacity : w'.tx.capacity = w.tx.capacity) (hmessage : w'.message = w.message)
    (hconfirmed : w'.confirmed = w.confirmed) (hgrant : w'.grant = w.grant)
    (hphase : Phase cfg w') : Inv cfg w' :=
  { room := by rw [hbuffer, hcapacity, h.room]
    narrow := by rw [hcapacity]; exact h.narrow
    initial := by rw [hconfirmed, hmessage]; exact h.initial
    granted := by rw [hconfirmed, hgrant]; exact h.granted
    kept := by rw [hgrant]; exact h.kept
    phase := hphase }

theorem Loaded.of_kept (h : Loaded w) (hbuffer : w'.tx.buffer = w.tx.buffer)
    (hsize : w'.tx.size = w.tx.size) (hmessage : w'.message = w.message) : Loaded w' :=
  ⟨by rw [hbuffer, hmessage, h.buffer], by rw [hsize, hmessage, h.size],
    by rw [hmessage]; exact h.positive⟩

variable {k since : Nat}

theorem Underway.of_kept (h : Underway cfg w k) (hbuffer : w'.tx.buffer = w.tx.buffer)
    (hsize : w'.tx.size = w.tx.size) (hmessage : w'.message = w.message)
    (hsent : w'.tx.sent = w.tx.sent) (hsequence : w'.tx.sequence = w.tx.sequence)
    (hconfirmed : w'.confirmed = w.confirmed) : Underway cfg w' k :=
  { loaded := h.loaded.of_kept hbuffer hsize hmessage
    multi := by rw [hmessage]; exact h.multi
    more := by rw [hmessage]; exact h.more
    sent := by rw [hsent, h.sent]
    sequence := by rw [hsequence, h.sequence]
    confirmed := by rw [hconfirmed, hmessage, h.confirmed] }

theorem Inv.tick (h : Inv cfg w) (delay : Nat) : Inv cfg (w.tick delay) := by
  have hphase := h.phase
  refine h.of_kept rfl rfl rfl rfl rfl ?_
  unfold Phase at hphase ⊢
  have hoffer : ∀ {kind frame}, Offering w kind frame → Offering (w.tick delay) kind frame := by
    rintro kind frame (hnone | ⟨since, hsome, hkind, hstart, hle⟩)
    · exact Or.inl hnone
    · exact Or.inr ⟨since, hsome, hkind, hstart, Nat.le_trans hle (Nat.le_add_right _ _)⟩
  rw [show (w.tick delay).tx.state = w.tx.state from rfl]
  cases hstate : w.tx.state with
  | idle | done | failed =>
    rw [hstate] at hphase
    exact hphase
  | sendFirst =>
    rw [hstate] at hphase
    obtain ⟨hloaded, hsequence, hconfirmed, hgrant, hoffering⟩ := hphase
    exact ⟨hloaded.of_kept rfl rfl rfl, hsequence, hconfirmed, hgrant, hoffer hoffering⟩
  | waitFc =>
    rw [hstate] at hphase
    obtain ⟨⟨k, hunderway⟩, hrest⟩ := hphase
    exact ⟨⟨k, hunderway.of_kept rfl rfl rfl rfl rfl rfl⟩, hrest⟩
  | sendCf =>
    rw [hstate] at hphase
    obtain ⟨k, g, hunderway, hgrant, hpaced, hoffering, hnext⟩ := hphase
    refine ⟨k, g, hunderway.of_kept rfl rfl rfl rfl rfl rfl, hgrant,
      ⟨hpaced.stMin, hpaced.endless, hpaced.counted, fun last hlast => ?_⟩, hoffer hoffering,
      fun hpending => ⟨(hnext hpending).sequence, (hnext hpending).take⟩⟩
    obtain ⟨hat, hle, hgap⟩ := hpaced.last last hlast
    exact ⟨hat, Nat.le_trans hle (Nat.le_add_right _ _), hgap⟩

theorem Inv.begin (h : Inv cfg w) (message : List UInt8)
    (hclean : w.tx.state = .idle → w.tx.pending ≠ opening cfg message) :
    Inv cfg (w.act cfg (.begin message)) := by
  unfold act TxTransfer.begin
  dsimp only
  split_ifs with hrefused
  · exact h
  · have hidle : w.tx.state = .idle := by
      by_contra hbusy
      exact hrefused (Or.inl hbusy)
    have hpositive : 0 < message.length := by
      rcases Nat.eq_zero_or_pos message.length with hzero | hpos
      · exact absurd (Or.inr (Or.inl hzero)) hrefused
      · exact hpos
    have hfits : message.length ≤ w.tx.buffer.length := by
      rw [h.room]
      by_contra hlong
      exact hrefused (Or.inr (Or.inr (Nat.lt_of_not_le hlong)))
    have hbuffer : (blit w.tx.buffer 0 message).take message.length = message := by
      have htake := take_blit w.tx.buffer message (Nat.zero_le _)
      rw [Nat.zero_add, List.take_zero, List.nil_append] at htake
      exact htake
    refine
      { room := ?_
        narrow := h.narrow
        initial := List.nil_prefix
        granted := fun _ => Nat.zero_le _
        kept := fun g hg => by cases hg
        phase := ⟨⟨hbuffer, rfl, hpositive⟩, rfl, rfl, rfl, Or.inl ⟨rfl, hclean hidle⟩⟩ }
    dsimp only
    rw [blit_length (by omega)]
    exact h.room

theorem Inv.abort (h : Inv cfg w) : Inv cfg (w.act cfg .abort) := by
  have hidle : (w.tx.abort).state = .idle := by
    unfold TxTransfer.abort
    split_ifs with hbusy
    · rfl
    · exact not_not.mp hbusy
  have hkept : (w.tx.abort).buffer = w.tx.buffer ∧ (w.tx.abort).capacity = w.tx.capacity := by
    unfold TxTransfer.abort
    split_ifs <;> exact ⟨rfl, rfl⟩
  refine h.of_kept hkept.1 hkept.2 rfl rfl rfl ?_
  unfold Phase
  rw [show (w.act cfg .abort).tx.state = .idle from hidle]
  rfl

theorem Inv.flowControl (h : Inv cfg w) (info : PciInfo) :
    Inv cfg (w.act cfg (.flowControl info)) := by
  have hphase := h.phase
  unfold act onFlowControl
  dsimp only
  by_cases hwait : w.tx.state = .waitFc
  · rw [if_neg (not_not.mpr hwait)]
    unfold Phase at hphase
    rw [hwait] at hphase
    obtain ⟨⟨k, hunderway⟩, hoffer, hpending⟩ := hphase
    cases hstatus : info.status with
    | «continue» =>
      rw [if_pos ⟨hwait, rfl⟩]
      have hne : info.blockSize ≠ 0 → 0 < info.blockSize.toNat := by
        intro hnonzero
        apply Nat.pos_of_ne_zero
        intro hzero
        exact hnonzero (UInt8.toNat_inj.mp hzero)
      refine
        { room := h.room
          narrow := h.narrow
          initial := h.initial
          granted := fun hnone => by cases hnone
          kept := fun g hg => ?_
          phase := ⟨k, _, hunderway.of_kept rfl rfl rfl rfl rfl rfl, rfl, ?_, ?_, ?_⟩ }
      · cases hg
        exact ⟨fun _ => Nat.zero_le _, List.isChain_nil⟩
      · refine ⟨rfl, fun hzero => ?_, fun hnonzero => ⟨hne hnonzero, Nat.zero_add _⟩,
          fun last hlast => by cases hlast⟩
        dsimp only at hzero ⊢
        rw [hzero]
        rfl
      · refine Or.inl ⟨hoffer, ?_⟩
        dsimp only
        rw [hpending]
        decide
      · dsimp only
        rw [hpending]
        intro hno
        cases hno
    | wait =>
      rw [if_neg fun hno => by cases hno.2]
      refine h.of_kept rfl rfl rfl rfl rfl ?_
      unfold Phase
      dsimp only
      rw [hwait]
      exact ⟨⟨k, hunderway.of_kept rfl rfl rfl rfl rfl rfl⟩, hoffer, hpending⟩
    | bufferOverflow =>
      rw [if_neg fun hno => by cases hno.2]
      refine h.of_kept rfl rfl rfl rfl rfl ?_
      refine ⟨hoffer, rfl, ?_⟩
      intro hno
      cases hno
  · rw [if_pos hwait, if_neg fun hno => hwait hno.1]
    exact h

/-- The gate lets a consecutive frame through only STmin after the last one. -/
theorem Paced.gate {g : Grant} (h : Paced w g) (hgate : w.tx.gated (ms w.clock) = false) :
    ∀ last ∈ g.confirms.getLast?, last + w.tx.stMinMs.toNat ≤ w.clock := by
  intro last hlast
  obtain ⟨hat, hle, -⟩ := h.last last hlast
  unfold gated at hgate
  rw [hat] at hgate
  by_cases hzero : w.tx.stMinMs = 0
  · rw [hzero]
    exact hle
  · apply add_le_of_elapsed hle
    by_contra hshort
    rw [decide_eq_true hzero, Bool.true_and, decide_eq_false_iff_not] at hgate
    exact hgate (UInt32.not_le.mp hshort)

/-- After the poll that offers a frame, or gives it up. -/
theorem Inv.poll_sendFirst (h : Inv cfg w) (hstate : w.tx.state = .sendFirst) {out : Frame}
    (room : out.data.length = frameLen) :
    Inv cfg (w.act cfg (.poll out room)) ∧ Answers cfg w out := by
  have hphase := h.phase
  unfold Phase at hphase
  rw [hstate] at hphase
  obtain ⟨hloaded, hsequence, hconfirmed, hgrant, hoffering⟩ := hphase
  obtain ⟨frame, hwire, hpoll⟩ := @polled_sendFirst cfg w out hstate hloaded room
  rw [← hwire] at hoffering
  refine ⟨?_, Answers.of_offer hpoll rfl rfl hoffering room⟩
  rcases act_offer hpoll rfl rfl hoffering room with
    ⟨since, hle, -, -, -, hact⟩ | ⟨-, -, hact⟩
  · rw [hact]
    refine h.of_kept rfl rfl rfl rfl rfl ?_
    unfold Phase
    dsimp only
    rw [hstate]
    refine ⟨hloaded.of_kept rfl rfl rfl, hsequence, hconfirmed, hgrant,
      Or.inr ⟨since, ?_, rfl, rfl, hle⟩⟩
    rw [hwire]
  · rw [hact]
    exact h.of_kept rfl rfl rfl rfl rfl rfl

theorem Inv.poll_sendCf (h : Inv cfg w) (hstate : w.tx.state = .sendCf) {out : Frame}
    (room : out.data.length = frameLen) :
    Inv cfg (w.act cfg (.poll out room)) ∧ Answers cfg w out := by
  have hphase := h.phase
  unfold Phase at hphase
  rw [hstate] at hphase
  obtain ⟨k, g, hunderway, hgrant, hpaced, hoffering, hnext⟩ := hphase
  cases hgate : w.tx.gated (ms w.clock) with
  | true =>
    have hpoll : w.polled cfg out = (.nothing, out, w.tx) := by
      unfold polled poll
      rw [hstate]
      exact if_pos hgate
    refine ⟨?_, Answers.of_nothing (by rw [hpoll])⟩
    unfold act
    dsimp only
    rw [hpoll]
    exact h
  | false =>
    have hsize := hunderway.loaded.le_buffer
    have hroom := h.room
    have hnarrow := h.narrow
    obtain ⟨frame, hwire, hpoll⟩ := polled_sendCf hstate hgate hunderway (by omega) room
    rw [← hwire] at hoffering
    refine ⟨?_, Answers.of_offer hpoll rfl rfl hoffering room⟩
    rcases act_offer hpoll rfl rfl hoffering room with
      ⟨since, hle, hfirst, hfresh, -, hact⟩ | ⟨-, -, hact⟩
    · rw [hact]
      refine h.of_kept rfl rfl rfl rfl rfl ?_
      unfold Phase
      dsimp only
      rw [hstate]
      refine ⟨k, g, hunderway.of_kept rfl rfl rfl rfl rfl rfl, hgrant,
        ⟨hpaced.stMin, hpaced.endless, hpaced.counted, fun last hlast => ?_⟩,
        Or.inr ⟨since, ?_, rfl, rfl, hle⟩, fun _ => ⟨rfl, rfl⟩⟩
      · obtain ⟨hat, hbefore, hgap⟩ := hpaced.last last hlast
        refine ⟨hat, hbefore, fun offered first hoffered => ?_⟩
        cases hoffered
        -- a frame that is offered for the first time passed the gate at this poll
        cases hoffer : w.offer with
        | none =>
          rw [hfresh hoffer]
          exact hpaced.gate hgate last hlast
        | some earlier =>
          have hearlier := hfirst earlier (by rw [hoffer]; rfl)
          rw [hearlier] at hoffer
          exact hgap _ _ hoffer
      · rw [hwire]
    · rw [hact]
      exact h.of_kept rfl rfl rfl rfl rfl rfl

theorem Inv.poll (h : Inv cfg w) (out : Frame) (room : out.data.length = frameLen) :
    Inv cfg (w.act cfg (.poll out room)) ∧ Answers cfg w out := by
  have hphase := h.phase
  unfold Phase at hphase
  cases hstate : w.tx.state with
  | sendFirst => exact h.poll_sendFirst hstate room
  | sendCf => exact h.poll_sendCf hstate room
  | idle =>
    have hpoll : w.polled cfg out = (.nothing, out, w.tx) := by
      unfold polled TxTransfer.poll
      rw [hstate]
    refine ⟨?_, Answers.of_nothing (by rw [hpoll])⟩
    unfold act
    dsimp only
    rw [hpoll]
    exact h
  | waitFc =>
    by_cases hlong : elapsedMs (ms w.clock) w.tx.timerStart ≥ cfg.nBsTimeoutMs
    · have hpoll : w.polled cfg out =
          (.failed, out, { w.tx with error := .timeoutFc, state := .idle, pending := .none }) := by
        unfold polled TxTransfer.poll
        rw [hstate]
        dsimp only
        rw [if_pos hlong]
        rfl
      refine ⟨?_, Answers.of_failed (by rw [hpoll]) (by rw [hpoll]; intro hno; cases hno)⟩
      unfold act
      dsimp only
      rw [hpoll]
      exact h.of_kept rfl rfl rfl rfl rfl rfl
    · have hpoll : w.polled cfg out = (.nothing, out, w.tx) := by
        unfold polled TxTransfer.poll
        rw [hstate]
        dsimp only
        rw [if_neg hlong]
      refine ⟨?_, Answers.of_nothing (by rw [hpoll])⟩
      unfold act
      dsimp only
      rw [hpoll]
      exact h
  | done =>
    have hpoll : w.polled cfg out = (.complete, out, { w.tx with state := .idle }) := by
      unfold polled TxTransfer.poll
      rw [hstate]
    refine ⟨?_, ⟨fun _ _ _ hsends => ?_, fun hfails => ?_⟩⟩
    · unfold act
      dsimp only
      rw [hpoll]
      exact h.of_kept rfl rfl rfl rfl rfl rfl
    · rw [hpoll] at hsends
      cases hsends
    · rw [hpoll] at hfails
      cases hfails
  | failed =>
    rw [hstate] at hphase
    have hpoll : w.polled cfg out = (.failed, out, { w.tx with state := .idle }) := by
      unfold polled TxTransfer.poll
      rw [hstate]
      rfl
    refine ⟨?_, Answers.of_failed (by rw [hpoll]) (by rw [hpoll]; exact hphase.2.2)⟩
    unfold act
    dsimp only
    rw [hpoll]
    exact h.of_kept rfl rfl rfl rfl rfl rfl

theorem Underway.confirmed_succ (h : Underway cfg w k) :
    w.confirmed ++ [segmentedConsecutive cfg w.message k] =
      segmentedFirst cfg w.message ::
        (List.range (k + 1)).map (segmentedConsecutive cfg w.message) := by
  rw [h.confirmed, List.range_succ, List.map_append]
  rfl

theorem Underway.initial_succ (h : Underway cfg w k) :
    w.confirmed ++ [segmentedConsecutive cfg w.message k] <+: segmentation cfg w.message := by
  rw [h.confirmed_succ]
  exact take_segmentation cfg h.multi ((lt_consecutiveCount cfg h.multi).mpr h.more)

/-- One more frame of the block is confirmed, and it was offered STmin after the last one. -/
theorem Paced.kept_confirm {g : Grant} (h : Paced w g) (hkept : g.Kept) {frame : List UInt8}
    (hoffer : w.offer = some (frame, since)) (hle : since ≤ w.clock) :
    Grant.Kept { g with confirms := g.confirms ++ [w.clock] } := by
  obtain ⟨hblock, hspaced⟩ := hkept
  refine ⟨fun hnonzero => ?_, ?_⟩
  · obtain ⟨hpos, hsum⟩ := h.counted hnonzero
    dsimp only
    rw [List.length_append, List.length_singleton]
    omega
  · rw [List.isChain_append]
    refine ⟨hspaced, List.isChain_singleton _, fun last hlast at' hat => ?_⟩
    cases hat
    obtain ⟨-, -, hgap⟩ := h.last last hlast
    have hafter := hgap _ _ hoffer
    have hmicros := stMinMicros_le g.stMinRaw
    rw [← h.stMin] at hmicros
    change last * 1000 + stMinMicros g.stMinRaw ≤ w.clock * 1000
    omega

/-- After the confirmation of a consecutive frame. -/
theorem Inv.confirm_sendCf (h : Inv cfg w) (hstate : w.tx.state = .sendCf) {g : Grant}
    (hunderway : Underway cfg w k) (hgrant : w.grant = some g) (hpaced : Paced w g)
    (hnext : Next cfg w k) (hpending : w.tx.pending = .consecutive)
    (hoffer : w.offer = some (segmentedConsecutive cfg w.message k, since))
    (hle : since ≤ w.clock) : Inv cfg (w.act cfg .confirm) := by
  have hmore := hunderway.more
  have hstart := segmentStart_succ cfg k
  have hsize := hunderway.loaded.size
  have hbuffer := hunderway.loaded.le_buffer
  have hroom := h.room
  have hnarrow := h.narrow
  have hsent : u16Add w.tx.sent w.tx.pendingTake =
      min w.message.length (segmentStart cfg (k + 1)) := by
    rw [hunderway.sent, hnext.take, u16Add_of_lt (by omega)]
    omega
  have hkept := hpaced.kept_confirm (h.kept g hgrant) hoffer hle
  have hact : w.act cfg .confirm =
      { w with
        tx := w.tx.confirmSent cfg (ms w.clock)
        confirmed := w.confirmed ++ [segmentedConsecutive cfg w.message k]
        offer := none
        grant := some { g with confirms := g.confirms ++ [w.clock] } } := by
    unfold act
    dsimp only
    rw [hoffer, hgrant]
    rfl
  have hinv : ∀ tx : TxTransfer, tx.buffer = w.tx.buffer → tx.capacity = w.tx.capacity →
      w.tx.confirmSent cfg (ms w.clock) = tx →
      Phase cfg
        { w with
          tx := tx
          confirmed := w.confirmed ++ [segmentedConsecutive cfg w.message k]
          offer := none
          grant := some { g with confirms := g.confirms ++ [w.clock] } } →
      Inv cfg (w.act cfg .confirm) := by
    intro tx htx hcapacity hconfirm hphase
    rw [hact, hconfirm]
    exact
      { room := by dsimp only; rw [htx, hcapacity, h.room]
        narrow := by dsimp only; rw [hcapacity]; exact h.narrow
        initial := hunderway.initial_succ
        granted := fun hnone => by cases hnone
        kept := fun g' hg' => by cases hg'; exact hkept
        phase := hphase }
  by_cases hend : w.message.length ≤ segmentStart cfg (k + 1)
  · -- the last frame of the message
    refine hinv { w.tx with
        sequence := w.tx.pendingSequence, sent := w.message.length, lastCfMs := ms w.clock
        pending := .none, state := .done } rfl rfl ?_ ⟨rfl, rfl⟩
    unfold confirmSent
    rw [hpending]
    dsimp only
    rw [hsent, Nat.min_eq_left hend, if_pos (by omega)]
  · have hopen := Nat.lt_of_not_le hend
    have hunderway' : ∀ tx : TxTransfer, tx.buffer = w.tx.buffer → tx.size = w.tx.size →
        tx.sent = segmentStart cfg (k + 1) → tx.sequence = w.tx.pendingSequence →
        Underway cfg { w with
          tx := tx
          confirmed := w.confirmed ++ [segmentedConsecutive cfg w.message k]
          offer := none
          grant := some { g with confirms := g.confirms ++ [w.clock] } } (k + 1) := by
      intro tx htx htxsize htxsent htxsequence
      exact
        { loaded := hunderway.loaded.of_kept htx htxsize rfl
          multi := hunderway.multi
          more := hopen
          sent := htxsent
          sequence := by rw [htxsequence, hnext.sequence]
          confirmed := hunderway.confirmed_succ }
    have hlast : ∀ last ∈ (g.confirms ++ [w.clock]).getLast?, last = w.clock := by
      intro last hlast
      rw [List.getLast?_concat] at hlast
      cases hlast
      rfl
    by_cases hendless : g.blockSize = 0
    · have hzero := hpaced.endless hendless
      refine hinv { w.tx with
          sequence := w.tx.pendingSequence, sent := segmentStart cfg (k + 1)
          lastCfMs := ms w.clock, pending := .none } rfl rfl ?_ ?_
      · unfold confirmSent
        rw [hpending]
        dsimp only
        rw [hsent, Nat.min_eq_right (Nat.le_of_lt hopen), if_neg (by omega), if_neg (by omega)]
      · unfold Phase
        dsimp only
        rw [hstate]
        refine ⟨k + 1, _, hunderway' _ rfl rfl rfl rfl, rfl, ⟨hpaced.stMin, fun _ => hzero,
          fun hno => absurd hendless hno, fun last hin => ?_⟩, Or.inl ⟨rfl, ?_⟩, ?_⟩
        · rw [hlast last hin]
          exact ⟨rfl, Nat.le_refl _, fun _ _ hno => by cases hno⟩
        · intro hno
          cases hno
        · intro hno
          cases hno
    · obtain ⟨hpos, hsum⟩ := hpaced.counted hendless
      by_cases hone : w.tx.blockRemaining = 1
      · -- the last frame of the block
        refine hinv { w.tx with
            sequence := w.tx.pendingSequence, sent := segmentStart cfg (k + 1)
            lastCfMs := ms w.clock, pending := .none, blockRemaining := 0, state := .waitFc
            timerStart := ms w.clock } rfl rfl ?_ ?_
        · unfold confirmSent
          rw [hpending]
          dsimp only
          rw [hsent, Nat.min_eq_right (Nat.le_of_lt hopen), if_neg (by omega), if_pos (by omega),
            hone]
          rfl
        · exact ⟨⟨k + 1, hunderway' _ rfl rfl rfl rfl⟩, rfl, rfl⟩
      · refine hinv { w.tx with
            sequence := w.tx.pendingSequence, sent := segmentStart cfg (k + 1)
            lastCfMs := ms w.clock, pending := .none
            blockRemaining := w.tx.blockRemaining - 1 } rfl rfl ?_ ?_
        · unfold confirmSent
          rw [hpending]
          dsimp only
          rw [hsent, Nat.min_eq_right (Nat.le_of_lt hopen), if_neg (by omega), if_pos (by omega),
            if_neg (by omega)]
        · unfold Phase
          dsimp only
          rw [hstate]
          refine ⟨k + 1, _, hunderway' _ rfl rfl rfl rfl, rfl, ⟨hpaced.stMin,
            fun hno => absurd hno hendless, fun _ => ?_, fun last hin => ?_⟩, Or.inl ⟨rfl, ?_⟩, ?_⟩
          · dsimp only
            rw [List.length_append, List.length_singleton]
            omega
          · rw [hlast last hin]
            exact ⟨rfl, Nat.le_refl _, fun _ _ hno => by cases hno⟩
          · intro hno
            cases hno
          · intro hno
            cases hno

/-- After the confirmation of a first frame or of a single one. -/
theorem Inv.confirm_sendFirst (h : Inv cfg w) (hloaded : Loaded w) (hsequence : w.tx.sequence = 0)
    (hconfirmed : w.confirmed = []) (hgrant : w.grant = none)
    (hpending : w.tx.pending = opening cfg w.message)
    (hoffer : w.offer = some (openingFrame cfg w.message, since)) :
    Inv cfg (w.act cfg .confirm) := by
  have hfirst := firstFrameCapacity_add cfg
  have hsingle := singleFrameCapacity_add cfg
  have hact : w.act cfg .confirm =
      { w with
        tx := w.tx.confirmSent cfg (ms w.clock)
        confirmed := [openingFrame cfg w.message]
        offer := none } := by
    unfold act
    dsimp only
    rw [hoffer, hgrant, hconfirmed]
    rfl
  have hinitial : [openingFrame cfg w.message] <+: segmentation cfg w.message := by
    unfold openingFrame segmentation
    split_ifs
    · exact List.prefix_refl _
    · exact (List.prefix_cons_inj _).mpr List.nil_prefix
  rw [hact]
  unfold confirmSent
  rw [hpending]
  unfold opening
  by_cases hshort : w.message.length ≤ singleFrameCapacity cfg
  · rw [if_pos hshort]
    exact
      { room := h.room
        narrow := h.narrow
        initial := hinitial
        granted := fun _ => Nat.le_refl _
        kept := fun g hg => h.kept g hg
        phase := ⟨rfl, rfl⟩ }
  · have hmulti := Nat.lt_of_not_le hshort
    have hstart : segmentStart cfg 0 = firstFrameCapacity cfg := by
      unfold segmentStart
      rw [Nat.zero_mul, Nat.add_zero]
    rw [if_neg hshort]
    refine
      { room := h.room
        narrow := h.narrow
        initial := hinitial
        granted := fun _ => Nat.le_refl _
        kept := fun g hg => h.kept g hg
        phase := ⟨⟨0, ?_⟩, rfl, rfl⟩ }
    exact
      { loaded := hloaded.of_kept rfl rfl rfl
        multi := hmulti
        more := by dsimp only; omega
        sent := hstart.symm
        sequence := hsequence
        confirmed := by
          unfold openingFrame
          rw [if_neg hshort]
          rfl }

theorem Inv.confirm (h : Inv cfg w) : Inv cfg (w.act cfg .confirm) := by
  have hphase := h.phase
  unfold Phase at hphase
  cases hoffer : w.offer with
  | none =>
    unfold act
    dsimp only
    rw [hoffer]
    exact h
  | some frame =>
    rw [hoffer] at hphase
    cases hstate : w.tx.state with
    | sendFirst =>
      rw [hstate] at hphase
      obtain ⟨hloaded, hsequence, hconfirmed, hgrant, hoffering⟩ := hphase
      rcases hoffering with ⟨hnone, -⟩ | ⟨since, hsome, hpending, -, -⟩
      · rw [hoffer] at hnone
        cases hnone
      · exact h.confirm_sendFirst hloaded hsequence hconfirmed hgrant hpending hsome
    | sendCf =>
      rw [hstate] at hphase
      obtain ⟨k, g, hunderway, hgrant, hpaced, hoffering, hnext⟩ := hphase
      rcases hoffering with ⟨hnone, -⟩ | ⟨since, hsome, hpending, -, hle⟩
      · rw [hoffer] at hnone
        cases hnone
      · exact h.confirm_sendCf hstate hunderway hgrant hpaced (hnext hpending) hpending hsome hle
    | idle =>
      rw [hstate] at hphase
      cases hphase
    | done =>
      rw [hstate] at hphase
      cases hphase.1
    | failed =>
      rw [hstate] at hphase
      cases hphase.1
    | waitFc =>
      rw [hstate] at hphase
      cases hphase.2.1

theorem Inv.act (h : Inv cfg w) (input : Input) (hclean : w.Clean cfg (0, input)) :
    Inv cfg (w.act cfg input) := by
  cases input with
  | begin message => exact h.begin message hclean
  | poll out room => exact (h.poll out room).1
  | confirm => exact h.confirm
  | flowControl info => exact h.flowControl info
  | abort => exact h.abort

theorem Inv.step (h : Inv cfg w) (input : Nat × Input) (hclean : w.Clean cfg input) :
    Inv cfg (w.step cfg input) := by
  obtain ⟨delay, input⟩ := input
  refine (h.tick delay).act input ?_
  cases input with
  | begin message => exact hclean
  | poll _ _ | confirm | flowControl _ | abort => trivial

theorem Inv.truthful (h : Inv cfg w) (input : Nat × Input) (hclean : w.Clean cfg input) :
    Truthful cfg w input := by
  have hstep := h.step input hclean
  obtain ⟨delay, input⟩ := input
  refine ⟨hstep.initial, hstep.granted, hstep.kept, fun out room _ => ?_, fun out room _ => ?_⟩
  · exact ((h.tick delay).poll out room).2.same
  · exact ((h.tick delay).poll out room).2.stalled

theorem inv_start {buffer : List UInt8} (hbuffer : buffer.length < 65536) :
    Inv cfg (start buffer) :=
  { room := rfl
    narrow := hbuffer
    initial := List.nil_prefix
    granted := fun _ => Nat.zero_le _
    kept := fun g hg => by cases hg
    phase := rfl }

end Step

end Watch

/-! ## Runs without an abort -/

/-- Nothing is left on offer between two messages. -/
def Settled (t : TxTransfer) : Prop :=
  t.state = .idle ∨ t.state = .done ∨ t.state = .failed → t.pending = .none

section Settled

variable {cfg : IsoTpConfig} {t : TxTransfer} {now : UInt32}

theorem settled_of_pending (h : t.pending = .none) : Settled t := fun _ => h

theorem Settled.offer (h : t.state = .sendFirst ∨ t.state = .sendCf) (kind : Pending) :
    Settled (t.offer cfg now kind).2 := by
  unfold TxTransfer.offer
  split_ifs
  · intro hrest
    dsimp only at hrest
    rcases h with h | h <;> rw [h] at hrest <;> simp at hrest
  · exact settled_of_pending rfl
  · intro hrest
    rcases h with h | h <;> rw [h] at hrest <;> simp at hrest

theorem Settled.poll (h : Settled t) (out : Frame) : Settled (t.poll cfg now out).2.2 := by
  unfold TxTransfer.poll
  cases hstate : t.state with
  | idle => exact h
  | sendFirst =>
    dsimp only
    split_ifs
    · exact Settled.offer (Or.inl hstate) _
    · exact Settled.offer (Or.inl hstate) _
  | waitFc =>
    dsimp only
    split_ifs
    · exact settled_of_pending rfl
    · exact h
  | sendCf =>
    dsimp only
    split_ifs
    · exact h
    · apply Settled.offer
      exact Or.inr rfl
  | done => exact settled_of_pending (h (Or.inr (Or.inl hstate)))
  | failed => exact settled_of_pending (h (Or.inr (Or.inr hstate)))

theorem settled_confirmSent (t : TxTransfer) : Settled (t.confirmSent cfg now) := by
  apply settled_of_pending
  unfold confirmSent
  cases hpending : t.pending with
  | none => exact hpending
  | single | first => rfl
  | consecutive =>
    dsimp only
    split_ifs <;> rfl

theorem Settled.onFlowControl (h : Settled t) (info : PciInfo) :
    Settled (t.onFlowControl info now) := by
  unfold TxTransfer.onFlowControl
  split_ifs with hstate
  · exact h
  · cases info.status with
    | «continue» =>
      intro hrest
      simp at hrest
    | wait => exact h
    | bufferOverflow => exact settled_of_pending rfl

end Settled

namespace Watch

variable {cfg : IsoTpConfig} {w : Watch}

theorem settled_step (h : Settled w.tx) {input : Nat × Input} (hne : input.2 ≠ .abort) :
    Settled (w.step cfg input).tx := by
  obtain ⟨delay, input⟩ := input
  unfold step act
  cases input with
  | begin message =>
    dsimp only
    cases hbegin : (w.tick delay).tx.begin message (ms (w.tick delay).clock) with
    | none => exact h
    | some tx =>
      unfold begin at hbegin
      split_ifs at hbegin
      cases hbegin
      intro hrest
      simp at hrest
  | poll out room =>
    have hpoll : Settled ((w.tick delay).polled cfg out).2.2 := h.poll out
    dsimp only
    cases hanswer : (w.tick delay).polled cfg out with
    | mk action rest =>
      rw [hanswer] at hpoll
      cases action <;> exact hpoll
  | confirm =>
    dsimp only
    cases (w.tick delay).offer with
    | none => exact h
    | some frame => exact settled_confirmSent _
  | flowControl info => exact h.onFlowControl info
  | abort => exact absurd rfl hne

theorem clean_of_settled (h : Settled w.tx) (input : Nat × Input) : w.Clean cfg input := by
  obtain ⟨delay, input⟩ := input
  cases input with
  | begin message =>
    intro hidle
    rw [h (Or.inl hidle)]
    unfold opening
    split_ifs <;> decide
  | poll _ _ | confirm | flowControl _ | abort => trivial

theorem clean_of_unaborted {inputs : List (Nat × Input)} (h : Settled w.tx)
    (hne : ∀ input ∈ inputs, input.2 ≠ .abort) :
    Admitted (Clean cfg) (step cfg) w inputs := by
  induction inputs generalizing w with
  | nil => trivial
  | cons input inputs ih =>
    refine ⟨clean_of_settled h input, ih ?_ fun other hother => ?_⟩
    · exact settled_step h (hne input List.mem_cons_self)
    · exact hne other (List.mem_cons_of_mem _ hother)

/-- Every run that begins no message while a frame of its kind is left on offer is truthful at
every step, and a run without `abort` is one of these. -/
theorem truthful_exec (cfg : IsoTpConfig) (buffer : List UInt8) (hbuffer : buffer.length < 65536)
    (inputs : List (Nat × Input)) :
    (Admitted (Clean cfg) (step cfg) (start buffer) inputs →
      ∀ before input, before ++ [input] <+: inputs →
        Truthful cfg (exec (step cfg) (start buffer) before) input) ∧
    ((∀ input ∈ inputs, input.2 ≠ .abort) →
      Admitted (Clean cfg) (step cfg) (start buffer) inputs) := by
  refine ⟨fun hclean before input hinitial => ?_, clean_of_unaborted fun _ => rfl⟩
  obtain ⟨rest, hrest⟩ := hinitial
  rw [← hrest, List.append_assoc, Admitted.append_iff] at hclean
  obtain ⟨hbefore, hinput, -⟩ := hclean
  have hinv : Inv cfg (exec (step cfg) (start buffer) before) :=
    hbefore.invariant (Inv cfg) (fun w input hw h => h.step input hw) (inv_start hbuffer)
  exact hinv.truthful input hinput

/-- Twenty bytes to a peer that grants one block of two frames, 10 ms apart. -/
theorem truthful_exec_twenty :
    let cfg : IsoTpConfig := {}
    let message : List UInt8 := (List.range 20).map UInt8.ofNat
    let before : List (Nat × Input) :=
      [(0, .begin message), (1, .poll {} rfl), (0, .confirm),
        (5, .flowControl { type := .flowControl, blockSize := 2, stMinRaw := 10 }),
        (1, .poll {} rfl), (0, .confirm), (3, .poll {} rfl), (7, .poll {} rfl)]
    (exec (step cfg) (start (List.replicate 32 0)) (before ++ [(0, .confirm)])).confirmed =
        segmentation cfg message ∧
      Truthful cfg (exec (step cfg) (start (List.replicate 32 0)) before) (0, .confirm) := by
  refine ⟨by decide, ?_⟩
  have hrun := truthful_exec {} (List.replicate 32 0) (by decide)
  exact (hrun _).1 ((hrun _).2 (by simp)) _ _ (List.prefix_refl _)

/-- A message is aborted while its frame is refused. The next one fails with `TX_STALLED` at its
first poll, a second after it began: its frame was never offered. -/
theorem not_truthful_after_abort :
    ¬ ∀ (inputs before : List (Nat × Input)) (input : Nat × Input), before ++ [input] <+: inputs →
      Truthful {} (exec (step {}) (start (List.replicate 8 0)) before) input := by
  intro hall
  have htruthful := hall _ [(0, .begin [1]), (0, .poll {} rfl), (0, .abort), (0, .begin [2])]
    (1000, .poll {} rfl) (List.prefix_refl _)
  obtain ⟨frame, since, hoffer, -⟩ := htruthful.stalled {} rfl rfl (by decide) (by decide)
  have hnone : (exec (step {}) (start (List.replicate 8 0))
      [(0, .begin [1]), (0, .poll {} rfl), (0, .abort), (0, .begin [2])]).offer = none := by decide
  rw [hnone] at hoffer
  cases hoffer

end Watch

end TxTransfer

end EspCars.Isotp
