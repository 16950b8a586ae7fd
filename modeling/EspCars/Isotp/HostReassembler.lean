import EspCars.Isotp.Transfer
import EspCars.Lib.Run

/-!
# The host's reassembler and the device's

`UdsChunk.feed` of `script/sdlog_uds.py` follows one ECU's request and response ids in a
recording with an ISO-TP receiver of its own. It shares no code with `RxTransfer`, and its
answers are put beside what the device published.

A frame has eight cells of which `dlc` are sent: the device decodes the cells, the recording
and so the host hold the sent ones. `Agrees` relates the two receivers between frames, one
frame keeps it (`agrees_feed`), and so both pass on the same messages (`messages_agree`).
-/

namespace EspCars.Isotp

open EspCars.Lib RxTransfer

/-! ## The host -/

namespace Host

/-- Whose id a frame carries: `"rx"` is the response id, `"tx"` the request id. -/
inductive Role
  | rx | tx
  deriving DecidableEq, Repr

/-- The counts that `feed` keeps. -/
structure Counts where
  badFrames : Nat := 0
  cutAtStart : Nat := 0
  deriving DecidableEq, Repr

/-- The `isotp` events, with the value of each. -/
inductive IsotpEvent
  | orphan (size : Nat)
  | sequence (got expected found : Nat)
  | incomplete (got need : Nat)
  deriving DecidableEq, Repr

/-- `_Rx`. -/
structure Rx where
  started : Bool := false
  buf : Option (List UInt8) := none
  need : Nat := 0
  sn : Nat := 0
  quiet : Bool := false
  request : Option (List UInt8) := none
  deriving DecidableEq, Repr

/-- What the message handler looks answers up in: `prefix_lengths` and the keys of
`answers`. -/
structure Ecu where
  prefixLengths : List Nat := []
  answers : List (List UInt8) := []
  deriving DecidableEq, Repr

/-- One ECU in one chunk. `messages` is what `_message` has been called with. -/
structure UdsChunk where
  rx : Rx := {}
  counts : Counts := {}
  events : List IsotpEvent := []
  messages : List (List UInt8) := []
  deriving DecidableEq, Repr

namespace UdsChunk

def event (c : UdsChunk) (e : IsotpEvent) : UdsChunk := { c with events := c.events ++ [e] }

def badFrame (c : UdsChunk) : UdsChunk :=
  { c with counts := { c.counts with badFrames := c.counts.badFrames + 1 } }

/-- `_abandon`. -/
def abandon (c : UdsChunk) : UdsChunk :=
  match c.rx.buf with
  | some buf =>
    { c with rx := { c.rx with buf := none } }.event (.incomplete buf.length c.rx.need)
  | none => c

/-- Whether `_message` forgets the request that was logged before the answer. -/
def answersRequest (e : Ecu) (msg : List UInt8) : Bool :=
  if msg.getD 0 0 = 0x7F then msg.length ≥ 3 && msg.getD 2 0 ≠ 0x78
  else if msg.length ≥ 3 ∧ msg.getD 0 0 = 0x59 ∧ msg.getD 1 0 = 0x02 then true
  else e.prefixLengths.any fun length => e.answers.contains (msg.take length)

/-- `_message`, up to what it makes of the answer's contents. -/
def message (e : Ecu) (c : UdsChunk) (msg : List UInt8) : UdsChunk :=
  { c with
    messages := c.messages ++ [msg]
    rx := { c.rx with request := if answersRequest e msg then none else c.rx.request } }

/-- `feed` for a single frame of the response id. -/
def feedSingle (e : Ecu) (c : UdsChunk) (data : List UInt8) : UdsChunk :=
  let length := (data.getD 0 0 &&& 0xF).toNat
  if length = 0 ∨ length > data.length - 1 then c.badFrame
  else
    let c := c.abandon
    let c := { c with rx := { c.rx with started := true, quiet := false } }
    c.message e (slice data 1 length)

/-- `feed` for a first frame of the response id. -/
def feedFirst (c : UdsChunk) (data : List UInt8) : UdsChunk :=
  let length := if data.length ≥ 2 then
    (data.getD 0 0 &&& 0xF).toNat <<< 8 ||| (data.getD 1 0).toNat else 0
  if length < 8 ∨ data.length < 8 then c.badFrame
  else
    let c := c.abandon
    { c with
      rx := { c.rx with
        started := true, quiet := false, buf := some (data.drop 2), need := length, sn := 1 } }

/-- `feed` for a consecutive frame of the response id. -/
def feedConsecutive (e : Ecu) (c : UdsChunk) (data : List UInt8) : UdsChunk :=
  match c.rx.buf with
  | none =>
    if c.rx.started = false then
      { c with counts := { c.counts with cutAtStart := c.counts.cutAtStart + 1 } }
    else if c.rx.quiet = false then
      { c with rx := { c.rx with quiet := true } }.event (.orphan (data.length - 1))
    else c
  | some buf =>
    let sn := (data.getD 0 0 &&& 0xF).toNat
    if sn ≠ c.rx.sn then
      { c with rx := { c.rx with buf := none, quiet := true } }.event
        (.sequence buf.length c.rx.sn sn)
    else
      let buf := buf ++ data.drop 1
      let c := { c with rx := { c.rx with buf := some buf, sn := c.rx.sn + 1 &&& 0xF } }
      if buf.length ≥ c.rx.need then
        { c with rx := { c.rx with buf := none } }.message e (buf.take c.rx.need)
      else c

/-- `feed` for a frame of the request id. -/
def feedRequest (c : UdsChunk) (data : List UInt8) : UdsChunk :=
  let pci := (data.getD 0 0 >>> 4).toNat
  let length := (data.getD 0 0 &&& 0xF).toNat
  if pci = 0 ∧ 1 ≤ length ∧ length ≤ data.length - 1 then
    { c with rx := { c.rx with request := some (slice data 1 length) } }
  else if pci = 1 then { c with rx := { c.rx with request := none } }
  else c

/-- `feed`, for a frame whose id is routed to this ECU in `role`. -/
def feed (e : Ecu) (c : UdsChunk) (role : Role) (data : List UInt8) : UdsChunk :=
  if data = [] then c.badFrame
  else
    match role with
    | .tx => c.feedRequest data
    | .rx =>
      match (data.getD 0 0 >>> 4).toNat with
      | 0 => c.feedSingle e data
      | 1 => c.feedFirst data
      | 2 => c.feedConsecutive e data
      | 3 => c
      | _ => c.badFrame

/-- Nothing but a message handled or a new first frame touches these. -/
theorem abandon_kept (c : UdsChunk) :
    c.abandon.rx.buf = none ∧ c.abandon.messages = c.messages := by
  unfold abandon
  split
  · exact ⟨rfl, rfl⟩
  · exact ⟨‹_›, rfl⟩

end UdsChunk

end Host

/-! ## Both receivers on one address pair -/

open Host

/-- What happens on the address pair: a frame of either id at some time, or the device looking
at its timer. -/
inductive Traffic
  | frame (role : Role) (f : Frame) (nowMs : UInt32)
  | poll (nowMs : UInt32)
  deriving DecidableEq, Repr

namespace Traffic

/-- The device listens to the response id only. -/
def device (cfg : IsoTpConfig) (r : RxTransfer) : Traffic → RxAction × RxTransfer
  | .frame .rx f nowMs =>
    let (action, _, r) := r.onFrame cfg f.data f.dlc nowMs {}
    (action, r)
  | .frame .tx _ _ => (.nothing, r)
  | .poll nowMs => r.poll cfg nowMs

/-- The message the device completes. -/
def completed (cfg : IsoTpConfig) (r : RxTransfer) (t : Traffic) : Option (List UInt8) :=
  match t.device cfg r with
  | (.messageComplete, r) => some r.message
  | _ => none

/-- The host's side of the same event. -/
def host (e : Ecu) (c : UdsChunk) : Traffic → UdsChunk
  | .frame role f _ => c.feed e role (f.data.take f.dlc)
  | .poll _ => c

/-- A frame has eight cells and sends at most those; no poll finds the timer expired. -/
def Classic (cfg : IsoTpConfig) (r : RxTransfer) : Traffic → Prop
  | .frame _ f _ => f.data.length = frameLen ∧ f.dlc ≤ frameLen
  | .poll nowMs => (r.poll cfg nowMs).1 ≠ .failed

end Traffic

/-- Between two frames: both receivers wait, or both have the same part of the same message
and expect the same sequence number. -/
structure Agrees (r : RxTransfer) (c : UdsChunk) : Prop where
  capacity : r.capacity = r.buffer.length
  room : maxClassicMessageSize ≤ r.capacity
  idle : r.state = .idle → c.rx.buf = none
  receiving : r.state = .receiving →
    c.rx.buf = some r.message ∧ c.rx.need = r.expected ∧
      c.rx.sn = (r.sequence + 1 &&& 0x0F).toNat ∧ r.size < r.expected ∧
      r.expected ≤ maxClassicMessageSize

namespace Agrees

variable {cfg : IsoTpConfig} {e : Ecu} {r : RxTransfer} {c : UdsChunk}

/-- Only the fields that the relation reads matter. -/
theorem congr (h : Agrees r c) {r' : RxTransfer} {c' : UdsChunk} (hbuffer : r'.buffer = r.buffer)
    (hcapacity : r'.capacity = r.capacity) (hsize : r'.size = r.size)
    (hexpected : r'.expected = r.expected) (hstate : r'.state = r.state)
    (hsequence : r'.sequence = r.sequence) (hbuf : c'.rx.buf = c.rx.buf)
    (hneed : c'.rx.need = c.rx.need) (hsn : c'.rx.sn = c.rx.sn) : Agrees r' c' where
  capacity := by rw [hcapacity, hbuffer, h.capacity]
  room := by rw [hcapacity]; exact h.room
  idle hidle := by rw [hbuf]; exact h.idle (hstate.symm.trans hidle)
  receiving hreceiving := by
    unfold message
    rw [hbuf, hneed, hsn, hbuffer, hsize, hexpected, hsequence]
    exact h.receiving (hstate.symm.trans hreceiving)

/-- A receiver that waits agrees with a host that holds nothing. -/
theorem of_idle {r' : RxTransfer} {c' : UdsChunk} (hcapacity : r'.capacity = r'.buffer.length)
    (hroom : maxClassicMessageSize ≤ r'.capacity) (hidle : r'.state = .idle)
    (hbuf : c'.rx.buf = none) : Agrees r' c' where
  capacity := hcapacity
  room := hroom
  idle _ := hbuf
  receiving hreceiving := by rw [hidle] at hreceiving; cases hreceiving

theorem buffer_length (h : Agrees r c) : maxClassicMessageSize ≤ r.buffer.length := by
  rw [← h.capacity]
  exact h.room

end Agrees

/-- One event on both sides: the relation holds again, and the host has handled the message
that the device completed, if it did. -/
def InStep (c : UdsChunk) (device : RxAction × RxTransfer) (c' : UdsChunk) : Prop :=
  Agrees device.2 c' ∧ c'.messages = c.messages ++
    (if device.1 = .messageComplete then [device.2.message] else [])

section Frames

variable {cfg : IsoTpConfig} {e : Ecu} {r : RxTransfer} {c : UdsChunk} {d : List UInt8} {n : Nat}

theorem getD_take {i : Nat} (h : i < n) : (d.take n).getD i 0 = d.getD i 0 := by
  rw [List.getD_eq_getElem?_getD, List.getElem?_take_of_lt h, ← List.getD_eq_getElem?_getD]

theorem length_take_cells (hd : d.length = frameLen) (hn : n ≤ frameLen) :
    (d.take n).length = n := by
  rw [List.length_take, hd, Nat.min_eq_left hn]

/-- What is sent of the cells behind the PCI. -/
theorem slice_take {off m : Nat} (h : off + m ≤ n) : slice (d.take n) off m = slice d off m := by
  unfold slice
  rw [List.drop_take, List.take_take, Nat.min_eq_left (by omega)]

theorem length_slice {off m : Nat} (h : off + m ≤ d.length) : (slice d off m).length = m := by
  unfold slice
  rw [List.length_take, List.length_drop]
  omega

variable {nowMs : UInt32} {out : Frame}

/-- Neither side makes anything of a malformed frame. -/
theorem inStep_invalid (h : Agrees r c)
    (hinfo : (decodePci cfg d n).type = .invalid) {c' : UdsChunk} (hrx : c'.rx = c.rx)
    (hmessages : c'.messages = c.messages) :
    InStep c ((r.onFrame cfg d n nowMs out).1, (r.onFrame cfg d n nowMs out).2.2) c' := by
  unfold onFrame
  dsimp only
  rw [hinfo]
  refine ⟨h.congr rfl rfl rfl rfl rfl rfl (by rw [hrx]) (by rw [hrx]) (by rw [hrx]), ?_⟩
  rw [if_neg nofun, List.append_nil, hmessages]

theorem inStep_single (h : Agrees r c)
    (hael : cfg.addressExtensionLen = 0) (hd : d.length = frameLen) (hn : n ≤ frameLen)
    (h0 : 0 < n) (hpci : d.getD 0 0 >>> 4 = PciType.single.code) :
    InStep c ((r.onFrame cfg d n nowMs out).1, (r.onFrame cfg d n nowMs out).2.2)
      (c.feedSingle e (d.take n)) := by
  have hcap : singleFrameCapacity cfg = 7 := by rw [singleFrameCapacity, hael]; rfl
  have hroom := h.buffer_length
  have h7 : frameLen = 8 := rfl
  have hlimit : maxClassicMessageSize = 4095 := rfl
  unfold UdsChunk.feedSingle
  dsimp only
  rw [getD_take h0, length_take_cells hd hn]
  generalize hlen : (d.getD 0 0 &&& 0xF).toNat = len
  have hdecode : decodePci cfg d n = if len = 0 ∨ len > n - 1 then {} else
      { type := .single, length := len, payloadOffset := 1, payloadLen := len } := by
    unfold decodePci
    rw [hael, hcap]
    dsimp only [Fin.val_zero]
    rw [if_neg (by omega), if_pos hpci, hlen]
    congr 1
    simp only [eq_iff_iff]
    omega
  split_ifs with hbad
  · exact inStep_invalid h (by rw [hdecode, if_pos hbad]) rfl rfl
  · obtain ⟨-, hmessages⟩ := c.abandon_kept
    unfold onFrame
    dsimp only
    rw [hdecode, if_neg hbad]
    dsimp only
    have hslice : (slice d 1 len).length = len := length_slice (by omega)
    have hfit : 0 + (slice d 1 len).length ≤ r.buffer.length := by omega
    refine ⟨.of_idle ?_ h.room rfl ?_, ?_⟩
    · dsimp only
      rw [blit_length hfit]
      exact h.capacity
    · exact c.abandon_kept.1
    · have hmessage : (blit r.buffer 0 (slice d 1 len)).take len = slice d 1 len := by
        have htake := take_blit r.buffer (slice d 1 len) (Nat.zero_le _)
        rwa [hslice, Nat.zero_add] at htake
      rw [if_pos rfl, slice_take (by omega)]
      unfold UdsChunk.message message
      dsimp only
      rw [hmessages, hmessage]

theorem inStep_first (h : Agrees r c)
    (hael : cfg.addressExtensionLen = 0) (hd : d.length = frameLen) (hn : n ≤ frameLen)
    (h0 : 0 < n) (hpci : d.getD 0 0 >>> 4 = PciType.first.code) :
    InStep c ((r.onFrame cfg d n nowMs out).1, (r.onFrame cfg d n nowMs out).2.2)
      (c.feedFirst (d.take n)) := by
  have hcap : singleFrameCapacity cfg = 7 := by rw [singleFrameCapacity, hael]; rfl
  have hcap' : firstFrameCapacity cfg = 6 := by rw [firstFrameCapacity, hael]; rfl
  have hroom := h.buffer_length
  have h7 : frameLen = 8 := rfl
  have hlimit : maxClassicMessageSize = 4095 := rfl
  unfold UdsChunk.feedFirst
  dsimp only
  rw [getD_take h0, length_take_cells hd hn]
  by_cases h8 : n < 8
  · rw [if_pos (Or.inr h8)]
    refine inStep_invalid h ?_ rfl rfl
    unfold decodePci
    rw [hael, hcap, hcap']
    dsimp only [Fin.val_zero]
    rw [if_neg (by omega), if_neg (by rw [hpci]; decide), if_pos hpci]
    split_ifs <;> rfl
  have hn8 : n = 8 := by omega
  subst hn8
  rw [if_pos (show 8 ≥ 2 by omega), getD_take (show 1 < 8 by omega)]
  generalize hlen : (d.getD 0 0 &&& 0xF).toNat <<< 8 ||| (d.getD 1 0).toNat = len
  have hbound : len < 4096 := by
    rw [← hlen]
    refine Nat.or_lt_two_pow (n := 12) ?_ ?_
    · rw [Nat.shiftLeft_eq]
      have := and_0x0F_lt (d.getD 0 0)
      omega
    · have := (d.getD 1 0).toNat_lt
      omega
  have hdecode : decodePci cfg d 8 = if len < 8 ∨ 8 < 8 then {} else
      { type := .first, length := len, payloadOffset := 2, payloadLen := 6 } := by
    unfold decodePci
    rw [hael, hcap, hcap']
    dsimp only [Fin.val_zero]
    rw [if_neg (by decide), if_neg (by rw [hpci]; decide), if_pos hpci, if_neg (by decide),
      hlen]
    simp only [Nat.zero_add, Nat.reduceAdd, Nat.lt_irrefl, if_false, or_false]
    congr 1
    simp only [eq_iff_iff]
    omega
  split_ifs with hbad
  · exact inStep_invalid h (by rw [hdecode, if_pos hbad]) rfl rfl
  · obtain ⟨-, hmessages⟩ := c.abandon_kept
    unfold onFrame
    dsimp only
    rw [hdecode, if_neg hbad]
    dsimp only
    unfold onFirst
    rw [if_neg (by dsimp only; have := h.room; omega)]
    have hslice : (slice d 2 6).length = 6 := length_slice (by omega)
    have hfit : 0 + (slice d 2 6).length ≤ r.buffer.length := by omega
    refine ⟨⟨?_, h.room, (fun hidle => by cases hidle), fun _ => ⟨?_, rfl, ?_, ?_, ?_⟩⟩, ?_⟩
    · dsimp only
      rw [blit_length hfit]
      exact h.capacity
    · have htake := take_blit r.buffer (slice d 2 6) (Nat.zero_le _)
      rw [hslice, Nat.zero_add] at htake
      unfold message
      dsimp only
      rw [htake, List.take_zero, List.nil_append, slice, List.drop_take]
    · dsimp only
      decide
    · dsimp only
      omega
    · dsimp only
      omega
    · rw [if_neg (fun h => by cases h), List.append_nil]
      exact hmessages

/-- The next sequence number is the same count on both sides. -/
theorem next_sequence (b : UInt8) :
    (b &&& 0x0F).toNat + 1 &&& 0xF = ((b &&& 0x0F) + 1 &&& 0x0F).toNat := by
  have key : ∀ k : Fin 16, k.val + 1 &&& 0xF = (UInt8.ofNat k.val + 1 &&& 0x0F).toNat := by decide
  have h := key ⟨_, and_0x0F_lt b⟩
  rwa [UInt8.ofNat_toNat] at h

/-- The device stops at the announced length, the host cuts there. -/
theorem append_cut {size expected m : Nat} {l bytes : List UInt8} (hl : l.length = size)
    (hsize : size < expected) (hm : bytes.length = m) :
    l ++ bytes.take (if m < expected - size then m else expected - size) =
      (l ++ bytes).take expected := by
  rw [List.take_append, List.take_of_length_le (l := l) (by omega), hl]
  congr 1
  split_ifs
  · rw [List.take_of_length_le (by omega), List.take_of_length_le (by omega)]
  · rfl

theorem inStep_consecutive (h : Agrees r c)
    (hael : cfg.addressExtensionLen = 0) (hd : d.length = frameLen) (hn : n ≤ frameLen)
    (h0 : 0 < n) (hpci : d.getD 0 0 >>> 4 = PciType.consecutive.code) :
    InStep c ((r.onFrame cfg d n nowMs out).1, (r.onFrame cfg d n nowMs out).2.2)
      (c.feedConsecutive e (d.take n)) := by
  have hroom := h.buffer_length
  have h7 : frameLen = 8 := rfl
  have hlimit : maxClassicMessageSize = 4095 := rfl
  have hdecode : decodePci cfg d n =
      { type := .consecutive, sequence := d.getD 0 0 &&& 0x0F, payloadOffset := 1
        payloadLen := n - 1 } := by
    unfold decodePci
    rw [hael]
    dsimp only [Fin.val_zero]
    rw [if_neg (by omega), if_neg (by rw [hpci]; decide), if_neg (by rw [hpci]; decide),
      if_pos hpci]
  unfold onFrame
  dsimp only
  rw [hdecode]
  dsimp only
  unfold onConsecutive UdsChunk.feedConsecutive
  cases hstate : r.state with
  | idle =>
    rw [h.idle hstate, if_pos nofun]
    dsimp only
    split_ifs
    all_goals
      refine ⟨h.congr rfl rfl rfl rfl hstate.symm rfl rfl rfl rfl, ?_⟩
      rw [if_neg nofun]
      exact (List.append_nil _).symm
  | receiving =>
    obtain ⟨hbuf, hneed, hsn, hsize, hexpected⟩ := h.receiving hstate
    rw [hbuf, if_neg (by simp)]
    dsimp only
    rw [getD_take h0, hsn]
    by_cases hwrong : d.getD 0 0 &&& 0x0F = r.sequence + 1 &&& 0x0F
    · have hsame : ¬ (d.getD 0 0 &&& 0xF).toNat ≠ (r.sequence + 1 &&& 0x0F).toNat :=
        fun hne => hne (congrArg UInt8.toNat hwrong)
      rw [if_neg (fun hne => hne hwrong), if_neg hsame]
      have hmissing : u16Sub r.expected r.size = r.expected - r.size :=
        u16Sub_of_le (by omega) (by omega)
      rw [hmissing, hneed]
      generalize htake : (if n - 1 < r.expected - r.size then n - 1 else r.expected - r.size) =
        take
      have hle : take ≤ n - 1 ∧ take ≤ r.expected - r.size := by
        rw [← htake]
        split_ifs <;> omega
      rw [u16Add_of_lt (by omega)]
      have hslice : (slice d 1 take).length = take := length_slice (by omega)
      have hfit : r.size + (slice d 1 take).length ≤ r.buffer.length := by omega
      have hlength : r.message.length = r.size := by
        unfold message
        rw [List.length_take]
        omega
      have hbytes : ((d.take n).drop 1).length = n - 1 := by
        rw [List.length_drop, length_take_cells hd hn]
      -- what the device has now is what the host has, cut at the announced length
      have hmessage : (blit r.buffer r.size (slice d 1 take)).take (r.size + take) =
          (r.message ++ (d.take n).drop 1).take r.expected := by
        have hblit := take_blit r.buffer (slice d 1 take) (show r.size ≤ r.buffer.length by omega)
        rw [hslice] at hblit
        rw [hblit, ← append_cut hlength hsize hbytes, htake]
        unfold slice
        rw [List.drop_take, List.take_take, Nat.min_eq_left hle.1]
        rfl
      have hcapacity : r.capacity = (blit r.buffer r.size (slice d 1 take)).length := by
        rw [blit_length hfit]
        exact h.capacity
      have hdone : r.expected ≤ r.size + take ↔
          r.expected ≤ (r.message ++ (d.take n).drop 1).length := by
        rw [List.length_append, hlength, hbytes, ← htake]
        split_ifs <;> omega
      by_cases hcomplete : r.expected ≤ r.size + take
      · rw [if_pos hcomplete, if_pos (hdone.mp hcomplete)]
        refine ⟨.of_idle hcapacity h.room rfl rfl, ?_⟩
        rw [if_pos rfl, ← hmessage]
        rfl
      · rw [if_neg hcomplete, if_neg (fun hle => hcomplete (hdone.mpr hle))]
        have hwhole : (r.message ++ (d.take n).drop 1).take r.expected =
            r.message ++ (d.take n).drop 1 :=
          List.take_of_length_le (by have := mt hdone.mpr hcomplete; omega)
        rw [hwhole] at hmessage
        have hnext : ∀ (r' : RxTransfer) (c' : UdsChunk),
            r'.buffer = blit r.buffer r.size (slice d 1 take) → r'.capacity = r.capacity →
            r'.size = r.size + take → r'.expected = r.expected → r'.state = .receiving →
            r'.sequence = r.sequence + 1 &&& 0x0F →
            c'.rx.buf = some (r.message ++ (d.take n).drop 1) → c'.rx.need = r.expected →
            c'.rx.sn = (r.sequence + 1 &&& 0x0F).toNat + 1 &&& 0xF → Agrees r' c' := by
          intro r' c' hbuffer' hcapacity' hsize' hexpected' hstate' hsequence' hbuf' hneed' hsn'
          refine ⟨?_, ?_, fun hidle => ?_, fun _ => ⟨?_, ?_, ?_, ?_, ?_⟩⟩
          · rw [hcapacity', hbuffer', hcapacity]
          · rw [hcapacity']
            exact h.room
          · rw [hidle] at hstate'
            cases hstate'
          · unfold message at hmessage hbuf' ⊢
            rw [hbuf', hbuffer', hsize', hmessage]
          · rw [hneed', hexpected']
          · rw [hsn', hsequence', next_sequence]
          · omega
          · omega
        split_ifs
        all_goals
          refine ⟨hnext _ _ rfl rfl rfl rfl rfl rfl rfl rfl rfl, ?_⟩
          rw [if_neg nofun]
          exact (List.append_nil _).symm
    · rw [if_pos hwrong, if_pos (fun heq => hwrong (UInt8.toNat_inj.mp heq))]
      refine ⟨.of_idle h.capacity h.room rfl rfl, ?_⟩
      rw [if_neg nofun, List.append_nil]
      rfl

/-- A frame of no known kind, or a flow control frame, which neither receiver takes. -/
theorem inStep_other (h : Agrees r c)
    (hael : cfg.addressExtensionLen = 0) (hsingle : d.getD 0 0 >>> 4 ≠ PciType.single.code)
    (hfirst : d.getD 0 0 >>> 4 ≠ PciType.first.code)
    (hconsecutive : d.getD 0 0 >>> 4 ≠ PciType.consecutive.code) {c' : UdsChunk}
    (hrx : c'.rx = c.rx) (hmessages : c'.messages = c.messages) :
    InStep c ((r.onFrame cfg d n nowMs out).1, (r.onFrame cfg d n nowMs out).2.2) c' := by
  have htype : (decodePci cfg d n).type = .invalid ∨ (decodePci cfg d n).type = .flowControl := by
    unfold decodePci
    rw [hael]
    dsimp only [Fin.val_zero]
    rw [if_neg hsingle, if_neg hfirst, if_neg hconsecutive]
    split_ifs
    · exact Or.inl rfl
    · exact Or.inl rfl
    · exact Or.inl rfl
    · exact Or.inr rfl
    · exact Or.inl rfl
  rcases htype with hinvalid | hcontrol
  · exact inStep_invalid h hinvalid hrx hmessages
  · unfold onFrame
    dsimp only
    rw [hcontrol]
    refine ⟨h.congr rfl rfl rfl rfl rfl rfl (by rw [hrx]) (by rw [hrx]) (by rw [hrx]), ?_⟩
    rw [if_neg nofun, List.append_nil, hmessages]

/-- One frame of the response id. -/
theorem inStep_feed (h : Agrees r c)
    (hael : cfg.addressExtensionLen = 0) (hd : d.length = frameLen) (hn : n ≤ frameLen) :
    InStep c ((r.onFrame cfg d n nowMs out).1, (r.onFrame cfg d n nowMs out).2.2)
      (c.feed e .rx (d.take n)) := by
  unfold UdsChunk.feed
  rcases Nat.eq_zero_or_pos n with rfl | h0
  · refine inStep_invalid h ?_ rfl rfl
    unfold decodePci
    rw [if_pos (by omega)]
  have hne : d.take n ≠ [] := by
    intro hnil
    have hlength := length_take_cells hd hn
    rw [hnil, List.length_nil] at hlength
    omega
  have hcode : ∀ t : PciType, (d.getD 0 0 >>> 4).toNat = t.code.toNat →
      d.getD 0 0 >>> 4 = t.code := fun t ht => UInt8.toNat_inj.mp ht
  have hcode' : ∀ t : PciType, (d.getD 0 0 >>> 4).toNat ≠ t.code.toNat →
      d.getD 0 0 >>> 4 ≠ t.code := fun t ht heq => ht (congrArg UInt8.toNat heq)
  rw [if_neg hne]
  dsimp only
  rw [getD_take h0]
  split
  · exact inStep_single h hael hd hn h0 (hcode .single ‹_›)
  · exact inStep_first h hael hd hn h0 (hcode .first ‹_›)
  · exact inStep_consecutive h hael hd hn h0 (hcode .consecutive ‹_›)
  · refine inStep_other h hael ?_ ?_ ?_ rfl rfl
    all_goals exact hcode' _ (by rw [‹(d.getD 0 0 >>> 4).toNat = 3›]; decide)
  · rename_i h0' h1' h2' h3'
    exact inStep_other h hael (hcode' .single h0') (hcode' .first h1') (hcode' .consecutive h2')
      rfl rfl

end Frames

namespace Host

/-- A request changes nothing that answers are put together from. -/
theorem UdsChunk.feedRequest_kept (c : UdsChunk) (data : List UInt8) :
    (c.feedRequest data).rx.buf = c.rx.buf ∧ (c.feedRequest data).rx.need = c.rx.need ∧
      (c.feedRequest data).rx.sn = c.rx.sn ∧ (c.feedRequest data).messages = c.messages := by
  unfold feedRequest
  dsimp only
  split_ifs
  · exact ⟨rfl, rfl, rfl, rfl⟩
  · exact ⟨rfl, rfl, rfl, rfl⟩
  · exact ⟨rfl, rfl, rfl, rfl⟩

end Host

/-! ## Whole recordings -/

namespace Traffic

variable {cfg : IsoTpConfig} {e : Ecu} {r : RxTransfer} {c : UdsChunk}

theorem inStep (hael : cfg.addressExtensionLen = 0) (h : Agrees r c) {t : Traffic}
    (ht : t.Classic cfg r) : InStep c (t.device cfg r) (t.host e c) := by
  cases t with
  | frame role f nowMs =>
    cases role with
    | rx => exact inStep_feed h hael ht.1 ht.2
    | tx =>
      unfold host UdsChunk.feed
      dsimp only
      split_ifs
      · exact ⟨h.congr rfl rfl rfl rfl rfl rfl rfl rfl rfl, (List.append_nil _).symm⟩
      · obtain ⟨hbuf, hneed, hsn, hmessages⟩ := c.feedRequest_kept (f.data.take f.dlc)
        exact ⟨h.congr rfl rfl rfl rfl rfl rfl hbuf hneed hsn,
          hmessages.trans (List.append_nil _).symm⟩
  | poll nowMs =>
    have hpoll : r.poll cfg nowMs = (.nothing, r) := by
      have hfine : (r.poll cfg nowMs).1 ≠ .failed := ht
      unfold RxTransfer.poll at hfine ⊢
      split_ifs at hfine ⊢
      · rfl
      · exact absurd rfl hfine
      · rfl
    refine ⟨?_, ?_⟩
    · rw [device, hpoll]
      exact h
    · rw [device, hpoll]
      exact (List.append_nil _).symm

theorem completed_toList (t : Traffic) :
    (t.completed cfg r).toList =
      if (t.device cfg r).1 = .messageComplete then [(t.device cfg r).2.message] else [] := by
  unfold completed
  split
  · rename_i heq
    rw [heq]
    rfl
  · rename_i hne
    rw [if_neg]
    · rfl
    · intro hcomplete
      exact hne (t.device cfg r).2 (Prod.ext hcomplete rfl)

/-- From a device that waits and a host that holds nothing, with room for every classic
message: whatever is sent, the host's handler gets the messages that the device completes. -/
theorem messages_agree (hael : cfg.addressExtensionLen = 0)
    (hcapacity : r.capacity = r.buffer.length) (hroom : maxClassicMessageSize ≤ r.capacity)
    (hidle : r.state = .idle) (hbuf : c.rx.buf = none) {ts : List Traffic}
    (hts : Admitted (fun r t => Classic cfg r t) (fun r t => (device cfg r t).2) r ts) :
    (exec (fun c t => host e c t) c ts).messages =
      c.messages ++
        observed (fun r t => completed cfg r t) (fun r t => (device cfg r t).2) r ts := by
  refine (hts.collected Agrees UdsChunk.messages ?_
    (Agrees.of_idle hcapacity hroom hidle hbuf)).2
  intro r c t ht h
  have hstep := inStep (e := e) hael h ht
  rw [completed_toList]
  exact ⟨hstep.1, hstep.2⟩

/-- A request, an answer in two frames with a poll between them, and a stray frame. -/
def sample : List Traffic :=
  [.frame .tx { data := [0x03, 0x22, 0xF1, 0x90, 0, 0, 0, 0], dlc := 4 } 0,
    .frame .rx { data := [0x10, 0x09, 0x62, 0xF1, 0x90, 0x41, 0x42, 0x43], dlc := 8 } 10,
    .poll 500,
    .frame .rx { data := [0x21, 0x44, 0x45, 0x46, 0xCC, 0xCC, 0xCC, 0xCC], dlc := 8 } 510,
    .frame .rx { data := [0x22, 0x47, 0, 0, 0, 0, 0, 0], dlc := 2 } 520]

/-- The device at its start, with the smallest buffer that takes every classic message. -/
def sampleDevice : RxTransfer :=
  { buffer := List.replicate maxClassicMessageSize 0, capacity := maxClassicMessageSize }

theorem messages_agree_sample :
    (exec (fun c t => host {} c t) {} sample).messages =
        observed (fun r t => completed {} r t) (fun r t => (device {} r t).2)
          sampleDevice sample ∧
      (exec (fun c t => host {} c t) {} sample).messages =
        [[0x62, 0xF1, 0x90, 0x41, 0x42, 0x43, 0x44, 0x45, 0x46]] := by
  have hcapacity : sampleDevice.capacity = sampleDevice.buffer.length := List.length_replicate.symm
  refine ⟨(messages_agree rfl hcapacity (Nat.le_refl _) rfl rfl ?_).trans (List.nil_append _),
    by decide⟩
  exact ⟨⟨rfl, by decide⟩, ⟨rfl, by decide⟩, nofun, ⟨rfl, by decide⟩, ⟨rfl, by decide⟩, trivial⟩

end Traffic

end EspCars.Isotp
