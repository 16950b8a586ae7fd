import EspCars.Isotp.Exchange
import EspCars.Isotp.Protocol

/-!
# What a reassembly holds

`RxTransfer` fed with whatever is on the bus: frames of any bytes and polls at any time. `latest`
reads off the frames alone which first frame came last and which consecutive frames came after it;
while the receiver is busy, its buffer holds what they carry (`Assembling`), and what it reports as
complete is that message, cut to the length the first frame declared (`reassembly`).
-/

namespace EspCars.Isotp

open EspCars.Lib RxTransfer

/-- A frame as `on_frame` gets it: its bytes, of which the first `dlc` are there, at most eight. -/
structure Heard where
  data : List UInt8
  dlc : Nat
  short : dlc ≤ frameLen
  held : dlc ≤ data.length

namespace Heard

def pci (cfg : IsoTpConfig) (h : Heard) : PciInfo := decodePci cfg h.data h.dlc

/-- The bytes of the message that the frame carries. -/
def payload (cfg : IsoTpConfig) (h : Heard) : List UInt8 :=
  slice h.data (h.pci cfg).payloadOffset (h.pci cfg).payloadLen

variable (cfg : IsoTpConfig) (h : Heard)

theorem payload_inside : (h.pci cfg).payloadOffset + (h.pci cfg).payloadLen ≤ h.dlc := by
  unfold pci decodePci
  dsimp only
  split_ifs <;> dsimp only <;> omega

theorem length_slice {k : Nat} (hk : k ≤ (h.pci cfg).payloadLen) :
    (slice h.data (h.pci cfg).payloadOffset k).length = k := by
  have hin := h.payload_inside cfg
  have hheld := h.held
  simp only [slice, List.length_take, List.length_drop]
  omega

theorem length_payload : (h.payload cfg).length = (h.pci cfg).payloadLen :=
  h.length_slice cfg (Nat.le_refl _)

theorem slice_eq_take {k : Nat} (hk : k ≤ (h.pci cfg).payloadLen) :
    slice h.data (h.pci cfg).payloadOffset k = (h.payload cfg).take k := by
  unfold payload slice
  rw [List.take_take, Nat.min_eq_left hk]

theorem payloadLen_of_single (hs : (h.pci cfg).type = .single) : (h.pci cfg).payloadLen ≤ 7 := by
  have hin := h.payload_inside cfg
  have hshort := h.short
  unfold frameLen at hshort
  have hoff : 1 ≤ (h.pci cfg).payloadOffset := by
    unfold pci decodePci at hs ⊢
    dsimp only at hs ⊢
    split_ifs at hs ⊢
    all_goals simp_all
  omega

/-- A first frame declares more than it carries. -/
theorem payloadLen_of_first (hf : (h.pci cfg).type = .first) :
    (h.pci cfg).payloadLen < (h.pci cfg).length := by
  have hcap := capacities cfg
  unfold pci decodePci at hf ⊢
  dsimp only at hf ⊢
  split_ifs at hf ⊢
  all_goals simp_all
  omega

end Heard

namespace RxTransfer

/-- A call of the receiver. -/
inductive Input
  | frame (heard : Heard) (nowMs : UInt32) (out : Frame)
  | poll (nowMs : UInt32)

/-- What `on_frame` and `poll` answer, and the machine afterwards. -/
def answer (cfg : IsoTpConfig) (r : RxTransfer) : Input → RxAction × RxTransfer
  | .frame heard nowMs out =>
    ((r.onFrame cfg heard.data heard.dlc nowMs out).1,
      (r.onFrame cfg heard.data heard.dlc nowMs out).2.2)
  | .poll nowMs => r.poll cfg nowMs

def step (cfg : IsoTpConfig) (r : RxTransfer) (input : Input) : RxTransfer :=
  (r.answer cfg input).2

/-! ## The message on the bus -/

/-- A first frame and the consecutive frames since: what each carries and how those are
numbered. -/
structure Opened where
  declared : Nat
  first : List UInt8
  rest : List (UInt8 × List UInt8) := []
  deriving DecidableEq

/-- All that they carry. -/
def Opened.bytes (o : Opened) : List UInt8 := o.first ++ o.rest.flatMap Prod.snd

/-- They are numbered 1, 2, …, 15, 0, 1, … without a gap. -/
def Opened.Numbered (o : Opened) : Prop :=
  o.rest.map Prod.fst = (List.range o.rest.length).map fun k => seqAfter (k + 1)

def Opened.next (cfg : IsoTpConfig) (o : Option Opened) : Input → Option Opened
  | .frame heard _ _ =>
    match (heard.pci cfg).type with
    | .first => some { declared := (heard.pci cfg).length, first := heard.payload cfg }
    | .consecutive => o.map fun o =>
      { o with rest := o.rest ++ [((heard.pci cfg).sequence, heard.payload cfg)] }
    | _ => o
  | .poll _ => o

/-- The latest first frame among the inputs. -/
def latest (cfg : IsoTpConfig) (inputs : List Input) : Option Opened :=
  exec (Opened.next cfg) none inputs

theorem Opened.Numbered.snoc {o : Opened} (h : o.Numbered) (payload : List UInt8) :
    Opened.Numbered
      { o with rest := o.rest ++ [(seqAfter (o.rest.length + 1), payload)] } := by
  unfold Opened.Numbered at h ⊢
  dsimp only
  rw [List.map_append, h, List.length_append, List.length_singleton, List.range_succ,
    List.map_append]
  rfl

/-! ## Copies into the buffer -/

/-- The `memcpy` of `on_frame`: where it writes, where in the frame it reads, and how much. -/
def copied (cfg : IsoTpConfig) (r : RxTransfer) (heard : Heard) : Option (Nat × Nat × Nat) :=
  let info := heard.pci cfg
  match info.type with
  | .single => some (0, info.payloadOffset, info.payloadLen)
  | .first => if info.length > r.capacity then none
    else some (0, info.payloadOffset, info.payloadLen)
  | .consecutive =>
    if r.state ≠ .receiving ∨ info.sequence ≠ r.sequence + 1 &&& 0x0F then none
    else some (r.size, info.payloadOffset, min info.payloadLen (u16Sub r.expected r.size))
  | _ => none

section OnFrame

variable {cfg : IsoTpConfig} {r : RxTransfer} {heard : Heard} {nowMs : UInt32} {out : Frame}

theorem take_eq_min (a b : Nat) : (if a < b then a else b) = min a b := by
  rw [Nat.min_def]
  split_ifs <;> omega

/-- The buffer changes by that copy. -/
theorem buffer_onFrame :
    (r.onFrame cfg heard.data heard.dlc nowMs out).2.2.buffer =
      match copied cfg r heard with
      | some (at', from', count) => blit r.buffer at' (slice heard.data from' count)
      | none => r.buffer := by
  unfold onFrame copied
  unfold Heard.pci
  generalize decodePci cfg heard.data heard.dlc = info
  cases htype : info.type <;> simp only [htype]
  case first =>
    unfold onFirst
    split_ifs <;> rfl
  case consecutive =>
    unfold onConsecutive
    by_cases hstate : r.state = .receiving
    · by_cases hseq : info.sequence = r.sequence + 1 &&& 0x0F
      · simp only [hstate, hseq, ne_eq, not_true_eq_false, if_false, or_self, take_eq_min]
        split_ifs <;> rfl
      · simp only [hstate, hseq, ne_eq, not_true_eq_false, if_false, not_false_eq_true, if_true,
          or_true]
    · simp only [hstate, ne_eq, not_false_eq_true, if_true, true_or]

/-- A consecutive frame with the number that is due: its bytes are appended, as many as are
missing, and with the last of them the message is complete. -/
theorem onConsecutive_due {info : PciInfo} {data : List UInt8} (hstate : r.state = .receiving)
    (hseq : info.sequence = r.sequence + 1 &&& 0x0F) (hlive : r.size < r.expected)
    (hnarrow : r.expected < 65536) :
    let count := min info.payloadLen (r.expected - r.size)
    let answer := r.onConsecutive cfg info data nowMs out
    answer.2.2.buffer = blit r.buffer r.size (slice data info.payloadOffset count) ∧
      answer.2.2.size = r.size + count ∧ answer.2.2.expected = r.expected ∧
      answer.2.2.capacity = r.capacity ∧ answer.2.2.sequence = info.sequence ∧
      ((r.expected ≤ r.size + count ∧ answer.1 = .messageComplete ∧ answer.2.2.state = .idle) ∨
        (r.size + count < r.expected ∧ answer.1 ≠ .messageComplete ∧
          answer.2.2.state = .receiving)) := by
  have hmissing : u16Sub r.expected r.size = r.expected - r.size :=
    u16Sub_of_le (Nat.le_of_lt hlive) hnarrow
  have hsize : u16Add r.size (min info.payloadLen (r.expected - r.size)) =
      r.size + min info.payloadLen (r.expected - r.size) := u16Add_of_lt (by omega)
  unfold onConsecutive
  rw [if_neg (not_not.mpr hstate)]
  simp only [hseq, ne_eq, not_true_eq_false, if_false, hmissing, take_eq_min, hsize]
  by_cases hend : r.expected ≤ r.size + min info.payloadLen (r.expected - r.size)
  · rw [if_pos hend]
    exact ⟨rfl, rfl, rfl, rfl, rfl, Or.inl ⟨hend, rfl, rfl⟩⟩
  · rw [if_neg hend]
    have hopen := Nat.lt_of_not_le hend
    split_ifs
    · exact ⟨rfl, rfl, rfl, rfl, rfl, Or.inr ⟨hopen, nofun, hstate⟩⟩
    · exact ⟨rfl, rfl, rfl, rfl, rfl, Or.inr ⟨hopen, nofun, hstate⟩⟩
    · exact ⟨rfl, rfl, rfl, rfl, rfl, Or.inr ⟨hopen, nofun, hstate⟩⟩

/-- Any other number ends the reassembly. -/
theorem onConsecutive_gap {info : PciInfo} {data : List UInt8} (hstate : r.state = .receiving)
    (hseq : info.sequence ≠ r.sequence + 1 &&& 0x0F) :
    r.onConsecutive cfg info data nowMs out =
      (.failed, out, { r with state := .idle, error := .wrongSequence }) := by
  unfold onConsecutive
  rw [if_neg (not_not.mpr hstate)]
  exact if_pos hseq

end OnFrame

/-! ## What the buffer holds -/

/-- The message under way is `o`, and bytes of it are missing. -/
structure Holds (o : Opened) (r : RxTransfer) : Prop where
  expected : r.expected = o.declared
  fits : o.declared ≤ r.capacity
  size : r.size = o.bytes.length
  live : o.bytes.length < o.declared
  message : r.message = o.bytes
  sequence : r.sequence = seqAfter o.rest.length
  numbered : o.Numbered

/-- A buffer of its capacity, and while a message is received, the latest one on the bus in it. -/
structure Assembling (r : RxTransfer) (o : Option Opened) : Prop where
  capacity : r.buffer.length = r.capacity
  room : 8 ≤ r.capacity
  narrow : r.capacity < 65536
  receiving : r.state = .receiving → ∃ opened, o = some opened ∧ Holds opened r

theorem Opened.bytes_snoc (o : Opened) (sequence : UInt8) (payload : List UInt8) :
    Opened.bytes { o with rest := o.rest ++ [(sequence, payload)] } = o.bytes ++ payload := by
  simp [Opened.bytes, List.append_assoc]

section Frame

variable {cfg : IsoTpConfig} {r : RxTransfer} {o : Opened} {heard : Heard} {nowMs : UInt32}
  {out : Frame}

theorem Holds.onFirst (htype : (heard.pci cfg).type = .first) (hfits : (heard.pci cfg).length ≤ r.capacity) :
    Holds { declared := (heard.pci cfg).length, first := heard.payload cfg }
      (r.onFirst cfg (heard.pci cfg) heard.data nowMs out).2.2 := by
  have hlen := heard.length_payload cfg
  have hshort := heard.payloadLen_of_first cfg htype
  have htake := take_blit r.buffer (heard.payload cfg) (Nat.zero_le _)
  rw [hlen, Nat.zero_add, List.take_zero, List.nil_append] at htake
  have hbytes : Opened.bytes { declared := (heard.pci cfg).length, first := heard.payload cfg } =
      heard.payload cfg := List.append_nil _
  unfold RxTransfer.onFirst
  rw [if_neg (Nat.not_lt.mpr hfits)]
  refine ⟨rfl, hfits, ?_, ?_, ?_, rfl, rfl⟩
  · rw [hbytes, hlen]
  · rw [hbytes, hlen]
    exact hshort
  · rw [hbytes]
    exact htake

/-- The buffer after the frame that is due, up to the size that it reaches. -/
theorem Holds.written (h : Holds o r) (hroom : r.buffer.length = r.capacity)
    (cfg : IsoTpConfig) (heard : Heard) {count : Nat} (hcount : count ≤ (heard.pci cfg).payloadLen) :
    (blit r.buffer r.size (slice heard.data (heard.pci cfg).payloadOffset count)).take
      (r.size + count) = o.bytes ++ (heard.payload cfg).take count := by
  have hle : r.size ≤ r.buffer.length := by
    have hfits := h.fits
    have hlive := h.live
    have hsize := h.size
    omega
  have htake := take_blit r.buffer (slice heard.data (heard.pci cfg).payloadOffset count) hle
  rw [heard.length_slice cfg hcount] at htake
  rw [htake, heard.slice_eq_take cfg hcount]
  have hmessage : r.buffer.take r.size = o.bytes := h.message
  rw [hmessage]

theorem Holds.due_iff (h : Holds o r) :
    (heard.pci cfg).sequence = r.sequence + 1 &&& 0x0F ↔
      (heard.pci cfg).sequence = seqAfter (o.rest.length + 1) := by
  rw [h.sequence, seqAfter_succ]

/-- A message that the frame completes, cut to what its first frame declared. -/
theorem Holds.complete (h : Holds o r) (hroom : r.buffer.length = r.capacity)
    (hnarrow : r.capacity < 65536) (hstate : r.state = .receiving)
    (hdone : (r.onConsecutive cfg (heard.pci cfg) heard.data nowMs out).1 = .messageComplete) :
    let opened : Opened :=
      { o with rest := o.rest ++ [((heard.pci cfg).sequence, heard.payload cfg)] }
    let r' := (r.onConsecutive cfg (heard.pci cfg) heard.data nowMs out).2.2
    opened.Numbered ∧ o.declared ≤ opened.bytes.length ∧ r'.size = o.declared ∧
      r'.message = opened.bytes.take o.declared := by
  intro opened r'
  have hlive : r.size < r.expected := by rw [h.expected, h.size]; exact h.live
  have hfits := h.fits
  rw [← h.expected] at hfits
  by_cases hseq : (heard.pci cfg).sequence = r.sequence + 1 &&& 0x0F
  · obtain ⟨hbuffer, hsize, -, -, -, hcases⟩ := @onConsecutive_due cfg r nowMs out _ heard.data
      hstate hseq hlive (by omega)
    rcases hcases with ⟨hend, -, -⟩ | ⟨-, hnot, -⟩
    · have hcount : min (heard.pci cfg).payloadLen (r.expected - r.size) = r.expected - r.size := by
        omega
      have hbytes : opened.bytes = o.bytes ++ heard.payload cfg := Opened.bytes_snoc o _ _
      have hmessage := h.written hroom cfg heard (Nat.min_le_left _ (r.expected - r.size))
      have hlen := heard.length_payload cfg
      have hsum : r.size + (r.expected - r.size) = o.declared := by
        rw [← h.expected]
        omega
      rw [hcount] at hbuffer hsize hmessage
      refine ⟨?_, ?_, ?_, ?_⟩
      · have hsnoc := h.numbered.snoc (heard.payload cfg)
        rw [← h.due_iff.mp hseq] at hsnoc
        exact hsnoc
      · rw [hbytes, List.length_append, hlen, ← h.size, ← h.expected]
        omega
      · rw [← hsum]
        exact hsize
      · have hread : r'.message = r'.buffer.take r'.size := rfl
        have hcut : o.bytes.take o.declared = o.bytes := List.take_of_length_le (Nat.le_of_lt h.live)
        rw [hread, hbuffer, hsize, hmessage, hbytes, List.take_append, hcut, ← h.size, ← h.expected]
    · exact absurd hdone hnot
  · rw [onConsecutive_gap hstate hseq] at hdone
    cases hdone

/-- A message that goes on. -/
theorem Holds.onConsecutive (h : Holds o r) (hroom : r.buffer.length = r.capacity)
    (hnarrow : r.capacity < 65536) (hstate : r.state = .receiving)
    (hgoes : (r.onConsecutive cfg (heard.pci cfg) heard.data nowMs out).2.2.state = .receiving) :
    Holds { o with rest := o.rest ++ [((heard.pci cfg).sequence, heard.payload cfg)] }
      (r.onConsecutive cfg (heard.pci cfg) heard.data nowMs out).2.2 := by
  have hlive : r.size < r.expected := by rw [h.expected, h.size]; exact h.live
  have hfits := h.fits
  rw [← h.expected] at hfits
  by_cases hseq : (heard.pci cfg).sequence = r.sequence + 1 &&& 0x0F
  · obtain ⟨hbuffer, hsize, hexpected, hcapacity, hsequence, hcases⟩ := @onConsecutive_due
      cfg r nowMs out _ heard.data hstate hseq hlive (by omega)
    rcases hcases with ⟨-, -, hidle⟩ | ⟨hopen, -, -⟩
    · rw [hidle] at hgoes
      cases hgoes
    · have hcount : min (heard.pci cfg).payloadLen (r.expected - r.size) =
          (heard.pci cfg).payloadLen := by omega
      have hlen := heard.length_payload cfg
      have hmessage := h.written hroom cfg heard (Nat.le_refl _)
      rw [← hlen, List.take_length, hlen] at hmessage
      rw [hcount] at hbuffer hsize hopen
      refine ⟨?_, ?_, ?_, ?_, ?_, ?_, ?_⟩
      · rw [hexpected, h.expected]
      · rw [hcapacity]
        exact h.fits
      · rw [hsize, Opened.bytes_snoc, List.length_append, hlen, h.size]
      · rw [Opened.bytes_snoc, List.length_append, hlen, ← h.size, ← h.expected]
        exact hopen
      · rw [Opened.bytes_snoc, RxTransfer.message, hbuffer, hsize, hmessage]
      · rw [hsequence, h.due_iff.mp hseq, List.length_append, List.length_singleton]
      · have hsnoc := h.numbered.snoc (heard.payload cfg)
        rw [← h.due_iff.mp hseq] at hsnoc
        exact hsnoc
  · rw [onConsecutive_gap hstate hseq] at hgoes
    cases hgoes

end Frame

/-! ## Every step -/

section Step

variable {cfg : IsoTpConfig} {r : RxTransfer} {o : Option Opened}

theorem Assembling.of_buffer (h : Assembling r o) {r' : RxTransfer} {o' : Option Opened}
    (hbuffer : r'.buffer.length = r.buffer.length) (hcapacity : r'.capacity = r.capacity)
    (hreceiving : r'.state = .receiving → ∃ opened, o' = some opened ∧ Holds opened r') :
    Assembling r' o' :=
  ⟨by rw [hbuffer, hcapacity, h.capacity], by rw [hcapacity]; exact h.room,
    by rw [hcapacity]; exact h.narrow, hreceiving⟩

/-- No copy leaves the buffer, and none reads beyond the frame. -/
theorem Assembling.copied_inside (h : Assembling r o) {heard : Heard} {at' from' count : Nat}
    (hcopied : copied cfg r heard = some (at', from', count)) :
    at' + count ≤ r.buffer.length ∧ from' + count ≤ heard.dlc := by
  have hin := heard.payload_inside cfg
  have hroom := h.room
  rw [h.capacity]
  unfold copied at hcopied
  dsimp only at hcopied
  cases htype : (heard.pci cfg).type with
  | single =>
    rw [htype] at hcopied
    have hshort := heard.payloadLen_of_single cfg htype
    cases hcopied
    omega
  | first =>
    rw [htype] at hcopied
    have hshort := heard.payloadLen_of_first cfg htype
    dsimp only at hcopied
    split_ifs at hcopied with hlong
    cases hcopied
    omega
  | consecutive =>
    rw [htype] at hcopied
    dsimp only at hcopied
    split_ifs at hcopied with hbad
    have hstate : r.state = .receiving := by
      by_contra hidle
      exact hbad (Or.inl hidle)
    obtain ⟨opened, -, hholds⟩ := h.receiving hstate
    have hlive := hholds.live
    have hfits := hholds.fits
    have hnarrow := h.narrow
    rw [← hholds.size, ← hholds.expected] at hlive
    rw [← hholds.expected] at hfits
    have hmissing : u16Sub r.expected r.size = r.expected - r.size :=
      u16Sub_of_le (Nat.le_of_lt hlive) (by omega)
    rw [hmissing] at hcopied
    cases hcopied
    omega
  | flowControl =>
    rw [htype] at hcopied
    cases hcopied
  | invalid =>
    rw [htype] at hcopied
    cases hcopied

theorem Assembling.length_onFrame (h : Assembling r o) (heard : Heard) (nowMs : UInt32)
    (out : Frame) :
    (r.onFrame cfg heard.data heard.dlc nowMs out).2.2.buffer.length = r.buffer.length := by
  rw [buffer_onFrame]
  cases hcopied : copied cfg r heard with
  | none => rfl
  | some copy =>
    obtain ⟨at', from', count⟩ := copy
    obtain ⟨hin, -⟩ := h.copied_inside hcopied
    apply blit_length
    have hlen : (slice heard.data from' count).length ≤ count := List.length_take_le _ _
    omega

theorem Assembling.step (h : Assembling r o) (input : Input) :
    Assembling (step cfg r input) (Opened.next cfg o input) := by
  cases input with
  | poll nowMs =>
    have hpoll : ∀ r', (r.poll cfg nowMs).2 = r' → r' = r ∨
        (r'.buffer = r.buffer ∧ r'.capacity = r.capacity ∧ r'.state = .idle) := by
      rintro _ rfl
      unfold poll
      split_ifs
      · exact Or.inl rfl
      · exact Or.inr ⟨rfl, rfl, rfl⟩
      · exact Or.inl rfl
    rcases hpoll _ rfl with hsame | ⟨hbuffer, hcapacity, hidle⟩
    · change Assembling (r.poll cfg nowMs).2 o
      rw [hsame]
      exact h
    · apply h.of_buffer
      · exact congrArg List.length hbuffer
      · exact hcapacity
      · intro hreceiving
        have hanswer : (RxTransfer.step cfg r (.poll nowMs)).state = .idle := hidle
        rw [hanswer] at hreceiving
        cases hreceiving
  | frame heard nowMs out =>
    apply h.of_buffer (h.length_onFrame heard nowMs out)
    · exact capacity_onFrame heard.data heard.dlc nowMs out
    · intro hreceiving
      unfold onFrame at hreceiving ⊢
      unfold Opened.next
      rw [show decodePci cfg heard.data heard.dlc = heard.pci cfg from rfl] at hreceiving ⊢
      dsimp only at hreceiving ⊢
      cases htype : (heard.pci cfg).type with
      | single =>
        rw [htype] at hreceiving
        cases hreceiving
      | first =>
        rw [htype] at hreceiving
        dsimp only at hreceiving ⊢
        refine ⟨_, rfl, Holds.onFirst htype ?_⟩
        by_contra hlong
        unfold onFirst at hreceiving
        rw [if_pos (Nat.lt_of_not_le hlong)] at hreceiving
        cases hreceiving
      | consecutive =>
        rw [htype] at hreceiving
        dsimp only at hreceiving ⊢
        have hstate : r.state = .receiving := by
          by_contra hidle
          unfold onConsecutive at hreceiving
          rw [if_pos hidle] at hreceiving
          exact hidle hreceiving
        obtain ⟨opened, rfl, hholds⟩ := h.receiving hstate
        exact ⟨_, rfl, hholds.onConsecutive h.capacity h.narrow hstate hreceiving⟩
      | flowControl | invalid =>
        rw [htype] at hreceiving
        obtain ⟨opened, rfl, hholds⟩ := h.receiving hreceiving
        exact ⟨opened, rfl, { hholds with }⟩

theorem assembling_exec {buffer : List UInt8} (hroom : 8 ≤ buffer.length)
    (hnarrow : buffer.length < 65536) (inputs : List Input) :
    Assembling (exec (step cfg) (init {} buffer) inputs)
      (latest cfg inputs) := by
  have hrun : ∀ (r : RxTransfer) (o : Option Opened), Assembling r o →
      Assembling (exec (step cfg) r inputs) (exec (Opened.next cfg) o inputs) := by
    induction inputs with
    | nil => exact fun _ _ h => h
    | cons input inputs ih => exact fun _ _ h => ih _ _ (h.step input)
  exact hrun _ _ ⟨rfl, hroom, hnarrow, nofun⟩

end Step

/-- Whatever frames and polls the receiver gets: while it receives, fewer bytes are there than the
latest first frame declared, and those fit; no copy of `on_frame` leaves the buffer; a message of
several frames is reported complete only when the buffer holds as many bytes as were declared, and
they are those of the latest first frame and of the consecutive frames since, which are numbered
without a gap; a consecutive frame with any other number ends the reassembly. -/
theorem reassembly (cfg : IsoTpConfig) (buffer : List UInt8) (inputs : List Input)
    (hroom : 8 ≤ buffer.length) (hnarrow : buffer.length < 65536) :
    let r := exec (step cfg) (RxTransfer.init {} buffer) inputs
    (r.state = .receiving → ∃ o, latest cfg inputs = some o ∧ r.expected = o.declared ∧
      r.size < o.declared ∧ o.declared ≤ r.capacity) ∧
    (∀ heard at' from' count, copied cfg r heard = some (at', from', count) →
      at' + count ≤ r.buffer.length ∧ from' + count ≤ heard.dlc) ∧
    ∀ heard nowMs out,
      let after := r.answer cfg (.frame heard nowMs out)
      (after.1 = .messageComplete → (heard.pci cfg).type ≠ .single →
        ∃ o, latest cfg (inputs ++ [.frame heard nowMs out]) = some o ∧ o.Numbered ∧
          o.declared ≤ o.bytes.length ∧ after.2.size = o.declared ∧
          after.2.message = o.bytes.take o.declared) ∧
      (r.state = .receiving → (heard.pci cfg).type = .consecutive →
        ∃ o, latest cfg inputs = some o ∧
          ((heard.pci cfg).sequence ≠ seqAfter (o.rest.length + 1) →
            after.1 = .failed ∧ after.2.error = .wrongSequence ∧ after.2.state = .idle)) := by
  intro r
  have hinv : Assembling r (latest cfg inputs) := assembling_exec hroom hnarrow inputs
  refine ⟨?_, fun heard at' from' count hcopied => hinv.copied_inside hcopied,
    fun heard nowMs out => ⟨?_, ?_⟩⟩
  · intro hstate
    obtain ⟨o, hlatest, hholds⟩ := hinv.receiving hstate
    refine ⟨o, hlatest, hholds.expected, ?_, hholds.fits⟩
    rw [hholds.size]
    exact hholds.live
  · intro hdone hmulti
    have hlatest : latest cfg (inputs ++ [.frame heard nowMs out]) =
        Opened.next cfg (latest cfg inputs) (.frame heard nowMs out) := by
      unfold latest
      rw [exec_append]
      rfl
    rw [hlatest]
    unfold answer onFrame at hdone ⊢
    unfold Opened.next
    dsimp only at hdone ⊢
    rw [show decodePci cfg heard.data heard.dlc = heard.pci cfg from rfl] at hdone ⊢
    cases htype : (heard.pci cfg).type with
    | single => exact absurd htype hmulti
    | first =>
      rw [htype] at hdone
      unfold onFirst at hdone
      dsimp only at hdone
      split_ifs at hdone
    | consecutive =>
      rw [htype] at hdone
      dsimp only at hdone ⊢
      have hstate : r.state = .receiving := by
        by_contra hidle
        unfold onConsecutive at hdone
        rw [if_pos hidle] at hdone
        cases hdone
      obtain ⟨o, hsome, hholds⟩ := hinv.receiving hstate
      obtain ⟨hnumbered, hlong, hsize, hmessage⟩ :=
        hholds.complete hinv.capacity hinv.narrow hstate hdone
      rw [hsome]
      exact ⟨_, rfl, hnumbered, hlong, hsize, hmessage⟩
    | flowControl | invalid =>
      rw [htype] at hdone
      cases hdone
  · intro hstate htype
    obtain ⟨o, hlatest, hholds⟩ := hinv.receiving hstate
    refine ⟨o, hlatest, fun hgap => ?_⟩
    have hanswer := @onConsecutive_gap cfg r nowMs out _ heard.data hstate
      fun hseq => hgap (hholds.due_iff.mp hseq)
    unfold answer onFrame
    dsimp only
    rw [show decodePci cfg heard.data heard.dlc = heard.pci cfg from rfl]
    rw [htype]
    dsimp only
    rw [hanswer]
    exact ⟨rfl, rfl, rfl⟩

/-- Ten bytes in a buffer of sixteen. -/
theorem reassembly_ten :
    let inputs : List Input :=
      [.frame ⟨[0x10, 10, 1, 2, 3, 4, 5, 6], 8, by decide, by decide⟩ 0 {}]
    let heard : Heard := ⟨[0x21, 7, 8, 9, 10, 0, 0, 0], 8, by decide, by decide⟩
    let r := exec (step {}) (RxTransfer.init {} (List.replicate 16 0)) inputs
    (r.answer {} (.frame heard 0 {})).1 = .messageComplete ∧
      ∃ o, latest {} (inputs ++ [.frame heard 0 {}]) = some o ∧ o.Numbered ∧
        o.declared ≤ o.bytes.length ∧ (r.answer {} (.frame heard 0 {})).2.size = o.declared ∧
        (r.answer {} (.frame heard 0 {})).2.message = o.bytes.take o.declared :=
  ⟨by decide, ((reassembly {} (List.replicate 16 0) _ (by decide) (by decide)).2.2 _ 0 {}).1
    (by decide) (by decide)⟩

end RxTransfer

end EspCars.Isotp
