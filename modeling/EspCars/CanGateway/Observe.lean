import EspCars.Lib.Counter
import EspCars.Lib.Run
import Mathlib

/-!
# The observation ring

`ObserveRing<N, RecordT>` of `components/can_gateway/gateway_core.h` between one producer and one
consumer. Every load, slot access and store of `push` and `pop` is a step of its own, and the two
sides interleave at them. `accepted` and `popped` are the records of the calls that have returned
true so far.

The slot of a record is its 32-bit counter modulo `N`. The wrap of the counter meets the end of
the array exactly when `N` is a power of two, and for any other `N` the first record after the wrap
takes the slot of one that may still be unread (`losslessFifo_iff`).
-/

namespace EspCars.CanGateway

open EspCars.Lib

/-- `FrameRecord`, the default record type. -/
structure FrameRecord where
  canId : UInt32 := 0
  data : Vector UInt8 8 := Vector.replicate 8 0
  dlc : UInt8 := 0
  extended : Bool := false
  rtr : Bool := false
  reserved : UInt8 := 0
  deriving DecidableEq

instance : Inhabited FrameRecord := ⟨{}⟩

namespace Observe

/-- `entries_`, `head_` and `tail_`. -/
structure ObserveRing (R : Type) (n : Nat) where
  entries : Vector R n
  head : UInt32 := 0
  tail : UInt32 := 0

/-- What the producer holds between two steps of `push(record)`. -/
inductive Producer (R : Type)
  | idle
  | loadedTail (record : R) (tail : UInt32)
  | hasRoom (record : R) (tail : UInt32)
  | wrote (record : R) (tail : UInt32)
  deriving DecidableEq

/-- What the consumer holds between two steps of `pop`. -/
inductive Consumer (R : Type)
  | idle
  | loadedHead (head : UInt32)
  | notEmpty (head : UInt32)
  | copied (out : R) (head : UInt32)
  deriving DecidableEq

/-- The ring, where both sides are in their calls, and what went in and out. -/
structure State (R : Type) (n : Nat) where
  ring : ObserveRing R n
  producer : Producer R := .idle
  consumer : Consumer R := .idle
  accepted : List R := []
  popped : List R := []

/-- A call of `push` or `pop`, or the next step of the call that is going on. -/
inductive Event (R : Type)
  | push (record : R)
  | producer
  | pop
  | consumer
  deriving DecidableEq

section Ring

variable {R : Type} {n : Nat}

def init [Inhabited R] : State R n := { ring := { entries := Vector.replicate n default } }

/-- `tail - head >= N` -/
def full (n : Nat) (tail head : UInt32) : Prop := n ≤ (tail - head).toNat

instance (tail head : UInt32) : Decidable (full n tail head) :=
  inferInstanceAs (Decidable (_ ≤ _))

def startPush (s : State R n) (record : R) : State R n :=
  match s.producer with
  | .idle => { s with producer := .loadedTail record s.ring.tail }
  | _ => s

def startPop (s : State R n) : State R n :=
  match s.consumer with
  | .idle => { s with consumer := .loadedHead s.ring.head }
  | _ => s

variable [NeZero n]

/-- `entries_[index % N]` -/
def ObserveRing.cell (ring : ObserveRing R n) (index : UInt32) : R := ring.entries[slot n index]

/-- `entries_[index % N] = record` -/
def ObserveRing.setCell (ring : ObserveRing R n) (index : UInt32) (record : R) :
    ObserveRing R n :=
  { ring with entries := ring.entries.set (slot n index) record }

theorem ObserveRing.cell_setCell (ring : ObserveRing R n) (index : UInt32) (record : R) :
    (ring.setCell index record).cell index = record :=
  Vector.getElem_set_self _

theorem ObserveRing.cell_setCell_ne (ring : ObserveRing R n) {i j : UInt32} (record : R)
    (h : slot n i ≠ slot n j) : (ring.setCell j record).cell i = ring.cell i :=
  Vector.getElem_set_ne (slot n j).isLt (slot n i).isLt fun heq => h (Fin.ext heq.symm)

theorem ObserveRing.cell_congr (ring : ObserveRing R n) {i j : UInt32}
    (h : slot n i = slot n j) : ring.cell i = ring.cell j := by
  simp only [cell, h]

/-- The records between `head_` and `tail_`, oldest first. -/
def ObserveRing.unread (ring : ObserveRing R n) : List R :=
  (List.range (ring.tail - ring.head).toNat).map fun i => ring.cell (ring.head + UInt32.ofNat i)

/-- The steps of `push` after the load of `tail_`. -/
def stepProducer (s : State R n) : State R n :=
  match s.producer with
  | .idle => s
  | .loadedTail record tail =>
    if full n tail s.ring.head then { s with producer := .idle }
    else { s with producer := .hasRoom record tail }
  | .hasRoom record tail =>
    { s with ring := s.ring.setCell tail record, producer := .wrote record tail }
  | .wrote record tail =>
    { s with
      ring := { s.ring with tail := tail + 1 }
      producer := .idle
      accepted := s.accepted ++ [record] }

/-- The steps of `pop` after the load of `head_`. -/
def stepConsumer (s : State R n) : State R n :=
  match s.consumer with
  | .idle => s
  | .loadedHead head =>
    if head = s.ring.tail then { s with consumer := .idle }
    else { s with consumer := .notEmpty head }
  | .notEmpty head => { s with consumer := .copied (s.ring.cell head) head }
  | .copied out head =>
    { s with
      ring := { s.ring with head := head + 1 }
      consumer := .idle
      popped := s.popped ++ [out] }

/-- A side that is inside a call does not start another one. -/
def step (s : State R n) : Event R → State R n
  | .push record => startPush s record
  | .producer => stepProducer s
  | .pop => startPop s
  | .consumer => stepConsumer s

/-! ## What the ring promises -/

/-- The step in which `push` returns false. -/
def Refuses (s : State R n) (e : Event R) : Prop :=
  e = .producer ∧ ∃ record tail, s.producer = .loadedTail record tail ∧ full n tail s.ring.head

/-- The step in which `pop` returns false. -/
def FindsEmpty (s : State R n) (e : Event R) : Prop :=
  e = .consumer ∧ ∃ head, s.consumer = .loadedHead head ∧ head = s.ring.tail

/-- What a lossless queue shows in the state `s` and in its next step. -/
structure FifoAt (s : State R n) (e : Event R) : Prop where
  inOrder : s.popped <+: s.accepted
  refused : Refuses s e → s.accepted.length = s.popped.length + n
  quiet : (∃ record, e = .push record) ∨ Refuses s e → (step s e).ring = s.ring
  emptied : FindsEmpty s e → s.popped = s.accepted

/-- Every run from the empty ring is that of a lossless queue. -/
def LosslessFifo (R : Type) (n : Nat) [NeZero n] [Inhabited R] : Prop :=
  ∀ (es : List (Event R)) (e : Event R), FifoAt (exec step (init : State R n) es) e

end Ring

/-! ## The counters -/

section Counts

variable {R : Type} {n : Nat}

def ProducerAt (s : State R n) : Producer R → Prop
  | .idle => True
  | .loadedTail _ tail => tail = s.ring.tail
  | .hasRoom _ tail | .wrote _ tail =>
    tail = s.ring.tail ∧ s.accepted.length < s.popped.length + n

def ConsumerAt (s : State R n) : Consumer R → Prop
  | .idle => True
  | .loadedHead head => head = s.ring.head
  | .notEmpty head | .copied _ head =>
    head = s.ring.head ∧ s.popped.length < s.accepted.length

/-- The counters count the records, and never more than `n` of them are unread. -/
structure Counts (s : State R n) : Prop where
  head : s.ring.head = UInt32.ofNat s.popped.length
  tail : s.ring.tail = UInt32.ofNat s.accepted.length
  le : s.popped.length ≤ s.accepted.length
  room : s.accepted.length ≤ s.popped.length + n
  producer : ProducerAt s s.producer
  consumer : ConsumerAt s s.consumer

namespace Counts

variable {s : State R n}

theorem init [Inhabited R] : Counts (Observe.init : State R n) :=
  ⟨rfl, rfl, Nat.le_refl _, Nat.zero_le _, trivial, trivial⟩

theorem unread (hc : Counts s) (hn : n < 2 ^ 32) :
    (s.ring.tail - s.ring.head).toNat = s.accepted.length - s.popped.length := by
  have hroom := hc.room
  rw [hc.head, hc.tail, toNat_distance hc.le (by omega)]

theorem full_iff (hc : Counts s) (hn : n < 2 ^ 32) :
    full n s.ring.tail s.ring.head ↔ s.accepted.length = s.popped.length + n := by
  have hroom := hc.room
  have hle := hc.le
  rw [full, hc.unread hn]
  omega

theorem head_eq_tail_iff (hc : Counts s) (hn : n < 2 ^ 32) :
    s.ring.head = s.ring.tail ↔ s.popped.length = s.accepted.length := by
  constructor
  · intro h
    have hu := hc.unread hn
    have hle := hc.le
    rw [h, UInt32.sub_self, UInt32.toNat_zero] at hu
    omega
  · intro h
    rw [hc.head, hc.tail, h]

/-! One lemma a step. A refused push and a pop that finds nothing change no counter. -/

theorem stepProducer [NeZero n] (hc : Counts s) (hn : n < 2 ^ 32) :
    Counts (Observe.stepProducer s) := by
  have hp := hc.producer
  unfold Observe.stepProducer
  split
  · exact hc
  · rename_i r t heq
    rw [heq] at hp
    split_ifs with hfull
    · exact ⟨hc.head, hc.tail, hc.le, hc.room, trivial, hc.consumer⟩
    · have htail : t = s.ring.tail := hp
      have hroom := hc.room
      rw [htail, hc.full_iff hn] at hfull
      have hfree : s.accepted.length < s.popped.length + n := by omega
      exact ⟨hc.head, hc.tail, hc.le, hc.room, ⟨htail, hfree⟩, hc.consumer⟩
  · rename_i r t heq
    rw [heq] at hp
    exact ⟨hc.head, hc.tail, hc.le, hc.room, hp, hc.consumer⟩
  · rename_i r t heq
    rw [heq] at hp
    obtain ⟨htail, hroom⟩ := hp
    have hle := hc.le
    constructor
    · exact hc.head
    · rw [htail, hc.tail, uint32_ofNat_succ, List.length_append, List.length_singleton]
    · simp only [List.length_append, List.length_singleton]
      omega
    · simp only [List.length_append, List.length_singleton]
      omega
    · trivial
    · have hcons := hc.consumer
      cases hs : s.consumer with
      | idle => trivial
      | loadedHead h =>
        rw [hs] at hcons
        exact hcons
      | notEmpty h | copied _ h =>
        rw [hs] at hcons
        apply And.intro hcons.1
        simp only [List.length_append, List.length_singleton]
        omega

theorem stepConsumer [NeZero n] (hc : Counts s) (hn : n < 2 ^ 32) :
    Counts (Observe.stepConsumer s) := by
  have hq := hc.consumer
  unfold Observe.stepConsumer
  split
  · exact hc
  · rename_i h heq
    rw [heq] at hq
    split_ifs with hempty
    · exact ⟨hc.head, hc.tail, hc.le, hc.room, hc.producer, trivial⟩
    · have hhead : h = s.ring.head := hq
      have hle := hc.le
      rw [hhead, hc.head_eq_tail_iff hn] at hempty
      have hlt : s.popped.length < s.accepted.length := by omega
      exact ⟨hc.head, hc.tail, hc.le, hc.room, hc.producer, hhead, hlt⟩
  · rename_i h heq
    rw [heq] at hq
    exact ⟨hc.head, hc.tail, hc.le, hc.room, hc.producer, hq⟩
  · rename_i out h heq
    rw [heq] at hq
    obtain ⟨hhead, hlt⟩ := hq
    have hroom := hc.room
    constructor
    · rw [hhead, hc.head, uint32_ofNat_succ, List.length_append, List.length_singleton]
    · exact hc.tail
    · simp only [List.length_append, List.length_singleton]
      omega
    · simp only [List.length_append, List.length_singleton]
      omega
    · have hprod := hc.producer
      cases hs : s.producer with
      | idle => trivial
      | loadedTail _ t =>
        rw [hs] at hprod
        exact hprod
      | hasRoom _ t | wrote _ t =>
        rw [hs] at hprod
        apply And.intro hprod.1
        have hfree : s.accepted.length < s.popped.length + n := hprod.2
        simp only [List.length_append, List.length_singleton]
        omega
    · trivial

theorem step [NeZero n] (hc : Counts s) (hn : n < 2 ^ 32) (e : Event R) :
    Counts (Observe.step s e) := by
  cases e with
  | push record =>
    change Counts (startPush s record)
    unfold startPush
    split
    · exact ⟨hc.head, hc.tail, hc.le, hc.room, rfl, hc.consumer⟩
    · exact hc
  | producer => exact hc.stepProducer hn
  | pop =>
    change Counts (startPop s)
    unfold startPop
    split
    · exact ⟨hc.head, hc.tail, hc.le, hc.room, hc.producer, rfl⟩
    · exact hc
  | consumer => exact hc.stepConsumer hn

theorem exec [NeZero n] (hc : Counts s) (hn : n < 2 ^ 32) (es : List (Event R)) :
    Counts (Lib.exec Observe.step s es) := by
  induction es generalizing s with
  | nil => exact hc
  | cons e es ih => exact ih (hc.step hn e)

end Counts

end Counts

/-! ## The contents -/

section Contents

variable {R : Type} {n : Nat} [NeZero n]

/-- No slot of an unread record is written as long as this holds of the number of accepted
records. -/
def NoClash (n : Nat) (s : State R n) : Prop := n ∣ 2 ^ 32 ∨ s.accepted.length < 2 ^ 32

/-- What has been read is what was accepted, the slots hold what has not been read, and so do the
record that is being written and the one that is being copied out. -/
structure Contents (s : State R n) : Prop where
  inOrder : s.popped <+: s.accepted
  slots : ∀ i, s.popped.length ≤ i → i < s.accepted.length →
    s.accepted[i]? = some (s.ring.cell (UInt32.ofNat i))
  wrote : ∀ r t, s.producer = .wrote r t →
    s.ring.cell (UInt32.ofNat s.accepted.length) = r
  copied : ∀ r h, s.consumer = .copied r h → s.accepted[s.popped.length]? = some r

namespace Contents

variable {s : State R n}

theorem init [Inhabited R] : Contents (Observe.init : State R n) := by
  constructor
  · exact List.nil_prefix
  · intro i _ hi
    cases hi
  · intro r t h
    cases h
  · intro r h hcopied
    cases hcopied

theorem stepProducer (hk : Contents s) (hc : Counts s) (hw : NoClash n s) :
    Contents (Observe.stepProducer s) := by
  have hp := hc.producer
  unfold Observe.stepProducer
  split
  · exact hk
  · split_ifs
    · exact ⟨hk.inOrder, hk.slots, nofun, hk.copied⟩
    · exact ⟨hk.inOrder, hk.slots, nofun, hk.copied⟩
  · rename_i record t heq
    rw [heq] at hp
    obtain ⟨htail, hroom⟩ := hp
    rw [htail, hc.tail]
    constructor
    · exact hk.inOrder
    · -- the slot that is written is none of an unread record
      intro i hle hlt
      have hne : slot n (UInt32.ofNat i) ≠ slot n (UInt32.ofNat s.accepted.length) := by
        have hle' : s.popped.length ≤ i := hle
        have hlt' : i < s.accepted.length := hlt
        apply slot_ne hw hlt'
        omega
      have hslot := hk.slots i hle hlt
      rw [hslot, s.ring.cell_setCell_ne record hne]
    · intro r t' hwrote
      cases hwrote
      exact s.ring.cell_setCell _ record
    · exact hk.copied
  · rename_i record t heq
    have hwrote := hk.wrote record t heq
    constructor
    · exact hk.inOrder.trans (List.prefix_append _ _)
    · intro i hle hlt
      simp only [List.length_append, List.length_singleton] at hlt
      by_cases hi : i < s.accepted.length
      · rw [List.getElem?_append_left hi]
        exact hk.slots i hle hi
      · have hlast : i = s.accepted.length := by omega
        rw [hlast, List.getElem?_concat_length]
        exact congrArg some hwrote.symm
    · intro r t' h
      cases h
    · intro r h hcopied
      have hold := hk.copied r h hcopied
      obtain ⟨hlt, -⟩ := List.getElem?_eq_some_iff.mp hold
      exact (List.getElem?_append_left hlt).trans hold

theorem stepConsumer (hk : Contents s) (hc : Counts s) : Contents (Observe.stepConsumer s) := by
  have hq := hc.consumer
  unfold Observe.stepConsumer
  split
  · exact hk
  · split_ifs
    · exact ⟨hk.inOrder, hk.slots, hk.wrote, nofun⟩
    · exact ⟨hk.inOrder, hk.slots, hk.wrote, nofun⟩
  · rename_i h heq
    rw [heq] at hq
    obtain ⟨hhead, hlt⟩ := hq
    constructor
    · exact hk.inOrder
    · exact hk.slots
    · exact hk.wrote
    · intro r h' hcopied
      cases hcopied
      rw [hhead, hc.head]
      exact hk.slots _ (Nat.le_refl _) hlt
  · rename_i out h heq
    have hcopied := hk.copied out h heq
    constructor
    · obtain ⟨rest, hrest⟩ := hk.inOrder
      rw [← hrest, List.getElem?_append_right (Nat.le_refl _), Nat.sub_self] at hcopied
      cases rest with
      | nil => cases hcopied
      | cons r rest =>
        cases hcopied
        exact ⟨rest, by rw [List.append_assoc]; exact hrest⟩
    · intro i hle hlt
      simp only [List.length_append, List.length_singleton] at hle
      exact hk.slots i (by omega) hlt
    · exact hk.wrote
    · intro r h' hc'
      cases hc'

theorem step (hk : Contents s) (hc : Counts s) (hw : NoClash n s) (e : Event R) :
    Contents (Observe.step s e) := by
  cases e with
  | push record =>
    change Contents (startPush s record)
    unfold startPush
    split
    · exact ⟨hk.inOrder, hk.slots, nofun, hk.copied⟩
    · exact hk
  | producer => exact hk.stepProducer hc hw
  | pop =>
    change Contents (startPop s)
    unfold startPop
    split
    · exact ⟨hk.inOrder, hk.slots, hk.wrote, nofun⟩
    · exact hk
  | consumer => exact hk.stepConsumer hc

end Contents

/-- Acceptances are never taken back. -/
theorem accepted_prefix_step (s : State R n) (e : Event R) :
    s.accepted <+: (step s e).accepted := by
  cases e with
  | push record =>
    change s.accepted <+: (startPush s record).accepted
    unfold startPush
    split <;> exact List.prefix_rfl
  | producer =>
    change s.accepted <+: (stepProducer s).accepted
    unfold stepProducer
    split
    · exact List.prefix_rfl
    · split_ifs <;> exact List.prefix_rfl
    · exact List.prefix_rfl
    · exact List.prefix_append _ _
  | pop =>
    change s.accepted <+: (startPop s).accepted
    unfold startPop
    split <;> exact List.prefix_rfl
  | consumer =>
    change s.accepted <+: (stepConsumer s).accepted
    unfold stepConsumer
    split
    · exact List.prefix_rfl
    · split_ifs <;> exact List.prefix_rfl
    · exact List.prefix_rfl
    · exact List.prefix_rfl

theorem accepted_prefix_exec (s : State R n) (es : List (Event R)) :
    s.accepted <+: (exec step s es).accepted := by
  induction es generalizing s with
  | nil => exact List.prefix_rfl
  | cons e es ih => exact (accepted_prefix_step s e).trans (ih _)

theorem NoClash.of_exec {s : State R n} {es : List (Event R)}
    (h : NoClash n (exec step s es)) : NoClash n s := by
  apply h.imp_right
  intro hlt
  exact Nat.lt_of_le_of_lt (accepted_prefix_exec s es).length_le hlt

theorem Contents.exec {s : State R n} (hk : Contents s) (hc : Counts s) (hn : n < 2 ^ 32)
    {es : List (Event R)} (hw : NoClash n (Lib.exec Observe.step s es)) :
    Contents (Lib.exec Observe.step s es) := by
  induction es generalizing s with
  | nil => exact hk
  | cons e es ih =>
    have hw' : NoClash n s :=
      NoClash.of_exec (show NoClash n (Lib.exec Observe.step s (e :: es)) from hw)
    exact ih (hk.step hc hw' e) (hc.step hn e) hw

/-- A queue whose contents are right is lossless. -/
theorem Contents.fifoAt {s : State R n} (hk : Contents s) (hc : Counts s) (hn : n < 2 ^ 32)
    (e : Event R) : FifoAt s e := by
  have hp := hc.producer
  have hq := hc.consumer
  constructor
  · exact hk.inOrder
  · rintro ⟨-, r, t, heq, hfull⟩
    rw [heq] at hp
    have htail : t = s.ring.tail := hp
    rwa [htail, hc.full_iff hn] at hfull
  · rintro (⟨r, rfl⟩ | ⟨rfl, r, t, heq, hfull⟩)
    · change (startPush s r).ring = s.ring
      unfold startPush
      split <;> rfl
    · change (Observe.stepProducer s).ring = s.ring
      unfold Observe.stepProducer
      rw [heq]
      dsimp only
      rw [if_pos hfull]
  · rintro ⟨-, h, heq, hempty⟩
    rw [heq] at hq
    have hhead : h = s.ring.head := hq
    rw [hhead, hc.head_eq_tail_iff hn] at hempty
    exact hk.inOrder.eq_of_length hempty

/-- The records in the ring are those that have been accepted and not read. -/
theorem Contents.unread {s : State R n} (hk : Contents s) (hc : Counts s) (hn : n < 2 ^ 32) :
    s.accepted = s.popped ++ s.ring.unread := by
  obtain ⟨rest, haccepted⟩ := hk.inOrder
  have hlength : rest.length = s.accepted.length - s.popped.length := by
    rw [← haccepted, List.length_append]
    omega
  have hrest : s.ring.unread = rest := by
    apply List.ext_getElem?
    intro i
    rw [ObserveRing.unread, List.getElem?_map, hc.unread hn, ← hlength, hc.head]
    by_cases hi : i < rest.length
    · have hslot := hk.slots (s.popped.length + i) (Nat.le_add_right _ _) (by omega)
      rw [← haccepted, List.getElem?_append_right (Nat.le_add_right _ _), Nat.add_sub_cancel_left,
        UInt32.ofNat_add] at hslot
      rw [List.getElem?_range hi, hslot]
      rfl
    · rw [List.getElem?_eq_none (by rw [List.length_range]; omega),
        List.getElem?_eq_none (by omega)]
      rfl
  rw [hrest, haccepted]

theorem Counts.length_unread {s : State R n} (hc : Counts s) (hn : n < 2 ^ 32) :
    s.accepted.length = s.popped.length + s.ring.unread.length := by
  have hle := hc.le
  rw [ObserveRing.unread, List.length_map, List.length_range, hc.unread hn]
  omega

end Contents

/-! ## A run over the wrap

Every record but the last is `a`, the last is `b`. The queue is filled and emptied one record at a
time up to the last multiple of `n` before the wrap; what follows is not read until `b` is in. -/

section Overrun

variable {R : Type} {n : Nat}

/-- A call of `push` that nothing interrupts. -/
def pushCall (record : R) : List (Event R) := [.push record, .producer, .producer, .producer]

/-- A call of `pop` that nothing interrupts. -/
def popCall : List (Event R) := [.pop, .consumer, .consumer, .consumer]

def passing (a : R) : Nat → List (Event R)
  | 0 => []
  | k + 1 => passing a k ++ (pushCall a ++ popCall)

def filling (a : R) : Nat → List (Event R)
  | 0 => []
  | k + 1 => filling a k ++ pushCall a

/-- `k` records pass through, `j` records and `b` are left, and one is read. -/
def overrun (k j : Nat) (a b : R) : List (Event R) :=
  passing a k ++ (filling a j ++ (pushCall b ++ popCall))

variable [NeZero n]

/-- A call of `push` changes nothing or appends. -/
theorem exec_pushCall {s : State R n} (h : s.producer = .idle) (record : R) :
    exec step s (pushCall record) =
      if full n s.ring.tail s.ring.head then s
      else
        { s with
          ring := { s.ring.setCell s.ring.tail record with tail := s.ring.tail + 1 }
          accepted := s.accepted ++ [record] } := by
  obtain ⟨ring, producer, consumer, accepted, popped⟩ := s
  subst h
  split_ifs with hfull
  · simp only [pushCall, exec_cons, exec_nil, step, startPush, stepProducer, if_pos hfull]
  · simp only [pushCall, exec_cons, exec_nil, step, startPush, stepProducer, if_neg hfull]

/-- Between two calls on either side, after `p` pops. -/
structure Settled (s : State R n) (accepted : List R) (p : Nat) : Prop where
  counts : Counts s
  producer : s.producer = .idle
  consumer : s.consumer = .idle
  accepted_eq : s.accepted = accepted
  popped_length : s.popped.length = p

variable {s : State R n} {accepted : List R} {p : Nat}

theorem Settled.pushCall (h : Settled s accepted p) (hn : n < 2 ^ 32)
    (hroom : accepted.length < p + n) (r : R) :
    Settled (exec step s (pushCall r)) (accepted ++ [r]) p ∧
      (exec step s (Observe.pushCall r)).ring.cell (UInt32.ofNat accepted.length) = r := by
  have hfull : ¬ full n s.ring.tail s.ring.head := by
    rw [h.counts.full_iff hn, h.accepted_eq, h.popped_length]
    omega
  have htail := h.counts.tail
  rw [h.accepted_eq] at htail
  have hrun : exec step s (Observe.pushCall r) =
      { s with
        ring := { s.ring.setCell s.ring.tail r with tail := s.ring.tail + 1 }
        producer := .idle
        accepted := s.accepted ++ [r] } := by
    rw [exec_pushCall h.producer, if_neg hfull, h.producer]
  constructor
  · apply Settled.mk (h.counts.exec hn _)
    · rw [hrun]
    · rw [hrun]
      exact h.consumer
    · rw [hrun, ← h.accepted_eq]
    · rw [hrun]
      exact h.popped_length
  · rw [hrun, ← htail]
    exact s.ring.cell_setCell _ r

theorem Settled.popCall (h : Settled s accepted p) (hn : n < 2 ^ 32) (hlt : p < accepted.length) :
    Settled (exec step s popCall) accepted (p + 1) ∧
      (exec step s popCall).popped = s.popped ++ [s.ring.cell (UInt32.ofNat p)] := by
  have hne : s.ring.head ≠ s.ring.tail := by
    rw [Ne, h.counts.head_eq_tail_iff hn, h.accepted_eq, h.popped_length]
    omega
  have hhead := h.counts.head
  rw [h.popped_length] at hhead
  have hrun : exec step s Observe.popCall =
      { s with
        ring := { s.ring with head := s.ring.head + 1 }
        consumer := .idle
        popped := s.popped ++ [s.ring.cell s.ring.head] } := by
    simp only [Observe.popCall, exec_cons, exec_nil, step, startPop, stepConsumer, h.consumer,
      if_neg hne]
  constructor
  · apply Settled.mk (h.counts.exec hn _)
    · rw [hrun]
      exact h.producer
    · rw [hrun]
    · rw [hrun]
      exact h.accepted_eq
    · rw [hrun, List.length_append, h.popped_length]
      rfl
  · rw [hrun, ← hhead]

theorem settled_passing [Inhabited R] (hn : n < 2 ^ 32) (a : R) (k : Nat) :
    Settled (exec step (init : State R n) (passing a k)) (List.replicate k a) k := by
  induction k with
  | zero => exact ⟨Counts.init, rfl, rfl, rfl, rfl⟩
  | succ k ih =>
    have hpos : 0 < n := Nat.pos_of_neZero n
    rw [passing, exec_append, exec_append, List.replicate_succ']
    have hpush := (ih.pushCall hn (by rw [List.length_replicate]; omega) a).1
    apply (hpush.popCall hn _).1
    rw [List.length_append, List.length_replicate, List.length_singleton]
    omega

theorem Settled.filling (hn : n < 2 ^ 32) (a : R) {k j : Nat} (hj : j ≤ n)
    (h : Settled s (List.replicate k a) k) :
    Settled (exec step s (filling a j)) (List.replicate (k + j) a) k := by
  induction j with
  | zero => exact h
  | succ j ih =>
    rw [Observe.filling, exec_append, ← Nat.add_assoc, List.replicate_succ']
    apply ((ih (by omega)).pushCall hn _ a).1
    rw [List.length_replicate]
    omega

/-- If the slot of `b` is that of the first unread record, the consumer is given `b` in its
place. -/
theorem overrun_popped [Inhabited R] (hn : n < 2 ^ 32) (a b : R) {k j : Nat} (hj : j < n)
    (hslot : slot n (UInt32.ofNat k) = slot n (UInt32.ofNat (k + j))) :
    let s := exec step (init : State R n) (overrun k j a b)
    s.accepted = List.replicate (k + j) a ++ [b] ∧ s.popped[k]? = some b := by
  have hfill := (settled_passing (n := n) hn a k).filling hn a (Nat.le_of_lt hj)
  obtain ⟨hpush, hcell⟩ :=
    hfill.pushCall hn (by rw [List.length_replicate]; omega) b
  obtain ⟨hpop, hpopped⟩ := hpush.popCall hn (by
    rw [List.length_append, List.length_replicate, List.length_singleton]
    omega)
  rw [List.length_replicate, ← ObserveRing.cell_congr _ hslot] at hcell
  intro s
  have hs : s = exec step (exec step (exec step (exec step init (passing a k)) (filling a j))
      (pushCall b)) popCall := by
    rw [← exec_append, ← exec_append, ← exec_append]
    rfl
  constructor
  · rw [hs, hpop.accepted_eq]
  · rw [hs, hpopped, hcell, List.getElem?_append_right (Nat.le_of_eq hpush.popped_length),
      hpush.popped_length, Nat.sub_self]
    rfl

/-- One record more than a multiple of `n` before the wrap is lost when `n` does not divide the
word. -/
theorem overrun_not_fifo [Inhabited R] (hn : n < 2 ^ 32) (hd : ¬ n ∣ 2 ^ 32) {a b : R}
    (hab : a ≠ b) (e : Event R) :
    ¬ FifoAt (exec step (init : State R n)
      (overrun (2 ^ 32 - 2 ^ 32 % n) (2 ^ 32 % n) a b)) e := by
  intro hfifo
  have hlt : 2 ^ 32 % n < n := Nat.mod_lt _ (Nat.pos_of_neZero n)
  have hsum : 2 ^ 32 - 2 ^ 32 % n + 2 ^ 32 % n = 2 ^ 32 := Nat.sub_add_cancel (Nat.mod_le _ _)
  obtain ⟨haccepted, hpopped⟩ := overrun_popped (n := n) hn a b hlt (by rw [hsum]; exact slot_wrap)
  obtain ⟨rest, hrest⟩ := hfifo.inOrder
  obtain ⟨hk, -⟩ := List.getElem?_eq_some_iff.mp hpopped
  have hread := congrArg (·[2 ^ 32 - 2 ^ 32 % n]?) hrest
  rw [List.getElem?_append_left hk, hpopped, haccepted, List.getElem?_append_left,
    List.getElem?_replicate, if_pos] at hread
  · exact hab (Option.some.inj hread).symm
  · omega
  · rw [List.length_replicate]
    omega

end Overrun

/-! ## Which capacities are lossless -/

section Capacity

variable {R : Type} {n : Nat} [NeZero n] [Inhabited R]

theorem dvd_word_iff (hn : n < 2 ^ 32) : n ∣ 2 ^ 32 ↔ ∃ k, n = 2 ^ k := by
  constructor
  · intro h
    obtain ⟨k, -, hk⟩ := (Nat.dvd_prime_pow Nat.prime_two).mp h
    exact ⟨k, hk⟩
  · rintro ⟨k, rfl⟩
    apply Nat.pow_dvd_pow
    exact Nat.le_of_lt ((Nat.pow_lt_pow_iff_right (by decide)).mp hn)

/-- Up to the wrap every capacity is lossless. -/
theorem fifoAt_of_noClash (hn : n < 2 ^ 32) {es : List (Event R)}
    (hw : NoClash n (exec step (init : State R n) es)) (e : Event R) :
    FifoAt (exec step (init : State R n) es) e :=
  (Contents.init.exec Counts.init hn hw).fifoAt (Counts.init.exec hn es) hn e

/-- The ring is a lossless queue in every run exactly when its capacity is a power of two. -/
theorem losslessFifo_iff [Nontrivial R] (hn : 2 ≤ n) (hlt : n < 2 ^ 16) :
    LosslessFifo R n ↔ ∃ k, n = 2 ^ k := by
  have hword : n < 2 ^ 32 := by omega
  rw [← dvd_word_iff hword]
  constructor
  · intro h
    by_contra hd
    obtain ⟨a, b, hab⟩ := exists_pair_ne R
    exact overrun_not_fifo hword hd hab .pop (h _ _)
  · intro hd es e
    exact fifoAt_of_noClash hword (Or.inl hd) e

theorem losslessFifo_frameRecord : LosslessFifo FrameRecord 32 :=
  haveI : Nontrivial FrameRecord := ⟨{}, { dlc := 1 }, by decide⟩
  (losslessFifo_iff (by decide) (by decide)).mpr ⟨5, rfl⟩

/-- A ring of six: after `2 ^ 32 - 4` records have passed, four and one more are pushed and one is
read. -/
theorem not_fifoAt_six :
    ¬ FifoAt (exec step (init : State FrameRecord 6) (overrun (2 ^ 32 - 4) 4 {} { dlc := 1 }))
      .pop := by
  have hmod : 2 ^ 32 % 6 = 4 := by decide
  rw [← hmod]
  apply overrun_not_fifo
  · decide
  · decide
  · decide

end Capacity

end Observe

end EspCars.CanGateway
