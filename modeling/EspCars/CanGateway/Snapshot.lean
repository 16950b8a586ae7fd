import EspCars.CanGateway.RxTaps
import Mathlib

/-!
# The snapshot ring

`SnapshotRing<N>` of `components/can_gateway/gateway_core.h` between one producer, which never
waits, and one consumer, which wants the newest record. Every load and store of `push` and
`read_latest` is a step of its own, and the two sides interleave at them. The copies of the record
are not atomic: they go cell by cell, and a `Layout` says into which cells a record falls and in
which order either side copies them.

The stamp of an entry tells the consumer that the entry was overwritten during the copy, unless it
came round: the stamps of two pushes are the same when the numbers of the pushes are 2^31 apart.
-/

namespace EspCars.CanGateway.Snapshot

open EspCars.Lib Snapshot

/-- How records are copied. A side may copy a cell more than once. -/
structure Layout (R : Type) where
  cells : Nat
  Cell : Type
  split : R → Fin cells → Cell
  join : (Fin cells → Cell) → R
  storeOrder : List (Fin cells)
  loadOrder : List (Fin cells)
  join_split : ∀ record, join (split record) = record
  mem_storeOrder : ∀ c, c ∈ storeOrder
  mem_loadOrder : ∀ c, c ∈ loadOrder

section Ring

variable {R : Type} {layout : Layout R} {n : Nat}

/-- The cells of one record. -/
abbrev Layout.Cells (layout : Layout R) : Type := Fin layout.cells → layout.Cell

/-- A cell: the sequence word and the value. -/
structure Entry (layout : Layout R) where
  seq : UInt32
  value : layout.Cells

/-- The members of the class. -/
structure SnapshotRing (layout : Layout R) (n : Nat) where
  entries : Fin n → Entry layout
  head : UInt32 := 0
  lastSeen : UInt32 := 0
  missed : UInt32 := 0

/-- What the producer holds between two steps of `push(snapshot)`: the cells of `todo` are yet to
be stored. -/
inductive Producer (layout : Layout R)
  | idle
  | loadedHead (snapshot : R) (ticket : UInt32)
  | writing (snapshot : R) (ticket : UInt32) (todo : List (Fin layout.cells))
  | stamped (snapshot : R) (ticket : UInt32)

/-- What the consumer holds between two steps of `read_latest`: the cells of `todo` are yet to be
loaded. -/
inductive Consumer (layout : Layout R)
  | idle
  | begun (attempt : Nat)
  | loadedHead (attempt : Nat) (head : UInt32)
  | copying (attempt : Nat) (head seqBefore : UInt32) (copy : layout.Cells)
      (todo : List (Fin layout.cells))

/-- A call of `read_latest` that has returned true: what it returned, what `missed()` is then, how
many calls have returned true with this one, and how many pushes were finished when it began and
when it returned. -/
structure Delivery (R : Type) where
  out : R
  missed : UInt32
  count : Nat
  before : Nat
  after : Nat
  deriving DecidableEq

/-- The ring, the two sides, and what has happened so far. No step reads the last four. `finished`
is the number of finished pushes when the call of `read_latest` began, `newest` when its attempt
loaded the head. -/
structure State (layout : Layout R) (n : Nat) where
  ring : SnapshotRing layout n
  producer : Producer layout := .idle
  consumer : Consumer layout := .idle
  pushed : List R := []
  delivered : List (Delivery R) := []
  finished : Nat := 0
  newest : Nat := 0

/-- A call of `push` or `read_latest`, or the next step of the call that is going on. -/
inductive Event (R : Type)
  | push (snapshot : R)
  | producer
  | readLatest
  | consumer
  deriving DecidableEq

def init [Inhabited R] : State layout n :=
  { ring := { entries := fun _ => { seq := 0, value := layout.split default } } }

/-- `push` begins. -/
def startPush (s : State layout n) (snapshot : R) : State layout n :=
  match s.producer with
  | .idle => { s with producer := .loadedHead snapshot s.ring.head }
  | _ => s

/-- `read_latest` begins. -/
def startReadLatest (s : State layout n) : State layout n :=
  match s.consumer with
  | .idle => { s with consumer := .begun 0, finished := s.pushed.length }
  | _ => s

variable [NeZero n]

/-- `entries_[ticket % N]` -/
def SnapshotRing.entry (ring : SnapshotRing layout n) (ticket : UInt32) : Entry layout :=
  ring.entries (slot n ticket)

def SnapshotRing.setEntry (ring : SnapshotRing layout n) (ticket : UInt32)
    (entry : Entry layout) : SnapshotRing layout n :=
  { ring with entries := Function.update ring.entries (slot n ticket) entry }

/-- The steps of `push` after the load of `head_`. -/
def stepProducer (s : State layout n) : State layout n :=
  match s.producer with
  | .idle => s
  | .loadedHead snapshot ticket =>
    { s with
      ring := s.ring.setEntry ticket { s.ring.entry ticket with seq := ticket * 2 + 1 }
      producer := .writing snapshot ticket layout.storeOrder }
  | .writing snapshot ticket (c :: todo) =>
    let value := Function.update (s.ring.entry ticket).value c (layout.split snapshot c)
    { s with
      ring := s.ring.setEntry ticket { s.ring.entry ticket with value }
      producer := .writing snapshot ticket todo }
  | .writing snapshot ticket [] =>
    { s with
      ring := s.ring.setEntry ticket { s.ring.entry ticket with seq := ticket * 2 + 2 }
      producer := .stamped snapshot ticket }
  | .stamped snapshot ticket =>
    { s with
      ring := { s.ring with head := ticket + 1 }
      producer := .idle
      pushed := s.pushed ++ [snapshot] }

/-- The steps of `read_latest`. -/
def stepConsumer [Inhabited R] (s : State layout n) : State layout n :=
  match s.consumer with
  | .idle => s
  | .begun attempt =>
    if s.ring.head = 0 then { s with consumer := .idle }
    else if s.ring.head = s.ring.lastSeen then { s with consumer := .idle }
    else { s with consumer := .loadedHead attempt s.ring.head, newest := s.pushed.length }
  | .loadedHead attempt head =>
    let seqBefore := (s.ring.entry (head - 1)).seq
    { s with
      consumer := .copying attempt head seqBefore (layout.split default) layout.loadOrder }
  | .copying attempt head seqBefore copy (c :: todo) =>
    let copy := Function.update copy c ((s.ring.entry (head - 1)).value c)
    { s with consumer := .copying attempt head seqBefore copy todo }
  | .copying attempt head seqBefore copy [] =>
    let seqAfter := (s.ring.entry (head - 1)).seq
    if seqBefore = seqAfter ∧ seqBefore = (head - 1) * 2 + 2 then
      let missed := s.ring.missed + (head - s.ring.lastSeen - 1)
      { s with
        ring := { s.ring with missed, lastSeen := head }
        consumer := .idle
        delivered := s.delivered ++
          [{ out := layout.join copy, missed, count := s.delivered.length + 1,
             before := s.finished, after := s.pushed.length }] }
    else if attempt + 1 < 3 then { s with consumer := .begun (attempt + 1) }
    else { s with consumer := .idle }

/-- A side that is inside a call does not start another one. -/
def step [Inhabited R] (s : State layout n) : Event R → State layout n
  | .push snapshot => startPush s snapshot
  | .producer => stepProducer s
  | .readLatest => startReadLatest s
  | .consumer => stepConsumer s

/-! ## What the ring promises -/

/-- `d` is the `k`-th push, whole; that push was the newest one at some moment of the call, and the
counts are right. -/
def Delivery.IsPush (pushed : List R) (k : Nat) (d : Delivery R) : Prop :=
  1 ≤ k ∧ pushed[k - 1]? = some d.out ∧ d.before ≤ k ∧ k ≤ d.after ∧
    UInt32.ofNat d.count + d.missed = UInt32.ofNat k

/-- What was returned are pushes, each later than the one before. -/
def Faithful (s : State layout n) : Prop :=
  ∃ ks : List Nat, ks.Pairwise (· < ·) ∧
    List.Forall₂ (Delivery.IsPush s.pushed) ks s.delivered

/-- The pushes that have begun to overwrite their entry. -/
def State.begun (s : State layout n) : Nat :=
  match s.producer with
  | .idle | .loadedHead _ _ => s.pushed.length
  | .writing _ _ _ | .stamped _ _ => s.pushed.length + 1

/-- All cells are copied, and the next step loads the stamp again. -/
def State.comparing (s : State layout n) : Bool :=
  match s.consumer with
  | .copying _ _ _ _ [] => true
  | _ => false

/-- When an attempt loads the stamp again, fewer than 2^31 pushes have begun that were not finished
when it loaded the head. -/
def Brief (s : State layout n) (e : Event R) : Prop :=
  e = .consumer → s.comparing = true → s.begun < s.newest + 2 ^ 31

instance [DecidableEq R] (s : State layout n) (e : Event R) : Decidable (Brief s e) :=
  inferInstanceAs (Decidable (_ → _ → _))

end Ring

/-! ## The stamps -/

theorem odd_ne_even (a b : UInt32) : a * 2 + 1 ≠ b * 2 + 2 := by
  intro h
  have hone : (1 : UInt32).toNat = 1 := rfl
  have htwo : (2 : UInt32).toNat = 2 := rfl
  have hmod := congrArg (fun x : UInt32 => x.toNat % 2) h
  simp only [UInt32.toNat_add, UInt32.toNat_mul, hone, htwo] at hmod
  omega

/-- The stamps of pushes less than 2^31 apart are different. -/
theorem stamp_ne {p q : Nat} (hlt : p < q) (hq : q < p + 2 ^ 31) :
    UInt32.ofNat q * 2 + 2 ≠ UInt32.ofNat p * 2 + 2 := by
  intro h
  have htwo : (2 : UInt32).toNat = 2 := rfl
  have hnat := congrArg UInt32.toNat h
  simp only [UInt32.toNat_add, UInt32.toNat_mul, UInt32.toNat_ofNat', htwo] at hnat
  omega

section Invariant

variable {R : Type} {layout : Layout R} {n : Nat} [NeZero n]

theorem SnapshotRing.entry_setEntry (ring : SnapshotRing layout n) (ticket : UInt32)
    (entry : Entry layout) : (ring.setEntry ticket entry).entry ticket = entry :=
  Function.update_self ..

theorem SnapshotRing.entry_setEntry_ne (ring : SnapshotRing layout n) {i j : UInt32}
    (entry : Entry layout) (h : slot n i ≠ slot n j) :
    (ring.setEntry j entry).entry i = ring.entry i :=
  Function.update_of_ne h ..

theorem SnapshotRing.entry_congr (ring : SnapshotRing layout n) {i j : UInt32}
    (h : slot n i = slot n j) : ring.entry i = ring.entry j :=
  congrArg ring.entries h

/-! ## The producer

Pushes are numbered from 0 here, as their tickets are. -/

/-- No later push has begun in the entry of push `q`. -/
def State.Latest (s : State layout n) (q : Nat) : Prop :=
  ∀ q', q < q' → q' < s.begun → slot n (UInt32.ofNat q') ≠ slot n (UInt32.ofNat q)

def ProducerAt (s : State layout n) : Producer layout → Prop
  | .idle => True
  | .loadedHead _ ticket => ticket = s.ring.head
  | .writing snapshot ticket todo =>
    ticket = s.ring.head ∧ (s.ring.entry ticket).seq = ticket * 2 + 1 ∧
      ∃ done, layout.storeOrder = done ++ todo ∧
        ∀ c ∈ done, (s.ring.entry ticket).value c = layout.split snapshot c
  | .stamped snapshot ticket =>
    ticket = s.ring.head ∧ s.ring.entry ticket = ⟨ticket * 2 + 2, layout.split snapshot⟩

/-- The head counts the finished pushes, and the latest push of an entry is there whole if it is
finished. -/
structure Produced (s : State layout n) : Prop where
  head : s.ring.head = UInt32.ofNat s.pushed.length
  producer : ProducerAt s s.producer
  whole : ∀ q snapshot, s.Latest q → s.pushed[q]? = some snapshot →
    s.ring.entry (UInt32.ofNat q) = ⟨UInt32.ofNat q * 2 + 2, layout.split snapshot⟩

omit [NeZero n] in
theorem State.begun_of_writing {s : State layout n} {snapshot : R} {ticket : UInt32}
    {todo : List (Fin layout.cells)} (h : s.producer = .writing snapshot ticket todo) :
    s.begun = s.pushed.length + 1 := by
  rw [begun, h]

namespace Produced

variable {s : State layout n}

theorem init [Inhabited R] : Produced (init : State layout n) := by
  constructor
  · rfl
  · trivial
  · intro q snapshot _ hpushed
    cases hpushed

/-- A store to the entry of the push that goes on from there. -/
theorem set_entry (hp : Produced s) {entry : Entry layout} {producer : Producer layout}
    (hbefore : s.begun ≤ s.pushed.length + 1)
    (hbegun : State.begun { s with ring := s.ring.setEntry s.ring.head entry, producer } =
      s.pushed.length + 1)
    (hat : ProducerAt { s with ring := s.ring.setEntry s.ring.head entry, producer } producer) :
    Produced { s with ring := s.ring.setEntry s.ring.head entry, producer } := by
  refine ⟨hp.head, hat, fun q record hlatest hpushed => ?_⟩
  have hlt : q < s.pushed.length := (List.getElem?_eq_some_iff.mp hpushed).1
  have hne := hlatest s.pushed.length hlt (by omega)
  have hlatest' : s.Latest q := by
    intro q' hq hq'
    apply hlatest q' hq
    omega
  rw [← hp.head] at hne
  exact (s.ring.entry_setEntry_ne entry hne.symm).trans (hp.whole q record hlatest' hpushed)

theorem stepProducer (hp : Produced s) : Produced (stepProducer s) := by
  have hat := hp.producer
  unfold Snapshot.stepProducer
  split
  · exact hp
  · rename_i snapshot ticket heq
    rw [heq] at hat
    have hticket : ticket = s.ring.head := hat
    subst hticket
    apply hp.set_entry
    · rw [State.begun, heq]
      exact Nat.le_succ _
    · rfl
    · refine ⟨rfl, ?_, [], rfl, fun c hc => ?_⟩
      · exact congrArg Entry.seq (s.ring.entry_setEntry ..)
      · cases hc
  · rename_i snapshot ticket c todo heq
    rw [heq] at hat
    obtain ⟨rfl, hseq, done, horder, hdone⟩ := hat
    apply hp.set_entry
    · rw [State.begun_of_writing heq]
    · rfl
    · refine ⟨rfl, ?_, done ++ [c], ?_, fun c' hc' => ?_⟩
      · exact (congrArg Entry.seq (s.ring.entry_setEntry ..)).trans hseq
      · rw [horder, List.append_assoc, List.singleton_append]
      · have hvalue := congrArg (fun e : Entry layout => e.value c')
          (s.ring.entry_setEntry s.ring.head
            { s.ring.entry s.ring.head with
              value := Function.update (s.ring.entry s.ring.head).value c
                (layout.split snapshot c) })
        refine hvalue.trans ?_
        by_cases hc : c' = c
        · rw [hc]
          exact Function.update_self ..
        · rw [List.mem_append, List.mem_singleton] at hc'
          have hc' : c' ∈ done := hc'.resolve_right hc
          exact (Function.update_of_ne hc ..).trans (hdone c' hc')
  · rename_i snapshot ticket heq
    rw [heq] at hat
    obtain ⟨rfl, hseq, done, horder, hdone⟩ := hat
    rw [List.append_nil] at horder
    have hvalue : (s.ring.entry s.ring.head).value = layout.split snapshot := by
      funext c
      apply hdone c
      rw [← horder]
      exact layout.mem_storeOrder c
    apply hp.set_entry
    · rw [State.begun_of_writing heq]
    · rfl
    · refine ⟨rfl, ?_⟩
      rw [← hvalue]
      exact s.ring.entry_setEntry ..
  · rename_i snapshot ticket heq
    rw [heq] at hat
    obtain ⟨rfl, hentry⟩ := hat
    refine ⟨?_, trivial, fun q record hlatest hpushed => ?_⟩
    · rw [hp.head, uint32_ofNat_succ, List.length_append, List.length_singleton]
    · have hbegun : s.begun = s.pushed.length + 1 := by
        rw [State.begun, heq]
      have hlatest' : s.Latest q := by
        intro q' hq hq'
        apply hlatest q' hq
        rw [hbegun] at hq'
        simp only [State.begun, List.length_append, List.length_singleton]
        exact hq'
      by_cases hq : q < s.pushed.length
      · rw [List.getElem?_append_left hq] at hpushed
        exact hp.whole q record hlatest' hpushed
      · -- the push that has just been finished
        have hq' : q = s.pushed.length := by
          have hlen := (List.getElem?_eq_some_iff.mp hpushed).1
          simp only [List.length_append, List.length_singleton] at hlen
          omega
        rw [hq', List.getElem?_concat_length, Option.some_inj] at hpushed
        rw [hq', ← hp.head, ← hpushed]
        exact hentry

theorem startPush (hp : Produced s) (snapshot : R) :
    Produced (startPush s snapshot) := by
  unfold Snapshot.startPush
  split
  · rename_i heq
    refine ⟨hp.head, rfl, fun q record hlatest hpushed => ?_⟩
    apply hp.whole q record _ hpushed
    intro q' hq hq'
    rw [State.begun, heq] at hq'
    exact hlatest q' hq hq'
  · exact hp

theorem startReadLatest (hp : Produced s) : Produced (startReadLatest s) := by
  unfold Snapshot.startReadLatest
  split
  · exact { hp with }
  · exact hp

theorem stepConsumer [Inhabited R] (hp : Produced s) : Produced (stepConsumer s) := by
  unfold Snapshot.stepConsumer
  split
  · exact hp
  · split_ifs
    · exact { hp with }
    · exact { hp with }
    · exact { hp with }
  · exact { hp with }
  · exact { hp with }
  · dsimp only
    split_ifs
    · exact { hp with }
    · exact { hp with }
    · exact { hp with }

theorem step [Inhabited R] (hp : Produced s) (e : Event R) : Produced (step s e) := by
  cases e with
  | push snapshot => exact hp.startPush snapshot
  | producer => exact hp.stepProducer
  | readLatest => exact hp.startReadLatest
  | consumer => exact hp.stepConsumer

theorem exec [Inhabited R] (hp : Produced s) (es : List (Event R)) :
    Produced (Lib.exec Snapshot.step s es) := by
  induction es generalizing s with
  | nil => exact hp
  | cons e es ih => exact ih (hp.step e)

/-- The stamp of an entry in which a later push has begun is another one for 2^31 pushes. -/
theorem seq_ne (hp : Produced s) {q k : Nat} (hqk : q < k) (hk : k < s.begun)
    (hbegun : s.begun ≤ q + 2 ^ 31) (hslot : slot n (UInt32.ofNat k) = slot n (UInt32.ofNat q)) :
    (s.ring.entry (UInt32.ofNat q)).seq ≠ UInt32.ofNat q * 2 + 2 := by
  induction hd : s.begun - k using Nat.strongRecOn generalizing k with
  | ind d ih =>
    by_cases hlater : s.Latest k
    · have hle : s.begun ≤ s.pushed.length + 1 := by
        unfold State.begun
        split <;> omega
      rw [← s.ring.entry_congr hslot]
      by_cases hfinished : k < s.pushed.length
      · rw [hp.whole k _ hlater (List.getElem?_eq_getElem hfinished)]
        exact stamp_ne hqk (by omega)
      · -- `k` is the push in progress
        have hkp : k = s.pushed.length := by omega
        have hat := hp.producer
        rw [hkp, ← hp.head]
        cases hproducer : s.producer with
        | idle | loadedHead _ _ =>
          simp only [State.begun, hproducer] at hk
          omega
        | writing snapshot ticket todo =>
          rw [hproducer] at hat
          obtain ⟨rfl, hseq, -⟩ := hat
          rw [hseq]
          exact odd_ne_even _ _
        | stamped snapshot ticket =>
          rw [hproducer] at hat
          obtain ⟨rfl, hentry⟩ := hat
          rw [hentry, hp.head, ← hkp]
          exact stamp_ne hqk (by omega)
    · obtain ⟨k', hkk', hk', hslot'⟩ : ∃ k', k < k' ∧ k' < s.begun ∧
          slot n (UInt32.ofNat k') = slot n (UInt32.ofNat k) := by
        unfold State.Latest at hlater
        push Not at hlater
        exact hlater
      exact ih (s.begun - k') (by omega) (by omega) hk' (hslot'.trans hslot) rfl

end Produced

/-! ## The consumer -/

/-- A later push has begun in the entry of push `q`. -/
def State.Overtaken (s : State layout n) (q : Nat) : Prop :=
  ∃ q', q < q' ∧ q' < s.begun ∧ slot n (UInt32.ofNat q') = slot n (UInt32.ofNat q)

/-- An attempt with this head in hand. -/
structure Attempt (s : State layout n) (head : UInt32) : Prop where
  head_eq : head = UInt32.ofNat s.newest
  head_ne : head ≠ s.ring.lastSeen
  finished_le : s.finished ≤ s.newest
  pos : 0 < s.newest

omit [NeZero n] in
theorem Attempt.go {s : State layout n} {head : UInt32} (h : Attempt s head)
    (consumer : Consumer layout) : Attempt { s with consumer } head :=
  { h with }

omit [NeZero n] in
theorem Attempt.head_pred {s : State layout n} {head : UInt32} (h : Attempt s head) :
    head - 1 = UInt32.ofNat (s.newest - 1) := by
  have hpred : s.newest = s.newest - 1 + 1 := (Nat.sub_add_cancel h.pos).symm
  rw [h.head_eq]
  nth_rewrite 1 [hpred]
  rw [← uint32_ofNat_succ, UInt32.add_sub_cancel]

theorem Produced.entry_of_not_overtaken {s : State layout n} (hp : Produced s) {q : Nat}
    (h : ¬ s.Overtaken q) {snapshot : R} (hpushed : s.pushed[q]? = some snapshot) :
    s.ring.entry (UInt32.ofNat q) = ⟨UInt32.ofNat q * 2 + 2, layout.split snapshot⟩ :=
  hp.whole q snapshot (fun q' hq hlt hslot => h ⟨q', hq, hlt, hslot⟩) hpushed

def ConsumerAt (s : State layout n) : Consumer layout → Prop
  | .idle => True
  | .begun _ => s.finished ≤ s.pushed.length
  | .loadedHead _ head => Attempt s head
  | .copying _ head _ copy todo =>
    Attempt s head ∧ ∃ snapshot done, s.pushed[s.newest - 1]? = some snapshot ∧
      layout.loadOrder = done ++ todo ∧
      (s.Overtaken (s.newest - 1) ∨ ∀ c ∈ done, copy c = layout.split snapshot c)

/-- What has been returned, and what the counters say about it. -/
structure Books (s : State layout n) (ks : List Nat) (k : Nat) : Prop where
  increasing : ks.Pairwise (· < ·)
  pushes : List.Forall₂ (Delivery.IsPush s.pushed) ks s.delivered
  le : ∀ k' ∈ ks, k' ≤ k
  lastSeen : s.ring.lastSeen = UInt32.ofNat k
  missed : UInt32.ofNat s.delivered.length + s.ring.missed = UInt32.ofNat k
  le_newest : k ≤ s.newest

/-- The state with what the reader has taken of it. -/
structure Consumed (s : State layout n) : Prop where
  newest_le : s.newest ≤ s.pushed.length
  consumer : ConsumerAt s s.consumer
  books : ∃ ks k, Books s ks k

namespace Consumed

variable {s : State layout n}

theorem init [Inhabited R] : Consumed (init : State layout n) := by
  refine ⟨Nat.le_refl _, trivial, [], 0, ?_⟩
  constructor
  · exact List.Pairwise.nil
  · exact List.Forall₂.nil
  · intro k hk
    cases hk
  · rfl
  · rfl
  · exact Nat.le_refl _

/-- A step of the producer. -/
theorem grow (hc : Consumed s) {ring : SnapshotRing layout n} {producer : Producer layout}
    {pushed : List R} (hlastSeen : ring.lastSeen = s.ring.lastSeen)
    (hmissed : ring.missed = s.ring.missed) (hpushed : s.pushed <+: pushed)
    (hbegun : s.begun ≤ State.begun { s with ring, producer, pushed }) :
    Consumed { s with ring, producer, pushed } := by
  have hkept : ∀ {i : Nat} {snapshot : R}, s.pushed[i]? = some snapshot →
      pushed[i]? = some snapshot := by
    intro i snapshot hi
    obtain ⟨more, rfl⟩ := hpushed
    rw [List.getElem?_append_left (List.getElem?_eq_some_iff.mp hi).1]
    exact hi
  have hattempt : ∀ {head : UInt32} {consumer : Consumer layout}, Attempt s head →
      Attempt { s with ring, producer, consumer, pushed } head := by
    intro head consumer h
    exact ⟨h.head_eq, fun heq => h.head_ne (heq.trans hlastSeen), h.finished_le, h.pos⟩
  refine ⟨hc.newest_le.trans hpushed.length_le, ?_, ?_⟩
  · have hat := hc.consumer
    change ConsumerAt _ s.consumer
    cases hs : s.consumer with
    | idle => trivial
    | begun attempt =>
      rw [hs] at hat
      exact Nat.le_trans hat hpushed.length_le
    | loadedHead attempt head =>
      rw [hs] at hat
      exact hattempt hat
    | copying attempt head seqBefore copy todo =>
      rw [hs] at hat
      obtain ⟨hhead, snapshot, done, hsnapshot, horder, hcopy⟩ := hat
      refine ⟨hattempt hhead, snapshot, done, hkept hsnapshot, horder, ?_⟩
      rcases hcopy with ⟨q, hq, hlt, hslot⟩ | hcopy
      · exact Or.inl ⟨q, hq, hlt.trans_le hbegun, hslot⟩
      · exact Or.inr hcopy
  · obtain ⟨ks, k, hb⟩ := hc.books
    refine ⟨ks, k, hb.increasing, ?_, hb.le, hlastSeen.trans hb.lastSeen, ?_, hb.le_newest⟩
    · apply hb.pushes.imp
      rintro k' d ⟨hk', hd, hrest⟩
      exact ⟨hk', hkept hd, hrest⟩
    · change UInt32.ofNat s.delivered.length + ring.missed = _
      rw [hmissed]
      exact hb.missed

theorem startPush (hc : Consumed s) (snapshot : R) :
    Consumed (startPush s snapshot) := by
  unfold Snapshot.startPush
  split
  · rename_i heq
    apply hc.grow
    · rfl
    · rfl
    · exact List.prefix_refl _
    · rw [State.begun, heq]
      exact Nat.le_refl _
  · exact hc

theorem stepProducer (hc : Consumed s) : Consumed (stepProducer s) := by
  unfold Snapshot.stepProducer
  split
  · exact hc
  · rename_i snapshot ticket heq
    apply hc.grow
    · rfl
    · rfl
    · exact List.prefix_refl _
    · rw [State.begun, heq]
      exact Nat.le_succ _
  · rename_i snapshot ticket c todo heq
    apply hc.grow
    · rfl
    · rfl
    · exact List.prefix_refl _
    · rw [State.begun_of_writing heq]
      exact Nat.le_refl _
  · rename_i snapshot ticket heq
    apply hc.grow
    · rfl
    · rfl
    · exact List.prefix_refl _
    · rw [State.begun_of_writing heq]
      exact Nat.le_refl _
  · rename_i snapshot ticket heq
    apply hc.grow
    · rfl
    · rfl
    · exact List.prefix_append _ _
    · rw [State.begun, heq]
      simp [State.begun]

/-- A step of the consumer that returns nothing. -/
theorem move (hc : Consumed s) {consumer : Consumer layout} {finished newest : Nat}
    (hle : s.newest ≤ newest) (hle' : newest ≤ s.pushed.length)
    (hat : ConsumerAt { s with consumer, finished, newest } consumer) :
    Consumed { s with consumer, finished, newest } := by
  obtain ⟨ks, k, hb⟩ := hc.books
  exact ⟨hle', hat, ks, k, hb.increasing, hb.pushes, hb.le, hb.lastSeen, hb.missed,
    hb.le_newest.trans hle⟩

theorem startReadLatest (hc : Consumed s) : Consumed (startReadLatest s) := by
  unfold Snapshot.startReadLatest
  split
  · exact hc.move (Nat.le_refl _) hc.newest_le (Nat.le_refl _)
  · exact hc

/-- The call that returns true returns the push that its attempt has in hand. -/
theorem deliver (hc : Consumed s) {head : UInt32} (hattempt : Attempt s head) {snapshot : R}
    (hsnapshot : s.pushed[s.newest - 1]? = some snapshot) {missed : UInt32}
    (hmissed : missed = s.ring.missed + (head - s.ring.lastSeen - 1)) {d : Delivery R}
    (hd : d = { out := snapshot, missed, count := s.delivered.length + 1, before := s.finished,
                after := s.pushed.length }) :
    Consumed { s with
      ring := { s.ring with missed, lastSeen := head }
      consumer := .idle
      delivered := s.delivered ++ [d] } := by
  obtain ⟨ks, k, hb⟩ := hc.books
  have hlt : k < s.newest := by
    refine Nat.lt_of_le_of_ne hb.le_newest fun heq => hattempt.head_ne ?_
    rw [hattempt.head_eq, hb.lastSeen, heq]
  have hcount : UInt32.ofNat (s.delivered.length + 1) + missed = UInt32.ofNat s.newest := by
    rw [hmissed, ← uint32_ofNat_succ, ← hattempt.head_eq, hb.lastSeen, ← hb.missed]
    grind
  refine ⟨hc.newest_le, trivial, ks ++ [s.newest], s.newest, ?_⟩
  constructor
  · rw [List.pairwise_append]
    refine ⟨hb.increasing, List.pairwise_singleton _ _, fun k' hk' m hm => ?_⟩
    rw [List.mem_singleton] at hm
    exact hm ▸ (hb.le k' hk').trans_lt hlt
  · apply List.rel_append hb.pushes
    refine List.Forall₂.cons ?_ List.Forall₂.nil
    rw [hd]
    exact ⟨hattempt.pos, hsnapshot, hattempt.finished_le, hc.newest_le, hcount⟩
  · intro k' hk'
    rcases List.mem_append.mp hk' with hk' | hk'
    · exact (hb.le k' hk').trans hlt.le
    · rw [List.mem_singleton] at hk'
      exact hk'.le
  · exact hattempt.head_eq
  · rw [List.length_append, List.length_singleton]
    exact hcount
  · exact Nat.le_refl _

theorem stepConsumer [Inhabited R] (hc : Consumed s) (hp : Produced s)
    (hbrief : s.comparing = true → s.begun < s.newest + 2 ^ 31) :
    Consumed (stepConsumer s) := by
  have hat := hc.consumer
  have hle := hc.newest_le
  unfold Snapshot.stepConsumer
  split
  · exact hc
  · rename_i attempt heq
    rw [heq] at hat
    split_ifs with hzero hseen
    · exact hc.move (Nat.le_refl _) hle trivial
    · exact hc.move (Nat.le_refl _) hle trivial
    · refine hc.move hle (Nat.le_refl _) ⟨hp.head, hseen, hat, ?_⟩
      refine Nat.pos_of_ne_zero fun hnone => hzero ?_
      change s.pushed.length = 0 at hnone
      rw [hp.head, hnone]
      rfl
  · rename_i attempt head heq
    rw [heq] at hat
    have hattempt : Attempt s head := hat
    have hlt : s.newest - 1 < s.pushed.length := by
      have hpos := hattempt.pos
      omega
    apply hc.move (Nat.le_refl _) hle
    refine ⟨hattempt.go _, _, [], List.getElem?_eq_getElem hlt, rfl, Or.inr fun c hc' => ?_⟩
    cases hc'
  · rename_i attempt head seqBefore copy c todo heq
    rw [heq] at hat
    obtain ⟨hattempt, snapshot, done, hsnapshot, horder, hcopy⟩ := hat
    apply hc.move (Nat.le_refl _) hle
    refine ⟨hattempt.go _, snapshot, done ++ [c], hsnapshot, ?_, ?_⟩
    · rw [horder, List.append_assoc, List.singleton_append]
    · by_cases hover : s.Overtaken (s.newest - 1)
      · exact Or.inl hover
      · right
        have hentry := hp.entry_of_not_overtaken hover hsnapshot
        rw [hattempt.head_pred, hentry]
        intro c' hc'
        by_cases heq' : c' = c
        · rw [heq']
          exact Function.update_self ..
        · rw [List.mem_append, List.mem_singleton] at hc'
          exact (Function.update_of_ne heq' ..).trans
            (hcopy.resolve_left hover c' (hc'.resolve_right heq'))
  · rename_i attempt head seqBefore copy heq
    rw [heq] at hat
    obtain ⟨hattempt, snapshot, done, hsnapshot, horder, hcopy⟩ := hat
    have hcomparing : s.comparing = true := by
      rw [State.comparing, heq]
    have hpos := hattempt.pos
    have hbegun := hbrief hcomparing
    dsimp only
    split_ifs with hsame hagain
    · have hover : ¬ s.Overtaken (s.newest - 1) := by
        rintro ⟨q, hq, hlt, hslot⟩
        apply hp.seq_ne hq hlt (by omega) hslot
        rw [← hattempt.head_pred, ← hsame.1]
        exact hsame.2
      have hwhole : copy = layout.split snapshot := by
        funext c
        apply hcopy.resolve_left hover
        rw [List.append_nil] at horder
        rw [← horder]
        exact layout.mem_loadOrder c
      apply hc.deliver hattempt hsnapshot rfl
      rw [hwhole, layout.join_split]
    · exact hc.move (Nat.le_refl _) hle (hattempt.finished_le.trans hle)
    · exact hc.move (Nat.le_refl _) hle trivial

theorem step [Inhabited R] (hc : Consumed s) (hp : Produced s) {e : Event R}
    (hbrief : Brief s e) : Consumed (step s e) := by
  cases e with
  | push snapshot => exact hc.startPush snapshot
  | producer => exact hc.stepProducer
  | readLatest => exact hc.startReadLatest
  | consumer => exact hc.stepConsumer hp (hbrief rfl)

end Consumed


/-- However the stores of `push` and the loads of `read_latest` interleave, and however the record
is copied: as long as no attempt is overtaken by 2^31 pushes, what is returned are pushes, whole and
new, and every push before the last one returned is returned or counted as missed. -/
theorem readLatest_faithful [Inhabited R] (es : List (Event R))
    (hbrief : Admitted Brief step (init : State layout n) es) :
    Faithful (exec step (init : State layout n) es) := by
  obtain ⟨-, hc⟩ := hbrief.invariant (fun s => Produced s ∧ Consumed s)
    (fun s e he ⟨hp, hc⟩ => ⟨hp.step e, hc.step hp he⟩) ⟨Produced.init, Consumed.init⟩
  obtain ⟨ks, k, hb⟩ := hc.books
  exact ⟨ks, hb.increasing, hb.pushes⟩

end Invariant

/-! ## The frames of the gateway -/

/-- One field after the other, the payload byte by byte. -/
def fieldwise : Layout FrameSnapshot where
  cells := 12
  Cell := UInt32
  split snapshot c :=
    match c with
    | 0 => snapshot.canId
    | 1 => snapshot.dlc.toUInt32
    | 2 => snapshot.extended.toUInt32
    | 3 => snapshot.rtr.toUInt32
    | ⟨i + 4, h⟩ => (snapshot.data.get ⟨i, (Nat.lt_of_add_lt_add_right h : i < 8)⟩).toUInt32
  join copy :=
    { canId := copy 0
      dlc := (copy 1).toUInt8
      extended := copy 2 != 0
      rtr := copy 3 != 0
      data := .ofFn fun i => (copy ⟨i + 4, Nat.add_lt_add_right i.isLt 4⟩).toUInt8 }
  storeOrder := List.finRange 12
  loadOrder := List.finRange 12
  join_split := by
    rintro ⟨canId, dlc, extended, rtr, data⟩
    have hflag : ∀ b : Bool, (b.toUInt32 != 0) = b := by decide
    have hdata : Vector.ofFn (fun i => data.get i) = data := by
      ext i hi
      simp [Vector.get_eq_getElem]
    simp only [hflag, UInt8.toUInt8_toUInt32]
    exact congrArg (FrameSnapshot.mk canId dlc extended rtr) hdata
  mem_storeOrder := List.mem_finRange
  mem_loadOrder := List.mem_finRange

instance : Inhabited FrameSnapshot := ⟨{}⟩

/-- Two pushes come between two loads of an attempt: it fails, and the next one returns the last
push. -/
theorem readLatest_faithful_retry :
    let push (canId : UInt32) : List (Event FrameSnapshot) :=
      .push { canId } :: List.replicate 15 .producer
    let es := push 1 ++ .readLatest :: List.replicate 3 .consumer ++ push 2 ++ push 3 ++
      List.replicate 27 .consumer
    let s := exec step (init : State fieldwise 2) es
    s.delivered = [{ out := { canId := 3 }, missed := 2, count := 1, before := 1, after := 3 }] ∧
      Faithful s := by
  intro push es s
  have hbrief : Admitted Brief step (init : State fieldwise 2) es := by
    decide
  exact ⟨by decide, readLatest_faithful es hbrief⟩

/-! ## A stamp that comes round -/

section Round

variable {R : Type} {layout : Layout R} {n : Nat} [NeZero n] [Inhabited R] {s : State layout n}

/-- A call of `push` from its begin to its end. -/
def wholePush (layout : Layout R) (snapshot : R) : List (Event R) :=
  .push snapshot :: List.replicate (layout.storeOrder.length + 3) .producer

/-- The pushes `snapshots` have gone between `s` and `s'`, and nothing else. -/
structure Pushes (s : State layout n) (snapshots : List R) (s' : State layout n) : Prop where
  producer : s'.producer = .idle
  pushed : s'.pushed = s.pushed ++ snapshots
  consumer : s'.consumer = s.consumer
  delivered : s'.delivered = s.delivered

omit [Inhabited R] in
theorem stepProducer_consumer (s : State layout n) :
    (stepProducer s).consumer = s.consumer ∧ (stepProducer s).delivered = s.delivered := by
  unfold stepProducer
  split <;> exact ⟨rfl, rfl⟩

theorem exec_producer_consumer (s : State layout n) (m : Nat) :
    let s' := exec step s (List.replicate m .producer)
    s'.consumer = s.consumer ∧ s'.delivered = s.delivered := by
  induction m generalizing s with
  | zero => exact ⟨rfl, rfl⟩
  | succ m ih =>
    rw [List.replicate_succ, exec_cons]
    have hstep := stepProducer_consumer s
    exact ⟨(ih _).1.trans hstep.1, (ih _).2.trans hstep.2⟩

theorem exec_writing {snapshot : R} {ticket : UInt32} {todo : List (Fin layout.cells)}
    (h : s.producer = .writing snapshot ticket todo) :
    let s' := exec step s (List.replicate todo.length .producer)
    s'.producer = .writing snapshot ticket [] ∧ s'.pushed = s.pushed := by
  induction todo generalizing s with
  | nil => exact ⟨h, rfl⟩
  | cons c todo ih =>
    rw [List.length_cons, List.replicate_succ, exec_cons]
    have hstep : (step s .producer).producer = .writing snapshot ticket todo ∧
        (step s .producer).pushed = s.pushed := by
      change (stepProducer s).producer = _ ∧ (stepProducer s).pushed = _
      rw [stepProducer, h]
      exact ⟨rfl, rfl⟩
    exact ⟨(ih hstep.1).1, (ih hstep.1).2.trans hstep.2⟩

theorem pushes_wholePush (h : s.producer = .idle) (snapshot : R) :
    Pushes s [snapshot] (exec step s (wholePush layout snapshot)) := by
  have hsplit : wholePush layout snapshot = [.push snapshot, .producer] ++
      (List.replicate layout.storeOrder.length .producer ++ [.producer, .producer]) := by
    have hthree : layout.storeOrder.length + 3 = 1 + (layout.storeOrder.length + 2) := by
      omega
    rw [wholePush, hthree, ← List.replicate_append_replicate, ← List.replicate_append_replicate]
    rfl
  have hbegin : (exec step s [.push snapshot, .producer]).producer =
      .writing snapshot s.ring.head layout.storeOrder ∧
      (exec step s [.push snapshot, .producer]).pushed = s.pushed := by
    simp [step, startPush, stepProducer, h]
  obtain ⟨hcopied, hpushed⟩ := exec_writing hbegin.1
  have hend : ∀ s' : State layout n, s'.producer = .writing snapshot s.ring.head [] →
      (exec step s' [.producer, .producer]).producer = .idle ∧
      (exec step s' [.producer, .producer]).pushed = s'.pushed ++ [snapshot] := by
    intro s' h'
    simp [step, stepProducer, h']
  have hpush : (startPush s snapshot).consumer = s.consumer ∧
      (startPush s snapshot).delivered = s.delivered := by
    rw [startPush, h]
    exact ⟨rfl, rfl⟩
  have hreader := exec_producer_consumer (startPush s snapshot) (layout.storeOrder.length + 3)
  constructor
  · rw [hsplit, exec_append, exec_append]
    exact (hend _ hcopied).1
  · rw [hsplit, exec_append, exec_append, (hend _ hcopied).2, hpushed, hbegin.2]
  · exact hreader.1.trans hpush.1
  · exact hreader.2.trans hpush.2

theorem pushes_replicate (h : s.producer = .idle) (snapshot : R) (m : Nat) :
    Pushes s (List.replicate m snapshot)
      (exec step s (List.replicate m (wholePush layout snapshot)).flatten) := by
  induction m with
  | zero => exact ⟨h, (List.append_nil _).symm, rfl, rfl⟩
  | succ m ih =>
    have hlast := pushes_wholePush ih.producer snapshot
    rw [List.replicate_succ', List.replicate_succ', List.flatten_append, List.flatten_singleton,
      exec_append]
    constructor
    · exact hlast.producer
    · rw [hlast.pushed, ih.pushed, List.append_assoc]
    · exact hlast.consumer.trans ih.consumer
    · exact hlast.delivered.trans ih.delivered

theorem exec_copying {attempt : Nat} {head seqBefore : UInt32} {copy : layout.Cells}
    {todo : List (Fin layout.cells)}
    (h : s.consumer = .copying attempt head seqBefore copy todo) :
    exec step s (List.replicate todo.length .consumer) =
      { s with consumer := .copying attempt head seqBefore (todo.foldl (fun copy c =>
          Function.update copy c ((s.ring.entry (head - 1)).value c)) copy) [] } := by
  induction todo generalizing s copy with
  | nil =>
    rw [List.foldl_nil, ← h]
    rfl
  | cons c todo ih =>
    rw [List.length_cons, List.replicate_succ, exec_cons]
    have hstep : step s .consumer =
        { s with consumer := .copying attempt head seqBefore (Function.update copy c
            ((s.ring.entry (head - 1)).value c)) todo } := by
      change stepConsumer s = _
      rw [stepConsumer, h]
    rw [hstep]
    exact ih rfl

end Round

/-- The rest of an attempt that has copied the first field. -/
theorem delivered_rest {s : State fieldwise 4} {copy : fieldwise.Cells} {snapshot : FrameSnapshot}
    (h : s.consumer = .copying 0 1 2 copy fieldwise.loadOrder.tail)
    (hentry : s.ring.entry (1 - 1) = ⟨2, fieldwise.split snapshot⟩) :
    ∃ d : Delivery FrameSnapshot,
      (exec step s (List.replicate 12 .consumer)).delivered = s.delivered ++ [d] ∧
      (exec step s (List.replicate 12 .consumer)).pushed = s.pushed ∧
      d.out.canId = copy (0 : Fin 12) ∧ d.out.dlc = snapshot.dlc := by
  have hrun : exec step s (List.replicate 12 .consumer) =
      step (exec step s (List.replicate fieldwise.loadOrder.tail.length .consumer)) .consumer :=
    rfl
  rw [hrun, exec_copying h, hentry]
  change ∃ d, (stepConsumer _).delivered = _ ∧ (stepConsumer _).pushed = _ ∧ _
  rw [stepConsumer]
  dsimp only
  rw [hentry, if_pos ⟨rfl, rfl⟩]
  refine ⟨_, rfl, rfl, rfl, ?_⟩
  exact UInt8.toUInt8_toUInt32 snapshot.dlc

/-- An attempt that has copied the first field is overtaken by 2^31 pushes: the stamp is the one it
read before, and it returns the ID of one frame with the fields of another. -/
theorem not_faithful_round :
    ¬ ∀ es : List (Event FrameSnapshot), Faithful (exec step (init : State fieldwise 4) es) := by
  intro hall
  obtain ⟨m, hm⟩ : ∃ m : Nat, m = 2 ^ 31 := ⟨_, rfl⟩
  -- one push, and the attempt up to the first field
  obtain ⟨es₁, hes₁⟩ : ∃ es₁, es₁ = wholePush fieldwise ({ canId := 1 } : FrameSnapshot) ++
      .readLatest :: List.replicate 3 .consumer := ⟨_, rfl⟩
  obtain ⟨s₁, hs₁⟩ : ∃ s₁, s₁ = exec step (init : State fieldwise 4) es₁ := ⟨_, rfl⟩
  obtain ⟨copy, hcopying, hid⟩ : ∃ copy : fieldwise.Cells,
      s₁.consumer = .copying 0 1 2 copy fieldwise.loadOrder.tail ∧ copy (0 : Fin 12) = (1 : UInt32) := by
    rw [hs₁, hes₁]
    exact ⟨_, rfl, rfl⟩
  have hfirst : s₁.producer = .idle ∧ s₁.pushed = [{ canId := 1 }] ∧ s₁.delivered = [] := by
    rw [hs₁, hes₁]
    exact ⟨rfl, rfl, rfl⟩
  -- the pushes that bring the stamp back
  obtain ⟨es₂, hes₂⟩ : ∃ es₂, es₂ = (List.replicate m
      (wholePush fieldwise ({ canId := 2, dlc := 1 } : FrameSnapshot))).flatten := ⟨_, rfl⟩
  obtain ⟨s₂, hs₂⟩ : ∃ s₂, s₂ = exec step s₁ es₂ := ⟨_, rfl⟩
  have hpushes : Pushes s₁ (List.replicate m { canId := 2, dlc := 1 }) s₂ := by
    rw [hs₂, hes₂]
    exact pushes_replicate hfirst.1 _ m
  have hpushed : s₂.pushed = { canId := 1 } :: List.replicate m { canId := 2, dlc := 1 } := by
    rw [hpushes.pushed, hfirst.2.1]
    rfl
  have hp : Produced s₂ := by
    rw [hs₂, hs₁]
    exact (Produced.init.exec es₁).exec es₂
  have hentry : s₂.ring.entry (1 - 1) = ⟨2, fieldwise.split { canId := 2, dlc := 1 }⟩ := by
    have hslot : slot 4 (UInt32.ofNat m) = slot 4 (1 - 1) := by
      rw [hm]
      decide
    have hstamp : UInt32.ofNat m * 2 + 2 = 2 := by
      rw [hm]
      decide
    have hlatest : s₂.Latest m := by
      intro q hq hlt
      simp only [State.begun, hpushes.producer, hpushed, List.length_cons,
        List.length_replicate] at hlt
      omega
    have hlast : s₂.pushed[m]? = some { canId := 2, dlc := 1 } := by
      have hm' : m = m - 1 + 1 := by omega
      rw [hpushed, hm', List.getElem?_cons_succ, List.getElem?_replicate, if_pos (by omega)]
    rw [← s₂.ring.entry_congr hslot, hp.whole m _ hlatest hlast, hstamp]
  obtain ⟨d, hdelivered, hkept, hcanId, hdlc⟩ :=
    delivered_rest (hpushes.consumer.trans hcopying) hentry
  obtain ⟨ks, -, hks⟩ := hall (es₁ ++ es₂ ++ List.replicate 12 .consumer)
  rw [exec_append, exec_append, ← hs₁, ← hs₂, hdelivered, hkept, hpushes.delivered,
    hfirst.2.2] at hks
  obtain ⟨k, -, ⟨-, hout, -⟩, -⟩ := List.forall₂_cons_right_iff.mp hks
  rw [hpushed] at hout
  rcases List.mem_cons.mp (List.mem_of_getElem? hout) with hd | hd
  · rw [hd] at hdlc
    exact absurd hdlc (by decide)
  · rw [List.eq_of_mem_replicate hd, hid] at hcanId
    exact absurd hcanId (by decide)


end EspCars.CanGateway.Snapshot
