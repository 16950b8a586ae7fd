import EspCars.Lib.Keyed
import EspCars.Lib.Run
import EspCars.Lib.Text

/-!
# The chunk index

`CollectionPolicy` of `components/sd_logger/collection_policy.h`. The index is the list of its
first `count_` entries; `capacity` is `SD_LOG_MAX_CHUNKS`. A call that the source declares `void`
answers `true`.
-/

namespace EspCars.SdLogger

open EspCars.Lib

def seqModulus : UInt32 := 10000000

def seqMax : UInt32 := seqModulus - 1

/-- `ChunkState` -/
inductive ChunkState
  | none | open_ | sealed | confirmed
  deriving DecidableEq, Repr

/-- OPEN to SEALED to CONFIRMED, one at a time. -/
def ChunkState.Moves (s s' : ChunkState) : Prop :=
  s' = s ∨ (s = .open_ ∧ s' = .sealed) ∨ (s = .sealed ∧ s' = .confirmed)

/-- `ChunkEntry` -/
structure ChunkEntry where
  seq : UInt32
  bytes : UInt32
  state : ChunkState
  serving : Bool
  deriving DecidableEq

/-- Saturates. -/
def chunkBytes (bytes : UInt64) : UInt32 :=
  if bytes > 0xFFFFFFFF then 0xFFFFFFFF else bytes.toUInt32

/-- `DiscardStats` -/
structure DiscardStats where
  chunks : UInt32 := 0
  bytes : UInt64 := 0
  firstSeq : UInt32 := 0
  lastSeq : UInt32 := 0
  deriving DecidableEq

/-- The window with one more chunk in it. -/
def DiscardStats.bill (w : DiscardStats) (entry : ChunkEntry) : DiscardStats where
  chunks := w.chunks + 1
  bytes := w.bytes + entry.bytes.toUInt64
  firstSeq := if w.chunks = 0 then entry.seq else w.firstSeq
  lastSeq := entry.seq

/-! ## Names -/

/-- `count` digits from index `i` on, read into `seq`. -/
def parseDigits (name : List UInt8) : Nat → Nat → UInt32 → Option UInt32
  | 0, _, seq => some seq
  | count + 1, i, seq =>
    let c := name.getD i 0
    if c < 48 ∨ c > 57 then none else parseDigits name count (i + 1) (seq * 10 + (c - 48).toUInt32)

/-- `none` is the null pointer; a name ends at its NUL. -/
def parseChunkName : Option (List UInt8) → Option (UInt32 × ChunkState)
  | none => none
  | some name =>
    if name.head? ≠ (ascii "L").head? then none
    else
      match parseDigits name 7 1 0 with
      | none => none
      | some seq =>
        if name.drop 8 = ascii ".LOG" then some (seq, .sealed)
        else if name.drop 8 = ascii ".UPL" then some (seq, .confirmed)
        else none

/-! ## The policy -/

/-- `CollectionPolicy` -/
structure CollectionPolicy (capacity : Nat) where
  chunks : List ChunkEntry := []
  enabled : Bool := false
  retentionPercent : UInt8 := 90
  maxFileBytes : UInt32 := 0
  maxFileSeconds : UInt32 := 0
  maxFileUs : UInt64 := 0
  pending : DiscardStats := {}
  discardedChunks : UInt32 := 0
  discardedBytes : UInt64 := 0
  deriving DecidableEq

namespace CollectionPolicy

variable {capacity : Nat}

/-- `configure_rotation` -/
def configureRotation (p : CollectionPolicy capacity) (maxFileBytes maxFileSeconds : UInt32) :
    CollectionPolicy capacity :=
  { p with maxFileBytes, maxFileSeconds, maxFileUs := maxFileSeconds.toUInt64 * 1000000 }

/-- `configure` -/
def configure (p : CollectionPolicy capacity) (retentionPercent : UInt8) :
    CollectionPolicy capacity :=
  { p with
    enabled := true
    retentionPercent :=
      if retentionPercent < 1 then 1 else if retentionPercent > 99 then 99 else retentionPercent }

def disable (p : CollectionPolicy capacity) : CollectionPolicy capacity := { p with enabled := false }

def clear (p : CollectionPolicy capacity) : CollectionPolicy capacity := { p with chunks := [] }

/-- `find` and `find_mut_`. -/
def find (p : CollectionPolicy capacity) (seq : UInt32) : Option ChunkEntry :=
  Keyed.find ChunkEntry.seq seq p.chunks

/-- `find_open_`. -/
def findOpen (p : CollectionPolicy capacity) : Option ChunkEntry :=
  p.chunks.find? (·.state = .open_)

/-- What the entry that `find_mut_` points at becomes. -/
def modify (p : CollectionPolicy capacity) (seq : UInt32) (f : ChunkEntry → ChunkEntry) :
    CollectionPolicy capacity := { p with chunks := Keyed.update ChunkEntry.seq seq f p.chunks }

/-- `add` -/
def add (p : CollectionPolicy capacity) (seq : UInt32) (bytes : UInt64) (state : ChunkState) :
    Bool × CollectionPolicy capacity :=
  if state = .none ∨ seq > seqMax then (false, p)
  else if p.chunks.length ≥ capacity ∨ (p.find seq).isSome then (false, p)
  else if state = .open_ ∧ p.findOpen.isSome then (false, p)
  else (true, { p with chunks := p.chunks ++ [⟨seq, chunkBytes bytes, state, false⟩] })

/-- `add_name` -/
def addName (p : CollectionPolicy capacity) (name : Option (List UInt8)) (bytes : UInt64) :
    Bool × CollectionPolicy capacity :=
  match parseChunkName name with
  | none => (false, p)
  | some (seq, state) => p.add seq bytes state

/-- `seal` -/
def seal_ (p : CollectionPolicy capacity) (seq : UInt32) (bytes : UInt64) :
    Bool × CollectionPolicy capacity :=
  match p.find seq with
  | none => (false, p)
  | some entry =>
    if entry.state ≠ .open_ then (false, p)
    else (true, p.modify seq fun e => { e with state := .sealed, bytes := chunkBytes bytes })

/-- `restate_sealed_bytes` -/
def restateSealedBytes (p : CollectionPolicy capacity) (seq : UInt32) (bytes : UInt64) :
    Bool × CollectionPolicy capacity :=
  match p.find seq with
  | none => (false, p)
  | some entry =>
    if entry.state ≠ .sealed ∨ entry.serving then (false, p)
    else (true, p.modify seq fun e => { e with bytes := chunkBytes bytes })

/-- `confirm` -/
def confirm (p : CollectionPolicy capacity) (seq : UInt32) : Bool × CollectionPolicy capacity :=
  match p.find seq with
  | none => (false, p)
  | some entry =>
    if entry.state = .confirmed then (true, p)
    else if entry.state ≠ .sealed then (false, p)
    else (true, p.modify seq fun e => { e with state := .confirmed })

/-- `mark_serving` -/
def markServing (p : CollectionPolicy capacity) (seq : UInt32) :
    Bool × CollectionPolicy capacity :=
  match p.find seq with
  | none => (false, p)
  | some entry =>
    if entry.state = .open_ then (false, p)
    else (true, p.modify seq fun e => { e with serving := true })

/-- `clear_serving` -/
def clearServing (p : CollectionPolicy capacity) (seq : UInt32) : CollectionPolicy capacity :=
  p.modify seq fun e => { e with serving := false }

/-- `discard` -/
def discard (p : CollectionPolicy capacity) (seq : UInt32) : Bool × CollectionPolicy capacity :=
  match p.find seq with
  | none => (false, p)
  | some entry =>
    if entry.state = .open_ ∨ entry.serving then (false, p)
    else
      let p := if entry.state = .sealed then
          { p with
            pending := p.pending.bill entry
            discardedChunks := p.discardedChunks + 1
            discardedBytes := p.discardedBytes + entry.bytes.toUInt64 }
        else p
      (true, { p with chunks := Keyed.erase ChunkEntry.seq seq p.chunks })

/-- `take_pending_discards` -/
def takePendingDiscards (p : CollectionPolicy capacity) :
    DiscardStats × CollectionPolicy capacity := (p.pending, { p with pending := {} })

/-- A call of the policy. -/
inductive Call
  | add (seq : UInt32) (bytes : UInt64) (state : ChunkState)
  | addName (name : Option (List UInt8)) (bytes : UInt64)
  | seal_ (seq : UInt32) (bytes : UInt64)
  | restateSealedBytes (seq : UInt32) (bytes : UInt64)
  | confirm (seq : UInt32)
  | markServing (seq : UInt32)
  | clearServing (seq : UInt32)
  | discard (seq : UInt32)
  | clear
  | configure (retentionPercent : UInt8)
  | disable
  | configureRotation (maxFileBytes maxFileSeconds : UInt32)
  | takePendingDiscards
  deriving DecidableEq

/-- The call with its answer. -/
def call (p : CollectionPolicy capacity) : Call → Bool × CollectionPolicy capacity
  | .add seq bytes state => p.add seq bytes state
  | .addName name bytes => p.addName name bytes
  | .seal_ seq bytes => p.seal_ seq bytes
  | .restateSealedBytes seq bytes => p.restateSealedBytes seq bytes
  | .confirm seq => p.confirm seq
  | .markServing seq => p.markServing seq
  | .clearServing seq => (true, p.clearServing seq)
  | .discard seq => p.discard seq
  | .clear => (true, p.clear)
  | .configure percent => (true, p.configure percent)
  | .disable => (true, p.disable)
  | .configureRotation bytes seconds => (true, p.configureRotation bytes seconds)
  | .takePendingDiscards => (true, p.takePendingDiscards.2)

/-- The policy behind a call. -/
def step (p : CollectionPolicy capacity) (c : Call) : CollectionPolicy capacity := (p.call c).2

/-! ## What a call can do -/

/-- What a call answers and leaves. -/
inductive Effect (p : CollectionPolicy capacity) (c : Call) :
    Bool → CollectionPolicy capacity → Prop
  | refused : Effect p c false p
  | kept (q : CollectionPolicy capacity) (h : q.chunks = p.chunks) : Effect p c true q
  | cleared (hc : c = .clear) : Effect p c true p.clear
  | added (entry : ChunkEntry) (hseq : entry.seq ≤ seqMax) (hnew : entry.seq ∉ p.chunks.map (·.seq))
      (hroom : p.chunks.length < capacity) (hidle : entry.serving = false)
      (hopen : entry.state = .open_ → p.chunks.countP (·.state = .open_) = 0) :
      Effect p c true { p with chunks := p.chunks ++ [entry] }
  | changed (seq : UInt32) (f : ChunkEntry → ChunkEntry) (hkey : ∀ e, (f e).seq = e.seq)
      (hopen : ∀ e, (f e).state = .open_ → e.state = .open_)
      (hmoves : ∀ e, p.find seq = some e → e.state.Moves (f e).state)
      (hidle : ∀ e, p.find seq = some e → (f e).state = .open_ → e.serving = false →
        (f e).serving = false) :
      Effect p c true (p.modify seq f)
  | dropped (seq : UInt32) (hc : c = .discard seq) (q : CollectionPolicy capacity)
      (h : q.chunks = Keyed.erase ChunkEntry.seq seq p.chunks) : Effect p c true q

theorem effect_add (p : CollectionPolicy capacity) (c : Call) (seq : UInt32) (bytes : UInt64)
    (state : ChunkState) : Effect p c (p.add seq bytes state).1 (p.add seq bytes state).2 := by
  unfold add
  split_ifs with hname hfull hopen
  · exact .refused
  · exact .refused
  · exact .refused
  · rw [not_or, Nat.not_le] at hfull
    refine .added _ (UInt32.not_lt.mp fun h => hname (Or.inr h)) ?_ hfull.1 rfl fun hs => ?_
    · apply Keyed.find_eq_none_iff.mp
      simpa [find] using hfull.2
    · rw [List.countP_eq_zero]
      intro e he hopen'
      refine hopen ⟨hs, ?_⟩
      rw [findOpen, List.find?_isSome]
      exact ⟨e, he, hopen'⟩

theorem effect (p : CollectionPolicy capacity) (c : Call) :
    Effect p c (p.call c).1 (p.call c).2 := by
  cases c with
  | add seq bytes state => exact effect_add p _ seq bytes state
  | addName name bytes =>
    simp only [call, addName]
    split
    · exact .refused
    · exact effect_add p _ _ bytes _
  | seal_ seq bytes =>
    simp only [call, seal_]
    split
    · exact .refused
    · rename_i entry hentry
      split_ifs with hopen
      · exact .refused
      · refine .changed seq _ (fun _ => rfl) (fun e h => ?_) (fun e he => ?_) (fun e _ h => ?_)
        · cases h
        · rw [hentry] at he
          cases he
          exact Or.inr (Or.inl ⟨not_not.mp hopen, rfl⟩)
        · cases h
  | restateSealedBytes seq bytes =>
    simp only [call, restateSealedBytes]
    split
    · exact .refused
    · split_ifs
      · exact .refused
      · exact .changed seq _ (fun _ => rfl) (fun _ h => h) (fun _ _ => Or.inl rfl)
          (fun _ _ _ h => h)
  | confirm seq =>
    simp only [call, confirm]
    split
    · exact .refused
    · rename_i entry hentry
      split_ifs with hconfirmed hsealed
      · exact .kept p rfl
      · exact .refused
      · refine .changed seq _ (fun _ => rfl) (fun e h => ?_) (fun e he => ?_) (fun e _ h => ?_)
        · cases h
        · rw [hentry] at he
          cases he
          exact Or.inr (Or.inr ⟨not_not.mp hsealed, rfl⟩)
        · cases h
  | markServing seq =>
    simp only [call, markServing]
    split
    · exact .refused
    · rename_i entry hentry
      split_ifs with hopen
      · exact .refused
      · refine .changed seq _ (fun _ => rfl) (fun _ h => h) (fun _ _ => Or.inl rfl)
          (fun e he h => ?_)
        rw [hentry] at he
        cases he
        exact absurd h hopen
  | clearServing seq =>
    exact .changed seq _ (fun _ => rfl) (fun _ h => h) (fun _ _ => Or.inl rfl) (fun _ _ _ _ => rfl)
  | discard seq =>
    simp only [call, discard]
    split
    · exact .refused
    · split_ifs
      · exact .refused
      · exact .dropped seq rfl _ rfl
      · exact .dropped seq rfl _ rfl
  | clear => exact .cleared rfl
  | configure percent => exact .kept _ rfl
  | disable => exact .kept _ rfl
  | configureRotation bytes seconds => exact .kept _ rfl
  | takePendingDiscards => exact .kept _ rfl

/-! ## The invariant -/

/-- One entry for each number, and at most one of them open. -/
structure Inv (p : CollectionPolicy capacity) : Prop where
  nodup : (p.chunks.map (·.seq)).Nodup
  seq_le : ∀ e ∈ p.chunks, e.seq ≤ 9999999
  oneOpen : p.chunks.countP (·.state = .open_) ≤ 1
  openIdle : ∀ e ∈ p.chunks, e.state = .open_ → e.serving = false
  length_le : p.chunks.length ≤ capacity

theorem Inv.start : Inv ({} : CollectionPolicy capacity) where
  nodup := List.nodup_nil
  seq_le _ he := by cases he
  oneOpen := Nat.zero_le 1
  openIdle _ he := by cases he
  length_le := Nat.zero_le _

theorem Inv.of_sublist {p q : CollectionPolicy capacity} (h : Inv p)
    (hs : q.chunks.Sublist p.chunks) : Inv q where
  nodup := h.nodup.sublist (hs.map _)
  seq_le e he := h.seq_le e (hs.mem he)
  oneOpen := Nat.le_trans hs.countP_le h.oneOpen
  openIdle e he := h.openIdle e (hs.mem he)
  length_le := Nat.le_trans hs.length_le h.length_le

theorem Inv.of_effect {p q : CollectionPolicy capacity} {c : Call} {ok : Bool} (h : Inv p)
    (he : Effect p c ok q) : Inv q := by
  cases he with
  | refused => exact h
  | kept _ hq => exact h.of_sublist (hq ▸ List.Sublist.refl _)
  | cleared => exact h.of_sublist (List.nil_sublist _)
  | dropped seq _ _ hq => exact h.of_sublist (hq ▸ Keyed.erase_sublist)
  | added entry hseq hnew hroom hidle hopen =>
    refine ⟨?_, fun e he => ?_, ?_, fun e he hs => ?_, ?_⟩
    · rw [List.map_append, List.nodup_append]
      refine ⟨h.nodup, List.nodup_singleton _, fun a ha b hb hab => hnew ?_⟩
      have hseqs : a = entry.seq := hab.trans (List.mem_singleton.mp hb)
      exact hseqs ▸ ha
    · rcases List.mem_append.mp he with he | he
      · exact h.seq_le e he
      · rw [List.mem_singleton.mp he]
        exact hseq
    · rw [List.countP_append, List.countP_singleton]
      have hone := h.oneOpen
      split_ifs with hs
      · have hnone := hopen (by simpa using hs)
        omega
      · exact hone
    · rcases List.mem_append.mp he with he | he
      · exact h.openIdle e he hs
      · rw [List.mem_singleton.mp he]
        exact hidle
    · rw [List.length_append, List.length_singleton]
      exact hroom
  | changed seq f hkey hopen hmoves hidle =>
    refine ⟨?_, fun e he => ?_, ?_, fun e he hs => ?_, ?_⟩
    · rw [modify, Keyed.map_update hkey]
      exact h.nodup
    · rcases Keyed.mem_update he with he | ⟨e₀, he₀, rfl⟩
      · exact h.seq_le e he
      · rw [hkey]
        exact h.seq_le e₀ (Keyed.mem_of_find he₀).1
    · refine Nat.le_trans (Keyed.countP_update_le fun e he => ?_) h.oneOpen
      simpa using hopen e (by simpa using he)
    · rcases Keyed.mem_update he with he | ⟨e₀, he₀, rfl⟩
      · exact h.openIdle e he hs
      · exact hidle e₀ he₀ hs (h.openIdle e₀ (Keyed.mem_of_find he₀).1 (hopen e₀ hs))
    · have hlen := congrArg List.length (Keyed.map_update (l := p.chunks) (k := seq) hkey)
      rw [List.length_map, List.length_map] at hlen
      exact hlen ▸ h.length_le

theorem Inv.run {p : CollectionPolicy capacity} (h : Inv p) (calls : List Call) :
    Inv (exec step p calls) := by
  induction calls generalizing p with
  | nil => exact h
  | cons c calls ih => exact ih (h.of_effect (effect p c))

/-! ## What a call leaves of the entries -/

/-- What a call may do to the entries. -/
structure Evolves (c : Call) (ok : Bool) (p q : CollectionPolicy capacity) : Prop where
  forward : ∀ e ∈ p.chunks, ∀ e' ∈ q.chunks, e'.seq = e.seq → e.state.Moves e'.state
  leaves : ∀ e ∈ p.chunks, e.seq ∉ q.chunks.map (·.seq) →
    c = .clear ∨ (c = .discard e.seq ∧ ok = true)
  order : (p.chunks.map (·.seq)).filter (· ∈ q.chunks.map (·.seq)) <+: q.chunks.map (·.seq)
  refused : ok = false → q = p

theorem Evolves.of_effect {p q : CollectionPolicy capacity} {c : Call} {ok : Bool} (h : Inv p)
    (he : Effect p c ok q) : Evolves c ok p q := by
  have hsame : ∀ e ∈ p.chunks, ∀ e' ∈ p.chunks, e'.seq = e.seq → e.state.Moves e'.state := by
    intro e he e' he' hseq
    rw [Keyed.eq_of_key_eq h.nodup he he' hseq.symm]
    exact Or.inl rfl
  have horder : ∀ seqs : List UInt32, p.chunks.map (·.seq) <+: seqs →
      (p.chunks.map (·.seq)).filter (· ∈ seqs) <+: seqs := by
    intro seqs hs
    rwa [List.filter_eq_self.mpr fun seq hseq => by simpa using hs.subset hseq]
  cases he with
  | refused =>
    exact ⟨hsame, fun e he hnot => absurd (List.mem_map_of_mem he) hnot,
      horder _ (List.prefix_refl _), fun _ => rfl⟩
  | kept _ hq =>
    refine ⟨?_, fun e he hnot => ?_, ?_, fun hok => by cases hok⟩
    · rw [hq]
      exact hsame
    · rw [hq] at hnot
      exact absurd (List.mem_map_of_mem he) hnot
    · rw [hq]
      exact horder _ (List.prefix_refl _)
  | cleared hc =>
    refine ⟨fun _ _ _ he' => ?_, fun _ _ _ => Or.inl hc, ?_, fun hok => by cases hok⟩
    · cases he'
    · simp [clear]
  | added entry hseq hnew hroom hidle hopen =>
    refine ⟨fun e he e' he' heq => ?_, fun e he hnot => ?_, ?_, fun hok => by cases hok⟩
    · rcases List.mem_append.mp he' with he' | he'
      · exact hsame e he e' he' heq
      · rw [List.mem_singleton.mp he'] at heq
        exact absurd (heq ▸ List.mem_map_of_mem he) hnew
    · refine absurd ?_ hnot
      rw [List.map_append]
      exact List.mem_append_left _ (List.mem_map_of_mem he)
    · apply horder _
      rw [List.map_append]
      exact List.prefix_append _ _
  | changed seq f hkey hopen hmoves hidle =>
    have hseqs : (p.modify seq f).chunks.map (·.seq) = p.chunks.map (·.seq) :=
      Keyed.map_update hkey
    refine ⟨fun e he e' he' heq => ?_, fun e he hnot => ?_, ?_, fun hok => by cases hok⟩
    · rcases Keyed.mem_update he' with he' | ⟨e₀, he₀, rfl⟩
      · exact hsame e he e' he' heq
      · rw [hkey] at heq
        rw [Keyed.eq_of_key_eq h.nodup he (Keyed.mem_of_find he₀).1 heq.symm]
        exact hmoves e₀ he₀
    · rw [hseqs] at hnot
      exact absurd (List.mem_map_of_mem he) hnot
    · rw [hseqs]
      exact horder _ (List.prefix_refl _)
  | dropped seq hc _ hq =>
    have hmem : ∀ e, e ∈ q.chunks ↔ e ∈ p.chunks ∧ e.seq ≠ seq := by
      rw [hq]
      exact fun e => Keyed.mem_erase h.nodup
    refine ⟨fun e he e' he' heq => ?_, fun e he hnot => ?_, ?_, fun hok => by cases hok⟩
    · exact hsame e he e' ((hmem e').mp he').1 heq
    · right
      refine ⟨?_, rfl⟩
      by_cases hseq : e.seq = seq
      · rw [hseq]
        exact hc
      · exact absurd (List.mem_map_of_mem ((hmem e).mpr ⟨he, hseq⟩)) hnot
    · have hseqs : q.chunks.map (·.seq) = (p.chunks.map (·.seq)).filter (· ≠ seq) := by
        rw [hq, Keyed.map_erase, h.nodup.erase_eq_filter]
        apply List.filter_congr
        intro a _
        by_cases ha : a = seq <;> simp [ha]
      have hkept : (p.chunks.map (·.seq)).filter (· ∈ q.chunks.map (·.seq)) =
          q.chunks.map (·.seq) := by
        rw [hseqs]
        apply List.filter_congr
        intro a ha
        simp only [List.mem_filter, ha, true_and, decide_eq_true_eq]
      exact ⟨[], (List.append_nil _).trans hkept⟩

/-- In every state reached: the invariant holds, and whatever is called next, states only move on,
entries leave only through `clear` and an accepted `discard`, those that stay keep their order, and
a refusal changes nothing. -/
theorem collection_invariant (calls : List Call) (c : Call) :
    let p : CollectionPolicy capacity := exec step {} calls
    Inv p ∧ Evolves c (p.call c).1 p (p.call c).2 := by
  have h : Inv (exec step ({} : CollectionPolicy capacity) calls) := Inv.start.run calls
  exact ⟨h, Evolves.of_effect h (effect _ c)⟩

end CollectionPolicy

end EspCars.SdLogger
