import EspCars.Lib.Run
import EspCars.Lib.Struct

/-!
# The ring of SPI commands

`SdSpiTraceRing` of `components/sd_logger/sd_diagnostics.h`. An append takes its number and stores
its fields one by one, the number last; a read loads the number first and then the fields. Both go
on in single steps, in any order, with any number of appends under way. `dropped_`, which no read
looks at, is left out.

The number is no proof that the fields belong to it: the slot keeps it while the fields are stored
again. It is one if no append stores into the slot between (`Apart`).
-/

namespace EspCars.SdLogger

open EspCars.Lib

/-- `SD_SPI_TRACE_ENTRIES`. -/
def sdSpiTraceEntries : Nat := 512

/-- `SdSpiTraceEntry` -/
structure SdSpiTraceEntry where
  seq : UInt32 := 0
  us : Int64 := 0
  arg : UInt32 := 0
  blklen : UInt32 := 0
  datalen : UInt32 := 0
  flags : UInt32 := 0
  responseRaw : UInt32 := 0
  response : UInt32 := 0
  err : Int32 := 0
  opcode : Int32 := 0
  task : Fin 9 → UInt8 := fun _ => 0

/-- `SdSpiTraceSummary` -/
structure SdSpiTraceSummary where
  commands : UInt32 := 0
  available : UInt32 := 0
  missing : UInt32 := 0
  worstErr : Int32 := 0

namespace TraceRing

/-- The atomics of a slot beside its number. -/
inductive Field
  | usLow | usHigh | arg | blklen | datalen | flags | responseRaw | response | err | opcode
  | taskLow | taskHigh
  deriving DecidableEq

/-- In the order in which `append` stores and `read` loads them. -/
def Field.all : List Field :=
  [.usLow, .usHigh, .arg, .blklen, .datalen, .flags, .responseRaw, .response, .err, .opcode,
    .taskLow, .taskHigh]

theorem Field.mem_all (f : Field) : f ∈ all := by
  cases f <;> simp [all]

/-- What `append` stores in a field. -/
def word (e : SdSpiTraceEntry) : Field → UInt32
  | .usLow => e.us.toUInt64.toUInt32
  | .usHigh => (e.us.toUInt64 >>> 32).toUInt32
  | .arg => e.arg
  | .blklen => e.blklen
  | .datalen => e.datalen
  | .flags => e.flags
  | .responseRaw => e.responseRaw
  | .response => e.response
  | .err => e.err.toUInt32
  | .opcode => e.opcode.toUInt32
  | .taskLow => UInt32.ofNat (loadLe 4 [e.task 0, e.task 1, e.task 2, e.task 3])
  | .taskHigh => UInt32.ofNat (loadLe 4 [e.task 4, e.task 5, e.task 6, e.task 7])

/-- What `read` makes of the words it has loaded. -/
def entry (seq : UInt32) (got : Field → UInt32) : SdSpiTraceEntry where
  seq := seq
  us := ((got .usLow).toUInt64 ||| (got .usHigh).toUInt64 <<< 32).toInt64
  arg := got .arg
  blklen := got .blklen
  datalen := got .datalen
  flags := got .flags
  responseRaw := got .responseRaw
  response := got .response
  err := (got .err).toInt32
  opcode := (got .opcode).toInt32
  task i := (le 4 (got .taskLow).toNat ++ le 4 (got .taskHigh).toNat).getD i 0

/-- The entry under its number; of the task's name eight bytes are kept. -/
def numbered (e : SdSpiTraceEntry) (seq : UInt32) : SdSpiTraceEntry :=
  { e with seq := seq, task := fun i => if i = 8 then 0 else e.task i }

/-- A place of the ring, one word for each field. -/
structure TraceSlot where
  seq : UInt32 := 0
  word : Field → UInt32 := fun _ => 0

/-! ## Steps -/

/-- An append that has its number; `rest` is still to be stored, and then the number. -/
structure Append where
  seq : UInt32
  entry : SdSpiTraceEntry
  rest : List Field := Field.all

/-- The loop of `summarize`. -/
structure Loop where
  start : UInt32
  stop : UInt32
  summary : SdSpiTraceSummary

/-- A read of `seq`. Once it has loaded a number, `seen` is that number and the entry that had been
given `seq`; `rest` is still to be loaded. -/
structure Reader where
  seq : UInt32
  loop : Option Loop := none
  seen : Option (UInt32 × Option SdSpiTraceEntry) := none
  rest : List Field := Field.all
  got : Field → UInt32 := fun _ => 0

/-- What a reader returned. -/
inductive Outcome
  | read (seq : UInt32) (given : Option SdSpiTraceEntry) (result : SdSpiTraceEntry)
  | summary (start stop : UInt32) (result : SdSpiTraceSummary)

/-- The ring, the appends under way, the reader, the entries that were given a number since the last
`clear`, and what the reader has returned. -/
structure State where
  entries : Fin sdSpiTraceEntries → TraceSlot := fun _ => {}
  writeIndex : UInt32 := 0
  appends : List Append := []
  reader : Option Reader := none
  given : UInt32 → Option SdSpiTraceEntry := fun _ => none
  outcomes : List Outcome := []

/-- What the bus and the reader do. -/
inductive Event
  | take (e : SdSpiTraceEntry)
  | store (i : Nat)
  | clear
  | read (seq : UInt32)
  | summarize (start stop : UInt32)
  | load

/-- The place of an entry. -/
def slotOf (seq : UInt32) : Fin sdSpiTraceEntries :=
  ⟨seq.toNat % sdSpiTraceEntries, Nat.mod_lt _ (by decide)⟩

/-- `fetch_add` of the write index. -/
def take (s : State) (e : SdSpiTraceEntry) : State :=
  { s with
    writeIndex := s.writeIndex + 1
    appends := s.appends ++ [{ seq := s.writeIndex, entry := e }]
    given := Function.update s.given s.writeIndex (some e) }

def State.setWord (s : State) (i : Fin sdSpiTraceEntries) (f : Field) (v : UInt32) : State :=
  { s with
    entries := Function.update s.entries i
      { s.entries i with word := Function.update (s.entries i).word f v } }

def State.setSeq (s : State) (i : Fin sdSpiTraceEntries) (v : UInt32) : State :=
  { s with entries := Function.update s.entries i { s.entries i with seq := v } }

/-- The next store of the append `i`. -/
def store (s : State) (i : Nat) : State :=
  match s.appends[i]? with
  | none => s
  | some a =>
    match a.rest with
    | f :: rest =>
      { s.setWord (slotOf a.seq) f (word a.entry f) with
        appends := s.appends.set i { a with rest := rest } }
    | [] => { s.setSeq (slotOf a.seq) a.seq with appends := s.appends.eraseIdx i }

/-- `clear` -/
def clear (s : State) : State := { s with writeIndex := 0, given := fun _ => none }

/-- One round of the loop of `summarize`. -/
def note (sum : SdSpiTraceSummary) (seq : UInt32) (e : SdSpiTraceEntry) : SdSpiTraceSummary :=
  if e.seq ≠ seq then { sum with missing := sum.missing + 1 }
  else
    let sum := { sum with available := sum.available + 1 }
    if e.err ≠ 0 then
      let current := if sum.worstErr < 0 then -sum.worstErr.toInt64 else sum.worstErr.toInt64
      let candidate := if e.err < 0 then -e.err.toInt64 else e.err.toInt64
      if sum.worstErr = 0 ∨ candidate > current then { sum with worstErr := e.err } else sum
    else sum

/-- A read returns: to its caller, or to the loop, which goes on with the next number. -/
def finish (s : State) (r : Reader) (given : Option SdSpiTraceEntry) (e : SdSpiTraceEntry) : State :=
  let s := { s with reader := none, outcomes := s.outcomes ++ [.read r.seq given e] }
  match r.loop with
  | none => s
  | some l =>
    let sum := note l.summary r.seq e
    if r.seq + 1 = l.stop then { s with outcomes := s.outcomes ++ [.summary l.start l.stop sum] }
    else { s with reader := some { seq := r.seq + 1, loop := some { l with summary := sum } } }

/-- The next load of the reader. -/
def load (s : State) : State :=
  match s.reader with
  | none => s
  | some r =>
    let slot := s.entries (slotOf r.seq)
    match r.seen with
    | none => { s with reader := some { r with seen := some (slot.seq, s.given r.seq) } }
    | some (seq, given) =>
      match r.rest with
      | [] => s
      | f :: rest =>
        let got := Function.update r.got f (slot.word f)
        if rest = [] then finish s r given (entry seq got)
        else { s with reader := some { r with rest := rest, got := got } }

/-- `summarize` -/
def summarize (s : State) (start stop : UInt32) : State :=
  let sum : SdSpiTraceSummary := { commands := stop - start }
  if start = stop then { s with outcomes := s.outcomes ++ [.summary start stop sum] }
  else { s with reader := some { seq := start, loop := some ⟨start, stop, sum⟩ } }

/-- The reader has one call at a time. -/
def step (s : State) : Event → State
  | .take e => take s e
  | .store i => store s i
  | .clear => clear s
  | .read seq => if s.reader.isSome then s else { s with reader := some { seq := seq } }
  | .summarize start stop => if s.reader.isSome then s else summarize s start stop
  | .load => load s

/-! ## Appends and reads apart -/

/-- The read has found its own number. -/
def Reader.Own (r : Reader) : Prop := ∃ given, r.seen = some (r.seq, given)

/-- A number is given out while no append is under way in its slot; a read finds its number there
while none is but one of that number with only the number left to store; and no append stores into
a field that such a read has still to load. -/
def Apart (s : State) : Event → Prop
  | .take _ => ∀ a ∈ s.appends, slotOf a.seq ≠ slotOf s.writeIndex
  | .store i => ∀ a r f, s.appends[i]? = some a → s.reader = some r → r.Own →
      slotOf a.seq = slotOf r.seq → a.rest.head? = some f → f ∉ r.rest
  | .load => ∀ r, s.reader = some r → r.seen = none → (s.entries (slotOf r.seq)).seq = r.seq →
      ∀ a ∈ s.appends, slotOf a.seq = slotOf r.seq → a.seq = r.seq ∧ a.rest = []
  | _ => True

/-- The slots that an append is under way in. -/
def State.busy (s : State) : List (Fin sdSpiTraceEntries) := s.appends.map fun a => slotOf a.seq

/-- What the words of the ring have to do with the entries given to it. -/
structure Sound (s : State) : Prop where
  alone : s.busy.Nodup
  stored : ∀ a ∈ s.appends, ∀ f ∉ a.rest, (s.entries (slotOf a.seq)).word f = word a.entry f
  given : ∀ a ∈ s.appends, ∀ e, s.given a.seq = some e → e = a.entry
  whole : ∀ n e, s.given n = some e → (s.entries (slotOf n)).seq = n → slotOf n ∉ s.busy →
    ∀ f, (s.entries (slotOf n)).word f = word e f
  fresh : ∀ r, s.reader = some r → r.seen = none → r.rest = Field.all
  reading : ∀ r e, s.reader = some r → r.seen = some (r.seq, some e) →
    (∀ f ∉ r.rest, r.got f = word e f) ∧ ∀ f ∈ r.rest, (s.entries (slotOf r.seq)).word f = word e f
  returned : ∀ n e result, .read n (some e) result ∈ s.outcomes → result.seq = n →
    result = numbered e n

theorem halves (u : UInt64) :
    u.toUInt32.toUInt64 ||| (u >>> 32).toUInt32.toUInt64 <<< 32 = u := by
  have hu := u.toNat_lt
  rw [← UInt64.toNat_inj, UInt64.or_comm, UInt64.toNat_or, UInt64.toNat_shiftLeft]
  simp only [UInt32.toNat_toUInt64, UInt64.toNat_toUInt32, UInt64.toNat_shiftRight,
    UInt64.reduceToNat, Nat.reduceMod, Nat.shiftRight_eq_div_pow]
  have hhigh : u.toNat / 2 ^ 32 % 2 ^ 32 = u.toNat / 2 ^ 32 := by omega
  have hfits : (u.toNat / 2 ^ 32) <<< 32 % 2 ^ 64 = (u.toNat / 2 ^ 32) <<< 32 := by
    rw [Nat.shiftLeft_eq]
    omega
  rw [hhigh, hfits, ← Nat.shiftLeft_add_eq_or_of_lt (Nat.mod_lt _ (by decide)), Nat.shiftLeft_eq]
  omega

theorem entry_word {e : SdSpiTraceEntry} {got : Field → UInt32} (h : ∀ f, got f = word e f)
    (seq : UInt32) : entry seq got = numbered e seq := by
  have hlow : (word e .taskLow).toNat = loadLe 4 [e.task 0, e.task 1, e.task 2, e.task 3] := by
    rw [word, UInt32.toNat_ofNat']
    exact Nat.mod_eq_of_lt (loadLe_lt 4 _)
  have hhigh : (word e .taskHigh).toNat = loadLe 4 [e.task 4, e.task 5, e.task 6, e.task 7] := by
    rw [word, UInt32.toNat_ofNat']
    exact Nat.mod_eq_of_lt (loadLe_lt 4 _)
  have hus : ((word e .usLow).toUInt64 ||| (word e .usHigh).toUInt64 <<< 32).toInt64 = e.us := by
    rw [word, word, halves, Int64.toInt64_toUInt64]
  have htask (i : Fin 9) : (le 4 (word e .taskLow).toNat ++ le 4 (word e .taskHigh).toNat).getD i 0 =
      if i = 8 then 0 else e.task i := by
    rw [hlow, hhigh]
    have h₁ := le_loadLe [e.task 0, e.task 1, e.task 2, e.task 3]
    have h₂ := le_loadLe [e.task 4, e.task 5, e.task 6, e.task 7]
    simp only [List.length_cons, List.length_nil, Nat.zero_add, Nat.reduceAdd] at h₁ h₂
    rw [h₁, h₂]
    fin_cases i <;> rfl
  simp only [entry, numbered, h, hus, SdSpiTraceEntry.mk.injEq, true_and]
  refine ⟨rfl, rfl, rfl, rfl, rfl, rfl, ?_, ?_, funext htask⟩
  · exact Int32.toInt32_toUInt32 e.err
  · exact Int32.toInt32_toUInt32 e.opcode

@[simp] theorem word_setWord (s : State) (i j : Fin sdSpiTraceEntries) (f g : Field) (v : UInt32) :
    ((s.setWord i f v).entries j).word g =
      if j = i ∧ g = f then v else (s.entries j).word g := by
  unfold State.setWord
  by_cases hj : j = i
  · subst hj
    by_cases hg : g = f <;> simp [hg]
  · simp [hj]

@[simp] theorem seq_setWord (s : State) (i j : Fin sdSpiTraceEntries) (f : Field) (v : UInt32) :
    ((s.setWord i f v).entries j).seq = (s.entries j).seq := by
  unfold State.setWord
  by_cases hj : j = i
  · subst hj
    simp
  · simp [hj]

@[simp] theorem word_setSeq (s : State) (i j : Fin sdSpiTraceEntries) (v : UInt32) :
    ((s.setSeq i v).entries j).word = (s.entries j).word := by
  unfold State.setSeq
  by_cases hj : j = i
  · subst hj
    simp
  · simp [hj]

@[simp] theorem seq_setSeq (s : State) (i j : Fin sdSpiTraceEntries) (v : UInt32) :
    ((s.setSeq i v).entries j).seq = if j = i then v else (s.entries j).seq := by
  unfold State.setSeq
  by_cases hj : j = i
  · subst hj
    simp
  · simp [hj]

variable {s : State}

theorem busy_set {i : Nat} {a b : Append} (h : s.appends[i]? = some a)
    (hseq : b.seq = a.seq) : (s.appends.set i b).map (fun a => slotOf a.seq) = s.busy := by
  obtain ⟨hi, hget⟩ := List.getElem?_eq_some_iff.mp h
  have hself : (s.appends.map fun a => slotOf a.seq).set i (slotOf a.seq) = s.busy := by
    rw [← hget, ← List.getElem_map fun a : Append => slotOf a.seq]
    · exact List.set_getElem_self _
    · rwa [List.length_map]
  rw [List.map_set, hseq, hself]

theorem mem_busy {a : Append} (h : a ∈ s.appends) : slotOf a.seq ∈ s.busy :=
  List.mem_map_of_mem h

theorem mem_or_mem_eraseIdx {α : Type} {l : List α} {i : Nat} {x y : α} (hx : l[i]? = some x)
    (hy : y ∈ l) : y = x ∨ y ∈ l.eraseIdx i := by
  obtain ⟨j, hj⟩ := List.mem_iff_getElem?.mp hy
  by_cases h : j = i
  · left
    rw [h, hx] at hj
    exact (Option.some.inj hj).symm
  · exact .inr (List.mem_eraseIdx_iff_getElem?.mpr ⟨j, h, hj⟩)

namespace Sound

theorem init : Sound {} := by
  constructor
  · exact List.nodup_nil
  · exact fun a ha => absurd ha List.not_mem_nil
  · exact fun a ha => absurd ha List.not_mem_nil
  · exact fun n e h => absurd h (by simp)
  · exact fun r h => absurd h (by simp)
  · exact fun r e h => absurd h (by simp)
  · exact fun n e result h => absurd h List.not_mem_nil

variable {s : State}

theorem take (h : Sound s) {e : SdSpiTraceEntry} (hapart : Apart s (.take e)) :
    Sound (take s e) := by
  have hfree : slotOf s.writeIndex ∉ s.busy := by
    intro hmem
    obtain ⟨a, ha, hslot⟩ := List.mem_map.mp hmem
    exact hapart a ha hslot
  have hbusy : (TraceRing.take s e).busy = s.busy ++ [slotOf s.writeIndex] := List.map_append
  constructor
  · rw [hbusy, ← List.concat_eq_append]
    exact h.alone.concat hfree
  · intro a ha f hf
    rcases List.mem_append.mp ha with ha | ha
    · exact h.stored a ha f hf
    · rw [List.mem_singleton] at ha
      subst ha
      exact absurd (Field.mem_all f) hf
  · intro a ha e' hgiven
    rcases List.mem_append.mp ha with ha | ha
    · have hne : a.seq ≠ s.writeIndex := fun heq => hfree (heq ▸ mem_busy ha)
      simp only [TraceRing.take, Function.update_of_ne hne] at hgiven
      exact h.given a ha e' hgiven
    · rw [List.mem_singleton] at ha
      subst ha
      simp only [TraceRing.take, Function.update_self] at hgiven
      exact (Option.some.inj hgiven).symm
  · intro n e' hgiven hseq hidle
    rw [hbusy, List.mem_append, List.mem_singleton, not_or] at hidle
    have hne : n ≠ s.writeIndex := fun heq => hidle.2 (heq ▸ rfl)
    simp only [TraceRing.take, Function.update_of_ne hne] at hgiven
    exact h.whole n e' hgiven hseq hidle.1
  · exact h.fresh
  · exact h.reading
  · exact h.returned

theorem storeField (h : Sound s) {i : Nat} {a : Append} {f : Field} {rest : List Field}
    (ha : s.appends[i]? = some a) (hrest : a.rest = f :: rest) (hapart : Apart s (.store i)) :
    Sound { s.setWord (slotOf a.seq) f (word a.entry f) with
      appends := s.appends.set i { a with rest := rest } } := by
  have hmem := List.mem_of_getElem? ha
  have hbusy := busy_set (b := { a with rest := rest }) ha rfl
  constructor
  · unfold State.busy
    rw [hbusy]
    exact h.alone
  · intro b hb f' hf'
    simp only [word_setWord]
    split_ifs with hsame
    · obtain ⟨hslot, rfl⟩ := hsame
      rcases List.mem_or_eq_of_mem_set hb with hb | rfl
      · rw [List.inj_on_of_nodup_map h.alone hb hmem hslot]
      · rfl
    · rcases List.mem_or_eq_of_mem_set hb with hb | rfl
      · exact h.stored b hb f' hf'
      · refine h.stored a hmem f' ?_
        rw [hrest, List.mem_cons, not_or]
        exact ⟨fun heq => hsame ⟨rfl, heq⟩, hf'⟩
  · intro b hb e' hgiven
    rcases List.mem_or_eq_of_mem_set hb with hb | rfl
    · exact h.given b hb e' hgiven
    · exact h.given a hmem e' hgiven
  · intro n e' hgiven hseq hidle f'
    unfold State.busy at hidle
    rw [hbusy] at hidle
    have hslot : slotOf n ≠ slotOf a.seq := fun heq => hidle (heq ▸ mem_busy hmem)
    simp only [seq_setWord, word_setWord, hslot, false_and, if_false] at hseq ⊢
    exact h.whole n e' hgiven hseq hidle f'
  · exact h.fresh
  · intro r e' hr hseen
    obtain ⟨hgot, hleft⟩ := h.reading r e' hr hseen
    refine ⟨hgot, fun f' hf' => ?_⟩
    simp only [word_setWord]
    split_ifs with hsame
    · -- the read has no such load left
      obtain ⟨hslot, rfl⟩ := hsame
      have hdone := hapart a r f' ha hr ⟨_, hseen⟩ hslot.symm (by rw [hrest]; rfl)
      exact absurd hf' hdone
    · exact hleft f' hf'
  · exact h.returned

theorem storeSeq (h : Sound s) {i : Nat} {a : Append} (ha : s.appends[i]? = some a)
    (hrest : a.rest = []) :
    Sound { s.setSeq (slotOf a.seq) a.seq with appends := s.appends.eraseIdx i } := by
  have hmem := List.mem_of_getElem? ha
  have hsub {b : Append} (hb : b ∈ s.appends.eraseIdx i) : b ∈ s.appends :=
    List.mem_of_mem_eraseIdx hb
  constructor
  · exact h.alone.sublist ((List.eraseIdx_sublist _ _).map _)
  · intro b hb f hf
    simp only [word_setSeq]
    exact h.stored b (hsub hb) f hf
  · exact fun b hb e' hgiven => h.given b (hsub hb) e' hgiven
  · intro n e' hgiven hseq hidle f
    simp only [seq_setSeq, word_setSeq] at hseq ⊢
    by_cases hslot : slotOf n = slotOf a.seq
    · rw [if_pos hslot] at hseq
      subst hseq
      rw [h.stored a hmem f (by simp [hrest]), h.given a hmem e' hgiven]
    · rw [if_neg hslot] at hseq
      refine h.whole n e' hgiven hseq (fun hbusy => ?_) f
      obtain ⟨b, hb, hb'⟩ := List.mem_map.mp hbusy
      rcases mem_or_mem_eraseIdx ha hb with rfl | hb
      · exact hslot hb'.symm
      · exact hidle (List.mem_map.mpr ⟨b, hb, hb'⟩)
  · exact h.fresh
  · intro r e' hr hseen
    obtain ⟨hgot, hleft⟩ := h.reading r e' hr hseen
    refine ⟨hgot, fun f hf => ?_⟩
    simp only [word_setSeq]
    exact hleft f hf
  · exact h.returned

theorem store (h : Sound s) {i : Nat} (hapart : Apart s (.store i)) :
    Sound (TraceRing.store s i) := by
  unfold TraceRing.store
  split
  · exact h
  · rename_i a ha
    split
    · rename_i f rest hrest
      exact h.storeField ha hrest hapart
    · rename_i hrest
      exact h.storeSeq ha hrest

theorem clear (h : Sound s) : Sound (TraceRing.clear s) := by
  constructor
  · exact h.alone
  · exact h.stored
  · exact fun a _ e hgiven => absurd hgiven (by simp [TraceRing.clear])
  · exact fun n e hgiven => absurd hgiven (by simp [TraceRing.clear])
  · exact h.fresh
  · exact h.reading
  · exact h.returned

/-- Another reader, which has loaded nothing yet. -/
theorem ofReader (h : Sound s) {r : Option Reader} {outcomes : List Outcome}
    (hr : ∀ r', r = some r' → r'.seen = none ∧ r'.rest = Field.all)
    (hreturned : ∀ n e result, .read n (some e) result ∈ outcomes → result.seq = n →
      result = numbered e n) :
    Sound { s with reader := r, outcomes := outcomes } := by
  refine ⟨h.alone, h.stored, h.given, h.whole, fun r' hsome _ => (hr r' hsome).2,
    fun r' e hsome hseen => ?_, hreturned⟩
  rw [(hr r' hsome).1] at hseen
  cases hseen

theorem finish (h : Sound s) {r : Reader} {given : Option SdSpiTraceEntry} {result : SdSpiTraceEntry}
    (hresult : ∀ e, given = some e → result.seq = r.seq → result = numbered e r.seq) :
    Sound (TraceRing.finish s r given result) := by
  have hreturned : ∀ n e result', .read n (some e) result' ∈ s.outcomes ++ [.read r.seq given result] →
      result'.seq = n → result' = numbered e n := by
    intro n e result' hmem hseq
    rcases List.mem_append.mp hmem with hmem | hmem
    · exact h.returned n e result' hmem hseq
    · rw [List.mem_singleton, Outcome.read.injEq] at hmem
      obtain ⟨rfl, hgiven, rfl⟩ := hmem
      exact hresult e hgiven.symm hseq
  unfold TraceRing.finish
  split
  · exact h.ofReader (fun r' h' => nomatch h') hreturned
  · split_ifs
    · refine h.ofReader (fun r' h' => nomatch h') fun n e result' hmem => ?_
      rcases List.mem_append.mp hmem with hmem | hmem
      · exact hreturned n e result' hmem
      · rw [List.mem_singleton] at hmem
        cases hmem
    · refine h.ofReader (fun r' h' => ?_) hreturned
      rw [← Option.some.inj h']
      exact ⟨rfl, rfl⟩

/-- The number of the slot is loaded. -/
theorem loadSeq (h : Sound s) {r : Reader} (hr : s.reader = some r) (hseen : r.seen = none)
    (hapart : Apart s .load) :
    Sound { s with
      reader := some { r with seen := some ((s.entries (slotOf r.seq)).seq, s.given r.seq) } } := by
  have hall := h.fresh r hr hseen
  refine ⟨h.alone, h.stored, h.given, h.whole, fun r' hr' hseen' => ?_,
    fun r' e hr' hseen' => ?_, h.returned⟩
  · rw [← Option.some.inj hr'] at hseen'
    cases hseen'
  · rw [← Option.some.inj hr'] at hseen' ⊢
    obtain ⟨hseq, hgiven⟩ := Prod.mk.inj (Option.some.inj hseen')
    refine ⟨fun f hf => absurd (hall ▸ Field.mem_all f) hf, fun f _ => ?_⟩
    by_cases hbusy : slotOf r.seq ∈ s.busy
    · obtain ⟨a, ha, hslot⟩ := List.mem_map.mp hbusy
      obtain ⟨hsame, hdone⟩ := hapart r hr hseen hseq a ha hslot
      rw [← hsame] at hgiven ⊢
      rw [h.given a ha e hgiven]
      exact h.stored a ha f (by simp [hdone])
    · exact h.whole r.seq e hgiven hseq hbusy f

theorem load (h : Sound s) (hapart : Apart s .load) : Sound (TraceRing.load s) := by
  unfold TraceRing.load
  split
  · exact h
  · rename_i r hr
    split
    · rename_i hseen
      exact h.loadSeq hr hseen hapart
    · rename_i seq given hseen
      split
      · exact h
      · rename_i f rest hrest
        have hgot {e : SdSpiTraceEntry} (hown : r.seen = some (r.seq, some e)) {g : Field}
            (hg : g ∉ rest) :
            Function.update r.got f ((s.entries (slotOf r.seq)).word f) g = word e g := by
          obtain ⟨hgot, hleft⟩ := h.reading r e hr hown
          by_cases hgf : g = f
          · subst hgf
            rw [Function.update_self]
            exact hleft g (by simp [hrest])
          · rw [Function.update_of_ne hgf]
            exact hgot g (by simp [hrest, hgf, hg])
        split_ifs with hlast
        · refine h.finish fun e hgiven hseq => ?_
          have hown : r.seen = some (r.seq, some e) := by
            rw [hseen, hgiven, ← hseq]
            rfl
          have hseq' : seq = r.seq := hseq
          rw [hseq']
          exact entry_word (fun g => hgot hown (by simp [hlast])) r.seq
        · refine ⟨h.alone, h.stored, h.given, h.whole, fun r' hr' hseen' => ?_,
            fun r' e hr' hseen' => ?_, h.returned⟩
          · rw [← Option.some.inj hr', hseen] at hseen'
            cases hseen'
          · rw [← Option.some.inj hr'] at hseen' ⊢
            refine ⟨fun g hg => hgot hseen' hg, fun g hg => ?_⟩
            exact (h.reading r e hr hseen').2 g (by simp [hrest, hg])

theorem summarize (h : Sound s) (start stop : UInt32) :
    Sound (TraceRing.summarize s start stop) := by
  unfold TraceRing.summarize
  split_ifs
  · refine ⟨h.alone, h.stored, h.given, h.whole, h.fresh, h.reading, fun n e result hmem => ?_⟩
    rcases List.mem_append.mp hmem with hmem | hmem
    · exact h.returned n e result hmem
    · rw [List.mem_singleton] at hmem
      cases hmem
  · refine h.ofReader (fun r hr => ?_) h.returned
    rw [← Option.some.inj hr]
    exact ⟨rfl, rfl⟩

theorem step (h : Sound s) {ev : Event} (hapart : Apart s ev) : Sound (TraceRing.step s ev) := by
  cases ev with
  | take e => exact h.take hapart
  | store i => exact h.store hapart
  | clear => exact h.clear
  | read seq =>
    show Sound (if s.reader.isSome then s else { s with reader := some { seq := seq } })
    split_ifs
    · exact h
    · refine h.ofReader (fun r hr => ?_) h.returned
      rw [← Option.some.inj hr]
      exact ⟨rfl, rfl⟩
  | summarize start stop =>
    show Sound (if s.reader.isSome then s else TraceRing.summarize s start stop)
    split_ifs
    · exact h
    · exact h.summarize start stop
  | load => exact h.load hapart

end Sound

/-! ## Summaries -/

/-- The loads that the call of the reader has still before it. -/
def Reader.left (r : Reader) : Nat :=
  (if r.seen.isNone then 1 else 0) + r.rest.length +
    match r.loop with
    | none => 0
    | some l => 13 * (l.stop - (r.seq + 1)).toNat

/-- The rounds so far have counted every number once. -/
structure Loop.Counts (l : Loop) (seq : UInt32) : Prop where
  sum : l.summary.available + l.summary.missing = seq - l.start
  more : seq ≠ l.stop

/-- The sums of the reader so far. -/
structure Counting (s : State) : Prop where
  reader : ∀ r, s.reader = some r → r.rest ≠ [] ∧ ∀ l, r.loop = some l → l.Counts r.seq
  summaries : ∀ start stop result, .summary start stop result ∈ s.outcomes →
    result.available + result.missing = stop - start

theorem counts_note (sum : SdSpiTraceSummary) (seq : UInt32) (e : SdSpiTraceEntry) :
    (note sum seq e).available + (note sum seq e).missing = sum.available + sum.missing + 1 := by
  unfold note
  split_ifs <;> grind

namespace Counting

theorem init : Counting {} := ⟨fun r h => absurd h (by simp), fun _ _ _ h => absurd h List.not_mem_nil⟩

variable {s : State}

theorem finish (h : Counting s) {r : Reader} (hr : s.reader = some r)
    (given : Option SdSpiTraceEntry) (result : SdSpiTraceEntry) :
    Counting (TraceRing.finish s r given result) := by
  have hsummaries : ∀ start stop sum, .summary start stop sum ∈ s.outcomes ++ [.read r.seq given result] →
      sum.available + sum.missing = stop - start := by
    intro start stop sum hmem
    rcases List.mem_append.mp hmem with hmem | hmem
    · exact h.summaries start stop sum hmem
    · rw [List.mem_singleton] at hmem
      cases hmem
  unfold TraceRing.finish
  split
  · exact ⟨fun r h => (nomatch h), hsummaries⟩
  · rename_i l hl
    obtain ⟨hsum, -⟩ := (h.reader r hr).2 l hl
    have hnote : (note l.summary r.seq result).available + (note l.summary r.seq result).missing =
        r.seq + 1 - l.start := by
      rw [counts_note, hsum]
      grind
    split_ifs with hstop
    · refine ⟨fun r h => (nomatch h), fun start stop sum hmem => ?_⟩
      rcases List.mem_append.mp hmem with hmem | hmem
      · exact hsummaries start stop sum hmem
      · rw [List.mem_singleton, Outcome.summary.injEq] at hmem
        obtain ⟨rfl, rfl, rfl⟩ := hmem
        rw [hnote, hstop]
    · refine ⟨fun r' hr' => ?_, hsummaries⟩
      rw [← Option.some.inj hr']
      refine ⟨by simp [Field.all], fun l' hl' => ?_⟩
      rw [← Option.some.inj hl']
      exact ⟨hnote, hstop⟩

theorem load (h : Counting s) : Counting (TraceRing.load s) := by
  unfold TraceRing.load
  split
  · exact h
  · rename_i r hr
    split
    · refine ⟨fun r' hr' => ?_, h.summaries⟩
      rw [← Option.some.inj hr']
      exact h.reader r hr
    · split
      · exact h
      · split_ifs with hlast
        · exact h.finish hr _ _
        · refine ⟨fun r' hr' => ?_, h.summaries⟩
          rw [← Option.some.inj hr']
          exact ⟨hlast, (h.reader r hr).2⟩

theorem step (h : Counting s) (ev : Event) : Counting (TraceRing.step s ev) := by
  cases ev with
  | take e => exact { h with }
  | store i =>
    show Counting (TraceRing.store s i)
    unfold TraceRing.store
    split
    · exact h
    · split <;> exact { h with }
  | clear => exact { h with }
  | read seq =>
    show Counting (if s.reader.isSome then s else { s with reader := some { seq := seq } })
    split_ifs
    · exact h
    · refine ⟨fun r hr => ?_, h.summaries⟩
      rw [← Option.some.inj hr]
      exact ⟨by simp [Field.all], fun l hl => nomatch hl⟩
  | summarize start stop =>
    show Counting (if s.reader.isSome then s else TraceRing.summarize s start stop)
    unfold TraceRing.summarize
    split_ifs with _ heq
    · exact h
    · refine ⟨h.reader, fun start' stop' sum hmem => ?_⟩
      rcases List.mem_append.mp hmem with hmem | hmem
      · exact h.summaries start' stop' sum hmem
      · rw [List.mem_singleton, Outcome.summary.injEq] at hmem
        obtain ⟨rfl, rfl, rfl⟩ := hmem
        rw [heq]
        simp
    · refine ⟨fun r hr => ?_, h.summaries⟩
      rw [← Option.some.inj hr]
      refine ⟨by simp [Field.all], fun l hl => ?_⟩
      rw [← Option.some.inj hl]
      exact ⟨by simp, heq⟩
  | load => exact h.load

end Counting

/-! ## The end of a summary -/

def Event.isLoad : Event → Bool
  | .load => true
  | _ => false

/-- The summary has been returned, or at most `k` loads are left to it. -/
def Toward (start stop : UInt32) (k : Nat) (s : State) : Prop :=
  (∃ sum, .summary start stop sum ∈ s.outcomes) ∨
    ∃ r l, s.reader = some r ∧ r.loop = some l ∧ l.start = start ∧ l.stop = stop ∧ r.left ≤ k

theorem toNat_sub_succ {a b : UInt32} (h : b ≠ a) :
    (a - b).toNat = (a - (b + 1)).toNat + 1 := by
  have hsub : a - (b + 1) = a - b - 1 := by grind
  have hne : a - b ≠ 0 := fun hzero => h (by grind)
  have hpos : 1 ≤ a - b := by
    rw [UInt32.le_iff_toNat_le]
    exact Nat.pos_of_ne_zero fun hzero => hne (UInt32.toNat_inj.mp hzero)
  rw [UInt32.le_iff_toNat_le] at hpos
  rw [hsub, UInt32.toNat_sub_of_le _ _ (UInt32.le_iff_toNat_le.mpr hpos)]
  exact (Nat.sub_add_cancel hpos).symm

theorem mem_finish {o : Outcome} (r : Reader) (given : Option SdSpiTraceEntry)
    (result : SdSpiTraceEntry) (h : o ∈ s.outcomes) : o ∈ (finish s r given result).outcomes := by
  unfold finish
  split
  · exact List.mem_append_left _ h
  · split_ifs
    · exact List.mem_append_left _ (List.mem_append_left _ h)
    · exact List.mem_append_left _ h

theorem mem_step {o : Outcome} (ev : Event) (h : o ∈ s.outcomes) : o ∈ (step s ev).outcomes := by
  cases ev with
  | take e => exact h
  | store i =>
    show o ∈ (store s i).outcomes
    unfold store
    split
    · exact h
    · split <;> exact h
  | clear => exact h
  | read seq =>
    show o ∈ (if s.reader.isSome then s else { s with reader := some { seq := seq } }).outcomes
    split_ifs <;> exact h
  | summarize start stop =>
    show o ∈ (if s.reader.isSome then s else summarize s start stop).outcomes
    unfold summarize
    split_ifs
    · exact h
    · exact List.mem_append_left _ h
    · exact h
  | load =>
    show o ∈ (load s).outcomes
    unfold load
    split
    · exact h
    · split
      · exact h
      · split
        · exact h
        · split_ifs
          · exact mem_finish _ _ _ h
          · exact h

theorem reader_store (s : State) (i : Nat) : (store s i).reader = s.reader := by
  unfold store
  split
  · rfl
  · split <;> rfl

theorem reader_step {r : Reader} {ev : Event} (hr : s.reader = some r)
    (hev : ev.isLoad = false) : (step s ev).reader = some r := by
  cases ev with
  | take e => exact hr
  | store i => exact (reader_store s i).trans hr
  | clear => exact hr
  | read seq => simp [step, hr]
  | summarize start stop => simp [step, hr]
  | load => cases hev

namespace Toward

variable {s : State} {start stop : UInt32} {k : Nat}

theorem finish {r : Reader} {l : Loop} (hr : r.left ≤ k + 1) (hloop : r.loop = some l)
    (hseen : r.seen.isNone = false) {f : Field} (hrest : r.rest = [f])
    (given : Option SdSpiTraceEntry) (result : SdSpiTraceEntry) :
    Toward l.start l.stop k (TraceRing.finish s r given result) := by
  unfold TraceRing.finish
  simp only [hloop]
  split_ifs with hstop
  · exact .inl ⟨_, List.mem_append_right _ (List.mem_singleton_self _)⟩
  · refine .inr ⟨_, _, rfl, rfl, rfl, rfl, ?_⟩
    have hsucc := toNat_sub_succ hstop
    simp only [Reader.left, hloop, hseen, hrest, List.length_singleton] at hr
    simp only [Reader.left, Field.all, List.length_cons, List.length_nil, Option.isNone_none]
    simp only [if_true, Bool.false_eq_true, if_false] at hr ⊢
    omega

theorem load (hs : Counting s) (h : Toward start stop (k + 1) s) :
    Toward start stop k (TraceRing.load s) := by
  rcases h with ⟨sum, hsum⟩ | ⟨r, l, hr, hloop, rfl, rfl, hleft⟩
  · exact .inl ⟨sum, mem_step .load hsum⟩
  · obtain ⟨hne, -⟩ := hs.reader r hr
    unfold TraceRing.load
    simp only [hr]
    split
    · rename_i hseen
      refine .inr ⟨_, l, rfl, hloop, rfl, rfl, ?_⟩
      simp only [Reader.left, hseen, hloop, Option.isNone_none, Option.isNone_some] at hleft ⊢
      simp only [if_true, Bool.false_eq_true, if_false] at hleft ⊢
      omega
    · rename_i seq given hseen
      split
      · rename_i hrest
        exact absurd hrest hne
      · rename_i f rest hrest
        split_ifs with hlast
        · rw [hlast] at hrest
          exact finish hleft hloop (by simp [hseen]) hrest _ _
        · refine .inr ⟨_, l, rfl, hloop, rfl, rfl, ?_⟩
          simp only [Reader.left, hseen, hloop, hrest, List.length_cons, Option.isNone_some] at hleft ⊢
          simp only [Bool.false_eq_true, if_false] at hleft ⊢
          omega

theorem step (hs : Counting s) (ev : Event)
    (h : Toward start stop (k + if ev.isLoad then 1 else 0) s) :
    Toward start stop k (TraceRing.step s ev) := by
  by_cases hev : ev.isLoad = true
  · cases ev with
    | load => exact load hs h
    | _ => cases hev
  · rw [if_neg hev] at h
    rcases h with ⟨sum, hsum⟩ | ⟨r, l, hr, hl⟩
    · exact .inl ⟨sum, mem_step ev hsum⟩
    · exact .inr ⟨r, l, reader_step hr (by simpa using hev), hl⟩

theorem exec {evs : List Event} (hs : Counting s) (h : Toward start stop (evs.countP Event.isLoad) s) :
    ∃ sum, .summary start stop sum ∈ (exec TraceRing.step s evs).outcomes := by
  induction evs generalizing s with
  | nil =>
    rcases h with hsum | ⟨r, l, hr, hloop, -, -, hleft⟩
    · exact hsum
    · -- a call that goes on has a load before it
      have hpos := List.length_pos_iff.mpr (hs.reader r hr).1
      simp only [Reader.left, List.countP_nil] at hleft
      omega
  | cons ev evs ih =>
    rw [List.countP_cons] at h
    exact ih (hs.step ev) (step hs ev h)

theorem summarize (hs : s.reader = none) (start stop : UInt32) :
    Toward start stop (13 * (stop - start).toNat) (TraceRing.step s (.summarize start stop)) := by
  have heq : TraceRing.step s (.summarize start stop) = TraceRing.summarize s start stop := by
    simp [TraceRing.step, hs]
  rw [heq]
  unfold TraceRing.summarize
  split_ifs with h
  · exact .inl ⟨_, List.mem_append_right _ (List.mem_singleton_self _)⟩
  · refine .inr ⟨_, _, rfl, rfl, rfl, rfl, ?_⟩
    have hsucc := toNat_sub_succ h
    simp only [Reader.left, Field.all, List.length_cons, List.length_nil, Option.isNone_none, if_true]
    omega

end Toward

/-- While appends and reads keep apart, an entry under its own number is the one that was given it;
and in every run a summary has counted each number once and ends. -/
theorem exec_outcomes (evs : List Event) :
    (Admitted Apart step {} evs → ∀ n e result,
      .read n (some e) result ∈ (exec step {} evs).outcomes → result.seq = n →
        result = numbered e n) ∧
    (∀ start stop sum, .summary start stop sum ∈ (exec step {} evs).outcomes →
      sum.available + sum.missing = stop - start) ∧
    ∀ start stop later, (exec step {} evs).reader = none →
      13 * (stop - start).toNat ≤ later.countP Event.isLoad →
        ∃ sum, .summary start stop sum ∈
          (exec step {} (evs ++ .summarize start stop :: later)).outcomes := by
  have hcounting (evs : List Event) : Counting (exec step {} evs) := by
    induction evs using List.reverseRecOn with
    | nil => exact Counting.init
    | append_singleton evs ev ih =>
      rw [exec_append]
      exact ih.step ev
  refine ⟨fun hapart => ?_, (hcounting evs).summaries, fun start stop later hidle hloads => ?_⟩
  · exact (hapart.invariant Sound (fun s ev ha hs => hs.step ha) Sound.init).returned
  · rw [exec_append, exec_cons]
    refine Toward.exec ((hcounting evs).step _) ?_
    rcases Toward.summarize hidle start stop with h | ⟨r, l, hr, hloop, hstart, hstop, hleft⟩
    · exact .inl h
    · exact .inr ⟨r, l, hr, hloop, hstart, hstop, Nat.le_trans hleft hloads⟩

theorem appends_load (s : State) : (load s).appends = s.appends := by
  unfold load finish
  repeat' split
  all_goals rfl

theorem apart_stores {s : State} (h : s.reader = none) (i n : Nat) :
    Admitted Apart step s (List.replicate n (.store i)) := by
  induction n generalizing s with
  | zero => trivial
  | succ n ih =>
    refine ⟨fun a r f _ hr => ?_, ih ((reader_store s i).trans h)⟩
    rw [h] at hr
    cases hr

theorem apart_loads (h : s.appends = []) (n : Nat) :
    Admitted Apart step s (List.replicate n .load) := by
  induction n generalizing s with
  | zero => trivial
  | succ n ih =>
    refine ⟨fun r _ _ _ a ha => ?_, ih ((appends_load s).trans h)⟩
    rw [h] at ha
    cases ha

/-- An append that goes on alone gets to its end. -/
theorem exec_stores {s : State} {a : Append} (ha : s.appends = [a]) :
    let s' := exec step s (List.replicate (a.rest.length + 1) (.store 0))
    s'.appends = [] ∧ (s'.entries (slotOf a.seq)).seq = a.seq ∧ s'.reader = s.reader ∧
      s'.given = s.given ∧ s'.outcomes = s.outcomes := by
  obtain ⟨seq, e, rest⟩ := a
  induction rest generalizing s with
  | nil =>
    have hstep : step s (.store 0) = { s.setSeq (slotOf seq) seq with appends := [] } := by
      simp [step, store, ha]
    simp [hstep, State.setSeq]
  | cons f rest ih =>
    have hstep : step s (.store 0) = { s.setWord (slotOf seq) f (word e f) with
        appends := [⟨seq, e, rest⟩] } := by simp [step, store, ha]
    have hrest := @ih (step s (.store 0)) (by rw [hstep])
    simpa only [hstep, List.length_cons, List.replicate_succ (n := rest.length + 1), exec_cons,
      State.setWord] using hrest

/-- A read of a number, with nothing going on beside it. -/
theorem exec_read (h : s.reader = none) (n : UInt32) :
    ∃ result, (exec step s (.read n :: List.replicate 13 .load)).outcomes =
      s.outcomes ++ [.read n (s.given n) result] ∧ result.seq = (s.entries (slotOf n)).seq := by
  obtain ⟨entries, writeIndex, appends, reader, given, outcomes⟩ := s
  cases h
  exact ⟨_, rfl, rfl⟩

/-- An append that is over before its entry is read. -/
def sampleRun : List Event :=
  .take { arg := 1 } :: List.replicate 13 (.store 0) ++ .read 0 :: List.replicate 13 .load

/-- The entry is read under its number. -/
theorem exec_outcomes_sample : Admitted Apart step {} sampleRun ∧
    .read 0 (some { arg := 1 }) (numbered { arg := 1 } 0) ∈ (exec step {} sampleRun).outcomes := by
  have hstores := @apart_stores (step {} (.take { arg := 1 })) rfl 0 13
  obtain ⟨hover, hseq, hidle, hgiven, hnone⟩ :=
    @exec_stores (step {} (.take { arg := 1 })) ⟨0, { arg := 1 }, Field.all⟩ rfl
  rw [show Field.all.length + 1 = 13 from rfl] at hover hseq hidle hgiven hnone
  obtain ⟨result, houtcomes, hresult⟩ := exec_read hidle 0
  have hread : (step (exec step (step {} (.take { arg := 1 })) (List.replicate 13 (.store 0)))
      (.read 0)).appends = [] := by
    show (if _ then _ else _ : State).appends = []
    split_ifs <;> exact hover
  have hadmitted : Admitted Apart step {} sampleRun := by
    rw [sampleRun, Admitted.append_iff, exec_cons]
    exact ⟨⟨nofun, hstores⟩, trivial, apart_loads hread 13⟩
  rw [hnone, hgiven, ← exec_cons, ← exec_append] at houtcomes
  have hmem : .read 0 (some { arg := 1 }) result ∈ (exec step {} sampleRun).outcomes := by
    rw [sampleRun, houtcomes]
    exact List.mem_singleton_self _
  refine ⟨hadmitted, ?_⟩
  rw [← (exec_outcomes sampleRun).1 hadmitted 0 _ result hmem (hresult.trans hseq)]
  exact hmem

/-- A slot that has never been stored into has the number 0. -/
theorem read_first_early :
    ¬∀ (evs : List Event) (n : UInt32) (e result : SdSpiTraceEntry),
      .read n (some e) result ∈ (exec step {} evs).outcomes → result.seq = n →
        result = numbered e n := by
  intro hall
  let e : SdSpiTraceEntry := { arg := 1 }
  obtain ⟨result, houtcomes, hseq, harg⟩ : ∃ result,
      (exec step {} (.take e :: .read 0 :: List.replicate 13 .load)).outcomes =
        [.read 0 (some e) result] ∧ result.seq = 0 ∧ result.arg = 0 :=
    ⟨_, rfl, rfl, rfl⟩
  have hresult := hall _ 0 e result (by rw [houtcomes]; exact List.mem_singleton_self _) hseq
  rw [hresult] at harg
  cases harg

end TraceRing

end EspCars.SdLogger
