import EspCars.SdLogger.Collection

/-!
# What retention bills

`Losses` keeps the SEALED entries that were discarded, window by window, beside the windows that
`take_pending_discards` returned for them. Every counter of the policy is what it should be by
these lists, up to its width.
-/

namespace EspCars.SdLogger

open EspCars.Lib

variable {capacity : Nat}

/-- `returned` pairs each window taken with the entries discarded in it; `current` are those
discarded since. -/
structure Losses where
  returned : List (DiscardStats × List ChunkEntry) := []
  current : List ChunkEntry := []

/-- Every SEALED entry discarded, oldest first. -/
def Losses.all (l : Losses) : List ChunkEntry := l.returned.flatMap (·.2) ++ l.current

/-- The true size of what was lost. -/
def totalBytes (entries : List ChunkEntry) : Nat := (entries.map (·.bytes.toNat)).sum

namespace CollectionPolicy

/-- The losses behind a call. -/
def nextLosses (p : CollectionPolicy capacity) (l : Losses) : Call → Losses
  | .discard seq =>
    match p.find seq with
    | some entry =>
      if (p.discard seq).1 ∧ entry.state = .sealed then
        { l with current := l.current ++ [entry] }
      else l
    | none => l
  | .takePendingDiscards => ⟨l.returned ++ [(p.takePendingDiscards.1, l.current)], []⟩
  | _ => l

def stepWithLosses (s : CollectionPolicy capacity × Losses) (c : Call) :
    CollectionPolicy capacity × Losses := (s.1.step c, nextLosses s.1 s.2 c)

end CollectionPolicy

/-- The window states the loss of these entries. -/
structure DiscardStats.States (w : DiscardStats) (entries : List ChunkEntry) : Prop where
  chunks : w.chunks.toNat = entries.length
  bytes : w.bytes.toNat = totalBytes entries
  first : ∀ e, entries.head? = some e → w.firstSeq = e.seq
  last : ∀ e, entries.getLast? = some e → w.lastSeq = e.seq

/-- Every loss is in one window, which states it, and the lifetime totals are those of all. -/
structure BilledOnce (p : CollectionPolicy capacity) (l : Losses) : Prop where
  windowChunks :
    (l.returned.map (·.1.chunks.toNat)).sum + p.pending.chunks.toNat = p.discardedChunks.toNat
  windowBytes :
    (l.returned.map (·.1.bytes.toNat)).sum + p.pending.bytes.toNat = p.discardedBytes.toNat
  chunks : p.discardedChunks.toNat = l.all.length
  bytes : p.discardedBytes.toNat = totalBytes l.all
  returned : ∀ r ∈ l.returned, r.1.States r.2
  pending : p.pending.States l.current

/-! ## What the counters are in any case -/

theorem totalBytes_append (es es' : List ChunkEntry) :
    totalBytes (es ++ es') = totalBytes es + totalBytes es' := by
  simp [totalBytes]

theorem totalBytes_le (es : List ChunkEntry) : totalBytes es ≤ es.length * (2 ^ 32 - 1) := by
  induction es with
  | nil => exact Nat.le_refl 0
  | cons e es ih =>
    have he := e.bytes.toNat_lt
    rw [totalBytes, List.map_cons, List.sum_cons, List.length_cons, Nat.add_mul]
    rw [totalBytes] at ih
    omega

theorem Losses.length_all (l : Losses) :
    l.all.length = (l.returned.map (·.2.length)).sum + l.current.length := by
  rw [Losses.all, List.length_append, List.length_flatMap]

theorem Losses.totalBytes_all (l : Losses) :
    totalBytes l.all = (l.returned.map fun r => totalBytes r.2).sum + totalBytes l.current := by
  rw [Losses.all, totalBytes_append]
  congr 1
  induction l.returned with
  | nil => rfl
  | cons r rs ih => rw [List.flatMap_cons, totalBytes_append, ih, List.map_cons, List.sum_cons]

theorem Losses.length_le_of_mem {l : Losses} {r : DiscardStats × List ChunkEntry}
    (hr : r ∈ l.returned) : r.2.length ≤ l.all.length := by
  rw [Losses.all, List.length_append, List.flatMap_def]
  exact Nat.le_add_right_of_le
    (List.sublist_flatten_of_mem (List.mem_map_of_mem (f := (·.2)) hr)).length_le

/-- The window counts just these entries. -/
structure DiscardStats.Counts (w : DiscardStats) (entries : List ChunkEntry) : Prop where
  chunks : w.chunks = UInt32.ofNat entries.length
  bytes : w.bytes = UInt64.ofNat (totalBytes entries)
  first : entries.length < 2 ^ 32 → ∀ e, entries.head? = some e → w.firstSeq = e.seq
  last : ∀ e, entries.getLast? = some e → w.lastSeq = e.seq

/-- Every discarded chunk is in one window, and in the totals. -/
structure Billing (p : CollectionPolicy capacity) (l : Losses) : Prop where
  chunks : p.discardedChunks = UInt32.ofNat l.all.length
  bytes : p.discardedBytes = UInt64.ofNat (totalBytes l.all)
  returned : ∀ r ∈ l.returned, r.1.Counts r.2
  pending : p.pending.Counts l.current

namespace DiscardStats.Counts

variable {w : DiscardStats} {entries : List ChunkEntry}

theorem nil : ({} : DiscardStats).Counts [] :=
  ⟨rfl, rfl, fun _ _ he => (by cases he), fun _ he => (by cases he)⟩

theorem bill (h : w.Counts entries) (entry : ChunkEntry) :
    (w.bill entry).Counts (entries ++ [entry]) := by
  refine ⟨?_, ?_, fun hlen e he => ?_, fun e he => ?_⟩
  · rw [DiscardStats.bill, h.chunks, List.length_append, List.length_singleton, UInt32.ofNat_add]
    rfl
  · rw [DiscardStats.bill, h.bytes, totalBytes_append, UInt64.ofNat_add]
    simp [totalBytes]
  · rw [List.length_append, List.length_singleton] at hlen
    cases entries with
    | nil =>
      rw [List.nil_append, List.head?_cons, Option.some.injEq] at he
      have h0 : w.chunks = 0 := h.chunks
      rw [← he]
      simp only [DiscardStats.bill, h0, if_true]
    | cons x rest =>
      have hne : w.chunks ≠ 0 := by
        intro h0
        have hn := congrArg UInt32.toNat (h.chunks.symm.trans h0)
        rw [UInt32.toNat_ofNat_of_lt' (by simp only [UInt32.size]; omega)] at hn
        cases hn
      rw [List.cons_append, List.head?_cons, Option.some.injEq] at he
      rw [← he]
      simp only [DiscardStats.bill, hne, if_false]
      exact h.first (by omega) x rfl
  · rw [List.getLast?_append, List.getLast?_singleton, Option.some_or, Option.some.injEq] at he
    rw [DiscardStats.bill, ← he]

theorem toNat_chunks (h : w.Counts entries) (hlen : entries.length < 2 ^ 32) :
    w.chunks.toNat = entries.length := by
  rw [h.chunks, UInt32.toNat_ofNat_of_lt' (by simp only [UInt32.size]; omega)]

theorem toNat_bytes (h : w.Counts entries) (hlen : entries.length < 2 ^ 32) :
    w.bytes.toNat = totalBytes entries := by
  have hle := totalBytes_le entries
  rw [h.bytes, UInt64.toNat_ofNat_of_lt' (by simp only [UInt64.size]; omega)]

theorem states (h : w.Counts entries) (hlen : entries.length < 2 ^ 32) : w.States entries :=
  ⟨h.toNat_chunks hlen, h.toNat_bytes hlen, h.first hlen, h.last⟩

end DiscardStats.Counts

namespace CollectionPolicy

theorem discard_cases (p : CollectionPolicy capacity) (seq : UInt32) :
    (∃ entry, p.find seq = some entry ∧ entry.state = .sealed ∧ (p.discard seq).1 = true ∧
      (p.discard seq).2.pending = p.pending.bill entry ∧
      (p.discard seq).2.discardedChunks = p.discardedChunks + 1 ∧
      (p.discard seq).2.discardedBytes = p.discardedBytes + entry.bytes.toUInt64) ∨
    ((∀ entry, p.find seq = some entry → entry.state = .sealed → (p.discard seq).1 = false) ∧
      (p.discard seq).2.pending = p.pending ∧
      (p.discard seq).2.discardedChunks = p.discardedChunks ∧
      (p.discard seq).2.discardedBytes = p.discardedBytes) := by
  unfold discard
  cases hf : p.find seq with
  | none => exact Or.inr ⟨fun _ he => (by cases he), rfl, rfl, rfl⟩
  | some entry =>
    dsimp only
    split_ifs with hrefused hsealed
    · exact Or.inr ⟨fun _ _ _ => rfl, rfl, rfl, rfl⟩
    · exact Or.inl ⟨entry, rfl, hsealed, rfl, rfl, rfl, rfl⟩
    · refine Or.inr ⟨fun e he hs => ?_, rfl, rfl, rfl⟩
      cases he
      exact absurd hs hsealed

variable {p : CollectionPolicy capacity}

theorem nextLosses_of_none {seq : UInt32} (l : Losses)
    (hf : p.find seq = none) : nextLosses p l (.discard seq) = l := by
  change (match p.find seq with | some entry => _ | none => l) = l
  rw [hf]

theorem nextLosses_of_some {seq : UInt32} {entry : ChunkEntry}
    (l : Losses) (hf : p.find seq = some entry) :
    nextLosses p l (.discard seq) =
      if (p.discard seq).1 ∧ entry.state = .sealed then
        { l with current := l.current ++ [entry] }
      else l := by
  change (match p.find seq with | some entry => _ | none => l) = _
  rw [hf]

theorem Billing.discard {l : Losses} (h : Billing p l)
    (seq : UInt32) : Billing (p.discard seq).2 (nextLosses p l (.discard seq)) := by
  rcases p.discard_cases seq with ⟨entry, hf, hs, hok, hpending, hchunks, hbytes⟩ |
    ⟨hnone, hpending, hchunks, hbytes⟩
  · have hl : nextLosses p l (.discard seq) = { l with current := l.current ++ [entry] } :=
      (nextLosses_of_some l hf).trans (if_pos ⟨hok, hs⟩)
    have hall : (nextLosses p l (.discard seq)).all = l.all ++ [entry] := by
      rw [hl, Losses.all, Losses.all, List.append_assoc]
    refine ⟨?_, ?_, ?_, ?_⟩
    · rw [hchunks, hall, h.chunks, List.length_append, List.length_singleton, UInt32.ofNat_add]
      rfl
    · rw [hbytes, hall, h.bytes, totalBytes_append, UInt64.ofNat_add]
      simp [totalBytes]
    · rw [hl]
      exact h.returned
    · rw [hl, hpending]
      exact h.pending.bill entry
  · have hl : nextLosses p l (.discard seq) = l := by
      cases hf : p.find seq with
      | none => exact nextLosses_of_none l hf
      | some entry =>
        refine (nextLosses_of_some l hf).trans (if_neg ?_)
        rintro ⟨hok, hs⟩
        rw [hnone entry hf hs] at hok
        cases hok
    rw [hl]
    exact ⟨by rw [hchunks, h.chunks], by rw [hbytes, h.bytes], h.returned, by
      rw [hpending]
      exact h.pending⟩

theorem all_nextLosses_take (p : CollectionPolicy capacity) (l : Losses) :
    (nextLosses p l .takePendingDiscards).all = l.all := by
  change ((l.returned ++ [(p.takePendingDiscards.1, l.current)]).flatMap (·.2)) ++ [] = l.all
  simp [Losses.all]

theorem Billing.take {l : Losses} (h : Billing p l) :
    Billing p.takePendingDiscards.2 (nextLosses p l .takePendingDiscards) := by
  have hall := all_nextLosses_take p l
  refine ⟨?_, ?_, fun r hr => ?_, DiscardStats.Counts.nil⟩
  · rw [hall]
    exact h.chunks
  · rw [hall]
    exact h.bytes
  · rcases List.mem_append.mp hr with hr | hr
    · exact h.returned r hr
    · rw [List.mem_singleton.mp hr]
      exact h.pending

/-- Only `discard` and `take_pending_discards` touch what is billed. -/
theorem billing_step_of_ne (p : CollectionPolicy capacity) (c : Call)
    (hd : ∀ seq, c ≠ .discard seq) (ht : c ≠ .takePendingDiscards) :
    (p.step c).pending = p.pending ∧ (p.step c).discardedChunks = p.discardedChunks ∧
      (p.step c).discardedBytes = p.discardedBytes := by
  have hadd : ∀ seq bytes state, (p.add seq bytes state).2.pending = p.pending ∧
      (p.add seq bytes state).2.discardedChunks = p.discardedChunks ∧
      (p.add seq bytes state).2.discardedBytes = p.discardedBytes := by
    intro seq bytes state
    unfold add
    split_ifs <;> exact ⟨rfl, rfl, rfl⟩
  unfold step
  cases c with
  | add seq bytes state => exact hadd seq bytes state
  | addName name bytes =>
    simp only [call, addName]
    split
    · exact ⟨rfl, rfl, rfl⟩
    · exact hadd _ bytes _
  | seal_ seq bytes =>
    simp only [call, seal_]
    split
    · exact ⟨rfl, rfl, rfl⟩
    · split_ifs <;> exact ⟨rfl, rfl, rfl⟩
  | restateSealedBytes seq bytes =>
    simp only [call, restateSealedBytes]
    split
    · exact ⟨rfl, rfl, rfl⟩
    · split_ifs <;> exact ⟨rfl, rfl, rfl⟩
  | confirm seq =>
    simp only [call, confirm]
    split
    · exact ⟨rfl, rfl, rfl⟩
    · split_ifs <;> exact ⟨rfl, rfl, rfl⟩
  | markServing seq =>
    simp only [call, markServing]
    split
    · exact ⟨rfl, rfl, rfl⟩
    · split_ifs <;> exact ⟨rfl, rfl, rfl⟩
  | discard seq => exact absurd rfl (hd seq)
  | takePendingDiscards => exact absurd rfl ht
  | _ => exact ⟨rfl, rfl, rfl⟩

theorem Billing.step {p : CollectionPolicy capacity} {l : Losses} (h : Billing p l) (c : Call) :
    Billing (p.step c) (nextLosses p l c) := by
  by_cases hd : ∃ seq, c = .discard seq
  · obtain ⟨seq, rfl⟩ := hd
    exact Billing.discard h seq
  · by_cases ht : c = .takePendingDiscards
    · subst ht
      exact Billing.take h
    · obtain ⟨hpending, hchunks, hbytes⟩ :=
        p.billing_step_of_ne c (fun seq hs => hd ⟨seq, hs⟩) ht
      have hl : nextLosses p l c = l := by
        cases c with
        | discard seq => exact absurd ⟨seq, rfl⟩ hd
        | takePendingDiscards => exact absurd rfl ht
        | _ => rfl
      rw [hl]
      exact ⟨hchunks ▸ h.chunks, hbytes ▸ h.bytes, h.returned, hpending ▸ h.pending⟩

theorem Billing.run {s : CollectionPolicy capacity × Losses} (h : Billing s.1 s.2)
    (calls : List Call) :
    Billing (exec stepWithLosses s calls).1 (exec stepWithLosses s calls).2 := by
  induction calls generalizing s with
  | nil => exact h
  | cons c calls ih => exact ih (Billing.step h c)

theorem Billing.start (capacity : Nat) :
    Billing (({}, {}) : CollectionPolicy capacity × Losses).1
    (({}, {}) : CollectionPolicy capacity × Losses).2 :=
  ⟨rfl, rfl, fun _ hr => (by cases hr), DiscardStats.Counts.nil⟩

/-! ## Below 2^32 losses the counters are exact -/

/-- In every run with less than `2^32` SEALED chunks discarded, each of them is billed in exactly
one window, and the windows are exact. -/
theorem billed_once (calls : List Call)
    (h : (exec stepWithLosses (({}, {}) : CollectionPolicy capacity × Losses) calls).2.all.length <
      2 ^ 32) :
    BilledOnce (exec stepWithLosses (({}, {}) : CollectionPolicy capacity × Losses) calls).1
      (exec stepWithLosses (({}, {}) : CollectionPolicy capacity × Losses) calls).2 := by
  have hb := Billing.run (Billing.start capacity) calls
  generalize exec stepWithLosses (({}, {}) : CollectionPolicy capacity × Losses) calls = s at h hb ⊢
  obtain ⟨p, l⟩ := s
  have hcurrent : l.current.length < 2 ^ 32 := by
    have hall := l.length_all
    dsimp only at h
    omega
  have hreturned : ∀ r ∈ l.returned, r.1.States r.2 := fun r hr =>
    (hb.returned r hr).states (Nat.lt_of_le_of_lt (Losses.length_le_of_mem hr) h)
  have hpending : p.pending.States l.current := hb.pending.states hcurrent
  have hchunks : p.discardedChunks.toNat = l.all.length := by
    rw [hb.chunks, UInt32.toNat_ofNat_of_lt' (by simp only [UInt32.size]; exact h)]
  have hbytes : p.discardedBytes.toNat = totalBytes l.all := by
    have hle := totalBytes_le l.all
    dsimp only at h
    rw [hb.bytes, UInt64.toNat_ofNat_of_lt' (by simp only [UInt64.size]; omega)]
  refine ⟨?_, ?_, hchunks, hbytes, hreturned, hpending⟩
  · rw [hchunks, l.length_all, hpending.chunks,
      List.map_congr_left fun r hr => (hreturned r hr).chunks]
  · rw [hbytes, l.totalBytes_all, hpending.bytes,
      List.map_congr_left fun r hr => (hreturned r hr).bytes]

def sampleCalls : List Call :=
  [.add 5 100 .sealed, .add 6 50 .sealed, .confirm 6, .discard 5, .discard 6, .takePendingDiscards,
    .add 7 1 .open_, .discard 7, .seal_ 7 9, .discard 7]

theorem billed_once_sample :
    (exec stepWithLosses (({}, {}) : CollectionPolicy 256 × Losses) sampleCalls).2.all.length = 2 ∧
    BilledOnce (exec stepWithLosses (({}, {}) : CollectionPolicy 256 × Losses) sampleCalls).1
      (exec stepWithLosses (({}, {}) : CollectionPolicy 256 × Losses) sampleCalls).2 :=
  ⟨by decide, billed_once sampleCalls (by decide)⟩

/-! ## The counters wrap -/

def discardRounds : Nat → List Call
  | 0 => []
  | n + 1 => .add 0 1 .sealed :: .discard 0 :: discardRounds n

theorem losses_rounds (n : Nat) {s : CollectionPolicy 256 × Losses} (hs : s.1.chunks = []) :
    (exec stepWithLosses s (discardRounds n)).2.all.length = s.2.all.length + n := by
  induction n generalizing s with
  | zero => rfl
  | succ n ih =>
    have hadd : s.1.step (.add 0 1 .sealed) =
        { s.1 with chunks := [⟨0, 1, .sealed, false⟩] } := by
      simp [step, call, add, find, Keyed.find, hs, seqMax, seqModulus, chunkBytes]
    have hround : exec stepWithLosses s [.add 0 1 .sealed, .discard 0] =
        ((exec step s.1 [.add 0 1 .sealed, .discard 0]),
          { s.2 with current := s.2.current ++ [⟨0, 1, .sealed, false⟩] }) := by
      simp only [exec_cons, exec_nil, stepWithLosses, hadd]
      rfl
    have hchunks : (exec step s.1 [.add 0 1 .sealed, .discard 0]).chunks = [] := by
      simp only [exec_cons, exec_nil, hadd]
      rfl
    have hexec : exec stepWithLosses s (discardRounds (n + 1)) =
        exec stepWithLosses (exec stepWithLosses s [.add 0 1 .sealed, .discard 0])
          (discardRounds n) := rfl
    rw [hexec, hround, ih hchunks, Losses.length_all, Losses.length_all, List.length_append,
      List.length_singleton]
    dsimp only
    omega

/-- `2^32` losses are reported as none. -/
theorem not_billedOnce_rounds :
    ¬ BilledOnce
      (exec stepWithLosses (({}, {}) : CollectionPolicy 256 × Losses) (discardRounds (2 ^ 32))).1
      (exec stepWithLosses (({}, {}) : CollectionPolicy 256 × Losses) (discardRounds (2 ^ 32))).2 := by
  intro h
  have hchunks := h.chunks
  rw [losses_rounds _ rfl] at hchunks
  have hlt := UInt32.toNat_lt (exec stepWithLosses (({}, {}) : CollectionPolicy 256 × Losses)
    (discardRounds (2 ^ 32))).1.discardedChunks
  omega

end CollectionPolicy

end EspCars.SdLogger
