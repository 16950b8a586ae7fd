import Mathlib
import EspCars.Lib.Run
import EspCars.Sdlog.Sink

/-!
# Loading is exactly once

Runs of `cmd_run` over a growing archive, each under its own catalog and each cut short anywhere.
After a run that completes, a file whose newest marker is ok should have its rows in the sink, once,
and no other rows should be there (`Loaded`). Two things break this (`not_loaded_sample`): a run
that was cut short while it did a file again, when the catalog then changes back, so that the old
marker is taken for current; and two files of the same bytes of which the last one loaded is a
defect. `loaded_of_sound` is what holds otherwise.

What a run has made of the sink is followed key by key: `KeyInv` says that the rows under a key are
those of the last file loaded under it, or that some file of that key is still to be loaded.
-/

namespace EspCars.Sdlog

open EspCars.Lib FakeSink

variable {φ β κ γ ρ : Type}

/-! ## Calls that stay under one key -/

namespace FakeSink

variable [DecidableEq κ] {s : FakeSink φ κ γ ρ}

theorem calls_append (cs cs' : List (SinkCall φ κ γ ρ)) :
    s.calls (cs ++ cs') = (s.calls cs).calls cs' := List.foldl_append

theorem calls_singleton (c : SinkCall φ κ γ ρ) : s.calls [c] = s.call c := rfl

theorem rowsOf_deleteChunks (keys : List κ) (k : κ) (t : Table) :
    (s.call (.deleteChunks keys)).rowsOf k t = if k ∈ keys then [] else s.rowsOf k t := by
  unfold rowsOf call
  dsimp only
  rw [List.filter_filter]
  by_cases hk : k ∈ keys
  · rw [if_pos hk, List.filter_eq_nil_iff]
    intro r _ hr
    simp only [Bool.and_eq_true, decide_eq_true_eq] at hr
    exact hr.2 (hr.1 ▸ hk)
  · rw [if_neg hk]
    refine List.filter_congr fun r _ => ?_
    by_cases hr : r.1 = k
    · simp [hr, hk]
    · simp [hr]

theorem rowsOf_insertRows (chunk : κ) (t t' : Table) (rows : List ρ) :
    (s.call (insertRows chunk t rows)).rowsOf chunk t' =
      s.rowsOf chunk t' ++ if t' = t then rows.map (fun r => (chunk, r)) else [] := by
  unfold rowsOf call insertRows
  dsimp only
  by_cases ht : t' = t
  · subst ht
    rw [Function.update_self, List.filter_append, if_pos rfl]
    congr 1
    refine List.filter_eq_self.mpr fun r hr => ?_
    obtain ⟨_, _, rfl⟩ := List.mem_map.mp hr
    exact decide_eq_true rfl
  · rw [Function.update_of_ne ht, if_neg ht, List.append_nil]

end FakeSink

/-- A call that changes nothing but the rows under `chunk`. -/
def SinkCall.Within (chunk : κ) : SinkCall φ κ γ ρ → Prop
  | .deleteChunks keys => keys = [chunk]
  | .insert _ rows => ∀ r ∈ rows, r.1 = chunk
  | .insertMarker _ => False

theorem SinkCall.within_insertRows (chunk : κ) (t : Table) (rows : List ρ) :
    (insertRows chunk t rows : SinkCall φ κ γ ρ).Within chunk := by
  intro r hr
  obtain ⟨_, _, rfl⟩ := List.mem_map.mp hr
  rfl

namespace FakeSink

variable [DecidableEq κ]

theorem call_within {s : FakeSink φ κ γ ρ} {chunk : κ} {c : SinkCall φ κ γ ρ}
    (h : c.Within chunk) :
    (s.call c).chunks = s.chunks ∧
      ∀ k, k ≠ chunk → ∀ t, (s.call c).rowsOf k t = s.rowsOf k t := by
  cases c with
  | deleteChunks keys =>
    refine ⟨rfl, fun k hk t => ?_⟩
    rw [rowsOf_deleteChunks, show keys = [chunk] from h, if_neg]
    exact fun hmem => hk (List.mem_singleton.mp hmem)
  | insert table rows =>
    refine ⟨rfl, fun k hk t => ?_⟩
    unfold rowsOf call
    dsimp only
    by_cases ht : t = table
    · subst ht
      rw [Function.update_self, List.filter_append]
      have hnone : rows.filter (fun r => decide (r.1 = k)) = [] := by
        refine List.filter_eq_nil_iff.mpr fun r hr heq => hk ?_
        rw [← of_decide_eq_true heq]
        exact h r hr
      rw [hnone, List.append_nil]
    · rw [Function.update_of_ne ht]
  | insertMarker m => exact h.elim

theorem calls_within {s : FakeSink φ κ γ ρ} {chunk : κ} {cs : List (SinkCall φ κ γ ρ)}
    (h : ∀ c ∈ cs, c.Within chunk) :
    (s.calls cs).chunks = s.chunks ∧
      ∀ k, k ≠ chunk → ∀ t, (s.calls cs).rowsOf k t = s.rowsOf k t := by
  induction cs generalizing s with
  | nil => exact ⟨rfl, fun _ _ _ => rfl⟩
  | cons c cs ih =>
    obtain ⟨hc, hcs⟩ := List.forall_mem_cons.mp h
    obtain ⟨hchunks, hrows⟩ := call_within (s := s) hc
    obtain ⟨hchunks', hrows'⟩ := ih (s := s.call c) hcs
    refine ⟨hchunks'.trans hchunks, fun k hk t => ?_⟩
    exact (hrows' k hk t).trans (hrows k hk t)

end FakeSink

/-! ## One chunk -/

/-- Rows as they stand in a table. -/
def tagged (chunk : κ) (rows : List ρ) : List (κ × ρ) := rows.map fun r => (chunk, r)

theorem tagged_append (chunk : κ) (rows rows' : List ρ) :
    tagged chunk (rows ++ rows') = tagged chunk rows ++ tagged chunk rows' := List.map_append

section Batches

variable [DecidableEq κ]

theorem rowsOf_insertRows_of_ne (s : FakeSink φ κ γ ρ) (chunk : κ) {t t' : Table} (h : t' ≠ t)
    (rows : List ρ) : (s.call (insertRows chunk t rows)).rowsOf chunk t' = s.rowsOf chunk t' := by
  rw [rowsOf_insertRows, if_neg h, List.append_nil]

/-- A buffer that is inserted or kept: together the sink and the buffer have the same rows. -/
theorem flush_spec (chunk : κ) (t : Table) (batchRows : Nat) (rows : List ρ)
    (s : FakeSink φ κ γ ρ) :
    let f : List (SinkCall φ κ γ ρ) × List ρ := flush chunk t batchRows rows
    (∀ c ∈ f.1, c.Within chunk) ∧
    (s.calls f.1).rowsOf chunk t ++ tagged chunk f.2 = s.rowsOf chunk t ++ tagged chunk rows ∧
    ∀ t', t' ≠ t → (s.calls f.1).rowsOf chunk t' = s.rowsOf chunk t' := by
  unfold flush
  by_cases hfull : batchRows ≤ rows.length
  · rw [if_pos hfull]
    refine ⟨fun c hc => ?_, ?_, fun t' ht => rowsOf_insertRows_of_ne s chunk ht rows⟩
    · rw [List.mem_singleton.mp hc]
      exact SinkCall.within_insertRows chunk t rows
    · show (s.call (insertRows chunk t rows)).rowsOf chunk t ++ [] = _
      rw [rowsOf_insertRows, if_pos rfl, List.append_nil]
      rfl
  · rw [if_neg hfull]
    exact ⟨nofun, rfl, fun _ _ => rfl⟩

/-- What the batches of the reading loop insert, and what they leave in the buffers. -/
theorem batches_spec (chunk : κ) (batchRows : Nat) (records : List (ChunkRecord ρ))
    (frames signals : List ρ) (s : FakeSink φ κ γ ρ) :
    let b : List (SinkCall φ κ γ ρ) × List ρ × List ρ :=
      batches chunk batchRows records frames signals
    (∀ c ∈ b.1, c.Within chunk) ∧
    (s.calls b.1).rowsOf chunk .frames ++ tagged chunk b.2.1 =
      s.rowsOf chunk .frames ++ tagged chunk (frames ++ records.map (·.frame)) ∧
    (s.calls b.1).rowsOf chunk .signals ++ tagged chunk b.2.2 =
      s.rowsOf chunk .signals ++ tagged chunk (signals ++ records.flatMap (·.signals)) ∧
    (s.calls b.1).rowsOf chunk .events = s.rowsOf chunk .events := by
  induction records generalizing frames signals s with
  | nil =>
    refine ⟨nofun, ?_, ?_, rfl⟩
    · rw [List.map_nil, List.append_nil]
      rfl
    · rw [List.flatMap_nil, List.append_nil]
      rfl
  | cons r rest ih =>
    obtain ⟨hwf, hframes, hf⟩ :=
      flush_spec chunk .frames batchRows (frames ++ [r.frame]) s
    obtain ⟨hws, hsignals, hs⟩ := flush_spec chunk .signals batchRows (signals ++ r.signals)
      (s.calls (flush chunk .frames batchRows (frames ++ [r.frame])).1)
    obtain ⟨hwr, hframes', hsignals', hevents'⟩ :=
      ih (flush (φ := φ) (γ := γ) chunk .frames batchRows (frames ++ [r.frame])).2
        (flush (φ := φ) (γ := γ) chunk .signals batchRows (signals ++ r.signals)).2
        ((s.calls (flush chunk .frames batchRows (frames ++ [r.frame])).1).calls
          (flush chunk .signals batchRows (signals ++ r.signals)).1)
    refine ⟨?_, ?_, ?_, ?_⟩
    · intro c hc
      rcases List.mem_append.mp hc with hc | hc
      · exact (List.mem_append.mp hc).elim (hwf c) (hws c)
      · exact hwr c hc
    · show (s.calls (_ ++ _ ++ _)).rowsOf chunk .frames ++
        tagged chunk (batches (φ := φ) (γ := γ) chunk batchRows rest _ _).2.1 = _
      rw [calls_append, calls_append, hframes', hs .frames (by decide),
        tagged_append, ← List.append_assoc, hframes, List.map_cons, List.append_assoc,
        ← tagged_append, List.append_assoc, List.singleton_append]
    · show (s.calls (_ ++ _ ++ _)).rowsOf chunk .signals ++
        tagged chunk (batches (φ := φ) (γ := γ) chunk batchRows rest _ _).2.2 = _
      rw [calls_append, calls_append, hsignals', tagged_append,
        ← List.append_assoc, hsignals, hf .signals (by decide), List.flatMap_cons,
        List.append_assoc, ← tagged_append, List.append_assoc]
    · show (s.calls (_ ++ _ ++ _)).rowsOf chunk .events = _
      rw [calls_append, calls_append, hevents', hs .events (by decide),
        hf .events (by decide)]

/-- Calls under an empty key that insert nothing leave it empty. -/
theorem calls_inserted_zero {s : FakeSink φ κ γ ρ} {chunk : κ} {cs : List (SinkCall φ κ γ ρ)}
    (h : ∀ c ∈ cs, c.Within chunk) (hzero : (cs.map SinkCall.inserted).sum = 0)
    (hempty : ∀ t, s.rowsOf chunk t = []) (t : Table) : (s.calls cs).rowsOf chunk t = [] := by
  induction cs generalizing s with
  | nil => exact hempty t
  | cons c cs ih =>
    obtain ⟨hc, hcs⟩ := List.forall_mem_cons.mp h
    rw [List.map_cons, List.sum_cons] at hzero
    refine @ih (s.call c) hcs (by omega) fun t => ?_
    cases c with
    | deleteChunks keys =>
      rw [rowsOf_deleteChunks, show keys = [chunk] from hc,
        if_pos (List.mem_singleton_self _)]
    | insert table rows =>
      have hrows : rows = [] := List.length_eq_zero_iff.mp (by
        have : rows.length + (cs.map SinkCall.inserted).sum = 0 := hzero
        omega)
      subst hrows
      unfold rowsOf call
      dsimp only
      rw [List.append_nil, Function.update_eq_self]
      exact hempty t
    | insertMarker m => exact hc.elim

end Batches

namespace Loader

/-- The result of a load. -/
def ok (load : Loader β κ γ ρ) (c : Chunk β) (catalog : γ) : Bool :=
  !load.defect c.bytes (!load.closed c.bytes && c.torn) && !(load.read c.bytes catalog).failed

/-- The rows of a load. -/
def rows (load : Loader β κ γ ρ) (c : Chunk β) (catalog : γ) (t : Table) : List ρ :=
  if load.ok c catalog then
    match t with
    | .frames => (load.read c.bytes catalog).records.map (·.frame)
    | .signals =>
      (load.read c.bytes catalog).records.flatMap (·.signals) ++
        (load.read c.bytes catalog).signals
    | .events =>
      (load.read c.bytes catalog).records.flatMap (·.events) ++ (load.read c.bytes catalog).events
  else []

theorem rows_of_not_ok {load : Loader β κ γ ρ} {c : Chunk β} {catalog : γ}
    (h : load.ok c catalog = false) (t : Table) : load.rows c catalog t = [] := by
  unfold rows
  rw [if_neg (by rw [h]; exact Bool.false_ne_true)]

/-- Equal bytes that both load give equal rows. -/
theorem rows_congr {load : Loader β κ γ ρ} {c c' : Chunk β} {catalog : γ}
    (hbytes : c.bytes = c'.bytes) (h : load.ok c catalog = true) (h' : load.ok c' catalog = true)
    (t : Table) : load.rows c catalog t = load.rows c' catalog t := by
  unfold rows
  rw [if_pos h, if_pos h', hbytes]

end Loader

section Load

variable [DecidableEq κ] (load : Loader β κ γ ρ)

/-- A load leaves the rows of its chunk, once, and then its marker. -/
theorem loadChunk_spec (batchRows : Nat) (catalog : γ) (cleared : List κ) (file : φ)
    (c : Chunk β) : ∃ (body : List (SinkCall φ κ γ ρ)) (m : Marker φ κ γ),
      loadChunk load batchRows catalog cleared file c = body ++ [.insertMarker m] ∧
      (m.file = file ∧ m.chunk = load.chunk c.bytes ∧ m.catalog = catalog ∧
        m.ok = load.ok c catalog) ∧
      (∀ call ∈ body, call.Within (load.chunk c.bytes)) ∧
      ∀ s : FakeSink φ κ γ ρ,
        (load.chunk c.bytes ∈ cleared → ∀ t, s.rowsOf (load.chunk c.bytes) t = []) →
        ∀ t, (s.calls body).rowsOf (load.chunk c.bytes) t =
          tagged (load.chunk c.bytes) (load.rows c catalog t) := by
  unfold loadChunk
  dsimp only
  generalize hchunk : load.chunk c.bytes = chunk
  generalize hdelete : (if chunk ∈ cleared then [] else [SinkCall.deleteChunks [chunk]] :
    List (SinkCall φ κ γ ρ)) = delete
  have hwithin : ∀ call ∈ delete, call.Within chunk := by
    rw [← hdelete]
    split_ifs
    · exact nofun
    · intro call hcall
      rw [List.mem_singleton.mp hcall]
      rfl
  have hempty : ∀ s : FakeSink φ κ γ ρ, (chunk ∈ cleared → ∀ t, s.rowsOf chunk t = []) →
      ∀ t, (s.calls delete).rowsOf chunk t = [] := by
    intro s hs t
    rw [← hdelete]
    split_ifs with hcleared
    · exact hs hcleared t
    · rw [calls_singleton, rowsOf_deleteChunks,
        if_pos (List.mem_singleton_self _)]
  have hnotOk : load.ok c catalog = false → ∀ t, tagged chunk (load.rows c catalog t) = [] := by
    intro hok t
    rw [Loader.rows_of_not_ok hok]
    rfl
  by_cases hdefect : load.defect c.bytes (!load.closed c.bytes && c.torn) = true
  · have hok : load.ok c catalog = false := by
      unfold Loader.ok
      rw [hdefect]
      rfl
    rw [if_pos hdefect]
    refine ⟨delete, _, rfl, ⟨rfl, rfl, rfl, hok.symm⟩, hwithin, fun s hs t => ?_⟩
    rw [hempty s hs, hnotOk hok]
  rw [if_neg hdefect]
  have hspec := fun s : FakeSink φ κ γ ρ =>
    batches_spec chunk batchRows (load.read c.bytes catalog).records [] [] s
  generalize (batches chunk batchRows (load.read c.bytes catalog).records [] [] :
    List (SinkCall φ κ γ ρ) × List ρ × List ρ) = b at hspec ⊢
  dsimp only at hspec
  have hwithinB : ∀ call ∈ b.1, call.Within chunk := (hspec {}).1
  by_cases hfailed : (load.read c.bytes catalog).failed = true
  · -- the batches already inserted are deleted again
    have hok : load.ok c catalog = false := by
      unfold Loader.ok
      rw [hfailed]
      exact Bool.and_false _
    rw [if_pos hfailed]
    refine ⟨delete ++ b.1 ++ _, _, rfl, ⟨rfl, rfl, rfl, hok.symm⟩, ?_, fun s hs t => ?_⟩
    · intro call hcall
      rcases List.mem_append.mp hcall with hcall | hcall
      · exact (List.mem_append.mp hcall).elim (hwithin call) (hwithinB call)
      · split_ifs at hcall
        · rw [List.mem_singleton.mp hcall]
          rfl
        · cases hcall
    · rw [hnotOk hok, calls_append, calls_append]
      by_cases hsum : (b.1.map SinkCall.inserted).sum = 0
      · rw [if_neg (not_not.mpr hsum)]
        exact calls_inserted_zero hwithinB hsum (hempty s hs) t
      · rw [if_pos hsum, calls_singleton, rowsOf_deleteChunks,
          if_pos (List.mem_singleton_self _)]
  · have hok : load.ok c catalog = true := by
      unfold Loader.ok
      rw [(Bool.not_eq_true _).mp hdefect, (Bool.not_eq_true _).mp hfailed]
      rfl
    rw [if_neg hfailed]
    refine ⟨delete ++ b.1 ++ _, _, rfl, ⟨rfl, rfl, rfl, hok.symm⟩, ?_, fun s hs t => ?_⟩
    · intro call hcall
      rcases List.mem_append.mp hcall with hcall | hcall
      · exact (List.mem_append.mp hcall).elim (hwithin call) (hwithinB call)
      · simp only [List.mem_cons, List.not_mem_nil, or_false] at hcall
        rcases hcall with rfl | rfl | rfl
        · exact SinkCall.within_insertRows _ _ _
        · exact SinkCall.within_insertRows _ _ _
        · exact SinkCall.within_insertRows _ _ _
    · rw [calls_append, calls_append]
      obtain ⟨-, hframes, hsignals, hevents⟩ := hspec (s.calls delete)
      rw [hempty s hs, List.nil_append, List.nil_append] at hframes hsignals
      rw [hempty s hs] at hevents
      generalize (s.calls delete).calls b.1 = s' at hframes hsignals hevents
      show (((s'.call (insertRows chunk .frames b.2.1)).call (insertRows chunk .signals _)).call
        (insertRows chunk .events _)).rowsOf chunk t = _
      unfold Loader.rows
      rw [if_pos hok]
      cases t with
      | frames =>
        rw [rowsOf_insertRows_of_ne _ _ (by decide), rowsOf_insertRows_of_ne _ _ (by decide),
          rowsOf_insertRows, if_pos rfl]
        exact hframes
      | signals =>
        rw [rowsOf_insertRows_of_ne _ _ (by decide), rowsOf_insertRows, if_pos rfl,
          rowsOf_insertRows_of_ne _ _ (by decide)]
        show _ ++ tagged chunk _ = _
        rw [tagged_append, ← List.append_assoc, hsignals, ← tagged_append]
      | events =>
        rw [rowsOf_insertRows, if_pos rfl, rowsOf_insertRows_of_ne _ _ (by decide),
          rowsOf_insertRows_of_ne _ _ (by decide), hevents]
        rfl

/-! ## The files of a run, one after the other -/

variable (archive : φ → Chunk β) (batchRows : Nat) (catalog : γ)

/-- The chunk key of a file. -/
def keyOf (file : φ) : κ := load.chunk (archive file).bytes

/-- The files a list of calls wrote markers for. -/
def markedBy (cs : List (SinkCall φ κ γ ρ)) : List φ :=
  cs.filterMap fun
    | .insertMarker m => some m.file
    | _ => none

omit [DecidableEq κ] in
theorem markedBy_append (cs cs' : List (SinkCall φ κ γ ρ)) :
    markedBy (cs ++ cs') = markedBy cs ++ markedBy cs' := List.filterMap_append

omit [DecidableEq κ] in
theorem markedBy_within {chunk : κ} {cs : List (SinkCall φ κ γ ρ)}
    (h : ∀ c ∈ cs, c.Within chunk) : markedBy cs = [] := by
  refine List.filterMap_eq_nil_iff.mpr fun c hc => ?_
  cases c with
  | deleteChunks keys => rfl
  | insert table rows => rfl
  | insertMarker m => exact (h _ hc).elim

/-- The sink after the files `done` of a run were loaded, and some of the first one of `rest`. -/
structure Progress (s s' : FakeSink φ κ γ ρ) (done rest : List φ) : Prop where
  chunks : ∃ markers : List (Marker φ κ γ), s'.chunks = s.chunks ++ markers ∧
    markers.map (·.file) = done ∧ ∀ m ∈ markers, m.chunk = keyOf load archive m.file ∧
      m.catalog = catalog ∧ m.ok = load.ok (archive m.file) catalog
  others : ∀ k, (∀ f ∈ done ++ rest, keyOf load archive f ≠ k) →
    ∀ t, s'.rowsOf k t = s.rowsOf k t
  loaded : ∀ k, (∀ f ∈ rest, keyOf load archive f ≠ k) → ∀ g,
    (done.filter fun f => decide (keyOf load archive f = k)).getLast? = some g →
      ∀ t, s'.rowsOf k t = tagged k (load.rows (archive g) catalog t)

theorem loadAll_take (cleared : List κ) (files : List φ) (s : FakeSink φ κ γ ρ)
    (hcleared : ∀ k ∈ cleared, ∀ t, s.rowsOf k t = []) (n : Nat) :
    ∃ done rest, files = done ++ rest ∧
      markedBy ((loadAll load archive batchRows catalog cleared files).take n) = done ∧
      ((loadAll load archive batchRows catalog cleared files).length ≤ n → rest = []) ∧
      Progress load archive catalog s
        (s.calls ((loadAll load archive batchRows catalog cleared files).take n)) done rest := by
  induction files generalizing cleared s n with
  | nil =>
    refine ⟨[], [], rfl, ?_, fun _ => rfl, ⟨[], ?_, rfl, nofun⟩, fun _ _ _ => ?_,
      fun _ _ _ => nofun⟩
    · rw [loadAll, List.take_nil]
      rfl
    · rw [loadAll, List.take_nil, List.append_nil]
      rfl
    · rw [loadAll, List.take_nil]
      rfl
  | cons f files ih =>
    obtain ⟨body, m, heq, ⟨hfile, hchunk, hcatalog, hok⟩, hwithin, hrows⟩ :=
      loadChunk_spec load batchRows catalog cleared f (archive f)
    obtain ⟨hchunks, hother⟩ := calls_within (s := s) hwithin
    rw [loadAll, heq]
    rcases Nat.lt_or_ge n (body ++ [SinkCall.insertMarker m]).length with hcut | hpast
    · -- cut short within the load of `f`
      rw [List.length_append, List.length_singleton] at hcut
      have htake : (body ++ [SinkCall.insertMarker m] ++ loadAll load archive batchRows catalog
          (cleared.filter (· ≠ load.chunk (archive f).bytes)) files).take n = body.take n := by
        rw [List.append_assoc, List.take_append_of_le_length (by omega)]
      have hwithin' : ∀ c ∈ body.take n, c.Within (load.chunk (archive f).bytes) :=
        fun c hc => hwithin c (List.mem_of_mem_take hc)
      obtain ⟨hchunks', hother'⟩ := calls_within (s := s) hwithin'
      rw [htake]
      refine ⟨[], f :: files, rfl, markedBy_within hwithin', fun hle => ?_, ⟨[], ?_, rfl, nofun⟩,
        fun k hk t => ?_, fun _ _ _ => nofun⟩
      · rw [List.length_append, List.length_append, List.length_singleton] at hle
        omega
      · rw [hchunks', List.append_nil]
      · exact hother' k (fun h => hk f List.mem_cons_self h.symm) t
    · -- past the marker of `f`
      have htake : (body ++ [SinkCall.insertMarker m] ++ loadAll load archive batchRows catalog
          (cleared.filter (· ≠ load.chunk (archive f).bytes)) files).take n =
          body ++ [.insertMarker m] ++ (loadAll load archive batchRows catalog
            (cleared.filter (· ≠ load.chunk (archive f).bytes)) files).take
              (n - (body ++ [SinkCall.insertMarker m]).length) := by
        rw [List.take_append, List.take_of_length_le hpast]
      rw [htake]
      generalize hcleared₁ : cleared.filter (· ≠ load.chunk (archive f).bytes) = cleared₁
      generalize hn : n - (body ++ [SinkCall.insertMarker m]).length = n₁
      generalize hs : s.calls (body ++ [SinkCall.insertMarker m]) = s₁
      have hrowsOf : ∀ k t, s₁.rowsOf k t = (s.calls body).rowsOf k t := by
        rw [← hs, calls_append]
        exact fun _ _ => rfl
      have hself : ∀ t, s₁.rowsOf (keyOf load archive f) t =
          tagged (keyOf load archive f) (load.rows (archive f) catalog t) := fun t =>
        (hrowsOf _ t).trans (hrows s (hcleared _) t)
      have hrest : ∀ k, k ≠ keyOf load archive f → ∀ t, s₁.rowsOf k t = s.rowsOf k t :=
        fun k hk t => (hrowsOf k t).trans (hother k hk t)
      obtain ⟨done, rest, hfiles, hmarked, hend, hprogress⟩ := ih cleared₁ s₁ (fun k hk t => by
        rw [← hcleared₁] at hk
        obtain ⟨hk, hne⟩ := List.mem_filter.mp hk
        rw [hrest k (of_decide_eq_true hne)]
        exact hcleared k hk t) n₁
      rw [calls_append, hs]
      refine ⟨f :: done, rest, by rw [hfiles]; rfl, ?_, fun hle => ?_, ?_, fun k hk t => ?_,
        fun k hk g hg t => ?_⟩
      · rw [markedBy_append, markedBy_append, markedBy_within hwithin, hmarked, ← hfile]
        rfl
      · refine hend ?_
        rw [List.length_append] at hle
        omega
      · obtain ⟨markers, hmarkers, hdone, hall⟩ := hprogress.chunks
        refine ⟨m :: markers, ?_, ?_, List.forall_mem_cons.mpr ⟨⟨?_, hcatalog, ?_⟩, hall⟩⟩
        · rw [hmarkers, ← hs, calls_append]
          show (s.calls body).chunks ++ [m] ++ markers = _
          rw [hchunks, List.append_assoc, List.singleton_append]
        · rw [List.map_cons, hdone, hfile]
        · rw [hchunk, ← hfile]
          rfl
        · rw [hok, hfile]
      · rw [hprogress.others k (fun g hg => hk g (List.mem_cons_of_mem _ hg))]
        exact hrest k (fun h => hk f List.mem_cons_self h.symm) t
      · by_cases hlater : done.filter (fun f => decide (keyOf load archive f = k)) = []
        · -- no later file has the key of `f`
          have hnone : ∀ g ∈ done, keyOf load archive g ≠ k := fun g hgd heq' =>
            List.filter_eq_nil_iff.mp hlater g hgd (decide_eq_true heq')
          by_cases hkey : keyOf load archive f = k
          · rw [List.filter_cons, if_pos (decide_eq_true hkey), hlater] at hg
            cases hg
            rw [hprogress.others k fun g hg => (List.mem_append.mp hg).elim (hnone g) (hk g),
              ← hkey]
            exact hself t
          · rw [List.filter_cons, if_neg (by simpa using hkey), hlater] at hg
            cases hg
        · refine hprogress.loaded k hk g ?_ t
          by_cases hkey : keyOf load archive f = k
          · rw [List.filter_cons, if_pos (decide_eq_true hkey)] at hg
            obtain ⟨a, l, hl⟩ := List.exists_cons_of_ne_nil hlater
            rw [hl] at hg ⊢
            rwa [List.getLast?_cons_cons] at hg
          · rwa [List.filter_cons, if_neg (by simpa using hkey)] at hg

end Load

/-! ## Runs -/

/-- One `cmd_run`: the files of the device's directory, the catalog, the batch size, and how many
calls on the sink were made if the run did not complete. -/
structure SinkRun (φ γ : Type) where
  files : List φ
  catalog : γ
  batchRows : Nat := 1
  cut : Option Nat := none

/-- The sink after some runs, and the files of the last listing. `begun` are the files whose old
rows were given up by a run that was cut short before it wrote their new marker. -/
structure History (φ κ γ ρ : Type) where
  sink : FakeSink φ κ γ ρ := {}
  listed : List φ := []
  begun : List φ := []

/-- The newest marker under a chunk key. -/
def FakeSink.lastUnder [DecidableEq κ] (s : FakeSink φ κ γ ρ) (k : κ) : Option (Marker φ κ γ) :=
  s.chunks.reverse.find? fun m => m.chunk = k

/-! ### Newest markers -/

namespace FakeSink

variable {s s' : FakeSink φ κ γ ρ} {markers : List (Marker φ κ γ)}

section File

variable [DecidableEq φ]

theorem mem_of_latest {f : φ} {m : Marker φ κ γ} (h : s.latest f = some m) :
    m ∈ s.chunks ∧ m.file = f := by
  have hfile := List.find?_some h
  exact ⟨List.mem_reverse.mp (List.mem_of_find?_eq_some h), of_decide_eq_true hfile⟩

theorem latest_append (h : s'.chunks = s.chunks ++ markers) (f : φ) :
    s'.latest f = (markers.reverse.find? fun m => m.file = f).or (s.latest f) := by
  unfold latest
  rw [h, List.reverse_append, List.find?_append]

theorem latest_of_notMem (h : s'.chunks = s.chunks ++ markers) {f : φ}
    (hf : f ∉ markers.map (·.file)) : s'.latest f = s.latest f := by
  rw [latest_append h, List.find?_eq_none.mpr, Option.none_or]
  intro m hm heq
  exact hf (List.mem_map.mpr ⟨m, List.mem_reverse.mp hm, of_decide_eq_true heq⟩)

/-- A file that got a marker has its newest one from there. -/
theorem exists_latest_of_mem (h : s'.chunks = s.chunks ++ markers) {f : φ}
    (hf : f ∈ markers.map (·.file)) : ∃ m ∈ markers, m.file = f ∧ s'.latest f = some m := by
  obtain ⟨m, hm, rfl⟩ := List.mem_map.mp hf
  have hsome : (markers.reverse.find? fun m' => m'.file = m.file).isSome = true :=
    List.find?_isSome.mpr ⟨m, List.mem_reverse.mpr hm, decide_eq_true rfl⟩
  obtain ⟨m', hm'⟩ := Option.isSome_iff_exists.mp hsome
  have hfile := List.find?_some hm'
  refine ⟨m', List.mem_reverse.mp (List.mem_of_find?_eq_some hm'), of_decide_eq_true hfile, ?_⟩
  rw [latest_append h, hm', Option.some_or]

end File

section Key

variable [DecidableEq κ]

theorem mem_of_lastUnder {k : κ} {m : Marker φ κ γ} (h : s.lastUnder k = some m) :
    m ∈ s.chunks ∧ m.chunk = k := by
  have hchunk := List.find?_some h
  exact ⟨List.mem_reverse.mp (List.mem_of_find?_eq_some h), of_decide_eq_true hchunk⟩

theorem lastUnder_append (h : s'.chunks = s.chunks ++ markers) (k : κ) :
    s'.lastUnder k = (markers.reverse.find? fun m => m.chunk = k).or (s.lastUnder k) := by
  unfold lastUnder
  rw [h, List.reverse_append, List.find?_append]

theorem lastUnder_of_notMem (h : s'.chunks = s.chunks ++ markers) {k : κ}
    (hk : ∀ m ∈ markers, m.chunk ≠ k) : s'.lastUnder k = s.lastUnder k := by
  rw [lastUnder_append h, List.find?_eq_none.mpr, Option.none_or]
  intro m hm heq
  exact hk m (List.mem_reverse.mp hm) (of_decide_eq_true heq)

end Key

/-- The newest marker under a key is the newest of its file. -/
theorem latest_of_lastUnder [DecidableEq φ] [DecidableEq κ] {load : Loader β κ γ ρ}
    {archive : φ → Chunk β} (hs : ∀ m ∈ s.chunks, m.chunk = keyOf load archive m.file)
    {k : κ} {m : Marker φ κ γ} (h : s.lastUnder k = some m) : s.latest m.file = some m := by
  obtain ⟨hchunk, before, after, heq, hbefore⟩ := List.find?_eq_some_iff_append.mp h
  have hmem : ∀ m' ∈ before, m' ∈ s.chunks := fun m' hm' => by
    rw [← List.mem_reverse, heq]
    exact List.mem_append_left _ hm'
  have hin : m ∈ s.chunks := by
    rw [← List.mem_reverse, heq]
    exact List.mem_append_right _ List.mem_cons_self
  refine List.find?_eq_some_iff_append.mpr ⟨decide_eq_true rfl, before, after, heq, ?_⟩
  intro m' hm'
  have hne := hbefore m' hm'
  simp only [Bool.not_eq_true', decide_eq_false_iff_not] at hne ⊢
  intro hfile
  refine hne ?_
  rw [hs m' (hmem m' hm'), hfile, ← hs m hin]
  exact of_decide_eq_true hchunk

end FakeSink

section Runs

variable [DecidableEq φ] [DecidableEq κ] [DecidableEq γ] (load : Loader β κ γ ρ)
  (archive : φ → Chunk β)

namespace History

/-- The calls a run has made. -/
def made (h : History φ κ γ ρ) (r : SinkRun φ γ) : List (SinkCall φ κ γ ρ) :=
  let calls := cmdRun load archive r.batchRows r.catalog r.files h.sink
  match r.cut with
  | none => calls
  | some n => calls.take n

/-- The history behind a run. -/
def next (h : History φ κ γ ρ) (r : SinkRun φ γ) : History φ κ γ ρ where
  sink := h.sink.calls (h.made load archive r)
  listed := r.files
  begun :=
    if (h.made load archive r).isEmpty then h.begun
    else
      let redone := (pendingFiles h.sink r.catalog r.files).filter fun f => (h.sink.latest f).isSome
      (h.begun ++ redone).filter fun f => f ∉ markedBy (h.made load archive r)

/-- The archive only grows, and a directory has a name once. -/
def Grows (h : History φ κ γ ρ) (r : SinkRun φ γ) : Prop := h.listed ⊆ r.files ∧ r.files.Nodup

instance Grows.decidable (h : History φ κ γ ρ) (r : SinkRun φ γ) : Decidable (h.Grows r) :=
  inferInstanceAs (Decidable (h.listed ⊆ r.files ∧ r.files.Nodup))

/-- The rows under a key are given up until a file of that key is loaded, or there never were any,
or they are those of the last file loaded. -/
def KeyInv (h : History φ κ γ ρ) (k : κ) : Prop :=
  (∃ g ∈ h.listed, keyOf load archive g = k ∧ (h.sink.latest g = none ∨ g ∈ h.begun)) ∨
  ((∀ t, h.sink.rowsOf k t = []) ∧ h.sink.lastUnder k = none) ∨
  ∃ m, h.sink.lastUnder k = some m ∧
    ∀ t, h.sink.rowsOf k t = tagged k (load.rows (archive m.file) m.catalog t)

/-- What the store has to do with the archive. -/
structure Inv (h : History φ κ γ ρ) : Prop where
  markers : ∀ m ∈ h.sink.chunks, m.file ∈ h.listed ∧ m.chunk = keyOf load archive m.file ∧
    m.ok = load.ok (archive m.file) m.catalog
  keys : ∀ k, h.KeyInv load archive k

end History

variable {load archive}

/-! ### The step of a run -/

namespace History

variable {h : History φ κ γ ρ} {r : SinkRun φ γ}

omit [DecidableEq κ] in
theorem mem_pendingFiles {s : FakeSink φ κ γ ρ} {catalog : γ} {files : List φ} {f : φ} :
    f ∈ pendingFiles s catalog files ↔
      f ∈ files ∧ ∀ m, s.latest f = some m → m.catalog ≠ catalog := by
  unfold pendingFiles
  rw [List.mem_filter]
  refine and_congr_right fun _ => ?_
  cases s.latest f with
  | none => exact iff_of_true rfl nofun
  | some m => simp

/-- The calls a run has made: its files up to one are loaded, that one perhaps in part. -/
theorem cmdRun_take (hs : ∀ m ∈ h.sink.chunks, m.chunk = keyOf load archive m.file) (n : Nat) :
    ∃ done rest, pendingFiles h.sink r.catalog r.files = done ++ rest ∧
      markedBy ((cmdRun load archive r.batchRows r.catalog r.files h.sink).take n) = done ∧
      ((cmdRun load archive r.batchRows r.catalog r.files h.sink).length ≤ n → rest = []) ∧
      Progress load archive r.catalog h.sink
        (h.sink.calls ((cmdRun load archive r.batchRows r.catalog r.files h.sink).take n))
        done rest := by
  unfold cmdRun
  dsimp only
  generalize htodo : pendingFiles h.sink r.catalog r.files = todo
  by_cases hnone : redoneKeys h.sink todo = []
  · rw [if_pos hnone, hnone, List.nil_append]
    exact loadAll_take load archive r.batchRows r.catalog [] todo h.sink nofun n
  rw [if_neg hnone]
  cases n with
  | zero =>
    refine ⟨[], todo, rfl, rfl, fun hle => ?_, ⟨[], (List.append_nil _).symm, rfl, nofun⟩,
      fun _ _ _ => rfl, fun _ _ _ => nofun⟩
    rw [List.length_append, List.length_singleton] at hle
    omega
  | succ n =>
    -- the rows of every file that is done again are deleted at once
    have hdeleted : ∀ k ∈ redoneKeys h.sink todo, ∀ t,
        (h.sink.call (.deleteChunks (redoneKeys h.sink todo))).rowsOf k t = [] := by
      intro k hk t
      rw [rowsOf_deleteChunks, if_pos hk]
    obtain ⟨done, rest, hfiles, hmarked, hend, hprogress⟩ := loadAll_take load archive r.batchRows
      r.catalog (redoneKeys h.sink todo) todo
      (h.sink.call (.deleteChunks (redoneKeys h.sink todo))) hdeleted n
    rw [List.singleton_append, List.take_succ_cons]
    refine ⟨done, rest, hfiles, hmarked, fun hle => hend ?_, hprogress.chunks, fun k hk t => ?_,
      hprogress.loaded⟩
    · rw [List.length_cons] at hle
      omega
    · refine (hprogress.others k hk t).trans ?_
      rw [rowsOf_deleteChunks, if_neg]
      intro hmem
      obtain ⟨m, hm, hchunk⟩ := List.mem_map.mp hmem
      obtain ⟨f, hf, hlatest⟩ := List.mem_filterMap.mp hm
      obtain ⟨hin, rfl⟩ := mem_of_latest hlatest
      refine hk m.file (by rw [← hfiles]; exact hf) ?_
      rw [← hs m hin]
      exact hchunk

/-- What a run makes of the sink. -/
theorem progress_next (hinv : h.Inv load archive) (r : SinkRun φ γ) : ∃ done rest,
    pendingFiles h.sink r.catalog r.files = done ++ rest ∧
      markedBy (h.made load archive r) = done ∧ (r.cut = none → rest = []) ∧
      Progress load archive r.catalog h.sink (h.next load archive r).sink done rest := by
  have hs : ∀ m ∈ h.sink.chunks, m.chunk = keyOf load archive m.file :=
    fun m hm => (hinv.markers m hm).2.1
  unfold next made
  cases hcut : r.cut with
  | none =>
    obtain ⟨done, rest, hfiles, hmarked, hend, hprogress⟩ := cmdRun_take (r := r) hs
      (cmdRun load archive r.batchRows r.catalog r.files h.sink).length
    rw [List.take_length] at hmarked hprogress
    exact ⟨done, rest, hfiles, hmarked, fun _ => hend (Nat.le_refl _), hprogress⟩
  | some n =>
    obtain ⟨done, rest, hfiles, hmarked, -, hprogress⟩ := cmdRun_take (r := r) hs n
    exact ⟨done, rest, hfiles, hmarked, nofun, hprogress⟩

omit [DecidableEq φ] [DecidableEq γ] in
/-- The newest marker under a key of which a file was loaded. -/
theorem lastUnder_of_done {s s' : FakeSink φ κ γ ρ} {catalog : γ} {done rest : List φ}
    (hprogress : Progress load archive catalog s s' done rest) {k : κ} {g : φ}
    (hg : (done.filter fun f => decide (keyOf load archive f = k)).getLast? = some g) :
    ∃ m, s'.lastUnder k = some m ∧ m.file = g ∧ m.catalog = catalog := by
  obtain ⟨markers, hchunks, hdone, hall⟩ := hprogress.chunks
  rw [List.getLast?_filter, ← hdone, ← List.map_reverse, List.find?_map] at hg
  obtain ⟨m, hm, hfile⟩ := Option.map_eq_some_iff.mp hg
  have hmem := List.mem_reverse.mp (List.mem_of_find?_eq_some hm)
  have hcongr : markers.reverse.find? (fun m => decide (m.chunk = k)) = some m := by
    rw [← hm]
    refine List.find?_congr fun m' hm' => ?_
    rw [(hall m' (List.mem_reverse.mp hm')).1]
    rfl
  refine ⟨m, ?_, hfile, (hall m hmem).2.1⟩
  rw [lastUnder_append hchunks, hcongr, Option.some_or]

omit [DecidableEq γ] in
/-- A key under which no file was to be loaded. -/
theorem KeyInv.of_untouched {h h' : History φ κ γ ρ} {k : κ} {markers : List (Marker φ κ γ)}
    (hkey : h.KeyInv load archive k) (hlisted : h.listed ⊆ h'.listed)
    (hbegun : ∀ g ∈ h.begun, keyOf load archive g = k → g ∈ h'.begun)
    (hchunks : h'.sink.chunks = h.sink.chunks ++ markers)
    (hmarkers : ∀ m ∈ markers, m.chunk = keyOf load archive m.file ∧ m.chunk ≠ k)
    (hrows : ∀ t, h'.sink.rowsOf k t = h.sink.rowsOf k t) : h'.KeyInv load archive k := by
  have hlast := lastUnder_of_notMem hchunks fun m hm => (hmarkers m hm).2
  rcases hkey with ⟨g, hg, hk, htouched⟩ | ⟨hempty, hnever⟩ | ⟨m, hm, hclean⟩
  · have hlatest : h'.sink.latest g = h.sink.latest g :=
      latest_of_notMem hchunks fun hmem => by
        obtain ⟨m, hm, rfl⟩ := List.mem_map.mp hmem
        exact (hmarkers m hm).2 ((hmarkers m hm).1.trans hk)
    refine Or.inl ⟨g, hlisted hg, hk, htouched.imp (fun hnone => ?_) fun hb => hbegun g hb hk⟩
    rw [hlatest, hnone]
  · exact Or.inr (Or.inl ⟨fun t => (hrows t).trans (hempty t), hlast.trans hnever⟩)
  · exact Or.inr (Or.inr ⟨m, hlast.trans hm, fun t => (hrows t).trans (hclean t)⟩)

theorem inv_next (hinv : h.Inv load archive) (hgrows : h.Grows r) :
    (h.next load archive r).Inv load archive := by
  obtain ⟨done, rest, hfiles, hmarked, -, hprogress⟩ := progress_next hinv r
  obtain ⟨markers, hchunks, hdone, hall⟩ := hprogress.chunks
  have hlisted : ∀ f ∈ done ++ rest, f ∈ r.files := fun f hf =>
    (mem_pendingFiles.mp (by rw [hfiles]; exact hf)).1
  have hnodup : (done ++ rest).Nodup := by
    rw [← hfiles]
    exact hgrows.2.filter _
  have hmarkerFile : ∀ m ∈ markers, m.file ∈ done := fun m hm => by
    rw [← hdone]
    exact List.mem_map_of_mem hm
  constructor
  · intro m hm
    rw [hchunks] at hm
    rcases List.mem_append.mp hm with hm | hm
    · obtain ⟨hin, hchunk, hok⟩ := hinv.markers m hm
      exact ⟨hgrows.1 hin, hchunk, hok⟩
    · obtain ⟨hchunk, hcatalog, hok⟩ := hall m hm
      exact ⟨hlisted _ (List.mem_append_left _ (hmarkerFile m hm)), hchunk, by rw [hok, hcatalog]⟩
  intro k
  by_cases hmade : h.made load archive r = []
  · -- the run has changed nothing
    have hsink : (h.next load archive r).sink = h.sink := by
      show h.sink.calls (h.made load archive r) = h.sink
      rw [hmade]
      rfl
    have hbegun : (h.next load archive r).begun = h.begun := if_pos (by rw [hmade]; rfl)
    have hchunks : (h.next load archive r).sink.chunks = h.sink.chunks ++ [] := by
      rw [hsink, List.append_nil]
    refine KeyInv.of_untouched (hinv.keys k) hgrows.1 (fun g hg _ => ?_) hchunks nofun ?_
    · rw [hbegun]
      exact hg
    · rw [hsink]
      exact fun _ => rfl
  have hbegun : ∀ g, g ∈ (h.next load archive r).begun ↔
      (g ∈ h.begun ∨ g ∈ done ++ rest ∧ (h.sink.latest g).isSome = true) ∧ g ∉ done := by
    intro g
    have heq : (h.next load archive r).begun = _ :=
      if_neg (by rw [List.isEmpty_iff]; exact hmade)
    rw [heq, List.mem_filter, List.mem_append, List.mem_filter, hfiles, hmarked,
      decide_eq_true_iff]
  by_cases hleft : ∃ g ∈ rest, keyOf load archive g = k
  · obtain ⟨g, hg, hk⟩ := hleft
    have hnotDone : g ∉ done := fun hd => (List.nodup_append.mp hnodup).2.2 g hd g hg rfl
    refine Or.inl ⟨g, hlisted g (List.mem_append_right _ hg), hk, ?_⟩
    rw [latest_of_notMem hchunks (by rw [hdone]; exact hnotDone)]
    cases hlatest : h.sink.latest g with
    | none => exact Or.inl rfl
    | some m =>
      refine Or.inr ((hbegun g).mpr ⟨Or.inr ⟨List.mem_append_right _ hg, ?_⟩, hnotDone⟩)
      rw [hlatest]
      rfl
  have hrest : ∀ f ∈ rest, keyOf load archive f ≠ k := fun f hf heq => hleft ⟨f, hf, heq⟩
  cases hlast : (done.filter fun f => decide (keyOf load archive f = k)).getLast? with
  | some g =>
    obtain ⟨m, hm, rfl, hcatalog⟩ := lastUnder_of_done hprogress hlast
    refine Or.inr (Or.inr ⟨m, hm, fun t => ?_⟩)
    rw [hprogress.loaded k hrest m.file hlast, hcatalog]
  | none =>
    have hnone : ∀ f ∈ done, keyOf load archive f ≠ k := fun f hf heq =>
      List.filter_eq_nil_iff.mp (List.getLast?_eq_none_iff.mp hlast) f hf (decide_eq_true heq)
    refine KeyInv.of_untouched (hinv.keys k) hgrows.1 (fun g hg hk => ?_) hchunks (fun m hm => ?_)
      (hprogress.others k fun f hf => (List.mem_append.mp hf).elim (hnone f) (hrest f))
    · exact (hbegun g).mpr ⟨Or.inl hg, fun hd => hnone g hd hk⟩
    · refine ⟨(hall m hm).1, fun heq => hnone m.file (hmarkerFile m hm) ?_⟩
      rw [← (hall m hm).1, heq]

end History

/-! ## After a run that completes -/

variable (load archive)

/-- Every file whose newest marker is ok has the rows of a single load, once, and every row belongs
to such a file. -/
def Loaded (s : FakeSink φ κ γ ρ) (files : List φ) (catalog : γ) : Prop :=
  (∀ f ∈ files, ∀ m, s.latest f = some m → m.ok = true → ∀ batchRows t,
    s.rowsOf (keyOf load archive f) t =
      (({} : FakeSink φ κ γ ρ).calls
        (loadChunk load batchRows catalog [] f (archive f))).rows t) ∧
  ∀ t, ∀ row ∈ s.rows t, ∃ f ∈ files, keyOf load archive f = row.1 ∧
    ∃ m, s.latest f = some m ∧ m.ok = true

/-- The file of a chunk key that was loaded last when the run `r` completes. -/
def lastLoaded (h : History φ κ γ ρ) (r : SinkRun φ γ) (k : κ) : Option φ :=
  ((pendingFiles h.sink r.catalog r.files).filter
    fun f => decide (keyOf load archive f = k)).getLast?.or
    ((h.sink.lastUnder k).map (·.file))

/-- What a run must not meet. -/
structure Sound (h : History φ κ γ ρ) (r : SinkRun φ γ) : Prop where
  /-- No two files of different bytes share a chunk key. -/
  keys : ∀ f ∈ r.files, ∀ g ∈ r.files, keyOf load archive f = keyOf load archive g →
    (archive f).bytes = (archive g).bytes
  /-- A file that a run gave up has not the run's own catalog in its old marker, unless a file of
  its chunk key is loaded now. -/
  redone : ∀ f ∈ r.files, f ∈ h.begun →
    (∃ m, h.sink.latest f = some m ∧ m.catalog = r.catalog) →
      ∃ g ∈ pendingFiles h.sink r.catalog r.files, keyOf load archive g = keyOf load archive f
  /-- The last file loaded of a chunk key is no defect, if one of that key is none. -/
  last : ∀ f ∈ r.files, load.ok (archive f) r.catalog = true → ∀ g,
    lastLoaded load archive h r (keyOf load archive f) = some g →
      load.ok (archive g) r.catalog = true

variable {load archive}

omit [DecidableEq φ] [DecidableEq γ] in
/-- The rows of a single load. -/
theorem rows_single (batchRows : Nat) (catalog : γ) (f : φ) (t : Table) :
    (({} : FakeSink φ κ γ ρ).calls (loadChunk load batchRows catalog [] f (archive f))).rows t =
      tagged (keyOf load archive f) (load.rows (archive f) catalog t) := by
  obtain ⟨body, m, heq, -, hwithin, hrows⟩ :=
    loadChunk_spec load batchRows catalog [] f (archive f)
  obtain ⟨-, hother⟩ := calls_within (s := ({} : FakeSink φ κ γ ρ)) hwithin
  rw [heq, calls_append]
  show (({} : FakeSink φ κ γ ρ).calls body).rows t = _
  have hown := hrows {} nofun t
  refine Eq.trans ?_ hown
  refine (List.filter_eq_self.mpr fun row hrow => ?_).symm
  by_contra hne
  have hmem : row ∈ (({} : FakeSink φ κ γ ρ).calls body).rowsOf row.1 t :=
    List.mem_filter.mpr ⟨hrow, decide_eq_true rfl⟩
  rw [hother row.1 (fun h => hne (decide_eq_true h))] at hmem
  cases hmem

namespace History

variable {h : History φ κ γ ρ} {r : SinkRun φ γ}

/-- What a run that completes has loaded. -/
theorem progress_complete (hinv : h.Inv load archive) (hcut : r.cut = none) :
    Progress load archive r.catalog h.sink (h.next load archive r).sink
      (pendingFiles h.sink r.catalog r.files) [] := by
  obtain ⟨done, rest, hfiles, -, hend, hprogress⟩ := progress_next hinv r
  rw [hend hcut, List.append_nil] at hfiles
  rw [hend hcut] at hprogress
  rw [hfiles]
  exact hprogress

omit [DecidableEq γ] in
/-- A file loaded by a run has its newest marker from there. -/
theorem latest_of_pending {s s' : FakeSink φ κ γ ρ} {catalog : γ} {done rest : List φ}
    (hprogress : Progress load archive catalog s s' done rest) {g : φ} (hg : g ∈ done) :
    ∃ m, s'.latest g = some m ∧ m.ok = load.ok (archive g) catalog := by
  obtain ⟨markers, hchunks, hdone, hall⟩ := hprogress.chunks
  obtain ⟨m, hm, rfl, hlatest⟩ := exists_latest_of_mem hchunks (by rw [hdone]; exact hg)
  exact ⟨m, hlatest, (hall m hm).2.2⟩

/-- The newest marker of a file that a complete run listed. -/
theorem latest_complete (hinv : h.Inv load archive) (hcut : r.cut = none) {f : φ}
    (hf : f ∈ r.files) : ∃ m, (h.next load archive r).sink.latest f = some m ∧
      m.ok = load.ok (archive f) r.catalog := by
  have hprogress := progress_complete hinv hcut
  by_cases hpending : f ∈ pendingFiles h.sink r.catalog r.files
  · exact latest_of_pending hprogress hpending
  obtain ⟨markers, hchunks, hdone, -⟩ := hprogress.chunks
  have hnot : ¬ ∀ m, h.sink.latest f = some m → m.catalog ≠ r.catalog :=
    fun hall => hpending (mem_pendingFiles.mpr ⟨hf, hall⟩)
  push Not at hnot
  obtain ⟨m, hlatest, hcatalog⟩ := hnot
  obtain ⟨hin, hfile⟩ := mem_of_latest hlatest
  refine ⟨m, ?_, ?_⟩
  · rw [latest_of_notMem hchunks (by rw [hdone]; exact hpending), hlatest]
  · rw [(hinv.markers m hin).2.2, hfile, hcatalog]

/-- The rows under a key after a complete run, and the file they come from. -/
theorem rowsOf_complete (hinv : h.Inv load archive) (hgrows : h.Grows r) (hcut : r.cut = none)
    (hredone : ∀ f ∈ r.files, f ∈ h.begun →
      (∃ m, h.sink.latest f = some m ∧ m.catalog = r.catalog) →
        ∃ g ∈ pendingFiles h.sink r.catalog r.files,
          keyOf load archive g = keyOf load archive f) (k : κ) :
    ((∀ t, (h.next load archive r).sink.rowsOf k t = []) ∧
      ∀ f ∈ r.files, keyOf load archive f ≠ k) ∨
    ∃ g ∈ r.files, keyOf load archive g = k ∧ lastLoaded load archive h r k = some g ∧
      ∀ t, (h.next load archive r).sink.rowsOf k t =
        tagged k (load.rows (archive g) r.catalog t) := by
  have hprogress := progress_complete hinv hcut
  cases hlast : ((pendingFiles h.sink r.catalog r.files).filter
      fun f => decide (keyOf load archive f = k)).getLast? with
  | some g =>
    obtain ⟨hg, hk⟩ := List.mem_filter.mp (List.mem_of_getLast? hlast)
    refine Or.inr ⟨g, (mem_pendingFiles.mp hg).1, of_decide_eq_true hk, ?_,
      hprogress.loaded k nofun g hlast⟩
    rw [lastLoaded, hlast, Option.some_or]
  | none =>
    -- no file of this key is loaded now
    have hnone : ∀ f ∈ pendingFiles h.sink r.catalog r.files, keyOf load archive f ≠ k :=
      fun f hf heq =>
        List.filter_eq_nil_iff.mp (List.getLast?_eq_none_iff.mp hlast) f hf (decide_eq_true heq)
    have hrows : ∀ t, (h.next load archive r).sink.rowsOf k t = h.sink.rowsOf k t :=
      hprogress.others k (by rw [List.append_nil]; exact hnone)
    have hcurrent : ∀ f ∈ r.files, keyOf load archive f = k →
        ∃ m, h.sink.latest f = some m ∧ m.catalog = r.catalog := by
      intro f hf hk
      by_contra hno
      exact hnone f (mem_pendingFiles.mpr ⟨hf, fun m hm hcat => hno ⟨m, hm, hcat⟩⟩) hk
    rcases hinv.keys k with ⟨g, hg, hk, htouched⟩ | ⟨hempty, hnever⟩ | ⟨m, hm, hclean⟩
    · obtain ⟨m, hm, hcatalog⟩ := hcurrent g (hgrows.1 hg) hk
      rcases htouched with hno | hbegun
      · rw [hm] at hno
        cases hno
      · obtain ⟨g', hg', hk'⟩ := hredone g (hgrows.1 hg) hbegun ⟨m, hm, hcatalog⟩
        exact absurd (hk'.trans hk) (hnone g' hg')
    · refine Or.inl ⟨fun t => (hrows t).trans (hempty t), fun f hf hk => ?_⟩
      obtain ⟨m, hm, -⟩ := hcurrent f hf hk
      obtain ⟨hin, hfile⟩ := mem_of_latest hm
      refine List.find?_eq_none.mp hnever m (List.mem_reverse.mpr hin) (decide_eq_true ?_)
      rw [(hinv.markers m hin).2.1, hfile, hk]
    · obtain ⟨hin, hchunk⟩ := mem_of_lastUnder hm
      have hk : keyOf load archive m.file = k := (hinv.markers m hin).2.1.symm.trans hchunk
      have hlatest := latest_of_lastUnder (fun m hm => (hinv.markers m hm).2.1) hm
      have hlisted : m.file ∈ r.files := hgrows.1 (hinv.markers m hin).1
      obtain ⟨m', hm', hcatalog⟩ := hcurrent m.file hlisted hk
      rw [hlatest] at hm'
      cases hm'
      refine Or.inr ⟨m.file, hlisted, hk, ?_, fun t => ?_⟩
      · rw [lastLoaded, hlast, hm]
        rfl
      · rw [hrows, hclean, hcatalog]

end History

/-- Rows of a file whose newest marker is ok are exactly those of a single load of its bytes, and
no row is there without one, after every complete run that is `Sound`. -/
theorem loaded_of_sound (runs : List (SinkRun φ γ)) (last : SinkRun φ γ)
    (hruns : Admitted History.Grows (History.next load archive) {} runs)
    (hgrows : (exec (History.next load archive) {} runs).Grows last) (hcut : last.cut = none)
    (hsound : Sound load archive (exec (History.next load archive) {} runs) last) :
    Loaded load archive ((exec (History.next load archive) {} runs).next load archive last).sink
      last.files last.catalog := by
  have hstart : ({} : History φ κ γ ρ).Inv load archive :=
    ⟨nofun, fun _ => Or.inr (Or.inl ⟨fun _ => rfl, rfl⟩)⟩
  have hinv : (exec (History.next load archive) {} runs).Inv load archive :=
    Admitted.invariant (History.Inv load archive)
      (fun _ _ hadmits hkept => History.inv_next hkept hadmits) hruns hstart
  generalize exec (History.next load archive) {} runs = h at hgrows hsound hinv ⊢
  have hrows := History.rowsOf_complete hinv hgrows hcut hsound.redone
  constructor
  · intro f hf m hm hok batchRows t
    rw [rows_single]
    have hokf : load.ok (archive f) last.catalog = true := by
      obtain ⟨m', hm', hok'⟩ := History.latest_complete hinv hcut hf
      rw [hm] at hm'
      cases hm'
      rw [← hok', hok]
    rcases hrows (keyOf load archive f) with ⟨-, hnone⟩ | ⟨g, hg, hk, hlast, hloaded⟩
    · exact absurd rfl (hnone f hf)
    · rw [hloaded, Loader.rows_congr (hsound.keys g hg f hf hk)
        (hsound.last f hf hokf g hlast) hokf]
  · intro t row hrow
    have hmem : row ∈ (h.next load archive last).sink.rowsOf row.1 t :=
      List.mem_filter.mpr ⟨hrow, decide_eq_true rfl⟩
    rcases hrows row.1 with ⟨hempty, -⟩ | ⟨g, hg, hk, -, hloaded⟩
    · rw [hempty] at hmem
      cases hmem
    · refine ⟨g, hg, hk, ?_⟩
      obtain ⟨m, hm, hok⟩ := History.latest_complete hinv hcut hg
      refine ⟨m, hm, ?_⟩
      rw [hok]
      by_contra hnot
      rw [hloaded, Loader.rows_of_not_ok (Bool.eq_false_iff.mpr hnot)] at hmem
      cases hmem

end Runs

/-! ## Runs that break it -/

/-- Chunks whose bytes are their rows. -/
def sampleLoader : Loader (List Nat) Nat Bool Nat where
  chunk bytes := bytes.headD 0
  closed _ := true
  defect _ _ := false
  read bytes _ := { records := bytes.map fun b => { frame := b } }

def sampleArchive (name : Nat) : Chunk (List Nat) := { bytes := [name, name + 1] }

/-- The file is loaded under the catalog `true`, given up under `false` and taken for loaded when
the catalog is `true` again. -/
theorem not_loaded_sample :
    Admitted History.Grows (History.next sampleLoader sampleArchive) {}
      [⟨[7], true, 500, none⟩, ⟨[7], false, 500, some 1⟩, ⟨[7], true, 500, none⟩] ∧
    ¬ Loaded sampleLoader sampleArchive
      (exec (History.next sampleLoader sampleArchive) {}
        [⟨[7], true, 500, none⟩, ⟨[7], false, 500, some 1⟩, ⟨[7], true, 500, none⟩]).sink
      [7] true := by
  refine ⟨by decide, fun hloaded => ?_⟩
  have hrows := hloaded.1 7 (List.mem_singleton_self 7) ⟨7, 7, true, true, 2, 0⟩ rfl rfl 500 .frames
  exact absurd hrows (by decide)

theorem loaded_of_sound_sample :
    Loaded sampleLoader sampleArchive
      ((exec (History.next sampleLoader sampleArchive) {}
        [⟨[7], true, 500, none⟩, ⟨[7], false, 500, some 1⟩]).next sampleLoader sampleArchive
          ⟨[7, 9], false, 1, none⟩).sink [7, 9] false := by
  refine loaded_of_sound [⟨[7], true, 500, none⟩, ⟨[7], false, 500, some 1⟩]
    ⟨[7, 9], false, 1, none⟩ (by decide) (by decide) rfl ⟨by decide, ?_, fun _ _ _ _ _ => rfl⟩
  intro f hf hbegun hcurrent
  exact ⟨f, by revert hf; revert f; decide, rfl⟩

end EspCars.Sdlog
