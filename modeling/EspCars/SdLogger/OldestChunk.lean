import EspCars.SdLogger.Serving
import Mathlib

/-!
# The oldest chunk

`seq_before` of `components/sd_logger/collection_policy.h` compares modulo 10^7 inside a window and
by magnitude outside of it. That is no order on all numbers, but it is one on numbers from one run
of the window's length, and on numbers of which no two straddle the wrap: each has a rank there and
`seq_before` compares the ranks. So the fold of `oldest_` has the entry of the least rank.
-/

namespace EspCars.SdLogger

open EspCars.Lib

namespace CollectionPolicy

variable {capacity : Nat}

/-- `oldest_uncollected` -/
def oldestUncollected (p : CollectionPolicy capacity) : Option UInt32 :=
  (p.oldest .sealed false).map (·.seq)

/-! ## Eligible chunks -/

/-- SEALED, in transfer or not. -/
def Uncollected (p : CollectionPolicy capacity) (e : ChunkEntry) : Prop :=
  e ∈ p.chunks ∧ e.state = .sealed

/-- CONFIRMED, or SEALED if nothing is CONFIRMED; only on a card that is full enough. -/
def Victim (p : CollectionPolicy capacity) (fillPercent : UInt8) (e : ChunkEntry) : Prop :=
  p.enabled = true ∧ p.retentionPercent ≤ fillPercent ∧ e ∈ p.chunks ∧ e.serving = false ∧
    (e.state = .confirmed ∨ e.state = .sealed ∧ ∀ e' ∈ p.chunks, e'.state ≠ .confirmed)

/-- CONFIRMED, and only if the index is full. -/
def PressureVictim (p : CollectionPolicy capacity) (e : ChunkEntry) : Prop :=
  p.enabled = true ∧ p.full = true ∧ e ∈ p.chunks ∧ e.serving = false ∧ e.state = .confirmed

/-- The one eligible chunk that is before all others. -/
def IsOldest (capacity : Nat) (eligible : ChunkEntry → Prop) (e : ChunkEntry) : Prop :=
  eligible e ∧
    ∀ e', eligible e' → e' ≠ e → seqBefore capacity e.seq e'.seq = true

/-- What there is to return is returned. -/
def Returns (capacity : Nat) (eligible : ChunkEntry → Prop) (answer : Option ChunkEntry) : Prop :=
  (answer = none ↔ ∀ e, ¬ eligible e) ∧ ∀ e, answer = some e ↔ IsOldest capacity eligible e

/-! ## Where the numbers are ordered -/

/-- How far a number is after `base`. -/
def offset (base seq : UInt32) : Nat := (seq.toNat + 10000000 - base.toNat) % 10000000

/-- All numbers in one run of at most the window and one. -/
def InOneRun (p : CollectionPolicy capacity) : Prop :=
  ∃ base ≤ seqMax, ∀ e ∈ p.chunks, offset base e.seq ≤ (seqWrapWindow capacity).toNat

/-- No two numbers are neighbours across the wrap. -/
def NoneStraddles (p : CollectionPolicy capacity) : Prop :=
  ∀ e ∈ p.chunks, ∀ e' ∈ p.chunks, e.seq < e'.seq →
    (seqWrapWindow capacity).toNat < 10000000 - (e'.seq.toNat - e.seq.toNat)

end CollectionPolicy

theorem seqWrapWindow_le {capacity : Nat} (h : capacity ≤ 65535) :
    (seqWrapWindow capacity).toNat ≤ 65535 := by
  unfold seqWrapWindow
  split_ifs with hlarge
  · rw [UInt32.toNat_ofNat_of_lt' (by simp only [UInt32.size]; omega)]
    exact h
  · decide

/-- The comparison by numbers. -/
theorem seqBefore_iff {capacity : Nat} {a b : UInt32} (hcap : capacity ≤ 65535) (ha : a ≤ seqMax)
    (hb : b ≤ seqMax) :
    seqBefore capacity a b = true ↔
      (a.toNat < b.toNat ∧
        (seqWrapWindow capacity).toNat < 10000000 - (b.toNat - a.toNat)) ∨
      (b.toNat < a.toNat ∧
        10000000 - (a.toNat - b.toNat) ≤ (seqWrapWindow capacity).toNat) := by
  have hwindow := seqWrapWindow_le hcap
  have hmod : seqModulus.toNat = 10000000 := rfl
  have hmax : seqMax.toNat = 9999999 := rfl
  have ha' := UInt32.le_iff_toNat_le.mp ha
  have hb' := UInt32.le_iff_toNat_le.mp hb
  have haa : a % seqModulus = a := by
    rw [← UInt32.toNat_inj, UInt32.toNat_mod, hmod]
    omega
  have hbb : b % seqModulus = b := by
    rw [← UInt32.toNat_inj, UInt32.toNat_mod, hmod]
    omega
  -- The distance from `a` up to `b`, modulo 10^7.
  obtain ⟨forward, hforward⟩ : ∃ f : UInt32, f = if b ≥ a then b - a else seqModulus - (a - b) :=
    ⟨_, rfl⟩
  have hdistance : forward.toNat = if a.toNat ≤ b.toNat then b.toNat - a.toNat
      else 10000000 - (a.toNat - b.toNat) := by
    rw [hforward]
    by_cases hle : a ≤ b
    · rw [if_pos hle, if_pos (UInt32.le_iff_toNat_le.mp hle), UInt32.toNat_sub_of_le _ _ hle]
    · have hlt := UInt32.not_le.mp hle
      have hsub : (a - b).toNat = a.toNat - b.toNat :=
        UInt32.toNat_sub_of_le _ _ (UInt32.le_of_lt hlt)
      have hnat := UInt32.lt_iff_toNat_lt.mp hlt
      rw [if_neg hle, if_neg (Nat.not_le.mpr hnat), UInt32.toNat_sub_of_le, hsub, hmod]
      rw [UInt32.le_iff_toNat_le, hsub, hmod]
      omega
  have hback : (seqModulus - forward).toNat = 10000000 - forward.toNat := by
    rw [UInt32.toNat_sub_of_le, hmod]
    rw [UInt32.le_iff_toNat_le, hmod, hdistance]
    split_ifs <;> omega
  have hzero : forward = 0 ↔ forward.toNat = 0 := by
    rw [← UInt32.toNat_inj]
    rfl
  unfold seqBefore
  dsimp only
  rw [haa, hbb, ← hforward]
  simp only [hzero, UInt32.le_iff_toNat_le, UInt32.lt_iff_toNat_lt, hback]
  split_ifs at hdistance with hle
  · split_ifs with h0 hnear hfar
    · simp only [false_iff]
      omega
    · simp only [true_iff]
      omega
    · simp only [false_iff]
      omega
    · simp only [decide_eq_true_eq]
      omega
  · split_ifs with h0 hnear hfar
    · simp only [false_iff]
      omega
    · simp only [true_iff]
      omega
    · simp only [false_iff]
      omega
    · simp only [decide_eq_true_eq]
      omega

/-! ## Ranks -/

namespace CollectionPolicy

variable {capacity : Nat} {p : CollectionPolicy capacity}

/-- `seq_before` compares ranks. -/
structure Ranks (p : CollectionPolicy capacity) (rank : UInt32 → Nat) : Prop where
  before : ∀ e ∈ p.chunks, ∀ e' ∈ p.chunks,
    seqBefore capacity e.seq e'.seq = true ↔ rank e.seq < rank e'.seq
  inj : ∀ e ∈ p.chunks, ∀ e' ∈ p.chunks, rank e.seq = rank e'.seq → e.seq = e'.seq

theorem NoneStraddles.ranks (h : p.NoneStraddles) (hcap : capacity ≤ 65535)
    (hseq : ∀ e ∈ p.chunks, e.seq ≤ seqMax) : p.Ranks UInt32.toNat := by
  refine ⟨?_, fun e _ e' _ => UInt32.toNat_inj.mp⟩
  intro e he e' he'
  rw [seqBefore_iff hcap (hseq e he) (hseq e' he')]
  constructor
  · rintro (⟨hlt, -⟩ | ⟨hlt, hnear⟩)
    · exact hlt
    · have hfar := h e' he' e he (UInt32.lt_iff_toNat_lt.mpr hlt)
      omega
  · intro hlt
    exact Or.inl ⟨hlt, h e he e' he' (UInt32.lt_iff_toNat_lt.mpr hlt)⟩

theorem InOneRun.exists_ranks (h : p.InOneRun) (hcap : capacity ≤ 65535)
    (hseq : ∀ e ∈ p.chunks, e.seq ≤ seqMax) : ∃ rank, p.Ranks rank := by
  obtain ⟨base, hbase, hrun⟩ := h
  have hwindow := seqWrapWindow_le hcap
  have hmax : seqMax.toNat = 9999999 := rfl
  have hbase' := UInt32.le_iff_toNat_le.mp hbase
  refine ⟨offset base, ?_, ?_⟩
  · intro e he e' he'
    have hle := UInt32.le_iff_toNat_le.mp (hseq e he)
    have hle' := UInt32.le_iff_toNat_le.mp (hseq e' he')
    have hin := hrun e he
    have hin' := hrun e' he'
    rw [seqBefore_iff hcap (hseq e he) (hseq e' he')]
    unfold offset at hin hin' ⊢
    omega
  · intro e he e' he' hoffset
    have hle := UInt32.le_iff_toNat_le.mp (hseq e he)
    have hle' := UInt32.le_iff_toNat_le.mp (hseq e' he')
    unfold offset at hoffset
    rw [← UInt32.toNat_inj]
    omega

variable {rank : UInt32 → Nat} {state : ChunkState} {skipServing : Bool} {e : ChunkEntry}

theorem Ranks.isStrictTotalOrder (h : p.Ranks rank) :
    IsStrictTotalOrder {seq // ∃ e ∈ p.chunks, e.seq = seq} fun a b =>
      seqBefore capacity a.1 b.1 = true := by
  have hinj : Function.Injective fun a : {seq // ∃ e ∈ p.chunks, e.seq = seq} => rank a.1 := by
    rintro ⟨_, e, he, rfl⟩ ⟨_, e', he', rfl⟩ heq
    exact Subtype.ext (h.inj e he e' he' heq)
  have hbefore : ∀ {a b : {seq // ∃ e ∈ p.chunks, e.seq = seq}},
      rank a.1 < rank b.1 ↔ seqBefore capacity a.1 b.1 = true := by
    rintro ⟨_, e, he, rfl⟩ ⟨_, e', he', rfl⟩
    exact (h.before e he e' he').symm
  exact RelEmbedding.isStrictTotalOrder (s := (· < ·)) ⟨⟨_, hinj⟩, hbefore⟩

/-! ## The fold -/

/-- The chunks that `oldest_` looks at. -/
def candidates (p : CollectionPolicy capacity) (state : ChunkState) (skipServing : Bool) :
    List ChunkEntry :=
  p.chunks.filter fun e => e.state = state ∧ ¬ (skipServing ∧ e.serving)

theorem mem_candidates : e ∈ p.candidates state skipServing ↔
      e ∈ p.chunks ∧ e.state = state ∧ (skipServing = true → e.serving = false) := by
  rw [candidates, List.mem_filter, decide_eq_true_eq, not_and, Bool.not_eq_true]

/-- A turn of the loop that does not pass over `entry`. -/
def better (capacity : Nat) (best : Option ChunkEntry) (entry : ChunkEntry) : Option ChunkEntry :=
  best.elim (some entry) fun b => if seqBefore capacity entry.seq b.seq then some entry else best

/-- The entries that are passed over do not matter. -/
theorem oldest_eq (p : CollectionPolicy capacity) (state : ChunkState) (skipServing : Bool) :
    p.oldest state skipServing =
      (p.candidates state skipServing).foldl (better capacity) none := by
  rw [candidates, List.foldl_filter, oldest]
  congr 1
  funext best e
  have holder : older capacity state skipServing best e =
      if e.state ≠ state ∨ skipServing ∧ e.serving then best else better capacity best e := by
    cases best <;> rfl
  rw [holder]
  by_cases hskip : e.state ≠ state ∨ skipServing ∧ e.serving
  · rw [if_pos hskip, if_neg]
    rw [decide_eq_true_eq]
    tauto
  · rw [if_neg hskip, if_pos]
    rw [decide_eq_true_eq]
    tauto

theorem better_cases (capacity : Nat) (best : Option ChunkEntry) (e : ChunkEntry) :
    better capacity best e = some e ∨ better capacity best e = best ∧ best ≠ none := by
  cases best with
  | none => exact Or.inl rfl
  | some best =>
    rw [better, Option.elim_some]
    split_ifs
    · exact Or.inl rfl
    · exact Or.inr ⟨rfl, Option.some_ne_none _⟩

theorem foldl_better_cases (capacity : Nat) (l : List ChunkEntry) (best : Option ChunkEntry) :
    (∃ e ∈ l, l.foldl (better capacity) best = some e) ∨
      l.foldl (better capacity) best = best ∧ (best = none → l = []) := by
  induction l generalizing best with
  | nil => exact Or.inr ⟨rfl, fun _ => rfl⟩
  | cons e l ih =>
    rw [List.foldl_cons]
    rcases ih (better capacity best e) with ⟨e', he', hfold⟩ | ⟨hfold, -⟩
    · exact Or.inl ⟨e', List.mem_cons_of_mem _ he', hfold⟩
    · rcases better_cases capacity best e with hnew | ⟨hold, hne⟩
      · exact Or.inl ⟨e, List.mem_cons_self .., hfold.trans hnew⟩
      · exact Or.inr ⟨hfold.trans hold, fun h => absurd h hne⟩

/-- Something is returned if there is a candidate, and it is one. -/
theorem oldest_cases (p : CollectionPolicy capacity) (state : ChunkState) (skipServing : Bool) :
    (∃ e ∈ p.candidates state skipServing, p.oldest state skipServing = some e) ∨
      p.oldest state skipServing = none ∧ p.candidates state skipServing = [] := by
  rw [oldest_eq]
  rcases foldl_better_cases capacity (p.candidates state skipServing) none with
    hsome | ⟨hnone, hnil⟩
  · exact Or.inl hsome
  · exact Or.inr ⟨hnone, hnil rfl⟩

theorem oldest_mem
    (h : p.oldest state skipServing = some e) : e ∈ p.candidates state skipServing := by
  rcases p.oldest_cases state skipServing with ⟨e', he', hsome⟩ | ⟨hnone, -⟩
  · rw [h] at hsome
    cases hsome
    exact he'
  · rw [h] at hnone
    cases hnone

theorem oldest_eq_none_iff :
    p.oldest state skipServing = none ↔ ∀ e, e ∉ p.candidates state skipServing := by
  rw [← List.eq_nil_iff_forall_not_mem]
  rcases p.oldest_cases state skipServing with ⟨e, he, hsome⟩ | ⟨hnone, hnil⟩
  · rw [hsome]
    constructor
    · intro h
      cases h
    · intro hnil
      rw [hnil] at he
      cases he
  · exact iff_of_true hnone hnil

/-- Where `seq_before` compares ranks, the fold is that of the least rank. -/
theorem Ranks.foldl_better (h : p.Ranks rank) {l : List ChunkEntry}
    (hl : ∀ e ∈ l, e ∈ p.chunks) {best : Option ChunkEntry}
    (hbest : ∀ b, best = some b → b ∈ p.chunks) :
    l.foldl (better capacity) best =
      l.foldl (List.argAux fun e e' => rank e.seq < rank e'.seq) best := by
  induction l generalizing best with
  | nil => rfl
  | cons e l ih =>
    obtain ⟨he, hl⟩ := List.forall_mem_cons.mp hl
    have hturn : better capacity best e =
        List.argAux (fun e e' => rank e.seq < rank e'.seq) best e := by
      cases best with
      | none => rfl
      | some b =>
        have hbefore := h.before e he b (hbest b rfl)
        by_cases hlt : rank e.seq < rank b.seq
        · exact (if_pos (hbefore.mpr hlt)).trans (if_pos hlt).symm
        · exact (if_neg (hbefore.not.mpr hlt)).trans (if_neg hlt).symm
    rw [List.foldl_cons, List.foldl_cons, ← hturn]
    apply ih hl
    intro b hb
    rcases better_cases capacity best e with hnew | ⟨hold, -⟩
    · rw [hnew] at hb
      cases hb
      exact he
    · rw [hold] at hb
      exact hbest b hb

/-- Where ranks are, what is returned is before all other candidates. -/
theorem Ranks.oldest_eq_some_iff (h : p.Ranks rank) (hnodup : (p.chunks.map (·.seq)).Nodup) :
    p.oldest state skipServing = some e ↔
      IsOldest capacity (· ∈ p.candidates state skipServing) e := by
  have hmem : ∀ e ∈ p.candidates state skipServing, e ∈ p.chunks := by
    intro e he
    exact (mem_candidates.mp he).1
  have hargmin : p.oldest state skipServing =
      (p.candidates state skipServing).argmin fun e => rank e.seq := by
    rw [oldest_eq, h.foldl_better hmem (fun b hb => by cases hb)]
    rfl
  rw [hargmin, List.argmin_eq_some_iff, IsOldest]
  constructor
  · rintro ⟨he, hle, -⟩
    refine ⟨he, fun e' he' hne => ?_⟩
    rw [h.before e (hmem e he) e' (hmem e' he')]
    refine Nat.lt_of_le_of_ne (hle e' he') fun heq => hne ?_
    have hseq := h.inj e (hmem e he) e' (hmem e' he') heq
    exact Keyed.eq_of_key_eq hnodup (hmem e' he') (hmem e he) hseq.symm
  · rintro ⟨he, hbefore⟩
    have hlt : ∀ e' ∈ p.candidates state skipServing, e' ≠ e → rank e.seq < rank e'.seq := by
      intro e' he' hne
      exact (h.before e (hmem e he) e' (hmem e' he')).mp (hbefore e' he' hne)
    refine ⟨he, fun e' he' => ?_, fun e' he' hle => ?_⟩
    · by_cases heq : e' = e
      · rw [heq]
      · exact Nat.le_of_lt (hlt e' he' heq)
    · by_cases heq : e' = e
      · rw [heq]
      · exact absurd (hlt e' he' heq) (Nat.not_lt.mpr hle)

/-! ## The three questions -/

/-- An answer is that of `oldest_`, or nothing is eligible. -/
def Asks (p : CollectionPolicy capacity) (eligible : ChunkEntry → Prop)
    (answer : Option ChunkEntry) : Prop :=
  (∃ state skipServing, answer = p.oldest state skipServing ∧
    ∀ e, eligible e ↔ e ∈ p.candidates state skipServing) ∨ answer = none ∧ ∀ e, ¬ eligible e

theorem asks_uncollected (p : CollectionPolicy capacity) :
    p.Asks p.Uncollected (p.oldest .sealed false) := by
  refine Or.inl ⟨.sealed, false, rfl, fun e => ?_⟩
  rw [mem_candidates, Uncollected]
  simp

theorem asks_indexPressureVictim (p : CollectionPolicy capacity) :
    p.Asks p.PressureVictim p.indexPressureVictim := by
  unfold indexPressureVictim
  split_ifs with hoff
  · refine Or.inr ⟨rfl, ?_⟩
    rintro e ⟨henabled, hfull, -⟩
    simp [henabled, hfull] at hoff
  · rw [not_or, not_not, not_not] at hoff
    refine Or.inl ⟨.confirmed, true, rfl, fun e => ?_⟩
    rw [mem_candidates, PressureVictim, hoff.1, hoff.2]
    simp [and_comm]

theorem asks_nextVictim (p : CollectionPolicy capacity) (fillPercent : UInt8) :
    p.Asks (p.Victim fillPercent) (p.nextVictim fillPercent) := by
  unfold nextVictim
  by_cases hoff : ¬p.enabled ∨ fillPercent < p.retentionPercent
  · rw [if_pos hoff]
    refine Or.inr ⟨rfl, ?_⟩
    rintro e ⟨henabled, hfill, -⟩
    rcases hoff with hdisabled | hbelow
    · simp [henabled] at hdisabled
    · exact UInt8.not_le.mpr hbelow hfill
  · rw [if_neg hoff]
    rw [not_or, not_not, UInt8.not_lt] at hoff
    obtain ⟨henabled, hfill⟩ := hoff
    cases hidle : p.oldest .confirmed true with
    | some victim =>
      have hvictim := mem_candidates.mp (oldest_mem hidle)
      refine Or.inl ⟨.confirmed, true, hidle.symm, fun e => ?_⟩
      rw [mem_candidates]
      constructor
      · rintro ⟨-, -, he, hserving, hconfirmed | ⟨-, hnone⟩⟩
        · exact ⟨he, hconfirmed, fun _ => hserving⟩
        · exact absurd hvictim.2.1 (hnone victim hvictim.1)
      · rintro ⟨he, hconfirmed, hserving⟩
        exact ⟨henabled, hfill, he, hserving rfl, Or.inl hconfirmed⟩
    | none =>
      have hnoidle := oldest_eq_none_iff.mp hidle
      dsimp only
      cases hbusy : p.oldest .confirmed false with
      | some busy =>
        -- The free list is busy, not empty.
        have hvictim := mem_candidates.mp (oldest_mem hbusy)
        refine Or.inr ⟨rfl, ?_⟩
        rintro e ⟨-, -, he, hserving, hconfirmed | ⟨-, hnone⟩⟩
        · exact hnoidle e (mem_candidates.mpr ⟨he, hconfirmed, fun _ => hserving⟩)
        · exact hnone busy hvictim.1 hvictim.2.1
      | none =>
        have hnone := oldest_eq_none_iff.mp hbusy
        have hnone' : ∀ e ∈ p.chunks, e.state ≠ .confirmed := by
          intro e he hconfirmed
          exact hnone e (mem_candidates.mpr ⟨he, hconfirmed, fun h => by cases h⟩)
        refine Or.inl ⟨.sealed, true, rfl, fun e => ?_⟩
        rw [mem_candidates]
        constructor
        · rintro ⟨-, -, he, hserving, hconfirmed | ⟨hsealed, -⟩⟩
          · exact absurd hconfirmed (hnone' e he)
          · exact ⟨he, hsealed, fun _ => hserving⟩
        · rintro ⟨he, hsealed, hserving⟩
          exact ⟨henabled, hfill, he, hserving rfl, Or.inr ⟨hsealed, hnone'⟩⟩

theorem Asks.eligible {eligible : ChunkEntry → Prop} {answer : Option ChunkEntry}
    (h : p.Asks eligible answer) (he : answer = some e) : eligible e := by
  rcases h with ⟨state, skipServing, hanswer, heligible⟩ | ⟨hnone, -⟩
  · exact (heligible e).mpr (oldest_mem (hanswer.symm.trans he))
  · rw [hnone] at he
    cases he

theorem Asks.returns {eligible : ChunkEntry → Prop} {answer : Option ChunkEntry}
    (h : p.Asks eligible answer) (hrank : p.Ranks rank)
    (hnodup : (p.chunks.map (·.seq)).Nodup) : Returns capacity eligible answer := by
  rcases h with ⟨state, skipServing, rfl, heligible⟩ | ⟨rfl, hnone⟩
  · have heq : eligible = (· ∈ p.candidates state skipServing) :=
      funext fun e => propext (heligible e)
    rw [heq]
    exact ⟨oldest_eq_none_iff, fun e => hrank.oldest_eq_some_iff hnodup⟩
  · refine ⟨iff_of_true rfl hnone, fun e => ?_⟩
    constructor
    · intro h
      cases h
    · intro h
      exact absurd h.1 (hnone e)

/-- On numbers of one run, and on numbers that do not straddle the wrap, `seq_before` is a strict
total order, and each question is answered with the one eligible chunk that is before all others.
On any numbers a victim is not OPEN, not in transfer and only SEALED if nothing is CONFIRMED, and
the index spends no SEALED chunk. -/
theorem oldest_returned (hcap : capacity ≤ 65535) (calls : List Call) :
    let p : CollectionPolicy capacity := exec step {} calls
    (p.InOneRun ∨ p.NoneStraddles →
      (IsStrictTotalOrder {seq // ∃ e ∈ p.chunks, e.seq = seq} fun a b =>
        seqBefore capacity a.1 b.1 = true) ∧
      (∀ fillPercent,
        Returns capacity (p.Victim fillPercent) (p.nextVictim fillPercent)) ∧
      Returns capacity p.PressureVictim p.indexPressureVictim ∧
      ∃ e, p.oldestUncollected = e.map (·.seq) ∧ Returns capacity p.Uncollected e) ∧
    (∀ fillPercent e, p.nextVictim fillPercent = some e →
      e.state ≠ .open_ ∧ e.serving = false ∧
        (e.state = .sealed → ∀ e' ∈ p.chunks, e'.state ≠ .confirmed)) ∧
    ∀ e, p.indexPressureVictim = some e → e.state ≠ .sealed := by
  intro p
  have hinv : p.Inv := Inv.start.run calls
  have hseq : ∀ e ∈ p.chunks, e.seq ≤ seqMax := hinv.seq_le
  refine ⟨fun hnumbers => ?_, fun fillPercent e he => ?_, fun e he => ?_⟩
  · obtain ⟨rank, hrank⟩ : ∃ rank, p.Ranks rank := by
      rcases hnumbers with hrun | hnone
      · exact hrun.exists_ranks hcap hseq
      · exact ⟨_, hnone.ranks hcap hseq⟩
    exact ⟨hrank.isStrictTotalOrder,
      fun fillPercent => (p.asks_nextVictim fillPercent).returns hrank hinv.nodup,
      p.asks_indexPressureVictim.returns hrank hinv.nodup,
      p.oldest .sealed false, rfl, p.asks_uncollected.returns hrank hinv.nodup⟩
  · obtain ⟨-, -, -, hserving, hconfirmed | ⟨hsealed, hnone⟩⟩ :=
      (p.asks_nextVictim fillPercent).eligible he
    · rw [hconfirmed]
      exact ⟨by decide, hserving, fun h => by cases h⟩
    · rw [hsealed]
      exact ⟨by decide, hserving, fun _ => hnone⟩
  · obtain ⟨-, -, -, -, hconfirmed⟩ := p.asks_indexPressureVictim.eligible he
    rw [hconfirmed]
    decide

/-- Across the ceiling the larger number is the older one. -/
theorem oldest_returned_wrap :
    let p : CollectionPolicy 256 :=
      exec step {} [.configure 90, .add 0 10 .sealed, .add 9999999 20 .sealed]
    p.InOneRun ∧ (p.nextVictim 95).map (·.seq) = some 9999999 ∧
      Returns 256 (p.Victim 95) (p.nextVictim 95) := by
  intro p
  have hrun : p.InOneRun := ⟨9999999, by decide, by decide⟩
  have hcap : 256 ≤ 65535 := by decide
  have hreturned := oldest_returned hcap
    [.configure 90, .add 0 10 .sealed, .add 9999999 20 .sealed]
  exact ⟨hrun, by decide, (hreturned.1 (Or.inl hrun)).2.1 95⟩

end CollectionPolicy

end EspCars.SdLogger
