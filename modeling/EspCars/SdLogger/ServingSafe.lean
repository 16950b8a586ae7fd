import EspCars.SdLogger.Serving

/-!
# A chunk being served is not pulled away

The serving flag of an entry belongs to one party, a transfer or the writer in the middle of an
unlink or a rename, and `Tenure` is what that takes of the index, the transfers and the place of
the writer. A transfer that outlives its entry, because the index was cleared under it, is met only
while the index stays empty, and the drain before the unmount waits for it.
-/

namespace EspCars.SdLogger

open EspCars.Lib CollectionPolicy

variable {capacity : Nat}

/-! ## The flags of the index -/

namespace CollectionPolicy

variable {p : CollectionPolicy capacity} {seq : UInt32}

theorem Inv.step {p : CollectionPolicy capacity} (h : Inv p) (c : Call) : Inv (p.step c) :=
  h.of_effect (effect p c)

variable {f : ChunkEntry → ChunkEntry} {state : ChunkState} {v : ChunkEntry}

theorem find_modify (hkey : ∀ e, (f e).seq = e.seq) (n : UInt32) :
    (p.modify seq f).find n = if n = seq then (p.find seq).map f else p.find n :=
  Keyed.find_update hkey n

theorem isServing_of_find_eq {q : CollectionPolicy capacity} {n : UInt32} (h : q.find n = p.find n) :
    q.isServing n = p.isServing n := by
  unfold isServing
  rw [h]

theorem isServing_of_none {n : UInt32} (h : p.find n = none) : p.isServing n = false := by
  unfold isServing
  rw [h]
  rfl

/-- A change that leaves the flag alone. -/
theorem isServing_modify (hkey : ∀ e, (f e).seq = e.seq)
    (hflag : ∀ e, (f e).serving = e.serving) (n : UInt32) :
    (p.modify seq f).isServing n = p.isServing n := by
  unfold isServing
  rw [find_modify hkey]
  by_cases hn : n = seq
  · rw [if_pos hn, hn, Option.map_map]
    congr 2
    exact funext hflag
  · rw [if_neg hn]

theorem isServing_clearServing (n : UInt32) :
    (p.clearServing seq).isServing n = if n = seq then false else p.isServing n := by
  unfold isServing
  show ((p.modify seq _).find n |>.map _).getD false = _
  rw [find_modify (by intro e; rfl)]
  by_cases hn : n = seq
  · rw [if_pos hn, if_pos hn, Option.map_map]
    cases p.find seq <;> rfl
  · rw [if_neg hn, if_neg hn]

theorem isServing_markServing (h : (p.markServing seq).1 = true) (n : UInt32) :
    (p.markServing seq).2.isServing n = if n = seq then true else p.isServing n := by
  unfold markServing at h ⊢
  cases hf : p.find seq with
  | none =>
    rw [hf] at h
    cases h
  | some entry =>
    rw [hf] at h
    simp only at h ⊢
    split_ifs at h ⊢ with hopen hn
    · unfold isServing
      rw [find_modify (by intro e; rfl), if_pos hn, hf]
      rfl
    · unfold isServing
      rw [find_modify (by intro e; rfl), if_neg hn]

/-- A refusal to mark is of the OPEN entry, or of none. -/
theorem markServing_refused (h : (p.markServing seq).1 = false)
    (hopen : (p.find seq).map (·.state) ≠ some .open_) : p.find seq = none := by
  unfold markServing at h
  cases hf : p.find seq with
  | none => rfl
  | some entry =>
    rw [hf] at h hopen
    simp only at h
    split_ifs at h with hs
    exact absurd (congrArg some hs) hopen

theorem isServing_confirm (n : UInt32) : (p.confirm seq).2.isServing n = p.isServing n := by
  unfold confirm
  split
  · rfl
  · split_ifs
    · rfl
    · rfl
    · exact isServing_modify (by intro e; rfl) (by intro e; rfl) n

theorem isServing_seal (bytes : UInt64) (n : UInt32) :
    (p.seal_ seq bytes).2.isServing n = p.isServing n := by
  unfold seal_
  split
  · rfl
  · split_ifs
    · rfl
    · exact isServing_modify (by intro e; rfl) (by intro e; rfl) n

theorem isServing_restate (bytes : UInt64) (n : UInt32) :
    (p.restateSealedBytes seq bytes).2.isServing n = p.isServing n := by
  unfold restateSealedBytes
  split
  · rfl
  · split_ifs
    · rfl
    · exact isServing_modify (by intro e; rfl) (by intro e; rfl) n

theorem isServing_add (bytes : UInt64) (state : ChunkState) (n : UInt32) :
    (p.add seq bytes state).2.isServing n = p.isServing n := by
  unfold add
  split_ifs with hname hfull hopen
  · rfl
  · rfl
  · rfl
  · unfold isServing find
    show ((Keyed.find ChunkEntry.seq n (p.chunks ++ [_])).map _).getD false = _
    rw [Keyed.find_append]
    cases hf : Keyed.find ChunkEntry.seq n p.chunks with
    | some e => rfl
    | none =>
      rw [Option.none_or, Keyed.find_cons]
      split_ifs <;> rfl

/-- The flag is cleared and the entry is dropped in one section. -/
theorem isServing_drop (h : Inv p) (n : UInt32) :
    ((p.clearServing seq).discard seq).2.isServing n =
      if n = seq then false else p.isServing n := by
  have hkept := @isServing_clearServing _ p seq n
  have hnodup := (h.step (.clearServing seq)).nodup
  change ((p.clearServing seq).chunks.map (·.seq)).Nodup at hnodup
  have herased (q : CollectionPolicy capacity)
      (hq : q.chunks = Keyed.erase ChunkEntry.seq seq (p.clearServing seq).chunks) :
      q.isServing n = if n = seq then false else p.isServing n := by
    unfold isServing find
    rw [hq, Keyed.find_erase hnodup]
    by_cases hn : n = seq
    · rw [if_pos hn, if_pos hn]
      rfl
    · rw [if_neg hn, if_neg hn]
      exact hkept.trans (if_neg hn)
  generalize (if n = seq then false else p.isServing n) = kept at hkept herased ⊢
  unfold discard
  split
  · exact hkept
  · split_ifs
    · exact hkept
    · exact herased _ rfl
    · exact herased _ rfl

theorem older_cases {skipServing : Bool} {best : Option ChunkEntry}
    {entry b : ChunkEntry} (h : older capacity state skipServing best entry = some b) :
    best = some b ∨ (b = entry ∧ (skipServing = true → entry.serving = false)) := by
  unfold older at h
  split at h
  · exact Or.inl h
  · next hstate =>
    have hentry : skipServing = true → entry.serving = false := by
      intro hskip
      simpa using fun hs => hstate (Or.inr ⟨hskip, hs⟩)
    split at h
    · exact Or.inr ⟨(Option.some.inj h).symm, hentry⟩
    · split at h
      · exact Or.inr ⟨(Option.some.inj h).symm, hentry⟩
      · exact Or.inl h

/-- The victim of a tier is one of its entries, and idle if busy ones are skipped. -/
theorem mem_of_foldl_older {skipServing : Bool} {l : List ChunkEntry} {best : Option ChunkEntry}
    (h : l.foldl (older capacity state skipServing) best = some v) :
    best = some v ∨ (v ∈ l ∧ (skipServing = true → v.serving = false)) := by
  induction l generalizing best with
  | nil => exact Or.inl h
  | cons entry l ih =>
    obtain hbest | ⟨hmem, hidle⟩ := ih h
    · obtain hbest | ⟨rfl, hidle⟩ := older_cases hbest
      · exact Or.inl hbest
      · exact Or.inr ⟨List.mem_cons_self .., hidle⟩
    · exact Or.inr ⟨List.mem_cons_of_mem _ hmem, hidle⟩

theorem isServing_oldest (hi : Inv p)
    (h : p.oldest state true = some v) : p.isServing v.seq = false := by
  obtain hnone | ⟨hmem, hidle⟩ := mem_of_foldl_older h
  · cases hnone
  unfold isServing find
  rw [Keyed.find_of_mem hi.nodup hmem]
  exact hidle rfl

theorem isServing_nextVictim (hi : Inv p) {fill : UInt8}
    (h : p.nextVictim fill = some v) : p.isServing v.seq = false := by
  unfold nextVictim at h
  split at h
  · cases h
  · split at h
    · next hv =>
      rw [Option.some.inj h] at hv
      exact isServing_oldest hi hv
    · split at h
      · cases h
      · exact isServing_oldest hi h

theorem isServing_indexPressureVictim (hi : Inv p)
    (h : p.indexPressureVictim = some v) : p.isServing v.seq = false := by
  unfold indexPressureVictim at h
  split at h
  · cases h
  · exact isServing_oldest hi h

/-- A change of an entry neither brings one nor takes one away. -/
theorem find_modify_eq_none (hkey : ∀ e, (f e).seq = e.seq)
    (n : UInt32) : (p.modify seq f).find n = none ↔ p.find n = none := by
  rw [find_modify hkey]
  by_cases hn : n = seq
  · rw [if_pos hn, hn, Option.map_eq_none_iff]
  · rw [if_neg hn]

theorem find_markServing_eq_none (n : UInt32) :
    (p.markServing seq).2.find n = none ↔ p.find n = none := by
  unfold markServing
  split
  · rfl
  · split_ifs
    · rfl
    · exact find_modify_eq_none (by intro e; rfl) n

theorem find_clearServing_eq_none (n : UInt32) :
    (p.clearServing seq).find n = none ↔ p.find n = none :=
  find_modify_eq_none (by intro e; rfl) n

theorem find_confirm_eq_none (n : UInt32) :
    (p.confirm seq).2.find n = none ↔ p.find n = none := by
  unfold confirm
  split
  · rfl
  · split_ifs
    · rfl
    · rfl
    · exact find_modify_eq_none (by intro e; rfl) n

theorem find_of_nil (h : p.chunks = []) (n : UInt32) : p.find n = none := by
  unfold find
  rw [h]
  rfl

theorem clearServing_of_nil (h : p.chunks = []) : (p.clearServing seq).chunks = [] := by
  show Keyed.update _ _ _ p.chunks = []
  rw [h]
  rfl

theorem confirm_of_nil (h : p.chunks = []) : (p.confirm seq).2.chunks = [] := by
  unfold confirm
  rw [find_of_nil h]
  exact h

end CollectionPolicy

/-! ## Who holds what -/

/-- What the parties have of the index: the writer has the entry `reserved`, if any, and every
transfer has its own, unless they are `orphaned`. -/
structure Tenure (p : CollectionPolicy capacity) (holds : List Transfer)
    (setBy : UInt32 → Option Party) (reserved : Option UInt32) (orphaned : Bool) : Prop where
  index : p.Inv
  seqs : (holds.map (·.seq)).Nodup
  owned : ∀ n, p.isServing n = true → n ∈ holds.map (·.seq) ∨ reserved = some n
  held : ∀ t ∈ holds,
    orphaned = true ∨ (p.isServing t.seq = true ∧ setBy t.seq = some (.transfer t.id))
  reservation : ∀ n, reserved = some n → p.isServing n = true ∧ setBy n = some .writer

namespace Tenure

variable {p q : CollectionPolicy capacity} {holds : List Transfer}
  {setBy : UInt32 → Option Party} {reserved : Option UInt32} {orphaned : Bool} {seq : UInt32}

theorem ne_of_reserved (h : Tenure p holds setBy (some seq) false) {t : Transfer}
    (ht : t ∈ holds) : t.seq ≠ seq := by
  intro heq
  obtain ho | ⟨-, hset⟩ := h.held t ht
  · cases ho
  · rw [heq, (h.reservation seq rfl).2] at hset
    cases hset

theorem ne_of_idle (h : Tenure p holds setBy reserved false) (hidle : p.isServing seq = false)
    {t : Transfer} (ht : t ∈ holds) : t.seq ≠ seq := by
  intro heq
  obtain ho | ⟨hserving, -⟩ := h.held t ht
  · cases ho
  · rw [heq, hidle] at hserving
    cases hserving

theorem grant (h : Tenure p holds setBy reserved false) (hidle : p.isServing seq = false)
    (hmark : (p.markServing seq).1 = true) (id : Nat) (debug : Bool) :
    Tenure (p.markServing seq).2 (holds ++ [⟨id, seq, debug⟩])
      (fun n => if n = seq then some (.transfer id) else setBy n) reserved false := by
  have hserving := p.isServing_markServing hmark
  refine ⟨h.index.step (.markServing seq), ?_, ?_, ?_, ?_⟩
  · rw [List.map_append, List.nodup_append]
    refine ⟨h.seqs, List.nodup_singleton _, ?_⟩
    intro a ha b hb hab
    obtain ⟨t, ht, rfl⟩ := List.mem_map.mp ha
    exact h.ne_of_idle hidle ht (hab.trans (List.mem_singleton.mp hb))
  · intro n hn
    rw [hserving] at hn
    rw [List.map_append, List.mem_append]
    by_cases hseq : n = seq
    · exact Or.inl (Or.inr (List.mem_singleton.mpr hseq))
    · rw [if_neg hseq] at hn
      exact (h.owned n hn).imp_left Or.inl
  · intro t ht
    right
    rw [hserving]
    rcases List.mem_append.mp ht with ht | ht
    · have hne := h.ne_of_idle hidle ht
      rw [if_neg hne, if_neg hne]
      exact (h.held t ht).resolve_left Bool.false_ne_true
    · rw [List.mem_singleton.mp ht]
      exact ⟨if_pos rfl, if_pos rfl⟩
  · intro n hn
    obtain ⟨hflag, hset⟩ := h.reservation n hn
    have hne : n ≠ seq := by
      rintro rfl
      rw [hidle] at hflag
      cases hflag
    rw [hserving, if_neg hne, if_neg hne]
    exact ⟨hflag, hset⟩

/-- A transfer clears the flag of its entry, which is no one else's. -/
theorem giveBack (h : Tenure p holds setBy reserved orphaned)
    (hfree : orphaned = true → reserved = none) {t : Transfer} (ht : t ∈ holds) :
    Tenure (p.clearServing t.seq) (holds.erase t) setBy reserved orphaned := by
  have hserving := @CollectionPolicy.isServing_clearServing _ p t.seq
  have hother : ∀ u ∈ holds.erase t, u ∈ holds ∧ u.seq ≠ t.seq := by
    intro u hu
    have hnodup : holds.Nodup := h.seqs.of_map
    have hmem := (hnodup.mem_erase_iff).mp hu
    refine ⟨hmem.2, ?_⟩
    intro heq
    exact hmem.1 (List.inj_on_of_nodup_map h.seqs hmem.2 ht heq)
  refine ⟨h.index.step (.clearServing t.seq), ?_, ?_, ?_, ?_⟩
  · exact h.seqs.sublist ((List.erase_sublist ..).map _)
  · intro n hn
    rw [hserving] at hn
    split_ifs at hn with hseq
    rcases h.owned n hn with hmem | hr
    · left
      obtain ⟨u, hu, rfl⟩ := List.mem_map.mp hmem
      refine List.mem_map_of_mem ((List.mem_erase_of_ne ?_).mpr hu)
      rintro rfl
      exact hseq rfl
    · exact Or.inr hr
  · intro u hu
    obtain ⟨hu, hne⟩ := hother u hu
    rw [hserving, if_neg hne]
    exact h.held u hu
  · intro n hn
    obtain ⟨hflag, hset⟩ := h.reservation n hn
    have hne : n ≠ t.seq := by
      rintro rfl
      obtain ho | ⟨-, hown⟩ := h.held t ht
      · rw [hfree ho] at hn
        cases hn
      · rw [hset] at hown
        cases hown
    rw [hserving, if_neg hne]
    exact ⟨hflag, hset⟩

theorem reserve (h : Tenure p holds setBy none false) (hidle : p.isServing seq = false)
    (hmark : (p.markServing seq).1 = true) :
    Tenure (p.markServing seq).2 holds
      (fun n => if n = seq then some .writer else setBy n) (some seq) false := by
  have hserving := p.isServing_markServing hmark
  refine ⟨h.index.step (.markServing seq), h.seqs, ?_, ?_, ?_⟩
  · intro n hn
    rw [hserving] at hn
    split_ifs at hn with hseq
    · exact Or.inr (congrArg some hseq.symm)
    · obtain hmem | hr := h.owned n hn
      · exact Or.inl hmem
      · cases hr
  · intro t ht
    right
    have hne := h.ne_of_idle hidle ht
    rw [hserving, if_neg hne, if_neg hne]
    exact (h.held t ht).resolve_left Bool.false_ne_true
  · rintro n ⟨⟩
    rw [hserving]
    exact ⟨if_pos rfl, if_pos rfl⟩

/-- The writer clears the flag that it set. -/
theorem release (h : Tenure p holds setBy (some seq) false) (hindex : q.Inv)
    (hserving : ∀ n, q.isServing n = if n = seq then false else p.isServing n) :
    Tenure q holds setBy none false := by
  refine ⟨hindex, h.seqs, ?_, ?_, ?_⟩
  · intro n hn
    rw [hserving] at hn
    split_ifs at hn with hseq
    obtain hmem | hr := h.owned n hn
    · exact Or.inl hmem
    · exact absurd (Option.some.inj hr).symm hseq
  · intro t ht
    rw [hserving, if_neg (h.ne_of_reserved ht)]
    exact h.held t ht
  · rintro n ⟨⟩

/-- A call that moves no flag. -/
theorem keep (h : Tenure p holds setBy reserved orphaned) (hindex : q.Inv)
    (hserving : ∀ n, q.isServing n = p.isServing n) :
    Tenure q holds setBy reserved orphaned := by
  refine ⟨hindex, h.seqs, ?_, ?_, ?_⟩
  · intro n hn
    exact h.owned n ((hserving n).symm.trans hn)
  · intro t ht
    rw [hserving]
    exact h.held t ht
  · intro n hn
    rw [hserving]
    exact h.reservation n hn

/-- An empty index, whatever the transfers had in it. -/
theorem forget (h : Tenure p holds setBy reserved orphaned) (hindex : q.Inv)
    (hq : q.chunks = []) : Tenure q holds setBy none true := by
  refine ⟨hindex, h.seqs, ?_, fun _ _ => Or.inl rfl, ?_⟩
  · intro n hn
    rw [isServing_of_none (find_of_nil hq n)] at hn
    cases hn
  · rintro n ⟨⟩

/-- With no transfer left, nobody is orphaned. -/
theorem settle (h : Tenure p [] setBy none orphaned) : Tenure p [] setBy none false := by
  refine ⟨h.index, h.seqs, h.owned, ?_, h.reservation⟩
  intro t ht
  cases ht

end Tenure

/-! ## The places of the writer -/

namespace Place

/-- The entry that the writer has reserved. -/
def reserved : Place → Option UInt32
  | .discarding seq _ _ => some seq
  | .reclaiming seq _ => some seq
  | .dropping seq _ => some seq
  | .releasing seq _ => some seq
  | .receiving intent _ true => some intent.seq
  | .moving intent true => some intent.seq
  | .confirming seq true _ _ => some seq
  | _ => none

/-- The entry that the writer comes to release. -/
def clearing : Place → Option UInt32
  | .dropping seq _ => some seq
  | .releasing seq _ => some seq
  | .confirming seq true _ _ => some seq
  | _ => none

theorem reserved_of_clearing {place : Place} {seq : UInt32} (h : place.clearing = some seq) :
    place.reserved = some seq := by
  cases place with
  | dropping n back => exact h
  | releasing n back => exact h
  | confirming n reserved gone moved =>
    cases reserved with
    | true => exact h
    | false => cases h
  | _ => cases h

/-- The index was cleared, and a transfer may have had an entry in it. -/
def orphaned : Place → Bool
  | .failed => true
  | .draining => true
  | _ => false

end Place

namespace Logger

variable {s s' : Logger capacity}

/-- What holds at the place that the writer is at. -/
def Fits (s : Logger capacity) : Place → Prop
  | .receiving intent renameable reserved =>
    (reserved = true → renameable = true) ∧
      (renameable = true → reserved = false → s.policy.find intent.seq = none)
  | .moving intent reserved => reserved = false → s.policy.find intent.seq = none
  | .failed => s.policy.chunks = []
  | .draining => s.policy.chunks = [] ∧ s.servingOpen = false
  | .drained => s.policy.chunks = [] ∧ s.servingOpen = false ∧ s.transfersInFlight = 0
  | .unmounted => s.policy.chunks = [] ∧ s.servingOpen = false ∧ s.transfersInFlight = 0
  | .mounted =>
    s.policy.chunks = [] ∧ s.servingOpen = false ∧ s.transfersInFlight = 0 ∧ s.card.isSome = true
  | .opened => s.policy.chunks = []
  | _ => True

/-- The reservations are those of the transfers, and the card is there. -/
structure Serves (s : Logger capacity) : Prop where
  tenure : Tenure s.policy s.holds s.setBy s.place.reserved s.place.orphaned
  count : s.transfersInFlight = s.holds.length + s.ending + s.raw
  card : s.servingOpen = true ∨ s.holds ≠ [] → s.card.isSome = true
  fits : s.Fits s.place

/-- The only assumption: the drain of an unmount ends with no transfer in flight. -/
def Drains (s : Logger capacity) : Action → Prop
  | .writer .. => s.place = .draining → s.transfersInFlight = 0
  | _ => True

instance (s : Logger capacity) (a : Action) : Decidable (s.Drains a) := by
  cases a with
  | writer ok bytes => exact inferInstanceAs (Decidable (_ → _))
  | _ => exact inferInstanceAs (Decidable True)

/-! ## The httpd task -/

theorem Serves.orphaned_bare (h : Serves s) (ho : s.place.orphaned = true) :
    s.policy.chunks = [] := by
  have hfits := h.fits
  cases hplace : s.place with
  | failed =>
    rw [hplace] at hfits
    exact hfits
  | draining =>
    rw [hplace] at hfits
    exact hfits.1
  | _ =>
    rw [hplace] at ho
    cases ho

variable {place : Place} {seq : UInt32} {reserved : Bool}

theorem reserved_of_orphaned (ho : place.orphaned = true) : place.reserved = none := by
  cases place with
  | failed => rfl
  | draining => rfl
  | _ => cases ho

/-- The httpd task leaves the writer where it is. -/
theorem Fits.httpd (h : s.Fits place) (hgate : s'.servingOpen = s.servingOpen)
    (hcard : s'.card = s.card)
    (hnone : ∀ n, s.policy.find n = none → s'.policy.find n = none)
    (hnil : s.policy.chunks = [] → s'.policy.chunks = [])
    (hquiet : s.servingOpen = false → s.transfersInFlight = 0 → s'.transfersInFlight = 0) :
    s'.Fits place := by
  cases place with
  | receiving intent renameable reserved => exact ⟨h.1, fun hr hn => hnone _ (h.2 hr hn)⟩
  | moving intent reserved => exact fun hr => hnone _ (h hr)
  | failed => exact hnil h
  | draining => exact ⟨hnil h.1, hgate.trans h.2⟩
  | drained => exact ⟨hnil h.1, hgate.trans h.2.1, hquiet h.2.1 h.2.2⟩
  | unmounted => exact ⟨hnil h.1, hgate.trans h.2.1, hquiet h.2.1 h.2.2⟩
  | mounted =>
    refine ⟨hnil h.1, hgate.trans h.2.1, hquiet h.2.1 h.2.2.1, ?_⟩
    rw [hcard]
    exact h.2.2.2
  | opened => exact hnil h
  | _ => trivial

theorem Serves.grant (h : Serves s) (hopen : s.servingOpen = true)
    (hidle : s.policy.isServing seq = false) (hmark : (s.policy.markServing seq).1 = true)
    (debug : Bool) : Serves (s.grant seq debug) := by
  have hsome : s.policy.chunks ≠ [] := by
    intro hnil
    unfold markServing at hmark
    rw [find_of_nil hnil] at hmark
    cases hmark
  have ho : s.place.orphaned = false := by
    cases ho : s.place.orphaned
    · rfl
    · exact absurd (h.orphaned_bare ho) hsome
  have htenure := h.tenure
  rw [ho] at htenure
  refine ⟨?_, ?_, fun _ => h.card (Or.inl hopen), ?_⟩
  · show Tenure _ _ _ s.place.reserved s.place.orphaned
    rw [ho]
    exact htenure.grant hidle hmark s.granted debug
  · show s.transfersInFlight + 1 = (s.holds ++ [_]).length + s.ending + s.raw
    rw [h.count, List.length_append, List.length_singleton]
    omega
  · refine h.fits.httpd rfl rfl ?_ (fun hnil => absurd hnil hsome) ?_
    · intro n hn
      exact (find_markServing_eq_none n).mpr hn
    · intro hshut
      rw [hopen] at hshut
      cases hshut

/-- A transfer is granted through the gate, and of an entry whose flag is down. -/
theorem collectionBeginServe_cases (s : Logger capacity) (seq : UInt32) :
    (s.collectionBeginServe seq).2 = s ∨
      (s.servingOpen = true ∧ s.policy.isServing seq = false ∧
        (s.policy.markServing seq).1 = true ∧
        (s.collectionBeginServe seq).2 = s.grant seq false) := by
  unfold collectionBeginServe
  split
  · exact Or.inl rfl
  · next hgate =>
    split
    · exact Or.inl rfl
    · split
      · exact Or.inl rfl
      · split
        · exact Or.inl rfl
        · next hidle =>
          split
          · exact Or.inl rfl
          · next hmark =>
            exact Or.inr ⟨by simpa using hgate, by simpa using hidle, by simpa using hmark, rfl⟩

theorem beginDebug_cases (s : Logger capacity) (seq : UInt32) (named : ChunkState) :
    (s.beginDebug seq named).2 = s ∨
      (s.servingOpen = true ∧ s.policy.isServing seq = false ∧
        (s.policy.markServing seq).1 = true ∧ (s.beginDebug seq named).2 = s.grant seq true) := by
  unfold beginDebug
  split
  · exact Or.inl rfl
  · next hgate =>
    rw [not_or] at hgate
    split
    · exact Or.inl rfl
    · split
      · exact Or.inl rfl
      · next hrefused =>
        rw [not_or, not_or] at hrefused
        exact Or.inr ⟨by simpa using hgate.1, by simpa using hrefused.2.1,
          by simpa using hrefused.2.2, rfl⟩

theorem Serves.collectionBeginServe (h : Serves s) (seq : UInt32) :
    Serves (s.collectionBeginServe seq).2 := by
  obtain heq | ⟨hgate, hidle, hmark, heq⟩ := s.collectionBeginServe_cases seq
  · rw [heq]
    exact h
  · rw [heq]
    exact h.grant hgate hidle hmark false

theorem Serves.beginDebug (h : Serves s) (seq : UInt32) (named : ChunkState) :
    Serves (s.beginDebug seq named).2 := by
  obtain heq | ⟨hgate, hidle, hmark, heq⟩ := s.beginDebug_cases seq named
  · rw [heq]
    exact h
  · rw [heq]
    exact h.grant hgate hidle hmark true

/-- The end of a transfer, up to how many are counted. -/
theorem Serves.giveBack (h : Serves s) {t : Transfer} (ht : t ∈ s.holds) {ending transfers : Nat}
    (hcount : transfers = (s.holds.length - 1) + ending + s.raw)
    (hquiet : s.transfersInFlight = 0 → transfers = 0) :
    Serves
      { s with
        policy := s.policy.clearServing t.seq
        holds := s.holds.erase t
        ending
        transfersInFlight := transfers } := by
  refine ⟨h.tenure.giveBack reserved_of_orphaned ht, ?_, ?_, ?_⟩
  · show transfers = (s.holds.erase t).length + ending + s.raw
    rw [List.length_erase_of_mem ht]
    exact hcount
  · intro hopen
    exact h.card (hopen.imp_right fun _ => List.ne_nil_of_mem ht)
  · refine h.fits.httpd rfl rfl ?_ clearServing_of_nil (fun _ => hquiet)
    intro n hn
    exact (find_clearServing_eq_none n).mpr hn

theorem Serves.clearServe (h : Serves s) (n : Nat) : Serves (s.clearServe n) := by
  unfold Logger.clearServe
  split
  · exact h
  · next t ht =>
    have hmem := List.mem_of_find?_eq_some ht
    have hpos := List.length_pos_of_mem hmem
    refine h.giveBack hmem ?_ id
    rw [h.count]
    omega

theorem Serves.endDebug (h : Serves s) (n : Nat) : Serves (s.endDebug n) := by
  unfold Logger.endDebug
  split
  · exact h
  · next t ht =>
    have hmem := List.mem_of_find?_eq_some ht
    have hpos := List.length_pos_of_mem hmem
    have hcount := h.count
    refine h.giveBack hmem ?_ ?_
    · omega
    · omega

/-- A change of the counters of the httpd task alone. -/
theorem Serves.recount (h : Serves s) {ending raw transfers : Nat}
    (hcount : transfers = s.holds.length + ending + raw)
    (hquiet : s.servingOpen = false → s.transfersInFlight = 0 → transfers = 0) :
    Serves { s with ending, raw, transfersInFlight := transfers } :=
  ⟨h.tenure, hcount, h.card, h.fits.httpd rfl rfl (fun _ => id) id hquiet⟩

theorem Serves.collectionConfirm (h : Serves s) (seq : UInt32) :
    Serves (s.collectionConfirm seq).2 := by
  have hheard : Serves (s.hear seq) := { h with }
  unfold Logger.collectionConfirm
  split
  · exact h
  · split
    · exact h
    · split
      · exact h
      · split
        · exact hheard
        · split
          · exact h
          · refine ⟨?_, h.count, h.card, ?_⟩
            · exact h.tenure.keep (h.tenure.index.step (.confirm seq))
                s.policy.isServing_confirm
            · refine h.fits.httpd rfl rfl ?_ confirm_of_nil (fun _ => id)
              intro n hn
              exact (find_confirm_eq_none n).mpr hn

/-! ## The writer task -/

theorem Serves.of_writer (h : Serves s) (hholds : s'.holds = s.holds)
    (hcounts : s'.transfersInFlight = s.transfersInFlight ∧ s'.ending = s.ending ∧ s'.raw = s.raw)
    (hgate : s'.servingOpen = true → s.servingOpen = true)
    (hcard : s.card.isSome = true → s'.card.isSome = true)
    (htenure : Tenure s'.policy s'.holds s'.setBy s'.place.reserved s'.place.orphaned)
    (hfits : s'.Fits s'.place) : Serves s' := by
  refine ⟨htenure, ?_, ?_, hfits⟩
  · rw [hcounts.1, hcounts.2.1, hcounts.2.2, hholds]
    exact h.count
  · intro hopen
    rw [hholds] at hopen
    exact hcard (h.card (hopen.imp_left hgate))

theorem isSome_map_card {f : Directory → Directory} (h : s.card.isSome = true) :
    (s.card.map f).isSome = true := by
  rw [Option.isSome_map]
  exact h

/-- A step to a place where the writer has reserved nothing. -/
theorem Serves.moved (h : Serves s) (ht : Tenure s.policy s.holds s.setBy none false)
    (hplace : place.reserved = none ∧ place.orphaned = false)
    {card : Option Directory} (hcard : s.card.isSome = true → card.isSome = true)
    {writes : Option Nat} {files : Nat}
    (hfits : { s with card, seq, writes, files, place }.Fits place) :
    Serves { s with card, seq, writes, files, place } := by
  refine h.of_writer rfl ⟨rfl, rfl, rfl⟩ id hcard ?_ hfits
  show Tenure _ _ _ place.reserved place.orphaned
  rw [hplace.1, hplace.2]
  exact ht

/-- A step under the index lock to such a place. -/
theorem Serves.called (h : Serves s) {q : CollectionPolicy capacity}
    (ht : Tenure q s.holds s.setBy none false)
    (hplace : place.reserved = none ∧ place.orphaned = false)
    (hfits : { s with policy := q, place }.Fits place) :
    Serves { s with policy := q, place } := by
  refine h.of_writer rfl ⟨rfl, rfl, rfl⟩ id id ?_ hfits
  show Tenure _ _ _ place.reserved place.orphaned
  rw [hplace.1, hplace.2]
  exact ht

theorem Serves.resume (h : Serves s) {q : CollectionPolicy capacity}
    (ht : Tenure q s.holds s.setBy none false) (back : Return) (dropped : Bool) :
    Serves ({ s with policy := q }.resume back dropped) := by
  cases back with
  | retention => exact h.called ht ⟨rfl, rfl⟩ trivial
  | pressureBefore => exact h.called ht ⟨rfl, rfl⟩ trivial
  | pressureAfter =>
    cases dropped with
    | false => exact h.called ht ⟨rfl, rfl⟩ trivial
    | true => exact h.called ht ⟨rfl, rfl⟩ trivial

theorem Serves.reserveVictim (h : Serves s) (ht : Tenure s.policy s.holds s.setBy none false)
    {victim : Option ChunkEntry} (back : Return)
    (hidle : ∀ v, victim = some v → s.policy.isServing v.seq = false) :
    Serves (s.reserveVictim victim back) := by
  unfold Logger.reserveVictim
  split
  · exact h.resume ht back false
  · next v =>
    unfold Logger.reserve
    by_cases hmark : (s.policy.markServing v.seq).1 = true
    · rw [if_pos hmark, if_pos rfl]
      exact h.of_writer rfl ⟨rfl, rfl, rfl⟩ id id (ht.reserve (hidle v rfl) hmark) trivial
    · rw [if_neg hmark, if_neg Bool.false_ne_true]
      exact h.resume ht back false

theorem Serves.discardUnlink (h : Serves s) (state : ChunkState) (back : Return)
    (ok : Bool) (ht : Tenure s.policy s.holds s.setBy (some seq) false) :
    Serves (s.discardUnlink seq state back ok) := by
  unfold Logger.discardUnlink
  split
  · refine h.of_writer rfl ⟨rfl, rfl, rfl⟩ id id ?_ ?_
    · show Tenure _ _ _ (Place.reserved (if _ then _ else _)) (Place.orphaned (if _ then _ else _))
      split_ifs
      · exact ht
      · exact ht
    · show Logger.Fits _ (if _ then _ else _)
      split_ifs
      · trivial
      · trivial
  · split
    · exact h.of_writer rfl ⟨rfl, rfl, rfl⟩ id isSome_map_card ht trivial
    · exact h.of_writer rfl ⟨rfl, rfl, rfl⟩ id id ht trivial

theorem Serves.reclaimUnlink (h : Serves s) (back : Return) (ok : Bool)
    (ht : Tenure s.policy s.holds s.setBy (some seq) false) :
    Serves (s.reclaimUnlink seq back ok) := by
  refine h.of_writer rfl ⟨rfl, rfl, rfl⟩ id ?_ ht trivial
  intro hcard
  show (if ok then s.card.map _ else s.card).isSome = true
  split
  · exact isSome_map_card hcard
  · exact hcard

theorem Serves.dropReserved (h : Serves s) (back : Return)
    (ht : Tenure s.policy s.holds s.setBy (some seq) false) : Serves (s.dropReserved seq back) :=
  h.resume (ht.release ((ht.index.step (.clearServing seq)).step (.discard seq))
    (isServing_drop ht.index)) back _

theorem Serves.releaseReserved (h : Serves s) (back : Return)
    (ht : Tenure s.policy s.holds s.setBy (some seq) false) :
    Serves (s.releaseReserved seq back) :=
  h.resume (ht.release (ht.index.step (.clearServing seq))
    isServing_clearServing) back _

theorem Serves.drainConfirms (h : Serves s) (ht : Tenure s.policy s.holds s.setBy none false) :
    Serves s.drainConfirms := by
  unfold Logger.drainConfirms
  split
  · exact h
  · next intent _ _ =>
    split
    · exact h
    · next hidle =>
      split
      · refine h.called ht ⟨rfl, rfl⟩ ⟨?_, ?_⟩
        · exact id
        · exact fun hr => absurd hr Bool.false_ne_true
      · next hopen =>
        unfold Logger.reserve
        by_cases hmark : (s.policy.markServing intent.seq).1 = true
        · rw [if_pos hmark]
          refine h.of_writer rfl ⟨rfl, rfl, rfl⟩ id id ?_ ⟨fun _ => rfl, ?_⟩
          · exact ht.reserve (by simpa using hidle) hmark
          · exact fun _ hr => absurd hr.symm Bool.false_ne_true
        · rw [if_neg hmark]
          refine h.called ht ⟨rfl, rfl⟩ ⟨fun _ => rfl, fun _ _ => ?_⟩
          exact markServing_refused (by simpa using hmark) hopen

theorem Serves.receiveIntent (h : Serves s) {intent : Intent} {renameable : Bool}
    (hplace : s.place = .receiving intent renameable reserved) :
    Serves (s.receiveIntent intent renameable reserved) := by
  have ht := h.tenure
  have hfits := h.fits
  rw [hplace] at ht hfits
  unfold Logger.receiveIntent
  split
  · cases reserved with
    | true => exact h.of_writer rfl ⟨rfl, rfl, rfl⟩ id id ht trivial
    | false => exact h.of_writer rfl ⟨rfl, rfl, rfl⟩ id id ht trivial
  · cases renameable with
    | true =>
      refine h.of_writer rfl ⟨rfl, rfl, rfl⟩ id id ?_ (hfits.2 rfl)
      cases reserved with
      | true => exact ht
      | false => exact ht
    | false =>
      cases reserved with
      | true => exact absurd (hfits.1 rfl) Bool.false_ne_true
      | false => exact h.of_writer rfl ⟨rfl, rfl, rfl⟩ id id ht trivial

theorem Serves.renameChunk (h : Serves s) {intent : Intent}
    (hplace : s.place = .moving intent reserved) (ok : Bool) :
    Serves (s.renameChunk intent reserved ok) := by
  have ht := h.tenure
  rw [hplace] at ht
  have hnext (gone : Bool) (moved : Option Nat) :
      Tenure s.policy s.holds s.setBy (Place.confirming intent.seq reserved gone moved).reserved
        (Place.confirming intent.seq reserved gone moved).orphaned := by
    cases reserved with
    | true => exact ht
    | false => exact ht
  unfold Logger.renameChunk
  split
  · exact h.of_writer rfl ⟨rfl, rfl, rfl⟩ id id (hnext _ _) trivial
  · split
    · exact h.of_writer rfl ⟨rfl, rfl, rfl⟩ id isSome_map_card (hnext _ _) trivial
    · exact h.of_writer rfl ⟨rfl, rfl, rfl⟩ id id (hnext _ _) trivial

theorem Serves.applyConfirm (h : Serves s) {gone : Bool}
    {moved : Option Nat} (hplace : s.place = .confirming seq reserved gone moved) :
    Serves (s.applyConfirm seq reserved gone) := by
  have ht := h.tenure
  rw [hplace] at ht
  have hreleased : Tenure (if reserved then s.policy.clearServing seq else s.policy) s.holds
      s.setBy none false := by
    cases reserved with
    | true =>
      exact ht.release (ht.index.step (.clearServing seq)) isServing_clearServing
    | false => exact ht
  refine h.called ?_ ⟨rfl, rfl⟩ trivial
  cases gone with
  | true =>
    exact hreleased.keep (hreleased.index.step (.confirm seq)) isServing_confirm
  | false => exact hreleased

theorem Serves.closeGate (h : Serves s) : Serves s.closeGate := by
  have hindex : (s.policy.clear).Inv := h.tenure.index.step .clear
  refine h.of_writer rfl ⟨rfl, rfl, rfl⟩ ?_ id (h.tenure.forget hindex rfl) ⟨rfl, rfl⟩
  intro hgate
  cases hgate

/-- The transfers that are counted are gone. -/
theorem Serves.holds_eq_nil (h : Serves s) (hquiet : s.transfersInFlight = 0) : s.holds = [] := by
  have hcount := h.count
  apply List.eq_nil_of_length_eq_zero
  omega

theorem Serves.scanEntry (h : Serves s) (ht : Tenure s.policy s.holds s.setBy none false)
    (f : CardFile) (todo : Directory) (next : UInt32) : Serves (s.scanEntry f todo next) := by
  unfold Logger.scanEntry
  dsimp only
  generalize (if f.seq + 1 > next then f.seq + 1 else next) = next
  cases chunkStateOf f.ext with
  | none => exact h.moved ht ⟨rfl, rfl⟩ id trivial
  | some state =>
    dsimp only
    by_cases hfull : s.policy.chunks.length + 1 ≥ capacity
    · rw [if_pos hfull]
      exact h.moved ht ⟨rfl, rfl⟩ id trivial
    · rw [if_neg hfull]
      exact h.moved ht ⟨rfl, rfl⟩ id trivial

theorem Serves.addOpen (h : Serves s) (ht : Tenure s.policy s.holds s.setBy none false)
    (bytes : UInt64) (again : Bool) : Serves (s.addOpen bytes again) := by
  have hadded := ht.keep (ht.index.step (.add s.seq bytes .open_))
    (s.policy.isServing_add bytes .open_)
  unfold Logger.addOpen
  dsimp only
  split
  · exact h.called hadded ⟨rfl, rfl⟩ trivial
  · exact h.called hadded ⟨rfl, rfl⟩ trivial

theorem Serves.beginOpen (h : Serves s) (ht : Tenure s.policy s.holds s.setBy none false)
    (seq : UInt32) : Serves (s.beginOpen seq) := by
  unfold Logger.beginOpen
  split
  · exact h.moved ht ⟨rfl, rfl⟩ id trivial
  · exact h.moved ht ⟨rfl, rfl⟩ id trivial

theorem Fits.fence (h : s.Fits place) : { s with servingOpen := false }.Fits place := by
  cases place with
  | draining => exact ⟨h.1, rfl⟩
  | drained => exact ⟨h.1, rfl, h.2.2⟩
  | unmounted => exact ⟨h.1, rfl, h.2.2⟩
  | mounted => exact ⟨h.1, rfl, h.2.2⟩
  | _ => exact h

theorem Serves.proceed (h : Serves s) {ok : Bool} {bytes : UInt64}
    (hd : s.Drains (.writer ok bytes)) : Serves (s.proceed ok bytes) := by
  have ht := h.tenure
  have hfits := h.fits
  unfold Logger.proceed
  cases hplace : s.place with
  | writing => exact h
  | discarding seq state back =>
    rw [hplace] at ht
    exact h.discardUnlink state back ok ht
  | reclaiming seq back =>
    rw [hplace] at ht
    exact h.reclaimUnlink back ok ht
  | dropping seq back =>
    rw [hplace] at ht
    exact h.dropReserved back ht
  | releasing seq back =>
    rw [hplace] at ht
    exact h.releaseReserved back ht
  | receiving intent renameable reserved => exact h.receiveIntent hplace
  | moving intent reserved => exact h.renameChunk hplace ok
  | confirming seq reserved gone moved => exact h.applyConfirm hplace
  | sealing =>
    rw [hplace] at ht
    exact h.called (ht.keep (ht.index.step (.seal_ s.seq bytes)) (s.policy.isServing_seal bytes))
      ⟨rfl, rfl⟩ trivial
  | sealed => exact h
  | losing =>
    have hindex : (s.policy.clear).Inv := ht.index.step .clear
    exact h.of_writer rfl ⟨rfl, rfl, rfl⟩ id id (ht.forget hindex rfl) rfl
  | failed => exact h
  | draining =>
    rw [hplace] at ht hfits
    have hquiet := hd hplace
    have hnil := h.holds_eq_nil hquiet
    have hsettled : Tenure s.policy s.holds s.setBy none false := by
      rw [hnil] at ht ⊢
      exact ht.settle
    exact h.moved hsettled ⟨rfl, rfl⟩ id ⟨hfits.1, hfits.2, hquiet⟩
  | drained =>
    rw [hplace] at ht hfits
    refine ⟨ht, h.count, ?_, hfits⟩
    rintro (hgate | hne)
    · exact absurd (hfits.2.1.symm.trans hgate) Bool.false_ne_true
    · exact absurd (h.holds_eq_nil hfits.2.2) hne
  | unmounted => exact h
  | mounted =>
    rw [hplace] at ht hfits
    exact ⟨ht, h.count, fun _ => hfits.2.2.2, hfits.1⟩
  | opened =>
    rw [hplace] at ht hfits
    have hcleared : Tenure s.policy.clear s.holds s.setBy none false := by
      refine ht.keep (ht.index.step .clear) ?_
      intro n
      exact isServing_of_find_eq (by
        rw [find_of_nil rfl, find_of_nil hfits])
    show Serves (if ok then _ else _)
    split
    · exact h.called hcleared ⟨rfl, rfl⟩ trivial
    · exact h.of_writer rfl ⟨rfl, rfl, rfl⟩ id id hcleared trivial
  | scanning todo next =>
    rw [hplace] at ht
    cases todo with
    | nil => exact h.moved ht ⟨rfl, rfl⟩ id trivial
    | cons f todo => exact h.scanEntry ht f todo next
  | tracking f state todo next =>
    rw [hplace] at ht
    exact h.called (ht.keep (ht.index.step (.add f.seq bytes state))
      (s.policy.isServing_add bytes state)) ⟨rfl, rfl⟩ trivial
  | scanned => exact h
  | pressing back =>
    rw [hplace] at ht
    exact h.reserveVictim ht back fun v =>
      isServing_indexPressureVictim ht.index
  | creating =>
    rw [hplace] at ht
    show Serves (if ok then _ else _)
    split
    · exact h.moved ht ⟨rfl, rfl⟩ isSome_map_card trivial
    · exact h.moved ht ⟨rfl, rfl⟩ id trivial
  | refused =>
    rw [hplace] at ht
    exact h.moved ht ⟨rfl, rfl⟩ id trivial
  | heading =>
    rw [hplace] at ht
    show Serves (if ok then _ else _)
    split
    · exact h.moved ht ⟨rfl, rfl⟩ id trivial
    · exact h.moved ht ⟨rfl, rfl⟩ id trivial
  | adding again =>
    rw [hplace] at ht
    exact h.addOpen ht bytes again

/-- At these places the writer has reserved nothing. -/
theorem Serves.tenure_at (h : Serves s) (hplace : s.place = place)
    (hnone : place.reserved = none ∧ place.orphaned = false) :
    Tenure s.policy s.holds s.setBy none false := by
  have ht := h.tenure
  rw [hplace, hnone.1, hnone.2] at ht
  exact ht

theorem Serves.step (h : Serves s) (a : Action) (hd : s.Drains a) : Serves (s.step a) := by
  cases a with
  | beginServe seq => exact h.collectionBeginServe seq
  | beginDebug seq named => exact h.beginDebug seq named
  | clearServe n => exact h.clearServe n
  | endServe =>
    have hcount := h.count
    show Serves s.endServe
    unfold Logger.endServe
    split
    · exact h
    · exact h.recount (by omega) (by omega)
  | endDebug n => exact h.endDebug n
  | beginRaw =>
    have hcount := h.count
    show Serves s.beginRawRead
    unfold Logger.beginRawRead
    split
    · exact h
    · next hgate =>
      rw [not_or] at hgate
      refine h.recount (by omega) ?_
      intro hshut
      exact absurd hshut (by simpa using hgate.1)
  | endRaw =>
    have hcount := h.count
    show Serves s.endRawRead
    unfold Logger.endRawRead
    split
    · exact h
    · exact h.recount (by omega) (by omega)
  | confirm seq => exact h.collectionConfirm seq
  | retain fill =>
    show Serves (if _ then _ else _)
    split
    · next hplace =>
      have ht := h.tenure_at hplace ⟨rfl, rfl⟩
      exact h.reserveVictim ht .retention fun v => isServing_nextVictim ht.index
    · exact h
  | drain =>
    show Serves (if _ then _ else _)
    split
    · next hplace => exact h.drainConfirms (h.tenure_at hplace ⟨rfl, rfl⟩)
    · exact h
  | closeFile flushed =>
    show Serves (if _ then (if _ then _ else _) else _)
    split
    · next hplace =>
      have ht := h.tenure_at hplace ⟨rfl, rfl⟩
      split
      · exact h.moved ht ⟨rfl, rfl⟩ id trivial
      · exact h.moved ht ⟨rfl, rfl⟩ id trivial
    · exact h
  | fail =>
    show Serves (if _ then _ else _)
    split
    · next hplace => exact h.moved (h.tenure_at hplace ⟨rfl, rfl⟩) ⟨rfl, rfl⟩ id trivial
    · exact h
  | fence =>
    show Serves (if _ then _ else _)
    split
    · refine h.of_writer rfl ⟨rfl, rfl, rfl⟩ ?_ id h.tenure h.fits.fence
      intro hgate
      cases hgate
    · exact h
  | writer ok bytes => exact h.proceed hd
  | unmount =>
    show Serves (if _ then _ else _)
    split
    · exact h.closeGate
    · exact h
  | mount dir =>
    show Serves (if _ then _ else _)
    split
    · next hplace =>
      have hfits := h.fits
      have ht := h.tenure
      rw [hplace] at hfits ht
      exact ⟨ht, h.count, fun _ => rfl, hfits.1, hfits.2.1, hfits.2.2, rfl⟩
    · exact h
  | restate seq bytes =>
    show Serves (if _ then _ else _)
    split
    · next hplace =>
      refine h.of_writer rfl ⟨rfl, rfl, rfl⟩ id id ?_ ?_
      · exact h.tenure.keep (h.tenure.index.step (.restateSealedBytes seq bytes))
          (s.policy.isServing_restate bytes)
      · show Logger.Fits _ s.place
        rw [hplace]
        trivial
    · exact h
  | openNextFile =>
    show Serves (if _ then _ else (if _ then _ else _))
    split
    · next hplace => exact h.beginOpen (h.tenure_at hplace ⟨rfl, rfl⟩) (s.seq + 1)
    · split
      · next hplace => exact h.beginOpen (h.tenure_at hplace ⟨rfl, rfl⟩) s.seq
      · exact h

theorem Serves.start (enabled : Bool) (retentionPercent : UInt8) :
    Serves (start enabled retentionPercent : Logger capacity) := by
  refine ⟨⟨?_, List.nodup_nil, ?_, ?_, ?_⟩, rfl, ?_, rfl, rfl, rfl⟩
  · exact CollectionPolicy.Inv.start.of_sublist (List.Sublist.refl _)
  · intro n hn
    cases hn
  · intro t ht
    cases ht
  · intro n hn
    cases hn
  · rintro (hgate | hne)
    · cases hgate
    · exact absurd rfl hne

theorem Serves.run {enabled : Bool} {retentionPercent : UInt8} {actions : List Action}
    (hd : Admitted Drains Logger.step (Logger.start enabled retentionPercent : Logger capacity)
      actions) :
    Serves (Logger.run enabled retentionPercent actions : Logger capacity) :=
  hd.invariant Serves (fun _ a hadmitted h => h.step a hadmitted)
    (Serves.start enabled retentionPercent)

/-! ## What a step does to the chunks that are served -/

/-- The number of the chunk whose file the step unlinks or renames, or tries to. -/
def pulls (s : Logger capacity) : Action → Option UInt32
  | .writer .. =>
    match s.place with
    | .discarding seq _ _ => some seq
    | .reclaiming seq _ => some seq
    | .moving intent _ => some intent.seq
    | _ => none
  | _ => none

/-- The reservation that the step clears, and who clears it. -/
def clears (s : Logger capacity) : Action → Option (UInt32 × Party)
  | .clearServe id =>
    (s.holds.find? fun t => t.id = id ∧ ¬t.debug).map fun t => (t.seq, .transfer t.id)
  | .endDebug id =>
    (s.holds.find? fun t => t.id = id ∧ t.debug).map fun t => (t.seq, .transfer t.id)
  | .writer .. => s.place.clearing.map fun seq => (seq, .writer)
  | _ => none

theorem Serves.not_pulled (h : Serves s) {a : Action}
    (hpulls : s.pulls a = some seq) {t : Transfer} (ht : t ∈ s.holds) : t.seq ≠ seq := by
  have htenure := h.tenure
  have hfits := h.fits
  cases a with
  | writer ok bytes =>
    cases hplace : s.place with
    | discarding n state back =>
      rw [hplace] at htenure
      rw [pulls, hplace] at hpulls
      exact Option.some.inj hpulls ▸ htenure.ne_of_reserved ht
    | reclaiming n back =>
      rw [hplace] at htenure
      rw [pulls, hplace] at hpulls
      exact Option.some.inj hpulls ▸ htenure.ne_of_reserved ht
    | moving intent reserved =>
      rw [hplace] at htenure hfits
      rw [pulls, hplace] at hpulls
      rw [← Option.some.inj hpulls]
      cases reserved with
      | true => exact htenure.ne_of_reserved ht
      | false => exact htenure.ne_of_idle (isServing_of_none (hfits rfl)) ht
    | _ =>
      rw [pulls, hplace] at hpulls
      cases hpulls
  | _ => cases hpulls

/-- What a step can do to the card. -/
inductive CardMove (s : Logger capacity) (a : Action) : Option Directory → Prop
  | same : CardMove s a s.card
  | removed (seq : UInt32) (ext : Extension) (hpulls : s.pulls a = some seq) :
    CardMove s a (s.card.map (·.remove seq ext))
  | renamed (intent : Intent) (reserved : Bool) (bytes : UInt64) (f : CardFile)
      (hplace : s.place = .moving intent reserved) (ha : a = .writer true bytes)
      (hfile : s.dir.lookup intent.seq .log = some f)
      (hfree : s.dir.lookup intent.seq .upl = none) :
    CardMove s a (s.card.map fun dir => dir.remove intent.seq .log ++ [{ f with ext := .upl }])
  | created (bytes : UInt64) (hplace : s.place = .creating) (ha : a = .writer true bytes) :
    CardMove s a (s.card.map fun dir =>
      dir.remove (s.seq % seqModulus) .log ++ [⟨s.files, s.seq % seqModulus, .log⟩])
  | unmounted (hplace : s.place = .drained) : CardMove s a none
  | mounted (dir : Directory) (hplace : s.place = .unmounted) (ha : a = .mount dir) :
    CardMove s a (some dir)

theorem card_reserve (s : Logger capacity) (seq : UInt32) : (s.reserve seq).2.card = s.card := by
  unfold reserve
  split
  · rfl
  · rfl

theorem card_reserveVictim (s : Logger capacity) (victim : Option ChunkEntry) (back : Return) :
    (s.reserveVictim victim back).card = s.card := by
  unfold reserveVictim
  split
  · rfl
  · split
    · exact s.card_reserve _
    · rfl

theorem card_drainConfirms (s : Logger capacity) : s.drainConfirms.card = s.card := by
  unfold drainConfirms
  split
  · rfl
  · split
    · rfl
    · split
      · rfl
      · exact s.card_reserve _

theorem card_proceed (s : Logger capacity) (ok : Bool) (bytes : UInt64) :
    CardMove s (.writer ok bytes) (s.proceed ok bytes).card := by
  unfold proceed
  cases hplace : s.place with
  | discarding seq state back =>
    show CardMove s _ (s.discardUnlink seq state back ok).card
    unfold discardUnlink
    split
    · exact .same
    · split
      · exact .removed seq _ (by rw [pulls, hplace])
      · exact .same
  | reclaiming seq back =>
    show CardMove s _ (if ok then s.card.map _ else s.card)
    split
    · exact .removed seq _ (by rw [pulls, hplace])
    · exact .same
  | dropping seq back => exact .same
  | releasing seq back => exact .same
  | receiving intent renameable reserved =>
    show CardMove s _ (s.receiveIntent intent renameable reserved).card
    unfold receiveIntent
    split
    · exact .same
    · exact .same
  | moving intent reserved =>
    show CardMove s _ (s.renameChunk intent reserved ok).card
    unfold renameChunk
    split
    · exact .same
    · next f hf =>
      split
      · next hok =>
        rw [hok.1]
        exact .renamed intent reserved bytes f hplace rfl hf (Option.isNone_iff_eq_none.mp hok.2)
      · exact .same
  | drained => exact .unmounted hplace
  | opened =>
    show CardMove s _ (if ok then _ else _ : Logger capacity).card
    split
    · exact .same
    · exact .same
  | scanning todo next =>
    cases todo with
    | nil => exact .same
    | cons f todo => exact .same
  | pressing back =>
    show CardMove s _ (s.reserveVictim s.policy.indexPressureVictim back).card
    rw [card_reserveVictim]
    exact .same
  | creating =>
    cases ok with
    | true => exact .created bytes hplace rfl
    | false => exact .same
  | heading =>
    show CardMove s _ (if ok then _ else _ : Logger capacity).card
    split
    · exact .same
    · exact .same
  | _ => exact .same

theorem card_httpd (s : Logger capacity) (seq : UInt32) (named : ChunkState) (n : Nat) :
    (s.collectionBeginServe seq).2.card = s.card ∧ (s.beginDebug seq named).2.card = s.card ∧
      (s.clearServe n).card = s.card ∧ (s.endDebug n).card = s.card ∧
      (s.collectionConfirm seq).2.card = s.card := by
  refine ⟨?_, ?_, ?_, ?_, ?_⟩
  · obtain heq | ⟨-, -, -, heq⟩ := s.collectionBeginServe_cases seq
    · rw [heq]
    · rw [heq]
      rfl
  · obtain heq | ⟨-, -, -, heq⟩ := s.beginDebug_cases seq named
    · rw [heq]
    · rw [heq]
      rfl
  · unfold clearServe
    split
    · rfl
    · rfl
  · unfold endDebug
    split
    · rfl
    · rfl
  · unfold collectionConfirm
    split
    · rfl
    · split
      · rfl
      · split
        · rfl
        · split
          · rfl
          · split
            · rfl
            · rfl

theorem card_step (s : Logger capacity) (a : Action) : CardMove s a (s.step a).card := by
  have hsame {t : Logger capacity} (ht : t.card = s.card) : CardMove s a t.card := by
    rw [ht]
    exact .same
  cases a with
  | beginServe seq => exact hsame (s.card_httpd seq .none 0).1
  | beginDebug seq named => exact hsame (s.card_httpd seq named 0).2.1
  | clearServe n => exact hsame (s.card_httpd 0 .none n).2.2.1
  | endDebug n => exact hsame (s.card_httpd 0 .none n).2.2.2.1
  | confirm seq => exact hsame (s.card_httpd seq .none 0).2.2.2.2
  | endServe =>
    apply hsame
    show s.endServe.card = s.card
    unfold Logger.endServe
    split
    · rfl
    · rfl
  | beginRaw =>
    apply hsame
    show s.beginRawRead.card = s.card
    unfold Logger.beginRawRead
    split
    · rfl
    · rfl
  | endRaw =>
    apply hsame
    show s.endRawRead.card = s.card
    unfold Logger.endRawRead
    split
    · rfl
    · rfl
  | retain fill =>
    apply hsame
    show (if _ then _ else _ : Logger capacity).card = s.card
    split
    · exact s.card_reserveVictim _ _
    · rfl
  | drain =>
    apply hsame
    show (if _ then _ else _ : Logger capacity).card = s.card
    split
    · exact s.card_drainConfirms
    · rfl
  | closeFile flushed =>
    apply hsame
    show (if _ then (if _ then _ else _) else _ : Logger capacity).card = s.card
    split
    · split
      · rfl
      · rfl
    · rfl
  | writer ok bytes => exact s.card_proceed ok bytes
  | mount dir =>
    show CardMove s _ (if _ then _ else _ : Logger capacity).card
    split
    · next hplace => exact .mounted dir hplace rfl
    · exact .same
  | openNextFile =>
    apply hsame
    show (if _ then _ else (if _ then _ else _) : Logger capacity).card = s.card
    split
    · rfl
    · split
      · rfl
      · rfl
  | _ =>
    apply hsame
    show (if _ then _ else _ : Logger capacity).card = s.card
    split
    · rfl
    · rfl

end Logger

namespace Directory

variable {dir : Directory} {seq n : UInt32} {ext e : Extension}

theorem lookup_append (f : CardFile) :
    (dir ++ [f]).lookup n e = (dir.lookup n e).or (if f.name = (n, e) then some f else none) := by
  unfold lookup
  rw [Keyed.find_append, Keyed.find_cons]
  rfl

theorem lookup_remove_of_ne (h : n ≠ seq ∨ e ≠ ext) :
    (dir.remove seq ext).lookup n e = dir.lookup n e := by
  apply Keyed.find_erase_of_ne
  intro hname
  cases hname
  exact h.elim (fun hn => hn rfl) (fun he => he rfl)

end Directory

namespace Logger

variable {s : Logger capacity}

theorem dir_eq {files : Directory} (h : s.card = some files) : s.dir = files := by
  unfold dir
  rw [h]
  rfl

/-- While a chunk is served, no step takes its card or a name with its number away. -/
theorem Serves.name_kept (h : Serves s) (a : Action) {t : Transfer} (ht : t ∈ s.holds) :
    (s.step a).card.isSome = true ∧
      ∀ ext, (s.dir.lookup t.seq ext).isSome = true →
        ((s.step a).dir.lookup t.seq ext).isSome = true := by
  have hcard := h.card (Or.inr (List.ne_nil_of_mem ht))
  obtain ⟨dir, hdir⟩ := Option.isSome_iff_exists.mp hcard
  rw [dir_eq hdir]
  have hmove := s.card_step a
  generalize hnext : (s.step a).card = card at hmove ⊢
  cases hmove with
  | same =>
    rw [dir_eq (hnext.trans hdir)]
    exact ⟨hcard, fun _ => id⟩
  | removed seq ext hpulls =>
    rw [hdir] at hnext ⊢
    rw [dir_eq hnext]
    refine ⟨rfl, fun e he => ?_⟩
    rwa [Directory.lookup_remove_of_ne (Or.inl (h.not_pulled hpulls ht))]
  | renamed intent reserved bytes f hplace ha hfile hfree =>
    have hpulls : s.pulls a = some intent.seq := by
      rw [ha, pulls, hplace]
    rw [hdir] at hnext ⊢
    rw [dir_eq hnext]
    refine ⟨rfl, fun e he => ?_⟩
    rw [Directory.lookup_append,
      Directory.lookup_remove_of_ne (Or.inl (h.not_pulled hpulls ht))]
    rw [Option.isSome_or, he, Bool.true_or]
  | created bytes hplace ha =>
    rw [hdir] at hnext ⊢
    rw [dir_eq hnext]
    refine ⟨rfl, fun e he => ?_⟩
    rw [Directory.lookup_append, Option.isSome_or]
    by_cases hname : t.seq = s.seq % seqModulus ∧ e = .log
    · rw [if_pos (by rw [hname.1, hname.2]; rfl)]
      exact Bool.or_true _
    · rw [Directory.lookup_remove_of_ne (not_and_or.mp hname), he, Bool.true_or]
  | unmounted hplace =>
    have hfits := h.fits
    rw [hplace] at hfits
    rw [h.holds_eq_nil hfits.2.2] at ht
    cases ht
  | mounted dir hplace ha =>
    have hfits := h.fits
    rw [hplace] at hfits
    rw [h.holds_eq_nil hfits.2.2] at ht
    cases ht

variable {seq n : UInt32}

theorem Serves.cleared_by_setter (h : Serves s) {a : Action} {party : Party}
    (hclears : s.clears a = some (seq, party)) (hserving : s.policy.isServing seq = true) :
    s.setBy seq = some party := by
  have htransfer {t : Transfer} (ht : t ∈ s.holds) (hflag : s.policy.isServing t.seq = true) :
      s.setBy t.seq = some (.transfer t.id) := by
    obtain ho | ⟨-, hset⟩ := h.tenure.held t ht
    · rw [isServing_of_none
        (find_of_nil (h.orphaned_bare ho) _)] at hflag
      cases hflag
    · exact hset
  cases a with
  | clearServe n =>
    obtain ⟨t, hfound, heq⟩ := Option.map_eq_some_iff.mp hclears
    cases heq
    exact htransfer (List.mem_of_find?_eq_some hfound) hserving
  | endDebug n =>
    obtain ⟨t, hfound, heq⟩ := Option.map_eq_some_iff.mp hclears
    cases heq
    exact htransfer (List.mem_of_find?_eq_some hfound) hserving
  | writer ok bytes =>
    obtain ⟨n, hn, heq⟩ := Option.map_eq_some_iff.mp hclears
    cases heq
    exact (h.tenure.reservation seq (Place.reserved_of_clearing hn)).2
  | _ => cases hclears

/-! ## Where flags go down -/

theorem isServing_markServing_of {p : CollectionPolicy capacity}
    (hserving : p.isServing n = true) : (p.markServing seq).2.isServing n = true := by
  by_cases hmark : (p.markServing seq).1 = true
  · rw [p.isServing_markServing hmark]
    split
    · rfl
    · exact hserving
  · have hkept : (p.markServing seq).2 = p := by
      unfold markServing at hmark ⊢
      split
      · rfl
      · split
        · rfl
        · next hfound hopen =>
          rw [hfound] at hmark
          simp [hopen] at hmark
    rw [hkept]
    exact hserving

theorem isServing_reserve (hserving : s.policy.isServing n = true) :
    (s.reserve seq).2.policy.isServing n = true := by
  unfold reserve
  split
  · exact isServing_markServing_of hserving
  · exact hserving

theorem isServing_reserveVictim {victim : Option ChunkEntry} {back : Return}
    (hserving : s.policy.isServing n = true) :
    (s.reserveVictim victim back).policy.isServing n = true := by
  unfold reserveVictim
  split
  · exact hserving
  · split
    · exact isServing_reserve hserving
    · exact hserving

theorem isServing_drainConfirms (hserving : s.policy.isServing n = true) :
    s.drainConfirms.policy.isServing n = true := by
  unfold drainConfirms
  split
  · exact hserving
  · split
    · exact hserving
    · split
      · exact hserving
      · exact isServing_reserve hserving

theorem isServing_collectionConfirm (hserving : s.policy.isServing n = true) :
    (s.collectionConfirm seq).2.policy.isServing n = true := by
  unfold collectionConfirm
  split
  · exact hserving
  · split
    · exact hserving
    · split
      · exact hserving
      · split
        · exact hserving
        · split
          · exact hserving
          · exact (s.policy.isServing_confirm n).trans hserving

/-- The writer lowers the flag of the entry that it releases, or empties the index. -/
theorem Serves.lowered_proceed (h : Serves s) {ok : Bool} {bytes : UInt64}
    (hserving : s.policy.isServing n = true)
    (hlow : (s.proceed ok bytes).policy.isServing n = false) :
    s.place.clearing = some n ∨ (s.proceed ok bytes).policy.chunks = [] := by
  have hcleared {seq : UInt32} {q : CollectionPolicy capacity}
      (hq : q.isServing n = if n = seq then false else s.policy.isServing n)
      (hdown : q.isServing n = false) : some seq = some n := by
    by_cases hn : n = seq
    · rw [hn]
    · rw [hq, if_neg hn, hserving] at hdown
      cases hdown
  have hkept {q : CollectionPolicy capacity} (hq : q.isServing n = s.policy.isServing n)
      (hdown : q.isServing n = false) : False := by
    rw [hq, hserving] at hdown
    cases hdown
  revert hlow
  unfold Logger.proceed
  cases hplace : s.place with
  | dropping seq back =>
    intro hlow
    exact Or.inl (hcleared (isServing_drop h.tenure.index n) hlow)
  | releasing seq back =>
    intro hlow
    exact Or.inl (hcleared (isServing_clearServing n) hlow)
  | confirming seq reserved gone moved =>
    intro hlow
    have hconfirm {q : CollectionPolicy capacity}
        (hdown : (if gone then (q.confirm seq).2 else q).isServing n = false) :
        q.isServing n = false := by
      cases gone with
      | true => exact (q.isServing_confirm n).symm.trans hdown
      | false => exact hdown
    cases reserved with
    | true =>
      exact Or.inl (hcleared (isServing_clearServing n) (hconfirm hlow))
    | false => exact (hkept rfl (hconfirm hlow)).elim
  | losing => exact fun _ => Or.inr rfl
  | opened =>
    intro _
    right
    show (if ok then _ else _ : Logger capacity).policy.chunks = []
    split
    · rfl
    · rfl
  | sealing => exact fun hlow => (hkept (s.policy.isServing_seal bytes n) hlow).elim
  | tracking f state todo next =>
    exact fun hlow => (hkept (s.policy.isServing_add bytes state n) hlow).elim
  | adding again =>
    exact fun hlow => (hkept (s.policy.isServing_add bytes .open_ n) hlow).elim
  | pressing back =>
    intro hlow
    exact absurd (isServing_reserveVictim hserving) (by rw [hlow]; exact Bool.false_ne_true)
  | discarding seq state back =>
    intro hlow
    refine (hkept ?_ hlow).elim
    show (s.discardUnlink seq state back ok).policy.isServing n = _
    unfold Logger.discardUnlink
    split
    · rfl
    · split
      · rfl
      · rfl
  | receiving intent renameable reserved =>
    intro hlow
    refine (hkept ?_ hlow).elim
    show (s.receiveIntent intent renameable reserved).policy.isServing n = _
    unfold Logger.receiveIntent
    split
    · rfl
    · rfl
  | moving intent reserved =>
    intro hlow
    refine (hkept ?_ hlow).elim
    show (s.renameChunk intent reserved ok).policy.isServing n = _
    unfold Logger.renameChunk
    split
    · rfl
    · split
      · rfl
      · rfl
  | scanning todo next =>
    cases todo with
    | nil => exact fun hlow => (hkept rfl hlow).elim
    | cons f todo => exact fun hlow => (hkept rfl hlow).elim
  | creating =>
    intro hlow
    refine (hkept ?_ hlow).elim
    show (if ok then _ else _ : Logger capacity).policy.isServing n = _
    split
    · rfl
    · rfl
  | heading =>
    intro hlow
    refine (hkept ?_ hlow).elim
    show (if ok then _ else _ : Logger capacity).policy.isServing n = _
    split
    · rfl
    · rfl
  | _ => exact fun hlow => (hkept rfl hlow).elim

/-- A flag goes down in a `clear_serving` of its entry, or with the whole index. -/
theorem Serves.lowered (h : Serves s) {a : Action}
    (hserving : s.policy.isServing n = true) (hlow : (s.step a).policy.isServing n = false) :
    (∃ party, s.clears a = some (n, party)) ∨ (s.step a).policy.chunks = [] := by
  have hup {t : Logger capacity} (ht : t.policy.isServing n = true)
      (hdown : t.policy.isServing n = false) : False :=
    Bool.false_ne_true (hdown.symm.trans ht)
  cases a with
  | beginServe seq =>
    refine (hup ?_ hlow).elim
    show (s.collectionBeginServe seq).2.policy.isServing n = true
    obtain heq | ⟨-, -, -, heq⟩ := s.collectionBeginServe_cases seq
    · rw [heq]
      exact hserving
    · rw [heq]
      exact isServing_markServing_of hserving
  | beginDebug seq named =>
    refine (hup ?_ hlow).elim
    show (s.beginDebug seq named).2.policy.isServing n = true
    obtain heq | ⟨-, -, -, heq⟩ := s.beginDebug_cases seq named
    · rw [heq]
      exact hserving
    · rw [heq]
      exact isServing_markServing_of hserving
  | clearServe id =>
    change (s.clearServe id).policy.isServing n = false at hlow
    unfold Logger.clearServe at hlow
    cases hfound : s.holds.find? (fun t => t.id = id ∧ ¬t.debug) with
    | none =>
      rw [hfound] at hlow
      exact (hup hserving hlow).elim
    | some t =>
      rw [hfound] at hlow
      have hcleared := (isServing_clearServing n).symm.trans hlow
      split at hcleared
      · next hn =>
        refine Or.inl ⟨.transfer t.id, ?_⟩
        rw [hn]
        exact Option.map_eq_some_iff.mpr ⟨t, hfound, rfl⟩
      · exact (hup hserving hcleared).elim
  | endDebug id =>
    change (s.endDebug id).policy.isServing n = false at hlow
    unfold Logger.endDebug at hlow
    cases hfound : s.holds.find? (fun t => t.id = id ∧ t.debug) with
    | none =>
      rw [hfound] at hlow
      exact (hup hserving hlow).elim
    | some t =>
      rw [hfound] at hlow
      have hcleared := (isServing_clearServing n).symm.trans hlow
      split at hcleared
      · next hn =>
        refine Or.inl ⟨.transfer t.id, ?_⟩
        rw [hn]
        exact Option.map_eq_some_iff.mpr ⟨t, hfound, rfl⟩
      · exact (hup hserving hcleared).elim
  | confirm seq => exact (hup (isServing_collectionConfirm hserving) hlow).elim
  | endServe =>
    refine (hup ?_ hlow).elim
    show s.endServe.policy.isServing n = true
    unfold Logger.endServe
    split
    · exact hserving
    · exact hserving
  | beginRaw =>
    refine (hup ?_ hlow).elim
    show s.beginRawRead.policy.isServing n = true
    unfold Logger.beginRawRead
    split
    · exact hserving
    · exact hserving
  | endRaw =>
    refine (hup ?_ hlow).elim
    show s.endRawRead.policy.isServing n = true
    unfold Logger.endRawRead
    split
    · exact hserving
    · exact hserving
  | retain fill =>
    refine (hup ?_ hlow).elim
    show (if _ then _ else _ : Logger capacity).policy.isServing n = true
    split
    · exact isServing_reserveVictim hserving
    · exact hserving
  | drain =>
    refine (hup ?_ hlow).elim
    show (if _ then _ else _ : Logger capacity).policy.isServing n = true
    split
    · exact isServing_drainConfirms hserving
    · exact hserving
  | closeFile flushed =>
    refine (hup ?_ hlow).elim
    show (if _ then (if _ then _ else _) else _ : Logger capacity).policy.isServing n = true
    split
    · split
      · exact hserving
      · exact hserving
    · exact hserving
  | writer ok bytes =>
    obtain hclearing | hnil := h.lowered_proceed hserving hlow
    · exact Or.inl ⟨.writer, by rw [clears, hclearing]; rfl⟩
    · exact Or.inr hnil
  | unmount =>
    change (if _ then _ else _ : Logger capacity).policy.isServing n = false at hlow
    show _ ∨ (if _ then _ else _ : Logger capacity).policy.chunks = []
    split at hlow
    · next hplace =>
      right
      rw [if_pos hplace]
      rfl
    · exact (hup hserving hlow).elim
  | restate seq bytes =>
    refine (hup ?_ hlow).elim
    show (if _ then _ else _ : Logger capacity).policy.isServing n = true
    split
    · exact (s.policy.isServing_restate bytes n).trans hserving
    · exact hserving
  | openNextFile =>
    refine (hup ?_ hlow).elim
    show (if _ then _ else (if _ then _ else _) : Logger capacity).policy.isServing n = true
    split
    · exact hserving
    · split
      · exact hserving
      · exact hserving
  | _ =>
    refine (hup ?_ hlow).elim
    show (if _ then _ else _ : Logger capacity).policy.isServing n = true
    split
    · exact hserving
    · exact hserving

/-- In every run whose drains end with no transfer in flight: while a chunk is served, no step
unlinks or renames its file or unmounts the card, one transfer at most has it, and a reservation
goes when the party that set it clears it, or with the whole index. -/
theorem served_chunk_stays (enabled : Bool) (retentionPercent : UInt8) (before : List Action)
    (a : Action)
    (hd : Admitted Drains step (start enabled retentionPercent : Logger capacity)
      (before ++ [a])) :
    let s : Logger capacity := run enabled retentionPercent before
    (∀ t ∈ s.holds, s.pulls a ≠ some t.seq ∧ (s.step a).card.isSome = true ∧
      ∀ ext, (s.dir.lookup t.seq ext).isSome = true →
        ((s.step a).dir.lookup t.seq ext).isSome = true) ∧
    (s.holds.map (·.seq)).Nodup ∧
    (∀ seq party, s.clears a = some (seq, party) → s.policy.isServing seq = true →
      s.setBy seq = some party) ∧
    ∀ seq, s.policy.isServing seq = true → (s.step a).policy.isServing seq = false →
      (∃ party, s.clears a = some (seq, party)) ∨ (s.step a).policy.chunks = [] := by
  obtain ⟨hbefore, -⟩ := Admitted.append_iff.mp hd
  have h : Serves (run enabled retentionPercent before : Logger capacity) := Serves.run hbefore
  refine ⟨?_, h.tenure.seqs, ?_, ?_⟩
  · intro t ht
    refine ⟨?_, h.name_kept a ht⟩
    intro hpulls
    exact h.not_pulled hpulls ht rfl
  · intro seq party
    exact h.cleared_by_setter
  · intro seq
    exact h.lowered

/-- Of two chunks the older one is served, and retention is about to unlink the other. -/
def servingRun : List Action :=
  [.mount [⟨0, 5, .log⟩, ⟨1, 6, .log⟩], .writer true 0, .writer true 0, .writer true 0,
    .writer true 4096, .writer true 0, .writer true 4096, .writer true 0, .openNextFile,
    .writer true 0, .writer true 0, .writer true 0, .beginServe 5, .retain 99]

theorem served_chunk_stays_sample :
    (run true 50 servingRun : Logger 8).pulls (.writer true 0) = some 6 ∧
      ((run true 50 servingRun : Logger 8).step (.writer true 0)).dir.lookup 5 .log ≠ none := by
  have hholds : (run true 50 servingRun : Logger 8).holds = [⟨0, 5, false⟩] := by rfl
  have h := @served_chunk_stays 8 true 50 servingRun (.writer true 0) (by decide)
  refine ⟨by rfl, ?_⟩
  have hmem : (⟨0, 5, false⟩ : Transfer) ∈ (run true 50 servingRun : Logger 8).holds := by
    rw [hholds]
    exact List.mem_singleton_self _
  exact Option.isSome_iff_ne_none.mp ((h.1 _ hmem).2.2 .log rfl)

end Logger

end EspCars.SdLogger
