import EspCars.SdLogger.GapLines

/-!
# Every loss is stated once

A window is in one place at a time: the policy, the owed window, the block, or the card. A line of
the block holds it until its last byte is accepted (`Carries`), and the writer knows by two counters
which of the two it is (`Flight`). The counters have 32 bits, so the files must be shorter than
`2^32` bytes and the losses fewer than `2^32` (`Bounded`).
-/

namespace EspCars.SdLogger

open EspCars.Lib CollectionPolicy

variable {capacity : Nat}

/-! ## Windows -/

namespace DiscardStats.Counts

variable {w w' : DiscardStats} {entries entries' : List ChunkEntry}

theorem nil_of_chunks (h : w.Counts entries) (hlen : entries.length < 2 ^ 32) (h0 : w.chunks = 0) :
    entries = [] := by
  have hn := h.toNat_chunks hlen
  rw [h0] at hn
  exact List.length_eq_zero_iff.mp hn.symm

theorem ne_nil_of_chunks (h : w.Counts entries) (h0 : w.chunks ≠ 0) : entries ≠ [] := by
  rintro rfl
  exact h0 h.chunks

/-- The older window with the newer one. -/
theorem append (h : w.Counts entries) (h' : w'.Counts entries') (h0 : w.chunks ≠ 0)
    (h0' : w'.chunks ≠ 0) :
    DiscardStats.Counts
      { w with
        chunks := w.chunks + w'.chunks, bytes := w.bytes + w'.bytes, lastSeq := w'.lastSeq }
      (entries ++ entries') where
  chunks := by
    rw [List.length_append, UInt32.ofNat_add, ← h.chunks, ← h'.chunks]
  bytes := by
    rw [totalBytes_append, UInt64.ofNat_add, ← h.bytes, ← h'.bytes]
  first := by
    intro hlen e he
    rw [List.length_append] at hlen
    rw [List.head?_append_of_ne_nil _ (h.ne_nil_of_chunks h0)] at he
    exact h.first (by omega) e he
  last := by
    intro e he
    rw [List.getLast?_append_of_ne_nil _ (h'.ne_nil_of_chunks h0')] at he
    exact h'.last e he

end DiscardStats.Counts

/-! ## Lines of the block -/

/-- No line states a window. -/
def Plain (block : List Line) : Prop := ∀ l ∈ block, l.window = none

/-- One line states a window, this one; it is not accepted yet, and `after` bytes follow it. -/
def Carries (w : Window) (after : Nat) (block : List Line) : Prop :=
  ∃ before l rest, block = before ++ l :: rest ∧ l.window = some w ∧ 0 < l.left ∧
    Plain before ∧ Plain rest ∧ pending rest = after

theorem stated_append (ls ls' : List Line) : stated (ls ++ ls') = stated ls ++ stated ls' :=
  List.flatMap_append

variable {l : Line} {w : Window} {block : List Line} {n : Nat}

theorem Line.losses_of_none (h : l.window = none) : l.losses = [] := by
  unfold Line.losses
  rw [h]
  rfl

theorem Line.losses_of_some (h : l.window = some w) : l.losses = w.losses := by
  unfold Line.losses
  rw [h]
  rfl

theorem stated_plain (h : Plain block) : stated block = [] := by
  induction block with
  | nil => rfl
  | cons l block ih =>
    unfold stated
    rw [List.flatMap_cons, Line.losses_of_none (h l List.mem_cons_self)]
    exact ih fun l' hl' => h l' (List.mem_cons_of_mem _ hl')

theorem plain_nil : Plain [] := nofun

theorem plain_append_iff {ls ls' : List Line} : Plain (ls ++ ls') ↔ Plain ls ∧ Plain ls' := by
  unfold Plain
  constructor
  · intro h
    exact ⟨fun l hl => h l (List.mem_append_left _ hl), fun l hl => h l (List.mem_append_right _ hl)⟩
  · rintro ⟨hls, hls'⟩ l hl
    rcases List.mem_append.mp hl with hl | hl
    · exact hls l hl
    · exact hls' l hl

theorem pending_append (ls ls' : List Line) : pending (ls ++ ls') = pending ls + pending ls' := by
  unfold pending
  rw [List.map_append, List.sum_append]

theorem pending_cons (l : Line) (ls : List Line) : pending (l :: ls) = l.left + pending ls := by
  unfold pending
  rw [List.map_cons, List.sum_cons]

namespace Carries

variable {w : Window} {after : Nat} {block : List Line}

theorem stated (h : Carries w after block) : stated block = w.losses := by
  obtain ⟨before, l, rest, rfl, hw, -, hbefore, hrest, -⟩ := h
  rw [stated_append, stated_plain hbefore, List.nil_append]
  unfold SdLogger.stated
  rw [List.flatMap_cons, Line.losses_of_some hw]
  exact (congrArg (w.losses ++ ·) (stated_plain hrest)).trans (List.append_nil _)

theorem lt_pending (h : Carries w after block) : after < pending block := by
  obtain ⟨before, l, rest, rfl, -, hleft, -, -, rfl⟩ := h
  rw [pending_append, pending_cons]
  omega

theorem concat (h : Carries w after block) {l : Line} (hl : l.window = none) :
    Carries w (after + l.left) (block ++ [l]) := by
  obtain ⟨before, line, rest, rfl, hw, hleft, hbefore, hrest, rfl⟩ := h
  refine ⟨before, line, rest ++ [l], by rw [List.append_assoc, List.cons_append], hw, hleft,
    hbefore, plain_append_iff.mpr ⟨hrest, ?_⟩, ?_⟩
  · intro l' hl'
    rwa [List.mem_singleton.mp hl']
  · rw [pending_append, pending_cons]
    rfl

end Carries

theorem holds_concat (h : Plain block)
    (hw : l.window = some w) (hleft : 0 < l.left) : Carries w 0 (block ++ [l]) :=
  ⟨block, l, [], rfl, hw, hleft, h, plain_nil, rfl⟩

/-! ## What is accepted -/

theorem consume_cons_le (h : l.left ≤ n) (block : List Line) : consume n (l :: block) =
      (l :: (consume (n - l.left) block).1, (consume (n - l.left) block).2) := by
  rw [consume, if_pos h]

theorem consume_cons_lt (h : ¬l.left ≤ n) (block : List Line) :
    consume n (l :: block) = ([], { l with left := l.left - n } :: block) := by
  rw [consume, if_neg h]

theorem stated_consume (n : Nat) (block : List Line) :
    stated (consume n block).1 ++ stated (consume n block).2 = stated block := by
  induction block generalizing n with
  | nil => rfl
  | cons l block ih =>
    by_cases h : l.left ≤ n
    · rw [consume_cons_le h]
      show (l.losses ++ stated _) ++ stated _ = l.losses ++ stated block
      rw [List.append_assoc, ih]
    · rw [consume_cons_lt h]
      rfl

theorem pending_consume (n : Nat) (block : List Line) :
    pending (consume n block).2 = pending block - n := by
  induction block generalizing n with
  | nil => exact (Nat.zero_sub n).symm
  | cons l block ih =>
    by_cases h : l.left ≤ n
    · rw [consume_cons_le h, ih, pending_cons]
      omega
    · rw [consume_cons_lt h, pending_cons, pending_cons]
      show l.left - n + pending block = _
      omega

/-- A line that is through, or still there, is one that was there. -/
theorem mem_consume (h : l ∈ (consume n block).1 ++ (consume n block).2) :
    ∃ l' ∈ block, l'.window = l.window ∧ l'.text = l.text := by
  induction block generalizing n with
  | nil => cases h
  | cons line block ih =>
    by_cases hle : line.left ≤ n
    · rw [consume_cons_le hle, List.cons_append] at h
      rcases List.mem_cons.mp h with rfl | h
      · exact ⟨l, List.mem_cons_self, rfl, rfl⟩
      · obtain ⟨l', hl', heq⟩ := ih h
        exact ⟨l', List.mem_cons_of_mem _ hl', heq⟩
    · rw [consume_cons_lt hle, List.nil_append] at h
      rcases List.mem_cons.mp h with rfl | h
      · exact ⟨line, List.mem_cons_self, rfl, rfl⟩
      · exact ⟨l, List.mem_cons_of_mem _ h, rfl, rfl⟩

theorem plain_consume (h : Plain block) (n : Nat) : Plain (consume n block).2 := by
  intro l hl
  obtain ⟨l', hl', hwindow, -⟩ := mem_consume (List.mem_append_right _ hl)
  rw [← hwindow]
  exact h l' hl'

/-- The line is still there, or no more than what followed it is. -/
theorem carries_consume {after : Nat} (h : Carries w after block) (n : Nat) :
    Carries w after (consume n block).2 ∨
      Plain (consume n block).2 ∧ pending (consume n block).2 ≤ after := by
  obtain ⟨before, l, rest, rfl, hw, hleft, hbefore, hrest, rfl⟩ := h
  induction before generalizing n with
  | nil =>
    rw [List.nil_append]
    by_cases hle : l.left ≤ n
    · rw [consume_cons_le hle]
      refine .inr ⟨plain_consume hrest _, ?_⟩
      rw [pending_consume]
      exact Nat.sub_le _ _
    · rw [consume_cons_lt hle]
      exact .inl ⟨[], { l with left := l.left - n }, rest, rfl, hw, Nat.sub_pos_of_lt (not_le.mp hle),
        plain_nil, hrest, rfl⟩
  | cons line before ih =>
    have hplain : Plain before := fun l' hl' => hbefore l' (List.mem_cons_of_mem _ hl')
    rw [List.cons_append]
    by_cases hle : line.left ≤ n
    · rw [consume_cons_le hle]
      exact ih (n - line.left) hplain
    · rw [consume_cons_lt hle]
      refine .inl ⟨{ line with left := line.left - n } :: before, l, rest, rfl, hw, hleft, ?_, hrest,
        rfl⟩
      intro l' hl'
      rcases List.mem_cons.mp hl' with rfl | hl'
      · exact hbefore line List.mem_cons_self
      · exact hplain l' hl'

/-- The line states its window. -/
def Line.Stating (l : Line) : Prop :=
  ∀ w, l.window = some w → w.stats.Counts w.losses ∧ w.losses ≠ [] ∧
    ∃ room now, l.text = gapLine room now w.stats

namespace Writer

variable {s s' : Writer capacity}

/-! ## The invariant -/

/-- Where the window of the last gap line is: retired, in the block, or accepted but not retired. -/
def Flight (s : Writer capacity) : Prop :=
  s.inflight.stats.chunks = 0 ∧ Plain s.block ∨
    s.inflight.stats.chunks ≠ 0 ∧ s.inflight.stats.Counts s.inflight.losses ∧
      ((∃ after, Carries s.inflight after s.block ∧ s.gapLineEnd.toNat + after = s.fileLength) ∨
        Plain s.block ∧ s.gapLineEnd.toNat + pending s.block ≤ s.fileLength)

/-- No file has had `2^32` bytes, and fewer than `2^32` chunks were lost. -/
structure Bounded (s : Writer capacity) : Prop where
  file : s.longest < 2 ^ 32
  losses : s.losses.all.length < 2 ^ 32

/-- What holds of the writer between two operations. -/
structure Inv (s : Writer capacity) : Prop where
  bytes : s.fileBytes = UInt32.ofNat s.fileLength
  longest : s.fileLength ≤ s.longest
  buffered : pending s.block ≤ s.fileLength
  closed : s.fileOpen = false → Plain s.block
  billing : SdLogger.Billing s.policy s.losses
  owed : s.owed.stats.Counts s.owed.losses
  flight : Flight s
  lines : ∀ l ∈ s.written ++ s.block, l.Stating
  split : s.losses.all = stated s.written ++ stated s.block ++ s.owed.losses ++ s.losses.current

/-- What an operation may do: as long as the writer is bounded, it keeps the invariant. -/
structure Keeps (s s' : Writer capacity) : Prop where
  longest : s.longest ≤ s'.longest
  losses : s.losses.all.length ≤ s'.losses.all.length
  inv : Bounded s' → Inv s → Inv s'

theorem Keeps.refl (s : Writer capacity) : Keeps s s := ⟨Nat.le_refl _, Nat.le_refl _, fun _ h => h⟩

theorem Keeps.bounded (h : Keeps s s') (hb : Bounded s') : Bounded s :=
  ⟨Nat.lt_of_le_of_lt h.longest hb.file, Nat.lt_of_le_of_lt h.losses hb.losses⟩

theorem Keeps.trans {s'' : Writer capacity} (h : Keeps s s') (h' : Keeps s' s'') : Keeps s s'' :=
  ⟨h.longest.trans h'.longest, h.losses.trans h'.losses,
    fun hb hi => h'.inv hb (h.inv (h'.bounded hb) hi)⟩

theorem Keeps.foldl {α : Type} {f : Writer capacity → α → Writer capacity}
    (h : ∀ s a, Keeps s (f s a)) (as : List α) (s : Writer capacity) : Keeps s (as.foldl f s) := by
  induction as generalizing s with
  | nil => exact Keeps.refl s
  | cons a as ih => exact (h s a).trans (ih (f s a))

theorem Inv.length_owed (hi : Inv s) (hb : Bounded s) : s.owed.losses.length < 2 ^ 32 := by
  have hlen := congrArg List.length hi.split
  simp only [List.length_append] at hlen
  have := hb.losses
  omega

theorem Bounded.length_current (hb : Bounded s) : s.losses.current.length < 2 ^ 32 := by
  have hlen := s.losses.length_all
  have := hb.losses
  omega

/-! ## The window -/

/-- The owed window grows by the losses of the newer one. -/
theorem oweGap_eq {w : Window} (howed : s.owed.stats.Counts s.owed.losses)
    (hlen : s.owed.losses.length < 2 ^ 32) (hw : w.stats.Counts w.losses)
    (hlen' : w.losses.length < 2 ^ 32) :
    ∃ w', s.oweGap w = { s with owed := w' } ∧ w'.losses = s.owed.losses ++ w.losses ∧
      w'.stats.Counts w'.losses := by
  unfold oweGap
  split_ifs with hnone hempty
  · refine ⟨s.owed, rfl, ?_, howed⟩
    rw [hw.nil_of_chunks hlen' hnone, List.append_nil]
  · refine ⟨w, rfl, ?_, hw⟩
    rw [howed.nil_of_chunks hlen hempty, List.nil_append]
  · exact ⟨_, rfl, rfl, howed.append hw hempty hnone⟩

/-- The window is retired once its line has been accepted, and not before. -/
theorem retireGapIfDurable_cases (hi : Inv s) (hb : Bounded s) :
    s.retireGapIfDurable.inflight.stats.chunks = 0 ∧ Plain s.block ∧
        (s.retireGapIfDurable = s ∨
          s.retireGapIfDurable = { s with inflight := {}, gapLineEnd := 0 }) ∨
      s.retireGapIfDurable = s ∧ s.inflight.stats.chunks ≠ 0 ∧
        s.inflight.stats.Counts s.inflight.losses ∧
        ∃ after, Carries s.inflight after s.block ∧ s.gapLineEnd.toNat + after = s.fileLength := by
  have hfile := hi.longest
  have hlong := hb.file
  have hbuffered := hi.buffered
  have hbytes : s.fileBytes.toNat = s.fileLength := by
    rw [hi.bytes, UInt32.toNat_ofNat_of_lt' (by simp only [UInt32.size]; omega)]
  have hpending : (UInt32.ofNat (pending s.block)).toNat = pending s.block :=
    UInt32.toNat_ofNat_of_lt' (by simp only [UInt32.size]; omega)
  have honCard : (if UInt32.ofNat (pending s.block) < s.fileBytes then
      s.fileBytes - UInt32.ofNat (pending s.block) else 0).toNat =
        s.fileLength - pending s.block := by
    split_ifs with hlt
    · have hle := UInt32.le_iff_toNat_le.mpr (Nat.le_of_lt (UInt32.lt_iff_toNat_lt.mp hlt))
      rw [UInt32.toNat_sub_of_le _ _ hle, hbytes, hpending]
    · rw [UInt32.lt_iff_toNat_lt, hbytes, hpending] at hlt
      show 0 = _
      omega
  rcases hi.flight with ⟨hzero, hplain⟩ | ⟨hne, hcounts, ⟨after, hholds, hend⟩ | ⟨hplain, hend⟩⟩
  · have heq : s.retireGapIfDurable = s := by
      unfold retireGapIfDurable
      rw [if_pos hzero]
    exact .inl ⟨by rw [heq]; exact hzero, hplain, .inl heq⟩
  · refine .inr ⟨?_, hne, hcounts, after, hholds, hend⟩
    unfold retireGapIfDurable
    dsimp only
    rw [if_neg hne, if_pos]
    rw [UInt32.lt_iff_toNat_lt, honCard]
    have := hholds.lt_pending
    omega
  · have heq : s.retireGapIfDurable = { s with inflight := {}, gapLineEnd := 0 } := by
      unfold retireGapIfDurable
      dsimp only
      rw [if_neg hne, if_neg]
      rw [UInt32.lt_iff_toNat_lt, honCard]
      omega
    exact .inl ⟨by rw [heq], hplain, .inr heq⟩

theorem keeps_retireGapIfDurable (s : Writer capacity) : Keeps s s.retireGapIfDurable := by
  have hsame : s.retireGapIfDurable = s ∨
      s.retireGapIfDurable = { s with inflight := {}, gapLineEnd := 0 } := by
    unfold retireGapIfDurable
    dsimp only
    generalize (if UInt32.ofNat (pending s.block) < s.fileBytes then
      s.fileBytes - UInt32.ofNat (pending s.block) else 0) = onCard
    split_ifs
    · exact .inl rfl
    · exact .inl rfl
    · exact .inr rfl
  refine ⟨?_, ?_, ?_⟩
  · rcases hsame with heq | heq
    · rw [heq]
    · rw [heq]
  · rcases hsame with heq | heq
    · rw [heq]
    · rw [heq]
  · intro hb hi
    have hb' : Bounded s := by
      rcases hsame with heq | heq
      · rwa [heq] at hb
      · rw [heq] at hb
        exact ⟨hb.file, hb.losses⟩
    rcases retireGapIfDurable_cases hi hb' with ⟨-, hplain, heq | heq⟩ | ⟨heq, -⟩
    · rwa [heq]
    · rw [heq]
      exact { hi with flight := .inl ⟨rfl, hplain⟩ }
    · rwa [heq]

/-- The block is given up: the line that is still in it is owed again. -/
theorem dropUnflushedGap_cases (hi : Inv s) (hb : Bounded s) :
    ∃ w, s.dropUnflushedGap = { s with owed := w, inflight := s.dropUnflushedGap.inflight
                                       gapLineEnd := 0 } ∧
      s.dropUnflushedGap.inflight.stats.chunks = 0 ∧
      w.losses = stated s.block ++ s.owed.losses ∧ w.stats.Counts w.losses := by
  rcases retireGapIfDurable_cases hi hb with ⟨hzero, hplain, hsame⟩ | ⟨heq, hne, hcounts, _, hholds, -⟩
  · have hdrop : s.dropUnflushedGap = { s.retireGapIfDurable with gapLineEnd := 0 } := by
      unfold dropUnflushedGap
      dsimp only
      rw [if_pos hzero]
    refine ⟨s.owed, ?_, ?_, ?_, hi.owed⟩
    · rw [hdrop]
      rcases hsame with heq | heq
      · rw [heq]
      · rw [heq]
    · rw [hdrop]
      exact hzero
    · rw [stated_plain hplain, List.nil_append]
  · have hlen : s.inflight.losses.length < 2 ^ 32 := by
      have hsplit := congrArg List.length hi.split
      rw [hholds.stated] at hsplit
      simp only [List.length_append] at hsplit
      have := hb.losses
      omega
    obtain ⟨w, howe, hw, hwcounts⟩ := oweGap_eq
      (s := { s with owed := s.inflight, inflight := {}, gapLineEnd := 0 }) hcounts hlen hi.owed
      (hi.length_owed hb)
    have hdrop : s.dropUnflushedGap = { s with owed := w, inflight := {}, gapLineEnd := 0 } := by
      unfold dropUnflushedGap
      rw [heq]
      dsimp only
      rw [if_neg hne, howe]
    refine ⟨w, ?_, ?_, ?_, hwcounts⟩
    · rw [hdrop]
    · rw [hdrop]
    · rw [hw, hholds.stated]

/-! ## The index -/

/-- A call that does not take the window adds to it what it discards. -/
theorem current_nextLosses (p : CollectionPolicy capacity) (l : Losses) {c : CollectionPolicy.Call}
    (hc : c ≠ .takePendingDiscards) :
    ∃ es, (nextLosses p l c).current = l.current ++ es ∧
      (nextLosses p l c).all = l.all ++ es := by
  have hsame : ∃ es, l.current = l.current ++ es ∧ l.all = l.all ++ es :=
    ⟨[], (List.append_nil _).symm, (List.append_nil _).symm⟩
  cases c with
  | discard seq =>
    cases hf : p.find seq with
    | none =>
      rw [nextLosses_of_none l hf]
      exact hsame
    | some entry =>
      rw [nextLosses_of_some l hf]
      split_ifs
      · exact ⟨[entry], rfl, (List.append_assoc ..).symm⟩
      · exact hsame
  | takePendingDiscards => exact absurd rfl hc
  | _ => exact hsame

theorem length_nextLosses (p : CollectionPolicy capacity) (l : Losses) (c : CollectionPolicy.Call) :
    l.all.length ≤ (nextLosses p l c).all.length := by
  by_cases hc : c = .takePendingDiscards
  · rw [hc, all_nextLosses_take]
  · obtain ⟨es, -, hall⟩ := current_nextLosses p l hc
    rw [hall, List.length_append]
    exact Nat.le_add_right _ _

theorem keeps_index (s : Writer capacity) (c : CollectionPolicy.Call) : Keeps s (s.index c) := by
  unfold index
  split_ifs with hc
  · exact Keeps.refl s
  · refine ⟨Nat.le_refl _, length_nextLosses _ _ c, ?_⟩
    intro hb hi
    obtain ⟨es, hcurrent, hall⟩ := current_nextLosses s.policy s.losses hc
    refine { hi with billing := CollectionPolicy.Billing.step hi.billing c, split := ?_ }
    show (nextLosses s.policy s.losses c).all = _ ++
      (nextLosses s.policy s.losses c).current
    rw [hall, hcurrent, hi.split, List.append_assoc]

theorem keeps_takeWindow (s : Writer capacity) : Keeps s s.takeWindow := by
  have hall := all_nextLosses_take s.policy s.losses
  have howe (s : Writer capacity) (w : Window) :
      (s.oweGap w).longest = s.longest ∧ (s.oweGap w).losses = s.losses := by
    unfold oweGap
    split_ifs
    · exact ⟨rfl, rfl⟩
    · exact ⟨rfl, rfl⟩
    · exact ⟨rfl, rfl⟩
  unfold takeWindow
  split_ifs
  · exact Keeps.refl s
  · refine ⟨Nat.le_of_eq ?_, Nat.le_of_eq ?_, ?_⟩
    · rw [(howe _ _).1]
    · rw [(howe _ _).2, hall]
    · intro hb hi
      have hb' : Bounded s := by
        refine ⟨?_, ?_⟩
        · have hfile := hb.file
          rwa [(howe _ _).1] at hfile
        · have hlosses := hb.losses
          rwa [(howe _ _).2, hall] at hlosses
      obtain ⟨w, heq, hw, hcounts⟩ := oweGap_eq
        (s := { s with
          policy := s.policy.step .takePendingDiscards
          losses := nextLosses s.policy s.losses .takePendingDiscards })
        (w := { stats := s.policy.takePendingDiscards.1, losses := s.losses.current })
        hi.owed (hi.length_owed hb') hi.billing.pending hb'.length_current
      rw [heq]
      refine { hi with billing := CollectionPolicy.Billing.step hi.billing .takePendingDiscards, owed := hcounts, split := ?_ }
      show (nextLosses s.policy s.losses .takePendingDiscards).all =
        stated s.written ++ stated s.block ++ w.losses ++ []
      rw [hall, hw, hi.split]
      simp only [List.append_assoc, List.append_nil]

/-! ## Giving up the file -/

theorem bounds_dropUnflushedGap (s : Writer capacity) :
    s.dropUnflushedGap.longest = s.longest ∧ s.dropUnflushedGap.losses = s.losses := by
  unfold dropUnflushedGap oweGap retireGapIfDurable
  dsimp only
  generalize (if UInt32.ofNat (pending s.block) < s.fileBytes then
    s.fileBytes - UInt32.ofNat (pending s.block) else 0) = onCard
  split_ifs <;> exact ⟨rfl, rfl⟩

/-- What becomes of the gap line does not depend on the file being open. -/
theorem dropUnflushedGap_closed (s : Writer capacity) :
    dropUnflushedGap { s with fileOpen := false } =
      { s.dropUnflushedGap with fileOpen := false } := by
  unfold dropUnflushedGap oweGap retireGapIfDurable
  dsimp only
  generalize (if UInt32.ofNat (pending s.block) < s.fileBytes then
    s.fileBytes - UInt32.ofNat (pending s.block) else 0) = onCard
  split_ifs <;> rfl

/-- The file is closed, its block is lost, and what was in it is owed. -/
theorem keeps_giveUp (s : Writer capacity) :
    Keeps s { dropUnflushedGap { s with fileOpen := false } with block := [] } := by
  obtain ⟨hlongest, hlosses⟩ := bounds_dropUnflushedGap s
  rw [dropUnflushedGap_closed]
  refine ⟨Nat.le_of_eq hlongest.symm, Nat.le_of_eq ?_, ?_⟩
  · rw [hlosses]
  · intro hb hi
    have hb' : Bounded s := ⟨hlongest ▸ hb.file, hlosses ▸ hb.losses⟩
    obtain ⟨w, heq, hzero, hw, hcounts⟩ := dropUnflushedGap_cases hi hb'
    rw [heq]
    refine ⟨hi.bytes, hi.longest, Nat.zero_le _, fun _ => plain_nil, hi.billing, hcounts,
      .inl ⟨hzero, plain_nil⟩, ?_, ?_⟩
    · intro l hl
      rw [List.append_nil] at hl
      exact hi.lines l (List.mem_append_left _ hl)
    · show s.losses.all = stated s.written ++ [] ++ w.losses ++ s.losses.current
      rw [hw, hi.split]
      simp only [List.append_assoc, List.append_nil]

theorem keeps_enterFailed (s : Writer capacity) : Keeps s s.enterFailed :=
  (keeps_giveUp s).trans (keeps_index _ .clear)

theorem keeps_unmountCard (s : Writer capacity) : Keeps s s.unmountCard :=
  (keeps_index s .clear).trans (keeps_giveUp _)

/-! ## Flushing -/

theorem keeps_accept (s : Writer capacity) (n : Nat) : Keeps s (s.accept n) := by
  refine ⟨Nat.le_refl _, Nat.le_refl _, ?_⟩
  intro hb hi
  have hpending := pending_consume n s.block
  have hbuffered := hi.buffered
  refine { hi with buffered := ?_, closed := ?_, flight := ?_, lines := ?_, split := ?_ }
  · show pending (consume n s.block).2 ≤ s.fileLength
    omega
  · exact fun hclosed => plain_consume (hi.closed hclosed) n
  · rcases hi.flight with ⟨hzero, hplain⟩ | ⟨hne, hcounts, ⟨after, hholds, hend⟩ | ⟨hplain, hend⟩⟩
    · exact .inl ⟨hzero, plain_consume hplain n⟩
    · refine .inr ⟨hne, hcounts, ?_⟩
      rcases carries_consume hholds n with hstill | ⟨hplain, hle⟩
      · exact .inl ⟨after, hstill, hend⟩
      · refine .inr ⟨hplain, ?_⟩
        show s.gapLineEnd.toNat + pending (consume n s.block).2 ≤ s.fileLength
        omega
    · refine .inr ⟨hne, hcounts, .inr ⟨plain_consume hplain n, ?_⟩⟩
      show s.gapLineEnd.toNat + pending (consume n s.block).2 ≤ s.fileLength
      omega
  · intro l hl
    rcases List.mem_append.mp hl with hl | hl
    · rcases List.mem_append.mp hl with hl | hl
      · exact hi.lines l (List.mem_append_left _ hl)
      · obtain ⟨l', hl', hwindow, htext⟩ := mem_consume (List.mem_append_left _ hl)
        unfold Line.Stating
        rw [← hwindow, ← htext]
        exact hi.lines l' (List.mem_append_right _ hl')
    · obtain ⟨l', hl', hwindow, htext⟩ := mem_consume (List.mem_append_right _ hl)
      unfold Line.Stating
      rw [← hwindow, ← htext]
      exact hi.lines l' (List.mem_append_right _ hl')
  · show s.losses.all = stated (s.written ++ (consume n s.block).1) ++ stated (consume n s.block).2 ++
      s.owed.losses ++ s.losses.current
    rw [hi.split, stated_append, ← stated_consume n s.block]
    simp only [List.append_assoc]

theorem keeps_writeLoop (writes : List Nat) (len : Nat) (s : Writer capacity) :
    Keeps s (writeLoop writes len s).2 := by
  induction writes generalizing len s with
  | nil => exact keeps_accept s len
  | cons n writes ih =>
    unfold writeLoop
    split_ifs
    · exact Keeps.refl s
    · exact keeps_enterFailed s
    · exact (keeps_accept s _).trans (ih _ _)

variable {writes : List Nat}

/-- A loop that succeeds changes nothing but the block and what is accepted. -/
theorem writeLoop_same {len : Nat} (h : writeLoop writes len s = (true, s')) :
    s'.fileOpen = s.fileOpen ∧ s'.owed = s.owed ∧ s'.inflight = s.inflight := by
  induction writes generalizing len s with
  | nil =>
    cases h
    exact ⟨rfl, rfl, rfl⟩
  | cons n writes ih =>
    unfold writeLoop at h
    split_ifs at h
    · cases h
      exact ⟨rfl, rfl, rfl⟩
    · cases h
    · exact ih (s := s.accept (min n len)) h

theorem writeLoop_pending {len : Nat}
    (h : writeLoop writes len s = (true, s')) (hlen : len ≤ pending s.block) :
    pending s'.block = pending s.block - len := by
  induction writes generalizing len s with
  | nil =>
    cases h
    exact pending_consume len s.block
  | cons n writes ih =>
    unfold writeLoop at h
    split_ifs at h with hzero hfail
    · cases h
      omega
    · cases h
    · have haccept : pending (s.accept (min n len)).block = pending s.block - min n len :=
        pending_consume (min n len) s.block
      have hpending := ih h (by omega)
      omega

theorem keeps_flushBlock (s : Writer capacity) (all : Bool) (writes : List Nat) :
    Keeps s (s.flushBlock all writes).2 := by
  unfold flushBlock
  split_ifs
  · exact Keeps.refl s
  · exact keeps_writeLoop writes _ s
  · exact keeps_writeLoop writes _ s

theorem flushBlock_same {all : Bool} (h : s.flushBlock all writes = (true, s')) :
    s'.fileOpen = true ∧ s'.owed = s.owed ∧ s'.inflight = s.inflight := by
  unfold flushBlock at h
  by_cases hclosed : !s.fileOpen
  · rw [if_pos hclosed] at h
    cases h
  · rw [if_neg hclosed] at h
    obtain ⟨hopen, hsame⟩ := writeLoop_same h
    exact ⟨hopen.trans (by simpa using hclosed), hsame⟩

/-- After the last flush of a file nothing is in the block. -/
theorem flushBlock_all (h : s.flushBlock true writes = (true, s')) : pending s'.block = 0 := by
  unfold flushBlock at h
  by_cases hclosed : !s.fileOpen
  · rw [if_pos hclosed] at h
    cases h
  · rw [if_neg hclosed, if_pos rfl] at h
    rw [writeLoop_pending h (Nat.le_refl _), Nat.sub_self]

theorem keeps_ensureRoom (s : Writer capacity) (need : Nat) (writes : List Nat) :
    Keeps s (s.ensureRoom need writes).2 := by
  have hflush := keeps_flushBlock s false writes
  unfold ensureRoom
  split_ifs
  · exact Keeps.refl s
  · exact Keeps.refl s
  · split
    · next h =>
      rw [h] at hflush
      exact hflush
    · next h =>
      rw [h] at hflush
      exact hflush

theorem ensureRoom_same {need : Nat} (h : s.ensureRoom need writes = (true, s')) :
    s'.fileOpen = true ∧ s'.owed = s.owed ∧ s'.inflight = s.inflight := by
  unfold ensureRoom at h
  by_cases hclosed : !s.fileOpen
  · rw [if_pos hclosed] at h
    cases h
  · rw [if_neg hclosed] at h
    by_cases hroom : need ≤ s.room
    · rw [if_pos hroom] at h
      cases h
      exact ⟨by simpa using hclosed, rfl, rfl⟩
    · rw [if_neg hroom] at h
      split at h
      · cases h
      · next hflush =>
        obtain ⟨-, rfl⟩ := Prod.mk.injEq .. ▸ h
        exact flushBlock_same hflush

/-! ## Lines -/

/-- A line that states no window. -/
theorem keeps_commitLine (s : Writer capacity) (text : List UInt8) :
    Keeps s (s.commitLine text none) := by
  unfold commitLine
  split_ifs with hempty
  · exact Keeps.refl s
  · refine ⟨Nat.le_max_left _ _, Nat.le_refl _, ?_⟩
    intro hb hi
    have hplain (h : Plain s.block) : Plain (s.block ++ [{ text := text }]) := by
      refine plain_append_iff.mpr ⟨h, ?_⟩
      intro l hl
      rw [List.mem_singleton.mp hl]
    have hpending : pending (s.block ++ [{ text := text }]) = pending s.block + text.length := by
      rw [pending_append]
      rfl
    have hstated : stated (s.block ++ [{ text := text }]) = stated s.block := by
      rw [stated_append]
      exact List.append_nil _
    refine { hi with
      bytes := ?_, longest := Nat.le_max_right _ _, buffered := ?_, closed := ?_, flight := ?_
      lines := ?_, split := ?_ }
    · rw [hi.bytes, ← UInt32.ofNat_add]
    · rw [hpending]
      exact Nat.add_le_add_right hi.buffered _
    · exact fun hclosed => hplain (hi.closed hclosed)
    · rcases hi.flight with ⟨hzero, hp⟩ | ⟨hne, hcounts, ⟨after, hholds, hend⟩ | ⟨hp, hend⟩⟩
      · exact .inl ⟨hzero, hplain hp⟩
      · refine .inr ⟨hne, hcounts, .inl ⟨after + text.length, hholds.concat rfl, ?_⟩⟩
        show s.gapLineEnd.toNat + (after + text.length) = s.fileLength + text.length
        omega
      · refine .inr ⟨hne, hcounts, .inr ⟨hplain hp, ?_⟩⟩
        show s.gapLineEnd.toNat + pending (s.block ++ [{ text := text }]) ≤
          s.fileLength + text.length
        omega
    · intro l hl
      rw [← List.append_assoc] at hl
      rcases List.mem_append.mp hl with hl | hl
      · exact hi.lines l hl
      · rw [List.mem_singleton.mp hl]
        nofun
    · show s.losses.all = stated s.written ++ stated (s.block ++ [{ text := text }]) ++ _ ++ _
      rw [hstated, hi.split]

theorem keeps_emit (s : Writer capacity) (e : Emission) : Keeps s (s.emit e) := by
  have hroom := keeps_ensureRoom s e.need e.writes
  unfold emit
  split
  · next h =>
    rw [h] at hroom
    exact hroom
  · next h =>
    rw [h] at hroom
    exact hroom.trans (keeps_commitLine _ _)

/-- The owed window goes into a line, and the counters say where the line ends. -/
theorem keeps_commitGap {room : Nat} {now : UInt64} (hopen : s.fileOpen = true)
    (howed : s.owed.stats.chunks ≠ 0) (hfree : s.inflight.stats.chunks = 0)
    (htext : 0 < (gapLine room now s.owed.stats).length) :
    Keeps s
      { s.commitLine (gapLine room now s.owed.stats) (some s.owed) with
        inflight := s.owed, owed := {}
        gapLineEnd := (s.commitLine (gapLine room now s.owed.stats) (some s.owed)).fileBytes } := by
  generalize htxt : gapLine room now s.owed.stats = text at htext ⊢
  have hcommit : s.commitLine text (some s.owed) =
      { s with
        block := s.block ++ [{ text := text, window := some s.owed }]
        fileBytes := s.fileBytes + UInt32.ofNat text.length
        fileLength := s.fileLength + text.length
        longest := max s.longest (s.fileLength + text.length) } := by
    unfold commitLine
    rw [if_neg (Nat.ne_of_gt htext)]
  rw [hcommit]
  refine ⟨Nat.le_max_left _ _, Nat.le_refl _, ?_⟩
  intro hb hi
  have hplain : Plain s.block := by
    rcases hi.flight with ⟨-, hplain⟩ | ⟨hne, -⟩
    · exact hplain
    · exact absurd hfree hne
  have hholds := holds_concat hplain (l := { text := text, window := some s.owed }) rfl htext
  have hlong : s.fileLength + text.length < 2 ^ 32 :=
    Nat.lt_of_le_of_lt (Nat.le_max_right _ _) hb.file
  have hbytes : s.fileBytes + UInt32.ofNat text.length =
      UInt32.ofNat (s.fileLength + text.length) := by
    rw [hi.bytes, ← UInt32.ofNat_add]
  refine { hi with
    bytes := hbytes, longest := Nat.le_max_right _ _, buffered := ?_, closed := ?_
    owed := DiscardStats.Counts.nil, flight := ?_, lines := ?_, split := ?_ }
  · show pending (s.block ++ [_]) ≤ s.fileLength + text.length
    rw [pending_append]
    exact Nat.add_le_add_right hi.buffered _
  · intro hclosed
    rw [show s.fileOpen = false from hclosed] at hopen
    cases hopen
  · refine .inr ⟨howed, hi.owed, .inl ⟨0, hholds, ?_⟩⟩
    show (s.fileBytes + UInt32.ofNat text.length).toNat + 0 = s.fileLength + text.length
    rw [hbytes, UInt32.toNat_ofNat_of_lt' (by simp only [UInt32.size]; exact hlong)]
    rfl
  · intro l hl
    rw [← List.append_assoc] at hl
    rcases List.mem_append.mp hl with hl | hl
    · exact hi.lines l hl
    · rw [List.mem_singleton.mp hl]
      rintro w ⟨⟩
      exact ⟨hi.owed, hi.owed.ne_nil_of_chunks howed, room, now, htxt.symm⟩
  · show s.losses.all = stated s.written ++ stated (s.block ++ [_]) ++ [] ++ s.losses.current
    rw [hholds.stated, hi.split, stated_plain hplain]
    simp only [List.append_nil]

theorem keeps_emitGap (s : Writer capacity) (now : UInt64) (writes : List Nat) :
    Keeps s (s.emitGap now writes) := by
  have hroom := keeps_ensureRoom s maxLine writes
  unfold emitGap
  split_ifs with hdue
  · split
    · next h =>
      rw [h] at hroom
      exact hroom
    · next s' h =>
      rw [h] at hroom
      obtain ⟨hopen, howed, hinflight⟩ := ensureRoom_same h
      dsimp only
      split_ifs with htext
      · refine hroom.trans (keeps_commitGap hopen ?_ ?_ htext)
        · rw [howed]
          exact hdue.1
        · rw [hinflight]
          exact hdue.2
      · exact hroom
  · exact Keeps.refl s

theorem keeps_writeDropMarkers (s : Writer capacity) (now : UInt64) (before : List Emission)
    (writes : List Nat) (after : List Emission) :
    Keeps s (s.writeDropMarkers now before writes after) :=
  (Keeps.foldl keeps_emit before s).trans <| (keeps_retireGapIfDurable _).trans <|
    (keeps_takeWindow _).trans <| (keeps_emitGap _ now writes).trans
      (Keeps.foldl keeps_emit after _)

/-! ## Files -/

theorem keeps_syncFile (s : Writer capacity) (writes : List Nat) (synced : Bool) :
    Keeps s (s.syncFile writes synced) := by
  have hflush := keeps_flushBlock s false writes
  unfold syncFile
  split
  · next h =>
    rw [h] at hflush
    exact hflush
  · next h =>
    rw [h] at hflush
    split_ifs
    · exact hflush
    · exact hflush.trans (keeps_enterFailed _)

/-- The file is closed with nothing in the block. -/
theorem keeps_fileClosed (s : Writer capacity) (hpending : pending s.block = 0) :
    Keeps s { s with fileOpen := false } := by
  refine ⟨Nat.le_refl _, Nat.le_refl _, ?_⟩
  intro hb hi
  refine { hi with closed := ?_ }
  intro _
  rcases hi.flight with ⟨-, hplain⟩ | ⟨-, -, ⟨after, hholds, -⟩ | ⟨hplain, -⟩⟩
  · exact hplain
  · have := hholds.lt_pending
    omega
  · exact hplain

theorem block_retireGapIfDurable (s : Writer capacity) : s.retireGapIfDurable.block = s.block := by
  unfold retireGapIfDurable
  dsimp only
  generalize (if UInt32.ofNat (pending s.block) < s.fileBytes then
    s.fileBytes - UInt32.ofNat (pending s.block) else 0) = onCard
  split_ifs <;> rfl

theorem fileOpen_index (s : Writer capacity) (c : CollectionPolicy.Call) :
    (s.index c).fileOpen = s.fileOpen := by
  unfold index
  split_ifs <;> rfl

theorem keeps_closeFile (s : Writer capacity) (c : Closing) :
    Keeps s (s.closeFile c).2 ∧ ((s.closeFile c).1 = true → (s.closeFile c).2.fileOpen = false) := by
  unfold closeFile
  by_cases hclosed : !s.fileOpen
  · rw [if_pos hclosed]
    exact ⟨Keeps.refl s, nofun⟩
  · rw [if_neg hclosed]
    have hlines := Keeps.foldl keeps_emit (c.clock.toList ++ [c.last]) s
    generalize (c.clock.toList ++ [c.last]).foldl emit s = s₁ at hlines ⊢
    have hflush := keeps_flushBlock s₁ true c.writes
    split
    · next h =>
      rw [h] at hflush
      exact ⟨hlines.trans hflush, nofun⟩
    · next s₂ h =>
      rw [h] at hflush
      have hretired := (hlines.trans hflush).trans (keeps_retireGapIfDurable s₂)
      have hpending : pending s₂.retireGapIfDurable.block = 0 := by
        rw [block_retireGapIfDurable, flushBlock_all h]
      dsimp only
      split_ifs
      · exact ⟨hretired.trans (keeps_enterFailed _), nofun⟩
      · refine ⟨(hretired.trans (keeps_fileClosed _ hpending)).trans ?_, ?_⟩
        · exact keeps_index _ (.seal_ _ _)
        · intro _
          exact fileOpen_index _ _

/-- The next file is opened with an empty block. -/
theorem keeps_fileOpened (s : Writer capacity) (seq size : UInt32) :
    Keeps s
      { s.dropUnflushedGap with
        fileOpen := true, seq := seq, fileBytes := size, block := []
        fileLength := size.toNat, longest := max s.dropUnflushedGap.longest size.toNat } := by
  obtain ⟨hlongest, hlosses⟩ := bounds_dropUnflushedGap s
  refine ⟨?_, Nat.le_of_eq (by rw [hlosses]), ?_⟩
  · rw [hlongest]
    exact Nat.le_max_left _ _
  · intro hb hi
    have hb' : Bounded s := by
      refine ⟨Nat.lt_of_le_of_lt ?_ hb.file, hlosses ▸ hb.losses⟩
      rw [hlongest]
      exact Nat.le_max_left _ _
    obtain ⟨w, heq, hzero, hw, hcounts⟩ := dropUnflushedGap_cases hi hb'
    rw [heq]
    refine ⟨(UInt32.ofNat_toNat).symm, Nat.le_max_right _ _, Nat.zero_le _, fun _ => plain_nil,
      hi.billing, hcounts, .inl ⟨hzero, plain_nil⟩, ?_, ?_⟩
    · intro l hl
      rw [List.append_nil] at hl
      exact hi.lines l (List.mem_append_left _ hl)
    · show s.losses.all = stated s.written ++ [] ++ w.losses ++ s.losses.current
      rw [hw, hi.split]
      simp only [List.append_assoc, List.append_nil]

/-- No file is opened. Nothing was in the block, so nothing is owed for it. -/
theorem keeps_notOpened (s : Writer capacity) (hclosed : s.fileOpen = false) (seq : UInt32) :
    Keeps s { s.dropUnflushedGap with fileOpen := false, seq := seq } := by
  obtain ⟨hlongest, hlosses⟩ := bounds_dropUnflushedGap s
  refine ⟨Nat.le_of_eq hlongest.symm, Nat.le_of_eq (by rw [hlosses]), ?_⟩
  intro hb hi
  have hb' : Bounded s := ⟨hlongest ▸ hb.file, hlosses ▸ hb.losses⟩
  obtain ⟨w, heq, hzero, hw, hcounts⟩ := dropUnflushedGap_cases hi hb'
  rw [heq]
  have hplain := hi.closed hclosed
  refine { hi with closed := fun _ => hplain, owed := hcounts, flight := .inl ⟨hzero, hplain⟩
                   split := ?_ }
  show s.losses.all = stated s.written ++ stated s.block ++ w.losses ++ s.losses.current
  rw [hw, hi.split, stated_plain hplain, List.nil_append]

theorem keeps_openNextFile (s : Writer capacity) (o : Opening) (hclosed : s.fileOpen = false) :
    Keeps s (s.openNextFile o).2 := by
  unfold openNextFile
  dsimp only
  split
  · exact keeps_notOpened s hclosed o.seq
  · next size _ =>
    have hheader := (keeps_fileOpened s o.seq size).trans
      (Keeps.foldl keeps_emit o.header _)
    split_ifs
    · exact hheader
    · exact hheader.trans (keeps_index _ (.add _ _ _))

/-- The next file, or what becomes of the writer without it. -/
theorem keeps_opened {o : Opening} {f : Writer capacity → Writer capacity}
    (hf : ∀ s, Keeps s (f s)) (s : Writer capacity) (hclosed : s.fileOpen = false) :
    Keeps s
      (match s.openNextFile o with
      | (true, s) => s
      | (false, s) => f s) := by
  have hopened := keeps_openNextFile s o hclosed
  split
  · next h =>
    rw [h] at hopened
    exact hopened
  · next h =>
    rw [h] at hopened
    exact hopened.trans (hf _)

theorem fileOpen_foldl_index (calls : List CollectionPolicy.Call) (s : Writer capacity) :
    (calls.foldl index s).fileOpen = s.fileOpen := by
  induction calls generalizing s with
  | nil => rfl
  | cons c calls ih => exact (ih (s.index c)).trans (fileOpen_index s c)

theorem keeps_rotateFile (s : Writer capacity) (e : Emission) (c : Closing) (o : Opening) :
    Keeps s (s.rotateFile e c o) := by
  obtain ⟨hclose, hclosed⟩ := keeps_closeFile (s.emit e) c
  have hlast := (keeps_emit s e).trans hclose
  unfold rotateFile
  split
  · next h =>
    rw [h] at hlast
    exact hlast
  · next s' h =>
    rw [h] at hlast hclosed
    exact hlast.trans (keeps_opened keeps_enterFailed s' (hclosed rfl))

theorem keeps_debugFreezeWriter (s : Writer capacity) (c : Closing)
    (calls : List CollectionPolicy.Call) (o : Opening) :
    Keeps s (s.debugFreezeWriter c calls o) := by
  obtain ⟨hclose, hclosed⟩ := keeps_closeFile s c
  unfold debugFreezeWriter
  split
  · next h =>
    rw [h] at hclose
    exact hclose
  · next s' h =>
    rw [h] at hclose hclosed
    refine (hclose.trans (Keeps.foldl keeps_index calls s')).trans
      (keeps_opened keeps_enterFailed _ ?_)
    rw [fileOpen_foldl_index]
    exact hclosed rfl

theorem fileOpen_unmountCard (s : Writer capacity) : s.unmountCard.fileOpen = false := by
  show (dropUnflushedGap { s.index .clear with fileOpen := false }).fileOpen = false
  rw [dropUnflushedGap_closed]

theorem keeps_tryRecover (s : Writer capacity) (calls : List CollectionPolicy.Call)
    (o : Option Opening) : Keeps s (s.tryRecover calls o) := by
  unfold tryRecover
  dsimp only
  split
  · exact keeps_unmountCard s
  · refine ((keeps_unmountCard s).trans (Keeps.foldl keeps_index calls _)).trans
      (keeps_opened keeps_unmountCard _ ?_)
    rw [fileOpen_foldl_index, fileOpen_unmountCard]

/-! ## Runs -/

theorem keeps_step (s : Writer capacity) (op : Op) : Keeps s (s.step op) := by
  cases op with
  | line e => exact keeps_emit s e
  | markers now before writes after => exact keeps_writeDropMarkers s now before writes after
  | flush writes => exact keeps_flushBlock s false writes
  | sync writes synced => exact keeps_syncFile s writes synced
  | rotate e c o => exact keeps_rotateFile s e c o
  | freeze c calls o => exact keeps_debugFreezeWriter s c calls o
  | close c => exact (keeps_closeFile s c).1
  | unmount => exact keeps_unmountCard s
  | recover calls o => exact keeps_tryRecover s calls o
  | index c => exact keeps_index s c

theorem inv_start : Inv ({} : Writer capacity) where
  bytes := rfl
  longest := Nat.le_refl _
  buffered := Nat.le_refl _
  closed := fun _ => plain_nil
  billing := CollectionPolicy.Billing.start capacity
  owed := DiscardStats.Counts.nil
  flight := .inl ⟨rfl, plain_nil⟩
  lines := nofun
  split := rfl

/-- Every SEALED chunk that was discarded is in one window, and every window is in one place: it is
stated by a line that was accepted as a whole, or by the line in the block, or it is owed, or it is
the one of the policy. Each of them is exact. -/
structure StatedOnce (s : Writer capacity) : Prop where
  split : s.losses.all = stated s.written ++ stated s.block ++ s.owed.losses ++ s.losses.current
  lines : ∀ l ∈ s.written ++ s.block, ∀ w, l.window = some w →
    w.losses ≠ [] ∧ w.stats.States w.losses ∧ ∃ room now, l.text = gapLine room now w.stats
  block : Plain s.block ∨ ∃ w after, Carries w after s.block
  owed : s.owed.stats.States s.owed.losses
  current : s.policy.pending.States s.losses.current

theorem length_losses_le {l : Line} {w : Window} {lines : List Line} (hl : l ∈ lines)
    (hw : l.window = some w) : w.losses.length ≤ (stated lines).length := by
  rw [← Line.losses_of_some hw]
  unfold stated
  rw [List.flatMap_def]
  exact (List.sublist_flatten_of_mem (List.mem_map_of_mem hl)).length_le

theorem Inv.statedOnce (hi : Inv s) (hb : Bounded s) : StatedOnce s := by
  have hlen := congrArg List.length hi.split
  simp only [List.length_append] at hlen
  have hlosses := hb.losses
  refine ⟨hi.split, ?_, ?_, hi.owed.states (hi.length_owed hb),
    hi.billing.pending.states hb.length_current⟩
  · intro l hl w hw
    obtain ⟨hcounts, hne, htext⟩ := hi.lines l hl w hw
    have hle := length_losses_le hl hw
    rw [stated_append, List.length_append] at hle
    exact ⟨hne, hcounts.states (by omega), htext⟩
  · rcases hi.flight with ⟨-, hplain⟩ | ⟨-, -, ⟨after, hholds, -⟩ | ⟨hplain, -⟩⟩
    · exact .inl hplain
    · exact .inr ⟨_, after, hholds⟩
    · exact .inl hplain

/-- In every run in which no file gets to `2^32` bytes and fewer than `2^32` chunks are lost, every
loss is stated once. -/
theorem stated_once (ops : List Op) (h : Bounded (run ops : Writer capacity)) :
    StatedOnce (run ops : Writer capacity) := by
  have hkeeps : Keeps ({} : Writer capacity) (run ops) := Keeps.foldl keeps_step ops {}
  exact (hkeeps.inv h inv_start).statedOnce h

/-- A file is opened with `size` bytes in it, a chunk is lost, its gap line is written, and a line
and the end of the file follow. -/
def gapOps (size : UInt32) : List Op :=
  [.recover [] (some { seq := 1, size := some size }), .index (.add 0 1 .sealed),
    .index (.discard 0), .markers 0 [] [] [], .line { text := List.replicate 100 newline },
    .close { last := { text := ascii "#close" } }]

/-- The next file, with the markers that are due. -/
def nextFile : List Op :=
  [.recover [] (some { seq := 2, size := some 0 }), .markers 0 [] [] [],
    .close { last := { text := ascii "#close" } }]

set_option maxRecDepth 8000 in
theorem stated_once_sample :
    stated (run (gapOps 0 ++ nextFile) : Writer 256).written = [⟨0, 1, .sealed, false⟩] ∧
      StatedOnce (run (gapOps 0 ++ nextFile) : Writer 256) :=
  ⟨by decide, stated_once _ ⟨by decide, by decide⟩⟩

/-- Calls on the index move nothing but the policy and its losses. -/
theorem exec_index {calls : List CollectionPolicy.Call} (s : Writer capacity)
    (h : .takePendingDiscards ∉ calls) :
    exec step s (calls.map Op.index) =
      { s with
        policy := (exec stepWithLosses (s.policy, s.losses) calls).1
        losses := (exec stepWithLosses (s.policy, s.losses) calls).2 } := by
  induction calls generalizing s with
  | nil => rfl
  | cons c calls ih =>
    have hc : c ≠ .takePendingDiscards := fun hc => h (hc ▸ List.mem_cons_self)
    have hstep : s.index c = { s with
        policy := s.policy.step c, losses := nextLosses s.policy s.losses c } :=
      if_neg hc
    rw [List.map_cons, exec_cons]
    show exec step (s.index c) _ = _
    rw [ih _ fun hmem => h (List.mem_cons_of_mem _ hmem), hstep]
    rfl

theorem notMem_discardRounds (n : Nat) :
    CollectionPolicy.Call.takePendingDiscards ∉ discardRounds n := by
  induction n with
  | zero => nofun
  | succ n ih => simpa [discardRounds] using ih

/-- The losses of the rounds are all in the window of the policy. -/
theorem lt_of_statedOnce_rounds {n : Nat}
    (h : StatedOnce (run ((discardRounds n).map .index) : Writer 256)) :
    n < 2 ^ 32 := by
  have hlength := losses_rounds n
    (s := (({}, {}) : CollectionPolicy 256 × Losses)) rfl
  rw [run, exec_index _ (notMem_discardRounds n)] at h
  have hsplit := h.split
  have hchunks := h.current.chunks
  dsimp only at hlength hsplit hchunks
  generalize exec stepWithLosses (({}, {}) : CollectionPolicy 256 × Losses)
    (discardRounds n) = r at hlength hsplit hchunks
  have hlt := r.1.pending.chunks.toNat_lt
  have hcurrent := congrArg List.length hsplit
  rw [hlength] at hcurrent
  change 0 + n = r.2.current.length at hcurrent
  omega

set_option maxRecDepth 8000 in
/-- Where the count of the bytes of a file wraps, a window whose line was accepted is stated again
in the next file; and `2^32` losses are stated as none. -/
theorem stated_once_unbounded :
    ¬StatedOnce (run (gapOps 0xFFFFFF9C ++ nextFile) : Writer 256) ∧
      ¬StatedOnce (run ((CollectionPolicy.discardRounds (2 ^ 32)).map .index) : Writer 256) := by
  constructor
  · intro h
    have hsplit := congrArg List.length h.split
    revert hsplit
    decide
  · intro h
    exact absurd (lt_of_statedOnce_rounds h) (Nat.lt_irrefl _)

end Writer

end EspCars.SdLogger
