import EspCars.SdLogger.Counters
import EspCars.SdLogger.FileFormat

/-!
# The account of records and losses

What the writer does to its output is a row of effects (`Output.Effects`), and what an effect keeps
is kept by every run. A line that went into the block is on the card, in the block, or lost with a
card; a record that was accepted is in one place, and the counters say how many are lost and how
much of that the `#drop` lines have stated.
-/

namespace EspCars.SdLogger.Ledger

open EspCars.Lib
open Spool (items)

variable {env : Env}

namespace Line

/-- The record that the line is. -/
def number? (l : Line) : Option Nat :=
  match l.entry with
  | .record n => some n
  | _ => none

def isRecord (l : Line) : Bool := l.number?.isSome

/-- What the line states of the losses that `c` counts. -/
def states (c : LossCounter) (l : Line) : Nat :=
  match l.entry with
  | .drop c' delta _ => if c' = c then delta.toNat else 0
  | _ => 0

end Line

/-- The records of the lines. -/
def numbers (ls : List Line) : List Nat := ls.filterMap Line.number?

def stated (c : LossCounter) (ls : List Line) : Nat := (ls.map (Line.states c)).sum

theorem numbers_append (ls ls' : List Line) : numbers (ls ++ ls') = numbers ls ++ numbers ls' :=
  List.filterMap_append

theorem numbers_concat (ls : List Line) (l : Line) :
    numbers (ls ++ [l]) = numbers ls ++ l.number?.toList := by
  rw [numbers_append]
  cases h : l.number? <;> simp [numbers, h]

theorem length_numbers (ls : List Line) : (numbers ls).length = ls.countP Line.isRecord :=
  List.length_filterMap_eq_countP

theorem stated_append (c : LossCounter) (ls ls' : List Line) :
    stated c (ls ++ ls') = stated c ls + stated c ls' := by
  rw [stated, List.map_append, List.sum_append]
  rfl

theorem stated_concat (c : LossCounter) (ls : List Line) (l : Line) :
    stated c (ls ++ [l]) = stated c ls + l.states c := by
  rw [stated_append]
  rfl

/-! ## Effects -/

namespace Output

/-- One effect of the writer on its output. -/
inductive Effect : Output → Output → Prop
  | note (s : Output) (asked : Nat) (mounted : Bool) (stamps : DeltaClock) :
    Effect s { s with asked := asked, mounted := mounted, stamps := stamps }
  | count (s : Output) {c : LossCounter} (n : UInt32) (hc : c ≠ .write) : Effect s (s.count c n)
  | fail (s : Output) : Effect s s.enterFailed
  | accept (s : Output) (n : Nat) : Effect s (s.accept n)
  | line (s : Output) (text : List UInt8) : Effect s (s.commitLine text .other)
  | drop (s : Output) {text : List UInt8} (c : LossCounter) (total : UInt32) (htext : text ≠ []) :
    Effect s
      { s.commitLine text (.drop c (total - s.marked c) total) with
        marked := Function.update s.marked c total }
  | headed (s : Output) :
    Effect s
      { s with
        marked := Function.update s.marked .text (s.total .text)
        skipped := s.skipped || decide (s.total .text ≠ s.marked .text) }
  | close (s : Output) (h : s.fileOpen = false ∨ Spool.pending s.block = 0) :
    Effect s { s with fileOpen := false }
  | opened (s : Output) (size : UInt32) (h : s.fileOpen = false) :
    Effect s { s with fileOpen := true, fileBytes := size }.resetBlock
  | unmount (s : Output) (h : s.fileOpen = false ∨ numbers (items s.block) = []) :
    Effect s s.unmountCard

/-- Any number of effects. -/
abbrev Effects : Output → Output → Prop := Relation.ReflTransGen Effect

namespace Effects

variable {s : Output}

theorem foldl {α : Type} {f : Output → α → Output} (h : ∀ s a, Effects s (f s a)) (as : List α)
    (s : Output) : Effects s (as.foldl f s) := by
  induction as generalizing s with
  | nil => exact .refl
  | cons a as ih => exact (h s a).trans (ih (f s a))

theorem ask (s : Output) : Effects s s.ask := .single (.note s _ s.mounted s.stamps)

theorem unmounted (s : Output) : Effects s { s with mounted := false } :=
  .single (.note s s.asked false s.stamps)

end Effects

/-- `write()` has taken `len` bytes, or the card has failed. -/
structure Flushes (len : Nat) (s : Output) (r : Bool × Output) : Prop where
  effects : Effects s r.2
  failed : r.1 = false → r.2.fileOpen = false
  through : r.1 = true → r.2.fileOpen = s.fileOpen ∧ r.2.marked = s.marked ∧
    Spool.pending r.2.block = Spool.pending s.block - len

theorem writeLoop_flushes (env : Env) {turns len : Nat} (h : len ≤ turns) (s : Output) :
    Flushes len s (writeLoop env turns len s) := by
  induction turns generalizing len s with
  | zero =>
    obtain rfl := Nat.le_zero.mp h
    exact ⟨.refl, nofun, fun _ => ⟨rfl, rfl, rfl⟩⟩
  | succ turns ih =>
    unfold writeLoop
    dsimp only
    split_ifs with hlen hn
    · subst hlen
      exact ⟨.refl, nofun, fun _ => ⟨rfl, rfl, rfl⟩⟩
    · exact ⟨(Effects.ask s).tail (.fail _), fun _ => rfl, nofun⟩
    · generalize hm : min (env.write s.asked) len = n at hn
      obtain ⟨heffects, hfailed, hthrough⟩ := ih (by omega : len - n ≤ turns) (s.ask.accept n)
      refine ⟨((Effects.ask s).tail (.accept _ n)).trans heffects, hfailed, fun hr => ?_⟩
      obtain ⟨hopen, hmarked, hpending⟩ := hthrough hr
      refine ⟨hopen, hmarked, hpending.trans ?_⟩
      rw [show (s.ask.accept n).block = (Spool.consume n s.block).2 from rfl, Spool.pending_consume]
      omega

theorem flushBlock_flushes (env : Env) (s : Output) (all : Bool) :
    ∃ len, (all = true → len = Spool.pending s.block) ∧ Flushes len s (s.flushBlock env all) := by
  unfold flushBlock
  split_ifs with hclosed hall
  · refine ⟨Spool.pending s.block, fun _ => rfl, .refl, fun _ => ?_, nofun⟩
    simpa using hclosed
  · exact ⟨_, fun _ => rfl, writeLoop_flushes env le_rfl s⟩
  · exact ⟨_, fun h => absurd h hall, writeLoop_flushes env le_rfl s⟩

/-- There is room for a line in an open file, or the file is closed. -/
structure Roomy (need : Nat) (s : Output) (r : Bool × Output) : Prop where
  effects : Effects s r.2
  ready : r.1 = true → r.2.fileOpen = true ∧ r.2.marked = s.marked ∧ need ≤ r.2.room

theorem ensureRoom_roomy (env : Env) (s : Output) (need : Nat) :
    Roomy need s (s.ensureRoom env need) := by
  unfold ensureRoom
  split_ifs with hclosed hroom
  · exact ⟨.refl, nofun⟩
  · exact ⟨.refl, fun _ => ⟨by simpa using hclosed, rfl, hroom⟩⟩
  · obtain ⟨len, -, heffects, -, hthrough⟩ := s.flushBlock_flushes env false
    rcases hflush : s.flushBlock env false with ⟨through, t⟩
    rw [hflush] at heffects hthrough
    cases through with
    | false => exact ⟨heffects, nofun⟩
    | true =>
      obtain ⟨hopen, hmarked, -⟩ := hthrough rfl
      refine ⟨heffects, fun h => ⟨?_, hmarked, of_decide_eq_true h⟩⟩
      exact hopen.trans (by simpa using hclosed)

theorem commitLine_unflushed (s : Output) (text : List UInt8) (entry : Entry) :
    (s.commitLine text entry).unflushed = s.unflushed := by
  unfold commitLine
  split_ifs <;> rfl

theorem emit_effects (env : Env) (s : Output) (line : Nat × List UInt8) :
    Effects s (s.emit env line) := by
  have hroomy := s.ensureRoom_roomy env line.1
  unfold emit
  generalize s.ensureRoom env line.1 = r at hroomy ⊢
  rcases r with ⟨_ | _, t⟩
  · exact hroomy.effects
  · exact hroomy.effects.tail (.line t _)

theorem writeMeta_effects (env : Env) (s : Output) : Effects s (s.writeMeta env) := by
  unfold writeMeta
  split
  · exact .ask s
  · exact (Effects.ask s).trans (emit_effects env _ _)

theorem formatDrop_ne_nil {room : Nat} (h : maxLine ≤ room) (t : UInt64) (what : List UInt8)
    (label : Option (List UInt8)) (delta total : UInt32) :
    formatDrop room t what label delta total ≠ [] := by
  rw [formatDrop, if_neg (not_lt_minRoom h)]
  exact List.concat_ne_nil _ _

theorem writeDropMarker_effects (env : Env) (s : Output) (now64 : UInt64) (c : LossCounter) :
    Effects s (s.writeDropMarker env now64 c) := by
  obtain ⟨heffects, hready⟩ := s.ensureRoom_roomy env maxLine
  unfold writeDropMarker
  split_ifs
  · exact .refl
  · dsimp only
    generalize s.ensureRoom env maxLine = r at heffects hready ⊢
    rcases r with ⟨_ | _, t⟩
    · exact heffects
    · obtain ⟨-, hmarked, hroom⟩ := hready rfl
      rw [← congrFun hmarked c]
      exact heffects.tail (.drop t c (s.total c) (formatDrop_ne_nil hroom _ _ _ _ _))

theorem writeDropMarkers_effects (env : Env) (s : Output) (now64 : UInt64) :
    Effects s (s.writeDropMarkers env now64) :=
  have hmarkers := Effects.foldl (fun s c => writeDropMarker_effects env s now64 c)
  ((hmarkers _ s).trans (writeMeta_effects env _)).trans (hmarkers _ _)

theorem syncFile_effects (env : Env) (s : Output) : Effects s (s.syncFile env) := by
  obtain ⟨len, -, heffects, -⟩ := s.flushBlock_flushes env false
  unfold syncFile
  generalize s.flushBlock env false = r at heffects ⊢
  rcases r with ⟨_ | _, t⟩
  · exact heffects
  · dsimp only
    split_ifs
    · exact heffects.trans (Effects.ask t)
    · exact (heffects.trans (Effects.ask t)).tail (.fail _)

theorem closeFile_effects (env : Env) (s : Output) :
    Effects s (s.closeFile env).2 ∧ (s.closeFile env).2.fileOpen = false := by
  unfold closeFile
  split_ifs with hclosed
  · exact ⟨.refl, by simpa using hclosed⟩
  · have hlines := (s.writeMeta_effects env).trans (writeMeta_effects env _)
    generalize (s.writeMeta env).writeMeta env = t at hlines
    obtain ⟨len, hall, heffects, hfailed, hthrough⟩ := t.flushBlock_flushes env true
    generalize t.flushBlock env true = r at heffects hfailed hthrough ⊢
    rcases r with ⟨_ | _, u⟩
    · exact ⟨hlines.trans heffects, hfailed rfl⟩
    · obtain ⟨-, -, hpending⟩ := hthrough rfl
      rw [hall rfl, Nat.sub_self] at hpending
      dsimp only
      split_ifs
      · refine ⟨?_, rfl⟩
        exact ((hlines.trans heffects).trans (Effects.ask u)).tail (.close _ (Or.inr hpending))
      · exact ⟨((hlines.trans heffects).trans (Effects.ask u)).tail (.fail _), rfl⟩

theorem writeFileHeader_effects (env : Env) (s : Output) : Effects s (s.writeFileHeader env) :=
  ((Relation.ReflTransGen.single (.note s (s.asked + 1) s.mounted {})).trans
    (Effects.foldl (emit_effects env) _ _)).tail (.headed _)

theorem openNextFile_effects (env : Env) {s : Output} (h : s.fileOpen = false) :
    Effects s (s.openNextFile env).2 ∧
      ((s.openNextFile env).1 = false → (s.openNextFile env).2.fileOpen = false) := by
  unfold openNextFile
  split
  · exact ⟨(Effects.ask s).tail (.close _ (Or.inl h)), fun _ => rfl⟩
  · exact ⟨((Effects.ask s).tail (.opened _ _ h)).trans (writeFileHeader_effects env _), id⟩

theorem openOrFail_effects (env : Env) {s : Output} (h : s.fileOpen = false) :
    Effects s (s.openOrFail env) := by
  obtain ⟨heffects, -⟩ := openNextFile_effects env h
  unfold openOrFail
  generalize s.openNextFile env = r at heffects ⊢
  rcases r with ⟨_ | _, t⟩
  · exact heffects.tail (.fail t)
  · exact heffects

theorem rotateFile_effects (env : Env) (s : Output) : Effects s (s.rotateFile env) := by
  obtain ⟨heffects, hclosed⟩ := (s.writeMeta env).closeFile_effects env
  have hmeta := s.writeMeta_effects env
  unfold rotateFile
  generalize (s.writeMeta env).closeFile env = r at heffects hclosed ⊢
  rcases r with ⟨_ | _, t⟩
  · exact hmeta.trans heffects
  · exact (hmeta.trans heffects).trans (openOrFail_effects env hclosed)

theorem maybeRotate_effects (env : Env) (s : Output) (dying : Bool) :
    Effects s (s.maybeRotate env dying) := by
  unfold maybeRotate
  split_ifs
  · exact .refl
  · exact (Effects.ask s).trans (rotateFile_effects env _)
  · exact .ask s

theorem mountAndOpen_effects (env : Env) {s : Output} (h : s.fileOpen = false) :
    Effects s (s.mountAndOpen env) := by
  obtain ⟨heffects, hfailed⟩ := openNextFile_effects env (show s.ask.fileOpen = false from h)
  unfold mountAndOpen
  split_ifs
  · generalize s.ask.openNextFile env = r at heffects hfailed ⊢
    rcases r with ⟨_ | _, t⟩
    · exact ((Effects.ask s).trans heffects).tail (.unmount t (Or.inl (hfailed rfl)))
    · exact ((Effects.ask s).trans heffects).tail (.note t t.asked true t.stamps)
  · exact .ask s

theorem tryRecover_effects (env : Env) {s : Output}
    (h : s.fileOpen = false ∨ numbers (items s.block) = []) : Effects s (s.tryRecover env) :=
  (Relation.ReflTransGen.single (.unmount s h)).trans (mountAndOpen_effects env rfl)

/-! ## What an effect keeps -/

/-- The account of the lines and of the counters. -/
structure Kept (s : Output) : Prop where
  lines : (items s.written ++ items s.discarded ++ items s.block).Perm s.committed
  order : (items s.written ++ items s.block).Sublist s.committed
  lost : s.total .write = UInt32.ofNat (numbers (items s.discarded)).length
  ends : s.unflushed.ends = Spool.ends Line.isRecord 0 s.block
  wide : Spool.Wide Line.isRecord 8 s.block
  closed : s.fileOpen = false → numbers (items s.block) = []
  marked : ∀ c, (c = .text → s.skipped = false) →
    s.marked c = UInt32.ofNat (stated c s.committed)

namespace Kept

variable {s : Output}

theorem init : ({} : Output).Kept :=
  ⟨.nil, .slnil, rfl, rfl, .nil, fun _ => rfl, fun _ _ => rfl⟩

theorem order_nil (h : s.Kept) : (items s.written ++ []).Sublist s.committed :=
  List.Sublist.trans ((List.nil_sublist _).append_left _) h.order

theorem count_unflushed (h : s.Kept) : s.unflushed.count = (numbers (items s.block)).length := by
  rw [UnflushedRecordTracker.count, h.ends, Spool.length_ends, length_numbers]

/-- The tracker has a place for the record of a line that there is room for. -/
theorem unflushed_lt (h : s.Kept) (hroom : maxLine ≤ s.room) :
    s.unflushed.count < UnflushedRecordTracker.maxRecords := by
  have hle := h.wide.countP_le
  rw [← length_numbers, ← h.count_unflushed] at hle
  have hbuf : blockBufSize = 4096 := rfl
  have hline : maxLine = 512 := rfl
  have hmax : UnflushedRecordTracker.maxRecords = 512 := rfl
  unfold room at hroom
  omega

/-- A line goes into the block. -/
theorem commit (h : s.Kept) {l : Line} (htext : l.text.length ≠ 0)
    (hwide : l.isRecord = true → 8 ≤ l.text.length)
    (hopen : s.fileOpen = false → l.number? = none) (fileBytes : UInt32) (stamps : DeltaClock)
    {unflushed : UnflushedRecordTracker} {marked : LossCounter → UInt32}
    (hends : unflushed.ends = s.unflushed.ends ++
      if l.isRecord then [Spool.pending s.block + l.text.length] else [])
    (hmarked : ∀ c, (c = .text → s.skipped = false) →
      marked c = UInt32.ofNat (stated c s.committed + l.states c)) :
    Output.Kept
      { s with
        block := s.block ++ [⟨l, l.text.length⟩], fileBytes := fileBytes, stamps := stamps
        unflushed := unflushed, committed := s.committed ++ [l], marked := marked } := by
  have hitems : items (s.block ++ [⟨l, l.text.length⟩]) = items s.block ++ [l] :=
    Spool.items_append ..
  refine ⟨?_, ?_, h.lost, ?_, h.wide.concat (Nat.pos_of_ne_zero htext) hwide, fun hclosed => ?_,
    fun c hc => ?_⟩
  · rw [hitems, ← List.append_assoc]
    exact h.lines.append_right _
  · rw [hitems, ← List.append_assoc]
    exact h.order.append_right _
  · rw [hends, Spool.ends_concat, ← h.ends, Nat.zero_add]
  · rw [hitems, numbers_concat, h.closed hclosed, hopen hclosed]
    rfl
  · rw [stated_concat]
    exact hmarked c hc

/-- A line of no record goes into the block. -/
theorem commit_other (h : s.Kept) {l : Line} (htext : l.text.length ≠ 0) (hnone : l.number? = none)
    (fileBytes : UInt32) {marked : LossCounter → UInt32}
    (hmarked : ∀ c, (c = .text → s.skipped = false) →
      marked c = UInt32.ofNat (stated c s.committed + l.states c)) :
    let t : Output :=
      { s with
        block := s.block ++ [⟨l, l.text.length⟩], fileBytes := fileBytes
        committed := s.committed ++ [l], marked := marked }
    t.Kept ∧ numbers t.committed = numbers s.committed ∧
      (numbers (items s.block) = [] → numbers (items t.block) = []) := by
  have hrecord : l.isRecord = false := by rw [Line.isRecord, hnone]; rfl
  have hsame : ∀ ls, numbers (ls ++ [l]) = numbers ls := fun ls => by
    rw [numbers_concat, hnone]
    exact List.append_nil _
  have hends : s.unflushed.ends = s.unflushed.ends ++
      if l.isRecord then [Spool.pending s.block + l.text.length] else [] := by
    rw [hrecord]
    exact (List.append_nil _).symm
  refine ⟨h.commit htext (by rw [hrecord]; nofun) (fun _ => hnone) fileBytes s.stamps hends hmarked,
    hsame _, fun hnil => ?_⟩
  show numbers (items (s.block ++ _)) = []
  rw [Spool.items_append]
  exact (hsame _).trans hnil

/-- A record that there is room for goes into the block. -/
theorem record (h : s.Kept) (hopen : s.fileOpen = true) (hroom : maxLine ≤ s.room)
    {text : List UInt8} (htext : 8 ≤ text.length) (stamps : DeltaClock) (n : Nat) :
    let t := { s with stamps := stamps }.commitLine text (.record n)
    ({ t with unflushed := t.unflushed.commitRecord (Spool.pending t.block) }).Kept ∧
      numbers t.committed = numbers s.committed ++ [n] := by
  have hempty : ¬ text.length = 0 := by omega
  have hpending : Spool.pending [(⟨⟨text, .record n⟩, text.length⟩ : Piece Line)] = text.length :=
    Nat.add_zero _
  rw [commitLine, if_neg hempty]
  refine ⟨h.commit (l := ⟨text, .record n⟩) hempty (fun _ => htext)
    (fun hclosed => absurd (hopen.symm.trans hclosed) nofun) _ _ ?_ h.marked, numbers_concat ..⟩
  show (s.unflushed.commitRecord (Spool.pending (s.block ++ [_]))).ends = _
  rw [UnflushedRecordTracker.commitRecord, if_pos (h.unflushed_lt hroom), Spool.pending_append,
    hpending]
  rfl

/-- A block without records is reset. -/
theorem reset (h : s.Kept) (hnone : numbers (items s.block) = []) (fileOpen : Bool)
    (fileBytes : UInt32) :
    ({ s with fileOpen := fileOpen, fileBytes := fileBytes }).resetBlock.Kept := by
  have hempty := h.count_unflushed
  rw [hnone, UnflushedRecordTracker.count, List.length_nil, List.length_eq_zero_iff] at hempty
  refine ⟨?_, h.order_nil, ?_, hempty, .nil, fun _ => rfl, h.marked⟩
  · refine (List.Perm.of_eq ?_).trans h.lines
    simp [resetBlock, items]
  · refine h.lost.trans (congrArg (fun ns => UInt32.ofNat (List.length ns)) ?_)
    show _ = numbers (items (s.discarded ++ s.block))
    rw [Spool.items_append, numbers_append, hnone, List.append_nil]

/-- What an effect keeps of an account that is right. -/
theorem effect (h : s.Kept) {t : Output} (heffect : Effect s t) :
    t.Kept ∧ numbers t.committed = numbers s.committed ∧
      (numbers (items s.block) = [] → numbers (items t.block) = []) := by
  cases heffect with
  | note => exact ⟨{ h with }, rfl, id⟩
  | count n hc =>
    exact ⟨⟨h.lines, h.order, (Function.update_of_ne (Ne.symm hc) ..).trans h.lost, h.ends, h.wide,
      h.closed, h.marked⟩, rfl, id⟩
  | fail =>
    refine ⟨⟨?_, h.order_nil, ?_, rfl, .nil, fun _ => rfl, h.marked⟩, rfl, fun _ => rfl⟩
    · refine (List.Perm.of_eq ?_).trans h.lines
      simp [enterFailed, resetBlock, count, items]
    · show Function.update s.total .write (s.total .write + UInt32.ofNat s.unflushed.count) .write =
        UInt32.ofNat (numbers (items (s.discarded ++ s.block))).length
      rw [Function.update_self, h.lost, h.count_unflushed, Spool.items_append, numbers_append,
        List.length_append, UInt32.ofNat_add]
  | accept n =>
    have hitems := Spool.items_consume n s.block
    have hnumbers := congrArg numbers hitems
    rw [numbers_append] at hnumbers
    have hnone : numbers (items s.block) = [] → numbers (items (Spool.consume n s.block).2) = [] :=
      fun hnil => (List.append_eq_nil_iff.mp (hnumbers.trans hnil)).2
    refine ⟨⟨?_, ?_, h.lost, ?_, h.wide.consume n, fun hc => hnone (h.closed hc), h.marked⟩, rfl,
      hnone⟩
    · refine List.Perm.trans ?_ h.lines
      rw [← hitems]
      simp only [accept, Spool.items_append, List.append_assoc]
      exact (List.Perm.refl _).append (List.perm_append_comm_assoc ..)
    · have horder := h.order
      rw [← hitems, ← List.append_assoc, ← Spool.items_append] at horder
      exact horder
    · show (s.unflushed.consume n).ends = Spool.ends Line.isRecord 0 (Spool.consume n s.block).2
      rw [Spool.ends_consume _ h.wide.pos 0, Nat.zero_add, ← h.ends]
      rfl
  | line text =>
    unfold commitLine
    split_ifs with hempty
    · exact ⟨h, rfl, id⟩
    · exact h.commit_other (l := ⟨text, .other⟩) hempty rfl _ h.marked
  | @drop text c total htext =>
    have hlen : ¬ text.length = 0 := fun h0 => htext (List.length_eq_zero_iff.mp h0)
    rw [commitLine, if_neg hlen]
    refine h.commit_other (l := ⟨text, .drop c (total - s.marked c) total⟩) hlen rfl _
      fun c' hc => ?_
    rw [UInt32.ofNat_add, ← h.marked c' hc, Line.states]
    dsimp only
    by_cases hsame : c' = c
    · subst hsame
      rw [Function.update_self, if_pos rfl, UInt32.ofNat_toNat, UInt32.add_comm,
        UInt32.sub_add_cancel]
    · rw [Function.update_of_ne hsame, if_neg (Ne.symm hsame)]
      exact (UInt32.add_zero _).symm
  | headed =>
    refine ⟨⟨h.lines, h.order, h.lost, h.ends, h.wide, h.closed, fun c hc => ?_⟩, rfl, id⟩
    by_cases htext : c = .text
    · subst htext
      obtain ⟨hskipped, hsame⟩ := Bool.or_eq_false_iff.mp (hc rfl)
      dsimp only
      rw [Function.update_self, not_not.mp (of_decide_eq_false hsame)]
      exact h.marked .text fun _ => hskipped
    · dsimp only
      rw [Function.update_of_ne htext]
      exact h.marked c fun heq => absurd heq htext
  | close hclosed =>
    refine ⟨⟨h.lines, h.order, h.lost, h.ends, h.wide, fun _ => ?_, h.marked⟩, rfl, id⟩
    rcases hclosed with hclosed | hpending
    · exact h.closed hclosed
    · have hnil := h.wide.eq_nil hpending
      rw [show items s.block = [] by rw [hnil]; rfl]
      rfl
  | opened size hclosed => exact ⟨h.reset (h.closed hclosed) true size, rfl, fun _ => rfl⟩
  | unmount hnone =>
    exact ⟨h.reset (hnone.elim h.closed id) false s.fileBytes, rfl, fun _ => rfl⟩

theorem effects (h : s.Kept) {t : Output} (heffects : Effects s t) :
    t.Kept ∧ numbers t.committed = numbers s.committed ∧
      (numbers (items s.block) = [] → numbers (items t.block) = []) := by
  induction heffects with
  | refl => exact ⟨h, rfl, id⟩
  | tail _ heffect ih =>
    obtain ⟨hkept, hnumbers, hnone⟩ := ih
    obtain ⟨hkept', hnumbers', hnone'⟩ := hkept.effect heffect
    exact ⟨hkept', hnumbers'.trans hnumbers, hnone' ∘ hnone⟩

end Kept

end Output

/-! ## Steps and runs -/

theorem eight_le_formatRecord {room : Nat} (h : maxLine ≤ room) (clock : DeltaClock)
    (rec : LogRecord) (t : UInt64) (sources : SourceTable) :
    8 ≤ (formatRecord room clock rec t sources).1.length := by
  have hhex : ∀ v, 0 < (hexText 8 v).length := fun v =>
    List.length_pos_iff.mpr (hexText_ne_nil (by decide) v)
  have hstamp : ∀ anchor v, 0 < (LineWriter.stampText anchor v).length := by
    intro anchor v
    cases anchor
    · exact hhex _
    · exact Nat.succ_pos _
  have hsource := hhex rec.source.toUInt32.toNat
  have hid := hhex rec.id.toNat
  have hstep := hstamp (clock.encode t).1.1 (clock.encode t).1.2
  rw [formatRecord_eq h]
  simp only [joined, recordToken, List.length_append, List.length_cons, List.length_nil]
  omega

namespace Logger

/-- The record that was popped and not yet written. -/
def inHand (s : Logger) : List Nat :=
  match s.popped with
  | some (.record q) => [q.number]
  | _ => []

theorem idle_spec {s : Logger} (h : s.idle = true) : s.task = .running ∧ s.popped = none := by
  rwa [idle, Bool.and_eq_true, decide_eq_true_eq, decide_eq_true_eq] at h

theorem draining_spec {s : Logger} (h : s.draining = true) :
    (s.task = .running ∨ s.task = .closing) ∧ s.popped = none := by
  simp only [draining, Bool.and_eq_true, Bool.or_eq_true, decide_eq_true_eq] at h
  exact h.1

/-- The account of the records. -/
structure Kept (s : Logger) : Prop where
  out : s.out.Kept
  places : (s.inHand ++ s.ring.map Queued.number ++ s.counted ++ s.shed).Perm (List.range s.pushed)
  order : (s.counted ++ s.inHand ++ s.ring.map Queued.number).Pairwise (· < ·)
  counted : numbers s.out.committed = s.counted
  written : s.recordsWritten = UInt32.ofNat s.counted.length
  unsaturated : s.saturated = false
  busy : s.popped = none ∨ s.task = .running ∨ s.task = .closing
  parked : s.task = .parked → s.out.fileOpen = false
  absent : s.task = .absent → numbers (items s.out.block) = []

namespace Kept

variable {s : Logger}

/-- The output goes through effects, and the task may change. -/
theorem go (h : s.Kept) {out : Output} (heffects : Output.Effects s.out out) {task : Task}
    {reopen : Bool} (hbusy : s.popped = none ∨ task = .running ∨ task = .closing)
    (hparked : task = .parked → out.fileOpen = false)
    (habsent : task = .absent → out.fileOpen = false ∨ numbers (items s.out.block) = []) :
    ({ s with out := out, task := task, reopenAfterFreeze := reopen }).Kept := by
  obtain ⟨hout, hnumbers, hnone⟩ := h.out.effects heffects
  exact ⟨hout, h.places, h.order, hnumbers.trans h.counted, h.written, h.unsaturated, hbusy,
    hparked, fun ha => (habsent ha).elim hout.closed hnone⟩

theorem stay (h : s.Kept) {out : Output} (heffects : Output.Effects s.out out)
    (hparked : s.task = .parked → out.fileOpen = false) : ({ s with out := out }).Kept :=
  h.go heffects h.busy hparked fun ha => Or.inr (h.absent ha)

theorem count (h : s.Kept) {c : LossCounter} (n : UInt32) (hc : c ≠ .write) :
    ({ s with out := s.out.count c n }).Kept :=
  h.stay (.single (.count s.out n hc)) h.parked

/-- The writer's effects in its loop. -/
theorem idle (h : s.Kept) (hidle : s.idle = true) {out : Output}
    (heffects : Output.Effects s.out out) : ({ s with out := out }).Kept :=
  h.stay heffects fun hp => absurd ((idle_spec hidle).1.symm.trans hp) nofun

theorem pushRecord (h : s.Kept) (saw : Bool) (rec : LogRecord) :
    (s.pushRecord env saw rec).Kept := by
  unfold Logger.pushRecord
  split_ifs
  · exact { h.count 1 (c := .card) nofun with }
  · exact h.count 1 nofun
  · refine { h with places := ?_, order := ?_ }
    · have hplaces := h.places.append_right [s.pushed]
      rw [← List.range_succ] at hplaces
      refine List.Perm.trans (List.perm_iff_count.mpr fun n => ?_) hplaces
      simp only [inHand, List.map_append, List.map_cons, List.map_nil, List.count_append]
      omega
    · rw [List.map_append, ← List.append_assoc]
      refine List.pairwise_append.mpr ⟨h.order, List.pairwise_singleton .., fun n hn m hm => ?_⟩
      rw [List.mem_singleton.mp hm]
      refine List.mem_range.mp (h.places.mem_iff.mp ?_)
      simp only [List.mem_append] at hn ⊢
      tauto

theorem onLogMessage (h : s.Kept) (saw : Bool) (text : TextRecord) :
    (s.onLogMessage env saw text).Kept := by
  unfold Logger.onLogMessage
  split_ifs
  · exact h
  · exact { h.count 1 (c := .card) nofun with }
  · exact h.count 1 nofun
  · exact { h with }

theorem popRecord (h : s.Kept) (hdraining : s.draining = true) : s.popRecord.Kept := by
  obtain ⟨htask, hnone⟩ := draining_spec hdraining
  unfold Logger.popRecord
  split
  · exact h
  · next q ring hring =>
    have hplaces := h.places
    have horder := h.order
    rw [inHand, hnone, hring] at hplaces horder
    rw [List.append_nil, List.map_cons, ← List.singleton_append, ← List.append_assoc] at horder
    exact { h with places := hplaces, order := horder, busy := Or.inr htask }

theorem popText (h : s.Kept) (hdraining : s.draining = true) : s.popText.Kept := by
  obtain ⟨htask, hnone⟩ := draining_spec hdraining
  unfold Logger.popText
  split
  · exact h
  · have hplaces := h.places
    have horder := h.order
    rw [inHand, hnone] at hplaces horder
    exact { h with places := hplaces, order := horder, busy := Or.inr htask }

theorem writeRecord (h : s.Kept) {q : Queued} (hpopped : s.popped = some (.record q))
    (now64 : UInt64) : ({ s with popped := none }.writeRecord env now64 q).Kept := by
  have htask := h.busy.resolve_left (by rw [hpopped]; nofun)
  have hparked : s.task ≠ .parked := by rcases htask with h | h <;> rw [h] <;> nofun
  have habsent : s.task ≠ .absent := by rcases htask with h | h <;> rw [h] <;> nofun
  have hplaces := h.places
  have horder := h.order
  rw [inHand, hpopped] at hplaces horder
  obtain ⟨heffects, hready⟩ := s.out.ensureRoom_roomy env maxLine
  unfold Logger.writeRecord
  dsimp only
  generalize s.out.ensureRoom env maxLine = r at heffects hready ⊢
  rcases r with ⟨_ | _, out⟩
  · have hshed := h.stay (heffects.tail (.count out 1 (nofun : LossCounter.card ≠ .write)))
      fun hp => absurd hp hparked
    refine { hshed with busy := Or.inl rfl, places := ?_, order := ?_ }
    · refine List.Perm.trans (List.perm_iff_count.mpr fun n => ?_) hplaces
      simp only [inHand, List.count_append, List.count_nil]
      omega
    · exact horder.sublist (((List.nil_sublist _).append_left _).append_right _)
  · obtain ⟨hopen, -, hroom⟩ := hready rfl
    obtain ⟨hout, hnumbers, -⟩ := h.out.effects heffects
    have hlen := eight_le_formatRecord hroom out.stamps q.record
      (reconstructUs now64 q.record.tUs) env.sources
    have hlt := hout.unflushed_lt hroom
    dsimp only at hlen ⊢
    generalize formatRecord out.room out.stamps q.record (reconstructUs now64 q.record.tUs)
      env.sources = line at hlen ⊢
    obtain ⟨hrecord, hcommitted⟩ := hout.record hopen hroom hlen line.2 q.number
    obtain ⟨hrotated, hsame, -⟩ :=
      hrecord.effects (Output.maybeRotate_effects env _ s.dying)
    refine ⟨hrotated, ?_, ?_, ?_, ?_, ?_, Or.inl rfl, fun hp => absurd hp hparked,
      fun ha => absurd ha habsent⟩
    · refine List.Perm.trans (List.perm_iff_count.mpr fun n => ?_) hplaces
      simp only [inHand, List.count_append, List.count_nil]
      omega
    · rw [inHand, List.append_nil]
      exact horder
    · rw [hsame, ← h.counted, ← hnumbers]
      exact hcommitted
    · rw [List.length_append, UInt32.ofNat_add, ← h.written]
      rfl
    · rw [Output.commitLine_unflushed]
      exact Bool.or_eq_false_iff.mpr ⟨h.unsaturated, decide_eq_false (Nat.not_le.mpr hlt)⟩

theorem writeText (h : s.Kept) {text : TextRecord} (hpopped : s.popped = some (.text text))
    (now64 : UInt64) : ({ s with popped := none }.writeText env now64 text).Kept := by
  have hparked : s.task ≠ .parked := by
    rcases h.busy.resolve_left (by rw [hpopped]; nofun) with h | h <;> rw [h] <;> nofun
  have hplaces := h.places
  have horder := h.order
  rw [inHand, hpopped] at hplaces horder
  obtain ⟨heffects, -⟩ := s.out.ensureRoom_roomy env maxLine
  unfold Logger.writeText
  dsimp only
  generalize s.out.ensureRoom env maxLine = r at heffects ⊢
  rcases r with ⟨_ | _, out⟩
  · have hstay := h.stay (heffects.tail (.count out 1 (nofun : LossCounter.card ≠ .write)))
      fun hp => absurd hp hparked
    exact { hstay with busy := Or.inl rfl, places := hplaces, order := horder }
  · dsimp only
    generalize formatText out.room out.stamps (reconstructUs now64 text.tUs) text.level text.tag
      text.msg text.truncated = line
    have hline := (heffects.tail (.note out out.asked out.mounted line.2)).tail (.line _ line.1)
    have hstay := h.stay (hline.trans (Output.maybeRotate_effects env _ s.dying))
      fun hp => absurd hp hparked
    exact { hstay with busy := Or.inl rfl, places := hplaces, order := horder }

theorem writePopped (h : s.Kept) (now64 : UInt64) : (s.writePopped env now64).Kept := by
  unfold Logger.writePopped
  split
  · exact h
  · next q hpopped => exact h.writeRecord hpopped now64
  · next text hpopped => exact h.writeText hpopped now64

theorem freeze (h : s.Kept) (hnone : s.popped = none) : (s.freeze env).Kept := by
  obtain ⟨heffects, hclosed⟩ := s.out.closeFile_effects env
  unfold Logger.freeze
  split_ifs with hopen
  · generalize s.out.closeFile env = r at heffects hclosed ⊢
    rcases r with ⟨_ | _, out⟩
    · exact h.go heffects (Or.inl hnone) (fun _ => hclosed) nofun
    · exact h.go heffects (Or.inl hnone) (fun _ => hclosed) nofun
  · exact h.go .refl (Or.inl hnone) (fun _ => Bool.not_eq_true _ ▸ hopen) nofun

theorem resume (h : s.Kept) (hparked : s.task = .parked) : (s.resume env).Kept := by
  unfold Logger.resume
  split_ifs
  · exact h.go (Output.openOrFail_effects env (h.parked hparked)) (Or.inr (Or.inl rfl)) nofun nofun
  · exact h.go .refl (Or.inr (Or.inl rfl)) nofun nofun

theorem beginEmergencyClose (h : s.Kept) (tails : Nat → UInt32) :
    (s.beginEmergencyClose env tails).Kept :=
  have hcounts : ∀ (out : Output) i, Output.Effects out (out.count (.tapShutdown i) (tails i)) :=
    fun out i => .single (.count out (tails i) nofun)
  h.go ((Output.Effects.unmounted s.out).trans (Output.Effects.foldl hcounts _ _))
    (Or.inr (Or.inr rfl)) nofun nofun

theorem endEmergencyClose (h : s.Kept) (hnone : s.popped = none) (now64 : UInt64) :
    (s.endEmergencyClose env now64).Kept := by
  unfold Logger.endEmergencyClose
  dsimp only
  split_ifs with hopen
  · have hmarkers := s.out.writeDropMarkers_effects env now64
    obtain ⟨hclose, hclosed⟩ := (s.out.writeDropMarkers env now64).closeFile_effects env
    exact h.go ((hmarkers.trans hclose).tail (.unmount _ (Or.inl hclosed))) (Or.inl hnone) nofun
      fun _ => Or.inl rfl
  · have hclosed := Bool.not_eq_true _ ▸ hopen
    exact h.go (.single (.unmount s.out (Or.inl hclosed))) (Or.inl hnone) nofun fun _ => Or.inl rfl

theorem confineStop (h : s.Kept) (hnone : s.popped = none) : (s.confineStop env).Kept := by
  unfold Logger.confineStop
  dsimp only
  split_ifs with hopen
  · obtain ⟨hclose, hclosed⟩ := s.out.closeFile_effects env
    exact h.go (hclose.trans (Output.Effects.unmounted _)) (Or.inl hnone) nofun
      fun _ => Or.inl hclosed
  · exact h.go (Output.Effects.unmounted s.out) (Or.inl hnone) nofun
      fun _ => Or.inl (Bool.not_eq_true _ ▸ hopen)

theorem confineFormat (h : s.Kept) (habsent : s.task = .absent) (created : Bool) :
    (s.confineFormat env created).Kept := by
  have hnone : s.popped = none := h.busy.resolve_right (by rw [habsent]; nofun)
  have hblock := h.absent habsent
  exact h.go
    ((Output.Effects.unmounted s.out).trans (Output.tryRecover_effects env (Or.inr hblock)))
    (Or.inl hnone) (by cases created <;> simp) fun _ => Or.inr hblock

theorem of_ite (h : s.Kept) {c : Prop} [Decidable c] {t : Logger} (ht : c → t.Kept) :
    (if c then t else s).Kept := by
  split_ifs with hc
  · exact ht hc
  · exact h

theorem step (h : s.Kept) (op : Op) : (s.step env op).Kept := by
  cases op with
  | push saw rec => exact h.pushRecord saw rec
  | log saw text => exact h.onLogMessage saw text
  | tapDrop i n => exact h.count n nofun
  | requestClose => exact { h with }
  | popRecord => exact h.of_ite h.popRecord
  | popText => exact h.of_ite h.popText
  | write now64 => exact h.writePopped now64
  | metaLine => exact h.of_ite fun hidle => h.idle hidle (s.out.writeMeta_effects env)
  | dropMarkers now64 =>
    refine h.of_ite fun hc => ?_
    exact h.idle (Bool.and_eq_true .. ▸ hc).1 (s.out.writeDropMarkers_effects env now64)
  | maybeRotate => exact h.of_ite fun hidle => h.idle hidle (s.out.maybeRotate_effects env s.dying)
  | flush =>
    obtain ⟨len, -, hflushes⟩ := s.out.flushBlock_flushes env false
    exact h.of_ite fun hidle => h.idle hidle hflushes.effects
  | sync => exact h.of_ite fun hidle => h.idle hidle (s.out.syncFile_effects env)
  | recover =>
    refine h.of_ite fun hc => ?_
    simp only [Bool.and_eq_true, Bool.not_eq_true'] at hc
    exact h.idle hc.1.1 (Output.tryRecover_effects env (Or.inl hc.1.2))
  | freeze => exact h.of_ite fun hidle => h.freeze (idle_spec hidle).2
  | resume => exact h.of_ite h.resume
  | beginEmergencyClose tails => exact h.of_ite fun _ => h.beginEmergencyClose tails
  | endEmergencyClose now64 =>
    refine h.of_ite fun hc => ?_
    simp only [Bool.and_eq_true, decide_eq_true_eq] at hc
    exact h.endEmergencyClose hc.2 now64
  | confineStop => exact h.of_ite fun hidle => h.confineStop (idle_spec hidle).2
  | confineFormat created => exact h.of_ite fun habsent => h.confineFormat habsent created

theorem run (env : Env) (created : Bool) (ops : List Op) : (run env created ops).Kept := by
  have hstart : ({} : Logger).Kept :=
    ⟨.init, .nil, .nil, rfl, rfl, rfl, Or.inl rfl, nofun, fun _ => rfl⟩
  have hsetup : (setup env created).Kept :=
    hstart.go (Output.tryRecover_effects env (Or.inl rfl)) (Or.inl rfl)
      (by cases created <;> simp) fun _ => Or.inr rfl
  exact @Admitted.invariant _ _ (fun _ _ => True) _ Kept (fun _ op _ h => h.step op) _ ops
    (.of_forall fun _ _ _ _ => trivial) hsetup

end Kept

variable (env)

/-- In every run a record that was accepted is in the ring, in the writer's hand, counted as written
or counted as dropped, and once; what is counted as written is in the file, lost, or tracked. -/
theorem records_accounted (created : Bool) (ops : List Op) :
    let s := run env created ops
    (s.inHand ++ s.ring.map Queued.number ++ s.counted ++ s.shed).Perm (List.range s.pushed) ∧
      (numbers (items s.out.written) ++ numbers (items s.out.discarded) ++
        numbers (items s.out.block)).Perm s.counted ∧
      s.recordsWritten - s.out.total .write - UInt32.ofNat s.out.unflushed.count =
        UInt32.ofNat (numbers (items s.out.written)).length ∧
      s.saturated = false := by
  have h := Kept.run env created ops
  generalize run env created ops = s at h
  have hlines : (numbers (items s.out.written) ++ numbers (items s.out.discarded) ++
      numbers (items s.out.block)).Perm s.counted := by
    rw [← h.counted, ← numbers_append, ← numbers_append]
    exact h.out.lines.filterMap _
  refine ⟨h.places, hlines, ?_, h.unsaturated⟩
  rw [h.written, ← hlines.length_eq, h.out.lost, h.out.count_unflushed, List.length_append,
    List.length_append, UInt32.ofNat_add, UInt32.ofNat_add]
  grind

/-- In every run the records are in the order in which they were accepted: those of the file, of the
block, in the writer's hand and of the ring, one after the other. -/
theorem records_in_order (created : Bool) (ops : List Op) :
    let s := run env created ops
    (numbers (items s.out.written) ++ numbers (items s.out.block) ++ s.inHand ++
      s.ring.map Queued.number).Pairwise (· < ·) := by
  have h := Kept.run env created ops
  generalize run env created ops = s at h
  have hsublist := h.out.order.filterMap Line.number?
  rw [List.filterMap_append] at hsublist
  have horder := h.order
  rw [← h.counted] at horder
  exact horder.sublist ((hsublist.append_right _).append_right _)

/-- In every run what the `#drop` lines of a counter state, those on the card, in the block and lost
with a card, is the counter up to what is not stated yet; but for a loss of text that a file was
opened over. -/
theorem drops_accounted (created : Bool) (ops : List Op) (c : LossCounter) :
    let s := run env created ops
    (UInt32.ofNat (stated c (items s.out.written) + stated c (items s.out.discarded) +
          stated c (items s.out.block)) + (s.out.total c - s.out.marked c) = s.out.total c) ∨
      c = .text ∧ s.out.skipped = true := by
  have h := (Kept.run env created ops).out
  generalize run env created ops = s at h
  by_cases hskipped : c = .text ∧ s.out.skipped = true
  · exact Or.inr hskipped
  · left
    have hmarked := h.marked c fun hc => by simpa [hc] using hskipped
    have hstated := (h.lines.map (Line.states c)).sum_eq
    rw [List.map_append, List.map_append, List.sum_append, List.sum_append] at hstated
    have hlines : stated c (items s.out.written) + stated c (items s.out.discarded) +
      stated c (items s.out.block) = stated c s.out.committed := hstated
    rw [hlines, ← hmarked, UInt32.add_comm, UInt32.sub_add_cancel]

end Logger

end EspCars.SdLogger.Ledger
