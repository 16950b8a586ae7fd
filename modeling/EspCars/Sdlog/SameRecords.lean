import EspCars.Sdlog.Turns

/-!
# The checker and the reader of stream lines

`parse_file` splits a file at newlines alone and reads the bytes behind the last one, `StreamReader`
also splits at carriage returns and reads complete lines only. A carriage return is harmless if
what it cuts off says nothing to the reader. Of a clean file with no other carriage return the
reader yields what the checker counts, exactly if the checker does not count the bytes behind the
last newline.
-/

namespace EspCars.Sdlog

open EspCars.Lib EspCars.SdLogger

/-! ## A file -/

/-- The carriage returns in a line cut nothing off it that says something to the reader. -/
def Harmless (estimates : Bool) (line : Str) : Prop :=
  match pieces line with
  | [] => True
  | first :: more =>
    (if isMeta line then Ignored estimates first else 2 ≤ (fields first).length) ∧
      ∀ piece ∈ more, Ignored estimates piece

/-- What the first piece has of a line, and that the others say nothing. -/
theorem Harmless.pieces {estimates : Bool} {line : Str} (hfree : newline ∉ line)
    (h : carriageReturn ∈ line → Harmless estimates line) :
    ∃ more, pieces line = line.takeWhile (· ≠ carriageReturn) :: more ∧
      (∀ piece ∈ more, Ignored estimates piece) ∧
      (carriageReturn ∉ line → line.takeWhile (· ≠ carriageReturn) = line) ∧
      (carriageReturn ∈ line → if isMeta line then
          Ignored estimates (line.takeWhile (· ≠ carriageReturn))
        else 2 ≤ (fields (line.takeWhile (· ≠ carriageReturn))).length) := by
  obtain ⟨more, hpieces⟩ := pieces_eq line hfree
  by_cases hcr : carriageReturn ∈ line
  · have hharmless := h hcr
    unfold Harmless at hharmless
    rw [hpieces] at hharmless
    exact ⟨more, hpieces, hharmless.2, fun hnot => absurd hcr hnot, fun _ => hharmless.1⟩
  · have hone := pieces_of_notMem hfree hcr
    rw [hpieces] at hone
    obtain ⟨hfirst, hmore⟩ := List.cons.inj hone
    refine ⟨more, hpieces, ?_, fun _ => hfirst, fun hmem => absurd hmem hcr⟩
    rw [hmore]
    nofun

theorem exists_takeWhile_append {line : Str} {c : UInt8} (h : c ∈ line) :
    ∃ rest, line = line.takeWhile (· ≠ c) ++ c :: rest := by
  induction line with
  | nil => cases h
  | cons d line ih =>
    by_cases hd : d = c
    · subst hd
      exact ⟨line, by rw [List.takeWhile_cons, if_neg (by simp)]; rfl⟩
    · obtain ⟨rest, hrest⟩ := ih ((List.mem_cons.mp h).resolve_left (Ne.symm hd))
      refine ⟨rest, ?_⟩
      rw [List.takeWhile_cons, if_pos (decide_eq_true hd), List.cons_append, ← hrest]

/-- The token and the stamp of a stream line stand before any carriage return. -/
theorem fields_first {line : Str} {chain : Chain} {v : Nat × Chain} (htwo : 2 ≤ (fields line).length)
    (hread : chain.read (field (fields line) 1) = .ok v)
    (hwhole : carriageReturn ∉ line → line.takeWhile (· ≠ carriageReturn) = line)
    (hcut : carriageReturn ∈ line → 2 ≤ (fields (line.takeWhile (· ≠ carriageReturn))).length) :
    field (fields (line.takeWhile (· ≠ carriageReturn))) 0 = field (fields line) 0 ∧
      2 ≤ (fields (line.takeWhile (· ≠ carriageReturn))).length ∧
      field (fields (line.takeWhile (· ≠ carriageReturn))) 1 = field (fields line) 1 := by
  by_cases hcr : carriageReturn ∈ line
  · obtain ⟨rest, hsplit⟩ := exists_takeWhile_append hcr
    have hfields := @fields_cut _ rest carriageReturn (hcut hcr)
    rw [← hsplit] at hfields
    obtain ⟨hzero, -, hone⟩ := hfields
    refine ⟨hzero.symm, hcut hcr, ?_⟩
    rcases hone with hone | hcomma | hmem
    · exact hone.symm
    · exact absurd hcomma (by decide)
    · exact absurd hmem (notMem_of_read (by decide) (by decide) hread)
  · rw [hwhole hcr]
    exact ⟨rfl, htwo, rfl⟩

/-- A stream line is yielded with the time of its stamp. -/
theorem StreamReader.readLine_stream {r : StreamReader} {line : Str} {kind : UInt8} {tUs : Nat}
    {chain : Chain} (hkind : (field (fields line) 0).head? = some kind)
    (hstream : kind ∈ recordKinds ∨ kind = textKind) (htwo : 2 ≤ (fields line).length)
    (hread : r.chain.read (field (fields line) 1) = .ok (tUs, chain)) :
    ∃ item, r.readLine line = .ok ({ r with chain := chain }, some item) ∧ item.kind = kind ∧
      item.tUs = tUs := by
  have hmeta : ¬ isMeta line = true := by
    intro h
    have hmark : some kind = some 35 :=
      (head_of_field_zero hkind).symm.trans (of_decide_eq_true h)
    cases hmark
    revert hstream
    decide
  unfold readLine
  rw [if_neg hmeta]
  dsimp only
  rw [hkind]
  have hlong : (fields line).length > 1 := htwo
  dsimp only
  rw [if_pos hstream, if_pos hlong, hread]
  exact ⟨_, rfl, rfl, rfl⟩

/-- A line that the checker reads, and its pieces. -/
theorem reads_pieces {s : Scan} {r : StreamReader} (hgoing : s.stopped = false) {number : Nat}
    {line : Str} (hbad : (s.turn number line false).report.badLines = [])
    (hstop : (s.turn number line false).stopped = false) (hchain : r.chain = s.chain)
    (hfree : newline ∉ line) (hharmless : carriageReturn ∈ line → Harmless r.estimates line)
    {items : List StreamLine} (hrecorded : Recorded s.report items) :
    ∃ item r', r.Reads (pieces line) item r' ∧ r'.chain = (s.turn number line false).chain ∧
      r'.estimates = r.estimates ∧
      Recorded (s.turn number line false).report (items ++ item) := by
  obtain ⟨more, hpieces, hmore, hwhole, hcut⟩ := Harmless.pieces hfree hharmless
  rw [hpieces]
  rcases Scan.turn_clean hgoing hbad hstop with ⟨hquiet, hignored, hframe⟩ |
    ⟨hmeta, kind, tUs, chain, hkind, hstream, htwo, hread, hturn, hnoted⟩
  · have hfirst : Ignored r.estimates (line.takeWhile (· ≠ carriageReturn)) := by
      by_cases hcr : carriageReturn ∈ line
      · rcases hquiet with rfl | hmeta
        · cases hcr
        · have h := hcut hcr
          rw [if_pos hmeta] at h
          exact h
      · rw [hwhole hcr]
        exact hignored _
    obtain ⟨r', hreads, hsame⟩ := StreamReader.reads_ignored (List.forall_mem_cons.mpr
      ⟨hfirst, hmore⟩)
    refine ⟨[], r', hreads, (hsame.chain.trans hchain).trans hframe.chain.symm, hsame.estimates, ?_⟩
    rw [List.append_nil]
    exact hrecorded.unnoted hframe.toUnnoted
  · obtain ⟨hzero, htwo', hone⟩ := fields_first htwo hread hwhole fun hcr => by
      have h := hcut hcr
      rw [hmeta] at h
      exact h
    rw [← hzero] at hkind
    rw [← hone, ← hchain] at hread
    obtain ⟨item, hline, hitemKind, hitemTime⟩ :=
      StreamReader.readLine_stream hkind hstream htwo' hread
    obtain ⟨r', hreads, hsame⟩ := @StreamReader.reads_ignored { r with chain := chain } more hmore
    refine ⟨[item], r', StreamReader.Reads.cons hline hreads, hsame.chain.trans hturn.symm,
      hsame.estimates, hrecorded.noted ?_⟩
    rw [hitemKind, hitemTime]
    exact hnoted

/-- The complete lines of a clean file, and their pieces. -/
theorem reads_turns {ls : List Str} {s : Scan} {r : StreamReader} {number : Nat}
    (hbad : (s.turns number ls).report.badLines = []) (hstop : (s.turns number ls).stopped = false)
    (hchain : r.chain = s.chain) (hfree : ∀ line ∈ ls, newline ∉ line)
    (hharmless : ∀ line ∈ ls, carriageReturn ∈ line → Harmless r.estimates line)
    {items : List StreamLine} (hrecorded : Recorded s.report items) :
    ∃ read r', r.Reads (ls.flatMap pieces) read r' ∧ r'.estimates = r.estimates ∧
      Recorded (s.turns number ls).report (items ++ read) := by
  induction ls generalizing s r number items with
  | nil =>
    refine ⟨[], r, StreamReader.Reads.nil r, rfl, ?_⟩
    rw [List.append_nil]
    exact hrecorded
  | cons line ls ih =>
    have hgoing : ∀ {s : Scan} {number : Nat} {ls : List Str},
        (s.turns number ls).stopped = false → s.stopped = false := by
      intro s number ls h
      by_contra hnot
      have hstopped := (Bool.not_eq_false _).mp hnot
      rw [Scan.turns_of_stopped hstopped] at h
      exact hnot h
    have hturnBad : (s.turn number line false).report.badLines = [] := by
      have hprefix := Scan.badLines_turns (s.turn number line false) (number + 1) ls
      rw [show ((s.turn number line false).turns (number + 1) ls).report.badLines = [] from hbad]
        at hprefix
      exact List.prefix_nil.mp hprefix
    have hturnStop : (s.turn number line false).stopped = false :=
      hgoing (show ((s.turn number line false).turns (number + 1) ls).stopped = false from hstop)
    obtain ⟨hfreeLine, hfreeRest⟩ := List.forall_mem_cons.mp hfree
    obtain ⟨hharmlessLine, hharmlessRest⟩ := List.forall_mem_cons.mp hharmless
    obtain ⟨item, r₁, hreads, hchain₁, hestimates, hrecorded₁⟩ := reads_pieces (hgoing hstop)
      hturnBad hturnStop hchain hfreeLine hharmlessLine hrecorded
    rw [← hestimates] at hharmlessRest
    obtain ⟨read, r₂, hreads', hestimates', hrecorded₂⟩ := ih hbad hstop hchain₁ hfreeRest
      hharmlessRest hrecorded₁
    refine ⟨item ++ read, r₂, ?_, hestimates'.trans hestimates, ?_⟩
    · rw [List.flatMap_cons]
      exact hreads.append hreads'
    · rw [← List.append_assoc]
      exact hrecorded₂

/-! ## The bytes behind the last newline -/

namespace Scan

theorem settle_last (number : Nat) (line : Str) (parsed : Scan × Option Malformed) :
    settle number line true parsed = parsed.1 := by
  obtain ⟨s, e⟩ := parsed
  cases e with
  | none => rfl
  | some e => rfl

theorem unnoted_turn_meta (s : Scan) (number : Nat) {line : Str} (hmeta : isMeta line = true) :
    Unnoted s.report (s.turn number line true).report := by
  unfold turn
  split_ifs
  · exact ⟨rfl, rfl, rfl⟩
  · exact ⟨rfl, rfl, rfl⟩
  · exact ⟨rfl, rfl, rfl⟩
  · dsimp only
    rw [settle_last]
    unfold parseLine
    rw [if_pos hmeta]
    have hframe := (frame_parseMeta
      { s with report := { s.report with totalLines := s.report.totalLines + 1 } } line).toUnnoted
    generalize parseMeta
      { s with report := { s.report with totalLines := s.report.totalLines + 1 } } line = parsed at *
    obtain ⟨t, e⟩ := parsed
    cases e with
    | none => exact { hframe with }
    | some e => exact { hframe with }

theorem isMeta_of_starts {p : Str} {line : Str} (hp : p.head? = some 35) (h : p <+: line) :
    isMeta line = true := by
  obtain ⟨rest, rfl⟩ := h
  cases p with
  | nil => cases hp
  | cons c p => exact decide_eq_true hp

/-- A last line of another kind is counted unless it is refused. -/
theorem turn_last_stream {s : Scan} (hgoing : s.stopped = false) (number : Nat) {line : Str}
    (hline : line ≠ []) (hmeta : isMeta line = false) :
    InertStream s.chain line ∧ Unnoted s.report (s.turn number line true).report ∨
      ¬ InertStream s.chain line ∧
        ∃ kind tUs, Noted s.report (s.turn number line true).report kind tUs := by
  have hnot : ¬ isMeta line = true := (Bool.not_eq_true _).mpr hmeta
  have hturn : s.turn number line true = (parseStream
      { s with report := { s.report with totalLines := s.report.totalLines + 1 } } line).1 := by
    unfold turn
    rw [if_neg (by rw [hgoing]; simpa using hline)]
    dsimp only
    rw [if_neg fun h => hnot (isMeta_of_starts rfl h),
      if_neg fun h => hnot (isMeta_of_starts rfl h.2), settle_last]
    unfold parseLine
    rw [if_neg hnot]
  rw [hturn]
  generalize ht : { s with report := { s.report with totalLines := s.report.totalLines + 1 } } = t
  have hsame : Unnoted s.report t.report := by
    rw [← ht]
    exact ⟨rfl, rfl, rfl⟩
  have hchain : s.chain = t.chain := by rw [← ht]
  rw [hchain, ← silent_parseStream]
  rcases parseStream_cases t line with ⟨kind, tUs, chain, -, -, -, -, -, -, -, -, hnoted⟩ |
    ⟨-, -, hraises⟩
  · refine Or.inr ⟨fun hsilent => ?_, kind, tUs, ?_, ?_, hnoted.last⟩
    · have hverdict : (t.parseStream line).1.report.verdict = t.report.verdict := hsilent
      have hcounts := congrArg Report.counts hverdict
      exact bump_ne kind _ (hnoted.counts.symm.trans hcounts)
    · rw [← hsame.counts]
      exact hnoted.counts
    · rw [← hsame.first]
      exact hnoted.first
  · refine Or.inl ⟨congrArg Report.verdict hraises, ?_⟩
    rw [hraises]
    exact hsame

end Scan

/-! ## The whole file -/

/-- The two have read the same: nothing has stopped the reader, and its lines are those counted. -/
structure SameRecords (r : Report) (read : List StreamLine × Option ReadError) : Prop where
  noError : read.2 = none
  recorded : Recorded r read.1

/-- No carriage return of the file lets the reader see what the checker does not. -/
def CarriageHarmless (estimates : Bool) (raw : List UInt8) : Prop :=
  (∀ line ∈ lines newline raw, carriageReturn ∈ line → Harmless estimates line) ∧
    ∀ piece ∈ lines newline (universalNewlines (unfinished newline raw)), Ignored estimates piece

/-- The bytes behind the last newline are not counted. -/
def TailUncounted (raw : List UInt8) : Prop :=
  isMeta (unfinished newline raw) = true ∨
    Scan.InertStream (Scan.ofLines (lines newline raw)).chain (unfinished newline raw)

/-- A file without a carriage return. -/
theorem carriageHarmless_of_notMem (estimates : Bool) {raw : List UInt8}
    (h : carriageReturn ∉ raw) : CarriageHarmless estimates raw := by
  obtain ⟨happend, -, hlines⟩ := @complete_spec _ _ newline raw
  have htail : carriageReturn ∉ unfinished newline raw := by
    intro hmem
    rw [← happend] at h
    exact h (List.mem_append_right _ hmem)
  refine ⟨fun line hline hcr => ?_, ?_⟩
  · exact absurd (mem_of_mem_lines hline hcr) h
  · rw [universalNewlines_of_notMem htail, lines_of_notMem (notMem_unfinished raw)]
    nofun

/-- Of a clean file the reader yields what the checker counts, exactly if the checker does not
count the bytes behind the last newline. -/
theorem sameRecords_iff (estimates : Bool) (raw : List UInt8) (hclean : (parseFile raw).clean = true)
    (hsupported : (parseFile raw).Supported) (hharmless : CarriageHarmless estimates raw) :
    SameRecords (parseFile raw) (streamFile estimates raw) ↔ TailUncounted raw := by
  obtain ⟨hharmlessLines, hharmlessTail⟩ := hharmless
  unfold parseFile at hclean hsupported ⊢
  dsimp only at hclean hsupported ⊢
  generalize hs : Scan.ofLines (lines newline raw) = s at *
  -- the complete lines are clean, and the checker has not stopped at them
  have hgoing : s.stopped = false := by
    by_contra hnot
    have hstopped := (Bool.not_eq_false _).mp hnot
    rw [Scan.turn_of_stopped hstopped, ite_self] at hsupported
    rw [← hs] at hstopped hsupported
    exact Scan.not_supported_of_stopped rfl (Nat.le_refl 1) (fun _ => rfl) hstopped hsupported
  have hbad : s.report.badLines = [] := by
    have hlisted := of_decide_eq_true hclean
    split_ifs at hlisted
    · exact hlisted
    · have hprefix := Scan.badLines_turn s ((lines newline raw).length + 1)
        (unfinished newline raw) true
      rw [show (s.turn _ _ true).report.badLines = [] from hlisted] at hprefix
      exact List.prefix_nil.mp hprefix
  -- the reader yields the records of the complete lines
  obtain ⟨read, r, hreads, hestimates, hrecorded⟩ := @reads_turns (lines newline raw) {}
    { estimates := estimates } 1 (by rw [← hs] at hbad; exact hbad)
    (by rw [← hs] at hgoing; exact hgoing) rfl (fun line hline => notMem_of_mem_lines hline)
    hharmlessLines [] ⟨fun _ => rfl, rfl, rfl⟩
  have hignored : ∀ line ∈ lines newline (universalNewlines (unfinished newline raw)),
      Ignored r.estimates line := by
    rw [hestimates]
    exact hharmlessTail
  obtain ⟨r', hreadsTail, -⟩ := StreamReader.reads_ignored hignored
  have hstream : streamFile estimates raw = (read, none) := by
    unfold streamFile
    rw [lines_universalNewlines, (hreads.append hreadsTail).readLines, List.append_nil]
  rw [List.nil_append, show (({} : Scan).turns 1 (lines newline raw)) = s from hs] at hrecorded
  rw [hstream]
  have hiff : ∀ r : Report, SameRecords r (read, none) ↔ Recorded r read :=
    fun r => ⟨fun h => h.recorded, fun h => ⟨rfl, h⟩⟩
  rw [hiff]
  unfold TailUncounted
  rw [hs]
  by_cases hnone : unfinished newline raw = []
  · rw [if_pos hnone, hnone]
    exact ⟨fun _ => Or.inr nofun, fun _ => hrecorded.unnoted ⟨rfl, rfl, rfl⟩⟩
  rw [if_neg hnone]
  cases hmeta : isMeta (unfinished newline raw) with
  | true =>
    have hsame := Scan.unnoted_turn_meta s ((lines newline raw).length + 1) hmeta
    refine ⟨fun _ => Or.inl rfl, fun _ => hrecorded.unnoted ?_⟩
    exact { hsame with }
  | false =>
    rcases Scan.turn_last_stream hgoing ((lines newline raw).length + 1) hnone hmeta with
      ⟨hinert, hsame⟩ | ⟨hcounted, kind, tUs, hnoted⟩
    · refine ⟨fun _ => Or.inr hinert, fun _ => hrecorded.unnoted ?_⟩
      exact { hsame with }
    · constructor
      · intro hafter
        exact absurd hafter (hrecorded.not_noted { hnoted with })
      · rintro (hmeta | hinert)
        · cases hmeta
        · exact absurd hinert hcounted

/-- A text with a carriage return in it and a close line cut short. -/
def harmlessReturn : List UInt8 :=
  ascii "#sdlog,2,7,@0,v" ++ [newline] ++ ascii "XI,@5,t,a" ++ [carriageReturn] ++ ascii "b" ++
    [newline] ++ ascii "#close,@9,rot"

theorem sameRecords_iff_sample : SameRecords (parseFile harmlessReturn)
    (streamFile true harmlessReturn) ↔ TailUncounted harmlessReturn := by
  refine sameRecords_iff true harmlessReturn (by decide) ⟨2, by decide, by decide⟩ ⟨?_, ?_⟩
  · intro line hline hcr
    have hlines : lines newline harmlessReturn = [ascii "#sdlog,2,7,@0,v",
      ascii "XI,@5,t,a" ++ [carriageReturn] ++ ascii "b"] := by decide
    rw [hlines] at hline
    rcases List.mem_pair.mp hline with rfl | rfl
    · exact absurd hcr (by decide)
    · have hpieces : pieces (ascii "XI,@5,t,a" ++ [carriageReturn] ++ ascii "b") =
          [ascii "XI,@5,t,a", ascii "b"] := by decide
      unfold Harmless
      rw [hpieces]
      refine ⟨?_, fun piece hpiece => ?_⟩
      · rw [if_neg (by decide)]
        decide
      · rw [List.mem_singleton.mp hpiece]
        unfold Ignored
        dsimp only
        rw [if_neg (by decide)]
        intro kind hkind hstream
        cases hkind
        exact absurd hstream (by decide)
  · have htail : lines newline (universalNewlines (unfinished newline harmlessReturn)) = [] := by
      decide
    rw [htail]
    nofun

/-- A record that a power cut took the newline from. -/
def tornRecord : List UInt8 := ascii "#sdlog,2,7,@0,v" ++ [newline] ++ ascii "C1,@5,1,AB"

/-- A carriage return in the text of a log line, and more behind it that looks like one. -/
def strayReturn : List UInt8 :=
  ascii "#sdlog,2,7,@0,v" ++ [newline] ++ ascii "XI,@5,t,a" ++ [carriageReturn] ++
    ascii "XI,@6,t,b" ++ [newline]

/-- Clean files that the two read differently. -/
theorem not_sameRecords_sample :
    ((parseFile tornRecord).clean = true ∧ (parseFile tornRecord).Supported ∧
      ¬ SameRecords (parseFile tornRecord) (streamFile false tornRecord)) ∧
    (parseFile strayReturn).clean = true ∧ (parseFile strayReturn).Supported ∧
      ¬ SameRecords (parseFile strayReturn) (streamFile false strayReturn) := by
  refine ⟨⟨by decide, ⟨2, by decide, by decide⟩, fun h => ?_⟩, by decide,
    ⟨2, by decide, by decide⟩, fun h => ?_⟩
  · exact absurd (h.recorded.counts 67) (by decide)
  · exact absurd (h.recorded.counts textKind) (by decide)

end EspCars.Sdlog
