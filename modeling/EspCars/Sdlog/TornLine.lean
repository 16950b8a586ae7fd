import EspCars.Sdlog.Report

/-!
# A torn last line

`parse_file` reads the bytes behind the last newline like any other line and only keeps quiet
about them when they do not parse. `Inert` says of such bytes that reading them states nothing:
they are refused before anything is assigned, or they repeat what the file has stated already.
`torn_line_iff`: exactly then the file is taken for what its complete lines are taken for.
-/

namespace EspCars.Sdlog

open EspCars.Lib EspCars.SdLogger

/-- What a file is taken for: its report but for the torn tail and the number of lines. -/
def Report.verdict (r : Report) : Report := { r with tornTail := false, totalLines := 0 }

/-- The text raises. -/
def Refused {α : Type} (p : Except Malformed α) : Prop := ∀ v, p ≠ .ok v

namespace Scan

/-- A `#sdlog` line that states nothing new, as far as it is read. -/
def InertHeader (r : Report) (fs : List Str) : Prop :=
  fs.length < 5 ∨ ∀ version, parseU (field fs 1) = .ok version →
    r.formatVersion = some version ∧ ∀ seq, parseU (field fs 2) = .ok seq →
      r.seq = some seq ∧ r.esphomeVersion = field fs 4

/-- A meta line that is refused, states what is stated already, or is not read at all. -/
def InertMeta (r : Report) (line : Str) : Prop :=
  let fs := fields line
  match MetaHead.ofText (field fs 0) with
  | .sdlog => InertHeader r fs
  | .src => Refused (parseSource fs)
  | .drop => Refused (parseDrop fs)
  | .gap => Refused (parseGap fs)
  | .rotate => fs.length < 3 ∨ r.rotateTo = field fs 2
  | .close => fs.length < 3 ∨ r.closeReason = some (field fs 2)
  | .utc => Refused (parseUtc fs)
  | .clock => Refused (parseClockLine line)
  | .ident => Refused (parseIdentLine line)
  | .origin => fs.length ≠ 2 ∨ r.origin = some (field fs 1)
  | .other => True

/-- A line of another kind that is refused. -/
def InertStream (c : Chain) (line : Str) : Prop :=
  let fs := fields line
  ∀ kind, (field fs 0).head? = some kind → kind ∈ recordKinds ∨ kind = textKind →
    fs.length < 2 ∨ Refused (c.read (field fs 1)) ∨
      if kind ∈ recordKinds then Refused (splitToken (field fs 0)) ∨ Refused (checkRecord fs)
      else Refused (checkText fs)

/-- A last line that changes nothing, behind lines that have left the scan `s`. -/
def Inert (s : Scan) (number : Nat) (line : Str) : Prop :=
  ascii "#pad," <+: line ∨ ¬ (number = 1 ∧ ascii "# " <+: line) ∧
    if isMeta line then InertMeta s.report line else InertStream s.chain line

/-! ## One line -/

/-- The line leaves the verdict as it is. -/
def Silent (s : Scan) (parsed : Scan × Option Malformed) : Prop :=
  parsed.1.report.verdict = s.report.verdict

theorem silent_taking {α : Type} {s : Scan} {parsed : Except Malformed α} {take : α → Scan}
    (h : ∀ v, (take v).report.verdict ≠ s.report.verdict) :
    s.Silent (s.taking parsed take) ↔ Refused parsed := by
  unfold taking
  cases parsed with
  | error e => exact ⟨fun _ _ => nofun, fun _ => rfl⟩
  | ok v => exact ⟨fun hsilent => absurd hsilent (h v), fun hrefused => absurd rfl (hrefused v)⟩

theorem append_singleton_ne {α : Type} (l : List α) (a : α) : l ++ [a] ≠ l := by
  intro h
  have hlength := congrArg List.length h
  rw [List.length_append, List.length_singleton] at hlength
  omega

/-- A count goes up. -/
theorem sum_bump {κ : Type} [DecidableEq κ] (key : κ) (d : List (κ × Nat)) :
    ((bump key d).map Prod.snd).sum = (d.map Prod.snd).sum + 1 := by
  induction d with
  | nil => rfl
  | cons entry d ih =>
    obtain ⟨k, n⟩ := entry
    unfold bump
    split_ifs
    · simp only [List.map_cons, List.sum_cons]
      omega
    · simp only [List.map_cons, List.sum_cons, ih]
      omega

theorem bump_ne {κ : Type} [DecidableEq κ] (key : κ) (d : List (κ × Nat)) : bump key d ≠ d := by
  intro h
  have hsum := sum_bump key d
  rw [h] at hsum
  omega

theorem silent_metaHeader (s : Scan) (fs : List Str) :
    s.Silent (s.metaHeader fs) ↔ InertHeader s.report fs := by
  unfold metaHeader InertHeader
  split_ifs with hlength
  · exact ⟨fun _ => Or.inl hlength, fun _ => rfl⟩
  cases hversion : parseU (field fs 1) with
  | error e => exact ⟨fun _ => Or.inr nofun, fun _ => rfl⟩
  | ok version =>
    cases hseq : parseU (field fs 2) with
    | error e =>
      constructor
      · intro h
        refine Or.inr fun v hv => ⟨?_, nofun⟩
        cases hv
        exact (congrArg Report.formatVersion h).symm
      · rintro (h | h)
        · exact absurd h hlength
        · obtain ⟨hv, -⟩ := h version rfl
          unfold Silent Report.verdict
          dsimp only
          rw [← hv]
    | ok seq =>
      have hstated : ∀ e, s.Silent ({ s with report := { s.report with
          formatVersion := some version, seq := some seq, esphomeVersion := field fs 4 } }, e) ↔
          fs.length < 5 ∨ ∀ v, Except.ok version = Except.ok (ε := Malformed) v →
            s.report.formatVersion = some v ∧ ∀ q, Except.ok seq = Except.ok (ε := Malformed) q →
              s.report.seq = some q ∧ s.report.esphomeVersion = field fs 4 := by
        intro e
        constructor
        · intro h
          refine Or.inr fun v hv => ⟨?_, fun q hq => ⟨?_, ?_⟩⟩
          · cases hv
            exact (congrArg Report.formatVersion h).symm
          · cases hq
            exact (congrArg Report.seq h).symm
          · exact (congrArg Report.esphomeVersion h).symm
        · rintro (h | h)
          · exact absurd h hlength
          · obtain ⟨hv, hrest⟩ := h version rfl
            obtain ⟨hq, hname⟩ := hrest seq rfl
            unfold Silent Report.verdict
            dsimp only
            rw [← hv, ← hq, ← hname]
      dsimp only
      split_ifs
      · cases parseAbsStamp (field fs 3) with
        | error e => exact hstated _
        | ok t => exact hstated _
      · exact hstated _

theorem offer_lines (c : ClockState) (point : ClockPoint) :
    (c.offer point true).lines = c.lines + 1 := by
  unfold ClockState.offer
  rw [if_pos rfl]
  dsimp only
  split
  · split_ifs
    · rfl
    · rfl
    · rfl
  · rfl

theorem silent_parseMeta (s : Scan) (line : Str) :
    s.Silent (s.parseMeta line) ↔ InertMeta s.report line := by
  unfold parseMeta InertMeta
  dsimp only
  cases MetaHead.ofText (field (fields line) 0) with
  | sdlog => exact silent_metaHeader s _
  | src =>
    refine silent_taking fun v h => ?_
    exact append_singleton_ne _ _ (congrArg Report.sources h)
  | drop =>
    refine silent_taking fun v h => ?_
    exact append_singleton_ne _ _ (congrArg Report.drops h)
  | gap =>
    refine silent_taking fun v h => ?_
    exact append_singleton_ne _ _ (congrArg Report.gaps h)
  | rotate =>
    dsimp only
    split_ifs with hshort
    · exact ⟨fun _ => Or.inl hshort, fun _ => rfl⟩
    · constructor
      · exact fun h => Or.inr (congrArg Report.rotateTo h).symm
      · intro h
        unfold Silent Report.verdict
        dsimp only
        rw [← h.resolve_left hshort]
  | close =>
    dsimp only
    split_ifs with hshort
    · exact ⟨fun _ => Or.inl hshort, fun _ => rfl⟩
    · constructor
      · exact fun h => Or.inr (congrArg Report.closeReason h).symm
      · intro h
        unfold Silent Report.verdict
        dsimp only
        rw [← h.resolve_left hshort]
  | utc =>
    refine silent_taking fun v h => ?_
    exact Nat.succ_ne_self _ (congrArg Report.utcAnchorCount h)
  | clock =>
    refine silent_taking fun v h => ?_
    have hlines := congrArg (fun r => r.clock.lines) h
    exact Nat.succ_ne_self _ ((offer_lines _ v).symm.trans hlines)
  | ident =>
    refine silent_taking fun v h => ?_
    exact append_singleton_ne _ _ (congrArg Report.idents h)
  | origin =>
    dsimp only
    split_ifs with hlength
    · exact ⟨fun _ => Or.inl hlength, fun _ => rfl⟩
    · constructor
      · exact fun h => Or.inr (congrArg Report.origin h).symm
      · intro h
        unfold Silent Report.verdict
        dsimp only
        rw [← h.resolve_left hlength]
  | other => exact ⟨fun _ => trivial, fun _ => rfl⟩

theorem counts_noteUtc (r : Report) (utc : Option Nat) : (r.noteUtc utc).counts = r.counts := by
  cases utc with
  | none => rfl
  | some utc => rfl

theorem silent_countRecord (s : Scan) (fs : List Str) (kind : UInt8) (tUs : Nat) :
    s.Silent (s.countRecord fs kind tUs) ↔
      Refused (splitToken (field fs 0)) ∨ Refused (checkRecord fs) := by
  unfold countRecord
  cases splitToken (field fs 0) with
  | error e => exact ⟨fun _ => Or.inl nofun, fun _ => rfl⟩
  | ok parts =>
    cases checkRecord fs with
    | error e => exact ⟨fun _ => Or.inr nofun, fun _ => rfl⟩
    | ok u =>
      constructor
      · intro h
        have hcounts : bump kind _ = s.report.counts := congrArg Report.counts h
        rw [counts_noteUtc] at hcounts
        exact absurd hcounts (bump_ne kind _)
      · rintro (h | h)
        · exact absurd rfl (h parts)
        · exact absurd rfl (h u)

theorem silent_countText (s : Scan) (fs : List Str) (tUs : Nat) :
    s.Silent (s.countText fs tUs) ↔ Refused (checkText fs) := by
  unfold countText
  cases checkText fs with
  | error e => exact ⟨fun _ => nofun, fun _ => rfl⟩
  | ok u =>
    constructor
    · intro h
      have hcounts : bump textKind _ = s.report.counts := congrArg Report.counts h
      rw [counts_noteUtc] at hcounts
      exact absurd hcounts (bump_ne textKind _)
    · intro h
      exact absurd rfl (h u)

theorem silent_parseStream (s : Scan) (line : Str) :
    s.Silent (s.parseStream line) ↔ InertStream s.chain line := by
  unfold parseStream InertStream
  dsimp only
  cases hkind : (field (fields line) 0).head? with
  | none => exact ⟨fun _ => nofun, fun _ => rfl⟩
  | some kind =>
    have hsame : ∀ P : UInt8 → Prop, (∀ k, some kind = some k → P k) ↔ P kind :=
      fun P => ⟨fun h => h kind rfl, fun h k hk => by cases hk; exact h⟩
    rw [hsame]
    dsimp only
    by_cases hstream : kind ∈ recordKinds ∨ kind = textKind
    · rw [if_pos hstream]
      by_cases hshort : (fields line).length < 2
      · rw [if_pos hshort]
        exact ⟨fun _ _ => Or.inl hshort, fun _ => rfl⟩
      rw [if_neg hshort]
      cases hread : s.chain.read (field (fields line) 1) with
      | error e => exact ⟨fun _ _ => Or.inr (Or.inl nofun), fun _ => rfl⟩
      | ok stamped =>
        obtain ⟨tUs, chain⟩ := stamped
        have hrest : ∀ P : Prop, (kind ∈ recordKinds ∨ kind = textKind →
            (fields line).length < 2 ∨ Refused (Except.ok (ε := Malformed) (tUs, chain)) ∨ P) ↔
              P := by
          intro P
          refine ⟨fun h => ?_, fun h _ => Or.inr (Or.inr h)⟩
          rcases h hstream with h | h | h
          · exact absurd h hshort
          · exact absurd rfl (h _)
          · exact h
        rw [hrest]
        dsimp only
        split_ifs
        · exact silent_countRecord { s with chain := chain } _ kind tUs
        · exact silent_countText { s with chain := chain } _ tUs
    · rw [if_neg hstream]
      exact ⟨fun _ h => absurd h hstream, fun _ => rfl⟩

theorem silent_parseLine (s : Scan) (line : Str) :
    s.Silent (s.parseLine line) ↔
      if isMeta line then InertMeta s.report line else InertStream s.chain line := by
  unfold parseLine
  split_ifs with hmeta
  · rw [← silent_parseMeta]
    unfold Silent
    cases s.parseMeta line with
    | mk s' e =>
      cases e with
      | none => rfl
      | some e => rfl
  · exact silent_parseStream s line

/-- The last turn, for a line without a newline. -/
theorem verdict_turn_last {s : Scan} (hgoing : s.stopped = false) {number : Nat}
    (hfresh : number = 1 → s.report.legacy = false) {line : Str} (hline : line ≠ []) :
    (s.turn number line true).report.verdict = s.report.verdict ↔ s.Inert number line := by
  unfold turn Inert
  rw [if_neg (by rw [hgoing]; simpa using hline)]
  dsimp only
  by_cases hpad : ascii "#pad," <+: line
  · rw [if_pos hpad]
    exact ⟨fun _ => Or.inl hpad, fun _ => rfl⟩
  rw [if_neg hpad]
  by_cases hlegacy : number = 1 ∧ ascii "# " <+: line
  · rw [if_pos hlegacy]
    constructor
    · intro h
      have hset : true = s.report.legacy := congrArg Report.legacy h
      rw [hfresh hlegacy.1] at hset
      cases hset
    · rintro (h | ⟨h, -⟩)
      · exact absurd h hpad
      · exact absurd hlegacy h
  rw [if_neg hlegacy]
  have hsilent := silent_parseLine
    { s with report := { s.report with totalLines := s.report.totalLines + 1 } } line
  have hsettle : ∀ parsed, settle number line true parsed = parsed.1 := by
    rintro ⟨s, e⟩
    cases e with
    | none => rfl
    | some e => rfl
  rw [hsettle]
  refine hsilent.trans ⟨fun h => Or.inr ⟨hlegacy, h⟩, fun h => ?_⟩
  exact (h.resolve_left hpad).2

/-- A scan that has stopped stays as it is. -/
theorem turn_of_stopped {s : Scan} (h : s.stopped = true) (number : Nat) (line : Str)
    (last : Bool) : s.turn number line last = s := by
  unfold turn
  rw [if_pos (Or.inl h)]

end Scan

/-! ## A whole file -/

/-- The bytes behind the last newline state nothing: there are none, the complete lines have made
the reader stop, or they are inert behind them. -/
def TailInert (raw : List UInt8) : Prop :=
  unfinished newline raw = [] ∨ (Scan.ofLines (lines newline raw)).stopped = true ∨
    (Scan.ofLines (lines newline raw)).Inert ((lines newline raw).length + 1)
      (unfinished newline raw)

/-- A file cut anywhere is taken for what its complete lines are taken for, exactly if the torn
line states nothing. -/
theorem torn_line_iff (b : List UInt8) (cut : Nat) :
    (parseFile (b.take cut)).verdict = (parseFile (complete newline (b.take cut))).verdict ↔
      TailInert (b.take cut) := by
  generalize b.take cut = raw
  obtain ⟨-, hrest, hlines⟩ := @complete_spec _ _ newline raw
  have hwhole : (parseFile (complete newline raw)).verdict =
      (Scan.ofLines (lines newline raw)).report.verdict := by
    unfold parseFile
    dsimp only
    rw [hrest, hlines, if_pos rfl]
    rfl
  have hcut : (parseFile raw).verdict = (if unfinished newline raw = [] then
      Scan.ofLines (lines newline raw) else (Scan.ofLines (lines newline raw)).turn
        ((lines newline raw).length + 1) (unfinished newline raw) true).report.verdict := rfl
  rw [hwhole, hcut]
  unfold TailInert
  by_cases hnone : unfinished newline raw = []
  · rw [if_pos hnone]
    exact ⟨fun _ => Or.inl hnone, fun _ => rfl⟩
  rw [if_neg hnone]
  by_cases hstopped : (Scan.ofLines (lines newline raw)).stopped = true
  · rw [Scan.turn_of_stopped hstopped]
    exact ⟨fun _ => Or.inr (Or.inl hstopped), fun _ => rfl⟩
  have hfresh : (lines newline raw).length + 1 = 1 →
      (Scan.ofLines (lines newline raw)).report.legacy = false := by
    intro h
    rw [List.length_eq_zero_iff.mp (Nat.succ.inj h)]
    rfl
  rw [Scan.verdict_turn_last ((Bool.not_eq_true _).mp hstopped) hfresh hnone]
  refine ⟨fun h => Or.inr (Or.inr h), fun h => ?_⟩
  exact (h.resolve_left hnone).resolve_left hstopped

/-- A header and a `#close` line cut short in its reason. -/
def tornClose : List UInt8 :=
  ascii "#sdlog,2,7,@0,v" ++ [newline] ++ ascii "#close,@5,rotate" ++ [newline]

/-- A close line that was never finished closes the file. -/
theorem torn_close_sample :
    ¬ ∀ (b : List UInt8) (cut : Nat),
      (parseFile (b.take cut)).verdict = (parseFile (complete newline (b.take cut))).verdict := by
  intro h
  have hverdict := congrArg Report.closeReason (h tornClose 29)
  exact absurd hverdict (by decide)

end EspCars.Sdlog
