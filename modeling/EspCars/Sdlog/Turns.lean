import EspCars.Sdlog.Pieces

/-!
# Line by line

What one line makes of the checker and of the reader. A line is `Ignored` if the reader takes
nothing from it and goes on. A turn of the checker that lists nothing and does not stop is at an
ignored line, or at a stream line whose stamp it has read and which it counts (`turn_clean`).
-/

namespace EspCars.Sdlog

open EspCars.Lib EspCars.SdLogger

/-! ## Lines the reader takes nothing from -/

/-- The reader goes on behind the line, and yields nothing. -/
def Ignored (estimates : Bool) (line : Str) : Prop :=
  let fs := fields line
  if isMeta line then
    (ascii "#sdlog," <+: line → ∃ version ∈ supportedFormatVersions,
      parseU (field fs 1) = .ok version) ∧
    (ascii "#utc," <+: line ∨ line = ascii "#utc" → ∃ v, Scan.parseUtc fs = .ok v) ∧
    (ascii "#clock," <+: line → estimates = true → ∃ point, parseClockLine line = .ok point)
  else
    ∀ kind, (field fs 0).head? = some kind → kind ∈ recordKinds ∨ kind = textKind → fs.length < 2

namespace StreamReader

/-- What a line that is not yielded leaves as it is. -/
structure Same (r r' : StreamReader) : Prop where
  chain : r'.chain = r.chain
  estimates : r'.estimates = r.estimates

theorem Same.trans {r r' r'' : StreamReader} (h : Same r r') (h' : Same r' r'') : Same r r'' :=
  ⟨h'.chain.trans h.chain, h'.estimates.trans h.estimates⟩

theorem same_readSource (r : StreamReader) (fs : List Str) : Same r (r.readSource fs) := by
  unfold readSource
  split_ifs
  · cases parseX (field fs 3) with
    | error e => exact ⟨rfl, rfl⟩
    | ok tag => exact ⟨rfl, rfl⟩
  · exact ⟨rfl, rfl⟩

theorem readHeader_of_supported {r : StreamReader} {fs : List Str} {version : Nat}
    (h : version ∈ supportedFormatVersions) (hparse : parseU (field fs 1) = .ok version) :
    r.readHeader fs = .ok r := by
  unfold parseU at hparse
  split_ifs at hparse with hdigits
  obtain ⟨hne, hall⟩ := not_or.mp hdigits
  have hlength : fs.length > 1 := by
    by_contra hshort
    rw [field, List.getD_eq_getElem?_getD, List.getElem?_eq_none (Nat.le_of_not_lt hshort)] at hne
    exact hne rfl
  unfold readHeader
  dsimp only
  rw [if_pos ⟨hlength, hne, not_not.mp hall⟩, hparse]
  exact if_pos h

theorem readMeta_ignored {r : StreamReader} {line : Str} (hmeta : isMeta line = true)
    (h : Ignored r.estimates line) : ∃ r', r.readMeta line = .ok r' ∧ Same r r' := by
  unfold Ignored at h
  dsimp only at h
  rw [if_pos hmeta] at h
  obtain ⟨hheader, hutc, hclock⟩ := h
  unfold readMeta
  dsimp only
  split_ifs with h1 h2 h3 h4
  · obtain ⟨version, hsupported, hparse⟩ := hheader h1
    exact ⟨r, readHeader_of_supported hsupported hparse, rfl, rfl⟩
  · exact ⟨_, rfl, same_readSource r _⟩
  · obtain ⟨⟨boot, utc⟩, hparse⟩ := hutc h3
    rw [readUtc, hparse]
    exact ⟨_, rfl, rfl, rfl⟩
  · obtain ⟨point, hparse⟩ := hclock h4.1 h4.2
    rw [readClock, hparse]
    exact ⟨_, rfl, rfl, rfl⟩
  · exact ⟨r, rfl, rfl, rfl⟩

theorem readLine_ignored {r : StreamReader} {line : Str} (h : Ignored r.estimates line) :
    ∃ r', r.readLine line = .ok (r', none) ∧ Same r r' := by
  unfold readLine
  by_cases hmeta : isMeta line = true
  · obtain ⟨r', hread, hsame⟩ := readMeta_ignored hmeta h
    rw [if_pos hmeta, hread]
    exact ⟨r', rfl, hsame⟩
  · rw [if_neg hmeta]
    unfold Ignored at h
    dsimp only at h ⊢
    rw [if_neg hmeta] at h
    cases hkind : (field (fields line) 0).head? with
    | none => exact ⟨r, rfl, rfl, rfl⟩
    | some kind =>
      dsimp only
      by_cases hstream : kind ∈ recordKinds ∨ kind = textKind
      · rw [if_pos hstream, if_neg (Nat.not_lt.mpr (Nat.le_of_lt_succ (h kind hkind hstream)))]
        exact ⟨r, rfl, rfl, rfl⟩
      · rw [if_neg hstream]
        exact ⟨r, rfl, rfl, rfl⟩

/-- Some lines yield these items and leave that reader. -/
def Reads (r : StreamReader) (ls : List Str) (items : List StreamLine) (r' : StreamReader) : Prop :=
  ∀ more, r.readLines (ls ++ more) = (items ++ (r'.readLines more).1, (r'.readLines more).2)

theorem Reads.nil (r : StreamReader) : r.Reads [] [] r := fun _ => rfl

theorem Reads.append {r r' r'' : StreamReader} {ls ls' : List Str} {items items' : List StreamLine}
    (h : r.Reads ls items r') (h' : r'.Reads ls' items' r'') :
    r.Reads (ls ++ ls') (items ++ items') r'' := by
  intro more
  rw [List.append_assoc, h, h', List.append_assoc]

theorem Reads.cons {r r' r'' : StreamReader} {line : Str} {item : Option StreamLine}
    {ls : List Str} {items : List StreamLine} (h : r.readLine line = .ok (r', item))
    (h' : r'.Reads ls items r'') : r.Reads (line :: ls) (item.toList ++ items) r'' := by
  intro more
  rw [List.cons_append, readLines, h]
  dsimp only
  rw [h', List.append_assoc]

/-- What all of some lines yield. -/
theorem Reads.readLines {r r' : StreamReader} {ls : List Str} {items : List StreamLine}
    (h : r.Reads ls items r') : r.readLines ls = (items, none) := by
  have hall := h []
  rw [List.append_nil] at hall
  rw [hall]
  exact congrArg (·, none) (List.append_nil items)

theorem reads_ignored {r : StreamReader} {ls : List Str} (h : ∀ line ∈ ls, Ignored r.estimates line) :
    ∃ r', r.Reads ls [] r' ∧ Same r r' := by
  induction ls generalizing r with
  | nil => exact ⟨r, Reads.nil r, rfl, rfl⟩
  | cons line ls ih =>
    obtain ⟨r₁, hread, hsame⟩ := readLine_ignored (h line List.mem_cons_self)
    obtain ⟨r₂, hreads, hsame'⟩ := @ih r₁ fun l hl => by
      rw [hsame.estimates]
      exact h l (List.mem_cons_of_mem line hl)
    exact ⟨r₂, Reads.cons hread hreads, hsame.trans hsame'⟩

end StreamReader

/-! ## One turn of the checker -/

/-- What the checker has noted of the lines that the reader yields. -/
structure Recorded (r : Report) (items : List StreamLine) : Prop where
  counts : ∀ kind, (r.counts.lookup kind).getD 0 = items.countP (·.kind = kind)
  first : r.firstTUs = items.head?.map (·.tUs)
  last : r.lastTUs = items.getLast?.map (·.tUs)

/-- The report counts one line more. -/
structure Noted (before after : Report) (kind : UInt8) (tUs : Nat) : Prop where
  counts : after.counts = bump kind before.counts
  first : after.firstTUs = before.firstTUs.orElse fun _ => some tUs
  last : after.lastTUs = some tUs

/-- The report counts what it counted before. -/
structure Unnoted (before after : Report) : Prop where
  counts : after.counts = before.counts
  first : after.firstTUs = before.firstTUs
  last : after.lastTUs = before.lastTUs

theorem lookup_bump (key kind : UInt8) (d : List (UInt8 × Nat)) :
    ((bump key d).lookup kind).getD 0 =
      (d.lookup kind).getD 0 + if key = kind then 1 else 0 := by
  induction d with
  | nil =>
    rw [bump, List.lookup_cons]
    by_cases h : key = kind
    · rw [h, beq_self_eq_true, if_pos rfl]
      rfl
    · rw [beq_eq_false_iff_ne.mpr (Ne.symm h), if_neg h]
      rfl
  | cons entry d ih =>
    obtain ⟨k, n⟩ := entry
    rw [bump]
    by_cases hkey : k = key
    · subst hkey
      rw [if_pos rfl, List.lookup_cons, List.lookup_cons]
      by_cases h : k = kind
      · rw [h, beq_self_eq_true, if_pos rfl]
        rfl
      · rw [beq_eq_false_iff_ne.mpr (Ne.symm h), if_neg h]
        rfl
    · rw [if_neg hkey, List.lookup_cons, List.lookup_cons]
      by_cases h : k = kind
      · subst h
        rw [beq_self_eq_true, if_neg (Ne.symm hkey)]
        rfl
      · rw [beq_eq_false_iff_ne.mpr (Ne.symm h)]
        exact ih

variable {before after : Report} {items : List StreamLine}

theorem Recorded.unnoted
    (h : Recorded before items) (hsame : Unnoted before after) : Recorded after items where
  counts kind := by rw [hsame.counts, h.counts]
  first := hsame.first.trans h.first
  last := hsame.last.trans h.last

theorem Recorded.noted (h : Recorded before items)
    {item : StreamLine} (hnoted : Noted before after item.kind item.tUs) :
    Recorded after (items ++ [item]) where
  counts kind := by
    rw [hnoted.counts, lookup_bump, h.counts, List.countP_append, List.countP_singleton]
    simp only [decide_eq_true_eq]
  first := by
    rw [hnoted.first, h.first, List.head?_append]
    cases items.head? with
    | none => rfl
    | some first => rfl
  last := by
    rw [hnoted.last, List.getLast?_concat]
    rfl

/-- A line counted is a line more than the reader yields. -/
theorem Recorded.not_noted
    (h : Recorded before items) {kind : UInt8} {tUs : Nat} (hnoted : Noted before after kind tUs) :
    ¬ Recorded after items := by
  intro hafter
  have hcounts := hafter.counts kind
  rw [hnoted.counts, lookup_bump, h.counts, if_pos rfl] at hcounts
  omega

namespace Scan

/-- The report notes a line of a kind and a time, and lists nothing. -/
def Counts (s : Scan) (kind : UInt8) (tUs : Nat) (parsed : Scan × Option Malformed) : Prop :=
  parsed.2 = none ∧ parsed.1.stopped = s.stopped ∧ parsed.1.chain = s.chain ∧
    parsed.1.report.badLines = s.report.badLines ∧ Noted s.report parsed.1.report kind tUs

/-- The line raises, and the report is the same. -/
def Raises (s : Scan) (parsed : Scan × Option Malformed) : Prop :=
  parsed.2 ≠ none ∧ parsed.1.stopped = s.stopped ∧ parsed.1.report = s.report

theorem noteUtc_eq (r : Report) (utc : Option Nat) :
    ∃ first last, r.noteUtc utc = { r with firstUtcUs := first, lastUtcUs := last } := by
  cases utc with
  | none => exact ⟨r.firstUtcUs, r.lastUtcUs, rfl⟩
  | some utc => exact ⟨_, _, rfl⟩

theorem countRecord_cases (s : Scan) (fs : List Str) (kind : UInt8) (tUs : Nat) :
    s.Counts kind tUs (s.countRecord fs kind tUs) ∨ s.Raises (s.countRecord fs kind tUs) := by
  unfold countRecord
  cases splitToken (field fs 0) with
  | error e => exact Or.inr ⟨nofun, rfl, rfl⟩
  | ok parts =>
    dsimp only
    cases checkRecord fs with
    | error e => exact Or.inr ⟨nofun, rfl, rfl⟩
    | ok u =>
      obtain ⟨first, last, hnote⟩ := noteUtc_eq (s.report.noteTime tUs) (s.utcAnchor.resolve tUs)
      dsimp only
      rw [hnote]
      exact Or.inl ⟨rfl, rfl, rfl, rfl, rfl, rfl, rfl⟩

theorem countText_cases (s : Scan) (fs : List Str) (tUs : Nat) :
    s.Counts textKind tUs (s.countText fs tUs) ∨ s.Raises (s.countText fs tUs) := by
  unfold countText
  cases checkText fs with
  | error e => exact Or.inr ⟨nofun, rfl, rfl⟩
  | ok u =>
    obtain ⟨first, last, hnote⟩ := noteUtc_eq (s.report.noteTime tUs) (s.utcAnchor.resolve tUs)
    dsimp only
    rw [hnote]
    exact Or.inl ⟨rfl, rfl, rfl, rfl, rfl, rfl, rfl⟩

/-- A stream line is counted, behind the step of the chain, or it raises. -/
theorem parseStream_cases (s : Scan) (line : Str) :
    (∃ kind tUs chain, (field (fields line) 0).head? = some kind ∧
      (kind ∈ recordKinds ∨ kind = textKind) ∧ 2 ≤ (fields line).length ∧
      s.chain.read (field (fields line) 1) = .ok (tUs, chain) ∧
      { s with chain := chain }.Counts kind tUs (s.parseStream line)) ∨
    s.Raises (s.parseStream line) := by
  unfold parseStream
  dsimp only
  cases hkind : (field (fields line) 0).head? with
  | none => exact Or.inr ⟨nofun, rfl, rfl⟩
  | some kind =>
    dsimp only
    by_cases hstream : kind ∈ recordKinds ∨ kind = textKind
    · rw [if_pos hstream]
      by_cases hshort : (fields line).length < 2
      · rw [if_pos hshort]
        exact Or.inr ⟨nofun, rfl, rfl⟩
      rw [if_neg hshort]
      cases hread : s.chain.read (field (fields line) 1) with
      | error e => exact Or.inr ⟨nofun, rfl, rfl⟩
      | ok stamped =>
        obtain ⟨tUs, chain⟩ := stamped
        dsimp only
        by_cases hrecord : kind ∈ recordKinds
        · rw [if_pos hrecord]
          refine (countRecord_cases { s with chain := chain } _ kind tUs).imp (fun h => ?_) id
          exact ⟨kind, tUs, chain, rfl, hstream, Nat.le_of_not_lt hshort, rfl, h⟩
        · rw [if_neg hrecord]
          have htext := hstream.resolve_left hrecord
          refine (countText_cases { s with chain := chain } _ tUs).imp (fun h => ?_) id
          exact ⟨kind, tUs, chain, rfl, hstream, Nat.le_of_not_lt hshort, rfl, htext ▸ h⟩
    · rw [if_neg hstream]
      exact Or.inr ⟨nofun, rfl, rfl⟩

/-- What a meta line leaves as it is. -/
structure Frame (s s' : Scan) : Prop extends Unnoted s.report s'.report where
  stopped : s'.stopped = s.stopped
  chain : s'.chain = s.chain
  badLines : s'.report.badLines = s.report.badLines

theorem Frame.refl (s : Scan) : Frame s s := ⟨⟨rfl, rfl, rfl⟩, rfl, rfl, rfl⟩

variable {s : Scan} {line : Str}

theorem frame_taking {α : Type} {parsed : Except Malformed α} {take : α → Scan}
    (h : ∀ v, Frame s (take v)) : Frame s (s.taking parsed take).1 := by
  unfold taking
  cases parsed with
  | error e => exact Frame.refl s
  | ok v => exact h v

theorem frame_metaHeader (s : Scan) (fs : List Str) : Frame s (s.metaHeader fs).1 := by
  unfold metaHeader
  split_ifs
  · exact Frame.refl s
  cases parseU (field fs 1) with
  | error e => exact Frame.refl s
  | ok version =>
    cases parseU (field fs 2) with
    | error e => exact ⟨⟨rfl, rfl, rfl⟩, rfl, rfl, rfl⟩
    | ok seq =>
      dsimp only
      split_ifs
      · cases parseAbsStamp (field fs 3) with
        | error e => exact ⟨⟨rfl, rfl, rfl⟩, rfl, rfl, rfl⟩
        | ok t => exact ⟨⟨rfl, rfl, rfl⟩, rfl, rfl, rfl⟩
      · exact ⟨⟨rfl, rfl, rfl⟩, rfl, rfl, rfl⟩

theorem frame_parseMeta (s : Scan) (line : Str) : Frame s (s.parseMeta line).1 := by
  unfold parseMeta
  dsimp only
  cases MetaHead.ofText (field (fields line) 0) with
  | sdlog => exact frame_metaHeader s _
  | src => exact frame_taking fun v => ⟨⟨rfl, rfl, rfl⟩, rfl, rfl, rfl⟩
  | drop => exact frame_taking fun v => ⟨⟨rfl, rfl, rfl⟩, rfl, rfl, rfl⟩
  | gap => exact frame_taking fun v => ⟨⟨rfl, rfl, rfl⟩, rfl, rfl, rfl⟩
  | rotate =>
    dsimp only
    split_ifs
    · exact Frame.refl s
    · exact ⟨⟨rfl, rfl, rfl⟩, rfl, rfl, rfl⟩
  | close =>
    dsimp only
    split_ifs
    · exact Frame.refl s
    · exact ⟨⟨rfl, rfl, rfl⟩, rfl, rfl, rfl⟩
  | utc => exact frame_taking fun v => ⟨⟨rfl, rfl, rfl⟩, rfl, rfl, rfl⟩
  | clock => exact frame_taking fun v => ⟨⟨rfl, rfl, rfl⟩, rfl, rfl, rfl⟩
  | ident => exact frame_taking fun v => ⟨⟨rfl, rfl, rfl⟩, rfl, rfl, rfl⟩
  | origin =>
    dsimp only
    split_ifs
    · exact Frame.refl s
    · exact ⟨⟨rfl, rfl, rfl⟩, rfl, rfl, rfl⟩
  | other => exact Frame.refl s

theorem supported_of_metaHeader {fs : List Str} (h : (s.metaHeader fs).2 = none)
    (hversion : (s.metaHeader fs).1.report.unsupportedVersion = false) :
    ∃ version ∈ supportedFormatVersions, parseU (field fs 1) = .ok version := by
  unfold metaHeader at h hversion
  split_ifs at h hversion
  cases hparse : parseU (field fs 1) with
  | error e =>
    rw [hparse] at h
    cases h
  | ok version =>
    rw [hparse] at h hversion
    cases hseq : parseU (field fs 2) with
    | error e =>
      rw [hseq] at h
      cases h
    | ok seq =>
      refine ⟨version, ?_, rfl⟩
      by_contra hnot
      rw [hseq] at hversion
      dsimp only at hversion
      rw [if_neg hnot] at hversion
      exact of_decide_eq_false hversion hnot

theorem ok_of_taking {α : Type} {parsed : Except Malformed α} {take : α → Scan}
    (h : (s.taking parsed take).2 = none) : ∃ v, parsed = .ok v := by
  cases parsed with
  | error e => cases h
  | ok v => exact ⟨v, rfl⟩

/-- The reader does not stop at a meta line that the checker has read. -/
theorem ignored_of_parseMeta {s : Scan} {line : Str} (hmeta : isMeta line = true)
    (h : (s.parseMeta line).2 = none)
    (hversion : (s.parseMeta line).1.report.unsupportedVersion = false) (estimates : Bool) :
    Ignored estimates line := by
  unfold Ignored
  dsimp only
  rw [if_pos hmeta]
  unfold parseMeta at h hversion
  dsimp only at h hversion
  refine ⟨fun hline => ?_, fun hline => ?_, fun hline _ => ?_⟩
  · rw [field_zero_of_starts (a := ascii "#sdlog") (by decide) hline] at h hversion
    exact supported_of_metaHeader h hversion
  · have hfirst : field (fields line) 0 = ascii "#utc" := by
      rcases hline with hline | rfl
      · exact field_zero_of_starts (by decide) hline
      · rfl
    rw [hfirst] at h
    exact ok_of_taking h
  · rw [field_zero_of_starts (a := ascii "#clock") (by decide) hline] at h
    exact ok_of_taking h

theorem ignored_pad (h : ascii "#pad," <+: line) (estimates : Bool) :
    isMeta line = true ∧ Ignored estimates line := by
  have hfirst : field (fields line) 0 = ascii "#pad" := field_zero_of_starts (by decide) h
  have hmeta : isMeta line = true := by
    obtain ⟨rest, rfl⟩ := h
    rfl
  have hother : ∀ a : Str, 44 ∉ a → a ≠ ascii "#pad" → ¬ a ++ [44] <+: line := by
    intro a ha hne hprefix
    exact hne ((field_zero_of_starts ha hprefix).symm.trans hfirst)
  refine ⟨hmeta, ?_⟩
  unfold Ignored
  dsimp only
  rw [if_pos hmeta]
  refine ⟨fun hline => ?_, fun hline => ?_, fun hline _ => ?_⟩
  · exact absurd hline (hother (ascii "#sdlog") (by decide) (by decide))
  · rcases hline with hline | rfl
    · exact absurd hline (hother (ascii "#utc") (by decide) (by decide))
    · exact absurd hfirst (by decide)
  · exact absurd hline (hother (ascii "#clock") (by decide) (by decide))

theorem settle_clean {number : Nat} {parsed : Scan × Option Malformed}
    (h : (settle number line false parsed).report.badLines = []) :
    parsed.2 = none ∧ settle number line false parsed = parsed.1 := by
  obtain ⟨s, e⟩ := parsed
  cases e with
  | none => exact ⟨rfl, rfl⟩
  | some e => exact absurd h (List.append_ne_nil_of_right_ne_nil _ (List.cons_ne_nil _ _))

/-- A turn that lists nothing and does not stop: the line says nothing to the reader, or it is a
stream line that is counted. -/
theorem turn_clean (hgoing : s.stopped = false) {number : Nat}
    (hbad : (s.turn number line false).report.badLines = [])
    (hstop : (s.turn number line false).stopped = false) :
    ((line = [] ∨ isMeta line = true) ∧ (∀ estimates, Ignored estimates line) ∧
      Frame s (s.turn number line false)) ∨
    isMeta line = false ∧ ∃ kind tUs chain, (field (fields line) 0).head? = some kind ∧
      (kind ∈ recordKinds ∨ kind = textKind) ∧ 2 ≤ (fields line).length ∧
      s.chain.read (field (fields line) 1) = .ok (tUs, chain) ∧
      (s.turn number line false).chain = chain ∧
      Noted s.report (s.turn number line false).report kind tUs := by
  by_cases hline : line = []
  · subst hline
    have hturn : s.turn number [] false = s := by
      unfold turn
      rw [if_pos (Or.inr rfl)]
    rw [hturn]
    exact Or.inl ⟨Or.inl rfl, fun _ _ => nofun, Frame.refl s⟩
  unfold turn at hbad hstop ⊢
  rw [if_neg (by rw [hgoing]; simpa using hline)] at hbad hstop ⊢
  dsimp only at hbad hstop ⊢
  by_cases hpad : ascii "#pad," <+: line
  · rw [if_pos hpad]
    exact Or.inl ⟨Or.inr (ignored_pad hpad true).1, fun e => (ignored_pad hpad e).2,
      ⟨rfl, rfl, rfl⟩, rfl, rfl, rfl⟩
  rw [if_neg hpad] at hbad hstop ⊢
  by_cases hlegacy : number = 1 ∧ ascii "# " <+: line
  · rw [if_pos hlegacy] at hstop
    cases hstop
  rw [if_neg hlegacy] at hbad hstop ⊢
  obtain ⟨hok, hsettle⟩ := settle_clean hbad
  rw [hsettle] at hstop ⊢
  generalize hs : { s with report := { s.report with totalLines := s.report.totalLines + 1 } } = t at *
  have hframe : Frame s t := by
    rw [← hs]
    exact ⟨⟨rfl, rfl, rfl⟩, rfl, rfl, rfl⟩
  unfold parseLine at hok hstop ⊢
  by_cases hmeta : isMeta line = true
  · rw [if_pos hmeta] at hok hstop ⊢
    have hparsed := frame_parseMeta t line
    have hignored := fun hok hversion => @ignored_of_parseMeta t line hmeta hok hversion
    generalize t.parseMeta line = parsed at *
    obtain ⟨t', e⟩ := parsed
    cases e with
    | none =>
      refine Or.inl ⟨Or.inr hmeta, hignored rfl hstop, ⟨?_, ?_, ?_⟩, ?_, ?_, ?_⟩
      · exact hparsed.counts.trans hframe.counts
      · exact hparsed.first.trans hframe.first
      · exact hparsed.last.trans hframe.last
      · exact (hstop : t'.report.unsupportedVersion = false).trans hgoing.symm
      · exact hparsed.chain.trans hframe.chain
      · exact hparsed.badLines.trans hframe.badLines
    | some e => cases hok
  · rw [if_neg hmeta] at hok hstop ⊢
    rcases parseStream_cases t line with ⟨kind, tUs, chain, hkind, hstream, htwo, hread, hcounts⟩ |
      hraises
    · obtain ⟨-, -, hchain, -, hnoted⟩ := hcounts
      refine Or.inr ⟨(Bool.not_eq_true _).mp hmeta, kind, tUs, chain, hkind, hstream, htwo,
        by rw [← hframe.chain]; exact hread, hchain, ?_, ?_, ?_⟩
      · exact hnoted.counts.trans (congrArg (bump kind) hframe.counts)
      · exact hnoted.first.trans (by rw [show _ = _ from hframe.first])
      · exact hnoted.last
    · exact absurd hok hraises.1

theorem badLines_parseLine (s : Scan) (line : Str) :
    (s.parseLine line).1.report.badLines = s.report.badLines := by
  unfold parseLine
  split_ifs
  · have hframe := (frame_parseMeta s line).badLines
    generalize s.parseMeta line = parsed at *
    obtain ⟨s', e⟩ := parsed
    cases e with
    | none => exact hframe
    | some e => exact hframe
  · rcases parseStream_cases s line with ⟨_, _, _, -, -, -, -, -, -, -, hbad, -⟩ | hraises
    · exact hbad
    · exact congrArg Report.badLines hraises.2.2

theorem badLines_settle (number : Nat) (line : Str) (last : Bool) (parsed : Scan × Option Malformed) :
    parsed.1.report.badLines <+: (settle number line last parsed).report.badLines := by
  obtain ⟨s, e⟩ := parsed
  unfold settle
  cases e with
  | none => exact List.prefix_refl _
  | some e =>
    dsimp only
    split_ifs
    · exact List.prefix_refl _
    · exact List.prefix_append _ _

/-- Lines are listed one behind the other. -/
theorem badLines_turn (s : Scan) (number : Nat) (line : Str) (last : Bool) :
    s.report.badLines <+: (s.turn number line last).report.badLines := by
  unfold turn
  split_ifs
  · exact List.prefix_refl _
  · exact List.prefix_refl _
  · exact List.prefix_refl _
  · dsimp only
    have hparsed := badLines_parseLine
      { s with report := { s.report with totalLines := s.report.totalLines + 1 } } line
    have hsettle := badLines_settle number line last (parseLine
      { s with report := { s.report with totalLines := s.report.totalLines + 1 } } line)
    rw [hparsed] at hsettle
    exact hsettle

theorem badLines_turns (s : Scan) (number : Nat) (ls : List Str) :
    s.report.badLines <+: (s.turns number ls).report.badLines := by
  induction ls generalizing s number with
  | nil => exact List.prefix_refl _
  | cons line ls ih => exact (badLines_turn s number line false).trans (ih _ _)

theorem turns_of_stopped (h : s.stopped = true) (number : Nat) (ls : List Str) :
    s.turns number ls = s := by
  induction ls generalizing number with
  | nil => rfl
  | cons line ls ih =>
    rw [turns, turn_of_stopped h]
    exact ih _

end Scan

/-- The file says of itself that it is of a version that both read. -/
def Report.Supported (r : Report) : Prop :=
  ∃ version ∈ supportedFormatVersions, r.formatVersion = some version

namespace Scan

theorem stopped_settle (number : Nat) (line : Str) (last : Bool) (parsed : Scan × Option Malformed) :
    (settle number line last parsed).stopped = parsed.1.stopped ∧
      (settle number line last parsed).report.formatVersion = parsed.1.report.formatVersion := by
  obtain ⟨s, e⟩ := parsed
  cases e with
  | none => exact ⟨rfl, rfl⟩
  | some e =>
    unfold settle
    dsimp only
    split_ifs
    · exact ⟨rfl, rfl⟩
    · exact ⟨rfl, rfl⟩

/-- The checker stops at a version that it does not read, and at a file without one. -/
theorem not_supported_of_turn {s : Scan} (hgoing : s.stopped = false) {number : Nat}
    (hfresh : number = 1 → s.report.formatVersion = none) {line : Str} {last : Bool}
    (h : (s.turn number line last).stopped = true) :
    ¬ (s.turn number line last).report.Supported := by
  have hnot : s.stopped ≠ true := (Bool.not_eq_true _).mpr hgoing
  unfold turn at h ⊢
  split_ifs at h ⊢ with hskip hpad hlegacy
  · exact absurd h hnot
  · exact absurd h hnot
  · rintro ⟨version, -, hversion⟩
    rw [show s.report.formatVersion = some version from hversion] at hfresh
    cases hfresh hlegacy.1
  · dsimp only at h ⊢
    generalize ht : { s with report := { s.report with totalLines := s.report.totalLines + 1 } } = t
      at h ⊢
    have htGoing : t.stopped = false := by rw [← ht]; exact hgoing
    obtain ⟨hstopped, hversion⟩ := stopped_settle number line last (t.parseLine line)
    rw [hstopped] at h
    unfold Report.Supported
    rw [hversion]
    unfold parseLine at h ⊢
    by_cases hmeta : isMeta line = true
    · rw [if_pos hmeta] at h ⊢
      have hframe := (frame_parseMeta t line).stopped
      generalize t.parseMeta line = parsed at *
      obtain ⟨t', e⟩ := parsed
      cases e with
      | none =>
        rintro ⟨version, hsupported, hversion⟩
        have hunsupported : t'.report.unsupportedVersion = true := h
        unfold Report.unsupportedVersion at hunsupported
        rw [show t'.report.formatVersion = some version from hversion] at hunsupported
        exact of_decide_eq_true hunsupported hsupported
      | some e =>
        rw [show t'.stopped = true from h, htGoing] at hframe
        cases hframe
    · rw [if_neg hmeta] at h ⊢
      rcases parseStream_cases t line with ⟨_, _, _, -, -, -, -, -, hsame, -⟩ | ⟨-, hsame, -⟩
      · rw [hsame, show ({ t with chain := _ } : Scan).stopped = t.stopped from rfl, htGoing] at h
        cases h
      · rw [hsame, htGoing] at h
        cases h

theorem not_supported_of_stopped {ls : List Str} {s : Scan} (hgoing : s.stopped = false)
    {number : Nat} (hnumber : 1 ≤ number) (hfresh : number = 1 → s.report.formatVersion = none)
    (h : (s.turns number ls).stopped = true) : ¬ (s.turns number ls).report.Supported := by
  induction ls generalizing s number with
  | nil =>
    rw [show s.turns number [] = s from rfl, hgoing] at h
    cases h
  | cons line ls ih =>
    rw [turns] at h ⊢
    by_cases hstop : (s.turn number line false).stopped = true
    · rw [turns_of_stopped hstop] at h ⊢
      exact not_supported_of_turn hgoing hfresh hstop
    · refine ih ((Bool.not_eq_true _).mp hstop) (Nat.le_succ_of_le hnumber) (fun hone => ?_) h
      omega

end Scan

end EspCars.Sdlog
