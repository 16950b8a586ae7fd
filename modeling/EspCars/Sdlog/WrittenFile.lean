import Mathlib
import EspCars.SdLogger.FileFormat
import EspCars.Sdlog.SameRecords

/-!
# What the writer writes, the reader reads

A file of the formatters of `log_format.h`, read by `parse_file` and by `StreamReader`. Every meta
line is one that both pass, every record and text line is yielded with what the formatter was given.
`InFile` holds between the calls of the formatters and the lines of the reader: the two chains are
at the same time, and the labels are those of the sources whose `#src` line has been read.
-/

namespace EspCars.Sdlog

open EspCars.Lib EspCars.SdLogger LineWriter SourceTable

/-! ## Fields that are read back -/

variable {fs : List Str} {c : DeltaClock} {p : SdLogger.ClockPoint} {r : StreamReader}
  {sources : SourceTable} {s : Scan} {line : Str} {e : SourceEntry} {room : Nat}

theorem fields_joined (h : ∀ f ∈ fs, 44 ∉ f) (hne : fs ≠ []) :
    fields (joined 44 fs) = fs := split_joined h hne

theorem parseX_hexText {width v : Nat} (hw : 0 < width) (h : v < 16 ^ width) :
    parseX (hexText width v) = .ok v := by
  unfold parseX
  rw [if_neg (hexText_ne_nil hw v), hexFrom_hexText h]

theorem parseU64X_hexText (v : UInt64) : parseU64X (hexText 16 v.toNat) = .ok v.toNat := by
  unfold parseU64X
  rw [if_neg (Nat.not_lt.mpr (length_hexText_le (by decide) _)), parseX_hexText (by decide) v.toNat_lt]

theorem parseAbsStamp_stampText (t : UInt64) :
    parseAbsStamp (stampText true t) = .ok t.toNat := by
  unfold parseAbsStamp stampText
  rw [if_pos rfl, if_neg (fun h => h rfl)]
  exact parseX_hexText (by decide) t.toNat_lt

theorem parseU_decField (v : UInt64) : parseU (decField v) = .ok v.toNat := by
  have hdecimal : (decField v).all isDecimal = true :=
    List.all_eq_true.mpr fun c hc => decimal_of_mem_decField hc
  have hdigits : (decField v).all isDigitChar = true := by
    refine List.all_eq_true.mpr fun c hc => ?_
    unfold isDigitChar
    rw [decimal_of_mem_decField hc]
    rfl
  have hne : decField v ≠ [] := by
    rw [decField, writer_decDigits]
    exact decDigits_ne_nil 19 _
  have hvalue : Lib.decFrom 0 (decField v) = v.toNat := by
    rw [decField, writer_decDigits]
    exact Lib.decFrom_decDigits (Nat.lt_of_lt_of_le v.toNat_lt (by decide))
  have hlength := length_decField v
  unfold parseU pyInt
  rw [if_neg (not_or.mpr ⟨hne, not_not.mpr hdigits⟩), if_neg (not_not.mpr hdecimal),
    if_neg (Nat.not_lt.mpr (Nat.le_trans hlength (by decide))), hvalue]

/-! ## The chain -/

/-- The reader's chain is where the writer's is. -/
def Linked (c : DeltaClock) (h : Chain) : Prop :=
  c.started = true → h.started = true ∧ h.prev = c.prev.toNat

/-- A stamp is read as the time it was written for. -/
theorem read_stampText {h : Chain} (hlinked : Linked c h) (t : UInt64) :
    ∃ h', h.read (stampText (c.encode t).1.1 (c.encode t).1.2) = .ok (t.toNat, h') ∧
      Linked (c.encode t).2 h' := by
  cases ha : c.needsAnchor t with
  | true =>
    rw [DeltaClock.encode_anchor ha]
    refine ⟨{ prev := t.toNat, started := true }, ?_, fun _ => ⟨rfl, rfl⟩⟩
    unfold Chain.read stampText
    rw [if_pos rfl, List.head?_cons, if_pos rfl, List.tail_cons, parseX_hexText (by decide) t.toNat_lt]
    rfl
  | false =>
    obtain ⟨hstarted, hle, hstep, -⟩ := DeltaClock.of_step ha
    obtain ⟨hchain, hprev⟩ := hlinked hstarted
    have hsmall : (t - c.prev).toNat ≤ 1000000 := UInt64.le_iff_toNat_le.mp hstep
    have hle' : c.prev.toNat ≤ t.toNat := UInt64.le_iff_toNat_le.mp hle
    have hsum : h.prev + (t - c.prev).toNat = t.toNat := by
      rw [hprev, UInt64.toNat_sub_of_le _ _ hle]
      omega
    have htext : (t - c.prev).toUInt32.toNat = (t - c.prev).toNat := by
      rw [UInt64.toNat_toUInt32]
      omega
    rw [DeltaClock.encode_step ha]
    refine ⟨{ h with prev := t.toNat }, ?_, fun _ => ⟨hchain, rfl⟩⟩
    have hmark : (hexText 8 (t - c.prev).toUInt32.toNat).head? ≠ some anchorMark := by
      intro hhead
      exact notMem_hexText (by decide) 8 _ (List.mem_of_mem_head? hhead)
    unfold Chain.read stampText
    rw [if_neg Bool.false_ne_true, if_neg hmark, parseX_hexText (by decide) (by
      rw [htext]
      exact Nat.lt_of_le_of_lt hsmall (by decide)), htext]
    show (if h.started = false then _ else _) = _
    rw [if_neg (by rw [hchain]; decide), hsum]
    rfl

/-! ## Meta lines -/

/-- The checker reads the line, whatever it has read before, and takes no version from it. -/
def Accepted (line : Str) : Prop :=
  ascii "#pad," <+: line ∨ ∀ s : Scan, (s.parseMeta line).2 = none ∧
    (s.parseMeta line).1.report.formatVersion = s.report.formatVersion

/-- A meta line that neither of the two stops at. -/
structure Passed (line : Str) : Prop where
  marked : isMeta line = true
  noLegend : ¬ ascii "# " <+: line
  oneLine : newline ∉ line
  noReturn : carriageReturn ∉ line
  accepted : Accepted line

/-- A field of a line. -/
def FieldText (f : Str) : Prop := 44 ∉ f ∧ newline ∉ f ∧ carriageReturn ∉ f

instance (f : Str) : Decidable (FieldText f) := inferInstanceAs (Decidable (_ ∧ _ ∧ _))

theorem fieldText_hexText (width v : Nat) : FieldText (hexText width v) :=
  ⟨notMem_hexText (by decide) _ _, notMem_hexText (by decide) _ _, notMem_hexText (by decide) _ _⟩

theorem fieldText_stampText (anchor : Bool) (v : UInt64) :
    FieldText (stampText anchor v) :=
  ⟨notMem_stampText (by decide) (by decide) _ _,
    notMem_stampText (by decide) (by decide) _ _,
    notMem_stampText (by decide) (by decide) _ _⟩

theorem fieldText_decField (v : UInt64) : FieldText (decField v) := by
  have hnot : ∀ c : UInt8, isDecimal c = false → c ∉ decField v := by
    intro c hc hmem
    rw [decimal_of_mem_decField hmem] at hc
    cases hc
  exact ⟨hnot _ (by decide), hnot _ (by decide), hnot _ (by decide)⟩

theorem fieldText_plain (p : PlainText) : FieldText p.text :=
  ⟨fun h => (p.plain _ h).1 rfl, fun h => (p.plain _ h).2.1 rfl, fun h => (p.plain _ h).2.2 rfl⟩

theorem FieldText.append {f g : Str} (hf : FieldText f) (hg : FieldText g) : FieldText (f ++ g) := by
  refine ⟨?_, ?_, ?_⟩
  · exact fun h => (List.mem_append.mp h).elim hf.1 hg.1
  · exact fun h => (List.mem_append.mp h).elim hf.2.1 hg.2.1
  · exact fun h => (List.mem_append.mp h).elim hf.2.2 hg.2.2

/-- A line of such fields, from its marker and how the checker reads it. -/
theorem passed_joined {head : Str} (hhead : head.head? = some 35)
    (hspace : head[1]? ≠ some 32) (hone : 1 < head.length) (hfields : ∀ f ∈ head :: fs, FieldText f)
    (haccepted : ∀ s : Scan, fields (joined 44 (head :: fs)) = head :: fs →
      (s.parseMeta (joined 44 (head :: fs))).2 = none ∧
        (s.parseMeta (joined 44 (head :: fs))).1.report.formatVersion = s.report.formatVersion) :
    Passed (joined 44 (head :: fs)) := by
  obtain ⟨rest, hrest⟩ : ∃ rest, joined 44 (head :: fs) = head ++ rest := by
    cases fs with
    | nil => exact ⟨[], (List.append_nil _).symm⟩
    | cons g fs => exact ⟨_, rfl⟩
  refine ⟨?_, ?_, notMem_joined (by decide) fun f hf => (hfields f hf).2.1,
    notMem_joined (by decide) fun f hf => (hfields f hf).2.2,
    Or.inr fun s => haccepted s (fields_joined (fun f hf => (hfields f hf).1) (List.cons_ne_nil _ _))⟩
  · rw [hrest]
    exact Scan.isMeta_of_starts hhead (List.prefix_append _ _)
  · rw [hrest]
    rintro ⟨t, ht⟩
    have hsecond : some (32 : UInt8) = (head ++ rest)[1]? := congrArg (fun l : Str => l[1]?) ht
    rw [List.getElem?_append_left hone] at hsecond
    exact hspace hsecond.symm

theorem passed_utc (bootUs utcUs : UInt64) :
    Passed (joined 44 [ascii "#utc", hexText 16 bootUs.toNat, hexText 16 utcUs.toNat]) := by
  refine passed_joined (by decide) (by decide) (by decide) ?_ fun s hfields => ?_
  · simp only [List.forall_mem_cons, List.not_mem_nil, false_imp_iff, implies_true, and_true]
    exact ⟨by decide, fieldText_hexText _ _, fieldText_hexText _ _⟩
  · have hhead : Scan.MetaHead.ofText (ascii "#utc") = .utc := by decide
    have hparse : Scan.parseUtc [ascii "#utc", hexText 16 bootUs.toNat, hexText 16 utcUs.toNat] =
        .ok (bootUs.toNat, utcUs.toNat) := by
      unfold Scan.parseUtc
      rw [if_neg (fun h => h rfl)]
      show (do
        let boot ← parseU64X (hexText 16 bootUs.toNat)
        let utc ← parseU64X (hexText 16 utcUs.toNat)
        pure (boot, utc)) = _
      rw [parseU64X_hexText, parseU64X_hexText]
      rfl
    unfold Scan.parseMeta
    dsimp only
    rw [hfields, show field _ 0 = ascii "#utc" from rfl, hhead]
    dsimp only
    rw [hparse]
    exact ⟨rfl, rfl⟩

theorem passed_drop (tFull : UInt64) (what : PlainText) (label : Option PlainText) (delta total : UInt32) :
    Passed (joined 44 [ascii "#drop", stampText true tFull,
      what.text ++ (label.map fun l => 58 :: l.text).getD [], decField delta.toUInt64,
      decField total.toUInt64]) := by
  have hname : FieldText (what.text ++ (label.map fun l => 58 :: l.text).getD []) := by
    apply (fieldText_plain what).append
    cases label with
    | none => decide
    | some l => exact FieldText.append (f := [58]) (by decide) (fieldText_plain l)
  refine passed_joined (by decide) (by decide) (by decide) ?_ fun s hfields => ?_
  · simp only [List.forall_mem_cons, List.not_mem_nil, false_imp_iff, implies_true, and_true]
    exact ⟨by decide, fieldText_stampText _ _, hname, fieldText_decField _, fieldText_decField _⟩
  · generalize what.text ++ (label.map fun l => 58 :: l.text).getD [] = name at *
    have hhead : Scan.MetaHead.ofText (ascii "#drop") = .drop := by decide
    have hparse : Scan.parseDrop [ascii "#drop", stampText true tFull, name,
        decField delta.toUInt64, decField total.toUInt64] =
        .ok ⟨tFull.toNat, name, delta.toUInt64.toNat, total.toUInt64.toNat⟩ := by
      unfold Scan.parseDrop
      rw [if_neg (by exact Nat.lt_irrefl 5)]
      show (do
        let tUs ← parseAbsStamp (stampText true tFull)
        let delta ← parseU (decField delta.toUInt64)
        let total ← parseU (decField total.toUInt64)
        pure (Drop.mk tUs name delta total)) = _
      rw [parseAbsStamp_stampText, parseU_decField, parseU_decField]
      rfl
    unfold Scan.parseMeta
    dsimp only
    rw [hfields, show field _ 0 = ascii "#drop" from rfl, hhead]
    dsimp only
    rw [hparse]
    exact ⟨rfl, rfl⟩

theorem passed_gap (tFull : UInt64) (chunks : UInt32) (bytes : UInt64) (firstSeq lastSeq : UInt32) :
    Passed (joined 44 [ascii "#gap", stampText true tFull, decField chunks.toUInt64,
      decField bytes, decField firstSeq.toUInt64, decField lastSeq.toUInt64]) := by
  refine passed_joined (by decide) (by decide) (by decide) ?_ fun s hfields => ?_
  · simp only [List.forall_mem_cons, List.not_mem_nil, false_imp_iff, implies_true, and_true]
    exact ⟨by decide, fieldText_stampText _ _, fieldText_decField _, fieldText_decField _,
      fieldText_decField _, fieldText_decField _⟩
  · have hhead : Scan.MetaHead.ofText (ascii "#gap") = .gap := by decide
    have hparse : Scan.parseGap [ascii "#gap", stampText true tFull,
        decField chunks.toUInt64, decField bytes, decField firstSeq.toUInt64,
        decField lastSeq.toUInt64] = .ok ⟨tFull.toNat, chunks.toUInt64.toNat, bytes.toNat,
          firstSeq.toUInt64.toNat, lastSeq.toUInt64.toNat⟩ := by
      unfold Scan.parseGap
      rw [if_neg (by exact Nat.lt_irrefl 6)]
      show (do
        let tUs ← parseAbsStamp (stampText true tFull)
        let chunks ← parseU (decField chunks.toUInt64)
        let bytes ← parseU (decField bytes)
        let firstSeq ← parseU (decField firstSeq.toUInt64)
        let lastSeq ← parseU (decField lastSeq.toUInt64)
        pure (Gap.mk tUs chunks bytes firstSeq lastSeq)) = _
      rw [parseAbsStamp_stampText, parseU_decField, parseU_decField, parseU_decField,
        parseU_decField]
      rfl
    unfold Scan.parseMeta
    dsimp only
    rw [hfields, show field _ 0 = ascii "#gap" from rfl, hhead]
    dsimp only
    rw [hparse]
    exact ⟨rfl, rfl⟩

theorem fieldText_logName (seq : UInt32) : FieldText (formatLogName seq) := by
  have hdigits : FieldText (padDigits 7 seq.toNat) := by
    have hnot : ∀ c : UInt8, isDecimal c = false → c ∉ padDigits 7 seq.toNat := by
      intro c hc hmem
      rw [isDecimal_of_mem_padDigits hmem] at hc
      cases hc
    exact ⟨hnot _ (by decide), hnot _ (by decide), hnot _ (by decide)⟩
  exact (FieldText.append (f := ascii "L") (by decide) hdigits).append (by decide)

theorem passed_rotate (tFull : UInt64) (nextSeq : UInt32) :
    Passed (joined 44 [ascii "#rotate", stampText true tFull, formatLogName nextSeq]) := by
  refine passed_joined (by decide) (by decide) (by decide) ?_ fun s hfields => ?_
  · simp only [List.forall_mem_cons, List.not_mem_nil, false_imp_iff, implies_true, and_true]
    exact ⟨by decide, fieldText_stampText _ _, fieldText_logName _⟩
  · have hhead : Scan.MetaHead.ofText (ascii "#rotate") = .rotate := by decide
    unfold Scan.parseMeta
    dsimp only
    rw [hfields, show field _ 0 = ascii "#rotate" from rfl, hhead]
    dsimp only
    rw [if_neg (by exact Nat.lt_irrefl 3)]
    exact ⟨rfl, rfl⟩

theorem passed_close (tFull : UInt64) (reason : PlainText) :
    Passed (joined 44 [ascii "#close", stampText true tFull, reason.text]) := by
  refine passed_joined (by decide) (by decide) (by decide) ?_ fun s hfields => ?_
  · simp only [List.forall_mem_cons, List.not_mem_nil, false_imp_iff, implies_true, and_true]
    exact ⟨by decide, fieldText_stampText _ _, fieldText_plain _⟩
  · have hhead : Scan.MetaHead.ofText (ascii "#close") = .close := by decide
    unfold Scan.parseMeta
    dsimp only
    rw [hfields, show field _ 0 = ascii "#close" from rfl, hhead]
    dsimp only
    rw [if_neg (by exact Nat.lt_irrefl 3)]
    exact ⟨rfl, rfl⟩

/-- Basis and source belong together, and the detail is there for the sources that have one. -/
def WellPaired (p : SdLogger.ClockPoint) : Prop :=
  match p.basis, p.src, p.detail with
  | .utc, .sync, none => True
  | .utc, .warm, none => True
  | .drift, .sleep, _ => True
  | .est, .card, some _ => True
  | .est, .build, none => True
  | _, _, _ => False

theorem WellPaired.read (h : WellPaired p) :
    p.valid = true ∧ ∃ basis src, ClockBasis.ofText p.basis.text = some basis ∧
      ClockSource.ofText p.src.text = some src ∧ src.basis = basis ∧
      (p.detail = none → src ≠ .card) ∧ (p.detail ≠ none → src = .card ∨ src = .sleep) := by
  obtain ⟨tUs, utcUs, basis, src, detail⟩ := p
  -- six of the combinations are well paired
  cases basis <;> cases src <;> cases detail <;> try exact h.elim
  · exact ⟨rfl, .est, .card, rfl, rfl, rfl, nofun, fun _ => Or.inl rfl⟩
  · exact ⟨rfl, .est, .build, rfl, rfl, rfl, fun _ => nofun, fun hnot => (hnot rfl).elim⟩
  · exact ⟨rfl, .drift, .sleep, rfl, rfl, rfl, fun _ => nofun, fun _ => Or.inr rfl⟩
  · exact ⟨rfl, .drift, .sleep, rfl, rfl, rfl, fun _ => nofun, fun _ => Or.inr rfl⟩
  · exact ⟨rfl, .utc, .sync, rfl, rfl, rfl, fun _ => nofun, fun hnot => (hnot rfl).elim⟩
  · exact ⟨rfl, .utc, .warm, rfl, rfl, rfl, fun _ => nofun, fun hnot => (hnot rfl).elim⟩

theorem passed_clock (h : WellPaired p) :
    Passed (joined 44 ([ascii "#clock", stampText true p.tUs, hexText 16 p.utcUs.toNat,
      p.basis.text, p.src.text] ++ (p.detail.map decField).toList)) := by
  have hbasis : FieldText p.basis.text := by cases p.basis <;> decide
  have hsrc : FieldText p.src.text := by cases p.src <;> decide
  obtain ⟨-, basis, src, hbasisText, hsrcText, hpair, hnone, hsome⟩ := h.read
  refine passed_joined (by decide) (by decide) (by decide) ?_ fun s hfields => ?_
  · intro f hf
    rcases List.mem_cons.mp hf with rfl | hf
    · decide
    rcases List.mem_append.mp hf with hfour | hf
    · have hall : ∀ f ∈ [stampText true p.tUs, hexText 16 p.utcUs.toNat, p.basis.text,
          p.src.text], FieldText f := by
        simp only [List.forall_mem_cons, List.not_mem_nil, false_imp_iff, implies_true, and_true]
        exact ⟨fieldText_stampText _ _, fieldText_hexText _ _, hbasis, hsrc⟩
      exact hall f hfour
    · obtain ⟨detail, -, rfl⟩ := Option.map_eq_some_iff.mp (Option.mem_toList.mp hf)
      exact fieldText_decField detail
  · have hhead : Scan.MetaHead.ofText (ascii "#clock") = .clock := by decide
    generalize hline : joined 44 (ascii "#clock" :: ([stampText true p.tUs,
      hexText 16 p.utcUs.toNat, p.basis.text, p.src.text] ++ (p.detail.map decField).toList)) =
      line at *
    have hdetail : ∃ detail, clockDetail (fields line) src = .ok detail := by
      rw [hfields]
      unfold clockDetail
      cases hp : p.detail with
      | none =>
        rw [if_neg (by exact Nat.ne_of_lt (Nat.lt_succ_self 5)), if_neg (hnone hp)]
        exact ⟨none, rfl⟩
      | some detail =>
        have hone := hsome (by rw [hp]; exact Option.some_ne_none _)
        rw [if_pos (by rfl), if_neg (by
          rintro ⟨hcard, hsleep⟩
          exact hone.elim hcard hsleep)]
        show ∃ d, (do
          let detail ← parseU (decField detail)
          pure (some detail)) = Except.ok d
        rw [parseU_decField]
        exact ⟨_, rfl⟩
    obtain ⟨detail, hdetail⟩ := hdetail
    have hlength : ¬ ((fields line).length ≠ 5 ∧ (fields line).length ≠ 6) := by
      rw [hfields]
      rintro ⟨hfive, hsix⟩
      cases hp : p.detail with
      | none =>
        rw [hp] at hfive
        exact hfive rfl
      | some detail =>
        rw [hp] at hsix
        exact hsix rfl
    have hparse : ∃ point, parseClockLine line = .ok point := by
      unfold parseClockLine
      dsimp only
      rw [if_neg (by
        rintro (hfirst | hshort)
        · rw [hfields] at hfirst
          exact hfirst rfl
        · exact hlength hshort)]
      have hstamp : field (fields line) 1 = stampText true p.tUs := by
        rw [hfields]
        rfl
      have hutc : field (fields line) 2 = hexText 16 p.utcUs.toNat := by
        rw [hfields]
        rfl
      have hthird : field (fields line) 3 = p.basis.text := by
        rw [hfields]
        rfl
      have hfourth : field (fields line) 4 = p.src.text := by
        rw [hfields]
        rfl
      rw [hstamp, hutc, hthird, hfourth, parseAbsStamp_stampText, parseU64X_hexText, hbasisText,
        hsrcText]
      show ∃ point, (if src.basis ≠ basis then _ else do
        let detail ← clockDetail (fields line) src
        pure (ClockPoint.mk p.tUs.toNat p.utcUs.toNat basis src detail)) = Except.ok point
      rw [if_neg (fun hnot => hnot hpair), hdetail]
      exact ⟨_, rfl⟩
    obtain ⟨point, hparse⟩ := hparse
    have hfirst : field (fields line) 0 = ascii "#clock" := by
      rw [hfields]
      rfl
    unfold Scan.parseMeta
    dsimp only
    rw [hfirst, hhead]
    dsimp only
    rw [hparse]
    exact ⟨rfl, rfl⟩

theorem passed_pad (n : Nat) : Passed (ascii "#pad," ++ List.replicate n 32) := by
  have hnot : ∀ c : UInt8, c ∉ ascii "#pad," → c ≠ 32 → c ∉ ascii "#pad," ++ List.replicate n 32 := by
    intro c hc hspace hmem
    rcases List.mem_append.mp hmem with hmem | hmem
    · exact hc hmem
    · exact hspace (List.eq_of_mem_replicate hmem)
  refine ⟨rfl, ?_, hnot _ (by decide) (by decide), hnot _ (by decide) (by decide),
    Or.inl (List.prefix_append _ _)⟩
  rintro ⟨t, ht⟩
  have hsecond : some (32 : UInt8) = some 112 := congrArg (fun l : Str => l[1]?) ht
  exact absurd hsecond (by decide)

/-! ## Between the lines -/

/-- The checker and the reader behind some lines of a file, the `#src` lines of these sources among
them, when the writer's chain is at `c`. -/
structure InFile (sources : SourceTable) (c : DeltaClock) (s : Scan) (r : StreamReader) : Prop where
  going : s.stopped = false
  clean : s.report.badLines = []
  version : s.report.formatVersion = some 2
  linked : Linked c s.chain
  chain : r.chain = s.chain
  labels : ∀ tag : UInt8, r.labels.lookup tag.toNat = (sources.lookup tag).map (·.label)

theorem not_unsupported {r : Report} (h : r.formatVersion = some 2) :
    r.unsupportedVersion = false := by
  unfold Report.unsupportedVersion
  rw [h]
  rfl

/-- The checker behind a meta line. -/
theorem InFile.turn_passed (h : InFile sources c s r) (hpassed : Passed line) (number : Nat) :
    (s.turn number line false).stopped = false ∧ (s.turn number line false).report.badLines = [] ∧
      (s.turn number line false).report.formatVersion = some 2 ∧
      (s.turn number line false).chain = s.chain := by
  have hline : line ≠ [] := by
    rintro rfl
    cases hpassed.marked
  unfold Scan.turn
  rw [if_neg (by rw [h.going]; simpa using hline)]
  dsimp only
  by_cases hpad : ascii "#pad," <+: line
  · rw [if_pos hpad]
    exact ⟨h.going, h.clean, h.version, rfl⟩
  rw [if_neg hpad, if_neg fun hlegend => hpassed.noLegend hlegend.2]
  generalize ht : { s with report := { s.report with totalLines := s.report.totalLines + 1 } } = t
  have hversion : t.report.formatVersion = some 2 := by rw [← ht]; exact h.version
  have hclean : t.report.badLines = [] := by rw [← ht]; exact h.clean
  have hchain : t.chain = s.chain := by rw [← ht]
  obtain ⟨hok, hsame⟩ := (hpassed.accepted.resolve_left hpad) t
  have hframe := Scan.frame_parseMeta t line
  unfold Scan.parseLine
  rw [if_pos hpassed.marked]
  generalize t.parseMeta line = parsed at *
  obtain ⟨t', e⟩ := parsed
  cases e with
  | some e => cases hok
  | none =>
    have hversion' : t'.report.formatVersion = some 2 := hsame.trans hversion
    exact ⟨not_unsupported hversion', hframe.badLines.trans hclean, hversion',
      hframe.chain.trans hchain⟩

/-- The reader does not stop at it. -/
theorem Passed.ignored (h : Passed line) (estimates : Bool) : Ignored estimates line := by
  rcases h.accepted with hpad | haccepted
  · exact (Scan.ignored_pad hpad estimates).2
  · obtain ⟨hok, hsame⟩ := haccepted {}
    refine Scan.ignored_of_parseMeta h.marked hok ?_ estimates
    unfold Report.unsupportedVersion
    rw [hsame]

theorem StreamReader.labels_readLine {r' : StreamReader} {item : Option StreamLine}
    (hmeta : isMeta line = true) (hsrc : ¬ ascii "#src," <+: line)
    (h : r.readLine line = .ok (r', item)) : item = none ∧ r'.labels = r.labels := by
  unfold readLine at h
  rw [if_pos hmeta] at h
  cases hread : r.readMeta line with
  | error e =>
    rw [hread] at h
    cases h
  | ok read =>
    rw [hread] at h
    cases h
    refine ⟨rfl, ?_⟩
    unfold readMeta at hread
    dsimp only at hread
    rw [if_neg hsrc] at hread
    split_ifs at hread
    · unfold readHeader at hread
      dsimp only at hread
      split_ifs at hread
      split at hread
      · cases hread
      · split_ifs at hread
        cases hread
        rfl
    · unfold readUtc at hread
      split at hread
      · cases hread
      · cases hread
        rfl
    · unfold readClock at hread
      split at hread
      · cases hread
      · cases hread
        rfl
    · cases hread
      rfl

/-- A meta line that names no source. -/
theorem InFile.passed (h : InFile sources c s r) (hpassed : Passed line)
    (hsrc : ¬ ascii "#src," <+: line) (number : Nat) :
    ∃ r', r.readLine line = .ok (r', none) ∧
      InFile sources c (s.turn number line false) r' := by
  obtain ⟨r', hread, hsame⟩ := StreamReader.readLine_ignored (hpassed.ignored r.estimates)
  obtain ⟨-, hlabels⟩ := StreamReader.labels_readLine hpassed.marked hsrc hread
  obtain ⟨hgoing, hclean, hversion, hchain⟩ := h.turn_passed hpassed number
  refine ⟨r', hread, hgoing, hclean, hversion, ?_, ?_, ?_⟩
  · rw [hchain]
    exact h.linked
  · rw [hsame.chain, hchain]
    exact h.chain
  · rw [hlabels]
    exact h.labels

/-! ## Sources -/

theorem parseX_tag (tag : UInt8) : parseX (hexText 8 tag.toUInt32.toNat) = .ok tag.toNat := by
  have htag : tag.toUInt32.toNat = tag.toNat := UInt8.toNat_toUInt32 tag
  rw [htag]
  exact parseX_hexText (by decide) (Nat.lt_trans tag.toNat_lt (by decide))

theorem fieldText_label {label : Str} (h : ∀ c ∈ label, sanitise c = c) :
    FieldText label := by
  have hnot : ∀ c : UInt8, sanitise c ≠ c → c ∉ label := fun c hc hmem => hc (h c hmem)
  exact ⟨hnot _ (by decide), hnot _ (by decide), hnot _ (by decide)⟩

theorem fieldText_detail (detail : SourceDetail) : FieldText detail.field := by
  cases detail with
  | none => exact (by decide : FieldText [45])
  | text detail =>
    unfold SourceDetail.field
    dsimp only
    split_ifs
    · decide
    · exact fieldText_plain detail
  | num detail => exact fieldText_decField detail

/-- The fields of a `#src` line. -/
def sourceFields (e : SourceEntry) (origin : PlainText) (detail : SourceDetail) : List Str :=
  [ascii "#src", [e.kind.letter], e.label, hexText 8 e.tag.toUInt32.toNat, origin.text,
    detail.field]

theorem fieldText_source (hlabel : ∀ c ∈ e.label, sanitise c = c)
    (origin : PlainText) (detail : SourceDetail) : ∀ f ∈ sourceFields e origin detail, FieldText f := by
  have hkind : FieldText [e.kind.letter] := by cases e.kind <;> decide
  unfold sourceFields
  simp only [List.forall_mem_cons, List.not_mem_nil, false_imp_iff, implies_true, and_true]
  exact ⟨by decide, hkind, fieldText_label hlabel, fieldText_hexText _ _, fieldText_plain _,
    fieldText_detail _⟩

theorem passed_source (hlabel : ∀ c ∈ e.label, sanitise c = c)
    (origin : PlainText) (detail : SourceDetail) : Passed (joined 44 (sourceFields e origin detail)) := by
  refine passed_joined (by decide) (by decide) (by decide) (fieldText_source hlabel origin detail)
    fun s hfields => ?_
  have hhead : Scan.MetaHead.ofText (ascii "#src") = .src := by decide
  have hparse : ∃ source, Scan.parseSource (sourceFields e origin detail) = .ok source := by
    unfold Scan.parseSource
    rw [if_neg (by exact Nat.lt_irrefl 6)]
    show ∃ source, (do
      let tag ← parseX (hexText 8 e.tag.toUInt32.toNat)
      pure (Source.mk [e.kind.letter] e.label tag origin.text detail.field)) = Except.ok source
    rw [parseX_tag]
    exact ⟨_, rfl⟩
  obtain ⟨source, hparse⟩ := hparse
  unfold Scan.parseMeta
  dsimp only
  rw [hfields, show field _ 0 = ascii "#src" from rfl, hhead]
  dsimp only
  rw [show Scan.parseSource (ascii "#src" :: _) = .ok source from hparse]
  exact ⟨rfl, rfl⟩

/-- A `#src` line adds its source to the labels. -/
theorem InFile.source (h : InFile sources c s r) (hfresh : e.tag ∉ sources.map (·.tag))
    (hlabel : ∀ c ∈ e.label, sanitise c = c) (origin : PlainText) (detail : SourceDetail)
    (number : Nat) : ∃ r', r.readLine (joined 44 (sourceFields e origin detail)) = .ok (r', none) ∧
      InFile (sources ++ [e]) c (s.turn number (joined 44 (sourceFields e origin detail)) false)
        r' := by
  have hpassed := passed_source hlabel origin detail
  have hfields : fields (joined 44 (sourceFields e origin detail)) = sourceFields e origin detail :=
    fields_joined (fun f hf => (fieldText_source hlabel origin detail f hf).1) (List.cons_ne_nil _ _)
  obtain ⟨hgoing, hclean, hversion, hchain⟩ := h.turn_passed hpassed number
  have hprefix : ascii "#src," <+: joined 44 (sourceFields e origin detail) := ⟨_, rfl⟩
  have hheader : ¬ ascii "#sdlog," <+: joined 44 (sourceFields e origin detail) := by
    intro hnot
    exact absurd ((field_zero_of_starts (a := ascii "#sdlog") (by decide) hnot).symm.trans
      (field_zero_of_starts (a := ascii "#src") (by decide) hprefix)) (by decide)
  have hread : r.readLine (joined 44 (sourceFields e origin detail)) =
      .ok ({ r with labels := (e.tag.toNat, e.label) :: r.labels }, none) := by
    unfold StreamReader.readLine StreamReader.readMeta StreamReader.readSource
    dsimp only
    rw [if_pos hpassed.marked, if_neg hheader, if_pos hprefix, hfields,
      if_pos (by exact Nat.le_add_left 4 2), show field (sourceFields e origin detail) 3 =
        hexText 8 e.tag.toUInt32.toNat from rfl, parseX_tag]
    rfl
  refine ⟨_, hread, hgoing, hclean, hversion, ?_, ?_, fun tag => ?_⟩
  · rw [hchain]
    exact h.linked
  · rw [hchain]
    exact h.chain
  · have hlookup : lookup (sources ++ [e]) tag =
        (sources.lookup tag).or (if e.tag = tag then some e else none) := by
      unfold lookup
      rw [List.find?_append, List.find?_singleton]
      simp only [decide_eq_true_eq]
    rw [hlookup, List.lookup_cons]
    by_cases htag : e.tag = tag
    · subst htag
      have hnone : sources.lookup e.tag = none := by
        unfold lookup
        rw [List.find?_eq_none]
        intro x hx heq
        exact hfresh (List.mem_map.mpr ⟨x, hx, of_decide_eq_true heq⟩)
      rw [beq_self_eq_true, hnone, if_pos rfl]
      rfl
    · have hne : (tag.toNat == e.tag.toNat) = false := by
        rw [beq_eq_false_iff_ne]
        exact fun heq => htag (UInt8.toNat_inj.mp heq).symm
      rw [hne, if_neg htag, Option.or_none]
      exact h.labels tag

/-! ## Records and text -/

/-- What the formatter was given of a stream line. -/
inductive Given
  | record (kind : UInt8) (label : Str) (flags : UInt8) (id : Nat) (data : List UInt8) (tUs : Nat)
  | text (level : UInt8) (tUs : Nat)

/-- `bytes.fromhex` of upper-case digits. -/
def fromHex : Str → Option (List UInt8)
  | [] => some []
  | [_] => none
  | c :: d :: text => do
    let hi ← hexVal c
    let lo ← hexVal d
    let data ← fromHex text
    pure ((hi * 16 + lo).toUInt8 :: data)

/-- The `REC_FLAG_*` bits of the letters. -/
def flagBits (letters : Str) : UInt8 :=
  (if letters.contains 0x78 then 0x01 else 0) ||| (if letters.contains 0x72 then 0x02 else 0) |||
    (if letters.contains 0x74 then 0x04 else 0) ||| (if letters.contains 0x73 then 0x08 else 0) |||
    (if letters.contains truncatedMark then 0x80 else 0)

/-- The flags that have a letter. -/
def flagMask : UInt8 := 0x8F

/-- What the consumer of the reader sees of a line is what was given. -/
def Shows : Given → StreamReader × StreamLine → Prop
  | .record kind label flags id data tUs, (r, item) =>
    item.kind = kind ∧ item.tUs = tUs ∧ item.fields.length = recordFields ∧
      (∃ tag letters, splitToken (field item.fields 0) = .ok (kind, tag, letters) ∧
        flagBits letters = flags ∧ r.label tag (field item.fields 0) = label) ∧
      parseX (field item.fields 2) = .ok id ∧ fromHex (field item.fields 3) = some data
  | .text level tUs, (_, item) =>
    item.kind = textKind ∧ item.tUs = tUs ∧ field item.fields 0 = [textKind, level]

/-- What the reader is to show of a line; a tag that was never declared is shown as its token. -/
def given (sources : SourceTable) : FileLine → Option Given
  | .record rec tFull =>
    some (.record (kindLetter sources rec.source)
      (((sources.lookup rec.source).map (·.label)).getD (recordToken sources rec))
      (rec.flags &&& flagMask) rec.id.toNat rec.payload tFull.toNat)
  | .text tFull level _ _ _ => some (.text (levelLetter level) tFull.toNat)
  | _ => none

set_option maxRecDepth 8000 in
theorem flagBits_flagLetters (flags : UInt8) :
    flagBits (flagLetters flags) = flags &&& flagMask := by
  have hall : ∀ n < 256, flagBits (flagLetters (UInt8.ofNat n)) =
      UInt8.ofNat n &&& flagMask := by decide
  rw [← UInt8.ofNat_toNat (x := flags)]
  exact hall _ flags.toNat_lt

theorem fromHex_hexPairs (data : List UInt8) : fromHex (hexPairs data) = some data := by
  induction data with
  | nil => rfl
  | cons b data ih =>
    have hb := b.toNat_lt
    show (do
      let hi ← hexVal (hexDigit (b.toNat / 16))
      let lo ← hexVal (hexDigit (b.toNat % 16))
      let data ← fromHex (hexPairs data)
      pure ((hi * 16 + lo).toUInt8 :: data)) = _
    rw [hexVal_hexDigit (by omega), hexVal_hexDigit (Nat.mod_lt _ (by decide)), ih]
    show some ((b.toNat / 16 * 16 + b.toNat % 16).toUInt8 :: data) = _
    rw [Nat.div_add_mod' b.toNat 16, show b.toNat.toUInt8 = b from UInt8.ofNat_toNat]

theorem hexFrom_hexPairs (v : Nat) (data : List UInt8) : ∃ w, hexFrom v (hexPairs data) = some w := by
  induction data generalizing v with
  | nil => exact ⟨v, rfl⟩
  | cons b data ih =>
    have hb := b.toNat_lt
    have hpairs : hexPairs (b :: data) =
        hexDigit (b.toNat / 16) :: hexDigit (b.toNat % 16) :: hexPairs data := rfl
    rw [hpairs, hexFrom, hexVal_hexDigit (by omega)]
    dsimp only
    rw [hexFrom, hexVal_hexDigit (Nat.mod_lt _ (by decide))]
    exact ih _

theorem splitToken_record (sources : SourceTable) (rec : LogRecord) :
    splitToken (recordToken sources rec) =
      .ok (kindLetter sources rec.source, rec.source.toNat, flagLetters rec.flags) := by
  have hhex : ∀ c ∈ hexText 8 rec.source.toUInt32.toNat, isHex c = true := by
    intro c hc
    cases hval : isHex c with
    | true => rfl
    | false =>
      have hnone : hexVal c = none := Option.not_isSome_iff_eq_none.mp ((Bool.not_eq_true _).mpr hval)
      exact absurd hc (notMem_hexText hnone 8 _)
  have hletters : ∀ c ∈ flagLetters rec.flags, isHex c = false := by
    have hall : ∀ c ∈ ascii "xrts~", isHex c = false :=
      List.all_iff_forall_prop.mp (by decide)
    exact fun c hc => hall c (mem_flagLetters hc)
  have hnone : ∀ letters : Str, (∀ c ∈ letters, isHex c = false) →
      letters.takeWhile isHex = [] ∧ letters.dropWhile isHex = letters := by
    intro letters h
    cases letters with
    | nil => exact ⟨rfl, rfl⟩
    | cons c letters =>
      have hc := h c List.mem_cons_self
      rw [List.takeWhile_cons, List.dropWhile_cons, hc]
      exact ⟨rfl, rfl⟩
  obtain ⟨htake, hdrop⟩ := hnone _ hletters
  have hknown : (flagLetters rec.flags).all (flagLetterSet.contains ·) = true := by
    refine List.all_eq_true.mpr fun c hc => ?_
    exact List.contains_iff_mem.mpr (mem_flagLetters hc)
  unfold splitToken recordToken
  rw [List.tail_cons, List.takeWhile_append_of_pos hhex, List.dropWhile_append_of_pos hhex, htake,
    hdrop, List.append_nil, parseX_tag]
  show (if ¬ (flagLetters rec.flags).all (flagLetterSet.contains ·) = true then _
    else _) = _
  rw [if_neg (not_not.mpr hknown)]
  rfl

theorem checkRecord_record (rec : LogRecord) (token stamp : Str) :
    checkRecord [token, stamp, hexText 8 rec.id.toNat, hexPairs rec.payload] = .ok () := by
  have hlength := length_hexPairs rec.payload
  have hpayload := length_payload rec
  have hid : parseX (hexText 8 rec.id.toNat) = .ok rec.id.toNat :=
    parseX_hexText (by decide) rec.id.toNat_lt
  unfold checkRecord
  rw [if_neg (fun h => h rfl)]
  show (do
    let _ ← parseX (hexText 8 rec.id.toNat)
    if (hexPairs rec.payload).length % 2 ≠ 0 then
      .error (.halfByte (hexPairs rec.payload).length)
    else if (hexPairs rec.payload).length > maxDataHex then
      .error (.beyond8Bytes ((hexPairs rec.payload).length / 2))
    else if hexPairs rec.payload ≠ [] then do
      let _ ← parseX (hexPairs rec.payload)
      pure ()
    else pure ()) = _
  rw [hid]
  show (if (hexPairs rec.payload).length % 2 ≠ 0 then _ else _) = _
  rw [if_neg (by omega), if_neg (by rw [hlength]; unfold maxDataHex; omega)]
  by_cases hnone : hexPairs rec.payload = []
  · rw [if_neg (not_not.mpr hnone)]
    rfl
  · obtain ⟨w, hw⟩ := hexFrom_hexPairs 0 rec.payload
    have hdata : parseX (hexPairs rec.payload) = .ok w := by
      unfold parseX
      rw [if_neg hnone, hw]
    rw [if_pos hnone, hdata]
    rfl

theorem formatVersion_note (r : Report) (tUs : Nat) (utc : Option Nat) :
    ((r.noteTime tUs).noteUtc utc).formatVersion = r.formatVersion := by
  cases utc with
  | none => rfl
  | some utc => rfl

theorem formatVersion_countRecord (s : Scan) (fs : List Str) (kind : UInt8) (tUs : Nat) :
    (s.countRecord fs kind tUs).1.report.formatVersion = s.report.formatVersion := by
  unfold Scan.countRecord
  cases splitToken (field fs 0) with
  | error e => rfl
  | ok parts =>
    dsimp only
    cases checkRecord fs with
    | error e => rfl
    | ok u => exact formatVersion_note _ _ _

theorem formatVersion_countText (s : Scan) (fs : List Str) (tUs : Nat) :
    (s.countText fs tUs).1.report.formatVersion = s.report.formatVersion := by
  unfold Scan.countText
  cases checkText fs with
  | error e => rfl
  | ok u => exact formatVersion_note _ _ _

theorem formatVersion_parseStream (s : Scan) (line : Str) :
    (s.parseStream line).1.report.formatVersion = s.report.formatVersion := by
  unfold Scan.parseStream
  dsimp only
  cases (field (fields line) 0).head? with
  | none => rfl
  | some kind =>
    dsimp only
    by_cases hstream : kind ∈ recordKinds ∨ kind = textKind
    · rw [if_pos hstream]
      by_cases hshort : (fields line).length < 2
      · rw [if_pos hshort]
      rw [if_neg hshort]
      cases s.chain.read (field (fields line) 1) with
      | error e => rfl
      | ok stamped =>
        dsimp only
        by_cases hrecord : kind ∈ recordKinds
        · rw [if_pos hrecord]
          exact formatVersion_countRecord _ _ _ _
        · rw [if_neg hrecord]
          exact formatVersion_countText _ _ _
    · rw [if_neg hstream]

/-- A stream line that is read. -/
theorem InFile.stream {sources : SourceTable} {c : DeltaClock} {s : Scan} {r : StreamReader}
    (h : InFile sources c s r) {line : Str} {kind : UInt8} {t : UInt64}
    (hkind : (field (fields line) 0).head? = some kind)
    (hstream : kind ∈ recordKinds ∨ kind = textKind) (htwo : 2 ≤ (fields line).length)
    (hstamp : field (fields line) 1 =
      stampText (c.encode t).1.1 (c.encode t).1.2)
    (hok : ∀ s : Scan, (if kind ∈ recordKinds then s.countRecord (fields line) kind t.toNat
      else s.countText (fields line) t.toNat).2 = none) (number : Nat) :
    ∃ r' item, r.readLine line = .ok (r', some item) ∧ item.kind = kind ∧ item.tUs = t.toNat ∧
      item.fields = fields line ∧ r'.labels = r.labels ∧
      InFile sources (c.encode t).2 (s.turn number line false) r' := by
  obtain ⟨chain, hread, hlinked⟩ := read_stampText h.linked t
  rw [← hstamp] at hread
  have hhead := head_of_field_zero hkind
  have hmeta : ¬ isMeta line = true := by
    intro hmark
    have hsame : some kind = some 35 := hhead.symm.trans (of_decide_eq_true hmark)
    cases hsame
    revert hstream
    decide
  have hline : line ≠ [] := by
    rintro rfl
    cases hhead
  have hreadLine : r.readLine line = .ok ({ r with chain := chain },
      some { kind := kind, tUs := t.toNat, utcUs := r.utcAnchor.resolve t.toNat
             fields := fields line, line := line
             utcBest := if r.estimates then
                 r.clock.current.map fun c => (c.resolve t.toNat, c.basis)
               else none }) := by
    have hlong : (fields line).length > 1 := htwo
    unfold StreamReader.readLine
    rw [if_neg hmeta]
    dsimp only
    rw [hkind]
    dsimp only
    rw [if_pos hstream, if_pos hlong, h.chain, hread]
  refine ⟨_, _, hreadLine, rfl, rfl, rfl, rfl, ?_⟩
  unfold Scan.turn
  rw [if_neg (by rw [h.going]; simpa using hline)]
  dsimp only
  rw [if_neg fun hpad => hmeta (Scan.isMeta_of_starts rfl hpad),
    if_neg fun hlegend => hmeta (Scan.isMeta_of_starts rfl hlegend.2)]
  generalize ht : { s with report := { s.report with totalLines := s.report.totalLines + 1 } } = u
  have hgoing : u.stopped = false := by rw [← ht]; exact h.going
  have hclean : u.report.badLines = [] := by rw [← ht]; exact h.clean
  have hversion : u.report.formatVersion = some 2 := by rw [← ht]; exact h.version
  have hchain : u.chain = s.chain := by rw [← ht]
  have hsame := formatVersion_parseStream u line
  unfold Scan.parseLine
  rw [if_neg hmeta]
  have hnone : (u.parseStream line).2 = none := by
    have hshort : ¬ (fields line).length < 2 := Nat.not_lt.mpr htwo
    unfold Scan.parseStream
    dsimp only
    rw [hkind]
    dsimp only
    rw [if_pos hstream, if_neg hshort, hchain, hread]
    exact hok _
  rcases Scan.parseStream_cases u line with ⟨kind', tUs', chain', -, -, -, hread', hcounts⟩ | hraises
  · obtain ⟨-, hstopped, hchain', hbad, -⟩ := hcounts
    rw [hchain, hread] at hread'
    cases hread'
    generalize u.parseStream line = parsed at *
    obtain ⟨u', e⟩ := parsed
    cases e with
    | some e => cases hnone
    | none =>
      have hfinal : u'.chain = chain := hchain'
      refine ⟨hstopped.trans hgoing, hbad.trans hclean, hsame.trans hversion, ?_, hfinal.symm,
        h.labels⟩
      show Linked _ u'.chain
      rw [hfinal]
      exact hlinked
  · exact absurd hnone hraises.1

theorem fieldText_recordToken (sources : SourceTable) (rec : LogRecord) :
    FieldText (recordToken sources rec) :=
  ⟨notMem_recordToken (by decide) (by decide) (by decide) _ _,
    notMem_recordToken (by decide) (by decide) (by decide) _ _,
    notMem_recordToken (by decide) (by decide) (by decide) _ _⟩

theorem fieldText_hexPairs (data : List UInt8) : FieldText (hexPairs data) := by
  obtain ⟨w, hw⟩ := hexFrom_hexPairs 0 data
  exact ⟨notMem_of_hexFrom (by decide) hw, notMem_of_hexFrom (by decide) hw,
    notMem_of_hexFrom (by decide) hw⟩

/-- The fields of a record line. -/
def recordLine (sources : SourceTable) (rec : LogRecord) (e : Bool × UInt64) : List Str :=
  [recordToken sources rec, LineWriter.stampText e.1 e.2, hexText 8 rec.id.toNat,
    hexPairs rec.payload]

theorem fieldText_recordLine (sources : SourceTable) (rec : LogRecord) (e : Bool × UInt64) :
    ∀ f ∈ recordLine sources rec e, FieldText f := by
  unfold recordLine
  simp only [List.forall_mem_cons, List.not_mem_nil, false_imp_iff, implies_true, and_true]
  exact ⟨fieldText_recordToken _ _, fieldText_stampText _ _, fieldText_hexText _ _,
    fieldText_hexPairs _⟩

/-- A record line is shown as it was given. -/
theorem InFile.record (h : InFile sources c s r) (rec : LogRecord) (t : UInt64) (number : Nat) :
    ∃ r' item, r.readLine (joined 44 (recordLine sources rec (c.encode t).1)) = .ok (r', some item) ∧
      (∀ g ∈ given sources (.record rec t), Shows g (r', item)) ∧
      InFile sources (c.encode t).2
        (s.turn number (joined 44 (recordLine sources rec (c.encode t).1)) false) r' := by
  have hfields : fields (joined 44 (recordLine sources rec (c.encode t).1)) =
      recordLine sources rec (c.encode t).1 :=
    fields_joined (fun f hf => (fieldText_recordLine sources rec _ f hf).1) (List.cons_ne_nil _ _)
  have hkind : kindLetter sources rec.source ∈ recordKinds := by
    have hmem := kindLetter_mem sources rec.source
    have hall : ∀ c ∈ ascii "CLUI", c ∈ recordKinds :=
      List.all_iff_forall_prop.mp (by decide)
    exact hall _ hmem
  obtain ⟨r', item, hread, hitemKind, hitemTime, hitemFields, hlabels, hin⟩ := @InFile.stream sources
    c s r h (joined 44 (recordLine sources rec (c.encode t).1)) (kindLetter sources rec.source) t
    (by rw [hfields]; rfl) (Or.inl hkind) (by rw [hfields]; exact Nat.le_add_left 2 2)
    (by rw [hfields]; rfl) (by
      intro s
      rw [if_pos hkind, hfields]
      unfold Scan.countRecord
      rw [show field (recordLine sources rec (c.encode t).1) 0 = recordToken sources rec from rfl,
        splitToken_record, show checkRecord (recordLine sources rec (c.encode t).1) = .ok () from
          checkRecord_record rec _ _]) number
  refine ⟨r', item, hread, fun g hg => ?_, hin⟩
  cases Option.mem_some_iff.mp hg
  refine ⟨hitemKind, hitemTime, ?_, ⟨rec.source.toNat, flagLetters rec.flags, ?_, ?_, ?_⟩,
    ?_, ?_⟩
  · rw [hitemFields, hfields]
    rfl
  · rw [hitemFields, hfields]
    exact splitToken_record sources rec
  · exact flagBits_flagLetters rec.flags
  · unfold StreamReader.label
    rw [hlabels, h.labels, hitemFields, hfields]
    rfl
  · rw [hitemFields, hfields]
    exact parseX_hexText (by decide) rec.id.toNat_lt
  · rw [hitemFields, hfields]
    exact fromHex_hexPairs rec.payload

/-- A text line is shown as it was given. -/
theorem InFile.text
    (h : InFile sources c s r) (t : UInt64) (level : UInt8) {tag : Str} (htag : 44 ∉ tag)
    (rest : Str) (number : Nat) : ∃ r' item,
      r.readLine (joined 44 [textToken level,
        stampText (c.encode t).1.1 (c.encode t).1.2, tag, rest]) = .ok (r', some item) ∧
      Shows (.text (levelLetter level) t.toNat) (r', item) ∧
      InFile sources (c.encode t).2 (s.turn number (joined 44 [textToken level,
        stampText (c.encode t).1.1 (c.encode t).1.2, tag, rest]) false) r' := by
  have hfields : fields (joined 44 [textToken level,
      stampText (c.encode t).1.1 (c.encode t).1.2, tag, rest]) =
        textToken level :: stampText (c.encode t).1.1 (c.encode t).1.2 :: tag ::
          fields rest := by
    have htoken : 44 ∉ textToken level := (tokenText_text level).2.2.1
    have hstamp := (fieldText_stampText (c.encode t).1.1 (c.encode t).1.2).1
    show fields (textToken level ++ 44 :: (stampText _ _ ++ 44 :: (tag ++ 44 :: rest))) = _
    rw [fields_comma htoken, fields_comma hstamp, fields_comma htag]
  have hrest : 1 ≤ (fields rest).length := by
    unfold fields
    rw [List.length_append]
    exact Nat.le_add_left _ _
  have hfour : ¬ (fields (joined 44 [textToken level,
      stampText (c.encode t).1.1 (c.encode t).1.2, tag, rest])).length < textFields := by
    rw [hfields]
    simp only [List.length_cons, textFields]
    omega
  obtain ⟨r', item, hread, hitemKind, hitemTime, hitemFields, hlabels, hin⟩ := @InFile.stream sources
    c s r h (joined 44 [textToken level, stampText (c.encode t).1.1 (c.encode t).1.2, tag,
      rest]) textKind t (by rw [hfields]; rfl) (Or.inr rfl)
    (by rw [hfields]; exact Nat.le_add_left 2 _) (by rw [hfields]; rfl) (by
      intro s
      rw [if_neg (by decide)]
      have hcheck : checkText (fields (joined 44 [textToken level,
          stampText (c.encode t).1.1 (c.encode t).1.2, tag, rest])) = .ok () := by
        unfold checkText
        rw [if_neg hfour, hfields]
        exact if_neg (fun hnot => hnot rfl)
      unfold Scan.countText
      rw [hcheck]) number
  refine ⟨r', item, hread, ⟨hitemKind, hitemTime, ?_⟩, hin⟩
  rw [hitemFields, hfields]
  rfl

/-! ## A whole file -/

/-- What a formatter may be given, so that its line is read: the tag of a log line fits, and a clock
statement is one of those the format has. -/
def Readable : FileLine → Prop
  | .text _ _ tag _ _ => (escapedText true tag).length ≤ 488
  | .clock p => p.valid = true → WellPaired p
  | _ => True

/-- Lines that both read, with what was given of them. -/
structure ReadBack (s : Scan) (r : StreamReader) (number : Nat) (ls : List Str)
    (given : List Given) : Prop where
  oneLine : ∀ line ∈ ls, newline ∉ line ∧ carriageReturn ∉ line
  clean : (s.turns number ls).report.badLines = []
  noError : (r.readLines ls).2 = none
  shown : List.Forall₂ Shows given (r.yields ls)

theorem ReadBack.nil (h : InFile sources c s r) (number : Nat) : ReadBack s r number [] [] :=
  ⟨nofun, h.clean, rfl, List.Forall₂.nil⟩

theorem ReadBack.cons {s : Scan} {r r' : StreamReader} {number : Nat} {line : Str}
    {item : Option StreamLine} {ls : List Str} {g : Option Given} {given : List Given}
    (hfree : newline ∉ line ∧ carriageReturn ∉ line) (hread : r.readLine line = .ok (r', item))
    (hshown : List.Forall₂ Shows g.toList (item.map (r', ·)).toList)
    (h : ReadBack (s.turn number line false) r' (number + 1) ls given) :
    ReadBack s r number (line :: ls) (g.toList ++ given) := by
  refine ⟨List.forall_mem_cons.mpr ⟨hfree, h.oneLine⟩, h.clean, ?_, ?_⟩
  · unfold StreamReader.readLines
    rw [hread]
    exact h.noError
  · unfold StreamReader.yields
    rw [hread]
    exact List.rel_append hshown h.shown

/-- What is behind one call of a formatter: nothing is written, or a line that both read. -/
def LineRead (sources : SourceTable) (c : DeltaClock) (s : Scan) (r : StreamReader) (number room : Nat)
    (line : FileLine) : Prop :=
  line.format sources room c = ([], c) ∧ given sources line = none ∨
    ∃ text c' r' item, line.format sources room c = (text ++ [newline], c') ∧
      (newline ∉ text ∧ carriageReturn ∉ text) ∧ r.readLine text = .ok (r', item) ∧
      List.Forall₂ Shows (given sources line).toList (item.map (r', ·)).toList ∧
      InFile sources c' (s.turn number text false) r'

theorem lineRead_meta (h : InFile sources c s r) (number : Nat) {line : FileLine} {text : Str}
    (hformat : line.format sources room c = (text ++ [newline], c)) (hpassed : Passed text)
    (hsrc : ¬ ascii "#src," <+: text) (hnone : given sources line = none) :
    LineRead sources c s r number room line := by
  obtain ⟨r', hread, hin⟩ := h.passed hpassed hsrc number
  refine Or.inr ⟨text, c, r', none, hformat, ⟨hpassed.oneLine, hpassed.noReturn⟩, hread, ?_, hin⟩
  rw [hnone]
  exact List.Forall₂.nil

theorem not_source_joined {head : Str} (hhead : 44 ∉ head)
    (hne : head ≠ ascii "#src") (hfs : fs ≠ []) : ¬ ascii "#src," <+: joined 44 (head :: fs) := by
  intro hsrc
  obtain ⟨g, fs, rfl⟩ := List.exists_cons_of_ne_nil hfs
  refine hne ((field_zero_of_starts hhead ⟨joined 44 (g :: fs), ?_⟩).symm.trans
    (field_zero_of_starts (a := ascii "#src") (by decide) hsrc))
  rw [List.append_assoc]
  rfl

theorem lineRead_pad (h : InFile sources c s r) (number room offset : Nat) :
    LineRead sources c s r number room (.pad offset) := by
  have hpad : ∃ len, formatPad room offset =
      if room < len then [] else ascii "#pad," ++ List.replicate (len - 6) 32 ++ [newline] :=
    ⟨_, rfl⟩
  obtain ⟨len, hlen⟩ := hpad
  by_cases hsmall : room < len
  · rw [if_pos hsmall] at hlen
    exact Or.inl ⟨by rw [FileLine.format, hlen], rfl⟩
  · rw [if_neg hsmall] at hlen
    refine lineRead_meta h number (by rw [FileLine.format, hlen]) (passed_pad (len - 6)) ?_ rfl
    intro hsrc
    have hprefix : ascii "#pad," <+: ascii "#pad," ++ List.replicate (len - 6) 32 :=
      List.prefix_append _ _
    exact absurd ((field_zero_of_starts (a := ascii "#pad") (by decide) hprefix).symm.trans
      (field_zero_of_starts (a := ascii "#src") (by decide) hsrc)) (by decide)

theorem lineRead_clock
    (h : InFile sources c s r) (number : Nat) (hroom : maxLine ≤ room)
    (hreadable : Readable (.clock p)) :
    LineRead sources c s r number room (.clock p) := by
  cases hvalid : p.valid with
  | false =>
    refine Or.inl ⟨?_, rfl⟩
    rw [FileLine.format, formatClock, if_pos]
    rw [hvalid]
    exact Or.inr rfl
  | true =>
    exact lineRead_meta h number (by rw [FileLine.format, formatClock_eq hroom hvalid])
      (passed_clock (hreadable hvalid))
      (not_source_joined (by decide) (by decide) (List.cons_ne_nil _ _)) rfl

theorem lineRead_text
    (h : InFile sources c s r) (number : Nat) (hroom : maxLine ≤ room) (t : UInt64)
    (level : UInt8) {tag : Str} (hfits : (escapedText true tag).length ≤ 488) (msg : Str)
    (truncated : Bool) : LineRead sources c s r number room (.text t level tag msg truncated) := by
  obtain ⟨rest, hformat, h10, h13⟩ := formatText_eq hroom hfits c t level msg truncated
  have hcomma : 44 ∉ escapedText true tag :=
    notMem_escapedText (Or.inr (Or.inr rfl)) (fun _ => rfl) tag
  obtain ⟨r', item, hread, hshows, hin⟩ := h.text t level hcomma rest number
  have htoken : FieldText (textToken level) := by
    have hletter : levelLetter level ∈ ascii "EWICDV?" := by
      unfold levelLetter
      split_ifs <;> decide
    have hall : ∀ l ∈ ascii "EWICDV?", FieldText [88, l] :=
      List.all_iff_forall_prop.mp (by decide)
    exact hall _ hletter
  have hstamp := fieldText_stampText (c.encode t).1.1 (c.encode t).1.2
  refine Or.inr ⟨_, _, r', some item, hformat, ⟨notMem_joined (by decide) ?_,
    notMem_joined (by decide) ?_⟩, hread, List.Forall₂.cons hshows List.Forall₂.nil, hin⟩
  · simp only [List.forall_mem_cons, List.not_mem_nil, false_imp_iff, implies_true, and_true]
    exact ⟨htoken.2.1, hstamp.2.1,
      notMem_escapedText (Or.inl rfl) (fun h => absurd h (by decide)) tag, h10⟩
  · simp only [List.forall_mem_cons, List.not_mem_nil, false_imp_iff, implies_true, and_true]
    exact ⟨htoken.2.2, hstamp.2.2,
      notMem_escapedText (Or.inr (Or.inl rfl)) (fun h => absurd h (by decide)) tag, h13⟩

/-- One call of a formatter. -/
theorem lineRead
    (h : InFile sources c s r) (number : Nat) (hroom : maxLine ≤ room) {line : FileLine}
    (hreadable : Readable line) : LineRead sources c s r number room line := by
  cases line with
  | record rec t =>
    obtain ⟨r', item, hread, hshows, hin⟩ := h.record rec t number
    have hfields := fieldText_recordLine sources rec (c.encode t).1
    refine Or.inr ⟨_, _, r', some item, formatRecord_eq hroom c rec t sources,
      ⟨notMem_joined (by decide) fun f hf => (hfields f hf).2.1,
        notMem_joined (by decide) fun f hf => (hfields f hf).2.2⟩, hread, ?_, hin⟩
    exact List.Forall₂.cons (hshows _ rfl) List.Forall₂.nil
  | text t level tag msg truncated =>
    exact lineRead_text h number hroom t level hreadable msg truncated
  | drop t what label delta total =>
    exact lineRead_meta h number (by rw [FileLine.format, formatDrop_eq hroom])
      (passed_drop t what label delta total)
      (not_source_joined (by decide) (by decide) (List.cons_ne_nil _ _)) rfl
  | gap t chunks bytes firstSeq lastSeq =>
    exact lineRead_meta h number (by rw [FileLine.format, formatGap_eq hroom])
      (passed_gap t chunks bytes firstSeq lastSeq)
      (not_source_joined (by decide) (by decide) (List.cons_ne_nil _ _)) rfl
  | rotate t nextSeq =>
    exact lineRead_meta h number (by rw [FileLine.format, formatRotate_eq hroom])
      (passed_rotate t nextSeq)
      (not_source_joined (by decide) (by decide) (List.cons_ne_nil _ _)) rfl
  | clock p => exact lineRead_clock h number hroom hreadable
  | utc bootUs utcUs =>
    exact lineRead_meta h number (by rw [FileLine.format, formatUtc_eq hroom])
      (passed_utc bootUs utcUs)
      (not_source_joined (by decide) (by decide) (List.cons_ne_nil _ _)) rfl
  | pad offset => exact lineRead_pad h number room offset
  | close t reason =>
    exact lineRead_meta h number (by rw [FileLine.format, formatClose_eq hroom])
      (passed_close t reason)
      (not_source_joined (by decide) (by decide) (List.cons_ne_nil _ _)) rfl

/-- What the reader is to show of a body. -/
def givens (sources : SourceTable) : List (Nat × FileLine) → List Given
  | [] => []
  | (_, line) :: body => (given sources line).toList ++ givens sources body

/-- The lines of the body, from wherever the chain is. -/
theorem readBack_body (body : List (Nat × FileLine)) (h : InFile sources c s r) (number : Nat)
    (hbody : ∀ x ∈ body, maxLine ≤ x.1 ∧ Readable x.2) :
    ∃ ls, formatBody sources c body = ls.flatMap (· ++ [newline]) ∧
      ReadBack s r number ls (givens sources body) := by
  induction body generalizing c s r number with
  | nil => exact ⟨[], rfl, ReadBack.nil h number⟩
  | cons x body ih =>
    obtain ⟨room, line⟩ := x
    obtain ⟨⟨hroom, hreadable⟩, hrest⟩ := List.forall_mem_cons.mp hbody
    unfold givens formatBody
    rcases lineRead h number hroom hreadable with ⟨hformat, hnone⟩ |
      ⟨text, c', r', item, hformat, hfree, hread, hshows, hin⟩
    · obtain ⟨ls, htext, hback⟩ := ih h number hrest
      rw [hformat, hnone]
      exact ⟨ls, htext, hback⟩
    · obtain ⟨ls, htext, hback⟩ := ih hin (number + 1) hrest
      rw [hformat]
      dsimp only
      rw [htext]
      exact ⟨text :: ls, rfl, ReadBack.cons hfree hread hshows hback⟩

/-- The `#src` lines of the sources that are still to come, behind those that are read. -/
theorem readBack_sources {todo done : SourceTable} {room : Nat} (hroom : maxLine ≤ room)
    (describe : SourceEntry → PlainText × SourceDetail)
    (htags : ((done ++ todo).map (·.tag)).Nodup)
    (hlabels : ∀ e ∈ todo, e.label.length ≤ maxLabel ∧ ∀ c ∈ e.label, sanitise c = c)
    {c : DeltaClock} {s : Scan} {r : StreamReader} (h : InFile done c s r) (number : Nat)
    (body : List (Nat × FileLine)) (hbody : ∀ x ∈ body, maxLine ≤ x.1 ∧ Readable x.2) :
    ∃ ls, formatSources room describe todo ++ formatBody (done ++ todo) c body =
        ls.flatMap (· ++ [newline]) ∧ ReadBack s r number ls (givens (done ++ todo) body) := by
  induction todo generalizing done s r number with
  | nil =>
    rw [List.append_nil]
    exact readBack_body body h number hbody
  | cons e todo ih =>
    obtain ⟨⟨hlength, hlabel⟩, hrest⟩ := List.forall_mem_cons.mp hlabels
    have hfresh : e.tag ∉ done.map (·.tag) := by
      rw [List.map_append, List.map_cons] at htags
      intro hmem
      exact (List.nodup_append.mp htags).2.2 _ hmem _ List.mem_cons_self rfl
    obtain ⟨r', hread, hin⟩ := h.source hfresh hlabel (describe e).1 (describe e).2 number
    have hmove : done ++ e :: todo = done ++ [e] ++ todo := by
      rw [List.append_assoc]
      rfl
    rw [hmove] at htags ⊢
    obtain ⟨ls, htext, hback⟩ := ih htags hrest hin (number + 1)
    have hpassed := passed_source hlabel (describe e).1 (describe e).2
    refine ⟨joined 44 (sourceFields e (describe e).1 (describe e).2) :: ls, ?_,
      ReadBack.cons (g := none) ⟨hpassed.oneLine, hpassed.noReturn⟩ hread List.Forall₂.nil hback⟩
    rw [List.flatMap_cons, ← htext]
    show formatSrc room e.kind e.label e.tag (describe e).1.text (describe e).2 ++
      formatSources room describe todo ++ _ = _
    rw [formatSrc_eq hroom e.kind hlength e.tag (describe e).1 (describe e).2, List.append_assoc]
    rfl

/-- The header line and what both are behind it. -/
theorem inFile_header (estimates : Bool) (seq : UInt32) (tFull : UInt64) (rest : Str) :
    ∃ r', ({ estimates := estimates } : StreamReader).readLine (joined 44 [ascii "#sdlog",
        decField formatVersion, decField seq.toUInt64, stampText true tFull, rest]) =
          .ok (r', none) ∧
      InFile [] {} (({} : Scan).turn 1 (joined 44 [ascii "#sdlog", decField formatVersion,
        decField seq.toUInt64, stampText true tFull, rest]) false) r' := by
  generalize hline : joined 44 [ascii "#sdlog", decField formatVersion, decField seq.toUInt64,
    stampText true tFull, rest] = line
  have hfields : fields line = ascii "#sdlog" :: decField formatVersion ::
      decField seq.toUInt64 :: stampText true tFull :: fields rest := by
    rw [← hline]
    show fields (ascii "#sdlog" ++ 44 :: (decField formatVersion ++ 44 :: (decField seq.toUInt64 ++
      44 :: (stampText true tFull ++ 44 :: rest)))) = _
    rw [fields_comma (by decide), fields_comma (fieldText_decField _).1,
      fields_comma (fieldText_decField _).1, fields_comma (fieldText_stampText _ _).1]
  have hprefix : ascii "#sdlog" <+: line := by
    rw [← hline]
    exact List.prefix_append _ _
  have hmeta : isMeta line = true := Scan.isMeta_of_starts rfl hprefix
  have hrest : 1 ≤ (fields rest).length := by
    unfold fields
    rw [List.length_append]
    exact Nat.le_add_left _ _
  have hfive : ¬ (fields line).length < 5 := by
    rw [hfields]
    simp only [List.length_cons]
    omega
  have hnot : ∀ p : Str, ¬ (p <+: ascii "#sdlog" ∨ ascii "#sdlog" <+: p) → ¬ p <+: line :=
    fun p hp h => hp (List.prefix_or_prefix_of_prefix h hprefix)
  have hversion : parseU (decField formatVersion) = .ok 2 := parseU_decField formatVersion
  have hheader : ∀ s : Scan, ∃ seq name, s.parseMeta line =
      ({ s with report := { s.report with
          formatVersion := some 2, seq := some seq, esphomeVersion := name } }, none) := by
    intro s
    have hhead : Scan.MetaHead.ofText (field (fields line) 0) = .sdlog := by
      rw [hfields]
      exact (by decide : Scan.MetaHead.ofText (ascii "#sdlog") = .sdlog)
    unfold Scan.parseMeta
    dsimp only
    rw [hhead]
    dsimp only
    unfold Scan.metaHeader
    rw [if_neg hfive, hfields]
    simp only [field, List.getD_cons_zero, List.getD_cons_succ, hversion, parseU_decField,
      parseAbsStamp_stampText]
    rw [if_pos (by decide)]
    exact ⟨_, _, rfl⟩
  obtain ⟨name, version, hparse⟩ := hheader
    { report := { totalLines := 1 } }
  have hignored : Ignored estimates line := by
    obtain ⟨seq, name, hok⟩ := hheader {}
    refine Scan.ignored_of_parseMeta (s := {}) hmeta ?_ ?_ estimates
    · rw [hok]
    · rw [hok]
      rfl
  obtain ⟨r', hread, hsame⟩ := @StreamReader.readLine_ignored { estimates := estimates } line hignored
  obtain ⟨-, hlabels⟩ := StreamReader.labels_readLine hmeta (hnot _ (by decide)) hread
  have hturn : ({} : Scan).turn 1 line false = { report := { ({ totalLines := 1 } : Report) with
      formatVersion := some 2, seq := some name, esphomeVersion := version } } := by
    have hline : line ≠ [] := by
      rintro rfl
      cases hmeta
    unfold Scan.turn
    rw [if_neg (by simpa using hline)]
    dsimp only
    rw [if_neg (hnot _ (by decide)),
      if_neg fun h => hnot (ascii "# ") (by decide) h.2]
    unfold Scan.parseLine
    rw [if_pos hmeta, hparse]
    rfl
  refine ⟨r', hread, ?_⟩
  rw [hturn]
  refine ⟨rfl, rfl, rfl, (fun hnone => by cases hnone), hsame.chain, fun tag => ?_⟩
  rw [hlabels]
  rfl

/-- The file is clean, nothing stops the reader, and it shows what was given. -/
def FileRead (estimates : Bool) (raw : List UInt8) (given : List Given) : Prop :=
  (parseFile raw).badLines = [] ∧ (streamFile estimates raw).2 = none ∧
    List.Forall₂ Shows given (streamYields estimates raw)

/-- A file of the formatters is clean, and the reader shows every record and every log line of it,
in order, as it was given; if no tag is declared twice, every log line's tag fits and every clock
statement is one that the format has. -/
theorem written_file_read (estimates : Bool) (room : Nat) (hroom : maxLine ≤ room) (seq : UInt32)
    (tFull : UInt64) (version : Str) (describe : SourceEntry → PlainText × SourceDetail)
    (adds : List (UInt8 × SourceKind × Option Str)) (body : List (Nat × FileLine))
    (htags : ((SourceTable.build adds).map (·.tag)).Nodup)
    (hbody : ∀ x ∈ body, maxLine ≤ x.1 ∧ Readable x.2) :
    FileRead estimates
      (formatFile room seq tFull version describe (SourceTable.build adds) body)
      (givens (SourceTable.build adds) body) := by
  obtain ⟨rest, hheader, h10, h13⟩ := formatHeader_eq hroom seq tFull version
  obtain ⟨r, hread, hin⟩ := inFile_header estimates seq tFull rest
  obtain ⟨ls, htext, hback⟩ := @readBack_sources (SourceTable.build adds) [] room hroom describe htags
    (fun e he => label_of_build he) {} _ r hin 2 body hbody
  rw [List.nil_append] at htext hback
  generalize hline : joined 44 [ascii "#sdlog", decField formatVersion, decField seq.toUInt64,
    LineWriter.stampText true tFull, rest] = line at *
  have hfree : newline ∉ line ∧ carriageReturn ∉ line := by
    rw [← hline]
    refine ⟨notMem_joined (by decide) ?_, notMem_joined (by decide) ?_⟩
    · simp only [List.forall_mem_cons, List.not_mem_nil, false_imp_iff, implies_true, and_true]
      exact ⟨by decide, (fieldText_decField _).2.1, (fieldText_decField _).2.1,
        (fieldText_stampText _ _).2.1, h10⟩
    · simp only [List.forall_mem_cons, List.not_mem_nil, false_imp_iff, implies_true, and_true]
      exact ⟨by decide, (fieldText_decField _).2.2, (fieldText_decField _).2.2,
        (fieldText_stampText _ _).2.2, h13⟩
  have hall : ReadBack {} { estimates := estimates } 1 (line :: ls)
      (givens (SourceTable.build adds) body) :=
    ReadBack.cons (g := none) hfree hread List.Forall₂.nil hback
  have hraw : formatFile room seq tFull version describe (SourceTable.build adds) body =
      (line :: ls).flatMap (· ++ [newline]) := by
    unfold formatFile
    rw [hheader, List.append_assoc, htext, List.flatMap_cons]
  rw [hraw]
  obtain ⟨hlines, hrest⟩ := splitLines_flatMap fun l hl => (hall.oneLine l hl).1
  have hreturn : carriageReturn ∉ (line :: ls).flatMap (· ++ [newline]) := by
    intro hmem
    obtain ⟨l, hl, hmem⟩ := List.mem_flatMap.mp hmem
    rcases List.mem_append.mp hmem with hmem | hmem
    · exact (hall.oneLine l hl).2 hmem
    · exact absurd hmem (by decide)
  refine ⟨?_, ?_, ?_⟩
  · unfold parseFile
    dsimp only
    rw [hrest, if_pos rfl, hlines]
    exact hall.clean
  · unfold streamFile
    rw [universalNewlines_of_notMem hreturn, hlines]
    exact hall.noError
  · unfold streamYields
    rw [universalNewlines_of_notMem hreturn, hlines]
    exact hall.shown

def actionSource : SourceEntry → PlainText × SourceDetail :=
  fun _ => (⟨ascii "action", by decide, List.all_iff_forall_prop.mp (by decide)⟩, .none)

def recordOf (source : UInt8) : LogRecord := ⟨0, 0x1A2, source, 1, 2, ⟨#[1, 2, 0, 0, 0, 0, 0, 0], rfl⟩⟩

theorem written_file_read_sample : FileRead true
    (formatFile 512 7 5 (ascii "2026.1") actionSource (SourceTable.build [(1, .can, some (ascii "seg1"))])
      [(512, .record (recordOf 1) 9), (600, .text 12 3 (ascii "main") (ascii "a,b") false)])
    (givens (SourceTable.build [(1, .can, some (ascii "seg1"))])
      [(512, .record (recordOf 1) 9), (600, .text 12 3 (ascii "main") (ascii "a,b") false)]) := by
  refine written_file_read true 512 (by decide) 7 5 _ actionSource _ _ (by decide) ?_
  simp only [List.forall_mem_cons, List.not_mem_nil, false_imp_iff, implies_true, and_true]
  refine ⟨⟨by decide, trivial⟩, by decide, ?_⟩
  show (escapedText true (ascii "main")).length ≤ 488
  decide

/-- Two sources with one tag: the reader names the record after the later one. -/
def twiceDeclared : List (UInt8 × SourceKind × Option Str) :=
  [(1, .can, some (ascii "a")), (1, .lin, some (ascii "b"))]

/-- The tag of a log line that leaves no room for the message. -/
def longTag : Str := List.replicate 126 1

set_option maxRecDepth 8000 in
/-- What is read of a file is not what was given: with a tag declared twice, a log line's tag that
does not fit, and a clock statement with a source that is not of its basis. -/
theorem not_written_file_read :
    ¬ FileRead false
      (formatFile 512 7 5 [] actionSource (SourceTable.build twiceDeclared) [(512, .record (recordOf 1) 9)])
      (givens (SourceTable.build twiceDeclared) [(512, .record (recordOf 1) 9)]) ∧
    ¬ FileRead false
      (formatFile 512 7 5 [] actionSource [] [(512, .text 9 3 longTag [] false)])
      (givens [] [(512, .text 9 3 longTag [] false)]) ∧
    ¬ FileRead false
      (formatFile 512 7 5 [] actionSource [] [(512, .clock ⟨5, 9, .utc, .card, none⟩)])
      (givens [] [(512, .clock ⟨5, 9, .utc, .card, none⟩)]) := by
  refine ⟨fun h => ?_, fun h => ?_, fun h => ?_⟩
  · obtain ⟨-, -, hshown⟩ := h
    have hseen : (streamYields false (formatFile 512 7 5 [] actionSource
        (SourceTable.build twiceDeclared) [(512, .record (recordOf 1) 9)])).map
          (fun y => (y.1.label 1 (field y.2.fields 0), field y.2.fields 0)) =
        [(ascii "b", ascii "C1x")] := by decide
    generalize streamYields false (formatFile 512 7 5 [] actionSource
      (SourceTable.build twiceDeclared) [(512, .record (recordOf 1) 9)]) = ys at hshown hseen
    cases hshown with
    | cons hfirst hrest =>
      obtain ⟨-, -, -, ⟨tag, letters, hsplit, -, hlabel⟩, -⟩ := hfirst
      obtain ⟨hname, htoken⟩ := Prod.mk.inj (List.cons.inj hseen).1
      rw [htoken] at hsplit
      have htag : splitToken (ascii "C1x") = .ok (67, 1, ascii "x") := rfl
      rw [htag] at hsplit
      cases hsplit
      rw [hname] at hlabel
      exact absurd hlabel (by decide)
  · exact absurd h.1 (by decide)
  · exact absurd h.1 (by decide)

end EspCars.Sdlog
