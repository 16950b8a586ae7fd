import EspCars.SdLogger.TailLines
import Mathlib

/-!
# The clock floor under a seal

The torn scanner stamps the appended line, the clock scanner of the next boot reads that stamp.
Both take the newest stamp of some lines, but not of the same lines: the torn scanner counts what
the head of a line shows since the last header, before and after clock statements, the clock
scanner counts lines after the last statement that are no longer than a line may be and that are
no clock lines. The floor stays where it was unless a line that only the first one counts is newest.
-/

namespace EspCars.SdLogger

open EspCars.Lib TornTailScanner

/-! ## Which lines count -/

/-- What the torn scanner counts. -/
def countedStamps (ls : List (List UInt8)) : List UInt64 :=
  (ls.rtakeWhile (!isHeader ·)).filterMap TornTailScanner.headStamp

def isShortHeader (line : List UInt8) : Bool := isHeader line && line.length ≤ maxLine

/-- The lines of the last boot, by the clock scanner. -/
def clockRows (ls : List (List UInt8)) : List (List UInt8) := ls.rtakeWhile (!isShortHeader ·)

def isClockLine (line : List UInt8) : Bool := ascii "#clock," <+: line

def isUtcLine (line : List UInt8) : Bool := ascii "#utc," <+: line

/-- The clock statement of a line. -/
def statement (line : List UInt8) : Option ClockPoint :=
  if line.length > maxLine then none
  else if isClockLine line then parseClockLine line
  else if isUtcLine line then parseUtcLine line
  else none

/-- The stamp of a timed line that states no clock. -/
def timed (line : List UInt8) : Option UInt64 :=
  if line.length > maxLine ∨ isClockLine line ∨ isUtcLine line then none else parseMetaStamp line

def lastStatement (ls : List (List UInt8)) : Option ClockPoint :=
  ((clockRows ls).filterMap statement).getLast?

def timedAfter (ls : List (List UInt8)) : List UInt64 :=
  ((clockRows ls).rtakeWhile (statement · = none)).filterMap timed

/-- Every stamp that the torn scanner counts is matched by the last statement or a timed line after
it, or the projection is at the last time there is. -/
def FloorKept (ls : List (List UInt8)) : Prop :=
  ∀ p, lastStatement ls = some p →
    (∀ t ∈ countedStamps ls, ∃ t' ∈ p.tUs :: timedAfter ls, t ≤ t') ∨
      ∃ t' ∈ p.tUs :: timedAfter ls, p.utcUs.toNat + (t'.toNat - p.tUs.toNat) ≥ 2 ^ 64 - 1

/-! ## The newest stamp -/

def IsNewest (m : UInt64) (ts : List UInt64) : Prop := m ∈ ts ∧ ∀ t ∈ ts, t ≤ m

namespace IsNewest

theorem singleton (t : UInt64) : IsNewest t [t] := by
  refine ⟨List.mem_singleton_self t, ?_⟩
  intro u hu
  rw [List.mem_singleton.mp hu]
  exact UInt64.le_refl t

theorem concat {m : UInt64} {ts : List UInt64} (h : IsNewest m ts) (t : UInt64) :
    IsNewest (if t > m then t else m) (ts ++ [t]) := by
  obtain ⟨hmem, hle⟩ := h
  split_ifs with hnew
  · refine ⟨List.mem_append_right _ (List.mem_singleton_self t), ?_⟩
    intro u hu
    rcases List.mem_append.mp hu with hu | hu
    · exact UInt64.le_trans (hle u hu) (UInt64.le_of_lt hnew)
    · rw [List.mem_singleton.mp hu]
      exact UInt64.le_refl t
  · refine ⟨List.mem_append_left _ hmem, ?_⟩
    intro u hu
    rcases List.mem_append.mp hu with hu | hu
    · exact hle u hu
    · rw [List.mem_singleton.mp hu]
      exact UInt64.not_lt.mp hnew

/-- A newest stamp is below another one if every stamp is below some other. -/
theorem le_iff {m m' : UInt64} {ts ts' : List UInt64} (h : IsNewest m ts) (h' : IsNewest m' ts') :
    m ≤ m' ↔ ∀ t ∈ ts, ∃ t' ∈ ts', t ≤ t' := by
  constructor
  · intro hle t ht
    exact ⟨m', h'.1, UInt64.le_trans (h.2 t ht) hle⟩
  · intro hall
    obtain ⟨t', ht', hle⟩ := hall m h.1
    exact UInt64.le_trans hle (h'.2 t' ht')

end IsNewest

/-! ## What the torn scanner finds -/

variable (ls : List (List UInt8))

theorem countedStamps_concat (line : List UInt8) : countedStamps (ls ++ [line]) =
      if isHeader line then [] else countedStamps ls ++ (headStamp line).toList := by
  unfold countedStamps
  rw [List.rtakeWhile_concat]
  by_cases hheader : isHeader line = true
  · simp [hheader]
  · cases hstamp : headStamp line <;> simp [hheader, hstamp]

/-- The stamp that the torn scanner finds is the newest one it counts. -/
theorem foldl_tornLine :
    IsNewest (ls.foldl tornLine 0) (0 :: countedStamps ls) := by
  induction ls using List.reverseRecOn with
  | nil => exact IsNewest.singleton 0
  | append_singleton ls line ih =>
    rw [List.foldl_concat, countedStamps_concat, tornLine]
    split_ifs with hheader
    · exact IsNewest.singleton 0
    · cases headStamp line with
      | none => simpa [newest] using ih
      | some t => exact ih.concat t

/-! ## What the clock scanner finds -/

theorem parseBasis_ne_none {s : List UInt8} {basis : ClockBasis} (h : parseBasis s = some basis) :
    basis ≠ .none := by
  unfold parseBasis at h
  split_ifs at h <;> cases h <;> decide

variable {line : List UInt8} {p : ClockPoint}

theorem valid_of_parseClockLine (h : parseClockLine line = some p) : p.valid = true := by
  unfold parseClockLine at h
  split at h
  · simp only [Option.bind_eq_bind, Option.bind_eq_some_iff] at h
    obtain ⟨_, _, _, _, _, _, basis, hbasis, src, _, h⟩ := h
    have hne := parseBasis_ne_none hbasis
    have hpoint : p.basis = basis := by
      split at h
      · split_ifs at h
        cases h
        rfl
      · split_ifs at h
        obtain ⟨detail, _, h⟩ := Option.bind_eq_some_iff.mp h
        cases h
        rfl
    simp [ClockPoint.valid, hpoint, hne]
  · cases h

theorem valid_of_parseUtcLine (h : parseUtcLine line = some p) : p.valid = true := by
  unfold parseUtcLine at h
  split at h
  · simp only [Option.bind_eq_bind, Option.bind_eq_some_iff] at h
    obtain ⟨_, _, _, _, _, _, h⟩ := h
    cases h
    rfl
  · cases h

theorem valid_of_statement (h : statement line = some p) : p.valid = true := by
  unfold statement at h
  split_ifs at h
  · exact valid_of_parseClockLine h
  · exact valid_of_parseUtcLine h

namespace ClockTailScanner

variable (st : ClockPoint × UInt64) {line : List UInt8}

theorem isMeta_of_prefix {p line : List UInt8} (hp : isMeta p = true) (h : p <+: line) :
    isMeta line = true := by
  obtain ⟨rest, rfl⟩ := h
  cases p with
  | nil => cases hp
  | cons c p => exact hp

theorem clockLine_header (h : isShortHeader line = true) : clockLine st line = ({}, 0) := by
  rw [isShortHeader, Bool.and_eq_true, decide_eq_true_eq] at h
  obtain ⟨hheader, hlen⟩ := h
  have hmeta : isMeta line = true := by
    rw [isHeader, decide_eq_true_eq] at hheader
    exact isMeta_of_prefix (by decide) hheader
  rw [clockLine, if_neg (by simp [hmeta, hlen]), if_pos hheader]

theorem not_isHeader_of_prefix {p line : List UInt8} (hp : ¬ p <+: ascii "#sdlog,")
    (hlen : p.length ≤ 7) (h : p <+: line) : isHeader line = false := by
  rw [isHeader, decide_eq_false_iff_not]
  intro hheader
  exact hp (List.prefix_of_prefix_length_le h hheader hlen)

theorem clockLine_statement {p : ClockPoint} (h : statement line = some p) :
    clockLine st line = (p, p.tUs) := by
  unfold statement isClockLine isUtcLine at h
  simp only [decide_eq_true_eq] at h
  split_ifs at h with hlen hclock hutc
  · have hmeta : isMeta line = true := isMeta_of_prefix (by decide) hclock
    have hheader := not_isHeader_of_prefix (by decide) (by decide) hclock
    rw [clockLine, if_neg (by simp [hmeta, hlen]), hheader, if_neg Bool.false_ne_true,
      if_pos (Or.inl hclock), if_pos hclock, h]
  · have hmeta : isMeta line = true := isMeta_of_prefix (by decide) hutc
    have hheader := not_isHeader_of_prefix (by decide) (by decide) hutc
    rw [clockLine, if_neg (by simp [hmeta, hlen]), hheader, if_neg Bool.false_ne_true,
      if_pos (Or.inr hutc), if_neg hclock, h]

/-- A line that is no header and states no clock. -/
theorem clockLine_other (hheader : isShortHeader line = false) (hnone : statement line = none) :
    clockLine st line =
      match timed line with
      | some t => if st.1.valid ∧ t > st.2 then (st.1, t) else st
      | none => st := by
  by_cases hlen : line.length > maxLine
  · rw [clockLine, if_pos (Or.inl hlen), timed, if_pos (Or.inl hlen)]
  · by_cases hmeta : isMeta line = true
    · have hnot : isHeader line = false := by
        have hshort : line.length ≤ maxLine := Nat.not_lt.mp hlen
        simpa [isShortHeader, hshort] using hheader
      unfold statement isClockLine isUtcLine at hnone
      unfold timed isClockLine isUtcLine
      rw [clockLine, if_neg (by simp [hmeta, hlen]), hnot, if_neg Bool.false_ne_true]
      simp only [decide_eq_true_eq, hlen, if_false, false_or] at hnone ⊢
      by_cases hclock : ascii "#clock," <+: line
      · rw [if_pos hclock] at hnone
        rw [if_pos (Or.inl hclock), if_pos (Or.inl hclock), if_pos hclock, hnone]
      · rw [if_neg hclock] at hnone
        by_cases hutc : ascii "#utc," <+: line
        · rw [if_pos hutc] at hnone
          rw [if_pos (Or.inr hutc), if_pos (Or.inr hutc), if_neg hclock, hnone]
        · cases parseMetaStamp line <;> simp [hclock, hutc]
    · have htimed : timed line = none := by
        rw [timed, parseMetaStamp]
        simp [hmeta]
      rw [clockLine, if_pos (Or.inr (by simp [hmeta])), htimed]

end ClockTailScanner

/-! ## One line more -/

theorem lastStatement_concat (line : List UInt8) : lastStatement (ls ++ [line]) =
      if isShortHeader line then none else (statement line).or (lastStatement ls) := by
  unfold lastStatement clockRows
  rw [List.rtakeWhile_concat]
  by_cases hheader : isShortHeader line = true
  · simp [hheader]
  · cases hline : statement line <;> simp [hheader, hline]

theorem timedAfter_concat (line : List UInt8) : timedAfter (ls ++ [line]) =
      if isShortHeader line ∨ statement line ≠ none then [] else timedAfter ls ++ (timed line).toList := by
  unfold timedAfter clockRows
  rw [List.rtakeWhile_concat]
  by_cases hheader : isShortHeader line = true
  · simp [hheader]
  · cases hline : statement line with
    | some p => simp [hheader, hline]
    | none => cases htimed : timed line <;> simp [hheader, hline, htimed]

/-- Without a statement the clock scanner has nothing, else it has the last statement and the
newest stamp from there on. -/
theorem foldl_clockLine : match lastStatement ls with
    | none => ls.foldl ClockTailScanner.clockLine ({}, 0) = ({}, 0)
    | some p => p.valid = true ∧ ∃ m, ls.foldl ClockTailScanner.clockLine ({}, 0) = (p, m) ∧
        IsNewest m (p.tUs :: timedAfter ls) := by
  induction ls using List.reverseRecOn with
  | nil => rfl
  | append_singleton ls line ih =>
    rw [List.foldl_concat, lastStatement_concat, timedAfter_concat]
    by_cases hheader : isShortHeader line = true
    · rw [if_pos hheader]
      exact ClockTailScanner.clockLine_header _ hheader
    · rw [if_neg hheader]
      cases hline : statement line with
      | some p =>
        rw [if_pos (Or.inr (Option.some_ne_none p)), ClockTailScanner.clockLine_statement _ hline]
        exact ⟨valid_of_statement hline, p.tUs, rfl, IsNewest.singleton p.tUs⟩
      | none =>
        rw [if_neg (by simp [hheader]), Option.none_or,
          ClockTailScanner.clockLine_other _ (by simpa using hheader) hline]
        cases hlast : lastStatement ls with
        | none =>
          rw [hlast] at ih
          dsimp only at ih ⊢
          rw [ih]
          cases timed line <;> rfl
        | some p =>
          rw [hlast] at ih
          obtain ⟨hvalid, m, hfold, hnewest⟩ := ih
          refine ⟨hvalid, ?_⟩
          rw [hfold]
          cases timed line with
          | none => exact ⟨m, rfl, by simpa using hnewest⟩
          | some t =>
            refine ⟨if t > m then t else m, ?_, hnewest.concat t⟩
            by_cases hnew : t > m <;> simp [hvalid, hnew]

/-! ## Projection -/

theorem toNat_project (p : ClockPoint) {t : UInt64} (h : p.tUs ≤ t) :
    (p.project t).toNat = min (p.utcUs.toNat + (t.toNat - p.tUs.toNat)) (2 ^ 64 - 1) := by
  have hsub : (t - p.tUs).toNat = t.toNat - p.tUs.toNat := UInt64.toNat_sub_of_le _ _ h
  have hmax : (0xFFFFFFFFFFFFFFFF : UInt64).toNat = 2 ^ 64 - 1 := rfl
  have hlt := p.utcUs.toNat_lt
  have hroom : (0xFFFFFFFFFFFFFFFF - p.utcUs : UInt64).toNat = 2 ^ 64 - 1 - p.utcUs.toNat := by
    rw [UInt64.toNat_sub_of_le _ _ (UInt64.le_iff_toNat_le.mpr (by omega)), hmax]
  rw [ClockPoint.project, if_pos h]
  dsimp only
  split_ifs with hover
  · have hover' := UInt64.lt_iff_toNat_lt.mp hover
    rw [hroom, hsub] at hover'
    rw [hmax]
    omega
  · have hover' := UInt64.le_iff_toNat_le.mp (UInt64.not_lt.mp hover)
    rw [hroom, hsub] at hover'
    rw [UInt64.toNat_add, hsub]
    omega

/-- A later stamp projects to the same time where the first projection is the last time there is. -/
theorem project_eq_iff (p : ClockPoint) {t t' : UInt64} (h : p.tUs ≤ t) (hlt : t < t') :
    p.project t' = p.project t ↔ p.utcUs.toNat + (t.toNat - p.tUs.toNat) ≥ 2 ^ 64 - 1 := by
  have hle := UInt64.le_iff_toNat_le.mp h
  have hlt' := UInt64.lt_iff_toNat_lt.mp hlt
  rw [← UInt64.toNat_inj, toNat_project p h,
    toNat_project p (UInt64.le_trans h (UInt64.le_of_lt hlt))]
  omega

/-! ## The sealed file -/

/-- What is known of a torn window is whole lines and a rest that the seal cuts off. -/
theorem exists_kept_of_torn {start : Nat} {text : List UInt8}
    (htorn : (text.foldl feed (init start)).kind = .torn) :
    ∃ kept rest, text = kept ++ rest ∧ unfinished newline kept = [] ∧ newline ∉ rest ∧
      (text.foldl feed (init start)).cutAt = start + kept.length ∧
      (start > 0 → lines newline kept ≠ []) := by
  by_cases hnone : lines newline text = []
  · have hfree : newline ∉ text := notMem_of_lines_nil hnone
    obtain ⟨hkind, hcut⟩ := scan_unfinished start hfree
    have hstart : start = 0 := by
      by_contra hne
      rw [hkind, if_neg hne] at htorn
      cases htorn
    refine ⟨[], text, rfl, rfl, hfree, ?_, ?_⟩
    · rw [hcut, hstart]
      rfl
    · intro hpos
      omega
  · obtain ⟨front, line, rest, rfl, hfront, hline, hrest, _⟩ := exists_last_line hnone
    obtain ⟨_, hcut⟩ := scan_of_last start hfront hline hrest
    obtain ⟨hlines, hcomplete⟩ := lines_concat hfront hline
    refine ⟨front ++ (line ++ [newline]), rest, by simp, hcomplete, hrest, ?_, ?_⟩
    · rw [hcut, List.length_append, List.length_append, List.length_singleton]
      omega
    · intro _
      rw [hlines]
      simp

/-- The clock that a boot finds reading from an offset on. -/
def clockEnd (start : Nat) (file : List UInt8) : Option ClockPoint :=
  ((file.drop start).foldl ClockTailScanner.feed (ClockTailScanner.init (start > 0))).end_

/-- The seal adds one line to those that the clock scanner knows. -/
theorem knownLines_sealed {window : Nat} {file : List UInt8}
    (htorn : (scanTail window file).kind = .torn) :
    let start := file.length - window
    knownLines (start > 0) ((sealedFile window file).drop start) =
      knownLines (start > 0) (file.drop start) ++ [closeBody (scanTail window file).stamp] := by
  intro start
  have hscan : scanTail window file =
      (file.drop start).foldl feed (init start) := rfl
  obtain ⟨kept, rest, htext, hkept, hrest, hcut, hne⟩ := exists_kept_of_torn (hscan ▸ htorn)
  rw [← hscan] at hcut
  have hlen : (file.take start).length = start := List.length_take_of_le (Nat.sub_le _ _)
  have hfile : file = file.take start ++ kept ++ rest := by
    rw [List.append_assoc, ← htext, List.take_append_drop]
  have hsealed : sealedFile window file =
      file.take start ++ (kept ++ closeLine (scanTail window file).stamp) := by
    have hcut' : (scanTail window file).cutAt = (file.take start ++ kept).length := by
      rw [hcut, List.length_append, hlen]
    have hboot := boot_working (hfile ▸ htorn) (hfile ▸ hcut')
    rw [← hfile] at hboot
    rw [sealedFile, hboot, List.append_assoc]
  have hlines : lines newline (kept ++ closeLine (scanTail window file).stamp) =
      lines newline kept ++ [closeBody (scanTail window file).stamp] :=
    (lines_concat hkept (newline_notMem_closeBody _)).1
  have hlines' : lines newline (kept ++ rest) = lines newline kept := by
    rw [(lines_append_of_complete hkept _).1, lines_of_notMem hrest, List.append_nil]
  rw [hsealed, htext, List.drop_append_of_le_length (Nat.le_of_eq hlen.symm),
    List.drop_of_length_le (Nat.le_of_eq hlen), List.nil_append, knownLines, knownLines, hlines, hlines']
  by_cases hpos : start > 0
  · simp only [hpos, decide_true, if_true]
    exact List.tail_append_of_ne_nil (hne hpos)
  · simp only [hpos, decide_false, Bool.false_eq_true, if_false]

/-- Sealing a torn file leaves the clock floor where it was exactly if nothing that only the torn
scanner counts is newest. -/
theorem floor_kept_iff {window : Nat} {file : List UInt8}
    (htorn : (scanTail window file).kind = .torn) :
    let start := file.length - window
    (clockEnd start (sealedFile window file)).map (·.utcUs) =
        (clockEnd start file).map (·.utcUs) ↔
      FloorKept (knownLines (start > 0) (file.drop start)) := by
  intro start
  have hstamp : (scanTail window file).stamp =
      (knownLines (start > 0) (file.drop start)).foldl TornTailScanner.tornLine 0 :=
    TornTailScanner.stamp_eq start (file.drop start)
  rw [clockEnd, clockEnd, ClockTailScanner.end_eq, ClockTailScanner.end_eq, knownLines_sealed htorn,
    hstamp]
  generalize knownLines (start > 0) (file.drop start) = ls
  have htorn' := foldl_tornLine ls
  have hclock := foldl_clockLine ls
  generalize ls.foldl TornTailScanner.tornLine 0 = stamp at *
  rw [List.foldl_concat, clockLine_closeBody, FloorKept]
  cases hlast : lastStatement ls with
  | none =>
    rw [hlast] at hclock
    dsimp only at hclock
    rw [hclock]
    simp [ClockPoint.valid]
  | some p =>
    rw [hlast] at hclock
    obtain ⟨hvalid, m, hfold, hnewest⟩ := hclock
    have hfrom : p.tUs ≤ m := hnewest.2 p.tUs (List.mem_cons_self ..)
    have hcounted : stamp ≤ m ↔ ∀ t ∈ countedStamps ls, ∃ t' ∈ p.tUs :: timedAfter ls, t ≤ t' := by
      rw [htorn'.le_iff hnewest]
      constructor
      · intro hall t ht
        exact hall t (List.mem_cons_of_mem _ ht)
      · intro hall t ht
        rcases List.mem_cons.mp ht with rfl | ht
        · exact ⟨p.tUs, List.mem_cons_self .., UInt64.le_iff_toNat_le.mpr (Nat.zero_le _)⟩
        · exact hall t ht
    have hlast : p.utcUs.toNat + (m.toNat - p.tUs.toNat) ≥ 2 ^ 64 - 1 ↔
        ∃ t' ∈ p.tUs :: timedAfter ls, p.utcUs.toNat + (t'.toNat - p.tUs.toNat) ≥ 2 ^ 64 - 1 := by
      constructor
      · intro h
        exact ⟨m, hnewest.1, h⟩
      · rintro ⟨t', ht', h⟩
        have hle := UInt64.le_iff_toNat_le.mp (hnewest.2 t' ht')
        omega
    have hend : ∀ p', some p = some p' ↔ p' = p := by
      intro p'
      rw [Option.some.injEq, eq_comm]
    rw [hfold]
    simp only [hend, forall_eq]
    rw [← hcounted, ← hlast]
    by_cases hnew : stamp > m
    · simp only [hvalid, hnew, and_self, if_true, Option.map_some, ClockPoint.restate,
        Option.some.injEq]
      rw [project_eq_iff p hfrom hnew]
      exact (or_iff_right (UInt64.not_le.mpr hnew)).symm
    · simp [hvalid, hnew, UInt64.not_lt.mp hnew]

theorem floor_kept_sample :
    let file := ascii "#clock,@10,5F5E100,utc,sync\n#drop,@20,ring,1,1\nC0"
    (scanTail tailWindow file).kind = .torn ∧ FloorKept (knownLines false file) := by
  intro file
  have htorn : (scanTail tailWindow file).kind = .torn := by decide +kernel
  have hsame : (clockEnd 0 (sealedFile tailWindow file)).map (·.utcUs) =
      (clockEnd 0 file).map (·.utcUs) := by decide +kernel
  have hstart : file.length - tailWindow = 0 := by decide
  have hiff := @floor_kept_iff tailWindow file htorn
  dsimp only at hiff
  rw [hstart, List.drop_zero] at hiff
  exact ⟨htorn, hiff.mp hsame⟩

/-- The stamp of a clock line that does not parse is counted by the torn scanner only. -/
theorem floor_moved :
    let file := ascii "#clock,@10,5F5E100,utc,sync\n#clock,@FFFF,0,utc,garbled\nC0"
    (scanTail tailWindow file).kind = .torn ∧
      (clockEnd 0 file).map (·.utcUs) = some 100000000 ∧
      (clockEnd 0 (sealedFile tailWindow file)).map (·.utcUs) = some 100065519 := by
  decide +kernel

end EspCars.SdLogger
