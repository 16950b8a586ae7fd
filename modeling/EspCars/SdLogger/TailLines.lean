import EspCars.SdLogger.TornSeal

/-!
# The tail scanners read lines

Both tail scanners work byte by byte and keep the start of a line only. Over whole lines they are
simple: a window that starts mid-file does not know its first line, and of a line they know only
`tornLine` and `clockLine` matter.
-/

namespace EspCars.SdLogger

open EspCars.Lib LineWriter

/-- The lines whose start is inside the window. -/
def knownLines (mid : Bool) (text : List UInt8) : List (List UInt8) :=
  if mid then (lines newline text).tail else lines newline text

def isHeader (line : List UInt8) : Bool := ascii "#sdlog," <+: line

def isClose (line : List UInt8) : Bool := ascii "#close," <+: line

/-! ## The torn scanner -/

namespace TornTailScanner

/-- The stamp that the head of the line shows. -/
def headStamp (line : List UInt8) : Option UInt64 :=
  if wholeStamp (line.take headSize) (line.length > headSize) then parseMetaStamp (line.take headSize)
  else none

def tornLine (stamp : UInt64) (line : List UInt8) : UInt64 :=
  if isHeader line then 0 else newest stamp (headStamp line)

def partway (s : TornTailScanner) (line : List UInt8) : TornTailScanner :=
  if s.skipping then { s with pos := s.pos + line.length }
  else
    { s with
      head := line.take headSize
      len := line.length
      overlong := line.length > headSize
      pos := s.pos + line.length }

def atLine (s : TornTailScanner) (line : List UInt8) : TornTailScanner :=
  let s := s.partway line
  { s with pos := s.pos + 1 }.endLine

variable (s : TornTailScanner)

theorem feed_partway (line : List UInt8) (c : UInt8) (hc : c ≠ newline) :
    (s.partway line).feed c = s.partway (line ++ [c]) := by
  unfold partway feed
  rw [if_neg hc]
  by_cases hskip : s.skipping = true
  · simp [hskip, Nat.add_assoc]
  · by_cases hlen : line.length < headSize
    · have htake : line.take headSize = line := List.take_of_length_le (Nat.le_of_lt hlen)
      have htake' : (line ++ [c]).take headSize = line ++ [c] := by
        apply List.take_of_length_le
        rw [List.length_append, List.length_singleton]
        exact hlen
      simp only [hskip, hlen, htake, htake', Bool.false_eq_true, if_false, if_true,
        List.length_append, List.length_singleton, Nat.add_assoc]
      congr 1
      simp only [gt_iff_lt, decide_eq_decide]
      omega
    · have htake : (line ++ [c]).take headSize = line.take headSize :=
        List.take_append_of_le_length (Nat.le_of_not_lt hlen)
      simp only [hskip, hlen, htake, Bool.false_eq_true, if_false, List.length_append,
        List.length_singleton, Nat.add_assoc]
      congr 1
      symm
      simp only [gt_iff_lt, decide_eq_true_eq]
      omega

theorem feed_newline (line : List UInt8) :
    (s.partway line).feed newline = (s.atLine line).partway [] := by
  have hfresh : ∀ s : TornTailScanner, s.endLine.partway [] = s.endLine := by
    intro s
    by_cases h : s.skipping = true
    · simp [endLine, partway, resetLine, h]
    · simp [endLine, partway, resetLine, h]
  rw [feed, if_pos rfl, atLine, hfresh]

/-- A window is read line by line. -/
theorem feed_eq (start : Nat) (text : List UInt8) :
    text.foldl feed (init start) =
      ((lines newline text).foldl atLine (init start)).partway (unfinished newline text) := by
  have hinit : (init start).partway [] = init start := by
    unfold partway
    split_ifs <;> rfl
  rw [← foldl_lines feed_partway feed_newline, hinit]

theorem prefix_head {p line : List UInt8} (h : p.length ≤ headSize) :
    p <+: line.take headSize ↔ p <+: line := by
  rw [List.prefix_take_iff]
  exact ⟨fun hp => hp.1, fun hp => ⟨hp, h⟩⟩

/-- The partial first line of a mid-file window. -/
theorem atLine_skipped {s : TornTailScanner} (h : s.skipping = true) (line : List UInt8) :
    s.atLine line = { s with
      head := [], len := 0, overlong := false, pos := s.pos + line.length + 1, haveNl := true
      cut := s.pos + line.length + 1, skipping := false, lastKnown := false } := by
  simp [atLine, partway, endLine, resetLine, h]

theorem atLine_known {s : TornTailScanner} (h : s.skipping = false) (line : List UInt8) :
    s.atLine line = { s with
      head := [], len := 0, overlong := false, pos := s.pos + line.length + 1, haveNl := true
      cut := s.pos + line.length + 1, lastKnown := true, lastClosed := isClose line
      stamp := tornLine s.stamp line } := by
  have hclose : (ascii "#close," <+: line.take headSize) ↔ ascii "#close," <+: line :=
    prefix_head (by decide)
  have hheader : (ascii "#sdlog," <+: line.take headSize) ↔ ascii "#sdlog," <+: line :=
    prefix_head (by decide)
  have hstamp : (if isMeta (line.take headSize) = true then
      newest s.stamp (if wholeStamp (line.take headSize) (decide (line.length > headSize)) = true then
        parseMetaStamp (line.take headSize) else none)
      else s.stamp) = newest s.stamp (headStamp line) := by
    unfold headStamp
    by_cases hm : isMeta (line.take headSize) = true
    · rw [if_pos hm]
    · have hnone : parseMetaStamp (line.take headSize) = none := by
        simp [parseMetaStamp, hm]
      rw [if_neg hm, hnone, ite_self]
      rfl
  simp only [atLine, partway, h, Bool.false_eq_true, if_false, endLine, resetLine, hclose, hheader,
    hstamp, isClose, tornLine, isHeader, decide_eq_true_eq]

theorem skipping_atLine (line : List UInt8) : (s.atLine line).skipping = false := by
  cases h : s.skipping with
  | true => rw [atLine_skipped h]
  | false => rw [atLine_known h]; exact h

/-- What a run over lines leaves, the last line aside. -/
theorem foldl_atLine (ls : List (List UInt8)) :
    (ls.foldl atLine s).skipping = (s.skipping && ls.isEmpty) ∧
    (ls.foldl atLine s).stamp = (if s.skipping then ls.tail else ls).foldl tornLine s.stamp ∧
    (ls.foldl atLine s).pos = s.pos + (ls.map (·.length + 1)).sum ∧
    (ls.foldl atLine s).readFailed = s.readFailed ∧
    (ls.foldl atLine s).windowStart = s.windowStart := by
  induction ls generalizing s with
  | nil => simp
  | cons line ls ih =>
    obtain ⟨hskip, hstamp, hpos, hread, hstart⟩ := ih (s.atLine line)
    rw [List.foldl_cons, hskip, hstamp, hpos, hread, hstart, skipping_atLine]
    cases h : s.skipping with
    | true =>
      rw [atLine_skipped h]
      simp [Nat.add_assoc]
    | false =>
      rw [atLine_known h]
      simp [Nat.add_assoc]

/-- A stream line shows no stamp. -/
theorem tornLine_of_not_meta (stamp : UInt64) {line : List UInt8} (h : isMeta line = false) :
    tornLine stamp line = stamp := by
  have hhead : isMeta (line.take headSize) = false := by
    cases line with
    | nil => rfl
    | cons c line => exact h
  have hheader : isHeader line = false := by
    rw [isHeader, decide_eq_false_iff_not]
    rintro ⟨rest, rfl⟩
    cases h
  have hnone : headStamp line = none := by
    rw [headStamp, parseMetaStamp, hhead]
    simp
  rw [tornLine, hheader, hnone]
  rfl

theorem sum_length_eq {front : List UInt8} (h : unfinished newline front = []) :
    ((lines newline front).map (·.length + 1)).sum = front.length := by
  induction front using text_induction newline with
  | hrest rest hfree =>
    rw [unfinished_of_notMem hfree] at h
    rw [lines_of_notMem hfree, h]
    rfl
  | hline line text hfree ih =>
    rw [unfinished_append hfree] at h
    rw [lines_append hfree, List.map_cons, List.sum_cons, ih h, List.length_append, List.length_cons]
    omega

theorem verdict_partway (rest : List UInt8) :
    (s.partway rest).kind = s.kind ∧ (s.partway rest).cutAt = s.cutAt ∧
      (s.partway rest).stamp = s.stamp := by
  unfold partway
  split_ifs <;> exact ⟨rfl, rfl, rfl⟩

/-- The stamp that a scan finds, by the lines it knows. -/
theorem stamp_eq (start : Nat) (text : List UInt8) :
    (text.foldl feed (init start)).stamp = (knownLines (start > 0) text).foldl tornLine 0 := by
  obtain ⟨_, hstamp, _⟩ := foldl_atLine (init start) (lines newline text)
  rw [feed_eq, (verdict_partway _ _).2.2, hstamp]
  rfl

/-- A window without a newline. -/
theorem scan_unfinished (start : Nat) {text : List UInt8} (h : newline ∉ text) :
    (text.foldl feed (init start)).kind = (if start = 0 then .torn else .noCut) ∧
    (text.foldl feed (init start)).cutAt = 0 := by
  rw [feed_eq, lines_of_notMem h, List.foldl_nil]
  obtain ⟨hkind, hcut, _⟩ := verdict_partway (init start) (unfinished newline text)
  rw [hkind, hcut]
  exact ⟨by simp [kind, init], rfl⟩

/-- A window with a last complete line: how it ends, and where the line ends. -/
theorem scan_of_last (start : Nat) {front line rest : List UInt8}
    (hfront : unfinished newline front = []) (hline : newline ∉ line) (hrest : newline ∉ rest) :
    let s := (front ++ (line ++ newline :: rest)).foldl feed (init start)
    s.kind = (if start > 0 ∧ lines newline front = [] then .noCut
      else if isClose line then .closed else .torn) ∧
    s.cutAt = start + front.length + line.length + 1 := by
  have hlines : lines newline (front ++ (line ++ newline :: rest)) = lines newline front ++ [line] := by
    rw [(lines_append_of_complete hfront _).1, lines_append hline, lines_of_notMem hrest]
  have hunfinished : unfinished newline (front ++ (line ++ newline :: rest)) = rest := by
    rw [(lines_append_of_complete hfront _).2, unfinished_append hline,
      unfinished_of_notMem hrest]
  obtain ⟨hskip, _, hpos, hread, _⟩ := foldl_atLine (init start) (lines newline front)
  rw [sum_length_eq hfront] at hpos
  intro s
  have hs : s = (((lines newline front).foldl atLine (init start)).atLine line).partway rest := by
    change List.foldl _ _ _ = _
    rw [feed_eq, hlines, hunfinished, List.foldl_append, List.foldl_cons, List.foldl_nil]
  generalize (lines newline front).foldl atLine (init start) = s' at *
  replace hskip : s'.skipping = (decide (start > 0) && (lines newline front).isEmpty) := hskip
  replace hpos : s'.pos = start + front.length := hpos
  replace hread : s'.readFailed = false := hread
  obtain ⟨hkind, hcut, _⟩ := verdict_partway (s'.atLine line) rest
  rw [hs, hkind, hcut]
  cases hb : s'.skipping with
  | true =>
    rw [hb, eq_comm, Bool.and_eq_true, decide_eq_true_eq, List.isEmpty_iff] at hskip
    rw [atLine_skipped hb, if_pos hskip]
    constructor
    · simp [kind, hread]
    · simp [cutAt, hpos]
  | false =>
    have hnot : ¬ (start > 0 ∧ lines newline front = []) := by
      rw [hb, eq_comm, Bool.and_eq_false_iff] at hskip
      simpa [List.isEmpty_iff, imp_iff_not_or] using hskip
    rw [atLine_known hb, if_neg hnot]
    constructor
    · simp [kind, hread]
    · simp [cutAt, hpos]

end TornTailScanner

/-! ## The clock scanner -/

namespace ClockTailScanner

/-- What a line does to the clock and the newest stamp after it. -/
def clockLine (st : ClockPoint × UInt64) (line : List UInt8) : ClockPoint × UInt64 :=
  if line.length > maxLine ∨ !isMeta line then st
  else if isHeader line then ({}, 0)
  else if ascii "#clock," <+: line ∨ ascii "#utc," <+: line then
    match (if ascii "#clock," <+: line then parseClockLine line else parseUtcLine line) with
    | some p => (p, p.tUs)
    | none => st
  else
    match parseMetaStamp line with
    | some t => if st.1.valid ∧ t > st.2 then (st.1, t) else st
    | none => st

def partway (c : ClockTailScanner) (line : List UInt8) : ClockTailScanner :=
  if c.skipping then c
  else { c with buf := line.take maxLine, overlong := line.length > maxLine }

def atLine (c : ClockTailScanner) (line : List UInt8) : ClockTailScanner :=
  let st := if c.skipping then (c.clock, c.maxT) else clockLine (c.clock, c.maxT) line
  { buf := [], skipping := false, overlong := false, clock := st.1, maxT := st.2 }

theorem feed_partway (c : ClockTailScanner) (line : List UInt8) (b : UInt8) (hb : b ≠ newline) :
    (c.partway line).feed b = c.partway (line ++ [b]) := by
  unfold partway feed
  rw [if_neg hb]
  by_cases hskip : c.skipping = true
  · simp [hskip]
  · by_cases hlong : line.length > maxLine
    · have htake : (line ++ [b]).take maxLine = line.take maxLine :=
        List.take_append_of_le_length (Nat.le_of_lt hlong)
      have hlong' : line.length + 1 > maxLine := Nat.lt_succ_of_lt hlong
      simp [hskip, hlong, hlong', htake]
    · by_cases hfull : line.length = maxLine
      · have htake : (line ++ [b]).take maxLine = line.take maxLine :=
          List.take_append_of_le_length (Nat.le_of_eq hfull.symm)
        simp [hskip, hfull, htake]
      · have htake : line.take maxLine = line := List.take_of_length_le (by omega)
        have htake' : (line ++ [b]).take maxLine = line ++ [b] := by
          apply List.take_of_length_le
          rw [List.length_append, List.length_singleton]
          omega
        have hshort : ¬ line.length + 1 > maxLine := by omega
        simp [hskip, hlong, hfull, htake, htake', hshort]

theorem line_eq (c : ClockTailScanner) {line : List UInt8} (h : ¬ line.length > maxLine) :
    c.line line = { c with
      clock := (clockLine (c.clock, c.maxT) line).1, maxT := (clockLine (c.clock, c.maxT) line).2 } := by
  unfold ClockTailScanner.line clockLine isHeader
  simp only [h, false_or, decide_eq_true_eq]
  split_ifs
  · rfl
  · rfl
  · cases parseClockLine line <;> rfl
  · cases parseUtcLine line <;> rfl
  · cases parseMetaStamp line with
    | none => rfl
    | some t =>
      dsimp only
      split_ifs <;> rfl

theorem feed_newline (c : ClockTailScanner) (line : List UInt8) :
    (c.partway line).feed newline = (c.atLine line).partway [] := by
  have hfresh : (c.atLine line).partway [] = c.atLine line := rfl
  rw [hfresh, feed, if_pos rfl]
  by_cases hskip : c.skipping = true
  · simp [partway, atLine, hskip]
  · by_cases hlong : line.length > maxLine
    · simp [partway, atLine, hskip, hlong, clockLine]
    · have htake : line.take maxLine = line := List.take_of_length_le (by omega)
      have hline := line_eq { c with buf := line, skipping := false, overlong := false } hlong
      simp [partway, atLine, hskip, hlong, htake, hline]

theorem feed_eq (mid : Bool) (text : List UInt8) :
    text.foldl feed (init mid) =
      ((lines newline text).foldl atLine (init mid)).partway (unfinished newline text) := by
  have hinit : (init mid).partway [] = init mid := by cases mid <;> rfl
  rw [← foldl_lines feed_partway feed_newline, hinit]

theorem foldl_atLine (c : ClockTailScanner) (ls : List (List UInt8)) :
    ((ls.foldl atLine c).clock, (ls.foldl atLine c).maxT) =
      (if c.skipping then ls.tail else ls).foldl clockLine (c.clock, c.maxT) := by
  induction ls generalizing c with
  | nil => cases c.skipping <;> rfl
  | cons line ls ih =>
    rw [List.foldl_cons, ih]
    cases hskip : c.skipping with
    | true => simp [atLine, hskip]
    | false => simp [atLine, hskip]

/-- The clock scanner's answer, by the lines it knows. -/
theorem end_eq (mid : Bool) (text : List UInt8) :
    (text.foldl feed (init mid)).end_ =
      let st := (knownLines mid text).foldl clockLine ({}, 0)
      if st.1.valid then some (st.1.restate st.2) else none := by
  have hfold := foldl_atLine (init mid) (lines newline text)
  have hstart : (if (init mid).skipping then (lines newline text).tail else lines newline text) =
      knownLines mid text := rfl
  rw [hstart] at hfold
  have hfields : ∀ (c : ClockTailScanner) (rest : List UInt8),
      (c.partway rest).clock = c.clock ∧ (c.partway rest).maxT = c.maxT := by
    intro c rest
    unfold partway
    split_ifs <;> exact ⟨rfl, rfl⟩
  obtain ⟨hclock, hmax⟩ := hfields ((lines newline text).foldl atLine (init mid))
    (unfinished newline text)
  have hinit : ((init mid).clock, (init mid).maxT) = (({}, 0) : ClockPoint × UInt64) := rfl
  rw [hinit] at hfold
  rw [feed_eq, end_, hclock, hmax, ← hfold]
  dsimp only
  split_ifs with h1 h2 h2 <;> first | rfl | simp_all

end ClockTailScanner

/-! ## The appended line -/

/-- What `formatRecoveredClose` puts before the newline. -/
def closeBody (t : UInt64) : List UInt8 :=
  ascii "#close," ++ (LineWriter.stampText true t ++ 44 :: closeRecovered)

variable (t : UInt64)

theorem length_closeBody_le : (closeBody t).length ≤ 34 := by
  have hstamp := length_stampText_le true t
  have hclose : (ascii "#close,").length = 7 := by decide
  have hrecovered : (44 :: closeRecovered).length = 10 := by decide
  rw [closeBody, List.length_append, List.length_append, hclose, hrecovered]
  omega

theorem formatRecoveredClose_eq :
    formatRecoveredClose sealLineMax t = closeBody t ++ [newline] := by
  have hlimit : (ofRoom sealLineMax).limit = 62 := by decide
  have hempty : (ofRoom sealLineMax).buf = [] := rfl
  have hfits := length_closeBody_le t
  have hraw : (((ofRoom sealLineMax).raw (ascii "#close,")).stamp true t).comma.raw
      closeRecovered = (ofRoom sealLineMax).raw (closeBody t) := by
    rw [stamp_eq_raw, comma_eq_raw, ← raw_append,
      ← raw_append, ← raw_append, closeBody]
    simp
  have hroom : ¬ sealLineMax < minRoom := by decide
  rw [formatRecoveredClose, formatClose, if_neg hroom]
  dsimp only
  rw [hraw, raw_of_fits (by rw [hlimit, hempty, List.length_nil]; omega),
    finish, hempty]
  exact congrArg (· ++ [newline]) (List.append_nil _)

theorem newline_notMem_closeBody : newline ∉ closeBody t := by
  have hstamp : newline ∉ stampText true t :=
    notMem_stampText (by decide) (by decide) true t
  rw [closeBody, List.mem_append, List.mem_append]
  refine not_or.mpr ⟨by decide, not_or.mpr ⟨hstamp, by decide⟩⟩

theorem isClose_closeBody : isClose (closeBody t) = true := by
  rw [isClose, decide_eq_true_eq, closeBody]
  exact List.prefix_append _ _

theorem isHeader_closeBody : isHeader (closeBody t) = false := rfl

/-- The parser of a timed meta line takes the stamp of the appended line as it was written. -/
theorem parseMetaStamp_closeBody : parseMetaStamp (closeBody t) = some t := by
  have hcomma : (44 : UInt8) ∉ stampText true t :=
    notMem_stampText (by decide) (by decide) true t
  have hlong : ¬ ((closeBody t).length < 4 ∨ (!isMeta (closeBody t)) = true) := by
    have hlen : (closeBody t).length ≥ 7 := by
      rw [closeBody, List.length_append]
      exact Nat.le_add_right 7 _
    have hmeta : isMeta (closeBody t) = true := rfl
    rw [hmeta]
    simp only [Bool.not_true, Bool.false_eq_true, or_false]
    omega
  have hfield : (closeBody t).dropWhile (· ≠ 44) =
      44 :: (stampText true t ++ 44 :: closeRecovered) := rfl
  have htake : (stampText true t ++ 44 :: closeRecovered).takeWhile (· ≠ 44) =
      stampText true t := by
    rw [List.takeWhile_append_of_pos]
    · have hstop : (44 :: closeRecovered).takeWhile (· ≠ 44) = [] := rfl
      rw [hstop, List.append_nil]
    · intro c hc
      rw [decide_eq_true_eq]
      rintro rfl
      exact hcomma hc
  have hshort : ¬ (stampText true t ++ 44 :: closeRecovered).length < 2 := by
    have hrecovered : (44 :: closeRecovered).length = 10 := by decide
    rw [List.length_append, hrecovered]
    omega
  rw [parseMetaStamp, if_neg hlong, hfield]
  dsimp only
  rw [if_neg hshort, htake, stampText, if_pos rfl, parseAnchor, if_pos rfl,
    parseHex_hexText]

theorem clockLine_closeBody (st : ClockPoint × UInt64) (t : UInt64) :
    ClockTailScanner.clockLine st (closeBody t) =
      if st.1.valid ∧ t > st.2 then (st.1, t) else st := by
  have hlen : ¬ (closeBody t).length > maxLine :=
    Nat.not_lt.mpr (Nat.le_trans (length_closeBody_le t) (by decide))
  have hmeta : isMeta (closeBody t) = true := rfl
  have hother : ¬ (ascii "#clock," <+: closeBody t ∨ ascii "#utc," <+: closeBody t) := by
    have hclock : (ascii "#clock,").isPrefixOf (closeBody t) = false := rfl
    have hutc : (ascii "#utc,").isPrefixOf (closeBody t) = false := rfl
    rw [← List.isPrefixOf_iff_prefix, ← List.isPrefixOf_iff_prefix, hclock, hutc]
    simp
  rw [ClockTailScanner.clockLine, if_neg (by simp [hlen, hmeta]), isHeader_closeBody,
    if_neg Bool.false_ne_true, if_neg hother, parseMetaStamp_closeBody]

/-! ## A boot -/

/-- `SD_LOG_CLOCK_TAIL_BYTES`. -/
def tailWindow : Nat := 65536

/-- One boot: the scan of a file and its seal. -/
def boot (io : SealIo) (window : Nat) (file : List UInt8) : SealResult × List UInt8 :=
  sealTornTail io (scanTail window file) file

/-- The file after a seal that nothing interrupts. -/
def sealedFile (window : Nat) (file : List UInt8) : List UInt8 := (boot .working window file).2

/-- The line that seals a file. -/
def closeLine (t : UInt64) : List UInt8 := closeBody t ++ [newline]

theorem closeLine_inj {t t' : UInt64} (h : closeLine t = closeLine t') : t = t' := by
  have hbody : closeBody t = closeBody t' := List.append_cancel_right h
  have hstamp := parseMetaStamp_closeBody t
  rw [hbody, parseMetaStamp_closeBody] at hstamp
  exact (Option.some.inj hstamp).symm

theorem length_closeLine_le : (closeLine t).length ≤ 35 := by
  rw [closeLine, List.length_append, List.length_singleton]
  exact Nat.succ_le_succ (length_closeBody_le t)

/-- A seal that nothing interrupts. -/
theorem boot_working {window : Nat} {kept rest : List UInt8}
    (htorn : (scanTail window (kept ++ rest)).kind = .torn)
    (hcut : (scanTail window (kept ++ rest)).cutAt = kept.length) :
    boot .working window (kept ++ rest) =
      (.sealed, kept ++ closeLine (scanTail window (kept ++ rest)).stamp) := by
  have hlen : ¬ SealIo.working.written < (closeLine (scanTail window (kept ++ rest)).stamp).length :=
    Nat.not_lt.mpr (Nat.le_trans (length_closeLine_le _) (by decide))
  rw [boot, sealTornTail, htorn]
  dsimp only
  rw [formatRecoveredClose_eq, hcut, List.take_left, ← closeLine, if_neg hlen]
  rfl

end EspCars.SdLogger
