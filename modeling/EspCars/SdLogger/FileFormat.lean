import EspCars.Lib.Decimal
import EspCars.SdLogger.ClockBasis
import EspCars.SdLogger.Stamps

/-!
# Whole lines

The formatters of `components/sd_logger/log_format.h` and `format_clock` of `clock_basis.h` that a
file is made of besides records, text and `#gap`, and what each of them writes: fields with commas
between them. With the room of a longest line, what a formatter is given fits, but for text.
-/

namespace EspCars.SdLogger

open EspCars.Lib SourceTable

/-! ## Formatters -/

/-- `SD_LOG_FORMAT_VERSION`. -/
def formatVersion : UInt64 := 2

/-- `format_header` -/
def formatHeader (room : Nat) (seq : UInt32) (tFull : UInt64) (version : List UInt8) : List UInt8 :=
  if room < minRoom then []
  else
    let w := (LineWriter.ofRoom room).raw (ascii "#sdlog,")
    let w := ((w.u64 formatVersion).comma.u64 seq.toUInt64).comma
    ((w.stamp true tFull).comma.escaped version true).finish

/-- `format_utc` -/
def formatUtc (room : Nat) (bootUs utcUs : UInt64) : List UInt8 :=
  if room < minRoom then []
  else
    let w := (LineWriter.ofRoom room).raw (ascii "#utc,")
    ((w.u64Hex bootUs).comma.u64Hex utcUs).finish

/-- A text that a formatter writes as it is: a constant of the source, or a label. -/
structure PlainText where
  text : List UInt8
  short : text.length ≤ 200
  plain : ∀ c ∈ text, c ≠ 44 ∧ c ≠ 10 ∧ c ≠ 13

/-- The last field of a `#src` line. -/
inductive SourceDetail
  | none
  | text (detail : PlainText)
  | num (detail : UInt64)

def LineWriter.detail (w : LineWriter) : SourceDetail → LineWriter
  | .none => w.ch 45
  | .text detail => if detail.text = [] then w.ch 45 else w.raw detail.text
  | .num detail => w.u64 detail

/-- `format_src` and `format_src_num`. -/
def formatSrc (room : Nat) (kind : SourceKind) (label : List UInt8) (tag : UInt8)
    (origin : List UInt8) (detail : SourceDetail) : List UInt8 :=
  if room < minRoom then []
  else
    let w := (LineWriter.ofRoom room).raw (ascii "#src,")
    let w := ((w.ch kind.letter).comma.raw label).comma
    (((w.u32Hex tag.toUInt32).comma.raw origin).comma.detail detail).finish

/-- `SD_LOG_SECTOR`. -/
def padSector : Nat := 512

/-- `format_pad` -/
def formatPad (room offset : Nat) : List UInt8 :=
  let len := padSector - offset % padSector
  let len := if len < 6 then len + padSector else len
  if room < len then [] else ascii "#pad," ++ List.replicate (len - 6) 32 ++ [newline]

/-- `format_log_name`. -/
def formatLogName (seq : UInt32) : List UInt8 :=
  ascii "L" ++ padDigits 7 seq.toNat ++ ascii ".LOG"

/-- `format_rotate` -/
def formatRotate (room : Nat) (tFull : UInt64) (nextSeq : UInt32) : List UInt8 :=
  if room < minRoom then []
  else
    let w := (LineWriter.ofRoom room).raw (ascii "#rotate,")
    ((w.stamp true tFull).comma.raw (formatLogName nextSeq)).finish

def ClockBasis.text : ClockBasis → List UInt8
  | .est => ascii "est"
  | .drift => ascii "drift"
  | .utc => ascii "utc"
  | .none => ascii "none"

def ClockSrc.text : ClockSrc → List UInt8
  | .sync => ascii "sync"
  | .warm => ascii "warm"
  | .sleep => ascii "sleep"
  | .card => ascii "card"
  | .build => ascii "build"
  | .none => ascii "none"

/-- `format_clock` -/
def formatClock (room : Nat) (p : ClockPoint) : List UInt8 :=
  if room < minRoom ∨ !p.valid then []
  else
    let w := (LineWriter.ofRoom room).raw (ascii "#clock,")
    let w := ((w.stamp true p.tUs).comma.u64Hex p.utcUs).comma
    let w := (w.raw p.basis.text).comma.raw p.src.text
    let w := match p.detail with
      | some detail => w.comma.u64 detail
      | none => w
    w.finish

/-! ## What fits is written -/

/-- The fields of a line that fits. -/
theorem finish_raw {room : Nat} (hroom : maxLine ≤ room) {s : List UInt8} (h : s.length ≤ 510) :
    ((LineWriter.ofRoom room).raw s).finish = s ++ [newline] := by
  have hfits : (LineWriter.ofRoom room).buf.length + s.length ≤ (LineWriter.ofRoom room).limit := by
    rw [LineWriter.limit_ofRoom hroom]
    exact (Nat.zero_add s.length).symm ▸ h
  rw [LineWriter.raw_of_fits hfits, LineWriter.finish]
  exact congrArg (· ++ [newline]) (List.append_nil s)

theorem not_lt_minRoom {room : Nat} (hroom : maxLine ≤ room) : ¬ room < minRoom :=
  Nat.not_lt.mpr (Nat.le_trans (by decide) hroom)

/-- A number in a meta line. -/
def decField (v : UInt64) : List UInt8 := LineWriter.decDigits 20 v.toNat

theorem writer_decDigits (width v : Nat) : LineWriter.decDigits width v = decDigits width v := by
  induction width generalizing v with
  | zero => rfl
  | succ width ih =>
    rw [LineWriter.decDigits, decDigits, ih]
    rfl

theorem length_decField (v : UInt64) : (decField v).length ≤ 20 := by
  have hle : ∀ width v, (LineWriter.decDigits width v).length ≤ width := by
    intro width
    induction width with
    | zero => exact fun v => Nat.le_refl 0
    | succ width ih =>
      intro v
      rw [LineWriter.decDigits, List.length_append, List.length_singleton]
      split_ifs
      · exact Nat.le_add_left 1 width
      · exact Nat.succ_le_succ (ih _)
  exact hle 20 _

theorem decimal_of_mem_decField {v : UInt64} {c : UInt8} (h : c ∈ decField v) :
    isDecimal c = true := by
  rw [decField, writer_decDigits] at h
  exact isDecimal_of_mem_decDigits h

section Fitting

open LineWriter

variable {room : Nat} (hroom : maxLine ≤ room)
include hroom

theorem formatUtc_eq (bootUs utcUs : UInt64) : formatUtc room bootUs utcUs =
    joined 44 [ascii "#utc", hexText 16 bootUs.toNat, hexText 16 utcUs.toNat] ++ [newline] := by
  have hboot := length_hexText_le (by decide : 0 < 16) bootUs.toNat
  have hutc := length_hexText_le (by decide : 0 < 16) utcUs.toNat
  have hlength : (joined 44 [ascii "#utc", hexText 16 bootUs.toNat, hexText 16 utcUs.toNat]).length ≤
      510 := by
    simp only [joined, List.length_append, List.length_cons]
    have hhead : (ascii "#utc").length = 4 := by decide
    omega
  rw [← finish_raw hroom hlength, formatUtc, if_neg (not_lt_minRoom hroom)]
  simp only [u64Hex, comma_eq_raw, ← raw_append]
  simp only [joined, List.append_assoc, List.singleton_append]
  rfl

theorem formatDrop_eq (tFull : UInt64) (what : PlainText) (label : Option PlainText) (delta total : UInt32) :
    formatDrop room tFull what.text (label.map (·.text)) delta total =
      joined 44 [ascii "#drop", stampText true tFull,
        what.text ++ (label.map fun l => 58 :: l.text).getD [], decField delta.toUInt64,
        decField total.toUInt64] ++ [newline] := by
  have hstamp := length_stampText_le true tFull
  have hdelta := length_decField delta.toUInt64
  have htotal := length_decField total.toUInt64
  have hwhat := what.short
  have hhead : (ascii "#drop").length = 5 := by decide
  have hlabel : ((label.map fun l => 58 :: l.text).getD []).length ≤ 201 := by
    cases label with
    | none => exact Nat.zero_le _
    | some l => exact Nat.succ_le_succ l.short
  have hlength : (joined 44 [ascii "#drop", stampText true tFull,
      what.text ++ (label.map fun l => 58 :: l.text).getD [], decField delta.toUInt64,
      decField total.toUInt64]).length ≤ 510 := by
    simp only [joined, List.length_append, List.length_cons]
    omega
  have hcomma : ascii "#drop," = ascii "#drop" ++ [44] := rfl
  rw [← finish_raw hroom hlength, formatDrop, if_neg (not_lt_minRoom hroom)]
  cases label with
  | none =>
    simp only [Option.map_none, stamp_eq_raw, u64, comma_eq_raw,
      ← raw_append]
    simp only [joined, hcomma, List.append_assoc, Option.getD_none, List.cons_append,
      List.nil_append, decField]
  | some l =>
    simp only [Option.map_some, stamp_eq_raw, u64, comma_eq_raw,
      ch_eq_raw, ← raw_append]
    simp only [joined, hcomma, List.append_assoc, Option.getD_some, List.cons_append,
      List.nil_append, decField]

theorem formatGap_eq (tFull : UInt64) (chunks : UInt32) (bytes : UInt64) (firstSeq lastSeq : UInt32) :
    formatGap room tFull chunks bytes firstSeq lastSeq =
      joined 44 [ascii "#gap", stampText true tFull, decField chunks.toUInt64,
        decField bytes, decField firstSeq.toUInt64, decField lastSeq.toUInt64] ++ [newline] := by
  have hstamp := length_stampText_le true tFull
  have hchunks := length_decField chunks.toUInt64
  have hbytes := length_decField bytes
  have hfirst := length_decField firstSeq.toUInt64
  have hlast := length_decField lastSeq.toUInt64
  have hhead : (ascii "#gap").length = 4 := by decide
  have hlength : (joined 44 [ascii "#gap", stampText true tFull,
      decField chunks.toUInt64, decField bytes, decField firstSeq.toUInt64,
      decField lastSeq.toUInt64]).length ≤ 510 := by
    simp only [joined, List.length_append, List.length_cons]
    omega
  rw [← finish_raw hroom hlength, formatGap, if_neg (not_lt_minRoom hroom)]
  simp only [stamp_eq_raw, u64, comma_eq_raw,
    ← raw_append]
  simp only [joined, List.append_assoc, List.singleton_append]
  rfl

theorem formatRotate_eq (tFull : UInt64) (nextSeq : UInt32) : formatRotate room tFull nextSeq =
    joined 44 [ascii "#rotate", stampText true tFull, formatLogName nextSeq] ++
      [newline] := by
  have hstamp := length_stampText_le true tFull
  have hname : (formatLogName nextSeq).length = 12 := by
    unfold formatLogName
    rw [List.length_append, List.length_append, length_padDigits]
    rfl
  have hhead : (ascii "#rotate").length = 7 := by decide
  have hlength : (joined 44 [ascii "#rotate", stampText true tFull,
      formatLogName nextSeq]).length ≤ 510 := by
    simp only [joined, List.length_append, List.length_cons]
    omega
  rw [← finish_raw hroom hlength, formatRotate, if_neg (not_lt_minRoom hroom)]
  simp only [stamp_eq_raw, comma_eq_raw, ← raw_append]
  simp only [joined, List.append_assoc, List.singleton_append]
  rfl

theorem formatClose_eq (tFull : UInt64) (reason : PlainText) : formatClose room tFull reason.text =
    joined 44 [ascii "#close", stampText true tFull, reason.text] ++ [newline] := by
  have hstamp := length_stampText_le true tFull
  have hreason := reason.short
  have hhead : (ascii "#close").length = 6 := by decide
  have hlength : (joined 44 [ascii "#close", stampText true tFull,
      reason.text]).length ≤ 510 := by
    simp only [joined, List.length_append, List.length_cons]
    omega
  rw [← finish_raw hroom hlength, formatClose, if_neg (not_lt_minRoom hroom)]
  simp only [stamp_eq_raw, comma_eq_raw, ← raw_append]
  simp only [joined, List.append_assoc, List.singleton_append]
  rfl

theorem formatClock_eq {p : ClockPoint} (hvalid : p.valid = true) : formatClock room p =
    joined 44 ([ascii "#clock", stampText true p.tUs, hexText 16 p.utcUs.toNat,
      p.basis.text, p.src.text] ++ (p.detail.map decField).toList) ++ [newline] := by
  have hstamp := length_stampText_le true p.tUs
  have hutc := length_hexText_le (by decide : 0 < 16) p.utcUs.toNat
  have hbasis : p.basis.text.length ≤ 5 := by cases p.basis <;> decide
  have hsrc : p.src.text.length ≤ 5 := by cases p.src <;> decide
  have hhead : (ascii "#clock").length = 6 := by decide
  have hopen : ¬ (room < minRoom ∨ (!p.valid) = true) := by
    rw [hvalid]
    exact not_or.mpr ⟨not_lt_minRoom hroom, nofun⟩
  cases hdetail : p.detail with
  | none =>
    have hlength : (joined 44 ([ascii "#clock", stampText true p.tUs,
        hexText 16 p.utcUs.toNat, p.basis.text, p.src.text] ++
        ((none : Option UInt64).map decField).toList)).length ≤ 510 := by
      simp only [Option.map_none, Option.toList_none, List.append_nil, joined, List.length_append,
        List.length_cons]
      omega
    rw [← finish_raw hroom hlength, formatClock, if_neg hopen, hdetail]
    simp only [stamp_eq_raw, u64Hex, comma_eq_raw,
      ← raw_append]
    simp only [Option.map_none, Option.toList_none, List.append_nil, joined, List.append_assoc,
      List.singleton_append]
    rfl
  | some detail =>
    have hlast := length_decField detail
    have hlength : (joined 44 ([ascii "#clock", stampText true p.tUs,
        hexText 16 p.utcUs.toNat, p.basis.text, p.src.text] ++
        ((some detail).map decField).toList)).length ≤ 510 := by
      simp only [Option.map_some, Option.toList_some, List.cons_append, List.nil_append, joined,
        List.length_append, List.length_cons]
      omega
    rw [← finish_raw hroom hlength, formatClock, if_neg hopen, hdetail]
    simp only [stamp_eq_raw, u64Hex, u64, comma_eq_raw,
      ← raw_append]
    simp only [Option.map_some, Option.toList_some, List.cons_append, List.nil_append, joined,
      List.append_assoc]
    rfl

/-- The last field of a `#src` line as text. -/
def SourceDetail.field : SourceDetail → List UInt8
  | .none => [45]
  | .text detail => if detail.text = [] then [45] else detail.text
  | .num detail => decField detail

omit hroom in
theorem SourceDetail.length_field (detail : SourceDetail) : detail.field.length ≤ 200 := by
  cases detail with
  | none => exact Nat.le_add_left 1 199
  | text detail =>
    unfold SourceDetail.field
    dsimp only
    split_ifs
    · exact Nat.le_add_left 1 199
    · exact detail.short
  | num detail => exact Nat.le_trans (length_decField detail) (by decide)

theorem formatSrc_eq (kind : SourceKind) {label : List UInt8} (hlabel : label.length ≤ maxLabel)
    (tag : UInt8) (origin : PlainText) (detail : SourceDetail) :
    formatSrc room kind label tag origin.text detail =
      joined 44 [ascii "#src", [kind.letter], label, hexText 8 tag.toUInt32.toNat, origin.text,
        detail.field] ++ [newline] := by
  have htag := length_hexText_le (by decide : 0 < 8) tag.toUInt32.toNat
  have horigin := origin.short
  have hhead : (ascii "#src").length = 4 := by decide
  have hmax : maxLabel = 8 := rfl
  have hdetail := detail.length_field
  have hlength : (joined 44 [ascii "#src", [kind.letter], label, hexText 8 tag.toUInt32.toNat,
      origin.text, detail.field]).length ≤ 510 := by
    simp only [joined, List.length_append, List.length_cons, List.length_nil]
    omega
  have hlast : ∀ w : LineWriter, w.detail detail = w.raw detail.field := by
    intro w
    cases detail with
    | none => rfl
    | text detail =>
      unfold SourceDetail.field LineWriter.detail
      dsimp only
      split_ifs
      · rfl
      · rfl
    | num detail => rfl
  rw [← finish_raw hroom hlength, formatSrc, if_neg (not_lt_minRoom hroom)]
  dsimp only
  rw [hlast]
  simp only [u32Hex, comma_eq_raw, ch_eq_raw,
    ← raw_append]
  simp only [joined, List.append_assoc, List.singleton_append]
  rfl

end Fitting

/-! ## Escaped text -/

/-- What one byte of untrusted text is written as. -/
def escapeBytes (commaToUnderscore : Bool) (c : UInt8) : List UInt8 :=
  if c = 92 then ascii "\\\\"
  else if c = 10 then ascii "\\n"
  else if c = 13 then ascii "\\r"
  else if c = 9 then ascii "\\t"
  else if c = 44 then [if commaToUnderscore then 95 else 44]
  else if c < 0x20 ∨ c = 0x7F then
    ascii "\\x" ++ [hexDigit (c.toNat / 16), hexDigit (c.toNat % 16)]
  else [c]

def escapedText (commaToUnderscore : Bool) (s : List UInt8) : List UInt8 :=
  s.flatMap (escapeBytes commaToUnderscore)

namespace LineWriter

theorem ch_eq_seq (w : LineWriter) (c : UInt8) : w.ch c = w.seq [c] := by
  unfold ch seq
  rw [List.length_singleton]
  by_cases h : w.buf.length ≥ w.limit
  · rw [if_pos h, if_pos (Nat.lt_succ_of_le h)]
  · rw [if_neg h, if_neg (by omega)]

theorem escape_eq (w : LineWriter) (b : Bool) (c : UInt8) :
    w.escape b c = if w.overflow then w else w.seq (escapeBytes b c) := by
  unfold escape escapeBytes
  split_ifs
  · rfl
  · rfl
  · rfl
  · rfl
  · rfl
  · exact ch_eq_seq w 95
  · exact ch_eq_seq w 44
  · rfl
  · exact ch_eq_seq w c

/-- Text that fits is written as a whole. -/
theorem escaped_of_fits {w : LineWriter} {s : List UInt8} {b : Bool} (hopen : w.overflow = false)
    (h : w.buf.length + (escapedText b s).length ≤ w.limit) :
    w.escaped s b = { w with buf := w.buf ++ escapedText b s } := by
  induction s generalizing w with
  | nil =>
    show w = _
    rw [show escapedText b [] = [] from rfl, List.append_nil]
  | cons c s ih =>
    have hcons : escapedText b (c :: s) = escapeBytes b c ++ escapedText b s := rfl
    rw [hcons, List.length_append] at h
    have hseq : w.escape b c = { w with buf := w.buf ++ escapeBytes b c } := by
      rw [escape_eq, if_neg (by rw [hopen]; exact Bool.false_ne_true), seq, if_neg (by omega)]
    have hrest := @ih { w with buf := w.buf ++ escapeBytes b c } hopen (by
      show (w.buf ++ escapeBytes b c).length + _ ≤ w.limit
      rw [List.length_append]
      omega)
    rw [show w.escaped (c :: s) b = (w.escape b c).escaped s b from rfl, hseq, hrest, hcons]
    simp only [List.append_assoc]

end LineWriter

theorem notMem_escapeBytes {d : UInt8} (hd : d = 10 ∨ d = 13 ∨ d = 44) {b : Bool}
    (hcomma : d = 44 → b = true) (c : UInt8) : d ∉ escapeBytes b c := by
  have hhex : ∀ n < 16, hexDigit n ≠ d := by
    intro n hn
    have hall : ∀ n < 16, hexDigit n ≠ 10 ∧ hexDigit n ≠ 13 ∧ hexDigit n ≠ 44 := by decide
    obtain ⟨h10, h13, h44⟩ := hall n hn
    rcases hd with rfl | rfl | rfl
    · exact h10
    · exact h13
    · exact h44
  have hfixed : ∀ t : List UInt8, 10 ∉ t ∧ 13 ∉ t ∧ 44 ∉ t → d ∉ t := by
    rintro t ⟨h10, h13, h44⟩
    rcases hd with rfl | rfl | rfl
    · exact h10
    · exact h13
    · exact h44
  unfold escapeBytes
  split_ifs with h92 h10 h13 h9 h44 hb hcontrol
  · exact hfixed _ (by decide)
  · exact hfixed _ (by decide)
  · exact hfixed _ (by decide)
  · exact hfixed _ (by decide)
  · exact hfixed _ (by decide)
  · intro h
    have hd44 := List.mem_singleton.mp h
    exact hb (hcomma hd44)
  · rw [List.mem_append]
    refine not_or.mpr ⟨hfixed _ (by decide), ?_⟩
    have hc := c.toNat_lt
    rw [List.mem_pair]
    rintro (h | h)
    · exact hhex _ (by omega) h.symm
    · exact hhex _ (by omega) h.symm
  · intro h
    rw [List.mem_singleton] at h
    rcases hd with rfl | rfl | rfl
    · exact h10 h.symm
    · exact h13 h.symm
    · exact h44 h.symm

theorem notMem_escapedText {d : UInt8} (hd : d = 10 ∨ d = 13 ∨ d = 44) {b : Bool}
    (hcomma : d = 44 → b = true) (s : List UInt8) : d ∉ escapedText b s := by
  intro h
  obtain ⟨c, -, hc⟩ := List.mem_flatMap.mp h
  exact notMem_escapeBytes hd hcomma c hc

/-- What comes behind the fixed part of a line with untrusted text. -/
def Adds (w w' : LineWriter) : Prop := ∃ s, w'.buf = w.buf ++ s ∧ 10 ∉ s ∧ 13 ∉ s

namespace Adds

theorem refl (w : LineWriter) : Adds w w :=
  ⟨[], (List.append_nil _).symm, List.not_mem_nil, List.not_mem_nil⟩

theorem trans {w w' w'' : LineWriter} (h : Adds w w') (h' : Adds w' w'') : Adds w w'' := by
  obtain ⟨s, hs, h10, h13⟩ := h
  obtain ⟨s', hs', h10', h13'⟩ := h'
  refine ⟨s ++ s', by rw [hs', hs, List.append_assoc], ?_, ?_⟩
  · rw [List.mem_append]
    exact not_or.mpr ⟨h10, h10'⟩
  · rw [List.mem_append]
    exact not_or.mpr ⟨h13, h13'⟩

theorem seq (w : LineWriter) {s : List UInt8} (h10 : 10 ∉ s) (h13 : 13 ∉ s) :
    Adds w (w.seq s) := by
  unfold LineWriter.seq
  split_ifs
  · exact refl w
  · exact ⟨s, rfl, h10, h13⟩

theorem ch (w : LineWriter) {c : UInt8} (h10 : c ≠ 10) (h13 : c ≠ 13) : Adds w (w.ch c) := by
  rw [LineWriter.ch_eq_seq]
  exact seq w (fun h => h10 (List.mem_singleton.mp h).symm)
    fun h => h13 (List.mem_singleton.mp h).symm

theorem escaped (w : LineWriter) (s : List UInt8) (b : Bool) : Adds w (w.escaped s b) := by
  induction s generalizing w with
  | nil => exact refl w
  | cons c s ih =>
    have hescape : Adds w (w.escape b c) := by
      rw [LineWriter.escape_eq]
      split_ifs
      · exact refl w
      · exact seq w (notMem_escapeBytes (Or.inl rfl) (fun h => absurd h (by decide)) c)
          (notMem_escapeBytes (Or.inr (Or.inl rfl)) (fun h => absurd h (by decide)) c)
    exact hescape.trans (ih (w.escape b c))

theorem finish {w w' : LineWriter} (h : Adds w w') :
    ∃ s, w'.finish = w.buf ++ s ++ [newline] ∧ 10 ∉ s ∧ 13 ∉ s := by
  obtain ⟨s, hs, h10, h13⟩ := h
  refine ⟨s ++ (if w'.overflow then [truncatedMark] else []), ?_, ?_, ?_⟩
  · rw [LineWriter.finish, hs]
    simp only [List.append_assoc]
  · rw [List.mem_append]
    refine not_or.mpr ⟨h10, ?_⟩
    split_ifs <;> decide
  · rw [List.mem_append]
    refine not_or.mpr ⟨h13, ?_⟩
    split_ifs <;> decide

end Adds

/-- The payload of a record as text. -/
def hexPairs (data : List UInt8) : List UInt8 :=
  data.flatMap fun b => [hexDigit (b.toNat / 16), hexDigit (b.toNat % 16)]

/-- The bytes of a record that are written. -/
def LogRecord.payload (rec : LogRecord) : List UInt8 :=
  rec.data.toList.take (if rec.len > 8 then 8 else rec.len.toNat)

theorem length_hexPairs (data : List UInt8) : (hexPairs data).length = 2 * data.length := by
  induction data with
  | nil => rfl
  | cons b data ih =>
    show (hexPairs data).length + 2 = _
    rw [ih, List.length_cons]
    omega

theorem length_payload (rec : LogRecord) : rec.payload.length ≤ 8 := by
  unfold LogRecord.payload
  rw [List.length_take, Vector.length_toList]
  exact Nat.min_le_right _ _

section Fitting

open LineWriter

variable {room : Nat} (hroom : maxLine ≤ room)
include hroom

theorem formatHeader_eq (seq : UInt32) (tFull : UInt64) (version : List UInt8) :
    ∃ rest, formatHeader room seq tFull version =
      joined 44 [ascii "#sdlog", decField formatVersion, decField seq.toUInt64,
        stampText true tFull, rest] ++ [newline] ∧ 10 ∉ rest ∧ 13 ∉ rest := by
  have hseq := length_decField seq.toUInt64
  have hversion := length_decField formatVersion
  have hstamp := length_stampText_le true tFull
  have hhead : (ascii "#sdlog").length = 6 := by decide
  generalize hfixed : ascii "#sdlog" ++ 44 :: (decField formatVersion ++ 44 ::
    (decField seq.toUInt64 ++ 44 :: (stampText true tFull ++ [44]))) = fixed
  have hlength : fixed.length ≤ 510 := by
    rw [← hfixed]
    simp only [List.length_append, List.length_cons, List.length_nil]
    omega
  have hfits : (ofRoom room).buf.length + fixed.length ≤
      (ofRoom room).limit := by
    rw [limit_ofRoom hroom]
    exact (Nat.zero_add fixed.length).symm ▸ hlength
  obtain ⟨rest, hfinish, h10, h13⟩ :=
    (Adds.escaped ((ofRoom room).raw fixed) version true).finish
  refine ⟨rest, ?_, h10, h13⟩
  have hwriter : formatHeader room seq tFull version =
      (((ofRoom room).raw fixed).escaped version true).finish := by
    have hcomma : ascii "#sdlog," = ascii "#sdlog" ++ [44] := rfl
    rw [← hfixed, formatHeader, if_neg (not_lt_minRoom hroom)]
    simp only [stamp_eq_raw, u64, comma_eq_raw,
      ← raw_append]
    simp only [hcomma, List.append_assoc, List.cons_append, List.nil_append, decField]
  rw [hwriter, hfinish, raw_of_fits hfits, ← hfixed]
  simp only [joined, List.append_assoc, List.cons_append, List.nil_append]
  rfl

theorem formatRecord_eq (clock : DeltaClock) (rec : LogRecord) (tFull : UInt64)
    (sources : SourceTable) : formatRecord room clock rec tFull sources =
      (joined 44 [recordToken sources rec,
        stampText (clock.encode tFull).1.1 (clock.encode tFull).1.2,
        hexText 8 rec.id.toNat, hexPairs rec.payload] ++ [newline], (clock.encode tFull).2) := by
  have htoken := (tokenText_record sources rec).1
  have hstamp := length_stampText_le (clock.encode tFull).1.1 (clock.encode tFull).1.2
  have hid := length_hexText_le (by decide : 0 < 8) rec.id.toNat
  have hpayload := length_payload rec
  have hpairs := length_hexPairs rec.payload
  have hlength : (joined 44 [recordToken sources rec,
      stampText (clock.encode tFull).1.1 (clock.encode tFull).1.2,
      hexText 8 rec.id.toNat, hexPairs rec.payload]).length ≤ 510 := by
    simp only [joined, List.length_append, List.length_cons]
    omega
  rw [← finish_raw hroom hlength, formatRecord, if_neg (not_lt_minRoom hroom)]
  simp only [stamp_eq_raw, u32Hex, flags, hexBytes,
    comma_eq_raw, ch_eq_raw, ← raw_append]
  simp only [joined, recordToken, kindLetter, hexPairs, LogRecord.payload, List.append_assoc,
    List.cons_append, List.nil_append]

/-- The tag of a log line fits behind its stamp. -/
theorem formatText_eq {tag : List UInt8} (htag : (escapedText true tag).length ≤ 488)
    (clock : DeltaClock) (tFull : UInt64) (level : UInt8) (msg : List UInt8) (truncated : Bool) :
    ∃ rest, formatText room clock tFull level tag msg truncated =
      (joined 44 [textToken level,
        stampText (clock.encode tFull).1.1 (clock.encode tFull).1.2,
        escapedText true tag, rest] ++ [newline], (clock.encode tFull).2) ∧ 10 ∉ rest ∧
      13 ∉ rest := by
  have hstamp := length_stampText_le (clock.encode tFull).1.1 (clock.encode tFull).1.2
  have htoken : (textToken level).length = 2 := rfl
  generalize hstart : textToken level ++ 44 :: (stampText (clock.encode tFull).1.1
    (clock.encode tFull).1.2 ++ [44]) = start
  have hlength : start.length ≤ 21 := by
    rw [← hstart]
    simp only [List.length_append, List.length_cons, List.length_nil]
    omega
  have hlimit := limit_ofRoom hroom
  have hbuf : (ofRoom room).buf = [] := rfl
  have hraw : (ofRoom room).raw start =
      { ofRoom room with buf := start } := by
    rw [raw_of_fits (by rw [hlimit, hbuf, List.length_nil]; omega), hbuf, List.nil_append]
  have htagged : ((ofRoom room).raw start).escaped tag true =
      { ofRoom room with buf := start ++ escapedText true tag } := by
    rw [hraw, escaped_of_fits rfl]
    dsimp only
    rw [hlimit]
    omega
  have hcomma : (((ofRoom room).raw start).escaped tag true).comma =
      { ofRoom room with buf := start ++ escapedText true tag ++ [44] } := by
    rw [htagged, comma, ch, if_neg]
    dsimp only
    rw [hlimit, List.length_append]
    omega
  generalize hbody : ((((ofRoom room).raw start).escaped tag true).comma).escaped msg
    false = body
  have hadds : Adds { ofRoom room with buf := start ++ escapedText true tag ++ [44] }
      (if truncated ∧ !body.overflow then body.ch truncatedMark else body) := by
    have hmsg : Adds { ofRoom room with
        buf := start ++ escapedText true tag ++ [44] } body := by
      rw [← hbody, hcomma]
      exact Adds.escaped _ msg false
    split_ifs
    · exact hmsg.trans (Adds.ch _ (by decide) (by decide))
    · exact hmsg
  obtain ⟨rest, hfinish, h10, h13⟩ := hadds.finish
  refine ⟨rest, ?_, h10, h13⟩
  have hwriter : formatText room clock tFull level tag msg truncated =
      ((if truncated ∧ !body.overflow then body.ch truncatedMark else body).finish,
        (clock.encode tFull).2) := by
    rw [← hbody, ← hstart, formatText, if_neg (not_lt_minRoom hroom)]
    simp only [stamp_eq_raw, comma_eq_raw, ch_eq_raw,
      ← raw_append]
    simp only [textToken, List.cons_append, List.nil_append]
    rfl
  rw [hwriter, hfinish, ← hstart]
  simp only [joined, List.append_assoc, List.cons_append, List.nil_append]

end Fitting

/-! ## Files -/

/-- What one call of a formatter is given. -/
inductive FileLine
  | record (rec : LogRecord) (tFull : UInt64)
  | text (tFull : UInt64) (level : UInt8) (tag msg : List UInt8) (truncated : Bool)
  | drop (tFull : UInt64) (what : PlainText) (label : Option PlainText) (delta total : UInt32)
  | gap (tFull : UInt64) (chunks : UInt32) (bytes : UInt64) (firstSeq lastSeq : UInt32)
  | rotate (tFull : UInt64) (nextSeq : UInt32)
  | clock (p : ClockPoint)
  | utc (bootUs utcUs : UInt64)
  | pad (offset : Nat)
  | close (tFull : UInt64) (reason : PlainText)

/-- The call, and the chain behind it. -/
def FileLine.format (sources : SourceTable) (room : Nat) (clock : DeltaClock) :
    FileLine → List UInt8 × DeltaClock
  | .record rec tFull => formatRecord room clock rec tFull sources
  | .text tFull level tag msg truncated => formatText room clock tFull level tag msg truncated
  | .drop tFull what label delta total =>
    (formatDrop room tFull what.text (label.map (·.text)) delta total, clock)
  | .gap tFull chunks bytes firstSeq lastSeq =>
    (formatGap room tFull chunks bytes firstSeq lastSeq, clock)
  | .rotate tFull nextSeq => (formatRotate room tFull nextSeq, clock)
  | .clock p => (formatClock room p, clock)
  | .utc bootUs utcUs => (formatUtc room bootUs utcUs, clock)
  | .pad offset => (formatPad room offset, clock)
  | .close tFull reason => (formatClose room tFull reason.text, clock)

/-- The lines of a file behind its header, each with the room there is for it. -/
def formatBody (sources : SourceTable) (clock : DeltaClock) : List (Nat × FileLine) → List UInt8
  | [] => []
  | (room, line) :: body =>
    let (bytes, clock) := line.format sources room clock
    bytes ++ formatBody sources clock body

/-- The table that calls of `add` build. -/
def SourceTable.build (adds : List (UInt8 × SourceKind × Option (List UInt8))) : SourceTable :=
  adds.foldl (fun t (tag, kind, label) => (t.add tag kind label).2) []

/-- The `#src` lines; `describe` gives the last two fields. -/
def formatSources (room : Nat) (describe : SourceEntry → PlainText × SourceDetail)
    (sources : SourceTable) : List UInt8 :=
  sources.flatMap fun e =>
    formatSrc room e.kind e.label e.tag (describe e).1.text (describe e).2

/-- A file: its header, its sources, and lines of one chain. -/
def formatFile (room : Nat) (seq : UInt32) (tFull : UInt64) (version : List UInt8)
    (describe : SourceEntry → PlainText × SourceDetail) (sources : SourceTable)
    (body : List (Nat × FileLine)) : List UInt8 :=
  formatHeader room seq tFull version ++ formatSources room describe sources ++
    formatBody sources {} body

/-- A label of the table: short, and of the characters that `add` lets through. -/
theorem label_of_build {adds : List (UInt8 × SourceKind × Option (List UInt8))} {e : SourceEntry}
    (h : e ∈ build adds) :
    e.label.length ≤ maxLabel ∧ ∀ c ∈ e.label, sanitise c = c := by
  have hsanitise : ∀ c, sanitise (sanitise c) = sanitise c := by
    intro c
    by_cases hc : sanitise c = c
    · rw [hc, hc]
    · have hunderscore : sanitise c = 95 := by
        unfold sanitise at hc ⊢
        split_ifs at hc ⊢
        · exact absurd rfl hc
        · rfl
      rw [hunderscore]
      rfl
  unfold build at h
  have hinv : ∀ (adds : List (UInt8 × SourceKind × Option (List UInt8))) (t : SourceTable),
      (∀ e ∈ t, e.label.length ≤ maxLabel ∧ ∀ c ∈ e.label, sanitise c = c) →
      ∀ e ∈ adds.foldl (fun t (tag, kind, label) => (add t tag kind label).2) t,
        e.label.length ≤ maxLabel ∧ ∀ c ∈ e.label, sanitise c = c := by
    intro adds
    induction adds with
    | nil => exact fun t ht => ht
    | cons a adds ih =>
      intro t ht
      refine ih _ ?_
      obtain ⟨tag, kind, label⟩ := a
      unfold add
      cases label with
      | none => exact ht
      | some label =>
        dsimp only
        split_ifs
        · exact ht
        · intro e he
          rcases List.mem_append.mp he with he | he
          · exact ht e he
          · rw [List.mem_singleton.mp he]
            refine ⟨?_, fun c hc => ?_⟩
            · dsimp only
              rw [List.length_map, List.length_take]
              exact Nat.min_le_left _ _
            · obtain ⟨d, -, rfl⟩ := List.mem_map.mp hc
              exact hsanitise d
  exact hinv adds [] (fun e he => absurd he List.not_mem_nil) e h

end EspCars.SdLogger
