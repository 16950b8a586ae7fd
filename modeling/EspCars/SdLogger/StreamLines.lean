import EspCars.SdLogger.Counters
import EspCars.SdLogger.FileFormat

/-!
# The time and the shape of a stream line

`reconstruct_us`, `format_record` and `format_text` of `components/sd_logger/log_format.h`. The time
of a record is rebuilt from its lower half and a sample of the clock. Its line is written by emitters
that write an escape as a whole or not at all, and any other byte by itself (`Sane`); what an emitter
drops it drops at the end of what there is, and the mark says so.
-/

namespace EspCars.SdLogger

open EspCars.Lib LineWriter

/-! ## Capture times -/

/-- A time is rebuilt if it is less than half a turn of the lower word before the sample, and no
more than that after it. -/
theorem reconstructUs_exact {t sample : UInt64} (ht : t.toNat < 2 ^ 63) (hs : sample.toNat < 2 ^ 63)
    (hlow : -2 ^ 31 < (t.toNat : Int) - sample.toNat)
    (hhigh : (t.toNat : Int) - sample.toNat ≤ 2 ^ 31) :
    Ledger.reconstructUs sample t.toUInt32 = t := by
  have hage : (sample.toUInt32 - t.toUInt32).toBitVec.toInt =
      (sample.toNat : Int) - t.toNat := by
    rw [BitVec.toInt_eq_toNat_cond, UInt32.toNat_toBitVec, UInt32.toNat_sub, UInt64.toNat_toUInt32,
      UInt64.toNat_toUInt32]
    split_ifs <;> omega
  have hsample : sample.toBitVec.toInt = (sample.toNat : Int) := by
    rw [BitVec.toInt_eq_toNat_cond, UInt64.toNat_toBitVec]
    split_ifs <;> omega
  have hfull : (sample.toNat : Int) - ((sample.toNat : Int) - t.toNat) = t.toNat := by omega
  unfold Ledger.reconstructUs
  dsimp only
  rw [hage, hsample, hfull, if_neg (by omega), Int.toNat_natCast]
  exact UInt64.ofNat_toNat

/-- A record of half a turn after the sample, across the end of the lower word. -/
theorem reconstructUs_exact_wrap :
    Ledger.reconstructUs 0xFFFFFFFF (0x17FFFFFFF : UInt64).toUInt32 = 0x17FFFFFFF :=
  reconstructUs_exact (by decide) (by decide) (by decide) (by decide)

/-! ## Escapes -/

/-- Every backslash is followed by the rest of its escape. -/
inductive Whole : List UInt8 → Prop
  | nil : Whole []
  | plain {c : UInt8} {s : List UInt8} (hc : c ≠ 92) : Whole s → Whole (c :: s)
  | short {c : UInt8} {s : List UInt8} (hc : c = 92 ∨ c = 110 ∨ c = 114 ∨ c = 116) :
    Whole s → Whole (92 :: c :: s)
  | hex {d e : Nat} {s : List UInt8} (hd : d < 16) (he : e < 16) :
    Whole s → Whole (92 :: 120 :: hexDigit d :: hexDigit e :: s)

namespace Whole

variable {s t : List UInt8}

theorem append (hs : Whole s) (ht : Whole t) : Whole (s ++ t) := by
  induction hs with
  | nil => exact ht
  | plain hc _ ih => exact plain hc ih
  | short hc _ ih => exact short hc ih
  | hex hd he _ ih => exact hex hd he ih

theorem escapeBytes (b : Bool) (c : UInt8) : Whole (escapeBytes b c) := by
  unfold SdLogger.escapeBytes
  split_ifs with h92
  · exact short (Or.inl rfl) nil
  · exact short (Or.inr (Or.inl rfl)) nil
  · exact short (Or.inr (Or.inr (Or.inl rfl))) nil
  · exact short (Or.inr (Or.inr (Or.inr rfl))) nil
  · exact plain (by decide) nil
  · exact plain (by decide) nil
  · have hc := c.toNat_lt
    exact hex (by omega) (Nat.mod_lt _ (by decide)) nil
  · exact plain h92 nil

end Whole

/-! ## What the emitters keep -/

namespace LineWriter

/-- What has been written is within the limit, of whole escapes and without a newline, and it is all
of `text` unless something has been dropped. -/
structure Sane (n : Nat) (w : LineWriter) (text : List UInt8) : Prop where
  within : Within n w
  whole : Whole w.buf
  clean : newline ∉ w.buf
  all : w.overflow = false → w.buf = text

namespace Sane

variable {n : Nat} {w : LineWriter} {text : List UInt8}

theorem ofRoom (room : Nat) : Sane (min room maxLine - 2) (ofRoom room) [] := by
  refine ⟨⟨?_, Nat.zero_le _⟩, Whole.nil, List.not_mem_nil, fun _ => rfl⟩
  have hcap : (if room < maxLine then room else maxLine) = min room maxLine := by
    split_ifs <;> omega
  rw [LineWriter.ofRoom, hcap, init]
  dsimp only
  split_ifs <;> omega

theorem seq (h : Sane n w text) {s : List UInt8} (hs : Whole s) (hclean : newline ∉ s) :
    Sane n (w.seq s) (text ++ s) := by
  refine ⟨h.within.seq s, ?_, ?_, ?_⟩
  · unfold LineWriter.seq
    split_ifs
    · exact h.whole
    · exact h.whole.append hs
  · unfold LineWriter.seq
    split_ifs
    · exact h.clean
    · rw [List.mem_append]
      exact not_or.mpr ⟨h.clean, hclean⟩
  · unfold LineWriter.seq
    split_ifs
    · nofun
    · intro hall
      exact congrArg (· ++ s) (h.all hall)

theorem ch (h : Sane n w text) {c : UInt8} (hc : c ≠ 92) (hnewline : c ≠ newline) :
    Sane n (w.ch c) (text ++ [c]) := by
  rw [ch_eq_seq]
  apply h.seq (Whole.plain hc Whole.nil)
  rw [List.mem_singleton]
  exact hnewline.symm

theorem raw (h : Sane n w text) {s : List UInt8} (hs : 92 ∉ s) (hclean : newline ∉ s) :
    Sane n (w.raw s) (text ++ s) := by
  induction s generalizing w text with
  | nil =>
    rw [List.append_nil]
    exact h
  | cons c s ih =>
    obtain ⟨hc, hs⟩ := not_or.mp (List.mem_cons.not.mp hs)
    obtain ⟨hn, hclean⟩ := not_or.mp (List.mem_cons.not.mp hclean)
    have hrest := ih (h.ch (Ne.symm hc) (Ne.symm hn)) hs hclean
    rw [List.append_assoc] at hrest
    exact hrest

theorem escape (h : Sane n w text) (b : Bool) (c : UInt8) :
    Sane n (w.escape b c) (text ++ escapeBytes b c) := by
  rw [escape_eq]
  split_ifs with hoverflow
  · refine ⟨h.within, h.whole, h.clean, ?_⟩
    intro hopen
    rw [hoverflow] at hopen
    cases hopen
  · exact h.seq (Whole.escapeBytes b c) (notMem_escapeBytes (Or.inl rfl) nofun c)

theorem escaped (h : Sane n w text) (s : List UInt8) (b : Bool) :
    Sane n (w.escaped s b) (text ++ escapedText b s) := by
  induction s generalizing w text with
  | nil =>
    rw [escapedText, List.flatMap_nil, List.append_nil]
    exact h
  | cons c s ih =>
    have hrest := ih (h.escape b c)
    rw [List.append_assoc] at hrest
    exact hrest

end Sane

end LineWriter

/-! ## Lines -/

/-- A line of at most `room` bytes that was to be `text`, of which `cut` says that it had been cut
before. -/
structure WellFormed (room : Nat) (text : List UInt8) (cut : Bool) (line : List UInt8) : Prop where
  pos : 1 ≤ line.length
  fits : line.length ≤ min room maxLine
  oneNewline : ∃ body, line = body ++ [newline] ∧ newline ∉ body
  whole : Whole line
  marked : cut = true ∨ line ≠ text ++ [newline] → ∃ body, line = body ++ [truncatedMark, newline]

namespace LineWriter

variable {n room : Nat} {w : LineWriter} {text : List UInt8}

theorem Sane.wellFormed (h : Sane n w text) (hn : n + 2 ≤ min room maxLine) :
    WellFormed room text false w.finish := by
  have hmark : Whole (if w.overflow then [truncatedMark] else []) := by
    split_ifs
    · exact Whole.plain (by decide) Whole.nil
    · exact Whole.nil
  constructor
  · rw [finish, List.length_append]
    exact Nat.le_add_left _ _
  · exact Nat.le_trans h.within.length_finish hn
  · refine ⟨_, rfl, ?_⟩
    rw [List.mem_append]
    refine not_or.mpr ⟨h.clean, ?_⟩
    split_ifs <;> decide
  · apply Whole.append (Whole.append h.whole hmark)
    exact Whole.plain (by decide) Whole.nil
  · rintro (hcut | hdropped)
    · cases hcut
    · cases hoverflow : w.overflow with
      | true =>
        refine ⟨w.buf, ?_⟩
        rw [finish, if_pos hoverflow, List.append_assoc]
        rfl
      | false =>
        refine absurd ?_ hdropped
        rw [finish, if_neg (by rw [hoverflow]; exact Bool.false_ne_true), List.append_nil,
          h.all hoverflow]

/-- A line that had been cut before. -/
theorem Sane.wellFormed_cut (h : Sane n w text) (hn : n + 2 ≤ min room maxLine) :
    WellFormed room text true (if !w.overflow then w.ch truncatedMark else w).finish := by
  cases hoverflow : w.overflow with
  | true =>
    have hline := h.wellFormed hn
    have hneeded : w.finish = w.buf ++ [truncatedMark, newline] := by
      rw [finish, if_pos hoverflow, List.append_assoc]
      rfl
    refine ⟨hline.pos, hline.fits, hline.oneNewline, hline.whole, fun _ => ⟨w.buf, hneeded⟩⟩
  | false =>
    have hline := (h.ch (c := truncatedMark) (by decide) (by decide)).wellFormed hn
    refine ⟨hline.pos, hline.fits, hline.oneNewline, hline.whole, fun _ => ?_⟩
    have hmarked : ∃ body, (w.ch truncatedMark).finish = body ++ [truncatedMark, newline] := by
      unfold LineWriter.ch
      split_ifs
      · refine ⟨w.buf, ?_⟩
        rw [finish, if_pos rfl, List.append_assoc]
        rfl
      · refine ⟨w.buf, ?_⟩
        rw [finish, if_neg (by rw [hoverflow]; exact Bool.false_ne_true), List.append_nil,
          List.append_assoc]
        rfl
    exact hmarked

end LineWriter

/-- The payload of a record as text. -/
def payloadText (rec : LogRecord) : List UInt8 :=
  (rec.data.toList.take (if rec.len > 8 then 8 else rec.len.toNat)).flatMap fun b =>
    [hexDigit (b.toNat / 16), hexDigit (b.toNat % 16)]

/-- The line of a record without its newline, were there room for it. -/
def recordText (sources : SourceTable) (rec : LogRecord) (stamp : Bool × UInt64) : List UInt8 :=
  recordToken sources rec ++ (44 :: (LineWriter.stampText stamp.1 stamp.2 ++
    (44 :: (hexText 8 rec.id.toNat ++ (44 :: payloadText rec)))))

/-- The line of a message, likewise. -/
def messageText (level : UInt8) (tag msg : List UInt8) (stamp : Bool × UInt64) : List UInt8 :=
  textToken level ++ (44 :: (LineWriter.stampText stamp.1 stamp.2 ++
    (44 :: (escapedText true tag ++ (44 :: escapedText false msg)))))

theorem notMem_recordText {c : UInt8} (hc : c = 92 ∨ c = newline) (sources : SourceTable)
    (rec : LogRecord) (stamp : Bool × UInt64) : c ∉ recordText sources rec stamp := by
  have hkinds : c ∉ ascii "CLUI" := by rcases hc with rfl | rfl <;> decide
  have hflags : c ∉ ascii "xrts~" := by rcases hc with rfl | rfl <;> decide
  have hdigit : hexVal c = none := by rcases hc with rfl | rfl <;> decide
  have hmark : c ≠ anchorMark := by rcases hc with rfl | rfl <;> decide
  have hcomma : c ≠ 44 := by rcases hc with rfl | rfl <;> decide
  have hhex : ∀ d < 16, c ≠ hexDigit d := by rcases hc with rfl | rfl <;> decide
  have htoken : c ∉ recordToken sources rec := by
    rw [recordToken, List.mem_cons, List.mem_append]
    rintro (rfl | h | h)
    · exact hkinds (kindLetter_mem sources rec.source)
    · exact notMem_hexText hdigit _ _ h
    · exact hflags (mem_flagLetters h)
  have hpayload : c ∉ payloadText rec := by
    intro h
    obtain ⟨b, -, hb⟩ := List.mem_flatMap.mp h
    have hlt := b.toNat_lt
    rcases List.mem_pair.mp hb with hb | hb
    · exact hhex _ (by omega) hb
    · exact hhex _ (by omega) hb
  have hstamp : c ∉ stampText stamp.1 stamp.2 :=
    notMem_stampText hdigit hmark stamp.1 stamp.2
  have hid : c ∉ hexText 8 rec.id.toNat := notMem_hexText hdigit _ _
  rw [recordText]
  simp only [List.mem_append, List.mem_cons, not_or]
  exact ⟨htoken, hcomma, hstamp, hcomma, hid, hcomma, hpayload⟩

theorem notMem_textToken {c : UInt8} (hc : c = 92 ∨ c = newline) (level : UInt8) :
    c ∉ textToken level := by
  have hletter : levelLetter level ∈ ascii "EWICDV?" := by
    unfold levelLetter
    split_ifs <;> decide
  have hletters : c ∉ ascii "EWICDV?" := by rcases hc with rfl | rfl <;> decide
  have hkind : c ≠ 88 := by rcases hc with rfl | rfl <;> decide
  rw [textToken, List.mem_pair]
  rintro (h | rfl)
  · exact hkind h
  · exact hletters hletter

/-- What a formatter returns: nothing and the clock as it was if the room is too small, and
otherwise a line. -/
def Formatted (room : Nat) (clock : DeltaClock) (text : List UInt8) (cut : Bool)
    (out : List UInt8 × DeltaClock) : Prop :=
  if room < minRoom then out = ([], clock) else WellFormed room text cut out.1

theorem formatRecord_formatted (room : Nat) (clock : DeltaClock) (tFull : UInt64) (rec : LogRecord)
    (sources : SourceTable) :
    Formatted room clock (recordText sources rec (clock.encode tFull).1) false
      (formatRecord room clock rec tFull sources) := by
  unfold Formatted
  split_ifs with hroom
  · rw [formatRecord, if_pos hroom]
  · have hline : (formatRecord room clock rec tFull sources).1 =
        ((ofRoom room).raw (recordText sources rec (clock.encode tFull).1)).finish := by
      rw [formatRecord, if_neg hroom]
      simp only [stamp_eq_raw, u32Hex, flags,
        hexBytes, comma_eq_raw, ch_eq_raw,
        ← raw_append]
      simp only [recordText, recordToken, kindLetter, payloadText, List.append_assoc,
        List.cons_append, List.nil_append]
    rw [hline]
    have hsane := (LineWriter.Sane.ofRoom room).raw
      (notMem_recordText (Or.inl rfl) sources rec (clock.encode tFull).1)
      (notMem_recordText (Or.inr rfl) sources rec (clock.encode tFull).1)
    apply hsane.wellFormed
    have hmin : minRoom = 16 := rfl
    have hmax : maxLine = 512 := rfl
    omega

theorem formatText_formatted (room : Nat) (clock : DeltaClock) (tFull : UInt64) (level : UInt8)
    (tag msg : List UInt8) (truncated : Bool) :
    Formatted room clock (messageText level tag msg (clock.encode tFull).1) truncated
      (formatText room clock tFull level tag msg truncated) := by
  unfold Formatted
  split_ifs with hroom
  · rw [formatText, if_pos hroom]
  · generalize hstamp : (clock.encode tFull).1 = stamp
    have hstart : (((((ofRoom room).ch 88).ch (levelLetter level)).ch 44).raw
          (stampText stamp.1 stamp.2)).ch 44 =
        (ofRoom room).raw
          (textToken level ++ 44 :: (stampText stamp.1 stamp.2 ++ [44])) := by
      simp only [ch_eq_raw, ← raw_append, textToken, List.cons_append,
        List.nil_append]
    generalize hw : ((((ofRoom room).raw (textToken level ++ 44 ::
      (stampText stamp.1 stamp.2 ++ [44]))).escaped tag true).ch 44).escaped msg false
      = w
    have hline : (formatText room clock tFull level tag msg truncated).1 =
        (if truncated ∧ !w.overflow then w.ch truncatedMark else w).finish := by
      rw [← hw, formatText, if_neg hroom]
      simp only [stamp_eq_raw, comma, hstamp, hstart]
    have hsane : LineWriter.Sane (min room maxLine - 2) w (messageText level tag msg stamp) := by
      have hstampText : ∀ c : UInt8, c = 92 ∨ c = newline →
          c ∉ textToken level ++ 44 :: (stampText stamp.1 stamp.2 ++ [44]) := by
        intro c hc
        have hdigit : hexVal c = none := by rcases hc with rfl | rfl <;> decide
        have hmark : c ≠ anchorMark := by rcases hc with rfl | rfl <;> decide
        have hcomma : c ≠ 44 := by rcases hc with rfl | rfl <;> decide
        simp only [List.mem_append, List.mem_cons, List.not_mem_nil, or_false, not_or]
        exact ⟨notMem_textToken hc level, hcomma,
          notMem_stampText hdigit hmark stamp.1 stamp.2, hcomma⟩
      have hhead := (LineWriter.Sane.ofRoom room).raw (hstampText 92 (Or.inl rfl))
        (hstampText newline (Or.inr rfl))
      have hbody := ((hhead.escaped tag true).ch (c := 44) (by decide) (by decide)).escaped msg
        false
      rw [← hw]
      simpa only [messageText, List.nil_append, List.append_assoc, List.cons_append] using hbody
    have hn : min room maxLine - 2 + 2 ≤ min room maxLine := by
      have hmin : minRoom = 16 := rfl
      have hmax : maxLine = 512 := rfl
      omega
    rw [hline]
    cases truncated with
    | true =>
      simp only [true_and]
      exact hsane.wellFormed_cut hn
    | false =>
      simp only [Bool.false_eq_true, false_and, if_false]
      exact hsane.wellFormed hn

/-- Record and text lines are well formed, whatever is written. -/
theorem streamLine_formatted (room : Nat) (clock : DeltaClock) (tFull : UInt64) :
    (∀ rec sources, Formatted room clock (recordText sources rec (clock.encode tFull).1) false
      (formatRecord room clock rec tFull sources)) ∧
    ∀ level tag msg truncated,
      Formatted room clock (messageText level tag msg (clock.encode tFull).1) truncated
        (formatText room clock tFull level tag msg truncated) :=
  ⟨formatRecord_formatted room clock tFull, formatText_formatted room clock tFull⟩

end EspCars.SdLogger
