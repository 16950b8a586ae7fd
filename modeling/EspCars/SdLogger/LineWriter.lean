import EspCars.Lib.Lines
import EspCars.Lib.Text

/-!
# The line writer

`LineWriter` of `components/sd_logger/log_format.h`: a cursor that drops what does not fit below
its limit and notes it. All emitters but `seq` and `escaped` write their bytes one by one (`raw`),
and what fits is there as it was given (`raw_of_fits`). No emitter writes a newline before `finish`
(`Grows`).
-/

namespace EspCars.SdLogger

open EspCars.Lib

def newline : UInt8 := 10

def maxLine : Nat := 512

def minRoom : Nat := 16

def truncatedMark : UInt8 := 126

def anchorMark : UInt8 := 64

/-- `LineWriter`: a line in a buffer of `limit` bytes. -/
structure LineWriter where
  limit : Nat
  buf : List UInt8 := []
  overflow : Bool := false
  deriving DecidableEq

namespace LineWriter

/-- Two bytes are held back for the mark and the terminator. -/
def init (cap : Nat) : LineWriter := { limit := if cap ≥ 2 then cap - 2 else 0 }

/-- The writer of one line in a buffer with `room` bytes left. -/
def ofRoom (room : Nat) : LineWriter := init (if room < maxLine then room else maxLine)

def ch (w : LineWriter) (c : UInt8) : LineWriter :=
  if w.buf.length ≥ w.limit then { w with overflow := true } else { w with buf := w.buf ++ [c] }

/-- All of `s` or nothing. -/
def seq (w : LineWriter) (s : List UInt8) : LineWriter :=
  if w.buf.length + s.length > w.limit then { w with overflow := true }
  else { w with buf := w.buf ++ s }

/-- `raw` and `str`. -/
def raw (w : LineWriter) (s : List UInt8) : LineWriter := s.foldl ch w

def comma (w : LineWriter) : LineWriter := w.ch 44

/-- The digits of `v`, at most `width` of them. -/
def decDigits : Nat → Nat → List UInt8
  | 0, _ => []
  | width + 1, v =>
    (if v / 10 = 0 then [] else decDigits width (v / 10)) ++ [(48 + v % 10).toUInt8]

/-- A number in decimal digits. -/
def u64 (w : LineWriter) (v : UInt64) : LineWriter := w.raw (decDigits 20 v.toNat)

def u32Hex (w : LineWriter) (v : UInt32) : LineWriter := w.raw (hexText 8 v.toNat)

def u64Hex (w : LineWriter) (v : UInt64) : LineWriter := w.raw (hexText 16 v.toNat)

def stamp (w : LineWriter) (anchor : Bool) (v : UInt64) : LineWriter :=
  if anchor then (w.ch anchorMark).u64Hex v else w.u32Hex v.toUInt32

/-- Bytes in hexadecimal digits. -/
def hexBytes (w : LineWriter) (data : List UInt8) : LineWriter :=
  w.raw (data.flatMap fun b => [hexDigit (b.toNat / 16), hexDigit (b.toNat % 16)])

def flagLetters (f : UInt8) : List UInt8 :=
  (if f &&& 0x01 ≠ 0 then ascii "x" else []) ++ (if f &&& 0x02 ≠ 0 then ascii "r" else []) ++
    (if f &&& 0x04 ≠ 0 then ascii "t" else []) ++ (if f &&& 0x08 ≠ 0 then ascii "s" else []) ++
    (if f &&& 0x80 ≠ 0 then [truncatedMark] else [])

def flags (w : LineWriter) (f : UInt8) : LineWriter := w.raw (flagLetters f)

/-- One byte of untrusted text. -/
def escape (w : LineWriter) (commaToUnderscore : Bool) (c : UInt8) : LineWriter :=
  if w.overflow then w
  else if c = 92 then w.seq (ascii "\\\\")
  else if c = 10 then w.seq (ascii "\\n")
  else if c = 13 then w.seq (ascii "\\r")
  else if c = 9 then w.seq (ascii "\\t")
  else if c = 44 then w.ch (if commaToUnderscore then 95 else 44)
  else if c < 0x20 ∨ c = 0x7F then
    w.seq (ascii "\\x" ++ [hexDigit (c.toNat / 16), hexDigit (c.toNat % 16)])
  else w.ch c

/-- A text with its escapes. -/
def escaped (w : LineWriter) (s : List UInt8) (commaToUnderscore : Bool) : LineWriter :=
  s.foldl (fun w c => w.escape commaToUnderscore c) w

/-- The line, terminator included. -/
def finish (w : LineWriter) : List UInt8 :=
  w.buf ++ (if w.overflow then [truncatedMark] else []) ++ [newline]

/-! ## What fits -/

theorem raw_append (w : LineWriter) (s t : List UInt8) : w.raw (s ++ t) = (w.raw s).raw t :=
  List.foldl_append

theorem ch_eq_raw (w : LineWriter) (c : UInt8) : w.ch c = w.raw [c] := rfl

theorem comma_eq_raw (w : LineWriter) : w.comma = w.raw [44] := rfl

theorem raw_of_fits {w : LineWriter} {s : List UInt8} (h : w.buf.length + s.length ≤ w.limit) :
    w.raw s = { w with buf := w.buf ++ s } := by
  induction s generalizing w with
  | nil => simp [raw]
  | cons c s ih =>
    rw [List.length_cons] at h
    have hch : w.ch c = { w with buf := w.buf ++ [c] } := by
      rw [ch, if_neg (by omega)]
    have hrest := ih (w := { w with buf := w.buf ++ [c] }) (by
      simp only [List.length_append, List.length_singleton]
      omega)
    have hstep : w.raw (c :: s) = (w.ch c).raw s := rfl
    rw [hstep, hch, hrest]
    simp

theorem limit_ofRoom {room : Nat} (h : maxLine ≤ room) : (ofRoom room).limit = 510 := by
  rw [ofRoom, if_neg (Nat.not_lt.mpr h)]
  rfl

/-- The text of a stamp column. -/
def stampText (anchor : Bool) (v : UInt64) : List UInt8 :=
  if anchor then anchorMark :: hexText 16 v.toNat else hexText 8 v.toUInt32.toNat

theorem stamp_eq_raw (w : LineWriter) (anchor : Bool) (v : UInt64) :
    w.stamp anchor v = w.raw (stampText anchor v) := by
  cases anchor <;> rfl

theorem length_stampText_le (anchor : Bool) (v : UInt64) : (stampText anchor v).length ≤ 17 := by
  have h16 := length_hexText_le (by decide : 0 < 16) v.toNat
  have h8 := length_hexText_le (by decide : 0 < 8) v.toUInt32.toNat
  cases anchor
  · exact Nat.le_trans h8 (by decide)
  · rw [stampText, if_pos rfl, List.length_cons]
    omega

theorem notMem_stampText {c : UInt8} (hc : hexVal c = none) (hmark : c ≠ anchorMark)
    (anchor : Bool) (v : UInt64) : c ∉ stampText anchor v := by
  cases anchor
  · exact notMem_hexText hc 8 _
  · rw [stampText, if_pos rfl, List.mem_cons]
    exact not_or.mpr ⟨hmark, notMem_hexText hc 16 _⟩

/-! ## No newline before the end -/

/-- More of the line, and no newline. -/
def Grows (w w' : LineWriter) : Prop := ∃ s, w'.buf = w.buf ++ s ∧ newline ∉ s

namespace Grows

variable (w : LineWriter)

theorem refl : Grows w w := ⟨[], by simp, List.not_mem_nil⟩

theorem trans {w w' w'' : LineWriter} (h : Grows w w') (h' : Grows w' w'') : Grows w w'' := by
  obtain ⟨s, hs, hn⟩ := h
  obtain ⟨s', hs', hn'⟩ := h'
  refine ⟨s ++ s', by rw [hs', hs, List.append_assoc], ?_⟩
  rw [List.mem_append]
  exact not_or.mpr ⟨hn, hn'⟩

theorem ch {c : UInt8} (h : c ≠ newline) : Grows w (w.ch c) := by
  unfold LineWriter.ch
  split_ifs
  · exact ⟨[], by simp, List.not_mem_nil⟩
  · exact ⟨[c], rfl, by simpa using h.symm⟩

theorem seq {s : List UInt8} (h : newline ∉ s) : Grows w (w.seq s) := by
  unfold LineWriter.seq
  split_ifs
  · exact ⟨[], by simp, List.not_mem_nil⟩
  · exact ⟨s, rfl, h⟩

theorem raw {s : List UInt8} (h : newline ∉ s) : Grows w (w.raw s) := by
  induction s generalizing w with
  | nil => exact refl w
  | cons c s ih =>
    obtain ⟨hc, hs⟩ := not_or.mp (List.mem_cons.not.mp h)
    exact (ch w (Ne.symm hc)).trans (ih (w.ch c) hs)

theorem comma : Grows w w.comma := ch w (by decide)

theorem escape (w : LineWriter) (b : Bool) (c : UInt8) : Grows w (w.escape b c) := by
  unfold LineWriter.escape
  split_ifs with _ _ hlf _ _ hcomma
  · exact refl w
  · exact seq w (by decide)
  · exact seq w (by decide)
  · exact seq w (by decide)
  · exact seq w (by decide)
  · exact ch w (by decide)
  · exact ch w (by decide)
  · apply seq w
    have hhex : ∀ d < 16, newline ≠ hexDigit d := by decide
    have hc := c.toNat_lt
    simp only [List.mem_append, List.mem_cons, List.not_mem_nil, or_false]
    rintro (h | h | h)
    · revert h
      decide
    · exact hhex _ (by omega) h
    · exact hhex _ (by omega) h
  · exact ch w hlf

theorem escaped (s : List UInt8) (b : Bool) : Grows w (w.escaped s b) := by
  induction s generalizing w with
  | nil => exact refl w
  | cons c s ih => exact (escape w b c).trans (ih (w.escape b c))

/-- The line is what was there, more without a newline, and the newline. -/
theorem finish {w w' : LineWriter} (h : Grows w w') :
    ∃ s, w'.finish = w.buf ++ s ++ [newline] ∧ newline ∉ s := by
  obtain ⟨s, hs, hn⟩ := h
  refine ⟨s ++ (if w'.overflow then [truncatedMark] else []), ?_, ?_⟩
  · rw [LineWriter.finish, hs]
    simp only [List.append_assoc]
  · rw [List.mem_append]
    refine not_or.mpr ⟨hn, ?_⟩
    split_ifs <;> decide

end Grows

/-! ## The room is enough -/

/-- The line has not passed its limit, which is `n`. -/
def Within (n : Nat) (w : LineWriter) : Prop := w.limit = n ∧ w.buf.length ≤ n

namespace Within

variable {n : Nat} {w : LineWriter}

theorem seq (h : Within n w) (s : List UInt8) : Within n (w.seq s) := by
  unfold LineWriter.seq
  obtain ⟨hlimit, hlen⟩ := h
  split_ifs with hfull
  · exact ⟨hlimit, hlen⟩
  · refine ⟨hlimit, ?_⟩
    rw [List.length_append]
    omega

/-- Two bytes were held back. -/
theorem length_finish (h : Within n w) : w.finish.length ≤ n + 2 := by
  obtain ⟨-, hlen⟩ := h
  rw [finish, List.length_append, List.length_append, List.length_singleton]
  have hmark : (if w.overflow = true then [truncatedMark] else []).length ≤ 1 := by
    split_ifs
    · exact Nat.le_refl _
    · exact Nat.zero_le _
  omega

end Within

end LineWriter

end EspCars.SdLogger
