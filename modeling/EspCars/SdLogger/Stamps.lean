import EspCars.Lib.Run
import EspCars.SdLogger.LogFormat

/-!
# Stamps survive the delta coding

A file is written by the writer's calls, each of which first makes sure of the room for a longest
line. The reader sees bytes: it splits them into lines, skips the meta lines, takes the second
field of every other line and keeps the last time. `encodeAll` is what the chain makes of a list of
times, and the stamp column of a file is `encodeAll` of the times that were written.
-/

namespace EspCars.SdLogger

open EspCars.Lib LineWriter DeltaClock

/-! ## The reader -/

/-- A time as the file has it. -/
inductive Stamp
  | anchor (t : Nat)
  | step (d : Nat)
  deriving DecidableEq, Repr

def parseStamp : List UInt8 → Option Stamp
  | [] => none
  | c :: s =>
    if c = anchorMark then (if s = [] then none else (hexFrom 0 s).map .anchor)
    else (hexFrom 0 (c :: s)).map .step

/-- The stamps of the stream lines. -/
def stampColumn (bytes : List UInt8) : List (Option Stamp) :=
  ((lines newline bytes).filter (!isMeta ·)).map fun line => (fields line)[1]?.bind parseStamp

/-- The times of the stream lines, from the last time on. -/
def resolve : Option Nat → List (Option Stamp) → Option (List Nat)
  | _, [] => some []
  | _, some (.anchor t) :: stamps => (resolve (some t) stamps).map (t :: ·)
  | some last, some (.step d) :: stamps =>
    (resolve (some (last + d)) stamps).map ((last + d) :: ·)
  | _, _ => none

/-! ## The writer -/

/-- A meta line without its terminator. -/
structure MetaLine where
  text : List UInt8
  marked : isMeta text = true
  oneLine : newline ∉ text

/-- A call that writes a line. -/
inductive Write
  | record (room : Nat) (rec : LogRecord) (tFull : UInt64)
  | text (room : Nat) (tFull : UInt64) (level : UInt8) (tag msg : List UInt8) (truncated : Bool)
  | metaLine (line : MetaLine)

/-- The file and the clock of its writer. -/
structure LogFile where
  clock : DeltaClock := {}
  bytes : List UInt8 := []

/-- `write_record_`, `write_text_` and the markers: `ensure_room_(SD_LOG_MAX_LINE)` comes first. -/
def LogFile.write (sources : SourceTable) (f : LogFile) : Write → LogFile
  | .record room rec tFull =>
    if room < maxLine then f
    else
      let (line, clock) := formatRecord room f.clock rec tFull sources
      { clock, bytes := f.bytes ++ line }
  | .text room tFull level tag msg truncated =>
    if room < maxLine then f
    else
      let (line, clock) := formatText room f.clock tFull level tag msg truncated
      { clock, bytes := f.bytes ++ line }
  | .metaLine line => { f with bytes := f.bytes ++ line.text ++ [newline] }

/-- The time of the stream line that is written, if one is. -/
def Write.time : Write → Option UInt64
  | .record room _ tFull => if room < maxLine then none else some tFull
  | .text room tFull _ _ _ _ => if room < maxLine then none else some tFull
  | .metaLine _ => none

/-! ## The chain -/

/-- The stamps that the chain makes of a list of times. -/
def encodeAll (c : DeltaClock) : List UInt64 → List (Bool × UInt64)
  | [] => []
  | t :: ts => (c.encode t).1 :: encodeAll (c.encode t).2 ts

def toStamp (e : Bool × UInt64) : Stamp := if e.1 then .anchor e.2.toNat else .step e.2.toNat

variable {e : Bool × UInt64} {c : DeltaClock} {ts : List UInt64} {room : Nat}

theorem of_toStamp_step {d : Nat} (h : toStamp e = .step d) : e.1 = false ∧ e.2.toNat = d := by
  unfold toStamp at h
  split_ifs at h with he
  exact ⟨by simpa using he, Stamp.step.inj h⟩

namespace DeltaClock

variable {c : DeltaClock} {t : UInt64}

theorem encode_anchor (h : c.needsAnchor t = true) :
    c.encode t = ((true, t), ⟨t, 0, true⟩) := by
  simp [encode, h]

theorem encode_step (h : c.needsAnchor t = false) :
    c.encode t = ((false, t - c.prev), ⟨t, c.run + 1, true⟩) := by
  simp [encode, h]

theorem of_step (h : c.needsAnchor t = false) :
    c.started = true ∧ c.prev ≤ t ∧ t - c.prev ≤ resyncUs ∧ c.run < anchorEvery := by
  simpa [needsAnchor, and_assoc] using h

/-- At most `SD_LOG_ANCHOR_EVERY` steps have followed the last anchor. -/
def Bounded (c : DeltaClock) : Prop := c.run.toNat ≤ 256

theorem bounded_encode (c : DeltaClock) (t : UInt64) : (c.encode t).2.Bounded := by
  cases ha : c.needsAnchor t with
  | true =>
    rw [encode_anchor ha]
    exact Nat.zero_le _
  | false =>
    obtain ⟨_, _, _, hrun⟩ := of_step ha
    have hlt : c.run.toNat < 256 := UInt32.lt_iff_toNat_lt.mp hrun
    rw [encode_step ha]
    simp only [Bounded, UInt32.toNat_add, UInt32.toNat_one]
    omega

end DeltaClock

theorem step_le_of_mem {v : UInt64} (h : (false, v) ∈ encodeAll c ts) : v ≤ resyncUs := by
  induction ts generalizing c with
  | nil => cases h
  | cons t ts ih =>
    rcases List.mem_cons.mp h with h | h
    · cases ha : c.needsAnchor t with
      | true =>
        rw [encode_anchor ha] at h
        cases h
      | false =>
        rw [encode_step ha] at h
        cases h
        exact (of_step ha).2.2.1
    · exact ih h

/-- Adding steps and replacing at anchors gives the times back. -/
theorem resolve_encodeAll (c : DeltaClock) (ts : List UInt64) {last : Option Nat}
    (hlast : c.started = true → last = some c.prev.toNat) :
    resolve last ((encodeAll c ts).map fun e => some (toStamp e)) = some (ts.map (·.toNat)) := by
  induction ts generalizing c last with
  | nil =>
    cases last <;> rfl
  | cons t ts ih =>
    have hrest := @ih (c.encode t).2 (some t.toNat) (fun _ => rfl)
    rw [encodeAll, List.map_cons]
    cases ha : c.needsAnchor t with
    | true =>
      rw [encode_anchor ha] at hrest ⊢
      have hresolve : resolve last (some (.anchor t.toNat) ::
          (encodeAll ⟨t, 0, true⟩ ts).map fun e => some (toStamp e)) =
          (some (ts.map (·.toNat))).map (t.toNat :: ·) := by
        rw [← hrest]
        cases last <;> rfl
      exact hresolve
    | false =>
      obtain ⟨hstarted, hle, _, _⟩ := of_step ha
      have hsum : c.prev.toNat + (t - c.prev).toNat = t.toNat := by
        rw [UInt64.toNat_sub_of_le _ _ hle]
        have hle' : c.prev.toNat ≤ t.toNat := UInt64.le_iff_toNat_le.mp hle
        omega
      rw [encode_step ha] at hrest ⊢
      have hresolve : resolve (some c.prev.toNat) (some (.step (t - c.prev).toNat) ::
          (encodeAll ⟨t, c.run + 1, true⟩ ts).map fun e => some (toStamp e)) =
          (some (ts.map (·.toNat))).map (t.toNat :: ·) := by
        rw [← hrest, resolve, hsum]
      rw [hlast hstarted]
      exact hresolve

theorem head_encodeAll (hc : c.started = false) (h : (encodeAll c ts).head? = some e) :
    e.1 = true := by
  cases ts with
  | nil => cases h
  | cons t ts =>
    have ha : c.needsAnchor t = true := by simp [needsAnchor, hc]
    rw [encodeAll, encode_anchor ha, List.head?_cons, Option.some.injEq] at h
    rw [← h]

/-- The steps that a chain starts with, on top of those since its last anchor. -/
theorem length_steps_le (hc : c.Bounded)
    {steps post : List (Bool × UInt64)} (h : encodeAll c ts = steps ++ post)
    (hsteps : ∀ e ∈ steps, e.1 = false) : c.run.toNat + steps.length ≤ 256 := by
  induction ts generalizing c steps with
  | nil =>
    have hnil : steps = [] := (List.append_eq_nil_iff.mp h.symm).1
    rw [hnil]
    exact hc
  | cons t ts ih =>
    cases steps with
    | nil => exact hc
    | cons e steps =>
      rw [encodeAll, List.cons_append, List.cons.injEq] at h
      have he := hsteps e (List.mem_cons_self ..)
      rw [← h.1] at he
      have ha : c.needsAnchor t = false := he
      have hrest := ih (c.bounded_encode t) h.2 (fun x hx => hsteps x (List.mem_cons_of_mem _ hx))
      obtain ⟨_, _, _, hrun⟩ := of_step ha
      have hlt : c.run.toNat < 256 := UInt32.lt_iff_toNat_lt.mp hrun
      rw [encode_step ha] at hrest
      simp only [UInt32.toNat_add, UInt32.toNat_one] at hrest
      rw [List.length_cons]
      omega

theorem length_run_le (hc : c.Bounded)
    {pre steps post : List (Bool × UInt64)} (h : encodeAll c ts = pre ++ steps ++ post)
    (hsteps : ∀ e ∈ steps, e.1 = false) : steps.length ≤ 256 := by
  induction pre generalizing c ts with
  | nil =>
    rw [List.nil_append] at h
    have hle := length_steps_le hc h hsteps
    omega
  | cons e pre ih =>
    cases ts with
    | nil => cases h
    | cons t ts =>
      rw [encodeAll, List.cons_append, List.cons_append, List.cons.injEq] at h
      exact ih (c.bounded_encode t) h.2

/-! ## Lines -/

theorem parseStamp_stampText {anchor : Bool} {v : UInt64} (h : anchor = false → v ≤ resyncUs) :
    parseStamp (stampText anchor v) = some (toStamp (anchor, v)) := by
  cases anchor with
  | true =>
    have hv : v.toNat < 16 ^ 16 := v.toNat_lt
    rw [stampText, if_pos rfl, parseStamp, if_pos rfl,
      if_neg (hexText_ne_nil (by decide) _), hexFrom_hexText hv]
    rfl
  | false =>
    have hle : v.toNat ≤ 1000000 := UInt64.le_iff_toNat_le.mp (h rfl)
    have hv : v.toUInt32.toNat = v.toNat := by
      rw [UInt64.toNat_toUInt32]
      omega
    have hlt : v.toUInt32.toNat < 16 ^ 8 := v.toUInt32.toNat_lt
    have hmark : anchorMark ∉ hexText 8 v.toUInt32.toNat := notMem_hexText (by decide) 8 _
    have hparse := hexFrom_hexText hlt
    have htext : stampText false v = hexText 8 v.toUInt32.toNat := rfl
    rw [htext]
    cases hs : hexText 8 v.toUInt32.toNat with
    | nil => exact absurd hs (hexText_ne_nil (by decide) _)
    | cons c s =>
      rw [hs] at hmark hparse
      have hc : c ≠ anchorMark := fun hc => hmark (hc ▸ List.mem_cons_self ..)
      rw [parseStamp, if_neg hc, hparse, hv]
      rfl

/-- A stream line with the stamp `e`, without its terminator. -/
def IsStream (line : List UInt8) (e : Bool × UInt64) : Prop :=
  ∃ token rest, line = token ++ 44 :: (LineWriter.stampText e.1 e.2 ++ 44 :: rest) ∧
    44 ∉ token ∧ newline ∉ token ∧ newline ∉ rest ∧ isMeta line = false

theorem IsStream.oneLine {line : List UInt8} (h : IsStream line e) : newline ∉ line := by
  obtain ⟨token, rest, rfl, _, htoken, hrest, _⟩ := h
  have hstamp := notMem_stampText (c := newline) (by decide) (by decide) e.1 e.2
  simp only [List.mem_append, List.mem_cons, not_or]
  exact ⟨htoken, by decide, hstamp, by decide, hrest⟩

theorem IsStream.stamp {line : List UInt8} (h : IsStream line e) :
    (fields line)[1]? = some (stampText e.1 e.2) := by
  obtain ⟨token, rest, rfl, hcomma, _, _, _⟩ := h
  have hstamp := notMem_stampText (c := 44) (by decide) (by decide) e.1 e.2
  rw [fields, lines_append hcomma, lines_append hstamp]
  rfl

/-- The line up to the comma behind the stamp. -/
def lineStart (token : List UInt8) (e : Bool × UInt64) : List UInt8 :=
  token ++ 44 :: (LineWriter.stampText e.1 e.2 ++ [44])

/-- Bytes that a token consists of. -/
def TokenText (token : List UInt8) : Prop :=
  token.length ≤ 32 ∧ 35 ∉ token ∧ 44 ∉ token ∧ newline ∉ token

/-- Whatever a writer adds after the token and the stamp, the line is a stream line. -/
theorem isStream_of_grows (hroom : maxLine ≤ room) {token : List UInt8}
    (htoken : TokenText token) (e : Bool × UInt64) {w : LineWriter}
    (hw : LineWriter.Grows ((ofRoom room).raw (lineStart token e)) w) :
    ∃ line, w.finish = line ++ [newline] ∧ IsStream line e := by
  obtain ⟨hlen, hhash, hcomma, hnl⟩ := htoken
  have hstamp := length_stampText_le e.1 e.2
  have hbuf : (ofRoom room).buf = [] := rfl
  have hfits : (ofRoom room).buf.length + (lineStart token e).length ≤
      (ofRoom room).limit := by
    rw [limit_ofRoom hroom, hbuf]
    simp only [lineStart, List.length_nil, List.length_append, List.length_cons]
    omega
  obtain ⟨rest, hfinish, hrest⟩ := hw.finish
  rw [raw_of_fits hfits, hbuf, List.nil_append] at hfinish
  refine ⟨_, hfinish, token, rest, ?_, hcomma, hnl, hrest, ?_⟩
  · simp only [lineStart, List.append_assoc, List.cons_append, List.nil_append]
  · cases token with
    | nil => rfl
    | cons c token =>
      have hc : c ≠ 35 := fun hc => hhash (hc ▸ List.mem_cons_self ..)
      simpa [lineStart, isMeta] using hc

/-! ### Records -/

theorem mem_flagLetters {c : UInt8} {f : UInt8} (h : c ∈ flagLetters f) :
    c ∈ ascii "xrts~" := by
  simp only [flagLetters, List.mem_append] at h
  rcases h with (((h | h) | h) | h) | h <;> split_ifs at h <;>
    first
    | cases h; done
    | rw [List.mem_singleton.mp h]; decide

theorem length_flagLetters_le (f : UInt8) : (flagLetters f).length ≤ 5 := by
  simp only [flagLetters, List.length_append]
  split_ifs <;> decide

/-- The letter of the source. -/
def kindLetter (sources : SourceTable) (source : UInt8) : UInt8 :=
  ((sources.lookup source).map (·.kind.letter)).getD SourceKind.user.letter

theorem kindLetter_mem (sources : SourceTable) (source : UInt8) :
    kindLetter sources source ∈ ascii "CLUI" := by
  unfold kindLetter
  cases sources.lookup source with
  | none => decide
  | some entry =>
    rw [Option.map_some, Option.getD_some]
    cases entry.kind <;> decide

def recordToken (sources : SourceTable) (rec : LogRecord) : List UInt8 :=
  kindLetter sources rec.source ::
    (hexText 8 rec.source.toUInt32.toNat ++ LineWriter.flagLetters rec.flags)

theorem notMem_recordToken {c : UInt8} (hc : c ∉ ascii "CLUI") (hhex : hexVal c = none)
    (hflag : c ∉ ascii "xrts~") (sources : SourceTable) (rec : LogRecord) :
    c ∉ recordToken sources rec := by
  intro hmem
  rcases List.mem_cons.mp hmem with rfl | hmem
  · exact hc (kindLetter_mem sources rec.source)
  · rcases List.mem_append.mp hmem with hmem | hmem
    · exact notMem_hexText hhex _ _ hmem
    · exact hflag (mem_flagLetters hmem)

theorem tokenText_record (sources : SourceTable) (rec : LogRecord) :
    TokenText (recordToken sources rec) := by
  have hlen := length_hexText_le (by decide : 0 < 8) rec.source.toUInt32.toNat
  have hflags := length_flagLetters_le rec.flags
  refine ⟨?_, notMem_recordToken (by decide) (by decide) (by decide) _ _,
    notMem_recordToken (by decide) (by decide) (by decide) _ _,
    notMem_recordToken (by decide) (by decide) (by decide) _ _⟩
  rw [recordToken, List.length_cons, List.length_append]
  omega

theorem notMem_hexBytes (data : List UInt8) :
    newline ∉ data.flatMap fun b => [hexDigit (b.toNat / 16), hexDigit (b.toNat % 16)] := by
  have hhex : ∀ d < 16, newline ≠ hexDigit d := by decide
  intro h
  obtain ⟨b, _, hb⟩ := List.mem_flatMap.mp h
  have hlt := b.toNat_lt
  rcases List.mem_pair.mp hb with hb | hb
  · exact hhex _ (by omega) hb
  · exact hhex _ (by omega) hb

theorem formatRecord_line (hroom : maxLine ≤ room) (clock : DeltaClock)
    (rec : LogRecord) (tFull : UInt64) (sources : SourceTable) :
    ∃ line, formatRecord room clock rec tFull sources =
      (line ++ [newline], (clock.encode tFull).2) ∧ IsStream line (clock.encode tFull).1 := by
  have hmin : ¬ room < minRoom := by
    simp only [maxLine, minRoom] at *
    omega
  generalize hstart : (ofRoom room).raw
    (lineStart (recordToken sources rec) (clock.encode tFull).1) = start
  have hgrows : LineWriter.Grows start (((start.u32Hex rec.id).comma).hexBytes
      (rec.data.toList.take (if rec.len > 8 then 8 else rec.len.toNat))) :=
    ((LineWriter.Grows.raw _ (notMem_hexText (by decide) 8 _)).trans
      (LineWriter.Grows.comma _)).trans (LineWriter.Grows.raw _ (notMem_hexBytes _))
  have heq : formatRecord room clock rec tFull sources =
      ((((start.u32Hex rec.id).comma).hexBytes
        (rec.data.toList.take (if rec.len > 8 then 8 else rec.len.toNat))).finish,
        (clock.encode tFull).2) := by
    rw [← hstart, formatRecord, if_neg hmin]
    simp only [stamp_eq_raw, u32Hex, flags,
      comma_eq_raw, ch_eq_raw, ← raw_append]
    simp only [lineStart, recordToken, kindLetter, List.append_assoc, List.cons_append,
      List.nil_append]
  rw [← hstart] at hgrows
  obtain ⟨line, hline, hstream⟩ := isStream_of_grows hroom (tokenText_record sources rec) _ hgrows
  refine ⟨line, ?_, hstream⟩
  rw [heq, ← hstart, hline]

/-! ### Text -/

def textToken (level : UInt8) : List UInt8 := [88, levelLetter level]

theorem tokenText_text (level : UInt8) : TokenText (textToken level) := by
  have hletter : levelLetter level ∈ ascii "EWICDV?" := by
    unfold levelLetter
    split_ifs <;> decide
  have hnot : ∀ c : UInt8, c ≠ 88 → c ∉ ascii "EWICDV?" → c ∉ textToken level := by
    intro c h88 hc hmem
    rcases List.mem_pair.mp hmem with hmem | rfl
    · exact h88 hmem
    · exact hc hletter
  exact ⟨(by decide : 2 ≤ 32), hnot 35 (by decide) (by decide), hnot 44 (by decide) (by decide),
    hnot newline (by decide) (by decide)⟩

theorem formatText_line (hroom : maxLine ≤ room) (clock : DeltaClock)
    (tFull : UInt64) (level : UInt8) (tag msg : List UInt8) (truncated : Bool) :
    ∃ line, formatText room clock tFull level tag msg truncated =
      (line ++ [newline], (clock.encode tFull).2) ∧ IsStream line (clock.encode tFull).1 := by
  have hmin : ¬ room < minRoom := by
    simp only [maxLine, minRoom] at *
    omega
  generalize hstart : (ofRoom room).raw
    (lineStart (textToken level) (clock.encode tFull).1) = start
  generalize hbody : ((start.escaped tag true).comma).escaped msg false = body
  have hgrows : LineWriter.Grows start
      (if truncated ∧ !body.overflow then body.ch truncatedMark else body) := by
    have hbody' : LineWriter.Grows start body := by
      rw [← hbody]
      exact ((LineWriter.Grows.escaped _ _ _).trans (LineWriter.Grows.comma _)).trans
        (LineWriter.Grows.escaped _ _ _)
    split_ifs
    · exact hbody'.trans (LineWriter.Grows.ch _ (by decide))
    · exact hbody'
  have heq : formatText room clock tFull level tag msg truncated =
      ((if truncated ∧ !body.overflow then body.ch truncatedMark else body).finish,
        (clock.encode tFull).2) := by
    rw [← hbody, ← hstart, formatText, if_neg hmin]
    simp only [stamp_eq_raw, comma_eq_raw, ch_eq_raw,
      ← raw_append]
    simp only [lineStart, textToken, List.cons_append, List.nil_append]
    rfl
  rw [← hstart] at hgrows
  obtain ⟨line, hline, hstream⟩ := isStream_of_grows hroom (tokenText_text level) _ hgrows
  refine ⟨line, ?_, hstream⟩
  rw [heq, hline]

/-! ## Files -/

/-- Complete lines, with these stamps. -/
structure Holds (bytes : List UInt8) (es : List (Bool × UInt64)) : Prop where
  complete : unfinished newline bytes = []
  column : stampColumn bytes = es.map fun e => some (toStamp e)

theorem Holds.stream {bytes line : List UInt8} {es : List (Bool × UInt64)} (h : Holds bytes es)
    {e : Bool × UInt64} (hline : IsStream line e) (hstep : e.1 = false → e.2 ≤ resyncUs) :
    Holds (bytes ++ (line ++ [newline])) (es ++ [e]) := by
  obtain ⟨hlines, hrest⟩ := lines_concat h.complete hline.oneLine
  have hmeta : isMeta line = false := by
    obtain ⟨_, _, _, _, _, _, hmeta⟩ := hline
    exact hmeta
  refine ⟨hrest, ?_⟩
  rw [stampColumn, hlines, List.filter_append, List.map_append, List.map_append, ← h.column]
  simp only [stampColumn, List.filter_cons, hmeta, Bool.not_false, if_true, List.filter_nil,
    List.map_cons, List.map_nil, hline.stamp, Option.bind_some, parseStamp_stampText hstep]

theorem Holds.metaLine {bytes : List UInt8} {es : List (Bool × UInt64)} (h : Holds bytes es)
    (line : MetaLine) : Holds (bytes ++ line.text ++ [newline]) es := by
  rw [List.append_assoc]
  obtain ⟨hlines, hrest⟩ := lines_concat h.complete line.oneLine
  refine ⟨hrest, ?_⟩
  rw [stampColumn, hlines, List.filter_append, List.map_append, ← h.column]
  simp only [stampColumn, List.filter_cons, line.marked, Bool.not_true, Bool.false_eq_true, if_false,
    List.filter_nil, List.map_nil, List.append_nil]

/-- The clock behind the writes. -/
def clockAfter (c : DeltaClock) (ts : List UInt64) : DeltaClock :=
  exec (fun c t => (c.encode t).2) c ts

theorem encodeAll_append (c : DeltaClock) (ts : List UInt64) (t : UInt64) :
    encodeAll c (ts ++ [t]) = encodeAll c ts ++ [((clockAfter c ts).encode t).1] := by
  induction ts generalizing c with
  | nil => rfl
  | cons t' ts ih => simp only [List.cons_append, encodeAll, ih, clockAfter, exec_cons]

theorem clockAfter_append (c : DeltaClock) (ts : List UInt64) (t : UInt64) :
    clockAfter c (ts ++ [t]) = ((clockAfter c ts).encode t).2 := by
  rw [clockAfter, exec_append]
  rfl

/-- The file holds the chain of these times, and its clock is where the chain ends. -/
structure Chained (f : LogFile) (ts : List UInt64) : Prop where
  clock : f.clock = clockAfter {} ts
  holds : Holds f.bytes (encodeAll {} ts)

theorem Chained.stream {f : LogFile} {ts : List UInt64} (h : Chained f ts) {t : UInt64}
    {line : List UInt8} (hline : IsStream line (f.clock.encode t).1) :
    Chained ⟨(f.clock.encode t).2, f.bytes ++ (line ++ [newline])⟩ (ts ++ [t]) := by
  refine ⟨?_, ?_⟩
  · rw [clockAfter_append, ← h.clock]
  · rw [encodeAll_append, ← h.clock]
    apply h.holds.stream hline
    intro hstep
    have ha : f.clock.needsAnchor t = false := hstep
    rw [encode_step ha]
    exact (of_step ha).2.2.1

/-- One write appends its time, if it has one. -/
theorem Chained.write {f : LogFile} (h : Chained f ts) (sources : SourceTable)
    (x : Write) : Chained (f.write sources x) (ts ++ x.time.toList) := by
  cases x with
  | record room rec tFull =>
    by_cases hroom : room < maxLine
    · simp only [LogFile.write, Write.time, hroom, if_true, Option.toList_none, List.append_nil]
      exact h
    · obtain ⟨line, heq, hline⟩ :=
        formatRecord_line (Nat.not_lt.mp hroom) f.clock rec tFull sources
      simp only [LogFile.write, Write.time, hroom, if_false, heq, Option.toList_some]
      exact h.stream hline
  | text room tFull level tag msg truncated =>
    by_cases hroom : room < maxLine
    · simp only [LogFile.write, Write.time, hroom, if_true, Option.toList_none, List.append_nil]
      exact h
    · obtain ⟨line, heq, hline⟩ :=
        formatText_line (Nat.not_lt.mp hroom) f.clock tFull level tag msg truncated
      simp only [LogFile.write, Write.time, hroom, if_false, heq, Option.toList_some]
      exact h.stream hline
  | metaLine line =>
    simp only [LogFile.write, Write.time, Option.toList_none, List.append_nil]
    exact ⟨h.clock, h.holds.metaLine line⟩

theorem Chained.run {f : LogFile} {ts : List UInt64} (h : Chained f ts) (sources : SourceTable)
    (writes : List Write) :
    Chained (exec (LogFile.write sources) f writes) (ts ++ writes.filterMap Write.time) := by
  induction writes generalizing f ts with
  | nil =>
    rw [List.filterMap_nil, List.append_nil]
    exact h
  | cons x writes ih =>
    have hrest := ih (h.write sources x)
    rw [List.append_assoc] at hrest
    rw [exec_cons]
    convert hrest using 2
    cases hx : x.time <;> simp [hx]

/-- The reader gets the written times back; every step is at most a second, a file starts with an
anchor, and no more than 256 steps follow one. -/
theorem stamps_survive (sources : SourceTable) (writes : List Write) :
    let column := stampColumn (exec (LogFile.write sources) {} writes).bytes
    resolve none column = some ((writes.filterMap Write.time).map (·.toNat)) ∧
    (∀ d, some (.step d) ∈ column → d ≤ 1000000) ∧
    (∀ s, column.head? = some s → ∃ t, s = some (.anchor t)) ∧
    (∀ pre steps post, column = pre ++ steps ++ post →
      (∀ s ∈ steps, ∃ d, s = some (.step d)) → steps.length ≤ 256) := by
  have hstart : Chained {} [] := ⟨rfl, rfl, rfl⟩
  have hcolumn := (hstart.run sources writes).holds.column
  rw [List.nil_append] at hcolumn
  generalize writes.filterMap Write.time = ts at hcolumn ⊢
  intro column
  have hc : column = (encodeAll {} ts).map fun e => some (toStamp e) := hcolumn
  refine ⟨?_, fun d hd => ?_, fun s hs => ?_, fun pre steps post heq hsteps => ?_⟩
  · rw [hc]
    exact resolve_encodeAll {} ts (fun h => by cases h)
  · rw [hc] at hd
    obtain ⟨e, he, heq⟩ := List.mem_map.mp hd
    obtain ⟨hstep, rfl⟩ := of_toStamp_step (Option.some.inj heq)
    have hle : e.2 ≤ resyncUs := step_le_of_mem (by rw [← hstep]; exact he)
    exact UInt64.le_iff_toNat_le.mp hle
  · rw [hc, List.head?_map, Option.map_eq_some_iff] at hs
    obtain ⟨e, he, rfl⟩ := hs
    exact ⟨e.2.toNat, congrArg some (if_pos (head_encodeAll rfl he))⟩
  · rw [hc, List.map_eq_append_iff] at heq
    obtain ⟨front, back, hfront, hpre, -⟩ := heq
    obtain ⟨first, second, rfl, -, hsecond⟩ := List.map_eq_append_iff.mp hpre
    rw [← hsecond, List.length_map]
    apply length_run_le (Nat.zero_le _) hfront
    intro e he
    obtain ⟨d, hd⟩ := hsteps (some (toStamp e)) (by
      rw [← hsecond]
      exact List.mem_map_of_mem he)
    exact (of_toStamp_step (Option.some.inj hd)).1

end EspCars.SdLogger
