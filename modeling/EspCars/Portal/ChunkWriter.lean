import EspCars.Portal.Emit
import EspCars.Portal.Grammar

/-!
# The chunked writer

`ChunkWriter` of `components/portal/portal_core.h`: how the bytes that the emitter writes are cut
into frames, and what a failed flush leaves of the calls after it. A method is the list of the
`write`s it makes, each of them only if the one before it succeeded. The emitter's strings are read
back by `parse_json_string`, here with the buffer it decodes into.
-/

namespace EspCars.Portal

open EspCars.Lib

/-! ## `ChunkWriter` -/

/-- `buffer` is what `used_` bytes of the buffer hold, `flushed` the frames that `flush_` was called
with so far. -/
structure ChunkWriter where
  capacity : Nat
  buffer : List UInt8 := []
  ok : Bool
  flushed : List (List UInt8) := []
  deriving DecidableEq, Repr

namespace ChunkWriter

def init (hasBuffer hasFlush : Bool) (capacity : Nat) : ChunkWriter :=
  { capacity := capacity, ok := hasBuffer && capacity ≠ 0 && hasFlush }

section

-- what `flush_` answers to its calls, in their order
variable (answer : Nat → Bool)

/-- The call of `flush_`; a frame that is not taken stays in the buffer. -/
def flush (w : ChunkWriter) : ChunkWriter × Bool :=
  if answer w.flushed.length then
    ({ w with buffer := [], flushed := w.flushed ++ [w.buffer] }, true)
  else ({ w with ok := false, flushed := w.flushed ++ [w.buffer] }, false)

/-- The loop of `write` over what is left of the data; a turn takes one byte at least. -/
def writeLoop : Nat → ChunkWriter → List UInt8 → ChunkWriter × Bool
  | 0, w, _ => (w, true)
  | fuel + 1, w, data =>
    if data = [] then (w, true)
    else
      let space := w.capacity - w.buffer.length
      let take := if data.length < space then data.length else space
      let w := { w with buffer := w.buffer ++ data.take take }
      if w.buffer.length = w.capacity then
        match w.flush answer with
        | (w, true) => writeLoop fuel w (data.drop take)
        | (w, false) => (w, false)
      else writeLoop fuel w (data.drop take)

/-- `write` -/
def write (w : ChunkWriter) (data : List UInt8) : ChunkWriter × Bool :=
  if !w.ok then (w, false) else w.writeLoop answer data.length data

/-- The `write`s of a method, up to the first that fails. -/
def writeAll : ChunkWriter → List (List UInt8) → ChunkWriter × Bool
  | w, [] => (w, true)
  | w, piece :: pieces =>
    match w.write answer piece with
    | (w, true) => writeAll w pieces
    | (w, false) => (w, false)

/-- `finish` -/
def finish (w : ChunkWriter) : ChunkWriter × Bool :=
  if !w.ok then (w, false)
  else if 0 < w.buffer.length then w.flush answer
  else (w, true)

end

end ChunkWriter

/-- A call of a method; `none` is a null pointer. -/
inductive WriterCall
  | write (data : List UInt8)
  | literal (text : Option (List UInt8))
  | jsonString (value : Option (List UInt8))
  | numberU32 (value : UInt32)
  | numberFloat (castNan : UInt64) (value : Binary32) (decimals : Int)
  | finish
  deriving DecidableEq

namespace WriterCall

/-- What a method hands to `write`. -/
def pieces : WriterCall → List (List UInt8)
  | .write data => [data]
  | .literal text => (text.map cstr).toList
  | .jsonString value =>
    ascii "\"" :: ((cstr (value.getD [])).map jsonChar ++ [ascii "\""])
  | .numberU32 value => [Portal.numberU32 value]
  | .numberFloat castNan value decimals =>
    let decimals := min decimals.toNat 6
    let scaled := scaledInt castNan value decimals
    (if isBelowZero value then [ascii "-"] else []) ++ (decDigits 20 (scaled / 10 ^ decimals) ::
      if decimals = 0 then [] else [ascii ".", padDigits decimals (scaled % 10 ^ decimals)])
  | .finish => []

/-- The bytes of a call. -/
def text (c : WriterCall) : List UInt8 := c.pieces.flatten

end WriterCall

namespace ChunkWriter

section

variable (answer : Nat → Bool)

/-- A call of the writer. -/
def call (w : ChunkWriter) : WriterCall → ChunkWriter × Bool
  | .finish => w.finish answer
  | c => w.writeAll answer c.pieces

/-- The calls of a caller, and what each of them answers. -/
def run (w : ChunkWriter) : List WriterCall → ChunkWriter × List Bool
  | [] => (w, [])
  | c :: calls =>
    let (w, result) := w.call answer c
    let (w, results) := run w calls
    (w, result :: results)

end

end ChunkWriter

/-- What a method writes is what the emitter says of it. -/
theorem text_jsonString {value : List UInt8} (h : 0 ∉ value) :
    (WriterCall.jsonString (some value)).text = jsonString value := by
  simp [WriterCall.text, WriterCall.pieces, jsonString, cstr_eq_self h, List.flatMap]

/-! ## `parse_json_string` into a buffer -/

/-- The bytes before the terminating NUL, and `*truncated`. -/
structure StringOut where
  bytes : List UInt8 := []
  truncated : Bool := false
  deriving DecidableEq, Repr

def StringOut.put (cap : Nat) (o : StringOut) (ch : UInt8) : StringOut :=
  if o.bytes.length + 1 < cap then { o with bytes := o.bytes ++ [ch] }
  else { o with truncated := true }

/-- The loop of `parse_json_string`. -/
def parseStringLoop (cap : Nat) (o : StringOut) : List UInt8 → Option (StringOut × List UInt8)
  | [] => none
  | ch :: rest =>
    if ch = 0x22 then some (o, rest)
    else if ch < 0x20 then none
    else if ch ≠ 0x5C then parseStringLoop cap (o.put cap ch) rest
    else
      match rest with
      | [] => none
      | 0x75 :: a :: b :: c :: d :: rest =>
        match codePoint? a b c d with
        | none => none
        | some cp => parseStringLoop cap ((decodeEscape cp).foldl (StringOut.put cap) o) rest
      | esc :: rest =>
        match simpleEscape esc with
        | none => none
        | some c => parseStringLoop cap (o.put cap c) rest

def parseJsonStringInto (cap : Nat) : List UInt8 → Option (StringOut × List UInt8)
  | 0x22 :: rest => parseStringLoop cap {} rest
  | _ => none

/-- The buffer is a matter of its own: the decoded bytes go into it one by one. -/
theorem parseStringLoop_eq (cap : Nat) (o : StringOut) (s : List UInt8) :
    parseStringLoop cap o s =
      (parseStringBody s).map fun (d, rest) => (d.foldl (StringOut.put cap) o, rest) := by
  fun_induction parseStringBody s generalizing o with
  | case1 => rfl
  | case2 => rw [parseStringLoop.eq_def]; rfl
  | case3 ch rest hquote hlow => rw [parseStringLoop.eq_def]; simp [hquote, hlow]
  | case4 ch rest hquote hlow hplain ih =>
    rw [parseStringLoop.eq_def]
    simp [hquote, hlow, hplain, ih, Function.comp_def]
  | case5 ch hquote hlow hplain => rw [parseStringLoop.eq_def]; simp [hquote, hlow, hplain]
  | case6 ch hquote hlow hplain a b c d rest hpoint =>
    rw [parseStringLoop.eq_def]
    simp [hquote, hlow, hplain, hpoint]
  | case7 ch hquote hlow hplain a b c d rest cp hpoint ih =>
    rw [parseStringLoop.eq_def]
    simp [hquote, hlow, hplain, hpoint, ih, Function.comp_def]
  | case8 ch hquote hlow hplain esc rest hshort hesc =>
    rw [parseStringLoop.eq_def]
    simp [hquote, hlow, hplain, hesc]
  | case9 ch hquote hlow hplain esc rest hshort c hesc ih =>
    rw [parseStringLoop.eq_def]
    simp [hquote, hlow, hplain, hesc, ih, Function.comp_def]

/-! ## The round trip -/

/-- The control characters, and how each of them is escaped. -/
theorem parseStringBody_control {c : UInt8} (h : c < 0x20) (rest : List UInt8) :
    parseStringBody (jsonChar c ++ rest) =
      (parseStringBody rest).map fun (s, rest) => (c :: s, rest) := by
  obtain ⟨n, hn, rfl⟩ : ∃ n < 32, c = UInt8.ofNat n :=
    ⟨c.toNat, UInt8.lt_iff_toNat_lt.mp h, (UInt8.ofNat_toNat).symm⟩
  interval_cases n <;> (rw [parseStringBody.eq_def]; rfl)

theorem jsonChar_plain {c : UInt8} (hescaped : ¬(c = 0x22 ∨ c = 0x5C)) (hlow : ¬c < 0x20) :
    jsonChar c = [c] := by
  have hne : ∀ d : UInt8, d < 0x20 → c ≠ d := by
    rintro d hd rfl
    exact hlow hd
  unfold jsonChar
  simp [hescaped, hlow, hne _ (show 0x08 < 0x20 by decide), hne _ (show 0x0C < 0x20 by decide),
    hne _ (show 0x0A < 0x20 by decide), hne _ (show 0x0D < 0x20 by decide),
    hne _ (show 0x09 < 0x20 by decide)]

/-- One character, through the branch that escapes it and the one that takes the escape back. -/
theorem parseStringBody_jsonChar (c : UInt8) (rest : List UInt8) :
    parseStringBody (jsonChar c ++ rest) =
      (parseStringBody rest).map fun (s, rest) => (c :: s, rest) := by
  by_cases hlow : c < 0x20
  · exact parseStringBody_control hlow rest
  by_cases hescaped : c = 0x22 ∨ c = 0x5C
  · rcases hescaped with rfl | rfl <;> (rw [parseStringBody.eq_def]; rfl)
  rw [jsonChar_plain hescaped hlow, List.singleton_append, parseStringBody.eq_def]
  rw [not_or] at hescaped
  simp [hescaped, hlow]

theorem parseStringBody_flatMap (s rest : List UInt8) :
    parseStringBody (s.flatMap jsonChar ++ 0x22 :: rest) = some (s, rest) := by
  induction s with
  | nil =>
    rw [List.flatMap_nil, List.nil_append, parseStringBody.eq_def]
    rfl
  | cons c s ih =>
    rw [List.flatMap_cons, List.append_assoc, parseStringBody_jsonChar, ih]
    rfl

/-- What fits is kept whole. -/
theorem foldl_put {cap : Nat} {o : StringOut} {d : List UInt8}
    (h : o.bytes.length + d.length < cap) :
    d.foldl (StringOut.put cap) o = { o with bytes := o.bytes ++ d } := by
  induction d generalizing o with
  | nil => simp
  | cons c d ih =>
    rw [List.length_cons] at h
    have hput : o.put cap c = { o with bytes := o.bytes ++ [c] } := if_pos (by omega)
    rw [List.foldl_cons, hput, ih (by simp; omega)]
    simp

theorem parseJsonStringInto_jsonString {cap : Nat} {s : List UInt8} (h : s.length < cap)
    (rest : List UInt8) :
    parseJsonStringInto cap (jsonString s ++ rest) = some (⟨s, false⟩, rest) := by
  have htext : jsonString s ++ rest = 0x22 :: (s.flatMap jsonChar ++ 0x22 :: rest) := by
    simp [jsonString, ascii]
  rw [htext]
  show parseStringLoop cap {} _ = _
  rw [parseStringLoop_eq, parseStringBody_flatMap]
  simp [foldl_put (o := {}) (by simpa using h)]

/-! ## What a writer holds -/

namespace ChunkWriter

section

variable (answer : Nat → Bool)

/-- A writer that goes on: every flush succeeded, and the buffer has room. -/
structure Open (w : ChunkWriter) (text : List UInt8) : Prop where
  ok : w.ok = true
  room : w.buffer.length < w.capacity
  taken : ∀ i < w.flushed.length, answer i = true
  content : w.flushed.flatten ++ w.buffer = text

/-- A writer whose last flush failed. -/
structure Stopped (w : ChunkWriter) (text : List UInt8) : Prop where
  ok : w.ok = false
  taken : ∀ i, i + 1 < w.flushed.length → answer i = true
  refused : ∃ n, w.flushed.length = n + 1 ∧ answer n = false
  content : w.flushed.flatten <+: text

/-- Where a writer stands that was handed `text`. -/
def Stands (w : ChunkWriter) (text : List UInt8) : Prop :=
  w.Open answer text ∨ w.Stopped answer text

variable {answer} {w : ChunkWriter} {text : List UInt8}

theorem Stands.ok_iff (h : w.Stands answer text) : w.ok = true ↔ w.Open answer text := by
  constructor
  · intro hok
    rcases h with hopen | hstopped
    · exact hopen
    · exact absurd hok (by simp [hstopped.ok])
  · exact Open.ok

/-- More text is no matter for a writer that has stopped. -/
theorem Stopped.append (h : w.Stopped answer text) (data : List UInt8) :
    w.Stopped answer (text ++ data) :=
  { h with content := h.content.trans (List.prefix_append _ _) }

theorem init_open {capacity : Nat} (h : 0 < capacity) :
    (init true true capacity).Open answer [] where
  ok := by simp [init]; omega
  room := by simpa [init] using h
  taken := by simp [init]
  content := by simp [init]

/-! ## One call -/

/-- A flush empties the buffer or stops the writer. -/
theorem flush_stands (hok : w.ok = true) (hcapacity : 0 < w.capacity)
    (htaken : ∀ i < w.flushed.length, answer i = true)
    (hcontent : w.flushed.flatten ++ w.buffer = text) :
    (w.flush answer).1.Stands answer text ∧ (w.flush answer).2 = (w.flush answer).1.ok := by
  unfold flush
  split
  · rename_i hanswer
    refine ⟨.inl ⟨hok, by simpa using hcapacity, ?_, by simpa using hcontent⟩, hok.symm⟩
    intro i hi
    rw [List.length_append, List.length_singleton] at hi
    rcases Nat.lt_succ_iff_lt_or_eq.mp hi with hlt | rfl
    · exact htaken i hlt
    · exact hanswer
  · rename_i hanswer
    refine ⟨.inr ⟨rfl, ?_, ⟨w.flushed.length, by simp, ?_⟩, ?_⟩, rfl⟩
    · intro i hi
      exact htaken i (by simpa using hi)
    · simpa using hanswer
    · simp [← hcontent]

@[simp] theorem flush_capacity : (w.flush answer).1.capacity = w.capacity := by
  unfold flush
  split <;> rfl

@[simp] theorem flush_flushed : (w.flush answer).1.flushed = w.flushed ++ [w.buffer] := by
  unfold flush
  split <;> rfl

/-- Every turn of the loop moves a piece of the data into the buffer, which has room for it. -/
theorem writeLoop_stands {fuel : Nat} {data : List UInt8} (hw : w.Open answer text)
    (hfuel : data.length ≤ fuel) :
    (w.writeLoop answer fuel data).1.Stands answer (text ++ data) ∧
      (w.writeLoop answer fuel data).2 = (w.writeLoop answer fuel data).1.ok := by
  induction fuel generalizing w text data with
  | zero =>
    obtain rfl : data = [] := List.length_eq_zero_iff.mp (by omega)
    rw [writeLoop, List.append_nil]
    exact ⟨.inl hw, hw.ok.symm⟩
  | succ fuel ih =>
    rw [writeLoop]
    by_cases hnil : data = []
    · rw [if_pos hnil, hnil, List.append_nil]
      exact ⟨.inl hw, hw.ok.symm⟩
    rw [if_neg hnil]
    have hroom := hw.room
    have hpos : 0 < data.length := List.length_pos_of_ne_nil hnil
    dsimp only
    set take := if data.length < w.capacity - w.buffer.length then data.length
      else w.capacity - w.buffer.length with htake
    have hbounds : 0 < take ∧ take ≤ data.length ∧ take ≤ w.capacity - w.buffer.length := by
      rw [htake]
      split <;> omega
    have hcontent : w.flushed.flatten ++ (w.buffer ++ data.take take) = text ++ data.take take := by
      rw [← List.append_assoc, hw.content]
    have hlen : (w.buffer ++ data.take take).length = w.buffer.length + take := by
      rw [List.length_append, List.length_take, Nat.min_eq_left hbounds.2.1]
    have hrest : text ++ data = text ++ data.take take ++ data.drop take := by
      rw [List.append_assoc, List.take_append_drop]
    have hshorter : (data.drop take).length ≤ fuel := by
      rw [List.length_drop]
      omega
    rw [hrest]
    split
    · -- the frame is full
      obtain ⟨hstands, hresult⟩ :=
        @flush_stands answer { w with buffer := w.buffer ++ data.take take } _
          hw.ok (by dsimp only; omega) hw.taken hcontent
      split
      · rename_i w' hflush
        rw [hflush] at hstands hresult
        exact ih (hstands.ok_iff.mp hresult.symm) hshorter
      · rename_i w' hflush
        rw [hflush] at hstands hresult
        rcases hstands with hopen | hstopped
        · exact absurd (hresult.trans hopen.ok) (by simp)
        · exact ⟨.inr (hstopped.append _), hresult⟩
    · rename_i hshort
      refine ih ⟨hw.ok, ?_, hw.taken, hcontent⟩ hshorter
      dsimp only at hshort ⊢
      omega

/-- The loop flushes full frames only. -/
theorem writeLoop_frames (fuel : Nat) (w : ChunkWriter) (data : List UInt8) :
    (w.writeLoop answer fuel data).1.capacity = w.capacity ∧
      ∃ frames, (w.writeLoop answer fuel data).1.flushed = w.flushed ++ frames ∧
        ∀ f ∈ frames, f.length = w.capacity := by
  induction fuel generalizing w data with
  | zero => exact ⟨rfl, [], by simp [writeLoop]⟩
  | succ fuel ih =>
    rw [writeLoop]
    split
    · exact ⟨rfl, [], by simp⟩
    dsimp only
    generalize (if data.length < w.capacity - w.buffer.length then data.length
      else w.capacity - w.buffer.length) = take
    split
    · rename_i hfull
      have hcapacity := @flush_capacity answer { w with buffer := w.buffer ++ data.take take }
      have hflushed := @flush_flushed answer { w with buffer := w.buffer ++ data.take take }
      split
      · rename_i w' hflush
        rw [hflush] at hcapacity hflushed
        obtain ⟨hcapacity', frames, hframes, hall⟩ := ih w' (data.drop take)
        dsimp only at hcapacity hflushed
        refine ⟨hcapacity'.trans hcapacity, (w.buffer ++ data.take take) :: frames, ?_, ?_⟩
        · simp [hframes, hflushed]
        · intro f hf
          rcases List.mem_cons.mp hf with rfl | hf
          · exact hfull
          · exact (hall f hf).trans hcapacity
      · rename_i w' hflush
        rw [hflush] at hcapacity hflushed
        exact ⟨hcapacity, [w.buffer ++ data.take take], hflushed, by simpa using hfull⟩
    · exact ih _ _

theorem write_closed (h : w.ok = false) (data : List UInt8) : w.write answer data = (w, false) := by
  simp [write, h]

theorem write_stands (h : w.Stands answer text) (data : List UInt8) :
    (w.write answer data).1.Stands answer (text ++ data) ∧
      (w.write answer data).2 = (w.write answer data).1.ok := by
  rcases h with hopen | hstopped
  · simp only [write, hopen.ok, Bool.not_true, Bool.false_eq_true, if_false]
    exact writeLoop_stands hopen le_rfl
  · rw [write_closed hstopped.ok]
    exact ⟨.inr (hstopped.append data), hstopped.ok.symm⟩

theorem write_frames (w : ChunkWriter) (data : List UInt8) :
    (w.write answer data).1.capacity = w.capacity ∧
      ∃ frames, (w.write answer data).1.flushed = w.flushed ++ frames ∧
        ∀ f ∈ frames, f.length = w.capacity := by
  unfold write
  split
  · exact ⟨rfl, [], by simp⟩
  · exact writeLoop_frames _ w data

theorem writeAll_stands (h : w.Stands answer text) (pieces : List (List UInt8)) :
    (w.writeAll answer pieces).1.Stands answer (text ++ pieces.flatten) := by
  induction pieces generalizing w text with
  | nil => simpa [writeAll] using h
  | cons piece pieces ih =>
    obtain ⟨hstands, hresult⟩ := write_stands h piece
    rw [writeAll, List.flatten_cons, ← List.append_assoc]
    split
    · rename_i w' hwrite
      rw [hwrite] at hstands
      exact ih hstands
    · rename_i w' hwrite
      rw [hwrite] at hstands hresult
      rcases hstands with hopen | hstopped
      · exact absurd (hresult.trans hopen.ok) (by simp)
      · exact .inr (hstopped.append _)

theorem writeAll_frames (w : ChunkWriter) (pieces : List (List UInt8)) :
    (w.writeAll answer pieces).1.capacity = w.capacity ∧
      ∃ frames, (w.writeAll answer pieces).1.flushed = w.flushed ++ frames ∧
        ∀ f ∈ frames, f.length = w.capacity := by
  induction pieces generalizing w with
  | nil => exact ⟨rfl, [], by simp [writeAll]⟩
  | cons piece pieces ih =>
    obtain ⟨hcapacity, frames, hframes, hall⟩ := @write_frames answer w piece
    rw [writeAll]
    split
    · rename_i w' hwrite
      rw [hwrite] at hcapacity hframes
      obtain ⟨hcapacity', frames', hframes', hall'⟩ := ih w'
      dsimp only at hcapacity hframes
      refine ⟨hcapacity'.trans hcapacity, frames ++ frames', by simp [hframes', hframes], ?_⟩
      intro f hf
      rcases List.mem_append.mp hf with hf | hf
      · exact hall f hf
      · exact (hall' f hf).trans hcapacity
    · rename_i w' hwrite
      rw [hwrite] at hcapacity hframes
      exact ⟨hcapacity, frames, hframes, hall⟩

theorem finish_stands (h : w.Stands answer text) :
    (w.finish answer).1.Stands answer text ∧
      ((w.finish answer).1.ok = true → (w.finish answer).1.buffer = []) := by
  rcases h with hopen | hstopped
  · unfold finish
    rw [if_neg (by simp [hopen.ok])]
    split
    · have hcapacity : 0 < w.capacity := by
        have := hopen.room
        omega
      refine ⟨(flush_stands hopen.ok hcapacity hopen.taken hopen.content).1, ?_⟩
      unfold flush
      split <;> simp
    · rename_i hempty
      exact ⟨.inl hopen, fun _ => List.length_eq_zero_iff.mp (Nat.eq_zero_of_not_pos hempty)⟩
  · rw [finish, if_pos (by simp [hstopped.ok])]
    exact ⟨.inr hstopped, fun hok => absurd hok (by simp [hstopped.ok])⟩

/-! ## A run of calls -/

theorem call_stands (h : w.Stands answer text) (c : WriterCall) :
    (w.call answer c).1.Stands answer (text ++ c.text) := by
  cases c with
  | finish =>
    rw [WriterCall.text, WriterCall.pieces, List.flatten_nil, List.append_nil]
    exact (finish_stands h).1
  | _ => exact writeAll_stands h _

theorem call_frames {c : WriterCall} (hc : c ≠ .finish) (w : ChunkWriter) :
    (w.call answer c).1.capacity = w.capacity ∧
      ∃ frames, (w.call answer c).1.flushed = w.flushed ++ frames ∧
        ∀ f ∈ frames, f.length = w.capacity := by
  cases c with
  | finish => exact absurd rfl hc
  | _ => exact writeAll_frames w _

/-- A writer that has stopped refuses all that has something to write. -/
theorem call_closed (h : w.ok = false) (c : WriterCall) :
    w.call answer c = (w, decide (c = .literal none)) := by
  have hwrite (piece : List UInt8) (pieces : List (List UInt8)) :
      w.writeAll answer (piece :: pieces) = (w, false) := by
    rw [writeAll, write_closed h]
  cases c with
  | finish => simp [call, finish, h]
  | literal text =>
    cases text with
    | none => simp [call, WriterCall.pieces, writeAll]
    | some text => simpa [call, WriterCall.pieces] using hwrite _ _
  | numberFloat castNan value decimals =>
    simp only [call, WriterCall.pieces]
    split <;> simpa using hwrite _ _
  | _ => simpa [call, WriterCall.pieces] using hwrite _ _

theorem run_append (w : ChunkWriter) (calls later : List WriterCall) :
    w.run answer (calls ++ later) =
      (((w.run answer calls).1.run answer later).1,
        (w.run answer calls).2 ++ ((w.run answer calls).1.run answer later).2) := by
  induction calls generalizing w with
  | nil => simp [run]
  | cons c calls ih => simp [run, ih]

theorem run_stands (h : w.Stands answer text) (calls : List WriterCall) :
    (w.run answer calls).1.Stands answer (text ++ calls.flatMap WriterCall.text) := by
  induction calls generalizing w text with
  | nil => simpa [run] using h
  | cons c calls ih =>
    rw [List.flatMap_cons, ← List.append_assoc]
    exact ih (call_stands h c)

theorem run_frames {calls : List WriterCall} (hcalls : .finish ∉ calls)
    (h : ∀ f ∈ w.flushed, f.length = w.capacity) :
    (w.run answer calls).1.capacity = w.capacity ∧
      ∀ f ∈ (w.run answer calls).1.flushed, f.length = w.capacity := by
  induction calls generalizing w with
  | nil => exact ⟨rfl, h⟩
  | cons c calls ih =>
    rw [List.mem_cons, not_or] at hcalls
    obtain ⟨hcapacity, frames, hframes, hall⟩ := @call_frames answer c (Ne.symm hcalls.1) w
    rw [run]
    have hnext := ih (w := (w.call answer c).1) hcalls.2 (by
      intro f hf
      rw [hframes] at hf
      rw [hcapacity]
      exact (List.mem_append.mp hf).elim (h f) (hall f))
    rw [hcapacity] at hnext
    exact hnext

theorem run_closed (h : w.ok = false) (calls : List WriterCall) :
    w.run answer calls = (w, calls.map fun c => decide (c = .literal none)) := by
  induction calls with
  | nil => rfl
  | cons c calls ih =>
    rw [run, call_closed h]
    dsimp only
    rw [ih]
    rfl

/-- A failed flush is the last one. -/
theorem Stands.last_refused (h : w.Stands answer text) {i : Nat} (hi : i < w.flushed.length)
    (hanswer : answer i = false) : w.ok = false ∧ i + 1 = w.flushed.length := by
  rcases h with hopen | hstopped
  · exact absurd (hopen.taken i hi) (by simp [hanswer])
  · refine ⟨hstopped.ok, ?_⟩
    by_contra hne
    exact absurd (hstopped.taken i (by omega)) (by simp [hanswer])

theorem finish_frames (w : ChunkWriter) :
    (w.finish answer).1.flushed = w.flushed ∨
      (w.finish answer).1.flushed = w.flushed ++ [w.buffer] := by
  unfold finish
  split
  · exact .inl rfl
  · split
    · exact .inr flush_flushed
    · exact .inl rfl

end

end ChunkWriter

open ChunkWriter in
/-- A string that the emitter wrote is read back whole, however the writer cut it; the frames of
calls and a last `finish` are what was written, and full but for the last one; and after a failed
flush no frame follows, and only the literal that is not there is not refused. -/
theorem json_string_frames (answer : Nat → Bool) {capacity : Nat} (hcapacity : 0 < capacity)
    (calls : List WriterCall) :
    let w := ((init true true capacity).run answer calls).1
    let sent := ((init true true capacity).run answer (calls ++ [.finish])).1.flushed
    (∀ (s rest : List UInt8) (cap : Nat), 0 ∉ s → s.length < cap →
      parseJsonStringInto cap ((WriterCall.jsonString (some s)).text ++ rest) =
        some (⟨s, false⟩, rest)) ∧
    ((∀ i < sent.length, answer i = true) → sent.flatten = calls.flatMap WriterCall.text) ∧
    (.finish ∉ calls → ∀ f ∈ sent.dropLast, f.length = capacity) ∧
    (∀ i < w.flushed.length, answer i = false → i + 1 = w.flushed.length ∧
      ∀ later, w.run answer later = (w, later.map fun c => decide (c = .literal none))) := by
  have hstands : ((init true true capacity).run answer calls).1.Stands answer
      (calls.flatMap WriterCall.text) :=
    @run_stands answer _ [] (.inl (init_open hcapacity)) calls
  have hsent : ((init true true capacity).run answer (calls ++ [.finish])).1 =
      (((init true true capacity).run answer calls).1.finish answer).1 := by
    rw [run_append]
    rfl
  obtain ⟨hfinished, hempty⟩ := finish_stands hstands
  dsimp only
  rw [hsent]
  refine ⟨?_, ?_, ?_, ?_⟩
  · intro s rest cap hs hlen
    rw [text_jsonString hs]
    exact parseJsonStringInto_jsonString hlen rest
  · intro hanswers
    rcases hfinished with hopen | hstopped
    · have hcontent := hopen.content
      rwa [hempty hopen.ok, List.append_nil] at hcontent
    · obtain ⟨n, hn, hrefused⟩ := hstopped.refused
      exact absurd (hanswers n (by omega)) (by simp [hrefused])
  · intro hcalls f hf
    have hframes := (@run_frames answer (init true true capacity) calls hcalls (by simp [init])).2
    rcases @finish_frames answer ((init true true capacity).run answer calls).1 with h | h
    · rw [h] at hf
      exact hframes f (List.mem_of_mem_dropLast hf)
    · rw [h, List.dropLast_concat] at hf
      exact hframes f hf
  · intro i hi hanswer
    obtain ⟨hok, hlast⟩ := hstands.last_refused hi hanswer
    exact ⟨hlast, run_closed hok⟩

theorem json_string_frames_pair :
    0 < 2 ∧
      ((ChunkWriter.init true true 2).run (fun _ => true)
        ([.jsonString (some (ascii "a\\"))] ++ [.finish])).1.flushed =
          [ascii "\"a", ascii "\\\\", ascii "\""] ∧
      ∀ f ∈ ((ChunkWriter.init true true 2).run (fun _ => true)
        ([.jsonString (some (ascii "a\\"))] ++ [.finish])).1.flushed.dropLast, f.length = 2 :=
  ⟨by decide, by decide,
    (json_string_frames (fun _ => true) (by decide) [.jsonString (some (ascii "a\\"))]).2.2.1
      (by simp)⟩

/-- A literal that is not there succeeds after a flush failed, and a `finish` between two writes
sends a short frame. -/
theorem literal_none_after_failure :
    (¬ ∀ (answer : Nat → Bool) (capacity : Nat) (calls later : List WriterCall), 0 < capacity →
      (∃ i < ((ChunkWriter.init true true capacity).run answer calls).1.flushed.length,
        answer i = false) →
      ∀ result ∈ (((ChunkWriter.init true true capacity).run answer calls).1.run answer later).2,
        result = false) ∧
    ¬ ∀ (capacity : Nat) (calls : List WriterCall), 0 < capacity →
      ∀ f ∈ ((ChunkWriter.init true true capacity).run (fun _ => true)
        (calls ++ [.finish])).1.flushed.dropLast, f.length = capacity := by
  constructor
  · intro h
    have hresult := h (fun _ => false) 1 [.write [0x61]] [.literal none] (by decide)
      ⟨0, by decide, rfl⟩ true (by decide)
    cases hresult
  · intro h
    have hlength := h 2 [.write [0x61], .finish, .write [0x62, 0x63]] (by decide) [0x61] (by decide)
    cases hlength

end EspCars.Portal
