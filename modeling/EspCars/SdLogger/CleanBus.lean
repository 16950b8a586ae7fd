import EspCars.SdLogger.CardReset

/-!
# The bus behind a reset

Whatever the card answers: what `card_reset` and `card_probe_ready` send is idle bytes and a few
commands, the token that ends a write goes out once at most and behind a busy wait in which the card
has let go, and chip select is not asserted when they return.
-/

namespace EspCars.SdLogger

open EspCars.Lib

/-! ## The checksum of a command -/

/-- The first `n` bits of a byte from its high end, each at the high end of a register of 7 bits. -/
def highBits : Nat → UInt8 → List (BitVec 7)
  | 0, _ => []
  | n + 1, b => (if b.toBitVec.msb then 64#7 else 0#7) :: highBits n (b <<< 1)

/-- CRC-7 with the polynomial `x^7 + x^3 + 1`. -/
def crc7 (data : List UInt8) : BitVec 7 := Crc.register 9#7 1 0#7 (data.flatMap (highBits 8))

/-- The last byte of a command: its checksum and the end bit. -/
def crcByte (data : List UInt8) : UInt8 := UInt8.ofBitVec (crc7 data ++ 1#1)

theorem sdCrc7Bit_fst (crc byte : UInt8) : (sdCrc7Bit (crc, byte)).1.toBitVec.setWidth 7 =
    Crc.feed 9#7 1 (crc.toBitVec.setWidth 7) (if byte.toBitVec.msb then 64#7 else 0#7) := by
  have hbits : ∀ x : BitVec 8, x &&& 0x80#8 ≠ 0#8 ↔ x.msb = true := by decide
  have htaken : ((byte ^^^ crc <<< 1) &&& 0x80 ≠ 0) ↔
      (byte.toBitVec.msb ^^ (crc.toBitVec <<< 1).msb) = true := by
    rw [← BitVec.msb_xor, ← hbits, Ne, Ne, ← UInt8.toBitVec_inj, UInt8.toBitVec_and]
    rfl
  have hstep : ∀ (b : Bool) (c : BitVec 8),
      (if (b ^^ (c <<< 1).msb) = true then c <<< 1 ^^^ 9#8 else c <<< 1).setWidth 7 =
        Crc.feed 9#7 1 (c.setWidth 7) (if b then 64#7 else 0#7) := by decide
  rw [← hstep, sdCrc7Bit]
  by_cases h : (byte ^^^ crc <<< 1) &&& 0x80 ≠ 0
  · rw [if_pos (htaken.mp h)]
    simp only [if_pos h]
    rfl
  · rw [if_neg fun h' => h (htaken.mpr h')]
    simp only [if_neg h]
    rfl

theorem setWidth_iterate_sdCrc7Bit (n : Nat) (crc byte : UInt8) :
    (sdCrc7Bit^[n] (crc, byte)).1.toBitVec.setWidth 7 =
      (highBits n byte).foldl (Crc.feed 9#7 1) (crc.toBitVec.setWidth 7) := by
  induction n generalizing crc byte with
  | zero => rfl
  | succ n ih =>
    rw [Function.iterate_succ_apply, highBits, List.foldl_cons, ← sdCrc7Bit_fst]
    exact ih _ _

/-- `sd_crc7` is the checksum, one bit up and with the end bit. -/
theorem sdCrc7_eq (data : List UInt8) : sdCrc7 data = crcByte data := by
  have hfold (crc : UInt8) :
      (data.foldl (fun crc byte => (sdCrc7Bit^[8] (crc, byte)).1) crc).toBitVec.setWidth 7 =
        (data.flatMap (highBits 8)).foldl (Crc.feed 9#7 1) (crc.toBitVec.setWidth 7) := by
    induction data generalizing crc with
    | nil => rfl
    | cons byte data ih =>
      rw [List.foldl_cons, ih, List.flatMap_cons, List.foldl_append, setWidth_iterate_sdCrc7Bit]
  have hend : ∀ c : BitVec 8, c <<< 1 ||| 1#8 = c.setWidth 7 ++ 1#1 := by decide
  rw [← UInt8.toBitVec_inj, crcByte, crc7, Crc.register]
  refine (hend _).trans ?_
  rw [hfold]
  rfl

/-! ## What may be on the bus -/

/-- Two bytes in a row that are not zero have been read with chip select asserted. -/
def Released (trace : List SpiByte) : Prop :=
  ∃ before x y after, trace = before ++ x :: y :: after ∧ x.got ≠ 0 ∧ y.got ≠ 0 ∧
    x.selected = true ∧ y.selected = true

/-- Idle bytes and some commands, and the token that ends a write: once at most, when the card has
let go. Whether the token went out is kept. -/
inductive Clean (commands : List (UInt8 × UInt32)) : Bool → List SpiByte → Prop
  | start : Clean commands false []
  | idle {stopped : Bool} {trace : List SpiByte} (t : SpiByte)
      (h : Clean commands stopped trace) (hout : t.out = spiIdleByte) :
    Clean commands stopped (trace ++ [t])
  | command {stopped : Bool} {trace frame : List SpiByte} {index : UInt8} {arg : UInt32}
      (h : Clean commands stopped trace) (hcommand : (index, arg) ∈ commands)
      (hout : frame.map SpiByte.out =
        commandFrame index arg ++ [crcByte (commandFrame index arg)])
      (hselected : ∀ t ∈ frame, t.selected = true) :
    Clean commands stopped (trace ++ frame)
  | stopTran {trace : List SpiByte} (t : SpiByte) (h : Clean commands false trace)
      (hout : t.out = spiStopTranToken) (hreleased : Released trace) :
    Clean commands true (trace ++ [t])

/-- The commands of the reset. -/
def resetCommands : List (UInt8 × UInt32) := [(12, 0), (0, 0), (13, 0)]

/-- A command went out, and after fewer than 16 idle bytes that brought no answer the card
answered `r1`. -/
def Answered (index : UInt8) (arg : UInt32) (r1 : UInt8) (trace : List SpiByte) : Prop :=
  ∃ before frame skipped t after, trace = before ++ (frame ++ (skipped ++ t :: after)) ∧
    frame.map SpiByte.out = commandFrame index arg ++ [crcByte (commandFrame index arg)] ∧
    skipped.length < 16 ∧ (∀ x ∈ skipped, x.got &&& 0x80 ≠ 0) ∧ t.got = r1

variable {stopped : Bool} {trace : List SpiByte}

theorem Clean.idles {commands : List (UInt8 × UInt32)} {more : List SpiByte}
    (h : Clean commands stopped trace) (hmore : ∀ t ∈ more, t.out = spiIdleByte) :
    Clean commands stopped (trace ++ more) := by
  induction more generalizing trace with
  | nil => rwa [List.append_nil]
  | cons t more ih =>
    rw [List.append_cons]
    apply ih
    · exact h.idle t (hmore t List.mem_cons_self)
    · exact fun x hx => hmore x (List.mem_cons_of_mem t hx)

set_option maxRecDepth 8000 in
theorem token_notMem_command {index : UInt8} {arg : UInt32} (h : (index, arg) ∈ resetCommands) :
    spiStopTranToken ∉ commandFrame index arg ++ [crcByte (commandFrame index arg)] := by
  rw [← sdCrc7_eq]
  simp only [resetCommands, List.mem_cons, Prod.mk.injEq, List.not_mem_nil, or_false] at h
  rcases h with ⟨rfl, rfl⟩ | ⟨rfl, rfl⟩ | ⟨rfl, rfl⟩
  · rw [show sdCrc7 (commandFrame 12 0) = 0x61 by decide]
    decide
  · rw [show sdCrc7 (commandFrame 0 0) = 0x95 by decide]
    decide
  · rw [show sdCrc7 (commandFrame 13 0) = 0x0D by decide]
    decide

/-- No other byte is the token. -/
theorem Clean.count_token (h : Clean resetCommands stopped trace) :
    (trace.map SpiByte.out).count spiStopTranToken = stopped.toNat := by
  induction h with
  | start => rfl
  | idle t _ hout ih =>
    have hne : t.out ≠ spiStopTranToken := hout ▸ (by decide)
    simp [ih, hne]
  | command _ hcommand hout _ ih =>
    rw [List.map_append, List.count_append, ih, hout,
      List.count_eq_zero_of_not_mem (token_notMem_command hcommand)]
    rfl
  | stopTran t _ hout _ ih => simp [ih, hout]

/-- Where the token goes out, the card has let go. -/
theorem Clean.released_token {before : List SpiByte} {t : SpiByte}
    (h : Clean resetCommands stopped trace) (hinitial : before ++ [t] <+: trace)
    (hout : t.out = spiStopTranToken) : Released before := by
  induction h with
  | start => exact absurd (List.prefix_nil.mp hinitial) (by simp)
  | idle t' _ hidle ih =>
    rcases List.prefix_concat_iff.mp hinitial with heq | hinitial
    · obtain ⟨-, rfl⟩ := List.append_inj' heq rfl |>.imp_right List.singleton_inj.mp
      exact absurd (hidle.symm.trans hout) (by decide)
    · exact ih hinitial
  | @command stopped' trace frame index arg _ hcommand hframe _ ih =>
    rcases List.prefix_or_prefix_of_prefix hinitial (List.prefix_append trace frame) with hin | hpast
    · exact ih hin
    · obtain ⟨sent, hsent⟩ := hpast
      rw [← hsent, List.prefix_append_right_inj] at hinitial
      rcases List.eq_nil_or_concat sent with rfl | ⟨front, last, rfl⟩
      · rw [List.append_nil] at hsent
        exact ih (hsent ▸ List.prefix_rfl)
      · rw [List.concat_eq_append, ← List.append_assoc] at hsent
        obtain ⟨-, hlast⟩ := List.append_inj' hsent rfl
        obtain rfl : last = t := List.singleton_inj.mp hlast
        have hmem := List.mem_map_of_mem (f := SpiByte.out) (hinitial.subset (by simp : last ∈ _))
        rw [hframe, hout] at hmem
        exact absurd hmem (token_notMem_command hcommand)
  | stopTran t' _ _ hreleased ih =>
    rcases List.prefix_concat_iff.mp hinitial with heq | hinitial
    · obtain ⟨rfl, -⟩ := List.append_inj' heq rfl
      exact hreleased
    · exact ih hinitial

theorem Released.append (h : Released trace) (more : List SpiByte) : Released (trace ++ more) := by
  obtain ⟨before, x, y, after, rfl, hgot⟩ := h
  exact ⟨before, x, y, after ++ more, by simp, hgot⟩

theorem Answered.append {index : UInt8} {arg : UInt32} {r1 : UInt8}
    (h : Answered index arg r1 trace) (more : List SpiByte) :
    Answered index arg r1 (trace ++ more) := by
  obtain ⟨before, frame, skipped, t, after, rfl, hrest⟩ := h
  exact ⟨before, frame, skipped, t, after ++ more, by simp, hrest⟩

/-! ## What a part of the sequence adds -/

/-- The transfers `t` have been added, and chip select is as it was. -/
structure Grew (s : Bus) (t : List SpiByte) (s' : Bus) : Prop where
  trace : s'.trace = s.trace ++ t
  selected : s'.selected = s.selected
  mem : ∀ x ∈ t, x.selected = s.selected

theorem Grew.refl (s : Bus) : Grew s [] s := ⟨(List.append_nil _).symm, rfl, nofun⟩

theorem Grew.trans {s s' s'' : Bus} {t t' : List SpiByte} (h : Grew s t s') (h' : Grew s' t' s'') :
    Grew s (t ++ t') s'' := by
  refine ⟨?_, h'.selected.trans h.selected, ?_⟩
  · rw [h'.trace, h.trace, List.append_assoc]
  · intro x hx
    rcases List.mem_append.mp hx with hx | hx
    · exact h.mem x hx
    · exact (h'.mem x hx).trans h.selected

section Specs

variable {card : Card} {s : Bus}

theorem grew_transfer (out : UInt8) :
    Grew s [⟨out, card.answer s.trace.length, s.selected⟩] (s.transfer card out) := by
  refine ⟨rfl, rfl, ?_⟩
  intro x hx
  rw [List.mem_singleton.mp hx]

variable {E : Unended → Bus → Prop}

theorem wp_pure {α : Type} {Q : α → Bus → Prop} (a : α) : wp (pure a : Io α) Q E s ↔ Q a s := Iff.rfl

theorem wp_cs {Q : Unit → Bus → Prop} (assert : Bool) :
    wp (cs assert) Q E s ↔ Q () { s with selected := assert } := Iff.rfl

theorem wp_xfer {Q : UInt8 → Bus → Prop} (out : UInt8) :
    wp (xfer card out) Q E s ↔ Q (card.answer s.trace.length) (s.transfer card out) := Iff.rfl

theorem wp_delayMs {Q : Unit → Bus → Prop} (ms : UInt32) : wp (delayMs ms) Q E s ↔ Q () s := Iff.rfl

theorem wp_nowMs {Q : UInt32 → Bus → Prop} :
    wp (nowMs card) Q E s ↔ Q (card.clock s.readings) { s with readings := s.readings + 1 } := Iff.rfl

theorem wp_aborted {Q : Bool → Bus → Prop} :
    wp (aborted card) Q E s ↔ Q (card.aborts s.polls) { s with polls := s.polls + 1 } := Iff.rfl

theorem wp_sendBytes (outs : List UInt8) :
    wp (sendBytes card outs) (fun _ s' => ∃ t, Grew s t s' ∧ t.map SpiByte.out = outs) E s := by
  induction outs generalizing s with
  | nil => exact ⟨[], Grew.refl s, rfl⟩
  | cons out outs ih =>
    rw [sendBytes, wp_bind, wp_xfer]
    refine wp_mono ih ?_ fun _ _ h => h
    rintro _ s' ⟨t, hgrew, hout⟩
    exact ⟨_, (grew_transfer out).trans hgrew, by simp [hout]⟩

theorem wp_idleBytes (n : Nat) :
    wp (idleBytes card n) (fun _ s' => ∃ t, Grew s t s' ∧ ∀ x ∈ t, x.out = spiIdleByte) E s := by
  refine wp_mono (wp_sendBytes _) ?_ fun _ _ h => h
  rintro _ s' ⟨t, hgrew, hout⟩
  refine ⟨t, hgrew, fun x hx => ?_⟩
  have hmem := List.mem_map_of_mem (f := SpiByte.out) hx
  rw [hout] at hmem
  exact List.eq_of_mem_replicate hmem

/-- What `readR1` reads when it returns `r1`. -/
structure ReadsR1 (n : Nat) (r1 : UInt8) (t : List SpiByte) : Prop where
  idle : ∀ x ∈ t, x.out = spiIdleByte
  answer : r1 = 0xFF ∨ ∃ skipped x, t = skipped ++ [x] ∧ skipped.length < n ∧
    (∀ y ∈ skipped, y.got &&& 0x80 ≠ 0) ∧ x.got = r1

theorem wp_readR1 (n : Nat) :
    wp (readR1 card n) (fun r1 s' => ∃ t, Grew s t s' ∧ ReadsR1 n r1 t) E s := by
  induction n generalizing s with
  | zero => exact ⟨[], Grew.refl s, nofun, .inl rfl⟩
  | succ n ih =>
    rw [readR1, wp_bind, wp_xfer]
    have hgrew := @grew_transfer card s spiIdleByte
    split_ifs with hgot
    · refine ⟨_, hgrew, by simp, .inr ⟨[], _, rfl, Nat.succ_pos n, nofun, rfl⟩⟩
    · refine wp_mono ih ?_ fun _ _ h => h
      rintro r1 s' ⟨t, hgrew', hreads⟩
      refine ⟨_, hgrew.trans hgrew', ?_, ?_⟩
      · simpa using hreads.idle
      · refine hreads.answer.imp_right ?_
        rintro ⟨skipped, x, rfl, hlength, hskipped, hx⟩
        refine ⟨_ :: skipped, x, rfl, Nat.succ_lt_succ hlength, ?_, hx⟩
        simpa [hgot] using hskipped

/-- The frame of a command went out, and its answer was read. -/
def Sent (index : UInt8) (arg : UInt32) (r1 : UInt8) (t : List SpiByte) : Prop :=
  ∃ frame rest, t = frame ++ rest ∧
    frame.map SpiByte.out = commandFrame index arg ++ [crcByte (commandFrame index arg)] ∧
    ReadsR1 16 r1 rest

theorem wp_sdSendCommand (index : UInt8) (arg : UInt32) :
    wp (sdSendCommand card index arg) (fun r1 s' => ∃ t, Grew s t s' ∧ Sent index arg r1 t) E s := by
  rw [sdSendCommand, wp_bind]
  refine wp_mono (wp_sendBytes _) ?_ fun _ _ h => h
  rintro _ s₁ ⟨t, hgrew, hout⟩
  rw [wp_bind, wp_xfer]
  refine wp_mono (wp_readR1 16) ?_ fun _ _ h => h
  rintro r1 s' ⟨rest, hgrew', hreads⟩
  refine ⟨_, (hgrew.trans (grew_transfer _)).trans hgrew', _, rest, rfl, ?_, hreads⟩
  simp [hout, sdCrc7_eq]

theorem Grew.kept {s' : Bus} (htrace : s'.trace = s.trace) (hselected : s'.selected = s.selected) :
    Grew s [] s' := ⟨by rw [htrace, List.append_nil], hselected, nofun⟩

theorem wp_elapsedMs (timed : Bool) (start : UInt32) :
    wp (elapsedMs card timed start) (fun _ s' => Grew s [] s') E s := by
  unfold elapsedMs
  split
  · rw [wp_bind, wp_nowMs]
    exact Grew.kept rfl rfl
  · exact Grew.refl s

theorem wp_waitEnds (timeoutMs start : UInt32) :
    wp (waitEnds card timeoutMs start) (fun _ s' => Grew s [] s') E s := by
  rw [waitEnds, wp_bind, wp_nowMs]
  split
  · exact Grew.kept rfl rfl
  · rw [wp_aborted]
    exact Grew.kept rfl rfl

/-- The last two bytes were not zero, or the only one was not and one before it. -/
def LetsGo (nonzero : Nat) (t : List SpiByte) : Prop :=
  (∃ before x y, t = before ++ [x, y] ∧ x.got ≠ 0 ∧ y.got ≠ 0) ∨
    (nonzero = 1 ∧ ∃ y, t = [y] ∧ y.got ≠ 0)

theorem LetsGo.cons {nonzero : Nat} {x : SpiByte} {t : List SpiByte}
    (h : LetsGo (nonzeroRun x.got nonzero) t) :
    LetsGo nonzero (x :: t) := by
  rcases h with ⟨before, y, z, rfl, hgot⟩ | ⟨hone, y, rfl, hy⟩
  · exact .inl ⟨x :: before, y, z, rfl, hgot⟩
  · refine .inl ⟨[], x, y, rfl, ?_, hy⟩
    intro hx
    simp [nonzeroRun, hx] at hone

theorem nonzeroRun_le {got : UInt8} {nonzero : Nat} (h : nonzero ≤ 1)
    (hrun : nonzeroRun got nonzero ≠ 2) : nonzeroRun got nonzero ≤ 1 := by
  unfold nonzeroRun at hrun ⊢
  split_ifs at hrun ⊢ <;> omega

theorem nonzero_of_run {got : UInt8} {nonzero : Nat} (hrun : nonzeroRun got nonzero = 2) :
    nonzero = 1 ∧ got ≠ 0 := by
  unfold nonzeroRun at hrun
  split_ifs at hrun with hgot
  exact ⟨by omega, hgot⟩

theorem wp_waitRounds (timeoutMs start : UInt32) (timed : Bool) (fuel nonzero : Nat) (sawBusy : Bool)
    (hnonzero : nonzero ≤ 1) :
    wp (waitRounds card timeoutMs start timed fuel nonzero sawBusy)
      (fun waited s' => ∃ t, Grew s t s' ∧ (∀ x ∈ t, x.out = spiIdleByte) ∧
        (waited.1 = true → LetsGo nonzero t)) (fun _ _ => True) s := by
  induction fuel generalizing s nonzero sawBusy with
  | zero => trivial
  | succ fuel ih =>
    have hgrew := @grew_transfer card s spiIdleByte
    rw [waitRounds, wp_bind, wp_xfer]
    split_ifs with hrun
    · obtain ⟨hone, hgot⟩ := nonzero_of_run hrun
      rw [wp_bind]
      refine wp_mono (wp_elapsedMs timed start) ?_ fun _ _ h => h
      rintro elapsed s' hgrew'
      exact ⟨_, hgrew.trans hgrew', by simp, fun _ => .inr ⟨hone, _, rfl, hgot⟩⟩
    · rw [wp_bind]
      refine wp_mono (wp_waitEnds timeoutMs start) ?_ fun _ _ h => h
      intro ends s₂ hgrew₂
      split_ifs with hends
      · rw [wp_bind]
        refine wp_mono (wp_elapsedMs timed start) ?_ fun _ _ h => h
        rintro elapsed s' hgrew'
        exact ⟨_, (hgrew.trans hgrew₂).trans hgrew', by simp, nofun⟩
      · refine wp_mono (ih _ _ (nonzeroRun_le hnonzero hrun)) ?_ fun _ _ h => h
        rintro waited s' ⟨t, hgrew', hidle, hlets⟩
        refine ⟨_, (hgrew.trans hgrew₂).trans hgrew', by simpa using hidle, fun hreleased => ?_⟩
        exact (hlets hreleased).cons

/-- A busy wait reads idle bytes, and when the card has let go the last two were not zero. -/
theorem wp_sdWaitNotBusy (fuel : Nat) (timeoutMs : UInt32) (timed sawBusy : Bool) :
    wp (sdWaitNotBusy card fuel timeoutMs timed sawBusy)
      (fun waited s' => ∃ t, Grew s t s' ∧ (∀ x ∈ t, x.out = spiIdleByte) ∧
        (waited.1 = true → ∃ before x y, t = before ++ [x, y] ∧ x.got ≠ 0 ∧ y.got ≠ 0))
      (fun _ _ => True) s := by
  rw [sdWaitNotBusy, wp_bind, wp_nowMs]
  refine wp_mono (wp_waitRounds timeoutMs _ timed fuel 0 sawBusy (Nat.zero_le 1)) ?_ fun _ _ h => h
  rintro waited s' ⟨t, hgrew, hidle, hlets⟩
  refine ⟨t, { hgrew with }, hidle, fun hreleased => ?_⟩
  rcases hlets hreleased with hlast | ⟨hone, -⟩
  · exact hlast
  · cases hone

/-! ## Clean programs -/

/-- Chip select is asserted, and what was sent is clean. -/
structure Selected (commands : List (UInt8 × UInt32)) (stopped : Bool) (s : Bus) : Prop where
  selected : s.selected = true
  clean : Clean commands stopped s.trace

variable {stopped : Bool} {trace : List SpiByte} {index r1 : UInt8} {arg : UInt32}

theorem Clean.sent {commands : List (UInt8 × UInt32)} {t : List SpiByte}
    (h : Clean commands stopped trace)
    (hcommand : (index, arg) ∈ commands) (hsent : Sent index arg r1 t)
    (hselected : ∀ x ∈ t, x.selected = true) : Clean commands stopped (trace ++ t) := by
  obtain ⟨frame, rest, rfl, hout, hreads⟩ := hsent
  rw [← List.append_assoc]
  apply Clean.idles
  · exact h.command hcommand hout fun x hx => hselected x (List.mem_append_left _ hx)
  · exact hreads.idle

theorem Sent.answered {t : List SpiByte}
    (h : Sent index arg r1 t) (hr1 : r1 ≠ 0xFF) (trace : List SpiByte) :
    Answered index arg r1 (trace ++ t) := by
  obtain ⟨frame, rest, rfl, hout, hreads⟩ := h
  rcases hreads.answer with hnone | ⟨skipped, x, rfl, hlength, hskipped, hx⟩
  · exact absurd hnone hr1
  · exact ⟨trace, frame, skipped, x, [], rfl, hout, hlength, hskipped, hx⟩

section Commands

variable {commands : List (UInt8 × UInt32)} {stopped : Bool}

theorem wp_command {index : UInt8} {arg : UInt32} (h : Selected commands stopped s)
    (hcommand : (index, arg) ∈ commands) :
    wp (sdSendCommand card index arg) (fun r1 s' => Selected commands stopped s' ∧
      s.trace <+: s'.trace ∧ (r1 ≠ 0xFF → Answered index arg r1 s'.trace)) E s := by
  refine wp_mono (wp_sdSendCommand index arg) ?_ fun _ _ h => h
  rintro r1 s' ⟨t, hgrew, hsent⟩
  have hselected : ∀ x ∈ t, x.selected = true := fun x hx => (hgrew.mem x hx).trans h.selected
  refine ⟨⟨hgrew.selected.trans h.selected, ?_⟩, ?_, fun hr1 => ?_⟩
  · rw [hgrew.trace]
    exact h.clean.sent hcommand hsent hselected
  · rw [hgrew.trace]
    exact List.prefix_append _ _
  · rw [hgrew.trace]
    exact hsent.answered hr1 _

/-- A part that sends idle bytes only. -/
theorem Clean.grew {s' : Bus} {t : List SpiByte} (h : Clean commands stopped s.trace)
    (hgrew : Grew s t s') (hidle : ∀ x ∈ t, x.out = spiIdleByte) :
    Clean commands stopped s'.trace ∧ s.trace <+: s'.trace ∧ s'.selected = s.selected := by
  rw [hgrew.trace]
  exact ⟨h.idles hidle, List.prefix_append _ _, hgrew.selected⟩

theorem Clean.transfer (h : Clean commands stopped s.trace) :
    Clean commands stopped (s.transfer card spiIdleByte).trace :=
  h.idle _ rfl

theorem wp_clockOut (h : Clean commands stopped s.trace) :
    wp (clockOut card) (fun _ s' => Selected commands stopped s' ∧ s.trace <+: s'.trace) E s := by
  rw [clockOut, wp_bind, wp_cs, wp_bind]
  refine wp_mono (wp_idleBytes 10) ?_ fun _ _ h => h
  rintro _ s' ⟨t, hgrew, hidle⟩
  rw [wp_cs]
  obtain ⟨hclean, hinitial, -⟩ := Clean.grew (s := { s with selected := false }) h hgrew hidle
  exact ⟨⟨rfl, hclean⟩, hinitial⟩

theorem wp_deselect (h : Clean commands stopped s.trace) :
    wp (deselect card) (fun _ s' => s'.selected = false ∧ Clean commands stopped s'.trace ∧
      s.trace <+: s'.trace) E s := by
  rw [deselect, wp_bind, wp_cs, wp_bind, wp_xfer, wp_pure]
  exact ⟨rfl, h.idle _ rfl, List.prefix_append _ _⟩

end Commands

/-! ## `card_reset` -/

/-- How the bus is left behind a reset. -/
structure Done (result : CardResetResult) (s : Bus) : Prop where
  deselected : s.selected = false
  clean : ∃ stopped, Clean resetCommands stopped s.trace
  idle : result.outcome = .idle → Answered 0 0 spiR1Idle s.trace

theorem Done.token {result : CardResetResult} {s : Bus} (h : Done result s) :
    (s.trace.map SpiByte.out).count spiStopTranToken ≤ 1 ∧
      ∀ before t, before ++ [t] <+: s.trace → t.out = spiStopTranToken → Released before := by
  obtain ⟨stopped, hclean⟩ := h.clean
  rw [hclean.count_token]
  exact ⟨stopped.toNat_le, fun before t => hclean.released_token⟩

theorem Released.mono {more : List SpiByte} (h : Released trace) (hinitial : trace <+: more) :
    Released more := by
  obtain ⟨rest, rfl⟩ := hinitial
  exact h.append rest

theorem Answered.mono {more : List SpiByte}
    (h : Answered index arg r1 trace) (hinitial : trace <+: more) : Answered index arg r1 more := by
  obtain ⟨rest, rfl⟩ := hinitial
  exact h.append rest

theorem wp_cmd0Loop (gapMs : UInt32) (left : Nat) (attempt : UInt8)
    (result : CardResetResult) (h : Clean resetCommands stopped s.trace)
    (hr1 : result.r1 ≠ spiR1Idle) :
    wp (cmd0Loop card gapMs left attempt result) (fun p s' => Clean resetCommands stopped s'.trace ∧
      (p.2 = true → s'.selected = false ∧ p.1.outcome = .aborted) ∧
      (p.1.r1 = spiR1Idle → s'.selected = true ∧ Answered 0 0 spiR1Idle s'.trace)) E s := by
  induction left generalizing s attempt result with
  | zero => exact ⟨h, nofun, fun hidle => absurd hidle hr1⟩
  | succ left ih =>
    rw [cmd0Loop, wp_bind]
    refine wp_mono (wp_clockOut h) ?_ fun _ _ h => h
    rintro _ s₁ ⟨hselected, -⟩
    rw [wp_bind]
    refine wp_mono (wp_command hselected (by decide)) ?_ fun _ _ h => h
    rintro r1 s₂ ⟨hselected₂, -, hanswered⟩
    dsimp only
    split_ifs with hidle
    · subst hidle
      exact ⟨hselected₂.clean, nofun, fun _ => ⟨hselected₂.selected, hanswered (by decide)⟩⟩
    · rw [wp_bind, wp_cs, wp_bind, wp_delayMs, wp_bind, wp_aborted]
      split_ifs with haborted
      · exact ⟨hselected₂.clean, fun _ => ⟨rfl, rfl⟩, fun hr => absurd hr hidle⟩
      · exact ih (attempt + 1) _ hselected₂.clean hidle

theorem wp_readStatus (result : CardResetResult)
    (h : Selected resetCommands stopped s) (hanswered : Answered 0 0 spiR1Idle s.trace) :
    wp (readStatus card result) Done E s := by
  rw [readStatus, wp_bind]
  refine wp_mono (wp_command h (by decide)) ?_ fun _ _ h => h
  rintro r1 s₁ ⟨hselected, hinitial, -⟩
  have hanswered₁ := hanswered.mono hinitial
  have hread : wp (readR2 card r1 { result with reached := .status })
      (fun _ s' => Clean resetCommands stopped s'.trace ∧ s₁.trace <+: s'.trace) E s₁ := by
    unfold readR2
    split
    · rw [wp_bind, wp_xfer, wp_pure]
      exact ⟨hselected.clean.transfer, List.prefix_append _ _⟩
    · exact ⟨hselected.clean, List.prefix_rfl⟩
  rw [wp_bind]
  refine wp_mono hread ?_ fun _ _ h => h
  rintro result₂ s₂ ⟨hclean, hinitial₂⟩
  rw [wp_bind]
  refine wp_mono (wp_deselect hclean) ?_ fun _ _ h => h
  rintro _ s₃ ⟨hdeselected, hclean₃, hinitial₃⟩
  exact ⟨hdeselected, ⟨stopped, hclean₃⟩, fun _ => hanswered₁.mono (hinitial₂.trans hinitial₃)⟩

theorem wp_wait (fuel : Nat) (timeoutMs : UInt32) (timed sawBusy : Bool)
    (h : Selected resetCommands stopped s) :
    wp (sdWaitNotBusy card fuel timeoutMs timed sawBusy) (fun waited s' =>
      Selected resetCommands stopped s' ∧ (waited.1 = true → Released s'.trace))
      (fun _ _ => True) s := by
  refine wp_mono (wp_sdWaitNotBusy fuel timeoutMs timed sawBusy) ?_ fun _ _ h => h
  rintro waited s' ⟨t, hgrew, hidle, hlets⟩
  obtain ⟨hclean, -, hselected⟩ := h.clean.grew hgrew hidle
  refine ⟨⟨hselected.trans h.selected, hclean⟩, fun hreleased => ?_⟩
  obtain ⟨before, x, y, rfl, hx, hy⟩ := hlets hreleased
  refine ⟨s.trace ++ before, x, y, [], ?_, hx, hy, ?_, ?_⟩
  · rw [hgrew.trace, List.append_assoc]
  · rw [hgrew.mem x (by simp), h.selected]
  · rw [hgrew.mem y (by simp), h.selected]

theorem wp_stopAndGoIdle (fuel : Nat) (cfg : CardResetConfig)
    (result : CardResetResult) (h : Selected resetCommands stopped s) (hr1 : result.r1 ≠ spiR1Idle) :
    wp (stopAndGoIdle card fuel cfg result) Done (fun _ _ => True) s := by
  rw [stopAndGoIdle, wp_bind]
  refine wp_mono (wp_command h (by decide)) ?_ fun _ _ h => h
  rintro _ s₁ ⟨hselected, -⟩
  rw [wp_bind]
  refine wp_mono (wp_wait fuel cfg.busyTimeoutMs false _ hselected) ?_ fun _ _ h => h
  rintro waited s₂ ⟨hselected₂, -⟩
  rw [wp_bind]
  refine wp_mono (wp_cmd0Loop cfg.cmd0GapMs cfg.cmd0Attempts.toNat 0 _ hselected₂.clean hr1) ?_
    fun _ _ h => h
  rintro ⟨result₃, withdrawn⟩ s₃ ⟨hclean, hwithdrawn, hidle⟩
  dsimp only at hwithdrawn hidle ⊢
  by_cases hw : withdrawn = true
  · rw [if_pos hw, wp_pure]
    obtain ⟨hdeselected, houtcome⟩ := hwithdrawn hw
    exact ⟨hdeselected, ⟨stopped, hclean⟩, fun h => absurd (houtcome.symm.trans h) (by decide)⟩
  rw [if_neg hw]
  by_cases hanswered : result₃.r1 = spiR1Idle
  · obtain ⟨hselected₃, hanswered₃⟩ := hidle hanswered
    rw [if_neg (not_not.mpr hanswered)]
    exact wp_readStatus result₃ ⟨hselected₃, hclean⟩ hanswered₃
  · rw [if_pos hanswered, wp_bind]
    refine wp_mono (wp_deselect hclean) ?_ fun _ _ h => h
    rintro _ s₄ ⟨hdeselected, hclean₄, -⟩
    refine ⟨hdeselected, ⟨stopped, hclean₄⟩, fun houtcome => ?_⟩
    revert houtcome
    cases result₃.sawBusy <;> nofun

theorem wp_stopTran (fuel : Nat) (cfg : CardResetConfig) (result : CardResetResult)
    (h : Clean resetCommands false s.trace) (hreleased : Released s.trace)
    (hr1 : result.r1 ≠ spiR1Idle) :
    wp (stopTran card fuel cfg result) Done (fun _ _ => True) s := by
  rw [stopTran, wp_bind]
  refine wp_mono (wp_clockOut h) ?_ fun _ _ h => h
  rintro _ s₁ ⟨hselected, hinitial⟩
  rw [wp_bind, wp_xfer, wp_bind, wp_xfer, wp_bind, wp_xfer, wp_bind]
  have hreleased₁ : Released (s₁.transfer card spiIdleByte).trace := (hreleased.mono hinitial).append _
  have htoken : Clean resetCommands true
      ((s₁.transfer card spiIdleByte).transfer card spiStopTranToken).trace :=
    .stopTran _ hselected.clean.transfer rfl hreleased₁
  have hselected' : Selected resetCommands true
      (((s₁.transfer card spiIdleByte).transfer card spiStopTranToken).transfer card spiIdleByte) :=
    ⟨hselected.selected, htoken.transfer⟩
  refine wp_mono (wp_wait fuel cfg.busyTimeoutMs true _ hselected') ?_ fun _ _ h => h
  rintro waited s₂ ⟨hselected₂, -⟩
  rw [wp_bind, wp_aborted]
  split_ifs
  · exact ⟨rfl, ⟨true, hselected₂.clean⟩, nofun⟩
  · exact wp_stopAndGoIdle fuel cfg _ ⟨hselected₂.selected, hselected₂.clean⟩ hr1

/-- However the card behaves, a reset that returns leaves a clean bus. -/
theorem wp_cardReset (fuel : Nat) (cfg : CardResetConfig) (h : s.trace = []) :
    wp (cardReset card fuel cfg) Done (fun _ _ => True) s := by
  have hstart : Selected resetCommands false { s with selected := true } := ⟨rfl, h ▸ .start⟩
  rw [cardReset, wp_bind, wp_cs, wp_bind]
  refine wp_mono (wp_wait fuel cfg.busyTimeoutMs true false hstart) ?_ fun _ _ h => h
  rintro waited s₁ ⟨hselected, hreleased⟩
  rw [wp_bind, wp_aborted]
  split_ifs with haborted hwaited
  · exact ⟨rfl, ⟨false, hselected.clean⟩, nofun⟩
  · rw [wp_bind]
    refine wp_mono (wp_deselect hselected.clean) ?_ fun _ _ h => h
    rintro _ s₂ ⟨hdeselected, hclean, -⟩
    exact ⟨hdeselected, ⟨false, hclean⟩, nofun⟩
  · exact wp_stopTran fuel cfg _ hselected.clean (hreleased (by simpa using hwaited))
      (by exact (by decide : (0xFF : UInt8) ≠ spiR1Idle))

/-! ## `card_probe_ready` -/

/-- The commands of the probe. -/
def probeCommands : List (UInt8 × UInt32) := [(0, 0), (8, 0x000001AA), (58, 0), (17, 0)]

theorem wp_readBytes (n : Nat) (h : Selected probeCommands stopped s) :
    wp (readBytes card n) (fun _ s' => Selected probeCommands stopped s') E s := by
  induction n generalizing s with
  | zero => exact h
  | succ n ih =>
    rw [readBytes, wp_bind, wp_xfer, wp_bind]
    exact wp_mono (ih ⟨h.selected, h.clean.transfer⟩) (fun _ _ h => h) fun _ _ h => h

theorem wp_readToken (n : Nat) (h : Selected probeCommands stopped s) :
    wp (readToken card n) (fun _ s' => Selected probeCommands stopped s') E s := by
  induction n generalizing s with
  | zero => exact h
  | succ n ih =>
    have hnext : Selected probeCommands stopped (s.transfer card spiIdleByte) :=
      ⟨h.selected, h.clean.transfer⟩
    rw [readToken, wp_bind, wp_xfer]
    split_ifs
    · exact hnext
    · exact ih hnext

theorem wp_probeLoop (left : Nat) (r : CardReadyResult)
    (h : Clean probeCommands stopped s.trace) (hr : r.idle = false) :
    wp (probeLoop card left r) (fun r' s' => Clean probeCommands stopped s'.trace ∧
      (r'.idle = true → s'.selected = true)) E s := by
  induction left generalizing s r with
  | zero => exact ⟨h, fun hidle => absurd (hr.symm.trans hidle) nofun⟩
  | succ left ih =>
    rw [probeLoop, wp_bind]
    refine wp_mono (wp_clockOut h) ?_ fun _ _ h => h
    rintro _ s₁ ⟨hselected, -⟩
    rw [wp_bind]
    refine wp_mono (wp_command hselected (by decide)) ?_ fun _ _ h => h
    rintro r1 s₂ ⟨hselected₂, -⟩
    dsimp only
    split_ifs with hidle
    · exact ⟨hselected₂.clean, fun _ => hselected₂.selected⟩
    · rw [wp_bind, wp_cs, wp_bind, wp_delayMs, wp_bind, wp_aborted]
      split_ifs with haborted
      · exact ⟨hselected₂.clean, fun hidle => absurd (hr.symm.trans hidle) nofun⟩
      · exact ih _ hselected₂.clean hr

theorem wp_probeCmd8 (r : CardReadyResult) (h : Selected probeCommands stopped s) :
    wp (probeCmd8 card r) (fun _ s' => Selected probeCommands stopped s') E s := by
  rw [probeCmd8, wp_bind]
  refine wp_mono (wp_command h (by decide)) ?_ fun _ _ h => h
  rintro r1 s₁ ⟨hselected, -⟩
  split_ifs
  · rw [wp_bind]
    exact wp_mono (wp_readBytes 4 hselected) (fun _ _ h => h) fun _ _ h => h
  · exact hselected

theorem wp_probeCmd58 (r : CardReadyResult) (h : Selected probeCommands stopped s) :
    wp (probeCmd58 card r) (fun _ s' => Selected probeCommands stopped s') E s := by
  rw [probeCmd58, wp_bind]
  refine wp_mono (wp_command h (by decide)) ?_ fun _ _ h => h
  rintro r1 s₁ ⟨hselected, -⟩
  split_ifs
  · rw [wp_bind]
    exact wp_mono (wp_readBytes 4 hselected) (fun _ _ h => h) fun _ _ h => h
  · exact hselected

theorem wp_probeGoesOn (r : CardReadyResult) (h : Selected probeCommands stopped s) :
    wp (probeGoesOn card r) (fun _ s' => Selected probeCommands stopped s') E s := by
  unfold probeGoesOn
  split
  · exact ⟨h.selected, h.clean⟩
  · exact h

theorem wp_probeCmd17 (goesOn : Bool) (r : CardReadyResult) (h : Selected probeCommands stopped s) :
    wp (probeCmd17 card goesOn r) (fun _ s' => Clean probeCommands stopped s'.trace) E s := by
  unfold probeCmd17
  split_ifs with hgoesOn
  · rw [wp_bind]
    refine wp_mono (wp_command h (by decide)) ?_ fun _ _ h => h
    rintro r1 s₁ ⟨hselected, -⟩
    split_ifs
    · rw [wp_bind]
      refine wp_mono (wp_readToken 4000 hselected) ?_ fun _ _ h => h
      intro token s₂ hselected₂
      split_ifs
      · rw [wp_bind]
        generalize 512 = n
        refine wp_mono (wp_readBytes n hselected₂) ?_ fun _ _ h => h
        intro block s₃ hselected₃
        rw [wp_bind]
        refine wp_mono (wp_idleBytes 2) ?_ fun _ _ h => h
        rintro _ s₄ ⟨t, hgrew, hidle⟩
        exact (hselected₃.clean.grew hgrew hidle).1
      · exact hselected₂.clean
    · exact hselected.clean
  · exact h.clean

/-- However the card behaves, a probe returns and leaves a clean bus. -/
theorem wp_cardProbeReady (h : s.trace = []) :
    wp (cardProbeReady card)
      (fun _ s' => s'.selected = false ∧ Clean probeCommands false s'.trace) E s := by
  have hstart : Clean probeCommands false s.trace := h ▸ .start
  rw [cardProbeReady, wp_bind]
  refine wp_mono (wp_probeLoop 10 {} hstart rfl) ?_ fun _ _ h => h
  rintro r s₁ ⟨hclean, hselected⟩
  split_ifs with hidle
  · rw [wp_bind]
    refine wp_mono (wp_deselect hclean) ?_ fun _ _ h => h
    rintro _ s₂ ⟨hdeselected, hclean₂, -⟩
    exact ⟨hdeselected, hclean₂⟩
  · rw [wp_bind]
    refine wp_mono (wp_probeCmd8 r ⟨hselected (by simpa using hidle), hclean⟩) ?_ fun _ _ h => h
    intro r₂ s₂ hselected₂
    rw [wp_bind]
    refine wp_mono (wp_probeCmd58 r₂ hselected₂) ?_ fun _ _ h => h
    intro r₃ s₃ hselected₃
    rw [wp_bind]
    refine wp_mono (wp_probeGoesOn r₃ hselected₃) ?_ fun _ _ h => h
    intro goesOn s₄ hselected₄
    rw [wp_bind]
    refine wp_mono (wp_probeCmd17 goesOn r₃ hselected₄) ?_ fun _ _ h => h
    intro r₅ s₅ hclean₅
    rw [wp_bind]
    refine wp_mono (wp_deselect hclean₅) ?_ fun _ _ h => h
    rintro _ s₆ ⟨hdeselected, hclean₆, -⟩
    exact ⟨hdeselected, hclean₆⟩

end Specs

/-! ## Every busy wait ends -/

/-- A busy wait ends wherever it begins. -/
def WaitsEnd (card : Card) (timeoutMs : UInt32) : Prop :=
  ∀ (s : Bus) (timed sawBusy : Bool), ∃ fuel waited s',
    (sdWaitNotBusy card fuel timeoutMs timed sawBusy).exec s = (.ok waited, s')

section Ends

variable {card : Card} {s : Bus}

theorem waitRounds_mono (timeoutMs start : UInt32) (timed : Bool) {fuel nonzero : Nat}
    {sawBusy : Bool} {waited : Waited} {s' : Bus}
    (h : (waitRounds card timeoutMs start timed fuel nonzero sawBusy).exec s = (.ok waited, s')) :
    (waitRounds card timeoutMs start timed (fuel + 1) nonzero sawBusy).exec s = (.ok waited, s') := by
  induction fuel generalizing s nonzero sawBusy with
  | zero => cases h
  | succ fuel ih =>
    rw [waitRounds, exec_bind] at h ⊢
    have hgot : (xfer card spiIdleByte).exec s =
        (.ok (card.answer s.trace.length), s.transfer card spiIdleByte) := rfl
    rw [hgot] at h ⊢
    dsimp only at h ⊢
    split_ifs at h ⊢
    · exact h
    · rw [exec_bind] at h ⊢
      generalize (waitEnds card timeoutMs start).exec (s.transfer card spiIdleByte) = ended at h ⊢
      rcases ended with ⟨e | ends, s₂⟩
      · exact h
      · dsimp only at h ⊢
        split_ifs at h ⊢
        · exact h
        · exact ih h

theorem WaitsEnd.returns {timeoutMs : UInt32} (h : WaitsEnd card timeoutMs) (s : Bus)
    (timed sawBusy : Bool) :
    Returns (fun fuel => sdWaitNotBusy card fuel timeoutMs timed sawBusy) s := by
  apply Returns.of_mono
  · intro fuel waited s' hexec
    rw [sdWaitNotBusy, exec_bind] at hexec ⊢
    exact waitRounds_mono timeoutMs _ timed hexec
  · exact h s timed sawBusy

/-- A card that never holds the line low. -/
theorem waitsEnd_of_answer (h : ∀ n, card.answer n ≠ 0) (timeoutMs : UInt32) :
    WaitsEnd card timeoutMs := by
  intro s timed sawBusy
  have hwp : wp (sdWaitNotBusy card 2 timeoutMs timed sawBusy) (fun _ _ => True) (fun _ _ => False)
      s := by
    rw [sdWaitNotBusy, wp_bind, wp_nowMs, waitRounds, wp_bind, wp_xfer]
    simp only [nonzeroRun, ne_eq, h, not_false_eq_true, if_true, Nat.zero_add, OfNat.one_ne_ofNat,
      if_false]
    rw [wp_bind]
    refine wp_mono (wp_waitEnds timeoutMs _) ?_ fun _ _ h => h
    rintro ends s₁ -
    split_ifs
    · rw [wp_bind]
      exact wp_mono (wp_elapsedMs timed _) (fun _ _ _ => trivial) fun _ _ h => h
    · rw [waitRounds, wp_bind, wp_xfer]
      simp only [nonzeroRun, ne_eq, h, not_false_eq_true, if_true, Nat.reduceAdd]
      rw [wp_bind]
      exact wp_mono (wp_elapsedMs timed _) (fun _ _ _ => trivial) fun _ _ h => h
  obtain ⟨waited, s', hexec, -⟩ := exists_exec_of_wp hwp
  exact ⟨2, waited, s', hexec⟩

theorem total_cs (assert : Bool) : Total (cs assert) := fun _ => trivial

theorem total_xfer (out : UInt8) : Total (xfer card out) := fun _ => trivial

theorem total_aborted : Total (aborted card) := fun _ => trivial

theorem total_sdSendCommand (index : UInt8) (arg : UInt32) : Total (sdSendCommand card index arg) :=
  .of_wp fun _ => wp_sdSendCommand index arg

theorem total_deselect : Total (deselect card) := (total_cs false).bind fun _ =>
  (total_xfer spiIdleByte).bind fun _ => .pure ()

theorem total_clockOut : Total (clockOut card) := (total_cs false).bind fun _ =>
  (Total.of_wp fun _ => wp_idleBytes 10).bind fun _ => total_cs true

theorem total_cmd0Loop (gapMs : UInt32) (left : Nat) (attempt : UInt8) (result : CardResetResult) :
    Total (cmd0Loop card gapMs left attempt result) := by
  induction left generalizing attempt result with
  | zero => exact .pure _
  | succ left ih =>
    refine total_clockOut.bind fun _ => (total_sdSendCommand 0 0).bind fun r1 => ?_
    refine .ite (.pure _) ?_
    refine (total_cs false).bind fun _ => (Total.pure ()).bind fun _ => total_aborted.bind fun _ => ?_
    exact .ite (.pure _) (ih _ _)

theorem total_readStatus (result : CardResetResult) : Total (readStatus card result) := by
  refine (total_sdSendCommand 13 0).bind fun r2First => Total.bind ?_ fun _ => ?_
  · exact .ite ((total_xfer spiIdleByte).bind fun _ => .pure _) (.pure _)
  · exact total_deselect.bind fun _ => .pure _

variable {cfg : CardResetConfig}

theorem returns_stopAndGoIdle (h : WaitsEnd card cfg.busyTimeoutMs) (result : CardResetResult) :
    Returns (fun fuel => stopAndGoIdle card fuel cfg result) s := by
  refine .bind (.const (total_sdSendCommand 12 0)) fun _ s₁ => ?_
  refine .bind (h.returns s₁ false _) fun _ s₂ => ?_
  refine .bind (.const (total_cmd0Loop _ _ _ _)) fun p s₃ => ?_
  refine .ite (.pure _) (.ite ?_ (.const (total_readStatus _)))
  exact .bind (.const total_deselect) fun _ _ => .pure _

theorem returns_stopTran (h : WaitsEnd card cfg.busyTimeoutMs) (result : CardResetResult) :
    Returns (fun fuel => stopTran card fuel cfg result) s := by
  refine .bind (.const total_clockOut) fun _ s₁ => ?_
  refine .bind (.const (total_xfer _)) fun _ s₂ => ?_
  refine .bind (.const (total_xfer _)) fun _ s₃ => ?_
  refine .bind (.const (total_xfer _)) fun _ s₄ => ?_
  refine .bind (h.returns s₄ true _) fun _ s₅ => ?_
  refine .bind (.const total_aborted) fun _ s₆ => .ite ?_ (returns_stopAndGoIdle h _)
  exact .bind (.const (total_cs false)) fun _ _ => .pure _

theorem returns_cardReset (h : WaitsEnd card cfg.busyTimeoutMs) :
    Returns (fun fuel => cardReset card fuel cfg) s := by
  refine .bind (.const (total_cs true)) fun _ s₁ => ?_
  refine .bind (h.returns s₁ true false) fun _ s₂ => ?_
  refine .bind (.const total_aborted) fun _ s₃ => .ite ?_ (.ite ?_ (returns_stopTran h _))
  · exact .bind (.const (total_cs false)) fun _ _ => .pure _
  · exact .bind (.const total_deselect) fun _ _ => .pure _

end Ends

/-! ## Every card -/

/-- A bus on which nothing was transferred yet. -/
def Bus.start (selected : Bool) : Bus where
  selected := selected

/-- Whatever the card answers, whatever the clock shows and whenever the caller withdraws. -/
theorem clean_bus (card : Card) (cfg : CardResetConfig) (selected : Bool)
    (hends : WaitsEnd card cfg.busyTimeoutMs) :
    (∃ result s, Settles (fun fuel => cardReset card fuel cfg) (.start selected) result s ∧
        Done result s ∧ (s.trace.map SpiByte.out).count spiStopTranToken ≤ 1 ∧
        ∀ before t, before ++ [t] <+: s.trace → t.out = spiStopTranToken → Released before) ∧
      ∃ verdict s, (cardProbeReady card).exec (.start selected) = (.ok verdict, s) ∧
        s.selected = false ∧ Clean probeCommands false s.trace := by
  constructor
  · obtain ⟨result, s, enough, hsettles⟩ := returns_cardReset (s := .start selected) hends
    have hdone := @wp_cardReset card (.start selected) enough cfg rfl
    rw [wp, hsettles enough (Nat.le_refl enough)] at hdone
    exact ⟨result, s, ⟨enough, hsettles⟩, hdone, hdone.token⟩
  · exact exists_exec_of_wp (@wp_cardProbeReady card (.start selected) _ rfl)

/-- A card that answers every byte with 0x01. -/
def promptCard : Card where
  answer _ := 0x01
  clock _ := 0
  aborts _ := false

theorem clean_bus_promptCard :
    ∃ result s, Settles (fun fuel => cardReset promptCard fuel {}) (.start false) result s ∧
      Done result s := by
  obtain ⟨⟨result, s, hsettles, hdone, -⟩, -⟩ := clean_bus promptCard {} false
    (waitsEnd_of_answer (fun _ => (by decide : (0x01 : UInt8) ≠ 0)) _)
  exact ⟨result, s, hsettles, hdone⟩

end EspCars.SdLogger
