import EspCars.Linbus.Decoder

/-!
# A corrupt byte in a frame

The event task drains the ring of received bytes before it handles the error event of one of them:
the decoder reads a corrupt byte, and what came in behind it, before it hears of the error. A frame
that ends in between is passed on with the byte in it.
-/

namespace EspCars.Linbus

open Decoder (calculatePid index)

/-- An event, and whether its byte was received with a framing or parity error. -/
structure Reception where
  wire : Wire
  shared : Shared := {}
  corrupt : Bool := false

/-- The decoder, whether a byte of its frame is corrupt, the PID included, and whether a frame with
such a byte was passed to `onData`. -/
structure Watched where
  decoder : Decoder := {}
  tainted : Bool := false
  passed : Bool := false

/-- The byte is one of the frame, unless that is full. -/
def Reception.taints (x : Reception) (d : Decoder) (tainted : Bool) : Bool :=
  match x.wire, d.state with
  | .byte _, .sid => x.corrupt
  | .byte _, .data => tainted || (x.corrupt && d.currentData.length < linMaxDataSize + 1)
  | _, _ => tainted

def Watched.step (w : Watched) (x : Reception) : Watched :=
  let d := w.decoder.step (x.wire, x.shared)
  let tainted := x.taints w.decoder w.tainted
  { decoder := d, tainted := tainted
    passed := w.passed || (tainted && d.onData.length > w.decoder.onData.length) }

def Watched.run (w : Watched) (xs : List Reception) : Watched := xs.foldl Watched.step w

/-- The byte with which a frame of the ID is passed on: the last one, or where no length is declared
the one behind a full frame. -/
def Decoder.limit (d : Decoder) (id : UInt8) : Nat :=
  if d.rxExpectedLen (index id) = 0 then linMaxDataSize + 2 else (d.rxExpectedLen (index id)).val + 1

/-- A frame of which `count` bytes are read is dropped before it is passed on. -/
def Dropped (limit : Nat) : Nat → List Reception → Prop
  | _, [] => True
  | count, x :: xs =>
    match x.wire with
    | .byte _ => count + 1 < limit ∧ Dropped limit (count + 1) xs
    | .frameError => True
    | .uartBreak => count < 2
    | .interByteTimeout => count < 2

/-- The frame that the corrupt byte gets into is dropped. -/
def Quashed (d : Decoder) (b : UInt8) (after : List Reception) : Prop :=
  match d.state with
  | .sid => calculatePid (b &&& 0x3F) = b → Dropped (d.limit (b &&& 0x3F)) 0 after
  | .data => d.currentData.length < linMaxDataSize + 1 →
    d.currentData.length + 1 < d.limit d.currentID ∧
      Dropped (d.limit d.currentID) (d.currentData.length + 1) after
  | _ => True

/-- Every corrupt byte is followed by its error event before its frame ends. -/
def Caught : Watched → List Reception → Prop
  | _, [] => True
  | w, x :: xs =>
    (∀ b, x.wire = .byte b → x.corrupt = true → Quashed w.decoder b xs) ∧ Caught (w.step x) xs

/-! ## One event -/

namespace Decoder

variable {d : Decoder} {s : Shared} {b : UInt8}

/-- A byte of a frame is put behind the others, or ends it. -/
theorem receiveData_cases (d : Decoder) (b : UInt8) :
    (d.currentData.length + 1 < d.limit d.currentID →
      d.receiveData b = { d with currentData := d.currentData ++ [b] }) ∧
    (¬ d.currentData.length + 1 < d.limit d.currentID → ∃ data,
      d.receiveData b = { d with currentData := data }.callOnData.resetDecodeState) := by
  have hmax : linMaxDataSize = 8 := rfl
  have hlen := (d.rxExpectedLen (index d.currentID)).isLt
  unfold receiveData
  by_cases hroom : d.currentData.length < linMaxDataSize + 1
  · have hends : (d.expectedFrameBytes d.currentID > 0 ∧
        ((d.currentData ++ [b]).length : Int) ≥ d.expectedFrameBytes d.currentID) ↔
        ¬ d.currentData.length + 1 < d.limit d.currentID := by
      unfold expectedFrameBytes limit
      rw [List.length_append, List.length_singleton]
      dsimp only
      split_ifs
      · omega
      · omega
    rw [if_pos hroom]
    dsimp only
    constructor
    · intro hmore
      exact if_neg fun h => hends.mp h hmore
    · intro hlast
      exact ⟨d.currentData ++ [b], if_pos (hends.mpr hlast)⟩
  · have hlast : ¬ d.currentData.length + 1 < d.limit d.currentID := by
      unfold limit
      split_ifs
      · omega
      · omega
    rw [if_neg hroom, if_pos (by omega : d.currentData.length ≥ 2)]
    exact ⟨fun hmore => absurd hmore hlast, fun _ => ⟨d.currentData, rfl⟩⟩

theorem receiveDecode_data (hstate : d.state = .data) :
    let d' := d.receiveDecode s b 0
    (d.currentData.length + 1 < d.limit d.currentID →
      d'.state = .data ∧ d'.currentData.length = d.currentData.length + 1 ∧
        d'.limit d'.currentID = d.limit d.currentID ∧ d'.onData = d.onData) ∧
    (¬ d.currentData.length + 1 < d.limit d.currentID →
      d'.state = .break ∧ d'.onData.length = d.onData.length + 1) := by
  obtain ⟨d', ⟨e, t, rfl⟩, heq⟩ := receiveDecode_eq d s b
  have hdata : d.receiveDecode s b 0 = receiveData { d with echo := e, statistics := t } b := by
    rw [heq, decode, hstate]
    exact if_pos rfl
  obtain ⟨hgoes, hends⟩ := receiveData_cases { d with echo := e, statistics := t } b
  intro d''
  constructor
  · intro hmore
    have hd : d'' = _ := hdata.trans (hgoes hmore)
    rw [hd]
    exact ⟨hstate, List.length_append, rfl, rfl⟩
  · intro hlast
    obtain ⟨data, hends⟩ := hends hlast
    have hd : d'' = _ := hdata.trans hends
    rw [hd]
    exact ⟨rfl, List.length_append⟩

/-- A PID begins a frame without data, and every other byte of a header leaves the decoder outside
of one. -/
theorem receiveDecode_header (hstate : d.state ≠ .data) :
    let d' := d.receiveDecode s b 0
    d'.onData = d.onData ∧ (d'.state = .data → d.state = .sid) ∧
      (d.state = .sid → if calculatePid (b &&& 0x3F) = b then
        d'.state = .data ∧ d'.currentData = [] ∧ d'.currentID = b &&& 0x3F ∧
          d'.rxExpectedLen = d.rxExpectedLen
      else d'.state ≠ .data) := by
  obtain ⟨d', ⟨e, t, rfl⟩, heq⟩ := receiveDecode_eq d s b
  rw [heq, decode]
  cases hd : d.state with
  | «break» =>
    dsimp only
    split_ifs <;> simp
  | sync =>
    dsimp only
    split_ifs <;> simp
  | sid =>
    dsimp only
    unfold receiveSid
    by_cases hpid : calculatePid (b &&& 0x3F) = b
    · obtain ⟨e', t', hid⟩ := sameButEcho_onID { d with
        state := .sid, echo := e, statistics := t, currentPIDWithParity := b
        currentID := b &&& 0x3F } s (b &&& 0x3F)
      simp only [if_pos hpid, hid]
      simp
    · simp only [if_neg hpid]
      split_ifs <;> simp
  | data => exact absurd hd hstate

theorem onFrameError_spec :
    (d.onFrameError s).onData = d.onData ∧ (d.onFrameError s).state ≠ .data := by
  unfold onFrameError echoClear resetDecodeState
  dsimp only
  split_ifs <;> simp_all

theorem onUartBreak_spec : (d.onUartBreak s).state = .sync ∧
    (d.onUartBreak s).onData.length =
      d.onData.length + if d.state = .data ∧ d.currentData.length ≥ 2 then 1 else 0 := by
  unfold onUartBreak echoPop callOnData
  dsimp only
  split_ifs <;> simp_all

theorem onInterByteTimeout_spec : (d.onInterByteTimeout s).state ≠ .data ∧
    (d.onInterByteTimeout s).onData.length =
      d.onData.length + if d.state = .data ∧ d.currentData.length ≥ 2 then 1 else 0 := by
  unfold onInterByteTimeout echoClear echoCountCollision resetDecodeState callOnData
  dsimp only
  split_ifs <;> simp_all

end Decoder

/-! ## The run -/

namespace Watched

variable {w : Watched} {x : Reception} {xs : List Reception}

/-- A frame that is being read with a corrupt byte in it is dropped. -/
def Owes (w : Watched) (xs : List Reception) : Prop :=
  w.tainted = true → w.decoder.state = .data →
    Dropped (w.decoder.limit w.decoder.currentID) w.decoder.currentData.length xs

/-- What is to be shown of one event: it passes no corrupt byte on, and what is owed stays owed. -/
def Settles (w : Watched) (x : Reception) (xs : List Reception) : Prop :=
  w.Owes (x :: xs) ∧ (∀ b, x.wire = .byte b → x.corrupt = true → Quashed w.decoder b xs) ↔
    (w.step x).passed = false ∧ (w.step x).Owes xs

theorem dropped_byte {limit count : Nat} {b : UInt8} (hwire : x.wire = .byte b) :
    Dropped limit count (x :: xs) ↔ count + 1 < limit ∧ Dropped limit (count + 1) xs := by
  rw [Dropped, hwire]

theorem settles_byte_data (hpassed : w.passed = false) {b : UInt8} (hwire : x.wire = .byte b)
    (hstate : w.decoder.state = .data) : w.Settles x xs := by
  have hfull : w.decoder.limit w.decoder.currentID ≤ linMaxDataSize + 2 := by
    unfold Decoder.limit
    have hlen := (w.decoder.rxExpectedLen (index w.decoder.currentID)).isLt
    split_ifs <;> omega
  obtain ⟨hgoes, hends⟩ := Decoder.receiveDecode_data (s := x.shared) (b := b) hstate
  have hstep : w.decoder.step (x.wire, x.shared) = w.decoder.receiveDecode x.shared b 0 := by
    rw [hwire]
    rfl
  rw [← hstep] at hgoes hends
  unfold Settles Owes step Reception.taints Quashed
  generalize w.decoder.step (x.wire, x.shared) = d' at hgoes hends ⊢
  simp only [hwire, hstate, hpassed, dropped_byte hwire]
  by_cases hmore : w.decoder.currentData.length + 1 < w.decoder.limit w.decoder.currentID
  · obtain ⟨hdata, hcount, hlimit, hsame⟩ := hgoes hmore
    have hroom : w.decoder.currentData.length < linMaxDataSize + 1 := by omega
    cases w.tainted <;> cases x.corrupt <;> simp [hmore, hroom, hdata, hcount, hlimit, hsame]
  · obtain ⟨hbreak, hcount⟩ := hends hmore
    cases w.tainted <;> cases x.corrupt <;> simp [hmore, hbreak, hcount]

theorem settles_byte_header (hpassed : w.passed = false) {b : UInt8} (hwire : x.wire = .byte b)
    (hstate : w.decoder.state ≠ .data) : w.Settles x xs := by
  obtain ⟨hsame, hsid, hpid⟩ := Decoder.receiveDecode_header (s := x.shared) (b := b) hstate
  have hstep : w.decoder.step (x.wire, x.shared) = w.decoder.receiveDecode x.shared b 0 := by
    rw [hwire]
    rfl
  rw [← hstep] at hsame hsid hpid
  unfold Settles Owes step Reception.taints Quashed
  generalize w.decoder.step (x.wire, x.shared) = d' at hsame hsid hpid ⊢
  simp only [hwire, hpassed, hsame]
  cases hkind : w.decoder.state with
  | data => exact absurd hkind hstate
  | sid =>
    have hpid := hpid hkind
    split_ifs at hpid with hvalid
    · obtain ⟨hdata, hempty, hid, hlen⟩ := hpid
      simp [hvalid, hdata, hempty, hid, hlen, Decoder.limit]
    · simp [hvalid, hpid]
  | _ =>
    have hnot : d'.state ≠ .data := fun hdata => by
      rw [hkind] at hsid
      cases hsid hdata
    simp [hnot]

/-- An event that ends the frame or drops it. -/
theorem settles_gap (hpassed : w.passed = false) (hwire : ∀ b, x.wire ≠ .byte b)
    (hout : (w.decoder.step (x.wire, x.shared)).state ≠ .data)
    (hends : (w.decoder.step (x.wire, x.shared)).onData.length > w.decoder.onData.length ↔
      w.decoder.state = .data ∧
        ¬ Dropped (w.decoder.limit w.decoder.currentID) w.decoder.currentData.length (x :: xs)) :
    w.Settles x xs := by
  have htaints : x.taints w.decoder w.tainted = w.tainted := by
    unfold Reception.taints
    cases hx : x.wire with
    | byte b => exact absurd hx (hwire b)
    | _ => rfl
  unfold Settles Owes step
  rw [htaints]
  simp only [hpassed, hout, hwire]
  simp only [Bool.false_or, Bool.and_eq_false_imp, decide_eq_false_iff_not, hends]
  tauto

theorem passes_gap {d d' : Decoder} (hcount : d'.onData.length =
      d.onData.length + if d.state = .data ∧ d.currentData.length ≥ 2 then 1 else 0) :
    d'.onData.length > d.onData.length ↔ d.state = .data ∧ ¬ d.currentData.length < 2 := by
  rw [hcount, Nat.not_lt]
  split_ifs with hheld
  · exact iff_of_true (Nat.lt_succ_self _) hheld
  · exact iff_of_false (Nat.lt_irrefl _) hheld

theorem settles (hpassed : w.passed = false) (x : Reception) (xs : List Reception) :
    w.Settles x xs := by
  cases hwire : x.wire with
  | byte b =>
    by_cases hstate : w.decoder.state = .data
    · exact settles_byte_data hpassed hwire hstate
    · exact settles_byte_header hpassed hwire hstate
  | frameError =>
    obtain ⟨hsame, hout⟩ := Decoder.onFrameError_spec (d := w.decoder) (s := x.shared)
    refine settles_gap hpassed (by simp [hwire]) ?_ ?_
    · rw [hwire]
      exact hout
    · rw [hwire]
      simp [Decoder.step, hsame, Dropped, hwire]
  | uartBreak =>
    obtain ⟨hout, hcount⟩ := Decoder.onUartBreak_spec (d := w.decoder) (s := x.shared)
    refine settles_gap hpassed (by simp [hwire]) ?_ ?_
    · rw [hwire]
      exact hout ▸ by decide
    · rw [Dropped, hwire]
      exact passes_gap hcount
  | interByteTimeout =>
    obtain ⟨hout, hcount⟩ := Decoder.onInterByteTimeout_spec (d := w.decoder) (s := x.shared)
    refine settles_gap hpassed (by simp [hwire]) ?_ ?_
    · rw [hwire]
      exact hout
    · rw [Dropped, hwire]
      exact passes_gap hcount

theorem passed_run (h : w.passed = true) (xs : List Reception) : (w.run xs).passed = true := by
  induction xs generalizing w with
  | nil => exact h
  | cons x xs ih =>
    apply ih
    unfold step
    dsimp only
    rw [h, Bool.true_or]

theorem run_iff (hpassed : w.passed = false) (xs : List Reception) :
    (w.run xs).passed = false ↔ w.Owes xs ∧ Caught w xs := by
  induction xs generalizing w with
  | nil => exact iff_of_true hpassed ⟨fun _ _ => trivial, trivial⟩
  | cons x xs ih =>
    have hstep := settles hpassed x xs
    unfold Settles at hstep
    unfold Caught
    rw [← and_assoc, hstep, and_assoc]
    cases hnext : (w.step x).passed with
    | false => exact (ih hnext).trans (by simp)
    | true =>
      have hrun : (w.run (x :: xs)).passed = true := passed_run hnext xs
      rw [hrun]
      simp

end Watched

/-- No frame with a corrupt byte is passed to `onData` just when the error event of each of them
comes before the frame ends. -/
theorem passed_iff_caught (d : Decoder) (xs : List Reception) :
    ((Watched.mk d false false).run xs).passed = false ↔ Caught (Watched.mk d false false) xs := by
  rw [Watched.run_iff rfl]
  exact and_iff_right fun h => Bool.noConfusion h

/-- The checksum of a frame of two bytes is corrupt, and its error event comes at once. -/
theorem not_caught :
    ¬ ∀ (d : Decoder) (xs : List Reception),
      (∀ before x after, xs = before ++ x :: after → x.corrupt = true →
        ∃ y ∈ after, y.wire = .frameError) →
      ((Watched.mk d false false).run xs).passed = false := by
  intro h
  have hpassed := h { rxExpectedLen := fun _ => 1 }
    [{ wire := .byte 0x00 }, { wire := .byte 0x55 }, { wire := .byte 0x80 }, { wire := .byte 0x12 },
      { wire := .byte 0x34, corrupt := true }, { wire := .frameError }] ?_
  · revert hpassed
    decide
  · intro before x after hsplit hcorrupt
    refine ⟨{ wire := .frameError }, ?_, rfl⟩
    have hlast := congrArg List.getLast? hsplit
    rw [List.getLast?_append_of_ne_nil _ (List.cons_ne_nil _ _)] at hlast
    cases after with
    | nil =>
      cases hlast
      cases hcorrupt
    | cons y after =>
      rw [List.getLast?_cons_cons] at hlast
      exact List.mem_of_getLast? hlast.symm

end EspCars.Linbus
