import EspCars.Linbus.Master
import Mathlib

/-!
# Collisions on a LIN bus

Everything that a node drives comes back on its own receive line. The echo FIFO of
`components/linbus/LinProtocolHandler.cpp` holds what is still to come back, and a collision is
counted where something else comes, or nothing.

`ComesBack` says what it is for a transmission to come back. A `Line` is a node with a ledger of
its transmissions: what was driven, and what was heard until the next idle gap, the next
transmission or a frame error. `collisions_of_transmission` compares the collisions counted with
the ledger, over every run of the event task.
-/

namespace EspCars.Linbus

open EspCars.Lib

/-! ## What comes back -/

/-- What goes over the line: a break, or a byte. -/
inductive Symbol
  | «break»
  | byte (b : UInt8)
  deriving DecidableEq, Repr

/-- What the FIFO holds for a symbol that the node drives. -/
def Symbol.code : Symbol → UInt16
  | .break => echoBreak
  | .byte b => b.toUInt16

/-- What an event of the UART says was on the line. -/
def Wire.symbol : Wire → Option Symbol
  | .byte b => some (.byte b)
  | .uartBreak => some .break
  | .interByteTimeout => none
  | .frameError => none

/-- What was heard begins with the echo of what was driven, in order. A break comes back as a
byte 0x00 or as a break event. While a byte is awaited, break events do not count, and neither
does a 0x00 before a 0x55: it is taken for the break's. -/
inductive ComesBack : List Symbol → List Symbol → Prop
  | done (ws : List Symbol) : ComesBack [] ws
  | breakByte {ds ws : List Symbol} (h : ComesBack ds ws) :
    ComesBack (.break :: ds) (.byte 0x00 :: ws)
  | breakEvent {ds ws : List Symbol} (h : ComesBack ds ws) :
    ComesBack (.break :: ds) (.break :: ws)
  | byte (b : UInt8) {ds ws : List Symbol} (h : ComesBack ds ws) :
    ComesBack (.byte b :: ds) (.byte b :: ws)
  | event (b : UInt8) {ds ws : List Symbol} (h : ComesBack (.byte b :: ds) ws) :
    ComesBack (.byte b :: ds) (.break :: ws)
  | zero {ds ws : List Symbol} (h : ComesBack (.byte 0x55 :: ds) ws) :
    ComesBack (.byte 0x55 :: ds) (.byte 0x00 :: ws)

/-- The echoes of a symbol that nothing disturbs: a break comes back as a byte 0x00, as a break
event, or as the event and then the byte. -/
def Symbol.echoes : Symbol → List (List Symbol)
  | .break => [[.byte 0x00], [.break], [.break, .byte 0x00]]
  | .byte b => [[.byte b]]

/-- What was heard begins with an undisturbed echo of everything driven, with nothing
between. -/
def Unchanged : List Symbol → List Symbol → Prop
  | [], _ => True
  | d :: ds, ws => ∃ echo ∈ d.echoes, ∃ rest, ws = echo ++ rest ∧ Unchanged ds rest

/-- What one symbol leaves of what is awaited, and whether it is another than the awaited
one. -/
def hear : List Symbol → Symbol → List Symbol × Bool
  | [], _ => ([], false)
  | .break :: ds, .byte b => (ds, b ≠ 0x00)
  | .break :: ds, .break => (ds, false)
  | .byte x :: ds, .byte b => if x = 0x55 ∧ b = 0x00 then (.byte x :: ds, false) else (ds, b ≠ x)
  | .byte x :: ds, .break => (.byte x :: ds, false)

/-- What is still awaited behind some symbols, and how many of them were others. -/
def follow : List Symbol → List Symbol → List Symbol × Nat
  | ds, [] => (ds, 0)
  | ds, w :: ws =>
    ((follow (hear ds w).1 ws).1, (follow (hear ds w).1 ws).2 + (hear ds w).2.toNat)

theorem follow_append (ds ws ws' : List Symbol) :
    follow ds (ws ++ ws') = ((follow (follow ds ws).1 ws').1,
      (follow ds ws).2 + (follow (follow ds ws).1 ws').2) := by
  induction ws generalizing ds with
  | nil => simp only [List.nil_append, follow, Nat.zero_add]
  | cons w ws ih =>
    simp only [List.cons_append, follow, ih]
    rw [Nat.add_right_comm]

theorem follow_singleton (ds : List Symbol) (w : Symbol) :
    follow ds [w] = ((hear ds w).1, (hear ds w).2.toNat) := by
  simp only [follow, Nat.zero_add]

theorem follow_nil (ws : List Symbol) : follow [] ws = ([], 0) := by
  induction ws with
  | nil => rfl
  | cons w ws ih => simp only [follow, hear, ih, Bool.toNat_false, Nat.add_zero]

/-- Every symbol takes at most one off, and only then can it be another. -/
theorem length_hear (ds : List Symbol) (w : Symbol) :
    (hear ds w).1.length + (hear ds w).2.toNat ≤ ds.length := by
  unfold hear
  split
  · exact le_refl _
  · exact Nat.add_le_add_left (Bool.toNat_le _) _
  · exact Nat.le_succ _
  · split_ifs
    · exact le_refl _
    · exact Nat.add_le_add_left (Bool.toNat_le _) _
  · exact le_refl _

theorem length_follow (ds ws : List Symbol) :
    (follow ds ws).1.length + (follow ds ws).2 ≤ ds.length := by
  induction ws generalizing ds with
  | nil => exact le_refl _
  | cons w ws ih =>
    have hrest := ih (hear ds w).1
    have hhead := length_hear ds w
    simp only [follow]
    omega

/-- The first symbol heard is not another than the awaited one, and the rest goes on from
there. -/
theorem comesBack_cons_iff (ds : List Symbol) (w : Symbol) (ws : List Symbol) :
    ComesBack ds (w :: ws) ↔ (hear ds w).2 = false ∧ ComesBack (hear ds w).1 ws := by
  constructor
  · intro h
    cases h with
    | done => exact ⟨rfl, .done ws⟩
    | breakByte h => exact ⟨rfl, h⟩
    | breakEvent h => exact ⟨rfl, h⟩
    | @byte b ds _ h =>
      have hsame : hear (.byte b :: ds) (.byte b) = (ds, false) := by
        rw [hear, if_neg, decide_eq_false (not_not_intro rfl)]
        rintro ⟨rfl, hzero⟩
        exact absurd hzero (by decide)
      rw [hsame]
      exact ⟨rfl, h⟩
    | event b h => exact ⟨rfl, h⟩
    | zero h => exact ⟨rfl, h⟩
  · rintro ⟨hmiss, h⟩
    cases ds with
    | nil => exact .done _
    | cons d ds =>
      cases d with
      | «break» =>
        cases w with
        | «break» => exact .breakEvent h
        | byte b =>
          have hzero : b = 0x00 := not_not.mp (of_decide_eq_false hmiss)
          subst hzero
          exact .breakByte h
      | byte x =>
        cases w with
        | «break» => exact .event x h
        | byte b =>
          rw [hear] at hmiss h
          split_ifs at hmiss h with hzero
          · obtain ⟨rfl, rfl⟩ := hzero
            exact .zero h
          · have hsame : b = x := not_not.mp (of_decide_eq_false hmiss)
            subst hsame
            exact .byte b h

/-- A transmission has come back if nothing is awaited any more and nothing was another. -/
theorem comesBack_iff_follow (ds ws : List Symbol) :
    ComesBack ds ws ↔ follow ds ws = ([], 0) := by
  induction ws generalizing ds with
  | nil =>
    constructor
    · intro h
      cases h
      rfl
    · intro h
      rw [show ds = [] from congrArg Prod.fst h]
      exact .done []
  | cons w ws ih =>
    rw [comesBack_cons_iff, ih, follow]
    simp only [Prod.ext_iff, Nat.add_eq_zero_iff, Bool.toNat_eq_zero]
    tauto

/-- Nothing was another so far: what is awaited can still come back. -/
theorem comesBack_append_iff (ds ws : List Symbol) :
    (∃ rest, ComesBack ds (ws ++ rest)) ↔ (follow ds ws).2 = 0 := by
  induction ws generalizing ds with
  | nil =>
    refine iff_of_true ⟨ds, ?_⟩ rfl
    induction ds with
    | nil => exact .done _
    | cons d ds ih =>
      cases d with
      | «break» => exact .breakEvent ih
      | byte b => exact .byte b ih
  | cons w ws ih =>
    simp only [List.cons_append, comesBack_cons_iff, exists_and_left, ih, follow,
      Nat.add_eq_zero_iff, Bool.toNat_eq_zero]
    tauto

/-- The header of an ID: break, sync byte and PID. -/
def header (id : UInt8) : List Symbol := [.break, .byte 0x55, .byte (Decoder.calculatePid id)]

theorem ComesBack.of_unchanged_bytes {bytes : List UInt8} {ws : List Symbol}
    (h : Unchanged (bytes.map .byte) ws) : ComesBack (bytes.map .byte) ws := by
  induction bytes generalizing ws with
  | nil => exact .done ws
  | cons b bytes ih =>
    obtain ⟨echo, hecho, rest, rfl, hrest⟩ := h
    rw [List.mem_singleton.mp hecho]
    exact .byte b (ih hrest)

/-- The trailing 0x00 of a header's break is in front of its sync byte. -/
theorem ComesBack.of_unchanged_header {id : UInt8} {ws : List Symbol}
    (h : Unchanged (header id) ws) : ComesBack (header id) ws := by
  obtain ⟨echo, hecho, rest, rfl, hrest⟩ := h
  have hbytes : ComesBack ([0x55, Decoder.calculatePid id].map .byte) rest :=
    .of_unchanged_bytes hrest
  have hcases : echo = [.byte 0x00] ∨ echo = [.break] ∨ echo = [.break, .byte 0x00] := by
    simpa [Symbol.echoes] using hecho
  rcases hcases with rfl | rfl | rfl
  · exact .breakByte hbytes
  · exact .breakEvent hbytes
  · exact .breakEvent (.zero hbytes)

/-- What a node sends: a header, or a response. -/
def Sendable (ds : List Symbol) : Prop :=
  (∃ id, ds = header id) ∨ ∃ bytes : List UInt8, ds = bytes.map .byte ∧ bytes.length ≤ echoFifoSize

/-- Undisturbed echoes are among what comes back. -/
theorem Sendable.comesBack {ds ws : List Symbol} (h : Sendable ds) (hws : Unchanged ds ws) :
    ComesBack ds ws := by
  rcases h with ⟨id, rfl⟩ | ⟨bytes, rfl, -⟩
  · exact .of_unchanged_header hws
  · exact .of_unchanged_bytes hws

theorem Sendable.length_le {ds : List Symbol} (h : Sendable ds) : ds.length ≤ echoFifoSize := by
  rcases h with ⟨id, rfl⟩ | ⟨bytes, rfl, hlength⟩
  · exact Nat.le_add_right 3 13
  · rw [List.length_map]
    exact hlength

/-! ## The FIFO -/

namespace Decoder

variable (d : Decoder) (s : Shared)

@[simp] theorem echo_echoCountCollision (locked : Bool) :
    (d.echoCountCollision locked).echo = d.echo := by
  cases locked <;> rfl

/-- An attempt counts if the mutex is free. -/
@[simp] theorem collisions_echoCountCollision (locked : Bool) :
    (d.echoCountCollision locked).statistics.collisions =
      d.statistics.collisions + if locked then 1 else 0 := by
  cases locked
  · exact (UInt32.add_zero _).symm
  · rfl

/-- Holds what is still awaited, and has counted `c` collisions. -/
structure Awaits (d : Decoder) (ds : List Symbol) (c : UInt32) : Prop where
  echo : d.echo = ds.map Symbol.code
  collisions : d.statistics.collisions = c

/-- One attempt to count, if there is a reason. -/
def paid (attempt locked : Bool) : UInt32 := if attempt && locked then 1 else 0

variable {d} {ds : List Symbol} {c : UInt32}

theorem Awaits.length_pos_iff (h : d.Awaits ds c) : d.echo.length > 0 ↔ ds ≠ [] := by
  rw [h.echo, List.length_map]
  exact List.length_pos_iff

theorem Awaits.paid_false (h : d.Awaits ds c) (locked : Bool) :
    d.Awaits ds (c + paid false locked) :=
  ⟨h.echo, h.collisions.trans (UInt32.add_zero c).symm⟩

theorem Awaits.clear (h : d.Awaits ds c) : d.echoClear.Awaits [] c := ⟨rfl, h.collisions⟩

theorem Awaits.pop {x : Symbol} (h : d.Awaits (x :: ds) c) : d.echoPop.Awaits ds c :=
  ⟨congrArg List.tail h.echo, h.collisions⟩

theorem Awaits.count (h : d.Awaits ds c) (locked : Bool) :
    (d.echoCountCollision locked).Awaits ds (c + paid true locked) :=
  ⟨(echo_echoCountCollision d locked).trans h.echo,
    (collisions_echoCountCollision d locked).trans (congrArg (· + paid true locked) h.collisions)⟩

/-- The front is taken off, and counted if it was another. -/
theorem Awaits.consume {x : Symbol} (h : d.Awaits (x :: ds) c) (miss : Prop) [Decidable miss]
    (locked : Bool) :
    (if miss then d.echoPop.echoCountCollision locked else d.echoPop).Awaits ds
      (c + paid miss locked) := by
  by_cases hmiss : miss
  · rw [if_pos hmiss, decide_eq_true hmiss]
    exact h.pop.count locked
  · rw [if_neg hmiss, decide_eq_false hmiss]
    exact h.pop.paid_false locked

/-- What is left over is one collision, and then nothing is awaited. -/
theorem Awaits.settle (h : d.Awaits ds c) (locked : Bool) :
    (if d.echo.length > 0 then (d.echoCountCollision locked).echoClear else d).Awaits []
      (c + paid (ds ≠ []) locked) := by
  by_cases hempty : ds = []
  · subst hempty
    rw [if_neg (mt h.length_pos_iff.mp (not_not_intro rfl))]
    exact h.paid_false locked
  · rw [if_pos (h.length_pos_iff.mpr hempty), decide_eq_true hempty]
    exact (h.count locked).clear

theorem code_byte_ne (b : UInt8) : (Symbol.byte b).code ≠ echoBreak := by
  intro h
  have hlt := b.toNat_lt
  have hnat : b.toNat = 256 := by simpa [Symbol.code, echoBreak] using congrArg UInt16.toNat h
  omega

/-- The FIFO's comparison is the one with what is awaited. Awaiting nothing, the decoder
compares nothing. -/
theorem Awaits.compare (h : d.Awaits ds c) (b : UInt8) :
    (if d.echo.length > 0 then d.echoCompare s b else d).Awaits (hear ds (.byte b)).1
      (c + paid (hear ds (.byte b)).2 (s.locked .compare)) := by
  cases ds with
  | nil =>
    rw [if_neg (mt h.length_pos_iff.mp (not_not_intro rfl))]
    exact h.paid_false _
  | cons x ds =>
    have hfront : d.echo.headD 0 = x.code := by
      rw [h.echo]
      rfl
    rw [if_pos (h.length_pos_iff.mpr (List.cons_ne_nil x ds))]
    unfold echoCompare
    dsimp only
    rw [hfront]
    cases x with
    | «break» =>
      rw [if_pos (show Symbol.break.code = echoBreak from rfl)]
      exact h.consume (b ≠ 0x00) _
    | byte x =>
      have hzero : (Symbol.byte x).code = 0x55 ↔ x = 0x55 := by
        constructor
        · intro hcode
          simpa [Symbol.code] using congrArg UInt16.toUInt8 hcode
        · rintro rfl
          rfl
      have hbyte : (Symbol.byte x).code.toUInt8 = x := UInt8.toUInt8_toUInt16 x
      rw [if_neg (code_byte_ne x), hbyte, hear]
      simp only [hzero]
      by_cases htrailing : x = 0x55 ∧ b = 0x00
      · rw [if_pos htrailing, if_pos htrailing]
        exact h.paid_false _
      · rw [if_neg htrailing, if_neg htrailing]
        exact h.consume (b ≠ x) _

theorem Awaits.echoBeginTx (h : d.Awaits ds c) :
    (d.echoBeginTx s).Awaits [] (c + paid (ds ≠ []) (s.locked .beginTx)) :=
  h.settle (s.locked .beginTx)

/-- The FIFO has room for a transmission. -/
theorem Awaits.echoPush (h : d.Awaits ds c) (hroom : ds.length < echoFifoSize) (x : Symbol) :
    (d.echoPush s x.code).Awaits (ds ++ [x]) c := by
  have hlength : ¬ d.echo.length ≥ echoFifoSize := by
    rw [h.echo, List.length_map]
    exact Nat.not_le_of_lt hroom
  unfold Decoder.echoPush
  rw [if_neg hlength]
  refine ⟨?_, h.collisions⟩
  rw [List.map_append, ← h.echo]
  rfl

variable {bytes : List UInt8} {b : UInt8}

theorem Awaits.pushes (h : d.Awaits ds c) (hroom : ds.length + bytes.length ≤ echoFifoSize) :
    (bytes.foldl (fun d b => d.echoPush s b.toUInt16) d).Awaits (ds ++ bytes.map .byte) c := by
  induction bytes generalizing d ds with
  | nil =>
    rw [List.map_nil, List.append_nil]
    exact h
  | cons b bytes ih =>
    rw [List.length_cons] at hroom
    have hpushed := h.echoPush s (by omega) (.byte b)
    rw [List.map_cons, List.append_cons]
    refine ih hpushed ?_
    rw [List.length_append, List.length_singleton]
    omega

theorem Awaits.expectHeader (h : d.Awaits ds c) (id : UInt8) :
    (d.expectHeader s id).Awaits (header id) (c + paid (ds ≠ []) (s.locked .beginTx)) := by
  have hbegun := h.echoBeginTx s
  have hbreak := hbegun.echoPush s (by decide) .break
  have hsync := hbreak.echoPush s (by decide) (.byte 0x55)
  exact hsync.echoPush s (by decide) (.byte (calculatePid id))

theorem Awaits.onID_none (h : d.Awaits ds c) {id : UInt8} (hanswer : d.answer s id = none) :
    (d.onID s id).Awaits ds c := by
  rw [onID_of_answer_none hanswer]
  exact h

/-- A response goes out whole, and all of it is awaited. -/
theorem Awaits.onID_some (h : d.Awaits ds c) {id : UInt8}
    (hanswer : d.answer s id = some bytes) (hroom : bytes.length ≤ echoFifoSize) :
    (d.onID s id).Awaits (bytes.map .byte) (c + paid (ds ≠ []) (s.locked .beginTx)) := by
  rw [onID_of_answer_some hanswer]
  have hcounted : Awaits { d with statistics :=
      { d.statistics with idRequestsAnswered := d.statistics.idRequestsAnswered + 1 } } ds c :=
    ⟨h.echo, h.collisions⟩
  refine (hcounted.echoBeginTx s).pushes s ?_
  rw [List.length_nil, Nat.zero_add]
  exact hroom

/-- The state that decoding leaves does not concern the FIFO. -/
theorem Awaits.decode_none (h : d.Awaits ds c) (hanswer : d.answerTo s b = none) :
    (d.decode s b 0).Awaits ds c := by
  unfold answerTo at hanswer
  unfold Decoder.decode
  cases hstate : d.state with
  | «break» =>
    dsimp only
    split_ifs
    all_goals exact ⟨h.echo, h.collisions⟩
  | sync =>
    dsimp only
    split_ifs
    all_goals exact ⟨h.echo, h.collisions⟩
  | sid =>
    dsimp only
    unfold receiveSid
    by_cases hpid : calculatePid (b &&& 0x3F) = b
    · rw [if_pos ⟨hstate, hpid⟩] at hanswer
      rw [if_pos hpid]
      have hheld : Awaits { d with currentPIDWithParity := b, currentID := b &&& 0x3F } ds c :=
        ⟨h.echo, h.collisions⟩
      have hdone := hheld.onID_none s hanswer
      exact ⟨hdone.echo, hdone.collisions⟩
    · rw [if_neg hpid]
      dsimp only
      split_ifs
      all_goals exact ⟨h.echo, h.collisions⟩
  | data =>
    unfold receiveData
    dsimp only
    split_ifs
    all_goals exact ⟨h.echo, h.collisions⟩

theorem Awaits.decode_some (h : d.Awaits ds c)
    (hanswer : d.answerTo s b = some bytes) (hroom : bytes.length ≤ echoFifoSize) :
    (d.decode s b 0).Awaits (bytes.map .byte) (c + paid (ds ≠ []) (s.locked .beginTx)) := by
  unfold answerTo at hanswer
  split_ifs at hanswer with hpid
  obtain ⟨hstate, hpid⟩ := hpid
  unfold Decoder.decode
  rw [hstate]
  dsimp only
  unfold receiveSid
  rw [if_pos hpid]
  have hheld : Awaits { d with currentPIDWithParity := b, currentID := b &&& 0x3F } ds c :=
    ⟨h.echo, h.collisions⟩
  have hdone := hheld.onID_some s hanswer hroom
  exact ⟨hdone.echo, hdone.collisions⟩

theorem EchoOnly.answerTo {d d' : Decoder} (h : EchoOnly d d') (b : UInt8) :
    d'.answerTo s b = d.answerTo s b := by
  obtain ⟨e, c, rfl⟩ := h
  rfl

/-- The byte is compared before it is decoded, which leaves its answer as it is. -/
theorem receiveDecode_eq_compared (d : Decoder) (b : UInt8) :
    ∃ d' : Decoder, d.receiveDecode s b 0 = d'.decode s b 0 ∧ d'.answerTo s b = d.answerTo s b ∧
      ∀ ds c, d.Awaits ds c → d'.Awaits (hear ds (.byte b)).1
        (c + paid (hear ds (.byte b)).2 (s.locked .compare)) := by
  refine ⟨if d.echo.length > 0 then d.echoCompare s b else d, ?_, ?_, fun ds c h => h.compare s b⟩
  · unfold Decoder.receiveDecode
    simp only [true_and]
  · split_ifs
    · exact (echoOnly_echoCompare d s b).answerTo s b
    · rfl

theorem Awaits.receiveDecode_none (h : d.Awaits ds c) (hanswer : d.answerTo s b = none) :
    (d.receiveDecode s b 0).Awaits (hear ds (.byte b)).1
      (c + paid (hear ds (.byte b)).2 (s.locked .compare)) := by
  obtain ⟨d', heq, hsame, hcompared⟩ := receiveDecode_eq_compared s d b
  rw [heq]
  exact (hcompared ds c h).decode_none s (hsame.trans hanswer)

theorem Awaits.receiveDecode_some (h : d.Awaits ds c)
    (hanswer : d.answerTo s b = some bytes) (hroom : bytes.length ≤ echoFifoSize) :
    (d.receiveDecode s b 0).Awaits (bytes.map .byte)
      (c + paid (hear ds (.byte b)).2 (s.locked .compare) +
        paid ((hear ds (.byte b)).1 ≠ []) (s.locked .beginTx)) := by
  obtain ⟨d', heq, hsame, hcompared⟩ := receiveDecode_eq_compared s d b
  rw [heq]
  exact (hcompared ds c h).decode_some s (hsame.trans hanswer) hroom

theorem Awaits.onInterByteTimeout (h : d.Awaits ds c) :
    (d.onInterByteTimeout s).Awaits [] (c + paid (ds ≠ []) (s.locked .compare)) := by
  have hended : Awaits (if d.state = .data then
      (if d.currentData.length ≥ 2 then d.callOnData else d).resetDecodeState else d) ds c := by
    split_ifs
    all_goals exact ⟨h.echo, h.collisions⟩
  exact hended.settle (s.locked .compare)

theorem Awaits.onUartBreak (h : d.Awaits ds c) : (d.onUartBreak s).Awaits (hear ds .break).1 c := by
  have hpop : Awaits (if d.echo.length > 0 ∧ d.echo.headD 0 = echoBreak then d.echoPop else d)
      (hear ds .break).1 c := by
    cases ds with
    | nil =>
      rw [if_neg fun hfront => absurd rfl (h.length_pos_iff.mp hfront.1)]
      exact h
    | cons x ds =>
      have hfront : d.echo.headD 0 = x.code := by
        rw [h.echo]
        rfl
      cases x with
      | «break» =>
        rw [if_pos ⟨h.length_pos_iff.mpr (List.cons_ne_nil _ ds), hfront⟩]
        exact h.pop
      | byte x =>
        rw [if_neg fun hbreak => code_byte_ne x (hfront.symm.trans hbreak.2)]
        exact h
  unfold Decoder.onUartBreak
  dsimp only
  generalize (if d.echo.length > 0 ∧ d.echo.headD 0 = echoBreak then d.echoPop else d) = d'
    at hpop ⊢
  split_ifs
  all_goals exact ⟨hpop.echo, hpop.collisions⟩

theorem Awaits.onFrameError (h : d.Awaits ds c) : (d.onFrameError s).Awaits [] c := by
  unfold Decoder.onFrameError
  dsimp only
  split_ifs
  all_goals exact ⟨rfl, h.collisions⟩

end Decoder

/-! ## Collisions counted -/

/-- Of so many attempts to count, these were counted: all of them if the mutex was free. -/
def Tally (free : Bool) (attempts : Nat) (counted : UInt32) : Prop :=
  ∃ k ≤ attempts, counted = UInt32.ofNat k ∧ (free = true → k = attempts)

namespace Tally

variable {free free' : Bool} {m m' : Nat} {c c' : UInt32}

theorem zero (free : Bool) : Tally free 0 0 := ⟨0, le_refl _, rfl, fun _ => rfl⟩

theorem paid (attempt locked : Bool) :
    Tally locked attempt.toNat (Decoder.paid attempt locked) := by
  cases attempt with
  | false => exact zero locked
  | true =>
    cases locked with
    | false => exact ⟨0, Nat.zero_le _, rfl, fun h => absurd h (by decide)⟩
    | true => exact ⟨1, le_refl _, rfl, fun _ => rfl⟩

theorem mono (h : Tally free m c) (hfree : free' = true → free = true) : Tally free' m c := by
  obtain ⟨k, hk, hc, hall⟩ := h
  exact ⟨k, hk, hc, fun h => hall (hfree h)⟩

theorem add (h : Tally free m c) (h' : Tally free' m' c') :
    Tally (free && free') (m + m') (c + c') := by
  obtain ⟨k, hk, rfl, hall⟩ := h
  obtain ⟨k', hk', rfl, hall'⟩ := h'
  refine ⟨k + k', Nat.add_le_add hk hk', (UInt32.ofNat_add k k').symm, fun hfree => ?_⟩
  rw [Bool.and_eq_true] at hfree
  rw [hall hfree.1, hall' hfree.2]

theorem eq_zero (h : Tally free 0 c) : c = 0 := by
  obtain ⟨k, hk, rfl, -⟩ := h
  rw [Nat.le_zero.mp hk]
  rfl

/-- A total of 32 bits shows a few collisions. -/
theorem attempts_eq_zero (h : Tally true m c) (hm : m < 2 ^ 32) (hc : c = 0) : m = 0 := by
  obtain ⟨k, -, rfl, hall⟩ := h
  rw [hall rfl] at hc
  have hnat := congrArg UInt32.toNat hc
  rw [UInt32.toNat_ofNat_of_lt' hm] at hnat
  exact hnat

end Tally

/-! ## The ledger -/

namespace Event

/-- What an event says was on the line. -/
def symbol : Event → Option Symbol
  | .wire w _ _ => w.symbol
  | .tick _ => none
  | .schedule _ _ => none

def shared : Event → Shared
  | .wire _ _ s => s
  | .tick t => t.shared
  | .schedule _ _ => {}

/-- The mutex is free for counting a collision. -/
def free (e : Event) : Bool := e.shared.locked .compare && e.shared.locked .beginTx

/-- The response table holds what `set_response_data` leaves there. -/
def WellSized (e : Event) : Prop := ∀ r ∈ e.shared.responses, r.dataLength ≤ linMaxDataSize + 1

/-- Idle gaps and frame errors end a transmission; a frame error cuts it. -/
def ending : Event → Option Bool
  | .wire .interByteTimeout _ _ => some false
  | .wire .frameError _ _ => some true
  | .wire (.byte _) _ _ => none
  | .wire .uartBreak _ _ => none
  | .tick _ => none
  | .schedule _ _ => none

end Event

/-- What the node writes to the UART in an event: a header whose writes all succeed, or a
response. -/
def Node.drives (n : Node) : Event → Option (List Symbol)
  | .wire (.byte b) _ s => (n.decoder.answerTo s b).map (·.map .byte)
  | .wire .interByteTimeout _ _ => none
  | .wire .uartBreak _ _ => none
  | .wire .frameError _ _ => none
  | .tick t => (n.headerSent t).map header
  | .schedule _ _ => none

/-- The event ends the transmission before it, cut or not. The next one does, too. -/
def Node.ends (n : Node) (e : Event) : Option Bool :=
  if (n.drives e).isSome then some false else e.ending

/-- A transmission: what was driven, what was heard since it began, and whether the mutex was
free all the time. -/
structure Transmission where
  driven : List Symbol
  heard : List Symbol := []
  free : Bool := true
  deriving DecidableEq, Repr

namespace Transmission

def take (x : Transmission) (e : Event) : Transmission :=
  { x with heard := x.heard ++ e.symbol.toList, free := x.free && e.free }

/-- How often a collision is to be counted when the transmission ends: for every symbol that was
another, and for what has not come back if nothing cuts it. -/
def attempts (x : Transmission) (cut : Bool) : Nat :=
  (follow x.driven x.heard).2 +
    (!cut && decide ((follow x.driven x.heard).1 ≠ [])).toNat

end Transmission

/-- A transmission that has ended, with the collisions counted since it began. -/
structure Record where
  transmission : Transmission
  cut : Bool
  counted : UInt32
  deriving DecidableEq, Repr

/-- A node and the ledger of its transmissions. The current one stands with the total of
collisions at its begin. -/
structure Line where
  node : Node
  current : Option (Transmission × UInt32) := none
  past : List Record := []

def Line.step (l : Line) (e : Event) : Line :=
  let node := l.node.step e
  let total := node.decoder.statistics.collisions
  let current := l.current.map fun x => (x.1.take e, x.2)
  match l.node.ends e with
  | none => { l with node, current }
  | some cut =>
    { node,
      current := (l.node.drives e).map fun driven => ({ driven }, total),
      past := l.past ++ (current.map fun x => ⟨x.1, cut, total - x.2⟩).toList }

/-! ## One event -/

theorem Decoder.length_answerTo {d : Decoder} {s : Shared} {b : UInt8} {bytes : List UInt8}
    (hsized : ∀ r ∈ s.responses, r.dataLength ≤ linMaxDataSize + 1)
    (h : d.answerTo s b = some bytes) : bytes.length ≤ echoFifoSize := by
  unfold answerTo answer at h
  split_ifs at h
  obtain ⟨r, hfind, rfl⟩ := Option.map_eq_some_iff.mp h
  calc (r.responseData.take r.dataLength).length
      ≤ r.dataLength := List.length_take_le _ _
    _ ≤ linMaxDataSize + 1 := hsized r (List.mem_of_find?_eq_some hfind)
    _ ≤ echoFifoSize := by decide

theorem hear_break (ds : List Symbol) : (hear ds .break).2 = false := by
  cases ds with
  | nil => rfl
  | cons d ds => cases d <;> rfl

namespace Event

variable {e : Event}

theorem free_compare (h : e.free = true) : e.shared.locked .compare = true :=
  (Bool.and_eq_true _ _).mp h |>.1

theorem free_beginTx (h : e.free = true) : e.shared.locked .beginTx = true :=
  (Bool.and_eq_true _ _).mp h |>.2

end Event

namespace Node

variable {n : Node} {e : Event} {ds : List Symbol} {c : UInt32}

/-- An event that ends nothing takes from what is awaited what it heard. -/
theorem awaits_goesOn (h : n.decoder.Awaits ds c) (hends : n.ends e = none) :
    ∃ k, Tally e.free (follow ds e.symbol.toList).2 k ∧
      (n.step e).decoder.Awaits (follow ds e.symbol.toList).1 (c + k) := by
  have hdrives : n.drives e = none := by
    unfold ends at hends
    split_ifs at hends with hsome
    exact Option.not_isSome_iff_eq_none.mp hsome
  have hending : e.ending = none := by
    unfold ends at hends
    rwa [hdrives] at hends
  cases e with
  | wire w nowUs s =>
    cases w with
    | byte b =>
      have hanswer : n.decoder.answerTo s b = none := Option.map_eq_none_iff.mp hdrives
      rw [show (Event.wire (.byte b) nowUs s).symbol.toList = [.byte b] from rfl,
        follow_singleton]
      exact ⟨_, (Tally.paid _ _).mono Event.free_compare, h.receiveDecode_none s hanswer⟩
    | interByteTimeout => exact absurd hending (Option.some_ne_none false)
    | frameError => exact absurd hending (Option.some_ne_none true)
    | uartBreak =>
      rw [show (Event.wire .uartBreak nowUs s).symbol.toList = [.break] from rfl,
        follow_singleton, hear_break]
      refine ⟨0, .zero _, ?_⟩
      rw [UInt32.add_zero]
      exact h.onUartBreak s
  | tick t =>
    have hheader : n.headerSent t = none := Option.map_eq_none_iff.mp hdrives
    refine ⟨0, .zero _, ?_⟩
    have hsame : (n.step (.tick t)).decoder = n.decoder := by
      rw [step, masterSend_decoder, hheader]
      rfl
    rw [hsame, UInt32.add_zero]
    exact h
  | schedule i item =>
    refine ⟨0, .zero _, ?_⟩
    rw [UInt32.add_zero]
    exact h

/-- An event that ends a transmission settles it, and awaits what it drives itself. -/
theorem awaits_ends (h : n.decoder.Awaits ds c) (hsized : e.WellSized) {cut : Bool}
    (hends : n.ends e = some cut) :
    ∃ k, Tally e.free ((follow ds e.symbol.toList).2 +
        (!cut && decide ((follow ds e.symbol.toList).1 ≠ [])).toNat) k ∧
      (n.step e).decoder.Awaits ((n.drives e).getD []) (c + k) := by
  cases e with
  | wire w nowUs s =>
    cases w with
    | byte b =>
      cases hanswer : n.decoder.answerTo s b with
      | none =>
        rw [ends, drives, hanswer] at hends
        exact absurd hends.symm (Option.some_ne_none cut)
      | some bytes =>
        rw [ends, drives, hanswer] at hends
        obtain rfl : false = cut := Option.some_inj.mp hends
        have hroom := Decoder.length_answerTo hsized hanswer
        have hcompared := (Tally.paid (hear ds (.byte b)).2 (s.locked .compare)).mono
          (Event.free_compare (e := .wire (.byte b) nowUs s))
        have hbegun := (Tally.paid ((hear ds (.byte b)).1 ≠ []) (s.locked .beginTx)).mono
          (Event.free_beginTx (e := .wire (.byte b) nowUs s))
        have hboth := hcompared.add hbegun
        have hdone := h.receiveDecode_some s hanswer hroom
        rw [Bool.and_self] at hboth
        rw [UInt32.add_assoc] at hdone
        rw [show (Event.wire (.byte b) nowUs s).symbol.toList = [.byte b] from rfl,
          follow_singleton, drives, hanswer]
        exact ⟨_, hboth, hdone⟩
    | interByteTimeout =>
      obtain rfl : false = cut := Option.some_inj.mp hends
      rw [show (Event.wire .interByteTimeout nowUs s).symbol.toList = [] from rfl, follow]
      have htally := (Tally.paid (ds ≠ []) (s.locked .compare)).mono
        (Event.free_compare (e := .wire .interByteTimeout nowUs s))
      rw [Nat.zero_add]
      exact ⟨_, htally, h.onInterByteTimeout s⟩
    | uartBreak => exact absurd hends.symm (Option.some_ne_none cut)
    | frameError =>
      obtain rfl : true = cut := Option.some_inj.mp hends
      refine ⟨0, .zero _, ?_⟩
      rw [UInt32.add_zero]
      exact h.onFrameError s
  | tick t =>
    cases hheader : n.headerSent t with
    | none =>
      rw [ends, drives, hheader] at hends
      exact absurd hends.symm (Option.some_ne_none cut)
    | some id =>
      rw [ends, drives, hheader] at hends
      obtain rfl : false = cut := Option.some_inj.mp hends
      rw [show (Event.tick t).symbol.toList = [] from rfl, follow, drives, hheader, step,
        masterSend_decoder, hheader, Nat.zero_add]
      have htally := (Tally.paid (ds ≠ []) (t.shared.locked .beginTx)).mono
        (Event.free_beginTx (e := .tick t))
      exact ⟨_, htally, h.expectHeader t.shared id⟩
  | schedule i item => exact absurd hends.symm (Option.some_ne_none cut)

end Node

/-! ## The whole run -/

theorem Node.sendable_of_drives {n : Node} {e : Event} {ds : List Symbol} (hsized : e.WellSized)
    (h : n.drives e = some ds) : Sendable ds := by
  cases e with
  | wire w nowUs s =>
    cases w with
    | byte b =>
      obtain ⟨bytes, hanswer, rfl⟩ := Option.map_eq_some_iff.mp h
      exact Or.inr ⟨bytes, rfl, Decoder.length_answerTo hsized hanswer⟩
    | interByteTimeout => exact absurd h.symm (Option.some_ne_none ds)
    | uartBreak => exact absurd h.symm (Option.some_ne_none ds)
    | frameError => exact absurd h.symm (Option.some_ne_none ds)
  | tick t =>
    obtain ⟨id, -, rfl⟩ := Option.map_eq_some_iff.mp h
    exact Or.inl ⟨id, rfl⟩
  | schedule i item => exact absurd h.symm (Option.some_ne_none ds)

namespace Transmission

variable {x : Transmission}

/-- Going on since the total was `before`: the FIFO holds what is awaited, and a collision was
counted for every other symbol. -/
structure Runs (x : Transmission) (before : UInt32) (d : Decoder) : Prop where
  sendable : Sendable x.driven
  counted : ∃ k, Tally x.free (follow x.driven x.heard).2 k ∧
    d.Awaits (follow x.driven x.heard).1 (before + k)

theorem follow_take (x : Transmission) (e : Event) :
    follow (x.take e).driven (x.take e).heard =
      ((follow (follow x.driven x.heard).1 e.symbol.toList).1, (follow x.driven x.heard).2 +
        (follow (follow x.driven x.heard).1 e.symbol.toList).2) :=
  follow_append x.driven x.heard e.symbol.toList

/-- Nothing is to be counted for a transmission that comes back. -/
theorem attempts_eq_zero_iff (x : Transmission) :
    x.attempts false = 0 ↔ ComesBack x.driven x.heard := by
  rw [comesBack_iff_follow]
  unfold attempts
  simp only [Bool.not_false, Bool.true_and, Nat.add_eq_zero_iff, Bool.toNat_eq_zero,
    decide_eq_false_iff_not, not_not, Prod.ext_iff]
  exact and_comm

/-- Nothing is to be counted for a cut one that would have come back. -/
theorem attempts_cut_eq_zero_iff (x : Transmission) :
    x.attempts true = 0 ↔ ∃ rest, ComesBack x.driven (x.heard ++ rest) := by
  rw [comesBack_append_iff]
  rfl

theorem attempts_le (x : Transmission) (cut : Bool) : x.attempts cut ≤ x.driven.length := by
  have hlength := length_follow x.driven x.heard
  have hleft : (!cut && decide ((follow x.driven x.heard).1 ≠ [])).toNat ≤
      (follow x.driven x.heard).1.length := by
    cases (follow x.driven x.heard).1 with
    | nil => simp
    | cons d ds => exact (Bool.toNat_le _).trans (Nat.succ_le_succ (Nat.zero_le _))
  unfold attempts
  omega

end Transmission

/-- The collisions counted for a transmission are those that were to be counted. -/
structure Record.Settled (r : Record) : Prop where
  sendable : Sendable r.transmission.driven
  tally : Tally r.transmission.free (r.transmission.attempts r.cut) r.counted

namespace Line

/-- The collisions counted for the transmissions that have ended. -/
def settled (l : Line) : UInt32 := (l.past.map Record.counted).sum

/-- The ledger accounts for the FIFO and for every collision counted since the total was
`start`. -/
structure Accounts (start : UInt32) (l : Line) : Prop where
  idle : l.current = none → l.node.decoder.Awaits [] (start + l.settled)
  running : ∀ x before, l.current = some (x, before) →
    before = start + l.settled ∧ x.Runs before l.node.decoder
  past : ∀ r ∈ l.past, r.Settled

variable {start : UInt32} {l : Line} {e : Event}

/-- The next transmission begins with all it drives awaited. -/
theorem Accounts.begun {node : Node} {driven : Option (List Symbol)} {past : List Record}
    (hsendable : ∀ ds, driven = some ds → Sendable ds) (hpast : ∀ r ∈ past, r.Settled)
    (hawaits : node.decoder.Awaits (driven.getD []) (start + (past.map Record.counted).sum)) :
    Accounts start { node, current := driven.map fun driven =>
      ({ driven }, node.decoder.statistics.collisions), past } := by
  cases driven with
  | none =>
    exact ⟨fun _ => hawaits, fun _ _ hnone => absurd hnone.symm (Option.some_ne_none _), hpast⟩
  | some ds =>
    refine ⟨fun hnone => absurd hnone (Option.some_ne_none _), ?_, hpast⟩
    rintro x before heq
    obtain ⟨rfl, rfl⟩ := Prod.mk.inj (Option.some_inj.mp heq)
    refine ⟨hawaits.collisions, hsendable ds rfl, 0, .zero true, ?_⟩
    rw [UInt32.add_zero]
    exact ⟨hawaits.echo, rfl⟩

theorem Accounts.goesOn (h : Accounts start l) (hends : l.node.ends e = none) :
    Accounts start (l.step e) := by
  have hstep : l.step e = { l with
      node := l.node.step e, current := l.current.map fun x => (x.1.take e, x.2) } := by
    unfold step
    rw [hends]
  rw [hstep]
  cases hcurrent : l.current with
  | none =>
    obtain ⟨k, htally, hawaits⟩ := Node.awaits_goesOn (h.idle hcurrent) hends
    rw [follow_nil] at htally hawaits
    rw [htally.eq_zero, UInt32.add_zero] at hawaits
    exact ⟨fun _ => hawaits, fun _ _ hnone => absurd hnone.symm (Option.some_ne_none _), h.past⟩
  | some current =>
    obtain ⟨x, before⟩ := current
    obtain ⟨hbefore, hsendable, k, htally, hawaits⟩ := h.running x before hcurrent
    obtain ⟨k', htally', hawaits'⟩ := Node.awaits_goesOn hawaits hends
    have hruns : (x.take e).Runs before (l.node.step e).decoder := by
      refine ⟨hsendable, k + k', ?_, ?_⟩
      · rw [Transmission.follow_take]
        exact htally.add htally'
      · rw [Transmission.follow_take, ← UInt32.add_assoc]
        exact hawaits'
    refine ⟨fun hnone => absurd hnone (Option.some_ne_none _), ?_, h.past⟩
    rintro x' before' heq
    obtain ⟨rfl, rfl⟩ := Prod.mk.inj (Option.some_inj.mp heq)
    exact ⟨hbefore, hruns⟩

theorem Accounts.ends (h : Accounts start l) (hsized : e.WellSized) {cut : Bool}
    (hends : l.node.ends e = some cut) : Accounts start (l.step e) := by
  have hstep : l.step e = {
      node := l.node.step e,
      current := (l.node.drives e).map fun driven =>
        ({ driven }, (l.node.step e).decoder.statistics.collisions),
      past := l.past ++ ((l.current.map fun x => (x.1.take e, x.2)).map fun x =>
        ⟨x.1, cut, (l.node.step e).decoder.statistics.collisions - x.2⟩).toList } := by
    unfold step
    rw [hends]
  have hsendable : ∀ ds, l.node.drives e = some ds → Sendable ds :=
    fun ds => Node.sendable_of_drives hsized
  rw [hstep]
  cases hcurrent : l.current with
  | none =>
    obtain ⟨k, htally, hawaits⟩ := Node.awaits_ends (h.idle hcurrent) hsized hends
    rw [follow_nil] at htally
    have hnothing : Tally e.free 0 k := by simpa using htally
    have hzero : k = 0 := hnothing.eq_zero
    rw [hzero, UInt32.add_zero] at hawaits
    refine Accounts.begun hsendable ?_ ?_
    · rw [Option.map_none, Option.map_none, Option.toList_none, List.append_nil]
      exact h.past
    · rw [Option.map_none, Option.map_none, Option.toList_none, List.append_nil]
      exact hawaits
  | some current =>
    obtain ⟨x, before⟩ := current
    obtain ⟨hbefore, hx, k, htally, hawaits⟩ := h.running x before hcurrent
    obtain ⟨k', htally', hawaits'⟩ := Node.awaits_ends hawaits hsized hends
    have hcounted : (l.node.step e).decoder.statistics.collisions - before = k + k' := by
      rw [hawaits'.collisions, UInt32.add_assoc, add_sub_cancel_left]
    have hall : Tally (x.take e).free ((x.take e).attempts cut) (k + k') := by
      unfold Transmission.attempts
      rw [Transmission.follow_take, Nat.add_assoc]
      exact htally.add htally'
    rw [Option.map_some, Option.map_some, Option.toList_some, hcounted]
    refine Accounts.begun hsendable ?_ ?_
    · intro r hr
      rcases List.mem_append.mp hr with hr | hr
      · exact h.past r hr
      · rw [List.mem_singleton.mp hr]
        exact ⟨hx, hall⟩
    · rw [List.map_append, List.sum_append, List.map_singleton, List.sum_singleton,
        ← UInt32.add_assoc, ← UInt32.add_assoc]
      rw [hbefore] at hawaits'
      exact hawaits'

theorem Accounts.step (h : Accounts start l) (hsized : e.WellSized) :
    Accounts start (l.step e) := by
  cases hends : l.node.ends e with
  | none => exact h.goesOn hends
  | some cut => exact h.ends hsized hends

theorem Accounts.exec (h : Accounts start l) {es : List Event} (hsized : ∀ e ∈ es, e.WellSized) :
    Accounts start (exec Line.step l es) := by
  induction es generalizing l with
  | nil => exact h
  | cons e es ih =>
    have hfirst := h.step (hsized e List.mem_cons_self)
    exact ih hfirst fun e' he' => hsized e' (List.mem_cons_of_mem e he')

theorem step_node (l : Line) (e : Event) : (l.step e).node = l.node.step e := by
  unfold step
  dsimp only
  cases l.node.ends e with
  | none => rfl
  | some cut => rfl

theorem accounts_start {n : Node} (hecho : n.decoder.echo = []) :
    Accounts n.decoder.statistics.collisions { node := n } := by
  refine ⟨fun _ => ⟨hecho, (UInt32.add_zero _).symm⟩, ?_, ?_⟩
  · intro x before hnone
    exact absurd hnone.symm (Option.some_ne_none _)
  · intro r hr
    exact absurd hr List.not_mem_nil

end Line

/-- For a transmission under way: no collision is counted while it can still come back, and the
FIFO is empty when it has. -/
theorem Transmission.Runs.quiet {x : Transmission} {before : UInt32} {d : Decoder}
    (h : x.Runs before d) :
    ((∃ rest, ComesBack x.driven (x.heard ++ rest)) → d.statistics.collisions = before) ∧
      (ComesBack x.driven x.heard → d.echo = []) := by
  obtain ⟨k, htally, hawaits⟩ := h.counted
  constructor
  · intro hrest
    rw [(comesBack_append_iff _ _).mp hrest] at htally
    rw [hawaits.collisions, htally.eq_zero, UInt32.add_zero]
  · intro hback
    rw [(comesBack_iff_follow _ _).mp hback] at hawaits
    exact hawaits.echo

/-- For a transmission that has ended: no collision if it has come back or only a frame error
kept it from coming back, and at least one if it has not and the mutex was free. -/
theorem Record.Settled.told {r : Record} (h : r.Settled) :
    (r.cut = false → ComesBack r.transmission.driven r.transmission.heard → r.counted = 0) ∧
      (r.cut = true → (∃ rest, ComesBack r.transmission.driven (r.transmission.heard ++ rest)) →
        r.counted = 0) ∧
      (r.cut = false → r.transmission.free = true →
        ¬ ComesBack r.transmission.driven r.transmission.heard → r.counted ≠ 0) := by
  obtain ⟨hsendable, htally⟩ := h
  refine ⟨fun hcut hback => ?_, fun hcut hback => ?_, fun hcut hfree hback hcounted => ?_⟩
  · rw [hcut, (Transmission.attempts_eq_zero_iff _).mpr hback] at htally
    exact htally.eq_zero
  · rw [hcut, (Transmission.attempts_cut_eq_zero_iff _).mpr hback] at htally
    exact htally.eq_zero
  · have hfew : r.transmission.attempts r.cut < 2 ^ 32 :=
      ((r.transmission.attempts_le r.cut).trans hsendable.length_le).trans_lt (by decide)
    rw [hfree] at htally
    have hzero := htally.attempts_eq_zero hfew hcounted
    rw [hcut] at hzero
    exact hback ((Transmission.attempts_eq_zero_iff _).mp hzero)

namespace Line

/-- In every run of the event task, from an empty FIFO. A transmission that comes back until the
next idle gap or the next transmission leaves no collision and an empty FIFO, an undisturbed
echo above all. One that does not come back, uncut and with the mutex free, leaves at least one.
No collision is counted outside of the transmissions. And apart from the FIFO and the
collisions the node is as if there were no FIFO. -/
theorem collisions_of_transmissions {n : Node} (hecho : n.decoder.echo = []) {es : List Event}
    (hsized : ∀ e ∈ es, e.WellSized) {l : Line} (hl : l = exec Line.step { node := n } es) :
    l.node = exec Node.step n es ∧
      (l.current = none → l.node.decoder.echo = [] ∧
        l.node.decoder.statistics.collisions = n.decoder.statistics.collisions + l.settled) ∧
      (∀ x before, l.current = some (x, before) →
        before = n.decoder.statistics.collisions + l.settled ∧
        ((∃ rest, ComesBack x.driven (x.heard ++ rest)) →
          l.node.decoder.statistics.collisions = before) ∧
        (ComesBack x.driven x.heard → l.node.decoder.echo = []) ∧
        (Unchanged x.driven x.heard → ComesBack x.driven x.heard)) ∧
      (∀ r ∈ l.past,
        (r.cut = false → ComesBack r.transmission.driven r.transmission.heard → r.counted = 0) ∧
        (r.cut = true → (∃ rest, ComesBack r.transmission.driven (r.transmission.heard ++ rest)) →
          r.counted = 0) ∧
        (r.cut = false → r.transmission.free = true →
          ¬ ComesBack r.transmission.driven r.transmission.heard → r.counted ≠ 0) ∧
        (Unchanged r.transmission.driven r.transmission.heard →
          ComesBack r.transmission.driven r.transmission.heard)) ∧
      l.node.withoutEcho =
        exec (fun n e => (n.step e).withoutEcho) n.withoutEcho es := by
  have haccounts : Accounts n.decoder.statistics.collisions l := by
    rw [hl]
    exact (accounts_start hecho).exec hsized
  have hnode : l.node = exec Node.step n es := by
    rw [hl]
    exact exec_part step_node _ es
  refine ⟨hnode, ?_, ?_, ?_, ?_⟩
  · intro hnone
    exact ⟨(haccounts.idle hnone).echo, (haccounts.idle hnone).collisions⟩
  · intro x before hcurrent
    obtain ⟨hbefore, hruns⟩ := haccounts.running x before hcurrent
    exact ⟨hbefore, hruns.quiet.1, hruns.quiet.2, hruns.sendable.comesBack⟩
  · intro r hr
    have hsettled := haccounts.past r hr
    exact ⟨hsettled.told.1, hsettled.told.2.1, hsettled.told.2.2, hsettled.sendable.comesBack⟩
  · rw [hnode]
    exact Node.withoutEcho_exec n es

/-- A master with one header to send. -/
def sampleNode : Node := {
  decoder := { Decoder.sampleDecoder with mode := .master }
  schedule := fun i => if i = 0 then { id := 0x15, updateInterval := 10 } else {} }

/-- The header goes out, and these bytes come before an idle gap. -/
def sampleRun (bytes : List UInt8) (s : Shared) : List Event :=
  .tick { nowUs := 1000000 } :: bytes.map (fun b => .wire (.byte b) 1000000 s) ++
    [.wire .interByteTimeout 1005000 {}]

/-- The same header, its echo behind the idle gap. -/
def lateRun : List Event :=
  sampleRun [] {} ++ [.wire (.byte 0x00) 1010000 {}, .wire (.byte 0x55) 1010000 {},
    .wire (.byte 0x55) 1010000 {}]

theorem wellSized_of_silent {es : List Event} (h : ∀ e ∈ es, e.shared.responses = []) :
    ∀ e ∈ es, e.WellSized := by
  intro e he r hr
  rw [h e he] at hr
  exact absurd hr List.not_mem_nil

/-- Another PID comes back than the one sent. -/
theorem collisions_of_sampleRun :
    (exec Line.step { node := sampleNode } (sampleRun [0x00, 0x55, 0x14] {})).past =
        [⟨⟨header 0x15, [.byte 0x00, .byte 0x55, .byte 0x14], true⟩, false, 1⟩] ∧
      ∀ r ∈ (exec Line.step { node := sampleNode } (sampleRun [0x00, 0x55, 0x14] {})).past,
        r.cut = false → r.transmission.free = true →
          ¬ ComesBack r.transmission.driven r.transmission.heard → r.counted ≠ 0 := by
  refine ⟨by decide, fun r hr => ?_⟩
  exact ((collisions_of_transmissions rfl (wellSized_of_silent (by decide)) rfl).2.2.2.1 r hr).2.2.1

/-- A sync byte that is overdriven to 0x00 is taken for the break's 0x00, and while the mutex is
held no collision is counted. An echo behind an idle gap is counted as missing. -/
theorem not_exact :
    (¬ ∀ (n : Node) (es : List Event), n.decoder.echo = [] → (∀ e ∈ es, e.WellSized) →
      ∀ r ∈ (exec Line.step { node := n } es).past, r.cut = false → r.transmission.free = true →
        ¬ Unchanged r.transmission.driven r.transmission.heard → r.counted ≠ 0) ∧
    (¬ ∀ (n : Node) (es : List Event), n.decoder.echo = [] → (∀ e ∈ es, e.WellSized) →
      ∀ r ∈ (exec Line.step { node := n } es).past, r.cut = false →
        ¬ ComesBack r.transmission.driven r.transmission.heard → r.counted ≠ 0) ∧
    ¬ ∀ (n : Node) (es : List Event), n.decoder.echo = [] → (∀ e ∈ es, e.WellSized) →
      Unchanged (observed Node.drives Node.step n es).flatten (es.filterMap Event.symbol) →
        (exec Node.step n es).decoder.statistics.collisions = n.decoder.statistics.collisions := by
  refine ⟨fun h => ?_, fun h => ?_, fun h => ?_⟩
  · have hpast : (exec Line.step { node := sampleNode }
        (sampleRun [0x00, 0x00, 0x55, 0x55] {})).past =
          [⟨⟨header 0x15, [.byte 0x00, .byte 0x00, .byte 0x55, .byte 0x55], true⟩, false, 0⟩] := by
      decide
    refine h sampleNode _ rfl (wellSized_of_silent (by decide)) _
      (hpast ▸ List.mem_singleton_self _) rfl rfl ?_ rfl
    simp [Unchanged, Symbol.echoes, header]
  · have hpast : (exec Line.step { node := sampleNode }
        (sampleRun [0x00, 0x55, 0x14] { locked := fun site => site ≠ .compare })).past =
          [⟨⟨header 0x15, [.byte 0x00, .byte 0x55, .byte 0x14], false⟩, false, 0⟩] := by
      decide
    refine h sampleNode _ rfl (wellSized_of_silent (by decide)) _
      (hpast ▸ List.mem_singleton_self _) rfl ?_ rfl
    rw [comesBack_iff_follow]
    decide
  · have hcollisions := h sampleNode lateRun rfl (wellSized_of_silent (by decide)) ?_
    · exact absurd hcollisions (by decide)
    · have hdriven : (observed Node.drives Node.step sampleNode lateRun).flatten =
          [.break, .byte 0x55, .byte 0x55] := by
        decide
      rw [hdriven]
      exact ⟨[.byte 0x00], by decide, [.byte 0x55, .byte 0x55], rfl,
        [.byte 0x55], by decide, [.byte 0x55], rfl, [.byte 0x55], by decide, [], rfl, trivial⟩

end Line

end EspCars.Linbus
