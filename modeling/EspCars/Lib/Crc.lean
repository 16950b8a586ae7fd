import Mathlib

/-!
# Checksums of a shift register

A register of `w` bits that takes symbols from its high end: a symbol is added to it modulo 2 and
the register is shifted `n` times, each time with the polynomial added if a bit falls out. All of
it is linear over GF(2), so what two messages of one length leave in the register differs by what
their difference leaves in a register that starts at zero (`register_eq_xor`).
-/

namespace EspCars.Lib.Crc

variable {w : Nat}

/-- One shift towards the high end. -/
def shift (poly crc : BitVec w) : BitVec w := if crc.msb then crc <<< 1 ^^^ poly else crc <<< 1

/-- A symbol is added and shifted through. -/
def feed (poly : BitVec w) (n : Nat) (crc symbol : BitVec w) : BitVec w :=
  (shift poly)^[n] (crc ^^^ symbol)

/-- The register after a message. -/
def register (poly : BitVec w) (n : Nat) (start : BitVec w) (message : List (BitVec w)) :
    BitVec w :=
  message.foldl (feed poly n) start

variable (poly : BitVec w) (n : Nat)

theorem xor_xor_xor_comm (a b c d : BitVec w) : a ^^^ b ^^^ (c ^^^ d) = a ^^^ c ^^^ (b ^^^ d) := by
  rw [BitVec.xor_assoc, BitVec.xor_assoc, ← BitVec.xor_assoc b, BitVec.xor_comm b c,
    BitVec.xor_assoc c]

theorem shift_xor (a b : BitVec w) : shift poly (a ^^^ b) = shift poly a ^^^ shift poly b := by
  unfold shift
  rw [BitVec.msb_xor, BitVec.shiftLeft_xor_distrib]
  cases a.msb <;> cases b.msb
  · rfl
  · exact BitVec.xor_assoc _ _ _
  · rw [Bool.true_xor, Bool.not_false, if_pos rfl, if_pos rfl, if_neg (by decide), BitVec.xor_assoc,
      BitVec.xor_comm _ poly, ← BitVec.xor_assoc]
  · rw [Bool.true_xor, Bool.not_true, if_neg (by decide), if_pos rfl, if_pos rfl,
      xor_xor_xor_comm, BitVec.xor_self, BitVec.xor_zero]

theorem iterate_shift_xor (a b : BitVec w) :
    (shift poly)^[n] (a ^^^ b) = (shift poly)^[n] a ^^^ (shift poly)^[n] b := by
  induction n generalizing a b with
  | zero => rfl
  | succ n ih => rw [Function.iterate_succ_apply, shift_xor, ih, ← Function.iterate_succ_apply,
      ← Function.iterate_succ_apply]

theorem feed_xor (a b x y : BitVec w) :
    feed poly n (a ^^^ b) (x ^^^ y) = feed poly n a x ^^^ feed poly n b y := by
  unfold feed
  rw [xor_xor_xor_comm, iterate_shift_xor]

theorem register_xor (a b : BitVec w) {xs ys : List (BitVec w)} (h : xs.length = ys.length) :
    register poly n (a ^^^ b) (xs.zipWith (· ^^^ ·) ys) =
      register poly n a xs ^^^ register poly n b ys := by
  unfold register
  induction xs generalizing a b ys with
  | nil =>
    rw [List.length_nil] at h
    rw [List.length_eq_zero_iff.mp h.symm]
    rfl
  | cons x xs ih =>
    obtain ⟨y, ys, rfl⟩ := List.exists_cons_of_length_eq_add_one h.symm
    simp only [List.zipWith_cons_cons, List.foldl_cons, feed_xor]
    exact ih _ _ (Nat.succ.inj h)

/-- Two messages of one length leave registers that differ by that of their difference. -/
theorem register_eq_xor (start : BitVec w) {xs ys : List (BitVec w)} (h : xs.length = ys.length) :
    register poly n start ys =
      register poly n start xs ^^^ register poly n 0#w (xs.zipWith (· ^^^ ·) ys) := by
  have hdelta := register_xor poly n start start h
  rw [BitVec.xor_self] at hdelta
  rw [hdelta, ← BitVec.xor_assoc, BitVec.xor_self, BitVec.zero_xor]

/-- The same, of a checksum that adds a constant to the register at the end. -/
theorem register_xor_eq (start out : BitVec w) {xs ys : List (BitVec w)}
    (h : xs.length = ys.length) :
    register poly n start ys ^^^ out =
      register poly n start xs ^^^ out ^^^ register poly n 0#w (xs.zipWith (· ^^^ ·) ys) := by
  rw [register_eq_xor poly n start h, BitVec.xor_assoc, BitVec.xor_comm _ out, BitVec.xor_assoc]

end EspCars.Lib.Crc
