import Mathlib

/-!
# A spool of items

Items of some bytes each wait in a row and are taken byte by byte (`consume`), so that the first
one may have been taken in part. Items are not lost on the way (`items_consume`). What marks the
ends of the items of one kind keeps doing so if it drops the ends that were passed and moves the
others to the front (`ends_consume`), and items that are not too short are not too many
(`Wide.countP_le`).
-/

namespace EspCars.Lib

variable {α : Type}

/-- An item of which `left` bytes have not been taken. -/
structure Piece (α : Type) where
  item : α
  left : Nat
  deriving DecidableEq

namespace Spool

variable {ps ps' : List (Piece α)} {p : Piece α} {n : Nat}

def items (ps : List (Piece α)) : List α := ps.map Piece.item

def pending (ps : List (Piece α)) : Nat := (ps.map Piece.left).sum

/-- The pieces that are through with the next `n` bytes, and the spool after them. -/
def consume : Nat → List (Piece α) → List (Piece α) × List (Piece α)
  | _, [] => ([], [])
  | n, p :: ps =>
    if p.left ≤ n then
      let (through, rest) := consume (n - p.left) ps
      (p :: through, rest)
    else ([], { p with left := p.left - n } :: ps)

/-- Where the pieces of a kind end, counted from `start` before the first one. -/
def ends (kind : α → Bool) : Nat → List (Piece α) → List Nat
  | _, [] => []
  | start, p :: ps =>
    if kind p.item then (start + p.left) :: ends kind (start + p.left) ps
    else ends kind (start + p.left) ps

theorem items_append (ps ps' : List (Piece α)) : items (ps ++ ps') = items ps ++ items ps' :=
  List.map_append

theorem pending_cons (p : Piece α) (ps : List (Piece α)) :
    pending (p :: ps) = p.left + pending ps := by
  rw [pending, List.map_cons, List.sum_cons]
  rfl

theorem pending_append (ps ps' : List (Piece α)) :
    pending (ps ++ ps') = pending ps + pending ps' := by
  rw [pending, List.map_append, List.sum_append]
  rfl

/-! ## Taking bytes -/

theorem consume_cons_le (h : p.left ≤ n) :
    consume n (p :: ps) = (p :: (consume (n - p.left) ps).1, (consume (n - p.left) ps).2) := by
  rw [consume, if_pos h]

theorem consume_cons_lt (h : ¬ p.left ≤ n) :
    consume n (p :: ps) = ([], { p with left := p.left - n } :: ps) := by
  rw [consume, if_neg h]

theorem items_consume (n : Nat) (ps : List (Piece α)) :
    items (consume n ps).1 ++ items (consume n ps).2 = items ps := by
  induction ps generalizing n with
  | nil => rfl
  | cons p ps ih =>
    by_cases h : p.left ≤ n
    · rw [consume_cons_le h]
      exact congrArg (p.item :: ·) (ih (n - p.left))
    · rw [consume_cons_lt h]
      rfl

theorem pending_consume (n : Nat) (ps : List (Piece α)) :
    pending (consume n ps).2 = pending ps - n := by
  induction ps generalizing n with
  | nil => exact (Nat.zero_sub n).symm
  | cons p ps ih =>
    by_cases h : p.left ≤ n
    · rw [consume_cons_le h, ih, pending_cons]
      omega
    · rw [consume_cons_lt h, pending_cons, pending_cons]
      dsimp only
      omega

/-- What is left is an end of the spool of which the first piece may be shorter. -/
theorem consume_cases (n : Nat) (ps : List (Piece α)) :
    (consume n ps).2 = [] ∨ ∃ p rest k, (p :: rest) <:+ ps ∧ k < p.left ∧
      (consume n ps).2 = { p with left := p.left - k } :: rest := by
  induction ps generalizing n with
  | nil => exact Or.inl rfl
  | cons p ps ih =>
    by_cases h : p.left ≤ n
    · rw [consume_cons_le h]
      rcases ih (n - p.left) with hnil | ⟨q, rest, k, hsuffix, hk, heq⟩
      · exact Or.inl hnil
      · exact Or.inr ⟨q, rest, k, hsuffix.trans (List.suffix_cons p ps), hk, heq⟩
    · rw [consume_cons_lt h]
      exact Or.inr ⟨p, ps, n, List.suffix_refl _, by omega, rfl⟩

/-! ## The ends of the pieces of a kind -/

section Ends

variable (kind : α → Bool)

theorem lt_of_mem_ends {start e : Nat} (hpos : ∀ p ∈ ps, 0 < p.left) (he : e ∈ ends kind start ps) :
    start < e := by
  induction ps generalizing start with
  | nil => cases he
  | cons p ps ih =>
    obtain ⟨hp, hps⟩ := List.forall_mem_cons.mp hpos
    rw [ends] at he
    split_ifs at he
    · rcases List.mem_cons.mp he with rfl | he
      · omega
      · have := ih hps he
        omega
    · have := ih hps he
      omega

theorem ends_add (start k : Nat) (ps : List (Piece α)) :
    ends kind start ps = (ends kind (start + k) ps).map (· - k) := by
  induction ps generalizing start with
  | nil => rfl
  | cons p ps ih =>
    rw [ends, ends, ih, show start + k + p.left = start + p.left + k by omega]
    split_ifs
    · rw [List.map_cons, Nat.add_sub_cancel]
    · rfl

theorem dropWhile_of_lt {k : Nat} {es : List Nat} (h : ∀ e ∈ es, k < e) :
    es.dropWhile (· ≤ k) = es := by
  cases es with
  | nil => rfl
  | cons e es =>
    have he := h e List.mem_cons_self
    rw [List.dropWhile_cons, if_neg fun hle => absurd (of_decide_eq_true hle) (by omega)]

theorem ends_concat (start : Nat) (ps : List (Piece α)) (p : Piece α) :
    ends kind start (ps ++ [p]) =
      ends kind start ps ++ if kind p.item then [start + pending ps + p.left] else [] := by
  induction ps generalizing start with
  | nil => exact (List.nil_append _).symm
  | cons q ps ih =>
    rw [List.cons_append, ends, ends, ih, pending_cons, ← Nat.add_assoc]
    split_ifs <;> rfl

theorem length_ends (start : Nat) (ps : List (Piece α)) :
    (ends kind start ps).length = (items ps).countP kind := by
  induction ps generalizing start with
  | nil => rfl
  | cons p ps ih =>
    rw [ends, show items (p :: ps) = p.item :: items ps from rfl, List.countP_cons]
    split_ifs
    · rw [List.length_cons, ih]
    · exact ih _

/-- The ends that were not passed, moved to the front. -/
theorem ends_consume (hpos : ∀ p ∈ ps, 0 < p.left) (start n : Nat) :
    ends kind 0 (consume n ps).2 =
      ((ends kind start ps).dropWhile (· ≤ start + n)).map (· - (start + n)) := by
  induction ps generalizing start n with
  | nil => rfl
  | cons p ps ih =>
    obtain ⟨hp, hps⟩ := List.forall_mem_cons.mp hpos
    by_cases h : p.left ≤ n
    · rw [consume_cons_le h, ih hps (start + p.left), ends,
        show start + p.left + (n - p.left) = start + n by omega]
      split_ifs
      · rw [List.dropWhile_cons, if_pos (decide_eq_true (by omega))]
      · rfl
    · -- none of the ends was passed
      have hkept : (ends kind start (p :: ps)).dropWhile (· ≤ start + n) =
          ends kind start (p :: ps) := by
        refine dropWhile_of_lt fun e he => ?_
        rw [ends] at he
        split_ifs at he
        · rcases List.mem_cons.mp he with rfl | he
          · omega
          · have := lt_of_mem_ends kind hps he
            omega
        · have := lt_of_mem_ends kind hps he
          omega
      rw [hkept, consume_cons_lt h, ends, ends, Nat.zero_add]
      dsimp only
      rw [ends_add kind (p.left - n) (start + n) ps,
        show p.left - n + (start + n) = start + p.left by omega]
      split_ifs
      · rw [List.map_cons, show start + p.left - (start + n) = p.left - n by omega]
      · rfl

end Ends

/-! ## Pieces that are not too short -/

/-- Pieces are not empty, and those of a kind have at least `size` bytes, but for the first one. -/
structure Wide (kind : α → Bool) (size : Nat) (ps : List (Piece α)) : Prop where
  pos : ∀ p ∈ ps, 0 < p.left
  size : ∀ p ∈ ps.tail, kind p.item = true → size ≤ p.left

namespace Wide

variable {kind : α → Bool} {size : Nat}

theorem nil : Wide kind size ([] : List (Piece α)) := ⟨nofun, nofun⟩

theorem eq_nil (h : Wide kind size ps) (hpending : pending ps = 0) : ps = [] := by
  cases ps with
  | nil => rfl
  | cons p ps =>
    have hp := h.pos p List.mem_cons_self
    rw [pending_cons] at hpending
    omega

theorem concat (h : Wide kind size ps) (hpos : 0 < p.left)
    (hsize : kind p.item = true → size ≤ p.left) : Wide kind size (ps ++ [p]) := by
  constructor
  · intro q hq
    rcases List.mem_append.mp hq with hq | hq
    · exact h.pos q hq
    · rwa [List.mem_singleton.mp hq]
  · intro q hq
    cases ps with
    | nil => cases hq
    | cons p' ps =>
      rcases List.mem_append.mp hq with hq | hq
      · exact h.size q hq
      · rwa [List.mem_singleton.mp hq]

theorem consume (h : Wide kind size ps) (n : Nat) : Wide kind size (Spool.consume n ps).2 := by
  rcases consume_cases n ps with heq | ⟨p, rest, k, hsuffix, hk, heq⟩
  · rw [heq]
    exact nil
  · rw [heq]
    have hrest : ∀ q ∈ rest, q ∈ ps.tail := by
      intro q hq
      obtain ⟨before, rfl⟩ := hsuffix
      cases before with
      | nil => exact hq
      | cons p' before => exact List.mem_append_right _ (List.mem_cons_of_mem p hq)
    constructor
    · intro q hq
      rcases List.mem_cons.mp hq with rfl | hq
      · exact Nat.sub_pos_of_lt hk
      · exact h.pos q (List.mem_of_mem_tail (hrest q hq))
    · exact fun q hq => h.size q (hrest q hq)

/-- Pieces that are not too short are not too many. -/
theorem countP_le (h : Wide kind size ps) :
    size * (items ps).countP kind ≤ pending ps + (size - 1) := by
  have hall : ∀ qs : List (Piece α), (∀ q ∈ qs, kind q.item = true → size ≤ q.left) →
      size * (items qs).countP kind ≤ pending qs := by
    intro qs hqs
    induction qs with
    | nil => exact Nat.zero_le _
    | cons q qs ih =>
      obtain ⟨hq, hqs⟩ := List.forall_mem_cons.mp hqs
      have hrest := ih hqs
      rw [pending_cons, show items (q :: qs) = q.item :: items qs from rfl, List.countP_cons]
      split_ifs with hk
      · have := hq hk
        rw [Nat.mul_add, Nat.mul_one]
        omega
      · rw [Nat.add_zero]
        omega
  cases ps with
  | nil => exact Nat.zero_le _
  | cons p ps =>
    have hp := h.pos p List.mem_cons_self
    have hrest := hall ps h.size
    rw [pending_cons, show items (p :: ps) = p.item :: items ps from rfl, List.countP_cons]
    split_ifs with hk
    · rw [Nat.mul_add, Nat.mul_one]
      omega
    · rw [Nat.add_zero]
      omega

end Wide

end Spool

end EspCars.Lib
