import EspCars.Lib.Region

/-!
# Cursors

A parser that reads a region through an index and checks every load against the end. Such a
function has no result if it loads outside, and `none` inside the result is a text it refuses. It
follows a function on texts if it has a result, the same value, and a cursor that stands before the
same rest.
-/

namespace EspCars.Lib.Cursor

section

variable (r : List UInt8) {α β : Type}

/-- `p < end`, and if so `*p`. -/
def peek (p : Nat) : Option (Option UInt8) :=
  if p < r.length then (fetch r p).map some else some none

/-- `while (p < end && keep(*p))`, with what the loop adds up. -/
def loop (keep : UInt8 → Bool) (step : α → UInt8 → α) : Nat → α → Nat → Option (α × Nat)
  | 0, a, p => some (a, p)
  | fuel + 1, a, p => do
    match ← peek r p with
    | some c => if keep c then loop keep step fuel (step a c) (p + 1) else return (a, p)
    | none => return (a, p)

/-- `if (!f(c)) return false;` -/
def andThen (x : Option (Option (α × Nat))) (f : α → Nat → Option (Option (β × Nat))) :
    Option (Option (β × Nat)) := do
  match ← x with
  | some (a, p) => f a p
  | none => return none

/-- `if (c.done() || *c.p != ch) return false; c.p++;` -/
def expect (ch : UInt8) (p : Nat) : Option (Option (Unit × Nat)) := do
  if (← peek r p) = some ch then return some ((), p + 1) else return none

/-- A cursor, and the text from it on. -/
def At (p : Nat) (s : List UInt8) : Prop := p ≤ r.length ∧ r.drop p = s

/-- What the function on texts does, and inside the region. -/
def Follows (x : Option (Option (α × Nat))) (y : Option (α × List UInt8)) : Prop :=
  match y with
  | none => x = some none
  | some (a, s) => ∃ p, x = some (some (a, p)) ∧ At r p s

end

section

variable {r s : List UInt8} {α β : Type} {p : Nat}

@[simp] theorem andThen_some (a : α) (f : α → Nat → Option (Option (β × Nat))) :
    andThen (some (some (a, p))) f = f a p := rfl

@[simp] theorem andThen_none (f : α → Nat → Option (Option (β × Nat))) :
    andThen (some none) f = some none := rfl

theorem At.length (h : At r p s) : s.length = r.length - p := by
  rw [← h.2, List.length_drop]

theorem At.eq_end_iff (h : At r p s) : p = r.length ↔ s = [] := by
  rw [← List.length_eq_zero_iff, h.length]
  have hle := h.1
  omega

/-- What is behind the end is not read. -/
theorem At.peek (h : At r p s) : peek r p = some s.head? := by
  unfold Cursor.peek
  rw [← h.2, List.head?_drop]
  split_ifs with hlt
  · rw [fetch, List.getElem?_eq_getElem hlt]
    rfl
  · rw [List.getElem?_eq_none (by omega)]

theorem At.fetch {c : UInt8} (h : At r p (c :: s)) : Lib.fetch r p = some c := by
  have hhead := congrArg List.head? h.2
  rwa [List.head?_drop] at hhead

theorem At.next {c : UInt8} (h : At r p (c :: s)) : At r (p + 1) s := by
  have hlen := h.length
  rw [List.length_cons] at hlen
  refine ⟨by omega, ?_⟩
  rw [← List.tail_drop, h.2, List.tail_cons]

theorem At.loop (keep : UInt8 → Bool) (step : α → UInt8 → α) {fuel : Nat} (a : α)
    (h : At r p s) (hfuel : s.length ≤ fuel) :
    ∃ q, loop r keep step fuel a p = some ((s.takeWhile keep).foldl step a, q) ∧
      At r q (s.dropWhile keep) ∧ q = p + (s.takeWhile keep).length := by
  induction fuel generalizing a p s with
  | zero =>
    obtain rfl := List.eq_nil_of_length_eq_zero (Nat.le_zero.mp hfuel)
    exact ⟨p, rfl, h, rfl⟩
  | succ fuel ih =>
    rw [Cursor.loop, h.peek]
    cases s with
    | nil => exact ⟨p, rfl, h, rfl⟩
    | cons c s =>
      cases hc : keep c with
      | true =>
        obtain ⟨q, hloop, hq, hlen⟩ := ih (step a c) h.next (Nat.le_of_succ_le_succ hfuel)
        refine ⟨q, ?_, ?_, ?_⟩
        · simp [hc, hloop]
        · simpa [hc] using hq
        · simp only [List.takeWhile_cons, hc, if_true, List.length_cons]
          omega
      | false => exact ⟨p, by simp [hc], by simp [hc, h]⟩

theorem At.expect {c : UInt8} (h : At r p (c :: s)) :
    Follows r (expect r c p) (some ((), s)) := by
  unfold Cursor.expect
  rw [h.peek]
  exact ⟨p + 1, if_pos rfl, h.next⟩

theorem At.expect_ne {c : UInt8} (h : At r p s) (hc : s.head? ≠ some c) :
    Cursor.expect r c p = some none := by
  unfold Cursor.expect
  rw [h.peek]
  exact if_neg hc

theorem Follows.pure {a : α} (h : At r p s) : Follows r (some (some (a, p))) (some (a, s)) :=
  ⟨p, rfl, h⟩

theorem Follows.andThen {x : Option (Option (α × Nat))} {y : Option (α × List UInt8)}
    {f : α → Nat → Option (Option (β × Nat))} {g : α × List UInt8 → Option (β × List UInt8)}
    (hx : Follows r x y) (hf : ∀ a p s, At r p s → Follows r (f a p) (g (a, s))) :
    Follows r (andThen x f) (y.bind g) := by
  cases y with
  | none =>
    obtain rfl : x = some none := hx
    rfl
  | some z =>
    obtain ⟨a, s⟩ := z
    obtain ⟨p, rfl, hp⟩ := hx
    exact hf a p s hp

end

end EspCars.Lib.Cursor
