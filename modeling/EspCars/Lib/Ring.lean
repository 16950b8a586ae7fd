import Mathlib

/-!
# A bounded queue in a circular array

`n` cells, the index of the oldest entry and the number of entries. A ring carries the bounds of
its indices, so that every operation is total, and `toList` is the queue it stands for: the rules
say what each operation does to that list, and nothing above them looks at a cell.
-/

namespace EspCars.Lib

/-- A ring buffer of `n` places. -/
structure Ring (α : Type) (n : Nat) where
  items : List α
  head : Nat
  count : Nat
  length_items : items.length = n
  head_lt : head < n
  count_le : count ≤ n
  deriving DecidableEq

namespace Ring

variable {α : Type} {n : Nat}

/-- The cell `i` places behind the head. -/
def get? (r : Ring α n) (i : Nat) : Option α := r.items[(r.head + i) % n]?

/-- The entries, oldest first. -/
def toList (r : Ring α n) : List α := (r.items.rotate r.head).take r.count

/-- An empty ring whose cells hold `a`. -/
def empty (a : α) (h : 0 < n) : Ring α n :=
  ⟨List.replicate n a, 0, 0, List.length_replicate, h, Nat.zero_le n⟩

def push (r : Ring α n) (a : α) : Option (Ring α n) :=
  if h : r.count < n then
    some
      { items := r.items.set ((r.head + r.count) % n) a
        head := r.head
        count := r.count + 1
        length_items := by rw [List.length_set, r.length_items]
        head_lt := r.head_lt
        count_le := h }
  else none

/-- The ring without its oldest entry; an empty ring stays as it is. -/
def pop (r : Ring α n) : Ring α n :=
  if r.count = 0 then r
  else
    { items := r.items
      head := (r.head + 1) % n
      count := r.count - 1
      length_items := r.length_items
      head_lt := Nat.mod_lt _ (Nat.zero_lt_of_lt r.head_lt)
      count_le := Nat.le_trans (Nat.sub_le _ _) r.count_le }

variable (r : Ring α n)

theorem length_toList : r.toList.length = r.count := by
  have hc := r.count_le
  have hl := r.length_items
  rw [toList, List.length_take, List.length_rotate]
  omega

@[simp] theorem toList_empty (a : α) (h : 0 < n) : (empty a h).toList = [] := rfl

theorem getElem?_toList {i : Nat} (h : i < r.count) : r.toList[i]? = r.get? i := by
  have hc := r.count_le
  have hl := r.length_items
  rw [toList, List.getElem?_take_of_lt h, List.getElem?_rotate (by omega), hl, Nat.add_comm i, get?]

theorem get?_push {a : α} {r' : Ring α n} (hr : r.push a = some r') {i : Nat}
    (h : i ≤ r.count) : r'.get? i = if i = r.count then some a else r.get? i := by
  have hl := r.length_items
  have hh := r.head_lt
  unfold push at hr
  split at hr
  · rename_i hc
    simp only [Option.some.injEq] at hr
    subst hr
    have hmod : ∀ j, j < n → (r.head + j) % n = if r.head + j < n then r.head + j
        else r.head + j - n := by
      intro j hj
      split_ifs with hlt
      · exact Nat.mod_eq_of_lt hlt
      · rw [Nat.mod_eq_sub_mod (by omega), Nat.mod_eq_of_lt (by omega)]
    have hpos : (r.head + r.count) % n < n := Nat.mod_lt _ (by omega)
    simp only [get?, List.getElem?_set]
    by_cases hi : i = r.count
    · subst hi
      rw [if_pos rfl, if_pos rfl, if_pos (by omega)]
    · rw [if_neg hi, if_neg]
      rw [hmod i (by omega), hmod r.count hc]
      split_ifs <;> omega
  · cases hr

theorem push_isSome_iff (a : α) : (r.push a).isSome ↔ r.toList.length < n := by
  rw [length_toList, push]
  split
  · rename_i h
    simp [h]
  · rename_i h
    simp [h]

/-- A push appends. -/
theorem toList_push {a : α} {r' : Ring α n} (hr : r.push a = some r') :
    r'.toList = r.toList ++ [a] := by
  have hcount : r'.count = r.count + 1 := by
    unfold push at hr
    split at hr
    · simp only [Option.some.injEq] at hr
      rw [← hr]
    · cases hr
  have hlen := r.length_toList
  apply List.ext_getElem?
  intro i
  by_cases hi : i < r.count + 1
  · rw [getElem?_toList r' (by omega), get?_push r hr (by omega)]
    split_ifs with heq
    · rw [List.getElem?_append_right (by omega), hlen, heq, Nat.sub_self]
      rfl
    · rw [List.getElem?_append_left (by omega), getElem?_toList r (by omega)]
  · rw [List.getElem?_eq_none, List.getElem?_eq_none]
    · rw [List.length_append, hlen, List.length_singleton]
      omega
    · rw [length_toList]
      omega

/-- A pop drops the oldest entry. -/
theorem toList_pop : r.pop.toList = r.toList.tail := by
  have hlen := r.length_toList
  unfold pop
  split_ifs with h0
  · rw [List.eq_nil_of_length_eq_zero (by omega : r.toList.length = 0)]
    rfl
  · apply List.ext_getElem?
    intro i
    rw [List.getElem?_tail]
    by_cases hi : i + 1 < r.count
    · rw [getElem?_toList _ (by dsimp only; omega), getElem?_toList r hi]
      simp only [get?]
      rw [Nat.mod_add_mod]
      congr 2
      omega
    · rw [List.getElem?_eq_none, List.getElem?_eq_none]
      · rw [hlen]
        omega
      · rw [length_toList]
        dsimp only
        omega

theorem get?_zero : r.toList.head? = if r.count = 0 then none else r.get? 0 := by
  have hlen := r.length_toList
  rw [List.head?_eq_getElem?]
  split_ifs with h0
  · exact List.getElem?_eq_none (by omega)
  · exact getElem?_toList r (by omega)

end Ring

end EspCars.Lib
