import Mathlib

/-!
# Fixed-size buffers

A buffer is a list of cells whose length never changes. `slice` reads a range of it and
`blit` overwrites one, as `memcpy` does from and to a pointer with an offset. The rules
below say what a read sees after a write; they are all that the buffer code of a
development needs to know about its copies.
-/

namespace EspCars.Lib

variable {α : Type}

/-- The `n` cells of `buf` from `off` on. -/
def slice (buf : List α) (off n : Nat) : List α := (buf.drop off).take n

/-- `buf` with the cells from `off` on overwritten by `src`. -/
def blit (buf : List α) (off : Nat) (src : List α) : List α :=
  buf.take off ++ src ++ buf.drop (off + src.length)

variable {buf src : List α} {off : Nat}

/-- Two buffers that agree on a prefix have the same slices inside it. -/
theorem slice_congr_take {buf' : List α} {n m : Nat} (h : off + n ≤ m)
    (heq : buf.take m = buf'.take m) : slice buf off n = slice buf' off n := by
  have key : ∀ l : List α, slice l off n = slice (l.take m) off n := by
    intro l
    simp only [slice, List.drop_take, List.take_take]
    rw [Nat.min_eq_left (by omega)]
  rw [key buf, key buf', heq]

@[simp] theorem blit_length
    (h : off + src.length ≤ buf.length) : (blit buf off src).length = buf.length := by
  simp only [blit, List.length_append, List.length_take, List.length_drop]
  omega

theorem getElem?_blit (h : off + src.length ≤ buf.length) (i : Nat) : (blit buf off src)[i]? =
      if i < off then buf[i]? else if i < off + src.length then src[i - off]? else buf[i]? := by
  have hlen : (buf.take off).length = off := by
    rw [List.length_take]
    omega
  unfold blit
  split_ifs with h1 h2
  · rw [List.append_assoc, List.getElem?_append_left (by omega), List.getElem?_take_of_lt h1]
  · rw [List.append_assoc, List.getElem?_append_right (by omega), hlen,
      List.getElem?_append_left (by omega)]
  · rw [List.getElem?_append_right (by simp only [List.length_append, hlen]; omega),
      List.length_append, hlen, List.getElem?_drop]
    congr 1
    omega

theorem getElem?_slice (buf : List α) (off n i : Nat) :
    (slice buf off n)[i]? = if i < n then buf[off + i]? else none := by
  simp only [slice]
  split_ifs with h
  · rw [List.getElem?_take_of_lt h, List.getElem?_drop]
  · rw [List.getElem?_take_eq_none (by omega)]

/-- A write outside a range leaves what is read from the range. -/
theorem slice_blit_of_disjoint {n p : Nat}
    (h : p + src.length ≤ buf.length) (hd : off + n ≤ p ∨ p + src.length ≤ off) :
    slice (blit buf p src) off n = slice buf off n := by
  apply List.ext_getElem?
  intro i
  simp only [getElem?_slice, getElem?_blit h]
  split_ifs <;> first | rfl | omega

/-- Appending to the written part of a buffer. -/
theorem take_blit (buf src : List α) (h : off ≤ buf.length) :
    (blit buf off src).take (off + src.length) = buf.take off ++ src := by
  have hlen : (buf.take off ++ src).length = off + src.length := by
    rw [List.length_append, List.length_take]
    omega
  unfold blit
  rw [List.take_append_of_le_length (by omega), List.take_of_length_le (by omega)]

/-- Two adjacent writes are one. -/
theorem blit_blit_append (buf : List α) (off : Nat) (src src' : List α)
    (h : off + src.length ≤ buf.length) :
    blit (blit buf off src) (off + src.length) src' = blit buf off (src ++ src') := by
  have hdrop : (blit buf off src).drop (off + src.length + src'.length) =
      buf.drop (off + src.length + src'.length) := by
    apply List.ext_getElem?
    intro i
    rw [List.getElem?_drop, List.getElem?_drop, getElem?_blit h,
      if_neg (by omega), if_neg (by omega)]
  unfold blit at hdrop ⊢
  rw [hdrop]
  have htake := take_blit buf src (show off ≤ buf.length by omega)
  unfold blit at htake
  rw [htake, List.length_append]
  simp only [List.append_assoc, Nat.add_assoc]

end EspCars.Lib
