import Mathlib

/-!
# Slots of operations

A component runs at most one operation of each kind. An operation under way waits for a
continuation that stands somewhere outside its slot (in a queue, in a command in flight, on a
stack); `tokens` are the kinds of the continuations there are. `Balanced` says that each waiting
slot has exactly one of them and that each operation opened is closed or held. It is kept by
opening, pausing, taking up again and closing an operation with its token in hand, so a component
that only does these things neither forgets an operation nor ends one twice.
-/

namespace EspCars.Lib

variable {κ : Type} [DecidableEq κ]

/-- Opening and closing the operation `op` of a kind. -/
inductive Mark (κ : Type) where
  | opened (k : κ) (op : Nat)
  | closed (k : κ) (op : Nat)
  deriving DecidableEq

/-- The operation under way of each kind, and whether it waits for a continuation. -/
@[ext]
structure Slots (κ : Type) where
  holder : κ → Option Nat
  waits : κ → Bool

namespace Slots

def set (s : Slots κ) (k : κ) (holder : Option Nat) (waits : Bool) : Slots κ where
  holder := Function.update s.holder k holder
  waits := Function.update s.waits k waits

/-- A waiting slot has one token, and what was opened is closed or held. -/
structure Balanced (s : Slots κ) (tokens : List κ) (marks : List (Mark κ)) : Prop where
  tokens : ∀ k, tokens.count k = if s.waits k then 1 else 0
  held : ∀ k, s.waits k = true → (s.holder k).isSome = true
  marks : ∀ k op, marks.count (.closed k op) + (if s.holder k = some op then 1 else 0) =
    marks.count (.opened k op)

namespace Balanced

variable {s : Slots κ} {k : κ} {op : Nat} {tokens tokens' : List κ} {marks marks' : List (Mark κ)}

theorem perm (h : s.Balanced tokens marks) (ht : tokens.Perm tokens')
    (hm : marks.Perm marks') : s.Balanced tokens' marks' where
  tokens := fun k => by rw [← ht.count_eq, h.tokens]
  held := h.held
  marks := fun k op => by rw [← hm.count_eq, ← hm.count_eq, h.marks]

/-- A token in hand: its operation waits, and nothing else stands for it. -/
theorem waits_of_token (h : s.Balanced (k :: tokens) marks) : s.waits k = true := by
  have hcount := h.tokens k
  rw [List.count_cons_self] at hcount
  by_contra hnot
  rw [if_neg hnot] at hcount
  omega

theorem notMem_of_token (h : s.Balanced (k :: tokens) marks) : k ∉ tokens := by
  have hcount := h.tokens k
  rw [List.count_cons_self, if_pos h.waits_of_token] at hcount
  exact List.count_eq_zero.mp (by omega)

theorem waits_of_mem (h : s.Balanced tokens marks) (hk : k ∈ tokens) : s.waits k = true := by
  have hcount := h.tokens k
  have hpos := List.count_pos_iff.mpr hk
  by_contra hnot
  rw [if_neg hnot] at hcount
  omega

theorem holder_of_mem (h : s.Balanced tokens marks) (hk : k ∈ tokens) :
    ∃ op, s.holder k = some op :=
  Option.isSome_iff_exists.mp (h.held k (h.waits_of_mem hk))

theorem not_waits (h : s.Balanced tokens marks) (hk : k ∉ tokens) : s.waits k = false := by
  have hcount := h.tokens k
  rw [List.count_eq_zero.mpr hk] at hcount
  by_contra hnot
  rw [if_pos (by simpa using hnot)] at hcount
  omega

/-- A token comes to hand for a slot that did not wait. -/
theorem tokens_set_true (h : s.Balanced tokens marks) (hwaits : s.waits k = false)
    (holder : Option Nat) (k' : κ) :
    (k :: tokens).count k' = if (s.set k holder true).waits k' then 1 else 0 := by
  have hcount := h.tokens k'
  by_cases hk : k' = k
  · subst hk
    rw [hwaits] at hcount
    rw [List.count_cons_self, hcount]
    simp [set]
  · rw [List.count_cons_of_ne (Ne.symm hk), hcount]
    simp [set, hk]

/-- A token is used up. -/
theorem tokens_set_false (h : s.Balanced (k :: tokens) marks) (holder : Option Nat) (k' : κ) :
    tokens.count k' = if (s.set k holder false).waits k' then 1 else 0 := by
  have hcount := h.tokens k'
  by_cases hk : k' = k
  · subst hk
    rw [List.count_eq_zero.mpr h.notMem_of_token]
    simp [set]
  · rw [List.count_cons_of_ne (Ne.symm hk)] at hcount
    rw [hcount]
    simp [set, hk]

theorem held_set (h : s.Balanced tokens marks) {holder : Option Nat} {waits : Bool}
    (hset : waits = true → holder.isSome = true) (k' : κ)
    (hwaits : (s.set k holder waits).waits k' = true) :
    ((s.set k holder waits).holder k').isSome = true := by
  by_cases hk : k' = k
  · subst hk
    simp only [set, Function.update_self] at hwaits ⊢
    exact hset hwaits
  · simp only [set, Function.update_of_ne hk] at hwaits ⊢
    exact h.held k' hwaits

/-- `open`: the operation enters its free slot and a token for it comes to hand. -/
theorem opening (h : s.Balanced tokens marks) (hfree : s.holder k = none) (op : Nat) :
    (s.set k (some op) true).Balanced (k :: tokens) (marks ++ [.opened k op]) := by
  have hwaits : s.waits k = false := by
    by_contra hnot
    have hheld := h.held k (by simpa using hnot)
    rw [hfree] at hheld
    cases hheld
  constructor
  · exact h.tokens_set_true hwaits _
  · exact h.held_set fun _ => rfl
  · intro k' op'
    have hmarks := h.marks k' op'
    rw [List.count_append, List.count_append]
    by_cases hk : k' = k
    · subst hk
      rw [hfree] at hmarks
      by_cases hop : op' = op
      · subst hop
        simp [set] at hmarks ⊢
        omega
      · have hop' : ¬ op = op' := fun heq => hop heq.symm
        simp [set, hop'] at hmarks ⊢
        omega
    · have hk' : ¬ k = k' := fun heq => hk heq.symm
      simp [set, hk, hk'] at hmarks ⊢
      omega

/-- The operation leaves its slot and its token is used up. -/
theorem closing (h : s.Balanced (k :: tokens) marks) (hop : s.holder k = some op) :
    (s.set k none false).Balanced tokens (marks ++ [.closed k op]) := by
  constructor
  · exact h.tokens_set_false _
  · exact h.held_set fun hno => by cases hno
  · intro k' op'
    have hmarks := h.marks k' op'
    rw [List.count_append, List.count_append]
    by_cases hk : k' = k
    · subst hk
      rw [hop] at hmarks
      by_cases heq : op = op'
      · subst heq
        simp [set] at hmarks ⊢
        omega
      · simp [set, heq] at hmarks ⊢
        omega
    · have hk' : ¬ k = k' := fun heq => hk heq.symm
      simp [set, hk, hk'] at hmarks ⊢
      omega

/-- The operation stays in its slot but waits for something else than a continuation. -/
theorem pausing (h : s.Balanced (k :: tokens) marks) :
    (s.set k (s.holder k) false).Balanced tokens marks := by
  have hholder : (s.set k (s.holder k) false).holder = s.holder := Function.update_eq_self _ _
  constructor
  · exact h.tokens_set_false _
  · exact h.held_set fun hno => by cases hno
  · rw [hholder]
    exact h.marks

/-- A paused operation waits again, with a new token in hand. -/
theorem takingUp (h : s.Balanced tokens marks) (hop : (s.holder k).isSome = true)
    (hwaits : s.waits k = false) : (s.set k (s.holder k) true).Balanced (k :: tokens) marks := by
  have hholder : (s.set k (s.holder k) true).holder = s.holder := Function.update_eq_self _ _
  constructor
  · exact h.tokens_set_true hwaits _
  · exact h.held_set fun _ => hop
  · rw [hholder]
    exact h.marks

/-- What is closed was opened, and not closed more often. -/
theorem closed_le (h : s.Balanced tokens marks) (k : κ) (op : Nat) :
    marks.count (.closed k op) ≤ marks.count (.opened k op) := by
  rw [← h.marks]
  exact Nat.le_add_right _ _

/-- What was opened and is not held is closed. -/
theorem closed_eq (h : s.Balanced tokens marks) (hfree : s.holder k = none) (op : Nat) :
    marks.count (.closed k op) = marks.count (.opened k op) := by
  rw [← h.marks, hfree]
  rfl

end Balanced

end Slots

end EspCars.Lib
