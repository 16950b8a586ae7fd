import Mathlib

/-!
# Trees as tables of parents

A tree whose nodes are numbered and name their parents. `Above parent a d` says that `a` is a strict
ancestor of `d`; the ancestors of a node are in a line, and what is below a node is the node itself
or below one of its children.

What a node is made of from what it is by itself and from what its children are: `Means` says it from
the leaves up, and `sweep` computes it from the last node to the first one.
-/

namespace EspCars.Lib

variable {parent : Nat → Option Nat}

def Up (parent : Nat → Option Nat) (d a : Nat) : Prop := parent d = some a

def Above (parent : Nat → Option Nat) (a d : Nat) : Prop := Relation.TransGen (Up parent) d a

def AtOrAbove (parent : Nat → Option Nat) (a d : Nat) : Prop :=
  Relation.ReflTransGen (Up parent) d a

theorem AtOrAbove.refl (a : Nat) : AtOrAbove parent a a := Relation.ReflTransGen.refl

theorem Above.atOrAbove {a d : Nat} (h : Above parent a d) : AtOrAbove parent a d :=
  Relation.TransGen.to_reflTransGen h

theorem atOrAbove_iff {a d : Nat} : AtOrAbove parent a d ↔ a = d ∨ Above parent a d :=
  Relation.reflTransGen_iff_eq_or_transGen

theorem above_iff {a d : Nat} :
    Above parent a d ↔ ∃ p, parent d = some p ∧ AtOrAbove parent a p :=
  Relation.TransGen.head'_iff

theorem not_above_of_none {a d : Nat} (h : parent d = none) : ¬Above parent a d := by
  intro habove
  obtain ⟨p, hp, -⟩ := above_iff.mp habove
  rw [h] at hp
  cases hp

/-- What is below a node is the node, or at or below a child. -/
theorem atOrAbove_iff_child {a d : Nat} :
    AtOrAbove parent a d ↔ a = d ∨ ∃ c, parent c = some a ∧ AtOrAbove parent c d := by
  constructor
  · intro h
    rcases Relation.ReflTransGen.cases_tail h with heq | ⟨c, hc, hup⟩
    · exact .inl heq
    · exact .inr ⟨c, hup, hc⟩
  · rintro (rfl | ⟨c, hup, hc⟩)
    · exact AtOrAbove.refl a
    · exact Relation.ReflTransGen.tail hc hup

/-- The strict ancestors of a node that is not the node itself are above one of its children. -/
theorem above_iff_child {a d : Nat} :
    Above parent a d ↔ ∃ c, parent c = some a ∧ AtOrAbove parent c d := by
  constructor
  · intro h
    obtain ⟨c, hc, hup⟩ := Relation.TransGen.tail'_iff.mp h
    exact ⟨c, hup, hc⟩
  · rintro ⟨c, hup, hc⟩
    exact Relation.TransGen.tail'_iff.mpr ⟨c, hc, hup⟩

/-- The nodes at or above one node are in a line. -/
theorem AtOrAbove.linear {a b d : Nat} (ha : AtOrAbove parent a d) (hb : AtOrAbove parent b d) :
    AtOrAbove parent b a ∨ AtOrAbove parent a b := by
  have hunique : Relator.RightUnique (Up parent) := by
    intro x y z hy hz
    exact Option.some.inj (hy.symm.trans hz)
  exact Relation.ReflTransGen.total_of_right_unique hunique ha hb

section Numbered

variable (hlt : ∀ d p, parent d = some p → p < d)

include hlt

/-- Where parents come before their children, ancestors come before their descendants. -/
theorem Above.lt {a d : Nat} (h : Above parent a d) : a < d := by
  induction h with
  | single hup => exact hlt _ _ hup
  | tail _ hup ih => exact Nat.lt_trans (hlt _ _ hup) ih

theorem AtOrAbove.le {a d : Nat} (h : AtOrAbove parent a d) : a ≤ d := by
  rcases atOrAbove_iff.mp h with rfl | habove
  · exact Nat.le_refl a
  · exact Nat.le_of_lt (habove.lt hlt)

end Numbered

/-! ## From the leaves up -/

section Sweep

variable {α : Type*} (parent : Nat → Option Nat) (own : Nat → α) (combine : Nat → α → (Nat → α) → α)

/-- What a node is, from what its children are. -/
inductive Means : Nat → α → Prop
  | node (i : Nat) (below : Nat → α) (h : ∀ j, parent j = some i → Means j (below j)) :
    Means i (combine i (own i) below)

/-- The nodes before `n`, from the last one to the first one. -/
def sweep : Nat → (Nat → α) → Nat → α
  | 0, x => x
  | i + 1, x => sweep i (Function.update x i (combine i (x i) x))

theorem sweep_of_le {n i : Nat} (x : Nat → α) (h : n ≤ i) : sweep combine n x i = x i := by
  induction n generalizing x with
  | zero => rfl
  | succ n ih =>
    rw [sweep, ih _ (Nat.le_of_succ_le h), Function.update_of_ne (Nat.ne_of_gt h)]

variable {parent} {combine}

/-- Only the children of a node count. -/
def Local (parent : Nat → Option Nat) (combine : Nat → α → (Nat → α) → α) : Prop :=
  ∀ i a x y, (∀ j, parent j = some i → x j = y j) → combine i a x = combine i a y

variable (hlocal : Local parent combine)

include hlocal

/-- Every node that is swept is made from what its children are at the end. -/
theorem sweep_eq_combine (hlt : ∀ d p, parent d = some p → p < d) {n i : Nat} (x : Nat → α)
    (h : i < n) : sweep combine n x i = combine i (x i) (sweep combine n x) := by
  induction n generalizing x with
  | zero => cases h
  | succ n ih =>
    rw [sweep]
    rcases Nat.lt_succ_iff_lt_or_eq.mp h with hi | rfl
    · rw [ih _ hi, Function.update_of_ne (Nat.ne_of_lt hi)]
    · rw [sweep_of_le combine _ (Nat.le_refl i), Function.update_self]
      refine hlocal i _ _ _ fun j hj => ?_
      have hij := hlt j i hj
      rw [sweep_of_le combine _ (Nat.le_of_lt hij), Function.update_of_ne (Nat.ne_of_gt hij)]

/-- The sweep computes what the nodes mean, if it begins behind the last child. -/
theorem means_iff_sweep (hlt : ∀ d p, parent d = some p → p < d) {n : Nat}
    (hn : ∀ d p, parent d = some p → d < n) {i : Nat} (hi : i < n) {a : α} :
    Means parent own combine i a ↔ a = sweep combine n own i := by
  constructor
  · intro h
    induction h with
    | node i below _ ih =>
      rw [sweep_eq_combine hlocal hlt own hi]
      exact hlocal i _ _ _ fun j hj => ih j hj (hn j i hj)
  · rintro rfl
    induction hk : n - i using Nat.strongRecOn generalizing i with
    | ind k ih =>
      rw [sweep_eq_combine hlocal hlt own hi]
      refine .node i _ fun j hj => ?_
      have hij := hlt j i hj
      have hjn := hn j i hj
      exact ih (n - j) (by omega) hjn rfl

end Sweep

end EspCars.Lib
