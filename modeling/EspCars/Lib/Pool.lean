import Mathlib

/-!
# Pools of shared runs

A pool is a list that only grows, with the offset of every run that was put into it, under the
run's key: a run with the key of one that is there is not stored again. Every run may be followed by
a terminator. What an offset refers to stays there however much is interned later.
-/

namespace EspCars.Lib

variable {β κ : Type}

/-- A pool of runs, each found by its key. -/
structure Pool (β κ : Type) where
  contents : List β := []
  offs : List (κ × Nat) := []

namespace Pool

/-- The run is found at the offset. -/
def Holds (contents : List β) (off : Nat) (run : List β) : Prop :=
  off ≤ contents.length ∧ run <+: contents.drop off

theorem Holds.mono {contents contents' run : List β} {off : Nat} (h : Holds contents off run)
    (hle : contents <+: contents') : Holds contents' off run := by
  obtain ⟨hoff, hrun⟩ := h
  obtain ⟨rest, rfl⟩ := hle
  refine ⟨?_, ?_⟩
  · rw [List.length_append]
    omega
  · rw [List.drop_append_of_le_length hoff]
    exact hrun.trans (List.prefix_append _ _)

theorem Holds.lt_length {contents run : List β} {off : Nat} (h : Holds contents off run)
    (hne : run ≠ []) : off < contents.length := by
  obtain ⟨-, rest, hrest⟩ := h
  by_contra hge
  rw [List.drop_of_length_le (Nat.le_of_not_lt hge)] at hrest
  exact hne (List.append_eq_nil_iff.mp hrest).1

variable [DecidableEq κ]

/-- The offset under a key. -/
def lookup (pool : Pool β κ) (k : κ) : Option Nat := pool.offs.lookup k

/-- The offset of the run, which is appended if its key is new. -/
def intern (key : List β → κ) (terminator : List β) (pool : Pool β κ) (run : List β) :
    Nat × Pool β κ :=
  match pool.lookup (key run) with
  | some off => (off, pool)
  | none =>
    (pool.contents.length,
      { contents := pool.contents ++ (run ++ terminator)
        offs := (key run, pool.contents.length) :: pool.offs })

/-- Every offset refers to a run with its key. -/
def Sound (key : List β → κ) (terminator : List β) (pool : Pool β κ) : Prop :=
  ∀ k off, (k, off) ∈ pool.offs →
    ∃ run, key run = k ∧ Holds pool.contents off (run ++ terminator)

variable {key : List β → κ} {terminator : List β} {pool : Pool β κ}

theorem mem_of_lookup {k : κ} {off : Nat} (h : pool.lookup k = some off) :
    (k, off) ∈ pool.offs := by
  unfold lookup at h
  generalize pool.offs = offs at h ⊢
  induction offs with
  | nil => cases h
  | cons entry offs ih =>
    obtain ⟨k', off'⟩ := entry
    rw [List.lookup_cons] at h
    split at h
    · next heq =>
      cases h
      rw [beq_iff_eq.mp heq]
      exact List.mem_cons_self ..
    · exact List.mem_cons_of_mem _ (ih h)

theorem contents_intern (key : List β → κ) (terminator : List β) (pool : Pool β κ)
    (run : List β) : pool.contents <+: (pool.intern key terminator run).2.contents := by
  unfold intern
  split
  · exact List.prefix_rfl
  · exact List.prefix_append _ _

/-- Only the run and its terminator are added. -/
theorem mem_contents_intern {run : List β} {x : β}
    (h : x ∈ (pool.intern key terminator run).2.contents) :
    x ∈ pool.contents ∨ x ∈ run ++ terminator := by
  unfold intern at h
  split at h
  · exact Or.inl h
  · exact List.mem_append.mp h

/-- Interning keeps every offset, and answers that of a run with the same key. -/
theorem sound_intern (h : pool.Sound key terminator) (run : List β) :
    (pool.intern key terminator run).2.Sound key terminator ∧
      ∃ run', key run' = key run ∧
        Holds (pool.intern key terminator run).2.contents (pool.intern key terminator run).1
          (run' ++ terminator) := by
  unfold intern
  split
  · next off hoff => exact ⟨h, h (key run) off (mem_of_lookup hoff)⟩
  · have hnew : Holds (pool.contents ++ (run ++ terminator)) pool.contents.length
        (run ++ terminator) := by
      refine ⟨by rw [List.length_append]; omega, [], ?_⟩
      rw [List.append_nil, List.drop_left]
    refine ⟨?_, run, rfl, hnew⟩
    intro k off hmem
    rcases List.mem_cons.mp hmem with heq | hmem
    · cases heq
      exact ⟨run, rfl, hnew⟩
    · obtain ⟨run', hkey, hholds⟩ := h k off hmem
      exact ⟨run', hkey, hholds.mono (List.prefix_append _ _)⟩

/-- The offset that a later lookup answers. -/
theorem lookup_intern (run : List β) :
    (pool.intern key terminator run).2.lookup (key run) =
      some (pool.intern key terminator run).1 := by
  unfold intern
  split
  · next hoff => exact hoff
  · rw [lookup, List.lookup_cons, beq_self_eq_true]

theorem lookup_intern_of_some {k : κ} {off : Nat} (h : pool.lookup k = some off)
    (run : List β) : (pool.intern key terminator run).2.lookup k = some off := by
  unfold intern
  split
  · exact h
  · next hnone =>
    rw [lookup, List.lookup_cons]
    split
    · next heq =>
      rw [beq_iff_eq.mp heq, hnone] at h
      cases h
    · exact h

end Pool

end EspCars.Lib
