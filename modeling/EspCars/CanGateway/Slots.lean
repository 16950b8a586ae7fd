import EspCars.Lib.Ring
import Mathlib

/-!
# TX slots: the pools and the tracker

`SlotPool` and `OutstandingTracker` of `components/can_gateway/gateway_core.h`. A pool is one
flag a slot; the tracker is a ring of the slots handed to the driver, oldest first.
-/

namespace EspCars.CanGateway

open EspCars.Lib

/-! ## `SlotPool` -/

/-- `SlotPool`: which of its slots are taken. -/
structure SlotPool (n : Nat) where
  used : List Bool
  length_used : used.length = n
  deriving DecidableEq

namespace SlotPool

variable {n : Nat}

def init (n : Nat) : SlotPool n := ⟨List.replicate n false, List.length_replicate⟩

def isUsed (p : SlotPool n) (index : Nat) : Bool := p.used.getD index false

/-- `used_[index].exchange(true)`. -/
def claim (p : SlotPool n) (index : Nat) : SlotPool n :=
  ⟨p.used.set index true, by rw [List.length_set, p.length_used]⟩

/-- `release` -/
def release (p : SlotPool n) (index : Nat) : SlotPool n :=
  ⟨p.used.set index false, by rw [List.length_set, p.length_used]⟩

/-- `none` is `SLOT_NONE`. An interrupt runs the whole loop undisturbed. -/
def acquire (p : SlotPool n) : Option Nat × SlotPool n :=
  match p.used.findIdx? (fun used => !used) with
  | some i => (some i, p.claim i)
  | none => (none, p)

@[simp] theorem isUsed_init (n i : Nat) : (init n).isUsed i = false := by
  unfold isUsed init
  rw [List.getD_eq_getElem?_getD, List.getElem?_replicate]
  split <;> rfl

theorem isUsed_claim (p : SlotPool n) {i : Nat} (h : i < n) (j : Nat) :
    (p.claim i).isUsed j = (decide (j = i) || p.isUsed j) := by
  have hl := p.length_used
  unfold isUsed claim
  rw [List.getD_eq_getElem?_getD, List.getD_eq_getElem?_getD, List.getElem?_set]
  by_cases hij : i = j
  · subst hij
    rw [if_pos rfl, if_pos (by omega)]
    simp
  · rw [if_neg hij]
    simp [Ne.symm hij]

theorem isUsed_release (p : SlotPool n) (i j : Nat) :
    (p.release i).isUsed j = (!decide (j = i) && p.isUsed j) := by
  unfold isUsed release
  rw [List.getD_eq_getElem?_getD, List.getD_eq_getElem?_getD, List.getElem?_set]
  by_cases hij : i = j
  · subst hij
    rw [if_pos rfl]
    split_ifs <;> simp
  · rw [if_neg hij]
    simp [Ne.symm hij]

theorem lt_of_isUsed (p : SlotPool n) {i : Nat} (h : p.isUsed i = true) : i < n := by
  by_contra hn
  unfold isUsed at h
  rw [List.getD_eq_getElem?_getD, List.getElem?_eq_none (by rw [p.length_used]; omega)] at h
  cases h

/-- What `acquire` returns was free and is claimed; `SLOT_NONE` means that nothing was free. -/
theorem acquire_cases (p : SlotPool n) :
    (∃ i, i < n ∧ p.isUsed i = false ∧ p.acquire = (some i, p.claim i)) ∨
      ((∀ i, i < n → p.isUsed i = true) ∧ p.acquire = (none, p)) := by
  have hl := p.length_used
  unfold acquire
  cases hf : p.used.findIdx? (fun used => !used) with
  | some i =>
    left
    obtain ⟨hi, hfree, _⟩ := List.findIdx?_eq_some_iff_getElem.mp hf
    refine ⟨i, by omega, ?_, rfl⟩
    rw [isUsed, List.getD_eq_getElem?_getD, List.getElem?_eq_getElem hi]
    simpa using hfree
  | none =>
    right
    refine ⟨fun i hi => ?_, rfl⟩
    rw [List.findIdx?_eq_none_iff] at hf
    rw [isUsed, List.getD_eq_getElem?_getD, List.getElem?_eq_getElem (by omega)]
    simpa using hf _ (List.getElem_mem (by omega : i < p.used.length))

end SlotPool

/-! ## `OutstandingTracker` -/

/-- `OutstandingTracker`: the slots the driver has, in the order it was given them. -/
abbrev OutstandingTracker (T : Type) (n : Nat) := Ring T n

namespace OutstandingTracker

variable {T : Type} [DecidableEq T] {n : Nat}

def size (t : OutstandingTracker T n) : Nat := t.count

/-- A full tracker stays as it is (`false` in the source). -/
def push (t : OutstandingTracker T n) (item : T) : OutstandingTracker T n :=
  (Ring.push t item).getD t

/-- The loop that looks for `done`, with the number of entries left to look at. -/
def seek (t : OutstandingTracker T n) (done : T) : Nat → Nat → Nat
  | 0, depth => depth
  | left + 1, depth => if t.get? depth ≠ some done then seek t done left (depth + 1) else depth

/-- The loop that pops the older entries, and these entries. -/
def drain (t : OutstandingTracker T n) : Nat → List T × OutstandingTracker T n
  | 0 => ([], t)
  | depth + 1 =>
    match t.get? 0 with
    | some item =>
      let (items, t') := drain (Ring.pop t) depth
      (item :: items, t')
    | none => ([], t)

/-- The entries handed to `reclaim`, and the tracker without them and without `done`. -/
def complete (t : OutstandingTracker T n) (done : T) : List T × OutstandingTracker T n :=
  let depth := seek t done t.count 0
  if depth = t.count then ([], t)
  else
    let (orphans, t) := drain t depth
    (orphans, Ring.pop t)

def reclaimHead (t : OutstandingTracker T n) : Option T × OutstandingTracker T n :=
  if t.count = 0 then (none, t) else (t.get? 0, Ring.pop t)

omit [DecidableEq T] in
theorem toList_push (t : OutstandingTracker T n) (item : T) (h : t.toList.length < n) :
    (push t item).toList = t.toList ++ [item] := by
  obtain ⟨t', ht'⟩ := Option.isSome_iff_exists.mp ((t.push_isSome_iff item).mpr h)
  rw [push, ht', Option.getD_some]
  exact Ring.toList_push t ht'

omit [DecidableEq T] in
theorem size_eq (t : OutstandingTracker T n) : size t = t.toList.length :=
  t.length_toList.symm

omit [DecidableEq T] in
theorem reclaimHead_eq (t : OutstandingTracker T n) :
    (reclaimHead t).1 = t.toList.head? ∧ (reclaimHead t).2.toList = t.toList.tail := by
  have hlen := t.length_toList
  unfold reclaimHead
  rw [Ring.get?_zero]
  split_ifs with h0
  · rw [List.eq_nil_of_length_eq_zero (by omega : t.toList.length = 0)]
    exact ⟨rfl, rfl⟩
  · exact ⟨rfl, t.toList_pop⟩

theorem seek_eq (t : OutstandingTracker T n) (done : T) (left : Nat) {depth : Nat}
    (h : left + depth = t.count) :
    seek t done left depth = depth + (t.toList.drop depth).idxOf done := by
  have hlen := t.length_toList
  induction left generalizing depth with
  | zero =>
    rw [seek, List.drop_of_length_le (by omega), List.idxOf_nil]
    omega
  | succ left ih =>
    have hd : depth < t.toList.length := by omega
    have hget : t.get? depth = some t.toList[depth] := by
      rw [← Ring.getElem?_toList t (by omega), List.getElem?_eq_getElem hd]
    rw [seek, hget, List.drop_eq_getElem_cons hd, List.idxOf_cons]
    by_cases he : t.toList[depth] = done
    · rw [if_neg (by simp [he])]
      simp [he]
    · rw [if_pos (by simpa using he), ih (by omega)]
      rw [beq_eq_false_iff_ne.mpr he, cond_false]
      omega

omit [DecidableEq T] in
theorem drain_eq (t : OutstandingTracker T n) (depth : Nat) (h : depth ≤ t.toList.length) :
    (drain t depth).1 = t.toList.take depth ∧
      (drain t depth).2.toList = t.toList.drop depth := by
  induction depth generalizing t with
  | zero => exact ⟨rfl, rfl⟩
  | succ depth ih =>
    cases hlist : t.toList with
    | nil =>
      rw [hlist] at h
      cases h
    | cons item rest =>
      have hcount : t.count ≠ 0 := by
        have hlen := t.length_toList
        rw [hlist] at hlen
        simp only [List.length_cons] at hlen
        omega
      have hget : t.get? 0 = some item := by
        have hz := t.get?_zero
        rw [if_neg hcount, hlist] at hz
        exact hz.symm
      have hpop : (Ring.pop t).toList = rest := by rw [t.toList_pop, hlist, List.tail_cons]
      have hrest := ih (Ring.pop t) (by
        rw [hpop]
        rw [hlist] at h
        simpa using h)
      rw [hpop] at hrest
      simp only [drain, hget, List.take_succ_cons, List.drop_succ_cons]
      exact ⟨by rw [hrest.1], hrest.2⟩

/-- A completion takes the completed entry and everything older out, and returns the older
ones. -/
theorem complete_eq (t : OutstandingTracker T n) {done : T} {older newer : List T}
    (h : t.toList = older ++ done :: newer) (hfirst : done ∉ older) :
    (complete t done).1 = older ∧ (complete t done).2.toList = newer := by
  have hlen := t.length_toList
  have hseek : seek t done t.count 0 = older.length := by
    rw [seek_eq t done t.count (by omega), List.drop_zero, h, List.idxOf_append_of_notMem hfirst,
      List.idxOf_cons_self]
    omega
  have hdrain := drain_eq t older.length (by rw [h, List.length_append]; omega)
  rw [h, List.take_left, List.drop_left] at hdrain
  unfold complete
  simp only [hseek]
  rw [if_neg (by rw [← hlen, h, List.length_append, List.length_cons]; omega)]
  refine ⟨hdrain.1, ?_⟩
  dsimp only
  rw [Ring.toList_pop, hdrain.2, List.tail_cons]

end OutstandingTracker

end EspCars.CanGateway
