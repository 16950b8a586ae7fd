import EspCars.CanGateway.Rules
import EspCars.Lib.Search
import Mathlib

/-!
# The subscribed set

`SubscribedSet<N>` of `components/can_gateway/gateway_core.h`: the keys of the subscribed IDs in the
order of their values, filled once by `insert`, asked by the receive interrupt with `contains`. The
set carries that its keys are sorted and fit the array.

The list of the keys is the used part of `keys_`. As long as no more than `N` different keys are
inserted, `contains` finds just these (`contains_insertAll_iff`).
-/

namespace EspCars.CanGateway

open EspCars.Lib

/-- `key_of`: the frame type is the low bit. -/
def keyOf (canId : UInt32) (extended : Bool) : UInt32 :=
  canId <<< 1 ||| if extended then 1 else 0

/-- `SubscribedSet`: its keys are sorted, and no more than it has room for. -/
structure SubscribedSet (n : Nat) where
  keys : List UInt32 := []
  sorted : keys.Pairwise (· < ·) := by exact .nil
  length_le : keys.length ≤ n := by exact Nat.zero_le _

namespace SubscribedSet

variable {n : Nat}

/-- `keys_[i]`, as a number. -/
def keyAt (keys : List UInt32) (i : Nat) : Nat := (keys.getD i 0).toNat

/-- The first loop of `insert`. -/
def place (keys : List UInt32) (key : UInt32) : Nat :=
  lowerBound (keyAt keys) key.toNat keys.length 0 keys.length

/-! ## Sorted keys -/

section Keys

variable {keys : List UInt32} {key : UInt32}

theorem keyAt_of_lt {i : Nat} (h : i < keys.length) : keyAt keys i = keys[i].toNat := by
  rw [keyAt, List.getD_eq_getElem _ _ h]

theorem keyAt_le (hsorted : keys.Pairwise (· < ·)) (i j : Nat) (hij : i ≤ j)
    (hj : j < keys.length) : keyAt keys i ≤ keyAt keys j := by
  rw [keyAt_of_lt hj, keyAt_of_lt (Nat.lt_of_le_of_lt hij hj)]
  rcases Nat.lt_or_eq_of_le hij with hlt | rfl
  · exact Nat.le_of_lt (UInt32.lt_iff_toNat_lt.mp (List.pairwise_iff_getElem.mp hsorted _ _ _ _ hlt))
  · exact Nat.le_refl _

/-- The place of a key: the keys before it are smaller, the others are not. -/
theorem place_spec (hsorted : keys.Pairwise (· < ·)) (key : UInt32) :
    place keys key ≤ keys.length ∧ (∀ a ∈ keys.take (place keys key), a < key) ∧
      ∀ a ∈ keys.drop (place keys key), key ≤ a := by
  obtain ⟨hle, hbelow, habove⟩ := lowerBound_spec (k := key.toNat)
    (keyAt_le hsorted) (Nat.le_of_eq (Nat.sub_zero keys.length)) (Nat.zero_le _) (Nat.le_refl _)
    (fun i hi => absurd hi (Nat.not_lt_zero i)) (fun i hi hlt => absurd hlt (Nat.not_lt.mpr hi))
  change place keys key ≤ keys.length at hle
  refine ⟨hle, fun a ha => ?_, fun a ha => ?_⟩
  · obtain ⟨i, hi, rfl⟩ := List.mem_iff_getElem.mp ha
    rw [List.length_take] at hi
    have hkey := hbelow i (Nat.lt_of_lt_of_le hi (Nat.min_le_left _ _))
    rw [keyAt_of_lt (by omega)] at hkey
    rw [List.getElem_take]
    exact UInt32.lt_iff_toNat_lt.mpr hkey
  · obtain ⟨i, hi, rfl⟩ := List.mem_iff_getElem.mp ha
    rw [List.length_drop] at hi
    have hlt : place keys key + i < keys.length := by omega
    have hkey := habove (place keys key + i) (Nat.le_add_right _ _) hlt
    rw [keyAt_of_lt hlt] at hkey
    rw [List.getElem_drop]
    exact UInt32.le_iff_toNat_le.mpr hkey

/-- A key that is there stands at its place. -/
theorem getElem?_place_iff (hsorted : keys.Pairwise (· < ·)) (key : UInt32) :
    keys[place keys key]? = some key ↔ key ∈ keys := by
  obtain ⟨-, hbelow, habove⟩ := place_spec hsorted key
  constructor
  · exact List.mem_of_getElem?
  · intro hmem
    rw [← List.take_append_drop (place keys key) keys, List.mem_append] at hmem
    rcases hmem with hmem | hmem
    · exact absurd (hbelow key hmem) (UInt32.lt_irrefl key)
    · have hdrop : (keys.drop (place keys key))[0]? = keys[place keys key]? := by
        rw [List.getElem?_drop, Nat.add_zero]
      rw [← hdrop]
      have hrest : (keys.drop (place keys key)).Pairwise (· < ·) :=
        hsorted.sublist (List.drop_sublist _ _)
      generalize keys.drop (place keys key) = rest at hmem habove hrest
      cases rest with
      | nil => cases hmem
      | cons a rest =>
        rcases List.mem_cons.mp hmem with rfl | hmem
        · rfl
        · have hlt := (List.pairwise_cons.mp hrest).1 key hmem
          have hge := habove a (List.mem_cons_self ..)
          exact absurd (UInt32.lt_of_le_of_lt hge hlt) (UInt32.lt_irrefl key)

theorem insertIdx_append_length (before after : List UInt32) (key : UInt32) :
    (before ++ after).insertIdx before.length key = before ++ key :: after := by
  induction before with
  | nil => exact List.insertIdx_zero
  | cons a before ih =>
    rw [List.cons_append, List.length_cons, List.insertIdx_succ_cons, ih, List.cons_append]

theorem insertIdx_place (hsorted : keys.Pairwise (· < ·)) (key : UInt32) :
    keys.insertIdx (place keys key) key =
      keys.take (place keys key) ++ key :: keys.drop (place keys key) := by
  have hlength : (keys.take (place keys key)).length = place keys key :=
    List.length_take_of_le (place_spec hsorted key).1
  have hinsert := insertIdx_append_length (keys.take (place keys key))
    (keys.drop (place keys key)) key
  rwa [hlength, List.take_append_drop] at hinsert

theorem sorted_insertIdx (hsorted : keys.Pairwise (· < ·)) (hnew : key ∉ keys) :
    (keys.insertIdx (place keys key) key).Pairwise (· < ·) := by
  obtain ⟨-, hbelow, habove⟩ := place_spec hsorted key
  rw [insertIdx_place hsorted, List.pairwise_append, List.pairwise_cons]
  have habove' : ∀ a ∈ keys.drop (place keys key), key < a := by
    intro a ha
    have hne : key ≠ a := by
      rintro rfl
      exact hnew (List.mem_of_mem_drop ha)
    exact UInt32.lt_of_le_of_ne (habove a ha) hne
  refine ⟨hsorted.sublist (List.take_sublist _ _), ⟨habove', hsorted.sublist (List.drop_sublist _ _)⟩,
    fun a ha b hb => ?_⟩
  rcases List.mem_cons.mp hb with rfl | hb
  · exact hbelow a ha
  · exact UInt32.lt_trans (hbelow a ha) (habove' b hb)

theorem mem_insertIdx_place (hsorted : keys.Pairwise (· < ·)) (key a : UInt32) :
    a ∈ keys.insertIdx (place keys key) key ↔ a = key ∨ a ∈ keys := by
  rw [List.mem_insertIdx (place_spec hsorted key).1]

end Keys

/-! ## The two operations -/

/-- `insert`: false only when the set is full. -/
def insert (s : SubscribedSet n) (canId : UInt32) (extended : Bool) : SubscribedSet n × Bool :=
  let key := keyOf canId extended
  if hpresent : s.keys[place s.keys key]? = some key then (s, true)
  else if hfull : n ≤ s.keys.length then (s, false)
  else
    ({ keys := s.keys.insertIdx (place s.keys key) key
       sorted := sorted_insertIdx s.sorted fun hmem =>
        hpresent ((getElem?_place_iff s.sorted key).mpr hmem)
       length_le := by
        rw [List.length_insertIdx_of_le_length (place_spec s.sorted key).1]
        omega }, true)

/-- `contains` -/
def contains (s : SubscribedSet n) (canId : UInt32) (extended : Bool) : Bool :=
  bisect (keyAt s.keys) (keyOf canId extended).toNat s.keys.length 0 s.keys.length

theorem contains_iff (s : SubscribedSet n) (canId : UInt32) (extended : Bool) :
    s.contains canId extended = true ↔ keyOf canId extended ∈ s.keys := by
  rw [contains, bisect_iff (keyAt_le s.sorted) (by omega) (Nat.le_refl _)]
  constructor
  · rintro ⟨i, -, hi, heq⟩
    rw [keyAt_of_lt hi] at heq
    rw [← UInt32.toNat_inj.mp heq]
    exact List.getElem_mem hi
  · intro hmem
    obtain ⟨i, hi, heq⟩ := List.mem_iff_getElem.mp hmem
    exact ⟨i, Nat.zero_le _, hi, by rw [keyAt_of_lt hi, heq]⟩

/-- A refused key leaves the set as it is. -/
theorem mem_insert_iff (s : SubscribedSet n) (canId : UInt32) (extended : Bool) (key : UInt32) :
    key ∈ (s.insert canId extended).1.keys ↔
      key ∈ s.keys ∨ (s.insert canId extended).2 = true ∧ key = keyOf canId extended := by
  unfold insert
  dsimp only
  split_ifs with hpresent hfull
  · have hmem := (getElem?_place_iff s.sorted _).mp hpresent
    constructor
    · exact Or.inl
    · rintro (h | ⟨-, rfl⟩)
      · exact h
      · exact hmem
  · simp
  · rw [mem_insertIdx_place s.sorted]
    simp [or_comm]

/-- An insert is refused only if the set is full of other keys. -/
theorem insert_refused_iff (s : SubscribedSet n) (canId : UInt32) (extended : Bool) :
    (s.insert canId extended).2 = false ↔ keyOf canId extended ∉ s.keys ∧ s.keys.length = n := by
  have hle := s.length_le
  unfold insert
  dsimp only
  split_ifs with hpresent hfull
  · simp [(getElem?_place_iff s.sorted _).mp hpresent]
  · simp only [true_iff]
    exact ⟨fun hmem => hpresent ((getElem?_place_iff s.sorted _).mpr hmem), by omega⟩
  · constructor
    · intro h
      cases h
    · rintro ⟨-, hlength⟩
      omega

/-! ## All subscribed IDs -/

/-- The calls of `insert` for the IDs, in order. -/
def insertAll (ids : List (UInt32 × Bool)) : SubscribedSet n :=
  ids.foldl (fun s id => (s.insert id.1 id.2).1) {}

theorem insertAll_concat (ids : List (UInt32 × Bool)) (id : UInt32 × Bool) :
    (insertAll (ids ++ [id]) : SubscribedSet n) = ((insertAll ids).insert id.1 id.2).1 := by
  rw [insertAll, List.foldl_append]
  rfl

/-- As many different IDs as there are keys for are all in the set. -/
theorem mem_insertAll_iff {ids : List (UInt32 × Bool)} (h : ids.dedup.length ≤ n) (key : UInt32) :
    key ∈ (insertAll ids : SubscribedSet n).keys ↔ ∃ id ∈ ids, key = keyOf id.1 id.2 := by
  induction ids using List.reverseRecOn generalizing key with
  | nil => simp [insertAll]
  | append_singleton ids id ih =>
    have hsub : ids.dedup ⊆ (ids ++ [id]).dedup := by
      intro a ha
      rw [List.mem_dedup] at ha ⊢
      exact List.mem_append_left _ ha
    have hids := ih (Nat.le_trans ((List.nodup_dedup ids).length_le_of_subset hsub) h)
    have haccepted : ((insertAll ids : SubscribedSet n).insert id.1 id.2).2 = true := by
      by_contra hrefused
      obtain ⟨hnew, hlength⟩ := (insert_refused_iff _ _ _).mp (Bool.eq_false_of_not_eq_true hrefused)
      have hnodup : (keyOf id.1 id.2 :: (insertAll ids : SubscribedSet n).keys).Nodup :=
        List.nodup_cons.mpr ⟨hnew, (insertAll ids).sorted.imp UInt32.ne_of_lt⟩
      have hcovered : keyOf id.1 id.2 :: (insertAll ids : SubscribedSet n).keys ⊆
          (ids ++ [id]).dedup.map fun a => keyOf a.1 a.2 := by
        intro a ha
        rw [List.mem_map]
        rcases List.mem_cons.mp ha with rfl | ha
        · exact ⟨id, List.mem_dedup.mpr (by simp), rfl⟩
        · obtain ⟨b, hb, rfl⟩ := (hids a).mp ha
          exact ⟨b, List.mem_dedup.mpr (List.mem_append_left _ hb), rfl⟩
      have hle := hnodup.length_le_of_subset hcovered
      rw [List.length_cons, List.length_map, hlength] at hle
      omega
    rw [insertAll_concat, mem_insert_iff, hids, haccepted]
    constructor
    · rintro (⟨a, ha, hkey⟩ | ⟨-, hkey⟩)
      · exact ⟨a, List.mem_append_left _ ha, hkey⟩
      · exact ⟨id, by simp, hkey⟩
    · rintro ⟨a, ha, hkey⟩
      rcases List.mem_append.mp ha with ha | ha
      · exact Or.inl ⟨a, ha, hkey⟩
      · exact Or.inr ⟨rfl, by rw [hkey, List.mem_singleton.mp ha]⟩

theorem contains_insertAll_iff {ids : List (UInt32 × Bool)} (h : ids.dedup.length ≤ n)
    (canId : UInt32) (extended : Bool) :
    (insertAll ids : SubscribedSet n).contains canId extended = true ↔
      ∃ id ∈ ids, keyOf canId extended = keyOf id.1 id.2 := by
  rw [contains_iff, mem_insertAll_iff h]

end SubscribedSet

end EspCars.CanGateway
