import EspCars.CanGateway.SubscribedSet

/-!
# The key array

`SubscribedSet<N>` as it runs: an array of `N` keys of which `count_` are used, two searches with
16-bit indices and an insert that shifts the keys behind its place. It does what the sorted list
does, so at any time the keys are just those of the inserts that were accepted.
-/

namespace EspCars.CanGateway

open EspCars.Lib SubscribedSet

/-- `(lo + hi) >> 1`; the sum is an `int`. -/
def midOf (lo hi : UInt16) : UInt16 := ((lo.toUInt32 + hi.toUInt32) >>> 1).toUInt16

theorem toNat_midOf (lo hi : UInt16) : (midOf lo hi).toNat = (lo.toNat + hi.toNat) / 2 := by
  have hlo := lo.toNat_lt
  have hhi := hi.toNat_lt
  have hsum : (lo.toUInt32 + hi.toUInt32).toNat = lo.toNat + hi.toNat := by
    rw [UInt32.toNat_add, UInt16.toNat_toUInt32, UInt16.toNat_toUInt32]
    omega
  have hone : (1 : UInt32).toNat % 32 = 1 := rfl
  rw [midOf, UInt32.toNat_toUInt16, UInt32.toNat_shiftRight, hsum, hone, Nat.shiftRight_one]
  omega

theorem midOf_lt {lo hi : UInt16} (h : lo < hi) :
    lo.toNat ≤ (midOf lo hi).toNat ∧ (midOf lo hi).toNat < hi.toNat ∧
      (midOf lo hi + 1).toNat = (midOf lo hi).toNat + 1 ∧
      lo.toNat + (hi.toNat - lo.toNat) / 2 = (midOf lo hi).toNat := by
  have hlt := UInt16.lt_iff_toNat_lt.mp h
  have hhi := hi.toNat_lt
  have hone : (1 : UInt16).toNat = 1 := rfl
  rw [UInt16.toNat_add, toNat_midOf, hone]
  omega

/-- The loop of `insert`. -/
def lowerLoop (keys : List UInt32) (key : UInt32) (lo hi : UInt16) : UInt16 :=
  if hloop : lo < hi then
    let mid := midOf lo hi
    if keys.getD mid.toNat 0 < key then lowerLoop keys key (mid + 1) hi
    else lowerLoop keys key lo mid
  else lo
termination_by hi.toNat - lo.toNat
decreasing_by
  · have hmid := midOf_lt hloop
    omega
  · have hmid := midOf_lt hloop
    omega

/-- The loop of `contains`. -/
def findLoop (keys : List UInt32) (key : UInt32) (lo hi : UInt16) : Bool :=
  if hloop : lo < hi then
    let mid := midOf lo hi
    if keys.getD mid.toNat 0 < key then findLoop keys key (mid + 1) hi
    else if keys.getD mid.toNat 0 > key then findLoop keys key lo mid
    else true
  else false
termination_by hi.toNat - lo.toNat
decreasing_by
  · have hmid := midOf_lt hloop
    omega
  · have hmid := midOf_lt hloop
    omega

/-- `for (i = count_; i > lo; i--) keys_[i] = keys_[i - 1]`, from any `i`. -/
def shiftLoop (keys : List UInt32) (lo : Nat) : Nat → List UInt32
  | 0 => keys
  | i + 1 => if i + 1 > lo then shiftLoop (keys.set (i + 1) (keys.getD i 0)) lo i else keys

/-- `keys_` and `count_`. -/
structure KeyArray (n : UInt16) where
  keys : List UInt32 := List.replicate n.toNat 0
  count : UInt16 := 0

namespace KeyArray

variable {n : UInt16}

def insert (a : KeyArray n) (canId : UInt32) (extended : Bool) : KeyArray n × Bool :=
  let key := keyOf canId extended
  let lo := lowerLoop a.keys key 0 a.count
  if lo < a.count ∧ a.keys.getD lo.toNat 0 = key then (a, true)
  else if a.count ≥ n then (a, false)
  else
    ({ keys := (shiftLoop a.keys lo.toNat a.count.toNat).set lo.toNat key
       count := a.count + 1 }, true)

/-- `contains` -/
def contains (a : KeyArray n) (canId : UInt32) (extended : Bool) : Bool :=
  findLoop a.keys (keyOf canId extended) 0 a.count

/-- The keys in use. -/
def used (a : KeyArray n) : List UInt32 := a.keys.take a.count.toNat

end KeyArray

/-! ## The loops -/

section Loops

variable {keys : List UInt32} {key : UInt32} {f : Nat → Nat}

/-- One round of the 16-bit search, by numbers. -/
theorem round_of_lt {lo hi : UInt16} (hloop : lo < hi) {fuel : Nat}
    (hfuel : hi.toNat - lo.toNat ≤ fuel) : ∃ n, fuel = n + 1 ∧ lo.toNat < hi.toNat ∧
      (midOf lo hi).toNat < hi.toNat ∧
      lo.toNat + (hi.toNat - lo.toNat) / 2 = (midOf lo hi).toNat ∧
      (midOf lo hi + 1).toNat = (midOf lo hi).toNat + 1 ∧
      hi.toNat - (midOf lo hi + 1).toNat ≤ n ∧ (midOf lo hi).toNat - lo.toNat ≤ n := by
  obtain ⟨hlo, hhi, hnext, hmid⟩ := midOf_lt hloop
  obtain ⟨n, rfl⟩ := Nat.exists_eq_succ_of_ne_zero (by omega : fuel ≠ 0)
  exact ⟨n, rfl, UInt16.lt_iff_toNat_lt.mp hloop, hhi, hmid, hnext, by omega, by omega⟩

/-- The 16-bit search is the search by numbers. -/
theorem toNat_lowerLoop {lo hi : UInt16} (hf : ∀ i < hi.toNat, f i = (keys.getD i 0).toNat)
    {fuel : Nat} (hfuel : hi.toNat - lo.toNat ≤ fuel) :
    (lowerLoop keys key lo hi).toNat = lowerBound f key.toNat fuel lo.toNat hi.toNat := by
  induction lo, hi using lowerLoop.induct keys key generalizing fuel with
  | case1 lo hi hloop mid hbelow ih =>
    obtain ⟨fuel, rfl, hlt, hhi, hmid, hnext, hup, hdown⟩ := round_of_lt hloop hfuel
    rw [lowerLoop, dif_pos hloop, lowerBound, if_pos hlt]
    dsimp only
    rw [if_pos hbelow, hmid, hf _ hhi, if_pos (UInt32.lt_iff_toNat_lt.mp hbelow), ← hnext]
    exact ih hf hup
  | case2 lo hi hloop mid habove ih =>
    obtain ⟨fuel, rfl, hlt, hhi, hmid, hnext, hup, hdown⟩ := round_of_lt hloop hfuel
    rw [lowerLoop, dif_pos hloop, lowerBound, if_pos hlt]
    dsimp only
    rw [if_neg habove, hmid, hf _ hhi,
      if_neg fun hbelow => habove (UInt32.lt_iff_toNat_lt.mpr hbelow)]
    exact ih (fun i hi' => hf i (Nat.lt_trans hi' hhi)) hdown
  | case3 lo hi hend =>
    have hle : ¬ lo.toNat < hi.toNat := fun hlt => hend (UInt16.lt_iff_toNat_lt.mpr hlt)
    rw [lowerLoop, dif_neg hend]
    cases fuel with
    | zero => rfl
    | succ fuel => rw [lowerBound, if_neg hle]

theorem findLoop_eq {lo hi : UInt16} (hf : ∀ i < hi.toNat, f i = (keys.getD i 0).toNat)
    {fuel : Nat} (hfuel : hi.toNat - lo.toNat ≤ fuel) :
    findLoop keys key lo hi = bisect f key.toNat fuel lo.toNat hi.toNat := by
  induction lo, hi using findLoop.induct keys key generalizing fuel with
  | case1 lo hi hloop mid hbelow ih =>
    obtain ⟨fuel, rfl, hlt, hhi, hmid, hnext, hup, hdown⟩ := round_of_lt hloop hfuel
    rw [findLoop, dif_pos hloop, bisect, if_pos hlt]
    dsimp only
    rw [if_pos hbelow, hmid, hf _ hhi, if_pos (UInt32.lt_iff_toNat_lt.mp hbelow), ← hnext]
    exact ih hf hup
  | case2 lo hi hloop mid hbelow habove ih =>
    obtain ⟨fuel, rfl, hlt, hhi, hmid, hnext, hup, hdown⟩ := round_of_lt hloop hfuel
    rw [findLoop, dif_pos hloop, bisect, if_pos hlt]
    dsimp only
    rw [if_neg hbelow, if_pos habove, hmid, hf _ hhi,
      if_neg fun h => hbelow (UInt32.lt_iff_toNat_lt.mpr h),
      if_pos (UInt32.lt_iff_toNat_lt.mp habove)]
    exact ih (fun i hi' => hf i (Nat.lt_trans hi' hhi)) hdown
  | case3 lo hi hloop mid hbelow habove =>
    obtain ⟨fuel, rfl, hlt, hhi, hmid, hnext, hup, hdown⟩ := round_of_lt hloop hfuel
    rw [findLoop, dif_pos hloop, bisect, if_pos hlt]
    dsimp only
    rw [if_neg hbelow, if_neg habove, hmid, hf _ hhi,
      if_neg fun h => hbelow (UInt32.lt_iff_toNat_lt.mpr h),
      if_neg fun h => habove (UInt32.lt_iff_toNat_lt.mpr h)]
  | case4 lo hi hend =>
    have hle : ¬ lo.toNat < hi.toNat := fun hlt => hend (UInt16.lt_iff_toNat_lt.mpr hlt)
    rw [findLoop, dif_neg hend]
    cases fuel with
    | zero => rfl
    | succ fuel => rw [bisect, if_neg hle]

end Loops

/-- What the shift leaves: behind `lo` every key is one further. -/
theorem getElem?_shiftLoop {keys : List UInt32} {lo i : Nat} (hi : i < keys.length) (j : Nat) :
    (shiftLoop keys lo i)[j]? = if lo < j ∧ j ≤ i then keys[j - 1]? else keys[j]? := by
  induction i generalizing keys with
  | zero =>
    have hnone : ¬ (lo < j ∧ j ≤ 0) := by omega
    rw [shiftLoop, if_neg hnone]
  | succ i ih =>
    rw [shiftLoop]
    by_cases hlo : i + 1 > lo
    · have hlen : i < (keys.set (i + 1) (keys.getD i 0)).length := by
        rw [List.length_set]
        omega
      have hread : keys.getD i 0 = keys[i] := List.getD_eq_getElem _ _ (by omega)
      rw [if_pos hlo, ih hlen, List.getElem?_set, List.getElem?_set, hread]
      by_cases hj : j = i + 1
      · subst hj
        rw [if_neg (by omega), if_pos rfl, if_pos hi, if_pos (by omega), Nat.add_sub_cancel,
          List.getElem?_eq_getElem (by omega)]
      · by_cases hin : lo < j ∧ j ≤ i
        · rw [if_pos hin, if_neg (by omega), if_pos (by omega)]
        · rw [if_neg hin, if_neg (by omega), if_neg (by omega)]
    · rw [if_neg hlo, if_neg (by omega)]

theorem length_shiftLoop (keys : List UInt32) (lo i : Nat) :
    (shiftLoop keys lo i).length = keys.length := by
  induction i generalizing keys with
  | zero => rfl
  | succ i ih =>
    rw [shiftLoop]
    split_ifs
    · rw [ih, List.length_set]
    · rfl

/-- The shift makes room for one key. -/
theorem take_shiftLoop {keys : List UInt32} {lo count : Nat} (hlo : lo ≤ count)
    (hcount : count < keys.length) (key : UInt32) :
    ((shiftLoop keys lo count).set lo key).take (count + 1) = (keys.take count).insertIdx lo key := by
  apply List.ext_getElem?
  intro j
  rw [List.getElem?_take, List.getElem?_set, length_shiftLoop, getElem?_shiftLoop hcount,
    List.getElem?_insertIdx, List.length_take, List.getElem?_take, List.getElem?_take]
  rcases Nat.lt_trichotomy j lo with hj | rfl | hj
  · rw [if_pos (by omega), if_neg (by omega), if_neg (by omega), if_pos hj, if_pos (by omega)]
  · rw [if_pos (by omega), if_pos rfl, if_pos (by omega), if_neg (by omega), if_pos rfl,
      if_pos (by omega)]
  · rw [if_neg (by omega : ¬ j < lo), if_neg (by omega : ¬ j = lo), if_neg (by omega : ¬ lo = j)]
    by_cases hin : j < count + 1
    · rw [if_pos hin, if_pos (by omega), if_pos (by omega)]
    · rw [if_neg hin, if_neg (by omega)]

namespace KeyArray

variable {n : UInt16} {a : KeyArray n} {s : SubscribedSet n.toNat}

/-- The array holds the keys of the set. -/
structure Represents (a : KeyArray n) (s : SubscribedSet n.toNat) : Prop where
  length_eq : a.keys.length = n.toNat
  count_eq : a.count.toNat = s.keys.length
  used_eq : a.used = s.keys

namespace Represents

theorem init : Represents ({} : KeyArray n) {} := by
  refine ⟨List.length_replicate, rfl, ?_⟩
  exact List.take_zero

theorem keyAt_eq (h : Represents a s) (i : Nat) (hi : i < a.count.toNat) :
    keyAt s.keys i = (a.keys.getD i 0).toNat := by
  rw [keyAt, ← h.used_eq, used, List.getD_eq_getElem?_getD, List.getD_eq_getElem?_getD,
    List.getElem?_take, if_pos hi]

theorem place_eq (h : Represents a s) (key : UInt32) :
    (lowerLoop a.keys key 0 a.count).toNat = place s.keys key := by
  have hzero : (0 : UInt16).toNat = 0 := rfl
  rw [toNat_lowerLoop h.keyAt_eq (Nat.le_refl _), hzero, Nat.sub_zero, h.count_eq]
  rfl

theorem contains_eq (h : Represents a s) (canId : UInt32) (extended : Bool) :
    a.contains canId extended = s.contains canId extended := by
  have hzero : (0 : UInt16).toNat = 0 := rfl
  rw [KeyArray.contains, findLoop_eq h.keyAt_eq (Nat.le_refl _), hzero, Nat.sub_zero, h.count_eq]
  rfl

theorem present_iff (h : Represents a s) (key : UInt32) :
    (lowerLoop a.keys key 0 a.count < a.count ∧
        a.keys.getD (lowerLoop a.keys key 0 a.count).toNat 0 = key) ↔
      s.keys[place s.keys key]? = some key := by
  rw [UInt16.lt_iff_toNat_lt, h.place_eq, ← h.used_eq, used, List.getElem?_take]
  split_ifs with hlt
  · have hlen : place (a.keys.take a.count.toNat) key < a.keys.length := by
      have hcount := h.count_eq
      have hle := s.length_le
      rw [h.length_eq]
      omega
    rw [List.getD_eq_getElem _ _ hlen, List.getElem?_eq_getElem hlen, Option.some.injEq]
    exact and_iff_right hlt
  · constructor
    · intro hpresent
      exact absurd hpresent.1 hlt
    · intro hnone
      cases hnone

/-- The array does what the set does. -/
theorem insert (h : Represents a s) (canId : UInt32) (extended : Bool) :
    Represents (a.insert canId extended).1 (s.insert canId extended).1 ∧
      (a.insert canId extended).2 = (s.insert canId extended).2 := by
  have hpresent := h.present_iff (keyOf canId extended)
  unfold KeyArray.insert SubscribedSet.insert
  dsimp only
  by_cases hkey : s.keys[place s.keys (keyOf canId extended)]? =
      some (keyOf canId extended)
  · rw [if_pos (hpresent.mpr hkey), dif_pos hkey]
    exact ⟨h, rfl⟩
  · rw [if_neg (hpresent.not.mpr hkey), dif_neg hkey]
    by_cases hfull : n ≤ a.count
    · have hfull' : n.toNat ≤ s.keys.length := by
        rw [← h.count_eq]
        exact UInt16.le_iff_toNat_le.mp hfull
      rw [if_pos hfull, dif_pos hfull']
      exact ⟨h, rfl⟩
    · have hroom : s.keys.length < n.toNat := by
        rw [← h.count_eq]
        exact UInt16.lt_iff_toNat_lt.mp (UInt16.not_le.mp hfull)
      have hlt := n.toNat_lt
      have hcount : (a.count + 1).toNat = s.keys.length + 1 := by
        have hone : (1 : UInt16).toNat = 1 := rfl
        rw [UInt16.toNat_add, hone, h.count_eq]
        omega
      have hplace := (place_spec s.sorted (keyOf canId extended)).1
      rw [if_neg hfull, dif_neg (Nat.not_le.mpr hroom)]
      refine ⟨⟨?_, ?_, ?_⟩, rfl⟩
      · dsimp only
        rw [List.length_set, length_shiftLoop, h.length_eq]
      · dsimp only
        rw [hcount, List.length_insertIdx_of_le_length hplace]
      · dsimp only [used]
        rw [hcount, h.place_eq, h.count_eq, take_shiftLoop hplace (by rw [h.length_eq]; exact hroom),
          ← h.count_eq]
        exact congrArg (List.insertIdx · _ _) h.used_eq

end Represents

/-- The calls of `insert` for the IDs, in order. -/
def insertAll (n : UInt16) (ids : List (UInt32 × Bool)) : KeyArray n :=
  ids.foldl (fun a id => (a.insert id.1 id.2).1) {}

theorem insertAll_concat (n : UInt16) (ids : List (UInt32 × Bool)) (id : UInt32 × Bool) :
    insertAll n (ids ++ [id]) = ((insertAll n ids).insert id.1 id.2).1 := by
  rw [insertAll, List.foldl_append]
  rfl

theorem insertAll_represents (n : UInt16) (ids : List (UInt32 × Bool)) :
    Represents (insertAll n ids) (SubscribedSet.insertAll ids) := by
  induction ids using List.reverseRecOn with
  | nil => exact Represents.init
  | append_singleton ids id ih =>
    rw [insertAll_concat, SubscribedSet.insertAll_concat]
    exact (ih.insert id.1 id.2).1

/-- An insert of the ID among `ids` returned true. -/
def Accepted (n : UInt16) (ids : List (UInt32 × Bool)) (id : UInt32 × Bool) : Prop :=
  ∃ before after, ids = before ++ id :: after ∧ ((insertAll n before).insert id.1 id.2).2 = true

theorem accepted_concat_iff (n : UInt16) (ids : List (UInt32 × Bool)) (id id' : UInt32 × Bool) :
    Accepted n (ids ++ [id']) id ↔
      Accepted n ids id ∨ id = id' ∧ ((insertAll n ids).insert id'.1 id'.2).2 = true := by
  constructor
  · rintro ⟨before, after, heq, haccepted⟩
    rcases List.eq_nil_or_concat after with rfl | ⟨after, last, rfl⟩
    · obtain ⟨rfl, hid⟩ := List.append_inj' heq rfl
      obtain ⟨rfl, -⟩ := List.cons.inj hid
      exact Or.inr ⟨rfl, haccepted⟩
    · rw [List.concat_eq_append, ← List.cons_append, ← List.append_assoc] at heq
      obtain ⟨rfl, -⟩ := List.append_inj' heq rfl
      exact Or.inl ⟨before, after, rfl, haccepted⟩
  · rintro (⟨before, after, rfl, haccepted⟩ | ⟨rfl, haccepted⟩)
    · exact ⟨before, after ++ [id'], by simp, haccepted⟩
    · exact ⟨ids, [], rfl, haccepted⟩

/-- The keys in use are those of the accepted inserts. -/
theorem mem_used_iff (n : UInt16) (ids : List (UInt32 × Bool)) (key : UInt32) :
    key ∈ (insertAll n ids).used ↔ ∃ id, Accepted n ids id ∧ key = keyOf id.1 id.2 := by
  induction ids using List.reverseRecOn with
  | nil =>
    rw [(insertAll_represents n []).used_eq]
    constructor
    · intro h
      cases h
    · rintro ⟨id, ⟨before, after, heq, -⟩, -⟩
      exact absurd heq.symm (List.append_ne_nil_of_right_ne_nil _ (List.cons_ne_nil _ _))
  | append_singleton ids id ih =>
    have hbefore := insertAll_represents n ids
    obtain ⟨hafter, hresult⟩ := hbefore.insert id.1 id.2
    rw [insertAll_concat, hafter.used_eq, mem_insert_iff, ← hbefore.used_eq, ih,
      ← hresult]
    simp only [accepted_concat_iff]
    constructor
    · rintro (⟨id', haccepted, hkey⟩ | ⟨haccepted, hkey⟩)
      · exact ⟨id', Or.inl haccepted, hkey⟩
      · exact ⟨id, Or.inr ⟨rfl, haccepted⟩, hkey⟩
    · rintro ⟨id', haccepted | ⟨rfl, haccepted⟩, hkey⟩
      · exact Or.inl ⟨id', haccepted, hkey⟩
      · exact Or.inr ⟨haccepted, hkey⟩

end KeyArray

theorem toNat_keyOf {canId : UInt32} (h : canId.toNat < 2 ^ 31) (extended : Bool) :
    (keyOf canId extended).toNat = 2 * canId.toNat + extended.toNat := by
  have hone : (1 : UInt32).toNat % 32 = 1 := rfl
  have hbit : (if extended then 1 else 0 : UInt32).toNat = extended.toNat := by
    cases extended <;> rfl
  have hshift : (canId <<< 1).toNat = 2 ^ 1 * canId.toNat := by
    rw [UInt32.toNat_shiftLeft, hone, Nat.shiftLeft_eq, Nat.mod_eq_of_lt (by omega), Nat.mul_comm]
  rw [keyOf, UInt32.toNat_or, hshift, hbit, ← Nat.two_pow_add_eq_or_of_lt extended.toNat_lt]

theorem keyOf_inj {canId canId' : UInt32} (h : canId.toNat < 2 ^ 31)
    (h' : canId'.toNat < 2 ^ 31) {extended extended' : Bool} :
    keyOf canId extended = keyOf canId' extended' ↔ canId = canId' ∧ extended = extended' := by
  constructor
  · intro heq
    have hnat := congrArg UInt32.toNat heq
    rw [toNat_keyOf h, toNat_keyOf h'] at hnat
    have hlt := extended.toNat_lt
    have hlt' := extended'.toNat_lt
    have hid : canId.toNat = canId'.toNat := by omega
    have hbit : extended.toNat = extended'.toNat := by omega
    refine ⟨UInt32.toNat_inj.mp hid, ?_⟩
    cases extended <;> cases extended' <;> first | rfl | cases hbit
  · rintro ⟨rfl, rfl⟩
    rfl

/-- The keys are sorted, an ID is found if and only if an insert of just that ID was accepted, and
an insert is refused if and only if all `N` keys are in use and its own is not among them. -/
theorem keyArray_exact (n : UInt16) (ids : List (UInt32 × Bool)) (h : ∀ id ∈ ids, id.1.toNat < 2 ^ 31) :
    (KeyArray.insertAll n ids).used.Pairwise (· < ·) ∧
    (∀ canId extended, canId.toNat < 2 ^ 31 →
      ((KeyArray.insertAll n ids).contains canId extended = true ↔
        KeyArray.Accepted n ids (canId, extended))) ∧
    ∀ canId extended,
      ((KeyArray.insertAll n ids).insert canId extended).2 = false ↔
        (KeyArray.insertAll n ids).count = n ∧
          keyOf canId extended ∉ (KeyArray.insertAll n ids).used := by
  have hset := KeyArray.insertAll_represents n ids
  refine ⟨?_, ?_, ?_⟩
  · rw [hset.used_eq]
    exact (SubscribedSet.insertAll ids).sorted
  · intro canId extended hid
    rw [hset.contains_eq, SubscribedSet.contains_iff, ← hset.used_eq, KeyArray.mem_used_iff]
    constructor
    · rintro ⟨id, haccepted, hkey⟩
      have hmem : id ∈ ids := by
        obtain ⟨before, after, rfl, -⟩ := haccepted
        exact List.mem_append_right _ (List.mem_cons_self ..)
      obtain ⟨rfl, rfl⟩ := (keyOf_inj hid (h id hmem)).mp hkey
      exact haccepted
    · intro haccepted
      exact ⟨_, haccepted, rfl⟩
  · intro canId extended
    rw [(hset.insert canId extended).2, SubscribedSet.insert_refused_iff, ← hset.used_eq, and_comm,
      ← UInt16.toNat_inj, hset.count_eq, hset.used_eq]

/-- Three IDs for two keys, of which one is the same ID as another one in extended form. -/
theorem keyArray_exact_full :
    let ids := [(5, false), (5, true), (7, false)]
    KeyArray.Accepted 2 ids (5, true) ∧ (KeyArray.insertAll 2 ids).contains 5 true = true ∧
      ((KeyArray.insertAll 2 ids).insert 7 false).2 = false := by
  intro ids
  obtain ⟨-, hcontains, hrefused⟩ := keyArray_exact 2 ids (by simp [ids])
  have haccepted : KeyArray.Accepted 2 ids (5, true) := by
    refine ⟨[(5, false)], [(7, false)], rfl, ?_⟩
    rw [((KeyArray.insertAll_represents 2 [(5, false)]).insert 5 true).2]
    decide
  have hset := KeyArray.insertAll_represents 2 ids
  refine ⟨haccepted, (hcontains 5 true (by simp)).mpr haccepted, (hrefused 7 false).mpr ?_⟩
  rw [← UInt16.toNat_inj, hset.count_eq, hset.used_eq]
  decide

end EspCars.CanGateway
