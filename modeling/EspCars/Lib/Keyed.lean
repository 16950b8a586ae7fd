import Mathlib

/-!
# Lists of keyed entries

A list in insertion order whose entries are known by a key: look an entry up, change the first one
with a key, take it out. While no key occurs twice, these are what they are in a map.
-/

namespace EspCars.Lib.Keyed

variable {ε κ : Type} [DecidableEq κ] (key : ε → κ)

/-- The first entry under a key. -/
def find (k : κ) (l : List ε) : Option ε := l.find? (key · = k)

def update (k : κ) (f : ε → ε) : List ε → List ε
  | [] => []
  | e :: l => if key e = k then f e :: l else e :: update k f l

def erase (k : κ) (l : List ε) : List ε := l.eraseP (key · = k)

variable {key} {k : κ} {l : List ε}

theorem mem_of_find {e : ε} (h : find key k l = some e) : e ∈ l ∧ key e = k :=
  ⟨List.mem_of_find?_eq_some h, by simpa using List.find?_some h⟩

theorem find_eq_none_iff : find key k l = none ↔ k ∉ l.map key := by
  simp [find, List.find?_eq_none]

theorem find_cons (e : ε) : find key k (e :: l) = if key e = k then some e else find key k l := by
  simp only [find, List.find?_cons]
  split_ifs with h <;> simp [h]

/-- With its key kept, an entry that is changed stays where it is. -/
theorem map_update {f : ε → ε} (h : ∀ e, key (f e) = key e) :
    (update key k f l).map key = l.map key := by
  induction l with
  | nil => rfl
  | cons e l ih =>
    rw [update]
    split_ifs
    · rw [List.map_cons, List.map_cons, h]
    · rw [List.map_cons, List.map_cons, ih]

theorem mem_update {f : ε → ε} {e' : ε} (h : e' ∈ update key k f l) :
    e' ∈ l ∨ ∃ e, find key k l = some e ∧ e' = f e := by
  induction l with
  | nil => cases h
  | cons e l ih =>
    rw [update] at h
    rw [find_cons]
    split_ifs at h ⊢ with hk
    · rcases List.mem_cons.mp h with rfl | h
      · exact Or.inr ⟨e, rfl, rfl⟩
      · exact Or.inl (List.mem_cons_of_mem _ h)
    · rcases List.mem_cons.mp h with rfl | h
      · exact Or.inl (List.mem_cons_self ..)
      · rcases ih h with h | h
        · exact Or.inl (List.mem_cons_of_mem _ h)
        · exact Or.inr h

/-- With its key kept, changing the entry of a key changes what is found under it alone. -/
theorem find_update {f : ε → ε} (h : ∀ e, key (f e) = key e) (k' : κ) :
    find key k' (update key k f l) = if k' = k then (find key k l).map f else find key k' l := by
  induction l with
  | nil => simp [find, update]
  | cons e l ih =>
    rw [update]
    by_cases hk : key e = k
    · rw [if_pos hk, find_cons, find_cons, find_cons, h, hk, if_pos rfl]
      by_cases hkk : k' = k
      · rw [if_pos hkk, if_pos hkk.symm, Option.map_some]
      · rw [if_neg hkk, if_neg (Ne.symm hkk), if_neg (Ne.symm hkk)]
    · rw [if_neg hk, find_cons, find_cons, find_cons, ih, if_neg hk]
      by_cases hkk : k' = k
      · rw [if_pos hkk, hkk, if_neg hk, if_pos rfl]
      · rw [if_neg hkk, if_neg hkk]

theorem find_append {l' : List ε} :
    find key k (l ++ l') = (find key k l).or (find key k l') := by
  simp [find, List.find?_append]

theorem countP_update_le {p : ε → Bool} {f : ε → ε} (h : ∀ e, p (f e) = true → p e = true) :
    (update key k f l).countP p ≤ l.countP p := by
  induction l with
  | nil => exact Nat.le_refl _
  | cons e l ih =>
    rw [update]
    split_ifs
    · simp only [List.countP_cons]
      by_cases hp : p (f e) = true
      · simp [hp, h e hp]
      · simp [hp]
    · simp only [List.countP_cons]
      omega

theorem erase_sublist : (erase key k l).Sublist l := List.eraseP_sublist

theorem erase_cons (e : ε) :
    erase key k (e :: l) = if key e = k then l else e :: erase key k l := by
  simp only [erase, List.eraseP_cons]
  split_ifs with h <;> simp [h]

theorem find_erase_of_ne {k' : κ} (h : k' ≠ k) :
    find key k' (erase key k l) = find key k' l := by
  induction l with
  | nil => rfl
  | cons e l ih =>
    rw [erase_cons, find_cons]
    by_cases hk : key e = k
    · rw [if_pos hk, hk, if_neg (Ne.symm h)]
    · rw [if_neg hk, find_cons, ih]

theorem map_erase : (erase key k l).map key = (l.map key).erase k := by
  induction l with
  | nil => rfl
  | cons e l ih =>
    rw [erase_cons, List.map_cons, List.erase_cons]
    by_cases hk : key e = k
    · rw [if_pos hk, if_pos (by simpa using hk)]
    · rw [if_neg hk, if_neg (by simpa using hk), List.map_cons, ih]

section Nodup

variable (h : (l.map key).Nodup)
include h

omit [DecidableEq κ] in
theorem eq_of_key_eq {e e' : ε} (he : e ∈ l) (he' : e' ∈ l) (hk : key e = key e') : e = e' :=
  List.inj_on_of_nodup_map h he he' hk

theorem find_of_mem {e : ε} (he : e ∈ l) : find key (key e) l = some e := by
  cases hf : find key (key e) l with
  | none => exact absurd (List.mem_map_of_mem he) (find_eq_none_iff.mp hf)
  | some e' =>
    obtain ⟨hmem, hkey⟩ := mem_of_find hf
    rw [eq_of_key_eq h hmem he hkey]

theorem mem_erase {e : ε} : e ∈ erase key k l ↔ e ∈ l ∧ key e ≠ k := by
  induction l with
  | nil => simp [erase]
  | cons x l ih =>
    obtain ⟨hx, hl⟩ := List.nodup_cons.mp h
    rw [erase_cons]
    split_ifs with hk
    · subst hk
      constructor
      · intro he
        refine ⟨List.mem_cons_of_mem _ he, fun heq => hx ?_⟩
        rw [← heq]
        exact List.mem_map_of_mem he
      · rintro ⟨he, hne⟩
        rcases List.mem_cons.mp he with rfl | he
        · exact absurd rfl hne
        · exact he
    · rw [List.mem_cons, List.mem_cons, ih hl]
      constructor
      · rintro (rfl | ⟨he, hne⟩)
        · exact ⟨Or.inl rfl, hk⟩
        · exact ⟨Or.inr he, hne⟩
      · rintro ⟨rfl | he, hne⟩
        · exact Or.inl rfl
        · exact Or.inr ⟨he, hne⟩

theorem find_erase (k' : κ) :
    find key k' (erase key k l) = if k' = k then none else find key k' l := by
  by_cases hkk : k' = k
  · rw [if_pos hkk, hkk, find_eq_none_iff, map_erase]
    exact h.not_mem_erase
  · rw [if_neg hkk, find_erase_of_ne hkk]

end Nodup

end EspCars.Lib.Keyed
