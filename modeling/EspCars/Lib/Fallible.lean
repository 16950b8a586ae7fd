import Mathlib

/-!
# Steps that may fail

What the result of a sequence or of a loop of fallible steps says about each of them.
-/

namespace EspCars.Lib

open List

theorem bind_eq_ok {α β ε : Type} {x : Except ε α} {f : α → Except ε β} {b : β} :
    x >>= f = .ok b ↔ ∃ a, x = .ok a ∧ f a = .ok b := by
  cases x with
  | error e => exact iff_of_false nofun (fun ⟨_, h, _⟩ => nomatch h)
  | ok a =>
    constructor
    · exact fun h => ⟨a, rfl, h⟩
    · rintro ⟨a', ha, h⟩
      cases ha
      exact h

theorem forM_eq_ok {α ε : Type} {f : α → Except ε Unit} {l : List α} (h : l.forM f = .ok ()) :
    ∀ a ∈ l, f a = .ok () := by
  induction l with
  | nil => nofun
  | cons a l ih =>
    change (f a >>= fun _ => l.forM f) = .ok () at h
    obtain ⟨_, ha, h⟩ := bind_eq_ok.mp h
    intro a' ha'
    rcases mem_cons.mp ha' with rfl | ha'
    · exact ha
    · exact ih h a' ha'

theorem mapM_eq_ok {α β ε : Type} {f : α → Except ε β} {l : List α} {l' : List β} :
    l.mapM f = .ok l' ↔ Forall₂ (fun a b => f a = .ok b) l l' := by
  induction l generalizing l' with
  | nil =>
    rw [mapM_nil, forall₂_nil_left_iff]
    exact ⟨fun h => (Except.ok.inj h).symm, fun h => congrArg Except.ok h.symm⟩
  | cons a l ih =>
    rw [mapM_cons, bind_eq_ok, forall₂_cons_left_iff]
    constructor
    · rintro ⟨b, hb, h⟩
      obtain ⟨bs, hbs, h⟩ := bind_eq_ok.mp h
      cases h
      exact ⟨b, bs, hb, ih.mp hbs, rfl⟩
    · rintro ⟨b, bs, hb, hbs, rfl⟩
      exact ⟨b, hb, bind_eq_ok.mpr ⟨bs, ih.mpr hbs, rfl⟩⟩

/-- A loop over the indices of a table. -/
theorem mapM_range_eq_ok {β ε : Type} {f : Nat → Except ε β} {n : Nat} {l : List β} :
    (range n).mapM f = .ok l ↔ l.length = n ∧ ∀ i b, l[i]? = some b → f i = .ok b := by
  rw [mapM_eq_ok, forall₂_iff_get]
  constructor
  · rintro ⟨hlen, h⟩
    refine ⟨hlen.symm.trans length_range, ?_⟩
    intro i b hb
    obtain ⟨hlt, rfl⟩ := List.getElem?_eq_some_iff.mp hb
    have hi := h i (hlen ▸ hlt) hlt
    rwa [get_eq_getElem, getElem_range] at hi
  · rintro ⟨rfl, h⟩
    refine ⟨length_range, ?_⟩
    intro i hi hlt
    rw [get_eq_getElem, getElem_range]
    exact h i _ (List.getElem?_eq_getElem hlt)

theorem forall₂_of_mapM {α β : Type} {f : α → Option β} {l : List α} {l' : List β}
    (h : l.mapM f = some l') : Forall₂ (fun a b => f a = some b) l l' := by
  induction l generalizing l' with
  | nil =>
    rw [mapM_nil] at h
    cases h
    exact .nil
  | cons a l ih =>
    rw [mapM_cons] at h
    obtain ⟨b, hb, h⟩ := Option.bind_eq_some_iff.mp h
    obtain ⟨bs, hbs, h⟩ := Option.bind_eq_some_iff.mp h
    cases h
    exact .cons hb (ih hbs)

end EspCars.Lib
