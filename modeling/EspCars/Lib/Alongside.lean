import Mathlib

/-!
# Lists side by side

Two lists whose elements are related one by one (`List.Forall₂`): what a function, a predicate or a
search makes of them.
-/

namespace EspCars.Lib

variable {α β δ : Type*} {R : α → β → Prop} {l : List α} {l' : List β}

/-- Lists that a function does not tell apart, element by element. -/
theorem forall₂_of_map_eq {f : α → β} {l l' : List α} (h : l.map f = l'.map f) :
    List.Forall₂ (fun a b => f a = f b) l l' := by
  rw [← List.forall₂_eq_eq_eq] at h
  exact List.forall₂_map_right_iff.mp (List.forall₂_map_left_iff.mp h)

theorem forall₂_with_mem (h : List.Forall₂ R l l') {p : α → Prop} {q : β → Prop}
    (hp : ∀ a ∈ l, p a) (hq : ∀ b ∈ l', q b) :
    List.Forall₂ (fun a b => R a b ∧ p a ∧ q b) l l' := by
  induction h with
  | nil => exact List.Forall₂.nil
  | cons hhead _ ih =>
    refine List.Forall₂.cons ⟨hhead, hp _ List.mem_cons_self, hq _ List.mem_cons_self⟩ ?_
    exact ih (fun a ha => hp a (List.mem_cons_of_mem _ ha))
      fun b hb => hq b (List.mem_cons_of_mem _ hb)

theorem map_eq_of_forall₂ (h : List.Forall₂ R l l') {f : α → δ} {g : β → δ}
    (hR : ∀ a b, R a b → f a = g b) : l.map f = l'.map g := by
  rw [← List.forall₂_eq_eq_eq]
  exact List.rel_map (fun a b hab => hR a b hab) h

variable {p : α → Bool} {q : β → Bool}

theorem any_eq_of_forall₂ (h : List.Forall₂ R l l')
    (hR : ∀ a b, R a b → p a = q b) : l.any p = l'.any q := by
  have hmap := congrArg (fun bs => bs.any id) (map_eq_of_forall₂ h hR)
  simpa using hmap

theorem all_eq_of_forall₂ (h : List.Forall₂ R l l')
    (hR : ∀ a b, R a b → p a = q b) : l.all p = l'.all q := by
  have hmap := congrArg (fun bs => bs.all id) (map_eq_of_forall₂ h hR)
  simpa using hmap

theorem find?_rel_of_forall₂ (h : List.Forall₂ R l l')
    (hR : ∀ a b, R a b → p a = q b) : Option.Rel R (l.find? p) (l'.find? q) := by
  induction h with
  | nil => exact Option.Rel.none
  | cons hhead _ ih =>
    rw [List.find?_cons, List.find?_cons, ← hR _ _ hhead]
    split
    · exact Option.Rel.some hhead
    · exact ih

theorem getElem?_rel_of_forall₂ (h : List.Forall₂ R l l') (i : Nat) :
    Option.Rel R l[i]? l'[i]? := by
  induction h generalizing i with
  | nil => exact Option.Rel.none
  | cons hhead _ ih =>
    cases i with
    | zero => exact Option.Rel.some hhead
    | succ i => exact ih i

end EspCars.Lib
