import EspCars.Lib.Alongside

/-!
# Codes without lengths

Two streams are written item by item, the items in the same order, with codes that carry neither a
length nor a terminator. Where no code of an item lies strictly inside another code of the same item
(`Level`), the items of equal streams are equal: if they came apart, some item of one stream would
lie inside the same item of the other. `Segment` says this of a part of the two streams, whatever
follows, together with what the equality tells about the part.
-/

namespace EspCars.Lib

variable {α β γ : Type*}

/-- Neither code lies inside the other one but at its start. -/
structure Level (a b : List α) : Prop where
  left : ∀ e r, a = e ++ (b ++ r) → e = []
  right : ∀ e r, b = e ++ (a ++ r) → e = []

/-- A word of a code that lies inside another one. -/
theorem getElem?_inside {a b e r : List α} (h : a = e ++ (b ++ r)) {i : Nat} (hi : i < b.length) :
    a[e.length + i]? = b[i]? := by
  rw [h, List.getElem?_append_right (Nat.le_add_right _ _), Nat.add_sub_cancel_left,
    List.getElem?_append_left hi]

theorem length_inside {a b e r : List α} (h : a = e ++ (b ++ r)) :
    e.length + b.length ≤ a.length := by
  rw [h, List.length_append, List.length_append]
  omega

theorem Level.symm {a b : List α} (h : Level a b) : Level b a := ⟨h.right, h.left⟩

theorem level_of_length_eq {a b : List α} (h : a.length = b.length) : Level a b := by
  have hinside {a b : List α} (h : a.length = b.length) (e r : List α) (heq : a = e ++ (b ++ r)) :
      e = [] := by
    have hlength := length_inside heq
    exact List.eq_nil_of_length_eq_zero (by omega)
  exact ⟨hinside h, hinside h.symm⟩

/-- If one stream is a suffix of the other, they are equal, and then `P` holds. -/
structure Sync (x y : List α) (P : Prop) : Prop where
  left : ∀ e, x = e ++ y → e = [] ∧ P
  right : ∀ e, y = e ++ x → e = [] ∧ P

theorem sync_nil : Sync ([] : List α) [] True where
  left := fun e h => ⟨by simpa using h, trivial⟩
  right := fun e h => ⟨by simpa using h, trivial⟩

/-- In front of streams that are in step the part is in step, and `P` holds of it. -/
def Segment (a b : List α) (P : Prop) : Prop :=
  ∀ x y Q, Sync x y Q → Sync (a ++ x) (b ++ y) (P ∧ Q)

/-- One half of `segment_of_level`. -/
theorem Level.stays {a b x y e : List α} {P Q : Prop} (h : Level a b) (hP : a = b → P)
    (hsync : Sync x y Q) (heq : a ++ x = e ++ (b ++ y)) : e = [] ∧ P ∧ Q := by
  rw [← List.append_assoc] at heq
  rcases List.append_eq_append_iff.mp heq with ⟨f, hshort, hrest⟩ | ⟨f, hlong, hrest⟩
  · -- The item of the second stream ends later, unless `f` is empty.
    obtain ⟨rfl, hQ⟩ := hsync.left f hrest
    obtain rfl : e = [] := h.left e [] (by simpa using hshort.symm)
    exact ⟨rfl, hP (by simpa using hshort.symm), hQ⟩
  · obtain ⟨rfl, hQ⟩ := hsync.right f hrest
    obtain rfl : e = [] := h.left e [] (by simpa using hlong)
    exact ⟨rfl, hP (by simpa using hlong), hQ⟩

theorem segment_of_level {a b : List α} {P : Prop} (h : Level a b) (hP : a = b → P) :
    Segment a b P :=
  fun _ _ _ hsync =>
    ⟨fun _ heq => h.stays hP hsync heq,
      fun _ heq => h.symm.stays (fun hba => hP hba.symm) ⟨hsync.right, hsync.left⟩ heq⟩

namespace Segment

variable {a b a' b' : List α} {P P' : Prop}

theorem nil : Segment ([] : List α) [] True :=
  segment_of_level (level_of_length_eq rfl) fun _ => trivial

theorem mono (h : Segment a b P) (hP : P → P') : Segment a b P' :=
  fun x y Q hsync =>
    ⟨fun e heq => ((h x y Q hsync).left e heq).imp_right (And.imp_left hP),
      fun e heq => ((h x y Q hsync).right e heq).imp_right (And.imp_left hP)⟩

theorem append (h : Segment a b P) (h' : Segment a' b' P') :
    Segment (a ++ a') (b ++ b') (P ∧ P') := by
  intro x y Q hsync
  have hboth := h _ _ _ (h' x y Q hsync)
  rw [List.append_assoc, List.append_assoc]
  exact ⟨fun e heq => (hboth.left e heq).imp_right and_assoc.mpr,
    fun e heq => (hboth.right e heq).imp_right and_assoc.mpr⟩

theorem flatMap {f : β → List α} {g : γ → List α} {R : β → γ → Prop} {l : List β} {l' : List γ}
    (h : List.Forall₂ (fun i j => Segment (f i) (g j) (R i j)) l l') :
    Segment (l.flatMap f) (l'.flatMap g) (List.Forall₂ R l l') := by
  induction h with
  | nil => exact nil.mono fun _ => List.Forall₂.nil
  | cons hhead _ ih =>
    rw [List.flatMap_cons, List.flatMap_cons]
    exact (hhead.append ih).mono fun hboth => List.Forall₂.cons hboth.1 hboth.2

/-- What two equal streams tell. -/
theorem read (h : Segment a b P) (heq : a = b) : P := by
  have hsync := h [] [] True sync_nil
  exact (hsync.left [] (by rw [List.nil_append, heq])).2.1

end Segment

end EspCars.Lib
