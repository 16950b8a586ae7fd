import Mathlib

/-!
# Programs with a state and exceptions

A program of `ExceptT ε (StateM σ)` keeps what it did to the state when an exception leaves it.
`wp m Q E s`: from the state `s` the program `m` ends in a state that meets `Q` for its value, or `E`
for the exception that leaves it.
-/

namespace EspCars.Lib

variable {σ ε α β : Type}

/-- A program over a state that may fail, and keeps the state when it does. -/
abbrev Program (σ ε α : Type) := ExceptT ε (StateM σ) α

/-- The value or the exception of a run, and the state in which it ends. -/
def Program.exec (m : Program σ ε α) (s : σ) : Except ε α × σ := StateT.run (ExceptT.run m) s

def wp (m : Program σ ε α) (Q : α → σ → Prop) (E : ε → σ → Prop) (s : σ) : Prop :=
  match m.exec s with
  | (.ok a, s') => Q a s'
  | (.error e, s') => E e s'

variable {Q Q' : α → σ → Prop} {R : β → σ → Prop} {E E' : ε → σ → Prop} {s : σ}

theorem exec_bind (m : Program σ ε α) (f : α → Program σ ε β) (s : σ) :
    (m >>= f).exec s =
      match m.exec s with
      | (.ok a, s') => (f a).exec s'
      | (.error e, s') => (.error e, s') := by
  show StateT.run (ExceptT.run (ExceptT.bind m f)) s = _
  unfold ExceptT.bind Program.exec
  show (match StateT.run (ExceptT.run m) s with
    | (r, s') => StateT.run (ExceptT.bindCont f r) s') = _
  rcases StateT.run (ExceptT.run m) s with ⟨e | a, s'⟩ <;> rfl

theorem wp_bind {m : Program σ ε α} {f : α → Program σ ε β} :
    wp (m >>= f) R E s ↔ wp m (fun a => wp (f a) R E) E s := by
  unfold wp
  rw [exec_bind]
  rcases m.exec s with ⟨e | a, s'⟩ <;> rfl

theorem wp_mono {m : Program σ ε α} (h : wp m Q E s) (hQ : ∀ a s', Q a s' → Q' a s')
    (hE : ∀ e s', E e s' → E' e s') : wp m Q' E' s := by
  unfold wp at h ⊢
  revert h
  rcases m.exec s with ⟨e | a, s'⟩
  · exact hE e s'
  · exact hQ a s'

/-- A program that no exception leaves ends. -/
theorem exists_exec_of_wp {m : Program σ ε α} (h : wp m Q (fun _ _ => False) s) :
    ∃ a s', m.exec s = (.ok a, s') ∧ Q a s' := by
  unfold wp at h
  rcases hexec : m.exec s with ⟨e | a, s'⟩
  · rw [hexec] at h
    cases h
  · rw [hexec] at h
    exact ⟨a, s', rfl, h⟩

/-! ## No exception -/

/-- No exception leaves the program. -/
def Total (m : Program σ ε α) : Prop := ∀ s, wp m (fun _ _ => True) (fun _ _ => False) s

namespace Total

variable {m m' : Program σ ε α}

theorem of_wp {Q : σ → α → σ → Prop} (h : ∀ s, wp m (Q s) (fun _ _ => False) s) : Total m :=
  fun s => wp_mono (h s) (fun _ _ _ => trivial) fun _ _ h => h

theorem pure (a : α) : Total (Pure.pure a : Program σ ε α) := fun _ => trivial

theorem bind {f : α → Program σ ε β} (hm : Total m) (hf : ∀ a, Total (f a)) : Total (m >>= f) := by
  intro s
  exact wp_bind.mpr (wp_mono (hm s) (fun a s' _ => hf a s') fun _ _ h => h)

theorem ite {c : Prop} [Decidable c] (h : Total m) (h' : Total m') :
    Total (if c then m else m') := by
  split
  · exact h
  · exact h'

end Total

/-! ## Programs with fuel

A program that counts a loop down and throws where it is not over. From some fuel on it ends as it
would without. -/

section Fuel

variable {m : Nat → Program σ ε α} {f : Nat → α → Program σ ε β}

/-- With enough fuel the program returns `a` in the state `s'`. -/
def Settles (m : Nat → Program σ ε α) (s : σ) (a : α) (s' : σ) : Prop :=
  ∃ enough, ∀ fuel, enough ≤ fuel → (m fuel).exec s = (.ok a, s')

def Returns (m : Nat → Program σ ε α) (s : σ) : Prop := ∃ a s', Settles m s a s'

theorem Settles.bind {a : α} {s' s'' : σ} {b : β} (hm : Settles m s a s')
    (hf : Settles (fun fuel => f fuel a) s' b s'') :
    Settles (fun fuel => m fuel >>= f fuel) s b s'' := by
  obtain ⟨n, hn⟩ := hm
  obtain ⟨k, hk⟩ := hf
  refine ⟨max n k, fun fuel hfuel => ?_⟩
  rw [exec_bind, hn fuel (le_of_max_le_left hfuel)]
  exact hk fuel (le_of_max_le_right hfuel)

namespace Returns

theorem bind (hm : Returns m s) (hf : ∀ a s', Returns (fun fuel => f fuel a) s') :
    Returns (fun fuel => m fuel >>= f fuel) s := by
  obtain ⟨a, s', ha⟩ := hm
  obtain ⟨b, s'', hb⟩ := hf a s'
  exact ⟨b, s'', ha.bind hb⟩

theorem const {m : Program σ ε α} (h : Total m) : Returns (fun _ => m) s := by
  obtain ⟨a, s', hexec, -⟩ := exists_exec_of_wp (h s)
  exact ⟨a, s', 0, fun _ _ => hexec⟩

theorem pure (a : α) : Returns (fun _ => (Pure.pure a : Program σ ε α)) s :=
  ⟨a, s, 0, fun _ _ => rfl⟩

theorem ite {c : Prop} [Decidable c] {m' : Nat → Program σ ε α} (h : Returns m s)
    (h' : Returns m' s) : Returns (fun fuel => if c then m fuel else m' fuel) s := by
  by_cases hc : c
  · simpa [hc] using h
  · simpa [hc] using h'

/-- More fuel does not change what the program returns, and some is enough. -/
theorem of_mono (hmono : ∀ fuel a s', (m fuel).exec s = (.ok a, s') →
      (m (fuel + 1)).exec s = (.ok a, s'))
    (h : ∃ fuel a s', (m fuel).exec s = (.ok a, s')) : Returns m s := by
  obtain ⟨enough, a, s', hexec⟩ := h
  refine ⟨a, s', enough, fun fuel hfuel => ?_⟩
  induction hfuel with
  | refl => exact hexec
  | step _ ih => exact hmono _ a s' ih

end Returns

end Fuel

end EspCars.Lib
