import Mathlib

/-!
# Runs of a machine

A machine has a total step function and a contract `admits s a` that says which inputs its
environment may give it in which state. A run is a list of inputs each admitted where it is
taken; `exec` is the state it ends in. A property of every state reached is proved from its
start and one step (`Admitted.invariant`).

A schedule is an endless run. What must happen in it is proved from a measure that never grows
and from fairness: whenever the goal is not met, some later input would make the measure
smaller if nothing that matters had changed until then (`exists_of_fair`).
-/

namespace EspCars.Lib

variable {σ α : Type}

/-- The state after the inputs `as`. -/
def exec (step : σ → α → σ) (s : σ) (as : List α) : σ := as.foldl step s

@[simp] theorem exec_nil (step : σ → α → σ) (s : σ) : exec step s [] = s := rfl

@[simp] theorem exec_cons (step : σ → α → σ) (s : σ) (a : α) (as : List α) :
    exec step s (a :: as) = exec step (step s a) as := rfl

theorem exec_append (step : σ → α → σ) (s : σ) (as bs : List α) :
    exec step s (as ++ bs) = exec step (exec step s as) bs := List.foldl_append

/-- Every input of `as` satisfies `admits` in the state where it is taken. -/
def Admitted (admits : σ → α → Prop) (step : σ → α → σ) : σ → List α → Prop
  | _, [] => True
  | s, a :: as => admits s a ∧ Admitted admits step (step s a) as

instance Admitted.decidable (admits : σ → α → Prop) [∀ s a, Decidable (admits s a)]
    (step : σ → α → σ) : ∀ (s : σ) (as : List α), Decidable (Admitted admits step s as)
  | _, [] => inferInstanceAs (Decidable True)
  | s, a :: as =>
    have := Admitted.decidable admits step (step s a) as
    inferInstanceAs (Decidable (admits s a ∧ Admitted admits step (step s a) as))

namespace Admitted

variable {admits : σ → α → Prop} {step : σ → α → σ}

theorem append_iff {s : σ} {as bs : List α} :
    Admitted admits step s (as ++ bs) ↔
      Admitted admits step s as ∧ Admitted admits step (exec step s as) bs := by
  induction as generalizing s with
  | nil => simp [Admitted]
  | cons a as ih => simp only [List.cons_append, Admitted, exec_cons, ih, and_assoc]

/-- A list of inputs is admitted if each of them is where it is taken. -/
theorem of_forall {s : σ} {as : List α}
    (h : ∀ before a after, as = before ++ a :: after → admits (exec step s before) a) :
    Admitted admits step s as := by
  induction as generalizing s with
  | nil => trivial
  | cons a as ih =>
    refine ⟨h [] a as rfl, ih fun before b after heq => ?_⟩
    exact h (a :: before) b after (by rw [heq]; rfl)

/-- What holds at the start and is kept by every admitted step holds in every state
reached. -/
theorem invariant (Inv : σ → Prop) (hstep : ∀ s a, admits s a → Inv s → Inv (step s a))
    {s : σ} {as : List α} (hr : Admitted admits step s as) (h0 : Inv s) :
    Inv (exec step s as) := by
  induction as generalizing s with
  | nil => exact h0
  | cons a as ih => exact ih hr.2 (hstep s a hr.1 h0)

/-- A list of inputs that is not admitted has a first one that is not. -/
theorem exists_first_break {s : σ} {as : List α} (h : ¬ Admitted admits step s as) :
    ∃ before a, before ++ [a] <+: as ∧ Admitted admits step s before ∧
      ¬ admits (exec step s before) a := by
  induction as generalizing s with
  | nil => exact absurd trivial h
  | cons a as ih =>
    by_cases ha : admits s a
    · have hrest : ¬ Admitted admits step (step s a) as := fun hrest => h ⟨ha, hrest⟩
      obtain ⟨before, b, hinitial, hbefore, hb⟩ := ih hrest
      exact ⟨a :: before, b, (List.prefix_cons_inj a).mpr hinitial, ⟨ha, hbefore⟩, hb⟩
    · exact ⟨[], a, List.prefix_append [a] as, trivial, ha⟩

end Admitted

/-! ## A machine inside another -/

section Part

variable {τ : Type} {step : σ → α → σ} {step' : τ → α → τ} {part : σ → τ}

theorem exec_part (h : ∀ s a, part (step s a) = step' (part s) a) (s : σ) (as : List α) :
    part (exec step s as) = exec step' (part s) as := by
  induction as generalizing s with
  | nil => rfl
  | cons a as ih => rw [exec_cons, exec_cons, ih, h]

theorem admitted_part_iff (h : ∀ s a, part (step s a) = step' (part s) a) {admits : τ → α → Prop}
    {s : σ} {as : List α} :
    Admitted (fun s a => admits (part s) a) step s as ↔ Admitted admits step' (part s) as := by
  induction as generalizing s with
  | nil => exact Iff.rfl
  | cons a as ih => rw [Admitted, Admitted, ih, h]

end Part

/-! ## Reading words

What a machine does with the part of its inputs that somebody else decides: `word` is that
part, and the rest of each input is arbitrary. -/

section Reads

variable {β : Type} (step : σ → α → σ) (word : α → β)

/-- From `P` the machine is in `Q` once it has read `ws`. -/
def Reads (P : σ → Prop) (ws : List β) (Q : σ → Prop) : Prop :=
  ∀ s as, P s → as.map word = ws → Q (exec step s as)

variable {step word} {P Q R : σ → Prop} {ws ws' : List β}

namespace Reads

theorem nil (h : ∀ s, P s → Q s) : Reads step word P [] Q := by
  intro s as hs has
  rw [List.map_eq_nil_iff] at has
  subst has
  exact h s hs

theorem single {w : β} (h : ∀ s a, P s → word a = w → Q (step s a)) :
    Reads step word P [w] Q := by
  intro s as hs has
  obtain ⟨a, as', rfl, ha, has'⟩ := List.map_eq_cons_iff.mp has
  rw [List.map_eq_nil_iff] at has'
  subst has'
  exact h s a hs ha

theorem append (h : Reads step word P ws Q) (h' : Reads step word Q ws' R) :
    Reads step word P (ws ++ ws') R := by
  intro s as hs has
  obtain ⟨as₁, as₂, rfl, h₁, h₂⟩ := List.map_eq_append_iff.mp has
  rw [exec_append]
  exact h' _ as₂ (h s as₁ hs h₁) h₂

theorem cons {w : β} (h : ∀ s a, P s → word a = w → Q (step s a))
    (h' : Reads step word Q ws R) : Reads step word P (w :: ws) R :=
  (single h).append h'

theorem mono {P' Q' : σ → Prop} (h : Reads step word P ws Q) (hP : ∀ s, P' s → P s)
    (hQ : ∀ s, Q s → Q' s) : Reads step word P' ws Q' :=
  fun s as hs has => hQ _ (h s as (hP s hs) has)

/-- Words made of parts, each of which adds its own `g x` to what has been put out. -/
theorem flatMap {ι γ : Type} {At : List γ → σ → Prop} {f : ι → List β} {g : ι → List γ}
    {xs : List ι} (h : ∀ x ∈ xs, ∀ out, Reads step word (At out) (f x) (At (out ++ g x)))
    (out : List γ) : Reads step word (At out) (xs.flatMap f) (At (out ++ xs.flatMap g)) := by
  induction xs generalizing out with
  | nil =>
    refine nil fun s hs => ?_
    rw [List.flatMap_nil, List.append_nil]
    exact hs
  | cons x xs ih =>
    rw [List.flatMap_cons, List.flatMap_cons, ← List.append_assoc]
    exact (h x List.mem_cons_self out).append
      (ih (fun x' hx' => h x' (List.mem_cons_of_mem x hx')) (out ++ g x))

end Reads

end Reads

/-! ## What a run shows -/

section Observed

variable {β ρ : Type} (obs : σ → α → Option β) (step : σ → α → σ)

/-- The observations that `obs` makes along a run, in their order. -/
def observed : σ → List α → List β
  | _, [] => []
  | s, a :: as => (obs s a).toList ++ observed (step s a) as

variable {obs step}

theorem observed_cons (s : σ) (a : α) (as : List α) :
    observed obs step s (a :: as) = (obs s a).toList ++ observed obs step (step s a) as := rfl

theorem observed_append (s : σ) (as bs : List α) :
    observed obs step s (as ++ bs) =
      observed obs step s as ++ observed obs step (exec step s as) bs := by
  induction as generalizing s with
  | nil => rfl
  | cons a as ih => simp only [List.cons_append, observed, exec_cons, ih, List.append_assoc]

/-- A second machine that collects, in a part of its state, what the first one shows: if a
relation between the two is kept by every admitted input and the second collects there what
the first shows, then it has collected all of it at the end. -/
theorem Admitted.collected {admits : σ → α → Prop} {τ : Type} {next : τ → α → τ}
    (Rel : σ → τ → Prop) (got : τ → List β) (hstep : ∀ s t a, admits s a → Rel s t →
      Rel (step s a) (next t a) ∧ got (next t a) = got t ++ (obs s a).toList)
    {s : σ} {t : τ} {as : List α} (hr : Admitted admits step s as) (h : Rel s t) :
    Rel (exec step s as) (exec next t as) ∧
      got (exec next t as) = got t ++ observed obs step s as := by
  induction as generalizing s t with
  | nil => exact ⟨h, (List.append_nil _).symm⟩
  | cons a as ih =>
    obtain ⟨hrel, hgot⟩ := hstep s t a hr.1 h
    obtain ⟨hrel', hgot'⟩ := ih hr.2 hrel
    refine ⟨hrel', ?_⟩
    rw [exec_cons, hgot', hgot, observed_cons, List.append_assoc]

/-- A part of the state that only observations move is a machine driven by them. -/
theorem exec_observed (part : σ → ρ) {next : ρ → β → ρ}
    (h : ∀ s a, part (step s a) = exec next (part s) (obs s a).toList) (s : σ) (as : List α) :
    part (exec step s as) = exec next (part s) (observed obs step s as) := by
  induction as generalizing s with
  | nil => rfl
  | cons a as ih => rw [exec_cons, ih, h, observed, exec_append]

/-- At every point of the observations there is a point of the run. -/
theorem exists_prefix_observed {s : σ} {as : List α} {shown : List β}
    (h : shown <+: observed obs step s as) :
    ∃ before, before <+: as ∧ observed obs step s before = shown := by
  induction as generalizing s shown with
  | nil => exact ⟨[], List.nil_prefix, (List.prefix_nil.mp h).symm⟩
  | cons a as ih =>
    by_cases hnil : shown = []
    · exact ⟨[], List.nil_prefix, hnil.symm⟩
    · cases ha : obs s a with
      | none =>
        rw [observed, ha] at h
        obtain ⟨before, hinitial, hshown⟩ := ih h
        refine ⟨a :: before, (List.prefix_cons_inj a).mpr hinitial, ?_⟩
        rw [observed, ha, hshown]
        rfl
      | some b =>
        rw [observed, ha] at h
        obtain ⟨c, rest, rfl⟩ := List.exists_cons_of_ne_nil hnil
        obtain ⟨hc, hrest⟩ := List.cons_prefix_cons.mp h
        obtain ⟨before, hinitial, hshown⟩ := ih hrest
        refine ⟨a :: before, (List.prefix_cons_inj a).mpr hinitial, ?_⟩
        rw [observed, ha, hshown, hc]
        rfl

end Observed

/-! ## Schedules -/

/-- The state before the `n`-th input of a schedule. -/
def stateAt (step : σ → α → σ) (s : σ) (sched : Nat → α) : Nat → σ
  | 0 => s
  | n + 1 => step (stateAt step s sched n) (sched n)

theorem stateAt_invariant {step : σ → α → σ} {s : σ} {sched : Nat → α} {Inv : σ → Prop}
    (h0 : Inv s)
    (hstep : ∀ n, Inv (stateAt step s sched n) → Inv (stateAt step s sched (n + 1))) (n : Nat) :
    Inv (stateAt step s sched n) := by
  induction n with
  | zero => exact h0
  | succ n ih => exact hstep n ih

/-- If from every moment on the goal is met or the measure is strictly smaller at some later
moment, the goal is met. -/
theorem exists_of_progress (μ : Nat → Nat) {Goal : Nat → Prop}
    (hprog : ∀ n, Goal n ∨ ∃ m, n ≤ m ∧ μ m < μ n) (n : Nat) : ∃ m, n ≤ m ∧ Goal m := by
  generalize hk : μ n = k
  induction k using Nat.strongRecOn generalizing n with
  | ind k ih =>
    rcases hprog n with hg | ⟨m, hnm, hlt⟩
    · exact ⟨n, Nat.le_refl _, hg⟩
    · obtain ⟨m', hmm', hg⟩ := ih (μ m) (by omega) m rfl
      exact ⟨m', Nat.le_trans hnm hmm', hg⟩

section Fairness

variable {γ : Type} (ctl : Nat → γ) (μ : Nat → Nat) (Moves : Nat → Prop)

/-- Steps that do not lower the measure keep it and keep what decides the moves. -/
theorem lt_or_kept (hstep : ∀ n, μ (n + 1) < μ n ∨
      (¬ Moves n ∧ ctl (n + 1) = ctl n ∧ μ (n + 1) = μ n)) {n k : Nat} (h : n ≤ k) :
    μ k < μ n ∨ (ctl k = ctl n ∧ μ k = μ n) := by
  induction h with
  | refl => exact Or.inr ⟨rfl, rfl⟩
  | @step k _ ih =>
    rw [Nat.succ_eq_add_one]
    rcases hstep k with hlt | ⟨_, hctl, hμ⟩
    · left
      rcases ih with h | ⟨_, h⟩ <;> omega
    · rcases ih with h | ⟨hc, h⟩
      · left
        omega
      · exact Or.inr ⟨hctl.trans hc, hμ.trans h⟩

/-- Every step lowers the measure or leaves things as they are, and short of the goal some later
step would lower it if nothing had changed until then: so the goal is met. -/
theorem exists_of_fair (Goal : Nat → Prop)
    (hstep : ∀ n, μ (n + 1) < μ n ∨ (¬ Moves n ∧ ctl (n + 1) = ctl n ∧ μ (n + 1) = μ n))
    (hfair : ∀ n, ¬ Goal n → ∃ k, n ≤ k ∧ (ctl k = ctl n → Moves k)) (n : Nat) :
    ∃ m, n ≤ m ∧ Goal m := by
  refine exists_of_progress μ (fun n => ?_) n
  by_cases hg : Goal n
  · exact Or.inl hg
  · obtain ⟨k, hnk, hmove⟩ := hfair n hg
    right
    rcases lt_or_kept ctl μ Moves hstep hnk with hlt | ⟨hctl, hμ⟩
    · exact ⟨k, hnk, hlt⟩
    · rcases hstep k with hlt | ⟨hno, _⟩
      · exact ⟨k + 1, by omega, by omega⟩
      · exact absurd (hmove hctl) hno

end Fairness

/-- A state that no later input changes is the state from then on. -/
theorem stateAt_of_stable {step : σ → α → σ} {s : σ} {sched : Nat → α} {n : Nat}
    (h : ∀ k, n ≤ k → step (stateAt step s sched n) (sched k) = stateAt step s sched n) {k : Nat}
    (hk : n ≤ k) : stateAt step s sched k = stateAt step s sched n := by
  induction hk with
  | refl => rfl
  | @step k hnk ih =>
    rw [stateAt, ih]
    exact h k hnk

end EspCars.Lib
