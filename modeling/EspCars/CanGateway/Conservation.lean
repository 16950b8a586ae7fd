import EspCars.CanGateway.Port
import Mathlib

/-!
# Slot conservation

`Ledger` says who owns which slot: what is marked used is tracked or held by an `inject` call, and
nothing is owned twice. Its rules are one for each thing that happens to a slot. `Sound` adds what
the tracker has to do with the driver: the tracked slots are the orphans of past bus-offs followed
by what the driver holds, and whenever the reclaim section is due to run in bus-off its head is an
orphan.
-/

namespace EspCars.CanGateway

open EspCars.Lib Driver

variable {cfg : PortConfig} {τ : Type}

/-- The call has claimed the slot and not yet handed it off or given it back. -/
def InjectPc.Holds : InjectPc → Nat → Prop
  | .claimed index, i => index = i
  | .refused index, i => index = i
  | _, _ => False

theorem holds_claimed (i j : Nat) : (InjectPc.claimed i).Holds j ↔ i = j := Iff.rfl

theorem holds_idle (j : Nat) : InjectPc.idle.Holds j ↔ False := Iff.rfl

namespace Port

/-- The slot is marked used in its pool. -/
def isUsed (p : Port cfg τ) : SlotRef → Bool
  | .forward i => p.pool.isUsed i
  | .inject i => p.injectPool.isUsed i

/-- Who owns the slots, when `tracked` are the tracked ones. -/
structure Ledger (p : Port cfg τ) (tracked : List SlotRef) : Prop where
  nodup : tracked.Nodup
  forward : ∀ i, p.pool.isUsed i = true ↔ .forward i ∈ tracked
  inject : ∀ i, p.injectPool.isUsed i = true ↔
    .inject i ∈ tracked ∨ ∃ t, (p.injectPc t).Holds i
  holder : ∀ t i, (p.injectPc t).Holds i → .inject i ∉ tracked
  oneHolder : ∀ t t' i, (p.injectPc t).Holds i → (p.injectPc t').Holds i → t = t'
  once : p.freedTwice = 0

section Ledger

variable {p q : Port cfg τ} {tracked rest : List SlotRef} {slot : SlotRef}

theorem Ledger.congr (h : Ledger p tracked) (hpool : q.pool = p.pool)
    (hinject : q.injectPool = p.injectPool) (hpc : q.injectPc = p.injectPc)
    (honce : q.freedTwice = p.freedTwice) : Ledger q tracked := by
  constructor
  · exact h.nodup
  · rw [hpool]
    exact h.forward
  · rw [hinject, hpc]
    exact h.inject
  · rw [hpc]
    exact h.holder
  · rw [hpc]
    exact h.oneHolder
  · rw [honce]
    exact h.once

theorem Ledger.used (h : Ledger p tracked) (hs : slot ∈ tracked) : p.isUsed slot = true := by
  cases slot with
  | forward i => exact (h.forward i).mpr hs
  | inject i => exact (h.inject i).mpr (Or.inl hs)

/-- The oldest tracked slot is released. -/
theorem Ledger.release (h : Ledger p (slot :: rest)) : Ledger (p.releaseSlot slot) rest := by
  obtain ⟨hnot, hrest⟩ := List.nodup_cons.mp h.nodup
  have hused := h.used (List.mem_cons_self ..)
  cases slot with
  | forward i =>
    have hi : p.pool.isUsed i = true := hused
    refine ⟨hrest, fun j => ?_, fun j => ?_, fun t j ht hj => ?_, h.oneHolder, ?_⟩
    · simp only [releaseSlot, SlotPool.isUsed_release, Bool.and_eq_true, Bool.not_eq_true',
        decide_eq_false_iff_not, h.forward, List.mem_cons, SlotRef.forward.injEq]
      constructor
      · rintro ⟨hne, hji | hj⟩
        · exact absurd hji hne
        · exact hj
      · intro hj
        exact ⟨fun hji => hnot (hji ▸ hj), Or.inr hj⟩
    · have hj := h.inject j
      simp only [List.mem_cons, reduceCtorEq, false_or] at hj
      exact hj
    · exact h.holder t j ht (List.mem_cons_of_mem _ hj)
    · simp only [releaseSlot, hi, if_true, h.once]
  | inject i =>
    have hi : p.injectPool.isUsed i = true := hused
    refine ⟨hrest, fun j => ?_, fun j => ?_, fun t j ht hj => ?_, h.oneHolder, ?_⟩
    · have hj := h.forward j
      simp only [List.mem_cons, reduceCtorEq, false_or] at hj
      exact hj
    · simp only [releaseSlot, SlotPool.isUsed_release, Bool.and_eq_true, Bool.not_eq_true',
        decide_eq_false_iff_not, h.inject, List.mem_cons, SlotRef.inject.injEq]
      constructor
      · rintro ⟨hne, (hji | hj) | hj⟩
        · exact absurd hji hne
        · exact Or.inl hj
        · exact Or.inr hj
      · rintro (hj | ⟨t, ht⟩)
        · exact ⟨fun hji => hnot (hji ▸ hj), Or.inl (Or.inr hj)⟩
        · refine ⟨fun hji => ?_, Or.inr ⟨t, ht⟩⟩
          subst hji
          exact h.holder t j ht (List.mem_cons_self ..)
    · exact h.holder t j ht (List.mem_cons_of_mem _ hj)
    · simp only [releaseSlot, hi, if_true, h.once]

theorem Ledger.reclaim {older : List SlotRef} (h : Ledger p (older ++ rest)) :
    Ledger (older.foldl reclaimOrphan p) rest := by
  induction older generalizing p with
  | nil => exact h
  | cons slot older ih =>
    rw [List.foldl_cons]
    exact ih (h.release.congr rfl rfl rfl rfl)

/-- A slot of the route's pool is claimed and handed off. -/
theorem Ledger.claimForward {i : Nat} (h : Ledger p tracked) (hi : i < cfg.txSlots)
    (hfree : p.pool.isUsed i = false) :
    Ledger { p with pool := p.pool.claim i } (tracked ++ [.forward i]) := by
  have hnot : .forward i ∉ tracked := by
    intro hmem
    rw [(h.forward i).mpr hmem] at hfree
    cases hfree
  refine ⟨?_, fun j => ?_, fun j => ?_, fun t j ht hj => ?_, h.oneHolder, h.once⟩
  · apply List.Nodup.append h.nodup (List.nodup_singleton _)
    intro s hs hs'
    rw [List.mem_singleton.mp hs'] at hs
    exact hnot hs
  · simp only [SlotPool.isUsed_claim _ hi, Bool.or_eq_true, decide_eq_true_eq, h.forward,
      List.mem_append, List.mem_singleton, SlotRef.forward.injEq]
    exact or_comm
  · simpa only [List.mem_append, List.mem_singleton, reduceCtorEq, or_false] using h.inject j
  · simp only [List.mem_append, List.mem_singleton, reduceCtorEq, or_false] at hj
    exact h.holder t j ht hj

theorem Ledger.perm {tracked' : List SlotRef} (h : Ledger p tracked)
    (hp : tracked.Perm tracked') : Ledger p tracked' where
  nodup := hp.nodup_iff.mp h.nodup
  forward i := (h.forward i).trans hp.mem_iff
  inject i := by rw [h.inject, hp.mem_iff]
  holder t i ht hi := h.holder t i ht (hp.mem_iff.mpr hi)
  oneHolder := h.oneHolder
  once := h.once

/-- A claimed slot that is not handed off goes back unseen. -/
theorem Ledger.forwardRefused {i : Nat} (h : Ledger p tracked) (hi : i < cfg.txSlots)
    (hfree : p.pool.isUsed i = false) :
    Ledger ({ p with pool := p.pool.claim i }.releaseSlot (.forward i)) tracked :=
  ((h.claimForward hi hfree).perm (List.perm_append_singleton _ _)).release

variable [DecidableEq τ] {t : τ}

omit [DecidableEq τ] in
theorem holds_update [DecidableEq τ] (pcs : τ → InjectPc) (t t' : τ) (pc : InjectPc) (i : Nat) :
    (Function.update pcs t pc t').Holds i ↔
      (t' = t ∧ pc.Holds i) ∨ (t' ≠ t ∧ (pcs t').Holds i) := by
  rw [Function.update_apply]
  split_ifs with h
  · simp [h]
  · simp [h]

/-- A call moves on without a slot, or with the one it holds. -/
theorem Ledger.moved {pc : InjectPc} (h : Ledger p tracked)
    (hsame : ∀ i, pc.Holds i ↔ (p.injectPc t).Holds i) :
    Ledger { p with injectPc := Function.update p.injectPc t pc } tracked := by
  have hholds : ∀ t' i, (Function.update p.injectPc t pc t').Holds i ↔ (p.injectPc t').Holds i := by
    intro t' i
    rw [holds_update]
    by_cases ht : t' = t
    · subst ht
      simp [hsame]
    · simp [ht]
  refine ⟨h.nodup, h.forward, fun i => ?_, fun t' i ht hi => ?_, fun t' t'' i ht ht' => ?_, h.once⟩
  · simp only [hholds]
    exact h.inject i
  · exact h.holder t' i ((hholds t' i).mp ht) hi
  · exact h.oneHolder t' t'' i ((hholds t' i).mp ht) ((hholds t'' i).mp ht')

theorem Ledger.claimInject {i : Nat} (h : Ledger p tracked) (hi : i < cfg.injectSlots)
    (hfree : p.injectPool.isUsed i = false) (hpc : ∀ j, ¬ (p.injectPc t).Holds j) :
    Ledger { p with
      injectPool := p.injectPool.claim i
      injectPc := Function.update p.injectPc t (.claimed i) } tracked := by
  have hfree' : .inject i ∉ tracked ∧ ∀ t', ¬ (p.injectPc t').Holds i := by
    constructor
    · intro hmem
      rw [(h.inject i).mpr (Or.inl hmem)] at hfree
      cases hfree
    · intro t' ht
      rw [(h.inject i).mpr (Or.inr ⟨t', ht⟩)] at hfree
      cases hfree
  refine ⟨h.nodup, h.forward, fun j => ?_, fun t' j ht hj => ?_, fun t' t'' j ht ht' => ?_, h.once⟩
  · simp only [SlotPool.isUsed_claim _ hi, Bool.or_eq_true, decide_eq_true_eq, h.inject,
      holds_update, holds_claimed]
    constructor
    · rintro (rfl | hj | ⟨t', ht⟩)
      · exact Or.inr ⟨t, Or.inl ⟨rfl, rfl⟩⟩
      · exact Or.inl hj
      · refine Or.inr ⟨t', Or.inr ⟨?_, ht⟩⟩
        rintro rfl
        exact hpc j ht
    · rintro (hj | ⟨t', ⟨_, rfl⟩ | ⟨_, ht⟩⟩)
      · exact Or.inr (Or.inl hj)
      · exact Or.inl rfl
      · exact Or.inr (Or.inr ⟨t', ht⟩)
  · rcases (holds_update _ _ _ _ _).mp ht with ⟨_, rfl⟩ | ⟨_, ht⟩
    · exact hfree'.1 hj
    · exact h.holder t' j ht hj
  · rcases (holds_update _ _ _ _ _).mp ht with ⟨h1, hj⟩ | ⟨_, hheld⟩ <;>
      rcases (holds_update _ _ _ _ _).mp ht' with ⟨h2, hj'⟩ | ⟨_, hheld'⟩
    · rw [h1, h2]
    · cases hj
      exact absurd hheld' (hfree'.2 _)
    · cases hj'
      exact absurd hheld (hfree'.2 _)
    · exact h.oneHolder _ _ _ hheld hheld'

/-- The slot a call holds becomes a tracked one. -/
theorem Ledger.handOffInject {i : Nat} (h : Ledger p tracked)
    (hpc : p.injectPc t = .claimed i) :
    Ledger { p with injectPc := Function.update p.injectPc t .idle }
      (tracked ++ [.inject i]) := by
  have hheld : (p.injectPc t).Holds i := by
    rw [hpc]
    rfl
  have hnot := h.holder t i hheld
  refine ⟨?_, fun j => ?_, fun j => ?_, fun t' j ht hj => ?_, fun t' t'' j ht ht' => ?_, h.once⟩
  · apply List.Nodup.append h.nodup (List.nodup_singleton _)
    intro s hs hs'
    rw [List.mem_singleton.mp hs'] at hs
    exact hnot hs
  · have hj := h.forward j
    simp only [List.mem_append, List.mem_singleton, reduceCtorEq, or_false]
    exact hj
  · simp only [h.inject, List.mem_append, List.mem_singleton, SlotRef.inject.injEq, holds_update,
      holds_idle, and_false, false_or]
    constructor
    · rintro (hj | ⟨t', ht⟩)
      · exact Or.inl (Or.inl hj)
      · by_cases htt : t' = t
        · subst htt
          rw [hpc] at ht
          exact Or.inl (Or.inr ht.symm)
        · exact Or.inr ⟨t', htt, ht⟩
    · rintro ((hj | rfl) | ⟨t', _, ht⟩)
      · exact Or.inl hj
      · exact Or.inr ⟨t, hheld⟩
      · exact Or.inr ⟨t', ht⟩
  · rcases (holds_update _ _ _ _ _).mp ht with ⟨_, hf⟩ | ⟨hne, ht⟩
    · exact hf
    · rcases List.mem_append.mp hj with hj | hj
      · exact h.holder t' j ht hj
      · cases List.mem_singleton.mp hj
        exact hne (h.oneHolder t' t i ht hheld)
  · rcases (holds_update _ _ _ _ _).mp ht with ⟨_, hf⟩ | ⟨_, ht⟩
    · exact hf.elim
    · rcases (holds_update _ _ _ _ _).mp ht' with ⟨_, hf⟩ | ⟨_, ht'⟩
      · exact hf.elim
      · exact h.oneHolder _ _ _ ht ht'

/-- A call gives back the slot that was refused. -/
theorem Ledger.injectRefused {i : Nat} (h : Ledger p tracked) (hpc : p.injectPc t = .refused i) :
    Ledger { p.releaseSlot (.inject i) with injectPc := Function.update p.injectPc t .idle }
      tracked := by
  -- as if the slot were tracked for a moment and released from there
  have hclaimed : Ledger { p with injectPc := Function.update p.injectPc t (.claimed i) } tracked := by
    apply h.moved
    intro j
    rw [hpc]
    rfl
  have hoff := hclaimed.handOffInject (t := t) (i := i) (Function.update_self ..)
  rw [Function.update_idem] at hoff
  exact (hoff.perm (List.perm_append_singleton _ _)).release.congr rfl rfl rfl rfl

end Ledger

/-! ## The tracker and the driver -/

/-- Slots within the two pools, none twice, fit into the tracker. -/
theorem Ledger.length_le {p : Port cfg τ} {tracked : List SlotRef} (h : Ledger p tracked) :
    tracked.length ≤ cfg.txSlots + cfg.injectSlots := by
  let number : SlotRef → Nat
    | .forward i => i
    | .inject i => cfg.txSlots + i
  have hbound : ∀ slot ∈ tracked, number slot < cfg.txSlots + cfg.injectSlots := by
    intro slot hslot
    have hused := h.used hslot
    cases slot with
    | forward i =>
      have hi := SlotPool.lt_of_isUsed p.pool hused
      simp only [number]
      omega
    | inject i =>
      have hi := SlotPool.lt_of_isUsed p.injectPool hused
      simp only [number]
      omega
  have hinj : ∀ a ∈ tracked, ∀ b ∈ tracked, number a = number b → a = b := by
    intro a ha b hb hab
    have hua := h.used ha
    have hub := h.used hb
    cases a with
    | forward i =>
      have hi := SlotPool.lt_of_isUsed p.pool hua
      cases b with
      | forward j => exact congrArg _ hab
      | inject j =>
        simp only [number] at hab
        omega
    | inject i =>
      cases b with
      | forward j =>
        have hj := SlotPool.lt_of_isUsed p.pool hub
        simp only [number] at hab
        omega
      | inject j =>
        simp only [number] at hab
        exact congrArg _ (by omega)
  have hnodup : (tracked.map number).Nodup :=
    h.nodup.map_on hinj
  have hsub : tracked.map number ⊆ List.range (cfg.txSlots + cfg.injectSlots) := by
    intro k hk
    obtain ⟨slot, hslot, rfl⟩ := List.mem_map.mp hk
    exact List.mem_range.mpr (hbound slot hslot)
  have hlen := (hnodup.subperm hsub).length_le
  rwa [List.length_map, List.length_range] at hlen

/-- The reclaim section is next and will find the port in bus-off. -/
def reclaimDue (p : Port cfg τ) : Bool :=
  match p.loopPc with
  | .sampled .busOff _ => p.state = .busOff && !p.supervisor.busOffHeadReclaimed
  | _ => false

/-- The port between two events. `orphans` are the tracked slots of halted frames. -/
structure Sound (p : Port cfg τ) (orphans : List SlotRef) : Prop where
  ledger : Ledger p p.outstanding.toList
  fifo : p.outstanding.toList = orphans ++ p.driver.held
  halted : p.state = .busOff → p.driver.mounted = none
  busy : p.state ≠ .busOff → p.driver.mounted = none → p.driver.queue = []
  sampled : ∀ state now, p.loopPc = .sampled state now → p.supervisor.lastLoopState = state
  armed : p.supervisor.lastLoopState ≠ .busOff ∨ p.supervisor.busOffHeadReclaimed = false →
    p.state = .busOff → orphans = [] → p.driver.held = []

section Steps

variable {p : Port cfg τ} {orphans : List SlotRef}

theorem Driver.held_submit {d : Driver} (h : d.mounted = none → d.queue = []) (slot : SlotRef) :
    (d.submit slot).held = d.held ++ [slot] := by
  cases hm : d.mounted with
  | none => simp [submit, held, hm, h hm]
  | some mounted => simp [submit, held, hm]

theorem Driver.held_mountNext (d : Driver) : d.mountNext.held = d.queue := by
  cases h : d.queue with
  | nil => simp [mountNext, held, h]
  | cons slot rest => simp [mountNext, held, h]

/-- Nothing that decides `Sound` changes but the ledger. -/
theorem Sound.congr {q : Port cfg τ} (h : Sound p orphans)
    (hledger : Ledger q q.outstanding.toList) (houtstanding : q.outstanding = p.outstanding)
    (hdriver : q.driver = p.driver) (hstate : q.state = p.state)
    (hsupervisor : q.supervisor = p.supervisor) (hpc : q.loopPc = p.loopPc) :
    Sound q orphans := by
  refine ⟨hledger, ?_, ?_, ?_, ?_, ?_⟩
  · rw [houtstanding, hdriver]
    exact h.fifo
  · rw [hstate, hdriver]
    exact h.halted
  · rw [hstate, hdriver]
    exact h.busy
  · rw [hpc, hsupervisor]
    exact h.sampled
  · rw [hsupervisor, hstate, hdriver]
    exact h.armed

/-- A slot that the ledger counts as tracked is handed off. -/
theorem Sound.handOff {q : Port cfg τ} {slot : SlotRef} (h : Sound p orphans)
    (hledger : Ledger q (p.outstanding.toList ++ [slot]))
    (houtstanding : q.outstanding = p.outstanding.push slot)
    (hdriver : q.driver = p.driver.submit slot) (hstate : q.state = p.state)
    (hsupervisor : q.supervisor = p.supervisor) (hpc : q.loopPc = p.loopPc)
    (halive : p.state ≠ .busOff) : Sound q orphans := by
  have hlen := hledger.length_le
  rw [List.length_append, List.length_singleton] at hlen
  have hpush : q.outstanding.toList = p.outstanding.toList ++ [slot] := by
    rw [houtstanding]
    exact OutstandingTracker.toList_push _ _ (by omega)
  have hheld := Driver.held_submit (h.busy halive) slot
  refine ⟨?_, ?_, ?_, ?_, ?_, ?_⟩
  · rw [hpush]
    exact hledger
  · rw [hpush, hdriver, hheld, h.fifo, List.append_assoc]
  · intro hb
    exact absurd (hstate ▸ hb) halive
  · intro _ hm
    rw [hdriver] at hm
    unfold submit at hm
    split at hm
    · cases hm
    · rename_i mounted heq
      rw [heq] at hm
      cases hm
  · rw [hpc, hsupervisor]
    exact h.sampled
  · intro _ hb
    exact absurd (hstate ▸ hb) halive

theorem Sound.handleRxIsr (h : Sound p orphans) (enabled : Bool) (received : Option CanFrame)
    (transmitOk : Bool) : Sound (p.handleRxIsr enabled received transmitOk) orphans := by
  unfold Port.handleRxIsr
  split_ifs with he hb
  · exact h.congr (h.ledger.congr rfl rfl rfl rfl) rfl rfl rfl rfl rfl
  · exact h.congr (h.ledger.congr rfl rfl rfl rfl) rfl rfl rfl rfl rfl
  · rcases p.pool.acquire_cases with ⟨i, hi, hfree, hacq⟩ | ⟨_, hacq⟩
    · have hrefused := h.ledger.forwardRefused hi hfree
      rw [hacq]
      dsimp only
      cases received with
      | none => exact h.congr hrefused rfl rfl rfl rfl rfl
      | some frame =>
        dsimp only
        split
        · exact h.congr (hrefused.congr rfl rfl rfl rfl) rfl rfl rfl rfl rfl
        · split_ifs with hok
          · exact h.handOff ((h.ledger.claimForward hi hfree).congr rfl rfl rfl rfl) rfl rfl rfl
              rfl rfl hb
          · exact h.congr (hrefused.congr rfl rfl rfl rfl) rfl rfl rfl rfl rfl
    · rw [hacq]
      exact h.congr (h.ledger.congr rfl rfl rfl rfl) rfl rfl rfl rfl rfl

theorem Sound.handleStateChangeIsr (h : Sound p orphans) (new : NodeState) :
    Sound (p.handleStateChangeIsr new)
      (if p.state ≠ .busOff ∧ new = .busOff then orphans ++ p.driver.mounted.toList
        else orphans) := by
  unfold Port.handleStateChangeIsr changeState
  split_ifs with henter hleave
  · obtain ⟨halive, rfl⟩ := henter
    refine ⟨h.ledger.congr rfl rfl rfl rfl, ?_, fun _ => rfl, fun hn => absurd rfl hn, h.sampled, ?_⟩
    · dsimp only
      rw [h.fifo, List.append_assoc]
      rfl
    · -- the driver was either busy, and its frame is an orphan now, or empty
      intro _ _ hnil
      obtain ⟨_, hm⟩ := List.append_eq_nil_iff.mp hnil
      have hm' : p.driver.mounted = none := by simpa using hm
      simp [held, h.busy halive hm']
  · obtain ⟨hoff, hnew⟩ := hleave
    have hheld : p.driver.mountNext.held = p.driver.held := by
      rw [Driver.held_mountNext]
      simp [held, h.halted hoff]
    refine ⟨h.ledger.congr rfl rfl rfl rfl, ?_, fun hb => absurd hb hnew, ?_, h.sampled,
      fun _ hb => absurd hb hnew⟩
    · dsimp only
      rw [hheld]
      exact h.fifo
    · intro _ hm
      have hq : p.driver.queue = [] := by simpa [mountNext] using hm
      simp [mountNext, hq]
  · have hsame : new = .busOff ↔ p.state = .busOff := by
      constructor
      · intro hn
        by_contra hs
        exact henter ⟨hs, hn⟩
      · intro hs
        by_contra hn
        exact hleave ⟨hs, hn⟩
    exact ⟨h.ledger.congr rfl rfl rfl rfl, h.fifo, fun hb => h.halted (hsame.mp hb),
      fun hb => h.busy fun hs => hb (hsame.mpr hs), h.sampled,
      fun harm hb => h.armed harm (hsame.mp hb)⟩

theorem Sound.handleTxDoneIsr (h : Sound p orphans) (success : Bool) :
    Sound (p.handleTxDoneIsr success) (if p.driver.mounted.isSome then [] else orphans) := by
  cases hm : p.driver.mounted with
  | none =>
    unfold Port.handleTxDoneIsr
    rw [hm]
    exact h
  | some slot =>
    have halive : p.state ≠ .busOff := by
      intro hb
      rw [h.halted hb] at hm
      cases hm
    have hlist : p.outstanding.toList = orphans ++ slot :: p.driver.queue := by
      rw [h.fifo, held, hm]
      rfl
    have hnodup := h.ledger.nodup
    rw [hlist] at hnodup
    have hnot : slot ∉ orphans := fun hmem =>
      (List.nodup_append.mp hnodup).2.2 slot hmem slot (List.mem_cons_self ..) rfl
    obtain ⟨holder, hnewer⟩ := OutstandingTracker.complete_eq p.outstanding hlist hnot
    generalize hcomplete : p.outstanding.complete slot = completed at holder hnewer
    obtain ⟨older, outstanding⟩ := completed
    dsimp only at holder hnewer
    subst holder
    -- the counters aside, the port when the orphans are reclaimed
    generalize hq : ({ (if success then { p with driver := p.driver.mountNext }
      else { p with
        driver := p.driver.mountNext
        counters := { p.counters with txFail := p.counters.txFail + 1 } }) with
      outstanding := outstanding } : Port cfg τ) = q
    have hsame : q.outstanding = outstanding ∧ q.driver = p.driver.mountNext ∧
        q.state = p.state ∧ q.supervisor = p.supervisor ∧ q.loopPc = p.loopPc := by
      subst hq
      cases success <;> exact ⟨rfl, rfl, rfl, rfl, rfl⟩
    have hledger : Ledger q (older ++ slot :: p.driver.queue) := by
      rw [← hlist]
      subst hq
      cases success <;> exact h.ledger.congr rfl rfl rfl rfl
    have hsize : outstanding.size ≠ p.outstanding.size := by
      rw [OutstandingTracker.size_eq, OutstandingTracker.size_eq, hnewer, hlist,
        List.length_append, List.length_cons]
      omega
    have hstep : Port.handleTxDoneIsr p success =
        (older.foldl reclaimOrphan q).releaseSlot slot := by
      unfold Port.handleTxDoneIsr
      rw [hm]
      subst hq
      cases success <;> simp only [Bool.false_eq_true, if_true, if_false, hcomplete] <;>
        exact if_pos hsize
    have hreclaim := SameLinks.reclaim q older
    have hrelease := SameLinks.release (older.foldl reclaimOrphan q) slot
    have houtstanding := hrelease.outstanding.trans (hreclaim.outstanding.trans hsame.1)
    have hdriver := hrelease.driver.trans (hreclaim.driver.trans hsame.2.1)
    have hstate := hrelease.state.trans (hreclaim.state.trans hsame.2.2.1)
    have hsupervisor := hrelease.supervisor.trans (hreclaim.supervisor.trans hsame.2.2.2.1)
    have hpc := hrelease.loopPc.trans (hreclaim.loopPc.trans hsame.2.2.2.2)
    rw [hstep]
    refine ⟨?_, ?_, ?_, ?_, ?_, ?_⟩
    · rw [houtstanding, hnewer]
      exact hledger.reclaim.release
    · rw [houtstanding, hnewer, hdriver, Driver.held_mountNext]
      rfl
    · intro hb
      exact absurd (hstate ▸ hb) halive
    · intro _ hnone
      rw [hdriver] at hnone ⊢
      have hq' : p.driver.queue = [] := by simpa [mountNext] using hnone
      simp [mountNext, hq']
    · rw [hpc, hsupervisor]
      exact h.sampled
    · intro _ hb
      exact absurd (hstate ▸ hb) halive

theorem Sound.injectStep [DecidableEq τ] (h : Sound p orphans) (task : τ) (transmitOk : Bool) :
    Sound (p.injectStep task transmitOk) orphans := by
  have hmoved : ∀ pc : InjectPc, (∀ i, pc.Holds i ↔ (p.injectPc task).Holds i) →
      Sound { p with injectPc := Function.update p.injectPc task pc } orphans := fun pc hsame =>
    h.congr (h.ledger.moved hsame) rfl rfl rfl rfl rfl
  unfold Port.injectStep
  cases hpc : p.injectPc task with
  | idle =>
    dsimp only
    split_ifs with hout
    · exact h
    · exact hmoved _ fun i => by rw [hpc]; rfl
  | scanning index =>
    dsimp only
    split_ifs with hindex hused
    · exact hmoved _ fun i => by rw [hpc]; rfl
    · refine h.congr (h.ledger.claimInject hindex (by simpa using hused) ?_) rfl rfl rfl rfl rfl
      intro j hj
      rw [hpc] at hj
      exact hj
    · exact hmoved _ fun i => by rw [hpc]; rfl
  | claimed index =>
    dsimp only
    split_ifs with hok
    · exact h.handOff ((h.ledger.handOffInject hpc).congr rfl rfl rfl rfl) rfl rfl rfl rfl rfl hok.1
    · exact hmoved _ fun i => by rw [hpc]; rfl
  | refused index =>
    exact h.congr (h.ledger.injectRefused hpc) rfl rfl rfl rfl rfl

theorem lastLoopState_edge (v : Supervisor) (state : NodeState) (nowMs : UInt32) :
    (v.edge state nowMs).lastLoopState = state := by
  simp only [Supervisor.edge]
  split_ifs with hne hb
  · rfl
  · rfl
  · rfl
  · exact (not_not.mp hne).symm

/-- Only the edge into bus-off arms the reclaim section. -/
theorem armed_edge (v : Supervisor) (state : NodeState) (nowMs : UInt32)
    (h : (v.edge state nowMs).busOffHeadReclaimed = false) :
    v.busOffHeadReclaimed = false ∨ (v.lastLoopState ≠ .busOff ∧ state = .busOff) := by
  simp only [Supervisor.edge] at h
  split_ifs at h with hne hb
  · right
    refine ⟨?_, hb⟩
    rw [← hb]
    exact Ne.symm hne
  · exact Or.inl h
  · exact Or.inl h
  · exact Or.inl h

/-- The reclaim section takes the oldest tracked slot, and that is an orphan. -/
theorem Sound.reclaimSection (h : Sound p orphans)
    (hlast : p.supervisor.lastLoopState = .busOff)
    (hflag : p.supervisor.busOffHeadReclaimed = false) :
    Sound p.reclaimSection (if p.state = .busOff then orphans.tail else orphans) := by
  have hdisarmed : ∀ v : Supervisor, v = { p.supervisor with busOffHeadReclaimed := true } →
      ¬ (v.lastLoopState ≠ .busOff ∨ v.busOffHeadReclaimed = false) := by
    rintro v rfl (hv | hv)
    · exact hv hlast
    · cases hv
  have hkept : Sound { p with
      supervisor := { p.supervisor with busOffHeadReclaimed := true } } orphans :=
    ⟨h.ledger.congr rfl rfl rfl rfl, h.fifo, h.halted, h.busy, h.sampled,
      fun hv => absurd hv (hdisarmed _ rfl)⟩
  by_cases hb : p.state = .busOff
  · rw [if_pos hb]
    obtain ⟨hhead, htail⟩ := OutstandingTracker.reclaimHead_eq p.outstanding
    generalize hr : p.outstanding.reclaimHead = reclaimed at hhead htail
    obtain ⟨slot, outstanding⟩ := reclaimed
    dsimp only at hhead htail
    cases horphans : orphans with
    | nil =>
      have hnone : slot = none := by
        rw [hhead, h.fifo, horphans, h.armed (Or.inr hflag) hb horphans]
        rfl
      subst hnone
      have hstep : p.reclaimSection =
          { p with supervisor := { p.supervisor with busOffHeadReclaimed := true } } := by
        simp only [Port.reclaimSection, hb, hr, if_true]
      rw [hstep, List.tail_nil, ← horphans]
      exact hkept
    | cons orphan rest =>
      have hlist : p.outstanding.toList = orphan :: (rest ++ p.driver.held) := by
        rw [h.fifo, horphans]
        rfl
      rw [hlist] at hhead htail
      subst hhead
      have hstep : p.reclaimSection =
          ({ p with
            supervisor := { p.supervisor with busOffHeadReclaimed := true }
            outstanding := outstanding } : Port cfg τ).reclaimOrphan orphan := by
        simp only [Port.reclaimSection, hb, hr, if_true, List.head?_cons]
      have hbefore : Ledger p (orphan :: (rest ++ p.driver.held)) := hlist ▸ h.ledger
      have hledger : Ledger ({ p with
          supervisor := { p.supervisor with busOffHeadReclaimed := true }
          outstanding := outstanding } : Port cfg τ) (orphan :: (rest ++ p.driver.held)) :=
        hbefore.congr rfl rfl rfl rfl
      have hsame := SameLinks.release ({ p with
        supervisor := { p.supervisor with busOffHeadReclaimed := true }
        outstanding := outstanding } : Port cfg τ) orphan
      rw [hstep, List.tail_cons]
      refine ⟨?_, ?_, ?_, ?_, ?_, ?_⟩
      · change Ledger _ (Port.releaseSlot _ orphan).outstanding.toList
        rw [hsame.outstanding, htail]
        exact hledger.release.congr rfl rfl rfl rfl
      · change (Port.releaseSlot _ orphan).outstanding.toList =
          rest ++ (Port.releaseSlot _ orphan).driver.held
        rw [hsame.outstanding, hsame.driver, htail]
        rfl
      · intro _
        exact (congrArg mounted hsame.driver).trans (h.halted hb)
      · intro hn
        exact absurd (hsame.state.trans hb) hn
      · intro state now hpc
        exact (congrArg Supervisor.lastLoopState hsame.supervisor).trans
          (h.sampled state now (hsame.loopPc ▸ hpc))
      · intro hv
        exact absurd hv (hdisarmed _ hsame.supervisor)
  · rw [if_neg hb]
    have hstep : p.reclaimSection =
        { p with supervisor := { p.supervisor with busOffHeadReclaimed := true } } := by
      simp only [Port.reclaimSection, hb, if_false]
    rw [hstep]
    exact hkept

/-- Between passes the loop may note anything that does not disturb its last sample. -/
theorem Sound.moveLoop {q : Port cfg τ} (h : Sound p orphans)
    (hledger : Ledger q q.outstanding.toList) (houtstanding : q.outstanding = p.outstanding)
    (hdriver : q.driver = p.driver) (hstate : q.state = p.state)
    (hlast : q.supervisor.lastLoopState = p.supervisor.lastLoopState)
    (hflag : q.supervisor.busOffHeadReclaimed = p.supervisor.busOffHeadReclaimed)
    (hpc : ∀ state now, q.loopPc ≠ .sampled state now) : Sound q orphans := by
  refine ⟨hledger, ?_, ?_, ?_, fun state now hs => absurd hs (hpc state now), ?_⟩
  · rw [houtstanding, hdriver]
    exact h.fifo
  · rw [hstate, hdriver]
    exact h.halted
  · rw [hstate, hdriver]
    exact h.busy
  · rw [hlast, hflag, hstate, hdriver]
    exact h.armed

/-- The orphans after an event. -/
def nextOrphans (p : Port cfg τ) (orphans : List SlotRef) : PortEvent τ → List SlotRef
  | .txDone _ => if p.driver.mounted.isSome then [] else orphans
  | .stateChange new =>
    if p.state ≠ .busOff ∧ new = .busOff then orphans ++ p.driver.mounted.toList else orphans
  | .loop _ => if p.reclaimDue then orphans.tail else orphans
  | _ => orphans

theorem Sound.loopStep (h : Sound p orphans) (nowMs : UInt32) :
    Sound (p.loopStep nowMs) (p.nextOrphans orphans (.loop nowMs)) := by
  unfold Port.loopStep nextOrphans
  cases hpc : p.loopPc with
  | idle =>
    have hdue : p.reclaimDue = false := by simp [reclaimDue, hpc]
    simp only [hdue, Bool.false_eq_true, if_false]
    refine ⟨h.ledger.congr rfl rfl rfl rfl, h.fifo, h.halted, h.busy, ?_, ?_⟩
    · rintro state now ⟨rfl, rfl⟩
      exact lastLoopState_edge _ _ _
    · intro hv hb hnil
      refine h.armed ?_ hb hnil
      rcases hv with hv | hv
      · exact absurd ((lastLoopState_edge _ _ _).trans hb) hv
      · rcases armed_edge _ _ _ hv with hflag | ⟨hlast, _⟩
        · exact Or.inr hflag
        · exact Or.inl hlast
  | sampled state now =>
    have hlast := h.sampled state now hpc
    dsimp only
    split_ifs with hrun hdue
    · obtain ⟨rfl, hflag⟩ := hrun
      have hb : p.state = .busOff := by
        simp only [reclaimDue, hpc, Bool.and_eq_true, decide_eq_true_eq] at hdue
        exact hdue.1
      have hsec := h.reclaimSection hlast (by simpa using hflag)
      rw [if_pos hb] at hsec
      exact hsec.moveLoop (hsec.ledger.congr rfl rfl rfl rfl) rfl rfl rfl rfl rfl
        (fun _ _ hs => by cases hs)
    · obtain ⟨rfl, hflag⟩ := hrun
      have hb : p.state ≠ .busOff := by
        intro hb
        simp only [reclaimDue, hpc, hb, hflag, decide_true, Bool.and_self,
          not_true_eq_false] at hdue
      have hsec := h.reclaimSection hlast (by simpa using hflag)
      rw [if_neg hb] at hsec
      exact hsec.moveLoop (hsec.ledger.congr rfl rfl rfl rfl) rfl rfl rfl rfl rfl
        (fun _ _ hs => by cases hs)
    · rename_i hdue
      refine absurd ?_ hrun
      simp only [reclaimDue, hpc] at hdue
      split at hdue
      · rename_i heq
        cases heq
        simp only [Bool.and_eq_true] at hdue
        exact ⟨rfl, hdue.2⟩
      · cases hdue
    · exact h.moveLoop (h.ledger.congr rfl rfl rfl rfl) rfl rfl rfl rfl rfl
        (fun _ _ hs => by cases hs)
  | reclaimed state now =>
    have hdue : p.reclaimDue = false := by simp [reclaimDue, hpc]
    simp only [hdue, Bool.false_eq_true, if_false]
    split_ifs with hb ha
    · split
      · exact h.moveLoop (h.ledger.congr rfl rfl rfl rfl) rfl rfl rfl rfl rfl
          (fun _ _ hs => by cases hs)
      · exact h.moveLoop (h.ledger.congr rfl rfl rfl rfl) rfl rfl rfl rfl rfl
          (fun _ _ hs => by cases hs)
    · exact h.moveLoop (h.ledger.congr rfl rfl rfl rfl) rfl rfl rfl rfl rfl
        (fun _ _ hs => by cases hs)
    · exact h.moveLoop (h.ledger.congr rfl rfl rfl rfl) rfl rfl rfl rfl rfl
        (fun _ _ hs => by cases hs)

/-- Every event. -/
theorem Sound.step [DecidableEq τ] (h : Sound p orphans) (e : PortEvent τ) :
    Sound (p.step e) (p.nextOrphans orphans e) := by
  cases e with
  | rx enabled received transmitOk => exact h.handleRxIsr enabled received transmitOk
  | txDone success => exact h.handleTxDoneIsr success
  | stateChange new => exact h.handleStateChangeIsr new
  | inject task transmitOk => exact h.injectStep task transmitOk
  | loop nowMs => exact h.loopStep nowMs

theorem Sound.start : Sound ({} : Port cfg τ) [] := by
  refine ⟨⟨List.nodup_nil, ?_, ?_, ?_, ?_, rfl⟩, rfl, ?_, ?_, ?_, ?_⟩
  · intro i
    simp
  · intro i
    simp [InjectPc.Holds]
  · intro t i ht
    exact ht.elim
  · intro t t' i ht
    exact ht.elim
  · intro _
    rfl
  · intro _ _
    rfl
  · intro state now hpc
    cases hpc
  · intro _ hb
    cases hb

theorem Sound.run [DecidableEq τ] (h : Sound p orphans) (events : List (PortEvent τ)) :
    ∃ orphans', Sound (exec Port.step p events) orphans' := by
  induction events generalizing p orphans with
  | nil => exact ⟨orphans, h⟩
  | cons e events ih => exact ih (h.step e)

end Steps

/-- In every run, between interrupts, exactly the tracked slots and those that `inject` calls in
progress hold are marked used, nothing is owned twice, the driver holds no free slot, and no free
slot has ever been released. -/
theorem slots_conserved [DecidableEq τ] (events : List (PortEvent τ)) :
    let p : Port cfg τ := exec step {} events
    (∀ i, p.pool.isUsed i = true ↔ .forward i ∈ p.outstanding.toList) ∧
    (∀ i, p.injectPool.isUsed i = true ↔
      .inject i ∈ p.outstanding.toList ∨ ∃ t, (p.injectPc t).Holds i) ∧
    (∀ t i, (p.injectPc t).Holds i → .inject i ∉ p.outstanding.toList) ∧
    (∀ t t' i, (p.injectPc t).Holds i → (p.injectPc t').Holds i → t = t') ∧
    p.outstanding.toList.Nodup ∧
    (∀ slot ∈ p.driver.held, p.isUsed slot = true) ∧
    p.freedTwice = 0 := by
  have hstart : Sound ({} : Port cfg τ) [] := Sound.start
  obtain ⟨orphans, h⟩ := hstart.run events
  refine ⟨h.ledger.forward, h.ledger.inject, h.ledger.holder, h.ledger.oneHolder, h.ledger.nodup,
    fun slot hslot => h.ledger.used ?_, h.ledger.once⟩
  rw [h.fifo]
  exact List.mem_append_right _ hslot

end Port

end EspCars.CanGateway
