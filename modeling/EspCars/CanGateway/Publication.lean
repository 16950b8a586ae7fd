import EspCars.CanGateway.Rules
import EspCars.Lib.Run
import Mathlib

/-!
# Publication of a patch, store by store

A `RulePatch` call is a list of single stores into the `PatchBanks`; the RX interrupt can read
between any two of them. `Writer` is the loop between two stores. What an interrupt must see is
said by `Ledger`, which knows nothing of banks: the published patch and the changes made since the
last commit.
-/

namespace EspCars.CanGateway

open EspCars.Lib RulePatch

/-! ## The stores of a call -/

/-- A call of the patch API of a rule. -/
inductive PatchCall
  | setByte (index value : UInt8)
  | setSignal (startBit bitLen : UInt8) (bigEndian : Bool) (raw : UInt32) (enabled : Bool)
  | setCanId (canId : UInt32)
  | commit
  deriving DecidableEq

/-- One store. The first five copy a field of the active bank into the other one; the last three
compute what they store from the bank they store into. -/
inductive Store
  | copyNewCanId
  | copyReplaceId
  | copyNewExtended
  | copyAndMask (i : Fin maxFrameDataLen)
  | copyOrValue (i : Fin maxFrameDataLen)
  | staging (value : Bool)
  | active
  | newCanId (value : PatchData → UInt32)
  | andMask (i : Fin maxFrameDataLen) (value : PatchData → UInt8)
  | orValue (i : Fin maxFrameDataLen) (value : PatchData → UInt8)

namespace Store

/-- What a store does to the staged bank `p` while `a` is the active one. -/
def write (a p : PatchData) : Store → PatchData
  | .copyNewCanId => { p with newCanId := a.newCanId }
  | .copyReplaceId => { p with replaceId := a.replaceId }
  | .copyNewExtended => { p with newExtended := a.newExtended }
  | .copyAndMask i => { p with andMask := p.andMask.set i (a.andMask.get i) i.isLt }
  | .copyOrValue i => { p with orValue := p.orValue.set i (a.orValue.get i) i.isLt }
  | .staging _ => p
  | .active => p
  | .newCanId value => { p with newCanId := value p }
  | .andMask i value => { p with andMask := p.andMask.set i (value p) i.isLt }
  | .orValue i value => { p with orValue := p.orValue.set i (value p) i.isLt }

/-- The store is done. -/
def run (b : PatchBanks) : Store → PatchBanks
  | .staging value => { b with staging := value }
  | .active => { b with active := !b.active }
  | st => b.setStaged (st.write b.activePatch b.staged)

end Store

/-- `banks_[1 - active] = banks_[active]`. -/
def copyStores : List Store :=
  [.copyNewCanId, .copyReplaceId, .copyNewExtended] ++
    (List.finRange maxFrameDataLen).map .copyAndMask ++
    (List.finRange maxFrameDataLen).map .copyOrValue

/-- The stores of `stage`. -/
def stageStores (staging : Bool) : List Store :=
  if staging then [] else copyStores ++ [.staging true]

/-- The loop of `set_signal`. -/
def signalStores (declared field bits : Bytes8) (enabled : Bool) : List Store :=
  (List.finRange maxFrameDataLen).flatMap fun i =>
    let m := field.get i &&& declared.get i
    [.andMask i fun p => RulePatch.signalMask enabled m (p.andMask.get i),
      .orValue i fun p => RulePatch.signalValue enabled m (bits.get i) (p.orValue.get i)]

def callStores (declared : Bytes8) (staging : Bool) : PatchCall → List Store
  | .setByte index value =>
    if h : index.toNat < maxFrameDataLen then
      stageStores staging ++
        [.orValue ⟨index.toNat, h⟩ fun p => RulePatch.byteValue p ⟨index.toNat, h⟩ value]
    else []
  | .setSignal startBit bitLen bigEndian raw enabled =>
    let (field, bits) := signalEncode startBit bitLen bigEndian raw
    stageStores staging ++ signalStores declared field bits enabled
  | .setCanId canId => stageStores staging ++ [.newCanId fun p => RulePatch.canIdValue p canId]
  | .commit => if staging then [.active, .staging false] else []

/-- The loop between two stores: the banks, the stores the current call has still to make, and
the calls whose effect is decided: a commit is entered when the index is stored, or at once when
nothing was staged. -/
structure Writer where
  banks : PatchBanks
  declared : Bytes8
  pending : List Store := []
  log : List PatchCall := []

/-- What the writer does: a call begins, or the next store of it. -/
inductive WriterEvent
  | call (c : PatchCall)
  | store
  deriving DecidableEq

namespace Writer

def start (r : RulePatch) : Writer := { banks := r.banks, declared := r.declared }

def step (w : Writer) : WriterEvent → Writer
  | .call c =>
    { w with
      pending := callStores w.declared w.banks.staging c
      log := if c = .commit ∧ w.banks.staging then w.log else w.log ++ [c] }
  | .store =>
    match w.pending with
    | [] => w
    | st :: rest =>
      { w with
        banks := st.run w.banks
        pending := rest
        log := match st with
          | .active => w.log ++ [.commit]
          | _ => w.log }

/-- The loop makes one call after the other. -/
def admits (w : Writer) : WriterEvent → Prop
  | .call _ => w.pending.isEmpty
  | .store => True

instance (w : Writer) : (e : WriterEvent) → Decidable (w.admits e)
  | .call _ => inferInstanceAs (Decidable (_ = true))
  | .store => inferInstanceAs (Decidable True)

end Writer

/-- The calls of a run. -/
def calls (events : List WriterEvent) : List PatchCall :=
  events.filterMap fun
    | .call c => some c
    | .store => none

/-! ## What is published -/

/-- What a call changes in the patch being prepared. -/
def PatchCall.change (declared : Bytes8) (p : PatchData) : PatchCall → PatchData
  | .setByte index value =>
    if h : index.toNat < maxFrameDataLen then
      { p with
        orValue := p.orValue.set index.toNat (RulePatch.byteValue p ⟨index.toNat, h⟩ value) }
    else p
  | .setSignal startBit bitLen bigEndian raw enabled =>
    let (field, bits) := signalEncode startBit bitLen bigEndian raw
    { p with
      andMask := .ofFn fun i =>
        RulePatch.signalMask enabled (field.get i &&& declared.get i) (p.andMask.get i)
      orValue := .ofFn fun i =>
        RulePatch.signalValue enabled (field.get i &&& declared.get i) (bits.get i)
          (p.orValue.get i) }
  | .setCanId canId => { p with newCanId := RulePatch.canIdValue p canId }
  | .commit => p

/-- The published patch and the calls made since it was. -/
structure Ledger where
  published : PatchData
  changes : List PatchCall := []
  deriving DecidableEq

namespace Ledger

def prepared (g : Ledger) (declared : Bytes8) : PatchData :=
  g.changes.foldl (PatchCall.change declared) g.published

/-- The ledger behind a call. -/
def enter (declared : Bytes8) (g : Ledger) (c : PatchCall) : Ledger :=
  if c = .commit then { published := g.prepared declared } else { g with changes := g.changes ++ [c] }

def after (declared : Bytes8) (initial : PatchData) (log : List PatchCall) : Ledger :=
  log.foldl (enter declared) { published := initial }

end Ledger

/-! ## The stores of a call, all made, are the call -/

/-- A store into the staged bank. -/
def Store.Inner : Store → Prop
  | .staging _ => False
  | .active => False
  | _ => True

theorem foldl_run_inner {sts : List Store} (h : ∀ st ∈ sts, st.Inner) (b : PatchBanks) :
    sts.foldl Store.run b = b.setStaged (sts.foldl (Store.write b.activePatch) b.staged) := by
  induction sts generalizing b with
  | nil => exact b.setStaged_staged.symm
  | cons st sts ih =>
    have hrun : st.run b = b.setStaged (st.write b.activePatch b.staged) := by
      have hst := h st (List.mem_cons_self ..)
      cases st <;> first | rfl | exact hst.elim
    rw [List.foldl_cons, List.foldl_cons, hrun, ih fun st hst => h st (List.mem_cons_of_mem _ hst)]
    simp

theorem foldl_copyAndMask (a p : PatchData) (l : List (Fin maxFrameDataLen)) :
    (l.map Store.copyAndMask).foldl (Store.write a) p =
      { p with
        andMask := l.foldl (fun (v : Bytes8) (i : Fin maxFrameDataLen) =>
          v.set i (a.andMask.get i) i.isLt) p.andMask } := by
  induction l generalizing p with
  | nil => rfl
  | cons i l ih => rw [List.map_cons, List.foldl_cons, ih]; rfl

theorem foldl_copyOrValue (a p : PatchData) (l : List (Fin maxFrameDataLen)) :
    (l.map Store.copyOrValue).foldl (Store.write a) p =
      { p with
        orValue := l.foldl (fun (v : Bytes8) (i : Fin maxFrameDataLen) =>
          v.set i (a.orValue.get i) i.isLt) p.orValue } := by
  induction l generalizing p with
  | nil => rfl
  | cons i l ih => rw [List.map_cons, List.foldl_cons, ih]; rfl

/-- The copied bank is the active one, whatever it was before. -/
theorem foldl_copyStores (a p : PatchData) : copyStores.foldl (Store.write a) p = a := by
  rw [copyStores, List.foldl_append, List.foldl_append, foldl_copyAndMask, foldl_copyOrValue,
    foldl_set_finRange fun i _ => a.andMask.get i, foldl_set_finRange fun i _ => a.orValue.get i]
  have hcell : ∀ v : Bytes8, (Vector.ofFn fun i : Fin maxFrameDataLen => v.get i) = v :=
    fun v => Vector.ext fun i hi => Vector.getElem_ofFn hi
  rw [hcell, hcell]
  rfl

theorem copyStores_inner : ∀ st ∈ copyStores, st.Inner := by
  intro st hst
  simp only [copyStores, List.mem_append, List.mem_map, List.mem_cons, List.not_mem_nil,
    or_false] at hst
  rcases hst with (((rfl | rfl | rfl) | ⟨i, _, rfl⟩) | ⟨i, _, rfl⟩) <;> trivial

theorem foldl_stageStores (b : PatchBanks) :
    (stageStores b.staging).foldl Store.run b = b.stage := by
  unfold stageStores PatchBanks.stage
  split
  · rfl
  · rw [List.foldl_append, foldl_run_inner copyStores_inner, foldl_copyStores]
    rfl

theorem foldl_signalStores (declared field bits : Bytes8) (enabled : Bool) (a p : PatchData)
    (l : List (Fin maxFrameDataLen)) :
    (l.flatMap fun i =>
      [Store.andMask i fun p =>
          signalMask enabled (field.get i &&& declared.get i) (p.andMask.get i),
        Store.orValue i fun p =>
          signalValue enabled (field.get i &&& declared.get i) (bits.get i)
            (p.orValue.get i)]).foldl
        (Store.write a) p =
      { p with
        andMask := l.foldl (fun (v : Bytes8) (i : Fin maxFrameDataLen) =>
          v.set i (signalMask enabled (field.get i &&& declared.get i) (v.get i))
            i.isLt) p.andMask
        orValue := l.foldl (fun (v : Bytes8) (i : Fin maxFrameDataLen) =>
          v.set i (signalValue enabled (field.get i &&& declared.get i) (bits.get i)
            (v.get i)) i.isLt) p.orValue } := by
  induction l generalizing p with
  | nil => rfl
  | cons i l ih => rw [List.flatMap_cons, List.foldl_append, ih]; rfl

theorem foldl_stage_body {body : List Store} (h : ∀ st ∈ body, st.Inner) (b : PatchBanks) :
    (stageStores b.staging ++ body).foldl Store.run b =
      b.stage.setStaged (body.foldl (Store.write b.activePatch) b.prepared) := by
  rw [List.foldl_append, foldl_stageStores, foldl_run_inner h, b.activePatch_stage,
    b.staged_stage]

theorem signalStores_inner (declared field bits : Bytes8) (enabled : Bool) :
    ∀ st ∈ signalStores declared field bits enabled, st.Inner := by
  intro st hst
  simp only [signalStores, List.mem_flatMap, List.mem_cons, List.not_mem_nil, or_false] at hst
  obtain ⟨i, _, rfl | rfl⟩ := hst <;> trivial

/-- A call that reaches the banks stages its change and nothing else. -/
theorem foldl_callStores (declared : Bytes8) (b : PatchBanks) {c : PatchCall} (hc : c ≠ .commit) :
    (callStores declared b.staging c).foldl Store.run b =
        b.stage.setStaged (c.change declared b.prepared) ∨
      ((callStores declared b.staging c).foldl Store.run b = b ∧
        ∀ p, c.change declared p = p) := by
  cases c with
  | setByte index value =>
    simp only [callStores, PatchCall.change]
    by_cases h : index.toNat < maxFrameDataLen
    · left
      rw [dif_pos h, dif_pos h, foldl_stage_body (fun st hst => ?_)]
      · rfl
      · rw [List.mem_singleton.mp hst]
        trivial
    · right
      rw [dif_neg h]
      exact ⟨rfl, fun p => by rw [dif_neg h]⟩
  | setSignal startBit bitLen bigEndian raw enabled =>
    left
    simp only [callStores, PatchCall.change]
    rw [foldl_stage_body (signalStores_inner _ _ _ _), signalStores, foldl_signalStores]
    congr 2
    · exact foldl_set_finRange (fun i old => signalMask enabled (_ &&& declared.get i) old) _
    · exact foldl_set_finRange
        (fun i old => signalValue enabled (_ &&& declared.get i) _ old) _
  | setCanId canId =>
    left
    simp only [callStores]
    rw [foldl_stage_body (fun st hst => ?_)]
    · rfl
    · rw [List.mem_singleton.mp hst]
      trivial
  | commit => exact absurd rfl hc

/-! ## The methods -/

namespace RulePatch

/-- The rule behind a call. -/
def call (r : RulePatch) : PatchCall → RulePatch
  | .setByte index value => r.setByte index value
  | .setSignal startBit bitLen bigEndian raw enabled =>
    (r.setSignal startBit bitLen bigEndian raw enabled).2
  | .setCanId canId => r.setCanId canId
  | .commit => r.commit

/-- The stores of a call, all made, leave the banks as the method does. -/
theorem foldl_callStores_eq (r : RulePatch) (c : PatchCall) :
    (callStores r.declared r.banks.staging c).foldl Store.run r.banks = (r.call c).banks := by
  cases c with
  | setByte index value =>
    simp only [callStores, call, setByte]
    by_cases h : index.toNat < maxFrameDataLen
    · rw [dif_pos h, dif_pos h, foldl_stage_body (fun st hst => ?_)]
      · simp only [r.banks.staged_stage]
        rfl
      · rw [List.mem_singleton.mp hst]
        trivial
    · rw [dif_neg h, dif_neg h]
      rfl
  | setSignal startBit bitLen bigEndian raw enabled =>
    simp only [callStores, call, setSignal]
    generalize signalEncode startBit bitLen bigEndian raw = encoded
    rw [foldl_stage_body (signalStores_inner _ _ _ _), r.banks.staged_stage, signalStores,
      List.foldl_flatMap]
    rfl
  | setCanId canId =>
    simp only [callStores, call, setCanId]
    rw [foldl_stage_body (fun st hst => ?_)]
    · simp only [r.banks.staged_stage]
      rfl
    · rw [List.mem_singleton.mp hst]
      trivial
  | commit =>
    simp only [callStores, call, commit, PatchBanks.commit]
    split <;> rfl

end RulePatch

/-! ## What an interrupt reads -/

/-- The banks hold what the ledger says. -/
structure Settled (declared : Bytes8) (b : PatchBanks) (g : Ledger) : Prop where
  published : b.activePatch = g.published
  prepared : b.prepared = g.prepared declared

/-- The loop between two stores: the active bank is the published patch, and either the stores
still to come complete the preparation without touching it, or the next one is the index store
of a commit. -/
inductive Consistent (w : Writer) (g : Ledger) : Prop
  | filling (read : w.banks.activePatch = g.published) (quiet : ∀ st ∈ w.pending, st ≠ .active)
      (final : Settled w.declared (w.pending.foldl Store.run w.banks) g)
  | committing (pending : w.pending = [.active, .staging false])
      (now : Settled w.declared w.banks g) (staging : w.banks.staging = true)

theorem Consistent.read {w : Writer} {g : Ledger} (h : Consistent w g) :
    w.banks.activePatch = g.published := by
  cases h with
  | filling read _ _ => exact read
  | committing _ now _ => exact now.published

theorem Consistent.idle {w : Writer} {g : Ledger} (h : Consistent w g)
    (hp : w.pending.isEmpty = true) : Settled w.declared w.banks g := by
  cases h with
  | filling _ _ final =>
    rw [List.isEmpty_iff.mp hp] at final
    exact final
  | committing pending _ _ =>
    rw [pending] at hp
    cases hp

theorem activePatch_run (b : PatchBanks) {st : Store} (h : st ≠ .active) :
    (st.run b).activePatch = b.activePatch := by
  cases st <;> first
    | exact absurd rfl h
    | rfl
    | exact b.activePatch_setStaged _

theorem callStores_quiet (declared : Bytes8) (staging : Bool) {c : PatchCall} (hc : c ≠ .commit) :
    ∀ st ∈ callStores declared staging c, st ≠ .active := by
  have hstage : ∀ st ∈ stageStores staging, st ≠ .active := by
    intro st hst
    unfold stageStores at hst
    split at hst
    · cases hst
    · rcases List.mem_append.mp hst with h | h
      · rintro rfl
        exact copyStores_inner _ h
      · rw [List.mem_singleton.mp h]
        simp
  intro st hst
  cases c with
  | setByte index value =>
    simp only [callStores] at hst
    split at hst
    · rcases List.mem_append.mp hst with h | h
      · exact hstage st h
      · rw [List.mem_singleton.mp h]
        simp
    · cases hst
  | setSignal startBit bitLen bigEndian raw enabled =>
    rcases List.mem_append.mp hst with h | h
    · exact hstage st h
    · rintro rfl
      exact signalStores_inner _ _ _ _ _ h
  | setCanId canId =>
    rcases List.mem_append.mp hst with h | h
    · exact hstage st h
    · rw [List.mem_singleton.mp h]
      simp
  | commit => exact absurd rfl hc

section Runs

variable {initial : PatchData}

theorem prepared_enter (declared : Bytes8) (g : Ledger) {c : PatchCall} (hc : c ≠ .commit) :
    (g.enter declared c).published = g.published ∧
      (g.enter declared c).prepared declared = c.change declared (g.prepared declared) := by
  unfold Ledger.enter
  rw [if_neg hc]
  exact ⟨rfl, by simp only [Ledger.prepared, List.foldl_append, List.foldl_cons, List.foldl_nil]⟩

theorem Ledger.after_append (declared : Bytes8) (log : List PatchCall) (c : PatchCall) :
    Ledger.after declared initial (log ++ [c]) =
      (Ledger.after declared initial log).enter declared c := by
  simp only [Ledger.after, List.foldl_append, List.foldl_cons, List.foldl_nil]

/-- One event keeps what is read and what the ledger says the same. -/
theorem Consistent.step {w : Writer} {e : WriterEvent}
    (h : Consistent w (Ledger.after w.declared initial w.log)) (ha : w.admits e) :
    Consistent (w.step e) (Ledger.after (w.step e).declared initial (w.step e).log) := by
  cases e with
  | call c =>
    have hs := h.idle ha
    by_cases hc : c = .commit
    · subst hc
      cases hstaging : w.banks.staging with
      | true =>
        simp only [Writer.step, callStores, hstaging, if_true, and_self]
        exact .committing rfl hs hstaging
      | false =>
        have hprep : w.banks.prepared = w.banks.activePatch := by
          simp [PatchBanks.prepared, hstaging]
        simp only [Writer.step, callStores, hstaging, Bool.false_eq_true, and_false, if_false]
        rw [Ledger.after_append]
        have hpub : w.banks.activePatch =
            (Ledger.after w.declared initial w.log).prepared w.declared := by
          rw [← hprep]
          exact hs.prepared
        refine .filling hpub (fun st hst => by cases hst) ⟨hpub, ?_⟩
        exact hprep.trans hpub
    · have hstep : w.step (.call c) =
          { w with
            pending := callStores w.declared w.banks.staging c
            log := w.log ++ [c] } := by
        simp only [Writer.step, hc, false_and, if_false]
      rw [hstep, Ledger.after_append]
      obtain ⟨hpub, hprep⟩ := prepared_enter w.declared
        (Ledger.after w.declared initial w.log) hc
      refine .filling (by rw [hpub]; exact hs.published)
        (callStores_quiet w.declared w.banks.staging hc) ⟨?_, ?_⟩
      · rw [hpub, ← hs.published]
        rcases foldl_callStores w.declared w.banks hc with hrun | ⟨hrun, _⟩
        · dsimp only
          rw [hrun, PatchBanks.activePatch_setStaged, PatchBanks.activePatch_stage]
        · dsimp only
          rw [hrun]
      · rw [hprep, ← hs.prepared]
        rcases foldl_callStores w.declared w.banks hc with hrun | ⟨hrun, hid⟩
        · dsimp only
          rw [hrun]
          simp only [PatchBanks.prepared, PatchBanks.staging_setStaged, PatchBanks.staging_stage,
            PatchBanks.staged_setStaged, if_true]
        · dsimp only
          rw [hrun, hid]
  | store =>
    cases h with
    | filling read quiet final =>
      cases hp : w.pending with
      | nil =>
        have hstep : w.step .store = w := by simp only [Writer.step, hp]
        rw [hstep]
        exact .filling read quiet final
      | cons st rest =>
        have hst := quiet st (by rw [hp]; exact List.mem_cons_self ..)
        have hstep : w.step .store = { w with banks := st.run w.banks, pending := rest } := by
          cases st <;> first
            | exact absurd rfl hst
            | simp only [Writer.step, hp]
        rw [hp] at final quiet
        rw [hstep]
        exact .filling ((activePatch_run _ hst).trans read)
          (fun st' h' => quiet st' (List.mem_cons_of_mem _ h')) final
    | committing pending now staging =>
      have hstep : w.step .store =
          { w with
            banks := { w.banks with active := !w.banks.active }
            pending := [.staging false]
            log := w.log ++ [.commit] } := by
        simp only [Writer.step, pending, Store.run]
      have hprep : w.banks.staged = (Ledger.after w.declared initial w.log).prepared w.declared := by
        have h := now.prepared
        simpa only [PatchBanks.prepared, staging, if_true] using h
      rw [hstep, Ledger.after_append]
      refine .filling hprep ?_ ⟨hprep, hprep⟩
      intro st hst
      rw [List.mem_singleton.mp hst]
      simp

/-- A commit has been called and the next store is the one that publishes. -/
def Writer.Committing (w : Writer) : Prop := ∃ rest, w.pending = .active :: rest

/-- What is logged is what was called, but for a commit whose index store is still to come. -/
def Logged (w : Writer) (cs : List PatchCall) : Prop :=
  (¬ w.Committing ∧ w.log = cs) ∨ (w.Committing ∧ w.log ++ [.commit] = cs)

theorem calls_append (events : List WriterEvent) (e : WriterEvent) :
    calls (events ++ [e]) = calls events ++ calls [e] := List.filterMap_append

theorem not_committing {w : Writer} (h : ∀ st ∈ w.pending, st ≠ .active) : ¬ w.Committing := by
  rintro ⟨rest, hp⟩
  exact h .active (by rw [hp]; exact List.mem_cons_self ..) rfl

theorem Logged.step {w : Writer} {g : Ledger} {events : List WriterEvent} {e : WriterEvent}
    (h : Logged w (calls events)) (hc : Consistent w g) (ha : w.admits e) :
    Logged (w.step e) (calls (events ++ [e])) := by
  rw [calls_append]
  cases e with
  | call c =>
    have hlog : w.log = calls events := by
      rcases h with ⟨_, h⟩ | ⟨⟨rest, h⟩, _⟩
      · exact h
      · have hp : w.pending.isEmpty = true := ha
        rw [h] at hp
        cases hp
    have hcall : calls [.call c] = [c] := rfl
    rw [hcall, ← hlog]
    by_cases hcommit : c = .commit
    · subst hcommit
      cases hst : w.banks.staging with
      | true =>
        right
        simp only [Writer.step, Writer.Committing, hst, and_self, if_true, callStores]
        exact ⟨⟨_, rfl⟩, trivial⟩
      | false =>
        left
        simp only [Writer.step, hst, Bool.false_eq_true, and_false, if_false, callStores]
        exact ⟨not_committing (fun st hst => by cases hst), trivial⟩
    · left
      simp only [Writer.step, hcommit, false_and, if_false, and_true]
      exact not_committing (callStores_quiet _ _ hcommit)
  | store =>
    have hnil : calls [.store] = [] := rfl
    rw [hnil, List.append_nil]
    cases hc with
    | filling _ quiet _ =>
      have hlog : w.log = calls events := by
        rcases h with ⟨_, h⟩ | ⟨h, _⟩
        · exact h
        · exact absurd h (not_committing quiet)
      left
      cases hp : w.pending with
      | nil =>
        have hstep : w.step .store = w := by simp only [Writer.step, hp]
        rw [hstep]
        exact ⟨not_committing quiet, hlog⟩
      | cons st rest =>
        have hst := quiet st (by rw [hp]; exact List.mem_cons_self ..)
        have hstep : w.step .store = { w with banks := st.run w.banks, pending := rest } := by
          cases st <;> first
            | exact absurd rfl hst
            | simp only [Writer.step, hp]
        rw [hp] at quiet
        rw [hstep]
        exact ⟨not_committing fun st' h' => quiet st' (List.mem_cons_of_mem _ h'), hlog⟩
    | committing pending _ _ =>
      left
      rcases h with ⟨h, _⟩ | ⟨_, hlog⟩
      · exact absurd ⟨_, pending⟩ h
      · simp only [Writer.step, pending]
        refine ⟨not_committing ?_, hlog⟩
        intro st hst
        rw [List.mem_singleton.mp hst]
        simp

theorem consistent_run (w : Writer) (h0 : Consistent w (Ledger.after w.declared initial w.log))
    {events : List WriterEvent} (hr : Admitted Writer.admits Writer.step w events) :
    Consistent (exec Writer.step w events)
      (Ledger.after (exec Writer.step w events).declared initial
        (exec Writer.step w events).log) :=
  hr.invariant (fun w => Consistent w (Ledger.after w.declared initial w.log))
    (fun _ _ ha h => h.step ha) h0

theorem declared_run (w : Writer) (events : List WriterEvent) :
    (exec Writer.step w events).declared = w.declared := by
  induction events generalizing w with
  | nil => rfl
  | cons e events ih =>
    rw [exec_cons, ih]
    cases e with
    | call c => rfl
    | store =>
      cases hp : w.pending with
      | nil => simp only [Writer.step, hp]
      | cons st rest => simp only [Writer.step, hp]

theorem consistent_start (initial : PatchData) (r : RulePatch) (h : r.banks = PatchBanks.init initial) :
    Consistent (Writer.start r) (Ledger.after (Writer.start r).declared initial []) := by
  have hread : (Writer.start r).banks.activePatch = initial := by
    simp only [Writer.start, h]
    rfl
  refine .filling hread (fun st hst => by cases hst) ⟨hread, ?_⟩
  simp only [Writer.start, List.foldl_nil, h]
  rfl

/-- Whatever store an interrupt falls on, the patch it reads is the one the last commit
published: the patch published before with the changes made since the commit before applied in
order. -/
theorem effectivePatch_published (initial : PatchData) (declared : UInt64) (rule : RuleEntry)
    {events : List WriterEvent}
    (hr : Admitted Writer.admits Writer.step (Writer.start (RulePatch.init initial declared))
      events) :
    let w := exec Writer.step (Writer.start (RulePatch.init initial declared)) events
    ({ rule with banks := some w.banks } : RuleEntry).effectivePatch =
        (Ledger.after (RulePatch.init initial declared).declared initial w.log).published ∧
      Logged w (calls events) := by
  have h0 := consistent_start initial (RulePatch.init initial declared) rfl
  refine ⟨?_, ?_⟩
  · have h := (consistent_run _ h0 hr).read
    rw [declared_run] at h
    exact h
  · induction events using List.reverseRecOn with
    | nil =>
      left
      exact ⟨not_committing (fun st hst => by cases hst), rfl⟩
    | append_singleton events e ih =>
      obtain ⟨hbefore, ha, _⟩ := Admitted.append_iff.mp hr
      rw [exec_append]
      exact (ih hbefore).step (consistent_run _ h0 hbefore) ha

/-- An identifier and a byte are changed and published; a second change is half staged. -/
def sampleEvents : List WriterEvent :=
  [WriterEvent.call (.setCanId 0x123)] ++ List.replicate 21 WriterEvent.store ++
    [WriterEvent.call (.setByte 0 0xFF)] ++ List.replicate 1 WriterEvent.store ++
    [WriterEvent.call .commit] ++ List.replicate 2 WriterEvent.store ++
    [WriterEvent.call (.setCanId 0x321)] ++ List.replicate 5 WriterEvent.store

def samplePatch : PatchData :=
  { replaceId := true, andMask := .ofFn fun i => if i = 0 then 0x0F else 0xFF }

theorem effectivePatch_published_sample :
    let w := exec Writer.step (Writer.start (RulePatch.init samplePatch 0xFF)) sampleEvents
    let rule : RuleEntry := { matchId := 0, matchMask := 0, flags := {}, banks := some w.banks }
    rule.effectivePatch =
      { samplePatch with
        newCanId := 0x123
        orValue := .ofFn fun i => if i = 0 then 0xF0 else 0 } := by
  intro w rule
  have hr : Admitted Writer.admits Writer.step (Writer.start (RulePatch.init samplePatch 0xFF))
      sampleEvents := by
    decide
  have h := (effectivePatch_published samplePatch 0xFF rule hr).1
  exact h.trans (by decide)

end Runs

end EspCars.CanGateway
