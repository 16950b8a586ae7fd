import EspCars.CanGateway.PackedMasks
import EspCars.Lib.Fallible

/-!
# What the schema of a route promises

What the code generator may rely on in a route that passed its validators (`ValidRule`), and that a
modification writes no bit twice (`ValidModify.writes_unique`).
-/

namespace EspCars.CanGateway.Config

open EspCars.Lib

theorem require_eq_ok {ok : Bool} {reason : Invalid} {u : Unit} :
    require ok reason = .ok u ↔ ok = true := by
  unfold require
  split_ifs with h
  · exact iff_of_true rfl h
  · exact iff_of_false (fun hno => by cases hno) h

/-- A check in front of the rest. -/
theorem require_bind_eq_ok {β : Type} {ok : Bool} {reason : Invalid} {f : Unit → Except Invalid β}
    {b : β} : require ok reason >>= f = .ok b ↔ ok = true ∧ f () = .ok b := by
  rw [bind_eq_ok]
  constructor
  · rintro ⟨_, hok, h⟩
    exact ⟨require_eq_ok.mp hok, h⟩
  · rintro ⟨hok, h⟩
    exact ⟨(), require_eq_ok.mpr hok, h⟩

/-! ## Claims -/

theorem nodup_of_claims {l acc owner : List ((Nat × Nat) × Claimant)}
    (h : l.foldlM claim acc = .ok owner) (hacc : (acc.map Prod.fst).Nodup) :
    owner = acc ++ l ∧ (owner.map Prod.fst).Nodup := by
  induction l generalizing acc with
  | nil =>
    cases h
    rw [List.append_nil]
    exact ⟨rfl, hacc⟩
  | cons c l ih =>
    rw [List.foldlM_cons] at h
    obtain ⟨acc', hclaim, h⟩ := bind_eq_ok.mp h
    unfold claim at hclaim
    split at hclaim
    · cases hclaim
    · next hnone =>
      cases hclaim
      have hnew : (((acc ++ [c]).map Prod.fst)).Nodup := by
        rw [List.map_append, List.nodup_append]
        refine ⟨hacc, List.nodup_singleton _, ?_⟩
        intro cell hcell cell' hcell'
        obtain ⟨o, ho, rfl⟩ := List.mem_map.mp hcell
        rw [List.mem_singleton.mp hcell']
        simpa using List.find?_eq_none.mp hnone o ho
      obtain ⟨howner, hnodup⟩ := ih h hnew
      rw [howner, List.append_assoc, List.singleton_append]
      exact ⟨rfl, by rwa [howner, List.append_assoc, List.singleton_append] at hnodup⟩

/-- The cells of an entry of `data` with the bits written to them. -/
def PatchByte.written (patch : PatchByte) : List ((Nat × Nat) × Option Bool) :=
  ((List.range 8).filter fun bit => patch.mask &&& 1 <<< bit ≠ 0).map fun bit =>
    ((patch.index, bit), some (patch.value.testBit bit))

/-- Those of a signal; without a value it leaves them alone. -/
def SignalPatch.written (sig : SignalPatch) : List ((Nat × Nat) × Option Bool) :=
  sig.cells.zipIdx.map fun c => (c.1, sig.value.map fun value => value.testBit c.2)

def Modify.written (modify : Modify) : List ((Nat × Nat) × Option Bool) :=
  modify.data.flatMap PatchByte.written ++ modify.signals.flatMap SignalPatch.written

theorem written_cells (modify : Modify) :
    modify.written.map Prod.fst = modify.claims.map Prod.fst := by
  have hdata (patch : PatchByte) : patch.written.map Prod.fst = patch.claims.map Prod.fst := by
    unfold PatchByte.written PatchByte.claims
    rw [List.map_map, List.map_map]
    rfl
  have hsig (sig : SignalPatch) : sig.written.map Prod.fst = sig.cells := by
    unfold SignalPatch.written
    rw [List.map_map]
    exact List.zipIdx_map_fst 0 sig.cells
  have hsignals : modify.signals.flatMap SignalPatch.cells =
      modify.signals.zipIdx.flatMap fun sig => sig.1.cells := by
    conv_lhs => rw [← List.zipIdx_map_fst 0 modify.signals]
    rw [List.flatMap_map]
  unfold Modify.written Modify.claims
  rw [List.map_append, List.map_append, List.map_flatMap, List.map_flatMap, List.map_flatMap,
    List.map_flatMap]
  simp only [hdata, hsig, List.map_map, Function.comp_def, List.map_id']
  rw [hsignals]

/-! ## Modifications -/

/-- The modification after the validation, in front of which it was `modify`. -/
structure ValidModify (modify out : Modify) : Prop where
  canId : out.canId = modify.canId
  useExtendedId : out.useExtendedId = modify.useExtendedId
  data : out.data = modify.data
  signals : out.signals = modify.signals
  crcByte : out.e2e.map E2e.crcByte = modify.e2e.map E2e.crcByte
  crcByteLe : ∀ e2e, out.e2e = some e2e → e2e.crcByte ≤ 7
  masks : ∀ patch ∈ modify.data, patch.mask ≤ 255
  fits : ∀ sig ∈ modify.signals,
    (signalBits sig.bitOffset sig.bitLength sig.byteOrder).isSome = true
  nodup : (modify.claims.map Prod.fst).Nodup

theorem crcByte_of_validateE2e {e2e out : E2e} (h : validateE2e e2e = .ok out) :
    out.crcByte = e2e.crcByte ∧ out.crcByte ≤ 7 := by
  have hrange {last : Nat} (h : validateE2eRange e2e last = .ok out) :
      out.crcByte = e2e.crcByte := by
    unfold validateE2eRange at h
    obtain ⟨-, h⟩ := require_bind_eq_ok.mp h
    obtain ⟨-, h⟩ := require_bind_eq_ok.mp h
    cases h
    rfl
  unfold validateE2e at h
  obtain ⟨hbounds, h⟩ := require_bind_eq_ok.mp h
  rw [decide_eq_true_iff] at hbounds
  cases hlast : e2e.lastByte with
  | some last =>
    rw [hlast] at h
    have hcrc := hrange h
    exact ⟨hcrc, hcrc ▸ hbounds.1⟩
  | none =>
    rw [hlast] at h
    obtain ⟨-, h⟩ := require_bind_eq_ok.mp h
    have hcrc := hrange h
    exact ⟨hcrc, hcrc ▸ hbounds.1⟩

theorem fits_of_validateSignalPatch {sig : SignalPatch} (h : validateSignalPatch sig = .ok ()) :
    (signalBits sig.bitOffset sig.bitLength sig.byteOrder).isSome = true := by
  unfold validateSignalPatch at h
  obtain ⟨-, h⟩ := require_bind_eq_ok.mp h
  obtain ⟨-, h⟩ := require_bind_eq_ok.mp h
  obtain ⟨hfits, -⟩ := require_bind_eq_ok.mp h
  exact hfits

theorem validModify {modify out : Modify} (h : validateModify modify = .ok out) :
    ValidModify modify out := by
  unfold validateModify at h
  obtain ⟨-, h⟩ := require_bind_eq_ok.mp h
  obtain ⟨_, hdata, h⟩ := bind_eq_ok.mp h
  obtain ⟨_, -, h⟩ := bind_eq_ok.mp h
  obtain ⟨_, hsignals, h⟩ := bind_eq_ok.mp h
  obtain ⟨e2e, he2e, h⟩ := bind_eq_ok.mp h
  obtain ⟨-, h⟩ := require_bind_eq_ok.mp h
  obtain ⟨_, hcells, h⟩ := bind_eq_ok.mp h
  cases h
  have hcrc : e2e.map E2e.crcByte = modify.e2e.map E2e.crcByte ∧
      ∀ e, e2e = some e → e.crcByte ≤ 7 := by
    cases hyaml : modify.e2e with
    | none =>
      rw [hyaml] at he2e
      cases he2e
      exact ⟨rfl, fun _ hno => by cases hno⟩
    | some given =>
      rw [hyaml] at he2e
      obtain ⟨valid, hvalid, he2e⟩ := bind_eq_ok.mp he2e
      cases he2e
      obtain ⟨hcrc, hle⟩ := crcByte_of_validateE2e hvalid
      refine ⟨by rw [Option.map_some, Option.map_some, hcrc], fun e he => ?_⟩
      cases he
      exact hle
  obtain ⟨owner, howner, -⟩ := bind_eq_ok.mp hcells
  obtain ⟨hall, hnodup⟩ := nodup_of_claims howner List.nodup_nil
  refine ⟨rfl, rfl, rfl, rfl, hcrc.1, hcrc.2, fun patch hpatch => ?_, fun sig hsig => ?_, ?_⟩
  · have hok := forM_eq_ok hdata patch hpatch
    exact (of_decide_eq_true (require_eq_ok.mp hok)).2.2
  · exact fits_of_validateSignalPatch (forM_eq_ok hsignals sig hsig)
  · rw [hall] at hnodup
    exact hnodup

namespace ValidModify

variable {modify out : Modify}

theorem mem_written (h : ValidModify modify out) {i j : Nat} {b : Bool} (hj : j < 8)
    (hwrites : modify.Writes i j b) : ((i, j), some b) ∈ modify.written := by
  unfold Modify.written
  rcases hwrites with ⟨patch, hpatch, rfl, hmask, rfl⟩ | ⟨sig, hsig, value, hvalue, k, hk, hcell, rfl⟩
  · apply List.mem_append_left
    apply List.mem_flatMap.mpr
    refine ⟨patch, hpatch, List.mem_map.mpr ⟨j, ?_, rfl⟩⟩
    rw [List.mem_filter, List.mem_range, decide_eq_true_iff, Nat.one_shiftLeft, Nat.and_two_pow, hmask]
    exact ⟨hj, by simp⟩
  · apply List.mem_append_right
    apply List.mem_flatMap.mpr
    refine ⟨sig, hsig, List.mem_map.mpr ⟨((i, j), k), List.mem_zipIdx_iff_getElem?.mpr ?_, ?_⟩⟩
    · rw [cells_eq (h.fits sig hsig), List.getElem?_map, List.getElem?_range hk, Option.map_some,
        hcell]
    · rw [hvalue, Option.map_some]

/-- No bit is written twice. -/
theorem writes_unique (h : ValidModify modify out) {i j : Nat} {b b' : Bool} (hj : j < 8)
    (hb : modify.Writes i j b) (hb' : modify.Writes i j b') : b = b' := by
  have hnodup : (modify.written.map Prod.fst).Nodup := by
    rw [written_cells]
    exact h.nodup
  have heq := List.inj_on_of_nodup_map hnodup (h.mem_written hj hb) (h.mem_written hj hb') rfl
  exact Option.some.inj (Prod.mk.inj heq).2

theorem out_writes_iff (h : ValidModify modify out) {i j : Nat} {b : Bool} :
    out.Writes i j b ↔ modify.Writes i j b := by
  unfold Modify.Writes
  rw [h.data, h.signals]

end ValidModify

/-! ## Rules -/

/-- The mask of a rule, which is that of the whole id where it is absent. -/
def Rule.mask (rule : Rule) : Nat := rule.canIdMask.getD (idBound rule.useExtendedId)

/-- What `_validate_rule` makes sure of, and that it keeps the rest. -/
structure ValidRule (rule out : Rule) : Prop where
  canId : out.canId = rule.canId
  useExtendedId : out.useExtendedId = rule.useExtendedId
  remoteTransmissionRequest : out.remoteTransmissionRequest = rule.remoteTransmissionRequest
  action : out.action = rule.action
  canIdMask : out.canIdMask = some rule.mask
  modify : Option.Rel ValidModify rule.modify out.modify
  canIdLe : rule.canId ≤ idBound rule.useExtendedId
  maskLe : rule.mask ≤ idBound rule.useExtendedId
  accepts : rule.modify.isSome = true → rule.action = .accept
  output : ∀ modify, out.modify = some modify → checkOutput out rule.mask modify = .ok ()

theorem validRule {rule out : Rule} (h : validateRule rule = .ok out) : ValidRule rule out := by
  unfold validateRule at h
  obtain ⟨-, h⟩ := require_bind_eq_ok.mp h
  obtain ⟨modify, hmodify, h⟩ := bind_eq_ok.mp h
  have hrel : Option.Rel ValidModify rule.modify modify := by
    cases hyaml : rule.modify with
    | none =>
      rw [hyaml] at hmodify
      cases hmodify
      exact Option.Rel.none
    | some given =>
      rw [hyaml] at hmodify
      obtain ⟨valid, hvalid, hmodify⟩ := bind_eq_ok.mp hmodify
      cases hmodify
      exact Option.Rel.some (validModify hvalid)
  unfold validateRuleIds at h
  obtain ⟨hid, h⟩ := require_bind_eq_ok.mp h
  obtain ⟨hmask, h⟩ := require_bind_eq_ok.mp h
  obtain ⟨-, h⟩ := require_bind_eq_ok.mp h
  have hid := of_decide_eq_true hid
  have hmask := of_decide_eq_true hmask
  cases modify with
  | none =>
    obtain ⟨-, h⟩ := require_bind_eq_ok.mp h
    cases h
    refine ⟨rfl, rfl, rfl, rfl, rfl, hrel, hid, hmask, fun hsome => ?_, fun _ hno => by cases hno⟩
    cases hyaml : rule.modify with
    | none =>
      rw [hyaml] at hsome
      cases hsome
    | some given =>
      rw [hyaml] at hrel
      cases hrel
  | some modify =>
    obtain ⟨haction, h⟩ := require_bind_eq_ok.mp h
    obtain ⟨-, h⟩ := require_bind_eq_ok.mp h
    obtain ⟨_, houtput, h⟩ := bind_eq_ok.mp h
    cases h
    refine ⟨rfl, rfl, rfl, rfl, rfl, hrel, hid, hmask, fun _ => ?_, fun _ hsome => ?_⟩
    · have hkeeps : rule.action ≠ .drop := of_decide_eq_true haction
      cases hkind : rule.action with
      | accept => rfl
      | drop => exact absurd hkind hkeeps
    · cases hsome
      exact houtput

theorem validRoute {route out : Route} (h : validateRoute route = .ok out) :
    List.Forall₂ ValidRule route.filters out.filters ∧ out.filters.length ≤ maxRouteFilters ∧
      out.defaultAction = route.defaultAction := by
  unfold validateRoute at h
  obtain ⟨filters, hfilters, h⟩ := bind_eq_ok.mp h
  obtain ⟨hlength, h⟩ := require_bind_eq_ok.mp h
  cases h
  exact ⟨(mapM_eq_ok.mp hfilters).imp fun _ _ => validRule, of_decide_eq_true hlength, rfl⟩

end EspCars.CanGateway.Config
