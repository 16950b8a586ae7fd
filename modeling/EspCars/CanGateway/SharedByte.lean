import EspCars.CanGateway.Compiled
import EspCars.CanGateway.DeclaredBits

/-!
# Fields that share a byte

`set_byte` keeps to the bits that the rule writes at the moment, not to those of its own entry. A
signal that is stamped in the same byte gets the bits of the value too, until it is set again. What
a modification then sends is given exactly: its fields are independent as long as no such value
disagrees with the signal.
-/

namespace EspCars.CanGateway

open EspCars.Lib Config PatchCall SignalPatch

/-! ## What is given for a field -/

/-- What the latest call that `f` answers gives. -/
def latest {α : Type} (f : PatchCall → Option α) (calls : List PatchCall) : Option α :=
  calls.reverse.findSome? f

theorem latest_append {α : Type} (f : PatchCall → Option α) (calls : List PatchCall)
    (c : PatchCall) : latest f (calls ++ [c]) = (f c).or (latest f calls) := by
  unfold latest
  rw [List.reverse_append, List.reverse_singleton, List.singleton_append, List.findSome?_cons]
  cases f c <;> rfl

/-- The geometry of a `set_signal` is that of the signal. -/
def Config.SignalPatch.IsField (sig : SignalPatch) (startBit bitLen : UInt8) (bigEndian : Bool) :
    Prop :=
  sig.bitOffset = startBit.toNat ∧ sig.bitLength = bitLen.toNat ∧
    decide (sig.byteOrder = .big) = bigEndian

instance (sig : SignalPatch) (startBit bitLen : UInt8) (bigEndian : Bool) :
    Decidable (sig.IsField startBit bitLen bigEndian) :=
  inferInstanceAs (Decidable (_ ∧ _ ∧ _))

namespace PatchCall

/-- The value of a `set_byte` on the index. -/
def byteFor (index : Nat) : PatchCall → Option UInt8
  | .setByte i value => if i.toNat = index then some value else none
  | _ => none

/-- What a `set_signal` on the field makes of it: a value, or `none` for the received bits. -/
def valueFor (sig : SignalPatch) : PatchCall → Option (Option Nat)
  | .setSignal startBit bitLen bigEndian raw enabled =>
    if sig.IsField startBit bitLen bigEndian then some (if enabled then some raw.toNat else none)
    else none
  | _ => none

/-- Whether the call sets the signal, or which byte it writes at the index. -/
def overwrites (sig : SignalPatch) (index : Nat) (c : PatchCall) : Option (Option UInt8) :=
  if (valueFor sig c).isSome then some none else (byteFor index c).map some

end PatchCall

namespace Config

/-- The byte of an entry of `data` after the calls. -/
def PatchByte.current (patch : PatchByte) (calls : List PatchCall) : Nat :=
  ((latest (PatchCall.byteFor patch.index) calls).map UInt8.toNat).getD patch.value

/-- The value that a signal has after the calls, if it is not passed through. -/
def SignalPatch.current (sig : SignalPatch) (calls : List PatchCall) : Option Nat :=
  (latest (PatchCall.valueFor sig) calls).getD sig.value

/-- The byte that was last written at the index since the signal was set, if one was. -/
def SignalPatch.overwritten (sig : SignalPatch) (index : Nat) (calls : List PatchCall) :
    Option UInt8 :=
  (latest (PatchCall.overwrites sig index) calls).join

/-- The updates that `_final_validate` admits on the rule. -/
def Modify.Admits (modify : Modify) : PatchCall → Prop
  | .setByte index _ => ∃ patch ∈ modify.data, patch.index = index.toNat
  | .setSignal startBit bitLen bigEndian _ _ =>
    ∃ sig ∈ modify.signals, sig.IsField startBit bitLen bigEndian
  | .setCanId _ => modify.canId.isSome = true
  | .commit => True

/-- Every field has what was last given for it, and no other bit is changed. -/
structure Modify.Independent (modify : Modify) (calls : List PatchCall) (received sent : Bytes8) :
    Prop where
  data : ∀ patch ∈ modify.data, ∀ j < 8, patch.mask.testBit j = true →
    cellBit sent patch.index j = (patch.current calls).testBit j
  signals : ∀ sig ∈ modify.signals, ∀ k < sig.bitLength,
    cellBit sent (sig.cell k).1 (sig.cell k).2 =
      ((sig.current calls).map (·.testBit k)).getD (cellBit received (sig.cell k).1 (sig.cell k).2)
  rest : ∀ i < maxFrameDataLen, ∀ j < 8, (i, j) ∉ modify.claims.map Prod.fst →
    cellBit sent i j = cellBit received i j

/-- A byte that was written over a stamped signal has the bits of the signal there. -/
def Modify.Spared (modify : Modify) (calls : List PatchCall) : Prop :=
  ∀ sig ∈ modify.signals, ∀ value, sig.current calls = some value → ∀ k < sig.bitLength,
    ∀ byte, sig.overwritten (sig.cell k).1 calls = some byte →
      byte.toNat.testBit (sig.cell k).2 = value.testBit k

/-- The patch of a rule with an `id`, as `add_rule` leaves it. -/
def rulePatch (rule : Rule) : RulePatch :=
  RulePatch.init (patchOf rule) (UInt64.ofNat (declaredMask rule.modify))

/-! ## What the schema promises -/

/-- The fields lie in the payload, and no bit is in two of them. -/
structure Modify.Sound (modify : Modify) : Prop where
  bytes : ∀ patch ∈ modify.data, patch.index ≤ 7 ∧ patch.mask ≤ 255
  bounds : ∀ sig ∈ modify.signals, sig.bitOffset ≤ 63 ∧ 1 ≤ sig.bitLength ∧ sig.bitLength ≤ 32
  fits : ∀ sig ∈ modify.signals,
    (signalBits sig.bitOffset sig.bitLength sig.byteOrder).isSome = true
  cells : payloadCells modify = .ok modify.claims
  nodup : (modify.claims.map Prod.fst).Nodup

theorem sound_of_validateModify {modify out : Modify} (h : validateModify modify = .ok out) :
    out.Sound := by
  unfold validateModify at h
  obtain ⟨-, h⟩ := require_bind_eq_ok.mp h
  obtain ⟨_, hdata, h⟩ := bind_eq_ok.mp h
  obtain ⟨_, -, h⟩ := bind_eq_ok.mp h
  obtain ⟨_, hsignals, h⟩ := bind_eq_ok.mp h
  obtain ⟨e2e, -, h⟩ := bind_eq_ok.mp h
  obtain ⟨-, h⟩ := require_bind_eq_ok.mp h
  obtain ⟨_, hcells, h⟩ := bind_eq_ok.mp h
  cases h
  obtain ⟨owner, howner, -⟩ := bind_eq_ok.mp hcells
  obtain ⟨hall, hnodup⟩ := nodup_of_claims howner List.nodup_nil
  rw [List.nil_append] at hall
  subst hall
  refine ⟨fun patch hpatch => ?_, fun sig hsig => ?_, fun sig hsig => ?_, howner, hnodup⟩
  · have hok := of_decide_eq_true (require_eq_ok.mp (forM_eq_ok hdata patch hpatch))
    exact ⟨hok.1, hok.2.2⟩
  · have hok := forM_eq_ok hsignals sig hsig
    unfold validateSignalPatch at hok
    exact of_decide_eq_true (require_bind_eq_ok.mp hok).1
  · exact fits_of_validateSignalPatch (forM_eq_ok hsignals sig hsig)

theorem sound_of_validateRule {rule out : Rule} (h : validateRule rule = .ok out) {modify : Modify}
    (hout : out.modify = some modify) : modify.Sound := by
  unfold validateRule at h
  obtain ⟨-, h⟩ := require_bind_eq_ok.mp h
  obtain ⟨valid, hvalid, h⟩ := bind_eq_ok.mp h
  have hkept : out.modify = valid := by
    unfold validateRuleIds at h
    obtain ⟨-, h⟩ := require_bind_eq_ok.mp h
    obtain ⟨-, h⟩ := require_bind_eq_ok.mp h
    obtain ⟨-, h⟩ := require_bind_eq_ok.mp h
    cases valid with
    | none =>
      obtain ⟨-, h⟩ := require_bind_eq_ok.mp h
      cases h
      rfl
    | some modify =>
      obtain ⟨-, h⟩ := require_bind_eq_ok.mp h
      obtain ⟨-, h⟩ := require_bind_eq_ok.mp h
      obtain ⟨_, -, h⟩ := bind_eq_ok.mp h
      cases h
      rfl
  rw [← hkept, hout] at hvalid
  cases hyaml : rule.modify with
  | none =>
    rw [hyaml] at hvalid
    cases hvalid
  | some given =>
    rw [hyaml] at hvalid
    obtain ⟨checked, hchecked, hsame⟩ := bind_eq_ok.mp hvalid
    cases hsame
    exact sound_of_validateModify hchecked

/-! ## Whose bit it is -/

namespace Modify.Sound

variable {modify : Modify} {i j : Nat}

theorem mem_claims_data (patch : PatchByte) (hpatch : patch ∈ modify.data) (hj : j < 8)
    (hmask : patch.mask.testBit j = true) :
    ((patch.index, j), .data patch.index) ∈ modify.claims := by
  apply List.mem_append_left
  refine List.mem_flatMap.mpr ⟨patch, hpatch, List.mem_map.mpr ⟨j, ?_, rfl⟩⟩
  rw [List.mem_filter, List.mem_range, decide_eq_true_iff, Nat.one_shiftLeft, Nat.and_two_pow, hmask]
  exact ⟨hj, by simp⟩

theorem mem_claims_signal (h : modify.Sound) {sig : SignalPatch} {n : Nat}
    (hsig : modify.signals[n]? = some sig) {k : Nat} (hk : k < sig.bitLength) :
    (sig.cell k, .signal n) ∈ modify.claims := by
  apply List.mem_append_right
  refine List.mem_flatMap.mpr ⟨(sig, n), List.mem_zipIdx_iff_getElem?.mpr hsig, ?_⟩
  refine List.mem_map.mpr ⟨sig.cell k, ?_, rfl⟩
  rw [cells_eq (h.fits sig (List.mem_of_getElem? hsig))]
  exact List.mem_map_of_mem (List.mem_range.mpr hk)

theorem owner_unique (h : modify.Sound) {cell : Nat × Nat} {who who' : Claimant}
    (hwho : (cell, who) ∈ modify.claims) (hwho' : (cell, who') ∈ modify.claims) : who = who' :=
  (Prod.mk.inj (List.inj_on_of_nodup_map h.nodup hwho hwho' rfl)).2

/-- A bit of a signal is in no other signal. -/
theorem signal_unique (h : modify.Sound) {sig sig' : SignalPatch} (hsig : sig ∈ modify.signals)
    (hsig' : sig' ∈ modify.signals) {k k' : Nat} (hk : k < sig.bitLength) (hk' : k' < sig'.bitLength)
    (hcell : sig.cell k = sig'.cell k') : sig = sig' := by
  obtain ⟨n, hn⟩ := List.getElem?_of_mem hsig
  obtain ⟨n', hn'⟩ := List.getElem?_of_mem hsig'
  have hsame := h.owner_unique (h.mem_claims_signal hn hk)
    (hcell ▸ h.mem_claims_signal hn' hk')
  cases hsame
  exact Option.some.inj (hn.symm.trans hn')

/-- A bit of an entry of `data` is in no signal. -/
theorem data_ne_signal (h : modify.Sound) {patch : PatchByte} (hpatch : patch ∈ modify.data)
    (hj : j < 8) (hmask : patch.mask.testBit j = true) {sig : SignalPatch}
    (hsig : sig ∈ modify.signals) {k : Nat} (hk : k < sig.bitLength) :
    sig.cell k ≠ (patch.index, j) := by
  intro hcell
  obtain ⟨n, hn⟩ := List.getElem?_of_mem hsig
  have hsame := h.owner_unique (mem_claims_data patch hpatch hj hmask)
    (hcell ▸ h.mem_claims_signal hn hk)
  cases hsame

theorem cell_mem (h : modify.Sound) {sig : SignalPatch} (hsig : sig ∈ modify.signals) {k : Nat}
    (hk : k < sig.bitLength) : sig.cell k ∈ modify.claims.map Prod.fst := by
  obtain ⟨n, hn⟩ := List.getElem?_of_mem hsig
  exact List.mem_map_of_mem (h.mem_claims_signal hn hk)

end Modify.Sound

/-! ## The field of a call -/

theorem not_of_mapM_guard {α β : Type} {p : α → Prop} [DecidablePred p] {f : α → β} {l : List α}
    (h : (l.mapM fun a => if p a then none else some (f a)).isSome = true) : ∀ a ∈ l, ¬ p a := by
  induction l with
  | nil => exact fun a ha => absurd ha List.not_mem_nil
  | cons a l ih =>
    rw [List.mapM_cons] at h
    obtain ⟨l', h⟩ := Option.isSome_iff_exists.mp h
    obtain ⟨b, hb, h⟩ := Option.bind_eq_some_iff.mp h
    obtain ⟨bs, hbs, -⟩ := Option.bind_eq_some_iff.mp h
    split_ifs at hb with hp
    rw [List.forall_mem_cons]
    exact ⟨hp, ih (Option.isSome_iff_exists.mpr ⟨bs, hbs⟩)⟩

theorem length_loop_of_motorolaBits {left byte bit : Nat}
    (h : (motorolaBits left byte bit).isSome = true) :
    (CanGateway.signalBits.loop left byte bit).length = left := by
  induction left generalizing byte bit with
  | zero => rfl
  | succ left ih =>
    rw [motorolaBits] at h
    rw [CanGateway.signalBits.loop]
    split_ifs at h ⊢ with hout hzero
    · cases h
    · rw [Option.isSome_map] at h
      rw [List.length_cons, ih h]
    · rw [Option.isSome_map] at h
      rw [List.length_cons, ih h]

section Field

variable {modify : Modify} {sig : SignalPatch} {startBit bitLen : UInt8} {bigEndian : Bool}

theorem Modify.Sound.fitsFrame (h : modify.Sound) (hsig : sig ∈ modify.signals)
    (hfield : sig.IsField startBit bitLen bigEndian) :
    signalFitsFrame startBit bitLen bigEndian = true := by
  obtain ⟨hstart, hlen, horder⟩ := hfield
  obtain ⟨hmax, hpos, hle⟩ := h.bounds sig hsig
  have hfits := h.fits sig hsig
  have hin : ¬ (bitLen = 0 ∨ bitLen > 32 ∨ startBit ≥ 64) := by
    rw [not_or, not_or, ← UInt8.toNat_inj, UInt8.not_lt, UInt8.not_le, UInt8.le_iff_toNat_le,
      UInt8.lt_iff_toNat_lt]
    have hzero : (0 : UInt8).toNat = 0 := rfl
    have h32 : (32 : UInt8).toNat = 32 := rfl
    have h64 : (64 : UInt8).toNat = 64 := rfl
    omega
  have hlong : ¬ (bitLen.toNat = 0 ∨ bitLen.toNat > 32) := by omega
  have hlength : (CanGateway.signalBits startBit bitLen bigEndian).length = bitLen.toNat := by
    unfold CanGateway.signalBits
    rw [if_neg hlong]
    rw [hstart, hlen] at hfits
    unfold signalBits at hfits
    cases horder' : sig.byteOrder with
    | little =>
      rw [horder'] at hfits horder
      subst horder
      rw [if_neg (by decide), List.length_map]
      have hall : (List.range bitLen.toNat).takeWhile (fun k => startBit.toNat + k < 64) =
          List.range bitLen.toNat := by
        rw [List.takeWhile_eq_self_iff]
        intro k hk
        exact decide_eq_true (Nat.lt_of_not_le (not_of_mapM_guard hfits k hk))
      rw [hall, List.length_range]
    | big =>
      rw [horder'] at hfits horder
      subst horder
      rw [Option.isSome_map] at hfits
      rw [if_pos (by decide), length_loop_of_motorolaBits hfits]
  unfold signalFitsFrame
  rw [if_neg hin, hlength, UInt8.ofNat_toNat]
  exact decide_eq_true rfl

/-- The cells that `set_signal` writes are those of the signal. -/
theorem Modify.Sound.mem_signalBits (h : modify.Sound) (hsig : sig ∈ modify.signals)
    (hfield : sig.IsField startBit bitLen bigEndian) (i j k : Nat) :
    (i, j, k) ∈ CanGateway.signalBits startBit bitLen bigEndian ↔
      k < sig.bitLength ∧ sig.cell k = (i, j) := by
  rw [(cellOf_spec (h.fitsFrame hsig hfield)).2]
  obtain ⟨hstart, hlen, horder⟩ := hfield
  have hcell : cellOf startBit.toNat bitLen.toNat bigEndian k = sig.cell k := by
    unfold cellOf cell
    cases horder' : sig.byteOrder with
    | little =>
      rw [horder'] at horder
      subst horder
      rw [hstart, if_neg (by decide)]
    | big =>
      rw [horder'] at horder
      subst horder
      rw [hstart, hlen, if_pos (by decide)]
  dsimp only
  rw [hcell, hlen]

/-- A geometry of its own, as `set_signal` is given it. -/
theorem Modify.Sound.isField (h : modify.Sound) (hsig : sig ∈ modify.signals) :
    sig.IsField (UInt8.ofNat sig.bitOffset) (UInt8.ofNat sig.bitLength)
      (decide (sig.byteOrder = .big)) := by
  obtain ⟨hmax, hpos, hle⟩ := h.bounds sig hsig
  refine ⟨?_, ?_, rfl⟩
  · rw [UInt8.toNat_ofNat_of_lt' (by simp only [UInt8.size]; omega)]
  · rw [UInt8.toNat_ofNat_of_lt' (by simp only [UInt8.size]; omega)]

theorem Modify.Sound.cell_inside (h : modify.Sound) (hsig : sig ∈ modify.signals) {k : Nat}
    (hk : k < sig.bitLength) : (sig.cell k).1 < maxFrameDataLen ∧ (sig.cell k).2 < 8 := by
  have hfield := h.isField hsig
  have hmem := (h.mem_signalBits hsig hfield (sig.cell k).1 (sig.cell k).2 k).mpr ⟨hk, rfl⟩
  have hin := (covers_signalBits (h.fitsFrame hsig hfield)).inside _ hmem
  exact ⟨hin.1, hin.2.1⟩

theorem testBit_foldl_cells {l : List ((Nat × Nat) × Claimant)} {acc n : Nat}
    (h : acc.testBit n = true ∨ ∃ o ∈ l, 8 * o.1.1 + o.1.2 = n) :
    (l.foldl (fun declared o => declared ||| 1 <<< (8 * o.1.1 + o.1.2)) acc).testBit n = true := by
  induction l generalizing acc with
  | nil => exact h.resolve_right fun ⟨_, ho, _⟩ => List.not_mem_nil ho
  | cons o l ih =>
    rw [List.foldl_cons]
    apply ih
    rw [Nat.testBit_or, Nat.one_shiftLeft, Nat.testBit_two_pow, Bool.or_eq_true, decide_eq_true_iff]
    rcases h with hacc | ⟨o', ho', hn⟩
    · exact Or.inl (Or.inl hacc)
    · rcases List.mem_cons.mp ho' with rfl | hrest
      · exact Or.inl (Or.inr hn)
      · exact Or.inr ⟨o', hrest, hn⟩

theorem Modify.Sound.declared (h : modify.Sound) {rule : Rule} (hmodify : rule.modify = some modify)
    (i : Fin maxFrameDataLen) {j : Nat} (hj : j < 8) (hmem : (i.val, j) ∈ modify.claims.map Prod.fst) :
    cellBit (rulePatch rule).declared i j = true := by
  have hbit : cellBit (rulePatch rule).declared i j =
      (declaredMask rule.modify).testBit (8 * i + j) := by
    rw [cellBit_get]
    exact testBit_unpackBytes _ i hj
  obtain ⟨o, ho, hcell⟩ := List.mem_map.mp hmem
  rw [hbit, hmodify]
  unfold declaredMask
  dsimp only
  rw [h.cells]
  apply testBit_foldl_cells
  exact Or.inr ⟨o, ho, by rw [hcell]⟩

end Field

/-! ## What a call does to a bit -/

section Call

variable {modify : Modify} {sig : SignalPatch} {startBit bitLen : UInt8} {bigEndian : Bool}
  {declared : Bytes8} {p : PatchData} {i : Fin maxFrameDataLen} {j : Nat}

theorem Modify.Sound.outside_setSignal (h : modify.Sound) (hsig : sig ∈ modify.signals)
    (hfield : sig.IsField startBit bitLen bigEndian) (raw : UInt32) (enabled : Bool) (hj : j < 8)
    (hout : ∀ k < sig.bitLength, sig.cell k ≠ (i.val, j)) :
    let q := change declared p (.setSignal startBit bitLen bigEndian raw enabled)
    cellBit q.andMask i j = cellBit p.andMask i j ∧ cellBit q.orValue i j = cellBit p.orValue i j := by
  intro q
  obtain ⟨hand, hor⟩ :=
    @cellBit_setSignal declared p startBit bitLen bigEndian raw enabled i j hj
  obtain ⟨hmask, -⟩ := signalEncode_spec (h.fitsFrame hsig hfield) raw i j
  have hclear : cellBit (signalEncode startBit bitLen bigEndian raw).1 i j = false := by
    rw [← Bool.not_eq_true, hmask]
    rintro ⟨k, hk⟩
    obtain ⟨hlt, hcell⟩ := (h.mem_signalBits hsig hfield _ _ _).mp hk
    exact hout k hlt hcell
  rw [hand, hor, hclear]
  cases enabled <;> simp

theorem Modify.Sound.inside_setSignal (h : modify.Sound) (hsig : sig ∈ modify.signals)
    (hfield : sig.IsField startBit bitLen bigEndian) (raw : UInt32) (enabled : Bool) {k : Nat}
    (hk : k < sig.bitLength) (hcell : sig.cell k = (i.val, j))
    (hdeclared : cellBit declared i j = true) :
    let q := change declared p (.setSignal startBit bitLen bigEndian raw enabled)
    cellBit q.andMask i j = !enabled ∧
      cellBit q.orValue i j = (enabled && raw.toNat.testBit k) := by
  intro q
  have hj : j < 8 := by
    have hin := (h.cell_inside hsig hk).2
    rwa [hcell] at hin
  obtain ⟨hand, hor⟩ :=
    @cellBit_setSignal declared p startBit bitLen bigEndian raw enabled i j hj
  have hfits := h.fitsFrame hsig hfield
  obtain ⟨hmask, hbits⟩ := signalEncode_spec hfits raw i j
  have hmem := (h.mem_signalBits hsig hfield _ _ _).mpr ⟨hk, hcell⟩
  have hset : cellBit (signalEncode startBit bitLen bigEndian raw).1 i j = true := hmask.mpr ⟨k, hmem⟩
  have hvalue : cellBit (signalEncode startBit bitLen bigEndian raw).2 i j =
      raw.toNat.testBit k := by
    rw [Bool.eq_iff_iff, hbits]
    constructor
    · rintro ⟨k', hmem', hbit⟩
      rw [(covers_signalBits hfits).inj _ _ _ _ hmem hmem']
      exact hbit
    · intro hbit
      exact ⟨k, hmem, hbit⟩
  rw [hand, hor, hset, hvalue, hdeclared]
  cases enabled <;> simp

end Call

/-! ## The fields after the calls -/

/-- The bit that is stamped for bit `k` of a signal with the value. -/
def SignalPatch.stamped (sig : SignalPatch) (calls : List PatchCall) (k value : Nat) : Bool :=
  match sig.overwritten (sig.cell k).1 calls with
  | some byte => byte.toNat.testBit (sig.cell k).2
  | none => value.testBit k

/-- The masks of the fields after the calls. -/
structure Modify.Fields (modify : Modify) (calls : List PatchCall) (p : PatchData) : Prop where
  data : ∀ patch ∈ modify.data, ∀ j < 8, patch.mask.testBit j = true →
    cellBit p.andMask patch.index j = false ∧
      cellBit p.orValue patch.index j = (patch.current calls).testBit j
  signals : ∀ sig ∈ modify.signals, ∀ k < sig.bitLength,
    cellBit p.andMask (sig.cell k).1 (sig.cell k).2 = (sig.current calls).isNone ∧
      cellBit p.orValue (sig.cell k).1 (sig.cell k).2 =
        (sig.current calls).any (sig.stamped calls k)
  rest : ∀ i < maxFrameDataLen, ∀ j < 8, (i, j) ∉ modify.claims.map Prod.fst →
    cellBit p.andMask i j = true ∧ cellBit p.orValue i j = false

section Current

variable {calls : List PatchCall} {c : PatchCall} {patch : PatchByte} {sig : SignalPatch} {index : Nat}

theorem PatchByte.current_append : patch.current (calls ++ [c]) =
    ((byteFor patch.index c).map UInt8.toNat).getD (patch.current calls) := by
  unfold PatchByte.current
  rw [latest_append]
  cases byteFor patch.index c <;> rfl

theorem SignalPatch.current_append : sig.current (calls ++ [c]) =
    (valueFor sig c).getD (sig.current calls) := by
  unfold current
  rw [latest_append]
  cases valueFor sig c <;> rfl

theorem SignalPatch.overwritten_append : sig.overwritten index (calls ++ [c]) =
    if (valueFor sig c).isSome then none
    else (byteFor index c).or (sig.overwritten index calls) := by
  unfold overwritten
  rw [latest_append]
  unfold overwrites
  cases valueFor sig c <;> cases byteFor index c <;> rfl

end Current

namespace Modify.Fields

variable {modify : Modify} {calls : List PatchCall} {p q : PatchData}

/-- A call that gives nothing for a field, and changes no bit. -/
theorem idle {c : PatchCall} (h : modify.Fields calls p) (hand : q.andMask = p.andMask)
    (hor : q.orValue = p.orValue) (hbyte : ∀ index, byteFor index c = none)
    (hvalue : ∀ sig, valueFor sig c = none) : modify.Fields (calls ++ [c]) q := by
  refine ⟨fun patch hpatch j hj hmask => ?_, fun sig hsig k hk => ?_, fun i hi j hj hnot => ?_⟩
  · rw [hand, hor, PatchByte.current_append, hbyte]
    exact h.data patch hpatch j hj hmask
  · unfold stamped
    rw [hand, hor, current_append, overwritten_append, hbyte, hvalue]
    exact h.signals sig hsig k hk
  · rw [hand, hor]
    exact h.rest i hi j hj hnot

variable {declared : Bytes8}

theorem setByte (h : modify.Fields calls p) (hsound : modify.Sound) (index value : UInt8) :
    modify.Fields (calls ++ [.setByte index value])
      (change declared p (.setByte index value)) := by
  have hcell (i : Fin maxFrameDataLen) {j : Nat} (hj : j < 8) :=
    @cellBit_setByte declared p index value i j hj
  refine ⟨fun patch hpatch j hj hmask => ?_, fun sig hsig k hk => ?_, fun i hi j hj hnot => ?_⟩
  · have hi : patch.index < maxFrameDataLen := Nat.lt_succ_of_le (hsound.bytes patch hpatch).1
    obtain ⟨hand, hor⟩ := hcell ⟨patch.index, hi⟩ hj
    obtain ⟨hmask, hvalue⟩ := h.data patch hpatch j hj hmask
    dsimp only at hand hor
    rw [hand, hor, hmask, hvalue, PatchByte.current_append, byteFor]
    refine ⟨rfl, ?_⟩
    split_ifs
    · exact Bool.and_true _
    · rfl
  · obtain ⟨hi, hj⟩ := hsound.cell_inside hsig hk
    obtain ⟨hand, hor⟩ := hcell ⟨(sig.cell k).1, hi⟩ hj
    obtain ⟨hmask, hvalue⟩ := h.signals sig hsig k hk
    dsimp only at hand hor
    have hnone : valueFor sig (.setByte index value) = none := rfl
    unfold stamped at hvalue ⊢
    rw [hand, hor, hmask, hvalue, current_append, overwritten_append, hnone,
      byteFor]
    refine ⟨rfl, ?_⟩
    simp only [Option.isSome_none, Bool.false_eq_true, if_false, Option.getD_none]
    split_ifs
    · cases sig.current calls <;> simp
    · rfl
  · obtain ⟨hand, hor⟩ := hcell ⟨i, hi⟩ hj
    obtain ⟨hmask, hvalue⟩ := h.rest i hi j hj hnot
    dsimp only at hand hor
    rw [hand, hor, hmask, hvalue]
    simp

theorem setSignal (h : modify.Fields calls p) (hsound : modify.Sound) {startBit bitLen : UInt8}
    {bigEndian : Bool} (raw : UInt32) (enabled : Bool) {field : SignalPatch}
    (hfield : field ∈ modify.signals) (his : field.IsField startBit bitLen bigEndian)
    (hdeclared : ∀ (i : Fin maxFrameDataLen) (j : Nat), j < 8 →
      (i.val, j) ∈ modify.claims.map Prod.fst → cellBit declared i j = true) :
    modify.Fields (calls ++ [.setSignal startBit bitLen bigEndian raw enabled])
      (change declared p (.setSignal startBit bitLen bigEndian raw enabled)) := by
  have houtside (i : Fin maxFrameDataLen) {j : Nat} (hj : j < 8) :=
    @Modify.Sound.outside_setSignal modify field startBit bitLen bigEndian declared p i j hsound
      hfield his raw enabled hj
  refine ⟨fun patch hpatch j hj hmask => ?_, fun sig hsig k hk => ?_, fun i hi j hj hnot => ?_⟩
  · have hi : patch.index < maxFrameDataLen := Nat.lt_succ_of_le (hsound.bytes patch hpatch).1
    obtain ⟨hand, hor⟩ := houtside ⟨patch.index, hi⟩ hj fun k hk =>
      hsound.data_ne_signal hpatch hj hmask hfield hk
    dsimp only at hand hor
    rw [hand, hor, PatchByte.current_append]
    exact h.data patch hpatch j hj hmask
  · obtain ⟨hi, hj⟩ := hsound.cell_inside hsig hk
    have hnone (index : Nat) : byteFor index
        (.setSignal startBit bitLen bigEndian raw enabled) = none := rfl
    unfold stamped
    rw [current_append, overwritten_append, hnone, valueFor]
    by_cases hsame : sig.IsField startBit bitLen bigEndian
    · obtain ⟨hand, hor⟩ := @Modify.Sound.inside_setSignal modify sig startBit bitLen bigEndian
        declared p ⟨(sig.cell k).1, hi⟩ (sig.cell k).2 hsound hsig hsame raw enabled k hk rfl
        (hdeclared _ _ hj (hsound.cell_mem hsig hk))
      dsimp only at hand hor
      rw [hand, hor, if_pos hsame]
      cases enabled <;> simp
    · obtain ⟨hand, hor⟩ := houtside ⟨(sig.cell k).1, hi⟩ hj fun k' hk' hcell =>
        hsame (hsound.signal_unique hfield hsig hk' hk hcell ▸ his)
      dsimp only at hand hor
      rw [hand, hor, if_neg hsame]
      exact h.signals sig hsig k hk
  · obtain ⟨hand, hor⟩ := houtside ⟨i, hi⟩ hj fun k hk hcell =>
      hnot (hcell ▸ hsound.cell_mem hfield hk)
    dsimp only at hand hor
    rw [hand, hor]
    exact h.rest i hi j hj hnot

theorem change (h : modify.Fields calls p) (hsound : modify.Sound) {c : PatchCall}
    (hadmits : modify.Admits c)
    (hdeclared : ∀ (i : Fin maxFrameDataLen) (j : Nat), j < 8 →
      (i.val, j) ∈ modify.claims.map Prod.fst → cellBit declared i j = true) :
    modify.Fields (calls ++ [c]) (c.change declared p) := by
  cases c with
  | setByte index value => exact h.setByte hsound index value
  | setSignal startBit bitLen bigEndian raw enabled =>
    obtain ⟨field, hfield, his⟩ := hadmits
    exact h.setSignal hsound raw enabled hfield his hdeclared
  | setCanId canId => exact h.idle rfl rfl (fun _ => rfl) (fun _ => rfl)
  | commit => exact h.idle rfl rfl (fun _ => rfl) (fun _ => rfl)

theorem run (hsound : modify.Sound) (h : modify.Fields [] p) {calls : List PatchCall}
    (hadmits : ∀ c ∈ calls, modify.Admits c)
    (hdeclared : ∀ (i : Fin maxFrameDataLen) (j : Nat), j < 8 →
      (i.val, j) ∈ modify.claims.map Prod.fst → cellBit declared i j = true) :
    modify.Fields calls (calls.foldl (PatchCall.change declared) p) := by
  induction calls using List.reverseRecOn with
  | nil => exact h
  | append_singleton calls c ih =>
    rw [List.foldl_append, List.foldl_cons, List.foldl_nil]
    rw [List.forall_mem_append, List.forall_mem_singleton] at hadmits
    exact (ih hadmits.1).change hsound hadmits.2 hdeclared

end Modify.Fields

/-- At the boot. -/
theorem fields_patchOf {rule : Rule} {given modify : Modify} (hsound : modify.Sound)
    (hvalid : ValidModify given modify) (hmodify : rule.modify = some modify) :
    modify.Fields [] (patchOf rule) := by
  have hcells (i : Fin maxFrameDataLen) {j : Nat} (hj : j < 8) :
      cellBit (patchOf rule).andMask i j = (packedPatchMasks (some modify)).1.testBit (8 * i + j) ∧
        cellBit (patchOf rule).orValue i j =
          (packedPatchMasks (some modify)).2.testBit (8 * i + j) := by
    rw [patchOf, hmodify, cellBit_get, cellBit_get, testBit_unpackBytes _ i hj,
      testBit_unpackBytes _ i hj]
    exact ⟨rfl, rfl⟩
  have hclaimed {i j : Nat} {b : Bool} (hj : j < 8) (hwrites : given.Writes i j b) :
      ((i, j), some b) ∈ given.written :=
    hvalid.mem_written hj hwrites
  have hkeys : given.written.map Prod.fst = modify.claims.map Prod.fst := by
    rw [written_cells]
    unfold Modify.claims
    rw [hvalid.data, hvalid.signals]
  refine ⟨fun patch hpatch j hj hmask => ?_, fun sig hsig k hk => ?_, fun i hi j hj hnot => ?_⟩
  · have hi : patch.index < maxFrameDataLen := Nat.lt_succ_of_le (hsound.bytes patch hpatch).1
    obtain ⟨hand, hor⟩ := hcells ⟨patch.index, hi⟩ hj
    have hwrites : given.Writes patch.index j (patch.value.testBit j) :=
      Or.inl ⟨patch, hvalid.data ▸ hpatch, rfl, hmask, rfl⟩
    obtain ⟨hclear, hset⟩ := packed_of_writes hvalid ⟨patch.index, hi⟩ hj hwrites
    exact ⟨hand.trans hclear, hor.trans hset⟩
  · obtain ⟨hi, hj⟩ := hsound.cell_inside hsig hk
    obtain ⟨hand, hor⟩ := hcells ⟨(sig.cell k).1, hi⟩ hj
    have hcurrent : sig.current [] = sig.value := rfl
    have hgiven : sig ∈ given.signals := hvalid.signals ▸ hsig
    cases hvalue : sig.value with
    | some value =>
      have hwrites : given.Writes (sig.cell k).1 (sig.cell k).2 (value.testBit k) :=
        Or.inr ⟨sig, hgiven, value, hvalue, k, hk, rfl, rfl⟩
      obtain ⟨hclear, hset⟩ := packed_of_writes hvalid ⟨(sig.cell k).1, hi⟩ hj hwrites
      rw [hcurrent, hvalue]
      exact ⟨hand.trans hclear, hor.trans hset⟩
    | none =>
      have hmem : (sig.cell k, (none : Option Bool)) ∈ given.written := by
        apply List.mem_append_right
        refine List.mem_flatMap.mpr ⟨sig, hgiven, List.mem_map.mpr ⟨(sig.cell k, k), ?_, ?_⟩⟩
        · rw [List.mem_zipIdx_iff_getElem?, cells_eq (hvalid.fits sig hgiven), List.getElem?_map,
            List.getElem?_range hk]
          rfl
        · rw [hvalue]
          rfl
      have hnone : ∀ b, ¬ given.Writes (sig.cell k).1 (sig.cell k).2 b := by
        intro b hwrites
        have hsame := List.inj_on_of_nodup_map (hkeys ▸ hsound.nodup) hmem (hclaimed hj hwrites) rfl
        cases (Prod.mk.inj hsame).2
      obtain ⟨hstays, hclear⟩ := packed_of_not_writes hvalid ⟨(sig.cell k).1, hi⟩ hj hnone
      rw [hcurrent, hvalue]
      exact ⟨hand.trans hstays, hor.trans hclear⟩
  · obtain ⟨hand, hor⟩ := hcells ⟨i, hi⟩ hj
    have hnone : ∀ b, ¬ given.Writes i j b := fun b hwrites =>
      hnot (hkeys ▸ List.mem_map_of_mem (hclaimed hj hwrites))
    obtain ⟨hstays, hclear⟩ := packed_of_not_writes hvalid ⟨i, hi⟩ hj hnone
    exact ⟨hand.trans hstays, hor.trans hclear⟩

/-! ## What is sent -/

/-- The patch of a rule when the calls have been committed. -/
def published (rule : Rule) (calls : List PatchCall) : PatchData :=
  ((calls ++ [PatchCall.commit]).foldl RulePatch.call (rulePatch rule)).banks.activePatch

theorem published_eq (rule : Rule) (calls : List PatchCall) : published rule calls =
    calls.foldl (change (rulePatch rule).declared) (patchOf rule) := by
  have hprepared : (calls.foldl RulePatch.call (rulePatch rule)).banks.prepared =
      calls.foldl (change (rulePatch rule).declared) (patchOf rule) := by
    induction calls using List.reverseRecOn with
    | nil => rfl
    | append_singleton calls c ih =>
      rw [List.foldl_append, List.foldl_append, List.foldl_cons, List.foldl_cons, List.foldl_nil,
        List.foldl_nil, (RulePatch.call_spec _ c).2.1, ih, RulePatch.declared_calls]
  unfold published
  rw [List.foldl_append, List.foldl_cons, List.foldl_nil,
    (RulePatch.call_spec _ commit).2.2, if_pos rfl, hprepared]

theorem Modify.Fields.independent_iff {modify : Modify} {calls : List PatchCall} {p : PatchData}
    (h : modify.Fields calls p) (hsound : modify.Sound) :
    (∀ f : CanFrame, f.rtr = false → f.dlc = 8 →
      modify.Independent calls f.data (applyPatch p f).data) ↔ modify.Spared calls := by
  have hsent {f : CanFrame} (hrtr : f.rtr = false) (hdlc : f.dlc = 8) {i j : Nat}
      (hi : i < maxFrameDataLen) : cellBit (applyPatch p f).data i j =
        (cellBit f.data i j && cellBit p.andMask i j || cellBit p.orValue i j) := by
    have hin : i < min f.dlc maxFrameDataLen := by rwa [hdlc]
    exact (cellBit_applyPatch p f ⟨i, hi⟩ j).trans (if_pos ⟨hrtr, hin⟩)
  constructor
  · intro hall sig hsig value hvalue k hk byte hbyte
    have hin := (hsound.cell_inside hsig hk).1
    have hsignal := (hall { dlc := 8 } rfl rfl).signals sig hsig k hk
    obtain ⟨hmask, hbit⟩ := h.signals sig hsig k hk
    rw [hsent rfl rfl hin, hmask, hbit, hvalue] at hsignal
    unfold stamped at hsignal
    rw [hbyte] at hsignal
    simpa using hsignal
  · intro hspared f hrtr hdlc
    refine ⟨fun patch hpatch j hj hmask => ?_, fun sig hsig k hk => ?_, fun i hi j hj hnot => ?_⟩
    · have hi : patch.index < maxFrameDataLen := Nat.lt_succ_of_le (hsound.bytes patch hpatch).1
      obtain ⟨hclear, hbit⟩ := h.data patch hpatch j hj hmask
      rw [hsent hrtr hdlc hi, hclear, hbit, Bool.and_false, Bool.false_or]
    · obtain ⟨hmask, hbit⟩ := h.signals sig hsig k hk
      rw [hsent hrtr hdlc (hsound.cell_inside hsig hk).1, hmask, hbit]
      cases hvalue : sig.current calls with
      | none => simp
      | some value =>
        have hstamped : sig.stamped calls k value = value.testBit k := by
          unfold stamped
          cases hbyte : sig.overwritten (sig.cell k).1 calls with
          | none => rfl
          | some byte => exact hspared sig hsig value hvalue k hk byte hbyte
        simp [hstamped]
    · obtain ⟨hstays, hclear⟩ := h.rest i hi j hj hnot
      rw [hsent hrtr hdlc hi, hstays, hclear, Bool.and_true, Bool.or_false]

/-- After any updates, the fields of an updatable rule are independent just when every byte written
over a stamped signal since it was set has the bits of the signal. -/
theorem independent_iff_spared {rule out : Rule} (h : validateRule rule = .ok out) {modify : Modify}
    (hmodify : out.modify = some modify) {calls : List PatchCall}
    (hadmits : ∀ c ∈ calls, modify.Admits c) :
    (∀ f : CanFrame, f.rtr = false → f.dlc = 8 →
      modify.Independent calls f.data (applyPatch (published out calls) f).data) ↔
    modify.Spared calls := by
  have hsound := sound_of_validateRule h hmodify
  have hrel := (validRule h).modify
  rw [hmodify] at hrel
  obtain ⟨given, hvalid⟩ : ∃ given, ValidModify given modify := by
    cases hgiven : rule.modify with
    | none =>
      rw [hgiven] at hrel
      cases hrel
    | some given =>
      rw [hgiven] at hrel
      cases hrel with
      | some hvalid => exact ⟨given, hvalid⟩
  have hstart := fields_patchOf hsound hvalid hmodify
  have hrun := hstart.run hsound hadmits fun i j hj hmem => hsound.declared hmodify i hj hmem
  rw [published_eq]
  exact hrun.independent_iff hsound

/-- A byte of which one half is an entry of `data` and the other a signal. -/
def sharedByte : Modify :=
  { data := [{ index := 0, value := 0, mask := 0x0F }]
    signals := [{ bitOffset := 4, bitLength := 4, value := some 5 }] }

theorem independent_iff_spared_sample :
    (∀ f : CanFrame, f.rtr = false → f.dlc = 8 →
      sharedByte.Independent [.setByte 0 0x53] f.data
        (applyPatch (published
          { hasId := true, canId := 0x100, canIdMask := some 0x7FF, modify := some sharedByte }
          [.setByte 0 0x53]) f).data) ↔
    sharedByte.Spared [.setByte 0 0x53] := by
  refine @independent_iff_spared { hasId := true, canId := 0x100, modify := some sharedByte } _ ?_
    sharedByte rfl _ ?_
  · decide
  · rw [List.forall_mem_singleton]
    exact ⟨_, List.mem_singleton_self _, rfl⟩

/-- A value for the entry of `data` changes the signal. -/
theorem not_independent :
    ¬ ∀ (rule out : Rule) (modify : Modify) (calls : List PatchCall), validateRule rule = .ok out →
      out.hasId = true → out.modify = some modify → (∀ c ∈ calls, modify.Admits c) →
        ∀ f : CanFrame, f.rtr = false → f.dlc = 8 →
          modify.Independent calls f.data (applyPatch (published out calls) f).data := by
  intro h
  have hindependent := h { hasId := true, canId := 0x100, modify := some sharedByte }
    { hasId := true, canId := 0x100, canIdMask := some 0x7FF, modify := some sharedByte } sharedByte
    [.setByte 0 0xF3] (by decide) rfl rfl
    (List.forall_mem_singleton.mpr ⟨_, List.mem_singleton_self _, rfl⟩) { dlc := 8 } rfl rfl
  have hbit := hindependent.signals _ (List.mem_singleton_self _) 1 (by decide)
  exact absurd hbit (by decide)

end Config

end EspCars.CanGateway
