import EspCars.CanGateway.E2e
import EspCars.CanGateway.Publication
import EspCars.CanGateway.SignalBits

/-!
# A rule writes declared bits only

`RulePatch` lets the loop change the masks of a rule at any time, but never beyond the bits that the
rule declares: both banks keep to them (`Within`) through every call. A signal that is stamped into
declared bits and published reads back as its value.
-/

namespace EspCars.CanGateway

open RulePatch

/-- The patch leaves every bit as it is that is not declared. -/
def PatchData.Within (declared : Bytes8) (p : PatchData) : Prop :=
  ∀ (i : Fin maxFrameDataLen) (j : Nat), j < 8 → cellBit declared i j = false →
    cellBit p.andMask i j = true ∧ cellBit p.orValue i j = false

/-! ## One byte -/

theorem testBit_not (a : UInt8) {j : Nat} (hj : j < 8) :
    (~~~a).toNat.testBit j = !a.toNat.testBit j := by
  change (~~~a).toBitVec.getLsbD j = !a.toBitVec.getLsbD j
  rw [UInt8.toBitVec_not, BitVec.getLsbD_not, decide_eq_true hj, Bool.true_and]

section Byte

variable {m old bits : UInt8} {j : Nat}

theorem testBit_signalMask (enabled : Bool) (hj : j < 8) :
    (signalMask enabled m old).toNat.testBit j =
      if enabled then old.toNat.testBit j && !m.toNat.testBit j
      else old.toNat.testBit j || m.toNat.testBit j := by
  cases enabled with
  | true => exact (UInt8.toNat_and .. ▸ Nat.testBit_and ..).trans (by rw [testBit_not m hj]; rfl)
  | false => exact UInt8.toNat_or .. ▸ Nat.testBit_or ..

theorem testBit_signalValue (enabled : Bool) (hj : j < 8) :
    (signalValue enabled m bits old).toNat.testBit j =
      (old.toNat.testBit j && !m.toNat.testBit j ||
        enabled && (bits.toNat.testBit j && m.toNat.testBit j)) := by
  cases enabled with
  | true =>
    rw [signalValue, if_pos rfl, UInt8.toNat_or, Nat.testBit_or, UInt8.toNat_and,
      Nat.testBit_and, UInt8.toNat_and, Nat.testBit_and, testBit_not m hj, Bool.true_and]
  | false =>
    rw [signalValue, if_neg Bool.false_ne_true, UInt8.toNat_and, Nat.testBit_and,
      testBit_not m hj, Bool.false_and, Bool.or_false]

end Byte

/-! ## One call -/

section Change

variable {declared : Bytes8} {p : PatchData}

theorem get_setSignal (startBit bitLen : UInt8) (bigEndian : Bool) (raw : UInt32) (enabled : Bool)
    (i : Fin maxFrameDataLen) :
    let q := PatchCall.change declared p (.setSignal startBit bitLen bigEndian raw enabled)
    let encoded := signalEncode startBit bitLen bigEndian raw
    let m := encoded.1.get i &&& declared.get i
    q.andMask.get i = signalMask enabled m (p.andMask.get i) ∧
      q.orValue.get i = signalValue enabled m (encoded.2.get i) (p.orValue.get i) := by
  intro q encoded m
  exact ⟨Vector.getElem_ofFn i.isLt, Vector.getElem_ofFn i.isLt⟩

theorem cellBit_setByte (index value : UInt8) (i : Fin maxFrameDataLen) {j : Nat} (hj : j < 8) :
    let q := PatchCall.change declared p (.setByte index value)
    cellBit q.andMask i j = cellBit p.andMask i j ∧
      cellBit q.orValue i j =
        if index.toNat = i then value.toNat.testBit j && !cellBit p.andMask i j
        else cellBit p.orValue i j := by
  unfold PatchCall.change
  dsimp only
  split_ifs with hindex hsame hsame
  · have hi : i = ⟨index.toNat, hindex⟩ := Fin.ext hsame.symm
    have hget : (p.orValue.set index.toNat (byteValue p ⟨index.toNat, hindex⟩ value)).get i =
        value &&& ~~~ p.andMask.get i := by
      rw [hi]
      exact Vector.getElem_set_self hindex
    refine ⟨rfl, ?_⟩
    rw [cellBit_get, hget, UInt8.toNat_and, Nat.testBit_and, testBit_not _ hj, cellBit_get]
  · have hget : (p.orValue.set index.toNat (byteValue p ⟨index.toNat, hindex⟩ value)).get i =
        p.orValue.get i :=
      Vector.getElem_set_ne _ _ hsame
    refine ⟨rfl, ?_⟩
    rw [cellBit_get, hget, cellBit_get]
  · exact absurd (hsame ▸ i.isLt) hindex
  · exact ⟨rfl, rfl⟩

theorem cellBit_setSignal (startBit bitLen : UInt8) (bigEndian : Bool) (raw : UInt32)
    (enabled : Bool) (i : Fin maxFrameDataLen) {j : Nat} (hj : j < 8) :
    let q := PatchCall.change declared p (.setSignal startBit bitLen bigEndian raw enabled)
    let encoded := signalEncode startBit bitLen bigEndian raw
    let m := cellBit encoded.1 i j && cellBit declared i j
    cellBit q.andMask i j =
        (if enabled then cellBit p.andMask i j && !m else cellBit p.andMask i j || m) ∧
      cellBit q.orValue i j =
        (cellBit p.orValue i j && !m || enabled && (cellBit encoded.2 i j && m)) := by
  intro q encoded m
  obtain ⟨hand, hor⟩ := @get_setSignal declared p startBit bitLen bigEndian raw enabled i
  have hm : m = (encoded.1.get i &&& declared.get i).toNat.testBit j := by
    rw [UInt8.toNat_and, Nat.testBit_and, ← cellBit_get, ← cellBit_get]
  rw [hm, cellBit_get, cellBit_get, cellBit_get, cellBit_get, cellBit_get, hand, hor,
    testBit_signalMask enabled hj, testBit_signalValue enabled hj]
  exact ⟨rfl, rfl⟩

theorem PatchData.Within.change (h : p.Within declared) (c : PatchCall) :
    (c.change declared p).Within declared := by
  cases c with
  | setByte index value =>
    intro i j hj hnot
    obtain ⟨hmask, hvalue⟩ := h i j hj hnot
    obtain ⟨hand, hor⟩ := @cellBit_setByte declared p index value i j hj
    rw [hand, hor, hmask, hvalue]
    simp
  | setSignal startBit bitLen bigEndian raw enabled =>
    intro i j hj hnot
    obtain ⟨hmask, hvalue⟩ := h i j hj hnot
    obtain ⟨hand, hor⟩ :=
      @cellBit_setSignal declared p startBit bitLen bigEndian raw enabled i j hj
    rw [hand, hor, hnot, hmask, hvalue]
    cases enabled <;> simp
  | setCanId canId => exact h
  | commit => exact h

end Change

namespace RulePatch

variable {r : RulePatch}

/-- A call changes what is prepared and leaves what is published, until a commit. -/
theorem call_spec (r : RulePatch) (c : PatchCall) :
    (r.call c).declared = r.declared ∧
      (r.call c).banks.prepared = c.change r.declared r.banks.prepared ∧
      (r.call c).banks.activePatch =
        if c = .commit then r.banks.prepared else r.banks.activePatch := by
  have hdeclared : (r.call c).declared = r.declared := by
    cases c with
    | setByte index value =>
      rw [call, setByte]
      split_ifs <;> rfl
    | _ => rfl
  refine ⟨hdeclared, ?_⟩
  by_cases hc : c = .commit
  · subst hc
    rw [if_pos rfl]
    change r.banks.commit.prepared = r.banks.prepared ∧ r.banks.commit.activePatch = r.banks.prepared
    generalize r.banks = b
    cases b with
    | mk b0 b1 active staging => cases active <;> cases staging <;> exact ⟨rfl, rfl⟩
  · rw [if_neg hc, ← foldl_callStores_eq]
    rcases foldl_callStores r.declared r.banks hc with hstaged | ⟨hsame, hchange⟩
    · rw [hstaged, PatchBanks.prepared, PatchBanks.staging_setStaged, PatchBanks.staging_stage,
        if_pos rfl, PatchBanks.staged_setStaged, PatchBanks.activePatch_setStaged,
        PatchBanks.activePatch_stage]
      exact ⟨rfl, rfl⟩
    · rw [hsame, hchange]
      exact ⟨rfl, rfl⟩

/-- What is published and what is prepared keep to the declared bits. -/
structure Confined (r : RulePatch) : Prop where
  published : r.banks.activePatch.Within r.declared
  prepared : r.banks.prepared.Within r.declared

theorem Confined.call (h : r.Confined) (c : PatchCall) : (r.call c).Confined := by
  obtain ⟨hdeclared, hprepared, hactive⟩ := r.call_spec c
  constructor
  · rw [hdeclared, hactive]
    split_ifs
    · exact h.prepared
    · exact h.published
  · rw [hdeclared, hprepared]
    exact h.prepared.change c

theorem Confined.calls (h : r.Confined) (cs : List PatchCall) :
    (cs.foldl RulePatch.call r).Confined := by
  induction cs generalizing r with
  | nil => exact h
  | cons c cs ih => exact ih (h.call c)

theorem declared_calls (r : RulePatch) (cs : List PatchCall) :
    (cs.foldl call r).declared = r.declared := by
  induction cs generalizing r with
  | nil => rfl
  | cons c cs ih => rw [List.foldl_cons, ih, (r.call_spec c).1]

end RulePatch

/-! ## The frame -/

theorem cellBit_applyPatch (p : PatchData) (f : CanFrame) (i : Fin maxFrameDataLen) (j : Nat) :
    cellBit (applyPatch p f).data i j =
      if f.rtr = false ∧ i.val < min f.dlc maxFrameDataLen then
        cellBit f.data i j && cellBit p.andMask i j || cellBit p.orValue i j
      else cellBit f.data i j := by
  rw [data_applyPatch]
  cases hrtr : f.rtr with
  | true => rw [if_pos rfl, if_neg (fun h => Bool.noConfusion h.1)]
  | false =>
    rw [if_neg Bool.false_ne_true, cellBit_get, cellBit_get, cellBit_get, cellBit_get]
    by_cases hi : i.val < min f.dlc maxFrameDataLen
    · have hget : (Vector.ofFn fun i : Fin maxFrameDataLen =>
          if i < min f.dlc maxFrameDataLen then
            (f.data.get i &&& p.andMask.get i) ||| p.orValue.get i
          else f.data.get i).get i = (f.data.get i &&& p.andMask.get i) ||| p.orValue.get i :=
        (Vector.getElem_ofFn i.isLt).trans (if_pos hi)
      rw [hget, if_pos ⟨rfl, hi⟩, UInt8.toNat_or, Nat.testBit_or, UInt8.toNat_and, Nat.testBit_and]
    · have hget : (Vector.ofFn fun i : Fin maxFrameDataLen =>
          if i < min f.dlc maxFrameDataLen then
            (f.data.get i &&& p.andMask.get i) ||| p.orValue.get i
          else f.data.get i).get i = f.data.get i :=
        (Vector.getElem_ofFn i.isLt).trans (if_neg hi)
      rw [hget, if_neg (fun h => hi h.2)]

theorem PatchData.Within.keeps {declared : Bytes8} {p : PatchData} (h : p.Within declared)
    (f : CanFrame) (i : Fin maxFrameDataLen) {j : Nat} (hj : j < 8)
    (hnot : cellBit declared i j = false) :
    cellBit (applyPatch p f).data i j = cellBit f.data i j := by
  obtain ⟨hmask, hvalue⟩ := h i j hj hnot
  rw [cellBit_applyPatch, hmask, hvalue, Bool.and_true, Bool.or_false, ite_self]

/-- A declared field that is stamped and published is in every full data frame. -/
theorem RulePatch.holds_setSignal (r : RulePatch) {startBit bitLen : UInt8} {bigEndian : Bool}
    (hfits : signalFitsFrame startBit bitLen bigEndian = true)
    (hdeclared : ∀ c ∈ signalBits startBit bitLen bigEndian, cellBit r.declared c.1 c.2.1 = true)
    (raw : UInt32) {f : CanFrame} (hrtr : f.rtr = false) (hdlc : maxFrameDataLen ≤ f.dlc) :
    Holds
      (applyPatch
        (((r.call (.setSignal startBit bitLen bigEndian raw true)).call .commit).banks.activePatch)
        f).data (signalBits startBit bitLen bigEndian) raw := by
  obtain ⟨-, hprepared, -⟩ := r.call_spec (.setSignal startBit bitLen bigEndian raw true)
  obtain ⟨-, -, hactive⟩ :=
    (r.call (.setSignal startBit bitLen bigEndian raw true)).call_spec .commit
  rw [hactive, if_pos rfl, hprepared]
  rintro ⟨byte, j, k⟩ hcell
  have hcovers := covers_signalBits hfits
  obtain ⟨hbyte, hj, -⟩ := hcovers.inside _ hcell
  obtain ⟨i, rfl⟩ : ∃ i : Fin maxFrameDataLen, i.val = byte := ⟨⟨byte, hbyte⟩, rfl⟩
  obtain ⟨hand, hor⟩ := @cellBit_setSignal r.declared r.banks.prepared startBit bitLen bigEndian
    raw true i j hj
  obtain ⟨hfield, hbits⟩ := signalEncode_spec hfits raw i j
  have hin : i.val < min f.dlc maxFrameDataLen := Nat.lt_min.mpr ⟨by omega, i.isLt⟩
  have hmask : cellBit (signalEncode startBit bitLen bigEndian raw).1 i j = true :=
    hfield.mpr ⟨k, hcell⟩
  have hdecl := hdeclared _ hcell
  have hvalue : cellBit (signalEncode startBit bitLen bigEndian raw).2 i j =
      raw.toNat.testBit k := by
    rw [Bool.eq_iff_iff, hbits]
    constructor
    · rintro ⟨k', hcell', hset⟩
      rw [hcovers.inj _ _ _ _ hcell hcell']
      exact hset
    · intro hset
      exact ⟨k, hcell, hset⟩
  dsimp only at hdecl ⊢
  rw [cellBit_applyPatch, if_pos ⟨hrtr, hin⟩, hand, hor, hmask, hdecl, hvalue]
  simp

/-- After any calls: a signal in declared bits that is stamped and published decodes to its value in
every full data frame, and no bit that is not declared is changed in any frame. -/
theorem extractSignal_setSignal (initial : PatchData) (declared : UInt64)
    (hinitial : initial.Within (RulePatch.init initial declared).declared)
    (calls : List PatchCall) :
    let r := calls.foldl RulePatch.call (RulePatch.init initial declared)
    (∀ startBit bitLen bigEndian raw, signalFitsFrame startBit bitLen bigEndian = true →
      (∀ c ∈ signalBits startBit bitLen bigEndian,
        cellBit (RulePatch.init initial declared).declared c.1 c.2.1 = true) →
      ∀ f : CanFrame, f.rtr = false → maxFrameDataLen ≤ f.dlc →
        let published :=
          ((r.call (.setSignal startBit bitLen bigEndian raw true)).call .commit).banks.activePatch
        (extractSignal (applyPatch published f).data 8 startBit bitLen bigEndian).toNat =
          raw.toNat % 2 ^ bitLen.toNat) ∧
    ∀ (f : CanFrame) (i : Fin maxFrameDataLen) (j : Nat), j < 8 →
      cellBit (RulePatch.init initial declared).declared i j = false →
        cellBit (applyPatch r.banks.activePatch f).data i j = cellBit f.data i j := by
  intro r
  have hr : r.declared = (RulePatch.init initial declared).declared :=
    RulePatch.declared_calls _ calls
  have hstart : (RulePatch.init initial declared).Confined := ⟨hinitial, hinitial⟩
  have hconfined : r.Confined := hstart.calls calls
  rw [← hr]
  refine ⟨?_, fun f i j hj hnot => hconfined.published.keeps f i hj hnot⟩
  intro startBit bitLen bigEndian raw hfits hdeclared f hrtr hdlc
  exact extractSignal_eq hfits (r.holds_setSignal hfits hdeclared raw hrtr hdlc)

/-- Twelve Motorola bits over two bytes, after a byte was written into the same bits. -/
theorem extractSignal_setSignal_motorola :
    let r := [PatchCall.setByte 0 0x55, .commit].foldl RulePatch.call (RulePatch.init {} 0xFFFF)
    let published := ((r.call (.setSignal 7 12 true 0xABC true)).call .commit).banks.activePatch
    (extractSignal (applyPatch published { dlc := 8 }).data 8 7 12 true).toNat = 0xABC := by
  intro r published
  have hinitial : ({} : PatchData).Within (RulePatch.init {} 0xFFFF).declared := by
    unfold PatchData.Within
    decide
  obtain ⟨hdecodes, -⟩ := extractSignal_setSignal {} 0xFFFF hinitial [.setByte 0 0x55, .commit]
  refine (hdecodes 7 12 true 0xABC ?_ ?_ { dlc := 8 } rfl (Nat.le_refl 8)).trans ?_
  · decide
  · decide
  · decide

end EspCars.CanGateway
