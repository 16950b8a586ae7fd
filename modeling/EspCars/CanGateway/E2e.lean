import EspCars.CanGateway.Rules
import EspCars.Lib.Bytes
import EspCars.Lib.Crc

/-!
# The repair of a checksum

`modify.e2e`: a rule corrects the checksum of the frames it patches by the checksum of what it
changed in the covered bytes, without knowing how the checksum starts, what it is finished with and
whether it was right. The distance of a frame from a valid one is therefore what it was
(`residual_processFrame`).
-/

namespace EspCars.CanGateway

open EspCars.Lib

/-! ## Checksums -/

/-- A CRC-8 of the kind that `e2e` names by its polynomial. -/
def crc8 (poly init xorOut : UInt8) (data : List UInt8) : UInt8 :=
  data.foldl (crc8Byte poly) init ^^^ xorOut

theorem toBitVec_crc8Shift (poly crc : UInt8) :
    (crc8Shift poly crc).toBitVec = Crc.shift poly.toBitVec crc.toBitVec := by
  have hmsb : crc &&& 0x80 ≠ 0 ↔ crc.toBitVec.msb = true := by
    have hbits : ∀ x : BitVec 8, x &&& 0x80#8 ≠ 0#8 ↔ x.msb = true := by decide
    rw [← hbits, Ne, Ne, ← UInt8.toBitVec_inj, UInt8.toBitVec_and]
    rfl
  unfold crc8Shift Crc.shift
  by_cases h : crc &&& 0x80 ≠ 0
  · rw [if_pos h, if_pos (hmsb.mp h)]
    rfl
  · rw [if_neg h, if_neg fun hm => h (hmsb.mpr hm)]
    rfl

theorem toBitVec_crc8Byte (poly crc byte : UInt8) :
    (crc8Byte poly crc byte).toBitVec = Crc.feed poly.toBitVec 8 crc.toBitVec byte.toBitVec := by
  have hiterate : ∀ (n : Nat) (x : UInt8), ((crc8Shift poly)^[n] x).toBitVec =
      (Crc.shift poly.toBitVec)^[n] x.toBitVec := by
    intro n
    induction n with
    | zero => exact fun _ => rfl
    | succ n ih =>
      intro x
      rw [Function.iterate_succ_apply, Function.iterate_succ_apply, ih, toBitVec_crc8Shift]
  unfold crc8Byte Crc.feed
  rw [hiterate, UInt8.toBitVec_xor]

theorem toBitVec_foldl_crc8Byte (poly init : UInt8) (data : List UInt8) :
    (data.foldl (crc8Byte poly) init).toBitVec =
      Crc.register poly.toBitVec 8 init.toBitVec (data.map UInt8.toBitVec) := by
  unfold Crc.register
  induction data generalizing init with
  | nil => rfl
  | cons b data ih => rw [List.foldl_cons, ih, toBitVec_crc8Byte, List.map_cons, List.foldl_cons]

/-- What two messages of one length have as checksums differs by `crc8_linear` of their
difference. -/
theorem crc8_eq_xor (poly init xorOut : UInt8) {xs ys : List UInt8} (h : xs.length = ys.length) :
    crc8 poly init xorOut ys =
      crc8 poly init xorOut xs ^^^ crc8Linear (xs.zipWith (· ^^^ ·) ys) poly := by
  have hdelta : (xs.zipWith (· ^^^ ·) ys).map UInt8.toBitVec =
      (xs.map UInt8.toBitVec).zipWith (· ^^^ ·) (ys.map UInt8.toBitVec) := by
    rw [List.map_zipWith, List.zipWith_map]
    rfl
  unfold crc8 crc8Linear
  rw [← UInt8.toBitVec_inj]
  simp only [UInt8.toBitVec_xor, toBitVec_foldl_crc8Byte, hdelta]
  exact Crc.register_xor_eq _ _ _ _ (by rw [List.length_map, List.length_map, h])

/-! ## The repair -/

namespace E2eCrc

/-- The bytes `first` to `last`. -/
def covered (e : E2eCrc) (data : Bytes8) : List UInt8 :=
  slice data.toList e.first.toNat (e.last.toNat + 1 - e.first.toNat)

/-- The CRC byte is not one of the bytes it covers. -/
def Outside (e : E2eCrc) : Prop := e.crcIndex < e.first ∨ e.last < e.crcIndex

/-- The CRC byte and what it covers lie in a frame of `dlc` bytes. -/
def Fits (e : E2eCrc) (dlc : Nat) : Prop :=
  e.last.toNat < min dlc maxFrameDataLen ∧ e.crcIndex.toNat < min dlc maxFrameDataLen

instance (e : E2eCrc) : Decidable e.Outside := inferInstanceAs (Decidable (_ ∨ _))

instance (e : E2eCrc) (dlc : Nat) : Decidable (e.Fits dlc) := inferInstanceAs (Decidable (_ ∧ _))

/-- The CRC byte, exclusive or the checksum that it should be: zero in a valid frame. -/
def residual (e : E2eCrc) (init xorOut : UInt8) (data : Bytes8) : UInt8 :=
  data.toList.getD e.crcIndex.toNat 0 ^^^ crc8 e.poly init xorOut (e.covered data)

/-- A receiver accepts the payload. -/
def Valid (e : E2eCrc) (init xorOut : UInt8) (data : Bytes8) : Prop :=
  data.toList.getD e.crcIndex.toNat 0 = crc8 e.poly init xorOut (e.covered data)

theorem valid_iff_residual {e : E2eCrc} {init xorOut : UInt8} {data : Bytes8} :
    e.Valid init xorOut data ↔ e.residual init xorOut data = 0 := by
  unfold Valid residual
  exact UInt8.xor_eq_zero_iff.symm

variable {e : E2eCrc} {before data : Bytes8} {dlc : Nat}

theorem enabled_of_fits (h : e.Fits dlc) : e.enabled = true := by
  have hlt : e.crcIndex.toNat < 8 := Nat.lt_of_lt_of_le h.2 (Nat.min_le_right _ _)
  unfold enabled
  simp only [ne_eq, decide_eq_true_eq]
  intro hnone
  rw [hnone] at hlt
  exact absurd hlt (by decide)

/-- The difference that `e2e_fix_crc` collects. -/
theorem delta_eq (hlast : e.last.toNat < 8) (horder : ¬ e.first > e.last) :
    ((List.range (e.last.toNat - e.first.toNat + 1)).map fun i =>
      before.toList.getD (e.first.toNat + i) 0 ^^^ data.toList.getD (e.first.toNat + i) 0) =
      (e.covered before).zipWith (· ^^^ ·) (e.covered data) := by
  have hle : e.first.toNat ≤ e.last.toNat := Nat.le_of_not_lt horder
  have hlen (v : Bytes8) : v.toList.length = 8 := Vector.length_toList
  apply List.ext_getElem?
  intro i
  rw [List.getElem?_zipWith, covered, covered, getElem?_slice, getElem?_slice, List.getElem?_map]
  by_cases hi : i < e.last.toNat - e.first.toNat + 1
  · have hb : e.first.toNat + i < before.toList.length := by rw [hlen]; omega
    have hd : e.first.toNat + i < data.toList.length := by rw [hlen]; omega
    rw [List.getElem?_range hi, if_pos (by omega), if_pos (by omega),
      List.getElem?_eq_getElem hb, List.getElem?_eq_getElem hd]
    simp only [Option.map_some, List.getD_eq_getElem?_getD, List.getElem?_eq_getElem hb,
      List.getElem?_eq_getElem hd, Option.getD_some]
  · rw [if_neg (by omega), List.getElem?_eq_none (by rw [List.length_range]; omega)]
    rfl

theorem covered_length_eq (before data : Bytes8) :
    (e.covered before).length = (e.covered data).length := by
  have hlen (v : Bytes8) : v.toList.length = 8 := Vector.length_toList
  simp only [covered, slice, List.length_take, List.length_drop, hlen]

/-- Writing the CRC byte leaves what it covers. -/
theorem covered_set (ho : e.Outside) (byte : UInt8) :
    e.covered (data.setIfInBounds e.crcIndex.toNat byte) = e.covered data := by
  apply List.ext_getElem?
  intro i
  simp only [covered, getElem?_slice, Vector.toList_setIfInBounds, List.getElem?_set]
  split_ifs with hi hat hin
  · rcases ho with ho | ho
    · have : e.crcIndex.toNat < e.first.toNat := ho
      omega
    · have : e.last.toNat < e.crcIndex.toNat := ho
      omega
  · rcases ho with ho | ho
    · have : e.crcIndex.toNat < e.first.toNat := ho
      omega
    · have : e.last.toNat < e.crcIndex.toNat := ho
      omega
  · rfl
  · rfl

theorem covered_eq_nil (horder : e.first > e.last) : e.covered data = [] := by
  have hlt : e.last.toNat < e.first.toNat := horder
  unfold covered slice
  rw [show e.last.toNat + 1 - e.first.toNat = 0 by omega, List.take_zero]

theorem residual_of_first_gt_last {init xorOut : UInt8} (horder : e.first > e.last)
    (hbyte : data.toList.getD e.crcIndex.toNat 0 = before.toList.getD e.crcIndex.toNat 0) :
    e.residual init xorOut data = e.residual init xorOut before := by
  unfold residual
  rw [covered_eq_nil horder, covered_eq_nil horder, hbyte]

theorem crc8Linear_zeros (poly : UInt8) {delta : List UInt8} (h : delta.all (· == 0) = true) :
    crc8Linear delta poly = 0 := by
  have hshift : ∀ n : Nat, (crc8Shift poly)^[n] 0 = 0 := by
    intro n
    induction n with
    | zero => rfl
    | succ n ih =>
      rw [Function.iterate_succ_apply, show crc8Shift poly 0 = 0 from rfl]
      exact ih
  unfold crc8Linear
  induction delta with
  | nil => rfl
  | cons b delta ih =>
    rw [List.all_cons, Bool.and_eq_true] at h
    obtain ⟨hb, hdelta⟩ := h
    rw [List.foldl_cons, eq_of_beq hb]
    have hbyte : crc8Byte poly 0 0 = 0 := hshift 8
    rw [hbyte]
    exact ih hdelta

/-- The repair keeps the residual of a payload whose CRC byte nothing has changed. -/
theorem residual_e2eFixCrc (init xorOut : UInt8) (ho : e.Outside)
    (hfits : e.Fits dlc)
    (hbyte : data.toList.getD e.crcIndex.toNat 0 = before.toList.getD e.crcIndex.toNat 0) :
    e.residual init xorOut (e2eFixCrc e before data (min dlc maxFrameDataLen)) =
      e.residual init xorOut before := by
  obtain ⟨hlast, hcrc⟩ := hfits
  have hlast8 : e.last.toNat < 8 := Nat.lt_of_lt_of_le hlast (Nat.min_le_right _ _)
  have hcrc8 : e.crcIndex.toNat < 8 := Nat.lt_of_lt_of_le hcrc (Nat.min_le_right _ _)
  by_cases horder : e.first > e.last
  · have hsame : e2eFixCrc e before data (min dlc maxFrameDataLen) = data := by
      unfold e2eFixCrc
      rw [if_pos (Or.inr (Or.inr (Or.inr horder)))]
    rw [hsame]
    exact residual_of_first_gt_last horder hbyte
  · have hlin := crc8_eq_xor e.poly init xorOut (covered_length_eq (e := e) before data)
    have hguard : ¬ ((!e.enabled) = true ∨ e.last.toNat ≥ min dlc maxFrameDataLen ∨
        e.crcIndex.toNat ≥ min dlc maxFrameDataLen ∨ e.first > e.last) := by
      rw [enabled_of_fits ⟨hlast, hcrc⟩]
      rintro (h | h | h | h)
      · exact absurd h (by decide)
      · omega
      · omega
      · exact horder h
    unfold e2eFixCrc
    rw [if_neg hguard]
    simp only [delta_eq hlast8 horder]
    split
    · -- nothing covered has changed: the CRC byte is left alone
      rename_i hzero
      rw [crc8Linear_zeros _ hzero, UInt8.xor_zero] at hlin
      unfold residual
      rw [hlin, hbyte]
    · unfold residual
      rw [covered_set ho, hlin, Vector.toList_setIfInBounds, List.getD_eq_getElem?_getD,
        List.getElem?_set_self (by rw [Vector.length_toList]; exact hcrc8), Option.getD_some, hbyte]
      generalize crc8Linear _ e.poly = lin
      generalize before.toList.getD e.crcIndex.toNat 0 = byte
      generalize crc8 e.poly init xorOut (e.covered before) = crc
      rw [UInt8.xor_assoc, UInt8.xor_comm crc, ← UInt8.xor_assoc lin, UInt8.xor_self,
        UInt8.zero_xor]

/-- A patch that writes back the CRC byte it finds. -/
def Unpatched (e : E2eCrc) (p : PatchData) : Prop :=
  p.andMask.toList.getD e.crcIndex.toNat 0 = 0xFF ∧ p.orValue.toList.getD e.crcIndex.toNat 0 = 0

instance (e : E2eCrc) (p : PatchData) : Decidable (e.Unpatched p) :=
  inferInstanceAs (Decidable (_ ∧ _))

end E2eCrc

theorem data_applyPatch (p : PatchData) (f : CanFrame) :
    (applyPatch p f).data =
      if f.rtr then f.data
      else .ofFn fun i =>
        if i < min f.dlc maxFrameDataLen then
          (f.data.get i &&& p.andMask.get i) ||| p.orValue.get i
        else f.data.get i := by
  unfold applyPatch
  cases p.replaceId <;> cases hrtr : f.rtr <;> simp [hrtr]

theorem getD_applyPatch {e : E2eCrc} {p : PatchData} (f : CanFrame) (h : e.Unpatched p)
    (hcrc : e.crcIndex.toNat < 8) :
    (applyPatch p f).data.toList.getD e.crcIndex.toNat 0 =
      f.data.toList.getD e.crcIndex.toNat 0 := by
  have hget (v : Bytes8) : v.toList.getD e.crcIndex.toNat 0 = v[e.crcIndex.toNat] := by
    have hlt : e.crcIndex.toNat < v.toList.length := by
      rw [Vector.length_toList]
      exact hcrc
    rw [List.getD_eq_getElem?_getD, List.getElem?_eq_getElem hlt, Option.getD_some,
      Vector.getElem_toList]
  obtain ⟨hand, hor⟩ := h
  rw [hget] at hand hor
  rw [hget, hget]
  rw [data_applyPatch]
  split
  · rfl
  · have hones : f.data[e.crcIndex.toNat] &&& 0xFF = f.data[e.crcIndex.toNat] := UInt8.and_neg_one
    rw [Vector.getElem_ofFn]
    simp [Vector.get_eq_getElem, hand, hor, hones]

/-- The frame that leaves is as far from a valid one as the frame that came: the difference of its
CRC byte from the checksum of the covered bytes is what it was, so that a valid frame stays valid
and a corrupt one corrupt. -/
theorem residual_processFrame (table : RouteTable) (f : CanFrame) (rule : RuleEntry)
    (init xorOut : UInt8) (hrule : matchRule table f = some rule) (hout : rule.e2e.Outside)
    (hpatch : rule.e2e.Unpatched rule.effectivePatch) (hfits : rule.e2e.Fits f.dlc)
    (hrtr : f.rtr = false) :
    rule.e2e.residual init xorOut (processFrame table f).2.data =
        rule.e2e.residual init xorOut f.data ∧
      (rule.e2e.Valid init xorOut (processFrame table f).2.data ↔
        rule.e2e.Valid init xorOut f.data) := by
  have hcrc : rule.e2e.crcIndex.toNat < 8 := Nat.lt_of_lt_of_le hfits.2 (Nat.min_le_right _ _)
  have hresidual : rule.e2e.residual init xorOut (processFrame table f).2.data =
      rule.e2e.residual init xorOut f.data := by
    unfold processFrame
    rw [hrule]
    by_cases hdrop : rule.flags.drop = true
    · simp only [hdrop, if_true]
    by_cases hhas : rule.flags.hasPatch = true
    · simp only [hdrop, hhas, E2eCrc.enabled_of_fits hfits, hrtr, Bool.not_false, Bool.and_self,
        if_true, Bool.false_eq_true, if_false]
      exact E2eCrc.residual_e2eFixCrc init xorOut hout hfits (getD_applyPatch f hpatch hcrc)
    · simp only [hdrop, hhas, Bool.false_eq_true, if_false]
  refine ⟨hresidual, ?_⟩
  rw [E2eCrc.valid_iff_residual, E2eCrc.valid_iff_residual, hresidual]

/-- The frame of a counter that a rule raises, with SAE J1850 (init and xor-out 0xFF). -/
theorem residual_processFrame_counter :
    let rule : RuleEntry :=
      { matchId := 0x123
        matchMask := 0x7FF
        flags := { hasPatch := true }
        staticPatch :=
          { andMask := #v[0xFF, 0xF0, 0xFF, 0xFF, 0xFF, 0xFF, 0xFF, 0xFF]
            orValue := #v[0, 0x05, 0, 0, 0, 0, 0, 0] }
        e2e := { crcIndex := 0, first := 1, last := 7 } }
    let f : CanFrame :=
      { canId := 0x123, dlc := 8, data := #v[0x9E, 1, 2, 3, 4, 5, 6, 7] }
    rule.e2e.residual 0xFF 0xFF (processFrame { rules := [rule] } f).2.data =
        rule.e2e.residual 0xFF 0xFF f.data ∧
      (rule.e2e.Valid 0xFF 0xFF (processFrame { rules := [rule] } f).2.data ↔
        rule.e2e.Valid 0xFF 0xFF f.data) :=
  residual_processFrame _ _ _ _ _ (by decide) (by decide) (by decide) (by decide) rfl

end EspCars.CanGateway
