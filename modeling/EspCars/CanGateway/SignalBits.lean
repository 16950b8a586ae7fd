import EspCars.CanGateway.DecodeEntities

/-!
# The bits of a signal

`for_each_signal_bit`, `signal_fits_frame` and `signal_encode` of
`components/can_gateway/gateway_core.h` against the two extraction formulas. A field that fits the
frame has one bit of the payload for each bit of its value, in either byte order. A payload that has
the bits of the value there decodes to the value.
-/

namespace EspCars.CanGateway

/-- `signal_fits_frame` -/
def signalFitsFrame (startBit bitLen : UInt8) (bigEndian : Bool) : Bool :=
  if bitLen = 0 ∨ bitLen > 32 ∨ startBit ≥ 64 then false
  else UInt8.ofNat (signalBits startBit bitLen bigEndian).length = bitLen

/-- Bit `j` of byte `i`. -/
def cellBit (v : Bytes8) (i j : Nat) : Bool := (v.toList.getD i 0).toNat.testBit j

theorem cellBit_get (v : Bytes8) (i : Fin maxFrameDataLen) (j : Nat) :
    cellBit v i j = (v.get i).toNat.testBit j := by
  have hi : i.val < v.toList.length := by
    rw [Vector.length_toList]
    exact i.isLt
  rw [cellBit, List.getD_eq_getElem _ _ hi]
  rfl

/-! ## The walk -/

/-- The cells of a field and the bits of the value in them: all inside the payload, each bit of the
value somewhere, and no cell twice. -/
structure Covers (len : Nat) (cells : List (Nat × Nat × Nat)) : Prop where
  inside : ∀ c ∈ cells, c.1 < maxFrameDataLen ∧ c.2.1 < 8 ∧ c.2.2 < len
  every : ∀ k < len, ∃ i j, (i, j, k) ∈ cells
  inj : ∀ i j k k', (i, j, k) ∈ cells → (i, j, k') ∈ cells → k = k'

theorem Covers.of_map {len : Nat} {cell : Nat → Nat × Nat} {cells : List (Nat × Nat × Nat)}
    (hcells : ∀ c, c ∈ cells ↔ c.2.2 < len ∧ cell c.2.2 = (c.1, c.2.1))
    (hinside : ∀ k < len, (cell k).1 < maxFrameDataLen ∧ (cell k).2 < 8)
    (hinj : ∀ k < len, ∀ k' < len, cell k = cell k' → k = k') : Covers len cells := by
  refine ⟨?_, ?_, ?_⟩
  · intro c hc
    obtain ⟨hk, hcell⟩ := (hcells c).mp hc
    have hin := hinside _ hk
    rw [hcell] at hin
    exact ⟨hin.1, hin.2, hk⟩
  · intro k hk
    exact ⟨(cell k).1, (cell k).2, (hcells _).mpr ⟨hk, rfl⟩⟩
  · intro i j k k' h h'
    obtain ⟨hk, hcell⟩ := (hcells _).mp h
    obtain ⟨hk', hcell'⟩ := (hcells _).mp h'
    exact hinj k hk k' hk' (hcell.trans hcell'.symm)

/-- Where the walk from the most significant bit goes, counted from the first bit of the payload. -/
theorem mem_loop {left byte bit : Nat} (hbit : bit ≤ 7)
    (hlen : (signalBits.loop left byte bit).length = left) :
    (∀ t < left, 8 * byte + (7 - bit) + t < 64) ∧
    ∀ c, c ∈ signalBits.loop left byte bit ↔
      c.2.2 < left ∧ (8 * byte + (7 - bit) + (left - 1 - c.2.2)) / 8 = c.1 ∧
        7 - (8 * byte + (7 - bit) + (left - 1 - c.2.2)) % 8 = c.2.1 := by
  induction left generalizing byte bit with
  | zero =>
    refine ⟨fun t ht => by omega, fun c => ?_⟩
    rw [signalBits.loop]
    simp
  | succ left ih =>
    by_cases hout : byte ≥ maxFrameDataLen
    · rw [signalBits.loop, if_pos hout] at hlen
      cases hlen
    · rw [signalBits.loop, if_neg hout, List.length_cons, Nat.add_right_cancel_iff] at hlen
      rw [signalBits.loop, if_neg hout]
      -- Both ways on, the next cell is one bit further.
      have hnext : ∃ byte' bit', bit' ≤ 7 ∧ 8 * byte' + (7 - bit') = 8 * byte + (7 - bit) + 1 ∧
          (if bit = 0 then signalBits.loop left (byte + 1) 7
            else signalBits.loop left byte (bit - 1)) = signalBits.loop left byte' bit' := by
        by_cases hzero : bit = 0
        · exact ⟨byte + 1, 7, Nat.le_refl 7, by omega, if_pos hzero⟩
        · exact ⟨byte, bit - 1, by omega, by omega, if_neg hzero⟩
      obtain ⟨byte', bit', hbit', hat, hrest⟩ := hnext
      rw [hrest] at hlen ⊢
      obtain ⟨hin, hmem⟩ := ih hbit' hlen
      rw [hat] at hin hmem
      refine ⟨fun t ht => ?_, fun c => ?_⟩
      · cases t with
        | zero =>
          have hmax : maxFrameDataLen = 8 := rfl
          omega
        | succ t =>
          have hlt := hin t (by omega)
          omega
      · obtain ⟨i, j, k⟩ := c
        rw [List.mem_cons, hmem]
        simp only [Prod.mk.injEq]
        omega

theorem length_loop_le (left byte bit : Nat) :
    (signalBits.loop left byte bit).length ≤ left := by
  induction left generalizing byte bit with
  | zero => exact Nat.le_refl 0
  | succ left ih =>
    rw [signalBits.loop]
    split_ifs
    · exact Nat.zero_le _
    · exact Nat.succ_le_succ (ih _ _)
    · exact Nat.succ_le_succ (ih _ _)

/-- Bit `k` of an Intel field, and of a Motorola field. -/
def cellOf (startBit bitLen : Nat) (bigEndian : Bool) (k : Nat) : Nat × Nat :=
  if bigEndian then
    let n := 8 * (startBit / 8) + (7 - startBit % 8) + (bitLen - 1 - k)
    (n / 8, 7 - n % 8)
  else ((startBit + k) / 8, (startBit + k) % 8)

section Fits

variable {startBit bitLen : UInt8} {bigEndian : Bool}

theorem length_signalBits_le : (signalBits startBit bitLen bigEndian).length ≤ bitLen.toNat := by
  unfold signalBits
  split_ifs
  · exact Nat.zero_le _
  · exact length_loop_le _ _ _
  · rw [List.length_map]
    refine Nat.le_trans (List.takeWhile_prefix _).length_le ?_
    rw [List.length_range]

theorem signalFitsFrame_spec (h : signalFitsFrame startBit bitLen bigEndian = true) :
    0 < bitLen.toNat ∧ bitLen.toNat ≤ 32 ∧ startBit.toNat < 64 ∧
      (signalBits startBit bitLen bigEndian).length = bitLen.toNat := by
  unfold signalFitsFrame at h
  split_ifs at h with hout
  rw [not_or, not_or, ← UInt8.toNat_inj, UInt8.not_lt, UInt8.not_le] at hout
  obtain ⟨hzero, hlong, hstart⟩ := hout
  have hpos : 0 < bitLen.toNat := Nat.pos_of_ne_zero hzero
  have hle : bitLen.toNat ≤ 32 := UInt8.le_iff_toNat_le.mp hlong
  have hlength : (signalBits startBit bitLen bigEndian).length ≤ bitLen.toNat :=
    length_signalBits_le
  have hvisited := congrArg UInt8.toNat (decide_eq_true_eq.mp h)
  rw [UInt8.toNat_ofNat_of_lt' (by simp only [UInt8.size]; omega)] at hvisited
  exact ⟨hpos, hle, UInt8.lt_iff_toNat_lt.mp hstart, hvisited⟩

/-- A field that fits has bit `k` of its value in one cell of the payload. -/
theorem cellOf_spec (h : signalFitsFrame startBit bitLen bigEndian = true) :
    (∀ k < bitLen.toNat, (cellOf startBit.toNat bitLen.toNat bigEndian k).1 < maxFrameDataLen ∧
      (cellOf startBit.toNat bitLen.toNat bigEndian k).2 < 8) ∧
    ∀ c, c ∈ signalBits startBit bitLen bigEndian ↔
      c.2.2 < bitLen.toNat ∧
        cellOf startBit.toNat bitLen.toNat bigEndian c.2.2 = (c.1, c.2.1) := by
  obtain ⟨hpos, hle, hstart, hlength⟩ := signalFitsFrame_spec h
  have hmax : maxFrameDataLen = 8 := rfl
  have hlen : ¬ (bitLen.toNat = 0 ∨ bitLen.toNat > 32) := by omega
  unfold cellOf
  cases bigEndian with
  | true =>
    rw [signalBits, if_neg hlen, if_pos rfl] at hlength ⊢
    obtain ⟨hin, hmem⟩ := mem_loop (by omega) hlength
    refine ⟨fun k hk => ?_, fun c => ?_⟩
    · have hlt := hin (bitLen.toNat - 1 - k) (by omega)
      rw [if_pos rfl]
      dsimp only
      omega
    · rw [hmem, if_pos rfl, Prod.mk.injEq]
  | false =>
    rw [signalBits, if_neg hlen, if_neg Bool.false_ne_true] at hlength ⊢
    rw [List.length_map] at hlength
    have hall : (List.range bitLen.toNat).takeWhile (fun k => startBit.toNat + k < 64) =
        List.range bitLen.toNat := by
      apply (List.takeWhile_prefix _).eq_of_length
      rw [hlength, List.length_range]
    refine ⟨fun k hk => ?_, fun c => ?_⟩
    · have hlt := List.takeWhile_eq_self_iff.mp hall k (List.mem_range.mpr hk)
      rw [decide_eq_true_eq] at hlt
      rw [if_neg Bool.false_ne_true]
      dsimp only
      omega
    · obtain ⟨i, j, k⟩ := c
      rw [hall, List.mem_map, if_neg Bool.false_ne_true]
      constructor
      · rintro ⟨k', hk', heq⟩
        cases heq
        exact ⟨List.mem_range.mp hk', rfl⟩
      · rintro ⟨hk, heq⟩
        exact ⟨k, List.mem_range.mpr hk, congrArg (fun cell => (cell.1, cell.2, k)) heq⟩

theorem covers_signalBits (h : signalFitsFrame startBit bitLen bigEndian = true) :
    Covers bitLen.toNat (signalBits startBit bitLen bigEndian) := by
  obtain ⟨hinside, hmem⟩ := cellOf_spec h
  apply Covers.of_map hmem hinside
  intro k hk k' hk' heq
  unfold cellOf at heq
  split_ifs at heq
  · rw [Prod.mk.injEq] at heq
    omega
  · rw [Prod.mk.injEq] at heq
    omega

end Fits

/-! ## Encoding -/

theorem cellBit_orAt (v : Bytes8) {i j : Nat} (hi : i < maxFrameDataLen) (hj : j < 8)
    (i' j' : Nat) :
    cellBit (orAt v i (1 <<< UInt8.ofNat j)) i' j' = true ↔
      cellBit v i' j' = true ∨ i' = i ∧ j' = j := by
  have hbit : (1 <<< UInt8.ofNat j : UInt8).toNat = 2 ^ j := by
    have hone : (1 : UInt8).toNat = 1 := rfl
    have hpow : 2 ^ j < 256 := Nat.pow_lt_pow_right (by decide) hj
    rw [UInt8.toNat_shiftLeft, hone, UInt8.toNat_ofNat_of_lt' (by simp only [UInt8.size]; omega),
      Nat.mod_eq_of_lt hj, Nat.one_shiftLeft, Nat.mod_eq_of_lt hpow]
  have hlen : i < v.toList.length := by
    rw [Vector.length_toList]
    exact hi
  unfold cellBit orAt
  rw [Vector.toList_setIfInBounds, List.getD_eq_getElem?_getD, List.getD_eq_getElem?_getD,
    List.getElem?_set]
  by_cases h : i = i'
  · subst h
    rw [if_pos rfl, if_pos hlen, Option.getD_some, UInt8.toNat_or, Nat.testBit_or, hbit,
      Nat.testBit_two_pow, List.getD_eq_getElem?_getD, Bool.or_eq_true, decide_eq_true_eq]
    exact or_congr_right ⟨fun h => ⟨rfl, h.symm⟩, fun h => h.2.symm⟩
  · rw [if_neg h]
    simp [Ne.symm h]

/-- A bit of the value, as the encoder asks for it. -/
theorem rawBit_iff {raw : UInt32} {k : Nat} (hk : k < 32) :
    raw >>> UInt32.ofNat k &&& 1 ≠ 0 ↔ raw.toNat.testBit k = true := by
  have hone : (1 : UInt32).toNat = 1 := rfl
  rw [Ne, ← UInt32.toNat_inj, UInt32.toNat_and, UInt32.toNat_shiftRight, hone,
    UInt32.toNat_ofNat_of_lt' (by simp only [UInt32.size]; omega), Nat.mod_eq_of_lt hk,
    Nat.and_one_is_mod, Nat.shiftRight_eq_div_pow, Nat.testBit_eq_decide_div_mod_eq,
    decide_eq_true_eq]
  have hzero : (0 : UInt32).toNat = 0 := rfl
  rw [hzero]
  omega

/-- What the encoder leaves in both arrays. -/
theorem foldl_encode {len : Nat} {raw : UInt32} {cells : List (Nat × Nat × Nat)} (hlen : len ≤ 32)
    (hcells : ∀ c ∈ cells, c.1 < maxFrameDataLen ∧ c.2.1 < 8 ∧ c.2.2 < len) (mask bits : Bytes8)
    (i j : Nat) :
    let out := cells.foldl
      (fun (mask, bits) (byte, bit, k) =>
        let b : UInt8 := 1 <<< UInt8.ofNat bit
        (orAt mask byte b, if raw >>> UInt32.ofNat k &&& 1 ≠ 0 then orAt bits byte b else bits))
      (mask, bits)
    (cellBit out.1 i j = true ↔ cellBit mask i j = true ∨ ∃ k, (i, j, k) ∈ cells) ∧
      (cellBit out.2 i j = true ↔
        cellBit bits i j = true ∨ ∃ k, (i, j, k) ∈ cells ∧ raw.toNat.testBit k = true) := by
  induction cells generalizing mask bits with
  | nil => simp
  | cons c cells ih =>
    obtain ⟨byte, bit, k⟩ := c
    obtain ⟨⟨hbyte, hbit, hk⟩, hcells⟩ := List.forall_mem_cons.mp hcells
    have hk32 : k < 32 := Nat.lt_of_lt_of_le hk hlen
    obtain ⟨hmask, hbits⟩ := ih hcells (orAt mask byte (1 <<< UInt8.ofNat bit))
      (if raw >>> UInt32.ofNat k &&& 1 ≠ 0 then orAt bits byte (1 <<< UInt8.ofNat bit) else bits)
    rw [cellBit_orAt mask hbyte hbit] at hmask
    intro out
    refine ⟨hmask.trans ?_, hbits.trans ?_⟩
    · simp only [List.mem_cons, Prod.mk.injEq]
      constructor
      · rintro ((h | ⟨rfl, rfl⟩) | ⟨k', h⟩)
        · exact Or.inl h
        · exact Or.inr ⟨k, Or.inl ⟨rfl, rfl, rfl⟩⟩
        · exact Or.inr ⟨k', Or.inr h⟩
      · rintro (h | ⟨k', ⟨rfl, rfl, -⟩ | h⟩)
        · exact Or.inl (Or.inl h)
        · exact Or.inl (Or.inr ⟨rfl, rfl⟩)
        · exact Or.inr ⟨k', h⟩
    · have hturn : cellBit (if raw >>> UInt32.ofNat k &&& 1 ≠ 0 then
            orAt bits byte (1 <<< UInt8.ofNat bit) else bits) i j = true ↔
          cellBit bits i j = true ∨ (i = byte ∧ j = bit) ∧ raw.toNat.testBit k = true := by
        rw [← rawBit_iff hk32]
        split_ifs with hset
        · rw [cellBit_orAt bits hbyte hbit]
          simp [hset]
        · simp [hset]
      rw [hturn]
      simp only [List.mem_cons, Prod.mk.injEq]
      constructor
      · rintro ((h | ⟨⟨rfl, rfl⟩, hset⟩) | ⟨k', h, hset⟩)
        · exact Or.inl h
        · exact Or.inr ⟨k, Or.inl ⟨rfl, rfl, rfl⟩, hset⟩
        · exact Or.inr ⟨k', Or.inr h, hset⟩
      · rintro (h | ⟨k', ⟨rfl, rfl, rfl⟩ | h, hset⟩)
        · exact Or.inl (Or.inl h)
        · exact Or.inl (Or.inr ⟨⟨rfl, rfl⟩, hset⟩)
        · exact Or.inr ⟨k', h, hset⟩

theorem cellBit_zero (i j : Nat) : cellBit (.replicate maxFrameDataLen 0) i j = false := by
  have hzero : ((Vector.replicate maxFrameDataLen (0 : UInt8)).toList.getD i 0) = 0 := by
    rw [Vector.toList_replicate, List.getD_eq_getElem?_getD, List.getElem?_replicate]
    split_ifs <;> rfl
  rw [cellBit, hzero]
  exact Nat.zero_testBit j

section Encode

variable {startBit bitLen : UInt8} {bigEndian : Bool}

/-- The mask of a field that fits, and the value at its cells. -/
theorem signalEncode_spec (h : signalFitsFrame startBit bitLen bigEndian = true) (raw : UInt32)
    (i j : Nat) :
    (cellBit (signalEncode startBit bitLen bigEndian raw).1 i j = true ↔
        ∃ k, (i, j, k) ∈ signalBits startBit bitLen bigEndian) ∧
      (cellBit (signalEncode startBit bitLen bigEndian raw).2 i j = true ↔
        ∃ k, (i, j, k) ∈ signalBits startBit bitLen bigEndian ∧ raw.toNat.testBit k = true) := by
  obtain ⟨-, hle, -, -⟩ := signalFitsFrame_spec h
  obtain ⟨hmask, hbits⟩ := @foldl_encode _ raw _ hle (covers_signalBits h).inside
    (.replicate maxFrameDataLen 0) (.replicate maxFrameDataLen 0) i j
  rw [cellBit_zero] at hmask hbits
  simp only [Bool.false_eq_true, false_or] at hmask hbits
  exact ⟨hmask, hbits⟩

end Encode

/-! ## Decoding -/

/-- The payload has the value's bits at the cells of the field. -/
def Holds (data : Bytes8) (cells : List (Nat × Nat × Nat)) (raw : UInt32) : Prop :=
  ∀ c ∈ cells, cellBit data c.1 c.2.1 = raw.toNat.testBit c.2.2

/-- The extraction of a signal, by its byte order. -/
def extractSignal (data : Bytes8) (dlc startBit bitLen : UInt8) (bigEndian : Bool) : UInt32 :=
  if bigEndian then extractBitsBe data dlc startBit bitLen
  else extractBits data dlc startBit bitLen

/-- A bit of a byte, as the decoder asks for it. -/
theorem byteBit_iff {b : UInt8} {j : Nat} (hj : j < 8) :
    b >>> UInt8.ofNat j &&& 1 ≠ 0 ↔ b.toNat.testBit j = true := by
  have hone : (1 : UInt8).toNat = 1 := rfl
  have hzero : (0 : UInt8).toNat = 0 := rfl
  rw [Ne, ← UInt8.toNat_inj, UInt8.toNat_and, UInt8.toNat_shiftRight, hone, hzero,
    UInt8.toNat_ofNat_of_lt' (by simp only [UInt8.size]; omega), Nat.mod_eq_of_lt hj,
    Nat.and_one_is_mod, Nat.shiftRight_eq_div_pow, Nat.testBit_eq_decide_div_mod_eq,
    decide_eq_true_eq]
  omega

theorem foldl_decode {data : Bytes8} {len : Nat} {cells : List (Nat × Nat × Nat)} (hlen : len ≤ 32)
    (hcells : ∀ c ∈ cells, c.1 < maxFrameDataLen ∧ c.2.1 < 8 ∧ c.2.2 < len) (value : UInt32)
    (k : Nat) :
    (cells.foldl
      (fun value (byte, bit, k) =>
        if byte < (8 : UInt8).toNat ∧ data.toList.getD byte 0 >>> UInt8.ofNat bit &&& 1 ≠ 0 then
          value ||| 1 <<< UInt32.ofNat k
        else value) value).toNat.testBit k = true ↔
      value.toNat.testBit k = true ∨ ∃ i j, (i, j, k) ∈ cells ∧ cellBit data i j = true := by
  induction cells generalizing value with
  | nil => simp
  | cons c cells ih =>
    obtain ⟨byte, bit, k'⟩ := c
    obtain ⟨⟨hbyte, hbit, hk⟩, hcells⟩ := List.forall_mem_cons.mp hcells
    have hone : (1 <<< UInt32.ofNat k' : UInt32).toNat = 2 ^ k' := by
      have h1 : (1 : UInt32).toNat = 1 := rfl
      have hk32 : k' < 32 := Nat.lt_of_lt_of_le hk hlen
      have hpow : 2 ^ k' < 2 ^ 32 := Nat.pow_lt_pow_right (by decide) hk32
      rw [UInt32.toNat_shiftLeft, h1, UInt32.toNat_ofNat_of_lt' (by simp only [UInt32.size]; omega),
        Nat.mod_eq_of_lt hk32, Nat.one_shiftLeft, Nat.mod_eq_of_lt hpow]
    have hturn : (if byte < (8 : UInt8).toNat ∧
          data.toList.getD byte 0 >>> UInt8.ofNat bit &&& 1 ≠ 0 then
            value ||| 1 <<< UInt32.ofNat k' else value).toNat.testBit k = true ↔
        value.toNat.testBit k = true ∨ k = k' ∧ cellBit data byte bit = true := by
      have hasked : data.toList.getD byte 0 >>> UInt8.ofNat bit &&& 1 ≠ 0 ↔
          cellBit data byte bit = true := byteBit_iff hbit
      by_cases hset : cellBit data byte bit = true
      · rw [if_pos ⟨hbyte, hasked.mpr hset⟩, UInt32.toNat_or, Nat.testBit_or, hone, Nat.testBit_two_pow,
          Bool.or_eq_true, decide_eq_true_eq]
        exact or_congr_right ⟨fun h => ⟨h.symm, hset⟩, fun h => h.1.symm⟩
      · rw [if_neg (fun h => hset (hasked.mp h.2))]
        simp [hset]
    rw [List.foldl_cons, ih hcells, hturn]
    simp only [List.mem_cons, Prod.mk.injEq]
    constructor
    · rintro ((h | ⟨rfl, hset⟩) | ⟨i, j, h, hset⟩)
      · exact Or.inl h
      · exact Or.inr ⟨byte, bit, Or.inl ⟨rfl, rfl, rfl⟩, hset⟩
      · exact Or.inr ⟨i, j, Or.inr h, hset⟩
    · rintro (h | ⟨i, j, ⟨rfl, rfl, rfl⟩ | h, hset⟩)
      · exact Or.inl (Or.inl h)
      · exact Or.inl (Or.inr ⟨rfl, hset⟩)
      · exact Or.inr ⟨i, j, h, hset⟩

theorem testBit_extractBitsBe {data : Bytes8} {startBit bitLen : UInt8} (hle : bitLen.toNat ≤ 32)
    (hcells : ∀ c ∈ signalBits startBit bitLen true,
      c.1 < maxFrameDataLen ∧ c.2.1 < 8 ∧ c.2.2 < bitLen.toNat) (k : Nat) :
    (extractBitsBe data 8 startBit bitLen).toNat.testBit k = true ↔
      ∃ i j, (i, j, k) ∈ signalBits startBit bitLen true ∧ cellBit data i j = true := by
  have hzero : (0 : UInt32).toNat.testBit k = false := Nat.zero_testBit k
  rw [extractBitsBe, foldl_decode hle hcells, hzero]
  simp

/-- The payload as a word, lowest byte first. -/
theorem testBit_word (data : Bytes8) (m : Nat) (hm : m ≤ 8) (n : Nat) :
    ((List.range m).foldl (fun word i =>
        word ||| (data.toList.getD i 0).toUInt64 <<< UInt64.ofNat (8 * i)) (0 : UInt64)).toNat.testBit
          n = true ↔
      n < 8 * m ∧ cellBit data (n / 8) (n % 8) = true := by
  induction m with
  | zero =>
    have hzero : (0 : UInt64).toNat.testBit n = false := Nat.zero_testBit n
    rw [List.range_zero, List.foldl_nil, hzero]
    simp
  | succ m ih =>
    have hlt := (data.toList.getD m 0).toNat_lt
    have hshift : ((data.toList.getD m 0).toUInt64 <<< UInt64.ofNat (8 * m)).toNat =
        (data.toList.getD m 0).toNat <<< (8 * m) := by
      rw [UInt64.toNat_shiftLeft, UInt8.toNat_toUInt64,
        UInt64.toNat_ofNat_of_lt' (by simp only [UInt64.size]; omega),
        Nat.mod_eq_of_lt (by omega : 8 * m < 64), Nat.mod_eq_of_lt]
      calc (data.toList.getD m 0).toNat <<< (8 * m)
          = (data.toList.getD m 0).toNat * 2 ^ (8 * m) := Nat.shiftLeft_eq _ _
        _ < 2 ^ 8 * 2 ^ (8 * m) := Nat.mul_lt_mul_of_pos_right hlt (Nat.two_pow_pos _)
        _ = 2 ^ (8 + 8 * m) := (Nat.pow_add 2 8 (8 * m)).symm
        _ ≤ 2 ^ 64 := Nat.pow_le_pow_right Nat.two_pos (by omega)
    rw [List.range_succ, List.foldl_append, List.foldl_cons, List.foldl_nil, UInt64.toNat_or,
      Nat.testBit_or, Bool.or_eq_true, ih (Nat.le_of_succ_le hm), hshift, Nat.testBit_shiftLeft,
      Bool.and_eq_true, decide_eq_true_eq]
    rcases Nat.lt_or_ge n (8 * m) with hbelow | hfrom
    · have hnot : ¬ n ≥ 8 * m := Nat.not_le.mpr hbelow
      have hin : n < 8 * (m + 1) := by omega
      simp [hbelow, hnot, hin]
    · rcases Nat.lt_or_ge n (8 * (m + 1)) with hin | habove
      · have hdiv : n / 8 = m := by omega
        have hmod : n % 8 = n - 8 * m := by omega
        have hnot : ¬ n < 8 * m := Nat.not_lt.mpr hfrom
        rw [hdiv, hmod, cellBit]
        simp [hnot, hfrom, hin]
      · have hhigh : (data.toList.getD m 0).toNat.testBit (n - 8 * m) = false := by
          apply Nat.testBit_lt_two_pow
          calc (data.toList.getD m 0).toNat < 2 ^ 8 := hlt
            _ ≤ 2 ^ (n - 8 * m) := Nat.pow_le_pow_right Nat.two_pos (by omega)
        have hnot : ¬ n < 8 * m := Nat.not_lt.mpr hfrom
        have hout : ¬ n < 8 * (m + 1) := Nat.not_lt.mpr habove
        rw [hhigh]
        simp [hnot, hout]

theorem testBit_extractBits {data : Bytes8} {bitOffset bitLen : UInt8} (hle : bitLen.toNat ≤ 32)
    (hstart : bitOffset.toNat < 64) (hin : bitOffset.toNat + bitLen.toNat ≤ 64) (k : Nat) :
    (extractBits data 8 bitOffset bitLen).toNat.testBit k = true ↔
      k < bitLen.toNat ∧
        cellBit data ((bitOffset.toNat + k) / 8) ((bitOffset.toNat + k) % 8) = true := by
  have hshort : ¬ bitLen ≥ 64 := by
    rw [ge_iff_le, UInt8.le_iff_toNat_le]
    have h64 : (64 : UInt8).toNat = 64 := rfl
    omega
  have hmask : ((1 <<< bitLen.toUInt64 : UInt64) - 1).toNat = 2 ^ bitLen.toNat - 1 := by
    have hone : (1 : UInt64).toNat = 1 := rfl
    have hpow : 2 ^ bitLen.toNat < 2 ^ 64 := Nat.pow_lt_pow_right (by decide) (by omega)
    have hshift : (1 <<< bitLen.toUInt64 : UInt64).toNat = 2 ^ bitLen.toNat := by
      rw [UInt64.toNat_shiftLeft, hone, UInt8.toNat_toUInt64,
        Nat.mod_eq_of_lt (by omega : bitLen.toNat < 64), Nat.one_shiftLeft, Nat.mod_eq_of_lt hpow]
    rw [UInt64.toNat_sub_of_le, hshift, hone]
    rw [UInt64.le_iff_toNat_le, hshift, hone]
    exact Nat.one_le_two_pow
  have hlimit : min (8 : UInt8).toNat maxFrameDataLen = 8 := rfl
  have hword := testBit_word data 8 (Nat.le_refl 8) (bitOffset.toNat + k)
  unfold extractBits
  dsimp only
  rw [hlimit, if_neg hshort, UInt64.toNat_toUInt32, UInt64.toNat_and, hmask,
    Nat.and_two_pow_sub_one_eq_mod, UInt64.toNat_shiftRight, UInt8.toNat_toUInt64,
    Nat.mod_eq_of_lt hstart, Nat.testBit_mod_two_pow, Nat.testBit_mod_two_pow, Nat.testBit_shiftRight,
    Bool.and_eq_true, Bool.and_eq_true, decide_eq_true_eq, decide_eq_true_eq, hword]
  constructor
  · rintro ⟨-, hk, -, hcell⟩
    exact ⟨hk, hcell⟩
  · rintro ⟨hk, hcell⟩
    exact ⟨by omega, hk, by omega, hcell⟩

/-- A payload with the bits of a value at the cells of the field decodes to the value. -/
theorem extractSignal_eq {data : Bytes8} {startBit bitLen : UInt8} {bigEndian : Bool}
    (h : signalFitsFrame startBit bitLen bigEndian = true) {raw : UInt32}
    (hholds : Holds data (signalBits startBit bitLen bigEndian) raw) :
    (extractSignal data 8 startBit bitLen bigEndian).toNat = raw.toNat % 2 ^ bitLen.toNat := by
  obtain ⟨hpos, hle, hstart, -⟩ := signalFitsFrame_spec h
  have hcovers := covers_signalBits h
  apply Nat.eq_of_testBit_eq
  intro k
  rw [Nat.testBit_mod_two_pow, Bool.eq_iff_iff, Bool.and_eq_true, decide_eq_true_eq]
  cases bigEndian with
  | true =>
    rw [extractSignal, if_pos rfl, testBit_extractBitsBe hle hcovers.inside]
    constructor
    · rintro ⟨i, j, hmem, hset⟩
      rw [hholds _ hmem] at hset
      exact ⟨(hcovers.inside _ hmem).2.2, hset⟩
    · rintro ⟨hk, hset⟩
      obtain ⟨i, j, hmem⟩ := hcovers.every k hk
      refine ⟨i, j, hmem, ?_⟩
      rw [hholds _ hmem]
      exact hset
  | false =>
    obtain ⟨hinside, hmem⟩ := cellOf_spec h
    have hin : startBit.toNat + bitLen.toNat ≤ 64 := by
      have hlast := (hinside (bitLen.toNat - 1) (by omega)).1
      rw [cellOf, if_neg Bool.false_ne_true] at hlast
      dsimp only at hlast
      have hmax : maxFrameDataLen = 8 := rfl
      omega
    rw [extractSignal, if_neg Bool.false_ne_true, testBit_extractBits hle hstart hin]
    refine and_congr_right fun hk => ?_
    have hcell := (hmem ((startBit.toNat + k) / 8, (startBit.toNat + k) % 8, k)).mpr ⟨hk, rfl⟩
    rw [hholds _ hcell]

end EspCars.CanGateway
