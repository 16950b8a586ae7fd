import Mathlib

/-!
# Prepared patches and their publication

`PatchData` and `PatchBanks` of `components/can_gateway/gateway_core.h`, `signal_encode` from the
same header and `RulePatch` of `can_gateway.h`. Every `RulePatch` call is one function here; the
single stores it consists of are in `EspCars.CanGateway.Publication`.
-/

namespace EspCars.CanGateway

/-- `MAX_FRAME_DATA_LEN`. -/
abbrev maxFrameDataLen : Nat := 8

/-- `MAX_STANDARD_ID`. -/
def maxStandardId : UInt32 := 0x7FF

/-- `MAX_EXTENDED_ID`. -/
def maxExtendedId : UInt32 := 0x1FFFFFFF

/-- One byte for each payload position. -/
abbrev Bytes8 := Vector UInt8 maxFrameDataLen

/-- `PatchData`: what is written into a frame that a rule matches. -/
structure PatchData where
  newCanId : UInt32 := 0
  replaceId : Bool := false
  newExtended : Bool := false
  andMask : Bytes8 := .replicate maxFrameDataLen 0xFF
  orValue : Bytes8 := .replicate maxFrameDataLen 0
  deriving DecidableEq

/-! ## `PatchBanks` -/

/-- `banks_[0]` and `banks_[1]`; `active` is the index, `false` for 0. -/
structure PatchBanks where
  bank0 : PatchData := {}
  bank1 : PatchData := {}
  active : Bool := false
  staging : Bool := false
  deriving DecidableEq

namespace PatchBanks

def bank (b : PatchBanks) (index : Bool) : PatchData := if index then b.bank1 else b.bank0

def setBank (b : PatchBanks) (index : Bool) (p : PatchData) : PatchBanks :=
  if index then { b with bank1 := p } else { b with bank0 := p }

/-- `active_patch` -/
def activePatch (b : PatchBanks) : PatchData := b.bank b.active

/-- The bank that `stage()` returns a reference to. -/
def staged (b : PatchBanks) : PatchData := b.bank (!b.active)

def setStaged (b : PatchBanks) (p : PatchData) : PatchBanks := b.setBank (!b.active) p

def stage (b : PatchBanks) : PatchBanks :=
  if b.staging then b else { b.setStaged b.activePatch with staging := true }

def commit (b : PatchBanks) : PatchBanks :=
  if b.staging then { b with active := !b.active, staging := false } else b

def init (initial : PatchData) : PatchBanks :=
  { bank0 := initial, bank1 := initial, active := false, staging := false }

variable (b : PatchBanks) (p : PatchData)

@[simp] theorem activePatch_setStaged : (b.setStaged p).activePatch = b.activePatch := by
  cases b with
  | mk b0 b1 active staging => cases active <;> rfl

@[simp] theorem staged_setStaged : (b.setStaged p).staged = p := by
  cases b with
  | mk b0 b1 active staging => cases active <;> rfl

@[simp] theorem staging_setStaged : (b.setStaged p).staging = b.staging := by
  cases b with
  | mk b0 b1 active staging => cases active <;> rfl

@[simp] theorem setStaged_setStaged (p' : PatchData) :
    (b.setStaged p).setStaged p' = b.setStaged p' := by
  cases b with
  | mk b0 b1 active staging => cases active <;> rfl

theorem setStaged_staged : b.setStaged b.staged = b := by
  cases b with
  | mk b0 b1 active staging => cases active <;> rfl

/-- The patch that the next commit publishes. -/
def prepared (b : PatchBanks) : PatchData := if b.staging then b.staged else b.activePatch

theorem staged_stage : b.stage.staged = b.prepared := by
  cases b with
  | mk b0 b1 active staging => cases active <;> cases staging <;> rfl

theorem activePatch_stage : b.stage.activePatch = b.activePatch := by
  cases b with
  | mk b0 b1 active staging => cases active <;> cases staging <;> rfl

theorem staging_stage : b.stage.staging = true := by
  unfold stage
  split
  · assumption
  · rfl

end PatchBanks

/-! ## Signal fields -/

/-- `for_each_signal_bit`: the byte, the bit in it and the index of the value bit, in the order in
which the callback sees them. -/
def signalBits (startBit bitLen : UInt8) (bigEndian : Bool) : List (Nat × Nat × Nat) :=
  if bitLen.toNat = 0 ∨ bitLen.toNat > 32 then []
  else if bigEndian then
    let rec loop : Nat → Nat → Nat → List (Nat × Nat × Nat)
      | 0, _, _ => []
      | left + 1, byte, bit =>
        if byte ≥ maxFrameDataLen then []
        else
          (byte, bit, left) ::
            (if bit = 0 then loop left (byte + 1) 7 else loop left byte (bit - 1))
    loop bitLen.toNat (startBit.toNat / 8) (startBit.toNat % 8)
  else
    ((List.range bitLen.toNat).takeWhile fun k => startBit.toNat + k < 64).map fun k =>
      ((startBit.toNat + k) / 8, (startBit.toNat + k) % 8, k)

/-- `v[i] |= b`. -/
def orAt (v : Bytes8) (i : Nat) (b : UInt8) : Bytes8 := v.setIfInBounds i (v.toList.getD i 0 ||| b)

/-- The `mask` and `bits` arrays, both zero before. -/
def signalEncode (startBit bitLen : UInt8) (bigEndian : Bool) (raw : UInt32) : Bytes8 × Bytes8 :=
  (signalBits startBit bitLen bigEndian).foldl
    (fun (mask, bits) (byte, bit, k) =>
      let b : UInt8 := 1 <<< UInt8.ofNat bit
      (orAt mask byte b, if raw >>> UInt32.ofNat k &&& 1 ≠ 0 then orAt bits byte b else bits))
    (.replicate maxFrameDataLen 0, .replicate maxFrameDataLen 0)

/-! ## `RulePatch` -/

/-- The patch of a rule in its two banks. -/
structure RulePatch where
  banks : PatchBanks
  declared : Bytes8
  deriving DecidableEq

namespace RulePatch

/-- `init_`; byte `i` of `declared` is at bits `8 * i`. -/
def init (initial : PatchData) (declared : UInt64) : RulePatch where
  banks := PatchBanks.init initial
  declared := .ofFn fun i => (declared >>> UInt64.ofNat (8 * i)).toUInt8

/-- `staged.or_value[index]` after `set_byte`. -/
def byteValue (p : PatchData) (index : Fin maxFrameDataLen) (value : UInt8) : UInt8 :=
  value &&& ~~~ p.andMask[index]

/-- `staged.new_can_id` after `set_can_id`: masked to the width of the rule's output type. -/
def canIdValue (p : PatchData) (canId : UInt32) : UInt32 :=
  canId &&& (if p.newExtended then maxExtendedId else maxStandardId)

/-- `staged.and_mask[i]` after its round of the loop in `set_signal`; `m` is the declared part of
the field. -/
def signalMask (enabled : Bool) (m old : UInt8) : UInt8 := if enabled then old &&& ~~~ m else old ||| m

/-- `staged.or_value[i]` after its round. -/
def signalValue (enabled : Bool) (m bits old : UInt8) : UInt8 :=
  if enabled then (old &&& ~~~ m) ||| (bits &&& m) else old &&& ~~~ m

/-- `set_byte` -/
def setByte (r : RulePatch) (index value : UInt8) : RulePatch :=
  if h : index.toNat < maxFrameDataLen then
    let banks := r.banks.stage
    let staged := banks.staged
    { r with
      banks := banks.setStaged { staged with
        orValue := staged.orValue.set index.toNat (byteValue staged ⟨index.toNat, h⟩ value) } }
  else r

/-- `false` when part of the field was not declared; those bits are left alone. -/
def setSignal (r : RulePatch) (startBit bitLen : UInt8) (bigEndian : Bool) (raw : UInt32)
    (enabled : Bool) : Bool × RulePatch :=
  let (field, bits) := signalEncode startBit bitLen bigEndian raw
  let banks := r.banks.stage
  let staged := (List.finRange maxFrameDataLen).foldl
    (fun p i =>
      let m := field[i] &&& r.declared[i]
      { p with
        andMask := p.andMask.set i (signalMask enabled m p.andMask[i])
        orValue := p.orValue.set i (signalValue enabled m bits[i] p.orValue[i]) })
    banks.staged
  let inside := (List.finRange maxFrameDataLen).all fun i =>
    field[i] &&& r.declared[i] == field[i]
  (inside, { r with banks := banks.setStaged staged })

/-- `set_can_id` -/
def setCanId (r : RulePatch) (canId : UInt32) : RulePatch :=
  let banks := r.banks.stage
  let staged := banks.staged
  { r with banks := banks.setStaged { staged with newCanId := canIdValue staged canId } }

/-- `commit` -/
def commit (r : RulePatch) : RulePatch := { r with banks := r.banks.commit }

end RulePatch

/-! ## Changing every cell once -/

theorem getElem_foldl_set {n : Nat} (g : Fin n → UInt8 → UInt8) {l : List (Fin n)} (hl : l.Nodup)
    (v : Vector UInt8 n) (j : Fin n) :
    (l.foldl (fun v i => v.set i (g i v[i])) v)[j] = if j ∈ l then g j v[j] else v[j] := by
  induction l generalizing v with
  | nil => rfl
  | cons i l ih =>
    obtain ⟨hi, hl⟩ := List.nodup_cons.mp hl
    rw [List.foldl_cons, ih hl]
    by_cases hji : j = i
    · subst hji
      rw [if_neg hi, if_pos (List.mem_cons_self ..)]
      simp
    · have hne : i.val ≠ j.val := fun h => hji (Fin.ext h.symm)
      have hset : (v.set i (g i v[i]))[j] = v[j] := Vector.getElem_set_ne _ _ hne
      simp only [hset, List.mem_cons, hji, false_or]

/-- A loop over all positions that changes each from its own old value changes them all. -/
theorem foldl_set_finRange {n : Nat} (g : Fin n → UInt8 → UInt8) (v : Vector UInt8 n) :
    (List.finRange n).foldl (fun v i => v.set i (g i v[i])) v = .ofFn fun i => g i v[i] := by
  apply Vector.ext
  intro j hj
  have h := getElem_foldl_set g (List.nodup_finRange n) v ⟨j, hj⟩
  rw [if_pos (List.mem_finRange _)] at h
  rw [Vector.getElem_ofFn]
  exact h

end EspCars.CanGateway
