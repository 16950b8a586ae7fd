import EspCars.Lib.Bytes
import Mathlib

/-!
# The ISO-TP frame codec

`components/isotp/isotp_core.h` up to `decode_pci`: the configuration of one address pair,
the four frame encoders and the decoder. Lengths and offsets are `Nat`: none of the sums the
source narrows to `uint8_t` exceeds `FRAME_LEN` for an `address_extension_len` of 0 or 1,
which is what `Fin 2` says.

The round trips (`decodePci_encodeSingleFrame` and its siblings) say what the decoder finds in
a frame of each kind, for either addressing and with or without padding.
-/

namespace EspCars.Isotp

open EspCars.Lib

/-- `FRAME_LEN`. -/
def frameLen : Nat := 8

/-- `MAX_CLASSIC_MESSAGE_SIZE`, the range of the 12-bit length field. -/
def maxClassicMessageSize : Nat := 4095

/-- `PciType` -/
inductive PciType
  | single | first | consecutive | flowControl | invalid
  deriving DecidableEq, Repr

def PciType.code : PciType → UInt8
  | .single => 0x0
  | .first => 0x1
  | .consecutive => 0x2
  | .flowControl => 0x3
  | .invalid => 0xFF

/-- `FlowStatus` -/
inductive FlowStatus
  | «continue» | wait | bufferOverflow
  deriving DecidableEq, Repr

def FlowStatus.code : FlowStatus → UInt8
  | .continue => 0x0
  | .wait => 0x1
  | .bufferOverflow => 0x2

/-- The cast from a nibble, already known to be at most `BUFFER_OVERFLOW`. -/
def FlowStatus.ofCode (c : UInt8) : FlowStatus :=
  if c = 0 then .continue else if c = 1 then .wait else .bufferOverflow

/-- `elapsed_ms`: subtraction modulo `2^32`. -/
def elapsedMs (now start : UInt32) : UInt32 := now - start

/-- `IsoTpError` -/
inductive IsoTpError
  | none | timeoutFc | timeoutCf | wrongSequence | overflowLocal | overflowRemote | txStalled
  | aborted
  deriving DecidableEq, Repr

/-- One frame: the eight payload cells and how many of them are sent. -/
structure Frame where
  data : List UInt8 := List.replicate frameLen 0
  dlc : Nat := 0
  deriving DecidableEq, Repr

/-- `IsoTpConfig` -/
structure IsoTpConfig where
  maxMessageSize : Nat := 256
  addressExtensionLen : Fin 2 := 0
  targetAddress : UInt8 := 0
  blockSize : UInt8 := 8
  stMinRaw : UInt8 := 0
  paddingByte : UInt8 := 0xCC
  paddingEnabled : Bool := false
  nBsTimeoutMs : UInt32 := 1000
  nCrTimeoutMs : UInt32 := 1000
  txStallTimeoutMs : UInt32 := 1000
  deriving DecidableEq, Repr

/-- `PciInfo`: the protocol control information of a frame. -/
structure PciInfo where
  type : PciType := .invalid
  length : Nat := 0
  sequence : UInt8 := 0
  status : FlowStatus := .continue
  blockSize : UInt8 := 0
  stMinRaw : UInt8 := 0
  payloadOffset : Nat := 0
  payloadLen : Nat := 0
  deriving DecidableEq, Repr

/-- Reserved encodings mean the maximum, the sub-millisecond ones round up to 1 ms. -/
def stMinToMs (raw : UInt8) : UInt32 :=
  if raw ≤ 0x7F then raw.toUInt32
  else if 0xF1 ≤ raw ∧ raw ≤ 0xF9 then 1
  else 127

/-! ## Encoding -/

def singleFrameCapacity (cfg : IsoTpConfig) : Nat := frameLen - 1 - cfg.addressExtensionLen

def firstFrameCapacity (cfg : IsoTpConfig) : Nat := frameLen - 2 - cfg.addressExtensionLen

def consecutiveFrameCapacity (cfg : IsoTpConfig) : Nat :=
  frameLen - 1 - cfg.addressExtensionLen

/-- The first PCI byte: the type in the high nibble. -/
def pciByte (type : PciType) (low : UInt8) : UInt8 := type.code <<< 4 ||| low

/-- The first half of `finish_frame`: the address byte, if addressing is extended. -/
def addressed (cfg : IsoTpConfig) (data : List UInt8) : List UInt8 :=
  if cfg.addressExtensionLen ≠ 0 then blit data 0 [cfg.targetAddress] else data

/-- What a frame has in front of its protocol control information. -/
def addressPrefix (cfg : IsoTpConfig) : List UInt8 :=
  if cfg.addressExtensionLen = 0 then [] else [cfg.targetAddress]

def finishFrame (cfg : IsoTpConfig) (data : List UInt8) (used : Nat) : Frame :=
  if cfg.paddingEnabled then
    { data := blit (addressed cfg data) used
        (List.replicate (frameLen - used) cfg.paddingByte)
      dlc := frameLen }
  else
    { data := addressed cfg data, dlc := used }

/-- `none` is the `false` return: the message does not fit and `out` is untouched. -/
def encodeSingleFrame (cfg : IsoTpConfig) (data : List UInt8) (size : Nat) (out : Frame) :
    Option Frame :=
  if size = 0 ∨ size > singleFrameCapacity cfg then
    none
  else
    let pci := cfg.addressExtensionLen.val
    let d := blit out.data pci [pciByte .single (UInt8.ofNat size)]
    let d := blit d (pci + 1) (slice data 0 size)
    some (finishFrame cfg d (pci + 1 + size))

/-- `encode_first_frame` -/
def encodeFirstFrame (cfg : IsoTpConfig) (data : List UInt8) (totalSize : Nat) (out : Frame) :
    Frame :=
  let pci := cfg.addressExtensionLen.val
  let d := blit out.data pci [pciByte .first (UInt8.ofNat (totalSize >>> 8 &&& 0x0F))]
  let d := blit d (pci + 1) [UInt8.ofNat (totalSize &&& 0xFF)]
  let take := firstFrameCapacity cfg
  let d := blit d (pci + 2) (slice data 0 take)
  finishFrame cfg d (pci + 2 + take)

/-- The frame and the number of message bytes it carries. `data` is the unsent rest of the
message. -/
def encodeConsecutiveFrame (cfg : IsoTpConfig) (data : List UInt8) (remaining : Nat)
    (sequence : UInt8) (out : Frame) : Frame × Nat :=
  let pci := cfg.addressExtensionLen.val
  let d := blit out.data pci [pciByte .consecutive (sequence &&& 0x0F)]
  let cap := consecutiveFrameCapacity cfg
  let take := if remaining < cap then remaining else cap
  let d := blit d (pci + 1) (slice data 0 take)
  (finishFrame cfg d (pci + 1 + take), take)

/-- `encode_flow_control` -/
def encodeFlowControl (cfg : IsoTpConfig) (status : FlowStatus) (blockSize stMinRaw : UInt8)
    (out : Frame) : Frame :=
  let pci := cfg.addressExtensionLen.val
  let d := blit out.data pci [pciByte .flowControl status.code]
  let d := blit d (pci + 1) [blockSize]
  let d := blit d (pci + 2) [stMinRaw]
  finishFrame cfg d (pci + 3)

/-! ## Decoding -/

/-- `decode_pci`; a frame of no kind is `invalid`. -/
def decodePci (cfg : IsoTpConfig) (data : List UInt8) (dlc : Nat) : PciInfo :=
  let pci := cfg.addressExtensionLen.val
  if dlc < pci + 1 then {}
  else
    let first := data.getD pci 0
    if first >>> 4 = PciType.single.code then
      let len := (first &&& 0x0F).toNat
      if len = 0 ∨ len > singleFrameCapacity cfg ∨ dlc < pci + 1 + len then {}
      else { type := .single, length := len, payloadOffset := pci + 1, payloadLen := len }
    else if first >>> 4 = PciType.first.code then
      if dlc < pci + 2 then {}
      else
        let len := (first &&& 0x0F).toNat <<< 8 ||| (data.getD (pci + 1) 0).toNat
        if len ≤ singleFrameCapacity cfg then {}
        else if dlc < pci + 2 + firstFrameCapacity cfg then {}
        else
          { type := .first, length := len, payloadOffset := pci + 2
            payloadLen := firstFrameCapacity cfg }
    else if first >>> 4 = PciType.consecutive.code then
      { type := .consecutive, sequence := first &&& 0x0F, payloadOffset := pci + 1
        payloadLen := dlc - (pci + 1) }
    else if first >>> 4 = PciType.flowControl.code then
      if dlc < pci + 3 then {}
      else
        let status := first &&& 0x0F
        if status > FlowStatus.bufferOverflow.code then {}
        else
          { type := .flowControl, status := FlowStatus.ofCode status
            blockSize := data.getD (pci + 1) 0, stMinRaw := data.getD (pci + 2) 0 }
    else {}

/-! ## What the decoder finds in an encoded frame -/

theorem pciByte_nibbles (type : PciType) (htype : type ≠ .invalid) (low : UInt8)
    (hlow : low.toNat < 16) :
    pciByte type low >>> 4 = type.code ∧ pciByte type low &&& 0x0F = low := by
  have key : ∀ k : Fin 16, ∀ t : PciType, t ≠ .invalid →
      pciByte t (UInt8.ofNat k) >>> 4 = t.code ∧
        pciByte t (UInt8.ofNat k) &&& 0x0F = UInt8.ofNat k := by
    intro k t
    revert k
    cases t <;> decide
  simpa using key ⟨low.toNat, hlow⟩ type htype

theorem and_0x0F_lt (b : UInt8) : (b &&& 0x0F).toNat < 16 := by
  rw [UInt8.toNat_and]
  exact Nat.lt_of_le_of_lt Nat.and_le_right (by decide)

variable {d : List UInt8} {cfg : IsoTpConfig}

theorem addressed_length (cfg : IsoTpConfig) (hd : d.length = frameLen) :
    (addressed cfg d).length = frameLen := by
  unfold addressed
  split_ifs
  · rw [blit_length (by simp [hd, frameLen]), hd]
  · exact hd

theorem finishFrame_dlc (cfg : IsoTpConfig) (d : List UInt8) {used : Nat}
    (hu : used ≤ frameLen) :
    used ≤ (finishFrame cfg d used).dlc ∧ (finishFrame cfg d used).dlc ≤ frameLen := by
  unfold finishFrame
  split_ifs
  · exact ⟨hu, Nat.le_refl _⟩
  · exact ⟨Nat.le_refl _, hu⟩

theorem slice_addressed {off n : Nat}
    (hd : d.length = frameLen) (hoff : cfg.addressExtensionLen ≤ off) :
    slice (addressed cfg d) off n = slice d off n := by
  unfold addressed
  split_ifs with ha
  · have hpos : 0 < cfg.addressExtensionLen.val :=
      Nat.pos_of_ne_zero fun h => ha (Fin.ext h)
    have h1 : [cfg.targetAddress].length = 1 := rfl
    exact slice_blit_of_disjoint (by rw [h1, hd]; decide) (Or.inr (by omega))
  · rfl

/-- Neither the address byte nor the padding touches the PCI and the payload. -/
theorem slice_finishFrame {used off n : Nat}
    (hd : d.length = frameLen) (hoff : cfg.addressExtensionLen ≤ off) (hn : off + n ≤ used)
    (hu : used ≤ frameLen) : slice (finishFrame cfg d used).data off n = slice d off n := by
  have ha := addressed_length cfg hd
  unfold finishFrame
  split_ifs
  · dsimp only
    rw [slice_blit_of_disjoint (by rw [List.length_replicate, ha]; omega) (Or.inl hn),
      slice_addressed hd hoff]
  · exact slice_addressed hd hoff

/-- The frame with `bytes` written behind the address: the shape of every encoded frame. -/
def carry (cfg : IsoTpConfig) (out : Frame) (bytes : List UInt8) : Frame :=
  finishFrame cfg (blit out.data cfg.addressExtensionLen bytes)
    (cfg.addressExtensionLen + bytes.length)

section Carry

variable {cfg : IsoTpConfig} {out : Frame} {bytes : List UInt8}

theorem carry_dlc (out : Frame) (hfit : cfg.addressExtensionLen + bytes.length ≤ frameLen) :
    cfg.addressExtensionLen + bytes.length ≤ (carry cfg out bytes).dlc ∧
      (carry cfg out bytes).dlc ≤ frameLen :=
  finishFrame_dlc cfg _ hfit

theorem slice_carry (hd : out.data.length = frameLen)
    (hfit : cfg.addressExtensionLen + bytes.length ≤ frameLen) {k n : Nat}
    (hn : k + n ≤ bytes.length) :
    slice (carry cfg out bytes).data (cfg.addressExtensionLen + k) n = slice bytes k n := by
  have hb : cfg.addressExtensionLen.val + bytes.length ≤ out.data.length := by omega
  unfold carry
  rw [slice_finishFrame (by rw [blit_length hb, hd]) (by omega) (by omega) hfit]
  apply List.ext_getElem?
  intro i
  simp only [getElem?_slice, getElem?_blit hb]
  split_ifs
  · omega
  · congr 1
    omega
  · omega
  · rfl

theorem getD_carry (hd : out.data.length = frameLen)
    (hfit : cfg.addressExtensionLen + bytes.length ≤ frameLen) {k : Nat}
    (hk : k < bytes.length) :
    (carry cfg out bytes).data.getD (cfg.addressExtensionLen + k) 0 = bytes.getD k 0 := by
  have key : ∀ (l : List UInt8) (i : Nat), l.getD i 0 = (slice l i 1).getD 0 0 := by
    intro l i
    simp only [List.getD_eq_getElem?_getD, getElem?_slice]
    simp
  rw [key, key bytes, slice_carry hd hfit hk]

end Carry

/-- A header written byte by byte and a payload behind it. -/
theorem finishFrame_blit {out : Frame} {header payload : List UInt8}
    (h : cfg.addressExtensionLen + header.length ≤ out.data.length) :
    finishFrame cfg (blit (blit out.data cfg.addressExtensionLen header)
      (cfg.addressExtensionLen + header.length) payload)
      (cfg.addressExtensionLen + header.length + payload.length) =
        carry cfg out (header ++ payload) := by
  rw [blit_blit_append _ _ _ _ h, carry, List.length_append, Nat.add_assoc]

theorem slice_zero (l : List UInt8) (n : Nat) : slice l 0 n = l.take n := rfl

section RoundTrip

variable {cfg rcfg : IsoTpConfig} {data : List UInt8} {out : Frame}

theorem encodeSingleFrame_eq {size : Nat} (hout : out.data.length = frameLen) (h0 : 0 < size)
    (hcap : size ≤ singleFrameCapacity cfg) (hdata : size ≤ data.length) :
    encodeSingleFrame cfg data size out =
      some (carry cfg out ([pciByte .single (UInt8.ofNat size)] ++ data.take size)) := by
  have hael := cfg.addressExtensionLen.isLt
  have hlen : (data.take size).length = size := by rw [List.length_take]; omega
  unfold encodeSingleFrame
  rw [if_neg (by omega), ← finishFrame_blit (by rw [hout]; simp [frameLen]; omega), hlen]
  rfl

theorem encodeFirstFrame_eq {total : Nat} (hout : out.data.length = frameLen)
    (hdata : firstFrameCapacity cfg ≤ data.length) :
    encodeFirstFrame cfg data total out =
      carry cfg out ([pciByte .first (UInt8.ofNat (total >>> 8 &&& 0x0F)),
        UInt8.ofNat (total &&& 0xFF)] ++ data.take (firstFrameCapacity cfg)) := by
  have hael := cfg.addressExtensionLen.isLt
  have hlen : (data.take (firstFrameCapacity cfg)).length = firstFrameCapacity cfg := by
    rw [List.length_take]
    omega
  rw [← finishFrame_blit (by rw [hout]; simp [frameLen]; omega), hlen]
  have h2 := blit_blit_append out.data cfg.addressExtensionLen
    [pciByte .first (UInt8.ofNat (total >>> 8 &&& 0x0F))]
    [UInt8.ofNat (total &&& 0xFF)] (by rw [hout]; simp [frameLen]; omega)
  simp only [List.length_singleton, List.singleton_append] at h2
  simp only [encodeFirstFrame, slice_zero, h2, List.length_cons, List.length_nil]

theorem encodeConsecutiveFrame_eq {remaining : Nat} {sequence : UInt8}
    (hout : out.data.length = frameLen) (hdata : remaining ≤ data.length) :
    encodeConsecutiveFrame cfg data remaining sequence out =
      (carry cfg out ([pciByte .consecutive (sequence &&& 0x0F)] ++
        data.take (min remaining (consecutiveFrameCapacity cfg))),
        min remaining (consecutiveFrameCapacity cfg)) := by
  have hael := cfg.addressExtensionLen.isLt
  have hlen : (data.take (min remaining (consecutiveFrameCapacity cfg))).length =
      min remaining (consecutiveFrameCapacity cfg) := by
    rw [List.length_take]
    omega
  have hmin : (if remaining < consecutiveFrameCapacity cfg then remaining
      else consecutiveFrameCapacity cfg) = min remaining (consecutiveFrameCapacity cfg) := by
    split_ifs <;> omega
  rw [← finishFrame_blit (by rw [hout]; simp [frameLen]; omega), hlen]
  simp only [encodeConsecutiveFrame, hmin, slice_zero, List.length_singleton]

theorem encodeFlowControl_eq {status : FlowStatus} {blockSize stMinRaw : UInt8}
    (hout : out.data.length = frameLen) :
    encodeFlowControl cfg status blockSize stMinRaw out =
      carry cfg out [pciByte .flowControl status.code, blockSize, stMinRaw] := by
  have hael := cfg.addressExtensionLen.isLt
  have h2 := blit_blit_append out.data cfg.addressExtensionLen
    [pciByte .flowControl status.code] [blockSize]
    (by rw [hout]; simp [frameLen]; omega)
  have h3 := blit_blit_append out.data cfg.addressExtensionLen
    [pciByte .flowControl status.code, blockSize] [stMinRaw]
    (by rw [hout]; simp [frameLen]; omega)
  simp only [List.length_cons, List.length_nil, List.cons_append, List.nil_append] at h2 h3
  simp only [encodeFlowControl, h2, h3, carry, List.length_cons, List.length_nil]

variable (out)

/-- A receiver with the same addressing reads back what a single frame carries. -/
theorem decodePci_single {size : Nat} (hael : rcfg.addressExtensionLen = cfg.addressExtensionLen)
    (hout : out.data.length = frameLen) (h0 : 0 < size) (hcap : size ≤ singleFrameCapacity cfg)
    (hdata : size ≤ data.length) :
    let f := carry cfg out ([pciByte .single (UInt8.ofNat size)] ++ data.take size)
    decodePci rcfg f.data f.dlc =
      { type := .single, length := size, payloadOffset := cfg.addressExtensionLen + 1
        payloadLen := size } ∧
    slice f.data (cfg.addressExtensionLen + 1) size = data.take size := by
  intro f
  have hlen : (data.take size).length = size := by
    rw [List.length_take]
    omega
  have hcaps : singleFrameCapacity rcfg = singleFrameCapacity cfg := by
    simp only [singleFrameCapacity, hael]
  have hseven : singleFrameCapacity cfg + cfg.addressExtensionLen = 7 := by
    simp only [singleFrameCapacity, frameLen]
    omega
  have hsize : UInt8.size = 256 := rfl
  have hsmall : (UInt8.ofNat size).toNat = size := UInt8.toNat_ofNat_of_lt' (by omega)
  have hfit : cfg.addressExtensionLen +
      ([pciByte .single (UInt8.ofNat size)] ++ data.take size).length ≤ frameLen := by
    simp only [List.length_append, List.length_singleton, hlen, frameLen]
    omega
  have hdlc : cfg.addressExtensionLen + (1 + size) ≤ f.dlc := by
    have h := (carry_dlc out hfit).1
    rwa [List.length_append, hlen] at h
  have hfirst : f.data.getD cfg.addressExtensionLen 0 = _ :=
    getD_carry hout hfit (k := 0) (by simp)
  simp only [List.cons_append, List.getD_cons_zero] at hfirst
  obtain ⟨hhi, hlo⟩ := pciByte_nibbles .single (by decide) (UInt8.ofNat size)
    (by omega)
  refine ⟨?_, ?_⟩
  · unfold decodePci
    rw [hael, hcaps]
    simp only [hfirst, hhi, hlo, hsmall]
    rw [if_neg (by omega), if_pos trivial, if_neg (by omega)]
  · rw [slice_carry hout hfit (by
      simp only [List.length_append, List.length_singleton, hlen]
      omega)]
    simp only [slice, List.cons_append, List.drop_succ_cons, List.drop_zero, List.nil_append]
    rw [List.take_take, Nat.min_self]

/-- The two bytes of a first frame's length field. -/
theorem length_field {total : Nat} (h : total ≤ maxClassicMessageSize) :
    (UInt8.ofNat (total >>> 8 &&& 0x0F)).toNat < 16 ∧
      (UInt8.ofNat (total >>> 8 &&& 0x0F)).toNat <<< 8 |||
        (UInt8.ofNat (total &&& 0xFF)).toNat = total := by
  simp only [maxClassicMessageSize] at h
  have hhi : total >>> 8 &&& 0x0F = total / 256 := by
    rw [show (0x0F : Nat) = 2 ^ 4 - 1 from rfl, Nat.and_two_pow_sub_one_eq_mod,
      Nat.shiftRight_eq_div_pow]
    omega
  have hlo : total &&& 0xFF = total % 256 := by
    rw [show (0xFF : Nat) = 2 ^ 8 - 1 from rfl, Nat.and_two_pow_sub_one_eq_mod]
  have hsize : UInt8.size = 256 := rfl
  rw [hhi, hlo, UInt8.toNat_ofNat_of_lt' (by omega), UInt8.toNat_ofNat_of_lt' (by omega)]
  refine ⟨by omega, ?_⟩
  rw [← Nat.shiftLeft_add_eq_or_of_lt (by omega), Nat.shiftLeft_eq]
  omega

/-- A receiver with the same addressing reads back what a first frame carries. -/
theorem decodePci_first {total : Nat} (hael : rcfg.addressExtensionLen = cfg.addressExtensionLen)
    (hout : out.data.length = frameLen) (hmulti : singleFrameCapacity cfg < total)
    (hmax : total ≤ maxClassicMessageSize) (hdata : total ≤ data.length) :
    let f := carry cfg out ([pciByte .first (UInt8.ofNat (total >>> 8 &&& 0x0F)),
      UInt8.ofNat (total &&& 0xFF)] ++ data.take (firstFrameCapacity cfg))
    decodePci rcfg f.data f.dlc =
      { type := .first, length := total, payloadOffset := cfg.addressExtensionLen + 2
        payloadLen := firstFrameCapacity cfg } ∧
    slice f.data (cfg.addressExtensionLen + 2) (firstFrameCapacity cfg) =
      data.take (firstFrameCapacity cfg) := by
  intro f
  have hcaps : firstFrameCapacity rcfg = firstFrameCapacity cfg ∧
      singleFrameCapacity rcfg = singleFrameCapacity cfg := by
    simp only [firstFrameCapacity, singleFrameCapacity, hael, and_self]
  have hff : firstFrameCapacity cfg + cfg.addressExtensionLen = 6 ∧
      firstFrameCapacity cfg < singleFrameCapacity cfg := by
    simp only [firstFrameCapacity, singleFrameCapacity, frameLen]
    omega
  have hlen : (data.take (firstFrameCapacity cfg)).length = firstFrameCapacity cfg := by
    rw [List.length_take]
    omega
  obtain ⟨hnib, hval⟩ := length_field hmax
  obtain ⟨hhi, hlo⟩ := pciByte_nibbles .first (by decide) _ hnib
  have hfit : cfg.addressExtensionLen + ([pciByte .first (UInt8.ofNat (total >>> 8 &&& 0x0F)),
      UInt8.ofNat (total &&& 0xFF)] ++ data.take (firstFrameCapacity cfg)).length ≤ frameLen := by
    simp only [List.length_append, List.length_cons, List.length_nil, hlen, frameLen]
    omega
  have hdlc : cfg.addressExtensionLen + (2 + firstFrameCapacity cfg) ≤ f.dlc := by
    have h := (carry_dlc out hfit).1
    rwa [List.length_append, hlen] at h
  have hfirst : f.data.getD cfg.addressExtensionLen 0 = _ :=
    getD_carry hout hfit (k := 0) (by simp)
  have hsecond : f.data.getD (cfg.addressExtensionLen + 1) 0 = _ :=
    getD_carry hout hfit (k := 1) (by simp)
  simp only [List.cons_append, List.getD_cons_zero, List.getD_cons_succ] at hfirst hsecond
  refine ⟨?_, ?_⟩
  · unfold decodePci
    rw [hael, hcaps.1, hcaps.2]
    simp only [hfirst, hsecond, hhi, hlo, hval]
    rw [if_neg (by omega), if_neg (by decide), if_pos trivial, if_neg (by omega),
      if_neg (by omega), if_neg (by omega)]
  · rw [slice_carry hout hfit (by
      simp only [List.length_append, List.length_cons, List.length_nil, hlen]
      omega)]
    simp only [slice, List.cons_append, List.drop_succ_cons, List.drop_zero, List.nil_append]
    rw [List.take_take, Nat.min_self]

/-- A receiver with the same addressing finds at least the bytes of the message that a
consecutive frame carries; padding may follow them. -/
theorem decodePci_consecutive {n : Nat} (sequence : UInt8)
    (hael : rcfg.addressExtensionLen = cfg.addressExtensionLen)
    (hout : out.data.length = frameLen) (hcap : n ≤ consecutiveFrameCapacity cfg)
    (hdata : n ≤ data.length) :
    let f := carry cfg out ([pciByte .consecutive (sequence &&& 0x0F)] ++ data.take n)
    ∃ len, n ≤ len ∧ len + cfg.addressExtensionLen < frameLen ∧
      decodePci rcfg f.data f.dlc =
        { type := .consecutive, sequence := sequence &&& 0x0F
          payloadOffset := cfg.addressExtensionLen + 1, payloadLen := len } ∧
      slice f.data (cfg.addressExtensionLen + 1) n = data.take n := by
  intro f
  simp only [consecutiveFrameCapacity, frameLen] at hcap
  have hlen : (data.take n).length = n := by
    rw [List.length_take]
    omega
  obtain ⟨hhi, hlo⟩ := pciByte_nibbles .consecutive (by decide) _ (and_0x0F_lt sequence)
  have hfit : cfg.addressExtensionLen +
      ([pciByte .consecutive (sequence &&& 0x0F)] ++ data.take n).length ≤ frameLen := by
    simp only [List.length_append, List.length_singleton, hlen, frameLen]
    omega
  have hdlc : cfg.addressExtensionLen + (1 + n) ≤ f.dlc ∧ f.dlc ≤ frameLen := by
    have h := carry_dlc out hfit
    rwa [List.length_append, hlen] at h
  have hfirst : f.data.getD cfg.addressExtensionLen 0 = _ :=
    getD_carry hout hfit (k := 0) (by simp)
  simp only [List.cons_append, List.getD_cons_zero] at hfirst
  refine ⟨f.dlc - (cfg.addressExtensionLen + 1), by omega, by omega, ?_, ?_⟩
  · unfold decodePci
    rw [hael]
    simp only [hfirst, hhi, hlo]
    rw [if_neg (by omega), if_neg (by decide), if_neg (by decide), if_pos trivial]
  · rw [slice_carry hout hfit (by
      simp only [List.length_append, List.length_singleton, hlen]
      omega)]
    simp only [slice, List.cons_append, List.drop_succ_cons, List.drop_zero, List.nil_append]
    rw [List.take_take, Nat.min_self]

/-- A sender with the same addressing reads back a flow control frame. -/
theorem decodePci_flowControl {status : FlowStatus} {blockSize stMinRaw : UInt8}
    (hael : rcfg.addressExtensionLen = cfg.addressExtensionLen)
    (hout : out.data.length = frameLen) :
    let f := carry cfg out [pciByte .flowControl status.code, blockSize, stMinRaw]
    decodePci rcfg f.data f.dlc =
      { type := .flowControl, status := status, blockSize := blockSize
        stMinRaw := stMinRaw } := by
  intro f
  obtain ⟨hhi, hlo⟩ := pciByte_nibbles .flowControl (by decide) status.code
    (by cases status <;> decide)
  have hfit : cfg.addressExtensionLen +
      [pciByte .flowControl status.code, blockSize, stMinRaw].length ≤ frameLen := by
    simp only [List.length_cons, List.length_nil, frameLen]
    omega
  have hdlc : cfg.addressExtensionLen + 3 ≤ f.dlc := (carry_dlc out hfit).1
  have hfirst : f.data.getD cfg.addressExtensionLen 0 = _ :=
    getD_carry hout hfit (k := 0) (by simp)
  have hsecond : f.data.getD (cfg.addressExtensionLen + 1) 0 = _ :=
    getD_carry hout hfit (k := 1) (by simp)
  have hthird : f.data.getD (cfg.addressExtensionLen + 2) 0 = _ :=
    getD_carry hout hfit (k := 2) (by simp)
  have hst : ¬ status.code > FlowStatus.bufferOverflow.code := by cases status <;> decide
  have hcast : FlowStatus.ofCode status.code = status := by cases status <;> rfl
  simp only [List.getD_cons_zero, List.getD_cons_succ] at hfirst hsecond hthird
  unfold decodePci
  rw [hael]
  simp only [hfirst, hsecond, hthird, hhi, hlo, hcast]
  rw [if_neg (by omega), if_neg (by decide), if_neg (by decide), if_neg (by decide),
    if_pos trivial, if_neg (by omega), if_neg hst]

end RoundTrip

end EspCars.Isotp
