import EspCars.Isotp.Transfer

/-!
# The segmentation of a message

What ISO 15765-2 makes of a message, byte by byte as it is on the bus: a single frame, or a first
frame and consecutive frames numbered 1, 2, …, 15, 0, 1, … over consecutive slices. The encoders
write these frames (`wire_encodeSingleFrame` and its siblings), whatever the buffer they write into
held before.
-/

namespace EspCars.Isotp

open EspCars.Lib

/-- The bytes of a frame that are sent. -/
def Frame.wire (f : Frame) : List UInt8 := f.data.take f.dlc

/-- A protocol control information and what follows it, with its address and its padding. -/
def framed (cfg : IsoTpConfig) (body : List UInt8) : List UInt8 :=
  let bytes := addressPrefix cfg ++ body
  if cfg.paddingEnabled then bytes ++ List.replicate (frameLen - bytes.length) cfg.paddingByte
  else bytes

section Segmentation

variable (cfg : IsoTpConfig) (m : List UInt8)

/-- The message in one frame. -/
def segmentedSingle : List UInt8 := framed cfg (UInt8.ofNat m.length :: m)

def segmentedFirst : List UInt8 :=
  framed cfg ((0x10 ||| UInt8.ofNat (m.length / 256 % 16)) :: UInt8.ofNat (m.length % 256) ::
    m.take (firstFrameCapacity cfg))

/-- Where the `k`-th consecutive frame starts in the message, counted from zero. -/
def segmentStart (k : Nat) : Nat := firstFrameCapacity cfg + k * consecutiveFrameCapacity cfg

def segmentedConsecutive (k : Nat) : List UInt8 :=
  framed cfg ((0x20 ||| UInt8.ofNat ((k + 1) % 16)) ::
    (m.drop (segmentStart cfg k)).take (consecutiveFrameCapacity cfg))

/-- How many consecutive frames carry what the first frame leaves. -/
def consecutiveCount : Nat :=
  (m.length - firstFrameCapacity cfg + consecutiveFrameCapacity cfg - 1) /
    consecutiveFrameCapacity cfg

/-- The frames of a message. -/
def segmentation : List (List UInt8) :=
  if m.length ≤ singleFrameCapacity cfg then [segmentedSingle cfg m]
  else segmentedFirst cfg m ::
    (List.range (consecutiveCount cfg m)).map (segmentedConsecutive cfg m)

end Segmentation

section Capacities

variable (cfg : IsoTpConfig)

theorem singleFrameCapacity_add : singleFrameCapacity cfg + cfg.addressExtensionLen = 7 := by
  have hael := cfg.addressExtensionLen.isLt
  unfold singleFrameCapacity frameLen
  omega

theorem firstFrameCapacity_add : firstFrameCapacity cfg + cfg.addressExtensionLen = 6 := by
  have hael := cfg.addressExtensionLen.isLt
  unfold firstFrameCapacity frameLen
  omega

theorem consecutiveFrameCapacity_add :
    consecutiveFrameCapacity cfg + cfg.addressExtensionLen = 7 := singleFrameCapacity_add cfg

theorem consecutiveFrameCapacity_pos : 0 < consecutiveFrameCapacity cfg := by
  have hsum := consecutiveFrameCapacity_add cfg
  omega

/-- The consecutive frames are those that start before the end of the message. -/
theorem lt_consecutiveCount {m : List UInt8} {k : Nat}
    (hmulti : singleFrameCapacity cfg < m.length) :
    k < consecutiveCount cfg m ↔ segmentStart cfg k < m.length := by
  have hpos := consecutiveFrameCapacity_pos cfg
  have hfirst := firstFrameCapacity_add cfg
  have hsingle := singleFrameCapacity_add cfg
  unfold consecutiveCount segmentStart
  rw [← Nat.succ_le_iff, Nat.le_div_iff_mul_le hpos, Nat.succ_mul]
  omega

theorem segmentStart_succ (k : Nat) :
    segmentStart cfg (k + 1) = segmentStart cfg k + consecutiveFrameCapacity cfg := by
  unfold segmentStart
  rw [Nat.succ_mul, Nat.add_assoc]

/-- The frames of a long message, up to `n` consecutive frames. -/
theorem take_segmentation {m : List UInt8} {n : Nat} (hmulti : singleFrameCapacity cfg < m.length)
    (hn : n ≤ consecutiveCount cfg m) :
    segmentedFirst cfg m :: (List.range n).map (segmentedConsecutive cfg m) <+:
      segmentation cfg m := by
  unfold segmentation
  rw [if_neg (Nat.not_le.mpr hmulti)]
  apply (List.prefix_cons_inj _).mpr
  obtain ⟨more, hmore⟩ := Nat.exists_eq_add_of_le hn
  rw [hmore, List.range_add, List.map_append]
  exact List.prefix_append _ _

end Capacities

/-! ## The encoders -/

section Encoders

variable {cfg : IsoTpConfig} {out : Frame}

/-- The address byte and the body stand at the start of an encoded frame. -/
theorem take_addressed {body : List UInt8} (hout : out.data.length = frameLen)
    (hfit : cfg.addressExtensionLen + body.length ≤ frameLen) :
    (addressed cfg (blit out.data cfg.addressExtensionLen body)).take
      (cfg.addressExtensionLen + body.length) = addressPrefix cfg ++ body := by
  have hroom : cfg.addressExtensionLen.val ≤ out.data.length := by omega
  have hbody := take_blit out.data body hroom
  unfold addressed addressPrefix
  by_cases hzero : cfg.addressExtensionLen = 0
  · rw [if_neg (not_not.mpr hzero), if_pos hzero, hbody]
    rw [hzero]
    rfl
  · have hone : cfg.addressExtensionLen.val = 1 := by
      have hne : cfg.addressExtensionLen.val ≠ 0 := fun h => hzero (Fin.ext h)
      omega
    rw [if_pos hzero, if_neg hzero, hone]
    rw [hone] at hbody hfit
    have hone' : blit (blit out.data 1 body) 0 [cfg.targetAddress] =
        cfg.targetAddress :: (blit out.data 1 body).drop 1 := rfl
    have hdrop : ((blit out.data 1 body).drop 1).take body.length = body := by
      have hcut := @List.drop_take _ 1 (1 + body.length) (blit out.data 1 body)
      rw [hbody, Nat.add_sub_cancel_left] at hcut
      rw [← hcut, List.drop_append_of_le_length (by rw [List.length_take]; omega), List.drop_take]
      rfl
    rw [hone', Nat.add_comm, List.take_succ_cons, hdrop]
    rfl

/-- What of an encoded frame is on the bus. -/
theorem wire_carry {body : List UInt8} (hout : out.data.length = frameLen)
    (hfit : cfg.addressExtensionLen + body.length ≤ frameLen) :
    (carry cfg out body).wire = framed cfg body := by
  have htake := take_addressed hout hfit
  have hlen : (addressPrefix cfg ++ body).length = cfg.addressExtensionLen + body.length := by
    have haddressed : (addressed cfg (blit out.data cfg.addressExtensionLen body)).length =
        frameLen := addressed_length cfg (by rw [blit_length (by omega), hout])
    rw [← htake, List.length_take]
    omega
  have haddressed : (addressed cfg (blit out.data cfg.addressExtensionLen body)).length =
      frameLen := addressed_length cfg (by rw [blit_length (by omega), hout])
  unfold Frame.wire carry finishFrame framed
  dsimp only
  rw [hlen]
  split_ifs
  · have hpad := take_blit (addressed cfg (blit out.data cfg.addressExtensionLen body))
      (List.replicate (frameLen - (cfg.addressExtensionLen + body.length)) cfg.paddingByte)
      (show cfg.addressExtensionLen + body.length ≤ _ by rw [haddressed]; exact hfit)
    rw [List.length_replicate, Nat.add_sub_cancel' hfit, htake] at hpad
    exact hpad
  · exact htake

theorem pciByte_eq (low : UInt8) :
    pciByte .single low = low ∧ pciByte .first low = 0x10 ||| low ∧
      pciByte .consecutive low = 0x20 ||| low := by
  refine ⟨?_, rfl, rfl⟩
  exact UInt8.zero_or

theorem wire_encodeSingleFrame {data : List UInt8} {size : Nat} (hout : out.data.length = frameLen)
    (hpos : 0 < size) (hfit : size ≤ singleFrameCapacity cfg) (hdata : size ≤ data.length) :
    ((encodeSingleFrame cfg data size out).getD out).wire =
      segmentedSingle cfg (data.take size) := by
  have hsum := singleFrameCapacity_add cfg
  have hlen : (data.take size).length = size := by
    rw [List.length_take]
    omega
  rw [encodeSingleFrame_eq hout hpos hfit hdata, Option.getD_some, wire_carry hout]
  · unfold segmentedSingle
    rw [(pciByte_eq _).1, hlen]
    rfl
  · rw [List.length_append, List.length_singleton, hlen]
    unfold frameLen
    omega

theorem length_field_bytes (n : Nat) : n >>> 8 &&& 0x0F = n / 256 % 16 ∧ n &&& 0xFF = n % 256 := by
  constructor
  · rw [show (0x0F : Nat) = 2 ^ 4 - 1 from rfl, Nat.and_two_pow_sub_one_eq_mod,
      Nat.shiftRight_eq_div_pow]
  · rw [show (0xFF : Nat) = 2 ^ 8 - 1 from rfl, Nat.and_two_pow_sub_one_eq_mod]

theorem wire_encodeFirstFrame {data : List UInt8} {size : Nat} (hout : out.data.length = frameLen)
    (hmulti : singleFrameCapacity cfg < size) (hdata : size ≤ data.length) :
    (encodeFirstFrame cfg data size out).wire = segmentedFirst cfg (data.take size) := by
  have hfirst := firstFrameCapacity_add cfg
  have hsingle := singleFrameCapacity_add cfg
  have hlen : (data.take size).length = size := by
    rw [List.length_take]
    omega
  obtain ⟨hhigh, hlow⟩ := length_field_bytes size
  have hcut : (data.take size).take (firstFrameCapacity cfg) = data.take (firstFrameCapacity cfg) := by
    rw [List.take_take, Nat.min_eq_left (by omega)]
  rw [encodeFirstFrame_eq hout (by omega), wire_carry hout]
  · unfold segmentedFirst
    rw [(pciByte_eq _).2.1, hhigh, hlow, hlen, hcut]
    rfl
  · rw [List.length_append, List.length_take]
    simp only [List.length_cons, List.length_nil, frameLen]
    omega

theorem wire_encodeConsecutiveFrame {data : List UInt8} {size k : Nat}
    (hout : out.data.length = frameLen) (hdata : size ≤ data.length) :
    ((encodeConsecutiveFrame cfg (data.drop (segmentStart cfg k)) (size - segmentStart cfg k)
      (UInt8.ofNat ((k + 1) % 16)) out).1.wire = segmentedConsecutive cfg (data.take size) k) ∧
    (encodeConsecutiveFrame cfg (data.drop (segmentStart cfg k)) (size - segmentStart cfg k)
      (UInt8.ofNat ((k + 1) % 16)) out).2 =
        min (size - segmentStart cfg k) (consecutiveFrameCapacity cfg) := by
  have hcap := consecutiveFrameCapacity_add cfg
  have hmask : UInt8.ofNat ((k + 1) % 16) &&& 0x0F = UInt8.ofNat ((k + 1) % 16) := by
    have key : ∀ i : Fin 16, UInt8.ofNat i &&& 0x0F = UInt8.ofNat i := by decide
    exact key ⟨(k + 1) % 16, Nat.mod_lt _ (by decide)⟩
  have hslice : (data.drop (segmentStart cfg k)).take
      (min (size - segmentStart cfg k) (consecutiveFrameCapacity cfg)) =
        ((data.take size).drop (segmentStart cfg k)).take (consecutiveFrameCapacity cfg) := by
    rw [List.drop_take, List.take_take, Nat.min_comm]
  rw [encodeConsecutiveFrame_eq hout (by rw [List.length_drop]; omega)]
  refine ⟨?_, rfl⟩
  rw [wire_carry hout]
  · unfold segmentedConsecutive
    rw [(pciByte_eq _).2.2, hmask, hslice]
    rfl
  · rw [List.length_append, List.length_singleton, List.length_take]
    unfold frameLen
    omega

end Encoders

end EspCars.Isotp
