import EspCars.CanGateway.Accepted
import EspCars.CanGateway.E2e
import EspCars.Lib.Alongside

/-!
# A route does what its YAML says

`Reads` is what a `routes` entry says about a received frame. The table that the `add_rule` calls
build does just that with every frame (`reads_toCode`).
-/

namespace EspCars.CanGateway

open EspCars.Lib Config

/-- A frame as the controller delivers it: the identifier has the width of its type. -/
structure ReceivedFrame where
  canId : UInt32
  extended : Bool
  rtr : Bool
  dlc : Fin 16
  data : Bytes8
  idFits : canId.toNat ≤ idBound extended
  deriving DecidableEq

/-- What `process_frame` gets of it. -/
def ReceivedFrame.frame (x : ReceivedFrame) : CanFrame :=
  { canId := x.canId, extended := x.extended, rtr := x.rtr, dlc := min x.dlc maxFrameDataLen
    data := x.data }

/-- Bit `j` of byte `i`. -/
def payloadBit (data : Bytes8) (i : Fin maxFrameDataLen) (j : Nat) : Bool :=
  (data.get i).toNat.testBit j

namespace Config

/-! ## What the YAML says -/

/-- The ID type, the masked ID and the RTR condition, if there is one, agree. -/
def Rule.agrees (rule : Rule) (x : ReceivedFrame) : Bool :=
  x.extended = rule.useExtendedId ∧ x.canId.toNat &&& rule.mask = rule.canId ∧
    rule.remoteTransmissionRequest.all (· = x.rtr)

/-- The byte that `e2e` maintains. -/
def Modify.Repaired (modify : Modify) (x : ReceivedFrame) (i : Fin maxFrameDataLen) : Prop :=
  x.rtr = false ∧ i < x.frame.dlc ∧ ∃ e2e, modify.e2e = some e2e ∧ e2e.crcByte = i

/-- The frame `y` is what the modification makes of `x`. -/
structure Modified (rule : Rule) (modify : Modify) (x : ReceivedFrame) (y : CanFrame) : Prop where
  canId : y.canId.toNat = modify.canId.getD x.canId.toNat
  extended : y.extended = modify.useExtendedId.getD rule.useExtendedId
  rtr : y.rtr = x.rtr
  dlc : y.dlc = x.frame.dlc
  written : x.rtr = false → ∀ (i : Fin maxFrameDataLen) (j : Nat) (b : Bool), i < x.frame.dlc →
    j < 8 → modify.Writes i j b → ¬ modify.Repaired x i → payloadBit y.data i j = b
  kept : ∀ (i : Fin maxFrameDataLen) (j : Nat), j < 8 →
    (x.rtr = true ∨ x.frame.dlc ≤ i ∨ ∀ b, ¬ modify.Writes i j b) → ¬ modify.Repaired x i →
      payloadBit y.data i j = payloadBit x.data i j

/-- The first filter that agrees decides, else the default action. -/
def Reads (route : Route) (x : ReceivedFrame) (out : FrameAction × CanFrame) : Prop :=
  match route.filters.find? fun rule => rule.agrees x with
  | none =>
    out.1 = (if route.defaultAction = .accept then .forward else .dropFiltered) ∧ out.2 = x.frame
  | some rule =>
    match rule.action with
    | .drop => out.1 = .dropFiltered
    | .accept =>
      out.1 = .forward ∧
        match rule.modify with
        | none => out.2 = x.frame
        | some modify => Modified rule modify x out.2

/-! ## The entry of a rule -/

/-- The patch that `add_rule` prepares. -/
def patchOf (rule : Rule) : PatchData where
  replaceId := ruleFlags rule &&& ruleFlagReplaceId ≠ 0
  newCanId := UInt32.ofNat ((rule.modify.bind Modify.canId).getD rule.canId)
  newExtended := ruleFlags rule &&& ruleFlagOutExt ≠ 0
  andMask := unpackBytes (UInt64.ofNat (packedPatchMasks rule.modify).1)
  orValue := unpackBytes (UInt64.ofNat (packedPatchMasks rule.modify).2)

def e2eOf (rule : Rule) : E2eCrc :=
  match rule.modify.bind Modify.e2e with
  | none => {}
  | some e2e =>
    { crcIndex := UInt8.ofNat e2e.crcByte, first := UInt8.ofNat e2e.firstByte
      last := UInt8.ofNat (e2e.lastByte.getD 0), poly := UInt8.ofNat e2e.polynomial }

def flagsOf (rule : Rule) : RuleFlags :=
  .ofByte (ruleFlags rule &&& (ruleFlagExtended ||| ruleFlagCheckRtr ||| ruleFlagRtrValue |||
    ruleFlagDrop ||| ruleFlagHasPatch))

/-- The entry that the calls for a rule append. -/
def entryOf (rule : Rule) : RuleEntry where
  matchId := UInt32.ofNat rule.canId
  matchMask := UInt32.ofNat (rule.canIdMask.getD 0)
  flags := flagsOf rule
  staticPatch := if rule.hasId then {} else patchOf rule
  banks :=
    if rule.hasId then
      some (RulePatch.init (patchOf rule) (UInt64.ofNat (declaredMask rule.modify))).banks
    else none
  e2e := e2eOf rule

variable {rule : Rule} {i : Fin maxFrameDataLen}

theorem emitRule_eq {route : GatewayRoute} (hroom : route.rules.length < route.capacity) :
    emitRule route rule =
      { route with
        rules := route.rules ++ [entryOf rule]
        ruleCount := UInt8.ofNat (route.rules.length + 1) } := by
  unfold emitRule GatewayRoute.addRule
  dsimp only
  rw [if_pos hroom]
  cases he2e : rule.modify.bind Modify.e2e with
  | none =>
    dsimp only
    unfold entryOf e2eOf
    rw [he2e]
    cases rule.hasId <;> simp [patchOf, flagsOf]
  | some e2e =>
    unfold GatewayRoute.setLastRuleE2e entryOf e2eOf
    rw [he2e]
    cases rule.hasId <;> simp [patchOf, flagsOf]

theorem foldl_emitRule {route : GatewayRoute} {rules : List Rule}
    (hroom : route.rules.length + rules.length ≤ route.capacity)
    (hcount : route.ruleCount = UInt8.ofNat route.rules.length) :
    rules.foldl emitRule route =
      { route with
        rules := route.rules ++ rules.map entryOf
        ruleCount := UInt8.ofNat (route.rules.length + rules.length) } := by
  induction rules generalizing route with
  | nil =>
    rw [List.foldl_nil, List.map_nil, List.append_nil, List.length_nil, Nat.add_zero, ← hcount]
  | cons rule rules ih =>
    rw [List.length_cons] at hroom
    rw [List.foldl_cons, emitRule_eq (by omega), ih]
    · simp [Nat.add_assoc, Nat.add_comm 1]
    · simp only [List.length_append, List.length_singleton]
      omega
    · simp

theorem table_toCode {route : Route} (h : route.filters.length ≤ maxRouteFilters) :
    (toCode route).table =
      { rules := route.filters.map entryOf, defaultDrop := !decide (route.defaultAction = .accept) } := by
  have hlength : (UInt8.ofNat route.filters.length).toNat = route.filters.length := by
    rw [UInt8.toNat_ofNat']
    exact Nat.mod_eq_of_lt (Nat.lt_of_le_of_lt h (by decide))
  unfold toCode
  rw [foldl_emitRule]
  · unfold GatewayRoute.table GatewayRoute.ofCount
    simp only [List.nil_append, List.length_nil, Nat.zero_add, hlength]
    rw [List.take_of_length_le (Nat.le_of_eq (List.length_map _))]
  · show [].length + route.filters.length ≤ (UInt8.ofNat route.filters.length).toNat
    rw [hlength, List.length_nil, Nat.zero_add]
  · rfl

theorem effectivePatch_entryOf (rule : Rule) : (entryOf rule).effectivePatch = patchOf rule := by
  unfold RuleEntry.effectivePatch entryOf
  cases rule.hasId <;> rfl

/-! ## Flags -/

/-- The flags of a rule with a modification. -/
def patchedFlags (extended : Bool) (rtr : Option Bool) (action : RuleAction)
    (outExtended replaceId : Bool) : UInt8 :=
  ((if extended then [ruleFlagExtended] else []) ++
    (rtr.elim [] fun rtr => ruleFlagCheckRtr :: if rtr then [ruleFlagRtrValue] else []) ++
    (if action = .drop then [ruleFlagDrop] else []) ++
    (ruleFlagHasPatch :: (if outExtended then [ruleFlagOutExt] else []) ++
      if replaceId then [ruleFlagReplaceId] else [])).foldl (· ||| ·) 0

theorem ruleFlags_of_modify {modify : Modify} (h : rule.modify = some modify) :
    ruleFlags rule = patchedFlags rule.useExtendedId rule.remoteTransmissionRequest rule.action
      (modify.useExtendedId.getD rule.useExtendedId)
      (decide (modify.canId.isSome ∨
        modify.useExtendedId.getD rule.useExtendedId ≠ rule.useExtendedId)) := by
  unfold ruleFlags ruleFlagList patchedFlags
  rw [h]
  simp only [decide_eq_true_eq]
  cases rule.remoteTransmissionRequest <;> rfl

theorem flagsOf_eq (rule : Rule) : flagsOf rule =
    { extended := rule.useExtendedId
      checkRtr := rule.remoteTransmissionRequest.isSome
      rtrValue := decide (rule.remoteTransmissionRequest = some true)
      drop := decide (rule.action = .drop)
      hasPatch := rule.modify.isSome } := by
  unfold flagsOf
  cases hmodify : rule.modify with
  | none =>
    unfold ruleFlags ruleFlagList
    rw [hmodify]
    cases rule.useExtendedId <;> cases rule.action <;>
      rcases rule.remoteTransmissionRequest with _ | _ | _ <;> rfl
  | some modify =>
    rw [ruleFlags_of_modify hmodify]
    generalize modify.useExtendedId.getD rule.useExtendedId = outExtended
    generalize decide (modify.canId.isSome ∨ outExtended ≠ rule.useExtendedId) = replaceId
    cases rule.useExtendedId <;> cases rule.action <;> cases outExtended <;> cases replaceId <;>
      rcases rule.remoteTransmissionRequest with _ | _ | _ <;> rfl

theorem patchFlags {modify : Modify} (h : rule.modify = some modify) :
    (patchOf rule).newExtended = modify.useExtendedId.getD rule.useExtendedId ∧
    (patchOf rule).replaceId = decide (modify.canId.isSome ∨
      modify.useExtendedId.getD rule.useExtendedId ≠ rule.useExtendedId) := by
  unfold patchOf
  rw [ruleFlags_of_modify h]
  dsimp only
  generalize modify.useExtendedId.getD rule.useExtendedId = outExtended
  generalize decide (modify.canId.isSome ∨ outExtended ≠ rule.useExtendedId) = replaceId
  cases rule.useExtendedId <;> cases rule.action <;> cases outExtended <;> cases replaceId <;>
    rcases rule.remoteTransmissionRequest with _ | _ | _ <;> exact ⟨rfl, rfl⟩

/-! ## Matching -/

theorem idBound_lt (extended : Bool) : idBound extended < 2 ^ 32 := by
  cases extended <;> decide

theorem matches_iff {r : RuleEntry} {x : ReceivedFrame} : r.matches x.frame = true ↔
    x.extended = r.flags.extended ∧ x.canId &&& r.matchMask = r.matchId ∧
      (r.flags.checkRtr = true → x.rtr = r.flags.rtrValue) := by
  unfold RuleEntry.matches ReceivedFrame.frame
  split_ifs with hext hid hrtr
  · exact iff_of_false id fun h => hext h.1
  · exact iff_of_false id fun h => hid h.2.1
  · exact iff_of_false id fun h => hrtr.2 (h.2.2 hrtr.1)
  · refine iff_of_true rfl ⟨not_not.mp hext, not_not.mp hid, fun hcheck => ?_⟩
    by_contra hne
    exact hrtr ⟨hcheck, hne⟩

theorem matches_entryOf {out : Rule} (h : ValidRule rule out) (x : ReceivedFrame) :
    (entryOf out).matches x.frame = rule.agrees x := by
  have hid : (UInt32.ofNat rule.canId).toNat = rule.canId := by
    rw [UInt32.toNat_ofNat']
    exact Nat.mod_eq_of_lt (Nat.lt_of_le_of_lt h.canIdLe (idBound_lt _))
  have hmask : (UInt32.ofNat rule.mask).toNat = rule.mask := by
    rw [UInt32.toNat_ofNat']
    exact Nat.mod_eq_of_lt (Nat.lt_of_le_of_lt h.maskLe (idBound_lt _))
  have hsame : x.canId &&& UInt32.ofNat rule.mask = UInt32.ofNat rule.canId ↔
      x.canId.toNat &&& rule.mask = rule.canId := by
    rw [← UInt32.toNat_inj, UInt32.toNat_and, hid, hmask]
  have hflags : (entryOf out).flags = flagsOf out := rfl
  have hentryId : (entryOf out).matchId = UInt32.ofNat rule.canId := by
    rw [← h.canId]
    rfl
  have hentryMask : (entryOf out).matchMask = UInt32.ofNat rule.mask := by
    show UInt32.ofNat (out.canIdMask.getD 0) = _
    rw [h.canIdMask, Option.getD_some]
  have hext : (entryOf out).flags.extended = rule.useExtendedId := by
    rw [hflags, flagsOf_eq, h.useExtendedId]
  have hrtr : ((entryOf out).flags.checkRtr = true → x.rtr = (entryOf out).flags.rtrValue) ↔
      (rule.remoteTransmissionRequest.all fun rtr => rtr = x.rtr) = true := by
    rw [hflags, flagsOf_eq, h.remoteTransmissionRequest]
    rcases rule.remoteTransmissionRequest with _ | _ | _ <;> cases x.rtr <;> simp
  rw [Bool.eq_iff_iff, matches_iff, hext, hentryId, hentryMask, hsame, hrtr, Rule.agrees,
    decide_eq_true_iff]

/-! ## Payload -/

theorem testBit_unpackBytes (n : Nat) (i : Fin maxFrameDataLen) {j : Nat} (hj : j < 8) :
    ((unpackBytes (UInt64.ofNat n)).get i).toNat.testBit j = n.testBit (8 * i + j) := by
  have hlt : i.val < 8 := i.isLt
  have hi : 8 * i.val < 64 := by omega
  have hget : (unpackBytes (UInt64.ofNat n)).get i =
      (UInt64.ofNat n >>> UInt64.ofNat (8 * i)).toUInt8 := by
    unfold unpackBytes
    exact Vector.getElem_ofFn i.isLt
  rw [hget, UInt64.toNat_toUInt8, UInt64.toNat_shiftRight, UInt64.toNat_ofNat', UInt64.toNat_ofNat',
    Nat.testBit_mod_two_pow, Nat.testBit_shiftRight, Nat.testBit_mod_two_pow,
    Nat.mod_eq_of_lt (by omega : 8 * i.val < 2 ^ 64), Nat.mod_eq_of_lt hi, decide_eq_true hj,
    decide_eq_true (by omega : 8 * i.val + j < 64)]
  rfl

theorem payloadBit_applyPatch {p : PatchData} {f : CanFrame} (hrtr : f.rtr = false)
    (hi : i < min f.dlc maxFrameDataLen) (j : Nat) :
    payloadBit (applyPatch p f).data i j =
      (payloadBit f.data i j && (p.andMask.get i).toNat.testBit j ||
        (p.orValue.get i).toNat.testBit j) := by
  have hdata : (applyPatch p f).data.get i = (f.data.get i &&& p.andMask.get i) ||| p.orValue.get i := by
    rw [data_applyPatch, if_neg (by rw [hrtr]; exact Bool.false_ne_true)]
    exact (Vector.getElem_ofFn i.isLt).trans (if_pos hi)
  unfold payloadBit
  rw [hdata, UInt8.toNat_or, UInt8.toNat_and, Nat.testBit_or, Nat.testBit_and]

theorem data_applyPatch_get {p : PatchData} {f : CanFrame}
    (h : f.rtr = true ∨ min f.dlc maxFrameDataLen ≤ i) :
    (applyPatch p f).data.get i = f.data.get i := by
  rw [data_applyPatch]
  split_ifs with hrtr
  · rfl
  · have hi : ¬ i.val < min f.dlc maxFrameDataLen := Nat.not_lt.mpr (h.resolve_left hrtr)
    exact (Vector.getElem_ofFn i.isLt).trans (if_neg hi)

/-- The repair writes the CRC byte only, and that only below the dlc. -/
theorem get_e2eFixCrc {e : E2eCrc} {before data : Bytes8} {dlc : Nat}
    (h : i.val ≠ e.crcIndex.toNat ∨ dlc ≤ i) :
    (e2eFixCrc e before data dlc).get i = data.get i := by
  unfold e2eFixCrc
  dsimp only
  split_ifs with hguard hzero
  · rfl
  · rfl
  · have hne : e.crcIndex.toNat ≠ i.val := by
      rcases h with h | h
      · exact Ne.symm h
      · intro heq
        exact hguard (Or.inr (Or.inr (Or.inl (by omega))))
    exact Vector.getElem_setIfInBounds_ne i.isLt hne

/-! ## The frame that goes out -/

section Output

variable {rule out : Rule} {modify valid : Modify} {x : ReceivedFrame}

/-- The identifier and the type of the patched frame. -/
theorem header_applyPatch (h : ValidRule rule out) (hvalid : ValidModify modify valid)
    (hout : out.modify = some valid) (hagrees : rule.agrees x = true) :
    (applyPatch (patchOf out) x.frame).canId.toNat = modify.canId.getD x.canId.toNat ∧
    (applyPatch (patchOf out) x.frame).extended = modify.useExtendedId.getD rule.useExtendedId := by
  obtain ⟨hnewExtended, hreplace⟩ := patchFlags hout
  obtain ⟨hext, hmatch, -⟩ := of_decide_eq_true hagrees
  have houtput := h.output valid hout
  rw [h.useExtendedId, hvalid.useExtendedId] at hnewExtended hreplace
  rw [hvalid.canId] at hreplace
  unfold checkOutput at houtput
  rw [h.useExtendedId, hvalid.useExtendedId, hvalid.canId] at houtput
  have hheader : (applyPatch (patchOf out) x.frame).canId =
        (if (patchOf out).replaceId then (patchOf out).newCanId else x.canId) ∧
      (applyPatch (patchOf out) x.frame).extended =
        if (patchOf out).replaceId then (patchOf out).newExtended else x.extended := by
    unfold applyPatch ReceivedFrame.frame
    cases (patchOf out).replaceId <;> cases x.rtr <;> exact ⟨rfl, rfl⟩
  have hnewId : (patchOf out).newCanId = UInt32.ofNat (modify.canId.getD rule.canId) := by
    show UInt32.ofNat ((out.modify.bind Modify.canId).getD out.canId) = _
    rw [hout, Option.bind_some, hvalid.canId, h.canId]
  rw [hheader.1, hheader.2, hreplace, hnewExtended, hnewId]
  cases hid : modify.canId with
  | some newId =>
    rw [hid] at houtput
    have hle : newId ≤ idBound (modify.useExtendedId.getD rule.useExtendedId) :=
      of_decide_eq_true (require_eq_ok.mp houtput)
    rw [if_pos (by simp), if_pos (by simp), Option.getD_some, UInt32.toNat_ofNat']
    exact ⟨Nat.mod_eq_of_lt (Nat.lt_of_le_of_lt hle (idBound_lt _)), rfl⟩
  | none =>
    rw [hid] at houtput
    dsimp only at houtput
    by_cases hsame : modify.useExtendedId.getD rule.useExtendedId = rule.useExtendedId
    · rw [hsame]
      simp only [Option.isSome_none, Bool.false_eq_true, ne_eq, not_true_eq_false, or_self,
        decide_false, if_false, Option.getD_none]
      exact ⟨trivial, hext⟩
    · -- A standard frame becomes an extended one; its whole id was compared.
      split_ifs at houtput with hdemoted hmasked
      have hmask : rule.mask = idBound rule.useExtendedId := by
        by_contra hmask
        exact hmasked ⟨hsame, hmask⟩
      have hstandard : rule.useExtendedId = false := by
        cases hkind : rule.useExtendedId with
        | false => rfl
        | true =>
          rw [hkind] at hsame hdemoted
          exact absurd ⟨rfl, hsame⟩ hdemoted
      have hfits := x.idFits
      rw [hext, hstandard] at hfits
      rw [hmask, hstandard] at hmatch
      have hown : x.canId.toNat = rule.canId := by
        rw [← hmatch]
        exact (Nat.and_two_pow_sub_one_of_lt_two_pow (n := 11) (Nat.lt_succ_of_le hfits)).symm
      rw [if_pos (by simpa using hsame), if_pos (by simpa using hsame), Option.getD_none,
        Option.getD_none, UInt32.toNat_ofNat', hown]
      exact ⟨Nat.mod_eq_of_lt (Nat.lt_of_le_of_lt h.canIdLe (idBound_lt _)), rfl⟩

theorem frame_applyPatch (p : PatchData) (f : CanFrame) :
    (applyPatch p f).rtr = f.rtr ∧ (applyPatch p f).dlc = f.dlc := by
  unfold applyPatch
  cases p.replaceId <;> cases hrtr : f.rtr <;> simp [hrtr]

theorem dlc_frame (x : ReceivedFrame) : min x.frame.dlc maxFrameDataLen = x.frame.dlc :=
  Nat.min_eq_left (Nat.min_le_right _ _)

/-- What the packed masks of a valid modification say about a bit that is written. -/
theorem packed_of_writes (hvalid : ValidModify modify valid) (i : Fin maxFrameDataLen) {j : Nat}
    (hj : j < 8) {b : Bool} (hwrites : modify.Writes i j b) :
    (packedPatchMasks (some valid)).1.testBit (8 * i + j) = false ∧
      (packedPatchMasks (some valid)).2.testBit (8 * i + j) = b := by
  have hmasks := packs_packedPatchMasks
    (fun patch hpatch => hvalid.masks patch (hvalid.data ▸ hpatch))
    (fun sig hsig => hvalid.fits sig (hvalid.signals ▸ hsig)) i.isLt hj
  simp only [hvalid.out_writes_iff] at hmasks
  constructor
  · rw [← Bool.not_eq_true, hmasks.1]
    exact fun hnone => hnone b hwrites
  · rw [Bool.eq_iff_iff, hmasks.2]
    constructor
    · exact fun htrue => hvalid.writes_unique hj hwrites htrue
    · rintro rfl
      exact hwrites

/-- And about one that is not. -/
theorem packed_of_not_writes (hvalid : ValidModify modify valid) (i : Fin maxFrameDataLen) {j : Nat}
    (hj : j < 8) (hnone : ∀ b, ¬ modify.Writes i j b) :
    (packedPatchMasks (some valid)).1.testBit (8 * i + j) = true ∧
      (packedPatchMasks (some valid)).2.testBit (8 * i + j) = false := by
  have hmasks := packs_packedPatchMasks
    (fun patch hpatch => hvalid.masks patch (hvalid.data ▸ hpatch))
    (fun sig hsig => hvalid.fits sig (hvalid.signals ▸ hsig)) i.isLt hj
  simp only [hvalid.out_writes_iff] at hmasks
  refine ⟨hmasks.1.mpr hnone, ?_⟩
  rw [← Bool.not_eq_true, hmasks.2]
  exact hnone true

/-- The bits of the patched payload. -/
theorem payload_applyPatch (hvalid : ValidModify modify valid) (hout : out.modify = some valid)
    {i : Fin maxFrameDataLen} {j : Nat} (hj : j < 8) :
    (∀ b, x.rtr = false → i < x.frame.dlc → modify.Writes i j b →
      payloadBit (applyPatch (patchOf out) x.frame).data i j = b) ∧
    (x.rtr = true ∨ x.frame.dlc ≤ i ∨ (∀ b, ¬ modify.Writes i j b) →
      payloadBit (applyPatch (patchOf out) x.frame).data i j = payloadBit x.data i j) := by
  have hbit (hrtr : x.rtr = false) (hi : i < x.frame.dlc) :
      payloadBit (applyPatch (patchOf out) x.frame).data i j =
        (payloadBit x.data i j && (packedPatchMasks (some valid)).1.testBit (8 * i + j) ||
          (packedPatchMasks (some valid)).2.testBit (8 * i + j)) := by
    rw [payloadBit_applyPatch (f := x.frame) hrtr (by rwa [dlc_frame]), patchOf, hout,
      testBit_unpackBytes _ i hj, testBit_unpackBytes _ i hj]
    rfl
  constructor
  · intro b hrtr hi hwrites
    obtain ⟨hclear, hset⟩ := packed_of_writes hvalid i hj hwrites
    rw [hbit hrtr hi, hclear, hset, Bool.and_false, Bool.false_or]
  · intro hkept
    by_cases hinside : x.rtr = false ∧ i < x.frame.dlc
    · have hnone : ∀ b, ¬ modify.Writes i j b := by
        rcases hkept with hrtr | hdlc | hnone
        · rw [hinside.1] at hrtr
          cases hrtr
        · exact absurd hinside.2 (Nat.not_lt.mpr hdlc)
        · exact hnone
      obtain ⟨hstays, hclear⟩ := packed_of_not_writes hvalid i hj hnone
      rw [hbit hinside.1 hinside.2, hstays, hclear, Bool.and_true, Bool.or_false]
    · unfold payloadBit
      rw [data_applyPatch_get]
      · rfl
      · rw [dlc_frame]
        by_cases hrtr : x.rtr = true
        · exact Or.inl hrtr
        · right
          have hdata : x.rtr = false := by simpa using hrtr
          exact Nat.not_lt.mp fun hi => hinside ⟨hdata, hi⟩

theorem enabled_e2eOf (hvalid : ValidModify modify valid) (hout : out.modify = some valid)
    (henabled : (e2eOf out).enabled = true) :
    ∃ e2e, modify.e2e = some e2e ∧ (e2eOf out).crcIndex.toNat = e2e.crcByte := by
  unfold e2eOf at henabled ⊢
  rw [hout, Option.bind_some] at henabled ⊢
  have hcrc := hvalid.crcByte
  cases hsome : valid.e2e with
  | none =>
    rw [hsome] at henabled
    exact absurd henabled (by decide)
  | some found =>
    rw [hsome] at hcrc
    cases hyaml : modify.e2e with
    | none =>
      rw [hyaml] at hcrc
      cases hcrc
    | some e2e =>
      rw [hyaml] at hcrc
      refine ⟨e2e, rfl, ?_⟩
      have hbyte : found.crcByte = e2e.crcByte := Option.some.inj hcrc
      have hle := hvalid.crcByteLe found hsome
      dsimp only
      rw [UInt8.toNat_ofNat', hbyte]
      exact Nat.mod_eq_of_lt (by omega)

/-- What `process_frame` makes of a frame that a rule with a modification matches. -/
def outputOf (out : Rule) (x : ReceivedFrame) : CanFrame :=
  let patched := applyPatch (patchOf out) x.frame
  if (e2eOf out).enabled && !x.rtr then
    { patched with
      data := e2eFixCrc (e2eOf out) x.data patched.data (min x.frame.dlc maxFrameDataLen) }
  else patched

/-- But for the byte that is repaired, the payload is the patched one. -/
theorem payloadBit_outputOf (hvalid : ValidModify modify valid) (hout : out.modify = some valid)
    {i : Fin maxFrameDataLen} (hrepaired : ¬ modify.Repaired x i) (j : Nat) :
    payloadBit (outputOf out x).data i j =
      payloadBit (applyPatch (patchOf out) x.frame).data i j := by
  unfold outputOf
  dsimp only
  split_ifs with hfix
  · obtain ⟨henabled, hrtr⟩ := Bool.and_eq_true_iff.mp hfix
    obtain ⟨e2e, hyaml, hcrc⟩ := enabled_e2eOf hvalid hout henabled
    have houtside : i.val ≠ (e2eOf out).crcIndex.toNat ∨ min x.frame.dlc maxFrameDataLen ≤ i := by
      by_contra hno
      rw [not_or, not_not, dlc_frame, Nat.not_le] at hno
      exact hrepaired ⟨by simpa using hrtr, hno.2, e2e, hyaml, by rw [hno.1, hcrc]⟩
    unfold payloadBit
    dsimp only
    rw [get_e2eFixCrc houtside]
  · rfl

theorem modified_outputOf (h : ValidRule rule out) (hvalid : ValidModify modify valid)
    (hout : out.modify = some valid) (hagrees : rule.agrees x = true) :
    Modified rule modify x (outputOf out x) := by
  have hheader : (outputOf out x).canId = (applyPatch (patchOf out) x.frame).canId ∧
      (outputOf out x).extended = (applyPatch (patchOf out) x.frame).extended ∧
      (outputOf out x).rtr = (applyPatch (patchOf out) x.frame).rtr ∧
      (outputOf out x).dlc = (applyPatch (patchOf out) x.frame).dlc := by
    unfold outputOf
    dsimp only
    split_ifs <;> exact ⟨rfl, rfl, rfl, rfl⟩
  obtain ⟨hid, hext⟩ := header_applyPatch h hvalid hout hagrees
  obtain ⟨hrtr, hdlc⟩ := frame_applyPatch (patchOf out) x.frame
  refine ⟨by rw [hheader.1, hid], by rw [hheader.2.1, hext], hheader.2.2.1.trans hrtr,
    hheader.2.2.2.trans hdlc, fun hdata i j b hi hj hwrites hrepaired => ?_,
    fun i j hj hkept hrepaired => ?_⟩
  · rw [payloadBit_outputOf hvalid hout hrepaired]
    exact (payload_applyPatch hvalid hout hj).1 b hdata hi hwrites
  · rw [payloadBit_outputOf hvalid hout hrepaired]
    exact (payload_applyPatch hvalid hout hj).2 hkept

end Output

/-! ## The route -/

theorem processFrame_cases (table : RouteTable) (x : ReceivedFrame) :
    match matchRule table x.frame with
    | none => processFrame table x.frame =
        (if table.defaultDrop then .dropFiltered else .forward, x.frame)
    | some entry => processFrame table x.frame =
        if entry.flags.drop then (.dropFiltered, x.frame)
        else if entry.flags.hasPatch then
          if entry.e2e.enabled && !x.rtr then
            (.forward, { applyPatch entry.effectivePatch x.frame with
              data := e2eFixCrc entry.e2e x.data (applyPatch entry.effectivePatch x.frame).data
                (min x.frame.dlc maxFrameDataLen) })
          else (.forward, applyPatch entry.effectivePatch x.frame)
        else (.forward, x.frame) := by
  unfold processFrame
  cases matchRule table x.frame <;> rfl

/-- What `process_frame` does with a frame is what the accepted YAML of the route says. -/
theorem reads_toCode {route conf : Route} (h : validateRoute route = .ok conf) (x : ReceivedFrame) :
    Reads route x (processFrame (toCode conf).table x.frame) := by
  obtain ⟨hrules, hlength, hdefault⟩ := validRoute h
  have hmatch : matchRule (toCode conf).table x.frame =
      (conf.filters.find? fun out => (entryOf out).matches x.frame).map entryOf := by
    rw [table_toCode hlength]
    exact List.find?_map ..
  have hrel : Option.Rel ValidRule (route.filters.find? fun rule => rule.agrees x)
      (conf.filters.find? fun out => (entryOf out).matches x.frame) :=
    find?_rel_of_forall₂ hrules fun rule out hrule => (matches_entryOf hrule x).symm
  have hcases := processFrame_cases (toCode conf).table x
  have hdrop : (toCode conf).table.defaultDrop = !decide (route.defaultAction = .accept) := by
    rw [table_toCode hlength, hdefault]
  unfold Reads
  cases hyaml : route.filters.find? fun rule => rule.agrees x with
  | none =>
    rw [hyaml] at hrel
    generalize conf.filters.find? _ = found at hrel hmatch
    cases hrel
    rw [hmatch] at hcases
    dsimp only [Option.map_none] at hcases
    rw [hcases, hdrop]
    cases route.defaultAction <;> exact ⟨rfl, rfl⟩
  | some rule =>
    have hagrees : rule.agrees x = true := List.find?_some (p := fun rule : Rule => rule.agrees x) hyaml
    rw [hyaml] at hrel
    generalize conf.filters.find? _ = found at hrel hmatch
    cases hrel with
    | @some _ out hrule =>
      rw [hmatch] at hcases
      dsimp only [Option.map_some] at hcases
      rw [show (entryOf out).flags = flagsOf out from rfl, flagsOf_eq, hrule.action,
        effectivePatch_entryOf] at hcases
      have hmodify := hrule.modify
      dsimp only
      cases haction : rule.action with
      | drop =>
        rw [haction] at hcases
        rw [hcases]
        rfl
      | accept =>
        rw [haction] at hcases
        cases hgiven : rule.modify with
        | none =>
          rw [hgiven] at hmodify
          cases hout : out.modify with
          | some valid =>
            rw [hout] at hmodify
            cases hmodify
          | none =>
            rw [hout] at hcases
            rw [hcases]
            exact ⟨rfl, rfl⟩
        | some modify =>
          rw [hgiven] at hmodify
          cases hout : out.modify with
          | none =>
            rw [hout] at hmodify
            cases hmodify
          | some valid =>
            rw [hout] at hmodify hcases
            cases hmodify with
            | some hvalid =>
              have hresult : processFrame (toCode conf).table x.frame =
                  (.forward, outputOf out x) := by
                simp only [reduceCtorEq, decide_false, Bool.false_eq_true, if_false,
                  Option.isSome_some, if_true] at hcases
                rw [hcases]
                unfold outputOf
                -- the checksum unit of the entry is the one of the rule
                change (if ((e2eOf out).enabled && !x.rtr) = true then _ else _) = _
                dsimp only
                split_ifs <;> rfl
              rw [hresult]
              exact ⟨rfl, modified_outputOf hrule hvalid hout hagrees⟩

/-- A route that renumbers a frame, sets its second byte and a Motorola signal, maintains the checksum
in byte 7, and drops everything else. -/
def sampleRoute : Route :=
  { filters :=
      [{ canId := 0x123
         modify := some
          { canId := some 0x321, data := [{ index := 1, value := 0x5A }]
            signals := [{ bitOffset := 23, bitLength := 12, byteOrder := .big, value := some 0xABC }]
            e2e := some { crcByte := 7 } } }]
    defaultAction := .drop }

/-- The same route with the defaults of the validators. -/
def sampleAccepted : Route :=
  { filters :=
      [{ canId := 0x123, canIdMask := some 0x7FF
         modify := some
          { canId := some 0x321, data := [{ index := 1, value := 0x5A }]
            signals := [{ bitOffset := 23, bitLength := 12, byteOrder := .big, value := some 0xABC }]
            e2e := some { crcByte := 7, lastByte := some 6 } } }]
    defaultAction := .drop }

def sampleFrame : ReceivedFrame :=
  { canId := 0x123, extended := false, rtr := false, dlc := 8, data := .replicate maxFrameDataLen 0xFF
    idFits := by decide }

theorem reads_toCode_sample :
    Reads sampleRoute sampleFrame (processFrame (toCode sampleAccepted).table sampleFrame.frame) :=
  reads_toCode (rfl : validateRoute sampleRoute = .ok sampleAccepted) sampleFrame

example : (processFrame (toCode sampleAccepted).table sampleFrame.frame).2.data.toList.take 4 =
    [0xFF, 0x5A, 0xAB, 0xCF] := by decide

end Config

end EspCars.CanGateway
