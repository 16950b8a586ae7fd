import EspCars.SdLogger.ClockFloor

/-!
# The clock of a boot

`decide_boot_clock` of `components/sd_logger/clock_basis.h`. A boot knows three times: the end of the
last file on the card, the build time and the system clock. The first two are in the past, so they
bound the time from below; the system clock is taken only if it is not before that bound.
-/

namespace EspCars.SdLogger

/-- `WakeKind` -/
inductive WakeKind
  | powerOn | deepSleep | other
  deriving DecidableEq, Repr

/-- `BootClockInputs` -/
structure BootClockInputs where
  nowBootUs : UInt64 := 0
  sysUtcUs : UInt64 := 0
  wake : WakeKind := .powerOn
  sysDrifted : Bool := false
  /-- 0 if unknown. -/
  buildUtcUs : UInt64 := 0
  cardValid : Bool := false
  cardEnd : ClockPoint := {}
  cardSeq : UInt32 := 0

/-- `BootClockDecision` -/
structure BootClockDecision where
  best : ClockPoint := {}
  floor : ClockPoint := {}
  sysRejected : Bool := false

/-- `SD_LOG_CLOCK_SLACK_US`. -/
def clockSlackUs : UInt64 := 2000000

/-- `SD_LOG_CLOCK_MIN_EPOCH_US`. -/
def clockMinEpochUs : UInt64 := 1704067200 * 1000000

namespace BootClockInputs

variable (i : BootClockInputs)

def card : UInt64 := if i.cardValid then i.cardEnd.utcUs else 0

/-- What the card and the build prove, at boot time 0. -/
def floor : ClockPoint :=
  if i.cardValid ∧ i.card ≥ i.buildUtcUs then
    { tUs := 0, utcUs := i.card, basis := .est, src := .card, detail := some i.cardSeq.toUInt64 }
  else if i.buildUtcUs ≠ 0 then { tUs := 0, utcUs := i.buildUtcUs, basis := .est, src := .build }
  else {}

def minEpoch : UInt64 := if i.buildUtcUs > clockMinEpochUs then i.buildUtcUs else clockMinEpochUs

def floorNow : UInt64 := if i.floor.valid then i.floor.project i.nowBootUs else 0

def plausibleNow : Bool := i.sysUtcUs ≥ i.minEpoch ∧ i.sysUtcUs + clockSlackUs ≥ i.floorNow

/-- The system clock, with the time slept if that is known. -/
def sysClock : ClockPoint :=
  let p : ClockPoint := { tUs := i.nowBootUs, utcUs := i.sysUtcUs }
  if i.wake = .deepSleep ∨ i.sysDrifted then
    let boot0 := p.project 0
    let slept := i.wake = .deepSleep ∧ i.cardValid ∧ boot0 ≥ i.card
    { p with
      basis := .drift
      src := .sleep
      detail := if slept then some ((boot0 - i.card) / 1000000) else none }
  else { p with basis := .utc, src := .warm }

end BootClockInputs

/-- `decide_boot_clock` -/
def decideBootClock (i : BootClockInputs) : BootClockDecision :=
  if i.wake ≠ .powerOn ∧ i.plausibleNow then { best := i.sysClock, floor := i.floor }
  else { best := i.floor, floor := i.floor, sysRejected := i.wake ≠ .powerOn }

/-! ## Projection -/

namespace ClockPoint

variable (p : ClockPoint)

theorem toNat_project_of_lt {t : UInt64} (h : t < p.tUs) :
    (p.project t).toNat = p.utcUs.toNat - (p.tUs.toNat - t.toNat) := by
  have hsub : (p.tUs - t).toNat = p.tUs.toNat - t.toNat :=
    UInt64.toNat_sub_of_le _ _ (UInt64.le_of_lt h)
  rw [project, if_neg (UInt64.not_le.mpr h)]
  dsimp only
  split_ifs with hunder
  · have hunder' := UInt64.lt_iff_toNat_lt.mp hunder
    rw [hsub] at hunder'
    have hzero : (0 : UInt64).toNat = 0 := rfl
    omega
  · have hunder' := UInt64.not_lt.mp hunder
    rw [UInt64.toNat_sub_of_le _ _ hunder', hsub]

/-- No projection is before that to boot time 0. -/
theorem le_project (t : UInt64) : p.utcUs.toNat - p.tUs.toNat ≤ (p.project t).toNat := by
  have hlt := p.utcUs.toNat_lt
  rcases UInt64.lt_or_le t p.tUs with h | h
  · have hlt' := UInt64.lt_iff_toNat_lt.mp h
    rw [p.toNat_project_of_lt h]
    omega
  · rw [toNat_project p h]
    omega

theorem project_le (h : p.tUs = 0) (t : UInt64) :
    (p.project t).toNat ≤ p.utcUs.toNat + t.toNat := by
  have hfrom : p.tUs ≤ t := by
    rw [h]
    exact UInt64.le_iff_toNat_le.mpr (Nat.zero_le _)
  rw [toNat_project p hfrom]
  omega

end ClockPoint

/-! ## What a boot decides -/

namespace BootClockInputs

variable (i : BootClockInputs)

/-- The floor is a time that the card or the build proves. -/
theorem floor_spec :
    i.floor.tUs = 0 ∧ (i.floor.valid = true → i.floor.basis = .est) ∧
      (i.floor.utcUs = i.card ∨ i.floor.utcUs = i.buildUtcUs) ∧ i.card ≤ i.floor.utcUs := by
  have hzero : ∀ t : UInt64, 0 ≤ t := fun t => UInt64.le_iff_toNat_le.mpr (Nat.zero_le _)
  unfold floor
  split_ifs with hcard hbuild
  · exact ⟨rfl, fun _ => rfl, Or.inl rfl, UInt64.le_refl _⟩
  · refine ⟨rfl, fun _ => rfl, Or.inr rfl, ?_⟩
    by_cases hvalid : i.cardValid = true
    · exact UInt64.le_of_lt (UInt64.not_le.mp fun hle => hcard ⟨hvalid, hle⟩)
    · rw [card, if_neg hvalid]
      exact hzero _
  · rw [ne_eq, not_not] at hbuild
    have hnone : ¬ i.cardValid = true := fun hvalid => hcard ⟨hvalid, hbuild ▸ hzero _⟩
    refine ⟨rfl, fun hvalid => absurd hvalid Bool.false_ne_true, Or.inr hbuild.symm, ?_⟩
    rw [card, if_neg hnone]
    exact hzero _

theorem sysClock_spec :
    i.sysClock.tUs = i.nowBootUs ∧ i.sysClock.utcUs = i.sysUtcUs ∧
      (i.sysClock.basis = .drift ∨ i.sysClock.basis = .utc) := by
  unfold sysClock
  dsimp only
  by_cases hdrift : i.wake = .deepSleep ∨ i.sysDrifted
  · rw [if_pos hdrift]
    exact ⟨rfl, rfl, Or.inl rfl⟩
  · rw [if_neg hdrift]
    exact ⟨rfl, rfl, Or.inr rfl⟩

/-- The sum with the slack may wrap; the system clock is then far above the floor. -/
theorem plausibleNow_spec (h : i.plausibleNow = true) :
    clockMinEpochUs ≤ i.sysUtcUs ∧ i.buildUtcUs ≤ i.sysUtcUs ∧
      i.floorNow.toNat ≤ i.sysUtcUs.toNat + clockSlackUs.toNat := by
  unfold plausibleNow at h
  obtain ⟨hepoch, hfloor⟩ := decide_eq_true_eq.mp h
  have hsum : (i.sysUtcUs + clockSlackUs).toNat ≤ i.sysUtcUs.toNat + clockSlackUs.toNat := by
    rw [UInt64.toNat_add]
    exact Nat.mod_le _ _
  refine ⟨?_, ?_, Nat.le_trans (UInt64.le_iff_toNat_le.mp hfloor) hsum⟩
  · unfold minEpoch at hepoch
    split_ifs at hepoch with hbuild
    · exact UInt64.le_trans (UInt64.le_of_lt hbuild) hepoch
    · exact hepoch
  · unfold minEpoch at hepoch
    split_ifs at hepoch with hbuild
    · exact hepoch
    · exact UInt64.le_trans (UInt64.not_lt.mp hbuild) hepoch

end BootClockInputs

/-- A floor that does not overflow. -/
def BootClockInputs.Fits (i : BootClockInputs) : Prop :=
  i.floor.utcUs.toNat + i.nowBootUs.toNat < 2 ^ 64

variable {i : BootClockInputs}

theorem BootClockInputs.Fits.floorNow (h : i.Fits) :
    i.floor.utcUs.toNat ≤ i.floorNow.toNat - i.nowBootUs.toNat := by
  have hfrom : i.floor.tUs ≤ i.nowBootUs := by
    rw [i.floor_spec.1]
    exact UInt64.le_iff_toNat_le.mpr (Nat.zero_le _)
  rw [BootClockInputs.floorNow]
  split_ifs with hvalid
  · have hzero : (0 : UInt64).toNat = 0 := rfl
    rw [toNat_project _ hfrom, i.floor_spec.1, hzero]
    unfold Fits at h
    omega
  · have hnone : i.floor.utcUs = 0 := by
      unfold floor at hvalid ⊢
      split_ifs at hvalid ⊢
      · exact absurd rfl hvalid
      · exact absurd rfl hvalid
      · rfl
    rw [hnone]
    exact Nat.zero_le _

/-- What is stated is the system clock, if that is credible, or the floor. -/
theorem decideBootClock_cases (i : BootClockInputs) :
    (decideBootClock i).floor = i.floor ∧
      (i.wake ≠ .powerOn ∧ i.plausibleNow = true ∧ (decideBootClock i).best = i.sysClock ∨
        (decideBootClock i).best = i.floor) := by
  unfold decideBootClock
  split_ifs with h
  · exact ⟨rfl, Or.inl ⟨h.1, h.2, rfl⟩⟩
  · exact ⟨rfl, Or.inr rfl⟩

/-- An estimate is the floor. -/
theorem eq_floor_of_est {p : ClockPoint}
    (hp : p = (decideBootClock i).best ∨ p = (decideBootClock i).floor) (hest : p.basis = .est) :
    p = i.floor := by
  obtain ⟨hfloor, hbest⟩ := decideBootClock_cases i
  rw [hfloor] at hp
  rcases hp with rfl | rfl
  · rcases hbest with ⟨-, -, hbest⟩ | hbest
    · rw [hbest] at hest
      rcases i.sysClock_spec.2.2 with h | h
      · rw [h] at hest
        cases hest
      · rw [h] at hest
        cases hest
    · exact hbest
  · rfl

/-- What is no estimate is the system clock. -/
theorem eq_sysClock_of_ne_est
    (h : (decideBootClock i).best.basis = .utc ∨ (decideBootClock i).best.basis = .drift) :
    i.wake ≠ .powerOn ∧ i.plausibleNow = true ∧ (decideBootClock i).best = i.sysClock := by
  obtain ⟨-, hsys | hfloor⟩ := decideBootClock_cases i
  · exact hsys
  · have hvalid : i.floor.valid = true := by
      rw [ClockPoint.valid, decide_eq_true_eq, ← hfloor]
      rcases h with h | h
      · rw [h]
        decide
      · rw [h]
        decide
    rw [hfloor, i.floor_spec.2.1 hvalid] at h
    rcases h with h | h
    · cases h
    · cases h

/-- The card and the build tell of the time before a boot whose time 0 is `utc0`. -/
def BootClockInputs.Past (i : BootClockInputs) (utc0 : Nat) : Prop :=
  (i.cardValid = true → i.cardEnd.utcUs.toNat ≤ utc0) ∧ i.buildUtcUs.toNat ≤ utc0

theorem BootClockInputs.Past.floor_le {utc0 : Nat} (h : i.Past utc0) :
    i.floor.utcUs.toNat ≤ utc0 := by
  obtain ⟨hcard, hbuild⟩ := h
  rcases i.floor_spec.2.2.1 with hfloor | hfloor
  · rw [hfloor, card]
    split_ifs with hvalid
    · exact hcard hvalid
    · exact Nat.zero_le _
  · rw [hfloor]
    exact hbuild

/-- An estimate is never after the time. -/
theorem project_est_le {utc0 : Nat} (hpast : i.Past utc0) {p : ClockPoint}
    (hp : p = (decideBootClock i).best ∨ p = (decideBootClock i).floor) (hest : p.basis = .est)
    (t : UInt64) : (p.project t).toNat ≤ utc0 + t.toNat := by
  rw [eq_floor_of_est hp hest]
  have hproject := i.floor.project_le i.floor_spec.1 t
  have hfloor := hpast.floor_le
  omega

theorem sysClock_stated
    (h : (decideBootClock i).best.basis = .utc ∨ (decideBootClock i).best.basis = .drift) :
    i.wake ≠ .powerOn ∧ clockMinEpochUs ≤ i.sysUtcUs ∧ i.buildUtcUs ≤ i.sysUtcUs ∧
      ((decideBootClock i).floor.valid = true →
        ((decideBootClock i).floor.project i.nowBootUs).toNat ≤
          i.sysUtcUs.toNat + clockSlackUs.toNat) := by
  obtain ⟨hwake, hclock, -⟩ := eq_sysClock_of_ne_est h
  obtain ⟨hepoch, hbuild, hfloor⟩ := i.plausibleNow_spec hclock
  refine ⟨hwake, hepoch, hbuild, ?_⟩
  rw [(decideBootClock_cases i).1]
  intro hvalid
  rw [BootClockInputs.floorNow, if_pos hvalid] at hfloor
  exact hfloor

/-! ## From boot to boot -/

/-- A boot with the clocks that syncs have set in it, and the boot time of its last line. -/
structure Boot where
  inputs : BootClockInputs
  syncs : List ClockPoint := []
  endUs : UInt64

namespace Boot

/-- What the boot states first. -/
def best (b : Boot) : ClockPoint := (decideBootClock b.inputs).best

/-- What it states last. -/
def last (b : Boot) : ClockPoint := b.syncs.getLastD b.best

def endTime (b : Boot) : UInt64 := b.last.project b.endUs

/-- The card has the end of the boot before. -/
def Follows (b b' : Boot) : Prop :=
  b'.inputs.cardValid = true ∧ b'.inputs.cardEnd.utcUs = b.endTime

/-- The floor is not before the end of the boot before. -/
theorem Follows.endTime_le_floor {b b' : Boot} (h : Follows b b') :
    b.endTime ≤ b'.inputs.floor.utcUs := by
  obtain ⟨hvalid, hcard⟩ := h
  have hfloor := b'.inputs.floor_spec.2.2.2
  rw [BootClockInputs.card, if_pos hvalid, hcard] at hfloor
  exact hfloor

/-- No time that a boot states first is more than the slack before its floor. -/
theorem floor_le_project {b : Boot} (hfits : b.inputs.Fits) (t : UInt64) :
    b.inputs.floor.utcUs.toNat ≤ (b.best.project t).toNat + clockSlackUs.toNat := by
  have hproject := b.best.le_project t
  obtain ⟨-, ⟨-, hclock, hbest⟩ | hbest⟩ := decideBootClock_cases b.inputs
  · obtain ⟨htUs, hutcUs, -⟩ := b.inputs.sysClock_spec
    have hfloor := (b.inputs.plausibleNow_spec hclock).2.2
    have hnow := hfits.floorNow
    rw [best, hbest, htUs, hutcUs] at hproject
    rw [best, hbest]
    omega
  · have hzero : (0 : UInt64).toNat = 0 := rfl
    rw [best, hbest, b.inputs.floor_spec.1, hzero] at hproject
    rw [best, hbest]
    omega

/-- The time does not run back by more than the slack. -/
theorem Follows.endTime_le {b b' : Boot} (h : Follows b b') (hfits : b'.inputs.Fits) (t : UInt64) :
    b.endTime.toNat ≤ (b'.best.project t).toNat + clockSlackUs.toNat := by
  have hfloor := UInt64.le_iff_toNat_le.mp h.endTime_le_floor
  exact Nat.le_trans hfloor (floor_le_project hfits t)

end Boot

/-- An estimate is a lower bound of the time, any other clock that a boot states is not before it,
and no boot of a chain starts more than the slack before the end of the one before. -/
theorem bootClock_not_before :
    (∀ (i : BootClockInputs) (utc0 : Nat), i.Past utc0 →
      ∀ p, p = (decideBootClock i).best ∨ p = (decideBootClock i).floor → p.basis = .est →
        ∀ t, (p.project t).toNat ≤ utc0 + t.toNat) ∧
    (∀ i : BootClockInputs,
      (decideBootClock i).best.basis = .utc ∨ (decideBootClock i).best.basis = .drift →
        i.wake ≠ .powerOn ∧ clockMinEpochUs ≤ i.sysUtcUs ∧ i.buildUtcUs ≤ i.sysUtcUs ∧
          ((decideBootClock i).floor.valid = true →
            ((decideBootClock i).floor.project i.nowBootUs).toNat ≤
              i.sysUtcUs.toNat + clockSlackUs.toNat)) ∧
    ∀ boots : List Boot, boots.IsChain Boot.Follows → (∀ b ∈ boots, b.inputs.Fits) →
      boots.IsChain fun b b' =>
        ∀ t, b.endTime.toNat ≤ (b'.best.project t).toNat + clockSlackUs.toNat := by
  refine ⟨fun _ _ hpast _ => project_est_le hpast, fun _ => sysClock_stated, ?_⟩
  intro boots hchain hfits
  apply List.IsChain.imp_of_mem_imp _ hchain
  intro b b' _ hb' hfollows
  exact hfollows.endTime_le (hfits b' hb')

/-- A wake and a power loss. The system clock of the wake is a second behind the card; after the
power loss there is the card only. -/
theorem bootClock_not_before_sample :
    let utc := 1800000000000000
    let wake : Boot := {
      inputs := { nowBootUs := 500000, sysUtcUs := utc - 500000, wake := .deepSleep
                  cardValid := true, cardEnd := { utcUs := utc, basis := .utc, src := .sync } }
      endUs := 10000000 }
    let after : Boot := {
      inputs := { nowBootUs := 300000, sysUtcUs := 300000, cardValid := true
                  cardEnd := wake.best.restate 10000000 }
      endUs := 20000000 }
    wake.best.basis = .drift ∧ after.best.basis = .est ∧
      (after.best.project 0).toNat ≤ 1800000010000000 ∧
      clockMinEpochUs ≤ wake.inputs.sysUtcUs ∧
      wake.endTime.toNat ≤ (after.best.project 0).toNat + clockSlackUs.toNat := by
  intro utc wake after
  have hwake : wake.best.basis = .drift := by decide
  have hafter : after.best.basis = .est := by decide
  have hpast : after.inputs.Past 1800000010000000 := by
    constructor
    · decide
    · decide
  have hchain : List.IsChain Boot.Follows [wake, after] := by
    rw [List.isChain_pair]
    constructor
    · decide
    · decide
  have hfits : ∀ b ∈ [wake, after], b.inputs.Fits := by
    unfold BootClockInputs.Fits
    decide
  have hlower := bootClock_not_before.1 after.inputs _ hpast _ (Or.inl rfl) hafter 0
  have hsys := bootClock_not_before.2.1 wake.inputs (Or.inr hwake)
  have hrun := bootClock_not_before.2.2 [wake, after] hchain hfits
  rw [List.isChain_pair] at hrun
  exact ⟨hwake, hafter, hlower, hsys.2.1, hrun 0⟩

end EspCars.SdLogger
