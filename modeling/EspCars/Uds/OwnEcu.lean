import EspCars.Uds.Gate

/-!
# A hub and its own ECU

Which groups a hub asks for. Where the setup resolved the ECU, `find_group_` lets through only the
groups in its record range, and the poll table holds no others. Where it did not, `find_group_`
leaves the range check out, and the loop and the actions look at the catalog alone, so that the hub
sends what it is asked for; it stays silent in every run exactly if nothing can be asked of it
(`asksOwn_iff`).
-/

namespace EspCars.Uds

open EspCars.Lib

/-- The group is in the record range of the ECU. -/
def EcuView.Owns (ecu : EcuView) (gi : Nat) : Prop :=
  ecu.groupFirst ≤ gi ∧ gi < ecu.groupFirst + ecu.groupCount

namespace UdsHub

/-- A hub asks only its own ECU, and without one it asks nothing, raw requests included. -/
structure AsksOwn (cfg : HubConfig) (boot : Nat) (events : List Event) : Prop where
  own : ∀ c ecu, (setup cfg boot).catalog = some c → (setup cfg boot).ecu = some ecu →
    ∀ origin gi req, (origin, gi, req) ∈ (run cfg boot events).offers → origin ≠ .raw →
      ecu.Owns gi ∧ ∃ g, c.group gi = some g ∧ c.requestBytes g = some req
  inert : (setup cfg boot).ecu = none → (run cfg boot events).offers = []

/-- Where the catalog opened without an ECU, active services are off and no group that is safe to
read can be found by a name and assembled. -/
def Harmless (cfg : HubConfig) : Prop :=
  ∀ c, cfg.memory.bind Catalog.open? = some c → c.resolveEcu cfg.ecuName = none →
    cfg.allowActiveServices = false ∧
      ∀ name gi g, c.findGroup none name = some gi → c.group gi = some g → g.safeRead = true →
        buildRequest c g = none

/-! ## With an ECU -/

section Resolved

variable {c : Catalog} {ecu : EcuView}

theorem owns_of_findGroup {name : List UInt8} {gi : Nat}
    (h : c.findGroup (some ecu) name = some gi) : ecu.Owns gi := by
  unfold Catalog.findGroup at h
  cases hfind : c.find name .group with
  | none =>
    rw [hfind] at h
    cases h
  | some found =>
    rw [hfind] at h
    dsimp only at h
    split_ifs at h with houtside
    cases h
    constructor
    · by_contra hlow
      exact houtside (Or.inl (Nat.lt_of_not_le hlow))
    · by_contra hhigh
      exact houtside (Or.inr (Nat.le_of_not_lt hhigh))

theorem owns_of_resolveBinding {b : UdsBinding} {gi fi : Nat}
    (h : c.resolveBinding (some ecu) b = some (gi, fi)) : ecu.Owns gi := by
  unfold Catalog.resolveBinding at h
  cases hfind : c.findGroup (some ecu) b.groupName with
  | none =>
    rw [hfind] at h
    cases h
  | some found =>
    rw [hfind] at h
    dsimp only at h
    cases hgroup : c.group found with
    | none =>
      rw [hgroup] at h
      cases h
    | some g =>
      rw [hgroup] at h
      obtain ⟨fi', -, heq⟩ := Option.map_eq_some_iff.mp h
      cases heq
      exact owns_of_findGroup hfind

theorem owns_of_tableGroups {cfg : HubConfig} {gi : Nat} (h : gi ∈ tableGroups cfg c ecu) :
    ecu.Owns gi := by
  have hpolled := List.mem_eraseDups.mp (List.mem_of_mem_take h)
  obtain ⟨⟨gj, interval⟩, hmem, rfl⟩ := List.mem_map.mp (List.mem_of_mem_filter hpolled)
  obtain ⟨b, -, hb⟩ := List.mem_filterMap.mp hmem
  cases hresolve : c.resolveBinding (some ecu) b with
  | none =>
    rw [hresolve] at hb
    cases hb
  | some found =>
    obtain ⟨gi, fi⟩ := found
    rw [hresolve] at hb
    dsimp only at hb
    split_ifs at hb
    cases hb
    exact owns_of_resolveBinding hresolve

/-- What a hub with an ECU may ask for. -/
theorem allows_owned (c : Catalog) (ecu : EcuView) (allow : Bool) :
    Allows c (some ecu) allow fun origin gi => origin ≠ .raw → ecu.Owns gi where
  read := fun _ _ _ hfind _ _ _ => owns_of_findGroup hfind
  execute := fun _ _ _ hfind _ => owns_of_findGroup hfind
  raw := fun _ hno => absurd rfl hno

end Resolved

/-! ## Without one -/

variable {cfg : HubConfig} {c : Catalog}

/-- What a hub without an ECU may ask for, if nothing can be asked of it. -/
theorem allows_nothing (hharmless : Harmless cfg)
    (hopen : cfg.memory.bind Catalog.open? = some c) (hecu : c.resolveEcu cfg.ecuName = none) :
    Allows c none cfg.allowActiveServices fun origin gi =>
      origin ≠ .raw ∧ ∀ g, c.group gi = some g → buildRequest c g = none := by
  obtain ⟨hallow, hread⟩ := hharmless c hopen hecu
  refine ⟨fun name gi g hfind hgroup hsafe => ⟨nofun, fun g' hgroup' => ?_⟩, fun hon => ?_,
    fun hon => ?_⟩
  · obtain rfl : g = g' := Option.some.inj (hgroup.symm.trans hgroup')
    exact hread name gi g hfind hgroup hsafe
  · rw [hallow] at hon
    cases hon
  · rw [hallow] at hon
    cases hon

theorem asksOwn_of_harmless (hharmless : Harmless cfg) (boot : Nat)
    (events : List Event) : AsksOwn cfg boot events := by
  cases hopen : cfg.memory.bind Catalog.open? with
  | none =>
    have hsetup : (setup cfg boot).catalog = none := by
      unfold setup
      rw [hopen]
    refine ⟨fun c ecu hc => ?_, fun _ => offers_of_closed hopen boot events⟩
    rw [hsetup] at hc
    cases hc
  | some c =>
    cases hecu : c.resolveEcu cfg.ecuName with
    | some ecu =>
      have htable : ∀ ecu', c.resolveEcu cfg.ecuName = some ecu' → ∀ gi ∈ tableGroups cfg c ecu',
          InFlight.polled ≠ .raw → ecu.Owns gi := by
        intro ecu' hecu' gi hgi _
        obtain rfl : ecu = ecu' := Option.some.inj (hecu.symm.trans hecu')
        exact owns_of_tableGroups hgi
      have hstart : Confined c (c.resolveEcu cfg.ecuName) cfg.allowActiveServices
          (fun origin gi => origin ≠ .raw → ecu.Owns gi) (setup cfg boot) :=
        confined_setup hopen htable boot
      rw [hecu] at hstart
      have hrun := hstart.exec (allows_owned c ecu _) events
      refine ⟨fun c' ecu' hc' hecu' origin gi req hmem horigin => ?_, fun hnone => ?_⟩
      · obtain rfl : c = c' := Option.some.inj (hstart.catalog.symm.trans hc')
        obtain rfl : ecu = ecu' := Option.some.inj (hstart.ecu.symm.trans hecu')
        obtain ⟨howns, hreq⟩ := hrun.offers origin gi req hmem
        obtain ⟨g, hgroup, hbuild⟩ := hreq horigin
        exact ⟨howns horigin, g, hgroup, requestBytes_of_buildRequest hbuild⟩
      · rw [hstart.ecu] at hnone
        cases hnone
    | none =>
      have hstart : Confined c (c.resolveEcu cfg.ecuName) cfg.allowActiveServices
          (fun origin gi => origin ≠ .raw ∧ ∀ g, c.group gi = some g → buildRequest c g = none)
          (setup cfg boot) := by
        apply confined_setup hopen
        intro ecu' hecu'
        rw [hecu] at hecu'
        cases hecu'
      rw [hecu] at hstart
      have hrun := hstart.exec (allows_nothing hharmless hopen hecu) events
      refine ⟨fun c' ecu' _ hecu' => ?_, fun _ => ?_⟩
      · rw [hstart.ecu] at hecu'
        cases hecu'
      · apply List.eq_nil_iff_forall_not_mem.mpr
        rintro ⟨origin, gi, req⟩ hmem
        obtain ⟨⟨horigin, hnone⟩, hreq⟩ := hrun.offers origin gi req hmem
        obtain ⟨g, hgroup, hbuild⟩ := hreq horigin
        rw [hnone g hgroup] at hbuild
        cases hbuild

/-! ## What can be asked of a hub without one -/

theorem setup_unresolved
    (hopen : cfg.memory.bind Catalog.open? = some c) (hecu : c.resolveEcu cfg.ecuName = none)
    (boot : Nat) :
    setup cfg boot =
      { allowActiveServices := cfg.allowActiveServices, catalog := some c
        sched := { capacity := cfg.pollSlots, maxFailures := cfg.maxConsecutiveFailures } } := by
  unfold setup
  rw [hopen]
  dsimp only
  rw [hecu]

/-- A raw request that waits is handed to the transport in the next loop. -/
theorem offers_loop_raw {h : UdsHub} (hcatalog : h.catalog = some c)
    (hidle : h.inFlight = .none) (henabled : h.enabled = true) (hraw : h.rawPending ≠ []) :
    (h.loop 0 false false []).offers = h.offers ++ [(.raw, noGroup, h.rawPending)] := by
  have hcheck : h.checkDeadline 0 [] = h := by
    unfold checkDeadline
    rw [hidle]
  unfold UdsHub.loop
  rw [hcatalog]
  dsimp only
  rw [if_neg Bool.false_ne_true, hcheck, if_pos ⟨hidle, henabled⟩]
  unfold UdsHub.issueNext
  rw [if_pos hraw]
  unfold issueRaw
  dsimp only
  rw [if_pos (by decide), offers_act]
  rfl

/-- So is a group on demand that can be assembled. -/
theorem offers_loop_ondemand {h : UdsHub} {gi : Nat} {g : GroupView}
    {req : List UInt8} (hcatalog : h.catalog = some c) (hidle : h.inFlight = .none)
    (henabled : h.enabled = true) (hraw : h.rawPending = []) (hondemand : h.ondemand = [gi])
    (hgroup : c.group gi = some g) (hreq : buildRequest c g = some req) :
    (h.loop 0 false false []).offers = h.offers ++ [(.ondemand, gi, req)] := by
  have hcheck : h.checkDeadline 0 [] = h := by
    unfold checkDeadline
    rw [hidle]
  have hsend : h.sendGroup c 0 false .ondemand gi =
      (.busy, { h.act 0 (.offer .ondemand gi req false) with req := [] }) := by
    unfold sendGroup
    rw [hgroup]
    dsimp only
    rw [hreq]
    rfl
  unfold UdsHub.loop
  rw [hcatalog]
  dsimp only
  rw [if_neg Bool.false_ne_true, hcheck, if_pos ⟨hidle, henabled⟩]
  unfold UdsHub.issueNext
  rw [if_neg (by rw [hraw]; exact not_not_intro rfl), hondemand]
  dsimp only
  unfold issueOndemand
  rw [hsend]
  exact offers_act 0 _

theorem harmless_of_asksOwn {boot : Nat}
    (hasks : ∀ events, AsksOwn cfg boot events) : Harmless cfg := by
  intro c hopen hecu
  have hsetup := setup_unresolved hopen hecu boot
  have hnone : (setup cfg boot).ecu = none := by rw [hsetup]
  refine ⟨?_, ?_⟩
  · by_contra hallow
    have hallow : cfg.allowActiveServices = true := by simpa using hallow
    have hsilent := (hasks [.call (.raw [0x3E]), .loop 0 false false []]).inert hnone
    have hcall : (setup cfg boot).call (.raw [0x3E]) =
        { setup cfg boot with rawPending := [0x3E] } := by
      show sendRaw _ _ = _
      unfold sendRaw
      rw [hsetup, hallow]
      rfl
    rw [run, exec_cons, exec_cons, exec_nil] at hsilent
    change (loop ((setup cfg boot).call (.raw [0x3E])) 0 false false []).offers = [] at hsilent
    rw [hcall, hsetup, offers_loop_raw rfl rfl rfl (List.cons_ne_nil _ _)] at hsilent
    exact List.append_ne_nil_of_right_ne_nil _ (List.cons_ne_nil _ _) hsilent
  · intro name gi g hfind hgroup hsafe
    by_contra hbuild
    obtain ⟨req, hreq⟩ := Option.ne_none_iff_exists'.mp hbuild
    have hsilent := (hasks [.call (.read name), .loop 0 false false []]).inert hnone
    have hcall : (setup cfg boot).call (.read name) = { setup cfg boot with ondemand := [gi] } := by
      show requestRead _ _ = _
      unfold requestRead
      rw [hsetup]
      dsimp only
      rw [hfind]
      dsimp only
      rw [hgroup]
      dsimp only
      rw [hsafe]
      rfl
    rw [run, exec_cons, exec_cons, exec_nil] at hsilent
    change (loop ((setup cfg boot).call (.read name)) 0 false false []).offers = [] at hsilent
    rw [hcall, hsetup, offers_loop_ondemand rfl rfl rfl rfl rfl hgroup hreq] at hsilent
    exact List.append_ne_nil_of_right_ne_nil _ (List.cons_ne_nil _ _) hsilent

/-- The hub asks only its own ECU in every run exactly if nothing can be asked of it where the
catalog opened without an ECU. -/
theorem asksOwn_iff (cfg : HubConfig) (boot : Nat) :
    (∀ events, AsksOwn cfg boot events) ↔ Harmless cfg :=
  ⟨harmless_of_asksOwn, fun hharmless events => asksOwn_of_harmless hharmless boot events⟩

end UdsHub

/-! ## Two ECUs and no name -/

/-- Two ECUs, each with a group that reads a data identifier. -/
def pairCatalog : Compiler.Catalog :=
  { ecus :=
      [{ name := ascii "A", requestId := 0x7E0, responseId := 0x7E8
         groups :=
          [{ name := ascii "G", request := [0x22, 0xF1, 0x90]
             fields := [{ name := ascii "F", bitPos := 24, bitSize := 8 }] }] },
       { name := ascii "B", requestId := 0x7E1, responseId := 0x7E9
         groups :=
          [{ name := ascii "H", request := [0x22, 0xF1, 0x91]
             fields := [{ name := ascii "E", bitPos := 24, bitSize := 8 }] }] }] }

def pairConfig : HubConfig :=
  { memory := match Compiler.writeCatalog pairCatalog with
      | .ok blob => some blob
      | .error _ => none }

set_option maxRecDepth 50000 in
/-- A hub that names neither of them sends what `uds.read` names. -/
theorem not_asksOwn_sample :
    ¬ ∀ (cfg : HubConfig) (boot : Nat) (events : List UdsHub.Event),
      UdsHub.AsksOwn cfg boot events := by
  intro h
  have hsilent := (h pairConfig 0 [.call (.read (ascii "G")), .loop 0 false true []]).inert
    (by decide)
  revert hsilent
  decide

end EspCars.Uds
