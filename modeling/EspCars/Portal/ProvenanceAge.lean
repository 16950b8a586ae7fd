import EspCars.Portal.Placement

/-!
# Provenance, as emitted and as checked

The age of a node is that of its oldest reading, and a node is stale if a reading is past the
budget.
But a boolean is never stale: a node that is ok with a boolean past its budget is the one whose
provenance the validator does not let pass.
-/

namespace EspCars.Portal

open EspCars.Lib EspCars.Portal.Schema

variable {node : NodeDef}

/-! ## The age of a node -/

/-- One reading of `max_age`. -/
theorem lt_age (b a : UInt32) (v : ValueSample) :
    (b < if v.ageKnown && a < v.ageMs then v.ageMs else a) ↔
      b < a ∨ v.ageKnown = true ∧ b < v.ageMs := by
  cases v.ageKnown with
  | false => simp
  | true =>
    simp only [Bool.true_and, true_and, decide_eq_true_eq, UInt32.lt_iff_toNat_lt]
    split_ifs <;> omega

theorem lt_foldl_age (b a : UInt32) (vs : List ValueSample) :
    b < vs.foldl (fun age v => if v.ageKnown && age < v.ageMs then v.ageMs else age) a ↔
      b < a ∨ ∃ v ∈ vs, v.ageKnown = true ∧ b < v.ageMs := by
  induction vs generalizing a with
  | nil => simp
  | cons v vs ih => rw [List.foldl_cons, ih, lt_age, or_assoc, List.exists_mem_cons_iff]

/-- The age is past a bound if a known age is. -/
theorem lt_maxAge {b : UInt32} :
    (∃ a ∈ maxAge node, b < a) ↔ ∃ v ∈ node.values, v.ageKnown = true ∧ b < v.ageMs := by
  unfold maxAge
  split_ifs with hknown
  · simp only [Option.mem_some_iff, exists_eq_left', lt_foldl_age]
    exact or_iff_right (Nat.not_lt_zero _)
  · constructor
    · rintro ⟨a, ⟨⟩, -⟩
    · rintro ⟨v, hv, hage, -⟩
      exact absurd (List.any_eq_true.mpr ⟨v, hv, hage⟩) hknown

/-! ## The state of a node -/

theorem ownState_ok (h : (ownState node).1 = .ok) :
    (ownState node).2 = maxAge node ∧ anyUnavailable node = false ∧ anyStale node = false := by
  unfold ownState at h ⊢
  split_ifs at h ⊢ with habsent hunknown hasked hdegraded hstale
  rw [Bool.or_eq_true, not_or, Bool.not_eq_true] at hdegraded
  exact ⟨rfl, hdegraded.1, Bool.not_eq_true _ ▸ hstale⟩

theorem ownState_stale (h : (ownState node).1 = .stale) :
    (ownState node).2 = maxAge node ∧ anyStale node = true := by
  unfold ownState at h ⊢
  split_ifs at h ⊢ with habsent hunknown hasked hdegraded hstale
  exact ⟨rfl, hstale⟩

/-- What is stale has a known age past the budget. -/
theorem classifyValue_stale {v : ValueSample} {budget : Option UInt32}
    (h : (classifyValue v budget).state = .stale) :
    v.ageKnown = true ∧ ∃ b ∈ budget, b < v.ageMs := by
  unfold classifyValue at h
  split_ifs at h with hunknown hfinite hoverflow hpast
  rw [Bool.or_eq_true, Bool.not_eq_true', Bool.not_eq_true', not_or, Bool.not_eq_false,
    Bool.not_eq_false] at hunknown
  rw [Bool.and_eq_true, Option.any_eq_true] at hpast
  obtain ⟨-, b, hb, hlt⟩ := hpast
  exact ⟨hunknown.2, b, hb, of_decide_eq_true hlt⟩

/-- A reading past the budget that is not stale is a boolean. -/
theorem isBool_of_past {v : ValueSample} {b : UInt32} (hv : v ∈ node.values)
    (hunavailable : anyUnavailable node = false) (hfresh : anyStale node = false)
    (hb : b ∈ node.budget) (hpast : b < v.ageMs) : v.isBool = true := by
  by_contra hbool
  have hread : (classifyValue v node.budget).classification ≠ .sna := fun hsna =>
    absurd (List.any_eq_true.mpr ⟨v, hv, decide_eq_true hsna⟩)
      (by rw [← anyUnavailable, hunavailable]; nofun)
  have hnot : (classifyValue v node.budget).state ≠ .stale := fun hstale =>
    absurd (List.any_eq_true.mpr ⟨v, hv, decide_eq_true (And.intro hread hstale)⟩)
      (by rw [← anyStale, hfresh]; nofun)
  unfold classifyValue at hread hnot
  split_ifs at hread hnot with _ _ _ hage
  · exact hread rfl
  · exact hread rfl
  · exact hread rfl
  · exact hnot rfl
  · rw [Bool.and_eq_true, Option.any_eq_true, Bool.not_eq_true'] at hage
    exact hage ⟨Bool.not_eq_true _ ▸ hbool, b, hb, decide_eq_true hpast⟩

theorem states_resolve (s : Snapshot) (index : Nat) :
    s.resolve.states index = s.ownStates index ∨ s.resolve.states index = .degraded := by
  have hpropagate : ∀ n states, s.propagate n states index = states index ∨
      s.propagate n states index = .degraded := by
    intro n
    induction n with
    | zero => exact fun states => Or.inl rfl
    | succ n ih =>
      intro states
      have hupgrade : s.upgrade states n index = states index ∨
          s.upgrade states n index = .degraded := by
        unfold Snapshot.upgrade
        split_ifs
        · exact Or.inl rfl
        · by_cases hsame : index = n
          · exact Or.inr (if_pos hsame)
          · exact Or.inl (if_neg hsame)
        · exact Or.inl rfl
      rcases ih (s.upgrade states n) with h | h
      · exact hupgrade.imp h.trans h.trans
      · exact Or.inr h
  exact hpropagate _ _

/-! ## The rules -/

/-- The oldest reading of an ok node is past the budget. -/
def PastBudget (node : NodeDef) : Prop :=
  ∃ b ∈ node.budget, ∃ v ∈ node.values, v.isBool = true ∧ v.ageKnown = true ∧ b < v.ageMs

theorem pastBudget_iff (hunavailable : anyUnavailable node = false)
    (hfresh : anyStale node = false) :
    PastBudget node ↔ ∃ b ∈ node.budget, ∃ a ∈ maxAge node, b < a := by
  refine exists_congr fun b => and_congr_right fun hb => ?_
  rw [lt_maxAge]
  refine exists_congr fun v => and_congr_right fun hv => and_iff_right_of_imp fun hpast => ?_
  exact isBool_of_past hv hunavailable hfresh hb hpast.2

theorem exists_of_anyStale (h : anyStale node = true) :
    ∃ b, node.budget = some b ∧ ∃ a, maxAge node = some a ∧ b < a := by
  obtain ⟨v, hv, hstale⟩ := List.any_eq_true.mp h
  obtain ⟨hknown, b, hb, hlt⟩ := classifyValue_stale (of_decide_eq_true hstale).2
  exact ⟨b, hb, lt_maxAge.mpr ⟨v, hv, hknown, hlt⟩⟩

theorem isNonnegIntOrNull_u32OrNullJson (v : Option UInt32) :
    isNonnegIntOrNull (u32OrNullJson v) = true := by
  cases v with
  | none => rfl
  | some v => exact isNonnegIntOrNull_u32Json v

theorem intValue?_u32OrNullJson (v : Option UInt32) :
    intValue? (u32OrNullJson v) = v.map fun x => (x.toNat : Int) := by
  cases v <;> rfl

theorem ages_resolve {s : Snapshot} {index : Nat} (hnode : s.nodes[index]? = some node) :
    s.resolve.ages index = (ownState node).2 ∧ s.ownStates index = (ownState node).1 := by
  have hown : (s.nodes[index]?.map ownState).getD (.ok, none) = ownState node := by
    rw [hnode]
    rfl
  exact ⟨congrArg Prod.snd hown, congrArg Prod.fst hown⟩

/-- The provenance of an emitted node passes, unless the node is ok and a boolean of it is older
than its budget. -/
theorem provenance_passes_iff (s : Snapshot) {index : Nat} (hnode : s.nodes[index]? = some node)
    (path : String) :
    validateProvenance (provenanceJson s s.resolve node index)
        (.str (stateName (s.resolve.states index))) path = [] ↔
      isSkeletonNode s index = true ∨ s.resolve.states index ≠ .ok ∨ ¬PastBudget node := by
  obtain ⟨hage, hown⟩ := ages_resolve hnode
  have hdown : isWord ["down"] (.str (stateName (s.resolve.states index))) = false := by
    cases s.resolve.states index <;> decide
  have hstates := states_resolve s index
  cases hskeleton : isSkeletonNode s index with
  | true =>
    rw [provenanceJson, if_pos hskeleton, validateProvenance, hdown]
    exact iff_of_true rfl (Or.inl rfl)
  | false =>
    have hfragment : ¬ isSkeletonNode s index = true := ne_true_of_eq_false hskeleton
    obtain ⟨horigin, hboard, hnodeId, hageMs, hbudgetMs, htrust, hseq⟩ :=
      get?_provenanceJson s.resolve node hskeleton
    have hmissing :
        missingKeys (provenanceJson s s.resolve node index) provenanceKeys path = [] := by
      rw [provenanceJson, if_neg hfragment]
      exact missingKeys_object (by simp [provenanceKeys])
    have hunknown :
        unknownKeys (provenanceJson s s.resolve node index) provenanceKeys path = [] := by
      rw [provenanceJson, if_neg hfragment]
      exact unknownKeys_object (by simp [provenanceKeys])
    have hnull : isNull (provenanceJson s s.resolve node index) = false :=
      (isNull_provenanceJson ..).trans hskeleton
    have hdict : isDict (provenanceJson s s.resolve node index) = true := by
      rw [provenanceJson, if_neg hfragment]
      rfl
    unfold validateProvenance
    rw [hnull, hdict, hmissing, hunknown]
    have horiginOk : isWord origins (.str (ascii "local")) = true := by decide
    have htrustOk : isWord trusts (.str (if trustConfirmed node then ascii "confirmed" else
        ascii "assumed")) = true := by
      cases trustConfirmed node <;> decide
    simp only [Bool.not_true, Bool.false_eq_true, ↓reduceIte, List.nil_append, onKey, horigin,
      hboard, hnodeId, hageMs, hbudgetMs, htrust, hseq, List.flatMap_cons, List.flatMap_nil,
      List.append_nil, List.append_eq_nil_iff, check_eq_nil, Schema.get, Option.getD_some, hdown,
      horiginOk, htrustOk, isStrOrNull_textOrNull, isNonnegIntOrNull_u32Json,
      isNonnegIntOrNull_u32OrNullJson, hage, Bool.not_false, Bool.true_or, true_and, false_or]
    rw [hown] at hstates
    simp only [intValue?_u32OrNullJson]
    cases hstate : s.resolve.states index with
    | ok =>
      rw [hstate] at hstates
      obtain ⟨hmax, hunavailable, hfresh⟩ := ownState_ok (hstates.resolve_right (by decide)).symm
      rw [hmax, pastBudget_iff hunavailable hfresh]
      cases maxAge node <;> cases node.budget <;>
        simp +decide [stateName, UInt32.le_iff_toNat_le]
    | stale =>
      rw [hstate] at hstates
      obtain ⟨hmax, hstale⟩ := ownState_stale (hstates.resolve_right (by decide)).symm
      obtain ⟨b, hb, a, ha, hlt⟩ := exists_of_anyStale hstale
      rw [hmax, ha, hb]
      have hnull : isNull (u32OrNullJson (some a)) = false := rfl
      simpa +decide [stateName, hnull] using UInt32.lt_iff_toNat_lt.mp hlt
    | _ =>
      cases (ownState node).2 <;> cases node.budget <;> simp +decide [stateName]

/-- A boolean that was last published a second ago. -/
def oldSwitch : ValueSample where
  key := ascii "on"
  label := ascii "On"
  ageMs := 999
  isBool := true
  hasValue := true
  ageKnown := true

def relay : NodeDef where
  id := ascii "relay"
  kind := ascii "switch"
  label := ascii "Relay"
  budget := some 500
  values := [oldSwitch]

theorem provenance_passes_iff_relay :
    validateProvenance
        (provenanceJson { nodes := [relay] } (Snapshot.resolve { nodes := [relay] }) relay 0)
        (.str (stateName ((Snapshot.resolve { nodes := [relay] }).states 0))) "relay" ≠ [] := by
  have hok : (Snapshot.resolve { nodes := [relay] }).states 0 = .ok := by rfl
  rw [Ne, provenance_passes_iff { nodes := [relay] } rfl "relay"]
  rintro (hskeleton | hstate | hfresh)
  · exact absurd hskeleton (by decide)
  · exact hstate hok
  · exact hfresh ⟨500, rfl, oldSwitch, List.mem_singleton_self _, rfl, rfl, by decide⟩

end EspCars.Portal
