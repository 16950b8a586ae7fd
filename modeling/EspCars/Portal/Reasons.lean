import EspCars.Portal.Hierarchy

/-!
# The state of a node and its reason

What a tree means, from the leaves up: the verdict of a node on itself, the first one of its
precedence, and what its children make of it. `resolve` computes that in two passes, and
`describe_node_reason`, which looks at the samples once more, names what has led to it.
-/

namespace EspCars.Portal

open EspCars.Lib

/-- What a node finds about itself. -/
inductive OwnVerdict
  | absent | unknownWhen | notRequested | unavailable | limit | stale | ok
  deriving DecidableEq, Repr

namespace OwnVerdict

def applies (node : NodeDef) : OwnVerdict → Bool
  | .absent => nodeIsAbsent node
  | .unknownWhen => unknownWhenMatches node
  | .notRequested => Portal.notRequested node
  | .unavailable => anyUnavailable node
  | .limit => node.values.any fun v => (limitHit v).level = .warn || (limitHit v).level = .bad
  | .stale => anyStale node
  | .ok => true

def precedence : List OwnVerdict := [.absent, .unknownWhen, .notRequested, .unavailable, .limit, .stale]

def state : OwnVerdict → State
  | .absent => .absent
  | .unknownWhen | .notRequested => .unknown
  | .unavailable | .limit => .degraded
  | .stale => .stale
  | .ok => .ok

end OwnVerdict

/-- The first verdict that applies. -/
def NodeDef.verdict (node : NodeDef) : OwnVerdict :=
  (OwnVerdict.precedence.find? (·.applies node)).getD .ok

namespace Snapshot

variable (s : Snapshot)

/-- Parents stand before their children. -/
def PreOrder : Prop := ∀ j < s.nodes.length, ∀ p ∈ s.parentOf j, p < j

instance : Decidable s.PreOrder :=
  inferInstanceAs (Decidable (∀ j < s.nodes.length, ∀ p ∈ s.parentOf j, p < j))

def childrenOf (index : Nat) : List Nat :=
  (List.range s.nodes.length).filter fun j => s.parentOf j = some index

/-- The children that are neither ok nor quiet. -/
def troubled (states : Nat → State) (index : Nat) : List Nat :=
  (s.childrenOf index).filter fun j => states j ≠ .ok && !s.childIsQuiet states j

def ownMeaning (index : Nat) : State := ((s.nodes[index]?).map fun node => node.verdict.state).getD .ok

/-- An ok or stale node with a child in trouble is degraded. -/
def combined (index : Nat) (own : State) (states : Nat → State) : State :=
  if (own = .ok ∨ own = .stale) ∧ s.troubled states index ≠ [] then .degraded else own

/-- What the state of a node means, from the leaves up. -/
def Meaning : Nat → State → Prop := Means s.parentOf s.ownMeaning s.combined

/-- A child has made the node degraded. -/
def Upgraded (node : NodeDef) (states : Nat → State) (index : Nat) : Prop :=
  (node.verdict = .ok ∨ node.verdict = .stale) ∧ s.troubled states index ≠ []

end Snapshot

/-- What has led to a state, and the reason that names it. -/
inductive Why (s : Snapshot) (states : Nat → State) (index : Nat) (node : NodeDef) :
    State → NodeReason → Prop
  | ok (hverdict : node.verdict = .ok) (hkept : ¬s.Upgraded node states index) :
    Why s states index node .ok { code := none }
  | absent (hverdict : node.verdict = .absent) :
    Why s states index node .absent { code := node.absentWhy, evidence := node.absentEvidence }
  | unknownWhen (hverdict : node.verdict = .unknownWhen) :
    Why s states index node .unknown { code := node.unknownWhy }
  | notRequested (hverdict : node.verdict = .notRequested) :
    Why s states index node .unknown { code := some (ascii "not_requested") }
  | unavailable (hverdict : node.verdict = .unavailable) :
    Why s states index node .degraded { code := some (ascii "entities_unavailable") }
  | limit (worst : ValueSample × LimitHit) (hverdict : node.verdict = .limit)
      (hworst : worstLimit node = some worst) :
    Why s states index node .degraded { code := some (ascii "limit"), limit := some worst }
  | stale (hverdict : node.verdict = .stale) (hkept : ¬s.Upgraded node states index) :
    Why s states index node .stale { code := some (ascii "stale_data") }
  | staleUpgraded (hverdict : node.verdict = .stale) (hupgraded : s.Upgraded node states index) :
    Why s states index node .degraded { code := some (ascii "stale_data") }
  | childDegraded (hverdict : node.verdict = .ok) (hupgraded : s.Upgraded node states index) :
    Why s states index node .degraded
      { code := some (ascii "child_degraded"), evidenceChildren := true }

/-! ## The verdict on a node -/

theorem isSome_worseLimit (worst : Option (ValueSample × LimitHit)) (v : ValueSample) :
    (worseLimit worst v).isSome =
      (worst.isSome || ((limitHit v).level = .warn || (limitHit v).level = .bad)) := by
  cases worst with
  | none => cases hlevel : (limitHit v).level <;> simp [worseLimit, hlevel, Level.rank]
  | some worst =>
    simp only [worseLimit, Option.isSome_some, Bool.true_or]
    split <;> rfl

theorem isSome_foldl_worseLimit (values : List ValueSample) (worst : Option (ValueSample × LimitHit)) :
    (values.foldl worseLimit worst).isSome = (worst.isSome ||
      values.any fun v => (limitHit v).level = .warn || (limitHit v).level = .bad) := by
  induction values generalizing worst with
  | nil => simp
  | cons v values ih => simp [ih, isSome_worseLimit, Bool.or_assoc]

/-- There is a worst limit if a value is at one. -/
theorem isSome_worstLimit (node : NodeDef) :
    (worstLimit node).isSome = OwnVerdict.applies node .limit :=
  isSome_foldl_worseLimit node.values none

theorem verdict_eq (node : NodeDef) : node.verdict =
    if nodeIsAbsent node then .absent
    else if unknownWhenMatches node then .unknownWhen
    else if notRequested node then .notRequested
    else if anyUnavailable node then .unavailable
    else if (worstLimit node).isSome then .limit
    else if anyStale node then .stale
    else .ok := by
  have habsent : OwnVerdict.applies node .absent = nodeIsAbsent node := rfl
  have hunknown : OwnVerdict.applies node .unknownWhen = unknownWhenMatches node := rfl
  have hrequested : OwnVerdict.applies node .notRequested = notRequested node := rfl
  have hunavailable : OwnVerdict.applies node .unavailable = anyUnavailable node := rfl
  have hstale : OwnVerdict.applies node .stale = anyStale node := rfl
  simp only [NodeDef.verdict, OwnVerdict.precedence, List.find?_cons, List.find?_nil, habsent,
    hunknown, hrequested, hunavailable, ← isSome_worstLimit, hstale]
  cases nodeIsAbsent node <;> [skip; rfl]
  cases unknownWhenMatches node <;> [skip; rfl]
  cases notRequested node <;> [skip; rfl]
  cases anyUnavailable node <;> [skip; rfl]
  cases (worstLimit node).isSome <;> [skip; rfl]
  cases anyStale node <;> rfl

theorem unknownValueKey_of_matches {node : NodeDef} (h : unknownWhenMatches node = true) :
    node.unknownValueKey.isSome = true := by
  unfold unknownWhenMatches at h
  cases hkey : node.unknownValueKey with
  | none => simp [hkey] at h
  | some key => rfl

/-- The first pass gives a node the state of its verdict. -/
theorem ownState_fst (node : NodeDef) : (ownState node).1 = node.verdict.state := by
  have hkey : (node.unknownValueKey.isSome && unknownWhenMatches node) = unknownWhenMatches node := by
    cases hmatch : unknownWhenMatches node with
    | false => exact Bool.and_false _
    | true => rw [unknownValueKey_of_matches hmatch]; rfl
  rw [ownState, hkey, verdict_eq]
  cases nodeIsAbsent node <;> [skip; rfl]
  cases unknownWhenMatches node <;> [skip; rfl]
  cases notRequested node <;> [skip; rfl]
  cases anyUnavailable node <;> [skip; rfl]
  cases (worstLimit node).isSome <;> [skip; rfl]
  cases anyStale node <;> rfl

/-! ## The second pass -/

namespace Snapshot

variable {s : Snapshot}

theorem mem_childrenOf {i j : Nat} : j ∈ s.childrenOf i ↔ s.parentOf j = some i := by
  rw [childrenOf, List.mem_filter, List.mem_range, decide_eq_true_iff, and_iff_right_iff_imp]
  exact lt_length_of_parentOf

/-- The children that the code looks for stand behind the node. -/
theorem children_eq_childrenOf (hpre : s.PreOrder) (index : Nat) :
    s.children index = s.childrenOf index := by
  apply List.filter_congr
  intro j hj
  have hlt (h : s.parentOf j = some index) : index < j := hpre j (List.mem_range.mp hj) index h
  exact decide_eq_decide.mpr (and_iff_right_of_imp hlt)

theorem troubled_congr {x y : Nat → State} {i : Nat} (h : ∀ j, s.parentOf j = some i → x j = y j) :
    s.troubled x i = s.troubled y i := by
  apply List.filter_congr
  intro j hj
  rw [childIsQuiet, childIsQuiet, h j (mem_childrenOf.mp hj)]

theorem local_combined : Local s.parentOf s.combined := by
  intro i a x y h
  rw [combined, combined, troubled_congr h]

theorem ownStates_eq_ownMeaning (index : Nat) : s.ownStates index = s.ownMeaning index := by
  rw [ownStates, ownMeaning]
  cases s.nodes[index]? with
  | none => rfl
  | some node => exact ownState_fst node

theorem upgrade_eq_update (hpre : s.PreOrder) (x : Nat → State) (i : Nat) :
    s.upgrade x i = Function.update x i (s.combined i (x i) x) := by
  have hseverity : severity .degraded ≤ severity (x i) ↔ ¬(x i = .ok ∨ x i = .stale) := by
    cases x i <;> decide
  have hany : ((s.children i).any fun j => x j ≠ .ok ∧ !s.childIsQuiet x j) = true ↔
      s.troubled x i ≠ [] := by
    rw [children_eq_childrenOf hpre, troubled, ne_eq, List.filter_eq_nil_iff, List.any_eq_true]
    push Not
    simp
  rw [upgrade, combined]
  by_cases hown : x i = .ok ∨ x i = .stale
  · rw [if_neg (fun h => hseverity.mp h hown)]
    by_cases htrouble : s.troubled x i = []
    · rw [if_neg (fun h => hany.mp h htrouble), if_neg (fun h => h.2 htrouble), Function.update_eq_self]
    · rw [if_pos (hany.mpr htrouble), if_pos ⟨hown, htrouble⟩]
      funext k
      rw [Function.update_apply]
  · rw [if_pos (hseverity.mpr hown), if_neg (fun h => hown h.1), Function.update_eq_self]

theorem propagate_eq_sweep (hpre : s.PreOrder) (n : Nat) (x : Nat → State) :
    s.propagate n x = sweep s.combined n x := by
  induction n generalizing x with
  | zero => rfl
  | succ n ih => rw [propagate, sweep, upgrade_eq_update hpre, ih]

/-- `resolve` computes what the tree means. -/
theorem meaning_iff (hpre : s.PreOrder) {index : Nat} (hindex : index < s.nodes.length) {st : State} :
    s.Meaning index st ↔ st = s.resolve.states index := by
  have hlt (d p : Nat) (h : s.parentOf d = some p) : p < d := hpre d (lt_length_of_parentOf h) p h
  rw [resolve, propagate_eq_sweep hpre, funext ownStates_eq_ownMeaning]
  exact means_iff_sweep s.ownMeaning local_combined hlt (fun d p h => lt_length_of_parentOf h) hindex

theorem resolve_states (hpre : s.PreOrder) {index : Nat} {node : NodeDef}
    (hnode : s.nodes[index]? = some node) : s.resolve.states index =
      s.combined index node.verdict.state s.resolve.states := by
  have hlt (d p : Nat) (h : s.parentOf d = some p) : p < d := hpre d (lt_length_of_parentOf h) p h
  have hindex := (List.getElem?_eq_some_iff.mp hnode).1
  rw [resolve, propagate_eq_sweep hpre, funext ownStates_eq_ownMeaning]
  refine (sweep_eq_combine local_combined hlt _ hindex).trans ?_
  rw [ownMeaning, hnode]
  rfl

end Snapshot

/-! ## The reason -/

theorem ok_or_stale_iff (node : NodeDef) : (node.verdict.state = .ok ∨ node.verdict.state = .stale) ↔
    (node.verdict = .ok ∨ node.verdict = .stale) := by
  cases node.verdict <;> decide

theorem combined_eq (s : Snapshot) (node : NodeDef) (states : Nat → State) (index : Nat) :
    (s.Upgraded node states index ∧ s.combined index node.verdict.state states = .degraded) ∨
      (¬s.Upgraded node states index ∧
        s.combined index node.verdict.state states = node.verdict.state) := by
  rw [Snapshot.combined, Snapshot.Upgraded, ← ok_or_stale_iff]
  split_ifs with h
  · exact .inl ⟨h, rfl⟩
  · exact .inr ⟨h, rfl⟩

theorem combined_of_verdict (s : Snapshot) (node : NodeDef) (states : Nat → State) (index : Nat)
    (hok : node.verdict ≠ .ok) (hstale : node.verdict ≠ .stale) :
    s.combined index node.verdict.state states = node.verdict.state := by
  rcases combined_eq s node states index with ⟨⟨hup, -⟩, -⟩ | ⟨-, heq⟩
  · rcases hup with hup | hup
    · exact absurd hup hok
    · exact absurd hup hstale
  · exact heq

/-- The reason is looked up in the order of the verdicts. -/
theorem why_combined (s : Snapshot) (states : Nat → State) (index : Nat) (node : NodeDef) :
    Why s states index node (s.combined index node.verdict.state states)
      (describeNodeReason node (s.combined index node.verdict.state states)) := by
  have hcombined := combined_eq s node states index
  have hkept := combined_of_verdict s node states index
  have hverdict := verdict_eq node
  split_ifs at hverdict with habsent hunknown hrequested hunavailable hlimit hstale
  · rw [hkept (by simp [hverdict]) (by simp [hverdict]), hverdict]
    exact .absent hverdict
  · rw [hkept (by simp [hverdict]) (by simp [hverdict]), hverdict]
    simpa [describeNodeReason, OwnVerdict.state, hunknown] using Why.unknownWhen hverdict
  · rw [hkept (by simp [hverdict]) (by simp [hverdict]), hverdict]
    simpa [describeNodeReason, OwnVerdict.state, hunknown, hrequested] using Why.notRequested hverdict
  · rw [hkept (by simp [hverdict]) (by simp [hverdict]), hverdict]
    simpa [describeNodeReason, OwnVerdict.state, hunknown, hunavailable] using Why.unavailable hverdict
  · obtain ⟨worst, hworst⟩ := Option.isSome_iff_exists.mp hlimit
    rw [hkept (by simp [hverdict]) (by simp [hverdict]), hverdict]
    simpa [describeNodeReason, OwnVerdict.state, hunknown, hunavailable, hworst] using
      Why.limit worst hverdict hworst
  · have hworst : worstLimit node = none := by simpa using hlimit
    rcases hcombined with ⟨hup, heq⟩ | ⟨hnot, heq⟩
    · rw [heq]
      simpa [describeNodeReason, hunknown, hunavailable, hworst, hstale] using
        Why.staleUpgraded hverdict hup
    · rw [heq, hverdict]
      simpa [describeNodeReason, OwnVerdict.state, hunknown, hunavailable, hworst, hstale] using
        Why.stale hverdict hnot
  · have hworst : worstLimit node = none := by simpa using hlimit
    rcases hcombined with ⟨hup, heq⟩ | ⟨hnot, heq⟩
    · rw [heq]
      simpa [describeNodeReason, hunknown, hunavailable, hworst, hstale] using
        Why.childDegraded hverdict hup
    · rw [heq, hverdict]
      exact .ok hverdict hnot

/-- State and reason of every node of a tree. -/
theorem resolve_why (s : Snapshot) (hpre : s.PreOrder) {index : Nat} {node : NodeDef}
    (hnode : s.nodes[index]? = some node) :
    (∀ st, s.Meaning index st ↔ st = s.resolve.states index) ∧
      Why s s.resolve.states index node (s.resolve.states index)
        (describeNodeReason node (s.resolve.states index)) ∧
      degradedChildren s s.resolve index = s.troubled s.resolve.states index := by
  refine ⟨fun st => Snapshot.meaning_iff hpre (List.getElem?_eq_some_iff.mp hnode).1, ?_, ?_⟩
  · have hstate := Snapshot.resolve_states hpre hnode
    have hwhy := why_combined s s.resolve.states index node
    rwa [← hstate] at hwhy
  · rw [degradedChildren, Snapshot.children_eq_childrenOf hpre, Snapshot.troubled]

/-- A value that was last published a second ago. -/
def oldValue : ValueSample where
  key := ascii "v"
  label := ascii "V"
  ageMs := 999
  hasValue := true
  ageKnown := true

/-- A node past its budget, and below it one that was never published. -/
def staleRoot : Snapshot where
  nodes := [
    { id := ascii "car", kind := ascii "car", label := ascii "Car", budget := some 500,
      values := [oldValue] },
    { id := ascii "ecu", kind := ascii "ecu", label := ascii "ECU", parent := some 0,
      values := [{ key := ascii "w", label := ascii "W" }] }]

theorem resolve_why_staleRoot :
    ∃ node, staleRoot.nodes[1]? = some node ∧ staleRoot.Meaning 1 .degraded ∧
      Why staleRoot staleRoot.resolve.states 1 node .degraded
        { code := some (ascii "entities_unavailable") } :=
  have hwhy := resolve_why staleRoot (by decide) (rfl : staleRoot.nodes[1]? = some _)
  ⟨_, rfl, (hwhy.1 .degraded).mpr (by decide), hwhy.2.1⟩

/-- The root is degraded by its child, and its reason is still its own. -/
theorem reason_staleRoot :
    staleRoot.PreOrder ∧ staleRoot.resolve.states 0 = .degraded ∧
      ∃ node ∈ staleRoot.nodes[0]?,
        (describeNodeReason node (staleRoot.resolve.states 0)).code = some (ascii "stale_data") := by
  decide

end EspCars.Portal
