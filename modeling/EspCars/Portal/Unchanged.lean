import EspCars.Lib.Run
import EspCars.Portal.Fingerprint
import EspCars.Portal.Placement

/-!
# What an answer 204 stands for

What is emitted of the values, the nodes, the actions and the links depends on nothing but what the
words of the fingerprint tell. So two samples of one tree whose documents differ there have different
words (`words_ne_of_facts_ne`), and `seq` stays where it is only if the hash of the words does.
-/

namespace EspCars.Portal

open EspCars.Lib

/-! ## Values -/

namespace ValueSample

variable {v v' : ValueSample} {budget : Option UInt32}

theorem definition_eq_iff : v.definition = v'.definition ↔
    v.key = v'.key ∧ v.label = v'.label ∧ v.unit = v'.unit ∧ v.decimals = v'.decimals ∧
      v.isText = v'.isText ∧ v.isBool = v'.isBool ∧ v.limit = v'.limit := by
  unfold definition
  simp only [ValueSample.mk.injEq, true_and]

namespace Alike

theorem classifyValue_eq (h : v.Alike budget v') :
    classifyValue v budget = classifyValue v' budget := by
  obtain ⟨-, -, -, -, htext, hbool, -⟩ := definition_eq_iff.mp h.definition
  have hstate := h.state
  cases hvalue : v.hasValue with
  | false =>
    unfold classifyValue
    rw [← h.hasValue, hvalue]
    rfl
  | true =>
    have hfinite : (!v.isText && !v.isBool && !v.number.isFinite) =
        (!v'.isText && !v'.isBool && !v'.number.isFinite) := by
      rw [← htext, ← hbool]
      cases hkind : v.isText with
      | true => rfl
      | false => rw [h.number hvalue hkind]
    unfold classifyValue at hstate ⊢
    rw [← h.hasValue, ← h.ageKnown, ← hfinite, ← h.textOverflow, ← htext, ← hbool] at hstate ⊢
    split_ifs at hstate ⊢ <;> rfl

theorem limitHit_eq (h : v.Alike budget v') : limitHit v = limitHit v' := by
  obtain ⟨-, -, -, -, htext, hbool, hlimit⟩ := definition_eq_iff.mp h.definition
  unfold limitHit ValueSample.reading
  rw [← h.hasValue, ← h.ageKnown, ← htext, ← hbool, ← hlimit]
  cases hvalue : v.hasValue with
  | false => cases v.limit <;> simp
  | true =>
    cases hkind : v.isText with
    | true => cases v.limit <;> simp
    | false => rw [h.number hvalue hkind]

/-- The whole document of a value. -/
theorem valueJson_eq (h : v.Alike budget v') (num : Binary32 → Nat → Json) :
    valueJson num v budget = valueJson num v' budget := by
  obtain ⟨hkey, hlabel, hunit, hdecimals, htext, hbool, -⟩ := definition_eq_iff.mp h.definition
  cases hvalue : v.hasValue with
  | false =>
    have hsna (w : ValueSample) (hw : w.hasValue = false) :
        classifyValue w budget =
          { classification := .sna, state := .absent, whyCode := some (ascii "value_not_available") } := by
      unfold classifyValue
      rw [hw]
      rfl
    unfold valueJson
    rw [hsna v hvalue, hsna v' (h.hasValue ▸ hvalue), ← hkey, ← hlabel, ← hunit, ← h.limitHit_eq]
    rfl
  | true =>
    unfold valueJson readingJson ValueSample.reading
    rw [← h.classifyValue_eq, ← h.limitHit_eq, ← hkey, ← hlabel, ← hunit, ← hdecimals, ← htext,
      ← hbool]
    cases hkind : v.isText with
    | true =>
      rw [h.exclusive hkind, h.text hvalue hkind]
      rfl
    | false =>
      rw [h.number hvalue hkind]
      simp only [Bool.false_eq_true, if_false]

theorem textIs_eq (h : v.Alike budget v') (text : List UInt8) :
    textIs (some v) text = textIs (some v') text := by
  obtain ⟨-, -, -, -, htext, -, -⟩ := definition_eq_iff.mp h.definition
  unfold textIs
  rw [Option.any_some, Option.any_some, ← h.hasValue, ← h.textOverflow, ← htext]
  cases hkind : v.isText with
  | false => rfl
  | true =>
    cases hvalue : v.hasValue with
    | false => rfl
    | true => rw [h.text hvalue hkind]

end Alike

/-- A reading that is out of its limits is there. -/
theorem isThere_of_limitHit (h : (limitHit v).level ≠ .none) :
    v.hasValue = true ∧ v.isText = false := by
  unfold limitHit at h
  split at h
  · exact absurd rfl h
  · split_ifs at h with hnone
    · exact absurd rfl h
    all_goals
      simp only [Bool.or_eq_true, Bool.not_eq_true', not_or, Bool.not_eq_true,
        Bool.not_eq_false] at hnone
      exact ⟨hnone.1.2, hnone.1.1⟩

end ValueSample

/-! ## Nodes -/

/-- Two limits that were hit by readings that the words do not tell apart. -/
structure SameLimit (budget : Option UInt32) (w w' : ValueSample × LimitHit) : Prop where
  value : w.1.Alike budget w'.1
  hit : w.2 = w'.2
  number : w.1.isText = false ∧ w.1.number = w'.1.number

namespace NodeDef.Alike

variable {node node' : NodeDef}

theorem definition_eq (h : node.definition = node'.definition) :
    node.id = node'.id ∧ node.parent = node'.parent ∧ node.budget = node'.budget ∧
      node.onDemand = node'.onDemand ∧ node.absentWhy = node'.absentWhy ∧
      node.unknownValueKey = node'.unknownValueKey ∧ node.unknownEquals = node'.unknownEquals ∧
      node.unknownWhy = node'.unknownWhy ∧ node.trustValueKey = node'.trustValueKey ∧
      node.absentEvidence = node'.absentEvidence := by
  unfold NodeDef.definition at h
  simp only [NodeDef.mk.injEq] at h
  tauto

variable (h : node.Alike node')

include h

theorem notRequested_eq : notRequested node = notRequested node' := by
  obtain ⟨-, -, -, hdemand, -⟩ := definition_eq h.definition
  have hempty : node.values.isEmpty = node'.values.isEmpty := by
    rw [Bool.eq_iff_iff, List.isEmpty_iff_length_eq_zero, List.isEmpty_iff_length_eq_zero,
      h.values.length_eq]
  unfold notRequested
  rw [hdemand, hempty, all_eq_of_forall₂ h.values]
  intro v v' hv
  rw [hv.hasValue, hv.ageKnown]

theorem findValue_rel (key : Option (List UInt8)) :
    Option.Rel (ValueSample.Alike node.budget) (findValue node key) (findValue node' key) := by
  unfold findValue
  cases key with
  | none => exact Option.Rel.none
  | some key =>
    apply find?_rel_of_forall₂ h.values
    intro v v' hv
    rw [(ValueSample.definition_eq_iff.mp hv.definition).1]

theorem textIs_findValue_eq (key : Option (List UInt8)) (text : List UInt8) :
    textIs (findValue node key) text = textIs (findValue node' key) text := by
  have hrel := h.findValue_rel key
  generalize findValue node key = target, findValue node' key = target' at hrel ⊢
  cases hrel with
  | none => rfl
  | some hv => exact hv.textIs_eq text

theorem unknownWhenMatches_eq : unknownWhenMatches node = unknownWhenMatches node' := by
  obtain ⟨-, -, -, -, -, hkey, hequals, -⟩ := definition_eq h.definition
  unfold unknownWhenMatches
  rw [← hkey, ← hequals]
  split
  · exact h.textIs_findValue_eq _ _
  · rfl

theorem anyUnavailable_eq : anyUnavailable node = anyUnavailable node' := by
  unfold anyUnavailable
  rw [← budget_of_definition h.definition]
  apply any_eq_of_forall₂ h.values
  intro v v' hv
  rw [hv.classifyValue_eq]

theorem anyStale_eq : anyStale node = anyStale node' := by
  unfold anyStale
  rw [← budget_of_definition h.definition]
  apply any_eq_of_forall₂ h.values
  intro v v' hv
  rw [hv.classifyValue_eq]

theorem worstLimit_rel :
    Option.Rel (SameLimit node.budget) (worstLimit node) (worstLimit node') := by
  refine List.rel_foldl (fun w w' hw v v' hv => ?_) Option.Rel.none h.values
  have hrank : (w.map fun w => w.2.level.rank).getD 0 = (w'.map fun w => w.2.level.rank).getD 0 := by
    cases hw with
    | none => rfl
    | some hw =>
      rw [Option.map_some, Option.map_some, hw.hit]
  unfold worseLimit
  dsimp only
  rw [← hv.limitHit_eq, ← hrank]
  split_ifs with hworse
  · have hthere := ValueSample.isThere_of_limitHit (v := v) (by
      rcases hworse.1 with hlevel | hlevel <;> rw [hlevel] <;> nofun)
    exact Option.Rel.some ⟨hv, rfl, hthere.2, hv.number hthere.1 hthere.2⟩
  · exact hw

theorem isSome_worstLimit_eq : (worstLimit node).isSome = (worstLimit node').isSome := by
  have hrel := h.worstLimit_rel
  generalize worstLimit node = worst, worstLimit node' = worst' at hrel ⊢
  cases hrel with
  | none => rfl
  | some _ => rfl

theorem ownState_eq : (ownState node).1 = (ownState node').1 := by
  obtain ⟨-, -, -, -, -, hkey, -⟩ := definition_eq h.definition
  unfold ownState
  rw [← h.absent, ← hkey, ← h.unknownWhenMatches_eq, ← h.notRequested_eq, ← h.anyUnavailable_eq,
    ← h.isSome_worstLimit_eq, ← h.anyStale_eq]
  split_ifs <;> rfl

/-- What stands in the reason of a state. -/
theorem describeNodeReason_rel (state : State) :
    (describeNodeReason node state).code = (describeNodeReason node' state).code ∧
    (describeNodeReason node state).evidenceChildren =
      (describeNodeReason node' state).evidenceChildren ∧
    (describeNodeReason node state).evidence = (describeNodeReason node' state).evidence ∧
    Option.Rel (SameLimit node.budget) (describeNodeReason node state).limit
      (describeNodeReason node' state).limit := by
  obtain ⟨-, -, -, -, hwhy, -, -, hunknown, -, hevidence⟩ := definition_eq h.definition
  unfold describeNodeReason
  rw [← hwhy, ← hevidence, ← hunknown, ← h.unknownWhenMatches_eq, ← h.notRequested_eq,
    ← h.anyUnavailable_eq, ← h.anyStale_eq]
  split_ifs
  · exact ⟨rfl, rfl, rfl, Option.Rel.none⟩
  · exact ⟨rfl, rfl, rfl, Option.Rel.none⟩
  · exact ⟨rfl, rfl, rfl, Option.Rel.none⟩
  · exact ⟨rfl, rfl, rfl, Option.Rel.none⟩
  · exact ⟨rfl, rfl, rfl, Option.Rel.none⟩
  all_goals
    have hrel := h.worstLimit_rel
    generalize worstLimit node = worst, worstLimit node' = worst' at hrel ⊢
    cases hrel with
    | none => exact ⟨rfl, rfl, rfl, Option.Rel.none⟩
    | some hw => exact ⟨rfl, rfl, rfl, Option.Rel.some hw⟩

end NodeDef.Alike

/-! ## Trees -/

theorem limitFields_eq {budget : Option UInt32} {w w' : ValueSample × LimitHit}
    (h : SameLimit budget w w') (num : Binary32 → Nat → Json) :
    limitFields num w = limitFields num w' := by
  obtain ⟨hkey, -, -, hdecimals, -, hbool, -⟩ :=
    ValueSample.definition_eq_iff.mp h.value.definition
  unfold limitFields ValueSample.reading
  rw [hkey, hdecimals, hbool, h.hit, h.number.2]

namespace Alike

variable {s s' : Snapshot} (hnodes : List.Forall₂ NodeDef.Alike s.nodes s'.nodes)

include hnodes

/-- What a node and one that the words do not tell from it have in common, at an index. -/
theorem getElem?_map_eq {α : Type} {f : NodeDef → α}
    (hf : ∀ node node', node.Alike node' → f node = f node') (index : Nat) :
    s.nodes[index]?.map f = s'.nodes[index]?.map f := by
  rw [← List.getElem?_map, ← List.getElem?_map, map_eq_of_forall₂ hnodes hf]

theorem children_eq (index : Nat) : s.children index = s'.children index := by
  have hparent (j : Nat) : s.nodes[j]?.bind NodeDef.parent = s'.nodes[j]?.bind NodeDef.parent := by
    have hmap := getElem?_map_eq hnodes (f := NodeDef.parent)
      (fun _ _ h => (NodeDef.Alike.definition_eq h.definition).2.1) j
    simpa only [Option.bind_map, Function.id_comp] using congrArg (fun parent => parent.bind id) hmap
  unfold Snapshot.children
  rw [hnodes.length_eq]
  simp only [hparent]

theorem isNotRequested_eq (index : Nat) : s.isNotRequested index = s'.isNotRequested index := by
  have hrel := getElem?_rel_of_forall₂ hnodes index
  unfold Snapshot.isNotRequested
  generalize s.nodes[index]? = node, s'.nodes[index]? = node' at hrel ⊢
  cases hrel with
  | none => rfl
  | some hnode => rw [Option.any_some, Option.any_some, hnode.notRequested_eq]

theorem ownStates_eq : s.ownStates = s'.ownStates := by
  funext index
  have hrel := getElem?_rel_of_forall₂ hnodes index
  unfold Snapshot.ownStates
  generalize s.nodes[index]? = node, s'.nodes[index]? = node' at hrel ⊢
  cases hrel with
  | none => rfl
  | some hnode =>
    rw [Option.map_some, Option.map_some, Option.getD_some, Option.getD_some, hnode.ownState_eq]

theorem childIsQuiet_eq (states : Nat → State) (index : Nat) :
    s.childIsQuiet states index = s'.childIsQuiet states index := by
  unfold Snapshot.childIsQuiet
  rw [isNotRequested_eq hnodes]

theorem upgrade_eq (states : Nat → State) (index : Nat) :
    s.upgrade states index = s'.upgrade states index := by
  unfold Snapshot.upgrade
  simp only [children_eq hnodes, childIsQuiet_eq hnodes]

theorem propagate_eq (n : Nat) (states : Nat → State) :
    s.propagate n states = s'.propagate n states := by
  induction n generalizing states with
  | zero => rfl
  | succ n ih => rw [Snapshot.propagate, Snapshot.propagate, upgrade_eq hnodes, ih]

theorem states_eq : s.resolve.states = s'.resolve.states := by
  show s.propagate s.nodes.length s.ownStates = s'.propagate s'.nodes.length s'.ownStates
  rw [hnodes.length_eq, ownStates_eq hnodes, propagate_eq hnodes]

theorem nodeId_eq (index : Nat) : nodeId s index = nodeId s' index := by
  unfold nodeId
  rw [getElem?_map_eq hnodes fun _ _ h => (NodeDef.Alike.definition_eq h.definition).1]

theorem narrowedTo_eq (path : Option (List UInt8)) : narrowedTo s path = narrowedTo s' path := by
  have hids : s.nodes.map NodeDef.id = s'.nodes.map NodeDef.id :=
    map_eq_of_forall₂ hnodes fun _ _ h => (NodeDef.Alike.definition_eq h.definition).1
  have hfind (t : Snapshot) (id : List UInt8) :
      indexOf t id = (t.nodes.map NodeDef.id).findIdx? fun other => other = id := by
    unfold indexOf
    rw [List.findIdx?_map]
    rfl
  unfold narrowedTo
  simp only [funext (hfind s), funext (hfind s'), hids]

theorem childrenFields_eq (index : Nat) :
    childrenFields s s.resolve index = childrenFields s' s'.resolve index := by
  unfold childrenFields degradedChildren
  simp only [children_eq hnodes, childIsQuiet_eq hnodes, states_eq hnodes, nodeId_eq hnodes]

theorem nodeWhyJson_eq {node node' : NodeDef} (hnode : node.Alike node')
    (num : Binary32 → Nat → Json) (index : Nat) :
    nodeWhyJson num s s.resolve node index = nodeWhyJson num s' s'.resolve node' index := by
  obtain ⟨hcode, hchildren, hevidence, hlimit⟩ :=
    hnode.describeNodeReason_rel (s.resolve.states index)
  have hfields : reasonFields num s s.resolve index (describeNodeReason node (s.resolve.states index)) =
      reasonFields num s' s'.resolve index
        (describeNodeReason node' (s.resolve.states index)) := by
    unfold reasonFields
    rw [← hchildren, childrenFields_eq hnodes, ← hevidence]
    generalize (describeNodeReason node (s.resolve.states index)).limit = limit,
      (describeNodeReason node' (s.resolve.states index)).limit = limit' at hlimit ⊢
    cases hlimit with
    | none => rfl
    | some hw =>
      dsimp only
      rw [limitFields_eq hw]
  unfold nodeWhyJson
  rw [← states_eq hnodes]
  dsimp only
  rw [hcode, hfields]

end Alike

/-! ## The facts of an envelope -/

def elements : Json → List Json
  | .arr xs => xs
  | _ => []

def valueFacts (j : Json) : List (Option Json) := ["value", "state", "why", "level"].map j.get?

def actionFacts (j : Json) : List (Option Json) :=
  let result := j.get? "result"
  [j.get? "value", j.get? "enabled", result.bind fun r => r.get? "state",
    (result.bind fun r => r.get? "why").bind fun why => why.get? "code"]

/-- What a client reads of a node. -/
structure NodeFacts where
  state : Option Json
  why : Option Json
  values : List (List (Option Json))
  actions : List (List (Option Json))

def nodeFacts (j : Json) : NodeFacts where
  state := j.get? "state"
  why := j.get? "why"
  values := (((j.get? "values").map elements).getD []).map valueFacts
  actions := (((j.get? "actions").map elements).getD []).map actionFacts

/-- What an envelope says without the ages. -/
structure EnvelopeFacts where
  links : Option Json
  nodes : List NodeFacts

/-- The facts of a node and of those below it. -/
def treeFacts (tree : Json) : List NodeFacts :=
  Json.foldAlong "children" (fun j below => nodeFacts j :: below.flatten) tree

def envelopeFacts (j : Json) : EnvelopeFacts where
  links := j.get? "links"
  nodes := ((j.get? "tree").map treeFacts).getD []

section Facts

variable (num : Binary32 → Nat → Json)

theorem actionFacts_eq {a a' : ActionSample} (h : a.Alike a') (id : List UInt8) (d : ActionDef) :
    actionFacts (actionJson num id d a) = actionFacts (actionJson num id d a') := by
  have hmembers (b : ActionSample) : actionFacts (actionJson num id d b) =
      [some (entityStateJson num d b),
        some (.bool (b.enabled || decide (d.control = .switch) || decide (d.control = .button))),
        if b.result.state = .none then none else some (.str (actionStateName b.result.state)),
        if b.result.state = .none then none else some (.str (actionCodeName b.result.code))] := by
    unfold actionFacts actionJson actionResultJson whyJson
    split_ifs with hstate <;> simp +decide [Json.get?, object, hstate]
  have hvalue : entityStateJson num d a = entityStateJson num d a' := by
    unfold entityStateJson
    rw [h.hasValue, h.boolean, h.text, h.number]
  rw [hmembers, hmembers, hvalue, h.enabled, h.state, h.code]

theorem nodeFacts_nodeObject (s : Snapshot) (r : Resolved) (node : NodeDef) (index : Nat)
    (children : List Json) :
    nodeFacts (nodeObject num s r node index children) =
      { state := some (.str (stateName (r.states index)))
        why := some (nodeWhyJson num s r node index)
        values := (node.values.map fun v => valueJson num v node.budget).map valueFacts
        actions := (node.actions.map fun a => actionJson num node.id a.1 a.2).map actionFacts } := by
  unfold nodeFacts nodeObject roleFields
  cases node.role <;> simp +decide [Json.get?, object, elements]

theorem get?_links (s : Snapshot) (r : Resolved) (path : Option (List UInt8)) :
    (envelopeJson num s r path).get? "links" = some (.arr (s.links.map linkJson)) := by
  unfold envelopeJson narrowedFields
  cases narrowedTo s path <;> simp +decide [Json.get?, object]

variable {s s' : Snapshot} (hnodes : List.Forall₂ NodeDef.Alike s.nodes s'.nodes)

include hnodes

theorem nodeFacts_eq {node node' : NodeDef} (hnode : node.Alike node') (index : Nat)
    (children children' : List Json) :
    nodeFacts (nodeObject num s s.resolve node index children) =
      nodeFacts (nodeObject num s' s'.resolve node' index children') := by
  obtain ⟨hid, -, hbudget, -⟩ := NodeDef.Alike.definition_eq hnode.definition
  have hvalues : (node.values.map fun v => valueJson num v node.budget) =
      node'.values.map fun v => valueJson num v node'.budget := by
    rw [← hbudget]
    exact map_eq_of_forall₂ hnode.values fun _ _ hv => hv.valueJson_eq num
  have hactions : (node.actions.map fun a => actionJson num node.id a.1 a.2).map actionFacts =
      (node'.actions.map fun a => actionJson num node'.id a.1 a.2).map actionFacts := by
    rw [List.map_map, List.map_map]
    apply map_eq_of_forall₂ hnode.actions
    intro a a' ha
    rw [Function.comp_apply, Function.comp_apply, ha.1, hid, actionFacts_eq num ha.2]
  rw [nodeFacts_nodeObject, nodeFacts_nodeObject, Alike.states_eq hnodes,
    Alike.nodeWhyJson_eq hnodes hnode, hvalues, hactions]

/-- By induction on the number of nodes below. -/
theorem treeFacts_eq (fuel index : Nat) :
    treeFacts (nodeJson num s s.resolve fuel index) =
      treeFacts (nodeJson num s' s'.resolve fuel index) := by
  induction fuel generalizing index with
  | zero => rfl
  | succ fuel ih =>
    have hrel := getElem?_rel_of_forall₂ hnodes index
    rw [nodeJson, nodeJson]
    generalize s.nodes[index]? = node, s'.nodes[index]? = node' at hrel ⊢
    cases hrel with
    | none => rfl
    | some hnode =>
      dsimp only
      unfold treeFacts
      rw [foldAlong_nodeObject, foldAlong_nodeObject, nodeFacts_eq num hnodes hnode, List.map_map,
        List.map_map, Alike.children_eq hnodes]
      congr 2
      exact List.map_congr_left fun j _ => ih j

theorem envelopeFacts_eq (hlinks : s.links = s'.links) (path : Option (List UInt8)) :
    envelopeFacts (envelopeJson num s s.resolve path) =
      envelopeFacts (envelopeJson num s' s'.resolve path) := by
  unfold envelopeFacts
  rw [get?_links, get?_links, (get?_envelopeJson num s s.resolve path).2,
    (get?_envelopeJson num s' s'.resolve path).2, hlinks, Option.map_some, Option.map_some, treeJson,
    treeJson, Alike.narrowedTo_eq hnodes, ← hnodes.length_eq, treeFacts_eq num hnodes]

end Facts

/-! ## The sequence number -/

/-- Every update left `seq` where it was. -/
def SeqState.Stays (u : SeqState) (samples : List Snapshot) : Prop :=
  ∀ k, (exec SeqState.update u (samples.take k)).seq = u.seq

theorem SeqState.seq_update_eq_iff {u : SeqState} (hhave : u.haveFingerprint = true)
    (s : Snapshot) : (u.update s).seq = u.seq ↔ fingerprint s = u.lastFingerprint := by
  unfold SeqState.update
  dsimp only
  rw [hhave]
  split_ifs with hchanged hwrap
  · -- The value 0 is left out.
    refine ⟨fun h => ?_, fun h => absurd h hchanged.2⟩
    rw [← h] at hwrap
    exact absurd hwrap (by decide)
  · refine ⟨fun h => ?_, fun h => absurd h hchanged.2⟩
    have hnext : u.seq + 1 = u.seq := h
    simp at hnext
  · exact ⟨fun _ => by simpa using hchanged, fun _ => rfl⟩

theorem SeqState.fingerprint_of_stays {u : SeqState} (hhave : u.haveFingerprint = true)
    {samples : List Snapshot} (h : u.Stays samples) :
    ∀ s ∈ samples, fingerprint s = u.lastFingerprint := by
  induction samples generalizing u with
  | nil => exact fun s hs => by cases hs
  | cons t samples ih =>
    have hfirst : (u.update t).seq = u.seq := h 1
    have hsame := (seq_update_eq_iff hhave t).mp hfirst
    have hrest : (u.update t).Stays samples := fun k => (h (k + 1)).trans hfirst.symm
    intro s hs
    rcases List.mem_cons.mp hs with rfl | hs
    · exact hsame
    · exact (ih rfl hrest s hs).trans hsame

/-! ## Ages -/

def ValueSample.ageless (v : ValueSample) : ValueSample := { v with ageMs := 0 }

def ActionSample.ageless (a : ActionSample) : ActionSample :=
  { a with result := { a.result with ageMs := 0 } }

/-- A node without the ages and without the series, which is no part of the fingerprint. -/
def NodeDef.ageless (node : NodeDef) : NodeDef :=
  { node with
    values := node.values.map ValueSample.ageless
    actions := node.actions.map fun a => (a.1, a.2.ageless)
    series := none }

/-- Which values are past the budget. -/
def NodeDef.late (node : NodeDef) : List Bool :=
  node.values.map fun v => node.budget.any (· < v.ageMs)

/-- The same sample at another time, at which the same values are past their budgets. -/
structure SameButAges (s s' : Snapshot) : Prop where
  nodes : s.nodes.map NodeDef.ageless = s'.nodes.map NodeDef.ageless
  late : s.nodes.map NodeDef.late = s'.nodes.map NodeDef.late
  links : s.links = s'.links

section Ages

variable {budget : Option UInt32}

theorem valueWords_of_ageless {v v' : ValueSample} (h : v.ageless = v'.ageless)
    (hlate : budget.any (· < v.ageMs) = budget.any (· < v'.ageMs)) :
    valueWords budget v = valueWords budget v' := by
  have hother : v' = { v with ageMs := v'.ageMs } := by
    show v' = { v.ageless with ageMs := v'.ageMs }
    rw [h]
    rfl
  have hverdict : classifyValue v budget = classifyValue v' budget := by
    rw [hother]
    unfold classifyValue
    rw [hlate]
  unfold valueWords readingWords
  rw [hverdict, hother]

theorem nodeWords_of_ageless {node node' : NodeDef} (h : node.ageless = node'.ageless)
    (hlate : node.late = node'.late) : nodeWords node = nodeWords node' := by
  have hbudget : node.budget = node'.budget := by
    show node.ageless.budget = node'.ageless.budget
    rw [h]
  have habsent : nodeIsAbsent node = nodeIsAbsent node' := by
    show nodeIsAbsent node.ageless = nodeIsAbsent node'.ageless
    rw [h]
  have hfn : node.absentFn = node'.absentFn := by
    show node.ageless.absentFn = node'.ageless.absentFn
    rw [h]
  have hvalues : node.values.map (valueWords node.budget) =
      node'.values.map (valueWords node.budget) := by
    have hsame := forall₂_of_map_eq (congrArg NodeDef.values h)
    have hlates : List.Forall₂ (fun v v' : ValueSample =>
        node.budget.any (· < v.ageMs) = node.budget.any (· < v'.ageMs)) node.values node'.values := by
      unfold NodeDef.late at hlate
      rw [← hbudget] at hlate
      exact forall₂_of_map_eq hlate
    apply map_eq_of_forall₂ (List.Forall₂.mp (fun _ _ hv hl => And.intro hv hl) hsame hlates)
    exact fun v v' hv => valueWords_of_ageless hv.1 hv.2
  unfold nodeWords
  rw [← hfn, ← habsent, List.flatMap_def, List.flatMap_def, ← hbudget, hvalues]

theorem actionWords_of_ageless {node node' : NodeDef} (h : node.ageless = node'.ageless) :
    (node.actions.flatMap fun a => actionWords a.2) =
      node'.actions.flatMap fun a => actionWords a.2 := by
  have hactions := congrArg (fun n => n.actions.flatMap fun a => actionWords a.2) h
  simp only [NodeDef.ageless, List.flatMap_map] at hactions
  exact hactions

theorem fingerprintWords_of_sameButAges {s s' : Snapshot} (h : SameButAges s s') :
    fingerprintWords s = fingerprintWords s' := by
  have hboth := List.Forall₂.mp (fun _ _ hn hl => And.intro hn hl) (forall₂_of_map_eq h.nodes)
    (forall₂_of_map_eq h.late)
  unfold fingerprintWords
  rw [List.flatMap_def, List.flatMap_def, List.flatMap_def, List.flatMap_def, h.links,
    map_eq_of_forall₂ hboth fun _ _ hn => nodeWords_of_ageless hn.1 hn.2,
    map_eq_of_forall₂ hboth fun _ _ hn => actionWords_of_ageless hn.1]

end Ages

/-! ## What 204 stands for -/

theorem words_ne_of_facts_ne (num : Binary32 → Nat → Json) {s s' : Snapshot} (hs : s.Sampled)
    (hs' : s'.Sampled) (htree : SameTree s s') {path : Option (List UInt8)}
    (hfacts : envelopeFacts (envelopeJson num s s.resolve path) ≠
      envelopeFacts (envelopeJson num s' s'.resolve path)) :
    fingerprintWords s ≠ fingerprintWords s' := by
  intro hwords
  obtain ⟨hnodes, hlinks⟩ := alike_of_words hs hs' htree hwords
  exact hfacts (envelopeFacts_eq num hnodes hlinks path)

/-- Two samples of one tree that differ in what a client reads have different words, so that `seq`
stays from the one to the other only if their hashes collide; and the words depend on the ages by
the budgets only. -/
theorem fingerprint_tells (num : Binary32 → Nat → Json) {s s' : Snapshot} (hs : s.Sampled)
    (hs' : s'.Sampled) (htree : SameTree s s') :
    (∀ path, envelopeFacts (envelopeJson num s s.resolve path) ≠
        envelopeFacts (envelopeJson num s' s'.resolve path) →
      fingerprintWords s ≠ fingerprintWords s') ∧
    (∀ (u : SeqState) (between : List Snapshot), (u.update s).Stays (between ++ [s']) →
      (fingerprintWords s').foldl mix 2166136261 = (fingerprintWords s).foldl mix 2166136261) ∧
    (SameButAges s s' → fingerprintWords s = fingerprintWords s') := by
  refine ⟨fun path => words_ne_of_facts_ne num hs hs' htree, fun u between hstays => ?_,
    fingerprintWords_of_sameButAges⟩
  exact SeqState.fingerprint_of_stays rfl hstays s' (List.mem_append_right _ (List.mem_singleton.mpr rfl))

/-- A tree of one node with the mode of a charger. -/
def charger (mode : List UInt8) : Snapshot :=
  { nodes :=
      [{ id := ascii "car", kind := ascii "vehicle", label := ascii "Car"
         values :=
          [{ key := ascii "mode", label := ascii "Mode", text := some mode, isText := true
             hasValue := true, ageKnown := true }] }] }

theorem sampled_charger {mode : List UInt8} (h : ∀ c ∈ mode, c ≠ 0) : (charger mode).Sampled := by
  refine ⟨fun node hnode v hv => ?_, fun node hnode a ha => ?_, Or.inl rfl⟩
  · rw [List.mem_singleton.mp hnode] at hv
    rw [List.mem_singleton.mp hv]
    exact ⟨fun _ => rfl, fun _ _ => ⟨mode, rfl, h⟩⟩
  · rw [List.mem_singleton.mp hnode] at ha
    cases ha

theorem fingerprint_tells_mode :
    fingerprintWords (charger (ascii "on")) ≠ fingerprintWords (charger (ascii "off")) := by
  have hon : (charger (ascii "on")).Sampled := sampled_charger (by decide +kernel)
  have hoff : (charger (ascii "off")).Sampled := sampled_charger (by decide +kernel)
  refine (fingerprint_tells (numberJson 0) hon hoff rfl).1 none fun h => ?_
  have hread := congrArg (fun facts => facts.nodes.map fun node =>
    node.values.map fun value => value.map fun part => part.map Json.render) h
  revert hread
  decide

end EspCars.Portal
