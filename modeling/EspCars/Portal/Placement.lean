import EspCars.Portal.Checks
import EspCars.Portal.Hierarchy

/-!
# Identity and provenance, as emitted and as checked

The emitter leaves the provenance of a node out where a walk over the parent indices from an owned
node meets it, the validator expects that from the nesting of the tree and the ids that `served_by`
says are owned. The two agree but on a node between two owned ones, and on the name of a board
whose identity is not complete.
-/

namespace EspCars.Portal

open EspCars.Lib EspCars.Portal.Schema

/-- What the validator says of `served_by` and of where provenance stands. -/
def identityViolations (envelope : Json) : List Violation :=
  let servedBy := Schema.get envelope "served_by"
  validateServedBy servedBy "served_by" ++
    (validateProvenancePlacement (servedByOwns servedBy) (Schema.get servedBy "board")
      (Schema.get envelope "tree") "tree").1

/-! ## `served_by` -/

theorem get?_servedByJson (s : Snapshot) :
    (servedByJson s).get? "board" = some (textOrNull (s.identity.named s.identity.board)) ∧
    (servedByJson s).get? "node_id" = some (textOrNull (s.identity.named s.identity.nodeId)) ∧
    (servedByJson s).get? "mac" = some (textOrNull (s.identity.named s.identity.mac)) ∧
    (servedByJson s).get? "state" =
      some (.str (if s.identity.complete then ascii "ok" else ascii "unknown")) ∧
    (servedByJson s).get? "why" =
      some (if s.identity.complete then .null else whyJson (ascii "no_identity") none) ∧
    (servedByJson s).get? "uptime_ms" = some (u32Json s.uptimeMs) ∧
    (servedByJson s).get? "build" = some (.str (s.identity.build.getD (ascii "unknown"))) ∧
    (servedByJson s).get? "owns" =
      some (.arr ((if s.identity.complete then s.identity.owns else []).map Json.str)) ∧
    (servedByJson s).get? "components" = some (.arr (s.identity.components.map Json.str)) := by
  unfold servedByJson
  simp +decide [Json.get?, object]

theorem servedByOwns_servedByJson (s : Snapshot) :
    servedByOwns (servedByJson s) = if s.identity.complete then s.identity.owns else [] :=  by
  obtain ⟨-, -, -, -, -, -, -, howns, -⟩ := get?_servedByJson s
  rw [servedByOwns, Schema.get, howns, Option.getD_some, strings?_map]
  rfl

theorem named_complete {id : Identity} (h : id.complete = true) :
    (id.named id.board).isNone = false ∧ (id.named id.nodeId).isNone = false ∧
      (id.named id.mac).isNone = false := by
  have hparts := h
  rw [Identity.complete, Bool.and_eq_true, Bool.and_eq_true] at hparts
  obtain ⟨⟨hboard, hnode⟩, hmac⟩ := hparts
  unfold Identity.named
  rw [if_pos h, if_pos h, if_pos h, ← Option.not_isSome, ← Option.not_isSome, ← Option.not_isSome,
    hboard, hnode, hmac]
  exact ⟨rfl, rfl, rfl⟩

theorem named_incomplete {id : Identity} (h : id.complete = false) (part : Option (List UInt8)) :
    id.named part = none := by
  unfold Identity.named
  rw [h]
  rfl

/-- `served_by` passes where an identity that is complete owns something. -/
theorem validateServedBy_servedByJson (s : Snapshot) (path : String) :
    validateServedBy (servedByJson s) path = [] ↔
      (s.identity.complete = true → s.identity.owns ≠ []) := by
  obtain ⟨hboard, hnode, hmac, hstate, hwhy, huptime, hbuild, howns, hcomponents⟩ :=
    get?_servedByJson s
  have hmissing : missingKeys (servedByJson s) servedByKeys path = [] :=
    missingKeys_object (by simp [servedByKeys])
  have hunknown : unknownKeys (servedByJson s) servedByKeys path = [] :=
    unknownKeys_object (by simp [servedByKeys])
  have hdict : isDict (servedByJson s) = true := rfl
  unfold validateServedBy
  rw [hdict, hmissing, hunknown]
  simp only [Bool.not_true, Bool.false_eq_true, ↓reduceIte, List.nil_append, List.flatMap_cons,
    List.flatMap_nil, List.append_nil, List.map_cons, List.map_nil, List.all_cons, List.all_nil,
    Schema.get, onKey, hboard, hnode, hmac, hstate, hwhy, huptime, hbuild, howns, hcomponents,
    Option.getD_some, List.append_eq_nil_iff, check_eq_nil, isStrOrNull_textOrNull,
    isNonnegIntOrNull_u32Json, isListOfStr_map, strings?_map, isNull_textOrNull]
  have hbuildOk : isStrOrNull (.str (s.identity.build.getD (ascii "unknown"))) = true := rfl
  cases hcomplete : s.identity.complete with
  | true =>
    obtain ⟨h1, h2, h3⟩ := named_complete hcomplete
    have hok : isWord ["ok"] (.str (ascii "ok")) = true := by decide
    have hwhyOk : checkWhy true .null (path ++ ".why") = [] :=
      (checkWhy_ite true [] none [] (path ++ ".why")).mpr fun hbad => by cases hbad
    simp +decide [h1, h2, h3, hok, hwhyOk, hbuildOk]
  | false =>
    have hnotOk : isWord ["ok"] (.str (ascii "unknown")) = false := by decide
    have hwhyOk : checkWhy false (whyJson (ascii "no_identity") none) (path ++ ".why") = [] :=
      (checkWhy_ite false (ascii "no_identity") none [] (path ++ ".why")).mpr
        fun _ => ⟨by decide, by decide⟩
    simp +decide [named_incomplete hcomplete, hnotOk, hwhyOk, hbuildOk]

/-! ## Where provenance stands -/

/-- The id is that of an owned node or goes on behind one. -/
def InsideOwned (owns : List (List UInt8)) (s : Snapshot) (index : Nat) : Prop :=
  isInside owns (.str (nodeId s index)) = true

theorem foldAlong_nodeObject {β : Type} (f : Json → List β → β) (num : Binary32 → Nat → Json)
    (s : Snapshot) (r : Resolved) (node : NodeDef) (index : Nat) (children : List Json) :
    Json.foldAlong "children" f (nodeObject num s r node index children) =
      f (nodeObject num s r node index children)
        (children.map (Json.foldAlong "children" f)) := by
  rw [← Json.foldElements_eq]
  unfold nodeObject roleFields
  cases node.role with
  | none => simp +decide [object, Json.foldAlong, Json.foldMembers]
  | some role => simp +decide [object, Json.foldAlong, Json.foldMembers]

/-- What the validator asks of the provenance of one node. -/
structure PlacedWell (owns : List (List UInt8)) (boardNamed : Bool) (s : Snapshot) (index : Nat) :
    Prop where
  inside : InsideOwned owns s index → isSkeletonNode s index = false
  outside : ¬InsideOwned owns s index → (isSkeletonNode s index = true ↔
    ∃ e, Above s.parentOf index e ∧ InsideOwned owns s e)
  board : isSkeletonNode s index = false → boardNamed = false → s.identity.board = none

theorem get?_nodeObject (num : Binary32 → Nat → Json) (s : Snapshot) (r : Resolved) (node : NodeDef)
    (index : Nat) (children : List Json) :
    (nodeObject num s r node index children).get? "id" = some (.str node.id) ∧
    (nodeObject num s r node index children).get? "provenance" =
      some (provenanceJson s r node index) := by
  unfold nodeObject roleFields
  cases node.role <;> simp +decide [Json.get?, object]

theorem isNull_provenanceJson (s : Snapshot) (r : Resolved) (node : NodeDef) (index : Nat) :
    isNull (provenanceJson s r node index) = isSkeletonNode s index := by
  unfold provenanceJson
  cases isSkeletonNode s index <;> rfl

variable {s : Snapshot} {index : Nat}

theorem get?_provenanceJson (r : Resolved) (node : NodeDef) (h : isSkeletonNode s index = false) :
    (provenanceJson s r node index).get? "origin" = some (.str (ascii "local")) ∧
    (provenanceJson s r node index).get? "board" = some (textOrNull s.identity.board) ∧
    (provenanceJson s r node index).get? "node_id" = some (textOrNull s.identity.nodeId) ∧
    (provenanceJson s r node index).get? "age_ms" = some (u32OrNullJson (r.ages index)) ∧
    (provenanceJson s r node index).get? "budget_ms" = some (u32OrNullJson node.budget) ∧
    (provenanceJson s r node index).get? "trust" =
      some (.str (if trustConfirmed node then ascii "confirmed" else ascii "assumed")) ∧
    (provenanceJson s r node index).get? "seq" = some (u32Json s.seq) := by
  unfold provenanceJson
  rw [h]
  simp +decide [Json.get?, object]

/-- The results of the children, each at its own path. -/
theorem results_children {α : Type} {l : List α} {g : α → String → List Violation × Bool}
    {p q : α → Prop}
    (h : ∀ x ∈ l, ∀ path, ((g x path).1 = [] ↔ p x) ∧ ((g x path).2 = true ↔ q x))
    (childPath : Nat → String) :
    (((l.map g).mapIdx fun i child => child (childPath i)).flatMap Prod.fst = [] ↔ ∀ x ∈ l, p x) ∧
      (((l.map g).mapIdx fun i child => child (childPath i)).any Prod.snd = true ↔ ∃ x ∈ l, q x) := by
  induction l generalizing childPath with
  | nil => simp
  | cons x xs ih =>
    obtain ⟨hviolations, hany⟩ := ih (fun y hy => h y (List.mem_cons_of_mem _ hy)) fun i => childPath (i + 1)
    obtain ⟨hx, hx'⟩ := h x List.mem_cons_self (childPath 0)
    rw [List.map_cons, List.mapIdx_cons, List.flatMap_cons, List.any_cons, List.append_eq_nil_iff,
      hviolations, hx, Bool.or_eq_true, hany, hx']
    simp only [List.mem_cons, forall_eq_or_imp, exists_eq_or_imp, and_self]

/-- The three classes: inside, above what is inside, and neither. -/
theorem classRule (inside below null : Bool) (path a b c : String) :
    (if inside then check (!null) path a
      else if below then check null path b
      else check (!null) path c) = [] ↔
      (inside = true → null = false) ∧ (¬inside = true → (null = true ↔ below = true)) := by
  cases inside <;> cases below <;> cases null <;> simp

/-- A local provenance names no board that `served_by` does not. -/
theorem boardRule (s : Snapshot) (r : Resolved) (node : NodeDef) (index : Nat)
    (servedByBoard : Json) (path code : String) :
    (if isWord ["local"] (Schema.get (provenanceJson s r node index) "origin") then
      check (!isNull servedByBoard || isNull (Schema.get (provenanceJson s r node index) "board"))
        path code
    else []) = [] ↔
      (isSkeletonNode s index = false → (!isNull servedByBoard) = false →
        s.identity.board = none) := by
  cases h : isSkeletonNode s index with
  | true =>
    have hnull : provenanceJson s r node index = .null := if_pos h
    have horigin : isWord ["local"] (Schema.get Json.null "origin") = false := rfl
    rw [hnull, horigin]
    simp
  | false =>
    obtain ⟨horigin, hboard, -⟩ := get?_provenanceJson r node h
    have hlocal : isWord ["local"] (.str (ascii "local")) = true := by decide
    rw [Schema.get, Schema.get, horigin, hboard, Option.getD_some, Option.getD_some, hlocal,
      if_pos rfl, check_eq_nil, isNull_textOrNull, Bool.or_eq_true, Option.isNone_iff_eq_none]
    cases isNull servedByBoard <;> simp

/-- The verdict on one node, from those on its children. -/
theorem placeNode_nodeObject {owns : List (List UInt8)} {node : NodeDef}
    (hget : s.nodes[index]? = some node) (servedByBoard : Json)
    (num : Binary32 → Nat → Json) (r : Resolved) (children : List Json)
    {results : List (String → List Violation × Bool)} {path : String} {fine found : Prop}
    (hfine : (results.mapIdx fun i child =>
      child (path ++ ".children[" ++ toString i ++ "]")).flatMap Prod.fst = [] ↔ fine)
    (hfound : (results.mapIdx fun i child =>
      child (path ++ ".children[" ++ toString i ++ "]")).any Prod.snd = true ↔ found)
    (habove : found ↔ ∃ e, Above s.parentOf index e ∧ InsideOwned owns s e) :
    ((placeNode owns servedByBoard (nodeObject num s r node index children) results path).1 = [] ↔
      fine ∧ PlacedWell owns (!isNull servedByBoard) s index) ∧
    ((placeNode owns servedByBoard (nodeObject num s r node index children) results path).2 = true ↔
      InsideOwned owns s index ∨ found) := by
  obtain ⟨hid, hprovenance⟩ := get?_nodeObject num s r node index children
  have hdict : isDict (nodeObject num s r node index children) = true := rfl
  have hinside : InsideOwned owns s index ↔ isInside owns (.str node.id) = true := by
    rw [InsideOwned, nodeId_eq hget]
  have hwell : PlacedWell owns (!isNull servedByBoard) s index ↔
      (isInside owns (.str node.id) = true → isSkeletonNode s index = false) ∧
      (¬isInside owns (.str node.id) = true → (isSkeletonNode s index = true ↔ found)) ∧
      (isSkeletonNode s index = false → (!isNull servedByBoard) = false →
        s.identity.board = none) := by
    rw [habove, ← hinside]
    exact ⟨fun h => ⟨h.inside, h.outside, h.board⟩, fun h => ⟨h.1, h.2.1, h.2.2⟩⟩
  unfold placeNode
  dsimp only
  rw [hdict, Schema.get, Schema.get, hid, hprovenance, Option.getD_some, Option.getD_some]
  simp only [Bool.not_true, Bool.false_eq_true, ↓reduceIte]
  constructor
  · rw [List.append_eq_nil_iff, List.append_eq_nil_iff, hfine, classRule, boardRule,
      isNull_provenanceJson, hfound, hwell, and_assoc, and_assoc]
  · rw [Bool.or_eq_true, hfound, hinside]

section Placement

variable (owns : List (List UInt8)) {s : Snapshot} (ht : TreeTable s.nodes)

include ht

/-- The verdict on a subtree; the induction is on the depth that is left below the node. -/
theorem placement_nodeJson (servedByBoard : Json) (num : Binary32 → Nat → Json) (r : Resolved)
    {fuel index : Nat} (hfuel : s.nodes.length ≤ index + fuel) (hindex : index < s.nodes.length)
    (path : String) :
    ((validateProvenancePlacement owns servedByBoard (nodeJson num s r fuel index) path).1 = [] ↔
      ∀ d, AtOrAbove s.parentOf index d → PlacedWell owns (!isNull servedByBoard) s d) ∧
    ((validateProvenancePlacement owns servedByBoard (nodeJson num s r fuel index) path).2 = true ↔
      ∃ e, AtOrAbove s.parentOf index e ∧ InsideOwned owns s e) := by
  induction fuel generalizing index path with
  | zero => omega
  | succ fuel ih =>
    have hget : s.nodes[index]? = some s.nodes[index] := List.getElem?_eq_getElem hindex
    have hchildren : ∀ c, c ∈ s.children index ↔ s.parentOf c = some index := by
      intro c
      rw [mem_children]
      constructor
      · exact fun h => h.2.2
      · exact fun h => ⟨lt_length_of_parentOf h, parentOf_lt ht c index h, h⟩
    obtain ⟨hfine, hfound⟩ := results_children (l := s.children index)
      (g := fun c => validateProvenancePlacement owns servedByBoard (nodeJson num s r fuel c))
      (p := fun c => ∀ d, AtOrAbove s.parentOf c d →
        PlacedWell owns (!isNull servedByBoard) s d)
      (q := fun c => ∃ e, AtOrAbove s.parentOf c e ∧ InsideOwned owns s e)
      (fun c hc p => ih (by have := (mem_children.mp hc).2.1; omega) (mem_children.mp hc).1 p)
      fun i => path ++ ".children[" ++ toString i ++ "]"
    have hnode := placeNode_nodeObject hget servedByBoard num r
      ((s.children index).map (nodeJson num s r fuel)) hfine hfound (by
        constructor
        · rintro ⟨c, hc, e, he, hinside⟩
          exact ⟨e, above_iff_child.mpr ⟨c, (hchildren c).mp hc, he⟩, hinside⟩
        · rintro ⟨e, he, hinside⟩
          obtain ⟨c, hc, hce⟩ := above_iff_child.mp he
          exact ⟨c, (hchildren c).mpr hc, e, hce, hinside⟩)
    have hfold : validateProvenancePlacement owns servedByBoard (nodeJson num s r (fuel + 1) index) =
        placeNode owns servedByBoard (nodeObject num s r s.nodes[index] index
          ((s.children index).map (nodeJson num s r fuel)))
          ((s.children index).map fun c =>
            validateProvenancePlacement owns servedByBoard (nodeJson num s r fuel c)) := by
      unfold validateProvenancePlacement
      rw [nodeJson, hget]
      dsimp only
      rw [foldAlong_nodeObject, List.map_map]
      rfl
    rw [hfold]
    refine ⟨hnode.1.trans ?_, hnode.2.trans ?_⟩
    · constructor
      · rintro ⟨hbelow, hself⟩ d hd
        rcases atOrAbove_iff_child.mp hd with rfl | ⟨c, hc, hcd⟩
        · exact hself
        · exact hbelow c ((hchildren c).mpr hc) d hcd
      · intro h
        refine ⟨?_, h index (AtOrAbove.refl index)⟩
        intro c hc d hd
        exact h d (atOrAbove_iff_child.mpr (.inr ⟨c, (hchildren c).mp hc, hd⟩))
    · constructor
      · rintro (hself | ⟨c, hc, e, he, hinside⟩)
        · exact ⟨index, AtOrAbove.refl index, hself⟩
        · exact ⟨e, atOrAbove_iff_child.mpr (.inr ⟨c, (hchildren c).mp hc, he⟩), hinside⟩
      · rintro ⟨e, he, hinside⟩
        rcases atOrAbove_iff_child.mp he with rfl | ⟨c, hc, hce⟩
        · exact .inl hinside
        · exact .inr ⟨c, (hchildren c).mpr hc, e, hce, hinside⟩

end Placement

/-! ## The two notions of ownership -/

/-- A strict ancestor of an owned node, as the emitter finds it. -/
def AboveOwned (s : Snapshot) (index : Nat) : Prop :=
  ∃ owned ∈ s.identity.owns, ∃ e, indexOf s owned = some e ∧ Above s.parentOf index e

theorem insideOwned_iff {owns : List (List UInt8)} : InsideOwned owns s index ↔
      ∃ owned ∈ owns, owned = nodeId s index ∨ owned ++ [0x2E] <+: nodeId s index := by
  have hdot : ascii "." = [0x2E] := by decide
  unfold InsideOwned isInside isBelow
  simp only [List.any_eq_true, Bool.or_eq_true, decide_eq_true_eq, List.isPrefixOf_iff_prefix, hdot]

theorem indexOf_eq_some {id : List UInt8} {e : Nat} (h : indexOf s id = some e) :
    e < s.nodes.length ∧ nodeId s e = id := by
  have hlt := indexOf_lt h
  refine ⟨hlt, ?_⟩
  obtain ⟨hlt', hid, -⟩ := List.findIdx?_eq_some_iff_getElem.mp h
  rw [nodeId_eq (List.getElem?_eq_getElem hlt)]
  exact of_decide_eq_true hid

theorem exists_indexOf {k : Nat} (hk : k < s.nodes.length) :
    ∃ e, indexOf s (nodeId s k) = some e := by
  rw [← Option.isSome_iff_exists, indexOf, List.findIdx?_isSome, List.any_eq_true]
  refine ⟨s.nodes[k], List.getElem_mem hk, ?_⟩
  rw [nodeId_eq (List.getElem?_eq_getElem hk)]
  exact decide_eq_true rfl

section Owned

variable {s : Snapshot} (ht : TreeTable s.nodes)

include ht

theorem isSkeletonNode_iff {index : Nat} : isSkeletonNode s index = true ↔ AboveOwned s index := by
  unfold isSkeletonNode AboveOwned
  simp only [List.any_eq_true, Option.any_eq_true, List.contains_iff_mem, mem_ancestors ht]

/-- A node that is not inside what is owned is above something owned by the one notion if it is
by the other. -/
theorem aboveOwned_iff {d : Nat} (hout : ¬InsideOwned s.identity.owns s d) :
    AboveOwned s d ↔ ∃ e, Above s.parentOf d e ∧ InsideOwned s.identity.owns s e := by
  constructor
  · rintro ⟨owned, howned, e, he, habove⟩
    exact ⟨e, habove, insideOwned_iff.mpr ⟨owned, howned, .inl (indexOf_eq_some he).2.symm⟩⟩
  · rintro ⟨e, habove, hinside⟩
    obtain ⟨owned, howned, hid⟩ := insideOwned_iff.mp hinside
    have hpos : 0 < e := Nat.lt_of_le_of_lt (Nat.zero_le d) (habove.lt (parentOf_lt ht))
    obtain ⟨p, hp, -⟩ := above_iff.mp habove
    have helt := lt_length_of_parentOf hp
    have hnode : ∃ k, 0 < k ∧ k < s.nodes.length ∧ AtOrAbove s.parentOf k e ∧
        nodeId s k = owned := by
      rcases hid with hid | hid
      · exact ⟨e, hpos, helt, AtOrAbove.refl e, hid.symm⟩
      · obtain ⟨k, hk, hke, hkid⟩ := (dot_prefix_nodeId ht helt).mp hid
        exact ⟨k, hk, Nat.lt_trans (hke.lt (parentOf_lt ht)) helt, hke.atOrAbove, hkid⟩
    obtain ⟨k, hk, hklt, hke, hkid⟩ := hnode
    have hdk : Above s.parentOf d k := by
      -- the two are in a line, and the node is not at or below the owned one
      rcases AtOrAbove.linear habove.atOrAbove hke with hkd | hdk
      · exfalso
        apply hout
        rw [insideOwned_iff]
        refine ⟨owned, howned, ?_⟩
        rcases atOrAbove_iff.mp hkd with rfl | hkd
        · exact .inl hkid.symm
        · obtain ⟨q, hq, -⟩ := above_iff.mp hkd
          exact .inr ((dot_prefix_nodeId ht (lt_length_of_parentOf hq)).mpr ⟨k, hk, hkd, hkid⟩)
      · rcases atOrAbove_iff.mp hdk with rfl | hdk
        · exact absurd (insideOwned_iff.mpr ⟨owned, howned, .inl hkid.symm⟩) hout
        · exact hdk
    obtain ⟨first, hfirst⟩ := exists_indexOf hklt
    rw [hkid] at hfirst
    obtain ⟨hfirstlt, hfirstid⟩ := indexOf_eq_some hfirst
    suffices hsame : first = k from ⟨owned, howned, first, hfirst, hsame ▸ hdk⟩
    rcases Nat.eq_zero_or_pos first with rfl | hfirstpos
    · -- a node on top has the id of the root, so the root is above it and inside
      obtain ⟨root, hget, hrootid, -⟩ := ht.root
      have hcar : owned = ascii "car" := by rw [← hfirstid, nodeId_eq hget, hrootid]
      have hparent := parentOf_of_id_car ht hk hklt (hkid.trans hcar)
      obtain ⟨q, hq, hdq⟩ := above_iff.mp hdk
      rw [hparent] at hq
      rw [← Option.some.inj hq] at hdq
      have hzero : d = 0 := Nat.le_zero.mp (AtOrAbove.le (parentOf_lt ht) hdq)
      rw [hzero] at hout
      exact absurd (insideOwned_iff.mpr ⟨owned, howned, .inl hfirstid.symm⟩) hout
    · exact nodeId_inj ht hfirstpos hk hfirstlt hklt (hfirstid.trans hkid.symm)

/-- Where the identity is complete, provenance stands well but for a node between two owned ones. -/
theorem placedWell_complete {d : Nat} :
    PlacedWell s.identity.owns true s d ↔ ¬(InsideOwned s.identity.owns s d ∧ AboveOwned s d) := by
  rw [← isSkeletonNode_iff ht]
  constructor
  · rintro h ⟨hinside, hskeleton⟩
    rw [h.inside hinside] at hskeleton
    cases hskeleton
  · intro h
    refine ⟨?_, ?_, nofun⟩
    · intro hinside
      exact Bool.eq_false_iff.mpr fun hskeleton => h ⟨hinside, hskeleton⟩
    · intro hout
      rw [isSkeletonNode_iff ht]
      exact aboveOwned_iff ht hout

/-- Where it is not, provenance stands well if no board is named and nothing is left out. -/
theorem placedWell_incomplete {d : Nat} :
    PlacedWell [] false s d ↔ s.identity.board = none ∧ ¬AboveOwned s d := by
  have hout : ∀ e, ¬InsideOwned [] s e := fun e h => nomatch h
  rw [← isSkeletonNode_iff ht]
  constructor
  · intro h
    have hskeleton : ¬isSkeletonNode s d = true := by
      intro hd
      obtain ⟨e, -, he⟩ := (h.outside (hout d)).mp hd
      exact hout e he
    exact ⟨h.board (Bool.eq_false_iff.mpr hskeleton) rfl, hskeleton⟩
  · rintro ⟨hboard, hskeleton⟩
    refine ⟨fun h => absurd h (hout d), fun _ => ⟨fun h => absurd h hskeleton, ?_⟩,
      fun _ _ => hboard⟩
    rintro ⟨e, -, he⟩
    exact absurd he (hout e)

end Owned

/-! ## The envelope -/

theorem get?_envelopeJson (num : Binary32 → Nat → Json) (s : Snapshot) (r : Resolved)
    (path : Option (List UInt8)) :
    (envelopeJson num s r path).get? "served_by" = some (servedByJson s) ∧
      (envelopeJson num s r path).get? "tree" = some (treeJson num s r path) := by
  unfold envelopeJson narrowedFields
  cases narrowedTo s path <;> simp +decide [Json.get?, object]

/-- The nodes that are served. -/
def Served (s : Snapshot) (path : Option (List UInt8)) (index : Nat) : Prop :=
  AtOrAbove s.parentOf ((narrowedTo s path).getD 0) index

/-- What the validator says of the identity and of the provenance that are emitted. -/
theorem identityViolations_envelopeJson (ht : TreeTable s.nodes)
    (howns : s.identity.complete = true → s.identity.owns ≠ []) (num : Binary32 → Nat → Json)
    (r : Resolved) (path : Option (List UInt8)) :
    identityViolations (envelopeJson num s r path) = [] ↔
      if s.identity.complete then
        ∀ d, Served s path d → ¬(InsideOwned s.identity.owns s d ∧ AboveOwned s d)
      else s.identity.board = none ∧ ∀ d, Served s path d → ¬AboveOwned s d := by
  obtain ⟨hservedBy, htree⟩ := get?_envelopeJson num s r path
  obtain ⟨hboard, -⟩ := get?_servedByJson s
  have hne : s.nodes ≠ [] := by
    obtain ⟨root, hget, -⟩ := ht.root
    intro h
    rw [h] at hget
    cases hget
  have hplacement := fun owns board => (placement_nodeJson owns ht board num r
    (Nat.le_add_left s.nodes.length _) (narrowedTo_lt hne path) "tree").1
  unfold identityViolations
  simp only [Schema.get, hservedBy, htree, hboard, Option.getD_some, servedByOwns_servedByJson,
    List.append_eq_nil_iff, (validateServedBy_servedByJson s "served_by").mpr howns, true_and]
  rw [treeJson, hplacement, isNull_textOrNull]
  cases hcomplete : s.identity.complete with
  | true =>
    rw [(named_complete hcomplete).1]
    exact forall₂_congr fun d _ => placedWell_complete ht
  | false =>
    rw [named_incomplete hcomplete]
    constructor
    · intro h
      have hwell := fun d hd => (placedWell_incomplete ht).mp (h d hd)
      exact ⟨(hwell _ (AtOrAbove.refl _)).1, fun d hd => (hwell d hd).2⟩
    · rintro ⟨hnone, h⟩ d hd
      exact (placedWell_incomplete ht).mpr ⟨hnone, h d hd⟩

theorem PortalConf.owns_ne_nil {c : PortalConf} (h : c.accepted = true) :
    c.identityComplete = true → c.owns ≠ [] := by
  unfold accepted ownsAccepted at h
  simp only [Bool.and_eq_true, Bool.or_eq_true, Bool.not_eq_true', and_assoc] at h
  obtain ⟨-, -, -, -, -, -, -, howns⟩ := h
  rintro hcomplete hnil
  rw [hcomplete, hnil] at howns
  rcases howns with h | h <;> cases h

/-- For every accepted configuration, sample and narrowing: the identity and the provenance of the
envelope pass just where no served node between two owned ones is left without provenance, and
without an identity where no board is named. -/
theorem identity_of_accepted_passes_iff (c : PortalConf) (hc : c.accepted = true)
    (seq uptimeMs : UInt32) (links : List LinkDef) (castNan : UInt64) (path : Option (List UInt8)) :
    identityViolations (envelopeJson (numberJson castNan) (c.snapshot seq uptimeMs links)
        (c.snapshot seq uptimeMs links).resolve path) = [] ↔
      if c.identityComplete then
        ∀ d, Served (c.snapshot seq uptimeMs links) path d →
          ¬(InsideOwned c.owns (c.snapshot seq uptimeMs links) d ∧
            AboveOwned (c.snapshot seq uptimeMs links) d)
      else c.board = none ∧ ∀ d, Served (c.snapshot seq uptimeMs links) path d →
        ¬AboveOwned (c.snapshot seq uptimeMs links) d := by
  have ht : TreeTable (c.snapshot seq uptimeMs links).nodes := c.treeTable hc
  exact identityViolations_envelopeJson ht (PortalConf.owns_ne_nil hc) (numberJson castNan) _ path

/-- A pack and its cells, both owned. -/
def nestedOwns : PortalConf where
  board := some (ascii "board")
  nodeId := some (ascii "node")
  mac := some (ascii "aabbccddeeff")
  owns := [ascii "pack", ascii "pack.cells"]
  rootLabel := ascii "Car"
  tree := [.node { segment := ascii "pack", kind := ascii "pack", label := ascii "Pack" }
    [.node { segment := ascii "cells", kind := ascii "group", label := ascii "Cells" } []]]

theorem nestedOwns_accepted : nestedOwns.accepted = true := by
  decide +kernel

/-- Narrowed to the cells, nothing is between two owned nodes. -/
theorem nestedOwns_cells : nestedOwns.accepted = true ∧
    ∀ d, Served (nestedOwns.snapshot 1 0 []) (some (ascii "pack.cells")) d →
      ¬(InsideOwned nestedOwns.owns (nestedOwns.snapshot 1 0 []) d ∧
        AboveOwned (nestedOwns.snapshot 1 0 []) d) := by
  have h := identity_of_accepted_passes_iff nestedOwns nestedOwns_accepted 1 0 [] 0
    (some (ascii "pack.cells"))
  rw [if_pos (by decide)] at h
  exact ⟨nestedOwns_accepted, h.mp (by decide +kernel)⟩

/-- The pack is owned, but it is above what is owned as well: its provenance is null. -/
theorem nestedOwns_violates : nestedOwns.accepted = true ∧
    (Json.loads (writeEnvelope 0 (nestedOwns.snapshot 1 0 [])
      (nestedOwns.snapshot 1 0 []).resolve none)).map identityViolations =
        some [⟨"tree.children[0]", "provenance_null_inside_mount"⟩] := by
  refine ⟨nestedOwns_accepted, ?_⟩
  have hbare : ∀ node ∈ nestedOwns.nodes, node.absentEvidence = none ∧ node.actions = [] := by
    decide +kernel
  have hplain : ∀ node ∈ nestedOwns.nodes, node.Plain := by
    intro node hnode
    constructor
    · intro fragment hfragment
      rw [(hbare node hnode).1] at hfragment
      cases hfragment
    · intro a ha
      rw [(hbare node hnode).2] at ha
      cases ha
  rw [loads_writeEnvelope 0 hplain (by decide +kernel)]
  decide +kernel

end EspCars.Portal
