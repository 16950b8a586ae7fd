import EspCars.Lib.ParentTable
import EspCars.Portal.Config
import EspCars.Portal.Emit

/-!
# The table of a tree

What the tables that `to_code` makes have in common, `TreeTable`: a parent stands before its
children, an id is that of the parent with one segment more, and siblings differ. From it: an id
is that of one node at most (the root apart, whose id `car` may be a segment on top as well), and
the ids that begin with the id of a node are those of the nodes below it.
-/

namespace EspCars.Portal

open EspCars.Lib

/-! ## What `to_code` makes -/

/-- The table of a tree: the root, and every child behind its parent. -/
structure TreeTable (nodes : List NodeDef) : Prop where
  root : ∃ node, nodes[0]? = some node ∧ node.id = ascii "car" ∧ node.parent = none
  child : ∀ (j : Nat) (node : NodeDef), nodes[j]? = some node → 0 < j →
    ∃ (p : Nat) (above : NodeDef) (segment : List UInt8),
      node.parent = some p ∧ p < j ∧ nodes[p]? = some above ∧ isIdent segment = true ∧
        node.id = childId p above.id segment
  siblings : ∀ (j k : Nat) (node node' : NodeDef), nodes[j]? = some node →
    nodes[k]? = some node' → node.parent = node'.parent → node.id = node'.id → j = k

/-- A part of a table, from the index `next` on, that hangs below a node that stands before it. -/
structure Hangs (segments : List (List UInt8)) (parentIndex next : Nat) (parentId : List UInt8)
    (part : List NodeDef) : Prop where
  entry : ∀ (i : Nat) (node : NodeDef), part[i]? = some node →
    (node.parent = some parentIndex ∧ ∃ segment ∈ segments,
      isIdent segment = true ∧ node.id = childId parentIndex parentId segment) ∨
    ∃ (j : Nat) (above : NodeDef) (segment : List UInt8), j < i ∧
      node.parent = some (next + j) ∧ part[j]? = some above ∧ isIdent segment = true ∧
        node.id = childId (next + j) above.id segment
  distinct : ∀ (i k : Nat) (node node' : NodeDef), part[i]? = some node →
    part[k]? = some node' → node.parent = node'.parent → node.id = node'.id → i = k

theorem childId_zero (id segment : List UInt8) : childId 0 id segment = segment := rfl

theorem childId_pos {p : Nat} (h : 0 < p) (id segment : List UInt8) :
    childId p id segment = id ++ 0x2E :: segment := by
  rw [childId, if_neg (Nat.ne_of_gt h), List.append_assoc]
  rfl

theorem childId_inj {p : Nat} {id a b : List UInt8} (h : childId p id a = childId p id b) :
    a = b := by
  unfold childId at h
  split at h
  · exact h
  · exact List.append_cancel_left h

theorem hangs_nil (parentIndex next : Nat) (parentId : List UInt8) :
    Hangs [] parentIndex next parentId [] := by
  constructor
  · intro i node h
    rw [List.getElem?_nil] at h
    cases h
  · intro i k node node' h
    rw [List.getElem?_nil] at h
    cases h

/-- Where an entry of a subtree and of the ones behind it stands. -/
theorem getElem?_block {first : NodeDef} {below after : List NodeDef} {i : Nat} {node : NodeDef}
    (h : (first :: (below ++ after))[i]? = some node) :
    (i = 0 ∧ node = first) ∨ (∃ j, i = j + 1 ∧ j < below.length ∧ below[j]? = some node) ∨
      ∃ j, i = 1 + below.length + j ∧ after[j]? = some node := by
  cases i with
  | zero => exact .inl ⟨rfl, (Option.some.inj h).symm⟩
  | succ i =>
    rw [List.getElem?_cons_succ] at h
    by_cases hi : i < below.length
    · rw [List.getElem?_append_left hi] at h
      exact .inr (.inl ⟨i, rfl, hi, h⟩)
    · rw [List.getElem?_append_right (Nat.le_of_not_lt hi)] at h
      exact .inr (.inr ⟨i - below.length, by omega, h⟩)

section Block

variable {segments below_segments : List (List UInt8)} {segment parentId : List UInt8}
  {parentIndex next : Nat} {first : NodeDef} {below after : List NodeDef}
  (hlt : parentIndex < next) (hsegment : isIdent segment = true)
  (hparent : first.parent = some parentIndex)
  (hid : first.id = childId parentIndex parentId segment)
  (hbelow : Hangs below_segments next (next + 1) first.id below)
  (hafter : Hangs segments parentIndex (next + 1 + below.length) parentId after)

include hbelow in
/-- The parents of what is below a node are that node and what is below it. -/
theorem Hangs.parent_range {i : Nat} {node : NodeDef} (h : below[i]? = some node)
    (hi : i < below.length) :
    ∃ p, node.parent = some p ∧ next ≤ p ∧ p < next + 1 + below.length := by
  rcases hbelow.entry i node h with ⟨hp, -⟩ | ⟨j, above, seg, hj, hp, -⟩
  · exact ⟨next, hp, Nat.le_refl _, by omega⟩
  · exact ⟨next + 1 + j, hp, by omega, by omega⟩

include hlt hsegment hparent hid hbelow hafter in
theorem hangs_cons (hne : segment ∉ segments) :
    Hangs (segment :: segments) parentIndex next parentId (first :: (below ++ after)) := by
  constructor
  · intro i node h
    rcases getElem?_block h with ⟨rfl, rfl⟩ | ⟨j, rfl, hj, hget⟩ | ⟨j, rfl, hget⟩
    · exact .inl ⟨hparent, segment, List.mem_cons_self, hsegment, hid⟩
    · right
      rcases hbelow.entry j node hget with
        ⟨hp, seg, -, hseg, hseg'⟩ | ⟨k, above, seg, hk, hp, ha, hseg, hseg'⟩
      · exact ⟨0, first, seg, Nat.succ_pos _, hp, rfl, hseg, hseg'⟩
      · refine ⟨k + 1, above, seg, Nat.succ_lt_succ hk, ?_, ?_, hseg, ?_⟩
        · rw [hp, Nat.add_assoc, Nat.add_comm 1 k]
        · rw [List.getElem?_cons_succ, List.getElem?_append_left (by omega), ha]
        · rw [hseg', Nat.add_assoc, Nat.add_comm 1 k]
    · rcases hafter.entry j node hget with
        ⟨hp, seg, hmem, hseg⟩ | ⟨k, above, seg, hk, hp, ha, hseg, hseg'⟩
      · exact .inl ⟨hp, seg, List.mem_cons_of_mem _ hmem, hseg⟩
      · right
        have hindex : next + 1 + below.length + k = next + (1 + below.length + k) := by omega
        refine ⟨1 + below.length + k, above, seg, by omega, ?_, ?_, hseg, ?_⟩
        · rw [hp, hindex]
        · rw [Nat.add_assoc, Nat.add_comm 1, List.getElem?_cons_succ,
            List.getElem?_append_right (Nat.le_add_right _ _), Nat.add_sub_cancel_left, ha]
        · rw [hseg', hindex]
  · intro i k node node' h h' hpar hids
    have hafterParent : ∀ (j : Nat) (n : NodeDef), after[j]? = some n →
        n.parent = some parentIndex ∨
          ∃ p, n.parent = some p ∧ next + 1 + below.length ≤ p := by
      intro j n hget
      rcases hafter.entry j n hget with ⟨hp, -⟩ | ⟨l, above, seg, -, hp, -⟩
      · exact .inl hp
      · exact .inr ⟨_, hp, by omega⟩
    have hfirstAfter : ∀ (j : Nat) (n : NodeDef), after[j]? = some n →
        first.parent = n.parent → first.id = n.id → False := by
      intro j n hget hp hi
      rcases hafter.entry j n hget with ⟨-, seg, hmem, -, hseg⟩ | ⟨l, above, seg, -, hp', -⟩
      · rw [hid, hseg] at hi
        rw [childId_inj hi] at hne
        exact hne hmem
      · rw [hparent, hp'] at hp
        have := Option.some.inj hp
        omega
    rcases getElem?_block h with ⟨rfl, rfl⟩ | ⟨j, rfl, hj, hget⟩ | ⟨j, rfl, hget⟩ <;>
      rcases getElem?_block h' with ⟨rfl, rfl⟩ | ⟨l, rfl, hl, hget'⟩ | ⟨l, rfl, hget'⟩
    · rfl
    · obtain ⟨p, hp, hle, -⟩ := hbelow.parent_range hget' hl
      rw [hparent, hp] at hpar
      have := Option.some.inj hpar
      omega
    · exact (hfirstAfter l node' hget' hpar hids).elim
    · obtain ⟨p, hp, hle, -⟩ := hbelow.parent_range hget hj
      rw [hparent, hp] at hpar
      have := Option.some.inj hpar
      omega
    · rw [hbelow.distinct j l node node' hget hget' hpar hids]
    · obtain ⟨p, hp, hle, hlt'⟩ := hbelow.parent_range hget hj
      rcases hafterParent l node' hget' with hp' | ⟨p', hp', hle'⟩ <;>
        (rw [hp, hp'] at hpar; have := Option.some.inj hpar; omega)
    · exact (hfirstAfter j node hget hpar.symm hids.symm).elim
    · obtain ⟨p, hp, hle, hlt'⟩ := hbelow.parent_range hget' hl
      rcases hafterParent j node hget with hp' | ⟨p', hp', hle'⟩ <;>
        (rw [hp, hp'] at hpar; have := Option.some.inj hpar; omega)
    · rw [hafter.distinct j l node node' hget hget' hpar hids]

end Block

/-! ## The configured tree -/

theorem NodeFields.segment_isIdent {f : NodeFields} {b : Bool} (h : f.accepted b = true) :
    isIdent f.segment = true := by
  unfold NodeFields.accepted at h
  simp only [Bool.and_eq_true, and_assoc] at h
  exact h.1

namespace PortalConf

variable (c : PortalConf)

mutual

theorem length_emitNode (parent : Option Nat) (index : Nat) (id : List UInt8) :
    ∀ n : NodeConf, (c.emitNode parent index id n).length = n.size
  | .node fields children => by
    rw [emitNode, List.length_cons, length_emitChildren, NodeConf.size, Nat.add_comm]

theorem length_emitChildren (parentIndex next : Nat) (parentId : List UInt8) :
    ∀ ns : List NodeConf,
      (c.emitChildren parentIndex next parentId ns).length = NodeConf.sizeAll ns
  | [] => rfl
  | n :: ns => by
    rw [emitChildren, List.length_append, length_emitNode, length_emitChildren, NodeConf.sizeAll]

end

/-- Where the parts of a subtree hang; the induction is on the tree. -/
theorem hangs_children (ns : List NodeConf) (parentIndex next : Nat) (parentId : List UInt8)
    (hlt : parentIndex < next) (haccepted : NodeConf.acceptedAll ns = true)
    (hsegments : (ns.map NodeConf.segment).Nodup) :
    Hangs (ns.map NodeConf.segment) parentIndex next parentId
      (c.emitChildren parentIndex next parentId ns) :=
  match ns with
  | [] => hangs_nil parentIndex next parentId
  | .node fields below :: ns => by
    rw [NodeConf.acceptedAll, Bool.and_eq_true] at haccepted
    have hfirst := haccepted.1
    rw [NodeConf.accepted, Bool.and_eq_true, Bool.and_eq_true] at hfirst
    obtain ⟨⟨hfields, hunique⟩, hbelow⟩ := hfirst
    have hnodup := List.nodup_cons.mp hsegments
    have hsub := hangs_children below next (next + 1)
      (childId parentIndex parentId fields.segment) (Nat.lt_succ_self next) hbelow
      (of_decide_eq_true hunique)
    have hsize : next + NodeConf.size (.node fields below) =
        next + 1 + (c.emitChildren next (next + 1) (childId parentIndex parentId fields.segment)
          below).length := by
      rw [length_emitChildren, NodeConf.size, Nat.add_assoc]
    have hrest := hangs_children ns parentIndex (next + NodeConf.size (.node fields below)) parentId
      (Nat.lt_of_lt_of_le hlt (Nat.le_add_right next _)) haccepted.2 hnodup.2
    rw [hsize] at hrest
    rw [emitChildren, emitNode, hsize, List.cons_append]
    exact hangs_cons hlt (NodeFields.segment_isIdent hfields) rfl rfl hsub hrest hnodup.1

theorem nodes_eq : c.nodes =
    c.nodeDef { segment := ascii "car", kind := ascii "car", label := c.rootLabel } (ascii "car")
      none :: c.emitChildren 0 1 (ascii "car") c.tree := by
  rw [nodes, root, emitNode]

/-- An accepted configuration makes a table with ids in a hierarchy. -/
theorem treeTable (h : c.accepted = true) : TreeTable c.nodes := by
  unfold accepted at h
  simp only [Bool.and_eq_true, and_assoc] at h
  obtain ⟨-, -, -, hunique, hall, -⟩ := h
  have hangs := c.hangs_children c.tree 0 1 (ascii "car") Nat.one_pos hall
    (of_decide_eq_true hunique)
  rw [nodes_eq]
  constructor
  · exact ⟨_, rfl, rfl, rfl⟩
  · intro j node hget hpos
    obtain ⟨i, rfl⟩ := Nat.exists_eq_add_of_lt hpos
    rw [Nat.zero_add, List.getElem?_cons_succ] at hget
    rcases hangs.entry i node hget with
      ⟨hp, segment, -, hsegment, hid⟩ | ⟨k, above, segment, hk, hp, ha, hsegment, hid⟩
    · exact ⟨0, _, segment, hp, by omega, rfl, hsegment, hid⟩
    · refine ⟨1 + k, above, segment, hp, by omega, ?_, hsegment, hid⟩
      rw [Nat.add_comm, List.getElem?_cons_succ]
      exact ha
  · intro j k node node' hj hk hparent hid
    have hbelow : ∀ (i : Nat) (n : NodeDef), (c.emitChildren 0 1 (ascii "car") c.tree)[i]? = some n →
        n.parent ≠ none := by
      intro i n hn hnone
      rcases hangs.entry i n hn with ⟨hp, -⟩ | ⟨l, above, segment, -, hp, -⟩ <;>
        (rw [hnone] at hp; cases hp)
    cases j with
    | zero =>
      cases k with
      | zero => rfl
      | succ k =>
        rw [← Option.some.inj hj] at hparent
        exact absurd hparent.symm (hbelow k node' hk)
    | succ j =>
      cases k with
      | zero =>
        rw [← Option.some.inj hk] at hparent
        exact absurd hparent (hbelow j node hj)
      | succ k => rw [hangs.distinct j k node node' hj hk hparent hid]

end PortalConf

/-! ## Ancestors -/

/-- The parent of a node of a sample. -/
def Snapshot.parentOf (s : Snapshot) (index : Nat) : Option Nat :=
  s.nodes[index]?.bind NodeDef.parent

theorem nodeId_eq {s : Snapshot} {i : Nat} {node : NodeDef} (h : s.nodes[i]? = some node) :
    nodeId s i = node.id := by
  rw [nodeId, h]
  rfl

section Table

variable {s : Snapshot} (ht : TreeTable s.nodes)

theorem lt_length_of_parentOf {d p : Nat} (h : s.parentOf d = some p) : d < s.nodes.length := by
  obtain ⟨node, hget, -⟩ := Option.bind_eq_some_iff.mp h
  exact (List.getElem?_eq_some_iff.mp hget).1

include ht

theorem parentOf_zero : s.parentOf 0 = none := by
  obtain ⟨node, hget, -, hparent⟩ := ht.root
  rw [Snapshot.parentOf, hget]
  exact hparent

theorem exists_parentOf {j : Nat} (hpos : 0 < j) (hlt : j < s.nodes.length) :
    ∃ p segment, s.parentOf j = some p ∧ p < j ∧ isIdent segment = true ∧
      nodeId s j = childId p (nodeId s p) segment := by
  have hget := List.getElem?_eq_getElem hlt
  obtain ⟨p, above, segment, hp, hlt', ha, hsegment, hid⟩ := ht.child j _ hget hpos
  refine ⟨p, segment, ?_, hlt', hsegment, ?_⟩
  · rw [Snapshot.parentOf, hget]
    exact hp
  · rw [nodeId_eq hget, nodeId_eq ha]
    exact hid

theorem parentOf_lt (d p : Nat) (h : s.parentOf d = some p) : p < d := by
  have hlt := lt_length_of_parentOf h
  rcases Nat.eq_zero_or_pos d with rfl | hpos
  · rw [parentOf_zero ht] at h
    cases h
  · obtain ⟨p', -, hp', hlt', -⟩ := exists_parentOf ht hpos hlt
    rw [h] at hp'
    rw [Option.some.inj hp']
    exact hlt'

theorem siblings_eq {j k : Nat} (hj : j < s.nodes.length) (hk : k < s.nodes.length)
    (hparent : s.parentOf j = s.parentOf k) (hid : nodeId s j = nodeId s k) : j = k := by
  have hgetj := List.getElem?_eq_getElem hj
  have hgetk := List.getElem?_eq_getElem hk
  rw [Snapshot.parentOf, Snapshot.parentOf, hgetj, hgetk] at hparent
  rw [nodeId_eq hgetj, nodeId_eq hgetk] at hid
  exact ht.siblings j k _ _ hgetj hgetk hparent hid

/-- The walk visits the node it starts at and what is above it. -/
theorem mem_walkUp {k : Nat} : ∀ {fuel walk : Nat}, walk < fuel → walk < s.nodes.length →
    (k ∈ walkUp s fuel (some walk) ↔ AtOrAbove s.parentOf k walk) := by
  intro fuel
  induction fuel with
  | zero => exact fun h => absurd h (Nat.not_lt_zero _)
  | succ fuel ih =>
    intro walk hfuel hlt
    have hget := List.getElem?_eq_getElem hlt
    have hwalk : walkUp s (fuel + 1) (some walk) = walk :: walkUp s fuel (s.parentOf walk) := by
      rw [walkUp, Snapshot.parentOf, hget]
      rfl
    rw [hwalk, List.mem_cons, atOrAbove_iff]
    apply or_congr_right
    cases hp : s.parentOf walk with
    | none =>
      constructor
      · intro h
        cases fuel <;> cases h
      · exact fun h => absurd h (not_above_of_none hp)
    | some p =>
      have hlt' := parentOf_lt ht walk p hp
      rw [ih (by omega) (by omega), above_iff]
      constructor
      · exact fun h => ⟨p, hp, h⟩
      · rintro ⟨q, hq, h⟩
        rw [hp] at hq
        rw [Option.some.inj hq]
        exact h

theorem mem_ancestors {k index : Nat} :
    k ∈ ancestors s index ↔ Above s.parentOf k index := by
  have hwalk : ancestors s index = walkUp s s.nodes.length (s.parentOf index) := rfl
  rw [hwalk]
  cases hp : s.parentOf index with
  | none =>
    constructor
    · intro h
      cases hn : s.nodes.length <;> (rw [hn] at h; cases h)
    · exact fun h => absurd h (not_above_of_none hp)
  | some p =>
    have hlt := parentOf_lt ht index p hp
    have hlen := lt_length_of_parentOf hp
    rw [mem_walkUp ht (by omega) (by omega), above_iff]
    constructor
    · exact fun h => ⟨p, hp, h⟩
    · rintro ⟨q, hq, h⟩
      rw [hp] at hq
      rw [Option.some.inj hq]
      exact h

/-! ## Ids -/

/-- An id is that of one node at most, the root apart. -/
theorem nodeId_inj {j k : Nat} (hj : 0 < j) (hk : 0 < k) (hjlen : j < s.nodes.length)
    (hklen : k < s.nodes.length) (h : nodeId s j = nodeId s k) : j = k := by
  induction j using Nat.strongRecOn generalizing k with
  | ind j ih =>
    obtain ⟨p, segment, hp, hplt, hsegment, hid⟩ := exists_parentOf ht hj hjlen
    obtain ⟨q, segment', hq, hqlt, hsegment', hid'⟩ := exists_parentOf ht hk hklen
    have hdot := dot_notMem_isIdent hsegment
    have hdot' := dot_notMem_isIdent hsegment'
    suffices hpq : p = q from siblings_eq ht hjlen hklen (by rw [hp, hq, hpq]) h
    rw [hid, hid'] at h
    rcases Nat.eq_zero_or_pos p with rfl | hppos <;> rcases Nat.eq_zero_or_pos q with rfl | hqpos
    · rfl
    · rw [childId_zero, childId_pos hqpos] at h
      rw [h] at hdot
      exact absurd (List.mem_append_right _ List.mem_cons_self) hdot
    · rw [childId_zero, childId_pos hppos] at h
      rw [← h] at hdot'
      exact absurd (List.mem_append_right _ List.mem_cons_self) hdot'
    · rw [childId_pos hppos, childId_pos hqpos] at h
      have hids := (append_dot_inj hdot hdot' h).1
      exact ih p hplt hppos hqpos (by omega) (by omega) hids

/-- The ids that go on behind a text and a point are those below the nodes with that text as id. -/
theorem dot_prefix_nodeId {owned : List UInt8} {j : Nat} (hj : j < s.nodes.length) :
    owned ++ [0x2E] <+: nodeId s j ↔ ∃ k, 0 < k ∧ Above s.parentOf k j ∧ nodeId s k = owned := by
  induction j using Nat.strongRecOn with
  | ind j ih =>
    rcases Nat.eq_zero_or_pos j with rfl | hpos
    · obtain ⟨root, hget, hid, -⟩ := ht.root
      rw [nodeId_eq hget, hid]
      constructor
      · exact fun h => absurd h (not_prefix_dot (by decide))
      · rintro ⟨k, -, habove, -⟩
        exact absurd habove (not_above_of_none (parentOf_zero ht))
    · obtain ⟨p, segment, hp, hlt, hsegment, hid⟩ := exists_parentOf ht hpos hj
      have hdot := dot_notMem_isIdent hsegment
      have habove : ∀ k, Above s.parentOf k j ↔ AtOrAbove s.parentOf k p := by
        intro k
        rw [above_iff]
        constructor
        · rintro ⟨q, hq, h⟩
          rw [hp] at hq
          rw [Option.some.inj hq]
          exact h
        · exact fun h => ⟨p, hp, h⟩
      rw [hid]
      rcases Nat.eq_zero_or_pos p with rfl | hppos
      · rw [childId_zero]
        constructor
        · exact fun h => absurd h (not_prefix_dot hdot)
        · rintro ⟨k, hk, hkj, -⟩
          have := AtOrAbove.le (parentOf_lt ht) ((habove k).mp hkj)
          omega
      · rw [childId_pos hppos, dot_prefix_append hdot, ih p hlt (by omega)]
        constructor
        · rintro (rfl | ⟨k, hk, hkp, hid'⟩)
          · exact ⟨p, hppos, (habove p).mpr (AtOrAbove.refl p), rfl⟩
          · exact ⟨k, hk, (habove k).mpr hkp.atOrAbove, hid'⟩
        · rintro ⟨k, hk, hkj, hid'⟩
          rcases atOrAbove_iff.mp ((habove k).mp hkj) with rfl | hkp
          · exact .inl hid'.symm
          · exact .inr ⟨k, hk, hkp, hid'⟩

/-- A node below the root that has the id of the root stands on top. -/
theorem parentOf_of_id_car {k : Nat} (hpos : 0 < k) (hk : k < s.nodes.length)
    (hid : nodeId s k = ascii "car") : s.parentOf k = some 0 := by
  obtain ⟨p, segment, hp, -, -, hid'⟩ := exists_parentOf ht hpos hk
  rcases Nat.eq_zero_or_pos p with rfl | hppos
  · exact hp
  · rw [hid', childId_pos hppos] at hid
    have hmem : (0x2E : UInt8) ∈ ascii "car" := by
      rw [← hid]
      exact List.mem_append_right _ List.mem_cons_self
    exact absurd hmem (by decide)

end Table

end EspCars.Portal
