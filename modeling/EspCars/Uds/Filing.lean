import EspCars.Uds.Proto
import EspCars.Uds.Agreement
import EspCars.Uds.ReadsInside

/-!
# Answers that the host files

`UdsEcu` and `UdsChunk` of `script/sdlog_uds.py` file an answer under a group of the catalog that the
device was flashed with: under the longest request that it repeats as a whole. The device has the
request in flight and compares only what its service echoes. So the host takes no answer that the
device would not, and it takes one that the device takes unless the answer repeats the request only
in part, repeats a longer request as well, or is one from the fault memory, which goes elsewhere.
-/

namespace EspCars.Uds

open EspCars.Lib Compiler List

namespace Compiler

/-! ## The lookup -/

/-- The first bytes of a positive answer that repeats the whole request. -/
def Group.answer (g : Group) : List UInt8 := (g.sid + 0x40) :: g.request.drop 1

/-- `UdsEcu.answers`, in the order of insertion. -/
def answers (groups : List Group) : List (List UInt8 × Nat) :=
  groups.zipIdx.foldl (fun d p =>
    if (d.lookup p.1.answer).isSome then d else d ++ [(p.1.answer, p.2)]) []

/-- `UdsEcu.prefix_lengths`. -/
def prefixLengths (groups : List Group) : List Nat :=
  ((answers groups).map fun p => p.1.length).dedup.mergeSort fun a b => b ≤ a

/-- What `UdsChunk._message` does with a message. -/
inductive Filing
  | unreadable
  | pending
  | negative (sid nrc : UInt8)
  | faults (records : List UInt8)
  | group (gi : Nat)
  | unknown
  deriving DecidableEq

/-- An answer to `19 02`, which reports trouble codes. -/
def FaultMemory (first : UInt8) (rest : List UInt8) : Prop :=
  3 ≤ (first :: rest).length ∧ first = 0x59 ∧ rest.headD 0 = 0x02

instance (first : UInt8) (rest : List UInt8) : Decidable (FaultMemory first rest) :=
  inferInstanceAs (Decidable (_ ∧ _ ∧ _))

/-- `UdsChunk._message`, of a message with a first byte. -/
def message (groups : List Group) (first : UInt8) (rest : List UInt8) : Filing :=
  if first = 0x7F then
    match rest with
    | sid :: nrc :: _ => if nrc = 0x78 then .pending else .negative sid nrc
    | _ => .unreadable
  else if FaultMemory first rest then .faults (rest.drop 2)
  else
    match (prefixLengths groups).findSome? fun n => (answers groups).lookup ((first :: rest).take n) with
    | some gi => .group gi
    | none => .unknown

theorem answers_concat (groups : List Group) (g : Group) :
    answers (groups ++ [g]) =
      if ((answers groups).lookup g.answer).isSome then answers groups
      else answers groups ++ [(g.answer, groups.length)] := by
  unfold answers
  rw [zipIdx_append, foldl_append]
  simp

/-- Of equal answers the first one stays. -/
theorem lookup_answers (groups : List Group) (k : List UInt8) :
    (answers groups).lookup k = groups.findIdx? fun g => g.answer = k := by
  induction groups using List.reverseRecOn with
  | nil => rfl
  | append_singleton groups g ih =>
    rw [answers_concat, findIdx?_append, ← ih]
    split_ifs with hsome
    · by_cases hk : g.answer = k
      · subst hk
        obtain ⟨gi, hgi⟩ := Option.isSome_iff_exists.mp hsome
        simp [hgi]
      · simp [hk]
    · rw [lookup_append]
      by_cases hk : g.answer = k
      · subst hk
        simp
      · have hk' : (k == g.answer) = false := by simpa using fun h => hk h.symm
        simp [hk, lookup_cons, hk']

variable {groups : List Group} {gi : Nat}

theorem isSome_lookup_iff {k : List UInt8} :
    ((answers groups).lookup k).isSome = true ↔ ∃ g ∈ groups, g.answer = k := by
  rw [lookup_answers, findIdx?_isSome, any_eq_true]
  simp

theorem mem_prefixLengths {n : Nat} :
    n ∈ prefixLengths groups ↔ ∃ g ∈ groups, g.answer.length = n := by
  unfold prefixLengths
  rw [mem_mergeSort, mem_dedup, mem_map]
  constructor
  · rintro ⟨p, hp, rfl⟩
    obtain ⟨g, hg, heq⟩ := isSome_lookup_iff.mp (lookup_isSome_iff.mpr ⟨p, hp, beq_self_eq_true _⟩)
    exact ⟨g, hg, congrArg length heq⟩
  · rintro ⟨g, hg, rfl⟩
    obtain ⟨p, hp, heq⟩ := lookup_isSome_iff.mp (isSome_lookup_iff.mpr ⟨g, hg, rfl⟩)
    exact ⟨p, hp, congrArg length (eq_of_beq heq).symm⟩

theorem pairwise_prefixLengths (groups : List Group) :
    (prefixLengths groups).Pairwise fun a b => b ≤ a := by
  have htrans : ∀ a b c : Nat, decide (b ≤ a) = true → decide (c ≤ b) = true →
      decide (c ≤ a) = true := by
    simp only [decide_eq_true_eq]
    omega
  have htotal : ∀ a b : Nat, (decide (b ≤ a) || decide (a ≤ b)) = true := by
    simp only [Bool.or_eq_true, decide_eq_true_eq]
    omega
  exact (pairwise_mergeSort htrans htotal _).imp of_decide_eq_true

/-- The answer begins with the request's, and with no longer one. -/
structure Longest (groups : List Group) (g : Group) (msg : List UInt8) : Prop where
  begins : g.answer <+: msg
  longest : ∀ g' ∈ groups, g'.answer <+: msg → g'.answer.length ≤ g.answer.length

/-- The loop over the lengths ends with the longest answer that the message begins with. -/
theorem exists_longest {msg : List UInt8}
    (h : (prefixLengths groups).findSome? (fun n => (answers groups).lookup (msg.take n)) = some gi) :
    ∃ g, groups[gi]? = some g ∧ groups.findIdx? (fun g' => g'.answer = g.answer) = some gi ∧
      Longest groups g msg := by
  obtain ⟨before, n, after, hsplit, hfound, hbefore⟩ := findSome?_eq_some_iff.mp h
  rw [lookup_answers] at hfound
  obtain ⟨hlt, heq, -⟩ := findIdx?_eq_some_iff_getElem.mp hfound
  have hg : groups[gi].answer = msg.take n := of_decide_eq_true heq
  refine ⟨groups[gi], getElem?_eq_getElem hlt, by rw [hg]; exact hfound, ?_, fun g' hg' hmsg => ?_⟩
  · rw [hg]
    exact take_prefix n msg
  · have htake : g'.answer = msg.take g'.answer.length := prefix_iff_eq_take.mp hmsg
    have hmem : g'.answer.length ∈ prefixLengths groups := mem_prefixLengths.mpr ⟨g', hg', rfl⟩
    have hsome : ((answers groups).lookup (msg.take g'.answer.length)).isSome = true :=
      isSome_lookup_iff.mpr ⟨g', hg', htake⟩
    have hsorted := pairwise_prefixLengths groups
    rw [hsplit] at hmem hsorted
    have hle : g'.answer.length ≤ n := by
      rcases mem_append.mp hmem with hmem | hmem
      · rw [hbefore _ hmem] at hsome
        cases hsome
      · rcases mem_cons.mp hmem with heq | hmem
        · exact Nat.le_of_eq heq
        · exact (pairwise_cons.mp (pairwise_append.mp hsorted).2.1).1 _ hmem
    rw [hg, length_take]
    exact Nat.le_min.mpr ⟨hle, hmsg.length_le⟩

theorem findSome?_of_longest {msg : List UInt8} {g : Group}
    (hg : g ∈ groups) (hfirst : groups.findIdx? (fun g' => g'.answer = g.answer) = some gi)
    (h : Longest groups g msg) :
    (prefixLengths groups).findSome? (fun n => (answers groups).lookup (msg.take n)) = some gi := by
  have htake : g.answer = msg.take g.answer.length := prefix_iff_eq_take.mp h.begins
  cases hfind : (prefixLengths groups).findSome? fun n => (answers groups).lookup (msg.take n) with
  | none =>
    have hnone := findSome?_eq_none_iff.mp hfind _ (mem_prefixLengths.mpr ⟨g, hg, rfl⟩)
    have hsome := isSome_lookup_iff.mpr ⟨g, hg, htake⟩
    rw [hnone] at hsome
    cases hsome
  | some gi' =>
    obtain ⟨g', hg', hfirst', hlongest⟩ := exists_longest hfind
    have hlen : g'.answer.length = g.answer.length :=
      Nat.le_antisymm (h.longest g' (mem_of_getElem? hg') hlongest.begins)
        (hlongest.longest g hg h.begins)
    have heq : g'.answer = g.answer := by
      rw [prefix_iff_eq_take.mp hlongest.begins, hlen, ← htake]
    rw [heq, hfirst] at hfirst'
    exact hfirst'.symm

/-- Requests that differ have answers that differ. -/
theorem first_of_distinct (hrequest : ∀ g ∈ groups, g.request ≠ [])
    (hdistinct : (groups.map Group.request).Nodup) {g : Group}
    (hg : groups[gi]? = some g) : groups.findIdx? (fun g' => g'.answer = g.answer) = some gi := by
  have hwhole {g : Group} (h : g.request ≠ []) : g.request = g.sid :: g.request.drop 1 := by
    unfold Group.sid
    cases hreq : g.request with
    | nil => exact absurd hreq h
    | cons b rest => rfl
  obtain ⟨hlt, rfl⟩ := List.getElem?_eq_some_iff.mp hg
  rw [findIdx?_eq_some_iff_getElem]
  refine ⟨hlt, decide_eq_true rfl, fun j hj heq => ?_⟩
  have hjlt := Nat.lt_trans hj hlt
  have heq' : groups[j].answer = groups[gi].answer := of_decide_eq_true heq
  obtain ⟨hsid, hrest⟩ := List.cons.inj heq'
  have hsame : groups[j].request = groups[gi].request := by
    rw [hwhole (hrequest _ (getElem_mem hjlt)), hwhole (hrequest _ (getElem_mem hlt)), hrest,
      show groups[j].sid = groups[gi].sid by simpa using hsid]
  have hne := (List.nodup_iff_pairwise_ne.mp hdistinct)
  rw [List.pairwise_iff_getElem] at hne
  have hdiff := hne j gi (by simpa using hjlt) (by simpa using hlt) hj
  rw [getElem_map, getElem_map] at hdiff
  exact hdiff hsame

theorem message_eq_group_iff (hrequest : ∀ g ∈ groups, g.request ≠ [])
    (hdistinct : (groups.map Group.request).Nodup) {g : Group}
    (hg : groups[gi]? = some g) (first : UInt8) (rest : List UInt8) :
    message groups first rest = .group gi ↔
      first ≠ 0x7F ∧ ¬FaultMemory first rest ∧ Longest groups g (first :: rest) := by
  have hfirst := first_of_distinct hrequest hdistinct hg
  unfold message
  split_ifs with hneg hfault
  · refine ⟨fun h => ?_, fun h => absurd hneg h.1⟩
    split at h
    · split_ifs at h
    · cases h
  · exact ⟨nofun, fun h => absurd hfault h.2.1⟩
  · constructor
    · intro h
      split at h
      next gi' hfind =>
        obtain rfl := Filing.group.inj h
        obtain ⟨g', hg', -, hlongest⟩ := exists_longest hfind
        rw [hg] at hg'
        obtain rfl := Option.some.inj hg'
        exact ⟨hneg, hfault, hlongest⟩
      next => cases h
    · rintro ⟨-, -, hlongest⟩
      rw [findSome?_of_longest (mem_of_getElem? hg) hfirst hlongest]

end Compiler

/-! ## What the device accepts -/

theorem accepted_iff {g : Group} (hrequest : g.request ≠ []) (first : UInt8) (rest : List UInt8)
    (respMinLen : Nat) :
    (classifyResponse g.request (first :: rest) respMinLen).accepted = true ↔
      first ≠ 0x7F ∧ first = g.sid + 0x40 ∧ echoed g.request <+: rest := by
  obtain ⟨sid, reqRest, hreq⟩ := exists_cons_of_ne_nil hrequest
  have hsid : g.sid = sid := by rw [Group.sid, hreq, headD_cons]
  rw [hsid, hreq]
  by_cases hneg : first = 0x7F
  · refine ⟨fun h => ?_, fun h => absurd hneg h.1⟩
    unfold classifyResponse at h
    dsimp only at h
    rw [if_pos hneg] at h
    split at h
    · split_ifs at h <;> cases h
    · cases h
  · by_cases hother : first = sid + 0x40
    · rw [accepted_classifyResponse (hother ▸ hneg)]
      exact ⟨fun h => ⟨hneg, h⟩, fun h => h.2⟩
    · refine ⟨fun h => ?_, fun h => absurd h.2.1 hother⟩
      unfold classifyResponse at h
      dsimp only at h
      rw [if_neg hneg, if_pos hother] at h
      cases h

theorem accepted_of_answer {g : Group} (hrequest : g.request ≠ []) {first : UInt8}
    {rest : List UInt8} (hneg : first ≠ 0x7F) (h : g.answer <+: first :: rest) (respMinLen : Nat) :
    (classifyResponse g.request (first :: rest) respMinLen).accepted = true := by
  obtain ⟨hfirst, hrest⟩ := cons_prefix_cons.mp h
  refine (accepted_iff hrequest first rest respMinLen).mpr ⟨hneg, hfirst.symm, ?_⟩
  rw [drop_one] at hrest
  apply IsPrefix.trans ?_ hrest
  exact take_prefix _ _

/-! ## Every blob -/

/-- A field that the reader accepts is not empty. -/
theorem bitSize_pos_of_readField {c : Uds.Catalog} {scales : List Scale} {i gi : Nat} {f : Field}
    (h : readField c scales i = .ok (f, gi)) : 1 ≤ f.bitSize := by
  unfold readField at h
  obtain ⟨_, -, h⟩ := bind_eq_ok.mp h
  obtain ⟨_, -, h⟩ := bind_eq_ok.mp h
  obtain ⟨_, hsize, h⟩ := bind_eq_ok.mp h
  obtain ⟨_, -, h⟩ := bind_eq_ok.mp h
  obtain ⟨_, -, h⟩ := bind_eq_ok.mp h
  rw [← show _ = f from congrArg Prod.fst (Except.ok.inj h)]
  unfold checkBits at hsize
  split at hsize
  · obtain ⟨_, hblock, -⟩ := bind_eq_ok.mp hsize
    exact Nat.le_trans (by decide) (demand_eq_ok.mp hblock).2.1
  · exact (demand_eq_ok.mp hsize).1

/-- The device covers the elements that the host decodes, if the record states that there are any:
the host takes a count of zero for one. -/
theorem fieldCovered_fieldOf {scales : List Scale} {v : FieldView}
    (hsize : 1 ≤ (fieldOf scales v).bitSize) (hcount : v.repeatCount ≠ 0) {k : Nat}
    (hk : k < (fieldOf scales v).repeatCount) (resp : List UInt8) :
    fieldCovered v resp.length k = true ↔ Covers resp (fieldOf scales v) k := by
  have hsize' : 1 ≤ v.bitSize := hsize
  have hk' : k < max v.repeatCount 1 := hk
  unfold fieldCovered
  rw [if_neg (by omega), decide_eq_true_iff]
  show (v.start k + v.bitSize + 7) / 8 ≤ resp.length ↔ v.start k + v.bitSize ≤ 8 * resp.length
  omega

/-- What the catalog of the device says about a group of the reader's. -/
structure SameGroup (c : Uds.Catalog) (gv : GroupView) (g : Group) : Prop where
  request : c.requestBytes gv = some g.request
  nonempty : g.request ≠ []
  field : ∀ (j : Nat) f, g.fields[j]? = some f → ∃ v, c.field (gv.fieldFirst + j) = some v ∧
    (v.repeatCount ≠ 0 → ∀ resp : List UInt8, ∀ k < f.repeatCount,
      (fieldCovered v resp.length k = true ↔ Covers resp f k))

theorem getElem?_of_run {α : Type} {l : List α} {first n j : Nat} {a : α}
    (h : ((l.drop first).take n)[j]? = some a) : l[first + j]? = some a := by
  obtain ⟨hlt, -⟩ := List.getElem?_eq_some_iff.mp h
  rw [length_take] at hlt
  rw [getElem?_take_of_lt (by omega), getElem?_drop] at h
  exact h

section

variable {data : List UInt8} {c : Uds.Catalog} (hlayout : checkLayout data = .ok c)
  {scales : List Scale} {fields : List (Field × Nat)} (hfields : readFields c scales = .ok fields)

include hlayout hfields

theorem sameGroup_of_readGroup {names : List (Nat × Name)} {i : Nat} {g : Group}
    (hi : i < c.groupCount) (h : readGroup c fields names i = .ok g) :
    ∃ gv, c.group i = some gv ∧ SameGroup c gv g := by
  obtain ⟨hopen, -, hrequests⟩ := checkLayout_eq_ok.mp hlayout
  have htotal := (inside_of_open hopen).total
  unfold readGroup at h
  obtain ⟨_, -, h⟩ := bind_eq_ok.mp h
  obtain ⟨_, hpool, h⟩ := bind_eq_ok.mp h
  obtain ⟨_, hlen, h⟩ := bind_eq_ok.mp h
  obtain ⟨_, -, h⟩ := bind_eq_ok.mp h
  obtain ⟨_, -, h⟩ := bind_eq_ok.mp h
  obtain ⟨_, -, h⟩ := bind_eq_ok.mp h
  obtain ⟨hstart, hend⟩ := demand_eq_ok.mp hpool
  have hlen := demand_eq_ok.mp hlen
  have hg := Except.ok.inj h
  rw [Uds.Catalog.group, if_neg (Nat.not_le.mpr hi)]
  refine ⟨_, rfl, ?_, ?_, fun j f hf => ?_⟩
  · rw [← hg, Uds.Catalog.requestBytes]
    dsimp only
    rw [if_neg (by omega), if_neg (by omega), if_neg (by omega)]
  · rw [← hg]
    apply ne_nil_of_length_pos
    rw [length_take, length_drop]
    omega
  · rw [← hg, getElem?_map, Option.map_eq_some_iff] at hf
    obtain ⟨⟨f', gi⟩, hf, rfl⟩ := hf
    obtain ⟨hlength, hread⟩ := mapM_range_eq_ok.mp hfields
    have hfield := getElem?_of_run hf
    obtain ⟨hlt, -⟩ := List.getElem?_eq_some_iff.mp hfield
    have hsize := bitSize_pos_of_readField (hread _ _ hfield)
    obtain ⟨v, hv, rfl, -, -⟩ := readField_eq_ok (hlength ▸ hlt) (hread _ _ hfield)
    exact ⟨v, hv, fun hcount resp k hk => fieldCovered_fieldOf hsize hcount hk resp⟩

end

theorem readEcu_eq_ok {c : Uds.Catalog} {groups : List Group} {i : Nat} {e : Ecu}
    (hi : i < c.ecuCount) (h : readEcu c groups i = .ok e) :
    ∃ ev, c.ecu i = some ev ∧ e.groups = (groups.drop ev.groupFirst).take ev.groupCount := by
  unfold readEcu at h
  obtain ⟨_, -, h⟩ := bind_eq_ok.mp h
  obtain ⟨_, -, h⟩ := bind_eq_ok.mp h
  rw [Uds.Catalog.ecu, if_neg (Nat.not_le.mpr hi)]
  refine ⟨_, rfl, ?_⟩
  rw [← Except.ok.inj h]

/-- The groups of an ECU are those of the device, one after the other. -/
theorem sameGroup_of_readCatalog {data : List UInt8} {cat : Compiler.Catalog}
    (h : readCatalog data = .ok cat) :
    ∃ c, Uds.Catalog.open? data = some c ∧ ∀ (e : Nat) ecu, cat.ecus[e]? = some ecu →
      ∃ ev, c.ecu e = some ev ∧ ∀ (gi : Nat) g, ecu.groups[gi]? = some g →
        ∃ gv, c.group (ev.groupFirst + gi) = some gv ∧ SameGroup c gv g := by
  unfold readCatalog at h
  obtain ⟨c, hlayout, h⟩ := bind_eq_ok.mp h
  obtain ⟨scales, -, h⟩ := bind_eq_ok.mp h
  obtain ⟨fields, hfields, h⟩ := bind_eq_ok.mp h
  obtain ⟨names, -, h⟩ := bind_eq_ok.mp h
  obtain ⟨groups, hgroups, h⟩ := bind_eq_ok.mp h
  obtain ⟨ecus, hecus, h⟩ := bind_eq_ok.mp h
  refine ⟨c, open?_of_checkLayout hlayout, fun e ecu hecu => ?_⟩
  rw [← Except.ok.inj h] at hecu
  obtain ⟨hlength, hread⟩ := mapM_range_eq_ok.mp hecus
  obtain ⟨hlt, -⟩ := List.getElem?_eq_some_iff.mp hecu
  obtain ⟨ev, hev, hrun⟩ := readEcu_eq_ok (hlength ▸ hlt) (hread _ _ hecu)
  refine ⟨ev, hev, fun gi g hg => ?_⟩
  rw [hrun] at hg
  have hgroup := getElem?_of_run hg
  obtain ⟨hlength, hread⟩ := mapM_range_eq_ok.mp hgroups
  obtain ⟨hlt, -⟩ := List.getElem?_eq_some_iff.mp hgroup
  exact sameGroup_of_readGroup hlayout hfields (hlength ▸ hlt) (hread _ _ hgroup)

/-- Of the answers that the device accepts, the host files under the group those that repeat its
request and no longer one, the fault memory apart; and it files no others. -/
theorem filed_iff {data : List UInt8} {cat : Compiler.Catalog} (h : readCatalog data = .ok cat)
    {e : Nat} {ecu : Ecu} (hecu : cat.ecus[e]? = some ecu)
    (hdistinct : (ecu.groups.map Group.request).Nodup) :
    ∃ c ev, Uds.Catalog.open? data = some c ∧ c.ecu e = some ev ∧
      ∀ (gi : Nat) g, ecu.groups[gi]? = some g →
        ∃ gv, c.group (ev.groupFirst + gi) = some gv ∧ SameGroup c gv g ∧
          ∀ first rest respMinLen,
            (message ecu.groups first rest = .group gi →
              (classifyResponse g.request (first :: rest) respMinLen).accepted = true) ∧
            ((classifyResponse g.request (first :: rest) respMinLen).accepted = true →
              (message ecu.groups first rest = .group gi ↔
                ¬FaultMemory first rest ∧ Longest ecu.groups g (first :: rest))) := by
  obtain ⟨c, hopen, hecus⟩ := sameGroup_of_readCatalog h
  obtain ⟨ev, hev, hgroups⟩ := hecus e ecu hecu
  have hrequest : ∀ g ∈ ecu.groups, g.request ≠ [] := by
    intro g hg
    obtain ⟨gi, hgi⟩ := List.getElem?_of_mem hg
    obtain ⟨_, -, hsame⟩ := hgroups gi g hgi
    exact hsame.nonempty
  refine ⟨c, ev, hopen, hev, fun gi g hg => ?_⟩
  obtain ⟨gv, hgv, hsame⟩ := hgroups gi g hg
  refine ⟨gv, hgv, hsame, fun first rest respMinLen => ?_⟩
  have hiff := message_eq_group_iff hrequest hdistinct hg first rest
  constructor
  · intro hfiled
    obtain ⟨hneg, -, hlongest⟩ := hiff.mp hfiled
    exact accepted_of_answer hsame.nonempty hneg hlongest.begins respMinLen
  · intro haccepted
    obtain ⟨hneg, -, -⟩ := (accepted_iff hsame.nonempty first rest respMinLen).mp haccepted
    rw [hiff, and_iff_right hneg]

set_option maxRecDepth 20000 in
/-- The answer to the only group is filed under it. -/
theorem filed_sample :
    message [{ name := ascii "G", request := [0x22, 0x02, 0x07], fields := [wideField] }] 0x62
      [0x02, 0x07, 0, 0, 0, 0, 0, 0, 0, 5] = .group 0 := by
  obtain ⟨_, _, -, -, hall⟩ := filed_iff readCatalog_wideBlob (e := 0) rfl (by decide)
  obtain ⟨_, -, -, hfiled⟩ := hall 0 _ rfl
  refine ((hfiled 0x62 [0x02, 0x07, 0, 0, 0, 0, 0, 0, 0, 5] 11).2 (by decide)).mpr
    ⟨by decide, by decide, ?_⟩
  intro g hg _
  obtain rfl := mem_singleton.mp hg
  exact Nat.le_refl _

/-! ## A group of trouble codes -/

def faultCatalog : Compiler.Catalog :=
  { ecus :=
      [{ name := ascii "E", requestId := 0x7E0, responseId := 0x7E8
         groups := [{ name := ascii "D", request := [0x19, 0x02, 0xFF] }] }] }

set_option maxRecDepth 20000 in
theorem exists_blob_faults : ∃ blob, writeCatalog faultCatalog = .ok blob := by
  have h : (writeCatalog faultCatalog).isOk = true := by decide
  cases hblob : writeCatalog faultCatalog with
  | ok blob => exact ⟨blob, rfl⟩
  | error e =>
    rw [hblob] at h
    cases h

/-- A blob of which the reader makes the one group. -/
theorem exists_read_faults :
    ∃ data cat ecu g, readCatalog data = .ok cat ∧ cat.ecus = [ecu] ∧ ecu.groups = [g] ∧
      g.request = [0x19, 0x02, 0xFF] := by
  obtain ⟨blob, hblob⟩ := exists_blob_faults
  have hnamed : WellNamed faultCatalog :=
    { strings := by decide
      aliases := by decide }
  obtain ⟨cat, hread, hzeroed, -⟩ := readCatalog_writeCatalog hblob hnamed []
  have hecus : cat.ecus.map Ecu.zeroed = faultCatalog.ecus.map Ecu.zeroed :=
    (congrArg Compiler.Catalog.ecus hzeroed).symm
  obtain ⟨ecu, hecu, hgroups⟩ := map_eq_singleton_iff.mp hecus
  obtain ⟨g, hg, hrequest⟩ := map_eq_singleton_iff.mp (congrArg Ecu.groups hgroups)
  exact ⟨blob ++ [], cat, ecu, g, hread, hecu, hg, congrArg Group.request hrequest⟩

/-- The device decodes the answer to `19 02 FF` for the group, the host takes it for trouble
codes. -/
theorem not_filed :
    ¬∀ data cat, readCatalog data = .ok cat → ∀ (e : Nat) ecu, cat.ecus[e]? = some ecu →
      (ecu.groups.map Group.request).Nodup → ∀ (gi : Nat) g, ecu.groups[gi]? = some g →
        g.safeRead = true → ∀ first rest respMinLen,
          (classifyResponse g.request (first :: rest) respMinLen).accepted = true →
            message ecu.groups first rest = .group gi := by
  intro h
  obtain ⟨data, cat, ecu, g, hread, hecu, hg, hrequest⟩ := exists_read_faults
  have hsafe : g.safeRead = true := by
    rw [Group.safeRead, Group.sid, hrequest]
    decide
  have hfiled := h data cat hread 0 ecu (by rw [hecu]; rfl) (by rw [hg]; exact nodup_singleton _) 0 g
    (by rw [hg]; rfl) hsafe 0x59 [0x02, 0xFF] 3 (by rw [hrequest]; decide)
  unfold message at hfiled
  rw [if_neg (by decide), if_pos (by decide)] at hfiled
  cases hfiled

end EspCars.Uds
