import EspCars.Uds.Config
import EspCars.Uds.Lookup

/-!
# The same field on both sides

What the validation chooses for a binding in a catalog, against what the hub resolves when the blob
of the same catalog is flashed. The validation looks for a group among those of the ECU, by its
position; the hub looks for the name that was emitted among all groups of the catalog and takes the
lowest one. They agree exactly if nothing listed earlier is taken for what was chosen.
-/

namespace EspCars.Uds

open EspCars.Lib Compiler Config List

/-! ## Positions -/

/-- The index of group `k` of ECU `e` among all groups. -/
def groupIndexOf (cat : Compiler.Catalog) (e k : Nat) : Nat :=
  ((cat.ecus.take e).flatMap Ecu.groups).length + k

/-- The index of field `j` of the group at `gi` among all fields. -/
def fieldIndexOf (cat : Compiler.Catalog) (gi j : Nat) : Nat :=
  ((cat.groups.take gi).flatMap Group.fields).length + j

variable {i k : Nat} {ecu : Ecu}

theorem getElem?_flatMap {α β : Type} {f : α → List β} {l : List α} {a : α} {b : β}
    (hi : l[i]? = some a) (hk : (f a)[k]? = some b) :
    (l.flatMap f)[((l.take i).flatMap f).length + k]? = some b := by
  induction l generalizing i with
  | nil => cases hi
  | cons a' l ih =>
    cases i with
    | zero =>
      cases hi
      obtain ⟨hlt, -⟩ := List.getElem?_eq_some_iff.mp hk
      rw [take_zero, flatMap_nil, length_nil, Nat.zero_add, flatMap_cons,
        getElem?_append_left hlt, hk]
    | succ i =>
      rw [take_succ_cons, flatMap_cons, flatMap_cons, length_append, Nat.add_assoc,
        getElem?_append_right (Nat.le_add_right _ _), Nat.add_sub_cancel_left]
      exact ih hi

/-- The parts of a concatenation do not overlap. -/
theorem eq_of_flatMap_index {α β : Type} {f : α → List β} {l : List α} {i' : Nat} {a a' : α}
    (hi : l[i]? = some a) (hi' : l[i']? = some a') (hk : k < (f a).length)
    (hle : ((l.take i').flatMap f).length ≤ ((l.take i).flatMap f).length + k)
    (hlt : ((l.take i).flatMap f).length + k < ((l.take i').flatMap f).length + (f a').length) :
    i' = i := by
  have hmono : ∀ {i i' : Nat} {a : α}, l[i]? = some a → i < i' →
      ((l.take i).flatMap f).length + (f a).length ≤ ((l.take i').flatMap f).length := by
    intro i i' a hi hii'
    have hsplit : l.take i' = l.take i ++ (a :: (l.take i').drop (i + 1)) := by
      obtain ⟨hlen, heq⟩ := List.getElem?_eq_some_iff.mp hi
      have htake : (l.take i').drop i = a :: (l.take i').drop (i + 1) := by
        rw [drop_eq_getElem_cons (by rw [length_take]; omega), getElem_take, heq]
      rw [← htake]
      conv_lhs => rw [← take_append_drop i (l.take i'), take_take, Nat.min_eq_left (by omega)]
    rw [hsplit, flatMap_append, flatMap_cons, length_append, length_append]
    omega
  rcases Nat.lt_trichotomy i' i with h | h | h
  · have := hmono hi' h
    omega
  · exact h
  · have := hmono hi h
    omega

/-! ## What the validation answers -/

theorem findIdx?_of_find?_zipIdx {α : Type} {p : α → Bool} {l : List α} {a : α}
    (h : l.zipIdx.find? (fun q => p q.1) = some (a, i)) :
    l[i]? = some a ∧ l.findIdx? p = some i := by
  obtain ⟨hp, i', hlt, hi, hbefore⟩ := find?_eq_some_iff_getElem.mp h
  rw [length_zipIdx] at hlt
  rw [getElem_zipIdx, Nat.zero_add] at hi
  obtain ⟨rfl, rfl⟩ := Prod.mk.inj hi
  refine ⟨List.getElem?_eq_getElem hlt, findIdx?_eq_some_iff_getElem.mpr ⟨hlt, hp, ?_⟩⟩
  intro j hj
  have hnot := hbefore j hj
  rw [getElem_zipIdx] at hnot
  simpa using hnot

/-- The only ECU, or the first of the name. -/
theorem ecuOf_spec {cat : Compiler.Catalog} {name : Option Name} {e : Nat}
    (h : ecuOf cat name = .ok (ecu, e)) :
    cat.ecus[e]? = some ecu ∧ (name = none → cat.ecus.length = 1 ∧ e = 0) ∧
      ∀ n ∈ name, cat.ecus.findIdx? (fun ecu => ecu.name = n) = some e := by
  unfold ecuOf at h
  split at h
  · split at h
    · next hecus =>
      cases h
      rw [hecus]
      exact ⟨rfl, fun _ => ⟨rfl, rfl⟩, nofun⟩
    · cases h
  · split at h
    · next n _ p hp =>
      cases h
      obtain ⟨hecu, hfirst⟩ := findIdx?_of_find?_zipIdx (p := fun ecu : Ecu => ecu.name = n) hp
      refine ⟨hecu, nofun, ?_⟩
      intro n' hn'
      cases hn'
      exact hfirst
    · cases h

theorem resolveGroup_spec {service : ServiceRef} {g : Group}
    (h : Config.resolveGroup ecu service = .ok (g, k)) : ecu.groups[k]? = some g := by
  unfold Config.resolveGroup at h
  split at h
  · split at h
    · cases h
    · next hfilter =>
      cases h
      have hmem := mem_filter.mp (hfilter ▸ mem_cons_self ..)
      exact mem_zipIdx_iff_getElem?.mp hmem.1
  · split at h
    · next hp =>
      cases h
      exact mem_zipIdx_iff_getElem?.mp (mem_of_find?_eq_some hp)
    · cases h

theorem mem_fieldHits {groups : List (Group × Nat)} {field : Name} {g : Group × Nat}
    {f : Field × Nat} (h : (g, f) ∈ fieldHits groups field) :
    g ∈ groups ∧ g.1.fields[f.2]? = some f.1 ∧ f.1.name = field := by
  obtain ⟨g', hg, hf⟩ := mem_flatMap.mp h
  obtain ⟨f', hf', heq⟩ := mem_map.mp hf
  cases heq
  obtain ⟨hmem, hname⟩ := mem_filter.mp hf'
  exact ⟨hg, mem_zipIdx_iff_getElem?.mp hmem, of_decide_eq_true hname⟩

theorem searchedGroups_spec {service : Option ServiceRef} {groups : List (Group × Nat)}
    (h : searchedGroups ecu service = .ok groups) {g : Group × Nat} (hg : g ∈ groups) :
    ecu.groups[g.2]? = some g.1 := by
  cases service with
  | none =>
    cases h
    exact mem_zipIdx_iff_getElem?.mp hg
  | some service =>
    cases hservice : Config.resolveGroup ecu service with
    | error e =>
      rw [searchedGroups, hservice] at h
      cases h
    | ok p =>
      rw [searchedGroups, hservice] at h
      cases h
      rw [mem_singleton.mp hg]
      exact resolveGroup_spec hservice

theorem resolveField_spec {field : Name} {service : Option ServiceRef} {element : Nat}
    {g : Group} {f : Field} {j : Nat}
    (h : resolveField ecu field service element = .ok ((g, k), (f, j))) :
    ecu.groups[k]? = some g ∧ g.fields[j]? = some f ∧ f.name = field ∧ element < f.repeatCount := by
  unfold resolveField at h
  split at h
  · cases h
  · next groups hgroups =>
    split at h
    · cases h
    · next hit hhits =>
      split_ifs at h with helement
      cases h
      obtain ⟨hg, hf, hname⟩ := mem_fieldHits (hhits ▸ mem_singleton.mpr rfl)
      exact ⟨searchedGroups_spec hgroups hg, hf, hname, Nat.not_le.mp helement⟩
    · cases h

/-- A choice of records that the catalog holds. -/
structure Config.Choice.Sound (cat : Compiler.Catalog) (b : Binding) (x : Choice) : Prop where
  ecu : cat.ecus[x.e]? = some x.ecu
  only : b.ecuName = none → cat.ecus.length = 1 ∧ x.e = 0
  first : ∀ n ∈ b.ecuName, cat.ecus.findIdx? (fun ecu => ecu.name = n) = some x.e
  group : x.ecu.groups[x.k]? = some x.group
  field : x.group.fields[x.j]? = some x.field
  name : x.field.name = b.field
  element : b.element < x.field.repeatCount

theorem Config.Binding.choose_spec {cat : Compiler.Catalog} {b : Binding} {x : Choice}
    (h : b.choose cat = .ok x) : x.Sound cat b := by
  unfold Binding.choose at h
  split at h
  · cases h
  · next hecu =>
    split at h
    · cases h
    · next hfield =>
      cases h
      obtain ⟨hecu, honly, hfirst⟩ := ecuOf_spec hecu
      obtain ⟨hgroup, hfield, hname, helement⟩ := resolveField_spec hfield
      exact ⟨hecu, honly, hfirst, hgroup, hfield, hname, helement⟩

/-! ## What the device finds -/

theorem isLeast_iff_findIdx? {α : Type} {p : α → Prop} [DecidablePred p] {l : List α} :
    IsLeast {i | ∃ a, l[i]? = some a ∧ p a} i ↔ l.findIdx? (fun a => p a) = some i := by
  rw [findIdx?_eq_some_iff_getElem]
  constructor
  · rintro ⟨⟨a, hi, ha⟩, hleast⟩
    obtain ⟨hlt, rfl⟩ := List.getElem?_eq_some_iff.mp hi
    refine ⟨hlt, decide_eq_true ha, ?_⟩
    intro j hj hp
    exact absurd hj (Nat.not_lt.mpr (hleast ⟨_, List.getElem?_eq_getElem _, of_decide_eq_true hp⟩))
  · rintro ⟨hlt, ha, hbefore⟩
    refine ⟨⟨l[i], List.getElem?_eq_getElem hlt, of_decide_eq_true ha⟩, ?_⟩
    rintro j ⟨a, hj, hp⟩
    obtain ⟨hjlt, rfl⟩ := List.getElem?_eq_some_iff.mp hj
    by_contra hji
    exact hbefore j (Nat.not_le.mp hji) (decide_eq_true hp)

namespace Compiler.Flashed

variable {cat : Compiler.Catalog} (d : Flashed cat)

theorem ecuCount_opened : d.opened.ecuCount = cat.ecus.length := by
  have hcount : ∀ i, i < d.opened.ecuCount ↔ i < cat.ecus.length :=
    fun i => decide_eq_true_iff.symm.trans (d.count_opened .ecu i)
  have h := hcount d.opened.ecuCount
  have h' := hcount cat.ecus.length
  omega

theorem find_ecu (h : checkLimits cat = .ok ()) {query : Name} {i : Nat} :
    d.opened.find query .ecu = some i ↔
      cat.ecus.findIdx? (fun ecu => Taken query ecu.name) = some i := by
  rw [d.find_eq_some_iff h, ← isLeast_iff_findIdx?]
  have hset : {i | ∃ n, Listed cat n .ecu i ∧ Taken query n} =
      {i | ∃ ecu, cat.ecus[i]? = some ecu ∧ Taken query ecu.name} := by
    ext i
    constructor
    · rintro ⟨_, ⟨ecu, hi, rfl⟩, htaken⟩
      exact ⟨ecu, hi, htaken⟩
    · rintro ⟨ecu, hi, htaken⟩
      exact ⟨ecu.name, ⟨ecu, hi, rfl⟩, htaken⟩
  rw [hset]

theorem find_group (h : checkLimits cat = .ok ()) {query : Name} {i : Nat} :
    d.opened.find query .group = some i ↔
      cat.groups.findIdx? (fun g => ∃ n ∈ g.names, Taken query n) = some i := by
  rw [d.find_eq_some_iff h, ← isLeast_iff_findIdx?]
  have hset : {i | ∃ n, Listed cat n .group i ∧ Taken query n} =
      {i | ∃ g, cat.groups[i]? = some g ∧ ∃ n ∈ g.names, Taken query n} := by
    ext i
    constructor
    · rintro ⟨n, ⟨g, hi, hn⟩, htaken⟩
      exact ⟨g, hi, n, hn, htaken⟩
    · rintro ⟨g, hi, n, hn, htaken⟩
      exact ⟨n, ⟨g, hi, hn⟩, htaken⟩
  rw [hset]

/-- The walk over the fields of a group, from the field `m` on, takes the first of the name. -/
theorem walkFields_opened {k : Nat} {g : Group} (hk : cat.groups[k]? = some g) (b : UdsBinding)
    {count m : Nat} (hm : m + count = g.fields.length) :
    d.opened.walkFields b count (fieldIndexOf cat k m) =
      ((g.fields.drop m).findIdx? fun f => cstr f.name = b.fieldName).bind fun j =>
        (g.fields[m + j]?).bind fun f =>
          if f.repeatCount ≤ b.element then none else some (fieldIndexOf cat k (m + j)) := by
  induction count generalizing m with
  | zero =>
    rw [drop_eq_nil_of_le (show g.fields.length ≤ m by omega)]
    rfl
  | succ count ih =>
    have hlt : m < g.fields.length := by omega
    obtain ⟨scaleFirst, hfield⟩ :=
      d.field_opened hk (List.getElem?_eq_getElem hlt) (Eq.refl (fieldIndexOf cat k m))
    rw [Uds.Catalog.walkFields, hfield, drop_eq_getElem_cons hlt, findIdx?_cons]
    dsimp only
    by_cases hname : cstr g.fields[m].name = b.fieldName
    · rw [if_neg (not_not_intro hname), if_pos (decide_eq_true hname), Option.bind_some,
        Nat.add_zero, List.getElem?_eq_getElem hlt, Option.bind_some]
    · rw [if_pos hname, if_neg (by simpa using hname), Option.bind_map,
        show fieldIndexOf cat k m + 1 = fieldIndexOf cat k (m + 1) from Nat.add_assoc _ _ _,
        ih (by omega)]
      congr 1
      funext j
      rw [Function.comp_apply, show m + 1 + j = m + (j + 1) by omega]

end Compiler.Flashed

/-! ## The same field -/

/-- The index of the chosen group among all groups, and of the chosen field among all fields. -/
def Config.Choice.groupIndex (x : Choice) (cat : Compiler.Catalog) : Nat := groupIndexOf cat x.e x.k

def Config.Choice.fieldIndex (x : Choice) (cat : Compiler.Catalog) : Nat :=
  fieldIndexOf cat (x.groupIndex cat) x.j

/-- The hub with this flash binds the entity to the field that was chosen, and the request of the
group is the chosen one. A field record names its group, so that it has one index. -/
def SameField (cat : Compiler.Catalog) (memory : List UInt8) (b : Binding) (x : Choice) : Prop :=
  ∃ c ecu view, Uds.Catalog.open? memory = some c ∧ c.resolveEcu (b.ecuName.map cstr) = some ecu ∧
    c.resolveBinding (some ecu) (b.emitted x) = some (x.groupIndex cat, x.fieldIndex cat) ∧
    c.group (x.groupIndex cat) = some view ∧ c.requestBytes view = some x.group.request

/-- Nothing that is listed before the chosen records is taken for them: no ECU before the ECU, no
group of any ECU before the group, by a name or by an alias, and no field before the field. -/
def Config.Choice.Unshadowed (x : Choice) (cat : Compiler.Catalog) (b : Binding) : Prop :=
  (∀ name ∈ b.ecuName,
    cat.ecus.findIdx? (fun ecu => Taken (cstr name) ecu.name) = some x.e) ∧
  cat.groups.findIdx? (fun g => ∃ n ∈ g.names, Taken (cstr x.group.name) n) =
    some (x.groupIndex cat) ∧
  x.group.fields.findIdx? (fun f => cstr f.name = cstr b.field) = some x.j

namespace Config.Choice.Sound

variable {cat : Compiler.Catalog} {b : Binding} {x : Choice}

theorem getElem?_groups (hx : x.Sound cat b) : cat.groups[x.groupIndex cat]? = some x.group :=
  getElem?_flatMap hx.ecu hx.group

theorem length_ecu (hx : x.Sound cat b) : x.k < x.ecu.groups.length :=
  (List.getElem?_eq_some_iff.mp hx.group).1

variable (d : Flashed cat)

/-- The walk over the fields of the chosen group answers the chosen field if no other is before. -/
theorem walkFields_iff (hx : x.Sound cat b) :
    d.opened.walkFields (b.emitted x) x.group.fields.length
        ((cat.groups.take (x.groupIndex cat)).flatMap Group.fields).length =
      some (x.fieldIndex cat) ↔
    x.group.fields.findIdx? (fun f => cstr f.name = cstr b.field) = some x.j := by
  have hwalk := d.walkFields_opened hx.getElem?_groups (b.emitted x) (Nat.zero_add _)
  rw [fieldIndexOf, Nat.add_zero, drop_zero] at hwalk
  rw [hwalk]
  constructor
  · intro h
    obtain ⟨j, hj, h⟩ := Option.bind_eq_some_iff.mp h
    obtain ⟨f, -, h⟩ := Option.bind_eq_some_iff.mp h
    split_ifs at h
    have hindex := Option.some.inj h
    unfold Choice.fieldIndex fieldIndexOf at hindex
    obtain rfl : j = x.j := by omega
    exact hj
  · intro h
    rw [show (x.group.fields.findIdx? fun f => cstr f.name = (b.emitted x).fieldName) = some x.j
      from h, Option.bind_some, Nat.zero_add, hx.field, Option.bind_some,
      if_neg (show ¬ x.field.repeatCount ≤ (b.emitted x).element from Nat.not_le.mpr hx.element)]
    rfl

/-- The chosen ECU is the one whose groups hold the index of the chosen group. -/
theorem range_iff (hx : x.Sound cat b) {i : Nat} {ecu : Ecu} (hi : cat.ecus[i]? = some ecu) :
    (x.groupIndex cat < ((cat.ecus.take i).flatMap Ecu.groups).length ∨
        ((cat.ecus.take i).flatMap Ecu.groups).length + ecu.groups.length ≤ x.groupIndex cat) ↔
      i ≠ x.e := by
  unfold Choice.groupIndex groupIndexOf
  constructor
  · rintro h rfl
    obtain rfl : x.ecu = ecu := Option.some.inj (hx.ecu.symm.trans hi)
    have := hx.length_ecu
    omega
  · intro hne
    by_contra h
    exact hne (eq_of_flatMap_index hx.ecu hi hx.length_ecu (by omega) (by omega))

/-- The hub takes the first ECU of the name, and without a name the only one. -/
theorem exists_ecu (hx : x.Sound cat b) (hlimits : checkLimits cat = .ok ()) {view : EcuView}
    (h : d.opened.resolveEcu (b.ecuName.map cstr) = some view) :
    ∃ i ecu, cat.ecus[i]? = some ecu ∧ d.opened.ecu i = some view ∧
      ∀ name ∈ b.ecuName,
        cat.ecus.findIdx? (fun ecu => Taken (cstr name) ecu.name) = some i := by
  cases hname : b.ecuName with
  | none =>
    rw [hname, Option.map_none, Uds.Catalog.resolveEcu] at h
    split_ifs at h
    obtain ⟨-, hzero⟩ := hx.only hname
    refine ⟨x.e, x.ecu, hx.ecu, ?_, nofun⟩
    rw [hzero]
    exact h
  | some name =>
    rw [hname, Option.map_some, Uds.Catalog.resolveEcu] at h
    obtain ⟨i, hfind, hview⟩ := Option.bind_eq_some_iff.mp h
    have hfirst := (d.find_ecu hlimits).mp hfind
    obtain ⟨hlt, -, -⟩ := findIdx?_eq_some_iff_getElem.mp hfirst
    refine ⟨i, cat.ecus[i], List.getElem?_eq_getElem hlt, hview, ?_⟩
    intro name' hname'
    cases hname'
    exact hfirst

theorem resolveEcu_eq (hx : x.Sound cat b) (hlimits : checkLimits cat = .ok ())
    (h : ∀ name ∈ b.ecuName,
      cat.ecus.findIdx? (fun ecu => Taken (cstr name) ecu.name) = some x.e) :
    d.opened.resolveEcu (b.ecuName.map cstr) = d.opened.ecu x.e := by
  cases hname : b.ecuName with
  | none =>
    obtain ⟨hone, hzero⟩ := hx.only hname
    rw [Option.map_none, Uds.Catalog.resolveEcu, d.ecuCount_opened, hone, hzero]
    rfl
  | some name =>
    rw [Option.map_some, Uds.Catalog.resolveEcu, (d.find_ecu hlimits).mpr (h name hname),
      Option.bind_some]

/-- The device resolves what codegen emits to the chosen records if nothing is before them. -/
theorem sameField_mapped (hx : x.Sound cat b) (hlimits : checkLimits cat = .ok ()) :
    SameField cat d.mapped.memory b x ↔ x.Unshadowed cat b := by
  obtain ⟨off, -, hview⟩ := d.group_opened hx.getElem?_groups
  constructor
  · rintro ⟨c, ecu, view, hopen, hecu, hbinding, -, -⟩
    obtain rfl : d.opened = c := Option.some.inj (d.open?_memory.symm.trans hopen)
    obtain ⟨i, e, hi, hrecord, hname⟩ := hx.exists_ecu d hlimits hecu
    rw [d.ecu_opened hi] at hrecord
    obtain rfl := Option.some.inj hrecord
    unfold Uds.Catalog.resolveBinding at hbinding
    split at hbinding
    · cases hbinding
    · next gi hgroup =>
      unfold Uds.Catalog.findGroup at hgroup
      split at hgroup
      · cases hgroup
      · next gi' hfind =>
        dsimp only at hgroup
        split_ifs at hgroup with hrange
        obtain rfl := Option.some.inj hgroup
        split at hbinding
        · cases hbinding
        · next g hg =>
          obtain ⟨fi, hwalk, hpair⟩ := Option.map_eq_some_iff.mp hbinding
          obtain ⟨rfl, rfl⟩ := Prod.mk.inj hpair
          rw [hview] at hg
          obtain rfl := Option.some.inj hg
          have hie : i = x.e := by
            by_contra hne
            exact hrange ((hx.range_iff hi).mpr hne)
          refine ⟨?_, (d.find_group hlimits).mp hfind, (hx.walkFields_iff d).mp hwalk⟩
          rw [← hie]
          exact hname
  · rintro ⟨hecu, hgroup, hfield⟩
    have hrequest := (group_of_checkLimits hlimits (mem_of_getElem? hx.getElem?_groups)).1
    have hresolved := (hx.resolveEcu_eq d hlimits hecu).trans (d.ecu_opened hx.ecu)
    refine ⟨d.opened, _, _, d.open?_memory, hresolved, ?_, hview,
      d.requestBytes_opened hx.getElem?_groups hrequest hview⟩
    have hrange : ¬ (x.groupIndex cat < ((cat.ecus.take x.e).flatMap Ecu.groups).length ∨
        ((cat.ecus.take x.e).flatMap Ecu.groups).length + x.ecu.groups.length ≤
          x.groupIndex cat) := fun h => (hx.range_iff hx.ecu).mp h rfl
    rw [Uds.Catalog.resolveBinding, Uds.Catalog.findGroup,
      show d.opened.find (b.emitted x).groupName .group = some (x.groupIndex cat) from
        (d.find_group hlimits).mpr hgroup]
    dsimp only
    rw [if_neg hrange]
    dsimp only
    rw [hview]
    dsimp only
    rw [(hx.walkFields_iff d).mpr hfield]
    rfl

end Config.Choice.Sound

/-- The blob of the catalog is flashed, with anything behind it: the hub binds an entity to the field
that the validation chose exactly if nothing listed before it is taken for it. -/
theorem sameField_iff {cat : Compiler.Catalog} {blob : List UInt8}
    (hblob : writeCatalog cat = .ok blob) (rest : List UInt8) {b : Binding} {x : Choice}
    (h : b.choose cat = .ok x) :
    SameField cat (blob ++ rest) b x ↔ x.Unshadowed cat b := by
  obtain ⟨d, hd⟩ := Flashed.exists_of_writeCatalog hblob rest
  rw [← hd]
  exact b.choose_spec h |>.sameField_mapped d (limits_of_writeCatalog hblob)

/-! ## Names without a NUL -/

/-- No name has a NUL in it. -/
structure NulFree (cat : Compiler.Catalog) : Prop where
  ecus : ∀ ecu ∈ cat.ecus, 0 ∉ ecu.name
  groups : ∀ g ∈ cat.groups, ∀ n ∈ g.names, 0 ∉ n
  fields : ∀ g ∈ cat.groups, ∀ f ∈ g.fields, 0 ∉ f.name

theorem taken_iff {query n : Name} (hquery : 0 ∉ query) (hn : 0 ∉ n) :
    Taken (cstr query) n ↔ n = query := by
  rw [Taken, cstr_eq_self hquery, cstr_eq_self hn]
  constructor
  · exact fun h => h.2
  · rintro rfl
    exact ⟨rfl, rfl⟩

/-- The first record that is taken for one, under any of its keys, is that one. -/
theorem findIdx?_eq_some_iff {α : Type} {p : α → Prop} [DecidablePred p] {l : List α}
    {a : α} (hi : l[i]? = some a) (ha : p a) :
    l.findIdx? (fun a => p a) = some i ↔ ∀ j < i, ∀ a', l[j]? = some a' → ¬ p a' := by
  obtain ⟨hlt, rfl⟩ := List.getElem?_eq_some_iff.mp hi
  rw [findIdx?_eq_some_iff_getElem]
  constructor
  · rintro ⟨_, _, hbefore⟩ j hj a' ha' hp
    obtain ⟨_, rfl⟩ := List.getElem?_eq_some_iff.mp ha'
    exact hbefore j hj (decide_eq_true hp)
  · intro h
    refine ⟨hlt, decide_eq_true ha, ?_⟩
    intro j hj hp
    exact h j hj _ (List.getElem?_eq_getElem (Nat.lt_trans hj hlt)) (of_decide_eq_true hp)

namespace Config.Choice.Sound

variable {cat : Compiler.Catalog} {b : Binding} {x : Choice}

theorem first_ecu (hx : x.Sound cat b) (hnul : NulFree cat) {name : Name}
    (hname : name ∈ b.ecuName) :
    cat.ecus.findIdx? (fun ecu => Taken (cstr name) ecu.name) = some x.e := by
  have hfirst := hx.first name hname
  have hecu : x.ecu.name = name := by
    obtain ⟨hlt, hp, -⟩ := findIdx?_eq_some_iff_getElem.mp hfirst
    obtain ⟨_, heq⟩ := List.getElem?_eq_some_iff.mp hx.ecu
    rw [heq] at hp
    exact of_decide_eq_true hp
  have hzero : 0 ∉ name := hecu ▸ hnul.ecus _ (mem_of_getElem? hx.ecu)
  rw [findIdx?_eq_some_iff hx.ecu hecu] at hfirst
  rw [findIdx?_eq_some_iff hx.ecu]
  · intro j hj ecu hecu' htaken
    have hother := hnul.ecus ecu (mem_of_getElem? hecu')
    exact hfirst j hj ecu hecu' ((taken_iff hzero hother).mp htaken)
  · exact (taken_iff hzero (hnul.ecus _ (mem_of_getElem? hx.ecu))).mpr hecu

theorem first_field (hx : x.Sound cat b) (hlimits : checkLimits cat = .ok ()) (hnul : NulFree cat) :
    x.group.fields.findIdx? (fun f => cstr f.name = cstr b.field) = some x.j := by
  have hgroup := mem_of_getElem? hx.getElem?_groups
  have hzero := hnul.fields x.group hgroup
  obtain ⟨-, hnodup⟩ := group_of_checkLimits hlimits hgroup
  rw [findIdx?_eq_some_iff hx.field (congrArg cstr hx.name)]
  intro j hj f hf heq
  rw [← hx.name, cstr_eq_self (hzero f (mem_of_getElem? hf)),
    cstr_eq_self (hzero _ (mem_of_getElem? hx.field))] at heq
  obtain ⟨hlt, rfl⟩ := List.getElem?_eq_some_iff.mp hf
  obtain ⟨hlt', hfield⟩ := List.getElem?_eq_some_iff.mp hx.field
  rw [← hfield] at heq
  have hne := pairwise_iff_getElem.mp hnodup j x.j (by rwa [length_map]) (by rwa [length_map]) hj
  rw [getElem_map, getElem_map] at hne
  exact hne heq

/-- Only a group can be shadowed then, by one of any ECU that has its name and comes before it. -/
theorem unshadowed_iff (hx : x.Sound cat b) (hlimits : checkLimits cat = .ok ())
    (hnul : NulFree cat) :
    x.Unshadowed cat b ↔
      ∀ i < x.groupIndex cat, ∀ g, cat.groups[i]? = some g → x.group.name ∉ g.names := by
  have hgroup := hx.getElem?_groups
  have hself : x.group.name ∈ x.group.names := mem_cons_self ..
  have hzero := hnul.groups _ (mem_of_getElem? hgroup) _ hself
  have htaken : ∀ g ∈ cat.groups,
      (∃ n ∈ g.names, Taken (cstr x.group.name) n) ↔ x.group.name ∈ g.names := by
    intro g hg
    constructor
    · rintro ⟨n, hn, h⟩
      rwa [← (taken_iff hzero (hnul.groups g hg n hn)).mp h]
    · exact fun h => ⟨_, h, (taken_iff hzero hzero).mpr rfl⟩
  have hiff := findIdx?_eq_some_iff
    (p := fun g : Group => ∃ n ∈ g.names, Taken (cstr x.group.name) n) hgroup
    ((htaken _ (mem_of_getElem? hgroup)).mpr hself)
  constructor
  · rintro ⟨-, hfirst, -⟩ i hi g hg hname
    exact hiff.mp hfirst i hi g hg ((htaken g (mem_of_getElem? hg)).mpr hname)
  · intro h
    refine ⟨fun name hname => hx.first_ecu hnul hname, hiff.mpr ?_, hx.first_field hlimits hnul⟩
    intro i hi g hg hname
    exact h i hi g hg ((htaken g (mem_of_getElem? hg)).mp hname)

end Config.Choice.Sound

/-! ## Two ECUs with a group of one name -/

/-- One ECU of the sample: its group `G` reads a byte. -/
def sampleEcu (name : Name) (requestId : Nat) : Ecu :=
  { name := name, requestId := requestId, responseId := requestId + 8
    groups :=
      [{ name := ascii "G", request := [0x22, 0x02, 0x07]
         fields := [{ name := ascii "F", bitPos := 24, bitSize := 8 }] }] }

def sampleCatalog : Compiler.Catalog :=
  { ecus := [sampleEcu (ascii "A") 0x7E0, sampleEcu (ascii "B") 0x7E1] }

def sampleBinding (ecu : Name) : Binding :=
  { ecuName := some ecu, field := ascii "F", service := none, element := 0 }

def sampleChoice (e : Nat) (ecu : Ecu) : Choice :=
  { ecu := ecu, e := e, k := 0, j := 0
    group :=
      { name := ascii "G", request := [0x22, 0x02, 0x07]
        fields := [{ name := ascii "F", bitPos := 24, bitSize := 8 }] }
    field := { name := ascii "F", bitPos := 24, bitSize := 8 } }

set_option maxRecDepth 20000 in
theorem exists_blob_sample : ∃ blob, writeCatalog sampleCatalog = .ok blob := by
  have h : (writeCatalog sampleCatalog).isOk = true := by decide
  cases hblob : writeCatalog sampleCatalog with
  | ok blob => exact ⟨blob, rfl⟩
  | error e =>
    rw [hblob] at h
    cases h

/-- The group of the first ECU is found. -/
theorem sameField_iff_sample :
    ∃ blob, writeCatalog sampleCatalog = .ok blob ∧
      SameField sampleCatalog (blob ++ []) (sampleBinding (ascii "A"))
        (sampleChoice 0 (sampleEcu (ascii "A") 0x7E0)) := by
  obtain ⟨blob, hblob⟩ := exists_blob_sample
  refine ⟨blob, hblob, (sameField_iff hblob [] (b := sampleBinding (ascii "A")) rfl).mpr ⟨?_, ?_, ?_⟩⟩
  · rintro name hname
    cases hname
    decide
  · decide
  · decide

/-- The group of the second one is not: the lookup answers that of the first, which is outside the
ECU. -/
theorem not_sameField_sample :
    ¬ ∀ (cat : Compiler.Catalog) (blob rest : List UInt8) (b : Binding) (x : Choice),
      writeCatalog cat = .ok blob → b.choose cat = .ok x → SameField cat (blob ++ rest) b x := by
  intro h
  obtain ⟨blob, hblob⟩ := exists_blob_sample
  have hchoose : (sampleBinding (ascii "B")).choose sampleCatalog =
      .ok (sampleChoice 1 (sampleEcu (ascii "B") 0x7E1)) := rfl
  obtain ⟨d, hd⟩ := Flashed.exists_of_writeCatalog hblob []
  have hsame := h _ blob [] _ _ hblob hchoose
  rw [← hd, (Binding.choose_spec hchoose).sameField_mapped d (limits_of_writeCatalog hblob)] at hsame
  exact absurd hsame.2.1 (by decide)

end EspCars.Uds
