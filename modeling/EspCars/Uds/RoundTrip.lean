import EspCars.Uds.Accepted
import EspCars.Uds.Rewritten
import EspCars.Uds.SameField
import Mathlib

/-!
# Reading what was written

The compiler's reader on a blob of `write_catalog`, whatever is mapped behind it: every record is
read as the one it was made from, the name index gives the aliases back, and the catalog that is
read is the one that was written, up to the signs of zeros.
-/

namespace EspCars.Uds.Compiler

open EspCars.Lib List

/-! ## Aliases in order -/

instance : Std.Total NameLe where
  total a b := by
    by_cases h : List.Lex (fun x y : Nat => x < y) (b.map UInt8.toNat) (a.map UInt8.toNat)
    · exact Or.inr (asymm h)
    · exact Or.inl h

instance : IsTrans Name NameLe where
  trans _ _ _ hab hbc := IsOrderConnected.neg_trans hbc hab

theorem nameLe_antisymm {a b : Name} (h : NameLe a b) (h' : NameLe b a) : a = b := by
  have hmap : a.map UInt8.toNat = b.map UInt8.toNat := Std.Trichotomous.trichotomous _ _ h' h
  exact List.map_injective_iff.mpr (fun _ _ => UInt8.toNat_inj.mp) hmap

theorem normalise_congr {name : Name} {names names' : List Name}
    (h : ∀ n, n ≠ name → (n ∈ names ↔ n ∈ names')) :
    normalise name names = normalise name names' := by
  have hperm : (names.dedup.filter (· ≠ name)).Perm (names'.dedup.filter (· ≠ name)) := by
    apply (perm_ext_iff_of_nodup ((nodup_dedup _).filter _) ((nodup_dedup _).filter _)).mpr
    intro n
    rw [mem_filter, mem_filter, mem_dedup, mem_dedup, decide_eq_true_iff]
    constructor
    · rintro ⟨hn, hne⟩
      exact ⟨(h n hne).mp hn, hne⟩
    · rintro ⟨hn, hne⟩
      exact ⟨(h n hne).mpr hn, hne⟩
  have hsorted := ((perm_insertionSort NameLe _).trans hperm).trans
    (perm_insertionSort NameLe _).symm
  exact hsorted.eq_of_pairwise (fun _ _ _ _ => nameLe_antisymm)
    (pairwise_insertionSort NameLe _) (pairwise_insertionSort NameLe _)

/-! ## Flag words -/

theorem testBit_flagWord (flags : List Bool) (i : Nat) :
    (flagWord flags).testBit i = flags.getD i false := by
  induction flags generalizing i with
  | nil =>
    rw [getD_nil]
    exact Nat.zero_testBit i
  | cons b flags ih =>
    show (b.toNat + 2 * flagWord flags).testBit i = _
    cases i with
    | zero =>
      rw [Nat.testBit_zero, getD_cons_zero]
      cases b <;> simp [Nat.add_mul_mod_self_left]
    | succ i =>
      rw [Nat.testBit_succ, getD_cons_succ, ← ih]
      congr 1
      have hlt : b.toNat < 2 := Bool.toNat_lt b
      omega

theorem flagWord_lt (flags : List Bool) : flagWord flags < 2 ^ flags.length := by
  induction flags with
  | nil => exact Nat.one_pos
  | cons b flags ih =>
    have hlt : b.toNat < 2 := Bool.toNat_lt b
    show b.toNat + 2 * flagWord flags < 2 ^ (flags.length + 1)
    rw [Nat.pow_succ]
    omega

namespace Group

variable (g : Group)

theorem testBit_flags {i : Nat} (hi : i < 3) :
    g.flags.testBit i = [g.safeRead, g.needsSession, g.needsSecurity].getD i false := by
  rw [← testBit_flagWord, flags, show (256 : Nat) = 2 ^ 8 from rfl, Nat.add_comm, Nat.mul_comm,
    Nat.testBit_two_pow_mul_add _ ((flagWord_lt _).trans (show 2 ^ 3 < 2 ^ 8 by decide)),
    if_pos (by omega)]

theorem level_flags (h : g.securityLevel ≤ 15) : g.flags / 256 % 16 = g.securityLevel := by
  have hlt := flagWord_lt [g.safeRead, g.needsSession, g.needsSecurity]
  rw [length_cons, length_cons, length_cons, length_nil] at hlt
  unfold flags
  omega

end Group

/-! ## Strings -/

def Field.strings (f : Field) : List Name := f.name :: f.unit :: f.scales.map Scale.text

/-- The strings of a group. -/
def Group.strings (g : Group) : List Name := g.names ++ g.fields.flatMap Field.strings

/-- The strings of an ECU. -/
def Ecu.strings (e : Ecu) : List Name := e.name :: e.groups.flatMap Group.strings

/-- The names of the catalog, its units and its texts. -/
def Catalog.strings (cat : Catalog) : List Name := cat.ecus.flatMap Ecu.strings

/-- The string is the encoding of one that ends where C lets it end. -/
def Terminated (s : Name) : Prop := 0 ∉ s ∧ utf8 s = true

instance (s : Name) : Decidable (Terminated s) := inferInstanceAs (Decidable (_ ∧ _))

variable {cat : Catalog} {g : Group} {f : Field} {i : Nat}

theorem Catalog.mem_strings_group (hg : g ∈ cat.groups) {n : Name}
    (hn : n ∈ g.strings) : n ∈ cat.strings := by
  obtain ⟨e, he, hge⟩ := mem_flatMap.mp hg
  exact mem_flatMap.mpr ⟨e, he, mem_cons_of_mem _ (mem_flatMap.mpr ⟨g, hge, hn⟩)⟩

theorem Catalog.mem_strings_field (hf : f ∈ cat.fields) {n : Name}
    (hn : n ∈ f.strings) : n ∈ cat.strings := by
  obtain ⟨g, hg, hfg⟩ := mem_flatMap.mp hf
  exact mem_strings_group hg (mem_append_right _ (mem_flatMap.mpr ⟨f, hfg, hn⟩))

theorem Catalog.mem_strings_listed {n : Name} {kind : NameKind}
    (h : Listed cat n kind i) : n ∈ cat.strings := by
  cases kind with
  | ecu =>
    obtain ⟨e, he, rfl⟩ := h
    exact mem_flatMap.mpr ⟨e, mem_of_getElem? he, mem_cons_self⟩
  | group =>
    obtain ⟨g, hg, hn⟩ := h
    exact mem_strings_group (mem_of_getElem? hg) (mem_append_left _ hn)
  | field =>
    obtain ⟨f, hf, rfl⟩ := h
    exact mem_strings_field (mem_of_getElem? hf) mem_cons_self

/-! ## Scales -/

theorem bmod_packI32 {v : Int} (hlow : i32Min ≤ v) (hhigh : v ≤ i32Max) :
    Int.bmod (packI32 v) 0x100000000 = v := by
  unfold i32Min at hlow
  unfold i32Max at hhigh
  unfold packI32
  rw [Int.bmod_def]
  omega

/-- The bounds that the limits put on a row. -/
def InRange (s : Scale) : Prop :=
  i32Min ≤ s.low ∧ s.low ≤ i32Max ∧ i32Min ≤ s.high ∧ s.high ≤ i32Max

instance (s : Scale) : Decidable (InRange s) := inferInstanceAs (Decidable (_ ∧ _ ∧ _ ∧ _))

theorem require_bind_eq_ok {β : Type} {p : Prop} [Decidable p] {e : LimitError}
    {f : Unit → Except LimitError β} {b : β} : require p e >>= f = .ok b ↔ p ∧ f () = .ok b := by
  rw [bind_eq_ok]
  constructor
  · rintro ⟨_, hp, h⟩
    exact ⟨require_eq_ok.mp hp, h⟩
  · rintro ⟨hp, h⟩
    exact ⟨(), require_eq_ok.mpr hp, h⟩

/-- What the limits say about a field. -/
structure FieldLimits (f : Field) : Prop where
  count : 1 ≤ f.repeatCount
  bits : ∀ i, checkBits i f.flags f.bitPos f.bitSize = .ok ()
  bitSize : 1 ≤ f.bitSize
  scales : ∀ s ∈ f.scales, InRange s

theorem testBit_flags_field (f : Field) (i : Nat) : f.flags.testBit i =
    [f.signed, f.byteswap, f.ascii, f.hexdump, f.isEnum].getD i false := testBit_flagWord _ i

theorem fieldLimits_of_checkField (h : checkField f = .ok ()) : FieldLimits f := by
  have hblock : (f.flags.testBit 2 || f.flags.testBit 3) = (f.ascii || f.hexdump) := by
    rw [testBit_flags_field, testBit_flags_field]
    rfl
  obtain ⟨hcount, hbits, hscales⟩ : 1 ≤ f.repeatCount ∧
      (if (f.ascii || f.hexdump) = true then
        (f.bitSize % 8 = 0 ∧ 8 ≤ f.bitSize ∧ f.bitSize ≤ maxBlockBits) ∧ f.bitPos % 8 = 0
      else 1 ≤ f.bitSize ∧ f.bitSize ≤ maxNumericBits) ∧
      f.scales.forM (fun s => require (InRange s) (.scaleBound f.name)) = .ok () := by
    unfold checkField at h
    dsimp only at h
    split_ifs at h ⊢ <;> simp only [require_bind_eq_ok] at h
    · exact ⟨h.1.1, ⟨h.2.2.1, h.2.2.2.1⟩, h.2.2.2.2.2.2⟩
    · exact ⟨h.1.1, ⟨h.2.2.1, h.2.2.2.1⟩, h.2.2.2.2.2.2⟩
    · exact ⟨h.1.1, h.2.2.1, h.2.2.2.2.2⟩
    · exact ⟨h.1.1, h.2.2.1, h.2.2.2.2.2⟩
  refine ⟨hcount, ?_, ?_, fun s hs => require_eq_ok.mp (forM_eq_ok hscales s hs)⟩
  · intro i
    unfold checkBits
    rw [hblock]
    split_ifs at hbits ⊢
    · exact demand_bind_eq_ok.mpr ⟨hbits.1, demand_eq_ok.mpr hbits.2⟩
    · exact demand_eq_ok.mpr hbits
  · split_ifs at hbits
    · omega
    · exact hbits.1

/-- What the limits say about a group. -/
theorem checkGroup_of_checkLimits (h : checkLimits cat = .ok ())
    (hg : g ∈ cat.groups) : checkGroup g = .ok () := by
  unfold checkLimits at h
  simp only [require_bind_eq_ok] at h
  obtain ⟨_, hgroups, -⟩ := bind_eq_ok.mp h.2.2.2
  exact forM_eq_ok hgroups g hg

theorem securityLevel_of_checkLimits (h : checkLimits cat = .ok ())
    (hg : g ∈ cat.groups) : g.securityLevel ≤ 15 := by
  have hgroup := checkGroup_of_checkLimits h hg
  unfold checkGroup at hgroup
  simp only [require_bind_eq_ok] at hgroup
  exact hgroup.2.1

theorem fieldLimits_of_checkLimits (h : checkLimits cat = .ok ())
    (hf : f ∈ cat.fields) : FieldLimits f := by
  obtain ⟨g, hg, hfg⟩ := mem_flatMap.mp hf
  have hgroup := checkGroup_of_checkLimits h hg
  unfold checkGroup at hgroup
  simp only [require_bind_eq_ok] at hgroup
  exact fieldLimits_of_checkField (forM_eq_ok hgroup.2.2.2.2 f hfg)

/-! ## Numbered fields -/

theorem mem_numberFields {gi k : Nat} {gs : List Group}
    (h : (k, f) ∈ numberFields gi gs) : ∃ j g, gs[j]? = some g ∧ k = gi + j ∧ f ∈ g.fields := by
  induction gs generalizing gi with
  | nil => cases h
  | cons g gs ih =>
    rcases mem_append.mp h with h | h
    · obtain ⟨f', hf', heq⟩ := mem_map.mp h
      cases heq
      exact ⟨0, g, rfl, rfl, hf'⟩
    · obtain ⟨j, g', hj, hk, hf⟩ := ih h
      exact ⟨j + 1, g', hj, by omega, hf⟩

theorem map_snd_numberFields (gi : Nat) (gs : List Group) :
    (numberFields gi gs).map Prod.snd = gs.flatMap Group.fields := by
  induction gs generalizing gi with
  | nil => rfl
  | cons g gs ih =>
    rw [numberFields, map_append, ih, map_map, flatMap_cons]
    congr 1
    exact map_id _

/-- The fields of a group are a run of the numbered ones. -/
theorem run_numberFields {gi k : Nat} {g : Group} {gs : List Group} (hk : gs[k]? = some g) :
    ((numberFields gi gs).drop ((gs.take k).flatMap Group.fields).length).take g.fields.length =
      g.fields.map (gi + k, ·) := by
  induction gs generalizing gi k with
  | nil => cases hk
  | cons g' gs ih =>
    cases k with
    | zero =>
      cases hk
      rw [take_zero, flatMap_nil, length_nil, drop_zero, numberFields, take_left' (length_map _)]
      rfl
    | succ k =>
      rw [take_succ_cons, flatMap_cons, length_append, numberFields, ← drop_drop,
        drop_left' (length_map _), ih hk, Nat.add_assoc, Nat.add_comm 1]

theorem le_length_flatMap {α β : Type} {f : α → List β} {l : List α} {a : α} (hi : l[i]? = some a) :
    ((l.take i).flatMap f).length + (f a).length ≤ (l.flatMap f).length := by
  obtain ⟨hlt, rfl⟩ := List.getElem?_eq_some_iff.mp hi
  conv_rhs => rw [← take_append_drop i l, flatMap_append, drop_eq_getElem_cons hlt, flatMap_cons]
  rw [length_append, length_append]
  omega

theorem run_flatMap {α β : Type} {f : α → List β} {l : List α} {a : α} (hi : l[i]? = some a) :
    ((l.flatMap f).drop ((l.take i).flatMap f).length).take (f a).length = f a := by
  obtain ⟨hlt, rfl⟩ := List.getElem?_eq_some_iff.mp hi
  have hsplit : l.flatMap f = (l.take i).flatMap f ++ (f l[i] ++ (l.drop (i + 1)).flatMap f) := by
    conv_lhs => rw [← take_append_drop i l, flatMap_append, drop_eq_getElem_cons hlt, flatMap_cons]
  rw [hsplit, drop_left, take_left]

theorem checkOwner_eq_ok {first : Nat} {run : List (Field × Nat)} (h : ∀ p ∈ run, p.2 = i) :
    checkOwner i first run = .ok () := by
  unfold checkOwner
  rw [findIdx?_eq_none_iff.mpr (fun p hp => decide_eq_false (not_not.mpr (h p hp)))]

/-- The aliases are read from the index, which lists the name as well. -/
theorem normalise_namesOf {names : List (Nat × Name)}
    (hnames : ∀ k n, (k, n) ∈ names ↔ Listed cat n .group k) {k : Nat}
    (hk : cat.groups[k]? = some g) (haliases : g.aliases = normalise g.name g.aliases) :
    normalise g.name (namesOf names k) = g.aliases := by
  rw [haliases]
  apply normalise_congr
  intro n hne
  rw [namesOf, mem_map]
  constructor
  · rintro ⟨⟨k', n'⟩, hmem, rfl⟩
    obtain ⟨hlisted, hk'⟩ := mem_filter.mp hmem
    obtain rfl : k' = k := of_decide_eq_true hk'
    obtain ⟨g', hg', hn⟩ := (hnames k' n').mp hlisted
    obtain rfl := Option.some.inj (hk.symm.trans hg')
    exact haliases ▸ (mem_cons.mp hn).resolve_left hne
  · intro hn
    refine ⟨(k, n), mem_filter.mpr ⟨(hnames k n).mpr ⟨g, hk, ?_⟩, decide_eq_true rfl⟩, rfl⟩
    exact mem_cons_of_mem _ (haliases ▸ hn)

namespace Flashed

variable {cat : Catalog} (d : Flashed cat)

theorem readStr_opened {ref : Nat} {name : Name}
    (h : Pool.Holds (tablesOf cat).strings.contents ref (name ++ [0])) (hname : Terminated name) :
    readStr d.opened ref = .ok name := by
  have hlt := h.lt_length (concat_ne_nil _ _)
  rw [← d.packed.strings] at hlt
  refine readStr_eq_ok.mpr ⟨hlt, hname.2, ?_⟩
  rw [d.string_opened h, cstr_eq_self hname.1]

variable {off i : Nat} {n : Name} {kind : NameKind}

theorem readStr_refOf {name : Name}
    (h : (tablesOf cat).strings.lookup name = some off) (hname : Terminated name) :
    readStr d.opened ((tablesOf cat).refOf name) = .ok name := by
  obtain ⟨run, hkey, hholds⟩ := (@sound cat).strings name off (Pool.mem_of_lookup h)
  obtain rfl : run = name := hkey
  apply d.readStr_opened _ hname
  rw [Tables.refOf, h]
  exact hholds

theorem readScale_opened {s : Scale} (hi : (tablesOf cat).scales.contents[i]? = some s)
    (hrange : InRange s) (hoff : (tablesOf cat).strings.lookup s.text = some off)
    (htext : Terminated s.text) : readScale d.opened i = .ok s := by
  obtain ⟨bytes, hbytes, hpack⟩ := forall₂_getElem? d.packed.scales hi
  obtain ⟨rest, hrest⟩ := d.mapped.exists_scale d.wellFormed hbytes
  have hload := fun i off => @loadLe_field scaleFields _ bytes hpack rest i off
  unfold readScale
  dsimp only
  rw [show d.opened.base.drop (d.opened.scalesOff + i * scaleRecordSize) = bytes ++ rest from hrest]
  unfold loadI32 loadF32 loadU16 loadU32
  rw [hload 0 0x00 rfl rfl rfl, hload 1 0x04 rfl rfl rfl, hload 2 0x08 rfl rfl rfl,
    hload 3 0x0C rfl rfl rfl, hload 4 0x10 rfl rfl rfl, hload 5 0x14 rfl rfl rfl,
    bmod_packI32 hrange.1 hrange.2.1, bmod_packI32 hrange.2.2.1 hrange.2.2.2, UInt32.ofNat_toNat,
    UInt32.ofNat_toNat, testBit_flagWord]
  exact bind_eq_ok.mpr ⟨_, d.readStr_refOf hoff htext, rfl⟩

/-- The stored scales have bounds of 32 bits and texts that end. -/
theorem scalesKnown (hlimits : checkLimits cat = .ok ())
    (hstrings : ∀ s ∈ cat.strings, Terminated s) :
    ScalesKnown (fun s => InRange s ∧ Terminated s.text) (tablesOf cat) := by
  apply scalesKnown_tablesOf
  intro f hf s hs
  exact ⟨(fieldLimits_of_checkLimits hlimits hf).scales s hs, hstrings _
    (Catalog.mem_strings_field hf (mem_cons_of_mem _ (mem_cons_of_mem _ (mem_map_of_mem hs))))⟩

/-- The scale table is read as it was collected. -/
theorem readScales_opened (hlimits : checkLimits cat = .ok ())
    (hstrings : ∀ s ∈ cat.strings, Terminated s) :
    readScales d.opened = .ok (tablesOf cat).scales.contents := by
  refine mapM_range_eq_ok.mpr ⟨d.packed.scales.length_eq, ?_⟩
  intro i s hi
  obtain ⟨⟨hrange, htext⟩, off, hoff⟩ := (scalesKnown hlimits hstrings).known s (mem_of_getElem? hi)
  exact d.readScale_opened hi hrange hoff htext

theorem readField_opened (hstored : Stored cat) (hlimits : checkLimits cat = .ok ())
    (hstrings : ∀ s ∈ cat.strings, Terminated s) {gi : Nat} {f : Field}
    (hi : (numberFields 0 cat.groups)[i]? = some (gi, f)) :
    readField d.opened (tablesOf cat).scales.contents i = .ok (f, gi) := by
  obtain ⟨r, hr, hwritten⟩ := forall₂_getElem? (written_tablesOf cat).fields hi
  obtain ⟨bytes, hbytes, hpack⟩ := forall₂_getElem? d.packed.fields hr
  obtain ⟨rest, hrest⟩ := d.mapped.exists_field d.wellFormed hbytes
  have hload := fun i off => @loadLe_field fieldFields _ bytes hpack rest i off
  have hfield : cat.fields[i]? = some f := by
    rw [Catalog.fields, ← map_snd_numberFields 0, getElem?_map, hi]
    rfl
  have hf := mem_of_getElem? hfield
  have hlimit := fieldLimits_of_checkLimits hlimits hf
  have hname := d.readStr_opened hwritten.name
    (hstrings _ (Catalog.mem_strings_field hf mem_cons_self))
  have hunit := d.readStr_opened hwritten.unit
    (hstrings _ (Catalog.mem_strings_field hf (mem_cons_of_mem _ mem_cons_self)))
  have hrun := hstored i f r hfield hr
  have hinside : r.scaleFirst ≤ (tablesOf cat).scales.contents.length :=
    (scalesKnown_tablesOf (P := fun _ => True) fun _ _ _ _ => trivial).inside r (mem_of_getElem? hr)
  have hcount : d.opened.scaleCount = (tablesOf cat).scales.contents.length :=
    d.packed.scales.length_eq.symm
  have hgroups : gi < d.opened.groupCount := by
    obtain ⟨j, g, hj, hgi, -⟩ := mem_numberFields (mem_of_getElem? hi)
    obtain ⟨hlt, -⟩ := List.getElem?_eq_some_iff.mp hj
    have hlen := (written_tablesOf cat).groups.length_eq.trans d.packed.groups.length_eq
    rw [length_numberGroups] at hlen
    rw [hgi, Nat.zero_add]
    exact lt_of_lt_of_eq hlt hlen
  unfold readField
  dsimp only
  rw [show d.opened.base.drop (d.opened.fieldsOff + i * fieldRecordSize) = bytes ++ rest from hrest]
  unfold loadU8 loadU16 loadU32
  rw [hload 0 0x00 rfl rfl rfl, hload 1 0x04 rfl rfl rfl, hload 2 0x08 rfl rfl rfl,
    hload 3 0x0A rfl rfl rfl, hload 4 0x0B rfl rfl rfl, hload 5 0x0C rfl rfl rfl,
    hload 6 0x0E rfl rfl rfl, hload 7 0x0F rfl rfl rfl, hload 8 0x10 rfl rfl rfl,
    hload 9 0x12 rfl rfl rfl, hwritten.values]
  dsimp only
  refine demand_bind_eq_ok.mpr ⟨?_, demand_bind_eq_ok.mpr ⟨hgroups,
    bind_eq_ok.mpr ⟨_, hlimit.bits i, bind_eq_ok.mpr ⟨_, hname, bind_eq_ok.mpr ⟨_, hunit, ?_⟩⟩⟩⟩⟩
  · rw [hcount]
    have hle := hrun.length_le
    rw [length_drop] at hle
    omega
  · rw [testBit_flags_field, testBit_flags_field, testBit_flags_field, testBit_flags_field,
      ← prefix_iff_eq_take.mp hrun, Nat.max_eq_left hlimit.count]
    rfl

theorem readFields_opened (hstored : Stored cat) (hlimits : checkLimits cat = .ok ())
    (hstrings : ∀ s ∈ cat.strings, Terminated s) :
    readFields d.opened (tablesOf cat).scales.contents =
      .ok ((numberFields 0 cat.groups).map Prod.swap) := by
  refine mapM_range_eq_ok.mpr ⟨?_, ?_⟩
  · rw [length_map]
    exact (written_tablesOf cat).fields.length_eq.trans d.packed.fields.length_eq
  · intro i p hp
    rw [getElem?_map, Option.map_eq_some_iff] at hp
    obtain ⟨⟨gi, f⟩, hi, rfl⟩ := hp
    exact d.readField_opened hstored hlimits hstrings hi

/-! ## The name index -/

/-- The entry of a listed name. -/
def entryOf (cat : Catalog) (n : Name) (kind : NameKind) (i : Nat) : IndexEntry where
  hash := (fnv1a n).toNat
  nameRef := (tablesOf cat).refOf n
  target := kind.toNat * targetUnit + i

theorem readStr_entryOf (hstrings : ∀ s ∈ cat.strings, Terminated s) (h : Listed cat n kind i) :
    readStr d.opened (entryOf cat n kind i).nameRef = .ok n := by
  obtain ⟨off, hoff⟩ := (@sound cat).listed _ (mem_indexNames.mpr h)
  exact d.readStr_refOf hoff (hstrings n (Catalog.mem_strings_listed h))

theorem target_entryOf (n : Name) (kind : NameKind) {i : Nat} (hi : i < targetUnit) :
    (entryOf cat n kind i).target / targetUnit = kind.toNat ∧
      (entryOf cat n kind i).target % targetUnit = i := by
  have hunit : 0 < targetUnit := by decide
  unfold entryOf
  dsimp only
  rw [Nat.mul_comm, Nat.mul_add_div hunit, Nat.div_eq_of_lt hi, Nat.add_zero, Nat.mul_add_mod,
    Nat.mod_eq_of_lt hi]
  exact ⟨rfl, rfl⟩

theorem toNat_inj {kind' : NameKind} (h : kind.toNat = kind'.toNat) : kind = kind' := by
  cases kind <;> cases kind' <;> first | rfl | exact absurd h (by decide)

include d in
/-- An entry is that of one name. -/
theorem entryOf_inj (hlimits : checkLimits cat = .ok ())
    (hstrings : ∀ s ∈ cat.strings, Terminated s) {n' : Name} {kind' : NameKind} {i' : Nat}
    (hn : Listed cat n kind i) (hn' : Listed cat n' kind' i')
    (h : entryOf cat n kind i = entryOf cat n' kind' i') : n = n' ∧ kind = kind' ∧ i = i' := by
  have hname := d.readStr_entryOf hstrings hn
  rw [h, d.readStr_entryOf hstrings hn'] at hname
  obtain ⟨hkind, hindex⟩ := @target_entryOf cat n kind i (d.lt_targetUnit hlimits hn).1
  obtain ⟨hkind', hindex'⟩ := @target_entryOf cat n' kind' i' (d.lt_targetUnit hlimits hn').1
  rw [h] at hkind hindex
  exact ⟨(Except.ok.inj hname).symm, toNat_inj (hkind.symm.trans hkind'),
    hindex.symm.trans hindex'⟩

/-- No record is missing behind an index that is listed. -/
theorem inRange_of_listed (hlimits : checkLimits cat = .ok ()) {wanted : NameKind}
    {count : Nat} (h : Listed cat n kind i)
    (hcount : d.opened.indexInRange wanted i = decide (i < count)) :
    ¬(kind.toNat = wanted.toNat ∧ count ≤ i) := by
  rintro ⟨hkind, hle⟩
  have hrange := (d.lt_targetUnit hlimits h).2
  rw [toNat_inj hkind, hcount, decide_eq_true_iff] at hrange
  omega

theorem readIndex_opened (hlimits : checkLimits cat = .ok ())
    (hstrings : ∀ s ∈ cat.strings, Terminated s) {m p : Nat} {prev : Nat × Nat}
    (hm : p + m = (tablesOf cat).index.length)
    (hprev : ∀ e, (tablesOf cat).index[p]? = some e →
      ¬(e.hash < prev.1 ∨ e.hash = prev.1 ∧ e.target < prev.2)) :
    ∃ names, readIndex d.opened prev (range' p m) = .ok names ∧
      (∀ k n, (k, n) ∈ names → Listed cat n .group k) ∧
      ∀ q k n, p ≤ q → (tablesOf cat).index[q]? = some (entryOf cat n .group k) →
        Listed cat n .group k → (k, n) ∈ names := by
  induction m generalizing p prev with
  | zero =>
    refine ⟨[], rfl, nofun, ?_⟩
    intro q k n hq he _
    obtain ⟨hlt, -⟩ := List.getElem?_eq_some_iff.mp he
    omega
  | succ m ih =>
    have hp : p < (tablesOf cat).index.length := by omega
    have hentry := List.getElem?_eq_getElem hp
    obtain ⟨n, kind, i, hmem, he⟩ := mem_index.mp (getElem_mem hp)
    have hlisted := mem_indexNames.mp hmem
    obtain ⟨hhash, href, htarget⟩ := d.entry_opened hentry
    obtain ⟨hkind, hindex⟩ := @target_entryOf cat n kind i (d.lt_targetUnit hlimits hlisted).1
    rw [show (tablesOf cat).index[p] = entryOf cat n kind i from he] at hentry hhash href htarget
    obtain ⟨names, hnames, hsound, hcomplete⟩ := @ih (p + 1)
      ((entryOf cat n kind i).hash, (entryOf cat n kind i).target) (by omega) (by
        intro e' he'
        obtain ⟨hlt, heq⟩ := List.getElem?_eq_some_iff.mp he'
        have hbefore := pairwise_iff_getElem.mp (index_sorted (tablesOf cat)) p (p + 1) hp hlt
          (Nat.lt_succ_self p)
        rw [heq, show (tablesOf cat).index[p] = entryOf cat n kind i from he] at hbefore
        unfold IndexEntry.Before at hbefore
        omega)
    refine ⟨if kind = .group then (i, n) :: names else names, ?_, ?_, ?_⟩
    · rw [range'_succ, readIndex]
      dsimp only
      rw [show loadU32 (d.opened.base.drop (d.opened.indexOff + p * indexRecordSize)) 0 = _
        from hhash, href, htarget, hkind, hindex]
      refine demand_bind_eq_ok.mpr ⟨hprev _ hentry, bind_eq_ok.mpr
        ⟨n, d.readStr_entryOf hstrings hlisted, demand_bind_eq_ok.mpr ⟨rfl, demand_bind_eq_ok.mpr
          ⟨d.inRange_of_listed hlimits hlisted rfl, demand_bind_eq_ok.mpr
            ⟨d.inRange_of_listed hlimits hlisted rfl, demand_bind_eq_ok.mpr
              ⟨d.inRange_of_listed hlimits hlisted rfl, bind_eq_ok.mpr ⟨names, hnames, ?_⟩⟩⟩⟩⟩⟩⟩
      show Except.ok _ = _
      congr 1
      by_cases hgroup : kind = .group
      · rw [if_pos hgroup, if_pos (congrArg NameKind.toNat hgroup)]
      · rw [if_neg hgroup, if_neg (fun h => hgroup (toNat_inj h))]
    · intro k n' hn'
      split_ifs at hn' with hgroup
      · rcases mem_cons.mp hn' with heq | hn'
        · cases heq
          exact hgroup ▸ hlisted
        · exact hsound k n' hn'
      · exact hsound k n' hn'
    · intro q k n' hq hq' hlisted'
      rcases Nat.eq_or_lt_of_le hq with rfl | hlt
      · rw [hentry] at hq'
        obtain ⟨rfl, rfl, rfl⟩ := d.entryOf_inj hlimits hstrings hlisted hlisted'
          (Option.some.inj hq')
        rw [if_pos rfl]
        exact mem_cons_self
      · have hrest := hcomplete q k n' hlt hq' hlisted'
        split_ifs
        · exact mem_cons_of_mem _ hrest
        · exact hrest

/-- The index gives the names of every group back. -/
theorem exists_names (hlimits : checkLimits cat = .ok ())
    (hstrings : ∀ s ∈ cat.strings, Terminated s) :
    ∃ names, readIndex d.opened (0, 0) (range d.opened.indexCount) = .ok names ∧
      ∀ k n, (k, n) ∈ names ↔ Listed cat n .group k := by
  have hprev : ∀ e, (tablesOf cat).index[0]? = some e →
      ¬(e.hash < ((0, 0) : Nat × Nat).1 ∨
        e.hash = ((0, 0) : Nat × Nat).1 ∧ e.target < ((0, 0) : Nat × Nat).2) := by
    intro e _
    omega
  obtain ⟨names, hnames, hsound, hcomplete⟩ :=
    d.readIndex_opened hlimits hstrings (Nat.zero_add _) hprev
  rw [d.indexCount_opened, range_eq_range']
  refine ⟨names, hnames, fun k n => ⟨hsound k n, ?_⟩⟩
  intro h
  have hmem : entryOf cat n .group k ∈ (tablesOf cat).index :=
    mem_index.mpr ⟨n, .group, k, mem_indexNames.mpr h, rfl⟩
  obtain ⟨q, hq⟩ := List.getElem?_of_mem hmem
  exact hcomplete q k n (Nat.zero_le q) hq h

/-! ## Groups and ECUs -/

theorem groupCount_opened : d.opened.groupCount = cat.groups.length := by
  have hlen := (written_tablesOf cat).groups.length_eq.trans d.packed.groups.length_eq
  rw [length_numberGroups] at hlen
  exact hlen.symm

theorem fieldCount_opened : d.opened.fieldCount = cat.fields.length := by
  have hlen := (written_tablesOf cat).fields.length_eq.trans d.packed.fields.length_eq
  rw [length_numberFields] at hlen
  exact hlen.symm

/-- The request of a record, in its pool. -/
theorem request_opened {request : List UInt8}
    (h : Pool.Holds (tablesOf cat).requests.contents off request) (hpos : request ≠ []) :
    d.opened.reqbytesOff ≤ d.sections.reqbytesOff + off ∧
      d.sections.reqbytesOff + off + request.length ≤
        d.opened.reqbytesOff + d.opened.reqbytesLen ∧
      (d.opened.base.drop (d.sections.reqbytesOff + off)).take request.length = request := by
  rw [← d.packed.reqbytes] at h
  have hview := d.mapped.requestBytes_opened d.wellFormed (g := {
    name := [], reqOff := d.sections.reqbytesOff + off, reqLen := request.length, sid := 0, flags := 0
    fieldFirst := 0, fieldCount := 0, did := 0, respMinLen := 0 }) h rfl rfl hpos
  unfold Uds.Catalog.requestBytes at hview
  dsimp only at hview
  change (if _ then _ else if _ < d.opened.reqbytesOff then _ else
    if d.opened.reqbytesLen < _ - d.opened.reqbytesOff + _ then _ else
      some ((d.opened.base.drop _).take _)) = _ at hview
  split_ifs at hview with hzero hlow hend
  exact ⟨Nat.not_lt.mp hlow, by omega, Option.some.inj hview⟩

theorem readGroup_opened (hlimits : checkLimits cat = .ok ())
    (hstrings : ∀ s ∈ cat.strings, Terminated s)
    (haliases : ∀ g ∈ cat.groups, g.aliases = normalise g.name g.aliases)
    {names : List (Nat × Name)} (hnames : ∀ k n, (k, n) ∈ names ↔ Listed cat n .group k)
    {k : Nat} {g : Group} (hk : cat.groups[k]? = some g) :
    readGroup d.opened ((numberFields 0 cat.groups).map Prod.swap) names k = .ok g := by
  have hnumber := getElem?_numberGroups 0 cat.groups k
  rw [hk, Option.map_some, Nat.zero_add] at hnumber
  obtain ⟨r, hr, hwritten⟩ := forall₂_getElem? (written_tablesOf cat).groups hnumber
  obtain ⟨bytes, hbytes, hpack⟩ := forall₂_getElem? d.packed.groups hr
  obtain ⟨rest, hrest⟩ := d.mapped.exists_group d.wellFormed hbytes
  have hload := fun i off => @loadLe_field groupFields _ bytes hpack rest i off
  have hg := mem_of_getElem? hk
  have hname := d.readStr_opened hwritten.name (hstrings _ (Catalog.mem_strings_group hg
    (mem_append_left _ mem_cons_self)))
  have hrequest := List.length_pos_iff.mpr (group_of_checkLimits hlimits hg).1
  have hrun := @run_numberFields 0 k g cat.groups hk
  rw [Nat.zero_add] at hrun
  have hfields : ((((numberFields 0 cat.groups).map Prod.swap).drop
      ((cat.groups.take k).flatMap Group.fields).length).take g.fields.length) =
        g.fields.map (·, k) := by
    rw [← map_drop, ← map_take, hrun, map_map]
    rfl
  obtain ⟨hlow, hend, hpool⟩ := d.request_opened hwritten.request
    (group_of_checkLimits hlimits hg).1
  unfold readGroup
  dsimp only
  rw [show d.opened.base.drop (d.opened.groupsOff + k * groupRecordSize) = bytes ++ rest from hrest]
  unfold loadU8 loadU16 loadU32
  rw [hload 0 0x00 rfl rfl rfl, hload 1 0x04 rfl rfl rfl, hload 2 0x08 rfl rfl rfl,
    hload 3 0x09 rfl rfl rfl, hload 4 0x0A rfl rfl rfl, hload 5 0x0C rfl rfl rfl,
    hload 6 0x0E rfl rfl rfl, hwritten.values]
  dsimp only
  rw [hpool, hfields, g.testBit_flags (by decide), g.testBit_flags (by decide),
    g.level_flags (securityLevel_of_checkLimits hlimits hg), map_map]
  refine demand_bind_eq_ok.mpr ⟨?_, demand_bind_eq_ok.mpr ⟨?_, demand_bind_eq_ok.mpr ⟨hrequest,
    demand_bind_eq_ok.mpr ⟨rfl, bind_eq_ok.mpr ⟨_, hname, bind_eq_ok.mpr
      ⟨(), checkOwner_eq_ok ?_, ?_⟩⟩⟩⟩⟩⟩
  · rw [d.fieldCount_opened]
    exact le_length_flatMap hk
  · exact ⟨hlow, hend⟩
  · intro p hp
    obtain ⟨f, -, rfl⟩ := mem_map.mp hp
    rfl
  · show Except.ok _ = _
    dsimp only
    rw [normalise_namesOf hnames hk (haliases g hg),
      show (Prod.fst ∘ fun f : Field => (f, k)) = id from rfl, map_id]
    rfl

theorem readGroups_opened (hlimits : checkLimits cat = .ok ())
    (hstrings : ∀ s ∈ cat.strings, Terminated s)
    (haliases : ∀ g ∈ cat.groups, g.aliases = normalise g.name g.aliases)
    {names : List (Nat × Name)} (hnames : ∀ k n, (k, n) ∈ names ↔ Listed cat n .group k) :
    readGroups d.opened ((numberFields 0 cat.groups).map Prod.swap) names = .ok cat.groups :=
  mapM_range_eq_ok.mpr ⟨d.groupCount_opened.symm,
    fun _ _ hk => d.readGroup_opened hlimits hstrings haliases hnames hk⟩

theorem readEcu_opened (hstrings : ∀ s ∈ cat.strings, Terminated s) {e : Ecu}
    (hi : cat.ecus[i]? = some e) : readEcu d.opened cat.groups i = .ok e := by
  have hnumber := getElem?_numberEcus 0 cat.ecus i
  rw [hi, Option.map_some, Nat.zero_add] at hnumber
  obtain ⟨r, hr, hwritten⟩ := forall₂_getElem? (written_tablesOf cat).ecus hnumber
  obtain ⟨bytes, hbytes, hpack⟩ := forall₂_getElem? d.packed.ecus hr
  obtain ⟨rest, hrest⟩ := d.mapped.exists_ecu d.wellFormed hbytes
  have hload := fun i off => @loadLe_field ecuFields _ bytes hpack rest i off
  have hname := d.readStr_opened hwritten.name
    (hstrings _ (mem_flatMap.mpr ⟨e, mem_of_getElem? hi, mem_cons_self⟩))
  unfold readEcu
  dsimp only
  rw [show d.opened.base.drop (d.opened.ecusOff + i * ecuRecordSize) = bytes ++ rest from hrest]
  unfold loadU8 loadU16 loadU32
  rw [hload 0 0x00 rfl rfl rfl, hload 1 0x04 rfl rfl rfl, hload 2 0x08 rfl rfl rfl,
    hload 3 0x0C rfl rfl rfl, hload 4 0x0E rfl rfl rfl, hload 5 0x0F rfl rfl rfl,
    hload 6 0x10 rfl rfl rfl, hload 7 0x12 rfl rfl rfl, hload 8 0x14 rfl rfl rfl,
    hload 9 0x16 rfl rfl rfl, hwritten.values]
  dsimp only
  refine demand_bind_eq_ok.mpr ⟨?_, bind_eq_ok.mpr ⟨_, hname, ?_⟩⟩
  · rw [d.groupCount_opened]
    exact le_length_flatMap hi
  · show Except.ok _ = _
    dsimp only
    rw [Ecu.flags, testBit_flagWord, Catalog.groups, run_flatMap hi]
    rfl

theorem checkLayout_opened : checkLayout d.mapped.memory = .ok d.opened := by
  refine checkLayout_eq_ok.mpr ⟨d.open?_memory, ?_⟩
  simp only [opened, Mapped.opened, Sections.totalSize, Sections.stringsOff, Sections.indexOff,
    Sections.reqbytesOff, Sections.scalesOff, Sections.fieldsOff, Sections.groupsOff,
    Sections.ecusOff]
  omega

/-- The reader gives a catalog back as it is stored. -/
theorem readCatalog_opened (hstored : Stored cat) (hlimits : checkLimits cat = .ok ())
    (hstrings : ∀ s ∈ cat.strings, Terminated s)
    (haliases : ∀ g ∈ cat.groups, g.aliases = normalise g.name g.aliases) :
    readCatalog d.mapped.memory = .ok cat := by
  obtain ⟨names, hindex, hnames⟩ := d.exists_names hlimits hstrings
  unfold readCatalog
  refine bind_eq_ok.mpr ⟨_, d.checkLayout_opened, bind_eq_ok.mpr ⟨_, d.readScales_opened hlimits hstrings,
    bind_eq_ok.mpr ⟨_, d.readFields_opened hstored hlimits hstrings, bind_eq_ok.mpr ⟨_, hindex,
      bind_eq_ok.mpr ⟨_, d.readGroups_opened hlimits hstrings haliases hnames, bind_eq_ok.mpr
        ⟨cat.ecus, ?_, rfl⟩⟩⟩⟩⟩⟩
  exact mapM_range_eq_ok.mpr ⟨d.ecuCount_opened.symm, fun _ _ hi => d.readEcu_opened hstrings hi⟩

end Flashed

end EspCars.Uds.Compiler
