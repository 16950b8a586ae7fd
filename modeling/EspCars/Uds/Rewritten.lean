import EspCars.Uds.Lookup

/-!
# The catalog that a blob stands for

Runs of scales are shared if they are equal as Python compares them, where a zero is equal to the
one of the other sign; what is stored for all of them is the first one. `Catalog.reread` is the
catalog with every run as it is stored. It differs from the one that was written in the signs of
zeros at most (`zeroed_reread`), and the same blob is written for it (`writeCatalog_reread`).
-/

namespace EspCars.Uds.Compiler

open EspCars.Lib List

/-! ## Signs of zeros -/

def Field.zeroed (f : Field) : Field := { f with scales := scaleKey f.scales }

def Group.zeroed (g : Group) : Group := { g with fields := g.fields.map Field.zeroed }

def Ecu.zeroed (e : Ecu) : Ecu := { e with groups := e.groups.map Group.zeroed }

/-- The catalog without signs of zeros: catalogs are equal in Python if these are. -/
def Catalog.zeroed (cat : Catalog) : Catalog := { ecus := cat.ecus.map Ecu.zeroed }

theorem length_scaleKey (run : List Scale) : (scaleKey run).length = run.length :=
  length_map _

theorem map_text_scaleKey (run : List Scale) :
    (scaleKey run).map Scale.text = run.map Scale.text := by
  rw [scaleKey, map_map]
  rfl

theorem flags_zeroed (f : Field) : f.zeroed.flags = f.flags := by
  have henum : f.zeroed.isEnum = f.isEnum := by
    show (scaleKey f.scales).any _ = _
    rw [scaleKey, any_map]
    rfl
  unfold Field.flags
  rw [henum]
  rfl

theorem map_bitEnd_zeroed (fs : List Field) :
    (fs.map Field.zeroed).map Field.bitEnd = fs.map Field.bitEnd := by
  rw [map_map]
  rfl

theorem forM_map {α β ε : Type} (g : α → β) (f : β → Except ε Unit) (l : List α) :
    (l.map g).forM f = l.forM fun a => f (g a) := by
  induction l with
  | nil => rfl
  | cons a l ih =>
    show (f (g a) >>= fun _ => (l.map g).forM f) = f (g a) >>= fun _ => l.forM fun a => f (g a)
    rw [ih]

theorem checkField_zeroed (f : Field) : checkField f.zeroed = checkField f := by
  have hforM : ∀ h : Scale → Except LimitError Unit,
      (∀ s : Scale, h { s with factor := s.factor.posZero, offset := s.offset.posZero } = h s) →
      (scaleKey f.scales).forM h = f.scales.forM h := by
    intro h hs
    rw [scaleKey, forM_map]
    simp only [hs]
  unfold checkField
  rw [show f.zeroed.scales = scaleKey f.scales from rfl, length_scaleKey, hforM]
  · rfl
  · intro s
    rfl

theorem checkGroup_zeroed (g : Group) : checkGroup g.zeroed = checkGroup g := by
  unfold checkGroup
  rw [show g.zeroed.fields = g.fields.map Field.zeroed from rfl, map_map, map_map, forM_map]
  simp only [checkField_zeroed]
  rfl

variable (cat : Catalog)

theorem groups_zeroed : cat.zeroed.groups = cat.groups.map Group.zeroed := by
  unfold Catalog.groups Catalog.zeroed
  rw [flatMap_map, map_flatMap]
  rfl

theorem fields_zeroed : cat.zeroed.fields = cat.fields.map Field.zeroed := by
  unfold Catalog.fields
  rw [groups_zeroed, flatMap_map, map_flatMap]
  rfl

theorem checkLimits_zeroed : checkLimits cat.zeroed = checkLimits cat := by
  have hlengths : (cat.fields.map Field.zeroed).map (fun f => f.scales.length) =
      cat.fields.map fun f => f.scales.length := by
    rw [map_map]
    apply map_congr_left
    intro f _
    exact length_scaleKey f.scales
  unfold checkLimits
  rw [groups_zeroed, fields_zeroed, forM_map, hlengths, length_map, length_map]
  simp only [checkGroup_zeroed]
  rw [show cat.zeroed.ecus.length = cat.ecus.length from length_map _]

/-! ## What is stored -/

/-- The field at index `i` with the run that the tables hold for it. -/
def reread (t : Tables) (i : Nat) (f : Field) : Field :=
  { f with
    scales := (t.scales.contents.drop ((t.fields[i]?.map FieldRecord.scaleFirst).getD 0)).take
      f.scales.length }

def rereadFields (t : Tables) : Nat → List Field → List Field
  | _, [] => []
  | i, f :: fs => reread t i f :: rereadFields t (i + 1) fs

def rereadGroups (t : Tables) : Nat → List Group → List Group
  | _, [] => []
  | i, g :: gs =>
    { g with fields := rereadFields t i g.fields } :: rereadGroups t (i + g.fields.length) gs

def rereadEcus (t : Tables) : Nat → List Ecu → List Ecu
  | _, [] => []
  | i, e :: es =>
    { e with groups := rereadGroups t i e.groups } ::
      rereadEcus t (i + (e.groups.flatMap Group.fields).length) es

def Catalog.reread (cat : Catalog) : Catalog := { ecus := rereadEcus (tablesOf cat) 0 cat.ecus }

/-- The records and the scales of `t` are the first ones of the final tables `t'`. -/
structure Before (t t' : Tables) : Prop where
  fields : t.fields <+: t'.fields
  scales : t.scales.contents <+: t'.scales.contents

variable {t t' : Tables} {gs : List Group} {es : List Ecu} {P : Scale → Prop}

theorem Before.trans {t'' : Tables} (h : Before t t') (h' : Before t' t'') : Before t t'' :=
  ⟨h.fields.trans h'.fields, h.scales.trans h'.scales⟩

theorem FieldsAdded.before {gi : Nat} {fs : List Field}
    (h : FieldsAdded gi fs t t') : Before t t' := by
  obtain ⟨rs, hrs, -⟩ := h.fields
  exact ⟨⟨rs, hrs.symm⟩, h.grows.scales⟩

theorem GroupsAdded.before (h : GroupsAdded gs t t') : Before t t' := by
  obtain ⟨rs, hrs, -⟩ := h.fields
  exact ⟨⟨rs, hrs.symm⟩, h.grows.scales⟩

theorem EcusAdded.before (h : EcusAdded es t t') : Before t t' := by
  obtain ⟨rs, hrs, -⟩ := h.fields
  exact ⟨⟨rs, hrs.symm⟩, h.grows.scales⟩

/-- Interning the stored run is interning the run. -/
theorem internScales_stored (ht : t.Sound) {run stored : List Scale}
    (hbefore : (t.internScales run).2.scales.contents <+: t'.scales.contents)
    (hstored : stored = (t'.scales.contents.drop (t.internScales run).1).take run.length) :
    scaleKey stored = scaleKey run ∧ t.internScales stored = t.internScales run := by
  by_cases hnil : run = []
  · subst hnil
    rw [length_nil, take_zero] at hstored
    rw [hstored]
    exact ⟨rfl, rfl⟩
  · obtain ⟨-, hrun⟩ := ht.internScales run
    obtain ⟨run', hkey, hholds⟩ := hrun hnil
    obtain ⟨-, rest, hrest⟩ := hholds.mono hbefore
    have hlen : run'.length = run.length := by
      rw [← length_scaleKey, hkey, length_scaleKey]
    have heq : stored = run' := by
      rw [hstored, ← hrest, ← hlen, take_left]
    refine ⟨heq ▸ hkey, ?_⟩
    have hne : stored ≠ [] := by
      intro h
      rw [← heq, h] at hlen
      exact hnil (length_eq_zero_iff.mp hlen.symm)
    cases hlookup : t.scales.lookup (scaleKey run) with
    | some off =>
      unfold Tables.internScales Pool.intern
      rw [if_neg hne, if_neg hnil, heq, hkey, hlookup]
    | none =>
      -- The run is new, so what is stored at its offset is the run itself.
      have hfirst : (t.internScales run).1 = t.scales.contents.length := by
        unfold Tables.internScales Pool.intern
        rw [if_neg hnil, hlookup]
      have hcontents : (t.internScales run).2.scales.contents = t.scales.contents ++ run := by
        unfold Tables.internScales Pool.intern
        rw [if_neg hnil, hlookup, append_nil]
      obtain ⟨rest, hrest⟩ := hbefore
      have hsame : stored = run := by
        rw [hstored, hfirst, ← hrest, hcontents, append_assoc, drop_left, take_left]
      rw [hsame]

/-! ## The walk over what is stored -/

/-- The tables before the scales of a field are interned. -/
def named (t : Tables) (f : Field) : Tables :=
  ((((t.intern f.name).2.listName f.name .field t.fields.length).intern f.unit).2).internAll
    (f.scales.map Scale.text)

theorem named_sound (ht : t.Sound) (f : Field) : (named t f).Sound := by
  obtain ⟨hlisted, -, -⟩ := named_spec ht f.name .field t.fields.length
  exact (hlisted.intern f.unit).1.sound.internAll _ |>.sound

theorem addField_eq (t : Tables) (gi : Nat) (f : Field) :
    t.addField gi f =
      { ((named t f).internScales f.scales).2 with
        fields := ((named t f).internScales f.scales).2.fields ++
          [{ nameRef := (t.intern f.name).1
             unitRef := (((t.intern f.name).2.listName f.name .field t.fields.length).intern
               f.unit).1
             bitPos := f.bitPos
             bitSize := f.bitSize
             flags := f.flags
             scaleFirst := ((named t f).internScales f.scales).1
             scaleCount := f.scales.length
             repeatCount := f.repeatCount
             repeatStride := f.repeatStride
             groupIndex := gi }]
        anyText := ((named t f).internScales f.scales).2.anyText ||
          f.scales.any fun s => s.text ≠ [] } := rfl

/-- A field that is added has its record at the end. -/
theorem addField_fields (ht : t.Sound) (gi : Nat) (f : Field) :
    ∃ r, (t.addField gi f).fields = t.fields ++ [r] ∧
      r.scaleFirst = ((named t f).internScales f.scales).1 := by
  obtain ⟨rs, hrs, hwritten⟩ := (addField_added ht gi f).fields
  have hone := hwritten.length_eq
  obtain ⟨r, rfl⟩ := length_eq_one_iff.mp hone.symm
  refine ⟨r, hrs, ?_⟩
  rw [addField_eq] at hrs
  rw [← (append_singleton_inj.mp hrs).2]

/-- A field is added as the one that is stored for it. -/
theorem addField_reread (ht : t.Sound) (gi : Nat) (f : Field)
    (hbefore : Before (t.addField gi f) t') :
    t.addField gi (reread t' t.fields.length f) = t.addField gi f ∧
      (reread t' t.fields.length f).zeroed = f.zeroed := by
  obtain ⟨r, hr, hfirst⟩ := addField_fields ht gi f
  have hrecord : t'.fields[t.fields.length]? = some r := by
    obtain ⟨rest, hrest⟩ := hbefore.fields
    rw [← hrest, hr, append_assoc, getElem?_append_right (Nat.le_refl _), Nat.sub_self]
    rfl
  obtain ⟨stored, hstored⟩ : ∃ stored, stored =
      (t'.scales.contents.drop r.scaleFirst).take f.scales.length := ⟨_, rfl⟩
  have hreread : reread t' t.fields.length f = { f with scales := stored } := by
    rw [hstored, reread, hrecord]
    rfl
  have hscales := hbefore.scales
  rw [addField_eq] at hscales
  rw [hfirst] at hstored
  obtain ⟨hkey, hintern⟩ := internScales_stored (named_sound ht f) hscales hstored
  have htexts : stored.map Scale.text = f.scales.map Scale.text := by
    rw [← map_text_scaleKey, hkey, map_text_scaleKey]
  have hlen : stored.length = f.scales.length := by
    rw [← length_scaleKey, hkey, length_scaleKey]
  have hzeroed : (reread t' t.fields.length f).zeroed = f.zeroed := by
    rw [hreread]
    unfold Field.zeroed
    rw [hkey]
  refine ⟨?_, hzeroed⟩
  have hflags : (reread t' t.fields.length f).flags = f.flags := by
    rw [← flags_zeroed, hzeroed, flags_zeroed]
  have hnamed : named t { f with scales := stored } = named t f := by
    unfold named
    rw [htexts]
  have hany : stored.any (fun s => s.text ≠ []) = f.scales.any fun s => s.text ≠ [] := by
    have h := congrArg (fun texts : List Name => texts.any (· ≠ [])) htexts
    simp only [any_map] at h
    exact h
  rw [hreread] at hflags ⊢
  rw [addField_eq, addField_eq, hnamed, hflags, hlen, hintern, hany]

theorem addFields_reread {gi : Nat} {fs : List Field} (ht : t.Sound)
    (hbefore : Before (fs.foldl (fun t f => t.addField gi f) t) t') :
    (rereadFields t' t.fields.length fs).foldl (fun t f => t.addField gi f) t =
        fs.foldl (fun t f => t.addField gi f) t ∧
      (rereadFields t' t.fields.length fs).map Field.zeroed = fs.map Field.zeroed := by
  induction fs generalizing t with
  | nil => exact ⟨rfl, rfl⟩
  | cons f fs ih =>
    have hadded := addField_added ht gi f
    have hrest := (addFields_added gi fs hadded.sound).before
    obtain ⟨hfold, hzeroed⟩ := addField_reread ht gi f (hrest.trans hbefore)
    obtain ⟨hfolds, hzeroeds⟩ := ih hadded.sound hbefore
    rw [hadded.length_fields, length_singleton] at hfolds hzeroeds
    rw [rereadFields, foldl_cons, foldl_cons, hfold, map_cons, map_cons, hzeroed, hzeroeds]
    exact ⟨hfolds, rfl⟩

/-- The tables before the fields of a group are added. -/
def opening (t : Tables) (g : Group) : Tables :=
  ((g.aliases.foldl (fun t' name => t'.addAlias t.groups.length name)
    ((t.intern g.name).2.listName g.name .group t.groups.length)).internReq g.request).2

theorem opening_sound (ht : t.Sound) (g : Group) :
    (opening t g).Sound ∧ (opening t g).fields = t.fields := by
  obtain ⟨hlisted, -, -⟩ := named_spec ht g.name .group t.groups.length
  obtain ⟨hsound, -, -, -, hfields, -⟩ := addAliases_spec t.groups.length g.aliases hlisted
  obtain ⟨hpooled, -⟩ := hsound.internReq g.request
  exact ⟨hpooled.sound, hpooled.fields.trans hfields⟩

theorem addGroup_eq (t : Tables) (g : Group) :
    t.addGroup g =
      { g.fields.foldl (fun t' f => t'.addField t.groups.length f) (opening t g) with
        groups :=
          (g.fields.foldl (fun t' f => t'.addField t.groups.length f) (opening t g)).groups ++
            [{ nameRef := (t.intern g.name).1
               reqOff := ((g.aliases.foldl (fun t' name => t'.addAlias t.groups.length name)
                  ((t.intern g.name).2.listName g.name .group t.groups.length)).internReq
                    g.request).1
               reqLen := g.request.length
               sid := g.sid.toNat
               flags := g.flags
               fieldFirst := (opening t g).fields.length
               fieldCount := g.fields.length
               did := g.did
               respMinLen := g.respMinLen }] } := rfl

theorem addGroup_reread (ht : t.Sound) (g : Group) (hbefore : Before (t.addGroup g) t') :
    t.addGroup { g with fields := rereadFields t' t.fields.length g.fields } = t.addGroup g ∧
      (Group.zeroed { g with fields := rereadFields t' t.fields.length g.fields }) = g.zeroed := by
  obtain ⟨hsound, hfields⟩ := opening_sound ht g
  have hfold : Before (g.fields.foldl (fun t' f => t'.addField t.groups.length f) (opening t g))
      t' := ⟨hbefore.fields, hbefore.scales⟩
  obtain ⟨hfolds, hzeroeds⟩ := addFields_reread hsound hfold
  rw [hfields] at hfolds hzeroeds
  refine ⟨?_, by unfold Group.zeroed; rw [hzeroeds]⟩
  have hlen : (rereadFields t' t.fields.length g.fields).length = g.fields.length := by
    have h := congrArg List.length hzeroeds
    rwa [length_map, length_map] at h
  have hends : (rereadFields t' t.fields.length g.fields).map Field.bitEnd =
      g.fields.map Field.bitEnd := by
    rw [← map_bitEnd_zeroed, hzeroeds, map_bitEnd_zeroed]
  rw [addGroup_eq, addGroup_eq]
  unfold Group.respMinLen
  rw [show opening t { g with fields := rereadFields t' t.fields.length g.fields } =
    opening t g from rfl]
  dsimp only
  rw [hfolds, hlen, hends]
  rfl

theorem addGroups_reread (ht : t.Sound) (hbefore : Before (gs.foldl Tables.addGroup t) t') :
    (rereadGroups t' t.fields.length gs).foldl Tables.addGroup t = gs.foldl Tables.addGroup t ∧
      (rereadGroups t' t.fields.length gs).map Group.zeroed = gs.map Group.zeroed := by
  induction gs generalizing t with
  | nil => exact ⟨rfl, rfl⟩
  | cons g gs ih =>
    have hadded := addGroup_added ht g
    have hrest := (addGroups_added gs hadded.sound).before
    obtain ⟨hfold, hzeroed⟩ := addGroup_reread ht g (hrest.trans hbefore)
    obtain ⟨hfolds, hzeroeds⟩ := ih hadded.sound hbefore
    rw [hadded.length_fields, flatMap_cons, flatMap_nil, append_nil] at hfolds hzeroeds
    rw [rereadGroups, foldl_cons, foldl_cons, hfold, map_cons, map_cons, hzeroed, hzeroeds]
    exact ⟨hfolds, rfl⟩

theorem addEcu_eq (t : Tables) (e : Ecu) :
    t.addEcu e =
      { e.groups.foldl Tables.addGroup
          ((t.intern e.name).2.listName e.name .ecu t.ecus.length) with
        ecus :=
          (e.groups.foldl Tables.addGroup
            ((t.intern e.name).2.listName e.name .ecu t.ecus.length)).ecus ++
            [{ nameRef := (t.intern e.name).1
               requestId := e.requestId
               responseId := e.responseId
               flags := e.flags
               blockSize := e.blockSize
               stMinRaw := e.stMinRaw
               p2Ms := e.p2Ms
               p2ExtMs := e.p2ExtMs
               groupFirst :=
                ((t.intern e.name).2.listName e.name .ecu t.ecus.length).groups.length
               groupCount := e.groups.length }] } := rfl

theorem addEcu_reread (ht : t.Sound) (e : Ecu) (hbefore : Before (t.addEcu e) t') :
    t.addEcu { e with groups := rereadGroups t' t.fields.length e.groups } = t.addEcu e ∧
      (Ecu.zeroed { e with groups := rereadGroups t' t.fields.length e.groups }) = e.zeroed := by
  obtain ⟨hlisted, -, -⟩ := named_spec ht e.name .ecu t.ecus.length
  have hfields : ((t.intern e.name).2.listName e.name .ecu t.ecus.length).fields = t.fields :=
    (ht.intern e.name).1.fields
  have hfold : Before (e.groups.foldl Tables.addGroup
      ((t.intern e.name).2.listName e.name .ecu t.ecus.length)) t' :=
    ⟨hbefore.fields, hbefore.scales⟩
  obtain ⟨hfolds, hzeroeds⟩ := addGroups_reread hlisted hfold
  rw [hfields] at hfolds hzeroeds
  refine ⟨?_, by unfold Ecu.zeroed; rw [hzeroeds]⟩
  have hlen : (rereadGroups t' t.fields.length e.groups).length = e.groups.length := by
    have h := congrArg List.length hzeroeds
    rwa [length_map, length_map] at h
  rw [addEcu_eq, addEcu_eq]
  dsimp only
  rw [hfolds, hlen]
  rfl

theorem addEcus_reread (ht : t.Sound) (hbefore : Before (es.foldl Tables.addEcu t) t') :
    (rereadEcus t' t.fields.length es).foldl Tables.addEcu t = es.foldl Tables.addEcu t ∧
      (rereadEcus t' t.fields.length es).map Ecu.zeroed = es.map Ecu.zeroed := by
  induction es generalizing t with
  | nil => exact ⟨rfl, rfl⟩
  | cons e es ih =>
    have hadded := addEcu_added ht e
    have hrest := (addEcus_added es hadded.sound).before
    obtain ⟨hfold, hzeroed⟩ := addEcu_reread ht e (hrest.trans hbefore)
    obtain ⟨hfolds, hzeroeds⟩ := ih hadded.sound hbefore
    obtain ⟨rs, hrs, hwritten⟩ := hadded.fields
    have hlen : (t.addEcu e).fields.length =
        t.fields.length + (e.groups.flatMap Group.fields).length := by
      rw [hrs, length_append, ← hwritten.length_eq, length_numberFields, flatMap_cons, flatMap_nil,
        append_nil]
    rw [hlen] at hfolds hzeroeds
    rw [rereadEcus, foldl_cons, foldl_cons, hfold, map_cons, map_cons, hzeroed, hzeroeds]
    exact ⟨hfolds, rfl⟩

theorem tablesOf_reread : tablesOf cat.reread = tablesOf cat :=
  (addEcus_reread sound_start ⟨prefix_rfl, prefix_rfl⟩).1

/-- What is stored is equal to what was written. -/
theorem zeroed_reread : cat.reread.zeroed = cat.zeroed :=
  congrArg Catalog.mk (addEcus_reread sound_start ⟨prefix_rfl, prefix_rfl⟩).2

theorem checkLimits_reread : checkLimits cat.reread = checkLimits cat := by
  rw [← checkLimits_zeroed, zeroed_reread, checkLimits_zeroed]

theorem writeCatalog_reread : writeCatalog cat.reread = writeCatalog cat := by
  unfold writeCatalog
  rw [checkLimits_reread, tablesOf_reread]

/-! ## Catalogs as they are stored -/

theorem getElem?_rereadFields (t : Tables) (i : Nat) (fs : List Field) (j : Nat) :
    (rereadFields t i fs)[j]? = fs[j]?.map (reread t (i + j)) := by
  induction fs generalizing i j with
  | nil => rfl
  | cons f fs ih =>
    cases j with
    | zero => rfl
    | succ j =>
      rw [rereadFields, getElem?_cons_succ, getElem?_cons_succ, ih, Nat.add_assoc, Nat.add_comm 1]

theorem rereadFields_append (t : Tables) (i : Nat) (fs fs' : List Field) :
    rereadFields t i (fs ++ fs') = rereadFields t i fs ++ rereadFields t (i + fs.length) fs' := by
  induction fs generalizing i with
  | nil => rfl
  | cons f fs ih =>
    rw [cons_append, rereadFields, rereadFields, ih, cons_append, length_cons, Nat.add_assoc,
      Nat.add_comm 1]

theorem flatMap_rereadGroups (t : Tables) (i : Nat) (gs : List Group) :
    (rereadGroups t i gs).flatMap Group.fields = rereadFields t i (gs.flatMap Group.fields) := by
  induction gs generalizing i with
  | nil => rfl
  | cons g gs ih => rw [rereadGroups, flatMap_cons, flatMap_cons, ih, rereadFields_append]

theorem flatMap_rereadEcus (t : Tables) (i : Nat) (es : List Ecu) :
    ((rereadEcus t i es).flatMap Ecu.groups).flatMap Group.fields =
      rereadFields t i ((es.flatMap Ecu.groups).flatMap Group.fields) := by
  induction es generalizing i with
  | nil => rfl
  | cons e es ih =>
    rw [rereadEcus, flatMap_cons, flatMap_cons, flatMap_append, flatMap_append, ih,
      flatMap_rereadGroups, rereadFields_append]

/-- Every field has the scales that its record refers to. -/
def Stored (cat : Catalog) : Prop :=
  ∀ (i : Nat) (f : Field) (r : FieldRecord), cat.fields[i]? = some f →
    (tablesOf cat).fields[i]? = some r →
    f.scales <+: (tablesOf cat).scales.contents.drop r.scaleFirst

theorem stored_reread : Stored cat.reread := by
  intro i f r hf hr
  rw [tablesOf_reread] at hr ⊢
  have hfields : cat.reread.fields = rereadFields (tablesOf cat) 0 cat.fields :=
    flatMap_rereadEcus (tablesOf cat) 0 cat.ecus
  rw [hfields, getElem?_rereadFields, Nat.zero_add, Option.map_eq_some_iff] at hf
  obtain ⟨f', -, rfl⟩ := hf
  unfold reread
  rw [hr]
  exact take_prefix _ _

/-! ## The stored scales -/

/-- Every stored scale has its text interned, and `P` holds of it; every record refers to a place
in the pool. -/
structure ScalesKnown (P : Scale → Prop) (t : Tables) : Prop where
  known : ∀ s ∈ t.scales.contents, P s ∧ ∃ off, t.strings.lookup s.text = some off
  inside : ∀ r ∈ t.fields, r.scaleFirst ≤ t.scales.contents.length

theorem ScalesKnown.mono (h : ScalesKnown P t)
    (hgrows : Grows t t') (hscales : t'.scales = t.scales) (hfields : t'.fields = t.fields) :
    ScalesKnown P t' := by
  constructor
  · intro s hs
    rw [hscales] at hs
    obtain ⟨hp, off, hoff⟩ := h.known s hs
    exact ⟨hp, off, hgrows.lookup _ _ hoff⟩
  · rw [hscales, hfields]
    exact h.inside

theorem scales_internAll (t : Tables) (names : List Name) :
    (t.internAll names).scales = t.scales := by
  unfold Tables.internAll
  induction names generalizing t with
  | nil => rfl
  | cons n names ih => exact ih _

theorem lookup_internAll (ht : t.Sound) {names : List Name} {n : Name}
    (hn : n ∈ names) : ∃ off, (t.internAll names).strings.lookup n = some off := by
  induction names generalizing t with
  | nil => cases hn
  | cons n' names ih =>
    obtain ⟨hpooled, -, hlookup⟩ := ht.intern n'
    rcases mem_cons.mp hn with rfl | hn
    · exact ⟨_, (hpooled.sound.internAll names).lookup _ _ hlookup⟩
    · exact ih hpooled.sound hn

theorem first_internScales (ht : t.Sound) (run : List Scale) :
    (t.internScales run).1 ≤ (t.internScales run).2.scales.contents.length := by
  by_cases hnil : run = []
  · unfold Tables.internScales
    rw [if_pos hnil]
    exact Nat.zero_le _
  · obtain ⟨-, hrun⟩ := ht.internScales run
    obtain ⟨_, -, hholds⟩ := hrun hnil
    exact hholds.1

theorem mem_internScales {run : List Scale} {s : Scale}
    (hs : s ∈ (t.internScales run).2.scales.contents) : s ∈ t.scales.contents ∨ s ∈ run := by
  unfold Tables.internScales at hs
  split_ifs at hs
  · exact Or.inl hs
  · rw [← append_nil run]
    exact Pool.mem_contents_intern hs

theorem scalesKnown_addField (ht : t.Sound)
    (h : ScalesKnown P t) (gi : Nat) {f : Field} (hf : ∀ s ∈ f.scales, P s) :
    ScalesKnown P (t.addField gi f) := by
  obtain ⟨hlisted, hgrows, -⟩ := named_spec ht f.name .field t.fields.length
  have hunit := (hlisted.intern f.unit).1
  have htexts := hunit.sound.internAll (f.scales.map Scale.text)
  have hnamed : Grows t (named t f) := (hgrows.trans hunit.toGrows).trans htexts.toGrows
  have hsound := named_sound ht f
  have hfields : (named t f).fields = t.fields := htexts.fields.trans hunit.fields
  have hknown : ScalesKnown P (named t f) := h.mono hnamed (scales_internAll _ _) hfields
  have hpooled := (hsound.internScales f.scales).1
  rw [addField_eq]
  constructor
  · intro s hs
    rcases mem_internScales hs with hs | hs
    · obtain ⟨hp, off, hoff⟩ := hknown.known s hs
      exact ⟨hp, off, hpooled.lookup _ _ hoff⟩
    · obtain ⟨off, hoff⟩ := lookup_internAll hunit.sound (mem_map_of_mem hs)
      exact ⟨hf s hs, off, hpooled.lookup _ _ hoff⟩
  · intro r hr
    rcases mem_append.mp hr with hr | hr
    · rw [hpooled.fields] at hr
      exact (hknown.inside r hr).trans hpooled.scales.length_le
    · rw [mem_singleton.mp hr]
      exact first_internScales hsound f.scales

theorem scalesKnown_addFields {P : Scale → Prop} {gi : Nat} {fs : List Field} {t : Tables}
    (ht : t.Sound) (h : ScalesKnown P t) (hfs : ∀ f ∈ fs, ∀ s ∈ f.scales, P s) :
    ScalesKnown P (fs.foldl (fun t f => t.addField gi f) t) := by
  induction fs generalizing t with
  | nil => exact h
  | cons f fs ih =>
    have hadded := addField_added ht gi f
    exact ih hadded.sound (scalesKnown_addField ht h gi (hfs f mem_cons_self))
      fun f' hf' => hfs f' (mem_cons_of_mem _ hf')

theorem scales_opening (t : Tables) (g : Group) : (opening t g).scales = t.scales := by
  have haliases : ∀ (aliases : List Name) (gi : Nat) (t : Tables),
      (aliases.foldl (fun t' name => t'.addAlias gi name) t).scales = t.scales := by
    intro aliases gi
    induction aliases with
    | nil => exact fun _ => rfl
    | cons n aliases ih => exact fun t => ih _
  exact haliases _ _ _

theorem scalesKnown_addGroups (ht : t.Sound)
    (h : ScalesKnown P t) (hgs : ∀ g ∈ gs, ∀ f ∈ g.fields, ∀ s ∈ f.scales, P s) :
    ScalesKnown P (gs.foldl Tables.addGroup t) := by
  induction gs generalizing t with
  | nil => exact h
  | cons g gs ih =>
    have hadded := addGroup_added ht g
    obtain ⟨hlisted, hgrows, -⟩ := named_spec ht g.name .group t.groups.length
    obtain ⟨hsound, hgrows', -⟩ := addAliases_spec t.groups.length g.aliases hlisted
    have hrequest := (hsound.internReq g.request).1
    have hopening : ScalesKnown P (opening t g) :=
      h.mono ((hgrows.trans hgrows').trans hrequest.toGrows) (scales_opening t g)
        (opening_sound ht g).2
    have hadds := @scalesKnown_addFields P t.groups.length g.fields _ (opening_sound ht g).1
      hopening (hgs g mem_cons_self)
    exact ih hadded.sound ⟨hadds.known, hadds.inside⟩
      fun g' hg' => hgs g' (mem_cons_of_mem _ hg')

theorem scalesKnown_addEcus (ht : t.Sound) (h : ScalesKnown P t)
    (hes : ∀ e ∈ es, ∀ g ∈ e.groups, ∀ f ∈ g.fields, ∀ s ∈ f.scales, P s) :
    ScalesKnown P (es.foldl Tables.addEcu t) := by
  induction es generalizing t with
  | nil => exact h
  | cons e es ih =>
    have hadded := addEcu_added ht e
    obtain ⟨hlisted, hgrows, -⟩ := named_spec ht e.name .ecu t.ecus.length
    have hadds := scalesKnown_addGroups hlisted (h.mono hgrows rfl rfl) (hes e mem_cons_self)
    exact ih hadded.sound ⟨hadds.known, hadds.inside⟩
      fun e' he' => hes e' (mem_cons_of_mem _ he')

/-- What holds of every scale of the catalog holds of the stored ones. -/
theorem scalesKnown_tablesOf {cat : Catalog}
    (h : ∀ f ∈ cat.fields, ∀ s ∈ f.scales, P s) : ScalesKnown P (tablesOf cat) := by
  refine scalesKnown_addEcus sound_start ⟨nofun, nofun⟩ ?_
  intro e he g hg f hf
  exact h f (mem_flatMap.mpr ⟨g, mem_flatMap.mpr ⟨e, he, hg⟩, hf⟩)

end EspCars.Uds.Compiler
