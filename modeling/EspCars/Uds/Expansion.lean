import EspCars.Uds.Arrays

/-!
# Arrays stand for the fields they were made of

Folding is a partition of the fields into single ones and blocks: a block of three fields or more
that follow each other, are equal but for their position, and keep one stride that is not smaller
than a field. The elements of the records are then the fields again, one by one, with rows that
compare equal. The names that the records get are distinct, and nothing but their names changes.
-/

namespace EspCars.Uds.Compiler

open EspCars.Lib

/-! ## The same fields -/

/-- Floats that are the same, or compare equal. -/
def SameFloat (x y : Binary32) : Prop := x = y ∨ x.eq y = true

theorem SameFloat.trans {x y z : Binary32} (h : SameFloat x y) (hyz : y.eq z = true) :
    SameFloat x z := by
  rcases h with rfl | hxy
  · exact .inr hyz
  · simp only [Binary32.eq, Bool.and_eq_true, Bool.not_eq_true', decide_eq_true_iff] at hxy hyz
    refine .inr ?_
    simp [Binary32.eq, hxy.1.1, hyz.1.2, hxy.2.trans hyz.2]

/-- Scales that differ in the sign of a zero at most. -/
structure SameScale (a b : Scale) : Prop where
  low : a.low = b.low
  high : a.high = b.high
  factor : SameFloat a.factor b.factor
  offset : SameFloat a.offset b.offset
  text : a.text = b.text
  invalid : a.invalid = b.invalid

theorem SameScale.refl (a : Scale) : SameScale a a := ⟨rfl, rfl, .inl rfl, .inl rfl, rfl, rfl⟩

theorem SameScale.trans {a b c : Scale} (h : SameScale a b) (hbc : b.same c = true) :
    SameScale a c := by
  simp only [Scale.same, Bool.and_eq_true, decide_eq_true_iff] at hbc
  obtain ⟨⟨⟨⟨⟨hlow, hhigh⟩, hfactor⟩, hoffset⟩, htext⟩, hinvalid⟩ := hbc
  exact
    { low := h.low.trans hlow
      high := h.high.trans hhigh
      factor := h.factor.trans hfactor
      offset := h.offset.trans hoffset
      text := h.text.trans htext
      invalid := h.invalid.trans hinvalid }

theorem sameScales_trans {as bs cs : List Scale} (h : List.Forall₂ SameScale as bs)
    (hbc : sameScales bs cs = true) : List.Forall₂ SameScale as cs := by
  induction h generalizing cs with
  | nil =>
    cases cs with
    | nil => exact .nil
    | cons c cs => cases hbc
  | cons hab _ ih =>
    cases cs with
    | nil => cases hbc
    | cons c cs =>
      rw [sameScales, Bool.and_eq_true] at hbc
      exact .cons (hab.trans hbc.1) (ih hbc.2)

/-- An element of a record, and the field that it stands for. -/
structure StandsFor (e f : Field) : Prop where
  name : e.name = f.name
  bitPos : e.bitPos = f.bitPos
  bitSize : e.bitSize = f.bitSize
  unit : e.unit = f.unit
  signed : e.signed = f.signed
  byteswap : e.byteswap = f.byteswap
  ascii : e.ascii = f.ascii
  hexdump : e.hexdump = f.hexdump
  scales : List.Forall₂ SameScale e.scales f.scales

/-- Element `k` of a record. -/
def Field.element (f : Field) (k : Nat) : Field :=
  { f with bitPos := f.bitPos + k * f.repeatStride, repeatCount := 1, repeatStride := 0 }

/-- The elements of a record. -/
def Field.expand (f : Field) : List Field := (List.range f.repeatCount).map f.element

theorem standsFor_element_zero (f : Field) : StandsFor (f.element 0) f where
  name := rfl
  bitPos := by simp [Field.element]
  bitSize := rfl
  unit := rfl
  signed := rfl
  byteswap := rfl
  ascii := rfl
  hexdump := rfl
  scales := List.forall₂_same.mpr fun s _ => SameScale.refl s

/-! ## The partition -/

section

variable (isDigit : Char → Bool)

/-- Two fields that follow each other in an array. -/
structure Linked (stride : Nat) (a b : Item) : Prop where
  shape : sameShape a.1 b.1 = true
  service : stripNumbers isDigit b.2 = stripNumbers isDigit a.2
  position : b.1.bitPos = a.1.bitPos + stride
  apart : b.1.bitSize ≤ stride

/-- The record of a block that begins with `base`. -/
def arrayRecord (base : Item) (count stride : Nat) : Item :=
  ({ base.1 with repeatCount := count, repeatStride := stride }, stripNumbers isDigit base.2)

/-- Fields, and the records that they are folded into. -/
inductive Folded : List Item → List Item → Prop
  | nil : Folded [] []
  | keep (item : Item) {items out : List Item} : Folded items out →
      Folded (item :: items) (item :: out)
  | fold {base : Item} {block items out : List Item} {stride : Nat} :
      List.IsChain (Linked isDigit stride) (base :: block) → 3 ≤ (base :: block).length →
      (base :: block).length ≤ maxRepeatCount → Folded items out →
      Folded (base :: block ++ items)
        (arrayRecord isDigit base (base :: block).length stride :: out)

variable {isDigit}

/-- The next element stands for the next field. -/
theorem StandsFor.next {f : Field} {k : Nat} {a b : Item} (h : StandsFor (f.element k) a.1)
    (hlinked : Linked isDigit f.repeatStride a b) : StandsFor (f.element (k + 1)) b.1 := by
  have hshape := hlinked.shape
  simp only [sameShape, Bool.and_eq_true, decide_eq_true_iff] at hshape
  obtain ⟨⟨⟨⟨⟨⟨⟨hname, hsize⟩, hunit⟩, hsigned⟩, hbyteswap⟩, hascii⟩, hhexdump⟩, hscales⟩ := hshape
  have hpos : f.bitPos + k * f.repeatStride = a.1.bitPos := h.bitPos
  exact
    { name := h.name.trans hname
      bitPos := by
        show f.bitPos + (k + 1) * f.repeatStride = b.1.bitPos
        rw [hlinked.position, ← hpos, Nat.add_one_mul, Nat.add_assoc]
      bitSize := h.bitSize.trans hsize
      unit := h.unit.trans hunit
      signed := h.signed.trans hsigned
      byteswap := h.byteswap.trans hbyteswap
      ascii := h.ascii.trans hascii
      hexdump := h.hexdump.trans hhexdump
      scales := sameScales_trans h.scales hscales }

theorem standsFor_chain {f : Field} {k : Nat} {a : Item} {block : List Item}
    (h : StandsFor (f.element k) a.1)
    (hchain : List.IsChain (Linked isDigit f.repeatStride) (a :: block)) :
    List.Forall₂ StandsFor ((List.range' k (block.length + 1)).map f.element)
      ((a :: block).map Prod.fst) := by
  induction block generalizing a k with
  | nil => exact .cons h .nil
  | cons b block ih =>
    rw [List.isChain_cons_cons] at hchain
    rw [List.length_cons, List.range'_succ]
    exact .cons h (ih (h.next hchain.1) hchain.2)

/-- The elements of the records are the fields, in their order. -/
theorem Folded.expand {items out : List Item} (h : Folded isDigit items out)
    (hscalar : ∀ item ∈ items, item.1.repeatCount = 1) :
    List.Forall₂ StandsFor (out.flatMap fun r => r.1.expand) (items.map Prod.fst) := by
  induction h with
  | nil => exact .nil
  | keep item _ ih =>
    have hone : item.1.expand = [item.1.element 0] := by
      rw [Field.expand, hscalar item List.mem_cons_self]
      rfl
    rw [List.flatMap_cons, hone]
    exact .cons (standsFor_element_zero item.1)
      (ih fun i hi => hscalar i (List.mem_cons_of_mem _ hi))
  | @fold base block items out stride hchain hlength hmax _ ih =>
    rw [List.flatMap_cons, List.map_append]
    refine List.rel_append ?_ (ih fun i hi => hscalar i (List.mem_append_right _ hi))
    have hzero : StandsFor ((arrayRecord isDigit base (base :: block).length stride).1.element 0)
        base.1 :=
      { standsFor_element_zero base.1 with bitPos := by simp [arrayRecord, Field.element] }
    have hall := standsFor_chain hzero hchain
    rwa [← List.range_eq_range'] at hall

/-! ## The runs are blocks -/

section

variable {items : List Item}

/-- The fields from `i` up to `j` are linked. -/
def Reaches (isDigit : Char → Bool) (items : List Item) (i j : Nat) (stride : Option Nat) : Prop :=
  ∀ k, i ≤ k → k + 1 < j → ∃ s a b, stride = some s ∧ items[k]? = some a ∧
    items[k + 1]? = some b ∧ Linked isDigit s a b

theorem Reaches.snoc {i j s : Nat} {stride : Option Nat} {a b : Item}
    (h : Reaches isDigit items i j stride) (ha : items[j - 1]? = some a)
    (hb : items[j]? = some b) (hlinked : Linked isDigit s a b)
    (hstride : stride = none ∨ stride = some s) : Reaches isDigit items i (j + 1) (some s) := by
  intro k hik hkj
  by_cases hlast : k + 1 = j
  · obtain rfl : k = j - 1 := by omega
    rw [← hlast] at hb
    exact ⟨s, a, b, rfl, ha, hb, hlinked⟩
  · obtain ⟨s', a', b', hs', hrest⟩ := h k hik (by omega)
    rcases hstride with rfl | rfl
    · cases hs'
    · cases hs'
      exact ⟨s, a', b', rfl, hrest⟩

theorem extendRun_reaches {fuel i j : Nat} {stride : Option Nat} (hij : i < j)
    (hj : j ≤ items.length) (h : Reaches isDigit items i j stride) :
    i < (extendRun isDigit items fuel j stride).1 ∧
      (extendRun isDigit items fuel j stride).1 ≤ items.length ∧
      Reaches isDigit items i (extendRun isDigit items fuel j stride).1
        (extendRun isDigit items fuel j stride).2 := by
  induction fuel generalizing j stride with
  | zero => exact ⟨hij, hj, h⟩
  | succ fuel ih =>
    rw [extendRun]
    split
    · rename_i prev cur hprev hcur
      have hlt : j < items.length := (List.getElem?_eq_some_iff.mp hcur).1
      split_ifs with hshape hservice hstep
      · exact ⟨hij, hj, h⟩
      · exact ⟨hij, hj, h⟩
      · exact ⟨hij, hj, h⟩
      · have hlinked : Linked isDigit (cur.1.bitPos - prev.1.bitPos) prev cur :=
          { shape := by simpa using hshape
            service := not_not.mp hservice
            position := by omega
            apart := by omega }
        dsimp only
        cases stride with
        | none => exact ih (by omega) hlt (h.snoc hprev hcur hlinked (.inl rfl))
        | some s =>
          dsimp only
          split_ifs with hsame
          · exact ⟨hij, hj, h⟩
          · rw [not_not] at hsame
            rw [hsame] at hlinked
            exact ih (by omega) hlt (h.snoc hprev hcur hlinked (.inr rfl))
    · exact ⟨hij, hj, h⟩

/-- A run is a block. -/
structure ValidRun (isDigit : Char → Bool) (items : List Item) (run : ArrayRun) : Prop where
  enough : 3 ≤ run.count
  inside : run.start + run.count ≤ items.length
  linked : Reaches isDigit items run.start (run.start + run.count) (some run.stride)

theorem findArrayRuns_valid {digitValue : Char → Nat} (fuel i : Nat) :
    ∀ run ∈ findArrayRuns isDigit digitValue items fuel i, ValidRun isDigit items run := by
  induction fuel generalizing i with
  | zero => nofun
  | succ fuel ih =>
    rw [findArrayRuns]
    split_ifs with hi
    · obtain ⟨hlt, hle, hreaches⟩ := @extendRun_reaches isDigit items items.length i (i + 1) none
        (by omega) hi (fun k hik hk => by omega)
      dsimp only
      generalize extendRun isDigit items items.length (i + 1) none = reached at hlt hle hreaches
      obtain ⟨j, stride⟩ := reached
      dsimp only at hlt hle hreaches ⊢
      split_ifs with hrun
      · intro run hmem
        rcases List.mem_cons.mp hmem with rfl | hmem
        · obtain ⟨s, -, -, rfl, -⟩ := hreaches i le_rfl (by omega)
          have hend : i + (j - i) = j := by omega
          exact ⟨hrun.1, by dsimp only; omega, by
            dsimp only [Option.getD_some]
            rwa [hend]⟩
        · exact ih j run hmem
      · exact ih (i + 1)
    · nofun

/-- The block of a run, and what follows it. -/
theorem ValidRun.block {run : ArrayRun} (h : ValidRun isDigit items run) {base : Item}
    (hbase : items[run.start]? = some base) : ∃ block,
      items.drop run.start = base :: block ++ items.drop (run.start + run.count) ∧
        (base :: block).length = run.count ∧
        List.IsChain (Linked isDigit run.stride) (base :: block) := by
  obtain ⟨hlt, hget⟩ := List.getElem?_eq_some_iff.mp hbase
  have hinside := h.inside
  have henough := h.enough
  have hcons : items.drop run.start = base :: items.drop (run.start + 1) := by
    rw [List.drop_eq_getElem_cons hlt, hget]
  have htake : base :: (items.drop (run.start + 1)).take (run.count - 1) =
      (items.drop run.start).take run.count := by
    rw [hcons, ← Nat.sub_add_cancel (show 1 ≤ run.count by omega), List.take_succ_cons,
      Nat.sub_add_cancel (show 1 ≤ run.count by omega)]
  refine ⟨(items.drop (run.start + 1)).take (run.count - 1), ?_, ?_, ?_⟩
  · rw [htake, ← List.drop_drop, List.take_append_drop]
  · rw [htake, List.length_take, List.length_drop]
    omega
  · rw [htake, List.isChain_iff_getElem]
    intro k hk
    rw [List.length_take, List.length_drop] at hk
    obtain ⟨s, a, b, hs, ha, hb, hlinked⟩ := h.linked (run.start + k) (by omega) (by omega)
    cases hs
    rw [Nat.add_assoc] at hb
    rw [List.getElem_take, List.getElem_take, List.getElem_drop, List.getElem_drop,
      (List.getElem?_eq_some_iff.mp ha).2, (List.getElem?_eq_some_iff.mp hb).2]
    exact hlinked

theorem collapseFrom_folded {runs : List ArrayRun}
    (hruns : ∀ run ∈ runs, ValidRun isDigit items run) {fuel i out : Nat}
    {res : List Item × List (Nat × ArrayInfo)} (hfuel : items.length ≤ i + fuel)
    (h : collapseFrom isDigit items runs fuel i out = .ok res) :
    Folded isDigit (items.drop i) res.1 := by
  induction fuel generalizing i out res with
  | zero =>
    cases h
    rw [List.drop_eq_nil_of_le (by omega)]
    exact .nil
  | succ fuel ih =>
    rw [collapseFrom] at h
    split at h
    · rename_i hnone
      cases h
      rw [List.drop_eq_nil_of_le (List.getElem?_eq_none_iff.mp hnone)]
      exact .nil
    · rename_i base service hbase
      split at h
      · rename_i run hfind
        have hvalid := hruns run (List.mem_of_find?_eq_some hfind)
        have hstart : run.start = i := by simpa using List.find?_some hfind
        subst hstart
        split_ifs at h with hmax
        obtain ⟨⟨rest, info⟩, hrest, h⟩ := bind_eq_ok.mp h
        cases h
        obtain ⟨block, hdrop, hlength, hchain⟩ := hvalid.block hbase
        have henough := hvalid.enough
        rw [hdrop]
        have hfold := Folded.fold hchain (by omega) (by omega) (ih (by omega) hrest)
        rwa [hlength] at hfold
      · obtain ⟨⟨rest, info⟩, hrest, h⟩ := bind_eq_ok.mp h
        cases h
        obtain ⟨hlt, hget⟩ := List.getElem?_eq_some_iff.mp hbase
        rw [List.drop_eq_getElem_cons hlt, hget]
        exact .keep (base, service) (ih (by omega) hrest)

theorem Folded.refl (items : List Item) : Folded isDigit items items := by
  induction items with
  | nil => exact .nil
  | cons item items ih => exact .keep item ih

theorem collapseArrays_folded {digitValue : Char → Nat} {out : List Item}
    {info : List (Nat × ArrayInfo)}
    (h : collapseArrays isDigit digitValue items = .ok (out, info)) :
    Folded isDigit items out := by
  unfold collapseArrays at h
  dsimp only at h
  split_ifs at h with hnone
  · cases h
    exact Folded.refl items
  · exact collapseFrom_folded (i := 0) (findArrayRuns_valid _ _) (by omega) h

end

end

/-! ## Names -/

theorem byService_field (count : Qualifier → Nat) (taken : List Name) (slots : List NameSlot) :
    (byService count taken slots).1.map NameSlot.field = slots.map NameSlot.field := by
  induction slots generalizing taken with
  | nil => rfl
  | cons s slots ih =>
    rw [byService]
    dsimp only
    split <;> simp [ih]

theorem byPosition_field {group : Name} {taken : List Name} {slots slots' : List NameSlot}
    (h : byPosition group taken slots = .ok slots') :
    slots'.map NameSlot.field = slots.map NameSlot.field := by
  induction slots generalizing taken slots' with
  | nil =>
    cases h
    rfl
  | cons s slots ih =>
    rw [byPosition] at h
    split at h
    · obtain ⟨rest, hrest, h⟩ := bind_eq_ok.mp h
      cases h
      rw [List.map_cons, ih hrest, List.map_cons]
    · dsimp only at h
      split_ifs at h
      obtain ⟨rest, hrest, h⟩ := bind_eq_ok.mp h
      cases h
      rw [List.map_cons, ih hrest, List.map_cons]

/-- Only names change, and no two are the same. -/
theorem assignUniqueNames_spec {group : Name} {items : List Item}
    {arrays : List (Nat × ArrayInfo)} {renamed : List Field} {notes : List NameNote}
    (h : assignUniqueNames group items arrays = .ok (renamed, notes)) :
    List.Forall₂ (fun r f : Field => r = { f with name := r.name }) renamed
        (items.map Prod.fst) ∧ (renamed.map Field.name).Nodup := by
  unfold assignUniqueNames at h
  dsimp only at h
  obtain ⟨slots, hslots, h⟩ := bind_eq_ok.mp h
  split_ifs at h with hnodup
  cases h
  refine ⟨?_, hnodup⟩
  have hfields := byPosition_field hslots
  rw [byService_field] at hfields
  have hitems : (byPresentation items).map NameSlot.field = items.map Prod.fst := by
    simp [byPresentation]
  rw [← hitems, ← hfields, List.forall₂_map_left_iff, List.forall₂_map_right_iff]
  exact List.forall₂_same.mpr fun s _ => rfl

/-- Folding neither loses nor invents a field: what is folded are blocks of linked fields, the
elements of the records are the fields, and naming changes names alone. -/
theorem collapse_expands {isDigit : Char → Bool} {digitValue : Char → Nat} {items : List Item}
    (hscalar : ∀ item ∈ items, item.1.repeatCount = 1) {out : List Item}
    {info : List (Nat × ArrayInfo)}
    (h : collapseArrays isDigit digitValue items = .ok (out, info)) :
    Folded isDigit items out ∧
      List.Forall₂ StandsFor (out.flatMap fun r => r.1.expand) (items.map Prod.fst) ∧
      ∀ group renamed notes, assignUniqueNames group out info = .ok (renamed, notes) →
        List.Forall₂ (fun r f : Field => r = { f with name := r.name }) renamed
          (out.map Prod.fst) ∧ (renamed.map Field.name).Nodup := by
  have hfolded := collapseArrays_folded h
  exact ⟨hfolded, hfolded.expand hscalar, fun group renamed notes => assignUniqueNames_spec⟩

/-- Three cells of a battery, two bytes each. -/
def cellFields : List Item :=
  [({ name := ascii "U", bitPos := 24, bitSize := 16 }, "Cell_1".toList),
    ({ name := ascii "U", bitPos := 40, bitSize := 16 }, "Cell_2".toList),
    ({ name := ascii "U", bitPos := 56, bitSize := 16 }, "Cell_3".toList)]

def cellArray : List Item :=
  [({ name := ascii "U", bitPos := 24, bitSize := 16, repeatCount := 3, repeatStride := 16 },
    "Cell".toList)]

def cellInfo : List (Nat × ArrayInfo) :=
  [(0, { count := 3, stride := 16, firstService := "Cell_1".toList,
         lastService := "Cell_3".toList })]

theorem collapse_expands_cells :
    collapseArrays Char.isDigit (fun c => c.toNat - 48) cellFields = .ok (cellArray, cellInfo) ∧
      Folded Char.isDigit cellFields cellArray ∧
      List.Forall₂ StandsFor (cellArray.flatMap fun r => r.1.expand)
        (cellFields.map Prod.fst) := by
  have hcollapse : collapseArrays Char.isDigit (fun c => c.toNat - 48) cellFields =
      .ok (cellArray, cellInfo) := by decide
  have h := collapse_expands (by simp [cellFields]) hcollapse
  exact ⟨hcollapse, h.1, h.2.1⟩

end EspCars.Uds.Compiler
