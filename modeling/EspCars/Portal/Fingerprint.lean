import EspCars.Lib.Decoding
import EspCars.Portal.Tree

/-!
# The fingerprint

`Portal::sample_`, `fingerprint` of `components/portal/portal_core.h` and `update_seq_locked_`. The
words that are folded into the hash carry no lengths: the text of a value ends where the words of the
next value begin. The two streams of words of two samples of one tree can nevertheless be read item
by item (`alike_of_words`), since no text contains the zero that stands among the words of an item.
-/

namespace EspCars.Portal

open EspCars.Lib

/-! ## Sampling -/

/-- The state of the entity of a value. -/
inductive EntityState
  | binary (state : Bool)
  | text (state : List UInt8)
  | number (state : Binary32)
  deriving DecidableEq

/-- What `sample_` makes of one value; the fields of its definition stay. The age is that of the
last publication. -/
def sampleValue (textMax : Nat) (v : ValueSample) (entity : Option EntityState) (ageMs : UInt32) :
    ValueSample :=
  let v := { v with
    text := none, number := ⟨0⟩, textOverflow := false, hasValue := false, ageKnown := false
    ageMs := 0 }
  let published (v : ValueSample) : ValueSample :=
    { v with hasValue := true, ageKnown := true, ageMs := ageMs }
  if v.isBool then
    match entity with
    | some (.binary state) => published { v with number := Binary32.ofBool state }
    | _ => v
  else if v.isText then
    match entity with
    | some (.text state) =>
      published { v with
        textOverflow := textMax - 1 < state.length, text := some ((cstr state).take (textMax - 1)) }
    | _ => v
  else
    match entity with
    | some (.number state) => published { v with number := state }
    | _ => v

/-- `links_` of the portal. -/
def wifiSetup : LinkDef :=
  { rel := ascii "wifi_setup", label := ascii "WiFi setup", href := ascii "/wifi" }

/-! ## The words -/

/-- `static_cast<uint32_t>(state)` -/
def State.word : State → UInt32
  | .ok => 0
  | .stale => 1
  | .degraded => 2
  | .refused => 3
  | .silent => 4
  | .absent => 5
  | .unreachable => 6
  | .unknown => 7
  | .incompatible => 8

def ActionState.word : ActionState → UInt32
  | .none => 0
  | .running => 1
  | .accepted => 2
  | .refused => 3

def ActionCode.word : ActionCode → UInt32
  | .none => 0
  | .queued => 1
  | .applied => 2
  | .invalidBody => 3
  | .wrongType => 4
  | .outOfRange => 5
  | .unknownOption => 6
  | .disabled => 7
  | .bodyTooLarge => 8

def flag (b : Bool) : UInt32 := if b then 1 else 0

/-- `mix_str` -/
def textWords (str : Option (List UInt8)) : List UInt32 :=
  match str with
  | none => [0]
  | some text => text.map UInt8.toUInt32

/-- The words of the reading, if there is one. -/
def readingWords (v : ValueSample) : List UInt32 :=
  if v.hasValue then if v.isText then textWords v.text else [v.number.bits] else []

/-- The words of a value. -/
def valueWords (budget : Option UInt32) (v : ValueSample) : List UInt32 :=
  [(classifyValue v budget).state.word, flag v.hasValue, flag v.ageKnown, flag v.isText,
    flag v.isBool, flag v.textOverflow] ++ readingWords v

/-- The words of a node. -/
def nodeWords (node : NodeDef) : List UInt32 :=
  (if node.absentFn.isSome then [flag (nodeIsAbsent node)] else []) ++
  node.values.flatMap (valueWords node.budget)

/-- The words of the links. -/
def linkWords (links : List LinkDef) : List UInt32 :=
  UInt32.ofNat links.length :: links.flatMap fun link =>
    textWords (some link.rel) ++ textWords (some link.href)

/-- The words of an action. -/
def actionWords (a : ActionSample) : List UInt32 :=
  [flag a.enabled, flag a.hasValue, flag a.boolean, a.number.bits] ++ textWords (some a.text) ++
  [a.result.state.word, a.result.code.word]

/-- The words that `fingerprint` mixes into its hash. -/
def fingerprintWords (s : Snapshot) : List UInt32 :=
  s.nodes.flatMap nodeWords ++ (linkWords s.links ++
    s.nodes.flatMap fun node => node.actions.flatMap fun a => actionWords a.2)

/-- `mix` -/
def mix (hash v : UInt32) : UInt32 := (hash ^^^ v) * 16777619

/-- `fingerprint` -/
def fingerprint (s : Snapshot) : UInt32 := (fingerprintWords s).foldl mix 2166136261

/-- The members of the portal that `update_seq_locked_` uses. -/
structure SeqState where
  seq : UInt32 := 1
  lastFingerprint : UInt32 := 0
  haveFingerprint : Bool := false
  deriving DecidableEq

/-- `update_seq_locked_` -/
def SeqState.update (u : SeqState) (s : Snapshot) : SeqState :=
  let fp := fingerprint s
  let seq :=
    if u.haveFingerprint ∧ fp ≠ u.lastFingerprint then
      if u.seq + 1 = 0 then 1 else u.seq + 1
    else u.seq
  { seq := seq, lastFingerprint := fp, haveFingerprint := true }

/-! ## What the bindings guarantee -/

namespace ValueSample

/-- A value is text or a boolean or neither, and a text that is there has no NUL. -/
structure Sampled (v : ValueSample) : Prop where
  exclusive : v.isText = true → v.isBool = false
  text : v.isText = true → v.hasValue = true → ∃ t, v.text = some t ∧ ∀ c ∈ t, c ≠ 0

theorem sampled_sampleValue (textMax : Nat) {v : ValueSample}
    (hexclusive : v.isText = true → v.isBool = false) (entity : Option EntityState)
    (ageMs : UInt32) : (sampleValue textMax v entity ageMs).Sampled := by
  unfold sampleValue
  dsimp only
  split_ifs with hbool htext
  · have hno : v.isText ≠ true := fun htext => by rw [hexclusive htext] at hbool; cases hbool
    split
    · exact ⟨fun h => absurd h hno, fun h => absurd h hno⟩
    · exact ⟨fun h => absurd h hno, fun h => absurd h hno⟩
  · split
    · refine ⟨hexclusive, fun _ _ => ⟨_, rfl, ?_⟩⟩
      intro c hc
      rintro rfl
      exact zero_notMem_cstr _ (List.mem_of_mem_take hc)
    · refine ⟨hexclusive, fun _ hvalue => ?_⟩
      cases hvalue
  · split
    · exact ⟨hexclusive, fun h => absurd h htext⟩
    · exact ⟨hexclusive, fun h => absurd h htext⟩

end ValueSample

namespace ActionSample

/-- What holds of the members that are written for one kind of entity only. -/
structure Held (d : ActionDef) (a : ActionSample) : Prop where
  select : d.control = .select → a.boolean = false ∧ a.number = ⟨0⟩
  other : d.control ≠ .select → a.text = []
  text : ∀ c ∈ a.text, c ≠ 0

/-- A select or a number is enabled iff it has a value. -/
structure Sampled (d : ActionDef) (a : ActionSample) : Prop extends Held d a where
  enabled : d.control = .select ∨ d.control = .number → a.enabled = a.hasValue

theorem held_default (d : ActionDef) : Held d {} :=
  ⟨fun _ => ⟨rfl, rfl⟩, fun _ => rfl, fun _ hc => by cases hc⟩

theorem sampled_sampleAction {d : ActionDef} {out : ActionSample} (hout : Held d out)
    {entity : Entity} (hcontrol : entity.control = d.control)
    (htext : ∀ option, entity = .select (some option) → ∀ c ∈ option, c ≠ 0) :
    Sampled d (sampleAction out entity) := by
  cases entity with
  | switch state =>
    have hcontrol : d.control = .switch := hcontrol.symm
    refine ⟨⟨fun h => ?_, hout.other, hout.text⟩, fun h => ?_⟩
    · rw [hcontrol] at h
      cases h
    · rw [hcontrol] at h
      rcases h with h | h <;> cases h
  | button =>
    have hcontrol : d.control = .button := hcontrol.symm
    refine ⟨{ hout with }, fun h => ?_⟩
    rw [hcontrol] at h
    rcases h with h | h <;> cases h
  | select active =>
    have hkind : d.control = .select := hcontrol.symm
    cases active with
    | none => exact ⟨{ hout with }, fun _ => rfl⟩
    | some option =>
      refine ⟨⟨hout.select, fun h => absurd hkind h, fun c hc => ?_⟩, fun _ => rfl⟩
      exact htext option rfl c (List.mem_of_mem_take hc)
  | number state min max step unit =>
    have hcontrol : d.control = .number := hcontrol.symm
    refine ⟨⟨fun h => ?_, hout.other, hout.text⟩, fun _ => rfl⟩
    rw [hcontrol] at h
    cases h

end ActionSample

/-- What the portal samples: the link is there while the access point is. -/
structure Snapshot.Sampled (s : Snapshot) : Prop where
  values : ∀ node ∈ s.nodes, ∀ v ∈ node.values, v.Sampled
  actions : ∀ node ∈ s.nodes, ∀ a ∈ node.actions, a.2.Sampled a.1
  links : s.links = [] ∨ s.links = [wifiSetup]

/-! ## One tree -/

/-- A value without its reading. -/
def ValueSample.definition (v : ValueSample) : ValueSample :=
  { v with
    text := none, number := ⟨0⟩, ageMs := 0, hasValue := false, ageKnown := false
    textOverflow := false }

/-- A node without what is sampled or asked for. -/
def NodeDef.definition (node : NodeDef) : NodeDef :=
  { node with
    values := node.values.map ValueSample.definition
    actions := node.actions.map fun a => (a.1, {})
    absentFn := node.absentFn.map fun _ => false
    series := none }

/-- Two samples of one tree. -/
def SameTree (s s' : Snapshot) : Prop :=
  s.nodes.map NodeDef.definition = s'.nodes.map NodeDef.definition

/-! ## The words tell the items apart -/

theorem State.word_injective {a b : State} (h : a.word = b.word) : a = b := by
  cases a <;> cases b <;> first | rfl | exact absurd h (by decide)

theorem ActionState.word_injective {a b : ActionState} (h : a.word = b.word) : a = b := by
  cases a <;> cases b <;> first | rfl | exact absurd h (by decide)

theorem ActionCode.word_injective {a b : ActionCode} (h : a.word = b.word) : a = b := by
  cases a <;> cases b <;> first | rfl | exact absurd h (by decide)

theorem flag_injective {a b : Bool} (h : flag a = flag b) : a = b := by
  cases a <;> cases b <;> first | rfl | exact absurd h (by decide)

theorem textWords_injective {t t' : List UInt8} (h : textWords (some t) = textWords (some t')) :
    t = t' :=
  List.map_injective_iff.mpr (fun a b hab => by simpa using congrArg UInt32.toUInt8 hab) h

theorem ne_zero_of_mem_textWords {t : List UInt8} (ht : ∀ c ∈ t, c ≠ 0) {w : UInt32}
    (hw : w ∈ textWords (some t)) : w ≠ 0 := by
  obtain ⟨c, hc, rfl⟩ := List.mem_map.mp hw
  intro h
  exact ht c hc (by simpa using congrArg UInt32.toUInt8 h)

section Values

variable {v v' : ValueSample} {budget : Option UInt32}

theorem length_valueWords (budget : Option UInt32) (v : ValueSample) :
    (valueWords budget v).length = (readingWords v).length + 6 := by
  unfold valueWords
  rw [List.length_append, Nat.add_comm]
  rfl

theorem state_of_no_value (h : v.hasValue = false) (budget : Option UInt32) :
    (classifyValue v budget).state = .absent := by
  unfold classifyValue
  rw [h]
  rfl

/-- What is not a text has one word at most. -/
theorem length_readingWords (htext : v.isText = false) :
    (readingWords v).length = if v.hasValue then 1 else 0 := by
  unfold readingWords
  rw [htext]
  cases v.hasValue <;> rfl

theorem ne_zero_of_mem_readingWords (hv : v.Sampled) (htext : v.isText = true) {w : UInt32}
    (hw : w ∈ readingWords v) : w ≠ 0 := by
  unfold readingWords at hw
  cases hvalue : v.hasValue with
  | false =>
    rw [hvalue] at hw
    cases hw
  | true =>
    obtain ⟨t, ht, hzero⟩ := hv.text htext hvalue
    rw [hvalue, htext, ht] at hw
    exact ne_zero_of_mem_textWords hzero hw

/-- No words of a value lie inside those of another reading of it. -/
theorem valueWords_inside (htext : v.isText = v'.isText) (hbool : v.isBool = v'.isBool)
    (hv : v.Sampled) {e r : List UInt32}
    (h : valueWords budget v = e ++ (valueWords budget v' ++ r)) : e = [] := by
  have hlength := length_inside h
  rw [length_valueWords, length_valueWords] at hlength
  have hget (i : Nat) (hi : i < 6) :
      (valueWords budget v)[e.length + i]? = (valueWords budget v')[i]? := by
    apply getElem?_inside h
    rw [length_valueWords]
    omega
  apply List.eq_nil_of_length_eq_zero
  by_contra hne
  cases hkind : v.isText with
  | false =>
    -- The reading of `v` is one word, and `v'` has none: its state is not the flag of a value.
    rw [length_readingWords hkind, length_readingWords (htext ▸ hkind)] at hlength
    cases hvalue : v.hasValue with
    | false =>
      rw [hvalue] at hlength
      simp only [Bool.false_eq_true, if_false] at hlength
      omega
    | true =>
      cases hvalue' : v'.hasValue with
      | true =>
        rw [hvalue, hvalue'] at hlength
        omega
      | false =>
        rw [hvalue, hvalue', if_pos rfl, if_neg Bool.false_ne_true] at hlength
        have hone : e.length = 1 := by omega
        have hstate := hget 0 (by omega)
        rw [hone] at hstate
        have hword : flag v.hasValue = (classifyValue v' budget).state.word := Option.some.inj hstate
        rw [state_of_no_value hvalue', hvalue] at hword
        exact absurd hword (by decide)
  | true =>
    have hnobool := hv.exclusive hkind
    by_cases hone : e.length = 1
    · have hshift := hget 3 (by omega)
      rw [hone] at hshift
      have hword : flag v.isBool = flag v'.isText := Option.some.inj hshift
      rw [hnobool, ← htext, hkind] at hword
      exact absurd hword (by decide)
    · -- The zero of `v'` stands among the characters of `v`.
      obtain ⟨n, hn⟩ : ∃ n, e.length = n + 2 := ⟨e.length - 2, by omega⟩
      have hzero := hget 4 (by omega)
      have hplace : (valueWords budget v)[e.length + 4]? = (readingWords v)[n]? := by
        rw [hn, show n + 2 + 4 = n + 6 from rfl]
        rfl
      rw [hplace] at hzero
      have hword : (readingWords v)[n]? = some (flag v'.isBool) := hzero
      rw [← hbool, hnobool] at hword
      exact ne_zero_of_mem_readingWords hv hkind (List.mem_of_getElem? hword) rfl

/-- Two readings of a value that the words do not tell apart. -/
structure ValueSample.Alike (budget : Option UInt32) (v v' : ValueSample) : Prop where
  definition : v.definition = v'.definition
  exclusive : v.isText = true → v.isBool = false
  state : (classifyValue v budget).state = (classifyValue v' budget).state
  hasValue : v.hasValue = v'.hasValue
  ageKnown : v.ageKnown = v'.ageKnown
  textOverflow : v.textOverflow = v'.textOverflow
  text : v.hasValue = true → v.isText = true → v.text = v'.text
  number : v.hasValue = true → v.isText = false → v.number = v'.number

theorem isText_of_definition (h : v.definition = v'.definition) : v.isText = v'.isText := by
  show v.definition.isText = v'.definition.isText
  rw [h]

theorem isBool_of_definition (h : v.definition = v'.definition) : v.isBool = v'.isBool := by
  show v.definition.isBool = v'.definition.isBool
  rw [h]

theorem alike_of_valueWords (hdef : v.definition = v'.definition) (hv : v.Sampled)
    (hv' : v'.Sampled) (h : valueWords budget v = valueWords budget v') :
    v.Alike budget v' := by
  have hkind := isText_of_definition hdef
  unfold valueWords at h
  simp only [List.cons_append, List.nil_append, List.cons.injEq] at h
  obtain ⟨hstate, hvalue, hage, -, -, hoverflow, hreading⟩ := h
  have hvalue := flag_injective hvalue
  refine ⟨hdef, hv.exclusive, State.word_injective hstate, hvalue, flag_injective hage,
    flag_injective hoverflow, fun hhas htext => ?_, fun hhas htext => ?_⟩
  · obtain ⟨t, ht, -⟩ := hv.text htext hhas
    obtain ⟨t', ht', -⟩ := hv'.text (hkind ▸ htext) (hvalue ▸ hhas)
    unfold readingWords at hreading
    rw [← hvalue, ← hkind, hhas, htext, ht, ht', if_pos rfl, if_pos rfl] at hreading
    rw [ht, ht', textWords_injective hreading]
  · unfold readingWords at hreading
    rw [← hvalue, ← hkind, hhas, htext] at hreading
    have hbits : v.number.bits = v'.number.bits := (List.cons.inj hreading).1
    exact congrArg Binary32.mk hbits

theorem segment_valueWords (hdef : v.definition = v'.definition) (hv : v.Sampled)
    (hv' : v'.Sampled) :
    Segment (valueWords budget v) (valueWords budget v') (v.Alike budget v') := by
  have hkind := isText_of_definition hdef
  have hbool := isBool_of_definition hdef
  refine segment_of_level ⟨fun e r h => ?_, fun e r h => ?_⟩ (alike_of_valueWords hdef hv hv')
  · exact valueWords_inside hkind hbool hv h
  · exact valueWords_inside hkind.symm hbool.symm hv' h

end Values

section Actions

variable {d : ActionDef} {a a' : ActionSample}

theorem length_actionWords (a : ActionSample) : (actionWords a).length = a.text.length + 6 := by
  unfold actionWords textWords
  simp only [List.length_append, List.length_map, List.length_cons, List.length_nil]
  omega

theorem actionWords_inside (ha : a.Sampled d) (ha' : a'.Sampled d) {e r : List UInt32}
    (h : actionWords a = e ++ (actionWords a' ++ r)) : e = [] := by
  have hlength := length_inside h
  rw [length_actionWords, length_actionWords] at hlength
  apply List.eq_nil_of_length_eq_zero
  by_cases hselect : d.control = .select
  · -- The zero for the number of `a'` stands among the characters of `a`.
    by_contra hne
    obtain ⟨n, hn⟩ : ∃ n, e.length = n + 1 := ⟨e.length - 1, by omega⟩
    have hzero := getElem?_inside h (i := 3) (by rw [length_actionWords]; omega)
    have hplace : (actionWords a)[e.length + 3]? = (textWords (some a.text))[n]? := by
      have hinside : n < (textWords (some a.text)).length := by
        unfold textWords
        rw [List.length_map]
        omega
      rw [hn, show n + 1 + 3 = n + 4 from rfl]
      show (textWords (some a.text) ++ _)[n]? = _
      rw [List.getElem?_append_left hinside]
    rw [hplace] at hzero
    have hword : (textWords (some a.text))[n]? = some a'.number.bits := hzero
    rw [(ha'.select hselect).2] at hword
    exact ne_zero_of_mem_textWords ha.text (List.mem_of_getElem? hword) rfl
  · rw [ha.other hselect, ha'.other hselect] at hlength
    omega

/-- Two samples of an action that the words do not tell apart. -/
structure ActionSample.Alike (a a' : ActionSample) : Prop where
  enabled : a.enabled = a'.enabled
  hasValue : a.hasValue = a'.hasValue
  boolean : a.boolean = a'.boolean
  number : a.number = a'.number
  text : a.text = a'.text
  state : a.result.state = a'.result.state
  code : a.result.code = a'.result.code

theorem alike_of_actionWords (h : actionWords a = actionWords a') : a.Alike a' := by
  unfold actionWords at h
  simp only [List.cons_append, List.nil_append, List.cons.injEq] at h
  obtain ⟨henabled, hvalue, hboolean, hnumber, hrest⟩ := h
  obtain ⟨htext, hresult⟩ := List.append_inj' hrest rfl
  simp only [List.cons.injEq, and_true] at hresult
  exact ⟨flag_injective henabled, flag_injective hvalue, flag_injective hboolean,
    congrArg Binary32.mk hnumber, textWords_injective htext, ActionState.word_injective hresult.1,
    ActionCode.word_injective hresult.2⟩

theorem segment_actionWords (ha : a.Sampled d) (ha' : a'.Sampled d) :
    Segment (actionWords a) (actionWords a') (a.Alike a') :=
  segment_of_level ⟨fun _ _ h => actionWords_inside ha ha' h, fun _ _ h => actionWords_inside ha' ha h⟩
    alike_of_actionWords

end Actions

/-! ## Reading the two streams -/

section Streams

variable {s s' : Snapshot}

theorem segment_linkWords (hs : s.links = [] ∨ s.links = [wifiSetup])
    (hs' : s'.links = [] ∨ s'.links = [wifiSetup]) :
    Segment (linkWords s.links) (linkWords s'.links) (s.links = s'.links) := by
  have hnone (e r : List UInt32) (h : linkWords [] = e ++ (linkWords [wifiSetup] ++ r)) : e = [] := by
    have hlength := length_inside h
    have hlong : (linkWords [wifiSetup]).length = 16 := by decide
    have hshort : (linkWords []).length = 1 := rfl
    omega
  have hone (e r : List UInt32) (h : linkWords [wifiSetup] = e ++ (linkWords [] ++ r)) : e = [] := by
    have hzero : (0 : UInt32) ∈ linkWords [wifiSetup] := by
      rw [h]
      exact List.mem_append_right _ (List.mem_append_left _ List.mem_cons_self)
    exact absurd hzero (by decide)
  have hwords : linkWords [] ≠ linkWords [wifiSetup] := by decide
  rcases hs with hs | hs <;> rcases hs' with hs' | hs' <;> rw [hs, hs']
  · exact segment_of_level (level_of_length_eq rfl) fun _ => rfl
  · exact segment_of_level ⟨hnone, hone⟩ fun h => absurd h hwords
  · exact segment_of_level ⟨hone, hnone⟩ fun h => absurd h.symm hwords
  · exact segment_of_level (level_of_length_eq rfl) fun _ => rfl

/-- Two samples of a node that the words do not tell apart. -/
structure NodeDef.Alike (node node' : NodeDef) : Prop where
  definition : node.definition = node'.definition
  absent : nodeIsAbsent node = nodeIsAbsent node'
  values : List.Forall₂ (ValueSample.Alike node.budget) node.values node'.values
  actions : List.Forall₂ (fun a a' => a.1 = a'.1 ∧ a.2.Alike a'.2) node.actions node'.actions

/-- The samples of the node fit its definitions. -/
structure NodeDef.Sampled (node : NodeDef) : Prop where
  values : ∀ v ∈ node.values, v.Sampled
  actions : ∀ a ∈ node.actions, a.2.Sampled a.1

variable {node node' : NodeDef}

theorem budget_of_definition (h : node.definition = node'.definition) :
    node.budget = node'.budget := by
  show node.definition.budget = node'.definition.budget
  rw [h]

theorem values_of_definition (h : node.definition = node'.definition) (hn : node.Sampled)
    (hn' : node'.Sampled) :
    List.Forall₂ (fun v v' => v.definition = v'.definition ∧ v.Sampled ∧ v'.Sampled)
      node.values node'.values :=
  forall₂_with_mem (forall₂_of_map_eq (congrArg NodeDef.values h)) hn.values hn'.values

theorem actions_of_definition (h : node.definition = node'.definition) (hn : node.Sampled)
    (hn' : node'.Sampled) :
    List.Forall₂ (fun a a' => a.1 = a'.1 ∧ a.2.Sampled a.1 ∧ a'.2.Sampled a'.1)
      node.actions node'.actions := by
  have hactions := congrArg (fun n => n.actions.map Prod.fst) h
  unfold NodeDef.definition at hactions
  simp only [List.map_map] at hactions
  exact forall₂_with_mem (forall₂_of_map_eq hactions) hn.actions hn'.actions

theorem segment_absent (h : node.definition = node'.definition) :
    Segment (if node.absentFn.isSome then [flag (nodeIsAbsent node)] else [])
      (if node'.absentFn.isSome then [flag (nodeIsAbsent node')] else [])
      (nodeIsAbsent node = nodeIsAbsent node') := by
  have hasks : node.absentFn.isSome = node'.absentFn.isSome := by
    have hmap := congrArg (fun n => n.absentFn.isSome) h
    simpa [NodeDef.definition] using hmap
  have hwhy : node.definition.absentWhy = node'.definition.absentWhy := by rw [h]
  change node.absentWhy = node'.absentWhy at hwhy
  rw [← hasks]
  split_ifs with hsome
  · exact segment_of_level (level_of_length_eq rfl) fun heq =>
      flag_injective (List.cons.inj heq).1
  · have hnone : node.absentFn = none := by simpa using hsome
    have hnone' : node'.absentFn = none := by
      rw [hasks] at hsome
      simpa using hsome
    apply Segment.nil.mono
    intro _
    unfold nodeIsAbsent
    rw [hnone, hnone', hwhy]

theorem segment_nodeWords
    (hnode : node.definition = node'.definition ∧ node.Sampled ∧ node'.Sampled) :
    Segment (nodeWords node) (nodeWords node') (nodeIsAbsent node = nodeIsAbsent node' ∧
      List.Forall₂ (ValueSample.Alike node.budget) node.values node'.values) := by
  obtain ⟨h, hn, hn'⟩ := hnode
  unfold nodeWords
  rw [← budget_of_definition h]
  apply (segment_absent h).append
  apply Segment.flatMap
  exact (values_of_definition h hn hn').imp fun v v' hv => segment_valueWords hv.1 hv.2.1 hv.2.2

theorem segment_nodeActions
    (hnode : node.definition = node'.definition ∧ node.Sampled ∧ node'.Sampled) :
    Segment (node.actions.flatMap fun a => actionWords a.2)
      (node'.actions.flatMap fun a => actionWords a.2)
      (List.Forall₂ (fun a a' => a.1 = a'.1 ∧ a.2.Alike a'.2) node.actions node'.actions) := by
  obtain ⟨h, hn, hn'⟩ := hnode
  apply Segment.flatMap
  refine (actions_of_definition h hn hn').imp fun a a' ha => ?_
  refine (segment_actionWords ha.2.1 ?_).mono fun halike => ⟨ha.1, halike⟩
  rw [ha.1]
  exact ha.2.2

theorem nodes_of_sameTree (hs : s.Sampled) (hs' : s'.Sampled) (htree : SameTree s s') :
    List.Forall₂ (fun node node' => node.definition = node'.definition ∧ node.Sampled ∧ node'.Sampled)
      s.nodes s'.nodes :=
  forall₂_with_mem (forall₂_of_map_eq htree)
    (fun node hnode => ⟨hs.values node hnode, hs.actions node hnode⟩)
    fun node hnode => ⟨hs'.values node hnode, hs'.actions node hnode⟩

/-- What two samples with the same words have in common. -/
theorem alike_of_words (hs : s.Sampled) (hs' : s'.Sampled) (htree : SameTree s s')
    (h : fingerprintWords s = fingerprintWords s') :
    List.Forall₂ NodeDef.Alike s.nodes s'.nodes ∧ s.links = s'.links := by
  have hnodes := nodes_of_sameTree hs hs' htree
  have hvalues := Segment.flatMap (hnodes.imp fun _ _ => segment_nodeWords)
  have hactions := Segment.flatMap (hnodes.imp fun _ _ => segment_nodeActions)
  obtain ⟨hvalues, hlinks, hactions⟩ :=
    (hvalues.append ((segment_linkWords hs.links hs'.links).append hactions)).read h
  refine ⟨?_, hlinks⟩
  have hboth := List.Forall₂.mp (fun _ _ hvalue haction => And.intro hvalue haction) hvalues hactions
  refine List.Forall₂.mp (fun node node' hnode hboth => ?_) hnodes hboth
  exact ⟨hnode.1, hboth.1.1, hboth.1.2, hboth.2⟩

end Streams

end EspCars.Portal
