import EspCars.Uds.Entities
import EspCars.Uds.InFlight

/-!
# Every entity shows the last answer

A slot is dirty, or its entity has been told what the slot holds; and what it holds is what the
latest answer of its group says, or nothing where the group was declared unavailable since. The
early return for a field that is known to be uncovered keeps this, as such a slot holds nothing. The
publisher comes past every slot within a fixed number of loops, whatever becomes dirty meanwhile.
-/

namespace EspCars.Uds

open EspCars.Lib

/-! ## News of a group -/

/-- What an entity learns of its group. -/
inductive News
  | answered (resp : List UInt8)
  | unavailable
  deriving DecidableEq

/-- What an act says about the values of a group. -/
def HubAct.news : HubAct → Option (Nat × News)
  | .decode gi resp => some (gi, .answered resp)
  | .unavailable gi => some (gi, .unavailable)
  | .offer _ _ _ _ | .pending | .ended _ => none

def newsOf (log : List (Nat × HubAct)) : List (Nat × News) := log.filterMap fun p => p.2.news

/-- The latest news of a group. -/
def latest (gi : Nat) (log : List (Nat × HubAct)) : Option News := (newsOf log).reverse.lookup gi

theorem newsOf_append (log acts : List (Nat × HubAct)) :
    newsOf (log ++ acts) = newsOf log ++ newsOf acts := List.filterMap_append

theorem newsOf_single (now : Nat) (a : HubAct) : newsOf [(now, a)] = a.news.toList := by
  unfold newsOf
  rw [List.filterMap_cons, List.filterMap_nil]
  cases a.news <;> rfl

theorem latest_concat_some {a : HubAct} {gi : Nat} {n : News} (h : a.news = some (gi, n))
    (log : List (Nat × HubAct)) (now : Nat) : latest gi (log ++ [(now, a)]) = some n := by
  unfold latest
  rw [newsOf_append, newsOf_single, h, List.reverse_append]
  simp

theorem latest_concat_other {a : HubAct} {gi : Nat} (h : ∀ n, a.news ≠ some (gi, n))
    (log : List (Nat × HubAct)) (now : Nat) : latest gi (log ++ [(now, a)]) = latest gi log := by
  unfold latest
  rw [newsOf_append, newsOf_single, List.reverse_append]
  cases hnews : a.news with
  | none => rfl
  | some p =>
    have hne : gi ≠ p.1 := by
      rintro rfl
      exact h p.2 hnews
    have hbeq : (gi == p.1) = false := beq_false_of_ne hne
    show List.lookup gi (p :: (newsOf log).reverse) = _
    rw [List.lookup_cons, hbeq]

/-! ## What the hub says -/

/-- The log goes on with this news. -/
def Adds (log log' : List (Nat × HubAct)) (news : List (Nat × News)) : Prop :=
  ∃ acts, log' = log ++ acts ∧ newsOf acts = news

theorem Adds.refl (log : List (Nat × HubAct)) : Adds log log [] :=
  ⟨[], (List.append_nil _).symm, rfl⟩

theorem Adds.act {log log' : List (Nat × HubAct)} {news : List (Nat × News)}
    (h : Adds log log' news) (now : Nat) (a : HubAct) :
    Adds log (log' ++ [(now, a)]) (news ++ a.news.toList) := by
  obtain ⟨acts, rfl, rfl⟩ := h
  refine ⟨acts ++ [(now, a)], List.append_assoc .., ?_⟩
  rw [newsOf_append, newsOf_single]

/-- Groups are declared unavailable, and nothing is decoded. -/
def Declares (log log' : List (Nat × HubAct)) (groups : Nat → Prop) : Prop :=
  ∃ news, Adds log log' news ∧ ∀ n ∈ news, groups n.1 ∧ n.2 = .unavailable

namespace Declares

variable {log log' log'' : List (Nat × HubAct)} {groups : Nat → Prop}

theorem refl (log : List (Nat × HubAct)) (groups : Nat → Prop) : Declares log log groups :=
  ⟨[], Adds.refl log, nofun⟩

theorem trans (first : Declares log log' groups) (second : Declares log' log'' groups) :
    Declares log log'' groups := by
  obtain ⟨news, ⟨acts, rfl, rfl⟩, hnews⟩ := first
  obtain ⟨news', ⟨acts', rfl, rfl⟩, hnews'⟩ := second
  refine ⟨newsOf acts ++ newsOf acts', ⟨acts ++ acts', List.append_assoc .., newsOf_append ..⟩, ?_⟩
  intro n hn
  rcases List.mem_append.mp hn with hn | hn
  · exact hnews n hn
  · exact hnews' n hn

/-- An act that declares nothing. -/
theorem silent (h : Declares log log' groups) (now : Nat) {a : HubAct} (ha : a.news = none) :
    Declares log (log' ++ [(now, a)]) groups := by
  obtain ⟨news, hadds, hnews⟩ := h
  refine ⟨news, ?_, hnews⟩
  have hact := hadds.act now a
  rwa [ha, Option.toList_none, List.append_nil] at hact

theorem declare (h : Declares log log' groups) (now : Nat) {gi : Nat} (hgi : groups gi) :
    Declares log (log' ++ [(now, .unavailable gi)]) groups := by
  obtain ⟨news, hadds, hnews⟩ := h
  refine ⟨_, hadds.act now _, fun n hn => ?_⟩
  rcases List.mem_append.mp hn with hn | hn
  · exact hnews n hn
  · rw [List.mem_singleton.mp hn]
    exact ⟨hgi, rfl⟩

end Declares

namespace UdsHub

variable {h : UdsHub}

variable (now : Nat)

theorem log_slideDeadline : (h.slideDeadline now).log = h.log := by
  unfold slideDeadline
  split <;> rfl

theorem log_calls (h : UdsHub) (calls : List Call) : (calls.foldl call h).log = h.log := by
  obtain ⟨_, _, _, heq⟩ := onlyWaiting_calls h calls
  rw [heq]

theorem declares_checkDeadline (calls : List Call) :
    Declares h.log (h.checkDeadline now calls).log fun _ => True := by
  unfold checkDeadline
  dsimp only
  split
  · exact Declares.refl _ _
  · split
    · exact Declares.refl _ _
    · rw [log_calls]
      split_ifs
      · exact ((Declares.refl _ _).declare now trivial).silent now rfl
      · exact (Declares.refl _ _).silent now rfl
  · split_ifs
    · rw [log_calls]
      exact (Declares.refl _ _).silent now rfl
    · exact Declares.refl _ _

theorem declares_sendGroup (c : Catalog) (now : Nat) (taken : Bool) (origin : InFlight) (gi : Nat)
    {result : SendResult} {h' : UdsHub} (heq : h.sendGroup c now taken origin gi = (result, h')) :
    Declares h.log h'.log fun _ => True := by
  rcases sendGroup_cases (h := h) c now taken origin gi with ⟨-, hsend⟩ | ⟨g, req, -, -, hsend⟩
  · rw [hsend] at heq
    obtain ⟨-, rfl⟩ := Prod.mk.inj heq
    exact Declares.refl _ _
  · rw [hsend] at heq
    cases taken with
    | false =>
      obtain ⟨-, rfl⟩ := Prod.mk.inj heq
      exact (Declares.refl _ _).silent now rfl
    | true =>
      obtain ⟨-, rfl⟩ := Prod.mk.inj heq
      exact (Declares.refl _ _).silent now rfl

theorem declares_issueNext (c : Catalog) (now : Nat) (taken : Bool) :
    Declares h.log (h.issueNext c now taken).log fun _ => True := by
  unfold issueNext
  split_ifs
  · unfold issueRaw
    cases taken with
    | false => exact (Declares.refl _ _).silent now rfl
    | true => exact (Declares.refl _ _).silent now rfl
  · split
    · unfold issueOndemand
      split
      · next heq => exact declares_sendGroup c now taken _ _ heq
      · next heq =>
        have hsent := declares_sendGroup c now taken _ _ heq
        exact hsent
      · next heq =>
        have hsent := declares_sendGroup c now taken _ _ heq
        exact hsent
    · split
      · exact Declares.refl _ _
      · unfold issuePolled
        split
        · next heq =>
          have hsent := declares_sendGroup c now taken _ _ heq
          exact hsent
        · next heq =>
          have hsent := declares_sendGroup c now taken _ _ heq
          exact hsent.declare now trivial
        · next heq =>
          have hsent := declares_sendGroup c now taken _ _ heq
          exact hsent

theorem declares_loop (receiving taken : Bool) (calls : List Call) :
    Declares h.log (h.loop now receiving taken calls).log fun _ => True := by
  unfold loop
  split
  · exact Declares.refl _ _
  · dsimp only
    have hslide : (if receiving then h.slideDeadline now else h).log = h.log := by
      split_ifs
      · exact log_slideDeadline now
      · rfl
    generalize (if receiving then h.slideDeadline now else h) = slid at hslide ⊢
    rw [← hslide]
    split_ifs
    · exact (declares_checkDeadline now calls).trans (declares_issueNext _ now taken)
    · exact declares_checkDeadline now calls

/-- The group of the request in flight is declared unavailable. -/
theorem declares_inFlight (h : UdsHub) (now : Nat) :
    Declares h.log (h.log ++ [(now, .unavailable h.inFlightGroup)]) (· = h.inFlightGroup) :=
  (Declares.refl h.log _).declare now rfl

theorem declares_failInFlight (outcome : Outcome) :
    Declares h.log (h.failInFlight now outcome).log (· = h.inFlightGroup) := by
  unfold failInFlight
  split_ifs
  · dsimp only
    split_ifs
    · exact (declares_inFlight h now).silent now rfl
    · exact (Declares.refl _ _).silent now rfl
  · exact (Declares.refl _ _).silent now rfl

theorem declares_suspendInFlight (nrc : UInt8) :
    Declares h.log (h.suspendInFlight now nrc).log (· = h.inFlightGroup) := by
  unfold suspendInFlight
  split_ifs
  · exact (declares_inFlight h now).silent now rfl
  · exact (declares_inFlight h now).silent now rfl

theorem declares_handleNegative (nrc : UInt8) :
    Declares h.log (h.handleNegative now nrc).log (· = h.inFlightGroup) := by
  unfold handleNegative
  split
  · dsimp only
    split_ifs
    · exact declares_failInFlight (h := { h with pendingStreak := h.pendingStreak + 1 }) now _
    · exact (Declares.refl _ _).silent now rfl
    · exact (Declares.refl _ _).silent now rfl
  · exact declares_suspendInFlight now nrc
  · exact declares_suspendInFlight now nrc
  · exact declares_failInFlight now _
  · exact declares_failInFlight now _

/-- The response that an event brings to a group whose request is in flight. -/
def accepts (h : UdsHub) : Event → Option (Nat × List UInt8)
  | .message _ resp =>
    if h.consumer ∧ h.inFlight ≠ .none ∧ h.inFlight ≠ .raw ∧ h.req ≠ [] ∧
        (classifyResponse h.req resp h.inFlightRespMin).accepted then
      some (h.inFlightGroup, resp)
    else none
  | .loop _ _ _ _ | .error _ | .call _ => none

/-- The news of an event. -/
structure Said (h h' : UdsHub) (e : Event) (news : List (Nat × News)) : Prop where
  adds : Adds h.log h'.log news
  /-- An accepted response is the only news; otherwise groups are declared unavailable. -/
  answer : ∀ gi resp, h.accepts e = some (gi, resp) → news = [(gi, .answered resp)]
  declared : h.accepts e = none → ∀ n ∈ news, n.2 = .unavailable
  /-- A message is news of the group whose request is in flight. -/
  message : ∀ now resp, e = .message now resp → ∀ n ∈ news, n.1 = h.inFlightGroup

theorem acceptResponse_log (resp : List UInt8) (uncovered : Bool) :
    (h.acceptResponse now resp uncovered).log =
      (if h.inFlight = .raw then h.log else h.log ++ [(now, .decode h.inFlightGroup resp)]) ++
        [(now, .ended .accepted)] := by
  unfold acceptResponse
  cases hflight : h.inFlight <;> simp [count, act, finishInFlight, hflight]

theorem said_of_declares {h' : UdsHub} {e : Event} (groups : Nat → Prop)
    (hd : Declares h.log h'.log groups) (haccepts : h.accepts e = none)
    (hmessage : ∀ now resp, e = .message now resp → ∀ gi, groups gi → gi = h.inFlightGroup) :
    ∃ news, Said h h' e news := by
  obtain ⟨news, hadds, hnews⟩ := hd
  refine ⟨news, hadds, ?_, fun _ n hn => (hnews n hn).2, ?_⟩
  · intro gi resp h
    rw [haccepts] at h
    cases h
  · exact fun now resp he n hn => hmessage now resp he _ (hnews n hn).1

theorem said_message (resp : List UInt8) :
    ∃ news, Said h (h.step (.message now resp)) (.message now resp) news := by
  have hdeclares {h' : UdsHub} (hd : Declares h.log h'.log (· = h.inFlightGroup))
      (haccepts : h.accepts (.message now resp) = none) :
      ∃ news, Said h h' (.message now resp) news :=
    said_of_declares _ hd haccepts fun _ _ _ _ hgi => hgi
  show ∃ news, Said h (if h.consumer then h.onMessage now resp else h) (.message now resp) news
  by_cases hconsumer : h.consumer = true
  swap
  · rw [if_neg hconsumer]
    exact hdeclares (Declares.refl _ _) (if_neg fun hc => hconsumer hc.1)
  rw [if_pos hconsumer]
  unfold onMessage
  by_cases hidle : h.inFlight = .none ∨ h.req = []
  · rw [if_pos hidle]
    refine hdeclares (Declares.refl _ _) (if_neg ?_)
    rintro ⟨-, hbusy, -, hreq, -⟩
    exact hidle.elim hbusy hreq
  rw [if_neg hidle]
  rw [not_or] at hidle
  have haccepted (uncovered : Bool)
      (hverdict : (classifyResponse h.req resp h.inFlightRespMin).accepted = true) :
      ∃ news, Said h (h.acceptResponse now resp uncovered) (.message now resp) news := by
    have hlog := acceptResponse_log (h := h) now resp uncovered
    by_cases hraw : h.inFlight = .raw
    · rw [if_pos hraw] at hlog
      refine hdeclares ?_ (if_neg fun hc => hc.2.2.1 hraw)
      rw [hlog]
      exact (Declares.refl _ _).silent now rfl
    · rw [if_neg hraw] at hlog
      have hsome : h.accepts (.message now resp) = some (h.inFlightGroup, resp) :=
        if_pos ⟨hconsumer, hidle.1, hraw, hidle.2, hverdict⟩
      refine ⟨[(h.inFlightGroup, .answered resp)], ?_, ?_, ?_, ?_⟩
      · rw [hlog]
        exact ((Adds.refl h.log).act now (.decode h.inFlightGroup resp)).act now (.ended .accepted)
      · intro gi resp' heq
        rw [hsome] at heq
        cases heq
        rfl
      · intro hnone
        rw [hsome] at hnone
        cases hnone
      · intro _ _ _ n hn
        rw [List.mem_singleton.mp hn]
  have hrefused (hverdict : (classifyResponse h.req resp h.inFlightRespMin).accepted = false) :
      h.accepts (.message now resp) = none := by
    refine if_neg fun hc => ?_
    rw [hverdict] at hc
    exact Bool.false_ne_true hc.2.2.2.2
  cases hverdict : classifyResponse h.req resp h.inFlightRespMin with
  | notOurs => exact hdeclares (Declares.refl _ _) (hrefused (by rw [hverdict]; rfl))
  | tooShort => exact hdeclares (Declares.refl _ _) (hrefused (by rw [hverdict]; rfl))
  | negative nrc =>
    refine hdeclares ?_ (hrefused (by rw [hverdict]; rfl))
    exact declares_handleNegative (h := h.count fun n =>
      { n with negativeResponses := n.negativeResponses + 1, lastNrc := nrc }) now nrc
  | covered => exact haccepted false (by rw [hverdict]; rfl)
  | uncovered => exact haccepted true (by rw [hverdict]; rfl)

/-- Every event has its news. -/
theorem exists_said (h : UdsHub) (e : Event) : ∃ news, Said h (h.step e) e news := by
  cases e with
  | message now resp => exact said_message now resp
  | loop now receiving taken calls =>
    exact said_of_declares _ (declares_loop now receiving taken calls) rfl (by simp)
  | call c =>
    refine said_of_declares (fun _ => True) ?_ rfl (by simp)
    show Declares h.log (h.call c).log _
    rw [← log_calls h [c]]
    exact Declares.refl _ _
  | error now =>
    refine said_of_declares (· = h.inFlightGroup) ?_ rfl (by simp)
    show Declares h.log (if h.consumer then h.onError now else h).log _
    unfold onError
    split_ifs
    · exact Declares.refl _ _
    · exact declares_failInFlight now _
    · exact Declares.refl _ _

end UdsHub

/-! ## What an entity has to show -/

namespace Entity

variable (e : Entity)

def unavailable : Shown := if e.isText then .text [] else .value .nan

/-- The text that a response gives for the field at the element, which is empty if there is none. -/
def decodedText (c : Catalog) (f : FieldView) (resp : List UInt8) : List UInt8 :=
  if f.ascii then (extractAscii resp f e.binding.element udsTextSlotCap).getD []
  else if f.hexdump then extractHexdump resp f e.binding.element udsTextSlotCap
  else
    match (c.decodeNumeric f resp e.binding.element).text with
    | some text => copyBounded udsTextSlotCap text
    | none => []

/-- The decode of a response, or nothing if it does not cover the element or gives no value. -/
def answer (c : Catalog) (f : FieldView) (resp : List UInt8) : Shown :=
  if !fieldCovered f resp.length e.binding.element then e.unavailable
  else if e.isText then .text (e.decodedText c f resp)
  else
    let d := c.decodeNumeric f resp e.binding.element
    .value (if d.valid then d.value else .nan)

def due (c : Catalog) (f : FieldView) : News → Shown
  | .answered resp => e.answer c f resp
  | .unavailable => e.unavailable

end Entity

theorem extractRaw_of_not_covered {f : FieldView} {resp : List UInt8} {element : Nat}
    (h : fieldCovered f resp.length element = false) : extractRaw resp f element = none := by
  unfold extractRaw
  by_cases hempty : f.bitSize = 0 ∨ f.repeatCount = 0 ∨ f.repeatCount ≤ element
  · rcases hempty with hsize | hcount
    · rw [if_pos (.inl hsize)]
    · rw [if_pos hcount, ite_self]
  · rw [fieldCovered, if_neg hempty, decide_eq_false_iff_not, Nat.not_le] at h
    rw [if_pos h, ite_self, ite_self]

theorem fieldBytes_of_not_covered {f : FieldView} {resp : List UInt8} {element : Nat}
    (h : fieldCovered f resp.length element = false) : fieldBytes resp f element = none := by
  unfold fieldBytes
  by_cases hempty : f.bitSize = 0 ∨ f.repeatCount = 0 ∨ f.repeatCount ≤ element
  · rw [if_pos hempty]
  · rw [fieldCovered, if_neg hempty, decide_eq_false_iff_not, Nat.not_le] at h
    rw [if_neg hempty]
    split_ifs with haligned hshort
    · rfl
    · rfl
    · omega

namespace Entity

variable {c : Catalog} {f : FieldView} {resp : List UInt8} (e : Entity)

theorem decodeNumeric_of_not_covered {element : Nat}
    (h : fieldCovered f resp.length element = false) : c.decodeNumeric f resp element = {} := by
  rw [Catalog.decodeNumeric, extractRaw_of_not_covered h]

/-- Nothing is decoded past the end of a response, whether the coverage is asked for or not. -/
theorem answer_eq :
    e.answer c f resp =
      if e.isText then .text (e.decodedText c f resp)
      else
        .value (if (c.decodeNumeric f resp e.binding.element).valid then
          (c.decodeNumeric f resp e.binding.element).value else .nan) := by
  unfold answer
  cases hcovered : fieldCovered f resp.length e.binding.element with
  | true => rfl
  | false =>
    rw [Bool.not_false, if_pos rfl, unavailable, decodedText, extractAscii, extractHexdump,
      fieldBytes_of_not_covered hcovered, decodeNumeric_of_not_covered hcovered]
    simp

end Entity

namespace Slot

variable {c : Catalog} {f : FieldView} {resp : List UInt8} {s : Slot}

theorem state_of_not_valid (h : s.valid = false) : s.state = s.entity.unavailable := by
  unfold state Entity.unavailable
  rw [h]
  rfl

theorem decodeText_eq (s : Slot) (c : Catalog) (f : FieldView) (resp : List UInt8) :
    ∃ text valid, s.decodeText c f resp = { s with text := text, valid := valid } ∧
      (if valid then text else []) = s.entity.decodedText c f resp := by
  unfold decodeText Entity.decodedText element
  by_cases hascii : f.ascii = true
  · rw [if_pos hascii, if_pos hascii]
    cases extractAscii resp f s.entity.binding.element udsTextSlotCap with
    | none => exact ⟨_, _, rfl, rfl⟩
    | some text => exact ⟨_, _, rfl, rfl⟩
  rw [if_neg hascii, if_neg hascii]
  by_cases hhexdump : f.hexdump = true
  · rw [if_pos hhexdump, if_pos hhexdump]
    refine ⟨_, _, rfl, ?_⟩
    cases extractHexdump resp f s.entity.binding.element udsTextSlotCap with
    | nil => rfl
    | cons b text => rfl
  · rw [if_neg hhexdump, if_neg hhexdump]
    cases (c.decodeNumeric f resp s.entity.binding.element).text with
    | none => exact ⟨_, _, rfl, rfl⟩
    | some text => exact ⟨_, _, rfl, rfl⟩

/-- A slot that is decoded holds the answer. -/
theorem decoded_eq (s : Slot) (c : Catalog) (f : FieldView) (resp : List UInt8) :
    ∃ text value valid,
      (if s.entity.isText then s.decodeText c f resp else s.decodeValue c f resp) =
        { s with text := text, value := value, valid := valid } ∧
      { s with text := text, value := value, valid := valid }.state =
        s.entity.answer c f resp := by
  rw [Entity.answer_eq]
  unfold state
  cases htext : s.entity.isText with
  | true =>
    obtain ⟨text, valid, heq, hshown⟩ := s.decodeText_eq c f resp
    refine ⟨text, s.value, valid, heq, ?_⟩
    rw [if_pos rfl, if_pos htext, ← hshown]
  | false =>
    refine ⟨s.text, _, _, rfl, ?_⟩
    rw [if_neg Bool.false_ne_true, if_neg (by rw [htext]; exact Bool.false_ne_true)]
    rfl

/-- The entity has been told what the slot holds, or is about to be. -/
def Told (s : Slot) : Prop := s.dirty = true ∨ s.shown = some s.state

/-- An act changes neither the binding nor what the entity was told, and no slot becomes clean. -/
theorem follow_eq (s : Slot) (c : Catalog) (respMin : Nat) (a : HubAct) :
    ∃ text value dirty valid uncovered, s.follow c respMin a =
      { s with
        text := text, value := value, dirty := dirty, valid := valid, uncovered := uncovered } ∧
      (s.dirty = true → dirty = true) := by
  have hsame : ∃ text value dirty valid uncovered, s =
      { s with
        text := text, value := value, dirty := dirty, valid := valid, uncovered := uncovered } ∧
      (s.dirty = true → dirty = true) := ⟨_, _, _, _, _, rfl, id⟩
  cases a with
  | decode gi resp =>
    show ∃ text value dirty valid uncovered, s.decode c gi resp (resp.length < respMin) = _ ∧ _
    unfold decode
    split
    · exact hsame
    · next group field _ =>
      by_cases hother : group ≠ gi
      · rw [if_pos hother]
        exact hsame
      rw [if_neg hother]
      cases c.field field with
      | none => exact hsame
      | some f =>
        dsimp only
        split_ifs
        · unfold noteUncovered
          split_ifs
          · exact hsame
          · exact ⟨_, _, _, _, _, rfl, fun _ => rfl⟩
        · obtain ⟨text, valid, heq, -⟩ := s.decodeText_eq c f resp
          rw [heq]
          exact ⟨_, _, _, _, _, rfl, fun _ => rfl⟩
        · exact ⟨_, _, _, _, _, rfl, fun _ => rfl⟩
  | unavailable gi =>
    show ∃ text value dirty valid uncovered, s.groupUnavailable gi = _ ∧ _
    unfold groupUnavailable
    split
    · exact hsame
    split_ifs
    · exact hsame
    · exact ⟨_, _, _, _, _, rfl, fun _ => rfl⟩
  | offer _ _ _ _ | pending | ended _ => exact hsame

variable {gi fi : Nat} {log : List (Nat × HubAct)}

/-- An act of another group leaves a slot as it is. -/
theorem follow_of_other (hplace : s.place = some (gi, fi)) {respMin : Nat}
    {a : HubAct} (ha : ∀ n, a.news ≠ some (gi, n)) : s.follow c respMin a = s := by
  cases a with
  | decode g resp =>
    show s.decode c g resp _ = s
    unfold decode
    rw [hplace]
    exact if_pos fun h => ha _ (congrArg (fun g => some (g, News.answered resp)) h.symm)
  | unavailable g =>
    show s.groupUnavailable g = s
    unfold groupUnavailable
    rw [hplace]
    exact if_pos fun h => ha _ (congrArg (fun g => some (g, News.unavailable)) h.symm)
  | offer _ _ _ _ | pending | ended _ => rfl

theorem follow_of_unresolved (hplace : s.place = none) (c : Catalog) (respMin : Nat) (a : HubAct) :
    s.follow c respMin a = s := by
  cases a with
  | decode g resp =>
    show s.decode c g resp _ = s
    rw [decode, hplace]
  | unavailable g =>
    show s.groupUnavailable g = s
    rw [groupUnavailable, hplace]
  | offer _ _ _ _ | pending | ended _ => rfl

/-- The slot of a resolved binding holds what the latest news of its group says. -/
structure Current (c : Catalog) (f : FieldView) (gi : Nat) (log : List (Nat × HubAct)) (s : Slot) :
    Prop where
  uncovered : s.uncovered = true → s.valid = false ∧ s.Told
  silent : latest gi log = none → s.dirty = false ∧ s.shown = none
  told : ∀ n, latest gi log = some n → s.Told ∧ s.state = s.entity.due c f n

/-- A slot that has news. -/
theorem current_of_news {a : HubAct} {n : News}
    (ha : a.news = some (gi, n)) (now : Nat) (huncovered : s.uncovered = true → s.valid = false)
    (htold : s.Told) (hstate : s.state = s.entity.due c f n) :
    Current c f gi (log ++ [(now, a)]) s := by
  have hlatest := latest_concat_some ha log now
  refine ⟨fun h => ⟨huncovered h, htold⟩, ?_, ?_⟩
  · intro hnone
    rw [hlatest] at hnone
    cases hnone
  · intro n' hsome
    rw [hlatest] at hsome
    cases hsome
    exact ⟨htold, hstate⟩

theorem Current.decode (h : Current c f gi log s)
    (hplace : s.place = some (gi, fi)) (hfield : c.field fi = some f) (now : Nat)
    (resp : List UInt8) (short : Bool) :
    Current c f gi (log ++ [(now, .decode gi resp)]) (s.decode c gi resp short) := by
  have hnews : HubAct.news (.decode gi resp) = some (gi, .answered resp) := rfl
  unfold Slot.decode
  rw [hplace]
  dsimp only
  rw [if_neg (not_not.mpr rfl), hfield]
  dsimp only
  split_ifs with huncovered htext
  · -- The answer ends in front of the element.
    have hanswer : s.entity.answer c f resp = s.entity.unavailable := if_pos huncovered.2
    unfold noteUncovered
    split_ifs with hnoted
    · obtain ⟨hvalid, htold⟩ := h.uncovered hnoted
      exact current_of_news hnews now (fun _ => hvalid) htold
        ((state_of_not_valid hvalid).trans hanswer.symm)
    · exact current_of_news hnews now (fun _ => rfl) (.inl rfl)
        ((state_of_not_valid rfl).trans hanswer.symm)
  · obtain ⟨text, value, valid, heq, hstate⟩ := s.decoded_eq c f resp
    rw [if_pos htext] at heq
    rw [heq]
    exact current_of_news hnews now nofun (.inl rfl) hstate
  · obtain ⟨text, value, valid, heq, hstate⟩ := s.decoded_eq c f resp
    rw [if_neg htext] at heq
    rw [heq]
    exact current_of_news hnews now nofun (.inl rfl) hstate

theorem Current.groupUnavailable (hplace : s.place = some (gi, fi)) (now : Nat) :
    Current c f gi (log ++ [(now, .unavailable gi)]) (s.groupUnavailable gi) := by
  unfold Slot.groupUnavailable
  rw [hplace]
  dsimp only
  rw [if_neg (not_not.mpr rfl)]
  exact current_of_news rfl now (fun _ => rfl) (.inl rfl) (state_of_not_valid rfl)

/-- A slot follows one act. -/
theorem Current.follow (h : Current c f gi log s)
    (hplace : s.place = some (gi, fi)) (hfield : c.field fi = some f) (respMin now : Nat)
    (a : HubAct) : Current c f gi (log ++ [(now, a)]) (s.follow c respMin a) := by
  by_cases hother : ∀ n, a.news ≠ some (gi, n)
  · have hlatest := latest_concat_other hother log now
    rw [follow_of_other hplace hother]
    exact
      { uncovered := h.uncovered
        silent := fun hnone => h.silent (hlatest.symm.trans hnone)
        told := fun n hsome => h.told n (hlatest.symm.trans hsome) }
  · rw [not_forall] at hother
    obtain ⟨n, hother⟩ := hother
    have hnews := not_not.mp hother
    cases a with
    | decode g resp =>
      obtain ⟨rfl, -⟩ := Prod.mk.inj (Option.some.inj hnews)
      exact h.decode hplace hfield now resp _
    | unavailable g =>
      obtain ⟨rfl, -⟩ := Prod.mk.inj (Option.some.inj hnews)
      exact Current.groupUnavailable hplace now
    | offer _ _ _ _ | pending | ended _ => cases hnews

/-- A slot follows the acts of an event. -/
theorem Current.followAll (h : Current c f gi log s)
    (hplace : s.place = some (gi, fi)) (hfield : c.field fi = some f) (respMin : Nat)
    (acts : List (Nat × HubAct)) :
    Current c f gi (log ++ acts) (acts.foldl (fun s p => s.follow c respMin p.2) s) := by
  induction acts generalizing s log with
  | nil => rwa [List.append_nil]
  | cons p acts ih =>
    obtain ⟨now, a⟩ := p
    rw [List.append_cons]
    refine ih (h.follow hplace hfield respMin now a) ?_
    obtain ⟨_, _, _, _, _, heq, -⟩ := s.follow_eq c respMin a
    show (s.follow c respMin a).place = some (gi, fi)
    rw [heq]
    exact hplace

/-- What the acts of an event leave as it is. -/
theorem followAll_eq (s : Slot) (c : Catalog) (respMin : Nat) (acts : List (Nat × HubAct)) :
    ∃ text value dirty valid uncovered, acts.foldl (fun s p => s.follow c respMin p.2) s =
      { s with
        text := text, value := value, dirty := dirty, valid := valid, uncovered := uncovered } ∧
      (s.dirty = true → dirty = true) := by
  induction acts generalizing s with
  | nil => exact ⟨_, _, _, _, _, rfl, id⟩
  | cons p acts ih =>
    obtain ⟨_, _, _, _, _, heq, hdirty⟩ := s.follow_eq c respMin p.2
    obtain ⟨_, _, _, _, _, heq', hdirty'⟩ := ih (s.follow c respMin p.2)
    rw [List.foldl_cons, heq', heq]
    rw [heq] at hdirty'
    exact ⟨_, _, _, _, _, rfl, fun h => hdirty' (hdirty h)⟩

theorem followAll_of_unresolved (hplace : s.place = none) (c : Catalog) (respMin : Nat)
    (acts : List (Nat × HubAct)) : acts.foldl (fun s p => s.follow c respMin p.2) s = s := by
  induction acts with
  | nil => rfl
  | cons p acts ih => rw [List.foldl_cons, follow_of_unresolved hplace, ih]

theorem followAll_of_other (hplace : s.place = some (gi, fi)) (respMin : Nat)
    {acts : List (Nat × HubAct)} (hacts : ∀ n ∈ newsOf acts, n.1 ≠ gi) :
    acts.foldl (fun s p => s.follow c respMin p.2) s = s := by
  induction acts with
  | nil => rfl
  | cons p acts ih =>
    have hsplit := newsOf_append [p] acts
    rw [List.singleton_append] at hsplit
    rw [hsplit] at hacts
    rw [List.foldl_cons, follow_of_other hplace, ih fun n hn => hacts n (List.mem_append_right _ hn)]
    intro n hn
    refine hacts (gi, n) (List.mem_append_left _ ?_) rfl
    rw [newsOf_single p.1 p.2, hn]
    exact List.mem_singleton_self _

/-! ## Publishing -/

theorem publish_publish (s : Slot) : s.publish.publish = s.publish := by
  unfold publish
  cases hdirty : s.dirty with
  | true => rfl
  | false => simp [hdirty]

theorem Told.publish (h : s.Told) : s.publish.Told := by
  unfold Slot.publish
  split_ifs with hdirty
  · exact .inr rfl
  · exact h

theorem Current.publish (h : Current c f gi log s) : Current c f gi log s.publish := by
  cases hdirty : s.dirty with
  | false =>
    have hsame : s.publish = s := if_neg (by rw [hdirty]; exact Bool.false_ne_true)
    rwa [hsame]
  | true =>
    have hpublish : s.publish = { s with dirty := false, shown := some s.state } := if_pos hdirty
    rw [hpublish]
    refine ⟨fun hu => ⟨(h.uncovered hu).1, .inr rfl⟩, ?_, fun n hn => ⟨.inr rfl, (h.told n hn).2⟩⟩
    intro hnone
    rw [(h.silent hnone).1] at hdirty
    cases hdirty

end Slot

/-! ## A pass of the publisher -/

variable {slots : List Slot} {cursor : Nat}

theorem publishFrom_succ {s : Slot}
    (hs : slots[cursor]? = some s) {published : Nat} (hroom : ¬udsPublishPerLoop ≤ published)
    (n : Nat) :
    publishFrom (n + 1) published (slots, cursor) =
      publishFrom n (if s.dirty then published + 1 else published)
        (slots.set cursor s.publish, (cursor + 1) % slots.length) := by
  rw [publishFrom, if_neg hroom, hs]
  dsimp only
  cases hdirty : s.dirty with
  | true => rfl
  | false =>
    have hsame : s.publish = s := if_neg (by rw [hdirty]; exact Bool.false_ne_true)
    obtain ⟨hlt, hget⟩ := List.getElem?_eq_some_iff.mp hs
    rw [hsame, ← hget, List.set_getElem_self]
    rfl

/-- The binding of a slot, and what it resolves to. -/
def Slot.owner (s : Slot) : Entity × Option (Nat × Nat) := (s.entity, s.place)

theorem owner_publish (s : Slot) : s.publish.owner = s.owner := by
  unfold Slot.publish
  split_ifs <;> rfl

theorem owner_publishFrom (n published : Nat) (slots : List Slot) (cursor : Nat) :
    (publishFrom n published (slots, cursor)).1.map Slot.owner = slots.map Slot.owner := by
  induction n generalizing published slots cursor with
  | zero => rfl
  | succ n ih =>
    unfold publishFrom
    dsimp only
    split_ifs
    · rfl
    split
    · exact ih _ _ _
    next s hs =>
    split_ifs
    · exact ih _ _ _
    · have howner : (slots.map Slot.owner)[cursor]? = some s.owner := by
        rw [List.getElem?_map, hs, Option.map_some]
      obtain ⟨hlt, heq⟩ := List.getElem?_eq_some_iff.mp howner
      rw [ih, List.map_set, owner_publish, ← heq, List.set_getElem_self]

theorem length_publishFrom (n published : Nat) (slots : List Slot) (cursor : Nat) :
    (publishFrom n published (slots, cursor)).1.length = slots.length := by
  have h := congrArg List.length (owner_publishFrom n published slots cursor)
  rwa [List.length_map, List.length_map] at h

/-- A pass examines slots from the cursor on, until it has been past all of them or has published as
many as it may. -/
theorem publishFrom_spec (hcursor : cursor < slots.length) (n published : Nat) :
    ∃ m ≤ n, (m = n ∨ udsPublishPerLoop ≤ published + m) ∧
      (publishFrom n published (slots, cursor)).2 = (cursor + m) % slots.length ∧
      (∀ d < m, (publishFrom n published (slots, cursor)).1[(cursor + d) % slots.length]? =
        slots[(cursor + d) % slots.length]?.map Slot.publish) ∧
      ∀ i, (∀ d < m, (cursor + d) % slots.length ≠ i) →
        (publishFrom n published (slots, cursor)).1[i]? = slots[i]? := by
  have hstay : (cursor + 0) % slots.length = cursor := Nat.mod_eq_of_lt hcursor
  induction n generalizing slots cursor published with
  | zero => exact ⟨0, Nat.le_refl _, .inl rfl, hstay.symm, nofun, fun _ _ => rfl⟩
  | succ n ih =>
    by_cases hroom : udsPublishPerLoop ≤ published
    · rw [publishFrom, if_pos hroom]
      exact ⟨0, Nat.zero_le _, .inr hroom, hstay.symm, nofun, fun _ _ => rfl⟩
    obtain ⟨s, hs⟩ : ∃ s, slots[cursor]? = some s := ⟨_, List.getElem?_eq_getElem hcursor⟩
    rw [publishFrom_succ hs hroom]
    generalize hslots : slots.set cursor s.publish = slots'
    have hlength : slots'.length = slots.length := by rw [← hslots, List.length_set]
    have hpos : 0 < slots.length := Nat.lt_of_le_of_lt (Nat.zero_le _) hcursor
    have hnext : (cursor + 1) % slots.length < slots'.length := by
      rw [hlength]
      exact Nat.mod_lt _ hpos
    have hpublish (j : Nat) : slots'[j]?.map Slot.publish = slots[j]?.map Slot.publish := by
      rw [← hslots, List.getElem?_set]
      split_ifs with hj
      · rw [← hj, hs, Option.map_some, Option.map_some, Slot.publish_publish]
      · rfl
    obtain ⟨m, hm, hend, hcursor', hin, hout⟩ :=
      ih hnext (if s.dirty then published + 1 else published) (Nat.mod_eq_of_lt hnext)
    rw [hlength] at hcursor' hin hout
    have hshift (d : Nat) :
        ((cursor + 1) % slots.length + d) % slots.length = (cursor + (d + 1)) % slots.length := by
      rw [Nat.mod_add_mod, Nat.add_assoc, Nat.add_comm 1 d]
    refine ⟨m + 1, Nat.succ_le_succ hm, ?_, hcursor'.trans (hshift m), ?_, ?_⟩
    · rcases hend with rfl | hend
      · exact .inl rfl
      · right
        split_ifs at hend <;> omega
    · intro d hd
      cases d with
      | zero =>
        rw [hstay, hs]
        by_cases hagain : ∀ d < m, ((cursor + 1) % slots.length + d) % slots.length ≠ cursor
        · rw [hout cursor hagain, ← hslots, List.getElem?_set_self hcursor]
          rfl
        · simp only [not_forall, not_not] at hagain
          obtain ⟨d, hd, heq⟩ := hagain
          have hin' := hin d hd
          rw [heq] at hin'
          rw [hin', hpublish, hs]
      | succ d =>
        have hin' := hin d (by omega)
        rw [hshift, hpublish] at hin'
        exact hin'
    · intro i hi
      have hne : cursor ≠ i := by
        have h0 := hi 0 (by omega)
        rwa [hstay] at h0
      rw [hout i fun d hd => by rw [hshift]; exact hi (d + 1) (by omega), ← hslots,
        List.getElem?_set_ne hne]

theorem mem_publishFrom {n published : Nat} {s : Slot}
    (h : s ∈ (publishFrom n published (slots, cursor)).1) :
    ∃ s₀ ∈ slots, s = s₀ ∨ s = s₀.publish := by
  induction n generalizing slots cursor published with
  | zero => exact ⟨s, h, .inl rfl⟩
  | succ n ih =>
    unfold publishFrom at h
    dsimp only at h
    split_ifs at h
    · exact ⟨s, h, .inl rfl⟩
    split at h
    · exact ih h
    next s₁ hs₁ =>
    split_ifs at h
    · exact ih h
    · obtain ⟨s₀, hmem, heq⟩ := ih h
      rcases List.mem_or_eq_of_mem_set hmem with hmem | rfl
      · exact ⟨s₀, hmem, heq⟩
      · refine ⟨s₁, List.mem_of_getElem? hs₁, .inr ?_⟩
        rcases heq with rfl | rfl
        · rfl
        · exact Slot.publish_publish s₁

/-! ## Steps -/

namespace Board

open UdsHub

variable {b : Board}

/-- What the hub says in an event, and what the slots make of it. -/
theorem react_spec (b : Board) (e : Event) :
    ∃ news, Said b.hub (b.react e).hub e news ∧ (b.react e).hub = b.hub.step e ∧
      (b.react e).cursor = b.cursor ∧
      match b.hub.catalog with
      | none => (b.react e).slots = b.slots
      | some c => ∃ acts, (b.react e).hub.log = b.hub.log ++ acts ∧ newsOf acts = news ∧
          (b.react e).slots = b.slots.map fun s =>
            acts.foldl (fun s p => s.follow c b.hub.inFlightRespMin p.2) s := by
  obtain ⟨news, hsaid⟩ := exists_said b.hub e
  obtain ⟨acts, hlog, hnews⟩ := hsaid.adds
  have hacts : b.acts e = acts := by rw [Board.acts, hlog, List.drop_left]
  unfold react
  cases b.hub.catalog with
  | none => exact ⟨news, hsaid, rfl, rfl, rfl⟩
  | some c => exact ⟨news, hsaid, rfl, rfl, acts, hlog, hnews, by rw [hacts]⟩

variable {i d : Nat} {s : Slot}

/-- The slots follow, each for itself. -/
theorem react_slot (h : b.slots[i]? = some s) (e : Event) :
    ∃ text value dirty valid uncovered, (b.react e).slots[i]? =
      some { s with
        text := text, value := value, dirty := dirty, valid := valid, uncovered := uncovered } ∧
      (s.dirty = true → dirty = true) := by
  obtain ⟨news, -, -, -, hslots⟩ := b.react_spec e
  split at hslots
  · rw [hslots]
    exact ⟨_, _, _, _, _, h, id⟩
  · next c _ =>
    obtain ⟨acts, -, -, hslots⟩ := hslots
    obtain ⟨text, value, dirty, valid, uncovered, heq, hdirty⟩ :=
      s.followAll_eq c b.hub.inFlightRespMin acts
    rw [hslots, List.getElem?_map, h, Option.map_some, heq]
    exact ⟨_, _, _, _, _, rfl, hdirty⟩

theorem length_react (b : Board) (e : Event) : (b.react e).slots.length = b.slots.length := by
  obtain ⟨news, -, -, -, hslots⟩ := b.react_spec e
  split at hslots
  · rw [hslots]
  · obtain ⟨_, -, -, hslots⟩ := hslots
    rw [hslots, List.length_map]

/-- A slot is unresolved and unavailable, or it holds what the latest news of its group says. -/
inductive Sound (h : UdsHub) (s : Slot) : Prop
  | unresolved (hplace : s.place = none) (hvalid : s.valid = false) (htold : s.Told)
  | resolved (c : Catalog) (f : FieldView) (gi fi : Nat) (hcatalog : h.catalog = some c)
      (hfield : c.field fi = some f) (hplace : s.place = some (gi, fi))
      (hcurrent : s.Current c f gi h.log)

theorem Sound.publish {h : UdsHub} (hs : Sound h s) : Sound h s.publish := by
  have hplace : s.publish.place = s.place := by
    unfold Slot.publish
    split_ifs <;> rfl
  have hvalid : s.publish.valid = s.valid := by
    unfold Slot.publish
    split_ifs <;> rfl
  cases hs with
  | unresolved hnone hinvalid htold =>
    exact .unresolved (hplace.trans hnone) (hvalid.trans hinvalid) htold.publish
  | resolved c f gi fi hcatalog hfield hsome hcurrent =>
    exact .resolved c f gi fi hcatalog hfield (hplace.trans hsome) hcurrent.publish

theorem sound_react (h : ∀ s ∈ b.slots, Sound b.hub s) (e : Event) :
    ∀ s ∈ (b.react e).slots, Sound (b.react e).hub s := by
  obtain ⟨news, -, hhub, -, hslots⟩ := b.react_spec e
  have hcatalog : (b.react e).hub.catalog = b.hub.catalog := by
    rw [hhub]
    exact congrArg Prod.fst (fixed_step (h := b.hub) e)
  split at hslots
  · next hnone =>
    rw [hslots]
    intro s hs
    cases h s hs with
    | unresolved hplace hvalid htold => exact .unresolved hplace hvalid htold
    | resolved c f gi fi hsome hfield hplace hcurrent =>
      rw [hnone] at hsome
      cases hsome
  · next c hsome =>
    obtain ⟨acts, hlog, -, hslots⟩ := hslots
    rw [hslots]
    intro s' hs'
    obtain ⟨s, hs, rfl⟩ := List.mem_map.mp hs'
    cases h s hs with
    | unresolved hplace hvalid htold =>
      rw [Slot.followAll_of_unresolved hplace]
      exact .unresolved hplace hvalid htold
    | resolved c' f gi fi hsome' hfield hplace hcurrent =>
      obtain rfl := Option.some.inj (hsome.symm.trans hsome')
      have hfollowed := hcurrent.followAll hplace hfield b.hub.inFlightRespMin acts
      rw [← hlog] at hfollowed
      refine .resolved c f gi fi (hcatalog.trans hsome) hfield ?_ hfollowed
      obtain ⟨_, _, _, _, _, heq, -⟩ := s.followAll_eq c b.hub.inFlightRespMin acts
      rw [heq]
      exact hplace

theorem sound_step (h : ∀ s ∈ b.slots, Sound b.hub s) (e : Event) :
    ∀ s ∈ (b.step e).slots, Sound (b.step e).hub s := by
  cases e with
  | loop now receiving taken calls =>
    intro s hs
    obtain ⟨s₀, hs₀, heq⟩ := mem_publishFrom hs
    have hsound := sound_react h (.loop now receiving taken calls) s₀ hs₀
    rcases heq with rfl | rfl
    · exact hsound
    · exact hsound.publish
  | message now resp => exact sound_react h _
  | error now => exact sound_react h _
  | call c => exact sound_react h _

/-- The fields that a binding resolves to are in the catalog. -/
theorem exists_field_of_walkFields {c : Catalog} {binding : UdsBinding} {count first fi : Nat}
    (h : c.walkFields binding count first = some fi) : ∃ f, c.field fi = some f := by
  induction count generalizing first with
  | zero => cases h
  | succ count ih =>
    unfold Catalog.walkFields at h
    split at h
    · cases h
    next f hf =>
    split_ifs at h
    · exact ih h
    · cases h
      exact ⟨f, hf⟩

theorem sound_setup (cfg : HubConfig) (entities : List Entity) (boot : Nat) :
    ∀ s ∈ (setup cfg entities boot).slots, Sound (setup cfg entities boot).hub s := by
  have hlog : (setup cfg entities boot).hub.log = [] := by
    show (UdsHub.setup _ boot).log = []
    unfold UdsHub.setup
    dsimp only
    split
    · rfl
    · split <;> rfl
  intro s hs
  obtain ⟨e, -, rfl⟩ := List.mem_map.mp hs
  dsimp only
  split
  · next c ecu hcatalog hecu =>
    cases hplace : c.resolveBinding (some ecu) e.binding with
    | none => exact .unresolved rfl rfl (.inl rfl)
    | some place =>
      obtain ⟨gi, fi⟩ := place
      have hresolve := hplace
      unfold Catalog.resolveBinding at hresolve
      split at hresolve
      · cases hresolve
      split at hresolve
      · cases hresolve
      obtain ⟨_, hwalk, heq⟩ := Option.map_eq_some_iff.mp hresolve
      obtain ⟨rfl, rfl⟩ := Prod.mk.inj heq
      obtain ⟨f, hfield⟩ := exists_field_of_walkFields hwalk
      refine .resolved c f _ _ hcatalog hfield rfl ⟨nofun, fun _ => ⟨rfl, rfl⟩, ?_⟩
      intro n hn
      rw [hlog] at hn
      cases hn
  · exact .unresolved rfl rfl (.inl rfl)

theorem sound_run (cfg : HubConfig) (entities : List Entity) (boot : Nat) (events : List Event) :
    ∀ s ∈ (run cfg entities boot events).slots, Sound (run cfg entities boot events).hub s := by
  unfold run exec
  exact List.foldlRecOn events step (sound_setup cfg entities boot)
    fun b h e _ => sound_step (b := b) h e

/-- What an entity shows when its slot is clean. -/
theorem shown_of_clean {h : UdsHub} (hs : Sound h s) (hclean : s.dirty = false) : match s.place with
    | none => s.shown = some s.entity.unavailable
    | some (gi, fi) => ∃ c f, h.catalog = some c ∧ c.field fi = some f ∧
        s.shown = (latest gi h.log).map (s.entity.due c f) := by
  have htold (ht : s.Told) : s.shown = some s.state :=
    ht.resolve_left (by rw [hclean]; exact Bool.false_ne_true)
  cases hs with
  | unresolved hplace hvalid ht =>
    rw [hplace]
    exact (htold ht).trans (congrArg some (Slot.state_of_not_valid hvalid))
  | resolved c f gi fi hcatalog hfield hplace hcurrent =>
    rw [hplace]
    refine ⟨c, f, hcatalog, hfield, ?_⟩
    cases hlatest : latest gi h.log with
    | none => exact (hcurrent.silent hlatest).2
    | some n =>
      obtain ⟨ht, hstate⟩ := hcurrent.told n hlatest
      exact (htold ht).trans (congrArg some hstate)

/-! ## Other groups -/

/-- A message bears on the group alone whose request is in flight. -/
theorem message_other (hs : b.slots[i]? = some s) {gi fi : Nat}
    (hplace : s.place = some (gi, fi)) (hother : gi ≠ b.hub.inFlightGroup) (now : Nat)
    (resp : List UInt8) : (b.step (.message now resp)).slots[i]? = some s := by
  obtain ⟨news, hsaid, -, -, hslots⟩ := b.react_spec (.message now resp)
  show (b.react (.message now resp)).slots[i]? = some s
  split at hslots
  · rw [hslots]
    exact hs
  · obtain ⟨acts, -, hnews, hslots⟩ := hslots
    rw [hslots, List.getElem?_map, hs, Option.map_some, Slot.followAll_of_other hplace]
    intro n hn
    rw [hnews] at hn
    rw [hsaid.message now resp rfl n hn]
    exact hother.symm

/-! ## Passes of the publisher -/

/-- The event is a pass of the loop. -/
def isLoop : Event → Bool
  | .loop _ _ _ _ => true
  | .message _ _ | .error _ | .call _ => false

/-- The slot is the `d`-th from the cursor on. -/
def Ahead (b : Board) (i d : Nat) : Prop :=
  b.cursor < b.slots.length ∧ (b.cursor + d) % b.slots.length = i

theorem ahead_react (h : b.Ahead i d) (e : Event) : (b.react e).Ahead i d := by
  obtain ⟨news, -, -, hcursor, -⟩ := b.react_spec e
  unfold Ahead
  rw [hcursor, length_react]
  exact h

/-- A pass publishes the slot, or the cursor comes nearer to it by as many as are published. -/
theorem publishDirty_ahead (h : b.Ahead i d) (hd : d < b.slots.length) (hs : b.slots[i]? = some s) :
    b.publishDirty.slots[i]? = some s.publish ∨
      b.publishDirty.slots[i]? = some s ∧
        ∃ d', d' + udsPublishPerLoop ≤ d ∧ b.publishDirty.Ahead i d' := by
  obtain ⟨hcursor, hi⟩ := h
  obtain ⟨m, -, hend, hcursor', hin, hout⟩ := publishFrom_spec hcursor b.slots.length 0
  have hlength := length_publishFrom b.slots.length 0 b.slots b.cursor
  by_cases hpassed : ∃ d < m, (b.cursor + d) % b.slots.length = i
  · obtain ⟨d, hd, heq⟩ := hpassed
    left
    have hin' := hin d hd
    rw [heq, hs] at hin'
    exact hin'
  · right
    have hle : m ≤ d := by
      by_contra hlt
      exact hpassed ⟨d, Nat.not_le.mp hlt, hi⟩
    refine ⟨(hout i fun d hd heq => hpassed ⟨d, hd, heq⟩).trans hs, d - m, ?_, ?_, ?_⟩
    · omega
    · show (publishFrom b.slots.length 0 (b.slots, b.cursor)).2 <
        (publishFrom b.slots.length 0 (b.slots, b.cursor)).1.length
      rw [hcursor', hlength]
      exact Nat.mod_lt _ (Nat.lt_of_le_of_lt (Nat.zero_le _) hd)
    · show ((publishFrom b.slots.length 0 (b.slots, b.cursor)).2 + (d - m)) %
        (publishFrom b.slots.length 0 (b.slots, b.cursor)).1.length = i
      rw [hcursor', hlength, Nat.mod_add_mod, Nat.add_assoc, Nat.add_sub_cancel' hle]
      exact hi

theorem length_publishDirty (b : Board) : b.publishDirty.slots.length = b.slots.length :=
  length_publishFrom _ _ _ _

/-- A dirty slot is published before the cursor has come round. -/
theorem exists_published {events : List Event} {b : Board}
    (hahead : b.Ahead i d) (hd : d < b.slots.length)
    (hpasses : d < udsPublishPerLoop * events.countP isLoop) (hs : b.slots[i]? = some s)
    (hdirty : s.dirty = true) :
    ∃ before e after, events = before ++ e :: after ∧ isLoop e = true ∧
      ∃ s', (exec step b (before ++ [e])).slots[i]? = some s' ∧ s'.dirty = false ∧
        s'.shown = some s'.state := by
  induction events generalizing b d s with
  | nil => exact absurd hpasses (Nat.not_lt_zero d)
  | cons e events ih =>
    have hlater {b' : Board} (hb' : b.step e = b') {d' : Nat} {s' : Slot} (hahead' : b'.Ahead i d')
        (hd' : d' < b'.slots.length) (hpasses' : d' < udsPublishPerLoop * events.countP isLoop)
        (hs' : b'.slots[i]? = some s') (hdirty' : s'.dirty = true) :
        ∃ before e' after, e :: events = before ++ e' :: after ∧ isLoop e' = true ∧
          ∃ s', (exec step b (before ++ [e'])).slots[i]? = some s' ∧ s'.dirty = false ∧
            s'.shown = some s'.state := by
      obtain ⟨before, e', after, rfl, hloop, hpublished⟩ := ih hahead' hd' hpasses' hs' hdirty'
      refine ⟨e :: before, e', after, rfl, hloop, ?_⟩
      rw [List.cons_append, exec_cons, hb']
      exact hpublished
    obtain ⟨_, _, _, _, _, hreact, hstays⟩ := react_slot hs e
    have hahead' := ahead_react hahead e
    have hd' := hd
    rw [← length_react b e] at hd'
    cases e with
    | loop now receiving taken calls =>
      rcases publishDirty_ahead hahead' hd' hreact with hpublished | ⟨hkept, d', hnear, hahead''⟩
      · refine ⟨[], _, events, rfl, rfl, _, hpublished, ?_⟩
        rw [Slot.publish, if_pos (hstays hdirty)]
        exact ⟨rfl, rfl⟩
      · refine hlater rfl hahead'' ?_ ?_ hkept (hstays hdirty)
        · rw [show (step b (.loop now receiving taken calls)).slots.length = _ from
            length_publishDirty _]
          omega
        · rw [List.countP_cons, isLoop, if_pos rfl, Nat.mul_add] at hpasses
          omega
    | message now resp => exact hlater rfl hahead' hd' hpasses hreact (hstays hdirty)
    | error now => exact hlater rfl hahead' hd' hpasses hreact (hstays hdirty)
    | call c => exact hlater rfl hahead' hd' hpasses hreact (hstays hdirty)

/-- The cursor is at a slot, if there is one. -/
theorem exists_ahead (hcursor : b.slots ≠ [] → b.cursor < b.slots.length)
    (hi : i < b.slots.length) : ∃ d < b.slots.length, b.Ahead i d := by
  have hlt := hcursor (List.ne_nil_of_length_pos (by omega))
  by_cases hle : b.cursor ≤ i
  · refine ⟨i - b.cursor, by omega, hlt, ?_⟩
    rw [Nat.add_sub_cancel' hle, Nat.mod_eq_of_lt hi]
  · refine ⟨i + b.slots.length - b.cursor, by omega, hlt, ?_⟩
    rw [Nat.add_sub_cancel' (by omega), Nat.add_mod_right, Nat.mod_eq_of_lt hi]

/-- Every binding has its slot, and the cursor is at one. -/
structure Seated (owners : List (Entity × Option (Nat × Nat))) (b : Board) : Prop where
  owners : b.slots.map Slot.owner = owners
  cursor : b.slots ≠ [] → b.cursor < b.slots.length

theorem owner_react (b : Board) (e : Event) :
    (b.react e).slots.map Slot.owner = b.slots.map Slot.owner := by
  apply List.ext_getElem?
  intro i
  rw [List.getElem?_map, List.getElem?_map]
  cases hs : b.slots[i]? with
  | none =>
    rw [List.getElem?_eq_none_iff, ← length_react b e, ← List.getElem?_eq_none_iff] at hs
    rw [hs]
  | some s =>
    obtain ⟨_, _, _, _, _, heq, -⟩ := react_slot hs e
    rw [heq]
    rfl

theorem seated_publishDirty {owners : List (Entity × Option (Nat × Nat))} (h : b.Seated owners) :
    b.publishDirty.Seated owners := by
  refine ⟨(owner_publishFrom _ _ _ _).trans h.owners, fun hsome => ?_⟩
  have hlength := length_publishDirty b
  have hslots : b.slots ≠ [] := by
    rw [← List.length_pos_iff, ← hlength]
    exact List.length_pos_iff.mpr hsome
  obtain ⟨m, -, -, hcursor, -⟩ := publishFrom_spec (h.cursor hslots) b.slots.length 0
  rw [hlength]
  show (publishFrom b.slots.length 0 (b.slots, b.cursor)).2 < _
  rw [hcursor]
  exact Nat.mod_lt _ (List.length_pos_iff.mpr hslots)

theorem seated_step {owners : List (Entity × Option (Nat × Nat))} (h : b.Seated owners) (e : Event) :
    (b.step e).Seated owners := by
  have hreact : (b.react e).Seated owners := by
    obtain ⟨news, -, -, hcursor, -⟩ := b.react_spec e
    have hlength := length_react b e
    refine ⟨(owner_react b e).trans h.owners, fun hsome => ?_⟩
    rw [hcursor, hlength]
    apply h.cursor
    rw [← List.length_pos_iff, ← hlength]
    exact List.length_pos_iff.mpr hsome
  cases e with
  | loop now receiving taken calls => exact seated_publishDirty hreact
  | message now resp => exact hreact
  | error now => exact hreact
  | call c => exact hreact

theorem seated_run (cfg : HubConfig) (entities : List Entity) (boot : Nat) (events : List Event) :
    (run cfg entities boot events).Seated ((setup cfg entities boot).slots.map Slot.owner) := by
  have hstart : (setup cfg entities boot).Seated ((setup cfg entities boot).slots.map Slot.owner) :=
    ⟨rfl, List.length_pos_iff.mpr⟩
  unfold run exec
  exact List.foldlRecOn events step hstart fun b h e _ => seated_step (b := b) h e

theorem length_run (cfg : HubConfig) (entities : List Entity) (boot : Nat) (events : List Event) :
    (run cfg entities boot events).slots.length = entities.length := by
  have h := congrArg List.length (seated_run cfg entities boot events).owners
  rw [List.length_map, List.length_map] at h
  exact h.trans (List.length_map _)

/-! ## Every run -/

/-- A clean slot's entity shows the decode of the latest accepted response of its group, or that the
group was declared unavailable since, and that of an unresolved binding is unavailable; a message
bears on no other group; and a dirty slot is published within a bounded number of passes. -/
theorem shows_last_answer (cfg : HubConfig) (entities : List Entity) (boot : Nat)
    (events : List Event) :
    (run cfg entities boot events).slots.map Slot.owner =
        (setup cfg entities boot).slots.map Slot.owner ∧
      (∀ s ∈ (run cfg entities boot events).slots, s.dirty = false →
        match s.place with
        | none => s.shown = some s.entity.unavailable
        | some (gi, fi) => ∃ c f, (run cfg entities boot events).hub.catalog = some c ∧
            c.field fi = some f ∧
            s.shown = (latest gi (run cfg entities boot events).hub.log).map (s.entity.due c f)) ∧
      (∀ e, ∃ news, Said (run cfg entities boot events).hub (run cfg entities boot (events ++ [e])).hub
        e news) ∧
      (∀ now resp (i : Nat) s gi fi, (run cfg entities boot events).slots[i]? = some s →
        s.place = some (gi, fi) → gi ≠ (run cfg entities boot events).hub.inFlightGroup →
          (run cfg entities boot (events ++ [.message now resp])).slots[i]? = some s) ∧
      ∀ (i : Nat) s more, (run cfg entities boot events).slots[i]? = some s → s.dirty = true →
        (entities.length + udsPublishPerLoop - 1) / udsPublishPerLoop ≤ more.countP isLoop →
          ∃ before e after, more = before ++ e :: after ∧ isLoop e = true ∧
            ∃ s', (run cfg entities boot (events ++ (before ++ [e]))).slots[i]? = some s' ∧
              s'.dirty = false ∧ s'.shown = some s'.state := by
  have hone (e : Event) : run cfg entities boot (events ++ [e]) =
      (run cfg entities boot events).step e := by
    unfold run
    rw [exec_append]
    rfl
  have hseated := seated_run cfg entities boot events
  refine ⟨hseated.owners, fun s hs => shown_of_clean (sound_run cfg entities boot events s hs),
    fun e => ?_, fun now resp i s gi fi hs hplace hother => ?_, fun i s more hs hdirty hmore => ?_⟩
  · obtain ⟨news, hsaid, -, -, -⟩ := (run cfg entities boot events).react_spec e
    rw [hone]
    cases e with
    | loop now receiving taken calls => exact ⟨news, hsaid⟩
    | message now resp => exact ⟨news, hsaid⟩
    | error now => exact ⟨news, hsaid⟩
    | call c => exact ⟨news, hsaid⟩
  · rw [hone]
    exact message_other hs hplace hother now resp
  · have hlength := length_run cfg entities boot events
    obtain ⟨hi, -⟩ := List.getElem?_eq_some_iff.mp hs
    obtain ⟨d, hd, hahead⟩ := exists_ahead hseated.cursor hi
    have hpasses : d < udsPublishPerLoop * more.countP isLoop := by
      unfold udsPublishPerLoop at hmore ⊢
      omega
    obtain ⟨before, e, after, hsplit, hloop, hpublished⟩ :=
      exists_published hahead hd hpasses hs hdirty
    refine ⟨before, e, after, hsplit, hloop, ?_⟩
    unfold run
    rw [exec_append]
    exact hpublished

end Board

end EspCars.Uds
