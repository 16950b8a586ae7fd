import EspCars.Uds.Compiler

/-!
# Requests and responses

`components/uds/uds_proto.h`: the bytes of a group's request, and the verdict on a reassembled
response.
-/

namespace EspCars.Uds

open EspCars.Lib

/-- `UDS_MAX_REQUEST` -/
def udsMaxRequest : Nat := 32

/-- `build_request`: the request of the group, unless it is too long or its first byte is not the
service of the record. -/
def buildRequest (c : Catalog) (g : GroupView) : Option (List UInt8) :=
  if g.reqLen = 0 ∨ udsMaxRequest < g.reqLen then none
  else
    match c.requestBytes g with
    | none => none
    | some req => if (req.headD 0).toNat ≠ g.sid then none else some req

theorem requestBytes_of_buildRequest {c : Catalog} {g : GroupView} {req : List UInt8}
    (h : buildRequest c g = some req) : c.requestBytes g = some req := by
  unfold buildRequest at h
  split at h
  · cases h
  · split at h
    · cases h
    · next hreq =>
      split at h
      · cases h
      · cases h
        exact hreq

/-- The reaction to a negative response. -/
inductive NrcClass
  | pending | busy | unsupported | denied | other
  deriving DecidableEq, Repr

/-- `classify_nrc` -/
def classifyNrc (nrc : UInt8) : NrcClass :=
  if nrc = 0x78 then .pending
  else if nrc = 0x21 ∨ nrc = 0x22 then .busy
  else if nrc = 0x31 then .unsupported
  else if nrc = 0x33 ∨ nrc = 0x35 then .denied
  else .other

/-- The verdict; `covered` is ACCEPT, and `uncovered` is PARTIAL, which is a success as well. -/
inductive ResponseCheck
  | covered
  | uncovered
  | notOurs
  | tooShort
  | negative (nrc : UInt8)
  deriving DecidableEq, Repr

/-- How many request bytes behind the service a response echoes. -/
def echoLen (sid : UInt8) (reqLen : Nat) : Nat :=
  min (if sid = 0x22 then 2 else if sid = 0x1A ∨ sid = 0x21 ∨ sid = 0x19 then 1 else 0) (reqLen - 1)

/-- `classify_response` -/
def classifyResponse (req resp : List UInt8) (respMinLen : Nat) : ResponseCheck :=
  match req, resp with
  | [], _ | _, [] => .notOurs
  | sid :: reqRest, first :: respRest =>
    if first = 0x7F then
      match respRest with
      | echoed :: nrc :: _ => if echoed = sid then .negative nrc else .notOurs
      | _ => .tooShort
    else if first ≠ sid + 0x40 then .notOurs
    else
      let n := echoLen sid (min req.length 255)
      if resp.length < 1 + n then .tooShort
      else if respRest.take n ≠ reqRest.take n then .notOurs
      else if resp.length < respMinLen then .uncovered
      else .covered

/-! ## Stale answers -/

/-- The verdicts with which a response ends its request as a success. -/
def ResponseCheck.accepted : ResponseCheck → Bool
  | .covered | .uncovered => true
  | _ => false

/-- A positive answer that carries every byte of the request behind its service. -/
def AnswersPositively (req resp : List UInt8) : Prop :=
  ∃ rest, resp = (req.headD 0 + 0x40) :: (req.tail ++ rest)

/-- The bytes of a request that a response has to repeat. -/
def echoed (req : List UInt8) : List UInt8 :=
  req.tail.take (echoLen (req.headD 0) (min req.length 255))

/-- The requests differ in the service, or in a byte that the answer to the second repeats and that
the first has as well. -/
def EchoDiffers (first second : List UInt8) : Prop :=
  first.headD 0 ≠ second.headD 0 ∨
    (echoed second).take first.tail.length ≠ first.tail.take (echoed second).length

theorem length_echoed (req : List UInt8) :
    (echoed req).length = echoLen (req.headD 0) (min req.length 255) := by
  have hle : echoLen (req.headD 0) (min req.length 255) ≤ req.tail.length := by
    unfold echoLen
    rw [List.length_tail]
    omega
  rw [echoed, List.length_take, Nat.min_eq_left hle]

/-- A response is accepted if it has the service and repeats the bytes. -/
theorem accepted_classifyResponse {sid first : UInt8} (hsid : sid + 0x40 ≠ 0x7F)
    (reqRest respRest : List UInt8) (respMinLen : Nat) :
    (classifyResponse (sid :: reqRest) (first :: respRest) respMinLen).accepted = true ↔
      first = sid + 0x40 ∧ echoed (sid :: reqRest) <+: respRest := by
  have hlength := length_echoed (sid :: reqRest)
  have hechoed : echoed (sid :: reqRest) =
      reqRest.take (echoLen sid (min (sid :: reqRest).length 255)) := rfl
  unfold classifyResponse
  dsimp only
  by_cases hnegative : first = 0x7F
  · rw [if_pos hnegative]
    constructor
    · intro h
      rcases respRest with _ | ⟨echo, _ | ⟨nrc, more⟩⟩
      · cases h
      · cases h
      · dsimp only at h
        split_ifs at h <;> cases h
    · rintro ⟨hfirst, -⟩
      exact absurd (hfirst.symm.trans hnegative) hsid
  · rw [if_neg hnegative]
    by_cases hfirst : first = sid + 0x40
    · rw [if_neg (not_not.mpr hfirst)]
      rw [show (sid :: reqRest).headD 0 = sid from rfl] at hlength
      rw [List.prefix_iff_eq_take, hlength, hechoed]
      generalize echoLen sid (min (sid :: reqRest).length 255) = n at hlength hechoed ⊢
      rw [hechoed] at hlength
      split_ifs with hshort hecho hmin
      · constructor
        · nofun
        · rintro ⟨-, heq⟩
          have hlen := congrArg List.length heq
          rw [hlength, List.length_take] at hlen
          rw [List.length_cons] at hshort
          omega
      · exact ⟨nofun, fun h => absurd h.2.symm hecho⟩
      · exact ⟨fun _ => ⟨hfirst, (not_not.mp hecho).symm⟩, fun _ => rfl⟩
      · exact ⟨fun _ => ⟨hfirst, (not_not.mp hecho).symm⟩, fun _ => rfl⟩
    · rw [if_pos hfirst]
      exact ⟨nofun, fun h => absurd h.1 hfirst⟩

/-- Two texts that agree as far as both go: the first goes on so that the second begins it. -/
theorem prefix_completed {e f : List UInt8} (h : e.take f.length = f.take e.length) :
    e <+: f ++ e.drop f.length := by
  rcases Nat.le_total e.length f.length with hle | hle
  · rw [List.take_of_length_le hle] at h
    rw [h]
    exact (List.take_prefix e.length f).trans (List.prefix_append f _)
  · rw [List.take_of_length_le hle] at h
    have hwhole : f ++ e.drop f.length = e := by
      conv_lhs => rw [← h, List.length_take, Nat.min_eq_left hle]
      exact List.take_append_drop f.length e
    exact ⟨[], by rw [List.append_nil, hwhole]⟩

theorem take_eq_take_of_initial {e f rest : List UInt8} (h : e <+: f ++ rest) :
    e.take f.length = f.take e.length := by
  have htake := List.prefix_iff_eq_take.mp h
  calc
    e.take f.length = ((f ++ rest).take e.length).take f.length := by rw [← htake]
    _ = (f ++ rest).take (min f.length e.length) := List.take_take ..
    _ = (f ++ rest).take (min e.length f.length) := by rw [Nat.min_comm]
    _ = ((f ++ rest).take f.length).take e.length := (List.take_take ..).symm
    _ = f.take e.length := by rw [List.take_left]

set_option maxRecDepth 8000 in
/-- No service that is safe to read answers with the byte of a negative response. -/
theorem positive_of_safeRead {g : Compiler.Group} (h : g.safeRead = true) : g.sid + 0x40 ≠ 0x7F := by
  unfold Compiler.Group.safeRead at h
  rw [List.contains_iff_mem] at h
  have hall : ∀ sid ∈ Compiler.safeReadSids, sid + 0x40 ≠ 0x7F := by
    decide
  exact hall g.sid h

theorem request_of_safeRead {g : Compiler.Group} (h : g.safeRead = true) :
    ∃ rest, g.request = g.sid :: rest := by
  cases hreq : g.request with
  | nil =>
    rw [Compiler.Group.safeRead, Compiler.Group.sid, hreq] at h
    exact absurd h (by decide)
  | cons sid rest => exact ⟨rest, by rw [Compiler.Group.sid, hreq, List.headD_cons]⟩

/-- Of two groups that are safe to read, no answer to the first is taken for one to the second
exactly if the requests differ in the service or in what the answer to the second repeats. -/
theorem stale_never_accepted_iff (first second : Compiler.Group) (hfirst : first.safeRead = true)
    (hsecond : second.safeRead = true) (respMinLen : Nat) :
    (∀ resp, AnswersPositively first.request resp →
      (classifyResponse second.request resp respMinLen).accepted = false) ↔
      EchoDiffers first.request second.request := by
  obtain ⟨firstRest, hreq⟩ := request_of_safeRead hfirst
  obtain ⟨secondRest, hreq'⟩ := request_of_safeRead hsecond
  have hsid := positive_of_safeRead hsecond
  rw [hreq, hreq']
  unfold EchoDiffers AnswersPositively
  simp only [List.headD_cons, List.tail_cons]
  generalize second.sid = sid at hsid ⊢
  constructor
  · intro h
    by_contra hsame
    rw [not_or, not_not, not_not] at hsame
    obtain ⟨hsids, hagree⟩ := hsame
    have haccepted := (accepted_classifyResponse hsid secondRest
      (firstRest ++ (echoed (sid :: secondRest)).drop firstRest.length) respMinLen).mpr
        ⟨rfl, prefix_completed hagree⟩
    rw [h _ ⟨_, by rw [hsids]⟩] at haccepted
    cases haccepted
  · rintro hdiffers resp ⟨rest, rfl⟩
    rw [Bool.eq_false_iff]
    intro haccepted
    obtain ⟨hfirstByte, hprefix⟩ :=
      (accepted_classifyResponse hsid secondRest _ respMinLen).mp haccepted
    rcases hdiffers with hsids | hbytes
    · exact hsids ((UInt8.add_left_inj 0x40).mp hfirstByte)
    · exact hbytes (take_eq_take_of_initial hprefix)

/-- A group with that request. -/
def readOf (request : List UInt8) : Compiler.Group := { name := ascii "G", request := request }

theorem stale_never_accepted_sample :
    EchoDiffers (readOf [0x22, 0x01, 0x01]).request (readOf [0x22, 0x01, 0x02]).request ∧
      ∀ resp, AnswersPositively (readOf [0x22, 0x01, 0x01]).request resp →
        (classifyResponse (readOf [0x22, 0x01, 0x02]).request resp 4).accepted = false := by
  have hdiffers : EchoDiffers (readOf [0x22, 0x01, 0x01]).request
      (readOf [0x22, 0x01, 0x02]).request := .inr (by decide)
  exact ⟨hdiffers, (stale_never_accepted_iff (readOf [0x22, 0x01, 0x01])
    (readOf [0x22, 0x01, 0x02]) (by decide) (by decide) 4).mpr hdiffers⟩

/-- The answer to a read of two identifiers is taken for one of the first of them. -/
theorem stale_accepted_sample :
    (readOf [0x22, 0x01, 0x01, 0x02, 0x02]).safeRead = true ∧
      (readOf [0x22, 0x01, 0x01]).safeRead = true ∧
      (readOf [0x22, 0x01, 0x01, 0x02, 0x02]).request ≠ (readOf [0x22, 0x01, 0x01]).request ∧
      AnswersPositively (readOf [0x22, 0x01, 0x01, 0x02, 0x02]).request
        [0x62, 0x01, 0x01, 0x02, 0x02, 0x2A] ∧
      classifyResponse (readOf [0x22, 0x01, 0x01]).request [0x62, 0x01, 0x01, 0x02, 0x02, 0x2A] 4 =
        .covered := by
  refine ⟨by decide, by decide, by decide, ⟨[0x2A], rfl⟩, by decide⟩

end EspCars.Uds
