import EspCars.Lib.Decimal
import EspCars.Lib.Cursor
import EspCars.SdLogger.Collection

/-!
# A request for a chunk

`collection_server.cpp`: how the name of a chunk is read off the URI, how a `Range` is read, and the
answer of `serve_chunk_`. The URI is memory up to its NUL, and a load behind that or a store behind
the 13 bytes of the name has no result. What the card and the socket do comes from outside.
-/

namespace EspCars.SdLogger

open EspCars.Lib EspCars.Lib.Cursor

/-! ## The name -/

/-- `SD_LOG_NAME_LEN` -/
def nameLen : Nat := 13

/-- `none` is −1. -/
def hexValue (c : UInt8) : Option UInt8 :=
  if 0x30 ≤ c ∧ c ≤ 0x39 then some (c - 0x30)
  else if 0x61 ≤ c ∧ c ≤ 0x66 then some (c - 0x61 + 10)
  else if 0x41 ≤ c ∧ c ≤ 0x46 then some (c - 0x41 + 10)
  else none

/-- `strncmp(uri + p, prefix, strlen(prefix)) == 0` -/
def startsWith (uri : List UInt8) : List UInt8 → Nat → Option Bool
  | [], _ => some true
  | c :: cs, p => do
    if (← fetch uri p) = c then startsWith uri cs (p + 1) else return false

/-- `out[n] = c`, where `n` bytes have been stored before. -/
def store (out : List UInt8) (c : UInt8) : Option (List UInt8) :=
  if out.length < nameLen then some (out ++ [c]) else none

/-- `(hi << 4) | lo` -/
def escaped (hi lo : UInt8) : UInt8 := hi <<< 4 ||| lo

/-- What ends the path of a URI. -/
def isPathEnd (c : UInt8) : Bool := c = 0x3F || c = 0x23

/-- The loop of `decode_chunk_name` from `src` on, of at most `fuel` turns. -/
def decodeName (uri : List UInt8) : Nat → Nat → List UInt8 → Option (Option (List UInt8))
  | 0, _, _ => some none
  | fuel + 1, src, out => do
    let c ← fetch uri src
    if c = 0 ∨ isPathEnd c then
      let _ ← store out 0
      return if out.length = nameLen - 1 then some out else none
    else if out.length + 1 ≥ nameLen then return none
    else if c = 0x25 then
      match hexValue (← fetch uri (src + 1)) with
      | none => return none
      | some hi =>
        match hexValue (← fetch uri (src + 2)) with
        | none => return none
        | some lo => decodeName uri fuel (src + 3) (← store out (escaped hi lo))
    else decodeName uri fuel (src + 1) (← store out c)

/-- `decode_chunk_name`; a null pointer is no URI. -/
def decodeChunkName (uri : Option (List UInt8)) (path : List UInt8) : Option (Option UInt32) :=
  match uri with
  | none => some none
  | some uri => do
    if ← startsWith uri path 0 then
      let name ← decodeName uri uri.length path.length []
      return (name.bind fun name => parseChunkName (some name)).map Prod.fst
    else return none

/-! ## The range -/

/-- The digits of the start, which is refused when it does not fit 32 bits. -/
def rangeStart : List UInt8 → Nat → Option (Nat × List UInt8)
  | c :: s, start =>
    if isDecimal c then
      let start := start * 10 + (c.toNat - 48)
      if start > 0xFFFFFFFF then none else rangeStart s start
    else some (start, c :: s)
  | [], start => some (start, [])

/-- The digits of the end, which is clamped to 32 bits. -/
def rangeEnd : List UInt8 → Nat → Nat × List UInt8
  | c :: s, last =>
    if isDecimal c then rangeEnd s (min (last * 10 + (c.toNat - 48)) 0xFFFFFFFF)
    else (last, c :: s)
  | [], last => (last, [])

def isSpace (c : UInt8) : Bool := c = 0x20

/-- `parse_range`: the start, and the end if there is one. -/
def parseRange (header : List UInt8) : Option (Nat × Option Nat) := do
  let s := header.dropWhile isSpace
  guard (ascii "bytes=" <+: s)
  let s := s.drop 6
  guard ((s.head?.map isDecimal).getD false)
  let (start, s) ← rangeStart s 0
  guard (s.head? = some 0x2D)
  let s := s.tail
  let hasEnd := (s.head?.map isDecimal).getD false
  let (last, s) := rangeEnd s 0
  guard (s.dropWhile isSpace = [])
  guard (¬(hasEnd ∧ last < start))
  return (start, if hasEnd then some last else none)

/-! ## The answer -/

/-- What the server sends. -/
inductive Reply
  | json (status body : String)
  | unsatisfiable (contentRange : List UInt8)
  | streamed (head body : List UInt8) (completed : Bool)
  deriving DecidableEq

def notFound : Reply := .json "404 Not Found" "no such chunk"

def serverError (error : String) : Reply := .json "500 Internal Server Error" error

/-- `SD_LOG_SERVE_BLOCK` -/
def serveBlock : Nat := 4096

/-- What the index, the card and the socket answer while one chunk is served. `reads` and `sends`
are asked once for each block: how many bytes `read` returns, `none` for an error, and after how
many bytes of it the socket fails, if it does. -/
structure Answers where
  grant : UInt32 → Except ChunkState Unit
  pathFits : Bool := true
  opens : Bool := true
  size : Option Nat
  headSent : Bool := true
  seeks : Bool := true
  reads : Nat → Option Nat
  sends : Nat → Option Nat

/-- The loop over the blocks: what was sent from `content`, and whether all of it was. -/
def sendBody (a : Answers) : Nat → Nat → List UInt8 → Nat → List UInt8 × Bool
  | 0, _, _, _ => ([], false)
  | fuel + 1, i, content, remaining =>
    if remaining = 0 then ([], true)
    else
      let want := min remaining serveBlock
      match a.reads i with
      | none => ([], false)
      | some got =>
        if got = 0 then ([], false)
        else
          let block := content.take (min got want)
          match a.sends i with
          | some k => (block.dropLast.take k, false)
          | none =>
            let (sent, completed) :=
              sendBody a fuel (i + 1) (content.drop block.length) (remaining - block.length)
            (block ++ sent, completed)

def crlf : List UInt8 := [0x0D, 0x0A]

def headPartial (start last total : Nat) : List UInt8 :=
  ascii "HTTP/1.1 206 Partial Content" ++ crlf ++ ascii "Content-Type: text/csv" ++ crlf ++
    ascii "Content-Range: bytes " ++ decText start ++ ascii "-" ++ decText last ++ ascii "/" ++
      decText total ++ crlf ++
    ascii "Content-Length: " ++ decText (last - start + 1) ++ crlf ++ crlf

def headWhole (total : Nat) : List UInt8 :=
  ascii "HTTP/1.1 200 OK" ++ crlf ++ ascii "Content-Type: text/csv" ++ crlf ++
    ascii "Content-Length: " ++ decText total ++ crlf ++ crlf

/-- The head and the body from `start` on. -/
def stream (a : Answers) (content head : List UInt8) (start length : Nat) : Reply :=
  if head.length ≥ 192 then serverError "headers"
  else if !a.headSent then .streamed [] [] false
  else if start ≠ 0 ∧ !a.seeks then .streamed head [] false
  else
    let (body, completed) := sendBody a (length + 1) 0 (content.drop start) length
    .streamed head body completed

/-- `httpd_req_get_hdr_value_str` into a buffer of 64 bytes. -/
def headerValue (header : Option (List UInt8)) : Option (List UInt8) :=
  header.filter fun h => h.length < 64

/-- `serve_chunk_`; `content` is what the file of the chunk holds. -/
def serveChunk (a : Answers) (uri : Option (List UInt8)) (header : Option (List UInt8))
    (content : List UInt8) : Option Reply := do
  match ← decodeChunkName uri (ascii "/sdlog/f/") with
  | none => return notFound
  | some seq =>
    match a.grant seq with
    | .error .open_ => return .json "409 Conflict" "open"
    | .error _ => return notFound
    | .ok () =>
      if !a.pathFits then return serverError "path"
      else if !a.opens then return serverError "card"
      else
        match a.size with
        | none => return serverError "card"
        | some total =>
          if total > 0x7FFFFFFF then return serverError "too large"
          else if total = 0 then return notFound
          else
            match (headerValue header).bind parseRange with
            | none => return stream a content (headWhole total) 0 total
            | some (start, hasEnd) =>
              if start ≥ total then return .unsatisfiable (ascii "bytes */" ++ decText total)
              else
                let last := match hasEnd with
                  | some wanted => if wanted < total - 1 then wanted else total - 1
                  | none => total - 1
                return stream a content (headPartial start last total) start (last - start + 1)

/-! ## What a request says -/

/-- The path of a URI, without its query. -/
def pathOf (s : List UInt8) : List UInt8 := s.takeWhile fun c => !isPathEnd c

/-- A path without its escapes. -/
def percentDecode : List UInt8 → Option (List UInt8)
  | [] => some []
  | c :: rest =>
    if c = 0x25 then
      match rest with
      | hi :: lo :: rest =>
        (hexValue hi).bind fun hi => (hexValue lo).bind fun lo =>
          (percentDecode rest).map (escaped hi lo :: ·)
      | _ => none
    else (percentDecode rest).map (c :: ·)

/-- The name of a chunk, and its number. -/
def NamesChunk (name : List UInt8) (seq : Nat) : Prop :=
  ∃ digits, digits.length = 7 ∧ (∀ c ∈ digits, isDecimal c = true) ∧ seq = decFrom 0 digits ∧
    (name = ascii "L" ++ digits ++ ascii ".LOG" ∨ name = ascii "L" ++ digits ++ ascii ".UPL")

/-- A range that the server supports: from `start` on, and up to an end if there is one. -/
def ReadsRange (header : List UInt8) (start : Nat) (last : Option Nat) : Prop :=
  ∃ before first final after,
    header = before ++ ascii "bytes=" ++ first ++ 0x2D :: final ++ after ∧
    (∀ c ∈ before ++ after, isSpace c = true) ∧ (∀ c ∈ first ++ final, isDecimal c = true) ∧
    first ≠ [] ∧ start = decFrom 0 first ∧ start ≤ 0xFFFFFFFF ∧
    (final = [] ∧ last = none ∨
      final ≠ [] ∧ start ≤ decFrom 0 final ∧ last = some (decFrom 0 final))

/-- The socket takes everything, and the card seeks to a start that is not the first byte and gives
at least one byte of each block. -/
structure Answers.Willing (a : Answers) (start : Nat) : Prop where
  headSent : a.headSent = true
  seeks : start ≠ 0 → a.seeks = true
  reads : ∀ i, ∃ got, a.reads i = some got ∧ 0 < got
  sends : ∀ i, a.sends i = none

/-- A head with its body from `start` on: nothing if the head is not sent, the whole of it if card
and socket are willing, and never a part that is completed. -/
structure Streams (a : Answers) (head body : List UInt8) (start : Nat) (reply : Reply) : Prop where
  unsent : a.headSent = false → reply = .streamed [] [] false
  sent : a.headSent = true → ∃ part completed, reply = .streamed head part completed ∧
    (completed = true → part = body) ∧ (completed = false → ∃ k < body.length, part = body.take k)
  willing : a.Willing start → reply = .streamed head body true

/-- The answer to a request for the bytes of `content`. A header of 64 bytes or more is not read. -/
structure AnsweredWith (a : Answers) (content : List UInt8) (header : Option (List UInt8))
    (reply : Reply) : Prop where
  empty : content = [] → reply = notFound
  large : 0x7FFFFFFF < content.length → reply = serverError "too large"
  ranged : 0 < content.length → content.length ≤ 0x7FFFFFFF →
    ∀ h ∈ header, h.length < 64 → ∀ start last, ReadsRange h start last →
      if content.length ≤ start then
        reply = .unsatisfiable (ascii "bytes */" ++ decText content.length)
      else
        let stop := (last.map (min · (content.length - 1))).getD (content.length - 1)
        Streams a (headPartial start stop content.length)
          ((content.drop start).take (stop - start + 1)) start reply
  whole : 0 < content.length → content.length ≤ 0x7FFFFFFF →
    (∀ h ∈ header, h.length < 64 → ∀ start last, ¬ReadsRange h start last) →
      Streams a (headWhole content.length) content 0 reply

/-! ## The name that is read -/

variable {c : UInt8} {name out s uri content : List UInt8} {seq : UInt32} {v start : Nat}

theorem percentDecode_ne_nil {p : List UInt8}
    (h : percentDecode (c :: p) = some name) : name ≠ [] := by
  rintro rfl
  unfold percentDecode at h
  split_ifs at h
  · split at h
    · simp [Option.bind_eq_some_iff] at h
    · cases h
  · simp at h

theorem percentDecode_escape (p : List UInt8) : percentDecode (0x25 :: p) =
    match p with
    | hi :: lo :: rest =>
      (hexValue hi).bind fun hi => (hexValue lo).bind fun lo =>
        (percentDecode rest).map (escaped hi lo :: ·)
    | _ => none := by
  rw [percentDecode.eq_def]
  simp

theorem percentDecode_plain (hc : c ≠ 0x25) (p : List UInt8) :
    percentDecode (c :: p) = (percentDecode p).map (c :: ·) := by
  rw [percentDecode.eq_def]
  simp [hc]

theorem hexValue_ends (h : c = 0 ∨ isPathEnd c = true) : hexValue c = none := by
  rcases h with rfl | h
  · decide
  · rcases (by simpa [isPathEnd] using h : c = 0x3F ∨ c = 0x23) with rfl | rfl <;> decide

theorem pathOf_cons (c : UInt8) (s : List UInt8) :
    pathOf (c :: s) = if isPathEnd c then [] else c :: pathOf s := by
  unfold pathOf
  rw [List.takeWhile_cons]
  cases isPathEnd c <;> rfl

/-- What the loop makes of the rest of the path behind the bytes of `out`. -/
def rest (out s : List UInt8) : Option (List UInt8) :=
  ((percentDecode (pathOf s)).map (out ++ ·)).filter fun name => name.length = nameLen - 1

theorem rest_end (h : pathOf s = []) :
    rest out s = if out.length = nameLen - 1 then some out else none := by
  simp [rest, h, percentDecode, Option.filter_some]

theorem rest_plain (hend : isPathEnd c = false) (hc : c ≠ 0x25) (out s : List UInt8) :
    rest out (c :: s) = rest (out ++ [c]) s := by
  simp [rest, pathOf_cons, hend, percentDecode_plain hc, Function.comp_def]

/-- More than a name. -/
theorem rest_long (hend : isPathEnd c = false)
    (hout : nameLen ≤ out.length + 1) (s : List UInt8) : rest out (c :: s) = none := by
  rw [rest, pathOf_cons, hend, if_neg (by simp), Option.filter_eq_none_iff]
  intro name hname
  obtain ⟨tail, htail, rfl⟩ := Option.map_eq_some_iff.mp hname
  have hpos := List.length_pos_iff.mpr (percentDecode_ne_nil htail)
  rw [decide_eq_true_iff, List.length_append]
  unfold nameLen at *
  omega

theorem rest_escape (out s : List UInt8) : rest out (0x25 :: s) =
    match s with
    | hi :: lo :: s =>
      (hexValue hi).bind fun hi => (hexValue lo).bind fun lo => rest (out ++ [escaped hi lo]) s
    | _ => none := by
  rw [rest, pathOf_cons, if_neg (by decide), percentDecode_escape]
  cases s with
  | nil => rfl
  | cons hi s =>
    rw [pathOf_cons]
    cases hhi : isPathEnd hi with
    | true => cases s <;> simp [hexValue_ends (.inr hhi)]
    | false =>
      cases s with
      | nil => rfl
      | cons lo s =>
        rw [pathOf_cons]
        cases hlo : isPathEnd lo with
        | true => simp [hexValue_ends (.inr hlo)]
        | false =>
          simp only [Bool.false_eq_true, if_false]
          cases hexValue hi with
          | none => rfl
          | some hi =>
            cases hexValue lo with
            | none => rfl
            | some lo => simp [rest, Function.comp_def]

theorem decodeName_eq {fuel src : Nat} (h : At uri src (s ++ [0]))
    (hzero : 0 ∉ s) (hfuel : s.length < fuel) (hout : out.length < nameLen) :
    decodeName uri fuel src out = some (rest out s) := by
  induction fuel generalizing src s out with
  | zero => omega
  | succ fuel ih =>
    have hstore (c : UInt8) : store out c = some (out ++ [c]) := if_pos hout
    rw [decodeName]
    cases s with
    | nil =>
      rw [h.fetch, rest_end rfl]
      simp [hstore]
    | cons c t =>
      rw [List.mem_cons, not_or] at hzero
      rw [List.length_cons] at hfuel
      rw [List.cons_append] at h
      rw [h.fetch]
      cases hend : isPathEnd c with
      | true =>
        rw [rest_end (by rw [pathOf_cons, hend]; rfl)]
        simp [hstore, hend]
      | false =>
        have hc : ¬(c = 0 ∨ isPathEnd c = true) := by simp [hend, Ne.symm hzero.1]
        simp only [Option.bind_eq_bind, Option.bind_some, hend, Bool.false_eq_true, or_false,
          if_neg (Ne.symm hzero.1)]
        by_cases hlong : out.length + 1 ≥ nameLen
        · rw [if_pos hlong, rest_long hend hlong]
          rfl
        · have hnext (d : UInt8) : (out ++ [d]).length < nameLen := by
            rw [List.length_append]
            exact Nat.not_le.mp hlong
          rw [if_neg hlong]
          by_cases hescape : c = 0x25
          · subst hescape
            rw [if_pos rfl, rest_escape]
            cases t with
            | nil =>
              rw [h.next.fetch, Option.bind_some, hexValue_ends (.inl rfl)]
              rfl
            | cons hi t =>
              rw [List.mem_cons, not_or] at hzero
              rw [List.length_cons] at hfuel
              rw [h.next.fetch, Option.bind_some]
              cases hhigh : hexValue hi with
              | none => cases t <;> simp [hhigh]
              | some high =>
                dsimp only
                cases t with
                | nil =>
                  rw [h.next.next.fetch, Option.bind_some, hexValue_ends (.inl rfl)]
                  rfl
                | cons lo t =>
                  rw [List.mem_cons, not_or] at hzero
                  rw [List.length_cons] at hfuel
                  rw [h.next.next.fetch, Option.bind_some]
                  cases hlow : hexValue lo with
                  | none => simp [hhigh, hlow]
                  | some low =>
                    simp only [hhigh, hlow, hstore, Option.bind_some]
                    exact ih h.next.next.next hzero.2.2.2 (by omega) (hnext _)
          · rw [if_neg hescape, rest_plain hend hescape, hstore]
            exact ih h.next hzero.2 (by omega) (hnext c)

theorem startsWith_eq {path : List UInt8} {p : Nat} (h : At uri p (s ++ [0]))
    (hpath : 0 ∉ path) : startsWith uri path p = some (decide (path <+: s)) := by
  induction path generalizing p s with
  | nil => simp [startsWith]
  | cons c path ih =>
    rw [List.mem_cons, not_or] at hpath
    rw [startsWith]
    cases s with
    | nil =>
      rw [h.fetch]
      simp [hpath.1]
    | cons d s =>
      rw [List.cons_append] at h
      rw [h.fetch, Option.bind_eq_bind, Option.bind_some]
      by_cases hd : d = c
      · subst hd
        rw [if_pos rfl, ih h.next hpath.2]
        simp
      · rw [if_neg hd]
        simp [Ne.symm hd]

/-! ### Seven digits -/

theorem not_isDecimal_iff : (c < 48 ∨ c > 57) ↔ ¬isDecimal c = true := by
  rw [isDecimal_iff, gt_iff_lt, UInt8.lt_iff_toNat_lt, UInt8.lt_iff_toNat_lt]
  show c.toNat < 48 ∨ 57 < c.toNat ↔ _
  omega

/-- The digits added up in 32 bits. -/
def sumDigits (seq : UInt32) (digits : List UInt8) : UInt32 :=
  digits.foldl (fun seq c => seq * 10 + (c - 48).toUInt32) seq

theorem parseDigits_iff {count i : Nat} {r : UInt32} :
    parseDigits name count i seq = some r ↔ ∃ digits tail, name.drop i = digits ++ tail ∧
      digits.length = count ∧ (∀ c ∈ digits, isDecimal c = true) ∧ r = sumDigits seq digits := by
  induction count generalizing i seq with
  | zero =>
    simp only [parseDigits, Option.some.injEq, List.length_eq_zero_iff]
    constructor
    · rintro rfl
      exact ⟨[], name.drop i, rfl, rfl, nofun, rfl⟩
    · rintro ⟨_, _, -, rfl, -, rfl⟩
      rfl
  | succ count ih =>
    simp only [parseDigits, not_isDecimal_iff]
    rcases Nat.lt_or_ge i name.length with hi | hi
    · rw [List.getD_eq_getElem _ _ hi, List.drop_eq_getElem_cons hi]
      by_cases hc : isDecimal name[i] = true
      · rw [if_neg (by simpa using hc), ih]
        constructor
        · rintro ⟨digits, tail, hdrop, hlen, hall, rfl⟩
          exact ⟨name[i] :: digits, tail, by rw [hdrop]; rfl, by rw [List.length_cons, hlen],
            List.forall_mem_cons.mpr ⟨hc, hall⟩, rfl⟩
        · rintro ⟨_ | ⟨c, digits⟩, tail, hdrop, hlen, hall, rfl⟩
          · cases hlen
          · obtain ⟨rfl, htail⟩ := List.cons.inj hdrop
            exact ⟨digits, tail, htail, Nat.succ.inj hlen, fun d hd =>
              hall d (List.mem_cons_of_mem _ hd), rfl⟩
      · rw [if_pos hc]
        refine iff_of_false nofun ?_
        rintro ⟨_ | ⟨c, digits⟩, tail, hdrop, hlen, hall, rfl⟩
        · cases hlen
        · obtain ⟨rfl, -⟩ := List.cons.inj hdrop
          exact hc (hall _ List.mem_cons_self)
    · rw [List.getD_eq_default _ _ hi, if_pos (by decide), List.drop_eq_nil_of_le hi]
      refine iff_of_false nofun ?_
      rintro ⟨digits, tail, hdrop, hlen, -, -⟩
      rw [(List.append_eq_nil_iff.mp hdrop.symm).1] at hlen
      cases hlen

theorem toNat_sumDigits {digits : List UInt8} (hall : ∀ c ∈ digits, isDecimal c = true)
    (hfits : (seq.toNat + 1) * 10 ^ digits.length ≤ 2 ^ 32) :
    (sumDigits seq digits).toNat = decFrom seq.toNat digits := by
  induction digits generalizing seq with
  | nil => rfl
  | cons c digits ih =>
    obtain ⟨hc, hall⟩ := List.forall_mem_cons.mp hall
    have hc' := isDecimal_iff.mp hc
    have hdigit : (c - 48).toUInt32.toNat = c.toNat - 48 := by
      have hle : (48 : UInt8) ≤ c := UInt8.le_iff_toNat_le.mpr hc'.1
      rw [UInt8.toNat_toUInt32, UInt8.toNat_sub_of_le _ _ hle]
      rfl
    rw [List.length_cons, Nat.pow_succ, Nat.mul_comm _ 10, ← Nat.mul_assoc] at hfits
    have hpos : 1 ≤ 10 ^ digits.length := Nat.one_le_pow _ _ (by decide)
    have hsmall : (seq.toNat + 1) * 10 ≤ 2 ^ 32 :=
      (Nat.le_mul_of_pos_right _ hpos).trans hfits
    have hnext : (seq * 10 + (c - 48).toUInt32).toNat = seq.toNat * 10 + (c.toNat - 48) := by
      rw [UInt32.toNat_add, UInt32.toNat_mul, hdigit, show (10 : UInt32).toNat = 10 from rfl]
      omega
    show (sumDigits _ digits).toNat = decFrom (seq.toNat * 10 + (c.toNat - 48)) digits
    rw [ih hall, hnext]
    rw [hnext]
    exact (Nat.mul_le_mul_right _ (by omega)).trans hfits

theorem namesChunk_iff :
    (parseChunkName (some name)).map Prod.fst = some seq ↔ NamesChunk name seq.toNat := by
  have hsum {digits : List UInt8} (hlen : digits.length = 7)
      (hall : ∀ c ∈ digits, isDecimal c = true) :
      (sumDigits 0 digits).toNat = decFrom 0 digits := by
    refine toNat_sumDigits hall ?_
    rw [hlen]
    decide
  constructor
  · intro h
    obtain ⟨⟨n, state⟩, hparse, rfl⟩ := Option.map_eq_some_iff.mp h
    clear h
    simp only [parseChunkName] at hparse
    by_cases hhead : name.head? = (ascii "L").head?
    swap
    · rw [if_pos hhead] at hparse
      cases hparse
    rw [if_neg (not_not.mpr hhead)] at hparse
    split at hparse
    · cases hparse
    · rename_i r hdigits
      obtain ⟨digits, tail, hdrop, hlen, hall, rfl⟩ := parseDigits_iff.mp hdigits
      obtain ⟨t, rfl⟩ : ∃ t, name = 0x4C :: t := List.head?_eq_some_iff.mp hhead
      rw [List.drop_succ_cons, List.drop_zero] at hdrop
      subst hdrop
      have htail : (0x4C :: (digits ++ tail)).drop 8 = tail := by
        rw [List.drop_succ_cons, ← hlen, List.drop_left]
      rw [htail] at hparse
      split_ifs at hparse with hlog hupl
      · cases hparse
        exact ⟨digits, hlen, hall, hsum hlen hall, .inl (by rw [← hlog]; rfl)⟩
      · cases hparse
        exact ⟨digits, hlen, hall, hsum hlen hall, .inr (by rw [← hupl]; rfl)⟩
  · rintro ⟨digits, hlen, hall, hseq, hname⟩
    obtain ⟨ext, rfl, hext⟩ : ∃ ext, name = 0x4C :: (digits ++ ext) ∧
        (ext = ascii ".LOG" ∨ ext = ascii ".UPL") := by
      rcases hname with rfl | rfl
      · exact ⟨_, rfl, .inl rfl⟩
      · exact ⟨_, rfl, .inr rfl⟩
    have hdigits : parseDigits (0x4C :: (digits ++ ext)) 7 1 0 = some (sumDigits 0 digits) :=
      parseDigits_iff.mpr ⟨digits, ext, rfl, hlen, hall, rfl⟩
    have htail : (0x4C :: (digits ++ ext)).drop 8 = ext := by
      rw [List.drop_succ_cons, ← hlen, List.drop_left]
    have hnumber : sumDigits 0 digits = seq :=
      UInt32.toNat_inj.mp ((hsum hlen hall).trans hseq.symm)
    simp only [parseChunkName]
    rw [if_neg (by rw [not_not]; rfl), hdigits, htail]
    dsimp only
    rcases hext with rfl | rfl
    · rw [if_pos rfl]
      exact congrArg some hnumber
    · rw [if_neg (by decide), if_pos rfl]
      exact congrArg some hnumber

/-- The loads stay in the URI and the stores in the buffer, and what is decoded is the name. -/
theorem decodeChunkName_eq {path : List UInt8} (hzero : 0 ∉ uri) (hpath : 0 ∉ path) :
    ∃ result, decodeChunkName (some (uri ++ [0])) path = some result ∧
      ∀ seq, result = some seq ↔ ∃ rest name, uri = path ++ rest ∧
        percentDecode (pathOf rest) = some name ∧ NamesChunk name seq.toNat := by
  have hstart : At (uri ++ [0]) 0 (uri ++ [0]) := ⟨Nat.zero_le _, rfl⟩
  rw [decodeChunkName, startsWith_eq hstart hpath]
  simp only [Option.bind_eq_bind, Option.bind_some, decide_eq_true_iff]
  by_cases hprefix : path <+: uri
  · obtain ⟨s, rfl⟩ := hprefix
    have hs : 0 ∉ s := fun hmem => hzero (List.mem_append_right _ hmem)
    have hat : At (path ++ s ++ [0]) path.length (s ++ [0]) :=
      ⟨by simp, by rw [List.append_assoc, List.drop_left]⟩
    rw [if_pos (List.prefix_append ..), decodeName_eq hat hs (by simp; omega) (by decide)]
    refine ⟨_, rfl, fun seq => ?_⟩
    rw [Option.map_bind, Option.bind_eq_some_iff]
    simp only [Function.comp_def, namesChunk_iff, rest, Option.filter_eq_some_iff,
      decide_eq_true_iff, List.nil_append, Option.map_id']
    constructor
    · rintro ⟨name, ⟨hname, -⟩, hchunk⟩
      exact ⟨s, name, rfl, hname, hchunk⟩
    · rintro ⟨s', name, heq, hname, hchunk⟩
      obtain rfl := List.append_cancel_left heq
      refine ⟨name, ⟨hname, ?_⟩, hchunk⟩
      obtain ⟨digits, hlen, -, -, rfl | rfl⟩ := hchunk <;>
        simp [hlen, nameLen, ascii]
  · rw [if_neg hprefix]
    refine ⟨none, rfl, fun seq => iff_of_false nofun ?_⟩
    rintro ⟨rest, -, rfl, -⟩
    exact hprefix (List.prefix_append ..)

/-! ## The range that is read -/

theorem rangeStart_eq (hv : v ≤ 0xFFFFFFFF) :
    rangeStart s v = if decFrom v (s.takeWhile isDecimal) ≤ 0xFFFFFFFF
      then some (decFrom v (s.takeWhile isDecimal), s.dropWhile isDecimal) else none := by
  induction s generalizing v with
  | nil => exact (if_pos hv).symm
  | cons c s ih =>
    rw [rangeStart]
    cases hc : isDecimal c with
    | false =>
      rw [List.takeWhile_cons, List.dropWhile_cons, hc]
      exact (if_pos hv).symm
    | true =>
      rw [List.takeWhile_cons, List.dropWhile_cons, hc, if_pos rfl, if_pos rfl]
      have hge := le_decFrom (v * 10 + (c.toNat - 48)) (s.takeWhile isDecimal)
      by_cases hfits : v * 10 + (c.toNat - 48) > 0xFFFFFFFF
      · refine (if_pos hfits).trans (if_neg ?_).symm
        exact Nat.not_le.mpr (Nat.lt_of_lt_of_le hfits hge)
      · exact (if_neg hfits).trans (ih (Nat.not_lt.mp hfits))

theorem min_decFrom (v w : Nat) (s : List UInt8) :
    min (decFrom (min v w) s) w = min (decFrom v s) w := by
  rcases Nat.le_total v w with h | h
  · rw [Nat.min_eq_left h]
  · rw [Nat.min_eq_right h, Nat.min_eq_right (le_decFrom w s),
      Nat.min_eq_right (h.trans (le_decFrom v s))]

theorem rangeEnd_eq (hv : v ≤ 0xFFFFFFFF) : rangeEnd s v =
      (min (decFrom v (s.takeWhile isDecimal)) 0xFFFFFFFF, s.dropWhile isDecimal) := by
  induction s generalizing v with
  | nil => exact congrArg (·, []) (Nat.min_eq_left hv).symm
  | cons c s ih =>
    rw [rangeEnd]
    cases hc : isDecimal c with
    | false =>
      rw [List.takeWhile_cons, List.dropWhile_cons, hc]
      exact congrArg (·, c :: s) (Nat.min_eq_left hv).symm
    | true =>
      rw [List.takeWhile_cons, List.dropWhile_cons, hc, if_pos rfl, if_pos rfl,
        ih (Nat.min_le_right ..), min_decFrom]
      rfl

theorem isSpace_iff : isSpace c = true ↔ c = 0x20 := decide_eq_true_iff

theorem takeWhile_decimal {digits : List UInt8} (h : ∀ c ∈ digits, isDecimal c = true)
    {tail : List UInt8} (htail : ∀ c ∈ tail.head?, isDecimal c = false) :
    (digits ++ tail).takeWhile isDecimal = digits ∧ (digits ++ tail).dropWhile isDecimal = tail := by
  rw [List.takeWhile_append_of_pos h, List.dropWhile_append_of_pos h]
  cases tail with
  | nil => simp
  | cons c tail => simp [htail c rfl]

theorem head_decimal_iff :
    (s.head?.map isDecimal).getD false = true ↔ s.takeWhile isDecimal ≠ [] := by
  cases s with
  | nil => simp
  | cons c s => cases hc : isDecimal c <;> simp [hc]

/-- The steps of `parse_range`, all of which are taken. -/
theorem parseRange_steps {header : List UInt8} {stop : Option Nat} :
    parseRange header = some (start, stop) ↔
      ∃ s t, header.dropWhile isSpace = ascii "bytes=" ++ s ∧ s.dropWhile isDecimal = 0x2D :: t ∧
        s.takeWhile isDecimal ≠ [] ∧ start = decFrom 0 (s.takeWhile isDecimal) ∧
        start ≤ 0xFFFFFFFF ∧ (t.dropWhile isDecimal).dropWhile isSpace = [] ∧
        (t.takeWhile isDecimal = [] ∧ stop = none ∨
          t.takeWhile isDecimal ≠ [] ∧ start ≤ decFrom 0 (t.takeWhile isDecimal) ∧
            stop = some (min (decFrom 0 (t.takeWhile isDecimal)) 0xFFFFFFFF)) := by
  simp only [parseRange, Option.bind_eq_bind, Option.bind_eq_some_iff, Option.guard_eq_some',
    rangeEnd_eq (Nat.zero_le _), rangeStart_eq (Nat.zero_le _), head_decimal_iff, exists_const,
    List.head?_eq_some_iff, Option.pure_def, Option.some.injEq, Prod.mk.injEq]
  constructor
  · rintro ⟨⟨s, hs⟩, h⟩
    rw [← hs, show (6 : Nat) = (ascii "bytes=").length from rfl, List.drop_left] at h
    obtain ⟨hne, ⟨a, rest⟩, hstart, ⟨t, ht⟩, hspace, hle, rfl, rfl⟩ := h
    split_ifs at hstart with hfits
    cases hstart
    dsimp only at ht hspace hle ⊢
    rw [ht, List.tail_cons] at hspace hle ⊢
    refine ⟨s, t, hs.symm, ht, hne, rfl, hfits, hspace, ?_⟩
    by_cases hfinal : t.takeWhile isDecimal = []
    · exact .inl ⟨hfinal, if_neg (not_not.mpr hfinal)⟩
    · refine .inr ⟨hfinal, ?_, if_pos hfinal⟩
      have := Nat.not_lt.mp fun hlt => hle ⟨hfinal, hlt⟩
      exact this.trans (Nat.min_le_left ..)
  · rintro ⟨s, t, hs, ht, hne, rfl, hfits, hspace, hstop⟩
    rw [hs, show (6 : Nat) = (ascii "bytes=").length from rfl, List.drop_left]
    refine ⟨List.prefix_append .., hne, (decFrom 0 (s.takeWhile isDecimal), s.dropWhile isDecimal),
      if_pos hfits, ⟨t, ht⟩, ?_⟩
    dsimp only
    rw [ht, List.tail_cons]
    rcases hstop with ⟨hfinal, rfl⟩ | ⟨hfinal, hle, rfl⟩
    · exact ⟨hspace, fun h => h.1 hfinal, rfl, if_neg (not_not.mpr hfinal)⟩
    · exact ⟨hspace, fun h => Nat.not_lt.mpr (Nat.le_min.mpr ⟨hle, hfits⟩) h.2, rfl, if_pos hfinal⟩

/-- `parse_range` reads the ranges that the server supports, the end clamped to 32 bits. -/
theorem parseRange_iff {header : List UInt8} {stop : Option Nat} :
    parseRange header = some (start, stop) ↔
      ∃ last, ReadsRange header start last ∧ stop = last.map (min · 0xFFFFFFFF) := by
  have hspan (s : List UInt8) (p : UInt8 → Bool) : s.takeWhile p ++ s.dropWhile p = s :=
    List.takeWhile_append_dropWhile
  rw [parseRange_steps]
  constructor
  · rintro ⟨s, t, hs, ht, hne, hstart, hfits, hspace, hstop⟩
    have hafter : t.dropWhile isDecimal = (t.dropWhile isDecimal).takeWhile isSpace := by
      conv_lhs => rw [← hspan (t.dropWhile isDecimal) isSpace, hspace, List.append_nil]
    have hread (last : Option Nat) (hlast : t.takeWhile isDecimal = [] ∧ last = none ∨
        t.takeWhile isDecimal ≠ [] ∧ start ≤ decFrom 0 (t.takeWhile isDecimal) ∧
          last = some (decFrom 0 (t.takeWhile isDecimal))) : ReadsRange header start last := by
      refine ⟨header.takeWhile isSpace, s.takeWhile isDecimal, t.takeWhile isDecimal,
        t.dropWhile isDecimal, ?_, fun c hc => ?_, fun c hc => ?_, hne, hstart, hfits, hlast⟩
      · conv_lhs => rw [← hspan header isSpace, hs, ← hspan s isDecimal, ht, ← hspan t isDecimal]
        simp only [List.append_assoc, List.cons_append]
      · rcases List.mem_append.mp hc with hc | hc
        · exact List.mem_takeWhile_imp hc
        · rw [hafter] at hc
          exact List.mem_takeWhile_imp hc
      · rcases List.mem_append.mp hc with hc | hc <;> exact List.mem_takeWhile_imp hc
    rcases hstop with ⟨hfinal, rfl⟩ | ⟨hfinal, hle, rfl⟩
    · exact ⟨none, hread none (.inl ⟨hfinal, rfl⟩), rfl⟩
    · exact ⟨some _, hread _ (.inr ⟨hfinal, hle, rfl⟩), rfl⟩
  · rintro ⟨last, ⟨before, first, final, after, rfl, hspaces, hdigits, hne, hstart, hfits, hlast⟩,
      rfl⟩
    rw [List.forall_mem_append] at hspaces hdigits
    have hend : ∀ c ∈ after.head?, isDecimal c = false := fun c hc => by
      rw [isSpace_iff.mp (hspaces.2 c (List.mem_of_mem_head? hc))]
      decide
    have hfirst := takeWhile_decimal hdigits.1
      (show ∀ c ∈ (0x2D :: (final ++ after)).head?, isDecimal c = false by simp; decide)
    have hfinal := takeWhile_decimal hdigits.2 hend
    have hafter : after.dropWhile isSpace = [] := List.dropWhile_eq_nil_iff.mpr hspaces.2
    refine ⟨first ++ 0x2D :: (final ++ after), final ++ after, ?_, hfirst.2, ?_⟩
    · simp only [List.append_assoc, List.cons_append]
      rw [List.dropWhile_append_of_pos hspaces.1]
      rfl
    · rw [hfirst.1, hfinal.1, hfinal.2]
      refine ⟨hne, hstart, hfits, hafter, ?_⟩
      rcases hlast with ⟨hnone, rfl⟩ | ⟨hsome, hle, rfl⟩
      · exact .inl ⟨hnone, rfl⟩
      · exact .inr ⟨hsome, hle, rfl⟩

/-! ## The answer that is sent -/

theorem sendBody_spec (a : Answers) {fuel i remaining : Nat} {content : List UInt8}
    (hle : remaining ≤ content.length) (hfuel : remaining < fuel) :
    ((sendBody a fuel i content remaining).2 = true →
      (sendBody a fuel i content remaining).1 = content.take remaining) ∧
    ((sendBody a fuel i content remaining).2 = false →
      ∃ k < remaining, (sendBody a fuel i content remaining).1 = content.take k) := by
  induction fuel generalizing i content remaining with
  | zero => omega
  | succ fuel ih =>
    rw [sendBody]
    by_cases hzero : remaining = 0
    · simp [hzero]
    · have hpos := Nat.pos_of_ne_zero hzero
      rw [if_neg hzero]
      cases a.reads i with
      | none => exact ⟨nofun, fun _ => ⟨0, hpos, rfl⟩⟩
      | some got =>
        dsimp only
        by_cases hgot : got = 0
        · rw [if_pos hgot]
          exact ⟨nofun, fun _ => ⟨0, hpos, rfl⟩⟩
        · rw [if_neg hgot]
          have hn : 0 < min got (min remaining serveBlock) ∧
              min got (min remaining serveBlock) ≤ remaining := by
            unfold serveBlock
            omega
          generalize min got (min remaining serveBlock) = n at hn ⊢
          have hblock : (content.take n).length = n := List.length_take_of_le (by omega)
          cases a.sends i with
          | some k =>
            refine ⟨nofun, fun _ => ⟨min k (n - 1), by omega, ?_⟩⟩
            dsimp only
            rw [List.dropLast_eq_take, hblock, List.take_take, List.take_take]
            congr 1
            omega
          | none =>
            dsimp only
            rw [hblock]
            have hdrop : remaining - n ≤ (content.drop n).length := by
              rw [List.length_drop]
              omega
            obtain ⟨hdone, hcut⟩ := @ih (i + 1) (remaining - n) (content.drop n) hdrop (by omega)
            have htake (k : Nat) : content.take n ++ (content.drop n).take k = content.take (n + k) :=
              List.take_add.symm
            refine ⟨fun h => ?_, fun h => ?_⟩
            · rw [hdone h, htake, Nat.add_sub_cancel' hn.2]
            · obtain ⟨k, hk, hsent⟩ := hcut h
              exact ⟨n + k, by omega, by rw [hsent, htake]⟩

/-- A card that gives bytes and a socket that takes them get to the end of the body. -/
theorem sendBody_completed {a : Answers} (hreads : ∀ i, ∃ got, a.reads i = some got ∧ 0 < got)
    (hsends : ∀ i, a.sends i = none) {fuel i remaining : Nat}
    (hle : remaining ≤ content.length) (hfuel : remaining < fuel) :
    (sendBody a fuel i content remaining).2 = true := by
  induction fuel generalizing i content remaining with
  | zero => omega
  | succ fuel ih =>
    rw [sendBody]
    by_cases hzero : remaining = 0
    · rw [if_pos hzero]
    · obtain ⟨got, hgot, hpos⟩ := hreads i
      rw [if_neg hzero, hgot, hsends]
      dsimp only
      rw [if_neg hpos.ne']
      have hn : 0 < min got (min remaining serveBlock) ∧
          min got (min remaining serveBlock) ≤ remaining := by
        unfold serveBlock
        omega
      generalize min got (min remaining serveBlock) = n at hn ⊢
      rw [List.length_take_of_le (by omega)]
      refine ih ?_ (by omega)
      rw [List.length_drop]
      omega

theorem length_decDigits_le {w : Nat} (hw : 0 < w) (fuel : Nat) (hv : v < 10 ^ w) :
    (decDigits fuel v).length ≤ w := by
  induction fuel generalizing v w with
  | zero => exact Nat.zero_le w
  | succ fuel ih =>
    rw [decDigits, List.length_append, List.length_singleton]
    split_ifs with hv'
    · exact hw
    · obtain ⟨w, rfl⟩ := Nat.exists_eq_succ_of_ne_zero hw.ne'
      have hsmall := div_ten_lt hv
      have hw' : 0 < w := Nat.pos_of_ne_zero fun hzero => by
        subst hzero
        omega
      exact Nat.succ_le_succ (ih hw' hsmall)

/-- The numbers of a head have ten digits at most. -/
theorem length_decText_le (hv : v ≤ 0x7FFFFFFF) : (decText v).length ≤ 10 :=
  length_decDigits_le (by decide) _ (by omega)

theorem streams_stream (a : Answers) {head : List UInt8} {length : Nat}
    (hhead : head.length < 192) (hle : start + length ≤ content.length) (hpos : 0 < length) :
    Streams a head ((content.drop start).take length) start
      (stream a content head start length) := by
  have hdrop : length ≤ (content.drop start).length := by
    rw [List.length_drop]
    omega
  have hbody : ((content.drop start).take length).length = length := List.length_take_of_le hdrop
  obtain ⟨hdone, hcut⟩ := @sendBody_spec a (length + 1) 0 length _ hdrop (Nat.lt_succ_self _)
  unfold stream
  rw [if_neg (Nat.not_le.mpr hhead)]
  constructor
  · intro hunsent
    simp [hunsent]
  · intro hsent
    simp only [hsent, Bool.not_true, Bool.false_eq_true, if_false]
    split_ifs
    · exact ⟨[], false, rfl, nofun, fun _ => ⟨0, by rwa [hbody], rfl⟩⟩
    · refine ⟨_, _, rfl, hdone, fun h => ?_⟩
      obtain ⟨k, hk, hpart⟩ := hcut h
      refine ⟨k, by rwa [hbody], ?_⟩
      rw [hpart, List.take_take, Nat.min_eq_left (Nat.le_of_lt hk)]
  · intro ha
    have hseek : ¬(start ≠ 0 ∧ (!a.seeks) = true) := fun h => by simp [ha.seeks h.1] at h
    have hcompleted := sendBody_completed ha.reads ha.sends hdrop (Nat.lt_succ_self length) (i := 0)
    rw [ha.headSent, if_neg (by simp), if_neg hseek]
    dsimp only
    rw [hcompleted, hdone hcompleted]

theorem length_ascii (s : String) : (ascii s).length = s.length := by
  rw [ascii, List.length_map, String.length_toList]

theorem length_heads {start stop total : Nat} (hstart : start ≤ 0x7FFFFFFF)
    (hstop : stop < 0x7FFFFFFF) (htotal : total ≤ 0x7FFFFFFF) :
    (headPartial start stop total).length < 192 ∧ (headWhole total).length < 192 := by
  have h1 := length_decText_le hstart
  have h2 := length_decText_le (Nat.le_of_lt hstop)
  have h3 := length_decText_le htotal
  have h4 := length_decText_le (show stop - start + 1 ≤ 0x7FFFFFFF by omega)
  simp only [headPartial, headWhole, List.length_append, length_ascii, crlf, List.length_cons,
    List.length_nil]
  constructor
  · have hstrings : "HTTP/1.1 206 Partial Content".length = 28 ∧ "Content-Type: text/csv".length = 22 ∧
        "Content-Range: bytes ".length = 21 ∧ "-".length = 1 ∧ "/".length = 1 ∧
        "Content-Length: ".length = 16 := by decide
    omega
  · have hstrings : "HTTP/1.1 200 OK".length = 15 ∧ "Content-Type: text/csv".length = 22 ∧
        "Content-Length: ".length = 16 := by decide
    omega

/-- The end that is sent, off the clamped one. -/
theorem stop_eq {total : Nat} (hmax : total ≤ 0x7FFFFFFF) (last : Option Nat) :
    (match last.map (min · 0xFFFFFFFF) with
      | some wanted => if wanted < total - 1 then wanted else total - 1
      | none => total - 1) = (last.map (min · (total - 1))).getD (total - 1) := by
  cases last with
  | none => rfl
  | some l =>
    simp only [Option.map_some, Option.getD_some, Nat.min_def]
    split_ifs <;> omega

theorem mem_headerValue_iff {header : Option (List UInt8)} {h : List UInt8} :
    h ∈ headerValue header ↔ h ∈ header ∧ h.length < 64 := by
  simp [headerValue, Option.mem_def, Option.filter_eq_some_iff]

/-- The answer for a chunk that is neither empty nor too large. -/
theorem serveChunk_sized (a : Answers) {header : Option (List UInt8)}
    (hname : decodeChunkName (some (uri ++ [0])) (ascii "/sdlog/f/") = some (some seq))
    (hgrant : a.grant seq = .ok ()) (hpath : a.pathFits = true) (hopens : a.opens = true)
    (hsize : a.size = some content.length) (hpos : 0 < content.length)
    (hmax : content.length ≤ 0x7FFFFFFF) :
    ∃ reply, serveChunk a (some (uri ++ [0])) header content = some reply ∧
      AnsweredWith a content header reply := by
  have hempty : content ≠ [] := List.ne_nil_of_length_pos hpos
  have hlarge := Nat.not_lt.mpr hmax
  rw [serveChunk, hname]
  simp only [Option.bind_eq_bind, Option.bind_some, hgrant, hpath, hopens, hsize,
    Bool.not_true, Bool.false_eq_true, if_false, if_neg hlarge, if_neg hpos.ne']
  cases hrange : (headerValue header).bind parseRange with
  | none =>
    have hnone : ∀ h ∈ header, h.length < 64 → ∀ start last, ¬ReadsRange h start last := by
      intro h hh hshort start last hread
      rw [Option.mem_def.mp (mem_headerValue_iff.mpr ⟨hh, hshort⟩), Option.bind_some,
        parseRange_iff.mpr ⟨last, hread, rfl⟩] at hrange
      cases hrange
    refine ⟨_, rfl, fun h => absurd h hempty, fun h => absurd h hlarge,
      fun _ _ h hh hshort start last hread => absurd hread (hnone h hh hshort start last),
      fun _ _ _ => ?_⟩
    have hhead := @length_heads 0 0 content.length (by decide) (by decide) hmax
    simpa using streams_stream a hhead.2 (Nat.le_of_eq (Nat.zero_add _)) hpos
  | some range =>
    obtain ⟨start, stop⟩ := range
    obtain ⟨h, hvalue, hparse⟩ := Option.bind_eq_some_iff.mp hrange
    obtain ⟨hh, hshort⟩ := mem_headerValue_iff.mp hvalue
    obtain ⟨last, hread, rfl⟩ := parseRange_iff.mp hparse
    have hwhole : ¬∀ h' ∈ header, h'.length < 64 → ∀ start last, ¬ReadsRange h' start last :=
      fun hnone => hnone h hh hshort start last hread
    have hsame {h' : List UInt8} (hh' : h' ∈ header) {start' : Nat} {last' : Option Nat}
        (hread' : ReadsRange h' start' last') :
        start = start' ∧ last.map (min · 0xFFFFFFFF) = last'.map (min · 0xFFFFFFFF) := by
      have hparse' := parseRange_iff.mpr ⟨last', hread', rfl⟩
      rw [← Option.mem_unique hh hh', hparse] at hparse'
      exact Prod.mk.inj (Option.some.inj hparse')
    dsimp only
    by_cases hstart : start ≥ content.length
    · rw [if_pos hstart]
      refine ⟨_, rfl, fun h => absurd h hempty, fun h => absurd h hlarge,
        fun _ _ h' hh' _ start' last' hread' => ?_, fun _ _ hnone => absurd hnone hwhole⟩
      rw [← (hsame hh' hread').1, if_pos hstart]
    · rw [if_neg hstart]
      refine ⟨_, rfl, fun h => absurd h hempty, fun h => absurd h hlarge,
        fun _ _ h' hh' _ start' last' hread' => ?_, fun _ _ hnone => absurd hnone hwhole⟩
      obtain ⟨rfl, hlast⟩ := hsame hh' hread'
      rw [if_neg hstart, hlast, stop_eq hmax]
      generalize hstop : (last'.map (min · (content.length - 1))).getD (content.length - 1) = stop
      have hle : stop ≤ content.length - 1 := by
        rw [← hstop]
        cases last' with
        | none => exact Nat.le_refl _
        | some l => exact Nat.min_le_right ..
      exact streams_stream a (length_heads (by omega) (by omega) hmax).1 (by omega) (by omega)

theorem serveChunk_eq (a : Answers) (header : Option (List UInt8))
    (hname : decodeChunkName (some (uri ++ [0])) (ascii "/sdlog/f/") = some (some seq))
    (hgrant : a.grant seq = .ok ()) (hpath : a.pathFits = true) (hopens : a.opens = true)
    (hsize : a.size = some content.length) :
    ∃ reply, serveChunk a (some (uri ++ [0])) header content = some reply ∧
      AnsweredWith a content header reply := by
  rcases Nat.eq_zero_or_pos content.length with hzero | hpos
  · refine ⟨notFound, ?_, fun _ => rfl, fun hlarge => ?_, fun hpos => ?_, fun hpos => ?_⟩
    · simp [serveChunk, hname, hgrant, hpath, hopens, hsize, hzero]
    all_goals omega
  · by_cases hmax : content.length ≤ 0x7FFFFFFF
    · exact serveChunk_sized a hname hgrant hpath hopens hsize hpos hmax
    · have hlarge := Nat.not_le.mp hmax
      refine ⟨serverError "too large", ?_, fun hempty => ?_, fun _ => rfl,
        fun _ hle => absurd hle hmax, fun _ hle => absurd hle hmax⟩
      · simp [serveChunk, hname, hgrant, hpath, hopens, hsize, hlarge]
      · rw [hempty] at hpos
        cases hpos

/-- A request is read inside the URI and the name, and a chunk that may be served is answered with
the bytes that are asked for: 404 if it is empty, 500 if it is too large, 416 if the range starts
behind its end, and else 206 or 200 with a body that is all there if card and socket are willing. -/
theorem chunk_request (a : Answers) {uri path content : List UInt8} (header : Option (List UInt8))
    (hzero : 0 ∉ uri) (hpath : 0 ∉ path) (hsize : a.size = some content.length) :
    (∃ result, decodeChunkName (some (uri ++ [0])) path = some result ∧
      ∀ seq, result = some seq ↔ ∃ rest name, uri = path ++ rest ∧
        percentDecode (pathOf rest) = some name ∧ NamesChunk name seq.toNat) ∧
    ∀ seq, decodeChunkName (some (uri ++ [0])) (ascii "/sdlog/f/") = some (some seq) →
      a.grant seq = .ok () → a.pathFits = true → a.opens = true →
        ∃ reply, serveChunk a (some (uri ++ [0])) header content = some reply ∧
          AnsweredWith a content header reply :=
  ⟨decodeChunkName_eq hzero hpath, fun _ hname hgrant hpath hopens =>
    serveChunk_eq a header hname hgrant hpath hopens hsize⟩

def firstChunk : List UInt8 := ascii "/sdlog/f/L0000001.LOG"

/-- Two bytes that are read and sent without a fault. -/
def willing : Answers where
  grant _ := .ok ()
  size := some 2
  reads _ := some 4096
  sends _ := none

theorem willing_willing : willing.Willing 0 where
  headSent := rfl
  seeks := nofun
  reads _ := ⟨4096, rfl, by decide⟩
  sends _ := rfl

theorem chunk_request_head :
    serveChunk willing (some (firstChunk ++ [0])) (some (ascii "bytes=0-0")) [0x23, 0x0A] =
      some (.streamed (headPartial 0 0 2) [0x23] true) := by
  obtain ⟨reply, hserve, hreply⟩ :=
    (@chunk_request willing firstChunk (ascii "/sdlog/f/") [0x23, 0x0A] (some (ascii "bytes=0-0"))
      (by decide) (by decide) rfl).2 1 (by decide) rfl rfl rfl
  have hread : ReadsRange (ascii "bytes=0-0") 0 (some 0) :=
    ⟨[], [0x30], [0x30], [], by decide, by simp, by simp [isDecimal], by simp, rfl, by decide,
      .inr ⟨by simp, Nat.le_refl _, rfl⟩⟩
  have hstreams : Streams willing (headPartial 0 0 2) [0x23] 0 reply :=
    hreply.ranged (by simp) (by simp) _ rfl (by decide) 0 (some 0) hread
  rw [hserve, hstreams.willing willing_willing]

/-- A supported range that does not fit the buffer. -/
def longRange : List UInt8 :=
  [] ++ ascii "bytes=" ++ [0x30] ++ 0x2D :: [0x30] ++ List.replicate 60 0x20

theorem longRange_ignored :
    ReadsRange longRange 0 (some 0) ∧
      serveChunk willing (some (firstChunk ++ [0])) (some longRange) [0x23, 0x0A] =
        some (.streamed (headWhole 2) [0x23, 0x0A] true) := by
  refine ⟨⟨[], [0x30], [0x30], List.replicate 60 0x20, rfl, fun c hc => ?_, ?_, by simp, rfl,
    by decide, .inr ⟨by simp, Nat.le_refl _, rfl⟩⟩, by decide⟩
  · rw [isSpace_iff, List.eq_of_mem_replicate hc]
  · simp [isDecimal]

end EspCars.SdLogger
