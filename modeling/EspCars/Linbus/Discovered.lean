import EspCars.Linbus.Decoder

/-!
# The table of discovered IDs

`onData` of `components/linbus/LinProtocolHandler.cpp`, which gets every frame that the decoder
hands out: its checksum, and the table of the 32 IDs heard last. A store behind the eight bytes of
an entry has no result.

The search for an ID ends at the first free slot, so that it rests on the used slots being in front
(`Recent.used`).
-/

namespace EspCars.Linbus

open Decoder (calculatePid index)

/-- `LIN_MAX_DISCOVERED_PIDS`. -/
def linMaxDiscoveredPids : Nat := 32

/-- `INT64_MAX`, in microseconds. -/
def int64Max : Nat := 2 ^ 63 - 1

/-! ## The checksum -/

/-- `while (sum > 0xFF)`. Two rounds settle every sum (`foldCarries_le`). -/
def foldCarries : Nat → UInt16 → UInt16
  | 0, sum => sum
  | n + 1, sum =>
    if sum > 0xFF then foldCarries n ((sum &&& (0xFF : UInt16)) + (sum >>> (8 : UInt16))) else sum

theorem foldCarries_le (sum : UInt16) : foldCarries 2 sum ≤ 0xFF := by
  have hround (s : UInt16) :
      ((s &&& (0xFF : UInt16)) + (s >>> (8 : UInt16))).toNat = s.toNat % 256 + s.toNat / 256 := by
    have hs := s.toNat_lt
    have hmask : s.toNat &&& 255 = s.toNat % 256 := Nat.and_two_pow_sub_one_eq_mod s.toNat 8
    rw [UInt16.toNat_add, UInt16.toNat_and, UInt16.toNat_shiftRight]
    simp only [UInt16.reduceToNat, Nat.reduceMod, hmask, Nat.shiftRight_eq_div_pow]
    omega
  have hsum := sum.toNat_lt
  simp only [foldCarries]
  split_ifs with h h'
  · rw [UInt16.le_iff_toNat_le, hround, hround]
    simp only [gt_iff_lt, UInt16.lt_iff_toNat_lt, hround, UInt16.reduceToNat] at h h' ⊢
    omega
  · exact UInt16.not_lt.mp h'
  · exact UInt16.not_lt.mp h

/-- `calculateChecksum`, of a PID or an ID. The diagnostic IDs are always classic. -/
def calculateChecksum (pidOrId : UInt8) (data : List UInt8) (enhanced : Bool) : UInt8 :=
  let id := pidOrId &&& 0x3F
  let sum : UInt16 :=
    if enhanced ∧ id ≠ 0x3C ∧ id ≠ 0x3D then (calculatePid id).toUInt16 else 0
  ~~~(foldCarries 2 (data.foldl (fun s b => s + b.toUInt16) sum)).toUInt8

/-! ## Entries -/

/-- `lin_discovered_id_t`; a `dataLength` of 0 marks a free slot. -/
structure DiscoveredId where
  id : UInt8 := 0
  dataLength : Nat := 0
  data : Vector UInt8 linMaxDataSize := .replicate linMaxDataSize 0
  lastUpdateTime : Nat := 0
  updateCount : UInt32 := 0
  deriving DecidableEq

/-- `lin_respond_data_t`; the checksum is the last byte of `responseData`. -/
structure RespondData extends Response where
  enhancedChecksum : Bool
  deriving DecidableEq, Repr

/-- `memcpy` into the bytes of an entry. -/
def memcpy (dst : Vector UInt8 linMaxDataSize) (src : List UInt8) (n : Nat) :
    Option (Vector UInt8 linMaxDataSize) :=
  if n ≤ linMaxDataSize ∧ n ≤ src.length then
    some (.ofFn fun i => if i.val < n then src.getD i 0 else dst.get i)
  else none

namespace DiscoveredId

def used (e : DiscoveredId) : Bool := e.dataLength > 0

/-- What `get_response_4id` hands to the component. -/
def payload (e : DiscoveredId) : List UInt8 := e.data.toList.take e.dataLength

/-- The stores of `onData` to an entry; `data` ends with the checksum. -/
def store (e : DiscoveredId) (data : List UInt8) (updateCount : UInt32) (nowUs : Nat) :
    Option DiscoveredId := do
  let copyLen := if data.length - 1 > linMaxDataSize then linMaxDataSize else data.length - 1
  let bytes ← memcpy e.data data copyLen
  return { e with
    data := bytes, dataLength := copyLen, updateCount := updateCount, lastUpdateTime := nowUs }

end DiscoveredId

/-! ## `onData` -/

/-- What the scan of the table ends at. -/
inductive Found
  | entry (i : Nat)
  | free (i : Nat)
  | oldest (i : Option Nat)
  deriving DecidableEq, Repr

/-- The scan from slot `i` on, with the oldest entry before it and its time. -/
def scan (id : UInt8) : List DiscoveredId → Nat → Option Nat × Nat → Found
  | [], _, oldest => .oldest oldest.1
  | e :: es, i, oldest =>
    if e.used then
      if e.id = id then .entry i
      else scan id es (i + 1) (if e.lastUpdateTime < oldest.2 then (some i, e.lastUpdateTime)
        else oldest)
    else .free i

/-- The lifetime totals of `lin_statistics_t` that `onData` counts. -/
structure DataStatistics where
  dataBytesReceived : UInt32 := 0
  totalBusBytes : UInt32 := 0
  uniqueIdsSeen : UInt32 := 0
  checksumFallback : UInt32 := 0
  checksumErrors : UInt32 := 0
  framesReceived : UInt32 := 0
  deriving DecidableEq, Repr

/-- What `onData` reads and writes of a `LinProtocolHandler`. `rxChecksumMode` is `none` for an
undeclared mode; `uniqueIds` is the bitmap `unique_id_tracker_`. -/
structure Handler where
  rxChecksumMode : Fin 64 → Option Bool := fun _ => none
  discoveredIDs : List DiscoveredId := List.replicate linMaxDiscoveredPids {}
  uniqueIds : Fin 64 → Bool := fun _ => false
  statistics : DataStatistics := {}

/-- A call of `onData`, with the time and the response table it meets. -/
structure Call where
  pid : UInt8
  data : List UInt8
  nowUs : Nat := 0
  responses : List RespondData := []
  /-- `esp_timer_get_time` does not reach `INT64_MAX`. -/
  inTime : nowUs < int64Max := by decide

def Call.id (c : Call) : UInt8 := c.pid &&& 0x3F

namespace Handler

/-- The bytes of the frame are counted and its ID is noted, whatever its checksum is. -/
def count (h : Handler) (c : Call) : Handler :=
  let len := UInt32.ofNat c.data.length
  let statistics := { h.statistics with
    dataBytesReceived := h.statistics.dataBytesReceived + len
    totalBusBytes := h.statistics.totalBusBytes + len }
  if h.uniqueIds (index c.pid) then { h with statistics := statistics }
  else { h with
    uniqueIds := Function.update h.uniqueIds (index c.pid) true
    statistics := { statistics with uniqueIdsSeen := statistics.uniqueIdsSeen + 1 } }

/-- The mode that is tried first. -/
def preferEnhanced (h : Handler) (c : Call) : Bool :=
  match h.rxChecksumMode (index c.pid) with
  | some enhanced => enhanced
  | none =>
    match c.responses.find? fun r => r.id = c.id ∧ r.dataLength ≠ 0 with
    | some r => r.enhancedChecksum
    | none => true

/-- The entry in slot `i` becomes `f` of it. -/
def modify (h : Handler) (i : Nat) (f : DiscoveredId → Option DiscoveredId) : Option Handler := do
  let e ← h.discoveredIDs[i]?
  let e ← f e
  return { h with discoveredIDs := h.discoveredIDs.set i e }

/-- An accepted frame is put into the table. -/
def discover (h : Handler) (c : Call) : Option Handler :=
  match scan c.id h.discoveredIDs 0 (none, int64Max) with
  | .entry i => h.modify i fun e => e.store c.data (e.updateCount + 1) c.nowUs
  | .free i => h.modify i fun e => { e with id := c.id }.store c.data 1 c.nowUs
  | .oldest (some i) => h.modify i fun e => { e with id := c.id }.store c.data 1 c.nowUs
  | .oldest none => some h

/-- `onData`. -/
def onData (h : Handler) (c : Call) : Option Handler :=
  if c.data.length = 0 ∨ c.data.length > 16 then some h
  else
    let h := h.count c
    let enhanced := h.preferEnhanced c
    let last := c.data.getLastD 0
    let accept (h : Handler) : Option Handler := { h with
      statistics := { h.statistics with framesReceived := h.statistics.framesReceived + 1 }
      }.discover c
    if last ≠ calculateChecksum c.pid c.data.dropLast enhanced then
      if last = calculateChecksum c.pid c.data.dropLast (!enhanced) then
        accept { h with statistics :=
          { h.statistics with checksumFallback := h.statistics.checksumFallback + 1 } }
      else
        some { h with statistics :=
          { h.statistics with checksumErrors := h.statistics.checksumErrors + 1 } }
    else accept h

def run (h : Handler) (calls : List Call) : Option Handler := calls.foldlM onData h

end Handler

/-! ## What the table holds -/

/-- A frame with a checksum of one of the two modes. -/
def Call.accepts (c : Call) : Bool :=
  c.data.length ≤ 16 && (c.data.getLastD 0 = calculateChecksum c.pid c.data.dropLast true ||
    c.data.getLastD 0 = calculateChecksum c.pid c.data.dropLast false)

/-- The bytes of a frame that an entry has room for. -/
def Call.payload (c : Call) : List UInt8 := c.data.dropLast.take linMaxDataSize

/-- The latest of the calls with a frame of `id`. -/
def latest (calls : List Call) (id : UInt8) : Option Call :=
  calls.reverse.find? fun c => c.accepts && c.id = id

/-- The slots in use are in front, each for another ID and with the latest frame of it. -/
structure Recent (calls : List Call) (table : List DiscoveredId) : Prop where
  length : table.length = linMaxDiscoveredPids
  front : ∀ {i j : Nat} {e e' : DiscoveredId}, i ≤ j → table[i]? = some e → table[j]? = some e' →
    e'.used = true → e.used = true
  unique : ∀ {i j : Nat} {e e' : DiscoveredId}, table[i]? = some e → table[j]? = some e' →
    e.used = true → e'.used = true → e.id = e'.id → i = j
  held : ∀ {i : Nat} {e : DiscoveredId}, table[i]? = some e → e.used = true →
    ∃ c, latest calls e.id = some c ∧ e.payload = c.payload ∧ e.lastUpdateTime = c.nowUs

/-- What one call does to the table: an accepted frame has its entry behind it, at most one slot is
written, none is freed, and one is given to another ID only if all are in use, and then one written
longest ago. -/
structure Keeps (c : Call) (h h' : Handler) : Prop where
  accepted : c.accepts = true → ∃ (i : Nat) (e : DiscoveredId), h'.discoveredIDs[i]? = some e ∧
    e.used = true ∧ e.id = c.id ∧ e.payload = c.payload ∧ e.lastUpdateTime = c.nowUs
  one : ∃ i : Nat, ∀ j, j ≠ i → h'.discoveredIDs[j]? = h.discoveredIDs[j]?
  used : ∀ (i : Nat) (e : DiscoveredId), h.discoveredIDs[i]? = some e → e.used = true →
    ∃ e', h'.discoveredIDs[i]? = some e' ∧ e'.used = true ∧ (e'.id ≠ e.id →
      ∀ x ∈ h.discoveredIDs, x.used = true ∧ e.lastUpdateTime ≤ x.lastUpdateTime)
  rejected : c.accepts = false →
    h'.discoveredIDs = h.discoveredIDs ∧ h'.rxChecksumMode = h.rxChecksumMode ∧
      h'.statistics.framesReceived = h.statistics.framesReceived ∧
      h'.statistics.checksumFallback = h.statistics.checksumFallback

/-! ## One call -/

theorem memcpy_eq (dst : Vector UInt8 linMaxDataSize) {src : List UInt8} {n : Nat}
    (hn : n ≤ linMaxDataSize) (hsrc : n ≤ src.length) :
    ∃ bytes, memcpy dst src n = some bytes ∧ bytes.toList.take n = src.take n := by
  refine ⟨_, if_pos ⟨hn, hsrc⟩, ?_⟩
  apply List.ext_getElem
  · simp [hn, hsrc]
  · intro i hi hi'
    have hlt : i < n := by
      rw [List.length_take] at hi'
      omega
    simp [hlt, List.getElem?_eq_getElem (Nat.lt_of_lt_of_le hlt hsrc)]

/-- A frame with a payload is stored without leaving the entry. -/
theorem DiscoveredId.store_eq (e : DiscoveredId) (c : Call) (hlen : 2 ≤ c.data.length)
    (updateCount : UInt32) : ∃ e', e.store c.data updateCount c.nowUs = some e' ∧ e'.id = e.id ∧
      e'.used = true ∧ e'.payload = c.payload ∧ e'.lastUpdateTime = c.nowUs ∧
      e'.updateCount = updateCount := by
  generalize hcopy : (if c.data.length - 1 > linMaxDataSize then linMaxDataSize
    else c.data.length - 1) = copyLen
  have hmin : copyLen = min linMaxDataSize (c.data.length - 1) := by
    rw [← hcopy]
    split_ifs <;> omega
  have hpos : 0 < copyLen := by
    rw [hmin, linMaxDataSize]
    omega
  have hle : copyLen ≤ linMaxDataSize := by omega
  have hsrc : copyLen ≤ c.data.length := by omega
  obtain ⟨bytes, hbytes, htake⟩ := memcpy_eq e.data hle hsrc
  unfold store
  simp only [hcopy, hbytes, Option.bind_eq_bind, Option.bind_some]
  refine ⟨_, rfl, rfl, decide_eq_true hpos, ?_, rfl, rfl⟩
  rw [payload, Call.payload, htake, List.dropLast_eq_take, List.take_take, hmin]

/-- What the scan says about the table. -/
inductive Scanned (id : UInt8) (table : List DiscoveredId) (i : Nat) (o : Option Nat × Nat) :
    Found → Prop
  | entry {j : Nat} {e : DiscoveredId} : table[j]? = some e → e.used = true → e.id = id →
    Scanned id table i o (.entry (i + j))
  | free {j : Nat} {e : DiscoveredId} : table[j]? = some e → e.used = false →
    (∀ k < j, ∀ x, table[k]? = some x → x.used = true ∧ x.id ≠ id) →
    Scanned id table i o (.free (i + j))
  | kept : (∀ x ∈ table, x.used = true ∧ x.id ≠ id ∧ o.2 ≤ x.lastUpdateTime) →
    Scanned id table i o (.oldest o.1)
  | oldest {j : Nat} {e : DiscoveredId} : table[j]? = some e → e.lastUpdateTime < o.2 →
    (∀ x ∈ table, x.used = true ∧ x.id ≠ id ∧ e.lastUpdateTime ≤ x.lastUpdateTime) →
    Scanned id table i o (.oldest (some (i + j)))

/-- A used slot for another ID in front. -/
theorem Scanned.cons {id : UInt8} {e : DiscoveredId} {es : List DiscoveredId} {i : Nat}
    {o : Option Nat × Nat} {r : Found} (hused : e.used = true) (hid : e.id ≠ id)
    (h : Scanned id es (i + 1)
      (if e.lastUpdateTime < o.2 then (some i, e.lastUpdateTime) else o) r) :
    Scanned id (e :: es) i o r := by
  cases h with
  | @entry j x hx hxused hxid =>
    rw [Nat.add_assoc, Nat.add_comm 1 j]
    exact .entry (j := j + 1) hx hxused hxid
  | @free j x hx hxfree hbefore =>
    rw [Nat.add_assoc, Nat.add_comm 1 j]
    refine .free (j := j + 1) hx hxfree fun k hk y hy => ?_
    cases k with
    | zero =>
      cases hy
      exact ⟨hused, hid⟩
    | succ k => exact hbefore k (by omega) y hy
  | kept hall =>
    split_ifs at hall ⊢ with hlt
    · exact .oldest (j := 0) rfl hlt (List.forall_mem_cons.mpr ⟨⟨hused, hid, le_rfl⟩, hall⟩)
    · exact .kept (List.forall_mem_cons.mpr ⟨⟨hused, hid, Nat.not_lt.mp hlt⟩, hall⟩)
  | @oldest j x hx hxlt hall =>
    rw [Nat.add_assoc, Nat.add_comm 1 j]
    split_ifs at hxlt with hlt
    · exact .oldest (j := j + 1) hx (hxlt.trans hlt)
        (List.forall_mem_cons.mpr ⟨⟨hused, hid, hxlt.le⟩, hall⟩)
    · exact .oldest (j := j + 1) hx hxlt
        (List.forall_mem_cons.mpr ⟨⟨hused, hid, hxlt.le.trans (Nat.not_lt.mp hlt)⟩, hall⟩)

theorem scanned_scan (id : UInt8) (table : List DiscoveredId) (i : Nat) (o : Option Nat × Nat) :
    Scanned id table i o (scan id table i o) := by
  induction table generalizing i o with
  | nil => exact .kept nofun
  | cons e es ih =>
    rw [scan]
    split
    · split
      · rename_i hused hid
        exact .entry (j := 0) rfl hused hid
      · rename_i hused hid
        exact .cons hused hid (ih _ _)
    · rename_i hfree
      exact .free (j := 0) rfl (Bool.not_eq_true _ ▸ hfree)
        fun k hk => absurd hk (Nat.not_lt_zero k)

/-- The slot that an accepted frame gets: the one of its ID, the first free one, or one written
longest ago. -/
structure Placed (c : Call) (table : List DiscoveredId) (i : Nat) (e : DiscoveredId) : Prop where
  old : table[i]? = some e
  other : e.used = true → e.id ≠ c.id →
    ∀ x ∈ table, x.used = true ∧ x.id ≠ c.id ∧ e.lastUpdateTime ≤ x.lastUpdateTime
  free : e.used = false → ∀ k < i, ∀ x, table[k]? = some x → x.used = true ∧ x.id ≠ c.id

variable {c : Call} {calls : List Call} {table : List DiscoveredId}

theorem Handler.discover_eq {h : Handler} (hlen : 2 ≤ c.data.length)
    (hroom : h.discoveredIDs ≠ []) (htime : ∀ x ∈ h.discoveredIDs, x.used = true →
      x.lastUpdateTime < int64Max) :
    ∃ i e e', Placed c h.discoveredIDs i e ∧
      h.discover c = some { h with discoveredIDs := h.discoveredIDs.set i e' } ∧
      e'.id = c.id ∧ e'.used = true ∧ e'.payload = c.payload ∧ e'.lastUpdateTime = c.nowUs ∧
      e'.updateCount = if e.used = true ∧ e.id = c.id then e.updateCount + 1 else 1 := by
  have hscanned := scanned_scan c.id h.discoveredIDs 0 (none, int64Max)
  unfold discover
  generalize scan c.id h.discoveredIDs 0 (none, int64Max) = r at hscanned ⊢
  cases hscanned with
  | @entry j e he hused hid =>
    obtain ⟨e', hstore, hid', hrest⟩ := e.store_eq c hlen (e.updateCount + 1)
    refine ⟨j, e, e', ⟨he, fun _ hne => absurd hid hne, fun hfree => ?_⟩, ?_, hid'.trans hid, ?_⟩
    · rw [hused] at hfree
      cases hfree
    · rw [Nat.zero_add]
      simp [modify, he, hstore]
    · rw [if_pos ⟨hused, hid⟩]
      exact hrest
  | @free j e he hfree hbefore =>
    obtain ⟨e', hstore, hid', hrest⟩ := ({ e with id := c.id } : DiscoveredId).store_eq c hlen 1
    refine ⟨j, e, e', ⟨he, fun hused => ?_, fun _ => hbefore⟩, ?_, hid', ?_⟩
    · rw [hfree] at hused
      cases hused
    · rw [Nat.zero_add]
      simp [modify, he, hstore]
    · rw [if_neg fun h => by rw [hfree] at h; cases h.1]
      exact hrest
  | kept hall =>
    obtain ⟨x, hx⟩ := List.exists_mem_of_ne_nil _ hroom
    obtain ⟨hused, -, hle⟩ := hall x hx
    exact absurd (htime x hx hused) (Nat.not_lt.mpr hle)
  | @oldest j e he hlt hall =>
    obtain ⟨e', hstore, hid', hrest⟩ := ({ e with id := c.id } : DiscoveredId).store_eq c hlen 1
    have hother := hall e (List.mem_of_getElem? he)
    refine ⟨j, e, e', ⟨he, fun _ _ => hall, fun hfree => ?_⟩, ?_, hid', ?_⟩
    · rw [hother.1] at hfree
      cases hfree
    · rw [Nat.zero_add]
      simp [modify, he, hstore]
    · rw [if_neg fun h => hother.2.1 h.2]
      exact hrest

@[simp] theorem Handler.discoveredIDs_count (h : Handler) (c : Call) :
    (h.count c).discoveredIDs = h.discoveredIDs := by
  unfold count
  dsimp only
  split_ifs <;> rfl

@[simp] theorem Handler.rxChecksumMode_count (h : Handler) (c : Call) :
    (h.count c).rxChecksumMode = h.rxChecksumMode := by
  unfold count
  dsimp only
  split_ifs <;> rfl

@[simp] theorem Handler.statistics_count (h : Handler) (c : Call) :
    (h.count c).statistics.framesReceived = h.statistics.framesReceived ∧
      (h.count c).statistics.checksumFallback = h.statistics.checksumFallback := by
  unfold count
  dsimp only
  split_ifs <;> exact ⟨rfl, rfl⟩

/-- A frame with a checksum of one of the modes is put into the table, whichever mode is tried
first. -/
theorem Handler.onData_of_accepts (h : Handler) (hlen : 2 ≤ c.data.length) (hc : c.accepts = true) :
    ∃ h₀ : Handler, h.onData c = h₀.discover c ∧ h₀.discoveredIDs = h.discoveredIDs ∧
      h₀.rxChecksumMode = h.rxChecksumMode := by
  unfold Call.accepts at hc
  simp only [Bool.and_eq_true, decide_eq_true_eq, Bool.or_eq_true] at hc
  unfold onData
  rw [if_neg (by omega)]
  dsimp only
  cases hmode : (h.count c).preferEnhanced c with
  | true =>
    split_ifs with htried halt
    · exact ⟨_, rfl, by simp, by simp⟩
    · exact absurd hc.2 (not_or.mpr ⟨htried, halt⟩)
    · exact ⟨_, rfl, by simp, by simp⟩
  | false =>
    split_ifs with htried halt
    · exact ⟨_, rfl, by simp, by simp⟩
    · exact absurd hc.2 (not_or.mpr ⟨halt, htried⟩)
    · exact ⟨_, rfl, by simp, by simp⟩

/-- Any other frame leaves the table as it is. -/
theorem Handler.onData_of_not_accepts (h : Handler) (hc : c.accepts = false) :
    ∃ h', h.onData c = some h' ∧ h'.discoveredIDs = h.discoveredIDs ∧
      h'.rxChecksumMode = h.rxChecksumMode ∧
      h'.statistics.framesReceived = h.statistics.framesReceived ∧
      h'.statistics.checksumFallback = h.statistics.checksumFallback := by
  unfold onData
  split_ifs with hlen
  · exact ⟨h, rfl, rfl, rfl, rfl, rfl⟩
  · have hne : ∀ enhanced,
        c.data.getLastD 0 ≠ calculateChecksum c.pid c.data.dropLast enhanced := by
      intro enhanced heq
      unfold Call.accepts at hc
      simp only [Bool.and_eq_false_iff, Bool.or_eq_false_iff, decide_eq_false_iff_not] at hc
      rcases hc with hc | ⟨henhanced, hclassic⟩
      · omega
      · cases enhanced with
        | true => exact henhanced heq
        | false => exact hclassic heq
    dsimp only
    rw [if_pos (hne _), if_neg (hne _)]
    exact ⟨_, rfl, by simp, by simp, (h.statistics_count c).1, (h.statistics_count c).2⟩

/-! ## Runs -/

theorem latest_append (calls : List Call) (c : Call) (id : UInt8) :
    latest (calls ++ [c]) id =
      if c.accepts = true ∧ c.id = id then some c else latest calls id := by
  simp only [latest, List.reverse_append, List.reverse_singleton, List.singleton_append,
    List.find?_cons]
  split_ifs with h
  · simp [h]
  · rw [show (c.accepts && decide (c.id = id)) = false by simpa using h]

theorem Recent.lt_int64Max (hr : Recent calls table)
    {x : DiscoveredId} (hx : x ∈ table) (hused : x.used = true) : x.lastUpdateTime < int64Max := by
  obtain ⟨i, hi⟩ := List.mem_iff_getElem?.mp hx
  obtain ⟨c, -, -, htime⟩ := hr.held hi hused
  rw [htime]
  exact c.inTime

theorem Recent.ne_nil (hr : Recent calls table) : table ≠ [] := by
  rintro rfl
  have hlength := hr.length
  rw [List.length_nil, linMaxDiscoveredPids] at hlength
  omega

/-- No other slot is in use for the ID of a frame. -/
theorem Recent.placed_unique
    (hr : Recent calls table) {i k : Nat} {e x : DiscoveredId} (hp : Placed c table i e)
    (hx : table[k]? = some x) (hused : x.used = true) (hid : x.id = c.id) : k = i := by
  cases he : e.used with
  | true =>
    by_cases heid : e.id = c.id
    · exact hr.unique hx hp.old hused he (hid.trans heid.symm)
    · exact absurd hid (hp.other he heid x (List.mem_of_getElem? hx)).2.1
  | false =>
    rcases Nat.lt_trichotomy k i with hlt | heq | hgt
    · exact absurd hid (hp.free he k hlt x hx).2
    · exact heq
    · rw [hr.front hgt.le hp.old hx hused] at he
      cases he

/-- The table behind an accepted frame. -/
theorem Recent.set (hr : Recent calls table) (hc : c.accepts = true) {i : Nat} {e e' : DiscoveredId}
    (hp : Placed c table i e) (hid : e'.id = c.id) (hused : e'.used = true)
    (hpayload : e'.payload = c.payload) (htime : e'.lastUpdateTime = c.nowUs) :
    Recent (calls ++ [c]) (table.set i e') := by
  have hi : i < table.length := (List.getElem?_eq_some_iff.mp hp.old).1
  have hget (k : Nat) {x : DiscoveredId} (h : (table.set i e')[k]? = some x) :
      (k = i ∧ x = e') ∨ (k ≠ i ∧ table[k]? = some x) := by
    rw [List.getElem?_set] at h
    split_ifs at h with hk
    · exact .inl ⟨hk.symm, (Option.some.inj h).symm⟩
    · exact .inr ⟨fun heq => hk heq.symm, h⟩
  constructor
  · rw [List.length_set, hr.length]
  · intro j k x y hjk hx hy hyused
    rcases hget j hx with ⟨rfl, rfl⟩ | ⟨hj, hx'⟩
    · exact hused
    · rcases hget k hy with ⟨rfl, rfl⟩ | ⟨-, hy'⟩
      · cases he : e.used with
        | true => exact hr.front hjk hx' hp.old he
        | false => exact (hp.free he j (by omega) x hx').1
      · exact hr.front hjk hx' hy' hyused
  · intro j k x y hx hy hxused hyused hxy
    rcases hget j hx with ⟨rfl, rfl⟩ | ⟨hj, hx'⟩
    · rcases hget k hy with ⟨rfl, -⟩ | ⟨-, hy'⟩
      · rfl
      · exact (hr.placed_unique hp hy' hyused (hxy.symm.trans hid)).symm
    · rcases hget k hy with ⟨rfl, rfl⟩ | ⟨-, hy'⟩
      · exact hr.placed_unique hp hx' hxused (hxy.trans hid)
      · exact hr.unique hx' hy' hxused hyused hxy
  · intro j x hx hxused
    rcases hget j hx with ⟨rfl, rfl⟩ | ⟨hj, hx'⟩
    · exact ⟨c, by rw [latest_append, if_pos ⟨hc, hid.symm⟩], hpayload, htime⟩
    · obtain ⟨c', hlatest, hrest⟩ := hr.held hx' hxused
      refine ⟨c', ?_, hrest⟩
      rw [latest_append, if_neg, hlatest]
      exact fun h => hj (hr.placed_unique hp hx' hxused h.2.symm)

theorem Recent.onData {h : Handler} (hr : Recent calls h.discoveredIDs)
    (hlen : 2 ≤ c.data.length) : ∃ h', h.onData c = some h' ∧
      Recent (calls ++ [c]) h'.discoveredIDs ∧ Keeps c h h' := by
  cases hc : c.accepts with
  | true =>
    obtain ⟨h₀, hdata, htable, -⟩ := h.onData_of_accepts hlen hc
    rw [← htable] at hr
    obtain ⟨i, e, e', hp, hdiscover, hid, hused, hpayload, htime, -⟩ :=
      Handler.discover_eq hlen hr.ne_nil (fun x hx hx' => hr.lt_int64Max hx hx')
    rw [htable] at hr hp
    have hi : i < h.discoveredIDs.length := (List.getElem?_eq_some_iff.mp hp.old).1
    refine ⟨_, hdata.trans hdiscover, htable ▸ hr.set hc hp hid hused hpayload htime, ?_⟩
    constructor
    · refine fun _ => ⟨i, e', ?_, hused, hid, hpayload, htime⟩
      rw [htable]
      exact List.getElem?_set_self hi
    · refine ⟨i, fun j hj => ?_⟩
      rw [htable]
      exact List.getElem?_set_ne (fun heq => hj heq.symm)
    · intro j x hx hxused
      rw [htable, List.getElem?_set]
      split_ifs with hj
      · subst hj
        rw [hp.old] at hx
        cases hx
        refine ⟨e', rfl, hused, fun hne y hy => ?_⟩
        have hother := hp.other hxused (fun heq => hne (hid.trans heq.symm)) y hy
        exact ⟨hother.1, hother.2.2⟩
      · exact ⟨x, hx, hxused, fun hne => absurd rfl hne⟩
    · intro hfalse
      rw [hc] at hfalse
      cases hfalse
  | false =>
    obtain ⟨h', hdata, htable, hrest⟩ := h.onData_of_not_accepts hc
    refine ⟨h', hdata, ?_, fun haccepts => ?_, ⟨0, fun j _ => by rw [htable]⟩, ?_,
      fun _ => ⟨htable, hrest⟩⟩
    · rw [htable]
      refine ⟨hr.length, hr.front, hr.unique, fun hi hused => ?_⟩
      rw [latest_append, if_neg (by simp [hc])]
      exact hr.held hi hused
    · rw [hc] at haccepts
      cases haccepts
    · intro i e he hused
      exact ⟨e, by rw [htable]; exact he, hused, fun hne => absurd rfl hne⟩

theorem recent_replicate : Recent [] (List.replicate linMaxDiscoveredPids {}) := by
  have hfree {i : Nat} {e : DiscoveredId}
      (h : (List.replicate linMaxDiscoveredPids ({} : DiscoveredId))[i]? = some e) :
      e.used = false := by
    rw [List.eq_of_mem_replicate (List.mem_of_getElem? h)]
    rfl
  constructor
  · exact List.length_replicate
  · intro i j e e' _ _ he' hused
    rw [hfree he'] at hused
    cases hused
  · intro i j e e' he _ hused
    rw [hfree he] at hused
    cases hused
  · intro i e he hused
    rw [hfree he] at hused
    cases hused

/-- From an empty table on, whatever frames come: the table holds the latest frames, and every
further call keeps to it. -/
theorem Handler.recent_run {h : Handler}
    (hempty : h.discoveredIDs = List.replicate linMaxDiscoveredPids {}) {calls : List Call}
    (hcalls : ∀ c ∈ calls, 2 ≤ c.data.length) :
    ∃ h', h.run calls = some h' ∧ Recent calls h'.discoveredIDs ∧
      ∀ c : Call, 2 ≤ c.data.length → ∃ h'', h'.onData c = some h'' ∧ Keeps c h' h'' := by
  have hreached : ∃ h', h.run calls = some h' ∧ Recent calls h'.discoveredIDs := by
    induction calls using List.reverseRecOn with
    | nil => exact ⟨h, rfl, hempty ▸ recent_replicate⟩
    | append_singleton calls c ih =>
      obtain ⟨h₁, hrun, hr⟩ := ih fun c' hc' => hcalls c' (List.mem_append_left _ hc')
      obtain ⟨h₂, hdata, hr₂, -⟩ :=
        hr.onData (hcalls c (List.mem_append_right _ (List.mem_singleton_self c)))
      refine ⟨h₂, ?_, hr₂⟩
      unfold run at hrun ⊢
      rw [List.foldlM_append, hrun]
      simp [hdata]
  obtain ⟨h', hrun, hr⟩ := hreached
  refine ⟨h', hrun, hr, fun c hlen => ?_⟩
  obtain ⟨h'', hdata, -, hkeeps⟩ := hr.onData hlen
  exact ⟨h'', hdata, hkeeps⟩

/-- A frame of ID 2, and one with another checksum. -/
def sampleCalls : List Call :=
  [{ pid := 0x42, data := [0x01, 0xBC], nowUs := 5 }, { pid := 0x03, data := [0x01, 0x00] }]

theorem Handler.recent_run_sample :
    ∃ h', ({} : Handler).run sampleCalls = some h' ∧ Recent sampleCalls h'.discoveredIDs ∧
      ∀ c : Call, 2 ≤ c.data.length → ∃ h'', h'.onData c = some h'' ∧ Keeps c h' h'' := by
  refine Handler.recent_run rfl fun c hc => ?_
  simp only [sampleCalls, List.mem_cons, List.not_mem_nil, or_false] at hc
  rcases hc with rfl | rfl <;> exact le_rfl

/-- The ID of a frame is noted before the checksum is looked at. -/
theorem Handler.rejected_noted :
    ¬∀ (h h' : Handler) (c : Call), 2 ≤ c.data.length → c.accepts = false →
      h.onData c = some h' → h'.statistics.uniqueIdsSeen = h.statistics.uniqueIdsSeen := by
  intro hall
  let c : Call := { pid := 0x03, data := [0x01, 0x00] }
  have hc : c.accepts = false := by decide
  obtain ⟨h', hdata, -⟩ := ({} : Handler).onData_of_not_accepts hc
  have hsame := hall {} h' c le_rfl hc hdata
  have hnoted : (({} : Handler).onData c).map (·.statistics.uniqueIdsSeen) = some 1 := by decide
  rw [hdata, Option.map_some, hsame] at hnoted
  cases hnoted

end EspCars.Linbus
