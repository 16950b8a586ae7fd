import EspCars.SdLogger.TailLines

/-!
# Sealing survives a crash

A boot reads the last `window` bytes of a file, and the window moves with the length of the file.
After a failed seal the file ends in a prefix of the appended line. The next boot still knows the
last complete line if that line and the longest prefix fit in its window, and then it cuts where the
first one cut. It takes its stamp from its own window, though: the same one where both windows hold
the file from its start, not always else.
-/

namespace EspCars.SdLogger

open EspCars.Lib TornTailScanner

/-! ## The scan of a file by its last line -/

section Scan

variable {front line rest : List UInt8} (window : Nat)

/-- The start of the last complete line is inside the window. -/
def Knows (front line rest : List UInt8) : Prop :=
  (front ++ (line ++ newline :: rest)).length ≤ window ∨ line.length + rest.length + 2 ≤ window

theorem scan_knows (hfront : unfinished newline front = []) (hline : newline ∉ line)
    (hrest : newline ∉ rest) (h : Knows window front line rest) :
    let s := scanTail window (front ++ (line ++ newline :: rest))
    s.kind = (if isClose line then .closed else .torn) ∧ s.cutAt = front.length + line.length + 1 := by
  have hlen : (front ++ (line ++ newline :: rest)).length =
      front.length + (line.length + (rest.length + 1)) := by
    rw [List.length_append, List.length_append, List.length_cons]
  intro s
  by_cases hwhole : (front ++ (line ++ newline :: rest)).length ≤ window
  · have hstart : (front ++ (line ++ newline :: rest)).length - window = 0 :=
      Nat.sub_eq_zero_of_le hwhole
    obtain ⟨hkind, hcut⟩ := scan_of_last 0 hfront hline hrest
    have hs : s = (front ++ (line ++ newline :: rest)).foldl feed
        (init 0) := by
      change scanTail _ _ = _
      rw [scanTail, hstart, List.drop_zero]
    rw [hs, hkind, hcut]
    simp
  · have hfit : line.length + rest.length + 2 ≤ window := h.resolve_left hwhole
    generalize hstart : (front ++ (line ++ newline :: rest)).length - window = start
    have hlt : start < front.length := by omega
    obtain ⟨hkind, hcut⟩ :=
      scan_of_last start (complete_drop hfront start) hline hrest
    have hs : s = (front.drop start ++ (line ++ newline :: rest)).foldl feed
        (init start) := by
      change scanTail _ _ = _
      rw [scanTail, hstart, List.drop_append_of_le_length (Nat.le_of_lt hlt)]
    have hlines : ¬ (start > 0 ∧ lines newline (front.drop start) = []) :=
      fun hnone => lines_drop_ne_nil hfront hlt hnone.2
    rw [hs, hkind, hcut, if_neg hlines, List.length_drop]
    exact ⟨rfl, by omega⟩

/-- Where the last line's start is outside, nothing is decided. -/
theorem scan_not_knows (hline : newline ∉ line) (hrest : newline ∉ rest)
    (h : ¬ Knows window front line rest) :
    (scanTail window (front ++ (line ++ newline :: rest))).kind = .noCut := by
  obtain ⟨hwhole, hfit⟩ := not_or.mp h
  have hlen : (front ++ (line ++ newline :: rest)).length =
      front.length + (line.length + (rest.length + 1)) := by
    rw [List.length_append, List.length_append, List.length_cons]
  generalize hstart : (front ++ (line ++ newline :: rest)).length - window = start
  have hpos : start ≠ 0 := by omega
  rw [scanTail, hstart]
  have hdrop : (front ++ (line ++ newline :: rest)).drop start =
      (line ++ newline :: rest).drop (start - front.length) := by
    rw [List.drop_append, List.drop_of_length_le (by omega), List.nil_append]
  by_cases hin : start - front.length ≤ line.length
  · have hline' : newline ∉ line.drop (start - front.length) :=
      fun hmem => hline (List.mem_of_mem_drop hmem)
    have hkind := (scan_of_last start
      (unfinished_of_notMem (List.not_mem_nil (a := newline))) hline' hrest).1
    rw [hdrop, List.drop_append_of_le_length hin]
    exact hkind.trans (if_pos ⟨Nat.pos_of_ne_zero hpos, lines_of_notMem List.not_mem_nil⟩)
  · have hfree : newline ∉ (line ++ newline :: rest).drop (start - front.length) := by
      rw [List.drop_append, List.drop_of_length_le (by omega), List.nil_append]
      obtain ⟨n, hn⟩ := Nat.exists_eq_succ_of_ne_zero
        (show start - front.length - line.length ≠ 0 by omega)
      rw [hn, List.drop_succ_cons]
      exact fun hmem => hrest (List.mem_of_mem_drop hmem)
    rw [hdrop, (scan_unfinished start hfree).1, if_neg hpos]

end Scan

variable {window : Nat} {line rest file kept : List UInt8}

/-- A short last line, and the appended line after it. -/
theorem knows_of_short {front : List UInt8} (hline : line.length + 36 ≤ window)
    (hrest : rest.length ≤ 34) : Knows window front line rest := Or.inr (by omega)

theorem not_torn_of_closed (window : Nat)
    (hlast : (lines newline file).getLast? = some line) (hclose : isClose line) :
    (scanTail window file).kind ≠ .torn := by
  have hne : lines newline file ≠ [] := by
    intro hnil
    rw [hnil] at hlast
    cases hlast
  obtain ⟨front, line', rest, rfl, hfront, hline, hrest, hlines⟩ := exists_last_line hne
  rw [hlines, List.getLast?_concat, Option.some.injEq] at hlast
  subst hlast
  by_cases hknows : Knows window front line' rest
  · rw [(scan_knows window hfront hline hrest hknows).1, if_pos hclose]
    exact TailKind.noConfusion
  · rw [scan_not_knows window hline hrest hknows]
    exact TailKind.noConfusion

/-- A torn file is its complete lines and a rest. Any short rest leaves it torn at the same place. -/
theorem exists_kept (hwindow : 36 ≤ window)
    (hlines : ∀ line ∈ lines newline file, line.length + 36 ≤ window)
    (htorn : (scanTail window file).kind = .torn) :
    ∃ kept rest, file = kept ++ rest ∧ unfinished newline kept = [] ∧ newline ∉ rest ∧
      (scanTail window file).cutAt = kept.length ∧
      ∀ rest', newline ∉ rest' → rest'.length ≤ 34 →
        (scanTail window (kept ++ rest')).kind = .torn ∧
        (scanTail window (kept ++ rest')).cutAt = kept.length := by
  by_cases hnone : lines newline file = []
  · have hfree : newline ∉ file := notMem_of_lines_nil hnone
    have hscan : ∀ rest : List UInt8, newline ∉ rest → rest.length ≤ window →
        (scanTail window rest).kind = .torn ∧ (scanTail window rest).cutAt = 0 := by
      intro rest hrest hlen
      have hstart : rest.length - window = 0 := Nat.sub_eq_zero_of_le hlen
      rw [scanTail, hstart, List.drop_zero]
      exact scan_unfinished 0 hrest
    have hcut : (scanTail window file).cutAt = 0 := by
      have hfree' : newline ∉ file.drop (file.length - window) :=
        fun hmem => hfree (List.mem_of_mem_drop hmem)
      rw [scanTail]
      exact (scan_unfinished _ hfree').2
    refine ⟨[], file, rfl, rfl, hfree, hcut, ?_⟩
    intro rest' hrest' hlen
    exact hscan rest' hrest' (by omega)
  · obtain ⟨front, line, rest, rfl, hfront, hline, hrest, heq⟩ := exists_last_line hnone
    have hshort : line.length + 36 ≤ window := hlines line (by rw [heq]; simp)
    have hknows : Knows window front line rest := by
      by_contra hnot
      rw [scan_not_knows window hline hrest hnot] at htorn
      cases htorn
    obtain ⟨hkind, hcut⟩ := scan_knows window hfront hline hrest hknows
    have hopen : isClose line = false := by
      rw [hkind] at htorn
      split_ifs at htorn with hclose
      simpa using hclose
    refine ⟨front ++ (line ++ [newline]), rest, by simp, (lines_concat hfront hline).2, hrest, ?_, ?_⟩
    · rw [hcut, List.length_append, List.length_append, List.length_singleton, Nat.add_assoc]
    · intro rest' hrest' hlen
      obtain ⟨hkind', hcut'⟩ := scan_knows window hfront hline hrest' (knows_of_short hshort hlen)
      have hassoc : front ++ (line ++ [newline]) ++ rest' = front ++ (line ++ newline :: rest') := by
        simp
      rw [hassoc, hkind', hcut', hopen, List.length_append, List.length_append,
        List.length_singleton, ← Nat.add_assoc]
      exact ⟨rfl, rfl⟩

/-! ## What a boot leaves behind -/

section Boot

variable {window : Nat} {file kept rest : List UInt8}

/-- What any seal leaves: the file as it was, or what is kept and the start of the line. -/
theorem boot_left (io : SealIo) (htorn : (scanTail window (kept ++ rest)).kind = .torn)
    (hcut : (scanTail window (kept ++ rest)).cutAt = kept.length) :
    (boot io window (kept ++ rest)).2 = kept ++ rest ∨
    ∃ n, (boot io window (kept ++ rest)).2 =
      kept ++ (closeLine (scanTail window (kept ++ rest)).stamp).take n := by
  rw [boot, sealTornTail, htorn]
  dsimp only
  rw [formatRecoveredClose_eq, hcut, List.take_left, ← closeLine]
  split_ifs
  · exact Or.inl rfl
  · exact Or.inr ⟨0, by simp⟩
  · exact Or.inl rfl
  · exact Or.inr ⟨io.written, rfl⟩
  · exact Or.inr ⟨_, by rw [List.take_length]⟩
  · exact Or.inr ⟨_, by rw [List.take_length]⟩

theorem boot_sealed {io : SealIo} (htorn : (scanTail window (kept ++ rest)).kind = .torn)
    (hcut : (scanTail window (kept ++ rest)).cutAt = kept.length)
    (h : (boot io window (kept ++ rest)).1 = .sealed) :
    (boot io window (kept ++ rest)).2 =
      kept ++ closeLine (scanTail window (kept ++ rest)).stamp := by
  revert h
  rw [boot, sealTornTail, htorn]
  dsimp only
  rw [formatRecoveredClose_eq, hcut, List.take_left, ← closeLine]
  split_ifs <;> simp

theorem scan_sealed (hkept : unfinished newline kept = []) (hwindow : 36 ≤ window) (t : UInt64) :
    (scanTail window (kept ++ closeLine t)).kind = .closed ∧
    (scanTail window (kept ++ closeLine t)).cutAt = (kept ++ closeLine t).length := by
  have hbody := length_closeBody_le t
  obtain ⟨hkind, hcut⟩ := scan_knows window hkept (newline_notMem_closeBody t)
    List.not_mem_nil (Or.inr (by rw [List.length_nil]; omega))
  rw [isClose_closeBody, if_pos rfl] at hkind
  refine ⟨hkind, hcut.trans ?_⟩
  rw [closeLine, List.length_append, List.length_append, List.length_singleton, Nat.add_assoc]

/-- A window that holds the file from its start finds the stamp of all its lines. -/
theorem stamp_of_whole (hkept : unfinished newline kept = []) (hrest : newline ∉ rest)
    (hwhole : (kept ++ rest).length ≤ window) :
    (scanTail window (kept ++ rest)).stamp =
      (lines newline kept).foldl tornLine 0 := by
  have hstart : (kept ++ rest).length - window = 0 := Nat.sub_eq_zero_of_le hwhole
  rw [scanTail, hstart, List.drop_zero, stamp_eq, knownLines,
    if_neg (by decide), (lines_append_of_complete hkept _).1, lines_of_notMem hrest, List.append_nil]

end Boot

/-- The file that ends in its close line. -/
def Closed (window : Nat) (file : List UInt8) : Prop :=
  (scanTail window file).kind = .closed ∧ (scanTail window file).cutAt = file.length

/-- The file `left` is the sealed one, or it is torn and the next boot can seal it: to the same
file where the two scans find one stamp. -/
def Resumes (window : Nat) (file left : List UInt8) : Prop :=
  (Closed window left ∧ left = sealedFile window file) ∨
  ((scanTail window left).kind = .torn ∧ (boot .working window left).1 = .sealed ∧
    Closed window (sealedFile window left) ∧
    (sealedFile window left = sealedFile window file ↔
      (scanTail window left).stamp = (scanTail window file).stamp) ∧
    (file.length ≤ window → left.length ≤ window →
      sealedFile window left = sealedFile window file))

/-- Two torn rests of the same complete lines are sealed alike where their scans find one stamp. -/
theorem sealedFile_eq_iff {rest' : List UInt8}
    (htorn : (scanTail window (kept ++ rest)).kind = .torn)
    (hcut : (scanTail window (kept ++ rest)).cutAt = kept.length)
    (htorn' : (scanTail window (kept ++ rest')).kind = .torn)
    (hcut' : (scanTail window (kept ++ rest')).cutAt = kept.length) :
    sealedFile window (kept ++ rest') = sealedFile window (kept ++ rest) ↔
      (scanTail window (kept ++ rest')).stamp = (scanTail window (kept ++ rest)).stamp := by
  rw [sealedFile, sealedFile, boot_working htorn hcut, boot_working htorn' hcut']
  constructor
  · intro h
    exact closeLine_inj (List.append_cancel_left h)
  · intro h
    rw [h]

/-- Complete lines with a rest that leaves them torn: the next boot resumes. -/
theorem resumes_of_torn {rest' : List UInt8} (hwindow : 36 ≤ window)
    (hkept : unfinished newline kept = []) (hrest : newline ∉ rest) (hrest' : newline ∉ rest')
    (htorn : (scanTail window (kept ++ rest)).kind = .torn)
    (hcut : (scanTail window (kept ++ rest)).cutAt = kept.length)
    (htorn' : (scanTail window (kept ++ rest')).kind = .torn)
    (hcut' : (scanTail window (kept ++ rest')).cutAt = kept.length) :
    Resumes window (kept ++ rest) (kept ++ rest') := by
  have hsame := sealedFile_eq_iff htorn hcut htorn' hcut'
  refine Or.inr ⟨htorn', ?_, ?_, hsame, ?_⟩
  · rw [boot_working htorn' hcut']
  · rw [Closed, sealedFile, boot_working htorn' hcut']
    exact scan_sealed hkept hwindow _
  · intro hlen hlen'
    rw [hsame, stamp_of_whole hkept hrest hlen, stamp_of_whole hkept hrest' hlen']

theorem resumes_boot (hwindow : 36 ≤ window)
    (hlines : ∀ line ∈ lines newline file, line.length + 36 ≤ window)
    (htorn : (scanTail window file).kind = .torn) (io : SealIo) :
    Resumes window file (boot io window file).2 := by
  obtain ⟨kept, rest, rfl, hkept, hrest, hcut, hshort⟩ := exists_kept hwindow hlines htorn
  rcases boot_left io htorn hcut with hleft | ⟨n, hleft⟩
  · rw [hleft]
    exact resumes_of_torn hwindow hkept hrest hrest htorn hcut htorn hcut
  · rw [hleft]
    generalize ht : (scanTail window (kept ++ rest)).stamp = t
    by_cases hall : (closeLine t).length ≤ n
    · rw [List.take_of_length_le hall]
      refine Or.inl ⟨scan_sealed hkept hwindow t, ?_⟩
      rw [sealedFile, boot_working htorn hcut, ht]
    · have hbody : n ≤ (closeBody t).length := by
        rw [closeLine, List.length_append, List.length_singleton] at hall
        omega
      have hfree : newline ∉ (closeBody t).take n :=
        fun hmem => newline_notMem_closeBody t (List.mem_of_mem_take hmem)
      have hlen : ((closeBody t).take n).length ≤ 34 :=
        Nat.le_trans (List.length_take_le' ..) (length_closeBody_le t)
      obtain ⟨htorn', hcut'⟩ := hshort _ hfree hlen
      rw [closeLine, List.take_append_of_le_length hbody]
      exact resumes_of_torn hwindow hkept hrest hfree htorn hcut htorn' hcut'

/-- A torn file whose lines fit with room for the appended line is closed by the first seal that
succeeds, whatever an interrupted one left behind, and a closed file is never written. -/
theorem seal_survives_crash (window : Nat) (file : List UInt8) (io : SealIo) :
    (36 ≤ window → (∀ line ∈ lines newline file, line.length + 36 ≤ window) →
      (scanTail window file).kind = .torn →
      ((boot io window file).1 = .sealed → Closed window (boot io window file).2) ∧
      Resumes window file (boot io window file).2) ∧
    ∀ line, (lines newline file).getLast? = some line → isClose line →
      (boot io window file).2 = file := by
  constructor
  · intro hwindow hlines htorn
    refine ⟨?_, resumes_boot hwindow hlines htorn io⟩
    obtain ⟨kept, rest, rfl, hkept, _, hcut, _⟩ := exists_kept hwindow hlines htorn
    intro hsealed
    rw [boot_sealed htorn hcut hsealed]
    exact scan_sealed hkept hwindow _
  · intro line hlast hclose
    have hkind := not_torn_of_closed window hlast hclose
    rw [boot, sealTornTail]
    cases h : (scanTail window file).kind with
    | torn => exact absurd h hkind
    | closed | noCut | readErr => rfl

/-- A short write of the appended line, and a file that was closed. -/
theorem seal_survives_crash_sample :
    let io : SealIo := ⟨true, true, true, 3, true⟩
    let torn := ascii "C\nX"
    let closed := ascii "#close,@1,power\nX"
    (scanTail 64 torn).kind = .torn ∧ Resumes 64 torn (boot io 64 torn).2 ∧
      (boot io 64 closed).2 = closed := by
  intro io torn closed
  have htorn : (scanTail 64 torn).kind = .torn := by decide
  have hlines : ∀ line ∈ lines newline torn, line.length + 36 ≤ 64 := by decide
  refine ⟨htorn, ?_, ?_⟩
  · exact ((seal_survives_crash 64 torn io).1 (by decide) hlines htorn).2
  · exact (seal_survives_crash 64 closed io).2 (ascii "#close,@1,power") (by decide) (by decide)

/-! ## Files that do not resume -/

theorem isClose_of_not_meta (h : isMeta line = false) : isClose line = false := by
  rw [isClose, decide_eq_false_iff_not]
  rintro ⟨rest, rfl⟩
  cases h

/-- A last line as long as the window allows, and one byte of the appended line. -/
theorem long_line (hline : newline ∉ line) (hopen : isMeta line = false) :
    (scanTail (line.length + 2) ([67, newline] ++ (line ++ [newline]))).kind = .torn ∧
    (scanTail (line.length + 2) (boot ⟨true, true, true, 1, true⟩ (line.length + 2)
      ([67, newline] ++ (line ++ [newline]))).2).kind = .noCut := by
  have hfront : unfinished newline [67, newline] = [] := by decide
  have hnot : isClose line = false := isClose_of_not_meta hopen
  obtain ⟨hkind, hcut⟩ := scan_knows (line.length + 2) hfront hline List.not_mem_nil
    (Or.inr (Nat.le_refl _))
  rw [hnot] at hkind
  refine ⟨hkind, ?_⟩
  have htake : ∀ t, (closeLine t).take 1 = [35] := fun t => rfl
  have hwritten : ∀ t, 1 < (closeLine t).length := by
    intro t
    rw [closeLine, closeBody, List.append_assoc, List.length_append]
    exact Nat.lt_of_lt_of_le (by decide) (Nat.le_add_right 7 _)
  have hwhole : ([67, newline] ++ (line ++ [newline])).take (2 + line.length + 1) =
      [67, newline] ++ (line ++ [newline]) := by
    apply List.take_of_length_le
    rw [List.length_append, List.length_append, List.length_singleton]
    exact Nat.le_of_eq (Nat.add_assoc ..).symm
  have hleft : (boot ⟨true, true, true, 1, true⟩ (line.length + 2)
      ([67, newline] ++ (line ++ [newline]))).2 = [67, newline] ++ (line ++ newline :: [35]) := by
    rw [boot, sealTornTail, hkind]
    simp only [Bool.false_eq_true, if_false, Bool.not_true]
    rw [formatRecoveredClose_eq, ← closeLine, if_pos (hwritten _), hcut, htake]
    change List.take (2 + line.length + 1) _ ++ _ = _
    rw [hwhole]
    simp
  rw [hleft]
  apply scan_not_knows (line.length + 2) hline (by decide)
  rintro (hlen | hlen)
  · rw [List.length_append, List.length_append, List.length_cons] at hlen
    simp only [List.length_cons, List.length_nil] at hlen
    omega
  · simp only [List.length_cons, List.length_nil] at hlen
    omega

/-- A stamp just before the window of the torn file, and inside it once the torn bytes are cut. -/
theorem moved_stamp {first : List UInt8} (hfirst : newline ∉ first) (hline : newline ∉ line)
    (hmeta : isMeta line = false) (hstamp : tornLine 0 first ≠ 0)
    (hkept : kept = first ++ newline :: (line ++ [newline]) ++ (line ++ [newline])) :
    (scanTail kept.length (kept ++ [67])).kind = .torn ∧
    (boot ⟨true, true, true, 0, true⟩ kept.length (kept ++ [67])).2 = kept ∧
    sealedFile kept.length kept ≠ sealedFile kept.length (kept ++ [67]) := by
  have hfront : unfinished newline (first ++ newline :: (line ++ [newline])) = [] := by
    rw [unfinished_append hfirst, unfinished_append hline]
    rfl
  have hcomplete : unfinished newline kept = [] := by
    rw [hkept, (lines_append_of_complete hfront _).2, unfinished_append hline]
    rfl
  have hlines : lines newline kept = [first, line, line] := by
    rw [hkept, (lines_append_of_complete hfront _).1, lines_append hfirst, lines_append hline]
    rfl
  have hnot : isClose line = false := isClose_of_not_meta hmeta
  obtain ⟨c, first', rfl⟩ : ∃ c first', first = c :: first' := by
    cases first with
    | nil => exact absurd rfl hstamp
    | cons c first' => exact ⟨c, first', rfl⟩
  have hlen : kept.length = first'.length + 2 + (line.length + 1) + (line.length + 1) := by
    rw [hkept]
    simp only [List.length_append, List.length_cons, List.length_nil]
    omega
  have hscan : ∀ rest : List UInt8, newline ∉ rest → rest.length ≤ 1 →
      (scanTail kept.length (kept ++ rest)).kind = .torn ∧
      (scanTail kept.length (kept ++ rest)).cutAt = kept.length := by
    intro rest hrest hshort
    obtain ⟨hkind, hcut⟩ := scan_knows kept.length hfront hline hrest (Or.inr (by omega))
    have hassoc : c :: first' ++ newline :: (line ++ [newline]) ++ (line ++ newline :: rest) =
        kept ++ rest := by
      rw [hkept]
      simp
    rw [hassoc, hnot] at hkind
    rw [hassoc] at hcut
    refine ⟨hkind, hcut.trans ?_⟩
    simp only [hlen, List.length_append, List.length_cons, List.length_nil]
    omega
  obtain ⟨htorn, hcut⟩ := hscan [67] (by decide) (Nat.le_refl 1)
  obtain ⟨htorn', hcut'⟩ := hscan [] List.not_mem_nil (Nat.zero_le 1)
  refine ⟨htorn, ?_, ?_⟩
  · have hwritten : ∀ t, 0 < (closeLine t).length := by
      intro t
      rw [closeLine, List.length_append]
      exact Nat.lt_of_lt_of_le Nat.zero_lt_one (Nat.le_add_left ..)
    rw [boot, sealTornTail, htorn]
    simp only [Bool.false_eq_true, if_false, Bool.not_true]
    rw [formatRecoveredClose_eq, ← closeLine, if_pos (hwritten _), hcut, List.take_left]
    simp
  · have hsame := sealedFile_eq_iff htorn hcut htorn' hcut'
    have hbefore : (scanTail kept.length (kept ++ [67])).stamp = 0 := by
      have hstart : (kept ++ [67]).length - kept.length = 1 := by simp
      have hdrop : (kept ++ [67]).drop 1 =
          first' ++ newline :: (line ++ newline :: (line ++ newline :: [67])) := by
        rw [hkept]
        simp
      have hfirst' : newline ∉ first' := fun hmem => hfirst (List.mem_cons_of_mem _ hmem)
      rw [scanTail, hstart, hdrop, stamp_eq, knownLines, if_pos (by decide),
        lines_append hfirst', lines_append hline, lines_append hline]
      change [line, line].foldl _ _ = _
      rw [List.foldl_cons, List.foldl_cons, List.foldl_nil,
        tornLine_of_not_meta _ hmeta, tornLine_of_not_meta _ hmeta]
    have hafter : (scanTail kept.length (kept ++ [])).stamp =
        tornLine 0 (c :: first') := by
      rw [stamp_of_whole hcomplete List.not_mem_nil (by simp), hlines, List.foldl_cons,
        List.foldl_cons, List.foldl_cons, List.foldl_nil,
        tornLine_of_not_meta _ hmeta, tornLine_of_not_meta _ hmeta]
    rw [hbefore, hafter, List.append_nil] at hsame
    exact fun heq => hstamp (hsame.mp heq)

/-- A stream line of `n` bytes. -/
def plain (n : Nat) : List UInt8 := List.replicate n 67

theorem newline_notMem_plain (n : Nat) : newline ∉ plain n := by
  intro hmem
  exact absurd (List.eq_of_mem_replicate hmem) (by decide)

theorem isMeta_plain (n : Nat) : isMeta (plain n) = false := by
  cases n <;> rfl

theorem length_plain (n : Nat) : (plain n).length = n := List.length_replicate

def longLineFile : List UInt8 := [67, newline] ++ (plain 65534 ++ [newline])

def movedStampFile : List UInt8 :=
  ascii "#gap,@5,1,1,1,1" ++ newline :: (plain 32759 ++ [newline]) ++ (plain 32759 ++ [newline]) ++ [67]

/-- Two files of lines shorter than the window that a second boot does not seal as the first one
would have: not at all, and with another stamp. -/
theorem seal_not_resumed :
    ((∀ line ∈ lines newline longLineFile, line.length < tailWindow) ∧
      (scanTail tailWindow longLineFile).kind = .torn ∧
      (scanTail tailWindow (boot ⟨true, true, true, 1, true⟩ tailWindow longLineFile).2).kind =
        .noCut) ∧
    (∀ line ∈ lines newline movedStampFile, line.length < tailWindow) ∧
    (scanTail tailWindow movedStampFile).kind = .torn ∧
    sealedFile tailWindow (boot ⟨true, true, true, 0, true⟩ tailWindow movedStampFile).2 ≠
      sealedFile tailWindow movedStampFile := by
  constructor
  · have hlines : lines newline longLineFile = [[67], plain 65534] := by
      rw [longLineFile, (lines_append_of_complete (by decide) _).1,
        lines_append (newline_notMem_plain _)]
      rfl
    have hlong := long_line (newline_notMem_plain 65534) (isMeta_plain 65534)
    have hwindow : (plain 65534).length + 2 = tailWindow := by rw [length_plain, tailWindow]
    rw [hwindow] at hlong
    rw [hlines, longLineFile]
    refine ⟨?_, hlong⟩
    simp [length_plain, tailWindow]
  · have hfirst : newline ∉ ascii "#gap,@5,1,1,1,1" := by decide
    have hstamp : TornTailScanner.tornLine 0 (ascii "#gap,@5,1,1,1,1") ≠ 0 := by decide
    have hfront : unfinished newline
        (ascii "#gap,@5,1,1,1,1" ++ newline :: (plain 32759 ++ [newline])) = [] := by
      rw [unfinished_append hfirst, unfinished_append (newline_notMem_plain _)]
      rfl
    have hlines : lines newline movedStampFile =
        [ascii "#gap,@5,1,1,1,1", plain 32759, plain 32759] := by
      rw [movedStampFile, List.append_assoc, (lines_append_of_complete hfront _).1,
        lines_append hfirst, lines_append (newline_notMem_plain _), List.append_assoc,
        List.singleton_append, lines_append (newline_notMem_plain _)]
      rfl
    obtain ⟨htorn, hleft, hother⟩ :=
      moved_stamp hfirst (newline_notMem_plain 32759) (isMeta_plain 32759) hstamp rfl
    have hlength : ∀ n, (ascii "#gap,@5,1,1,1,1" ++ newline :: (plain n ++ [newline]) ++
        (plain n ++ [newline])).length = 2 * n + 18 := by
      intro n
      have hgap : (ascii "#gap,@5,1,1,1,1").length = 15 := by decide
      simp only [List.length_append, List.length_cons, List.length_nil, length_plain, hgap]
      omega
    have hwindow : 2 * 32759 + 18 = tailWindow := by rw [tailWindow]
    rw [hlength, hwindow] at htorn hleft hother
    rw [hlines, movedStampFile, hleft]
    refine ⟨?_, htorn, hother⟩
    simp [length_plain, tailWindow, ascii]

end EspCars.SdLogger
