import EspCars.SdLogger.ClockFloor

/-!
# The clock of a tail window

The boot scan reads the last part of a file only. A line that sets the clock or resets it leaves the
same state whatever was known before, and the lines that a window knows are the last ones of the
file. So what the window finds is what the whole file has.
-/

namespace EspCars.SdLogger

open EspCars.Lib

namespace ClockTailScanner

/-- `feed(data, n)`. -/
def feedData (c : ClockTailScanner) (data : List UInt8) : ClockTailScanner := data.foldl feed c

/-- What `end` gives after the given calls of `feed`. -/
def scan (startsMidFile : Bool) (calls : List (List UInt8)) : Option ClockPoint :=
  (calls.foldl feedData (init startsMidFile)).end_

theorem foldl_feedData (c : ClockTailScanner) (calls : List (List UInt8)) :
    calls.foldl feedData c = calls.flatten.foldl feed c :=
  List.foldl_flatten.symm

/-- An answer depends on the lines only. -/
theorem scan_eq (startsMidFile : Bool) (calls : List (List UInt8)) :
    scan startsMidFile calls =
      let st := (knownLines startsMidFile calls.flatten).foldl clockLine ({}, 0)
      if st.1.valid then some (st.1.restate st.2) else none := by
  rw [scan, foldl_feedData, end_eq]

/-- Once there is a clock, it does not matter what was known before. -/
theorem foldl_clockLine_of_valid {ls : List (List UInt8)}
    (h : (ls.foldl clockLine ({}, 0)).1.valid = true) (st : ClockPoint × UInt64) :
    ls.foldl clockLine st = ls.foldl clockLine ({}, 0) := by
  induction ls using List.reverseRecOn with
  | nil => cases h
  | append_singleton ls line ih =>
    rw [List.foldl_concat] at h
    rw [List.foldl_concat, List.foldl_concat]
    by_cases hheader : isShortHeader line = true
    · rw [clockLine_header _ hheader, clockLine_header _ hheader]
    · rw [Bool.not_eq_true] at hheader
      cases hline : statement line with
      | some p => rw [clockLine_statement _ hline, clockLine_statement _ hline]
      | none =>
        have hbefore : (ls.foldl clockLine ({}, 0)).1.valid = true := by
          rw [clockLine_other _ hheader hline] at h
          cases htimed : timed line with
          | none => simpa only [htimed] using h
          | some t =>
            simp only [htimed] at h
            split_ifs at h <;> exact h
        rw [ih hbefore]

theorem knownLines_suffix (file : List UInt8) (start : Nat) :
    knownLines true (file.drop start) <:+ knownLines false file := by
  have hsuffix : (lines newline (file.drop start)).tail <:+
      (lines newline (file.take start ++ file.drop start)).tail :=
    tail_lines_suffix (file.take start) (file.drop start)
  rw [List.take_append_drop] at hsuffix
  exact hsuffix.trans (List.tail_suffix _)

/-- A window that has a clock has the clock of the file, however either is read. -/
theorem scan_window {file : List UInt8} {start : Nat} {window whole : List (List UInt8)}
    {p : ClockPoint} (hwindow : window.flatten = file.drop start) (hwhole : whole.flatten = file)
    (h : scan true window = some p) : scan false whole = some p := by
  obtain ⟨before, hlines⟩ := knownLines_suffix file start
  rw [scan_eq, hwindow] at h
  dsimp only at h
  split_ifs at h with hvalid
  have hsame := foldl_clockLine_of_valid hvalid (before.foldl clockLine ({}, 0))
  rw [← List.foldl_append, hlines] at hsame
  rw [scan_eq, hwhole]
  dsimp only
  rw [hsame, if_pos hvalid]
  exact h

theorem scan_congr (startsMidFile : Bool) {calls calls' : List (List UInt8)}
    (h : calls.flatten = calls'.flatten) : scan startsMidFile calls = scan startsMidFile calls' := by
  rw [scan_eq, scan_eq, h]

theorem scan_rest (startsMidFile : Bool) {calls calls' : List (List UInt8)} {rest : List UInt8}
    (hrest : newline ∉ rest) (h : calls.flatten = calls'.flatten ++ rest) :
    scan startsMidFile calls = scan startsMidFile calls' := by
  rw [scan_eq, scan_eq, h, knownLines, knownLines, lines_append_of_notMem _ hrest]

/-- The clock is that of the lines: a window finds no other one than the file, the calls of `feed`
do not matter and neither does what follows the last newline. -/
theorem scan_lines :
    (∀ file start window whole p, window.flatten = file.drop start → whole.flatten = file →
      scan true window = some p → scan false whole = some p) ∧
    (∀ startsMidFile calls calls', calls.flatten = calls'.flatten →
      scan startsMidFile calls = scan startsMidFile calls') ∧
    ∀ startsMidFile calls calls' rest, newline ∉ rest → calls.flatten = calls'.flatten ++ rest →
      scan startsMidFile calls = scan startsMidFile calls' :=
  ⟨fun _ _ _ _ _ => scan_window, fun startsMidFile _ _ => scan_congr startsMidFile,
    fun startsMidFile _ _ _ => scan_rest startsMidFile⟩

/-- A window that starts inside the header line, read in two calls, and a rest that is cut off. -/
theorem scan_lines_sample :
    let header := ascii "#sdlog,1\n"
    let statement := ascii "#clock,@10,5F5E100,utc,sync\n"
    let timed := ascii "#drop,@20,ring,1,1\n"
    let found := scan true [ascii "log,1\n" ++ statement, timed]
    found = some { tUs := 32, utcUs := 100000016, basis := .utc, src := .sync } ∧
      scan false [header ++ statement ++ timed] = found ∧
      scan false [header ++ statement ++ timed ++ ascii "C0,"] = found := by
  intro header statement timed found
  have hfound : found = some { tUs := 32, utcUs := 100000016, basis := .utc, src := .sync } := by
    decide
  have hwhole : scan false [header ++ statement ++ timed] = found := by
    rw [hfound]
    refine scan_lines.1 (header ++ statement ++ timed) 3 _ _ _ ?_ ?_ hfound
    · decide
    · decide
  refine ⟨hfound, hwhole, ?_⟩
  rw [← hwhole]
  refine scan_lines.2.2 false _ _ (ascii "C0,") ?_ ?_
  · decide
  · decide

end ClockTailScanner

end EspCars.SdLogger
