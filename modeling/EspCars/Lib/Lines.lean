import Mathlib

/-!
# Lines

A text is its complete lines, each ended by a separator, and what follows the last separator.
Reading a text line by line from its start is induction over these lines.
-/

namespace EspCars.Lib

variable {α : Type} [DecidableEq α] (sep : α)

/-- The complete lines of a text, and its rest. -/
def splitLines : List α → List (List α) × List α
  | [] => ([], [])
  | c :: text =>
    match splitLines text with
    | (lines, rest) =>
      if c = sep then ([] :: lines, rest)
      else
        match lines with
        | [] => ([], c :: rest)
        | line :: lines => ((c :: line) :: lines, rest)

/-- The complete lines. -/
def lines (text : List α) : List (List α) := (splitLines sep text).1

def unfinished (text : List α) : List α := (splitLines sep text).2

variable {sep}

variable {text line : List α} {c : α} {fs : List (List α)}

theorem splitLines_of_notMem (h : sep ∉ text) : splitLines sep text = ([], text) := by
  induction text with
  | nil => rfl
  | cons c text ih =>
    obtain ⟨hc, ht⟩ := not_or.mp (List.mem_cons.not.mp h)
    rw [splitLines, ih ht]
    exact if_neg (Ne.symm hc)

theorem splitLines_append (h : sep ∉ line) (text : List α) :
    splitLines sep (line ++ sep :: text) = (line :: lines sep text, unfinished sep text) := by
  induction line with
  | nil =>
    rw [List.nil_append, splitLines]
    exact if_pos rfl
  | cons c line ih =>
    obtain ⟨hc, hl⟩ := not_or.mp (List.mem_cons.not.mp h)
    rw [List.cons_append, splitLines, ih hl]
    exact if_neg (Ne.symm hc)

theorem lines_of_notMem (h : sep ∉ text) : lines sep text = [] := by
  rw [lines, splitLines_of_notMem h]

theorem unfinished_of_notMem (h : sep ∉ text) : unfinished sep text = text := by
  rw [unfinished, splitLines_of_notMem h]

theorem lines_append (h : sep ∉ line) (text : List α) :
    lines sep (line ++ sep :: text) = line :: lines sep text := by
  rw [lines, splitLines_append h]

theorem unfinished_append (h : sep ∉ line) (text : List α) :
    unfinished sep (line ++ sep :: text) = unfinished sep text := by
  rw [unfinished, splitLines_append h]

/-- A text has a first line or none. -/
theorem text_cases (sep : α) (text : List α) :
    sep ∉ text ∨ ∃ line rest, sep ∉ line ∧ text = line ++ sep :: rest := by
  induction text with
  | nil => exact Or.inl List.not_mem_nil
  | cons c text ih =>
    by_cases hc : c = sep
    · subst hc
      exact Or.inr ⟨[], text, List.not_mem_nil, rfl⟩
    · rcases ih with hfree | ⟨line, rest, hline, rfl⟩
      · left
        rw [List.mem_cons]
        exact not_or.mpr ⟨Ne.symm hc, hfree⟩
      · refine Or.inr ⟨c :: line, rest, ?_, rfl⟩
        rw [List.mem_cons]
        exact not_or.mpr ⟨Ne.symm hc, hline⟩

/-- Induction over the lines of a text. -/
theorem text_induction (sep : α) {P : List α → Prop} (hrest : ∀ rest, sep ∉ rest → P rest)
    (hline : ∀ line text, sep ∉ line → P text → P (line ++ sep :: text)) (text : List α) :
    P text := by
  generalize hn : text.length = n
  induction n using Nat.strongRecOn generalizing text with
  | ind n ih =>
    rcases text_cases sep text with hfree | ⟨line, rest, hfree, rfl⟩
    · exact hrest text hfree
    · refine hline line rest hfree (ih rest.length ?_ rest rfl)
      rw [← hn, List.length_append, List.length_cons]
      omega

/-- Complete lines come first. -/
theorem lines_append_of_complete {a : List α} (h : unfinished sep a = []) (b : List α) :
    lines sep (a ++ b) = lines sep a ++ lines sep b ∧
      unfinished sep (a ++ b) = unfinished sep b := by
  induction a using text_induction sep with
  | hrest rest hfree =>
    rw [unfinished_of_notMem hfree] at h
    subst h
    rw [lines_of_notMem hfree]
    exact ⟨rfl, rfl⟩
  | hline line text hfree ih =>
    rw [unfinished_append hfree] at h
    obtain ⟨hlines, hrest⟩ := ih h
    rw [List.append_assoc, List.cons_append, lines_append hfree, unfinished_append hfree,
      lines_append hfree, hlines]
    exact ⟨rfl, hrest⟩

/-- One line more. -/
theorem lines_concat {a : List α} (h : unfinished sep a = []) (hline : sep ∉ line) :
    lines sep (a ++ (line ++ [sep])) = lines sep a ++ [line] ∧
      unfinished sep (a ++ (line ++ [sep])) = [] := by
  obtain ⟨hlines, hrest⟩ := lines_append_of_complete h (line ++ [sep])
  rw [lines_append hline] at hlines
  rw [unfinished_append hline] at hrest
  exact ⟨hlines, hrest⟩

theorem unfinished_concat (a : List α) : unfinished sep (a ++ [sep]) = [] := by
  induction a using text_induction sep with
  | hrest rest hfree => rw [unfinished_append hfree]; rfl
  | hline line text hfree ih => rw [List.append_assoc, List.cons_append, unfinished_append hfree, ih]

/-- One byte more in front of a text with a complete line. -/
theorem lines_cons (hc : c ≠ sep) {more : List (List α)}
    (h : lines sep text = line :: more) : lines sep (c :: text) = (c :: line) :: more := by
  unfold lines at h ⊢
  rw [splitLines]
  dsimp only
  rw [if_neg hc, h]

theorem notMem_of_lines_nil (h : lines sep text = []) : sep ∉ text := by
  rcases text_cases sep text with hfree | ⟨line, rest, hfree, rfl⟩
  · exact hfree
  · rw [lines_append hfree] at h
    cases h

theorem complete_of_cons (h : unfinished sep (c :: text) = []) : unfinished sep text = [] := by
  rw [unfinished, splitLines] at h
  dsimp only at h
  split_ifs at h
  · exact h
  · cases hlines : (splitLines sep text).1 with
    | nil =>
      rw [hlines] at h
      cases h
    | cons line ls =>
      rw [hlines] at h
      exact h

/-- The end of a complete text. -/
theorem complete_drop (h : unfinished sep text = []) (n : Nat) :
    unfinished sep (text.drop n) = [] := by
  induction n generalizing text with
  | zero => exact h
  | succ n ih =>
    cases text with
    | nil => exact h
    | cons c text => exact ih (complete_of_cons h)

theorem lines_drop_ne_nil (h : unfinished sep text = []) {n : Nat}
    (hn : n < text.length) : lines sep (text.drop n) ≠ [] := by
  intro hnil
  have hrest := unfinished_of_notMem (notMem_of_lines_nil hnil)
  rw [complete_drop h n] at hrest
  have hlen : (text.drop n).length = 0 := by rw [← hrest, List.length_nil]
  rw [List.length_drop] at hlen
  omega

/-- A text with a complete line has a last one. -/
theorem exists_last_line (h : lines sep text ≠ []) :
    ∃ front line rest, text = front ++ (line ++ sep :: rest) ∧ unfinished sep front = [] ∧
      sep ∉ line ∧ sep ∉ rest ∧ lines sep text = lines sep front ++ [line] := by
  induction text using text_induction sep with
  | hrest rest hfree => exact absurd (lines_of_notMem hfree) h
  | hline line text hfree ih =>
    rw [lines_append hfree]
    by_cases hnone : lines sep text = []
    · rcases text_cases sep text with hrest | ⟨line', rest, hline', rfl⟩
      · refine ⟨[], line, text, rfl, rfl, hfree, hrest, ?_⟩
        rw [hnone]
        rfl
      · rw [lines_append hline'] at hnone
        cases hnone
    · obtain ⟨front, line', rest, heq, hfront, hline', hrest, hlines⟩ := ih hnone
      refine ⟨line ++ sep :: front, line', rest, ?_, ?_, hline', hrest, ?_⟩
      · rw [heq, List.append_assoc, List.cons_append]
      · rw [unfinished_append hfree, hfront]
      · rw [lines_append hfree, hlines, List.cons_append]

/-- The lines after the first one of a window are the last ones of the text. -/
theorem tail_lines_suffix (front text : List α) :
    (lines sep text).tail <:+ (lines sep (front ++ text)).tail := by
  induction front with
  | nil => exact List.suffix_rfl
  | cons c front ih =>
    refine List.IsSuffix.trans ih ?_
    rw [List.cons_append]
    generalize front ++ text = text
    by_cases hc : c = sep
    · subst hc
      rw [← List.nil_append (c :: text), lines_append List.not_mem_nil, List.tail_cons]
      exact List.tail_suffix _
    · rcases text_cases sep text with hfree | ⟨line, rest, hline, rfl⟩
      · rw [lines_of_notMem hfree]
        exact List.nil_suffix
      · have hline' : sep ∉ c :: line := by
          rw [List.mem_cons]
          exact not_or.mpr ⟨Ne.symm hc, hline⟩
        rw [lines_append hline, ← List.cons_append, lines_append hline']
        exact List.suffix_rfl

/-- A rest without a separator adds no line. -/
theorem lines_append_of_notMem (text : List α) {rest : List α} (h : sep ∉ rest) :
    lines sep (text ++ rest) = lines sep text := by
  induction text using text_induction sep with
  | hrest free hfree =>
    have happend : sep ∉ free ++ rest := by
      rw [List.mem_append]
      exact not_or.mpr ⟨hfree, h⟩
    rw [lines_of_notMem hfree, lines_of_notMem happend]
  | hline line text hfree ih =>
    rw [List.append_assoc, List.cons_append, lines_append hfree, lines_append hfree, ih]

variable (sep) in
/-- The complete lines of a text, as text. -/
def complete (text : List α) : List α := text.take (text.length - (unfinished sep text).length)

theorem complete_line (h : sep ∉ line) (text : List α) :
    complete sep (line ++ sep :: text) = line ++ sep :: complete sep text := by
  unfold complete
  rw [unfinished_append h, List.length_append, List.length_cons]
  have hle : (unfinished sep text).length ≤ text.length := by
    induction text using text_induction sep with
    | hrest rest hfree => exact Nat.le_of_eq (congrArg List.length (unfinished_of_notMem hfree))
    | hline line text hfree ih =>
      rw [unfinished_append hfree, List.length_append, List.length_cons]
      omega
  have hlen : line.length + (text.length + 1) - (unfinished sep text).length =
      line.length + ((text.length - (unfinished sep text).length) + 1) := by omega
  rw [hlen, List.take_length_add_append, List.take_succ_cons]

/-- A text is its complete lines and its rest. -/
theorem complete_spec (text : List α) :
    complete sep text ++ unfinished sep text = text ∧
      unfinished sep (complete sep text) = [] ∧
      lines sep (complete sep text) = lines sep text := by
  induction text using text_induction sep with
  | hrest rest hfree =>
    have hnil : complete sep rest = [] := by
      rw [complete, unfinished_of_notMem hfree, Nat.sub_self, List.take_zero]
    rw [hnil, unfinished_of_notMem hfree, lines_of_notMem hfree]
    exact ⟨rfl, rfl, rfl⟩
  | hline line text hfree ih =>
    obtain ⟨happend, hrest, hlines⟩ := ih
    rw [complete_line hfree, unfinished_append hfree, unfinished_append hfree,
      lines_append hfree, lines_append hfree, List.append_assoc, List.cons_append, happend, hlines]
    exact ⟨rfl, hrest, rfl⟩

theorem notMem_of_mem_lines (h : line ∈ lines sep text) : sep ∉ line := by
  induction text using text_induction sep with
  | hrest rest hfree =>
    rw [lines_of_notMem hfree] at h
    cases h
  | hline line' text hfree ih =>
    rw [lines_append hfree] at h
    rcases List.mem_cons.mp h with rfl | h
    · exact hfree
    · exact ih h

theorem notMem_unfinished (text : List α) : sep ∉ unfinished sep text := by
  induction text using text_induction sep with
  | hrest rest hfree =>
    rw [unfinished_of_notMem hfree]
    exact hfree
  | hline line text hfree ih =>
    rw [unfinished_append hfree]
    exact ih

theorem mem_of_mem_lines (h : line ∈ lines sep text) (hc : c ∈ line) : c ∈ text := by
  induction text using text_induction sep with
  | hrest rest hfree =>
    rw [lines_of_notMem hfree] at h
    cases h
  | hline line' text hfree ih =>
    rw [lines_append hfree] at h
    rcases List.mem_cons.mp h with rfl | h
    · exact List.mem_append_left _ hc
    · exact List.mem_append_right _ (List.mem_cons_of_mem _ (ih h))

/-- A text that is written line by line. -/
theorem splitLines_flatMap {ls : List (List α)} (h : ∀ line ∈ ls, sep ∉ line) :
    lines sep (ls.flatMap (· ++ [sep])) = ls ∧ unfinished sep (ls.flatMap (· ++ [sep])) = [] := by
  induction ls with
  | nil => exact ⟨rfl, rfl⟩
  | cons line ls ih =>
    obtain ⟨hline, hls⟩ := List.forall_mem_cons.mp h
    obtain ⟨hlines, hrest⟩ := ih hls
    rw [List.flatMap_cons, List.append_assoc, List.singleton_append, lines_append hline,
      unfinished_append hline, hlines]
    exact ⟨rfl, hrest⟩

/-! ## Fields of a line -/

/-- Fields with a separator between them. -/
def joined (sep : α) : List (List α) → List α
  | [] => []
  | [f] => f
  | f :: g :: fs => f ++ sep :: joined sep (g :: fs)

/-- Fields without the separator are what the line splits into. -/
theorem split_joined (h : ∀ f ∈ fs, sep ∉ f) (hne : fs ≠ []) :
    lines sep (joined sep fs) ++ [unfinished sep (joined sep fs)] = fs := by
  induction fs with
  | nil => exact absurd rfl hne
  | cons f fs ih =>
    obtain ⟨hf, hfs⟩ := List.forall_mem_cons.mp h
    cases fs with
    | nil =>
      rw [joined, lines_of_notMem hf, unfinished_of_notMem hf]
      rfl
    | cons g fs =>
      rw [joined, lines_append hf, unfinished_append hf, List.cons_append,
        ih hfs (List.cons_ne_nil g fs)]

omit [DecidableEq α] in
theorem notMem_joined (hc : c ≠ sep) (h : ∀ f ∈ fs, c ∉ f) : c ∉ joined sep fs := by
  induction fs with
  | nil => exact List.not_mem_nil
  | cons f fs ih =>
    obtain ⟨hf, hfs⟩ := List.forall_mem_cons.mp h
    cases fs with
    | nil => exact hf
    | cons g fs =>
      rw [joined, List.mem_append, List.mem_cons]
      exact not_or.mpr ⟨hf, not_or.mpr ⟨hc, ih hfs⟩⟩

omit [DecidableEq α] in
theorem joined_cons (sep : α) (f : List α) (h : fs ≠ []) :
    joined sep (f :: fs) = f ++ sep :: joined sep fs := by
  cases fs with
  | nil => exact absurd rfl h
  | cons g fs => rfl

/-- What a line splits into, joined. -/
theorem joined_split (text : List α) :
    joined sep (lines sep text ++ [unfinished sep text]) = text := by
  induction text using text_induction sep with
  | hrest rest hfree =>
    rw [lines_of_notMem hfree, unfinished_of_notMem hfree]
    rfl
  | hline line text hfree ih =>
    rw [lines_append hfree, unfinished_append hfree, List.cons_append,
      joined_cons sep line (List.append_ne_nil_of_right_ne_nil _ (List.cons_ne_nil _ _)), ih]

theorem joined_inj {gs : List (List α)} (hf : ∀ f ∈ fs, sep ∉ f) (hg : ∀ g ∈ gs, sep ∉ g)
    (hfs : fs ≠ []) (hgs : gs ≠ []) : joined sep fs = joined sep gs ↔ fs = gs := by
  constructor
  · intro h
    rw [← split_joined hf hfs, h, split_joined hg hgs]
  · rintro rfl
    rfl

/-! ## Machines that read lines -/

section Machine

variable {γ σ : Type} {feed : γ → α → γ} {partway : σ → List α → γ} {endLine : σ → List α → σ}

/-- A machine whose state inside a line is made of its state at the start of the line and of what
it has seen of the line reads a text line by line. -/
theorem foldl_lines (hopen : ∀ s line c, c ≠ sep → feed (partway s line) c = partway s (line ++ [c]))
    (hend : ∀ s line, feed (partway s line) sep = partway (endLine s line) []) (s : σ)
    (text : List α) :
    text.foldl feed (partway s []) =
      partway ((lines sep text).foldl endLine s) (unfinished sep text) := by
  have hfree : ∀ (line : List α) (s : σ) (seen : List α), sep ∉ line →
      line.foldl feed (partway s seen) = partway s (seen ++ line) := by
    intro line
    induction line with
    | nil => simp
    | cons c line ih =>
      intro s seen h
      obtain ⟨hc, hl⟩ := not_or.mp (List.mem_cons.not.mp h)
      rw [List.foldl_cons, hopen s seen c (Ne.symm hc), ih s (seen ++ [c]) hl, List.append_assoc]
      rfl
  induction text using text_induction sep generalizing s with
  | hrest rest hrest =>
    rw [hfree rest s [] hrest, lines_of_notMem hrest, unfinished_of_notMem hrest]
    rfl
  | hline line text hline ih =>
    rw [List.foldl_append, hfree line s [] hline, List.foldl_cons, hend, List.nil_append, ih,
      lines_append hline, unfinished_append hline, List.foldl_cons]

end Machine

end EspCars.Lib
