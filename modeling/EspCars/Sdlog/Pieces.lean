import EspCars.Sdlog.Stream

/-!
# Lines and fields as the reader gets them

`StreamReader` opens the file as text, so a carriage return cuts a line of the file into `pieces`.
The first piece of a line goes up to its first carriage return. The token and the stamp of a line
that is read hold none.
-/

namespace EspCars.Sdlog

open EspCars.Lib EspCars.SdLogger

/-! ## The lines of a text -/

/-- What the reader gets for one line of the file. -/
def pieces (line : Str) : List Str := lines newline (universalNewlines (line ++ [newline]))

variable {c : UInt8} {text line a : Str}

theorem universalNewlines_cons (h : c ≠ carriageReturn) (text : List UInt8) :
    universalNewlines (c :: text) = c :: universalNewlines text := by
  rw [universalNewlines, if_neg h]

theorem universalNewlines_return {d : UInt8} (h : d ≠ newline) (text : List UInt8) :
    universalNewlines (carriageReturn :: d :: text) = newline :: universalNewlines (d :: text) := by
  rw [universalNewlines, if_pos rfl, if_neg]
  exact fun hd => h (Option.some.inj hd)

theorem universalNewlines_crlf (text : List UInt8) :
    universalNewlines (carriageReturn :: newline :: text) = newline :: universalNewlines text := by
  rw [universalNewlines, if_pos rfl, List.head?_cons, if_pos rfl, universalNewlines_cons (by decide)]

theorem universalNewlines_of_notMem {text : List UInt8} (h : carriageReturn ∉ text) :
    universalNewlines text = text := by
  induction text with
  | nil => rfl
  | cons c text ih =>
    obtain ⟨hc, ht⟩ := not_or.mp (List.mem_cons.not.mp h)
    rw [universalNewlines_cons (Ne.symm hc), ih ht]

theorem universalNewlines_line (h : newline ∉ line) (text : List UInt8) :
    universalNewlines (line ++ newline :: text) =
      universalNewlines (line ++ [newline]) ++ universalNewlines text := by
  induction line with
  | nil =>
    rw [List.nil_append, universalNewlines_cons (by decide)]
    rfl
  | cons c line ih =>
    obtain ⟨-, hl⟩ := not_or.mp (List.mem_cons.not.mp h)
    by_cases hc : c = carriageReturn
    · subst hc
      cases line with
      | nil =>
        rw [List.cons_append, List.nil_append, universalNewlines_crlf]
        rfl
      | cons d line =>
        have hd : d ≠ newline := fun hd => hl (hd ▸ List.mem_cons_self)
        have hrest := ih hl
        simp only [List.cons_append] at hrest ⊢
        rw [universalNewlines_return hd, universalNewlines_return hd, hrest]
        rfl
    · rw [List.cons_append, List.cons_append, universalNewlines_cons hc, universalNewlines_cons hc,
        ih hl]
      rfl

/-- A line that ends, ends as text. -/
theorem universalNewlines_ends (line : Str) (h : newline ∉ line) :
    ∃ s, universalNewlines (line ++ [newline]) = s ++ [newline] := by
  induction line with
  | nil => exact ⟨[], rfl⟩
  | cons c line ih =>
    obtain ⟨-, hl⟩ := not_or.mp (List.mem_cons.not.mp h)
    obtain ⟨s, hs⟩ := ih hl
    by_cases hc : c = carriageReturn
    · subst hc
      cases line with
      | nil => exact ⟨[], rfl⟩
      | cons d line =>
        have hd : d ≠ newline := fun hd => hl (hd ▸ List.mem_cons_self)
        simp only [List.cons_append] at hs ⊢
        exact ⟨newline :: s, by rw [universalNewlines_return hd, hs]; rfl⟩
    · exact ⟨c :: s, by rw [List.cons_append, universalNewlines_cons hc, hs]; rfl⟩

/-- The reader gets the pieces of the lines, and those of the bytes behind them. -/
theorem lines_universalNewlines (raw : List UInt8) :
    lines newline (universalNewlines raw) = (lines newline raw).flatMap pieces ++
      lines newline (universalNewlines (unfinished newline raw)) := by
  induction raw using text_induction newline with
  | hrest rest hfree =>
    rw [lines_of_notMem hfree, unfinished_of_notMem hfree]
    rfl
  | hline line text hfree ih =>
    obtain ⟨s, hs⟩ := universalNewlines_ends line hfree
    have hends : unfinished newline (universalNewlines (line ++ [newline])) = [] := by
      rw [hs]
      exact unfinished_concat s
    rw [universalNewlines_line hfree, (lines_append_of_complete hends _).1, ih,
      lines_append hfree, unfinished_append hfree, List.flatMap_cons, List.append_assoc]
    rfl

/-- The first piece goes up to the first carriage return. -/
theorem pieces_eq (line : Str) (h : newline ∉ line) :
    ∃ more, pieces line = line.takeWhile (· ≠ carriageReturn) :: more := by
  induction line with
  | nil => exact ⟨[], rfl⟩
  | cons c line ih =>
    obtain ⟨hc, hl⟩ := not_or.mp (List.mem_cons.not.mp h)
    obtain ⟨more, hmore⟩ := ih hl
    unfold pieces at hmore ⊢
    by_cases hcr : c = carriageReturn
    · subst hcr
      have hfree : newline ∉ ([] : Str) := List.not_mem_nil
      cases line with
      | nil => exact ⟨[], rfl⟩
      | cons d line =>
        have hd : d ≠ newline := fun hd => hl (hd ▸ List.mem_cons_self)
        simp only [List.cons_append] at hmore ⊢
        rw [universalNewlines_return hd]
        exact ⟨_, lines_append hfree _⟩
    · rw [List.cons_append, universalNewlines_cons hcr, lines_cons (Ne.symm hc) hmore,
        List.takeWhile_cons, if_pos (decide_eq_true hcr)]
      exact ⟨more, rfl⟩

theorem pieces_of_notMem (h : newline ∉ line) (hcr : carriageReturn ∉ line) :
    pieces line = [line] := by
  have hfree : carriageReturn ∉ line ++ [newline] := by
    rw [List.mem_append, List.mem_singleton]
    exact not_or.mpr ⟨hcr, by decide⟩
  rw [pieces, universalNewlines_of_notMem hfree, lines_append h]
  rfl

/-! ## Fields -/

theorem fields_comma (h : 44 ∉ a) (t : Str) : fields (a ++ 44 :: t) = a :: fields t := by
  unfold fields
  rw [lines_append h, unfinished_append h, List.cons_append]

theorem fields_of_notMem (h : 44 ∉ a) : fields a = [a] := by
  rw [fields, lines_of_notMem h, unfinished_of_notMem h]
  rfl

/-- The first field goes up to the first comma. -/
theorem field_zero (line : Str) : field (fields line) 0 = line.takeWhile (· ≠ 44) := by
  rcases text_cases 44 line with hfree | ⟨a, t, ha, rfl⟩
  · rw [fields_of_notMem hfree]
    symm
    apply List.takeWhile_eq_self_iff.mpr
    intro c hc
    exact decide_eq_true fun h => hfree (h ▸ hc)
  · rw [fields_comma ha, List.takeWhile_append_of_pos]
    · rw [List.takeWhile_cons, if_neg (by decide), List.append_nil]
      rfl
    · intro c hc
      exact decide_eq_true fun h => ha (h ▸ hc)

theorem head_of_field_zero (h : (field (fields line) 0).head? = some c) : line.head? = some c := by
  rw [field_zero] at h
  cases line with
  | nil => cases h
  | cons d line =>
    rw [List.takeWhile_cons] at h
    split_ifs at h
    · exact h
    · cases h

/-- A line that begins with a field. -/
theorem field_zero_of_starts (ha : 44 ∉ a) (h : a ++ [44] <+: line) :
    field (fields line) 0 = a := by
  obtain ⟨t, rfl⟩ := h
  rw [List.append_assoc, List.singleton_append, fields_comma ha]
  rfl

/-- The two first fields of a line, from a part of it in which the second one begins. -/
theorem fields_cut {p q : Str} {c : UInt8} (h : 2 ≤ (fields p).length) :
    field (fields (p ++ c :: q)) 0 = field (fields p) 0 ∧ 2 ≤ (fields (p ++ c :: q)).length ∧
      (field (fields (p ++ c :: q)) 1 = field (fields p) 1 ∨ c = 44 ∨
        c ∈ field (fields (p ++ c :: q)) 1) := by
  rcases text_cases 44 p with hfree | ⟨a, t, ha, rfl⟩
  · rw [fields_of_notMem hfree] at h
    exact absurd h (Nat.not_succ_le_self 1)
  rw [List.append_assoc, List.cons_append, fields_comma ha, fields_comma ha]
  have hsome : ∀ t : Str, 1 ≤ (fields t).length := by
    intro t
    rw [fields, List.length_append]
    exact Nat.le_add_left _ _
  refine ⟨rfl, Nat.succ_le_succ (hsome _), ?_⟩
  have hshift : ∀ t : Str, field (a :: fields t) 1 = field (fields t) 0 := fun t => rfl
  rw [hshift, hshift]
  rcases text_cases 44 t with hfree | ⟨b, t', hb, rfl⟩
  · right
    by_cases hc : c = 44
    · exact Or.inl hc
    right
    rw [field_zero, List.takeWhile_append_of_pos]
    · rw [List.takeWhile_cons, if_pos (decide_eq_true hc), List.mem_append]
      exact Or.inr List.mem_cons_self
    · intro d hd
      exact decide_eq_true fun h => hfree (h ▸ hd)
  · left
    rw [List.append_assoc, List.cons_append, fields_comma hb, fields_comma hb]
    rfl

/-! ## Numbers and stamps -/

theorem notMem_of_hexFrom (hc : hexVal c = none) {v w : Nat}
    (h : hexFrom v text = some w) : c ∉ text := by
  induction text generalizing v with
  | nil => exact List.not_mem_nil
  | cons d text ih =>
    rw [hexFrom] at h
    cases hd : hexVal d with
    | none =>
      rw [hd] at h
      cases h
    | some n =>
      rw [hd] at h
      rw [List.mem_cons]
      refine not_or.mpr ⟨?_, ih h⟩
      rintro rfl
      rw [hc] at hd
      cases hd

theorem notMem_of_parseX (hc : hexVal c = none) {v : Nat} (h : parseX text = .ok v) : c ∉ text := by
  unfold parseX at h
  split_ifs at h
  split at h
  · cases h
  · next hv => exact notMem_of_hexFrom hc hv

/-- A stamp that is read is made of digits and the mark. -/
theorem notMem_of_read (hc : hexVal c = none) (hmark : c ≠ anchorMark) {chain : Chain}
    {v : Nat × Chain} (h : chain.read text = .ok v) : c ∉ text := by
  unfold Chain.read at h
  by_cases hanchor : text.head? = some anchorMark
  · rw [if_pos hanchor] at h
    cases hparse : parseX text.tail with
    | error e =>
      rw [hparse] at h
      cases h
    | ok w =>
      have htail := notMem_of_parseX hc hparse
      cases text with
      | nil => exact List.not_mem_nil
      | cons d text =>
        rw [List.mem_cons]
        refine not_or.mpr ⟨?_, htail⟩
        rintro rfl
        exact hmark (Option.some.inj hanchor)
  · rw [if_neg hanchor] at h
    cases hparse : parseX text with
    | error e =>
      rw [hparse] at h
      cases h
    | ok w => exact notMem_of_parseX hc hparse

end EspCars.Sdlog
