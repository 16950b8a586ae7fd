import EspCars.Lib.Numeral
import EspCars.SdLogger.FileFormat

/-!
# What a clock line says

`format_clock` and `parse_clock_line` of `components/sd_logger/clock_basis.h`. A line that is parsed
has the fields of a point in one of the writer's pairings (`of_parseClockLine`), and each of its two
or three numbers is what the emitter writes exactly if it has no zero in front.
-/

namespace EspCars.SdLogger

open EspCars.Lib

/-! ## The parts of a line -/

/-- The pairings of the writer. -/
def ClockPoint.Written (p : ClockPoint) : Prop :=
  (p.basis = .utc ∧ (p.src = .sync ∨ p.src = .warm) ∧ p.detail = none) ∨
    (p.basis = .drift ∧ p.src = .sleep) ∨
    (p.basis = .est ∧ p.src = .card ∧ p.detail ≠ none) ∨
    (p.basis = .est ∧ p.src = .build ∧ p.detail = none)

variable {p : ClockPoint} {s : List UInt8} {v u : UInt64}

theorem ClockPoint.Written.valid (h : p.Written) : p.valid = true := by
  rcases h with ⟨h, -⟩ | ⟨h, -⟩ | ⟨h, -⟩ | ⟨h, -⟩ <;> rw [ClockPoint.valid, h] <;> rfl

theorem parseHex_eq_some (h : parseHex s = some v) :
    s ≠ [] ∧ s.length ≤ 16 ∧ hexFrom 0 s = some v.toNat := by
  unfold parseHex at h
  split_ifs at h with hlength
  obtain ⟨hne, hle⟩ := not_or.mp hlength
  obtain ⟨w, hw, rfl⟩ := Option.map_eq_some_iff.mp h
  have hlt : ∀ (s : List UInt8) (u w n : Nat), hexFrom u s = some w → u < 16 ^ n →
      w < 16 ^ (n + s.length) := by
    intro s
    induction s with
    | nil =>
      intro u w n hu hn
      cases hu
      exact hn
    | cons c s ih =>
      intro u w n hu hn
      rw [hexFrom] at hu
      cases hd : hexVal c with
      | none =>
        rw [hd] at hu
        cases hu
      | some d =>
        rw [hd] at hu
        have hdigit := (hexDigit_of_hexVal hd).1
        have hnext := ih (u * 16 + d) w (n + 1) hu (by rw [Nat.pow_succ]; omega)
        rwa [List.length_cons, ← Nat.add_assoc, Nat.add_right_comm]
  have hsmall : w < 2 ^ 64 := by
    have hw' := hlt s 0 w 0 hw (by decide)
    have hpow : 16 ^ (0 + s.length) ≤ 16 ^ 16 := Nat.pow_le_pow_right (by decide) (by omega)
    omega
  refine ⟨fun hnil => hne (by rw [hnil]; rfl), Nat.le_of_not_lt hle, ?_⟩
  rw [hw, UInt64.toNat_ofNat', Nat.mod_eq_of_lt hsmall]

/-- A number of a line is written again as it was, if it had no zero in front. -/
theorem hexText_parseHex_iff (h : parseHex s = some v) : hexText 16 v.toNat = s ↔ Unpadded s := by
  obtain ⟨hne, hlength, hvalue⟩ := parseHex_eq_some h
  exact hexText_eq_iff hvalue hne hlength v.toNat_lt

/-- The value of a digit, and when the one after it fits. -/
theorem digit_fits {c : UInt8} (h : isDecimal c = true) : ((c - 48).toUInt64).toNat = c.toNat - 48 ∧
      (¬ u > (0xFFFFFFFFFFFFFFFF - (c - 48).toUInt64) / 10 ↔
        u.toNat * 10 + (c.toNat - 48) < 2 ^ 64) := by
  obtain ⟨hlow, hhigh⟩ := isDecimal_iff.mp h
  have hsub : (c - 48).toNat = c.toNat - 48 :=
    UInt8.toNat_sub_of_le c 48 (UInt8.le_iff_toNat_le.mpr hlow)
  have hd : ((c - 48).toUInt64).toNat = c.toNat - 48 := by rw [UInt8.toNat_toUInt64, hsub]
  have hmax : (0xFFFFFFFFFFFFFFFF : UInt64).toNat = 18446744073709551615 := rfl
  have hten : (10 : UInt64).toNat = 10 := rfl
  refine ⟨hd, ?_⟩
  rw [gt_iff_lt, UInt64.not_lt, UInt64.le_iff_toNat_le, UInt64.toNat_div, UInt64.toNat_sub_of_le,
    hd, hmax, hten]
  · omega
  · rw [UInt64.le_iff_toNat_le, hd, hmax]
    omega

theorem toNat_step {c : UInt8} (h : isDecimal c = true)
    (hfits : u.toNat * 10 + (c.toNat - 48) < 2 ^ 64) :
    (u * 10 + (c - 48).toUInt64).toNat = u.toNat * 10 + (c.toNat - 48) := by
  have hten : (10 : UInt64).toNat = 10 := rfl
  rw [UInt64.toNat_add, UInt64.toNat_mul, (digit_fits (u := u) h).1, hten]
  omega

theorem decFrom_cons {c : UInt8} (h : isDecimal c = true) (s : List UInt8) : decFrom u (c :: s) =
      if u.toNat * 10 + (c.toNat - 48) < 2 ^ 64 then decFrom (u * 10 + (c - 48).toUInt64) s
      else none := by
  have hrange : ¬ (c < 48 ∨ c > 57) := by
    obtain ⟨hlow, hhigh⟩ := isDecimal_iff.mp h
    rw [not_or, gt_iff_lt, UInt8.not_lt, UInt8.not_lt, UInt8.le_iff_toNat_le, UInt8.le_iff_toNat_le]
    exact ⟨hlow, hhigh⟩
  rw [decFrom, if_neg hrange]
  dsimp only
  by_cases hfits : u.toNat * 10 + (c.toNat - 48) < 2 ^ 64
  · rw [if_pos hfits, if_neg ((digit_fits h).2.mpr hfits)]
  · rw [if_neg hfits, if_pos]
    by_contra hle
    exact hfits ((digit_fits h).2.mp hle)

theorem decFrom_eq_some (h : decFrom u s = some v) :
    (∀ c ∈ s, isDecimal c = true) ∧ Lib.decFrom u.toNat s = v.toNat := by
  induction s generalizing u with
  | nil =>
    cases h
    exact ⟨nofun, rfl⟩
  | cons c s ih =>
    have hc : isDecimal c = true := by
      rw [decFrom] at h
      split_ifs at h with hrange
      rw [not_or, gt_iff_lt, UInt8.not_lt, UInt8.not_lt, UInt8.le_iff_toNat_le,
        UInt8.le_iff_toNat_le] at hrange
      exact isDecimal_iff.mpr hrange
    rw [decFrom_cons hc] at h
    split_ifs at h with hfits
    obtain ⟨hs, hvalue⟩ := ih h
    rw [toNat_step hc hfits] at hvalue
    exact ⟨List.forall_mem_cons.mpr ⟨hc, hs⟩, hvalue⟩

/-- A number that fits is read. -/
theorem exists_decFrom (hs : ∀ c ∈ s, isDecimal c = true)
    (hfits : Lib.decFrom u.toNat s < 2 ^ 64) : ∃ v, decFrom u s = some v := by
  induction s generalizing u with
  | nil => exact ⟨u, rfl⟩
  | cons c s ih =>
    obtain ⟨hc, hs⟩ := List.forall_mem_cons.mp hs
    have hstep : Lib.decFrom u.toNat (c :: s) =
        Lib.decFrom (u.toNat * 10 + (c.toNat - 48)) s := rfl
    have hle := le_decFrom (u.toNat * 10 + (c.toNat - 48)) s
    have hfirst : u.toNat * 10 + (c.toNat - 48) < 2 ^ 64 := by omega
    rw [decFrom_cons hc, if_pos hfirst]
    apply ih hs
    rw [toNat_step hc hfirst]
    exact hfits

theorem parseDec_decField (v : UInt64) : parseDec (decField v) = some v := by
  have hdecimal : ∀ c ∈ decField v, isDecimal c = true := fun c hc => decimal_of_mem_decField hc
  have hvalue : Lib.decFrom 0 (decField v) = v.toNat := by
    rw [decField, writer_decDigits]
    exact Lib.decFrom_decDigits (Nat.lt_of_lt_of_le v.toNat_lt (by decide))
  have hne : decField v ≠ [] := by
    rw [decField, writer_decDigits]
    exact decDigits_ne_nil 19 _
  have hlength : ¬ ((decField v).length = 0 ∨ (decField v).length > 20) := by
    rw [List.length_eq_zero_iff]
    exact not_or.mpr ⟨hne, Nat.not_lt.mpr (length_decField v)⟩
  have hfits : Lib.decFrom (0 : UInt64).toNat (decField v) < 2 ^ 64 := by
    rw [UInt64.toNat_zero, hvalue]
    exact v.toNat_lt
  obtain ⟨w, hw⟩ := exists_decFrom hdecimal hfits
  have hsame : w = v := UInt64.toNat.inj ((decFrom_eq_some hw).2.symm.trans hvalue)
  rw [parseDec, if_neg hlength, hw, hsame]

theorem decField_parseDec_iff (h : parseDec s = some v) : decField v = s ↔ Unpadded s := by
  unfold parseDec at h
  split_ifs at h with hlength
  obtain ⟨hne, hle⟩ := not_or.mp hlength
  obtain ⟨hdecimal, hvalue⟩ := decFrom_eq_some h
  have hvalue' : Lib.decFrom 0 s = v.toNat := hvalue
  have hlt : Lib.decFrom 0 s < 10 ^ 20 := by
    rw [hvalue']
    exact Nat.lt_of_lt_of_le v.toNat_lt (by decide)
  rw [decField, writer_decDigits, ← hvalue']
  apply decDigits_eq_iff hdecimal _ (Nat.le_of_not_lt hle) hlt
  rintro rfl
  exact hne rfl

/-! ## Reading a line -/

/-- A line of the fields that the parser asks for. -/
theorem parseClockLine_joined (hp : p.Written) {t utc : List UInt8}
    {detail : Option (List UInt8)} (ht : parseHex t = some p.tUs) (hutc : parseHex utc = some p.utcUs)
    (hdetail : detail.map parseDec = p.detail.map some)
    (hfree : ∀ f ∈ [ascii "#clock", anchorMark :: t, utc, p.basis.text, p.src.text] ++
      detail.toList, 44 ∉ f) :
    parseClockLine (joined 44 ([ascii "#clock", anchorMark :: t, utc, p.basis.text, p.src.text] ++
      detail.toList)) = some p := by
  have hfields : fields (joined 44 ([ascii "#clock", anchorMark :: t, utc, p.basis.text,
      p.src.text] ++ detail.toList)) = [ascii "#clock", anchorMark :: t, utc, p.basis.text,
      p.src.text] ++ detail.toList := split_joined hfree (List.cons_ne_nil _ _)
  have hanchor : parseAnchor (anchorMark :: t) = some p.tUs := by
    rw [parseAnchor, if_pos rfl, ht]
  have hbasis : parseBasis p.basis.text = some p.basis := by
    rcases hp with ⟨h, -⟩ | ⟨h, -⟩ | ⟨h, -⟩ | ⟨h, -⟩ <;> rw [h] <;> rfl
  have hsrc : parseSrc p.basis p.src.text = some p.src := by
    rcases hp with ⟨h, h' | h', -⟩ | ⟨h, h'⟩ | ⟨h, h', -⟩ | ⟨h, h', -⟩ <;> rw [h, h'] <;> rfl
  obtain ⟨tUs, utcUs, basis, src, pdetail⟩ := p
  unfold parseClockLine
  rw [hfields]
  cases detail with
  | none =>
    have hnone : pdetail = none := by
      cases pdetail with
      | none => rfl
      | some v => cases hdetail
    subst hnone
    have hsrcCard : src ≠ .card := by
      rintro rfl
      rcases hp with ⟨-, h | h, -⟩ | ⟨-, h⟩ | ⟨-, -, h⟩ | ⟨-, h, -⟩
      · cases h
      · cases h
      · cases h
      · exact h rfl
      · cases h
    simp [hanchor, hutc, hbasis, hsrc, hsrcCard]
  | some d =>
    cases pdetail with
    | none => cases hdetail
    | some v =>
      have hd : parseDec d = some v := Option.some.inj hdetail
      have hcarries : src = .card ∨ src = .sleep := by
        rcases hp with ⟨-, -, h⟩ | ⟨-, h⟩ | ⟨-, h, -⟩ | ⟨-, -, h⟩
        · cases h
        · exact Or.inr h
        · exact Or.inl h
        · cases h
      simp [hanchor, hutc, hbasis, hsrc, hd]
      tauto

/-- What a line that is parsed is made of. -/
theorem of_parseClockLine (h : parseClockLine s = some p) :
    ∃ (t utc : List UInt8) (detail : Option (List UInt8)),
      fields s = [ascii "#clock", anchorMark :: t, utc, p.basis.text, p.src.text] ++
        detail.toList ∧
      p.Written ∧ parseHex t = some p.tUs ∧ parseHex utc = some p.utcUs ∧
      detail.map parseDec = p.detail.map some := by
  have hbasisText : ∀ {f : List UInt8} {b : ClockBasis}, parseBasis f = some b → f = b.text := by
    intro f b hb
    unfold parseBasis at hb
    split_ifs at hb with h1 h2 h3 <;> cases hb
    · exact h1
    · exact h2
    · exact h3
  have hsrcText : ∀ {f : List UInt8} {b : ClockBasis} {c : ClockSrc}, parseSrc b f = some c →
      f = c.text ∧ ((b = .utc ∧ (c = .sync ∨ c = .warm)) ∨ (b = .drift ∧ c = .sleep) ∨
        (b = .est ∧ (c = .card ∨ c = .build))) := by
    intro f b c hc
    unfold parseSrc at hc
    split_ifs at hc with h1 h2 h3 h4 h5 <;> cases hc
    · exact ⟨h1.1, Or.inl ⟨h1.2, Or.inl rfl⟩⟩
    · exact ⟨h2.1, Or.inl ⟨h2.2, Or.inr rfl⟩⟩
    · exact ⟨h3.1, Or.inr (Or.inl ⟨h3.2, rfl⟩)⟩
    · exact ⟨h4.1, Or.inr (Or.inr ⟨h4.2, Or.inl rfl⟩)⟩
    · exact ⟨h5.1, Or.inr (Or.inr ⟨h5.2, Or.inr rfl⟩)⟩
  unfold parseClockLine at h
  split at h
  · rename_i f0 f1 f2 f3 f4 rest hfields
    simp only [Option.bind_eq_bind, Option.bind_eq_some_iff] at h
    obtain ⟨_, hguard, t, hanchor, utc, hutc, basis, hbasis, src, hsrc, h⟩ := h
    have hguard' : rest.length ≤ 1 ∧ f0 = ascii "#clock" := by
      by_contra hnot
      rw [guard, if_neg hnot] at hguard
      cases hguard
    obtain ⟨hlength, rfl⟩ := hguard'
    have hbasis' := hbasisText hbasis
    obtain ⟨hsrc', hpair⟩ := hsrcText hsrc
    obtain ⟨digits, rfl, ht⟩ : ∃ digits, f1 = anchorMark :: digits ∧ parseHex digits = some t := by
      cases f1 with
      | nil => cases hanchor
      | cons c digits =>
        rw [parseAnchor] at hanchor
        split_ifs at hanchor with hmark
        exact ⟨digits, by rw [hmark], hanchor⟩
    subst hbasis' hsrc'
    cases rest with
    | nil =>
      dsimp only at h
      split_ifs at h with hcard
      cases h
      refine ⟨digits, f2, none, hfields, ?_, ht, hutc, rfl⟩
      rcases hpair with ⟨hb, hs⟩ | ⟨hb, hs⟩ | ⟨hb, hs | hs⟩
      · exact Or.inl ⟨hb, hs, rfl⟩
      · exact Or.inr (Or.inl ⟨hb, hs⟩)
      · exact absurd hs hcard
      · exact Or.inr (Or.inr (Or.inr ⟨hb, hs, rfl⟩))
    | cons f5 rest =>
      rw [List.length_cons] at hlength
      have hnil : rest = [] := List.length_eq_zero_iff.mp (by omega)
      subst hnil
      dsimp only at h
      split_ifs at h with hcarries
      obtain ⟨detail, hdetail, h⟩ := Option.bind_eq_some_iff.mp h
      cases h
      refine ⟨digits, f2, some f5, hfields, ?_, ht, hutc, congrArg some hdetail⟩
      rcases hpair with ⟨hb, hs | hs⟩ | ⟨hb, hs⟩ | ⟨hb, hs | hs⟩
      · subst hs
        exact absurd ⟨by decide, by decide⟩ hcarries
      · subst hs
        exact absurd ⟨by decide, by decide⟩ hcarries
      · exact Or.inr (Or.inl ⟨hb, hs⟩)
      · exact Or.inr (Or.inr (Or.inl ⟨hb, hs, nofun⟩))
      · subst hs
        exact absurd ⟨by decide, by decide⟩ hcarries
  · cases h

theorem comma_notMem_fields {f : List UInt8} (h : f ∈ fields s) : 44 ∉ f := by
  rcases List.mem_append.mp h with h | h
  · exact notMem_of_mem_lines h
  · rw [List.mem_singleton.mp h]
    exact notMem_unfinished s

/-! ## Both ways -/

/-- The fields that `format_clock` writes. -/
def ClockPoint.texts (p : ClockPoint) : List (List UInt8) :=
  [ascii "#clock", LineWriter.stampText true p.tUs, hexText 16 p.utcUs.toNat, p.basis.text,
    p.src.text] ++ (p.detail.map decField).toList

theorem comma_notMem_texts (p : ClockPoint) {f : List UInt8} (h : f ∈ p.texts) : 44 ∉ f := by
  rw [ClockPoint.texts, List.mem_append] at h
  rcases h with h | h
  · simp only [List.mem_cons, List.not_mem_nil, or_false] at h
    rcases h with rfl | rfl | rfl | rfl | rfl
    · decide
    · exact LineWriter.notMem_stampText (by decide) (by decide) true p.tUs
    · exact notMem_hexText (by decide) 16 _
    · cases p.basis <;> decide
    · cases p.src <;> decide
  · cases hdetail : p.detail with
    | none =>
      rw [hdetail] at h
      cases h
    | some detail =>
      rw [hdetail] at h
      rw [List.mem_singleton.mp h]
      intro hcomma
      have hdecimal := decimal_of_mem_decField hcomma
      revert hdecimal
      decide

/-- The parser takes the line of a point in one of the writer's pairings as that point. -/
theorem parseClockLine_formatClock {p : ClockPoint} (hp : p.Written) {room : Nat}
    (hroom : maxLine ≤ room) :
    formatClock room p = (formatClock room p).dropLast ++ [newline] ∧
      parseClockLine (formatClock room p).dropLast = some p := by
  have hformat := formatClock_eq hroom hp.valid
  have hline : formatClock room p = joined 44 p.texts ++ [newline] := hformat
  rw [hline, List.dropLast_concat]
  refine ⟨rfl, ?_⟩
  have hdetail : (p.detail.map decField).map parseDec = p.detail.map some := by
    cases p.detail with
    | none => rfl
    | some detail => exact congrArg some (parseDec_decField detail)
  exact parseClockLine_joined hp (parseHex_hexText p.tUs) (parseHex_hexText p.utcUs) hdetail
    fun f hf => comma_notMem_texts p hf

theorem parseClockLine_formatClock_card :
    parseClockLine (formatClock 512 ⟨16, 255, .est, .card, some 7⟩).dropLast =
      some ⟨16, 255, .est, .card, some 7⟩ :=
  (parseClockLine_formatClock (Or.inr (Or.inr (Or.inl ⟨rfl, rfl, by decide⟩))) (Nat.le_refl 512)).2

/-- The numbers of a clock line. -/
def clockNumbers (s : List UInt8) : List (List UInt8) :=
  match fields s with
  | _ :: f1 :: f2 :: _ :: _ :: rest => f1.tail :: f2 :: rest
  | _ => []

/-- The writer can have written a line that is parsed exactly if none of its numbers has a zero in
front. -/
theorem formatClock_parseClockLine_iff {s : List UInt8} {p : ClockPoint}
    (h : parseClockLine s = some p) :
    formatClock maxLine p = s ++ [newline] ↔ ∀ f ∈ clockNumbers s, Unpadded f := by
  obtain ⟨t, utc, detail, hfields, hp, ht, hutc, hdetail⟩ := of_parseClockLine h
  have hline : formatClock maxLine p = joined 44 p.texts ++ [newline] :=
    formatClock_eq (Nat.le_refl maxLine) hp.valid
  have hs : joined 44 (fields s) = s := joined_split s
  have hne : fields s ≠ [] := by
    rw [hfields]
    exact List.cons_ne_nil _ _
  have hnumbers : clockNumbers s = t :: utc :: detail.toList := by
    rw [clockNumbers, hfields]
    rfl
  have hstamp : LineWriter.stampText true p.tUs = anchorMark :: t ↔ Unpadded t := by
    rw [LineWriter.stampText, if_pos rfl, List.cons_inj_right]
    exact hexText_parseHex_iff ht
  have hlast : (p.detail.map decField).toList = detail.toList ↔ ∀ f ∈ detail.toList, Unpadded f := by
    cases detail with
    | none =>
      cases hnone : p.detail with
      | none => simp
      | some v =>
        rw [hnone] at hdetail
        cases hdetail
    | some d =>
      cases hsome : p.detail with
      | none =>
        rw [hsome] at hdetail
        cases hdetail
      | some v =>
        rw [hsome] at hdetail
        have hd : parseDec d = some v := Option.some.inj hdetail
        simpa using decField_parseDec_iff hd
  rw [hline, List.append_cancel_right_eq, hnumbers]
  conv_lhs => rw [← hs]
  rw [joined_inj (fun f hf => comma_notMem_texts p hf) (fun f hf => comma_notMem_fields hf)
    (List.cons_ne_nil _ _) hne, hfields, ClockPoint.texts]
  simp only [List.cons_append, List.nil_append, List.cons.injEq, true_and, List.forall_mem_cons,
    hstamp, hexText_parseHex_iff hutc, hlast]

theorem formatClock_parseClockLine_iff_zero :
    formatClock maxLine { utcUs := 255, basis := .utc, src := .sync } =
        ascii "#clock,@0,FF,utc,sync" ++ [newline] ↔
      ∀ f ∈ clockNumbers (ascii "#clock,@0,FF,utc,sync"), Unpadded f :=
  formatClock_parseClockLine_iff (by decide)

/-- Two digits where the writer writes one. -/
theorem not_formatClock_parseClockLine :
    ¬ ∀ (s : List UInt8) (p : ClockPoint), parseClockLine s = some p →
      formatClock maxLine p = s ++ [newline] := by
  intro h
  have hline := h (ascii "#clock,@00,FF,utc,sync") { utcUs := 255, basis := .utc, src := .sync }
    (by decide)
  revert hline
  decide

end EspCars.SdLogger
