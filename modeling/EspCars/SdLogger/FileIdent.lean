import EspCars.Lib.Calendar
import EspCars.SdLogger.FileFormat

/-!
# The date of a file

`write_iso8601_utc` of `components/sd_logger/file_ident.h`, which the `#ident` line takes its date
and its build time from.
-/

namespace EspCars.SdLogger

open EspCars.Lib MarchDay

namespace LineWriter

/-- `tmp`, filled from its end, and what is left of `v`. -/
def fixedDigits : Nat → UInt64 → List UInt8 × UInt64
  | 0, v => ([], v)
  | n + 1, v =>
    let (tmp, rest) := fixedDigits n (v / 10)
    (tmp ++ [(48 + v.toNat % 10).toUInt8], rest)

/-- `dec_fixed`. -/
def decFixed (w : LineWriter) (v : UInt64) (digits : Nat) : LineWriter :=
  let (tmp, rest) := fixedDigits digits v
  (if rest ≠ 0 then w.u64 rest else w).raw tmp

end LineWriter

/-- `yoe`, the year of an era's day from March on. -/
def yearOfEra (doe : UInt64) : UInt64 := (doe - doe / 1460 + doe / 36524 - doe / 146096) / 365

/-- `civil_from_days`: year, month and day of the day that comes `days` after the epoch. -/
def civilFromDays (days : UInt64) : UInt64 × UInt64 × UInt64 :=
  let z := days + 719468
  let era := z / 146097
  let doe := z - era * 146097
  let yoe := yearOfEra doe
  let doy := doe - (365 * yoe + yoe / 4 - yoe / 100)
  let mp := (5 * doy + 2) / 153
  let day := doy - (153 * mp + 2) / 5 + 1
  let month := if mp < 10 then mp + 3 else mp - 9
  (yoe + era * 400 + (if month ≤ 2 then 1 else 0), month, day)

/-- `write_iso8601_utc` -/
def writeIso8601Utc (w : LineWriter) (utcS : UInt64) : LineWriter :=
  let days := utcS / 86400
  let sod := utcS % 86400
  let date := civilFromDays days
  let w := (w.decFixed date.1 4).ch 45
  let w := (w.decFixed date.2.1 2).ch 45
  let w := (w.decFixed date.2.2 2).ch 84
  let w := (w.decFixed (sod / 3600) 2).ch 58
  let w := (w.decFixed (sod / 60 % 60) 2).ch 58
  (w.decFixed (sod % 60) 2).ch 90

/-! ## Digits -/

theorem LineWriter.fixedDigits_eq (n : Nat) (v : UInt64) :
    (fixedDigits n v).1 = padDigits n v.toNat ∧
      (fixedDigits n v).2.toNat = v.toNat / 10 ^ n := by
  induction n generalizing v with
  | zero => exact ⟨rfl, (Nat.div_one _).symm⟩
  | succ n ih =>
    obtain ⟨htmp, hrest⟩ := ih (v / 10)
    have hv : (v / 10).toNat = v.toNat / 10 := UInt64.toNat_div v 10
    rw [hv] at htmp hrest
    refine ⟨?_, ?_⟩
    · rw [fixedDigits, padDigits, ← htmp]
      rfl
    · rw [fixedDigits, Nat.pow_succ, Nat.mul_comm, ← Nat.div_div_eq_div_mul]
      exact hrest

theorem LineWriter.decFixed_eq (w : LineWriter) (v : UInt64) {digits : Nat} (h : 0 < digits) :
    w.decFixed v digits = w.raw (zeroPadded digits v.toNat) := by
  obtain ⟨n, rfl⟩ : ∃ n, digits = n + 1 := ⟨digits - 1, by omega⟩
  obtain ⟨htmp, hrest⟩ := fixedDigits_eq (n + 1) v
  rw [zeroPadded_eq, ← hrest, ← htmp]
  unfold decFixed
  generalize fixedDigits (n + 1) v = p
  obtain ⟨tmp, rest⟩ := p
  have hzero : rest = 0 ↔ rest.toNat = 0 := UInt64.toNat_inj.symm
  by_cases h : rest = 0
  · simp [h]
  · have hlt : rest.toNat < 10 ^ (19 + 1) := Nat.lt_trans rest.toNat_lt (by decide)
    simp only [ne_eq, h, not_false_eq_true, if_true, if_neg (hzero.not.mp h)]
    rw [raw_append, u64, writer_decDigits, decDigits_eq_decText hlt]

theorem LineWriter.decFixed_ch (w : LineWriter) (v : UInt64) (c : UInt8) {digits : Nat}
    (h : 0 < digits) : (w.decFixed v digits).ch c = w.raw (zeroPadded digits v.toNat ++ [c]) := by
  rw [decFixed_eq w v h, ch_eq_raw, ← raw_append]

theorem LineWriter.raw_columns (w : LineWriter) (c : Nat × UInt8) (cs : List (Nat × UInt8))
    (v : Nat) (vs : List Nat) :
    w.raw (columns (c :: cs) (v :: vs)) =
      (w.raw (zeroPadded c.1 v ++ [c.2])).raw (columns cs vs) := by
  rw [columns, List.append_cons, raw_append]

theorem LineWriter.raw_columns_nil (w : LineWriter) : w.raw (columns [] []) = w := rfl

/-! ## Days -/

/-- The year of a day in century `h`, four years `q` and year `s` of an era. The leap days that are
taken off too many or too few come out right, as no year ends after fewer than 365 days. -/
theorem yearOfEra_div {h q s k doe : Nat} (hh : h ≤ 3) (hq : q ≤ 24) (hs : s ≤ 3)
    (hk : k < 365 ∨ k = 365 ∧ s = 3 ∧ (q = 24 → h = 3))
    (hdoe : doe = 36524 * h + 1461 * q + 365 * s + k) :
    (doe - doe / 1460 + doe / 36524 - doe / 146096) / 365 = 100 * h + 4 * q + s := by
  by_cases hlast : doe = 146096
  · subst hlast
    norm_num
    omega
  · have hcentury : doe / 36524 = h := by omega
    have hera : doe / 146096 = 0 := by omega
    by_cases hfour : 24 * h + q + 365 * s + k < 1460
    · have hdiv : doe / 1460 = 25 * h + q := by omega
      rw [hdiv, hcentury, hera]
      omega
    · have hdiv : doe / 1460 = 25 * h + q + 1 := by omega
      rw [hdiv, hcentury, hera]
      omega

theorem toNat_yearOfEra {y k : Nat} (hy : y < 400)
    (hk : k < 365 ∨ k = 365 ∧ leapYear (y + 1) = true) {doe : UInt64}
    (hdoe : doe.toNat = 365 * y + y / 4 - y / 100 + k) : (yearOfEra doe).toNat = y := by
  rw [leapYear_iff] at hk
  have hlt : doe.toNat < 146097 := by omega
  have hfour : (doe - doe / 1460).toNat = doe.toNat - doe.toNat / 1460 := by
    simp only [UInt64.toNat_sub, UInt64.toNat_div, UInt64.reduceToNat]
    omega
  have hcentury : (doe - doe / 1460 + doe / 36524).toNat =
      doe.toNat - doe.toNat / 1460 + doe.toNat / 36524 := by
    simp only [UInt64.toNat_add, hfour, UInt64.toNat_div, UInt64.reduceToNat]
    omega
  have hera : (doe - doe / 1460 + doe / 36524 - doe / 146096).toNat =
      doe.toNat - doe.toNat / 1460 + doe.toNat / 36524 - doe.toNat / 146096 := by
    simp only [UInt64.toNat_sub, hcentury, UInt64.toNat_div, UInt64.reduceToNat]
    omega
  have hh : y / 100 ≤ 3 := by omega
  have hq : y % 100 / 4 ≤ 24 := by omega
  have hs : y % 4 ≤ 3 := by omega
  have hsum : y = 100 * (y / 100) + 4 * (y % 100 / 4) + y % 4 := by omega
  have hkind : k < 365 ∨ k = 365 ∧ y % 4 = 3 ∧ (y % 100 / 4 = 24 → y / 100 = 3) := by omega
  have hdays : doe.toNat =
      36524 * (y / 100) + 1461 * (y % 100 / 4) + 365 * (y % 4) + k := by omega
  calc
    (yearOfEra doe).toNat = (doe - doe / 1460 + doe / 36524 - doe / 146096).toNat / 365 :=
      UInt64.toNat_div _ 365
    _ = 100 * (y / 100) + 4 * (y % 100 / 4) + y % 4 := by
      rw [hera, yearOfEra_div hh hq hs hkind hdays]
    _ = y := hsum.symm

theorem monthOfYear {m k y : Nat} (hk : k < monthLength y m) :
    (5 * (monthStart m + k) + 2) / 153 = m := by
  simp only [monthLength, monthStart] at hk ⊢
  split_ifs at hk <;> omega

theorem civilFromDays_eq {d : MarchDay} (hd : d.Valid) {days : UInt64}
    (hlt : days.toNat < 2 ^ 63) (hcount : d.count = days.toNat + 719468) :
    (civilFromDays days).1.toNat = d.toDate.year ∧
      (civilFromDays days).2.1.toNat = d.toDate.month ∧
      (civilFromDays days).2.2.toNat = d.toDate.day := by
  obtain ⟨year, m, k⟩ := d
  obtain ⟨hm, hk⟩ := hd
  simp only at hm hk
  obtain ⟨e, y, hy, rfl⟩ : ∃ e y, y < 400 ∧ year = 400 * e + y :=
    ⟨year / 400, year % 400, Nat.mod_lt _ (by decide), (Nat.div_add_mod year 400).symm⟩
  have hleap : leapYear (400 * e + y + 1) = leapYear (y + 1) := by
    rw [Bool.eq_iff_iff, leapYear_iff, leapYear_iff]
    omega
  have hmp := monthOfYear hk
  have hdoy : monthStart m + k < 365 ∨
      monthStart m + k = 365 ∧ leapYear (y + 1) = true := by
    simp only [monthLength, monthStart, hleap] at hk ⊢
    split_ifs at hk with hlast hleap'
    · subst hlast
      rcases Nat.lt_or_ge k 28 with hlt | hge
      · left
        omega
      · right
        exact ⟨by omega, hleap'⟩
    · left
      omega
    · left
      omega
  have hstart : monthStart m ≤ 337 := by
    unfold monthStart
    omega
  have hera : days.toNat + 719468 =
      146097 * e + (365 * y + y / 4 - y / 100 + (monthStart m + k)) := by
    have hfour : (400 * e + y) / 4 = 100 * e + y / 4 := by omega
    have hcentury : (400 * e + y) / 100 = 4 * e + y / 100 := by omega
    have hera : (400 * e + y) / 400 = e := by omega
    rw [← hcount]
    simp only [count, hfour, hcentury, hera]
    omega
  have hrest : 365 * y + y / 4 - y / 100 + (monthStart m + k) < 146097 := by
    rw [leapYear_iff] at hdoy
    omega
  unfold civilFromDays
  extract_lets z era doe yoe doy mp day month
  have hz : z.toNat = days.toNat + 719468 := by
    simp only [z, UInt64.toNat_add, UInt64.reduceToNat]
    omega
  rw [hera] at hz
  have hera : era.toNat = e := by
    simp only [era, UInt64.toNat_div, UInt64.reduceToNat, hz]
    omega
  have hdoe : doe.toNat = 365 * y + y / 4 - y / 100 + (monthStart m + k) := by
    simp only [doe, UInt64.toNat_sub, UInt64.toNat_mul, UInt64.reduceToNat, hera, hz]
    omega
  have hyoe : yoe.toNat = y := toNat_yearOfEra hy hdoy hdoe
  have hdoy : doy.toNat = monthStart m + k := by
    simp only [doy, UInt64.toNat_sub, UInt64.toNat_add, UInt64.toNat_mul, UInt64.toNat_div,
      UInt64.reduceToNat, hdoe, hyoe]
    omega
  have hmp : mp.toNat = m := by
    simp only [mp, UInt64.toNat_add, UInt64.toNat_mul, UInt64.toNat_div, UInt64.reduceToNat, hdoy]
    simp (disch := omega) only [Nat.mod_eq_of_lt, hmp]
  have hday : day.toNat = k + 1 := by
    have hbefore : ((153 * mp + 2) / 5).toNat = monthStart m := by
      simp only [UInt64.toNat_add, UInt64.toNat_mul, UInt64.toNat_div, UInt64.reduceToNat, hmp]
      simp (disch := omega) only [Nat.mod_eq_of_lt, monthStart]
    simp only [day, UInt64.toNat_sub, UInt64.toNat_add, UInt64.reduceToNat, hdoy, hbefore]
    omega
  have hmonth : month.toNat = if m < 10 then m + 3 else m - 9 := by
    simp only [month, UInt64.lt_iff_toNat_lt, UInt64.reduceToNat, hmp]
    split_ifs with h
    · simp only [UInt64.toNat_add, UInt64.reduceToNat, hmp]
      omega
    · simp only [UInt64.toNat_sub, UInt64.reduceToNat, hmp]
      omega
  have hyear : (yoe + era * 400 + if month ≤ 2 then 1 else 0).toNat =
      400 * e + y + if m < 10 then 0 else 1 := by
    simp only [UInt64.le_iff_toNat_le, UInt64.toNat_add, UInt64.toNat_mul, UInt64.reduceToNat,
      hmonth, hyoe, hera]
    split_ifs <;> simp only [UInt64.reduceToNat] <;> omega
  refine ⟨?_, ?_, ?_⟩
  · rw [hyear]
    unfold toDate
    split_ifs <;> rfl
  · rw [hmonth]
    unfold toDate
    split_ifs <;> rfl
  · rw [hday]
    unfold toDate
    split_ifs <;> rfl

/-! ## The text -/

theorem writeIso8601Utc_eq_raw (w : LineWriter) (utcS : UInt64) :
    writeIso8601Utc w utcS = w.raw (momentAfter utcS.toNat).iso := by
  obtain ⟨d, hd, hcount, hdate⟩ := exists_marchDay (utcS.toNat / 86400)
  have hdays : (utcS / 86400).toNat = utcS.toNat / 86400 := by
    simp only [UInt64.toNat_div, UInt64.reduceToNat]
  have hlt : (utcS / 86400).toNat < 2 ^ 63 := by
    have := utcS.toNat_lt
    omega
  obtain ⟨hyear, hmonth, hday⟩ := civilFromDays_eq hd hlt (by rw [hcount, hdays])
  rw [hdate] at hyear hmonth hday
  have hhour : (utcS % 86400 / 3600).toNat = utcS.toNat % 86400 / 3600 := by
    simp only [UInt64.toNat_div, UInt64.toNat_mod, UInt64.reduceToNat]
  have hminute : (utcS % 86400 / 60 % 60).toNat = utcS.toNat % 86400 / 60 % 60 := by
    simp only [UInt64.toNat_div, UInt64.toNat_mod, UInt64.reduceToNat]
  have hsecond : (utcS % 86400 % 60).toNat = utcS.toNat % 86400 % 60 := by
    simp only [UInt64.toNat_mod, UInt64.reduceToNat]
  rw [momentAfter_eq]
  unfold writeIso8601Utc Moment.iso isoColumns Moment.fields Moment.ofSeconds
  simp only [LineWriter.raw_columns, LineWriter.raw_columns_nil, LineWriter.decFixed_ch,
    Nat.ofNat_pos, hyear, hmonth, hday, hhour, hminute, hsecond]

/-- The text is that of the calendar's moment, no two seconds share one, and the later of two has
the greater one up to the year 9999. -/
theorem writeIso8601Utc_calendar {w : LineWriter} {utcS : UInt64}
    (hroom : w.buf.length + (momentAfter utcS.toNat).iso.length ≤ w.limit) :
    writeIso8601Utc w utcS = { w with buf := w.buf ++ (momentAfter utcS.toNat).iso } ∧
      (∀ t : UInt64, (momentAfter t.toNat).iso = (momentAfter utcS.toNat).iso → t = utcS) ∧
      ((momentAfter utcS.toNat).year ≤ 9999 →
        ∀ t < utcS, (momentAfter t.toNat).iso < (momentAfter utcS.toNat).iso) := by
  refine ⟨?_, fun t h => UInt64.toNat_inj.mp (iso_injective h), fun hyear t ht => ?_⟩
  · rw [writeIso8601Utc_eq_raw, LineWriter.raw_of_fits hroom]
  · exact iso_lt hyear (UInt64.lt_iff_toNat_lt.mp ht)

theorem writeIso8601Utc_calendar_epoch :
    writeIso8601Utc (LineWriter.ofRoom maxLine) 0 =
      { LineWriter.ofRoom maxLine with buf := ascii "1970-01-01T00:00:00Z" } := by
  have htext : (momentAfter (0 : UInt64).toNat).iso = ascii "1970-01-01T00:00:00Z" := by
    simp [momentAfter, Moment.ofSeconds, dateAfter, Moment.iso, isoColumns, Moment.fields, columns,
      zeroPadded_of_lt, padDigits, decDigit, ascii]
  have hroom : (LineWriter.ofRoom maxLine).buf.length + (momentAfter (0 : UInt64).toNat).iso.length ≤
      (LineWriter.ofRoom maxLine).limit := by
    rw [htext]
    decide
  rw [(writeIso8601Utc_calendar hroom).1, htext]
  rfl

end EspCars.SdLogger
