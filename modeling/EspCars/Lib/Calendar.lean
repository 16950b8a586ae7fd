import EspCars.Lib.Decimal

/-!
# The calendar

The proleptic Gregorian calendar as it is counted, second after second from the start of 1970, and
the text of its moments. Later moments have greater texts as long as the year has four digits.
-/

namespace EspCars.Lib

/-- A day of the proleptic Gregorian calendar. -/
structure Date where
  year : Nat
  month : Nat
  day : Nat
  deriving DecidableEq

/-- A second of a day. -/
structure Moment extends Date where
  hour : Nat
  minute : Nat
  second : Nat
  deriving DecidableEq

def leapYear (y : Nat) : Bool := y % 4 = 0 ∧ (y % 100 ≠ 0 ∨ y % 400 = 0)

def daysInMonth (y m : Nat) : Nat :=
  if m = 2 then (if leapYear y then 29 else 28)
  else if m = 4 ∨ m = 6 ∨ m = 9 ∨ m = 11 then 30 else 31

/-- The day behind a day. -/
def Date.next (d : Date) : Date :=
  if d.day < daysInMonth d.year d.month then { d with day := d.day + 1 }
  else if d.month < 12 then { d with month := d.month + 1, day := 1 }
  else { year := d.year + 1, month := 1, day := 1 }

/-- The date `n` days after the first of January 1970. -/
def dateAfter : Nat → Date
  | 0 => { year := 1970, month := 1, day := 1 }
  | n + 1 => (dateAfter n).next

/-- The moment of a day after `s` seconds of it. -/
def Moment.ofSeconds (d : Date) (s : Nat) : Moment :=
  { toDate := d, hour := s / 3600, minute := s / 60 % 60, second := s % 60 }

/-- The second behind a second. -/
def Moment.tick (t : Moment) : Moment :=
  if t.second < 59 then { t with second := t.second + 1 }
  else if t.minute < 59 then { t with minute := t.minute + 1, second := 0 }
  else if t.hour < 23 then { t with hour := t.hour + 1, minute := 0, second := 0 }
  else { t.next with hour := 0, minute := 0, second := 0 }

/-- The moment `n` seconds after the start of 1970. -/
def momentAfter : Nat → Moment
  | 0 => Moment.ofSeconds (dateAfter 0) 0
  | n + 1 => (momentAfter n).tick

/-! ## Years from March on -/

/-- A day counted from a first of March: the year and the month it falls in from March on, and the
days of that month before it. -/
structure MarchDay where
  year : Nat
  month : Nat
  day : Nat

namespace MarchDay

/-- The days of the year before month `m`. -/
def monthStart (m : Nat) : Nat := (153 * m + 2) / 5

def monthLength (y m : Nat) : Nat :=
  if m = 11 then (if leapYear (y + 1) then 29 else 28) else monthStart (m + 1) - monthStart m

/-- The month and the day exist. -/
structure Valid (d : MarchDay) : Prop where
  month : d.month ≤ 11
  day : d.day < monthLength d.year d.month

/-- The days since the first of March of the year 0. -/
def count (d : MarchDay) : Nat :=
  365 * d.year + d.year / 4 - d.year / 100 + d.year / 400 + monthStart d.month + d.day

def toDate (d : MarchDay) : Date :=
  if d.month < 10 then { year := d.year, month := d.month + 3, day := d.day + 1 }
  else { year := d.year + 1, month := d.month - 9, day := d.day + 1 }

def next (d : MarchDay) : MarchDay :=
  if d.day + 1 < monthLength d.year d.month then { d with day := d.day + 1 }
  else if d.month < 11 then { d with month := d.month + 1, day := 0 }
  else { year := d.year + 1, month := 0, day := 0 }

theorem leapYear_iff {y : Nat} :
    leapYear y = true ↔ y % 4 = 0 ∧ (y % 100 ≠ 0 ∨ y % 400 = 0) := by
  rw [leapYear, decide_eq_true_iff]

theorem monthLength_toDate {d : MarchDay} (h : d.month ≤ 11) :
    daysInMonth d.toDate.year d.toDate.month = monthLength d.year d.month := by
  obtain ⟨y, m, k⟩ := d
  simp only at h
  interval_cases m <;> simp [toDate, daysInMonth, monthLength, monthStart]

theorem toDate_next {d : MarchDay} (h : d.Valid) : d.next.toDate = d.toDate.next := by
  have hlen := monthLength_toDate h.month
  have hmonth := h.month
  unfold Date.next
  rw [hlen]
  obtain ⟨y, m, k⟩ := d
  simp only at hmonth
  unfold next
  simp only [toDate]
  by_cases hmore : k + 1 < monthLength y m
  · by_cases hlate : m < 10 <;> simp [hmore, hlate]
  · by_cases hlast : m < 11
    · interval_cases m <;> simp [hmore]
    · have hm : m = 11 := by omega
      subst hm
      simp [hmore]

theorem valid_next {d : MarchDay} (h : d.Valid) : d.next.Valid := by
  obtain ⟨hm, hd⟩ := h
  unfold next
  split_ifs with hmore hmonth
  · exact ⟨hm, hmore⟩
  · refine ⟨hmonth, ?_⟩
    simp only [monthLength, monthStart]
    split_ifs <;> omega
  · refine ⟨Nat.zero_le _, ?_⟩
    simp [monthLength, monthStart]

/-- The days before the first of March of a year. -/
def yearStart (y : Nat) : Nat := 365 * y + y / 4 - y / 100 + y / 400

theorem yearStart_succ (y : Nat) :
    yearStart (y + 1) = yearStart y + if leapYear (y + 1) then 366 else 365 := by
  have hle : y / 100 ≤ y / 4 := Nat.div_le_div_left (by decide) (by decide)
  simp only [yearStart, Nat.succ_div, Nat.dvd_iff_mod_eq_zero, leapYear_iff]
  split_ifs <;> omega

theorem count_next {d : MarchDay} (h : d.Valid) : d.next.count = d.count + 1 := by
  obtain ⟨y, m, k⟩ := d
  obtain ⟨hm, hd⟩ := h
  simp only at hm hd
  unfold next
  split_ifs with hmore hmonth
  · rfl
  · simp only [monthLength, if_neg (Nat.ne_of_lt hmonth), monthStart] at hd hmore hmonth
    simp only [count, monthStart]
    omega
  · have hm' : m = 11 := by
      simp only at hmonth
      omega
    subst hm'
    have hyear := yearStart_succ y
    simp only [monthLength, if_pos] at hd hmore
    simp only [count, monthStart]
    unfold yearStart at hyear
    split_ifs at hyear hd hmore <;> omega

end MarchDay

/-- The first of January 1970 comes 719468 days after the first of March of the year 0. -/
theorem exists_marchDay (n : Nat) :
    ∃ d : MarchDay, d.Valid ∧ d.count = n + 719468 ∧ d.toDate = dateAfter n := by
  induction n with
  | zero =>
    refine ⟨{ year := 1969, month := 10, day := 0 }, ⟨by decide, by decide⟩, ?_, rfl⟩
    simp [MarchDay.count, MarchDay.monthStart]
  | succ n ih =>
    obtain ⟨d, hd, hcount, hdate⟩ := ih
    refine ⟨d.next, MarchDay.valid_next hd, ?_, ?_⟩
    · calc
        d.next.count = d.count + 1 := MarchDay.count_next hd
        _ = n + 719468 + 1 := by rw [hcount]
        _ = n + 1 + 719468 := Nat.add_right_comm n 719468 1
    · rw [MarchDay.toDate_next hd, hdate]
      rfl

/-! ## The order of moments -/

namespace Moment

def fields (t : Moment) : List Nat := [t.year, t.month, t.day, t.hour, t.minute, t.second]

/-- Every field but the year has two digits at most. -/
structure TwoDigits (t : Moment) : Prop where
  month : t.month ≤ 12
  day : t.day ≤ 31
  hour : t.hour ≤ 23
  minute : t.minute ≤ 59
  second : t.second ≤ 59

theorem daysInMonth_le (y m : Nat) : daysInMonth y m ≤ 31 := by
  unfold daysInMonth
  split_ifs <;> decide

theorem twoDigits_tick {t : Moment} (h : t.TwoDigits) : t.tick.TwoDigits := by
  obtain ⟨hmonth, hday, hhour, hminute, hsecond⟩ := h
  have hlen := daysInMonth_le t.year t.month
  unfold tick Date.next
  split_ifs <;> constructor <;> simp <;> omega

theorem fields_lt_tick (t : Moment) : t.fields < t.tick.fields := by
  unfold tick Date.next fields
  split_ifs <;> simp [List.cons_lt_cons_iff]

end Moment

theorem twoDigits_momentAfter (n : Nat) : (momentAfter n).TwoDigits := by
  induction n with
  | zero => constructor <;> decide
  | succ n ih => exact Moment.twoDigits_tick ih

theorem strictMono_momentAfter : StrictMono fun n => (momentAfter n).fields :=
  strictMono_nat_of_lt_succ fun n => Moment.fields_lt_tick (momentAfter n)

/-- `n` seconds are the days and the seconds of a day. -/
theorem momentAfter_eq (n : Nat) :
    momentAfter n = Moment.ofSeconds (dateAfter (n / 86400)) (n % 86400) := by
  induction n with
  | zero => rfl
  | succ n ih =>
    have hstep : momentAfter (n + 1) = (momentAfter n).tick := rfl
    rw [hstep, ih]
    unfold Moment.tick Moment.ofSeconds
    by_cases hlast : n % 86400 = 86399
    · have hday : (n + 1) / 86400 = n / 86400 + 1 := by omega
      have hsec : (n + 1) % 86400 = 0 := by omega
      rw [hday, hsec, hlast]
      rfl
    · have hday : (n + 1) / 86400 = n / 86400 := by omega
      have hsec : (n + 1) % 86400 = n % 86400 + 1 := by omega
      rw [hday, hsec]
      dsimp only
      split_ifs <;> simp only [Moment.mk.injEq, true_and] <;> omega

/-! ## Columns of digits -/

/-- The digits of `v`, with zeros in front up to `width`. -/
def zeroPadded (width v : Nat) : List UInt8 :=
  List.replicate (width - (decText v).length) 0x30 ++ decText v

/-- Numbers of at least these widths, each with its separator behind it. -/
def columns : List (Nat × UInt8) → List Nat → List UInt8
  | (width, sep) :: cs, v :: vs => zeroPadded width v ++ sep :: columns cs vs
  | _, _ => []

/-- `YYYY-MM-DDTHH:MM:SSZ`. -/
def isoColumns : List (Nat × UInt8) := [(4, 45), (2, 45), (2, 84), (2, 58), (2, 58), (2, 90)]

def Moment.iso (t : Moment) : List UInt8 := columns isoColumns t.fields

theorem decText_step {v : Nat} (h : v / 10 ≠ 0) : decText v = decText (v / 10) ++ [decDigit v] := by
  have hpos : 0 < v := Nat.pos_of_ne_zero fun hz => h (by rw [hz])
  obtain ⟨f, rfl⟩ : ∃ f, v = f + 1 := ⟨v - 1, by omega⟩
  rw [decText, decDigits, if_neg h, decDigits_eq_decText]
  have hlt := lt_ten_pow ((f + 1) / 10)
  exact Nat.lt_of_lt_of_le hlt (Nat.pow_le_pow_right (by decide) (by omega))

theorem decText_of_lt {v : Nat} (h : v / 10 = 0) : decText v = [decDigit v] := by
  rw [decText, decDigits, if_pos h]
  rfl

/-- The digits in front of the last `width`, and these. -/
theorem zeroPadded_eq (width v : Nat) :
    zeroPadded (width + 1) v =
      (if v / 10 ^ (width + 1) = 0 then [] else decText (v / 10 ^ (width + 1))) ++
        padDigits (width + 1) v := by
  induction width generalizing v with
  | zero =>
    rw [Nat.pow_one, padDigits, padDigits]
    unfold zeroPadded
    split_ifs with h
    · rw [decText_of_lt h]
      rfl
    · rw [decText_step h]
      simp
  | succ width ih =>
    have hdiv : v / 10 ^ (width + 1 + 1) = v / 10 / 10 ^ (width + 1) := by
      rw [Nat.div_div_eq_div_mul, Nat.pow_succ 10 (width + 1), Nat.mul_comm]
    rw [hdiv, padDigits, ← List.append_assoc, ← ih (v / 10)]
    unfold zeroPadded
    by_cases h : v / 10 = 0
    · rw [decText_of_lt h, h, decText_of_lt (by decide : 0 / 10 = 0)]
      simp [List.replicate_succ', decDigit]
    · rw [decText_step h]
      simp

theorem zeroPadded_of_lt {width v : Nat} (h : v < 10 ^ (width + 1)) :
    zeroPadded (width + 1) v = padDigits (width + 1) v := by
  rw [zeroPadded_eq, if_pos (Nat.div_eq_of_lt h), List.nil_append]

theorem decFrom_zeroPadded (width v : Nat) : decFrom 0 (zeroPadded width v) = v := by
  have hzeros (n : Nat) : decFrom 0 (List.replicate n 0x30) = 0 := by
    induction n with
    | zero => rfl
    | succ n ih => exact ih
  rw [zeroPadded, decFrom_append, hzeros, decFrom_decText]

theorem isDecimal_of_mem_zeroPadded {width v : Nat} {c : UInt8} (h : c ∈ zeroPadded width v) :
    isDecimal c = true := by
  rw [zeroPadded, List.mem_append, List.mem_replicate] at h
  rcases h with ⟨-, rfl⟩ | h
  · rfl
  · exact isDecimal_of_mem_decDigits h

theorem append_lt_append {a b : List UInt8} (s t : List UInt8) (hlen : a.length = b.length)
    (h : a < b) : a ++ s < b ++ t := by
  induction a generalizing b with
  | nil =>
    rw [List.eq_nil_of_length_eq_zero hlen.symm] at h
    exact absurd h (List.lt_irrefl [])
  | cons x a ih =>
    cases b with
    | nil => cases hlen
    | cons y b =>
      rw [List.cons_append, List.cons_append, List.cons_lt_cons_iff]
      rcases List.cons_lt_cons_iff.mp h with hlt | ⟨rfl, hlt⟩
      · exact .inl hlt
      · exact .inr ⟨rfl, ih (Nat.succ.inj hlen) hlt⟩

theorem padDigits_lt {width u v : Nat} (hv : v < 10 ^ width) (h : u < v) :
    padDigits width u < padDigits width v := by
  induction width generalizing u v with
  | zero => omega
  | succ width ih =>
    have hlen : (padDigits width (u / 10)).length = (padDigits width (v / 10)).length := by
      rw [length_padDigits, length_padDigits]
    rw [padDigits, padDigits]
    by_cases hq : u / 10 = v / 10
    · rw [hq]
      apply List.append_left_lt
      rw [List.cons_lt_cons_iff]
      left
      rw [UInt8.lt_iff_toNat_lt, decDigit_toNat, decDigit_toNat]
      omega
    · exact append_lt_append _ _ hlen (ih (div_ten_lt hv) (by omega))

/-- Each number has the digits of its column. -/
def Fits (cs : List (Nat × UInt8)) (vs : List Nat) : Prop :=
  List.Forall₂ (fun c v => 0 < c.1 ∧ v < 10 ^ c.1) cs vs

theorem columns_lt {cs : List (Nat × UInt8)} {us vs : List Nat} (hus : Fits cs us)
    (hvs : Fits cs vs) (h : us < vs) : columns cs us < columns cs vs := by
  induction hus generalizing vs with
  | nil =>
    cases hvs
    exact absurd h (List.lt_irrefl [])
  | cons hu hus ih =>
    cases hvs with
    | cons hv hvs =>
      rename_i c u cs us v vs
      obtain ⟨width, sep⟩ := c
      obtain ⟨w, rfl⟩ : ∃ w, width = w + 1 := ⟨width - 1, by simp only at hu; omega⟩
      rw [columns, columns, zeroPadded_of_lt hu.2, zeroPadded_of_lt hv.2]
      rcases List.cons_lt_cons_iff.mp h with hlt | ⟨rfl, hlt⟩
      · refine append_lt_append _ _ ?_ (padDigits_lt hv.2 hlt)
        rw [length_padDigits, length_padDigits]
      · apply List.append_left_lt
        rw [List.cons_lt_cons_iff]
        exact .inr ⟨rfl, ih hvs hlt⟩

/-- Digits up to a separator that is none. -/
theorem append_sep_inj {a b s t : List UInt8} {sep : UInt8} (hsep : isDecimal sep = false)
    (ha : ∀ c ∈ a, isDecimal c = true) (hb : ∀ c ∈ b, isDecimal c = true)
    (h : a ++ sep :: s = b ++ sep :: t) : a = b ∧ s = t := by
  have htake (a s : List UInt8) (ha : ∀ c ∈ a, isDecimal c = true) :
      (a ++ sep :: s).takeWhile isDecimal = a := by
    rw [List.takeWhile_append_of_pos ha, List.takeWhile_cons, hsep]
    simp
  have hab : a = b := by rw [← htake a s ha, h, htake b t hb]
  subst hab
  exact ⟨rfl, List.tail_eq_of_cons_eq (List.append_cancel_left h)⟩

theorem columns_inj {cs : List (Nat × UInt8)} (hsep : ∀ c ∈ cs, isDecimal c.2 = false)
    {us vs : List Nat} (hus : us.length = cs.length) (hvs : vs.length = cs.length)
    (h : columns cs us = columns cs vs) : us = vs := by
  induction cs generalizing us vs with
  | nil => rw [List.eq_nil_of_length_eq_zero hus, List.eq_nil_of_length_eq_zero hvs]
  | cons c cs ih =>
    obtain ⟨u, us, rfl⟩ := List.exists_cons_of_length_eq_add_one hus
    obtain ⟨v, vs, rfl⟩ := List.exists_cons_of_length_eq_add_one hvs
    rw [columns, columns] at h
    obtain ⟨hhead, hrest⟩ := append_sep_inj (hsep c List.mem_cons_self)
      (fun _ => isDecimal_of_mem_zeroPadded) (fun _ => isDecimal_of_mem_zeroPadded) h
    have huv : u = v := by rw [← decFrom_zeroPadded c.1 u, hhead, decFrom_zeroPadded]
    rw [huv, ih (fun c hc => hsep c (List.mem_cons_of_mem _ hc)) (Nat.succ.inj hus)
      (Nat.succ.inj hvs) hrest]

theorem iso_injective {m n : Nat} (h : (momentAfter m).iso = (momentAfter n).iso) : m = n := by
  have hsep : ∀ c ∈ isoColumns, isDecimal c.2 = false := by decide
  exact strictMono_momentAfter.injective (columns_inj hsep rfl rfl h)

theorem iso_lt {m n : Nat} (hyear : (momentAfter n).year ≤ 9999) (h : m < n) :
    (momentAfter m).iso < (momentAfter n).iso := by
  have hfits (n : Nat) (hyear : (momentAfter n).year ≤ 9999) :
      Fits isoColumns (momentAfter n).fields := by
    obtain ⟨hmonth, hday, hhour, hminute, hsecond⟩ := twoDigits_momentAfter n
    unfold Fits isoColumns Moment.fields
    simp only [List.forall₂_cons, List.Forall₂.nil, and_true]
    omega
  have hfields : (momentAfter m).fields < (momentAfter n).fields := strictMono_momentAfter h
  have hle : (momentAfter m).year ≤ (momentAfter n).year := by
    rcases List.cons_lt_cons_iff.mp hfields with hlt | ⟨heq, -⟩
    · exact Nat.le_of_lt hlt
    · exact Nat.le_of_eq heq
  exact columns_lt (hfits m (Nat.le_trans hle hyear)) (hfits n hyear) hfields

end EspCars.Lib
