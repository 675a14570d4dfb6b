import Mathlib.Data.List.TakeWhile
import Mathlib.Tactic.IntervalCases
import BytecodeAudit.Proofs.Text.Lossless
import BytecodeAudit.Report.Basic

/-!
# Instants and their texts

An instant that can be written, and whose distance from universal time is a number of minutes, is
read back from its text (`parse?_text`). What is read is such an instant, but for a distance of a
day or more (`isStandard_of_parse?`).
-/

namespace BytecodeAudit.Instant

open List Option

/-! ### The calendar

Dates and numbers of days determine each other (`daysOfDate_dateOfDays`,
`dateOfDays_daysOfDate`). -/

/-- A day of an era: the century, the span of four years, the year in it, and the day of the
year. -/
structure EraDay where
  century : Int
  span : Int
  year : Int
  day : Nat
  century_nonneg : 0 ≤ century
  century_le : century ≤ 3
  span_nonneg : 0 ≤ span
  span_le : span ≤ 24
  year_nonneg : 0 ≤ year
  year_le : year ≤ 3
  day_le : day ≤ 365
  leap_of : day = 365 → year = 3 ∧ (span = 24 → century = 3)

namespace EraDay

def yearOfEra (e : EraDay) : Int := 100 * e.century + 4 * e.span + e.year

def dayOfEra (e : EraDay) : Int := 36524 * e.century + 1461 * e.span + 365 * e.year + e.day

variable (e : EraDay)

lemma yearOfEra_nonneg : 0 ≤ e.yearOfEra := by
  have h₁ := e.century_nonneg
  have h₂ := e.span_nonneg
  have h₃ := e.year_nonneg
  rw [yearOfEra]
  omega

lemma yearOfEra_lt : e.yearOfEra < 400 := by
  have h₁ := e.century_le
  have h₂ := e.span_le
  have h₃ := e.year_le
  rw [yearOfEra]
  omega

lemma dayOfEra_nonneg : 0 ≤ e.dayOfEra := by
  have h₁ := e.century_nonneg
  have h₂ := e.span_nonneg
  have h₃ := e.year_nonneg
  rw [dayOfEra]
  omega

lemma day_in_century_lt (h : e.dayOfEra ≠ 146096) : 1461 * e.span + 365 * e.year + e.day < 36524 := by
  obtain ⟨p, q, r, doy, hp0, hp3, hq0, hq24, hr0, hr3, hd, hleap⟩ := e
  simp only [dayOfEra] at h ⊢
  by_contra hge
  have hlast := hleap (by omega)
  omega

lemma dayOfEra_lt : e.dayOfEra < 146097 := by
  by_cases h : e.dayOfEra = 146096
  · omega
  · have hday := e.day_in_century_lt h
    have hcentury := e.century_le
    rw [dayOfEra]
    omega

lemma dayOfEra_eq : e.dayOfEra = 365 * e.yearOfEra + e.yearOfEra / 4 - e.yearOfEra / 100 + e.day := by
  have h₁ := e.span_nonneg
  have h₂ := e.span_le
  have h₃ := e.year_nonneg
  have h₄ := e.year_le
  rw [dayOfEra, yearOfEra]
  omega

lemma yearOfEra_eq :
    (e.dayOfEra - e.dayOfEra / 1460 + e.dayOfEra / 36524 - e.dayOfEra / 146096) / 365 = e.yearOfEra := by
  have hcentury : e.dayOfEra / 36524 - e.dayOfEra / 146096 = e.century := by
    by_cases hlast : e.dayOfEra = 146096
    · have hday := e.day_le
      have h₁ := e.span_le
      have h₂ := e.year_le
      have h₃ := e.century_le
      have hparts := hlast
      rw [dayOfEra] at hparts
      rw [hlast]
      omega
    · have hday := e.day_in_century_lt hlast
      have hlt := e.dayOfEra_lt
      have h₁ := e.span_nonneg
      have h₂ := e.year_nonneg
      have h₃ := e.century_nonneg
      have hparts : e.dayOfEra = _ := dayOfEra.eq_1 e
      omega
  obtain ⟨p, q, r, doy, hp0, hp3, hq0, hq24, hr0, hr3, hd, hleap⟩ := e
  simp only [dayOfEra, yearOfEra] at hcentury ⊢
  -- spans of four years have one day more than four times 365, and centuries lack one in 25 of them
  obtain ⟨t, ht, ht0, ht1, htr⟩ : ∃ t : Int, (36524 * p + 1461 * q + 365 * r + doy) / 1460 = 25 * p + q + t ∧ 0 ≤ t ∧
      t ≤ 1 ∧ (t = 1 ↔ 1460 ≤ 24 * p + q + 365 * r + doy) :=
    ⟨(36524 * p + 1461 * q + 365 * r + doy) / 1460 - (25 * p + q), by omega, by omega, by omega, by omega⟩
  omega

lemma exists_dayOfEra_eq {n : Int} (hn : 0 ≤ n) (hlt : n < 146097) : ∃ e : EraDay, e.dayOfEra = n := by
  obtain ⟨p, hp0, hp3, hp, hlastp⟩ : ∃ p : Int, 0 ≤ p ∧ p ≤ 3 ∧ 36524 * p ≤ n ∧ (p < 3 → n < 36524 * p + 36524) :=
    ⟨min (n / 36524) 3, by omega, by omega, by omega, by omega⟩
  obtain ⟨b, hb⟩ : ∃ b, b = n - 36524 * p := ⟨_, rfl⟩
  obtain ⟨q, hq0, hq24, hq, hlastq⟩ : ∃ q : Int, 0 ≤ q ∧ q ≤ 24 ∧ 1461 * q ≤ b ∧ (q < 24 → b < 1461 * q + 1461) :=
    ⟨min (b / 1461) 24, by omega, by omega, by omega, by omega⟩
  obtain ⟨c, hc⟩ : ∃ c, c = b - 1461 * q := ⟨_, rfl⟩
  obtain ⟨r, hr0, hr3, hr, hlastr⟩ : ∃ r : Int, 0 ≤ r ∧ r ≤ 3 ∧ 365 * r ≤ c ∧ (r < 3 → c < 365 * r + 365) :=
    ⟨min (c / 365) 3, by omega, by omega, by omega, by omega⟩
  obtain ⟨doy, hdoy⟩ : ∃ doy : Nat, (doy : Int) = c - 365 * r := ⟨(c - 365 * r).toNat, by omega⟩
  exact ⟨⟨p, q, r, doy, hp0, hp3, hq0, hq24, hr0, hr3, by omega, by omega⟩, by simp only [dayOfEra]; omega⟩

def monthIndex (e : EraDay) : Nat := (5 * e.day + 2) / 153

def month (e : EraDay) : Nat := if e.monthIndex < 10 then e.monthIndex + 3 else e.monthIndex - 9

def dayOfMonth (e : EraDay) : Nat := e.day - (153 * e.monthIndex + 2) / 5 + 1

def calendarYear (era : Int) (e : EraDay) : Int :=
  if e.month ≤ 2 then e.yearOfEra + era * 400 + 1 else e.yearOfEra + era * 400

lemma monthIndex_bounds :
    e.monthIndex ≤ 11 ∧ (153 * e.monthIndex + 2) / 5 ≤ e.day ∧ e.day < (153 * (e.monthIndex + 1) + 2) / 5 := by
  have hday := e.day_le
  rw [monthIndex]
  omega

lemma monthIndex_eq : (e.month + 9) % 12 = e.monthIndex := by
  have hbounds := e.monthIndex_bounds
  rw [month]
  split <;> omega

lemma month_bounds : 1 ≤ e.month ∧ e.month ≤ 12 := by
  have hbounds := e.monthIndex_bounds
  rw [month]
  split <;> omega

lemma day_eq : (153 * e.monthIndex + 2) / 5 + e.dayOfMonth - 1 = e.day := by
  have hbounds := e.monthIndex_bounds
  rw [dayOfMonth]
  omega

end EraDay

lemma dateOfDays_eraDay (era : Int) (e : EraDay) :
    dateOfDays (era * 146097 + e.dayOfEra - 719468) = (e.calendarYear era, e.month, e.dayOfMonth) := by
  have hnonneg := e.dayOfEra_nonneg
  have hlt := e.dayOfEra_lt
  have hyear := e.yearOfEra_eq
  have hera : Int.fdiv (era * 146097 + e.dayOfEra) 146097 = era := by
    rw [Int.fdiv_eq_ediv_of_nonneg _ (by decide)]
    omega
  have hday : (e.dayOfEra - (365 * e.yearOfEra + e.yearOfEra / 4 - e.yearOfEra / 100)).toNat = e.day := by
    rw [e.dayOfEra_eq]
    omega
  have hdoe : era * 146097 + e.dayOfEra - era * 146097 = e.dayOfEra := by omega
  simp only [dateOfDays, Int.sub_add_cancel, hera, hdoe]
  simp only [Int.fdiv_eq_ediv_of_nonneg _ (by decide : (0 : Int) ≤ 1460),
    Int.fdiv_eq_ediv_of_nonneg _ (by decide : (0 : Int) ≤ 36524),
    Int.fdiv_eq_ediv_of_nonneg _ (by decide : (0 : Int) ≤ 146096),
    Int.fdiv_eq_ediv_of_nonneg _ (by decide : (0 : Int) ≤ 365), Int.fdiv_eq_ediv_of_nonneg _ (by decide : (0 : Int) ≤ 4),
    Int.fdiv_eq_ediv_of_nonneg _ (by decide : (0 : Int) ≤ 100), hyear, hday]
  rfl

lemma daysOfDate_eraDay (era : Int) (e : EraDay) :
    daysOfDate (e.calendarYear era) e.month e.dayOfMonth = era * 146097 + e.dayOfEra - 719468 := by
  have hnonneg := e.yearOfEra_nonneg
  have hlt := e.yearOfEra_lt
  have hmarch : (if e.month ≤ 2 then e.calendarYear era - 1 else e.calendarYear era) = e.yearOfEra + era * 400 := by
    rw [EraDay.calendarYear]
    split <;> omega
  have hera : Int.fdiv (e.yearOfEra + era * 400) 400 = era := by
    rw [Int.fdiv_eq_ediv_of_nonneg _ (by decide)]
    omega
  simp only [daysOfDate, hmarch, hera, Int.add_sub_cancel, e.monthIndex_eq, e.day_eq]
  rw [Int.fdiv_eq_ediv_of_nonneg _ (by decide), Int.fdiv_eq_ediv_of_nonneg _ (by decide), e.dayOfEra_eq]
  omega

lemma exists_eraDay (days : Int) : ∃ era, ∃ e : EraDay, days = era * 146097 + e.dayOfEra - 719468 := by
  obtain ⟨e, he⟩ := EraDay.exists_dayOfEra_eq (n := (days + 719468) % 146097) (by omega) (by omega)
  exact ⟨(days + 719468) / 146097, e, by omega⟩

lemma daysOfDate_dateOfDays (days : Int) :
    daysOfDate (dateOfDays days).1 (dateOfDays days).2.1 (dateOfDays days).2.2 = days := by
  obtain ⟨era, e, rfl⟩ := exists_eraDay days
  rw [dateOfDays_eraDay, daysOfDate_eraDay]

/-- Whether a month has a day, in a year after the start of the calendar. -/
structure IsDate (year month day : Nat) : Prop where
  month_pos : 1 ≤ month
  month_le : month ≤ 12
  day_pos : 1 ≤ day
  day_le : day ≤ daysInMonth year month

/-- The last year of a span of four has a leap day, but for the last one of three centuries. -/
lemma isLeapYear_of_day {era : Int} {e : EraDay} {year : Nat} (hday : e.day = 365)
    (hyear : e.calendarYear era = year) (hmonth : e.month = 2) : isLeapYear year := by
  obtain ⟨hlast, hcentury⟩ := e.leap_of hday
  have h₁ := e.span_nonneg
  have h₂ := e.span_le
  have h₃ := e.century_nonneg
  rw [EraDay.calendarYear, if_pos (by omega), EraDay.yearOfEra, hlast] at hyear
  simp only [isLeapYear, Bool.and_eq_true, Bool.or_eq_true, beq_iff_eq, bne_iff_ne]
  refine ⟨by omega, ?_⟩
  by_cases hspan : e.span = 24
  · have := hcentury hspan
    exact .inr (by omega)
  · exact .inl (by omega)

lemma isDate_eraDay {era : Int} {e : EraDay} {year : Nat} (hyear : e.calendarYear era = year) :
    IsDate year e.month e.dayOfMonth := by
  have hbounds := e.monthIndex_bounds
  have hday := e.day_le
  refine ⟨e.month_bounds.1, e.month_bounds.2, Nat.le_add_left 1 _, ?_⟩
  by_cases hfeb : e.month = 2
  · by_cases h365 : e.day = 365
    · rw [hfeb, daysInMonth, if_pos (isLeapYear_of_day h365 hyear hfeb)]
      rw [EraDay.month] at hfeb
      rw [EraDay.dayOfMonth]
      split at hfeb <;> omega
    · have hle : e.dayOfMonth ≤ 28 := by
        rw [EraDay.month] at hfeb
        rw [EraDay.dayOfMonth]
        split at hfeb <;> omega
      rw [hfeb, daysInMonth]
      split <;> omega
  · rw [EraDay.dayOfMonth]
    rw [EraDay.month] at hfeb ⊢
    generalize e.monthIndex = mp at hbounds hfeb ⊢
    obtain ⟨hle, hlow, hhigh⟩ := hbounds
    interval_cases mp <;> simp_all [daysInMonth] <;> omega

lemma isDate_dateOfDays {days : Int} {year : Nat} (hyear : (dateOfDays days).1 = year) :
    IsDate year (dateOfDays days).2.1 (dateOfDays days).2.2 := by
  obtain ⟨era, e, rfl⟩ := exists_eraDay days
  rw [dateOfDays_eraDay] at hyear ⊢
  exact isDate_eraDay hyear

variable {year month day : Nat}

lemma IsDate.exists_eraDay (h : IsDate year month day) :
    ∃ era, ∃ e : EraDay, e.calendarYear era = year ∧ e.month = month ∧ e.dayOfMonth = day := by
  obtain ⟨hmonth, hmonth', hday, hday'⟩ := h
  obtain ⟨y, hy⟩ : ∃ y : Int, y = if month ≤ 2 then (year : Int) - 1 else year := ⟨_, rfl⟩
  -- the day of the year from March on, and its month
  obtain ⟨doy, hdoy, hle, hindex, hleap⟩ : ∃ doy, doy = (153 * ((month + 9) % 12) + 2) / 5 + day - 1 ∧ doy ≤ 365 ∧
      (5 * doy + 2) / 153 = (month + 9) % 12 ∧ (doy = 365 → month = 2 ∧ isLeapYear year = true) := by
    refine ⟨_, rfl, ?_⟩
    by_cases hfeb : month = 2
    · subst hfeb
      rw [daysInMonth] at hday'
      have hlong : day ≤ 29 := by split at hday' <;> omega
      refine ⟨by omega, by omega, fun h365 => ⟨rfl, ?_⟩⟩
      by_contra hcommon
      rw [if_neg hcommon] at hday'
      omega
    · interval_cases month <;> simp only [daysInMonth] at hday' <;> omega
  have hspan : doy = 365 → y % 4 = 3 ∧ (y % 400 % 100 / 4 = 24 → y % 400 / 100 = 3) := by
    intro h365
    obtain ⟨hfeb, hyear⟩ := hleap h365
    simp only [isLeapYear, Bool.and_eq_true, Bool.or_eq_true, beq_iff_eq, bne_iff_ne] at hyear
    rw [if_pos (by omega)] at hy
    omega
  let e : EraDay :=
    ⟨y % 400 / 100, y % 400 % 100 / 4, y % 4, doy, by omega, by omega, by omega, by omega, by omega, by omega, hle,
      by omega⟩
  have hmp : e.monthIndex = (month + 9) % 12 := hindex
  have hmonthEq : e.month = month := by
    rw [EraDay.month, hmp]
    split <;> omega
  have hyearOfEra : e.yearOfEra = y % 400 := by
    change 100 * (y % 400 / 100) + 4 * (y % 400 % 100 / 4) + y % 4 = y % 400
    omega
  refine ⟨y / 400, e, ?_, hmonthEq, ?_⟩
  · rw [EraDay.calendarYear, hmonthEq, hyearOfEra]
    split at hy
    · rw [if_pos (by assumption)]
      omega
    · rw [if_neg (by assumption)]
      omega
  · rw [EraDay.dayOfMonth, hmp]
    change doy - _ + 1 = day
    omega

lemma IsDate.dateOfDays_daysOfDate (h : IsDate year month day) :
    dateOfDays (daysOfDate year month day) = ((year : Int), month, day) := by
  obtain ⟨era, e, hyear, hmonth, hday⟩ := h.exists_eraDay
  rw [← hyear, ← hmonth, ← hday, daysOfDate_eraDay, dateOfDays_eraDay]

variable {rest cs : List Char} {t : Instant} {offset : Int} {width n : Nat}

/-! ### Digits -/

lemma foldl_digits (ds : List Char) (a : Nat) :
    ds.foldl (fun a c => a * 10 + (c.toNat - '0'.toNat)) a = Nat.ofDigitChars 10 ds a := by
  rw [Nat.ofDigitChars_eq_foldl]
  simp only [Nat.mul_comm]

lemma toList_padded (width n : Nat) : (padded width n).toList =
      List.replicate (width - (Nat.toDigits 10 n).length) '0' ++ Nat.toDigits 10 n := by
  rw [padded, String.toList_ofList]

lemma length_padded (hwidth : 0 < width) (hn : n < 10 ^ width) : (padded width n).toList.length = width := by
  have hlength : (Nat.toDigits 10 n).length ≤ width := (Nat.length_toDigits_le_iff (by decide) hwidth).2 hn
  rw [toList_padded, length_append, length_replicate]
  omega

lemma isDigit_of_mem_padded {c : Char} (h : c ∈ (padded width n).toList) : c.isDigit := by
  rw [toList_padded] at h
  rcases mem_append.1 h with h | h
  · rw [eq_of_mem_replicate h]
    decide
  · exact Nat.isDigit_of_mem_toDigits (by decide) (by decide) h

lemma ofDigitChars_padded (width n : Nat) : Nat.ofDigitChars 10 (padded width n).toList 0 = n := by
  rw [toList_padded, Nat.ofDigitChars_append, Nat.ofDigitChars_replicate_zero, Nat.mul_zero,
    Nat.ofDigitChars_ten_toDigits]

lemma fixedNumber?_padded (hwidth : 0 < width) (hn : n < 10 ^ width) (rest : List Char) :
    fixedNumber? width ((padded width n).toList ++ rest) = some (n, rest) := by
  have hlength := length_padded hwidth hn
  have hdigits : (padded width n).toList.all Char.isDigit := all_eq_true.2 fun c hc => isDigit_of_mem_padded hc
  rw [fixedNumber?, take_left' hlength, drop_left' hlength, foldl_digits, ofDigitChars_padded]
  simp [hlength, hdigits]

lemma hour?_padded {n : Nat} (hn : n < 10 ^ 2) (rest : List Char) :
    hour? ((padded 2 n).toList ++ rest) = some (n, rest) := by
  rw [hour?, fixedNumber?_padded (by decide) hn]

/-! ### Fractions -/

/-- Whether a text can follow the seconds: it starts with neither a digit nor a mark of a
fraction. -/
def EndsSeconds (rest : List Char) : Prop :=
  ∀ c ∈ rest.head?, c.isDigit = false ∧ c ≠ '.' ∧ c ≠ ','

lemma fraction_of_endsSeconds (h : EndsSeconds rest) : fraction rest = (0, rest) := by
  cases rest with
  | nil => rfl
  | cons c rest =>
    obtain ⟨-, hdot, hcomma⟩ := h c rfl
    simp [fraction, hdot, hcomma]

lemma eq_append_replicate_of_dropWhile (ds : List Char) :
    ∃ k, ds = (ds.reverse.dropWhile (· == '0')).reverse ++ List.replicate k '0' := by
  refine ⟨(ds.reverse.takeWhile (· == '0')).length, ?_⟩
  have hzeros : ds.reverse.takeWhile (· == '0') = replicate (ds.reverse.takeWhile (· == '0')).length '0' :=
    eq_replicate_of_mem fun c hc => by simpa using mem_takeWhile_imp hc
  have hsplit := congrArg reverse (takeWhile_append_dropWhile (p := (· == '0')) (l := ds.reverse))
  rw [reverse_append, reverse_reverse, hzeros, reverse_replicate] at hsplit
  exact hsplit.symm

lemma fraction_fractionText {n : Nat} (hn : n < 10 ^ 9) (h : EndsSeconds rest) :
    fraction ((fractionText n).toList ++ rest) = (n, rest) := by
  by_cases hzero : n = 0
  · subst hzero
    exact fraction_of_endsSeconds h
  obtain ⟨k, hk⟩ := eq_append_replicate_of_dropWhile (padded 9 n).toList
  generalize hds : ((padded 9 n).toList.reverse.dropWhile (· == '0')).reverse = ds at hk
  have htext : (fractionText n).toList = '.' :: ds := by
    rw [fractionText, if_neg (by simpa using hzero), hds, String.toList_append, show ".".toList = ['.'] from rfl,
      String.toList_ofList, singleton_append]
  have hlength : ds.length + k = 9 := by
    have := length_padded (by decide : 0 < 9) hn
    rwa [hk, length_append, length_replicate] at this
  have hvalue : Nat.ofDigitChars 10 ds 0 * 10 ^ k = n := by
    have := ofDigitChars_padded 9 n
    rwa [hk, Nat.ofDigitChars_append, Nat.ofDigitChars_replicate_zero, Nat.mul_comm] at this
  have hdigits : ∀ c ∈ ds, c.isDigit := by
    intro c hc
    exact isDigit_of_mem_padded (hk ▸ mem_append_left _ hc)
  have hne : ds ≠ [] := by
    rintro rfl
    rw [Nat.ofDigitChars_nil, Nat.zero_mul] at hvalue
    exact hzero hvalue.symm
  obtain ⟨htake, hdrop⟩ : (ds ++ rest).takeWhile Char.isDigit = ds ∧ (ds ++ rest).dropWhile Char.isDigit = rest := by
    have hstop : rest.takeWhile Char.isDigit = [] ∧ rest.dropWhile Char.isDigit = rest := by
      cases rest with
      | nil => exact ⟨rfl, rfl⟩
      | cons c rest => simp [(h c rfl).1]
    rw [takeWhile_append_of_pos hdigits, dropWhile_append_of_pos hdigits, hstop.1, hstop.2]
    simp
  have hkept : ds.take 9 = ds := take_of_length_le (by omega)
  obtain ⟨d, ds', rfl⟩ := exists_cons_of_ne_nil hne
  have hexponent : 9 - (d :: ds').length = k := by omega
  have hmark : ('.' == '.' || '.' == ',') := rfl
  rw [htext, cons_append, fraction, if_pos hmark, htake, hdrop]
  change ((take 9 (d :: ds')).foldl _ 0 * 10 ^ (9 - (take 9 (d :: ds')).length), rest) = (n, rest)
  rw [hkept, foldl_digits, hexponent, hvalue]

/-! ### Distances from universal time -/

lemma endsSeconds_offsetText (offset : Int) : EndsSeconds (offsetText offset).toList := by
  intro c hc
  rw [offsetText] at hc
  split at hc
  · obtain rfl : 'Z' = c := by simpa using hc
    decide
  · split at hc
    all_goals
      simp only [String.toList_append, append_assoc] at hc
      cases hc
      decide

lemma offset?_of_padded {sign : Char} (hsign : sign ∈ ['+', '-']) {h m : Nat} (hh : h < 24) (hm : m < 60) :
    offset? (sign :: ((padded 2 h).toList ++ (':' :: (padded 2 m).toList))) =
      some (if sign = '+' then ((h : Int) * 60 + m) * 60 else -(((h : Int) * 60 + m) * 60)) := by
  obtain ⟨a, b, hab⟩ : ∃ a b, (padded 2 h).toList = [a, b] := length_eq_two.1 (length_padded (by decide) (by omega))
  obtain ⟨c, d, hcd⟩ : ∃ c d, (padded 2 m).toList = [c, d] := length_eq_two.1 (length_padded (by decide) (by omega))
  have hhour := fixedNumber?_padded (by decide : 0 < 2) (show h < 10 ^ 2 by omega) []
  have hminute := fixedNumber?_padded (by decide : 0 < 2) (show m < 10 ^ 2 by omega) []
  rw [hab, append_nil] at hhour
  rw [hcd, append_nil] at hminute
  rw [hab, hcd]
  have hrange : ¬ (24 < h ∨ 60 < m) := by omega
  have hsigns : sign = '+' ∨ sign = '-' := by simpa using hsign
  rcases hsigns with rfl | rfl <;> simp [offset?, hhour, hminute, hrange]

/-- Whether an instant can be written without loss, its distance from universal time in minutes. -/
structure IsStandard (t : Instant) : Prop where
  fault?_eq : t.fault? = none
  minutes : t.offset % 60 = 0

lemma offset?_offsetText (hlt : offset.natAbs < 24 * 3600) (hminutes : offset % 60 = 0) :
    offset? (offsetText offset).toList = some offset := by
  by_cases hzero : offset = 0
  · subst hzero
    rfl
  have htext : (offsetText offset).toList = (if offset < 0 then '-' else '+') ::
      ((padded 2 (offset.natAbs / 60 / 60)).toList ++ (':' :: (padded 2 (offset.natAbs / 60 % 60)).toList)) := by
    have hplus : "+".toList = ['+'] := rfl
    have hminus : "-".toList = ['-'] := rfl
    have hcolon : ":".toList = [':'] := rfl
    rw [offsetText, if_neg (by simpa using hzero)]
    split <;> simp only [String.toList_append, hplus, hminus, hcolon, append_assoc, cons_append, nil_append]
  have hsign : (if offset < 0 then '-' else '+') ∈ ['+', '-'] := by split <;> simp
  rw [htext, offset?_of_padded hsign (by omega) (by omega), some_inj]
  by_cases hneg : offset < 0
  · rw [if_pos hneg, if_neg (by decide)]
    omega
  · rw [if_neg hneg, if_pos rfl]
    omega

/-! ### Whole texts -/

lemma expect?_cons (c : Char) (cs : List Char) : expect? c (c :: cs) = some cs := by
  rw [expect?, beq_self_eq_true, if_pos rfl]

/-- The parts of a local time, as far as they can be written. -/
structure IsLocal (year month day hour minute second nanos : Nat) : Prop where
  date : IsDate year month day
  year_le : year ≤ 9999
  hour_le : hour ≤ 23
  minute_le : minute ≤ 59
  second_le : second ≤ 59
  nanos_lt : nanos < 10 ^ 9

lemma date?_text (hyear : year < 10 ^ 4) (hmonth : month < 10 ^ 2) (hday : day < 10 ^ 2) (rest : List Char) :
    date? ((padded 4 year).toList ++ ('-' :: ((padded 2 month).toList ++ ('-' :: ((padded 2 day).toList ++ rest))))) =
      some ((year, month, day), rest) := by
  simp only [date?, fixedNumber?_padded (by decide : 0 < 4) hyear, fixedNumber?_padded (by decide : 0 < 2) hmonth,
    fixedNumber?_padded (by decide : 0 < 2) hday, expect?_cons, bind_eq_bind, bind_some]

lemma clock?_text {hour minute second nanos : Nat} (hhour : hour < 10 ^ 2) (hminute : minute < 10 ^ 2)
    (hsecond : second < 10 ^ 2) (hnanos : nanos < 10 ^ 9) (hrest : EndsSeconds rest) :
    clock? ((padded 2 hour).toList ++ (':' :: ((padded 2 minute).toList ++ (':' :: ((padded 2 second).toList ++
      ((fractionText nanos).toList ++ rest)))))) = some ((hour, minute, second, nanos), rest) := by
  simp only [clock?, hour?_padded hhour, fixedNumber?_padded (by decide : 0 < 2) hminute,
    fixedNumber?_padded (by decide : 0 < 2) hsecond, fraction_fractionText hnanos hrest, expect?_cons,
    bind_eq_bind, bind_some]

def partsText (year month day hour minute second nanos : Nat) : String :=
  padded 4 year ++ "-" ++ padded 2 month ++ "-" ++ padded 2 day ++ "T" ++ padded 2 hour ++ ":" ++ padded 2 minute ++
    ":" ++ padded 2 second ++ fractionText nanos

lemma IsLocal.day_lt {year month day hour minute second nanos : Nat}
    (h : IsLocal year month day hour minute second nanos) : day < 10 ^ 2 := by
  obtain ⟨hmonth, hmonth', -, hday⟩ := h.date
  have hle : daysInMonth year month ≤ 31 := by
    rw [daysInMonth.eq_def]
    split
    · split <;> omega
    all_goals decide
  omega

lemma parse?_partsText {year month day hour minute second nanos : Nat}
    (h : IsLocal year month day hour minute second nanos) (hlt : offset.natAbs < 24 * 3600) (hminutes : offset % 60 = 0) :
    parse? (partsText year month day hour minute second nanos ++ offsetText offset) =
      some ⟨(daysOfDate year month day * 86400 + (hour * 3600 + minute * 60 + second : Nat) - offset) *
        nanosPerSecond + nanos, offset⟩ := by
  have hday31 := h.day_lt
  obtain ⟨⟨hmonth, hmonth', hday, hday'⟩, hyear, hhour, hminute, hsecond, hnanos⟩ := h
  have hvalid : ¬ (decide (month < 1) || decide (12 < month) || decide (day < 1) ||
      decide (daysInMonth year month < day) || decide (23 < hour) || decide (59 < minute) ||
      decide (59 < second)) = true := by
    simp only [Bool.or_eq_true, decide_eq_true_eq]
    omega
  have hchars : (partsText year month day hour minute second nanos ++ offsetText offset).toList =
      (padded 4 year).toList ++ ('-' :: ((padded 2 month).toList ++ ('-' :: ((padded 2 day).toList ++ ('T' ::
        ((padded 2 hour).toList ++ (':' :: ((padded 2 minute).toList ++ (':' :: ((padded 2 second).toList ++
          ((fractionText nanos).toList ++ (offsetText offset).toList))))))))))) := by
    have hdash : "-".toList = ['-'] := rfl
    have hcolon : ":".toList = [':'] := rfl
    have hmark : "T".toList = ['T'] := rfl
    simp only [partsText, String.toList_append, hdash, hcolon, hmark, append_assoc, cons_append, nil_append]
  have hclock := clock?_text (show hour < 10 ^ 2 by omega) (show minute < 10 ^ 2 by omega)
    (show second < 10 ^ 2 by omega) hnanos (endsSeconds_offsetText offset)
  rw [parse?, hchars, date?_text (by omega) (by omega) hday31]
  simp only [bind_eq_bind, bind_some, expect?_cons, hclock, offset?_offsetText hlt hminutes, if_neg hvalid]

lemma fault?_eq_none_iff : t.fault? = none ↔ 0 ≤ t.localYear ∧ t.localYear ≤ 9999 ∧ t.offset.natAbs < 24 * 3600 := by
  rw [fault?]
  split
  · next hyear =>
    simp only [Bool.or_eq_true, decide_eq_true_eq] at hyear
    constructor
    · intro h
      contradiction
    · omega
  · next hyear =>
    simp only [Bool.or_eq_true, decide_eq_true_eq, not_or] at hyear
    split
    · constructor
      · intro h
        contradiction
      · omega
    · exact ⟨fun _ => by omega, fun _ => rfl⟩

lemma IsStandard.parse?_text (h : t.IsStandard) : parse? t.text = some t := by
  obtain ⟨hyear0, hyear, hoffset⟩ := fault?_eq_none_iff.1 h.fault?_eq
  obtain ⟨year, hlocal⟩ : ∃ year : Nat, t.localYear = year := ⟨t.localYear.toNat, by omega⟩
  let seconds := Int.fdiv t.localNanos nanosPerSecond
  let rest := (Int.fmod seconds 86400).toNat
  let nanos := (Int.fmod t.localNanos nanosPerSecond).toNat
  have hdays : daysOfDate year t.localDate.2.1 t.localDate.2.2 = Int.fdiv seconds 86400 := by
    rw [← hlocal]
    exact daysOfDate_dateOfDays _
  have hseconds : Int.fdiv seconds 86400 * 86400 + (rest : Int) = seconds := by
    simp only [rest]
    rw [Int.fdiv_eq_ediv_of_nonneg _ (by decide), Int.fmod_eq_emod_of_nonneg _ (by decide)]
    omega
  have hnanos : seconds * nanosPerSecond + (nanos : Int) = t.localNanos ∧ nanos < 10 ^ 9 := by
    simp only [seconds, nanos, nanosPerSecond]
    rw [Int.fdiv_eq_ediv_of_nonneg _ (by decide), Int.fmod_eq_emod_of_nonneg _ (by decide)]
    omega
  have hrest : rest < 86400 := by
    simp only [rest]
    rw [Int.fmod_eq_emod_of_nonneg _ (by decide)]
    omega
  have htext : t.text = partsText year t.localDate.2.1 t.localDate.2.2 (rest / 3600) (rest / 60 % 60) (rest % 60) nanos ++
      offsetText t.offset := by
    rw [show year = t.localYear.toNat by omega]
    rfl
  have hparts : IsLocal year t.localDate.2.1 t.localDate.2.2 (rest / 3600) (rest / 60 % 60) (rest % 60) nanos :=
    ⟨isDate_dateOfDays hlocal, by omega, by omega, by omega, by omega, hnanos.2⟩
  rw [htext, parse?_partsText hparts hoffset h.minutes, hdays]
  have hclock : rest / 3600 * 3600 + rest / 60 % 60 * 60 + rest % 60 = rest := by omega
  rw [hclock, hseconds, Int.sub_mul, show (seconds * nanosPerSecond - t.offset * nanosPerSecond + (nanos : Int)) =
    seconds * nanosPerSecond + nanos - t.offset * nanosPerSecond by omega, hnanos.1, localNanos, Int.add_sub_cancel]

lemma isAscii_padded (width n : Nat) : Text.IsAscii (padded width n) :=
  Text.isAscii_of_digits fun _ hc => isDigit_of_mem_padded hc

lemma isAscii_fractionText (n : Nat) : Text.IsAscii (fractionText n) := by
  rw [fractionText]
  split
  · decide
  · refine Text.IsAscii.append (by decide) (Text.isAscii_of_digits fun c hc => ?_)
    rw [String.toList_ofList, mem_reverse] at hc
    exact isDigit_of_mem_padded (mem_reverse.1 ((dropWhile_sublist _).mem hc))

lemma isAscii_offsetText (offset : Int) : Text.IsAscii (offsetText offset) := by
  rw [offsetText]
  split
  · decide
  · have hsign : Text.IsAscii (if offset < 0 then "-" else "+") := by split <;> decide
    exact ((hsign.append (isAscii_padded _ _)).append (by decide)).append (isAscii_padded _ _)

lemma isAscii_text (t : Instant) : Text.IsAscii t.text := by
  have hmark {s : String} (hs : Text.IsAscii s) (n width : Nat) {mark : String} (h : Text.IsAscii mark) :
      Text.IsAscii (s ++ mark ++ padded width n) := (hs.append h).append (isAscii_padded width n)
  refine Text.IsAscii.append ?_ (isAscii_offsetText t.offset)
  refine Text.IsAscii.append ?_ (isAscii_fractionText _)
  exact hmark (hmark (hmark (hmark (hmark (isAscii_padded _ _) _ _ (by decide)) _ _ (by decide)) _ _ (by decide)) _ _
    (by decide)) _ _ (by decide)

/-! ### What is read -/

lemma ofDigitChars_lt {ds : List Char} (h : ∀ c ∈ ds, c.isDigit) : Nat.ofDigitChars 10 ds 0 < 10 ^ ds.length := by
  induction ds with
  | nil => decide
  | cons c ds ih =>
    rw [forall_mem_cons] at h
    have hrest := ih h.2
    have hdigit : c.toNat - '0'.toNat ≤ 9 := by
      have hle : c.toNat ≤ '9'.toNat := by
        have hc := h.1
        simp only [Char.isDigit, Bool.and_eq_true, decide_eq_true_eq] at hc
        exact UInt32.le_iff_toNat_le.1 hc.2
      exact Nat.sub_le_of_le_add hle
    have hmul : 10 ^ ds.length * (c.toNat - '0'.toNat) ≤ 10 ^ ds.length * 9 := Nat.mul_le_mul_left _ hdigit
    rw [Nat.ofDigitChars_cons, Nat.mul_zero, Nat.zero_add, Nat.ofDigitChars_eq_ofDigitChars_zero, length_cons,
      Nat.pow_succ]
    omega

lemma lt_of_fixedNumber? (h : fixedNumber? width cs = some (n, rest)) : n < 10 ^ width := by
  rw [fixedNumber?] at h
  split at h
  · next hdigits =>
    simp only [Bool.and_eq_true, beq_iff_eq, List.all_eq_true] at hdigits
    obtain ⟨rfl, -⟩ := Prod.mk.inj (Option.some.inj h)
    rw [foldl_digits]
    have hlt := ofDigitChars_lt hdigits.2
    rwa [hdigits.1] at hlt
  · contradiction

lemma fraction_lt (cs : List Char) : (fraction cs).1 < 10 ^ 9 := by
  cases cs with
  | nil => decide
  | cons c rest =>
    rw [fraction]
    split
    · split
      · exact Nat.pow_pos (by decide)
      · next hds =>
        have hdigits : ∀ d ∈ (rest.takeWhile Char.isDigit).take 9, d.isDigit :=
          fun d hd => mem_takeWhile_imp (mem_of_mem_take hd)
        have hlt := ofDigitChars_lt hdigits
        have hle : ((rest.takeWhile Char.isDigit).take 9).length ≤ 9 := length_take_le 9 _
        generalize (rest.takeWhile Char.isDigit).take 9 = kept at hlt hle ⊢
        dsimp only
        rw [foldl_digits]
        calc Nat.ofDigitChars 10 kept 0 * 10 ^ (9 - kept.length)
            < 10 ^ kept.length * 10 ^ (9 - kept.length) := Nat.mul_lt_mul_of_pos_right hlt (Nat.pow_pos (by decide))
          _ = 10 ^ 9 := by rw [← Nat.pow_add, Nat.add_sub_cancel' hle]
    · exact Nat.pow_pos (by decide)

lemma offset?_mod (h : offset? cs = some offset) : offset % 60 = 0 := by
  rw [offset?.eq_def] at h
  split at h
  · cases h
    rfl
  · simp only [bind_eq_bind, bind_eq_some_iff] at h
    obtain ⟨⟨hours, _⟩, -, ⟨minutes, _⟩, -, h⟩ := h
    simp only [ite_none_left_eq_some] at h
    obtain ⟨-, h⟩ := h
    split at h
    · cases h
      omega
    · split at h
      · cases h
        omega
      · contradiction
  · contradiction

lemma lt_of_date? (h : date? cs = some ((year, month, day), rest)) : year < 10 ^ 4 := by
  simp only [date?, bind_eq_bind, bind_eq_some_iff] at h
  obtain ⟨⟨y, cs₁⟩, hyear, -, -, ⟨m, cs₂⟩, -, -, -, ⟨d, cs₃⟩, -, h⟩ := h
  obtain ⟨⟨rfl, -⟩, -⟩ : (y = year ∧ m = month ∧ d = day) ∧ cs₃ = rest := by simpa using h
  exact lt_of_fixedNumber? hyear

lemma lt_of_clock? {hour minute second nanos : Nat} (h : clock? cs = some ((hour, minute, second, nanos), rest)) :
    nanos < 10 ^ 9 := by
  simp only [clock?, bind_eq_bind, bind_eq_some_iff] at h
  obtain ⟨⟨hr, cs₁⟩, -, -, -, ⟨mi, cs₂⟩, -, -, -, ⟨se, cs₃⟩, -, h⟩ := h
  obtain ⟨⟨-, -, -, rfl⟩, -⟩ : (hr = hour ∧ mi = minute ∧ se = second ∧ (fraction cs₃).1 = nanos) ∧
    (fraction cs₃).2 = rest := by simpa using h
  exact fraction_lt cs₃

lemma exists_isLocal_of_parse? {s : String} (h : parse? s = some t) :
    ∃ year month day hour minute second nanos, IsLocal year month day hour minute second nanos ∧ t.offset % 60 = 0 ∧
      t.nanos = (daysOfDate year month day * 86400 + (hour * 3600 + minute * 60 + second : Nat) - t.offset) *
        nanosPerSecond + nanos := by
  simp only [parse?, bind_eq_bind, bind_eq_some_iff] at h
  obtain ⟨⟨⟨year, month, day⟩, cs₁⟩, hdate, cs₂, -, ⟨⟨hour, minute, second, nanos⟩, cs₃⟩, hclock, offset, hoffset,
    h⟩ := h
  simp only [ite_none_left_eq_some] at h
  obtain ⟨hvalid, h⟩ := h
  cases h
  simp only [Bool.or_eq_true, decide_eq_true_eq] at hvalid
  have hyear := lt_of_date? hdate
  refine ⟨year, month, day, hour, minute, second, nanos, ⟨⟨?_, ?_, ?_, ?_⟩, ?_, ?_, ?_, ?_, lt_of_clock? hclock⟩,
    offset?_mod hoffset, rfl⟩ <;> omega

lemma isStandard_of_parse? {s : String} (h : parse? s = some t) (hoffset : t.offset.natAbs < 24 * 3600) :
    t.IsStandard := by
  obtain ⟨year, month, day, hour, minute, second, nanos, hlocal, hminutes, hnanos⟩ := exists_isLocal_of_parse? h
  obtain ⟨hdate, hyear, hhour, hminute, hsecond, hlt⟩ := hlocal
  have hseconds : Int.fdiv t.localNanos nanosPerSecond =
      daysOfDate year month day * 86400 + (hour * 3600 + minute * 60 + second : Nat) := by
    rw [localNanos, hnanos, nanosPerSecond, Int.fdiv_eq_ediv_of_nonneg _ (by decide)]
    omega
  have hdays : Int.fdiv (Int.fdiv t.localNanos nanosPerSecond) 86400 = daysOfDate year month day := by
    rw [hseconds, Int.fdiv_eq_ediv_of_nonneg _ (by decide)]
    omega
  have hlocalYear : t.localYear = year := by
    rw [localYear, localDate, hdays, hdate.dateOfDays_daysOfDate]
  refine ⟨fault?_eq_none_iff.2 ⟨?_, ?_, hoffset⟩, hminutes⟩ <;> omega

end BytecodeAudit.Instant
