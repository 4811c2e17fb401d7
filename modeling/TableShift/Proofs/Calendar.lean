import Mathlib.Algebra.Ring.Nat
import TableShift.Migration.Stamp

/-! # Counting through the calendar

A stamp that is counted on by seconds is again a date of the calendar with a time of day,
and it stands for that number of seconds. Of two such stamps the one that counts fewer
seconds is the earlier one, looked at year first, then month, day and time of day. So no
end of a minute, a month or a leap year disturbs the order.
-/

namespace TableShift.Stamp

/-! ## Years -/

def yearLength (year : Int) : Nat :=
  if isLeap year then 366 else 365

theorem isLeap_iff {year : Int} :
    isLeap year = true ↔ year % 4 = 0 ∧ (year % 100 ≠ 0 ∨ year % 400 = 0) := by
  simp [isLeap]

theorem daysBeforeYear_succ (year : Int) :
    daysBeforeYear (year + 1) = daysBeforeYear year + yearLength year := by
  simp only [daysBeforeYear, yearLength, isLeap_iff]
  split <;> omega

theorem daysBeforeYear_mono {year later : Int} (h : year ≤ later) :
    daysBeforeYear year ≤ daysBeforeYear later := by
  simp only [daysBeforeYear]
  omega

section Spans

-- A year as a number of full spans of 400, 100, 4 and 1 years since year 1.
variable (span400 : Int) {span100 span4 span1 : Nat}
  (h100 : span100 ≤ 3) (h4 : span4 ≤ 24) (h1 : span1 ≤ 3)
include h100 h4 h1

theorem daysBeforeYear_spans :
    daysBeforeYear (span400 * 400 + (span100 * 100 + span4 * 4 + span1 : Nat) + 1) =
      span400 * 146097 + (span100 * 36524 + span4 * 1461 + span1 * 365 : Nat) := by
  simp only [daysBeforeYear]
  omega

theorem isLeap_spans :
    isLeap (span400 * 400 + (span100 * 100 + span4 * 4 + span1 : Nat) + 1) = true ↔
      span1 = 3 ∧ (span4 = 24 → span100 = 3) := by
  rw [isLeap_iff]
  omega

end Spans

/-- A day is found in its year: so many days before the year, and so many in it. -/
theorem yearOfDay_spec (n : Int) :
    daysBeforeYear (yearOfDay n).1 + (yearOfDay n).2 = n ∧
      (yearOfDay n).2 < yearLength (yearOfDay n).1 := by
  obtain ⟨days, within⟩ : ∃ days, (n % 146097).toNat = days := ⟨_, rfl⟩
  simp only [yearOfDay, within]
  have h100 : min (days / 36524) 3 ≤ 3 := Nat.min_le_right ..
  have h4 : (days - min (days / 36524) 3 * 36524) / 1461 ≤ 24 := by omega
  have h1 : min ((days - min (days / 36524) 3 * 36524) % 1461 / 365) 3 ≤ 3 := Nat.min_le_right ..
  constructor
  · rw [daysBeforeYear_spans _ h100 h4 h1]
    omega
  · simp only [yearLength, isLeap_spans _ h100 h4 h1]
    split <;> omega

/-! ## Months -/

theorem sum_monthLengths (year : Int) : (monthLengths (isLeap year)).sum = yearLength year := by
  unfold yearLength
  cases isLeap year <;> rfl

theorem daysInMonths_lt {month later length : Nat} {lengths : List Nat} (h : month < later)
    (there : lengths[month]? = some length) :
    daysInMonths month lengths + length ≤ daysInMonths later lengths := by
  induction lengths generalizing month later with
  | nil => simp at there
  | cons first lengths ih =>
      obtain ⟨later, rfl⟩ := Nat.exists_eq_add_of_lt h
      cases month with
      | zero =>
          cases Option.some.inj there
          simp [daysInMonths]
      | succ month =>
          have rest := ih (show month < month + later + 1 by omega) there
          rw [show month + 1 + later + 1 = month + later + 1 + 1 by omega]
          simp only [daysInMonths]
          omega

theorem daysInMonths_le_sum {month length : Nat} {lengths : List Nat}
    (there : lengths[month]? = some length) :
    daysInMonths month lengths + length ≤ lengths.sum := by
  induction lengths generalizing month with
  | nil => simp at there
  | cons first lengths ih =>
      cases month with
      | zero =>
          cases Option.some.inj there
          simp [daysInMonths]
      | succ month =>
          have rest := ih (show lengths[month]? = some length from there)
          simp only [daysInMonths, List.sum_cons]
          omega

theorem monthOfDay_spec (month : Nat) {n : Nat} {lengths : List Nat} (h : n < lengths.sum) :
    ∃ before day length, monthOfDay month n lengths = (month + before, day + 1) ∧
      daysInMonths before lengths + day = n ∧ lengths[before]? = some length ∧ day < length := by
  induction lengths generalizing month n with
  | nil => simp at h
  | cons first lengths ih =>
      rw [List.sum_cons] at h
      rw [monthOfDay]
      split
      next within => exact ⟨0, n, first, rfl, by simp [daysInMonths], rfl, within⟩
      next past =>
        obtain ⟨before, day, length, found, days, there, inside⟩ :=
          ih (month + 1) (n := n - first) (by omega)
        refine ⟨before + 1, day, length, ?_, ?_, there, inside⟩
        · rw [found, Nat.add_right_comm, Nat.add_assoc]
        · simp only [daysInMonths]
          omega

/-! ## Stamps -/

/-- A date of the calendar and a time of day. -/
structure Valid (s : Stamp) : Prop where
  month : 1 ≤ s.month
  day : 1 ≤ s.day
  inMonth : ∃ length, (monthLengths (isLeap s.year))[s.month - 1]? = some length ∧ s.day ≤ length
  hour : s.hour < 24
  minute : s.minute < 60
  second : s.second < 60

/-- Days before a date in its year. -/
def dayOfYear (s : Stamp) : Nat :=
  daysInMonths (s.month - 1) (monthLengths (isLeap s.year)) + (s.day - 1)

theorem dayNumber_eq (s : Stamp) : s.dayNumber = daysBeforeYear s.year + s.dayOfYear := rfl

theorem Valid.dayOfYear_lt {s : Stamp} (h : s.Valid) : s.dayOfYear < yearLength s.year := by
  obtain ⟨length, there, inside⟩ := h.inMonth
  have days := daysInMonths_le_sum there
  have first := h.day
  rw [sum_monthLengths] at days
  simp only [dayOfYear]
  omega

theorem Valid.month_le {s : Stamp} (h : s.Valid) : s.month ≤ 12 := by
  obtain ⟨length, there, -⟩ := h.inMonth
  have := (List.getElem?_eq_some_iff.mp there).1
  simp only [monthLengths, List.length_cons, List.length_nil] at this
  omega

theorem Valid.day_le {s : Stamp} (h : s.Valid) : s.day ≤ 31 := by
  obtain ⟨length, there, inside⟩ := h.inMonth
  have longest : ∀ leap, ∀ length ∈ monthLengths leap, length ≤ 31 := by decide
  have := longest _ length (List.mem_of_getElem? there)
  omega

/-- A number of seconds leads to a date of the calendar and a time of day, at that number
    of seconds. -/
theorem ofSeconds_spec (n : Int) : (ofSeconds n).Valid ∧ (ofSeconds n).seconds = n := by
  obtain ⟨days, within⟩ := yearOfDay_spec (n / 86400)
  rw [← sum_monthLengths] at within
  obtain ⟨before, day, length, found, inYear, there, inside⟩ := monthOfDay_spec 1 within
  have fields : ofSeconds n =
      ⟨(yearOfDay (n / 86400)).1, 1 + before, day + 1, (n % 86400).toNat / 3600,
        (n % 86400).toNat / 60 % 60, (n % 86400).toNat % 60⟩ := by
    simp only [ofSeconds, found]
  rw [fields]
  constructor
  · refine ⟨by simp, by simp, ⟨length, by simpa using there, inside⟩, ?_, ?_, ?_⟩
    · simp only
      omega
    · exact Nat.mod_lt _ (by decide)
    · exact Nat.mod_lt _ (by decide)
  · simp only [seconds, dayNumber, Nat.add_sub_cancel_left, Nat.add_sub_cancel, inYear]
    omega

/-- One stamp is before another: in an earlier year, or in the same year in an earlier
    month, and so on. -/
inductive Earlier (s t : Stamp) : Prop where
  | year (earlier : s.year < t.year)
  | month (year : s.year = t.year) (earlier : s.month < t.month)
  | day (year : s.year = t.year) (month : s.month = t.month) (earlier : s.day < t.day)
  | hour (year : s.year = t.year) (month : s.month = t.month) (day : s.day = t.day)
      (earlier : s.hour < t.hour)
  | minute (year : s.year = t.year) (month : s.month = t.month) (day : s.day = t.day)
      (hour : s.hour = t.hour) (earlier : s.minute < t.minute)
  | second (year : s.year = t.year) (month : s.month = t.month) (day : s.day = t.day)
      (hour : s.hour = t.hour) (minute : s.minute = t.minute) (earlier : s.second < t.second)

theorem earlier_or_eq_or_earlier (s t : Stamp) : s.Earlier t ∨ s = t ∨ t.Earlier s := by
  rcases Int.lt_trichotomy s.year t.year with lt | year | gt
  · exact .inl (.year lt)
  · rcases Nat.lt_trichotomy s.month t.month with lt | month | gt
    · exact .inl (.month year lt)
    · rcases Nat.lt_trichotomy s.day t.day with lt | day | gt
      · exact .inl (.day year month lt)
      · rcases Nat.lt_trichotomy s.hour t.hour with lt | hour | gt
        · exact .inl (.hour year month day lt)
        · rcases Nat.lt_trichotomy s.minute t.minute with lt | minute | gt
          · exact .inl (.minute year month day hour lt)
          · rcases Nat.lt_trichotomy s.second t.second with lt | second | gt
            · exact .inl (.second year month day hour minute lt)
            · obtain ⟨⟩ := s
              obtain ⟨⟩ := t
              simp_all
            · exact .inr (.inr (.second year.symm month.symm day.symm hour.symm minute.symm gt))
          · exact .inr (.inr (.minute year.symm month.symm day.symm hour.symm gt))
        · exact .inr (.inr (.hour year.symm month.symm day.symm gt))
      · exact .inr (.inr (.day year.symm month.symm gt))
    · exact .inr (.inr (.month year.symm gt))
  · exact .inr (.inr (.year gt))

theorem dayOfYear_lt_of_month {s t : Stamp} (hs : s.Valid) (year : s.year = t.year)
    (earlier : s.month < t.month) : s.dayOfYear < t.dayOfYear := by
  obtain ⟨length, there, inside⟩ := hs.inMonth
  have first := hs.month
  have day := hs.day
  have spans := daysInMonths_lt (show s.month - 1 < t.month - 1 by omega) there
  simp only [dayOfYear, ← year]
  omega

theorem seconds_lt_of_earlier {s t : Stamp} (hs : s.Valid) (h : s.Earlier t) :
    s.seconds < t.seconds := by
  have inYear := hs.dayOfYear_lt
  have hour := hs.hour
  have minute := hs.minute
  have second := hs.second
  simp only [seconds, dayNumber_eq]
  cases h with
  | year earlier =>
      have spans := daysBeforeYear_succ s.year
      have later : daysBeforeYear (s.year + 1) ≤ daysBeforeYear t.year :=
        daysBeforeYear_mono (by omega)
      omega
  | month year earlier =>
      have days := dayOfYear_lt_of_month hs year earlier
      rw [← year]
      omega
  | day year month earlier =>
      have first := hs.day
      have days : s.dayOfYear < t.dayOfYear := by
        simp only [dayOfYear, ← year, ← month]
        omega
      rw [← year]
      omega
  | hour year month day earlier =>
      simp only [dayOfYear, ← year, ← month, ← day]
      omega
  | minute year month day hour earlier =>
      simp only [dayOfYear, ← year, ← month, ← day, ← hour]
      omega
  | second year month day hour minute earlier =>
      simp only [dayOfYear, ← year, ← month, ← day, ← hour, ← minute]
      omega

/-- Counting on leads from earlier to later stamps. -/
theorem earlier_ofSeconds {m n : Int} (h : m < n) : (ofSeconds m).Earlier (ofSeconds n) := by
  have countM := (ofSeconds_spec m).2
  obtain ⟨validN, countN⟩ := ofSeconds_spec n
  rcases earlier_or_eq_or_earlier (ofSeconds m) (ofSeconds n) with earlier | same | later
  · exact earlier
  · rw [← countM, ← countN, same] at h
    exact absurd h (Int.lt_irrefl _)
  · have := seconds_lt_of_earlier validN later
    omega

end TableShift.Stamp
