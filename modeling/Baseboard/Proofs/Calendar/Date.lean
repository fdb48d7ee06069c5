import Mathlib.Algebra.BigOperators.Group.List.Basic
import Mathlib.Algebra.GroupWithZero.Nat
import Mathlib.Data.List.Lex
import Baseboard.Calendar

/-!
# Baseboard.Proofs.Calendar.Date

Dates counted back to seconds, by a calendar of their own.  The count does not walk over
years and months: the days before a year are 365 for each year and one for each leap year in
between, by the rule of fours, hundreds and four hundreds, and the days before a month are
those of the months before it, which have 30 or 31 days, but February.  The months that dates
are found with have just these lengths (`monthLengths_eq`).

Main statements: dates and seconds correspond one to one, as what is found for a number of
seconds is a date in the calendar that counts back to just this number (`valid_ofUnix`,
`toUnix_ofUnix`) and every date in the calendar is found (`ofUnix_toUnix`); and dates are in the
order of their seconds (`Valid.toUnix_lt_iff`).
-/

namespace Baseboard

/-! ## Days before a year -/

/-- The leap years up to a year, counted from year 1. -/
def leapYearsUpTo (year : Nat) : Nat := year / 4 - year / 100 + year / 400

/-- The days from the start of 1970 to the start of a year. -/
def daysBeforeYear (year : Nat) : Nat :=
  365 * (year - 1970) + (leapYearsUpTo (year - 1) - leapYearsUpTo 1969)

/-- Whether a year has a 29th of February. -/
def IsLeap (year : Nat) : Prop := 4 ∣ year ∧ (100 ∣ year → 400 ∣ year)

instance : DecidablePred IsLeap := fun year =>
  inferInstanceAs (Decidable (4 ∣ year ∧ (100 ∣ year → 400 ∣ year)))

theorem isLeapYear_iff {year : Nat} : isLeapYear year = true ↔ IsLeap year := by
  simp only [isLeapYear, IsLeap, Nat.dvd_iff_mod_eq_zero, Bool.and_eq_true, Bool.or_eq_true,
    beq_iff_eq, bne_iff_ne, ne_eq, Decidable.imp_iff_not_or]

theorem leapYearsUpTo_succ (year : Nat) :
    leapYearsUpTo (year + 1) = leapYearsUpTo year + if isLeapYear (year + 1) then 1 else 0 := by
  have hcenturies : year / 100 ≤ year / 4 := Nat.div_le_div_left (by decide) (by decide)
  have h100 (h : 100 ∣ year + 1) : 4 ∣ year + 1 := Nat.dvd_trans (by decide) h
  have h400 (h : 400 ∣ year + 1) : 100 ∣ year + 1 := Nat.dvd_trans (by decide) h
  simp only [leapYearsUpTo, Nat.succ_div, isLeapYear_iff, IsLeap]
  -- Each quotient grows by one in its own years, so only their divisibilities are left.
  generalize year / 4 = fours, year / 100 = hundreds, year / 400 = others at hcenturies ⊢
  grind

theorem leapYearsUpTo_mono {year year' : Nat} (h : year ≤ year') :
    leapYearsUpTo year ≤ leapYearsUpTo year' := by
  induction h with
  | refl => exact Nat.le_refl _
  | step _ ih =>
      rw [leapYearsUpTo_succ]
      omega

theorem daysBeforeYear_succ {year : Nat} (h : 1970 ≤ year) :
    daysBeforeYear (year + 1) = daysBeforeYear year + yearLength year := by
  have hleaps := leapYearsUpTo_succ (year - 1)
  have hle : leapYearsUpTo 1969 ≤ leapYearsUpTo (year - 1) := leapYearsUpTo_mono (by omega)
  rw [Nat.sub_add_cancel (by omega)] at hleaps
  rw [daysBeforeYear, daysBeforeYear, yearLength, Nat.add_sub_cancel, hleaps]
  split <;> omega

theorem daysBeforeYear_mono {year year' : Nat} (h : year ≤ year') :
    daysBeforeYear year ≤ daysBeforeYear year' := by
  have hleaps : leapYearsUpTo (year - 1) ≤ leapYearsUpTo (year' - 1) :=
    leapYearsUpTo_mono (by omega)
  simp only [daysBeforeYear]
  omega

/-! ## Days before a month -/

/-- The days of a month, months counted from 1: thirty have April, June, September and
November. -/
def monthLength (year month : Nat) : Nat :=
  if month = 2 then if IsLeap year then 29 else 28
  else if month ∈ [4, 6, 9, 11] then 30
  else 31

/-- The days of a year before a month, months counted from 1. -/
def daysBeforeMonth (year month : Nat) : Nat :=
  ((List.range' 1 (month - 1)).map (monthLength year)).sum

theorem monthLength_le (year month : Nat) : monthLength year month ≤ 31 := by
  rw [monthLength]
  split
  · split <;> decide
  · split <;> decide

theorem daysBeforeMonth_succ {year month : Nat} (h : 1 ≤ month) :
    daysBeforeMonth year (month + 1) = daysBeforeMonth year month + monthLength year month := by
  obtain ⟨month, rfl⟩ := Nat.exists_eq_add_of_le' h
  rw [daysBeforeMonth, Nat.add_sub_cancel, List.range'_1_concat, List.map_append, List.sum_append,
    List.map_singleton, List.sum_singleton, daysBeforeMonth, Nat.add_sub_cancel, Nat.add_comm 1]

theorem daysBeforeMonth_mono {year month month' : Nat} (h : month ≤ month') :
    daysBeforeMonth year month ≤ daysBeforeMonth year month' := by
  induction h with
  | refl => exact Nat.le_refl _
  | @step month' _ ih =>
      cases month' with
      | zero => exact ih
      | succ month' =>
          rw [Nat.succ_eq_add_one, daysBeforeMonth_succ (by omega)]
          omega

/-! ## The months of the year that is found -/

theorem monthLengths_eq (year : Nat) :
    monthLengths year = (List.range' 1 12).map (monthLength year) := by
  have hfebruary : (if isLeapYear year then 29 else 28) = monthLength year 2 := by
    simp only [isLeapYear_iff, monthLength, if_true]
  rw [monthLengths, hfebruary]
  rfl

theorem monthLengths_getElem? {year i : Nat} (h : i < 12) :
    (monthLengths year)[i]? = some (monthLength year (i + 1)) := by
  rw [monthLengths_eq, List.getElem?_map, List.getElem?_range' h, Option.map_some, Nat.one_mul,
    Nat.add_comm]

/-- The first months make up the days before the next. -/
theorem sum_take_monthLengths {year i : Nat} (h : i ≤ 12) :
    ((monthLengths year).take i).sum = daysBeforeMonth year (i + 1) := by
  induction i with
  | zero => rfl
  | succ i ih =>
      rw [List.take_add_one, monthLengths_getElem? h, Option.toList_some, List.sum_append,
        ih (Nat.le_of_lt h), List.sum_singleton, daysBeforeMonth_succ (Nat.le_add_left 1 i)]

/-- The months make up the year. -/
theorem sum_monthLengths (year : Nat) : (monthLengths year).sum = yearLength year := by
  simp only [monthLengths, yearLength]
  split <;> rfl

theorem daysBeforeMonth_thirteen (year : Nat) : daysBeforeMonth year 13 = yearLength year := by
  rw [← sum_monthLengths, ← sum_take_monthLengths (Nat.le_refl 12)]
  rfl

/-! ## Dates and their seconds -/

namespace DateTime

/-- Whether a date from 1970 on is in the calendar, with a time of day. -/
structure Valid (t : DateTime) : Prop where
  year : 1970 ≤ t.year
  month : 1 ≤ t.month ∧ t.month ≤ 12
  day : 1 ≤ t.day ∧ t.day ≤ monthLength t.year t.month
  hour : t.hour < 24
  minute : t.minute < 60
  second : t.second < 60

/-- The days from the start of 1970 to a date. -/
def dayNumber (t : DateTime) : Nat :=
  daysBeforeYear t.year + daysBeforeMonth t.year t.month + (t.day - 1)

/-- The seconds from the start of 1970 to a date and time. -/
def toUnix (t : DateTime) : Nat :=
  86400 * t.dayNumber + 3600 * t.hour + 60 * t.minute + t.second

end DateTime

/-! ## Finding the date -/

theorem yearOfDay_spec {year days year' rest : Nat} (h : 1970 ≤ year)
    (hfound : yearOfDay year days = (year', rest)) :
    year ≤ year' ∧ rest < yearLength year' ∧
      daysBeforeYear year' + rest = daysBeforeYear year + days := by
  fun_induction yearOfDay year days with
  | case1 year days hlt =>
      obtain ⟨rfl, rfl⟩ := Prod.mk.inj hfound
      exact ⟨Nat.le_refl _, hlt, rfl⟩
  | case2 year days hge ih =>
      obtain ⟨hle, hlt, hsum⟩ := ih (by omega) hfound
      have hsucc := daysBeforeYear_succ h
      exact ⟨by omega, hlt, by omega⟩

/-- The days fall into the month that is found. -/
theorem monthOfDay_spec {lengths : List Nat} {month days month' rest : Nat}
    (h : days < lengths.sum) (hfound : monthOfDay month lengths days = (month', rest)) :
    ∃ i, month' = month + i ∧ (lengths.take i).sum + rest = days ∧
      rest < lengths[i]?.getD 0 := by
  fun_induction monthOfDay month lengths days with
  | case1 month days => contradiction
  | case2 month length lengths days hlt =>
      obtain ⟨rfl, rfl⟩ := Prod.mk.inj hfound
      exact ⟨0, rfl, by simp, hlt⟩
  | case3 month length lengths days hge ih =>
      rw [List.sum_cons] at h
      obtain ⟨i, hmonth, hsum, hlt⟩ := ih (by omega) hfound
      refine ⟨i + 1, by omega, ?_, hlt⟩
      rw [List.take_succ_cons, List.sum_cons]
      omega

theorem month_lt_of_lt_length {year i rest : Nat}
    (h : rest < (monthLengths year)[i]?.getD 0) : i < 12 := by
  by_cases hi : i < 12
  · exact hi
  · have hnone : (monthLengths year)[i]? = none := List.getElem?_eq_none (Nat.le_of_not_lt hi)
    rw [hnone] at h
    contradiction

namespace DateTime

/-- The date that is found has as many days before it as have passed. -/
theorem exists_ofUnix (seconds : Nat) :
    ∃ year month days, ofUnix seconds =
        { year, month, day := days + 1, hour := seconds % 86400 / 3600,
          minute := seconds % 3600 / 60, second := seconds % 60 } ∧
      1970 ≤ year ∧ (1 ≤ month ∧ month ≤ 12) ∧ days < monthLength year month ∧
      daysBeforeYear year + daysBeforeMonth year month + days = seconds / 86400 := by
  cases hyear : yearOfDay 1970 (seconds / 86400) with
  | mk year dayOfYear =>
      obtain ⟨hfrom, hlt, hdays⟩ := yearOfDay_spec (Nat.le_refl 1970) hyear
      rw [← sum_monthLengths] at hlt
      cases hmonth : monthOfDay 1 (monthLengths year) dayOfYear with
      | mk month days =>
          obtain ⟨i, rfl, hsum, hday⟩ := monthOfDay_spec hlt hmonth
          have hi := month_lt_of_lt_length hday
          rw [sum_take_monthLengths (Nat.le_of_lt hi)] at hsum
          rw [monthLengths_getElem? hi, Option.getD_some] at hday
          refine ⟨year, i + 1, days, ?_, hfrom, ⟨by omega, by omega⟩, hday, ?_⟩
          · simp only [ofUnix, hyear, hmonth, Nat.add_comm 1]
          · have hstart : daysBeforeYear 1970 = 0 := rfl
            omega

theorem valid_ofUnix (seconds : Nat) : (ofUnix seconds).Valid := by
  obtain ⟨year, month, days, hdate, hyear, hmonth, hday, -⟩ := exists_ofUnix seconds
  rw [hdate]
  exact
    { year := hyear
      month := hmonth
      day := ⟨Nat.succ_pos days, hday⟩
      hour := by dsimp only; omega
      minute := by dsimp only; omega
      second := by dsimp only; omega }

/-- A date counts back to the seconds that it was found for. -/
theorem toUnix_ofUnix (seconds : Nat) : (ofUnix seconds).toUnix = seconds := by
  obtain ⟨year, month, days, hdate, -, -, -, hdays⟩ := exists_ofUnix seconds
  rw [hdate, toUnix, dayNumber]
  dsimp only
  rw [Nat.add_sub_cancel, hdays]
  omega

/-! ## Order -/

/-- The numbers of a date in the order in which it is written. -/
def fields (t : DateTime) : List Nat := [t.year, t.month, t.day, t.hour, t.minute, t.second]

theorem fields_inj {t t' : DateTime} (h : t.fields = t'.fields) : t = t' := by
  cases t
  cases t'
  simpa [fields] using h

/-- A date lies before the end of its month, and so before the end of its year. -/
theorem Valid.dayNumber_lt {t : DateTime} (h : t.Valid) :
    t.dayNumber < daysBeforeYear t.year + daysBeforeMonth t.year (t.month + 1) ∧
      t.dayNumber < daysBeforeYear (t.year + 1) := by
  have hday := h.day
  have hmonth : daysBeforeMonth t.year (t.month + 1) =
      daysBeforeMonth t.year t.month + monthLength t.year t.month := daysBeforeMonth_succ h.month.1
  have hle : daysBeforeMonth t.year (t.month + 1) ≤ daysBeforeMonth t.year 13 :=
    daysBeforeMonth_mono (Nat.succ_le_succ h.month.2)
  have hyear := daysBeforeYear_succ h.year
  rw [daysBeforeMonth_thirteen] at hle
  rw [dayNumber]
  omega

theorem le_toUnix (t : DateTime) : 86400 * t.dayNumber ≤ t.toUnix := by
  rw [toUnix]
  omega

theorem Valid.toUnix_lt {t : DateTime} (h : t.Valid) : t.toUnix < 86400 * (t.dayNumber + 1) := by
  have hhour := h.hour
  have hminute := h.minute
  have hsecond := h.second
  rw [toUnix]
  omega

theorem toUnix_lt_of_dayNumber_lt {t t' : DateTime} (h : t.Valid)
    (hlt : t.dayNumber < t'.dayNumber) : t.toUnix < t'.toUnix := by
  have hbound := h.toUnix_lt
  have hstart := t'.le_toUnix
  omega

/-- Of two dates the one that comes first field by field is the earlier one. -/
theorem toUnix_lt_of_fields_lt {t t' : DateTime} (h : t.Valid) (h' : t'.Valid)
    (hlt : t.fields < t'.fields) : t.toUnix < t'.toUnix := by
  obtain ⟨hmonthEnd, hyearEnd⟩ := h.dayNumber_lt
  simp only [fields, List.cons_lt_cons_iff] at hlt
  rcases hlt with hyear | ⟨hyear, hmonth | ⟨hmonth, hdate | ⟨hdate, htime⟩⟩⟩
  · have hmono : daysBeforeYear (t.year + 1) ≤ daysBeforeYear t'.year :=
      daysBeforeYear_mono (Nat.succ_le_of_lt hyear)
    refine toUnix_lt_of_dayNumber_lt h (Nat.lt_of_lt_of_le hyearEnd ?_)
    rw [dayNumber]
    omega
  · have hmono : daysBeforeMonth t.year (t.month + 1) ≤ daysBeforeMonth t.year t'.month :=
      daysBeforeMonth_mono (Nat.succ_le_of_lt hmonth)
    refine toUnix_lt_of_dayNumber_lt h (Nat.lt_of_lt_of_le hmonthEnd ?_)
    rw [dayNumber, ← hyear]
    omega
  · have hday := h.day
    refine toUnix_lt_of_dayNumber_lt h ?_
    rw [dayNumber, dayNumber, hyear, hmonth]
    omega
  · have hsame : t.dayNumber = t'.dayNumber := by rw [dayNumber, dayNumber, hyear, hmonth, hdate]
    have hminute := h.minute
    have hminute' := h'.minute
    have hsecond := h.second
    have hsecond' := h'.second
    rw [toUnix, toUnix, hsame]
    simp only [List.not_lt_nil, and_false, or_false] at htime
    omega

theorem Valid.toUnix_lt_iff {t t' : DateTime} (h : t.Valid) (h' : t'.Valid) :
    t.toUnix < t'.toUnix ↔ t.fields < t'.fields := by
  refine ⟨fun hlt => ?_, toUnix_lt_of_fields_lt h h'⟩
  rcases lt_trichotomy t.fields t'.fields with hfields | heq | hfields
  · exact hfields
  · exact absurd hlt (fields_inj heq ▸ Nat.lt_irrefl _)
  · exact absurd hlt (Nat.lt_asymm (toUnix_lt_of_fields_lt h' h hfields))

/-- Every date in the calendar is found from its seconds. -/
theorem ofUnix_toUnix {t : DateTime} (h : t.Valid) : ofUnix t.toUnix = t := by
  have hvalid := valid_ofUnix t.toUnix
  have hunix := toUnix_ofUnix t.toUnix
  refine fields_inj (le_antisymm (not_lt.mp ?_) (not_lt.mp ?_))
  · rw [← h.toUnix_lt_iff hvalid, hunix]
    exact Nat.lt_irrefl _
  · rw [← hvalid.toUnix_lt_iff h, hunix]
    exact Nat.lt_irrefl _

end DateTime

end Baseboard
