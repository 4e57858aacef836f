/-
  The UTC calendar from 0000-01-01 to 9999-12-31: the day part of `time.rs`.

  `dateFromDays` and `daysFromDate` are the source's closed formulas. `dateFromDays_marchDate`
  ties them to the calendar, and from it they are inverse on the dates that exist. A `Date`
  carries the proof that it lies in years 0000 to 9999.

  All quantities the source divides with truncating `/` are non-negative there, so Lean's `/` on
  `Int` is the same; `div_euclid` and `rem_euclid` are `/` and `%`.
-/
import Mathlib.Order.Basic
import SisaMessaging.Core.Error
import SisaMessaging.Core.Text
import SisaMessaging.Lib.Gregorian

namespace SisaMessaging.Core

open Lib.Gregorian

def secondsPerDay : Int := 86400

/-- 0000-01-01T00:00:00Z. -/
def firstSecond : Int := -62167219200

/-- 10000-01-01T00:00:00Z, the first second RFC 3339 can't write. -/
def endSecond : Int := 253402300800

/-! ## The calendar -/

/-- Days since 1970-01-01 to a date: its year, month and day. -/
def dateFromDays (days : Int) : Int × Nat × Nat :=
  let shifted := days + 719468
  let era := shifted / 146097
  let dayOfEra := shifted % 146097
  let yearOfEra := (dayOfEra - dayOfEra / 1460 + dayOfEra / 36524 - dayOfEra / 146096) / 365
  let dayOfYear := dayOfEra - (365 * yearOfEra + yearOfEra / 4 - yearOfEra / 100)
  let monthFromMarch := (5 * dayOfYear + 2) / 153
  let day := dayOfYear - (153 * monthFromMarch + 2) / 5 + 1
  let month := if monthFromMarch < 10 then monthFromMarch + 3 else monthFromMarch - 9
  let year := yearOfEra + era * 400 + if month ≤ 2 then 1 else 0
  (year, month.toNat, day.toNat)

/-- The inverse of `dateFromDays`. -/
def daysFromDate (year : Int) (month day : Nat) : Int :=
  let year := year - if month ≤ 2 then 1 else 0
  let era := year / 400
  let yearOfEra := year % 400
  let monthFromMarch : Int := ↑((month + 9) % 12)
  let dayOfYear := (153 * monthFromMarch + 2) / 5 + ↑day - 1
  let dayOfEra := yearOfEra * 365 + yearOfEra / 4 - yearOfEra / 100 + dayOfYear
  era * 146097 + dayOfEra - 719468

def daysInMonth (year : Int) (month : Nat) : Nat :=
  let leap := year % 4 = 0 ∧ (year % 100 ≠ 0 ∨ year % 400 = 0)
  match month with
  | 2 => if leap then 29 else 28
  | 4 | 6 | 9 | 11 => 30
  | _ => 31

theorem daysInMonth_le (year : Int) (month : Nat) : daysInMonth year month ≤ 31 := by
  unfold daysInMonth
  dsimp only
  split
  · split <;> decide
  all_goals decide

/-- A year, month and day that exist. -/
def ValidDate (year : Int) (month day : Nat) : Prop :=
  1 ≤ month ∧ month ≤ 12 ∧ 1 ≤ day ∧ day ≤ daysInMonth year month

instance (year : Int) (month day : Nat) : Decidable (ValidDate year month day) :=
  inferInstanceAs (Decidable (_ ∧ _ ∧ _ ∧ _))

/-- The closed formula finds the date that a day is, with years from January. -/
theorem dateFromDays_marchDate {days y m d : Int} (h : MarchDate (days + 719468) y m d) :
    dateFromDays days =
      (y + (if 10 ≤ m then 1 else 0), (if m < 10 then m + 3 else m - 9).toNat, (d + 1).toNat) := by
  obtain ⟨hera, hyoe, hdoy⟩ := h.yearOfEra_eq
  have hmoy := h.monthOfYear_eq
  have hy : y % 400 / 400 = 0 := by omega
  unfold yearOfEra at hyoe
  unfold marchStart at hdoy
  unfold monthOfYear monthStart at hmoy
  unfold monthStart at hdoy
  have hdoy' : (days + 719468) % 146097 - (365 * (y % 400) + y % 400 / 4 - y % 400 / 100) =
      (153 * m + 2) / 5 + d := by omega
  simp only [dateFromDays, hera, hyoe, hdoy', hmoy]
  obtain ⟨⟨hm, hm'⟩, ⟨hd, hd'⟩, -, -⟩ := h
  refine Prod.ext ?_ (Prod.ext ?_ ?_) <;> dsimp only
  · split <;> split <;> split <;> omega
  · congr 1
    omega

theorem daysFromDate_marchDate {days y m d : Int} (h : MarchDate (days + 719468) y m d) :
    daysFromDate (y + if 10 ≤ m then 1 else 0) (if m < 10 then m + 3 else m - 9).toNat
      (d + 1).toNat = days := by
  obtain ⟨⟨hm, hm'⟩, ⟨hd, hd'⟩, -, he⟩ := h
  unfold marchStart monthStart at he
  have hmonth : (((if m < 10 then m + 3 else m - 9).toNat + 9) % 12 : Nat) = m.toNat := by
    split <;> omega
  have hyear : (y + if 10 ≤ m then 1 else 0) -
      (if (if m < 10 then m + 3 else m - 9).toNat ≤ 2 then 1 else 0) = y := by
    split <;> split <;> split <;> omega
  simp only [daysFromDate, hmonth, hyear]
  omega

/-- A date's month has as many days as the source counts. -/
theorem validDate_marchDate {day y m d : Int} (h : MarchDate day y m d) :
    ValidDate (y + if 10 ≤ m then 1 else 0) (if m < 10 then m + 3 else m - 9).toNat
      (d + 1).toNat := by
  obtain ⟨⟨hm, hm'⟩, ⟨hd, hd'⟩, hy, -⟩ := h
  have hl := marchStart_succ y
  unfold monthStart at hd' hy
  -- February ends with the year from March, so its length is the year's.
  have hfeb : m = 11 → d < if IsLeap (y + 1) then 29 else 28 := by
    rintro rfl
    split at hl <;> rename_i hleap <;> simp only [hleap, if_true, if_false] <;> omega
  unfold IsLeap at hfeb
  obtain ⟨n, rfl⟩ := Int.eq_ofNat_of_zero_le hm
  have hn : n ≤ 11 := by omega
  interval_cases n <;> simp [ValidDate, daysInMonth] <;> omega

/-- Every date that exists is a day of the calendar. -/
theorem ValidDate.marchDate {year : Int} {month day : Nat} (h : ValidDate year month day) :
    ∃ y m d, MarchDate (daysFromDate year month day + 719468) y m d ∧
      year = (y + if 10 ≤ m then 1 else 0) ∧ month = (if m < 10 then m + 3 else m - 9).toNat ∧
      day = (d + 1).toNat := by
  obtain ⟨hm, hm', hd, hd'⟩ := h
  -- The month and the year from March.
  obtain ⟨m, hmd⟩ : ∃ m : Int, m = if 3 ≤ month then (month : Int) - 3 else month + 9 := ⟨_, rfl⟩
  obtain ⟨y, hyd⟩ : ∃ y : Int, y = if 3 ≤ month then year else year - 1 := ⟨_, rfl⟩
  have hl := marchStart_succ y
  have hdays : daysFromDate year month day + 719468 = marchStart y + monthStart m + (day - 1) := by
    have hmonth : ((month + 9) % 12 : Nat) = m.toNat := by
      split at hmd <;> omega
    have hyear : year - (if month ≤ 2 then 1 else 0) = y := by
      split <;> split at hyd <;> omega
    simp only [daysFromDate, hmonth, hyear, marchStart, monthStart]
    split at hmd <;> omega
  have hlen : (day : Int) - 1 < monthStart (m + 1) - monthStart m ∧
      monthStart m + (day - 1) < marchStart (y + 1) - marchStart y := by
    have hleap : (if IsLeap (y + 1) then (366 : Int) else 365) =
        if (y + 1) % 4 = 0 ∧ ((y + 1) % 100 ≠ 0 ∨ (y + 1) % 400 = 0) then 366 else 365 := rfl
    rw [hl, hleap]
    subst hmd hyd
    unfold monthStart
    interval_cases month <;> simp only [daysInMonth] at hd' <;> try split at hd'
    all_goals
      simp
      omega
  refine ⟨y, m, day - 1, ⟨?_, ?_, by omega, hdays⟩, ?_, ?_, by omega⟩
  · split at hmd <;> omega
  · omega
  · split at hmd <;> split at hyd <;> split <;> omega
  · split at hmd <;> split <;> omega

/-- `dateFromDays` gives a date that exists, and `daysFromDate` takes it back. -/
theorem dateFromDays_valid (days : Int) :
    ValidDate (dateFromDays days).1 (dateFromDays days).2.1 (dateFromDays days).2.2 ∧
      daysFromDate (dateFromDays days).1 (dateFromDays days).2.1 (dateFromDays days).2.2 = days := by
  obtain ⟨y, m, d, h⟩ := exists_marchDate (days + 719468)
  rw [dateFromDays_marchDate h]
  exact ⟨validDate_marchDate h, daysFromDate_marchDate h⟩

theorem dateFromDays_daysFromDate {year : Int} {month day : Nat} (h : ValidDate year month day) :
    dateFromDays (daysFromDate year month day) = (year, month, day) := by
  obtain ⟨y, m, d, hm, rfl, rfl, rfl⟩ := h.marchDate
  exact dateFromDays_marchDate hm

/-- The days of year `year` on: `year` is at least 0 from 0000-01-01 and at most 9999 up to
    9999-12-31. -/
theorem marchDate_year_range {days y m d : Int} (h : MarchDate (days + 719468) y m d) :
    (0 ≤ y + (if 10 ≤ m then 1 else 0) ↔ -719528 ≤ days) ∧
      (y + (if 10 ≤ m then 1 else 0) ≤ 9999 ↔ days ≤ 2932896) := by
  obtain ⟨⟨hm, hm'⟩, ⟨hd, hd'⟩, hy, he⟩ := h
  have h1 : marchStart (-1) = -366 := rfl
  have h2 : marchStart 0 = 0 := rfl
  have h3 : marchStart 9999 = 3652059 := rfl
  have h4 : marchStart 10000 = 3652425 := rfl
  have hs : 10 ≤ m ↔ 306 ≤ monthStart m + d := by
    unfold monthStart at hd' ⊢
    omega
  have hn := monthStart_nonneg hm
  rcases lt_or_ge y (-1) with h5 | h5
  · have := marchStart_mono (show y + 1 ≤ -1 by omega)
    split <;> omega
  rcases lt_or_ge 9999 y with h6 | h6
  · have := marchStart_mono (show 10000 ≤ y by omega)
    split <;> omega
  rcases eq_or_lt_of_le h5 with h7 | h7
  · subst h7
    rw [show (-1 : Int) + 1 = 0 from rfl] at hy
    split <;> omega
  have h8 := marchStart_mono (show 0 ≤ y by omega)
  rcases eq_or_lt_of_le h6 with h9 | h9
  · subst h9
    rw [show (9999 : Int) + 1 = 10000 from rfl] at hy
    split <;> omega
  · have := marchStart_mono (show y + 1 ≤ 9999 by omega)
    split <;> omega

theorem year_dateFromDays_range (days : Int) :
    (0 ≤ (dateFromDays days).1 ↔ -719528 ≤ days) ∧
      ((dateFromDays days).1 ≤ 9999 ↔ days ≤ 2932896) := by
  obtain ⟨y, m, d, h⟩ := exists_marchDate (days + 719468)
  rw [dateFromDays_marchDate h]
  exact marchDate_year_range h

/-! ## Dates -/

/-- 0000-01-01. -/
def Date.firstDay : Int := firstSecond / secondsPerDay

/-- 9999-12-31. -/
def Date.lastDay : Int := endSecond / secondsPerDay - 1

/-- A day of the UTC calendar, from 0000-01-01 to 9999-12-31. -/
@[ext] structure Date where
  /-- Days since 1970-01-01. -/
  days : Int
  first : Date.firstDay ≤ days
  last : days ≤ Date.lastDay
  deriving DecidableEq

instance : LinearOrder Date :=
  LinearOrder.lift' Date.days fun _ _ => Date.ext

namespace Date

theorem lt_iff {a b : Date} : a < b ↔ a.days < b.days := Iff.rfl

theorem le_iff {a b : Date} : a ≤ b ↔ a.days ≤ b.days := Iff.rfl

/-- The date `days` after 1970-01-01, clamped to years 0000 to 9999: `days.clamp`. -/
def fromDays (days : Int) : Date where
  days := max firstDay (min days lastDay)
  first := by omega
  last := by
    have : firstDay ≤ lastDay := by decide
    omega

theorem daysFromDate_range {year month day : Nat} (hy : year ≤ 9999)
    (h : ValidDate year month day) :
    firstDay ≤ daysFromDate year month day ∧ daysFromDate year month day ≤ lastDay := by
  have hr := year_dateFromDays_range (daysFromDate year month day)
  rw [dateFromDays_daysFromDate h] at hr
  exact ⟨hr.1.mp (by simp), hr.2.mp (by dsimp only; omega)⟩

/-- The date of `year`, `month` and `day`, or `none` when there is no such day in years 0000 to
    9999. -/
def new (year month day : Nat) : Option Date :=
  if h : year ≤ 9999 ∧ ValidDate year month day then
    some ⟨daysFromDate year month day, (daysFromDate_range h.1 h.2).1, (daysFromDate_range h.1 h.2).2⟩
  else none

def year (date : Date) : Nat := (dateFromDays date.days).1.toNat

def month (date : Date) : Nat := (dateFromDays date.days).2.1

def day (date : Date) : Nat := (dateFromDays date.days).2.2

/-- The date `days` later, clamped. The source adds with saturation at the bounds of an `i64`,
    which the clamp absorbs. -/
def addDays (date : Date) (days : Int) : Date := fromDays (date.days + days)

/-- The Monday of this date's ISO 8601 week. -/
def monday (date : Date) : Date := fromDays (date.days - (date.days + 3) % 7)

/-- The first day of this date's month. -/
def firstOfMonth (date : Date) : Date :=
  let (year, month, _) := dateFromDays date.days
  fromDays (daysFromDate year month 1)

/-- The first day of the next month. -/
def firstOfNextMonth (date : Date) : Date :=
  let (year, month, _) := dateFromDays date.days
  let (year, month) := if month = 12 then (year + 1, 1) else (year, month + 1)
  fromDays (daysFromDate year month 1)

/-- Writes `YYYY-MM-DD`. -/
def toText (date : Date) : String :=
  let (year, month, day) := dateFromDays date.days
  padded 4 year.toNat ++ "-" ++ padded 2 month ++ "-" ++ padded 2 day

/-- Reads `YYYY-MM-DD`. -/
def parse (text : String) : Except EnvelopeError Date :=
  let bytes := textBytes text
  let date :=
    if bytes.length = 10 ∧ bytes[4]? = some 45 ∧ bytes[7]? = some 45 then do
      new (← number bytes 0 4) (← number bytes 5 7) (← number bytes 8 10)
    else none
  match date with
  | some date => .ok date
  | none => .error (.invalid "date" "not a YYYY-MM-DD date")

/-! ## Dates as text, and the next month -/

/-- The year, month and day of a date are those of `toText`'s digits. -/
theorem toText_bytes (date : Date) :
    textBytes date.toText = textBytes (padded 4 date.year) ++
      45 :: (textBytes (padded 2 date.month) ++ 45 :: textBytes (padded 2 date.day)) := by
  have h45 : textBytes "-" = [45] := rfl
  simp only [toText, year, month, day, textBytes_append, h45, List.append_assoc, List.cons_append,
    List.nil_append]

theorem fields (date : Date) : date.year ≤ 9999 ∧ ValidDate date.year date.month date.day ∧
    daysFromDate date.year date.month date.day = date.days := by
  obtain ⟨hvalid, hdays⟩ := dateFromDays_valid date.days
  obtain ⟨hlow, hhigh⟩ := year_dateFromDays_range date.days
  have hlow := hlow.mpr date.first
  have hhigh := hhigh.mpr date.last
  have hyear : ((date.year : Nat) : Int) = (dateFromDays date.days).1 := Int.toNat_of_nonneg hlow
  refine ⟨by omega, ?_, ?_⟩
  · rw [hyear]
    exact hvalid
  · rw [hyear]
    exact hdays

/-- A written date reads back as the same date. -/
theorem parse_toText (date : Date) : parse date.toText = .ok date := by
  obtain ⟨hyear, hvalid, hdays⟩ := date.fields
  obtain ⟨hm, hm', hd, hd'⟩ := id hvalid
  have hday31 := daysInMonth_le date.year date.month
  obtain ⟨hy4, hy⟩ := digits_padded (show 0 < 4 by decide) (show date.year < 10 ^ 4 by omega)
  obtain ⟨hm2, hmonth⟩ := digits_padded (show 0 < 2 by decide) (show date.month < 10 ^ 2 by omega)
  obtain ⟨hd2, hday⟩ := digits_padded (show 0 < 2 by decide) (show date.day < 10 ^ 2 by omega)
  have hnew : new date.year date.month date.day = some date := by
    rw [new, dif_pos ⟨hyear, hvalid⟩]
    exact congrArg some (Date.ext hdays)
  unfold parse
  rw [toText_bytes]
  generalize textBytes (padded 4 date.year) = ys at hy4 hy
  generalize textBytes (padded 2 date.month) = ms at hm2 hmonth
  generalize textBytes (padded 2 date.day) = ds at hd2 hday
  match ys, ms, ds, hy4, hm2, hd2 with
  | [y0, y1, y2, y3], [m0, m1], [d0, d1], _, _, _ =>
    simp [number, hy, hmonth, hday, hnew]

/-- The next month starts after the date. -/
theorem lt_nextMonth (days : Int) : days < (let (year, month, _) := dateFromDays days
    let (year, month) := if month = 12 then (year + 1, 1) else (year, month + 1)
    daysFromDate year month 1) := by
  obtain ⟨y, m, d, h⟩ := exists_marchDate (days + 719468)
  obtain ⟨⟨hm, hm'⟩, hd, hy, he⟩ := id h
  rw [dateFromDays_marchDate h]
  by_cases h11 : m = 11
  · subst h11
    have hnext : MarchDate (marchStart (y + 1) - 719468 + 719468) (y + 1) 0 0 := by
      have := marchStart_mono (show y + 1 ≤ y + 1 + 1 by omega)
      exact ⟨by decide, by decide, by simp [monthStart]; omega, by simp [monthStart]⟩
    have := daysFromDate_marchDate hnext
    simp at this ⊢
    rw [this]
    omega
  · have hnext : MarchDate (marchStart y + monthStart (m + 1) - 719468 + 719468) y (m + 1) 0 := by
      have := marchStart_mono (show y ≤ y + 1 by omega)
      refine ⟨by omega, ?_, ?_, by omega⟩
      · unfold monthStart
        omega
      · unfold monthStart
        omega
    have hdays := daysFromDate_marchDate hnext
    have hlt : days < marchStart y + monthStart (m + 1) - 719468 := by omega
    obtain ⟨n, rfl⟩ := Int.eq_ofNat_of_zero_le hm
    have hn : n ≤ 10 := by omega
    rw [← hdays] at hlt
    interval_cases n <;> simpa using hlt

theorem le_fromDays {date : Date} {days : Int} (h : date.days ≤ days) : date ≤ fromDays days := by
  have := date.last
  simp only [le_iff, fromDays]
  omega

theorem le_firstOfNextMonth (date : Date) : date ≤ date.firstOfNextMonth :=
  le_fromDays (Int.le_of_lt (lt_nextMonth date.days))

end Date

end SisaMessaging.Core
