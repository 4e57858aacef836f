/-
  The days, weeks and months of the calendar, and the partition intervals.

  `IntervalOf` has the bounds of the interval that holds a day, whatever years it reaches into.
  `start` and `stop` are these bounds clamped to the years that a `Date` has, but for the week of
  0000-01-01: its Monday lies before the calendar, so `monday` is clamped, and `stop` counts the
  week from there.
-/
import SisaMessaging.Core.CalendarDays
import SisaMessaging.Core.Partition

namespace SisaMessaging.Core

open Lib.Gregorian

/-! ## Intervals -/

/-- The first day of the next month. -/
def nextMonth (year month : Nat) : Int :=
  if month = 12 then dayOf (year + 1) 1 1 else dayOf year (month + 1) 1

/-- The interval that holds a day: its first day, and the first day of the next one. 1970-01-05 was a
    Monday. -/
inductive IntervalOf : PartitionInterval → Int → Int → Int → Prop where
  | day {day} : IntervalOf .day day day (day + 1)
  | week {day first} : (first - 4) % 7 = 0 → first ≤ day → day < first + 7 →
      IntervalOf .week day first (first + 7)
  | month {year month day : Nat} : IsDate year month day →
      IntervalOf .month (dayOf year month day) (dayOf year month 1) (nextMonth year month)

theorem dayOf_eq (year month day : Nat) : dayOf year month day = dayOf year month 1 + (day - 1) := by
  unfold dayOf countDays
  omega

theorem nextMonth_eq {year month : Nat} (h : 1 ≤ month) (h' : month ≤ 12) :
    nextMonth year month = dayOf year month 1 + monthLength year month := by
  obtain ⟨m, rfl⟩ : ∃ m, month = m + 1 := ⟨month - 1, by omega⟩
  have hmonth : daysOfMonths year (m + 1) = daysOfMonths year m + monthLength year (m + 1) := rfl
  unfold nextMonth dayOf countDays
  split
  · rename_i h12
    have hyear := daysOfMonths_year year
    rw [← h12] at hyear
    rw [daysBeforeYear, ← hyear, hmonth, Nat.sub_self, daysOfMonths, Nat.add_sub_cancel]
    omega
  · rw [Nat.add_sub_cancel, Nat.add_sub_cancel, hmonth]
    omega

theorem dayOf_lt {year month day year' month' day' : Nat} (h : IsDate year month day)
    (h' : IsDate year' month' day')
    (hlt : year < year' ∨ (year = year' ∧ (month < month' ∨ (month = month' ∧ day < day')))) :
    dayOf year month day < dayOf year' month' day' :=
  sub_lt_sub_right
    (countDays_lt h.inYear.1 h.inYear.2 h.inMonth.2 h'.inMonth.1 hlt) _

theorem dayOf_injective {year month day year' month' day' : Nat} (h : IsDate year month day)
    (h' : IsDate year' month' day') (heq : dayOf year month day = dayOf year' month' day') :
    year = year' ∧ month = month' := by
  by_contra hne
  rcases Nat.lt_trichotomy year year' with hy | hy | hy
  · exact absurd heq (dayOf_lt h h' (Or.inl hy)).ne
  · rcases Nat.lt_trichotomy month month' with hm | hm | hm
    · exact absurd heq (dayOf_lt h h' (Or.inr ⟨hy, Or.inl hm⟩)).ne
    · exact hne ⟨hy, hm⟩
    · exact absurd heq.symm (dayOf_lt h' h (Or.inr ⟨hy.symm, Or.inl hm⟩)).ne
  · exact absurd heq.symm (dayOf_lt h' h (Or.inl hy)).ne

namespace IntervalOf

variable {interval : PartitionInterval} {day first next : Int}

theorem holds (h : IntervalOf interval day first next) : first ≤ day ∧ day < next := by
  cases h with
  | day => omega
  | week _ hfirst hnext => exact ⟨hfirst, hnext⟩
  | @month year month day hdate =>
    have hin := hdate.inMonth
    rw [dayOf_eq year month day, nextMonth_eq hdate.inYear.1 hdate.inYear.2]
    omega

/-- Every day of an interval has that interval. -/
theorem same (h : IntervalOf interval day first next) {other : Int} (hfirst : first ≤ other)
    (hnext : other < next) : IntervalOf interval other first next := by
  cases h with
  | day =>
    have hother : other = day := by omega
    rw [hother]
    exact .day
  | week hmonday _ _ => exact .week hmonday hfirst hnext
  | @month year month day hdate =>
    rw [nextMonth_eq hdate.inYear.1 hdate.inYear.2] at hnext
    have hother : other = dayOf year month (other - dayOf year month 1 + 1).toNat := by
      rw [dayOf_eq]
      omega
    rw [hother]
    exact .month ⟨hdate.inYear, by omega⟩

theorem unique (h : IntervalOf interval day first next) {first' next' : Int}
    (h' : IntervalOf interval day first' next') : first = first' ∧ next = next' := by
  cases h with
  | day =>
    cases h'
    exact ⟨rfl, rfl⟩
  | week hmonday hfirst hnext =>
    cases h' with
    | week hmonday' hfirst' hnext' => omega
  | month hdate =>
    generalize hday : dayOf _ _ _ = day at h'
    cases h' with
    | month hdate' =>
      obtain ⟨rfl, rfl⟩ := dayOf_injective hdate hdate' hday
      exact ⟨rfl, rfl⟩

/-- The next interval. -/
theorem after (h : IntervalOf interval day first next) :
    ∃ last, IntervalOf interval next next last := by
  cases h with
  | day => exact ⟨_, .day⟩
  | @week first hmonday _ _ => exact ⟨_, .week (by omega) (by omega) (by omega)⟩
  | @month year month _ hdate =>
    unfold nextMonth
    have hlength : ∀ y m, 1 ≤ monthLength y m := by
      intro y m
      unfold monthLength
      split
      · split <;> decide
      · split <;> decide
    split
    · exact ⟨_, .month ⟨⟨le_refl 1, by decide⟩, le_refl 1, hlength _ _⟩⟩
    · exact ⟨_, .month ⟨⟨by omega, by have := hdate.inYear; omega⟩, le_refl 1, hlength _ _⟩⟩

end IntervalOf

/-! ## The source's intervals -/

namespace PartitionInterval

/-- `start` and `stop` are the calendar's, clamped to the years a `Date` has. -/
def Right (interval : PartitionInterval) (date : Date) : Prop :=
  ∀ first next, IntervalOf interval date.days first next →
    interval.start date = .fromDays first ∧ interval.stop date = .fromDays next

/-- The interval holds the date, is that of each of its days, ends where the next one starts, and
    overlaps no other. -/
structure Whole (interval : PartitionInterval) (date : Date) : Prop where
  holds : interval.start date ≤ date ∧ date < interval.stop date
  same : ∀ other, interval.start date ≤ other → other < interval.stop date →
    interval.start other = interval.start date ∧ interval.stop other = interval.stop date
  next : interval.start (interval.stop date) = interval.stop date
  apart : ∀ other day, interval.start date ≤ day → day < interval.stop date →
    interval.start other ≤ day → day < interval.stop other →
    interval.start other = interval.start date ∧ interval.stop other = interval.stop date

/-- What the intervals are for: the calendar's, and whole when the next one starts within the
    calendar. -/
def Calendrical (interval : PartitionInterval) (date : Date) : Prop :=
  interval.Right date ∧ ∀ first next, IntervalOf interval date.days first next →
    next ≤ Date.lastDay → interval.Whole date

/-- 0000-01-03. -/
def firstMonday : Date := .fromDays (daysFromDate 0 1 3)

/-- 0000-01-10. -/
def secondMonday : Date := .fromDays (daysFromDate 0 1 10)

theorem firstMonday_days : firstMonday.days = -719526 := rfl

theorem secondMonday_days : secondMonday.days = -719519 := rfl

section Bounds

variable {interval : PartitionInterval} {date : Date}

theorem exists_bounds (h : interval = .week → firstMonday ≤ date) :
    ∃ first next, IntervalOf interval date.days first next ∧
      interval.start date = .fromDays first ∧ interval.stop date = .fromDays next := by
  have hfirst := date.first
  have hlast := date.last
  cases interval with
  | day =>
    refine ⟨_, _, .day, Date.ext ?_, rfl⟩
    simp only [start, Date.fromDays]
    omega
  | week =>
    have hmonday := Date.le_iff.mp (h rfl)
    rw [firstMonday_days] at hmonday
    have hfirstDay : Date.firstDay = -719528 := rfl
    refine ⟨date.days - (date.days + 3) % 7, _, .week (by omega) (by omega) (by omega), rfl, ?_⟩
    refine Date.ext ?_
    simp only [stop, Date.addDays, Date.monday, Date.fromDays]
    omega
  | month =>
    obtain ⟨year, month, day, hfrom, _, hdate, hdays⟩ := exists_dateFromDays hfirst hlast
    refine ⟨dayOf year month 1, nextMonth year month, ?_, ?_, ?_⟩
    · rw [← hdays, daysFromDate_eq_dayOf day hdate.inYear.1 hdate.inYear.2]
      exact .month hdate
    · rw [← daysFromDate_eq_dayOf 1 hdate.inYear.1 hdate.inYear.2]
      simp only [start, Date.firstOfMonth, hfrom]
    · simp only [stop, Date.firstOfNextMonth, hfrom, nextMonth]
      split
      · rw [← daysFromDate_eq_dayOf 1 (le_refl 1) (by decide)]
        rfl
      · rw [← daysFromDate_eq_dayOf 1 (by omega) (by have := hdate.inYear; omega)]

/-- A day between clamped bounds is between the bounds. -/
theorem bounds_of_fromDays {day other : Date} {first next : Int}
    (h : IntervalOf interval other.days first next) (hf : Date.fromDays first ≤ day)
    (hn : day < Date.fromDays next) : first ≤ day.days ∧ day.days < next := by
  have hholds := h.holds
  have hlast := other.last
  have hfirst := day.first
  rw [Date.le_iff] at hf
  rw [Date.lt_iff] at hn
  simp only [Date.fromDays] at hf hn
  omega

theorem right_of_bounds (h : interval = .week → firstMonday ≤ date) : interval.Right date := by
  obtain ⟨first, next, hbounds, hstart, hstop⟩ := exists_bounds h
  intro first' next' h'
  obtain ⟨rfl, rfl⟩ := hbounds.unique h'
  exact ⟨hstart, hstop⟩

theorem right_iff : interval.Right date ↔ (interval = .week → firstMonday ≤ date) := by
  refine ⟨fun h hweek => ?_, right_of_bounds⟩
  subst hweek
  have hfirst := date.first
  have hlast := date.last
  have hfirstDay : Date.firstDay = -719528 := rfl
  have hlastDay : Date.lastDay = 2932896 := rfl
  obtain ⟨_, hstop⟩ := h (date.days - (date.days + 3) % 7) _
    (.week (by omega) (by omega) (by omega))
  have hdays := congrArg Date.days hstop
  simp only [stop, Date.addDays, Date.monday, Date.fromDays] at hdays
  rw [Date.le_iff, firstMonday_days]
  omega

/-- Weeks from the second Monday on start no earlier than it. -/
theorem secondMonday_le_start (h : secondMonday ≤ date) : secondMonday ≤ start .week date := by
  have hfirst := date.first
  have hlast := date.last
  rw [Date.le_iff, secondMonday_days] at h ⊢
  simp only [start, Date.monday, Date.fromDays]
  omega

theorem stop_le_secondMonday (h : date < firstMonday) : stop .week date < secondMonday := by
  have hfirst := date.first
  have hlastDay : Date.lastDay = 2932896 := rfl
  have hfirstDay : Date.firstDay = -719528 := rfl
  rw [Date.lt_iff, firstMonday_days] at h
  rw [Date.lt_iff, secondMonday_days]
  simp only [stop, Date.addDays, Date.monday, Date.fromDays]
  omega

theorem whole_of_bounds (h : interval = .week → secondMonday ≤ date) {first next : Int}
    (hbounds : IntervalOf interval date.days first next) (hnext : next ≤ Date.lastDay) :
    interval.Whole date := by
  have hearly : firstMonday ≤ secondMonday := by decide
  have right_from : ∀ other, interval.start date ≤ other → interval.Right other := by
    refine fun other hother => right_of_bounds fun hweek => ?_
    subst hweek
    exact hearly.trans ((secondMonday_le_start (h rfl)).trans hother)
  obtain ⟨hstart, hstop⟩ := right_of_bounds (fun hweek => hearly.trans (h hweek)) _ _ hbounds
  have hin : ∀ day : Date, interval.start date ≤ day → day < interval.stop date →
      first ≤ day.days ∧ day.days < next := by
    rw [hstart, hstop]
    exact fun day => bounds_of_fromDays hbounds
  have hholds := hbounds.holds
  have hstopDays : (interval.stop date).days = next := by
    have hfirst := date.first
    rw [hstop]
    simp only [Date.fromDays]
    omega
  have hle : interval.start date ≤ date := by
    have hfirst := date.first
    rw [hstart, Date.le_iff]
    simp only [Date.fromDays]
    omega
  have hlt : date < interval.stop date := by
    rw [Date.lt_iff, hstopDays]
    exact hholds.2
  refine ⟨⟨hle, hlt⟩, fun other hfrom hto => ?_, ?_, fun other day hfrom hto hfrom' hto' => ?_⟩
  · obtain ⟨hfirst, hlast⟩ := hin other hfrom hto
    rw [hstart, hstop]
    exact right_from other hfrom _ _ (hbounds.same hfirst hlast)
  · obtain ⟨last, hafter⟩ := hbounds.after
    rw [← hstopDays] at hafter
    refine (right_from _ (hle.trans hlt.le) _ _ hafter).1.trans (Date.ext ?_)
    have hfirst := (interval.stop date).first
    have hlast := (interval.stop date).last
    simp only [Date.fromDays]
    omega
  · by_cases hgood : interval = .week → firstMonday ≤ other
    · -- The day they share has one interval.
      obtain ⟨first', next', hbounds', hstart', hstop'⟩ := exists_bounds hgood
      obtain ⟨hfirst, hlast⟩ := hin day hfrom hto
      rw [hstart'] at hfrom'
      rw [hstop'] at hto'
      obtain ⟨hfirst', hlast'⟩ := bounds_of_fromDays hbounds' hfrom' hto'
      obtain ⟨rfl, rfl⟩ := (hbounds.same hfirst hlast).unique (hbounds'.same hfirst' hlast')
      exact ⟨hstart'.trans hstart.symm, hstop'.trans hstop.symm⟩
    · obtain ⟨rfl, hother⟩ := not_forall.mp hgood
      have hlate := (secondMonday_le_start (h rfl)).trans hfrom
      have hsoon := hto'.trans (stop_le_secondMonday (not_le.mp hother))
      exact absurd hlate (not_le.mpr hsoon)

/-- Intervals are the calendar's but for the first week: its end is wrong on its first two days, and
    so it overlaps the second. -/
theorem calendrical_iff (interval : PartitionInterval) (date : Date) :
    (interval.Right date ↔ (interval = .week → firstMonday ≤ date)) ∧
    (interval.Calendrical date ↔ (interval = .week → secondMonday ≤ date)) := by
  have hearly : firstMonday ≤ secondMonday := by decide
  refine ⟨right_iff, fun ⟨hright, hwhole⟩ hweek => ?_, fun h => ?_⟩
  · have hmonday := right_iff.mp hright hweek
    subst hweek
    by_contra hlt
    obtain ⟨first, next, hbounds, hstart, hstop⟩ := exists_bounds fun _ => hmonday
    rw [Date.le_iff, firstMonday_days] at hmonday
    rw [Date.le_iff, secondMonday_days] at hlt
    cases hbounds with
    | week hfirst hle hnext =>
      obtain rfl : first = -719526 := by omega
      have hlast : Date.lastDay = 2932896 := rfl
      have hapart := (hwhole _ _ (.week hfirst hle hnext) (by omega)).apart
      rw [hstart, hstop] at hapart
      exact absurd (hapart (.fromDays Date.firstDay) firstMonday (by decide) (by decide) (by decide)
        (by decide)).1 (by decide)
  · exact ⟨right_of_bounds fun hweek => hearly.trans (h hweek),
      fun first next => whole_of_bounds h⟩

end Bounds

/-- 0000-01-01 is a Saturday: its week ends before 0000-01-03, and `stop` is 0000-01-08. -/
theorem not_calendrical_firstDay :
    IntervalOf .week Date.firstDay (-719533) (-719526) ∧
      (stop .week (.fromDays Date.firstDay)).toText = "0000-01-08" ∧
      (Date.fromDays (-719526)).toText = "0000-01-03" ∧
      ¬Calendrical .week (.fromDays Date.firstDay) := by
  refine ⟨.week (by decide) (by decide) (by decide), by decide, by decide, fun h => ?_⟩
  exact absurd (right_iff.mp h.1 rfl) (by decide)

end PartitionInterval

end SisaMessaging.Core
