/-
  The proleptic Gregorian calendar counted in days from 0000-03-01.

  Years begin in March here, so that the leap day is a year's last day: year `y` runs from
  `marchStart y` to `marchStart (y + 1)`, and its month `m` (0 for March, 11 for February) begins
  on day `monthStart m` of it. `yearOfEra` and the quotient `(5 * d + 2) / 153` are the usual
  closed formulas for finding the year of a day in a 400-year era and the month of a day in a
  year; `yearOfEra_iff` and `monthOfYear_iff` say they find the one that holds the day.

  `MarchDate day y m d` says which date a day is; every day is one (`exists_marchDate`), and the
  closed formulas find it (`MarchDate.yearOfEra_eq`, `MarchDate.monthOfYear_eq`). `countDays` counts
  the days from 1 January of year 0 one by one, with the leap-year rule alone. Nothing here names a
  particular program.
-/
import Mathlib.Tactic.Common
import Mathlib.Tactic.IntervalCases

namespace SisaMessaging.Lib.Gregorian

/-! ## Years from March -/

/-- The leap-year rule. -/
def IsLeap (y : Int) : Prop := y % 4 = 0 ∧ (y % 100 ≠ 0 ∨ y % 400 = 0)

instance (y : Int) : Decidable (IsLeap y) :=
  inferInstanceAs (Decidable (y % 4 = 0 ∧ (y % 100 ≠ 0 ∨ y % 400 = 0)))

/-- The days from 1 March of year 0 to 1 March of year `y`. -/
def marchStart (y : Int) : Int := 365 * y + y / 4 - y / 100 + y / 400

/-- The year from 1 March of `y` holds the leap day of `y + 1`, if there is one. -/
theorem marchStart_succ (y : Int) :
    marchStart (y + 1) = marchStart y + if IsLeap (y + 1) then 366 else 365 := by
  split <;> rename_i h <;> unfold IsLeap at h <;> unfold marchStart <;> omega

theorem marchStart_add_era (y e : Int) : marchStart (y + 400 * e) = marchStart y + 146097 * e := by
  unfold marchStart
  omega

theorem marchStart_add_le (y : Int) (n : Nat) :
    marchStart y + 365 * n ≤ marchStart (y + n) := by
  induction n with
  | zero => simp
  | succ n ih =>
    have h := marchStart_succ (y + n)
    rw [Nat.cast_succ, ← add_assoc]
    split at h <;> omega

theorem marchStart_mono {y z : Int} (h : y ≤ z) : marchStart y + 365 * (z - y) ≤ marchStart z := by
  have := marchStart_add_le y (z - y).toNat
  rwa [Int.toNat_of_nonneg (by omega), add_sub_cancel] at this

/-- A day lies in one year only. -/
theorem year_unique {y z day : Int} (hy : marchStart y ≤ day) (hy' : day < marchStart (y + 1))
    (hz : marchStart z ≤ day) (hz' : day < marchStart (z + 1)) : y = z := by
  rcases lt_trichotomy y z with h | h | h
  · have := marchStart_mono (show y + 1 ≤ z by omega)
    omega
  · exact h
  · have := marchStart_mono (show z + 1 ≤ y by omega)
    omega

/-! ## The year of a day in an era -/

/-- The closed formula for the year of a day of the era, both from 0. -/
def yearOfEra (doe : Int) : Int := (doe - doe / 1460 + doe / 36524 - doe / 146096) / 365

/-- Day `doy` of year `a` of four, in the `b`-th four years of century `c` of an era. -/
structure EraDay (c b a doy : Int) : Prop where
  century : 0 ≤ c ∧ c ≤ 3
  four : 0 ≤ b ∧ b ≤ 24
  year : 0 ≤ a ∧ a ≤ 3
  day : 0 ≤ doy ∧ doy ≤ 365
  /-- The last day of a leap year: every fourth year, and of the hundredth years the last. -/
  leap : doy = 365 → a = 3 ∧ (b = 24 → c = 3)

theorem exists_eraDay {doe : Int} (h : 0 ≤ doe) (h' : doe < 146097) :
    ∃ c b a doy, EraDay c b a doy ∧ doe = 36524 * c + 1461 * b + 365 * a + doy := by
  obtain ⟨c, hc⟩ : ∃ c, c = min (doe / 36524) 3 := ⟨_, rfl⟩
  obtain ⟨b, hb⟩ : ∃ b, b = (doe - 36524 * c) / 1461 := ⟨_, rfl⟩
  obtain ⟨a, ha⟩ : ∃ a, a = min ((doe - 36524 * c - 1461 * b) / 365) 3 := ⟨_, rfl⟩
  have hc0 : 0 ≤ c ∧ c ≤ 3 := by omega
  have hr : 0 ≤ doe - 36524 * c ∧ doe - 36524 * c ≤ 36524 ∧ (c < 3 → doe - 36524 * c < 36524) := by
    omega
  have hb0 : 0 ≤ b ∧ b ≤ 24 := by omega
  have hs : 0 ≤ doe - 36524 * c - 1461 * b ∧ doe - 36524 * c - 1461 * b ≤ 1460 := by omega
  refine ⟨c, b, a, doe - 36524 * c - 1461 * b - 365 * a, ⟨hc0, hb0, ?_, ?_, ?_⟩, by omega⟩ <;> omega

theorem EraDay.yearOfEra_eq {c b a doy doe : Int} (h : EraDay c b a doy)
    (he : doe = 36524 * c + 1461 * b + 365 * a + doy) : yearOfEra doe = 100 * c + 4 * b + a := by
  obtain ⟨hc, hb, ha, hd, hl⟩ := h
  have h3 : doe / 146096 = if c = 3 ∧ b = 24 ∧ a = 3 ∧ doy = 365 then 1 else 0 := by
    split <;> omega
  have h2 : doe / 36524 = if c = 3 ∧ b = 24 ∧ a = 3 ∧ doy = 365 then 4 else c := by
    split <;> omega
  -- The fourth years before `doe`, each with its leap day.
  have h1 : doe / 1460 = 25 * c + b + if 1460 ≤ 24 * c + b + 365 * a + doy then 1 else 0 := by
    split <;> omega
  unfold yearOfEra
  rw [h1, h2, h3]
  by_cases hlast : c = 3 ∧ b = 24 ∧ a = 3 ∧ doy = 365
  · rw [if_pos hlast, if_pos hlast]
    split <;> omega
  · rw [if_neg hlast, if_neg hlast]
    -- Which day it is doesn't matter any more.
    clear hlast h1 h2 h3
    split <;> omega

/-- The formula finds the year that holds the day. -/
theorem yearOfEra_spec {doe : Int} (h : 0 ≤ doe) (h' : doe < 146097) :
    0 ≤ yearOfEra doe ∧ yearOfEra doe ≤ 399 ∧
      marchStart (yearOfEra doe) ≤ doe ∧ doe < marchStart (yearOfEra doe + 1) := by
  obtain ⟨c, b, a, doy, hd, he⟩ := exists_eraDay h h'
  rw [hd.yearOfEra_eq he]
  obtain ⟨hc, hb, ha, hd, hl⟩ := hd
  have h4 : (100 * c + 4 * b + a) / 4 = 25 * c + b := by omega
  have h100 : (100 * c + 4 * b + a) / 100 = c := by omega
  have hs : marchStart (100 * c + 4 * b + a) = 36524 * c + 1461 * b + 365 * a := by
    unfold marchStart
    omega
  have hn := marchStart_succ (100 * c + 4 * b + a)
  refine ⟨by omega, by omega, by omega, ?_⟩
  rw [hn]
  split <;> rename_i hleap <;> unfold IsLeap at hleap <;> omega

theorem yearOfEra_iff {doe y : Int} (hy : 0 ≤ y) (hy' : y ≤ 399) (h : marchStart y ≤ doe)
    (h' : doe < marchStart (y + 1)) : yearOfEra doe = y := by
  have h0 : marchStart 0 = 0 := rfl
  have h400 : marchStart 400 = 146097 := rfl
  have hl := marchStart_mono hy
  have hr := marchStart_mono (show y + 1 ≤ 400 by omega)
  obtain ⟨-, -, hs, hs'⟩ := yearOfEra_spec (show 0 ≤ doe by omega) (show doe < 146097 by omega)
  exact year_unique hs hs' h h'

/-! ## Months from March -/

/-- The first day of month `m` of a year from March. -/
def monthStart (m : Int) : Int := (153 * m + 2) / 5

/-- The closed formula for the month of a day of the year, both from 0. -/
def monthOfYear (doy : Int) : Int := (5 * doy + 2) / 153

theorem monthOfYear_spec {doy : Int} (h : 0 ≤ doy) (h' : doy ≤ 365) :
    0 ≤ monthOfYear doy ∧ monthOfYear doy ≤ 11 ∧ monthStart (monthOfYear doy) ≤ doy ∧
      doy < monthStart (monthOfYear doy + 1) := by
  unfold monthOfYear monthStart
  omega

theorem monthOfYear_iff {doy m : Int} (h : monthStart m ≤ doy) (h' : doy < monthStart (m + 1)) :
    monthOfYear doy = m := by
  unfold monthStart at h h'
  unfold monthOfYear
  omega

/-! ## Dates -/

/-- Day `day` is day `d` (from 0) of month `m` of year `y`, both from March. -/
structure MarchDate (day y m d : Int) : Prop where
  month : 0 ≤ m ∧ m ≤ 11
  dayOfMonth : 0 ≤ d ∧ monthStart m + d < monthStart (m + 1)
  inYear : marchStart y + monthStart m + d < marchStart (y + 1)
  eq : day = marchStart y + monthStart m + d

theorem monthStart_nonneg {m : Int} (h : 0 ≤ m) : 0 ≤ monthStart m := by
  unfold monthStart
  omega

/-- The day of the era and of the year of a date. -/
theorem MarchDate.yearOfEra_eq {day y m d : Int} (h : MarchDate day y m d) :
    day / 146097 = y / 400 ∧ yearOfEra (day % 146097) = y % 400 ∧
      day % 146097 - marchStart (y % 400) = monthStart m + d := by
  obtain ⟨hm, hd, hy, he⟩ := h
  have h0 := monthStart_nonneg hm.1
  have hera : marchStart y = marchStart (y % 400) + 146097 * (y / 400) := by
    rw [← marchStart_add_era, Int.emod_add_mul_ediv]
  have hera' : marchStart (y + 1) = marchStart (y % 400 + 1) + 146097 * (y / 400) := by
    rw [← marchStart_add_era]
    congr 1
    omega
  have hl := marchStart_mono (show 0 ≤ y % 400 by omega)
  have hr := marchStart_mono (show y % 400 + 1 ≤ 400 by omega)
  have h400 : marchStart 400 = 146097 := rfl
  have hz : marchStart 0 = 0 := rfl
  have hq : day / 146097 = y / 400 := by omega
  have hrem : day % 146097 = marchStart (y % 400) + monthStart m + d := by omega
  refine ⟨hq, ?_, by omega⟩
  exact yearOfEra_iff (by omega) (by omega) (by omega) (by omega)

theorem MarchDate.monthOfYear_eq {day y m d : Int} (h : MarchDate day y m d) :
    monthOfYear (monthStart m + d) = m :=
  monthOfYear_iff (by have := h.dayOfMonth.1; omega) h.dayOfMonth.2

/-- Every day is a date. -/
theorem exists_marchDate (day : Int) : ∃ y m d, MarchDate day y m d := by
  obtain ⟨h1, h2, h3, h4⟩ :=
    yearOfEra_spec (show 0 ≤ day % 146097 by omega) (show day % 146097 < 146097 by omega)
  have hs := marchStart_succ (yearOfEra (day % 146097))
  have hera := marchStart_add_era (yearOfEra (day % 146097)) (day / 146097)
  have hera' := marchStart_add_era (yearOfEra (day % 146097) + 1) (day / 146097)
  have hdoy : day % 146097 - marchStart (yearOfEra (day % 146097)) ≤ 365 := by
    split at hs <;> omega
  obtain ⟨hm, hm', hd, hd'⟩ := monthOfYear_spec (by omega) hdoy
  refine ⟨yearOfEra (day % 146097) + 400 * (day / 146097),
    monthOfYear (day % 146097 - marchStart (yearOfEra (day % 146097))),
    day % 146097 - marchStart (yearOfEra (day % 146097)) -
      monthStart (monthOfYear (day % 146097 - marchStart (yearOfEra (day % 146097)))),
    ⟨hm, hm'⟩, ⟨by omega, by omega⟩, ?_, by omega⟩
  rw [show yearOfEra (day % 146097) + 400 * (day / 146097) + 1 =
    yearOfEra (day % 146097) + 1 + 400 * (day / 146097) by omega]
  omega

/-! ## Counting days -/

def yearLength (y : Int) : Int := if IsLeap y then 366 else 365

/-- The length of month `m` of year `y`, from January. -/
def monthLength (y : Int) (m : Nat) : Nat :=
  if m = 2 then (if IsLeap y then 29 else 28)
  else if m = 4 ∨ m = 6 ∨ m = 9 ∨ m = 11 then 30
  else 31

/-- The days of the years before year `y`, from year 0. -/
def daysBeforeYear : Nat → Int
  | 0 => 0
  | y + 1 => daysBeforeYear y + yearLength y

/-- The days of the first `m` months of year `y`. -/
def daysOfMonths (y : Int) : Nat → Int
  | 0 => 0
  | m + 1 => daysOfMonths y m + monthLength y (m + 1)

/-- The days from 1 January of year 0 to day `d` of month `m` of year `y`, one by one. -/
def countDays (y m d : Nat) : Int := daysBeforeYear y + daysOfMonths y (m - 1) + (d - 1)

/-- 1 January of year 0 is 60 days before 1 March. -/
theorem daysBeforeYear_eq (y : Nat) : daysBeforeYear y = marchStart (y - 1) + 366 := by
  induction y with
  | zero => rfl
  | succ y ih =>
    have hsucc := marchStart_succ ((y : Int) - 1)
    rw [sub_add_cancel] at hsucc
    rw [daysBeforeYear, ih, Nat.cast_succ, add_sub_cancel_right, hsucc]
    unfold yearLength
    omega

theorem daysBeforeYear_mono {y z : Nat} (h : y ≤ z) : daysBeforeYear y ≤ daysBeforeYear z := by
  have := marchStart_mono (show (y : Int) - 1 ≤ z - 1 by omega)
  rw [daysBeforeYear_eq, daysBeforeYear_eq]
  omega

theorem daysOfMonths_mono (y : Int) {m n : Nat} (h : m ≤ n) :
    daysOfMonths y m ≤ daysOfMonths y n := by
  induction h with
  | refl => exact le_refl _
  | step _ ih =>
    rw [daysOfMonths]
    omega

theorem daysOfMonths_year (y : Int) : daysOfMonths y 12 = yearLength y := by
  unfold yearLength
  by_cases h : IsLeap y <;> simp [daysOfMonths, monthLength, h]

/-- The count goes up with the year, the month and the day. -/
theorem countDays_lt {y m d y' m' d' : Nat} (hm : 1 ≤ m) (hm12 : m ≤ 12)
    (hd : d ≤ monthLength y m) (hd' : 1 ≤ d')
    (h : y < y' ∨ (y = y' ∧ (m < m' ∨ (m = m' ∧ d < d')))) :
    countDays y m d < countDays y' m' d' := by
  obtain ⟨n, rfl⟩ : ∃ n, m = n + 1 := ⟨m - 1, by omega⟩
  have hmonth : daysOfMonths y (n + 1) = daysOfMonths y n + monthLength y (n + 1) := rfl
  unfold countDays
  rw [Nat.add_sub_cancel]
  rcases h with hy | ⟨rfl, hm' | ⟨rfl, hlt⟩⟩
  · have hyear := daysBeforeYear_mono (show y + 1 ≤ y' from hy)
    have hmonths := daysOfMonths_mono y hm12
    have hzero := daysOfMonths_mono y' (Nat.zero_le (m' - 1))
    rw [daysBeforeYear] at hyear
    rw [daysOfMonths_year] at hmonths
    rw [daysOfMonths] at hzero
    omega
  · have hmonths := daysOfMonths_mono y (show n + 1 ≤ m' - 1 by omega)
    omega
  · rw [Nat.add_sub_cancel]
    omega

end SisaMessaging.Lib.Gregorian
