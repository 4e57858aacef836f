/-
  The calendar of `time.rs`, day by day.

  `daysFromDate_eq_countDays` says the closed formulas count days with the leap-year rule.
  The functions whose names end in `Checked` are the source's with `fit` around each operation that
  can overflow and each cast; on the calendar's days none of them does.
-/
import SisaMessaging.Core.Calendar
import SisaMessaging.Lib.Checked

namespace SisaMessaging.Core

open Lib.Gregorian
open Lib.IntType (u8 u32 i64 fit_eq_some fit_bind holds_u8 holds_u32 holds_i64)

/-! ## Days counted one by one -/

/-- A day of the proleptic Gregorian calendar. -/
structure IsDate (year : Int) (month day : Nat) : Prop where
  inYear : 1 ≤ month ∧ month ≤ 12
  inMonth : 1 ≤ day ∧ day ≤ monthLength year month

theorem daysInMonth_eq {year : Int} {month : Nat} (h : 1 ≤ month) (h' : month ≤ 12) :
    daysInMonth year month = monthLength year month := by
  interval_cases month <;> rfl

theorem validDate_iff {year : Int} {month day : Nat} :
    ValidDate year month day ↔ IsDate year month day := by
  constructor
  · rintro ⟨hm, hm', hd, hd'⟩
    rw [daysInMonth_eq hm hm'] at hd'
    exact ⟨⟨hm, hm'⟩, hd, hd'⟩
  · rintro ⟨⟨hm, hm'⟩, hd, hd'⟩
    rw [← daysInMonth_eq hm hm'] at hd'
    exact ⟨hm, hm', hd, hd'⟩

theorem daysFromDate_eq_march (year : Int) (month day : Nat) :
    daysFromDate year month day = marchStart (year - if month ≤ 2 then 1 else 0) +
      monthStart ((month + 9) % 12 : Nat) + day - 719469 := by
  simp only [daysFromDate, marchStart, monthStart]
  omega

/-- The days of a date are the days counted from 0000-01-01. -/
theorem daysFromDate_eq_countDays {year month : Nat} (day : Nat) (h : 1 ≤ month) (h' : month ≤ 12) :
    daysFromDate year month day = countDays year month day - 719528 := by
  have hsucc := marchStart_succ ((year : Int) - 1)
  rw [sub_add_cancel] at hsucc
  rw [daysFromDate_eq_march, countDays, daysBeforeYear_eq]
  by_cases hleap : IsLeap year <;> simp only [hleap, if_true, if_false] at hsucc <;>
    interval_cases month <;> simp [daysOfMonths, monthLength, monthStart, hleap] <;> omega

/-- The first date is earlier than the second. -/
def Earlier (date other : Int × Nat × Nat) : Prop :=
  date.1 < other.1 ∨ (date.1 = other.1 ∧ (date.2.1 < other.2.1 ∨
    (date.2.1 = other.2.1 ∧ date.2.2 < other.2.2)))

theorem daysFromDate_lt {year month day year' month' day' : Nat} (h : IsDate year month day)
    (h' : IsDate year' month' day') (he : Earlier (year, month, day) (year', month', day')) :
    daysFromDate year month day < daysFromDate year' month' day' := by
  rw [daysFromDate_eq_countDays day h.inYear.1 h.inYear.2,
    daysFromDate_eq_countDays day' h'.inYear.1 h'.inYear.2]
  have hcount : countDays year month day < countDays year' month' day' :=
    countDays_lt h.inYear.1 h.inYear.2 h.inMonth.2 h'.inMonth.1
      (he.imp Int.ofNat_lt.mp (And.imp_left Int.ofNat_inj.mp))
  omega

/-- An earlier date is a smaller number of days. -/
theorem daysFromDate_lt_iff {year month day year' month' day' : Nat} (h : IsDate year month day)
    (h' : IsDate year' month' day') :
    daysFromDate year month day < daysFromDate year' month' day' ↔
      Earlier (year, month, day) (year', month', day') := by
  constructor
  · intro hlt
    by_contra hnot
    by_cases heq : year = year' ∧ month = month' ∧ day = day'
    · obtain ⟨rfl, rfl, rfl⟩ := heq
      exact lt_irrefl _ hlt
    · have hlater : Earlier (year', month', day') (year, month, day) := by
        unfold Earlier at hnot ⊢
        dsimp only at hnot ⊢
        omega
      exact lt_asymm hlt (daysFromDate_lt h' h hlater)
  · exact daysFromDate_lt h h'

/-! ## Overflow -/

/-- `dateFromDays` with the overflow of each operation. -/
def dateFromDaysChecked (days : Int) : Option (Int × Nat × Nat) := do
  let shifted ← i64.fit (days + 719468)
  let era := shifted / 146097
  let dayOfEra := shifted % 146097
  let years ← i64.fit (dayOfEra - dayOfEra.tdiv 1460)
  let years ← i64.fit (years + dayOfEra.tdiv 36524)
  let years ← i64.fit (years - dayOfEra.tdiv 146096)
  let yearOfEra := years.tdiv 365
  let before ← i64.fit (365 * yearOfEra)
  let before ← i64.fit (before + yearOfEra.tdiv 4)
  let before ← i64.fit (before - yearOfEra.tdiv 100)
  let dayOfYear ← i64.fit (dayOfEra - before)
  let months ← i64.fit (5 * dayOfYear)
  let months ← i64.fit (months + 2)
  let monthFromMarch := months.tdiv 153
  let days ← i64.fit (153 * monthFromMarch)
  let days ← i64.fit (days + 2)
  let day ← i64.fit (dayOfYear - days.tdiv 5)
  let day ← i64.fit (day + 1)
  let month ← if monthFromMarch < 10 then i64.fit (monthFromMarch + 3)
    else i64.fit (monthFromMarch - 9)
  let eraYears ← i64.fit (era * 400)
  let year ← i64.fit (yearOfEra + eraYears)
  let year ← i64.fit (year + if month ≤ 2 then 1 else 0)
  let month ← u32.fit month
  let day ← u32.fit day
  return (year, month.toNat, day.toNat)

theorem dateFromDaysChecked_eq {days : Int} (h : Date.firstDay ≤ days) (h' : days ≤ Date.lastDay) :
    dateFromDaysChecked days = some (dateFromDays days) := by
  have hfirst : Date.firstDay = -719528 := rfl
  have hlast : Date.lastDay = 2932896 := rfl
  obtain ⟨hy, hy', hl, hr⟩ := yearOfEra_spec (show 0 ≤ (days + 719468) % 146097 by omega) (by omega)
  unfold dateFromDaysChecked dateFromDays
  dsimp only
  rw [fit_bind (by rw [holds_i64]; omega)]
  generalize hera : (days + 719468) / 146097 = era
  generalize hdoe : (days + 719468) % 146097 = doe at *
  have hd : 0 ≤ doe ∧ doe ≤ 146096 := by omega
  have he : -5 ≤ era ∧ era ≤ 25 := by omega
  rw [Int.tdiv_eq_ediv_of_nonneg (by omega), Int.tdiv_eq_ediv_of_nonneg (by omega),
    Int.tdiv_eq_ediv_of_nonneg (by omega),
    fit_bind (by rw [holds_i64]; omega), fit_bind (by rw [holds_i64]; omega),
    fit_bind (by rw [holds_i64]; omega),
    Int.tdiv_eq_ediv_of_nonneg (by omega)]
  rw [show (doe - doe / 1460 + doe / 36524 - doe / 146096) / 365 = yearOfEra doe from rfl]
  generalize yearOfEra doe = yoe at *
  have hsucc := marchStart_succ yoe
  have hlast : doe - marchStart yoe ≤ 365 := by split at hsucc <;> omega
  unfold marchStart at hl hlast
  rw [Int.tdiv_eq_ediv_of_nonneg (by omega), Int.tdiv_eq_ediv_of_nonneg (by omega),
    fit_bind (by rw [holds_i64]; omega), fit_bind (by rw [holds_i64]; omega),
    fit_bind (by rw [holds_i64]; omega), fit_bind (by rw [holds_i64]; omega)]
  have hdoy : 0 ≤ doe - (365 * yoe + yoe / 4 - yoe / 100) ∧
      doe - (365 * yoe + yoe / 4 - yoe / 100) ≤ 365 := by omega
  generalize doe - (365 * yoe + yoe / 4 - yoe / 100) = doy at *
  rw [fit_bind (by rw [holds_i64]; omega), fit_bind (by rw [holds_i64]; omega),
    Int.tdiv_eq_ediv_of_nonneg (by omega)]
  have hm : 0 ≤ (5 * doy + 2) / 153 ∧ (5 * doy + 2) / 153 ≤ 11 := by omega
  have hday : 0 ≤ doy - (153 * ((5 * doy + 2) / 153) + 2) / 5 := by omega
  generalize (5 * doy + 2) / 153 = m at *
  rw [fit_bind (by rw [holds_i64]; omega), fit_bind (by rw [holds_i64]; omega),
    Int.tdiv_eq_ediv_of_nonneg (by omega), fit_bind (by rw [holds_i64]; omega),
    fit_bind (by rw [holds_i64]; omega)]
  split
  · rw [fit_bind (by rw [holds_i64]; omega), fit_bind (by rw [holds_i64]; omega),
      fit_bind (by rw [holds_i64]; omega), fit_bind (by rw [holds_i64]; split <;> omega),
      fit_bind (by rw [holds_u32]; omega), fit_bind (by rw [holds_u32]; omega)]
    rfl
  · rw [fit_bind (by rw [holds_i64]; omega), fit_bind (by rw [holds_i64]; omega),
      fit_bind (by rw [holds_i64]; omega), fit_bind (by rw [holds_i64]; split <;> omega),
      fit_bind (by rw [holds_u32]; omega), fit_bind (by rw [holds_u32]; omega)]
    rfl

/-- `daysFromDate` with the overflow of each operation. -/
def daysFromDateChecked (year : Int) (month day : Nat) : Option Int := do
  let year ← i64.fit (year - if month ≤ 2 then 1 else 0)
  let era := year / 400
  let yearOfEra := year % 400
  let months ← u32.fit (month + 9)
  let monthFromMarch := months.tmod 12
  let days ← i64.fit (153 * monthFromMarch)
  let days ← i64.fit (days + 2)
  let dayOfYear ← i64.fit (days.tdiv 5 + day)
  let dayOfYear ← i64.fit (dayOfYear - 1)
  let dayOfEra ← i64.fit (yearOfEra * 365)
  let dayOfEra ← i64.fit (dayOfEra + yearOfEra.tdiv 4)
  let dayOfEra ← i64.fit (dayOfEra - yearOfEra.tdiv 100)
  let dayOfEra ← i64.fit (dayOfEra + dayOfYear)
  let days ← i64.fit (era * 146097)
  let days ← i64.fit (days + dayOfEra)
  i64.fit (days - 719468)

theorem daysFromDateChecked_eq {year : Nat} {month day : Nat} (hy : year ≤ 10000) (h : ValidDate year month day) :
    daysFromDateChecked year month day = some (daysFromDate year month day) := by
  obtain ⟨hm, hm', hd, hd'⟩ := h
  have hday := daysInMonth_le year month
  unfold daysFromDateChecked daysFromDate
  dsimp only
  rw [fit_bind (by rw [holds_i64]; split <;> omega), fit_bind (by rw [holds_u32]; omega)]
  have hbound : -1 ≤ (year : Int) - (if month ≤ 2 then 1 else 0) ∧
      (year : Int) - (if month ≤ 2 then 1 else 0) ≤ 10000 := by
    split <;> omega
  generalize (year : Int) - (if month ≤ 2 then 1 else 0) = y at hbound ⊢
  have hmod : ((month : Int) + 9).tmod 12 = (((month + 9) % 12 : Nat) : Int) := by
    rw [Int.tmod_eq_emod_of_nonneg (by omega)]
    omega
  rw [hmod]
  have hmarch : (month + 9) % 12 ≤ 11 := by omega
  generalize (month + 9) % 12 = m at hmarch ⊢
  rw [fit_bind (by rw [holds_i64]; omega), fit_bind (by rw [holds_i64]; omega),
    Int.tdiv_eq_ediv_of_nonneg (by omega), Int.tdiv_eq_ediv_of_nonneg (by omega),
    Int.tdiv_eq_ediv_of_nonneg (by omega),
    fit_bind (by rw [holds_i64]; omega), fit_bind (by rw [holds_i64]; omega),
    fit_bind (by rw [holds_i64]; omega), fit_bind (by rw [holds_i64]; omega),
    fit_bind (by rw [holds_i64]; omega), fit_bind (by rw [holds_i64]; omega),
    fit_bind (by rw [holds_i64]; omega), fit_bind (by rw [holds_i64]; omega)]
  exact Lib.IntType.fit_eq_some (by rw [holds_i64]; omega)

/-- The loop of `number`. -/
def digitsChecked : List UInt8 → Int → Option (Option Int)
  | [], total => some (some total)
  | digit :: text, total =>
    if isAsciiDigit digit then do
      let total ← u32.fit (total * 10)
      let value ← u8.fit (digit.toNat - 48)
      let total ← u32.fit (total + value)
      digitsChecked text total
    else some none

/-- `number` with the overflow of each operation. -/
def numberChecked (text : List UInt8) (start stop : Nat) : Option (Option Int) :=
  if start ≤ stop ∧ stop ≤ text.length then
    digitsChecked ((text.drop start).take (stop - start)) 0
  else some none

theorem digitsChecked_eq {text : List UInt8} {total : Nat}
    (h : (total + 1) * 10 ^ text.length ≤ 1000000000) :
    digitsChecked text total = some ((text.foldlM (fun total digit =>
      if isAsciiDigit digit then some (total * 10 + (digit - 48).toNat) else none) total).map
        Int.ofNat) := by
  induction text generalizing total with
  | nil => rfl
  | cons digit text ih =>
    rw [digitsChecked, List.foldlM_cons]
    by_cases hd : isAsciiDigit digit
    · obtain ⟨hlow, hhigh⟩ := isAsciiDigit_iff.mp hd
      have hvalue : (digit - 48).toNat = digit.toNat - 48 :=
        UInt8.toNat_sub_of_le _ _ (UInt8.le_iff_toNat_le.mpr hlow)
      have hpow := Nat.one_le_pow text.length 10 (by decide)
      rw [List.length_cons, pow_succ'] at h
      have hrest : (total * 10 + (digit - 48).toNat + 1) * 10 ^ text.length ≤ 1000000000 :=
        calc _ ≤ (total + 1) * 10 * 10 ^ text.length := Nat.mul_le_mul_right _ (by omega)
          _ = (total + 1) * (10 * 10 ^ text.length) := Nat.mul_assoc _ _ _
          _ ≤ _ := h
      have hlt : total * 10 + (digit - 48).toNat + 1 ≤ 1000000000 :=
        (Nat.le_mul_of_pos_right _ hpow).trans hrest
      rw [if_pos hd, if_pos hd, fit_bind (by rw [holds_u32]; omega),
        fit_bind (by rw [holds_u8]; omega), fit_bind (by rw [holds_u32]; omega)]
      have hcast : (total : Int) * 10 + ((digit.toNat : Int) - 48) =
          ((total * 10 + (digit - 48).toNat : Nat) : Int) := by omega
      rw [hcast, ih hrest]
      rfl
    · rw [if_neg hd, if_neg hd]
      rfl

/-- The source's numbers have four digits at most. -/
theorem numberChecked_eq {text : List UInt8} {start stop : Nat} (h : stop - start ≤ 4) :
    numberChecked text start stop = some ((number text start stop).map Int.ofNat) := by
  unfold numberChecked number
  split
  · refine digitsChecked_eq ?_
    rw [Nat.zero_add, Nat.one_mul]
    calc 10 ^ ((text.drop start).take (stop - start)).length ≤ 10 ^ 4 :=
          Nat.pow_le_pow_right (by decide) ((List.length_take_le _ _).trans h)
      _ ≤ _ := by decide
  · rfl

/-! ## Dates -/

namespace Date

/-- `new` with the overflow of each operation: the days of the date. -/
def newChecked (year month day : Nat) : Option (Option Int) :=
  if year ≤ 9999 ∧ ValidDate year month day then do
    let days ← daysFromDateChecked year month day
    return some days
  else some none

theorem newChecked_eq (year month day : Nat) :
    newChecked year month day = some ((new year month day).map Date.days) := by
  unfold newChecked new
  split
  · rename_i h
    rw [daysFromDateChecked_eq (by omega) h.2]
    rfl
  · rfl

/-- `from_str` with the overflow of each operation: the days of the date. The places it indexes
    are below the length it checks. -/
def parseChecked (text : String) : Option (Option Int) :=
  let bytes := textBytes text
  if bytes.length = 10 ∧ bytes[4]? = some 45 ∧ bytes[7]? = some 45 then do
    match ← numberChecked bytes 0 4 with
    | none => return none
    | some year =>
      match ← numberChecked bytes 5 7 with
      | none => return none
      | some month =>
        match ← numberChecked bytes 8 10 with
        | none => return none
        | some day => newChecked year.toNat month.toNat day.toNat
  else some none

theorem parseChecked_eq (text : String) :
    parseChecked text = some ((parse text).toOption.map Date.days) := by
  have hparse : (parse text).toOption =
      if (textBytes text).length = 10 ∧ (textBytes text)[4]? = some 45 ∧
          (textBytes text)[7]? = some 45 then do
        new (← number (textBytes text) 0 4) (← number (textBytes text) 5 7)
          (← number (textBytes text) 8 10)
      else none := by
    unfold parse
    dsimp only
    split <;> rename_i h <;> rw [h] <;> rfl
  rw [hparse]
  unfold parseChecked
  dsimp only
  split
  · rw [numberChecked_eq (by decide), numberChecked_eq (by decide), numberChecked_eq (by decide)]
    cases number (textBytes text) 0 4 with
    | none => rfl
    | some year =>
      cases number (textBytes text) 5 7 with
      | none => rfl
      | some month =>
        cases number (textBytes text) 8 10 with
        | none => rfl
        | some day => exact newChecked_eq year month day
  · rfl

theorem new_eq_some {year month day : Nat} {date : Date} :
    new year month day = some date ↔ date.year = year ∧ date.month = month ∧ date.day = day := by
  unfold new
  constructor
  · intro h
    split at h
    case isFalse => cases h
    case isTrue hv =>
      obtain rfl := Option.some.inj h
      simp only [Date.year, Date.month, Date.day, dateFromDays_daysFromDate hv.2]
      simp
  · rintro ⟨rfl, rfl, rfl⟩
    obtain ⟨hyear, hvalid, hdays⟩ := date.fields
    rw [dif_pos ⟨hyear, hvalid⟩]
    exact congrArg some (Date.ext hdays)

theorem parse_eq_ok_iff {text : String} {date : Date} : parse text = .ok date ↔
    (textBytes text).length = 10 ∧ (textBytes text)[4]? = some 45 ∧ (textBytes text)[7]? = some 45 ∧
      number (textBytes text) 0 4 = some date.year ∧
      number (textBytes text) 5 7 = some date.month ∧
      number (textBytes text) 8 10 = some date.day := by
  unfold parse
  dsimp only
  constructor
  · intro h
    split at h
    case h_2 => cases h
    case h_1 found hfound =>
      obtain rfl := Except.ok.inj h
      split at hfound
      case isFalse => cases hfound
      case isTrue hbytes =>
        obtain ⟨hlen, h4, h7⟩ := hbytes
        simp only [Option.bind_eq_bind, Option.bind_eq_some_iff] at hfound
        obtain ⟨year, hyear, month, hmonth, day, hday, hnew⟩ := hfound
        obtain ⟨rfl, rfl, rfl⟩ := new_eq_some.mp hnew
        exact ⟨hlen, h4, h7, hyear, hmonth, hday⟩
  · rintro ⟨hlen, h4, h7, hyear, hmonth, hday⟩
    rw [if_pos ⟨hlen, h4, h7⟩, hyear, hmonth, hday]
    simp [new_eq_some.mpr ⟨rfl, rfl, rfl⟩]

/-- The texts that read as a date: its year, month and day as ten characters. -/
theorem parse_eq_ok {text : String} {date : Date} : parse text = .ok date ↔
    ∃ y m d, IsDecimal 4 date.year y ∧ IsDecimal 2 date.month m ∧ IsDecimal 2 date.day d ∧
      text.toList = y ++ '-' :: (m ++ '-' :: d) := by
  rw [parse_eq_ok_iff, getElem?_eq_some_iff_drop, getElem?_eq_some_iff_drop,
    number_eq_some (by decide), number_eq_some (by decide), number_eq_some (by decide)]
  have hascii : ∀ {y m d : List Char}, IsDecimal 4 date.year y → IsDecimal 2 date.month m →
      IsDecimal 2 date.day d → ∀ c ∈ y ++ '-' :: (m ++ '-' :: d), c.toNat < 128 := by
    simp only [List.mem_append, List.mem_cons]
    rintro y m d hy hm hd c (hc | rfl | hc | rfl | hc)
    · exact hy.ascii c hc
    · decide
    · exact hm.ascii c hc
    · decide
    · exact hd.ascii c hc
  constructor
  · rintro ⟨hlen, h4, h7, ⟨y, hy, hyb⟩, ⟨m, hm, hmb⟩, d, hd, hdb⟩
    refine ⟨y, m, d, hy, hm, hd, (textBytes_eq_map_iff (hascii hy hm hd)).mp ?_⟩
    · rw [List.drop_zero] at hyb
      rw [hyb, h4, hmb, h7, hdb, List.drop_of_length_le hlen.le]
      simp only [List.append_nil, List.map_append, List.map_cons]
      rfl
  · rintro ⟨y, m, d, hy, hm, hd, htext⟩
    rw [(textBytes_eq_map_iff (hascii hy hm hd)).mpr htext]
    match y, m, d, hy, hm, hd, hy.length, hm.length, hd.length with
    | [y0, y1, y2, y3], [m0, m1], [d0, d1], hy, hm, hd, _, _, _ =>
      exact ⟨rfl, rfl, rfl, ⟨_, hy, rfl⟩, ⟨_, hm, rfl⟩, _, hd, rfl⟩

end Date

/-! ## The calendar -/

/-- The date of a day in years 0000 to 9999. -/
theorem exists_dateFromDays {days : Int} (h : Date.firstDay ≤ days) (h' : days ≤ Date.lastDay) :
    ∃ year month day : Nat, dateFromDays days = (↑year, month, day) ∧ year ≤ 9999 ∧
      IsDate year month day ∧ daysFromDate year month day = days := by
  obtain ⟨hyear, hvalid, hdays⟩ := Date.fields ⟨days, h, h'⟩
  refine ⟨_, _, _, ?_, hyear, validDate_iff.mp hvalid, hdays⟩
  rw [← dateFromDays_daysFromDate hvalid, hdays]

theorem countDays_epoch : countDays 1970 1 1 = 719528 := by
  have hcount : daysFromDate ((1970 : Nat) : Int) 1 1 = countDays 1970 1 1 - 719528 :=
    daysFromDate_eq_countDays 1 (le_refl 1) (by decide)
  have hepoch : daysFromDate ((1970 : Nat) : Int) 1 1 = 0 := rfl
  omega

/-- The day of a date, from 1970-01-01. -/
def dayOf (year month day : Nat) : Int := countDays year month day - countDays 1970 1 1

theorem daysFromDate_eq_dayOf {year month : Nat} (day : Nat) (h : 1 ≤ month) (h' : month ≤ 12) :
    daysFromDate year month day = dayOf year month day := by
  rw [daysFromDate_eq_countDays day h h', dayOf, countDays_epoch]

/-- Days and dates are those of the calendar, counted one by one from its rules, in the same order
    and without overflow. `Date` has the ones of years 0000 to 9999, and reads and writes them as
    ten characters. -/
theorem calendar_counts_days :
    (∀ days, Date.firstDay ≤ days → days ≤ Date.lastDay →
      dateFromDaysChecked days = some (dateFromDays days) ∧
      ∃ year month day : Nat, dateFromDays days = (↑year, month, day) ∧ year ≤ 9999 ∧
        IsDate year month day ∧ daysFromDate year month day = days ∧
        dayOf year month day = days) ∧
    (∀ year month day : Nat, year ≤ 10000 → IsDate year month day →
      daysFromDateChecked year month day = some (daysFromDate year month day) ∧
      dateFromDays (daysFromDate year month day) = (↑year, month, day)) ∧
    (∀ year month day year' month' day' : Nat, IsDate year month day → IsDate year' month' day' →
      (daysFromDate year month day < daysFromDate year' month' day' ↔
        Earlier (year, month, day) (year', month', day'))) ∧
    (∀ days days', Date.firstDay ≤ days → days ≤ Date.lastDay → Date.firstDay ≤ days' →
      days' ≤ Date.lastDay → (days < days' ↔ Earlier (dateFromDays days) (dateFromDays days'))) ∧
    (∀ year month day : Nat, ((Date.new year month day).isSome ↔
        year ≤ 9999 ∧ IsDate year month day) ∧
      Date.newChecked year month day = some ((Date.new year month day).map Date.days) ∧
      ∀ date, Date.new year month day = some date ↔
        date.year = year ∧ date.month = month ∧ date.day = day) ∧
    (∀ (text : String) (date : Date), Date.parse text = .ok date ↔
      ∃ y m d, IsDecimal 4 date.year y ∧ IsDecimal 2 date.month m ∧ IsDecimal 2 date.day d ∧
        text.toList = y ++ '-' :: (m ++ '-' :: d)) ∧
    (∀ date : Date, Date.parse date.toText = .ok date) ∧
    ∀ text : String, Date.parseChecked text = some ((Date.parse text).toOption.map Date.days) := by
  refine ⟨fun days h h' => ⟨dateFromDaysChecked_eq h h', ?_⟩, fun year month day hyear hdate => ?_,
    fun _ _ _ _ _ _ => daysFromDate_lt_iff, fun days days' h1 h2 h3 h4 => ?_,
    fun year month day => ⟨?_, Date.newChecked_eq year month day, fun _ => Date.new_eq_some⟩,
    fun _ _ => Date.parse_eq_ok, Date.parse_toText, Date.parseChecked_eq⟩
  · obtain ⟨year, month, day, hfrom, hyear, hdate, hdays⟩ := exists_dateFromDays h h'
    refine ⟨year, month, day, hfrom, hyear, hdate, hdays, ?_⟩
    rw [daysFromDate_eq_dayOf day hdate.inYear.1 hdate.inYear.2] at hdays
    exact hdays
  · have hvalid := validDate_iff.mpr hdate
    exact ⟨daysFromDateChecked_eq hyear hvalid, dateFromDays_daysFromDate hvalid⟩
  · obtain ⟨year, month, day, hfrom, _, hdate, rfl⟩ := exists_dateFromDays h1 h2
    obtain ⟨year', month', day', hfrom', _, hdate', rfl⟩ := exists_dateFromDays h3 h4
    rw [hfrom, hfrom']
    exact daysFromDate_lt_iff hdate hdate'
  · rw [← validDate_iff, Date.new]
    split <;> rename_i h
    · exact iff_of_true rfl h
    · exact iff_of_false (by simp) h

end SisaMessaging.Core
