/-
  `Timestamp` as a point in time: its nanoseconds, its order, its day and the text it writes.

  `toText_toList` splits the written text into its date, its clock and its fraction;
  `fraction_length_le` says no other fraction of the same value has fewer digits.
-/
import SisaMessaging.Core.DateTime
import SisaMessaging.Core.Store

namespace SisaMessaging.Core

open Lib.IntType (u32 i64 i128 fit_eq_some fit_bind holds_u32 holds_i64 holds_i128)

/-- `std::time::SystemTime`, by its `duration_since(UNIX_EPOCH)`: the time after the epoch, or the
    error that carries the time before it. -/
structure SystemTime where
  sinceEpoch : Except Duration Duration

namespace Timestamp

/-- `From<SystemTime>`. -/
def fromSystemTime (time : SystemTime) : Timestamp :=
  match time.sinceEpoch with
  | .ok after => fromUnixNanos after.nanos
  | .error before => fromUnixNanos (-before.nanos)

/-- The derived `Ord`: by the seconds, then by the nanoseconds. -/
def cmp (a b : Timestamp) : Ordering :=
  (compare a.seconds b.seconds).then (compare a.nanos b.nanos)

/-! ## Nanoseconds -/

theorem unixNanos_fromUnixNanos (nanos : Int) : (fromUnixNanos nanos).unixNanos =
    max (firstSecond * nanosPerSecond) (min nanos (endSecond * nanosPerSecond - 1)) := by
  unfold fromUnixNanos unixNanos nanosPerSecond
  dsimp only
  omega

theorem unixNanos_range (time : Timestamp) : firstSecond * nanosPerSecond ≤ time.unixNanos ∧
    time.unixNanos ≤ endSecond * nanosPerSecond - 1 := by
  have h1 := time.first
  have h2 := time.last
  have h3 := time.subsecond
  unfold unixNanos nanosPerSecond
  omega

theorem unixNanos_injective {a b : Timestamp} (h : a.unixNanos = b.unixNanos) : a = b := by
  have ha := a.subsecond
  have hb := b.subsecond
  unfold unixNanos nanosPerSecond at h
  exact Timestamp.ext (by omega) (by omega)

theorem fromUnixNanos_unixNanos (time : Timestamp) : fromUnixNanos time.unixNanos = time := by
  have h := time.unixNanos_range
  refine unixNanos_injective ?_
  rw [unixNanos_fromUnixNanos, min_eq_left h.2, max_eq_right h.1]

theorem cmp_eq_compare (a b : Timestamp) : a.cmp b = compare a.unixNanos b.unixNanos := by
  have ha := a.subsecond
  have hb := b.subsecond
  unfold cmp unixNanos nanosPerSecond
  rcases Int.lt_trichotomy a.seconds b.seconds with h | h | h
  · rw [Int.compare_eq_lt.mpr h, Int.compare_eq_lt.mpr (by omega)]
    rfl
  · rw [Int.compare_eq_eq.mpr h, h]
    rcases Nat.lt_trichotomy a.nanos b.nanos with h' | h' | h'
    · rw [Nat.compare_eq_lt.mpr h', Int.compare_eq_lt.mpr (by omega)]
      rfl
    · rw [Nat.compare_eq_eq.mpr h', Int.compare_eq_eq.mpr (by omega)]
      rfl
    · rw [Nat.compare_eq_gt.mpr h', Int.compare_eq_gt.mpr (by omega)]
      rfl
  · rw [Int.compare_eq_gt.mpr h, Int.compare_eq_gt.mpr (by omega)]
    rfl

/-! ## The written text -/

/-- The fraction that `toText` writes. -/
def fraction (time : Timestamp) : List Char :=
  if time.nanos ≠ 0 then '.' :: trimZeros (paddedChars 9 time.nanos) else []

theorem date_days (time : Timestamp) : time.date.days = time.seconds / secondsPerDay := by
  obtain ⟨hlow, hhigh⟩ := time.dayRange
  have hfirst : Date.firstDay = -719528 := rfl
  have hlast : Date.lastDay = 2932896 := rfl
  unfold date Date.fromDays
  dsimp only
  omega

/-- The text is the date, the clock and the fraction. -/
theorem toText_toList (time : Timestamp) : ∃ clock, clock.length = 8 ∧
    time.toText.toList = time.date.toText.toList ++ 'T' :: (clock ++ (time.fraction ++ ['Z'])) := by
  obtain ⟨second, hsecond⟩ : ∃ second, second = (time.seconds % secondsPerDay).toNat := ⟨_, rfl⟩
  have hday : second < 86400 := by
    unfold secondsPerDay at hsecond
    omega
  refine ⟨paddedChars 2 (second / 3600) ++ ':' :: (paddedChars 2 (second / 60 % 60) ++
    ':' :: paddedChars 2 (second % 60)), ?_, ?_⟩
  · simp only [List.length_append, List.length_cons]
    rw [length_paddedChars (by decide) (by omega), length_paddedChars (by decide) (by omega),
      length_paddedChars (by decide) (by omega)]
  · have hpadded (width n : Nat) : (padded width n).toList = paddedChars width n :=
      String.toList_ofList
    have hfraction : (if time.nanos ≠ 0 then
        "." ++ String.ofList (trimZeros (paddedChars 9 time.nanos)) else "").toList =
          time.fraction := by
      unfold fraction
      split
      · rw [String.toList_append]
        exact congrArg ('.' :: ·) String.toList_ofList
      · rfl
    have hdash : "-".toList = ['-'] := rfl
    have hsep : "T".toList = ['T'] := rfl
    have hcolon : ":".toList = [':'] := rfl
    have hzone : "Z".toList = ['Z'] := rfl
    simp only [toText, Date.toText, date_days, ← hsecond, String.toList_append, hpadded, hfraction,
      hdash, hsep, hcolon, hzone, List.append_assoc, List.cons_append, List.nil_append]

/-! ## Fractions -/

theorem ofDigitChars_injective {l l' : List Char} (h : ∀ c ∈ l, c.isDigit)
    (h' : ∀ c ∈ l', c.isDigit) (hlength : l.length = l'.length) {total total' : Nat}
    (heq : Nat.ofDigitChars 10 l total = Nat.ofDigitChars 10 l' total') :
    total = total' ∧ l = l' := by
  induction l generalizing l' total total' with
  | nil =>
    obtain rfl := List.length_eq_zero_iff.mp hlength.symm
    exact ⟨by simpa using heq, rfl⟩
  | cons c l ih =>
    cases l' with
    | nil => cases hlength
    | cons c' l' =>
      obtain ⟨hc, hl⟩ := List.forall_mem_cons.mp h
      obtain ⟨hc', hl'⟩ := List.forall_mem_cons.mp h'
      rw [Nat.ofDigitChars_cons, Nat.ofDigitChars_cons] at heq
      obtain ⟨htotal, rfl⟩ := ih hl hl' (Nat.succ.inj hlength) heq
      have hdigit := isDigit_iff.mp hc
      have hdigit' := isDigit_iff.mp hc'
      have hzero : '0'.toNat = 48 := rfl
      have heq : c = c' := Char.toNat_inj.mp (by omega)
      exact ⟨by omega, congrArg (· :: l) heq⟩

theorem trimZeros_length_le (l : List Char) (k : Nat) :
    (trimZeros (l ++ List.replicate k '0')).length ≤ l.length := by
  induction k with
  | zero =>
    rw [List.replicate_zero, List.append_nil]
    exact (List.rdropWhile_prefix _ _).length_le
  | succ k ih =>
    have hdrop : trimZeros (l ++ List.replicate (k + 1) '0') =
        trimZeros (l ++ List.replicate k '0') := by
      rw [List.replicate_succ', ← List.append_assoc]
      exact List.rdropWhile_concat_pos _ _ _ rfl
    rw [hdrop]
    exact ih

/-- The nine digits of a fraction's nanoseconds are its first nine digits, filled up with zeros. -/
theorem paddedChars_fraction {l : List Char} (h : ∀ c ∈ l, c.isDigit) :
    paddedChars 9 (Nat.ofDigitChars 10 l 0 * 10 ^ 9 / 10 ^ l.length) =
      l.take 9 ++ List.replicate (9 - l.length) '0' := by
  have hlt : Nat.ofDigitChars 10 l 0 * 10 ^ 9 / 10 ^ l.length < 10 ^ 9 := fraction_lt h
  have hdigits : ∀ c ∈ l.take 9 ++ List.replicate (9 - l.length) '0', c.isDigit := by
    intro c hc
    rcases List.mem_append.mp hc with hc | hc
    · exact h c (List.mem_of_mem_take hc)
    · rw [List.eq_of_mem_replicate hc]
      rfl
  have hlength : (paddedChars 9 (Nat.ofDigitChars 10 l 0 * 10 ^ 9 / 10 ^ l.length)).length =
      (l.take 9 ++ List.replicate (9 - l.length) '0').length := by
    rw [length_paddedChars (by decide) hlt, List.length_append, List.length_take,
      List.length_replicate]
    omega
  have hvalue := ofDigitChars_paddedChars 9 (Nat.ofDigitChars 10 l 0 * 10 ^ 9 / 10 ^ l.length)
  exact (ofDigitChars_injective (isDigit_paddedChars _ _) hdigits hlength
    (hvalue.trans (ofDigitChars_take h).symm)).2

/-- No fraction of the same value is shorter. -/
theorem fraction_length_le (time : Timestamp) {f : List Char} (h : IsFraction f time.nanos) :
    time.fraction.length ≤ f.length := by
  unfold fraction
  split
  case isFalse => exact Nat.zero_le _
  case isTrue h0 =>
    generalize time.nanos = nanos at h h0
    cases h with
    | whole => exact absurd rfl h0
    | @digits l _ hl =>
      rw [paddedChars_fraction hl, List.length_cons, List.length_cons]
      have htrim := trimZeros_length_le (l.take 9) (9 - l.length)
      have htake := List.length_take_le 9 l
      rw [List.length_take] at htrim
      omega

theorem isFraction_fraction (time : Timestamp) :
    IsFraction time.fraction time.nanos ∧ time.fraction.getLast? ≠ some '0' := by
  unfold fraction
  split
  case isFalse h0 =>
    rw [not_not.mp h0]
    exact ⟨.whole, nofun⟩
  case isTrue h0 =>
    obtain ⟨k, hk⟩ := trimZeros_append (paddedChars 9 time.nanos)
    have hlast := List.rdropWhile_last_not (fun c => c == '0') (paddedChars 9 time.nanos)
    obtain ⟨l, hl⟩ : ∃ l, l = trimZeros (paddedChars 9 time.nanos) := ⟨_, rfl⟩
    rw [← hl] at hk ⊢
    have hlast (hne : l ≠ []) : ¬ (l.getLast hne == '0') := by
      subst hl
      exact hlast hne
    have hlength := length_paddedChars (n := time.nanos) (show 0 < 9 by decide) time.subsecond
    rw [hk, List.length_append, List.length_replicate] at hlength
    have hvalue : Nat.ofDigitChars 10 (l ++ List.replicate k '0') 0 = time.nanos := by
      rw [← hk, ofDigitChars_paddedChars]
    have hdigits : ∀ c ∈ l, c.isDigit := fun c hc =>
      isDigit_paddedChars 9 time.nanos c (hk ▸ List.mem_append_left _ hc)
    have hne : l ≠ [] := by
      rintro rfl
      rw [List.nil_append, Nat.ofDigitChars_replicate_zero, Nat.mul_zero] at hvalue
      exact h0 hvalue.symm
    constructor
    · have htake := ofDigitChars_take hdigits
      rw [List.take_of_length_le (by omega), show 9 - l.length = k by omega, hvalue] at htake
      rw [htake]
      exact .digits hne hdigits
    · rw [List.getLast?_eq_some_getLast (List.cons_ne_nil _ _), List.getLast_cons hne]
      exact fun h => hlast hne (beq_iff_eq.mpr (Option.some.inj h))

/-! ## Overflow -/

/-- `x.clamp(first, last)`, which panics when the bounds cross. -/
def clampChecked (x first last : Int) : Option Int :=
  if first ≤ last then some (max first (min x last)) else none

/-- `from_unix_nanos` with the overflow of each operation: the seconds and the nanoseconds. -/
def fromUnixNanosChecked (nanos : Int) : Option (Int × Int) := do
  let first ← i128.fit (firstSecond * nanosPerSecond)
  let last ← i128.fit (endSecond * nanosPerSecond)
  let last ← i128.fit (last - 1)
  let nanos ← clampChecked nanos first last
  let seconds ← i64.fit (nanos / nanosPerSecond)
  let nanos ← u32.fit (nanos % nanosPerSecond)
  return (seconds, nanos)

def fromSystemTimeChecked (time : SystemTime) : Option (Int × Int) :=
  match time.sinceEpoch with
  | .ok after => do
    let nanos ← i128.fit after.nanos
    fromUnixNanosChecked nanos
  | .error before => do
    let nanos ← i128.fit before.nanos
    let nanos ← i128.fit (-nanos)
    fromUnixNanosChecked nanos

def unixNanosChecked (time : Timestamp) : Option Int := do
  let whole ← i128.fit (time.seconds * nanosPerSecond)
  i128.fit (whole + time.nanos)

def dateChecked (time : Timestamp) : Option Int :=
  clampChecked (time.seconds / secondsPerDay) Date.firstDay Date.lastDay

/-- `toText` with the overflow of each operation. -/
def toTextChecked (time : Timestamp) : Option String := do
  let (year, month, day) ← dateFromDaysChecked (time.seconds / secondsPerDay)
  let secondOfDay := time.seconds % secondsPerDay
  return padded 4 year.toNat ++ "-" ++ padded 2 month ++ "-" ++ padded 2 day ++ "T" ++
    padded 2 (secondOfDay.tdiv 3600).toNat ++ ":" ++
    padded 2 ((secondOfDay.tdiv 60).tmod 60).toNat ++ ":" ++ padded 2 (secondOfDay.tmod 60).toNat ++
    (if time.nanos ≠ 0 then "." ++ String.ofList (trimZeros (paddedChars 9 time.nanos)) else "") ++
    "Z"

theorem fromUnixNanosChecked_eq (nanos : Int) : fromUnixNanosChecked nanos =
    some ((fromUnixNanos nanos).seconds, ((fromUnixNanos nanos).nanos : Int)) := by
  have hfirst := (fromUnixNanos nanos).first
  have hlast := (fromUnixNanos nanos).last
  have hsubsecond := (fromUnixNanos nanos).subsecond
  obtain ⟨clamped, hclamped⟩ : ∃ clamped, clamped =
      max (firstSecond * nanosPerSecond) (min nanos (endSecond * nanosPerSecond - 1)) := ⟨_, rfl⟩
  have hclamp : clampChecked nanos (firstSecond * nanosPerSecond)
      (endSecond * nanosPerSecond - 1) = some clamped := hclamped ▸ if_pos (by decide)
  have hseconds : (fromUnixNanos nanos).seconds = clamped / nanosPerSecond := hclamped ▸ rfl
  have hnanos : ((fromUnixNanos nanos).nanos : Int) = clamped % nanosPerSecond := by
    rw [hclamped]
    exact Int.toNat_of_nonneg (Int.emod_nonneg _ (by decide))
  unfold firstSecond at hfirst
  unfold endSecond at hlast
  rw [fromUnixNanosChecked, fit_bind (by decide), fit_bind (by decide), fit_bind (by decide), hclamp,
    Option.bind_eq_bind, Option.bind_some, ← hseconds, ← hnanos,
    fit_eq_some (by rw [holds_i64]; omega), Option.bind_some,
    fit_eq_some (by rw [holds_u32]; omega)]
  rfl

theorem fromSystemTimeChecked_eq (time : SystemTime) : fromSystemTimeChecked time =
    some ((fromSystemTime time).seconds, ((fromSystemTime time).nanos : Int)) := by
  unfold fromSystemTimeChecked fromSystemTime
  cases time.sinceEpoch with
  | ok after =>
    have := after.bound
    dsimp only
    rw [fit_bind (by rw [holds_i128]; omega), fromUnixNanosChecked_eq]
  | error before =>
    have := before.bound
    dsimp only
    rw [fit_bind (by rw [holds_i128]; omega), fit_bind (by rw [holds_i128]; omega),
      fromUnixNanosChecked_eq]

theorem unixNanosChecked_eq (time : Timestamp) :
    unixNanosChecked time = some time.unixNanos := by
  have h1 := time.first
  have h2 := time.last
  have h3 := time.subsecond
  unfold firstSecond at h1
  unfold endSecond at h2
  unfold unixNanosChecked unixNanos nanosPerSecond
  rw [fit_bind (by rw [holds_i128]; omega), fit_eq_some (by rw [holds_i128]; omega)]

theorem dateChecked_eq (time : Timestamp) : dateChecked time = some time.date.days := by
  rw [dateChecked, clampChecked, if_pos (by decide)]
  rfl

theorem toTextChecked_eq (time : Timestamp) : toTextChecked time = some time.toText := by
  obtain ⟨hlow, hhigh⟩ := time.dayRange
  obtain ⟨second, hsecond⟩ : ∃ second : Nat, time.seconds % secondsPerDay = second :=
    Int.eq_ofNat_of_zero_le (Int.emod_nonneg _ (by decide))
  rw [toTextChecked, dateFromDaysChecked_eq hlow hhigh, hsecond, toText, hsecond]
  rfl

/-! ## The type -/

theorem toText_length_le {time : Timestamp} {text : String} (h : Timestamp.parse text = .ok time) :
    time.toText.toList.length ≤ text.toList.length := by
  obtain ⟨y, m, d, hy, hm, hd, hdate⟩ := Date.parse_eq_ok.mp (Date.parse_toText time.date)
  obtain ⟨clock, hclock, htext⟩ := time.toText_toList
  obtain ⟨t, ht, _, hnanos⟩ := parseTime_iff.mp (Timestamp.parse_eq_ok.mp h)
  obtain ⟨y', m', d', separator, h', n', s', f, z, hy', hm', hd', _, hh', hn', hs', hf, hz, hparts⟩ :=
    ht.parts
  have hle := time.fraction_length_le (hnanos ▸ hf)
  have hzone := hz.length_pos
  rw [htext, hdate, hparts]
  simp only [List.length_append, List.length_cons, List.length_nil, hy.length, hm.length, hd.length,
    hclock, hy'.length, hm'.length, hd'.length, hh'.length, hn'.length, hs'.length]
  omega

/-- A time reads back from the text it writes, and no text for it is shorter: the text is its day, the
    clock, and a fraction with no zero at its end. Its nanoseconds determine it, order it, and are
    those it was made from, clamped to years 0000 to 9999. No operation overflows. -/
theorem writes_and_orders :
    (∀ time : Timestamp, Timestamp.parse time.toText = .ok time ∧
      ∀ text, Timestamp.parse text = .ok time →
        time.toText.toList.length ≤ text.toList.length) ∧
    (∀ time : Timestamp, ∃ clock fraction, time.toText.toList =
        time.date.toText.toList ++ 'T' :: (clock ++ (fraction ++ ['Z'])) ∧ clock.length = 8 ∧
      IsFraction fraction time.nanos ∧ fraction.getLast? ≠ some '0') ∧
    (∀ time : Timestamp, fromUnixNanos time.unixNanos = time) ∧
    (∀ nanos : Int, (fromUnixNanos nanos).unixNanos = max (dayOf 0 1 1 * 86400 * 1000000000)
      (min nanos (dayOf 10000 1 1 * 86400 * 1000000000 - 1))) ∧
    (∀ a b : Timestamp, a.cmp b = compare a.unixNanos b.unixNanos ∧
      (a = b ↔ a.unixNanos = b.unixNanos)) ∧
    (∀ nanos : Int, fromUnixNanosChecked nanos =
      some ((fromUnixNanos nanos).seconds, ((fromUnixNanos nanos).nanos : Int))) ∧
    (∀ time : SystemTime, fromSystemTimeChecked time =
      some ((fromSystemTime time).seconds, ((fromSystemTime time).nanos : Int))) ∧
    ∀ time : Timestamp, unixNanosChecked time = some time.unixNanos ∧
      dateChecked time = some time.date.days ∧ toTextChecked time = some time.toText := by
  refine ⟨fun time => ⟨parse_eq_ok.mpr (parseTime_toText time), fun _ => toText_length_le⟩,
    fun time => ?_, fromUnixNanos_unixNanos, fun nanos => ?_,
    fun a b => ⟨cmp_eq_compare a b, fun h => h ▸ rfl, unixNanos_injective⟩,
    fromUnixNanosChecked_eq, fromSystemTimeChecked_eq,
    fun time => ⟨unixNanosChecked_eq time, dateChecked_eq time, toTextChecked_eq time⟩⟩
  · obtain ⟨clock, hclock, htext⟩ := time.toText_toList
    exact ⟨clock, time.fraction, htext, hclock, time.isFraction_fraction⟩
  · rw [DateTime.firstSecond_eq, DateTime.endSecond_eq]
    exact unixNanos_fromUnixNanos nanos

end Timestamp

end SisaMessaging.Core
