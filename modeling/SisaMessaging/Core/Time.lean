/-
  The envelope's time, written as RFC 3339 on the wire.

  A `Timestamp` carries the proof that it lies in years 0000 to 9999 and that its nanoseconds are
  below a second. `parseTime` is the source's byte-offset reader and `Timestamp.toText` its
  writer; `parseTime_toText` says the reader reads back every time the writer writes.
-/
import Mathlib.Data.List.DropRight
import Mathlib.Data.List.TakeWhile
import SisaMessaging.Core.Calendar

namespace SisaMessaging.Core

def nanosPerSecond : Int := 1000000000

/-- A point in time, to the nanosecond. -/
@[ext] structure Timestamp where
  /-- Seconds since 1970-01-01T00:00:00Z. -/
  seconds : Int
  /-- The nanoseconds within that second. -/
  nanos : Nat
  first : firstSecond ≤ seconds
  last : seconds < endSecond
  subsecond : nanos < 1000000000
  deriving DecidableEq

namespace Timestamp

/-- The time this many nanoseconds after 1970-01-01T00:00:00Z, clamped to years 0000 to 9999. -/
def fromUnixNanos (nanos : Int) : Timestamp :=
  let first := firstSecond * nanosPerSecond
  let last := endSecond * nanosPerSecond - 1
  let clamped := max first (min nanos last)
  { seconds := clamped / nanosPerSecond
    nanos := (clamped % nanosPerSecond).toNat
    first := by unfold clamped first last firstSecond endSecond nanosPerSecond; omega
    last := by unfold clamped first last firstSecond endSecond nanosPerSecond; omega
    subsecond := by unfold nanosPerSecond; omega }

/-- The UTC day this time falls on. -/
def date (time : Timestamp) : Date := Date.fromDays (time.seconds / secondsPerDay)

/-- Nanoseconds since 1970-01-01T00:00:00Z, negative before it. -/
def unixNanos (time : Timestamp) : Int := time.seconds * nanosPerSecond + time.nanos

/-- `fraction.trim_end_matches('0')`. -/
def trimZeros (fraction : List Char) : List Char := fraction.rdropWhile (· == '0')

/-- Writes RFC 3339 in UTC: `Display`. -/
def toText (time : Timestamp) : String :=
  let (year, month, day) := dateFromDays (time.seconds / secondsPerDay)
  let secondOfDay := (time.seconds % secondsPerDay).toNat
  padded 4 year.toNat ++ "-" ++ padded 2 month ++ "-" ++ padded 2 day ++ "T" ++
    padded 2 (secondOfDay / 3600) ++ ":" ++ padded 2 (secondOfDay / 60 % 60) ++ ":" ++
    padded 2 (secondOfDay % 60) ++
    (if time.nanos ≠ 0 then "." ++ String.ofList (trimZeros (paddedChars 9 time.nanos)) else "") ++
    "Z"

end Timestamp

/-! ## Reading -/

/-- The value of the fraction's digit at `place`, 0 past its `length` digits. -/
def fractionDigit (fraction : List UInt8) (length place : Nat) : Nat :=
  match fraction[place]? with
  | some byte => if place < length then (byte - 48).toNat else 0
  | none => 0

/-- The first nine digits of a fraction, as nanoseconds; digits past the ninth are dropped. -/
def fractionNanos (fraction : List UInt8) (length : Nat) : Nat :=
  (List.range 9).foldl (fun nanos place => nanos * 10 + fractionDigit fraction length place) 0

theorem foldl_digits_lt (l : List Nat) (f : Nat → Nat) (n : Nat) (h : ∀ p ∈ l, f p ≤ 9) :
    l.foldl (fun nanos place => nanos * 10 + f place) n < (n + 1) * 10 ^ l.length := by
  induction l generalizing n with
  | nil => simp
  | cons p l ih =>
    have hp := h p List.mem_cons_self
    have hl := ih (n * 10 + f p) fun q hq => h q (List.mem_cons_of_mem _ hq)
    rw [List.foldl_cons, List.length_cons, pow_succ]
    calc _ < (n * 10 + f p + 1) * 10 ^ l.length := hl
      _ ≤ (n + 1) * 10 * 10 ^ l.length := Nat.mul_le_mul_right _ (by omega)
      _ = (n + 1) * (10 ^ l.length * 10) := by rw [Nat.mul_assoc, Nat.mul_comm 10]

theorem isAsciiDigit_le {byte : UInt8} (h : isAsciiDigit byte) : (byte - 48).toNat ≤ 9 := by
  simp only [isAsciiDigit, Bool.and_eq_true, decide_eq_true_eq] at h
  have h1 := UInt8.le_iff_toNat_le.mp h.2
  rw [UInt8.toNat_sub_of_le _ _ h.1]
  have h2 : (57 : UInt8).toNat = 57 := rfl
  have h3 : (48 : UInt8).toNat = 48 := rfl
  omega

/-- A byte within the fraction's length is a digit. -/
theorem isAsciiDigit_getElem? {fraction : List UInt8} {place : Nat} {byte : UInt8}
    (hbyte : fraction[place]? = some byte)
    (hlt : place < (fraction.takeWhile isAsciiDigit).length) : isAsciiDigit byte := by
  obtain ⟨_, hget⟩ := List.getElem?_eq_some_iff.mp hbyte
  have hd : (fraction.takeWhile isAsciiDigit)[place] = byte := by
    rw [(List.takeWhile_prefix isAsciiDigit).getElem hlt, hget]
  exact List.mem_takeWhile_imp (hd ▸ List.getElem_mem hlt)

theorem fractionDigit_le (fraction : List UInt8) (place : Nat) :
    fractionDigit fraction (fraction.takeWhile isAsciiDigit).length place ≤ 9 := by
  unfold fractionDigit
  split
  · rename_i byte hbyte
    split
    · rename_i hlt
      exact isAsciiDigit_le (isAsciiDigit_getElem? hbyte hlt)
    · omega
  · omega

theorem fractionNanos_lt (fraction : List UInt8) :
    fractionNanos fraction (fraction.takeWhile isAsciiDigit).length < 1000000000 := by
  have h := foldl_digits_lt (List.range 9) _ 0 fun place _ => fractionDigit_le fraction place
  rwa [List.length_range] at h

/-- The optional fraction after the seconds: its nanoseconds, and what follows it. -/
def parseFraction (rest : List UInt8) : Option ({ nanos : Nat // nanos < 1000000000 } × List UInt8) :=
  match rest with
  | 46 :: fraction =>
    let length := (fraction.takeWhile isAsciiDigit).length
    if length = 0 then none
    else some (⟨fractionNanos fraction length, fractionNanos_lt fraction⟩, fraction.drop length)
  | _ => some (⟨0, by decide⟩, rest)

/-- The offset from UTC in seconds: `Z`, or a sign, hours, a colon and minutes. -/
def parseOffset (rest : List UInt8) : Option Int :=
  match rest with
  | [zone] => if zone = 90 ∨ zone = 122 then some 0 else none
  | [sign, _, _, colon, _, _] =>
    if (sign = 43 ∨ sign = 45) ∧ colon = 58 then do
      let offsetHour ← number rest 1 3
      let offsetMinute ← number rest 4 6
      if offsetHour > 23 ∨ offsetMinute > 59 then none
      else
        let offset : Int := ↑(offsetHour * 3600 + offsetMinute * 60)
        some (if sign = 45 then -offset else offset)
    else none
  | _ => none

/-- Reads `YYYY-MM-DDTHH:MM:SS[.fraction](Z|+HH:MM|-HH:MM)`: `parse`. -/
def parseTime (text : String) : Option Timestamp := do
  let bytes := textBytes text
  let separators : List (Nat × UInt8) := [(4, 45), (7, 45), (13, 58), (16, 58)]
  if (separators.any fun (place, separator) => bytes[place]? != some separator) ∨
      ¬ (bytes[10]? = some 84 ∨ bytes[10]? = some 116) then none
  else
    let year ← number bytes 0 4
    let month ← number bytes 5 7
    let day ← number bytes 8 10
    let hour ← number bytes 11 13
    let minute ← number bytes 14 16
    let second ← number bytes 17 19
    if ¬ ValidDate year month day ∨ hour > 23 ∨ minute > 59 ∨ second > 59 then none
    else
      let (nanos, rest) ← parseFraction (bytes.drop 19)
      let offsetSeconds ← parseOffset rest
      let seconds := daysFromDate year month day * secondsPerDay +
        ↑(hour * 3600 + minute * 60 + second) - offsetSeconds
      -- An offset can carry 9999-12-31 into year 10000.
      if h : firstSecond ≤ seconds ∧ seconds < endSecond then
        some ⟨seconds, nanos, h.1, h.2, nanos.2⟩
      else none

/-- `Timestamp::from_str`. -/
def Timestamp.parse (text : String) : Except EnvelopeError Timestamp :=
  match parseTime text with
  | some time => .ok time
  | none => .error (.invalid "time" "not an RFC 3339 date-time")

theorem Timestamp.parse_eq_ok {text : String} {time : Timestamp} :
    Timestamp.parse text = .ok time ↔ parseTime text = some time := by
  unfold Timestamp.parse
  cases parseTime text <;> simp

/-! ## The reader reads what the writer writes -/

/-- The reader on a text whose fields up to the seconds are `width` digits each. -/
theorem parseTime_fields {text : String} {y m d h n s rest : List UInt8}
    {year month day hour minute second : Nat}
    (hb : textBytes text =
      y ++ 45 :: (m ++ 45 :: (d ++ 84 :: (h ++ 58 :: (n ++ 58 :: (s ++ rest))))))
    (hy : y.length = 4 ∧ digits y = some year) (hm : m.length = 2 ∧ digits m = some month)
    (hd : d.length = 2 ∧ digits d = some day) (hh : h.length = 2 ∧ digits h = some hour)
    (hn : n.length = 2 ∧ digits n = some minute) (hs : s.length = 2 ∧ digits s = some second)
    (hv : ValidDate year month day) (ht : hour ≤ 23 ∧ minute ≤ 59 ∧ second ≤ 59) :
    parseTime text = (do
      let (nanos, rest) ← parseFraction rest
      let offsetSeconds ← parseOffset rest
      let seconds := daysFromDate year month day * secondsPerDay +
        ↑(hour * 3600 + minute * 60 + second) - offsetSeconds
      if h : firstSecond ≤ seconds ∧ seconds < endSecond then
        some ⟨seconds, nanos, h.1, h.2, nanos.2⟩
      else none) := by
  obtain ⟨hy4, hy⟩ := hy
  obtain ⟨m0, m1, rfl⟩ := List.length_eq_two.mp hm.1
  obtain ⟨d0, d1, rfl⟩ := List.length_eq_two.mp hd.1
  obtain ⟨h0, h1, rfl⟩ := List.length_eq_two.mp hh.1
  obtain ⟨n0, n1, rfl⟩ := List.length_eq_two.mp hn.1
  obtain ⟨s0, s1, rfl⟩ := List.length_eq_two.mp hs.1
  match y, hy4 with
  | [y0, y1, y2, y3], _ =>
    have hbad : ¬ (¬ ValidDate year month day ∨ hour > 23 ∨ minute > 59 ∨ second > 59) := by
      rintro (h | h)
      · exact h hv
      · omega
    simp [parseTime, hb, number, hy, hm.2, hd.2, hh.2, hn.2, hs.2, hbad]

theorem trimZeros_append (l : List Char) :
    ∃ k, l = Timestamp.trimZeros l ++ List.replicate k '0' := by
  refine ⟨(l.rtakeWhile (· == '0')).length, ?_⟩
  have hz : l.rtakeWhile (· == '0') = List.replicate (l.rtakeWhile (· == '0')).length '0' :=
    List.eq_replicate_iff.mpr ⟨rfl, fun c hc => by simpa using List.mem_rtakeWhile_imp hc⟩
  rw [← hz]
  exact List.rdropWhile_append_rtakeWhile.symm

/-- Place by place, a fraction's digits and then zeros. -/
theorem map_fractionDigit (l : List Char) (h : ∀ c ∈ l, c.isDigit) (k : Nat) (rest : List UInt8) :
    (List.range (l.length + k)).map (fractionDigit (l.map Char.toUInt8 ++ rest) l.length) =
      (l ++ List.replicate k '0').map fun c => c.toNat - '0'.toNat := by
  refine List.ext_getElem (by simp) fun i _ _ => ?_
  rw [List.getElem_map, List.getElem_map, List.getElem_range]
  rcases lt_or_ge i l.length with hi | hi
  · rw [List.getElem_append_left hi, ← (isAsciiDigit_toUInt8 (h _ (List.getElem_mem hi))).2]
    have hget : (l.map Char.toUInt8 ++ rest)[i]? = some l[i].toUInt8 := by
      rw [List.getElem?_append_left (by rwa [List.length_map]), List.getElem?_map,
        List.getElem?_eq_getElem hi, Option.map_some]
    unfold fractionDigit
    rw [hget]
    exact if_pos hi
  · rw [List.getElem_append_right hi, List.getElem_replicate]
    unfold fractionDigit
    split
    · rw [if_neg (by omega)]
      rfl
    · rfl

theorem foldl_fractionDigit (l : List Char) (h : ∀ c ∈ l, c.isDigit) (k : Nat) (rest : List UInt8) :
    (List.range (l.length + k)).foldl (fun nanos place =>
        nanos * 10 + fractionDigit (l.map Char.toUInt8 ++ rest) l.length place) 0 =
      Nat.ofDigitChars 10 (l ++ List.replicate k '0') 0 := by
  calc _ = ((List.range (l.length + k)).map
        (fractionDigit (l.map Char.toUInt8 ++ rest) l.length)).foldl
          (fun nanos digit => nanos * 10 + digit) 0 := by rw [List.foldl_map]
    _ = _ := by
      rw [map_fractionDigit l h, List.foldl_map, Nat.ofDigitChars_eq_foldl]
      simp only [Nat.mul_comm]

/-- A trimmed fraction and the `Z` read back. -/
theorem parseFraction_trimZeros {nanos : Nat} (h0 : nanos ≠ 0) (h : nanos < 1000000000) :
    parseFraction (46 :: ((Timestamp.trimZeros (paddedChars 9 nanos)).map Char.toUInt8 ++ [90])) =
      some (⟨nanos, h⟩, [90]) := by
  obtain ⟨k, hk⟩ := trimZeros_append (paddedChars 9 nanos)
  obtain ⟨l, hl⟩ : ∃ l, l = Timestamp.trimZeros (paddedChars 9 nanos) := ⟨_, rfl⟩
  rw [← hl] at hk ⊢
  have hlen : l.length + k = 9 := by
    have := length_paddedChars (n := nanos) (show 0 < 9 by decide) h
    rw [hk, List.length_append, List.length_replicate] at this
    exact this
  have hdig : ∀ c ∈ l, c.isDigit := fun c hc =>
    isDigit_paddedChars 9 nanos c (hk ▸ List.mem_append_left _ hc)
  have hval : Nat.ofDigitChars 10 (l ++ List.replicate k '0') 0 = nanos := by
    rw [← hk, ofDigitChars_paddedChars]
  have htake : (l.map Char.toUInt8 ++ [90]).takeWhile isAsciiDigit = l.map Char.toUInt8 := by
    rw [List.takeWhile_append_of_pos]
    · simp [isAsciiDigit]
    · intro byte hbyte
      obtain ⟨c, hc, rfl⟩ := List.mem_map.mp hbyte
      exact (isAsciiDigit_toUInt8 (hdig c hc)).1
  have hne : l.length ≠ 0 := by
    intro hnil
    rw [List.length_eq_zero_iff.mp hnil, List.nil_append, Nat.ofDigitChars_replicate_zero] at hval
    exact h0 (by rw [← hval, Nat.mul_zero])
  have hnanos : fractionNanos (l.map Char.toUInt8 ++ [90]) l.length = nanos := by
    rw [← hval, ← foldl_fractionDigit l hdig k [90], hlen]
    rfl
  simp [parseFraction, htake, hne, hnanos]

theorem Timestamp.dayRange (time : Timestamp) :
    -719528 ≤ time.seconds / secondsPerDay ∧ time.seconds / secondsPerDay ≤ 2932896 := by
  have h1 := time.first
  have h2 := time.last
  unfold firstSecond at h1
  unfold endSecond at h2
  unfold secondsPerDay
  omega

/-- The bytes of a written fraction and the `Z` read back as the nanoseconds. -/
theorem parseFraction_toText (time : Timestamp) :
    parseFraction (textBytes (if time.nanos ≠ 0 then
        "." ++ String.ofList (Timestamp.trimZeros (paddedChars 9 time.nanos)) else "") ++ [90]) =
      some (⟨time.nanos, time.subsecond⟩, [90]) := by
  by_cases h0 : time.nanos = 0
  · have h90 : textBytes "" ++ [90] = [90] := rfl
    rw [if_neg (not_not.mpr h0), h90]
    simp [parseFraction, h0]
  · have h46 : textBytes "." = [46] := rfl
    rw [if_pos h0, textBytes_append, h46, textBytes_ofList, List.append_assoc,
      List.singleton_append]
    · exact parseFraction_trimZeros h0 time.subsecond
    · intro c hc
      obtain ⟨k, hk⟩ := trimZeros_append (paddedChars 9 time.nanos)
      have := isDigit_iff.mp (isDigit_paddedChars 9 time.nanos c (hk ▸ List.mem_append_left _ hc))
      omega

/-- A written time reads back as the same time. -/
theorem parseTime_toText (time : Timestamp) : parseTime time.toText = some time := by
  obtain ⟨hvalid, hdays⟩ := dateFromDays_valid (time.seconds / secondsPerDay)
  obtain ⟨hlow, hhigh⟩ := year_dateFromDays_range (time.seconds / secondsPerDay)
  have hlow := hlow.mpr time.dayRange.1
  have hhigh := hhigh.mpr time.dayRange.2
  obtain ⟨date, hdate⟩ : ∃ date, date = dateFromDays (time.seconds / secondsPerDay) := ⟨_, rfl⟩
  rw [← hdate] at hvalid hdays hlow hhigh
  obtain ⟨second, hsecond⟩ : ∃ second, second = (time.seconds % secondsPerDay).toNat := ⟨_, rfl⟩
  have hday : second < 86400 := by
    unfold secondsPerDay at hsecond
    omega
  have hyear : ((date.1.toNat : Nat) : Int) = date.1 := by omega
  have hday31 := daysInMonth_le date.1 date.2.1
  obtain ⟨hm, hm', hd, hd'⟩ := id hvalid
  have hbytes : textBytes time.toText =
      textBytes (padded 4 date.1.toNat) ++ 45 :: (textBytes (padded 2 date.2.1) ++ 45 ::
        (textBytes (padded 2 date.2.2) ++ 84 :: (textBytes (padded 2 (second / 3600)) ++ 58 ::
          (textBytes (padded 2 (second / 60 % 60)) ++ 58 :: (textBytes (padded 2 (second % 60)) ++
            (textBytes (if time.nanos ≠ 0 then
              "." ++ String.ofList (Timestamp.trimZeros (paddedChars 9 time.nanos)) else "") ++
              [90])))))) := by
    have h45 : textBytes "-" = [45] := rfl
    have h84 : textBytes "T" = [84] := rfl
    have h58 : textBytes ":" = [58] := rfl
    have h90 : textBytes "Z" = [90] := rfl
    simp only [Timestamp.toText, ← hdate, ← hsecond, textBytes_append, h45, h84, h58, h90,
      List.append_assoc, List.cons_append, List.nil_append]
  rw [parseTime_fields hbytes (digits_padded (by decide) (by omega))
    (digits_padded (by decide) (by omega)) (digits_padded (by decide) (by omega))
    (digits_padded (by decide) (by omega)) (digits_padded (by decide) (by omega))
    (digits_padded (by decide) (by omega)) (hyear.symm ▸ hvalid) (by omega),
    parseFraction_toText]
  have hseconds : daysFromDate date.1.toNat date.2.1 date.2.2 * secondsPerDay +
      ↑(second / 3600 * 3600 + second / 60 % 60 * 60 + second % 60) - 0 = time.seconds := by
    rw [hyear, hdays]
    unfold secondsPerDay at hsecond ⊢
    omega
  have hzone : parseOffset [90] = some 0 := rfl
  simp only [hzone, Option.bind_eq_bind, Option.bind_some]
  rw [dif_pos ⟨hseconds ▸ time.first, hseconds ▸ time.last⟩]
  exact congrArg some (Timestamp.ext hseconds rfl)

theorem Timestamp.parse_toText (time : Timestamp) : Timestamp.parse time.toText = .ok time := by
  unfold Timestamp.parse
  rw [parseTime_toText]

end SisaMessaging.Core
