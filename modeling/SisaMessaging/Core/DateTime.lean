/-
  RFC 3339 date-times: the grammar that `Timestamp`'s reader accepts, and the instants.

  `IsDateTime` says what a text writes, part by part; `DateTime.seconds` counts the days of its date
  from the calendar's rules. `parseTime_iff` ties the source's byte-offset reader to it. The functions
  whose names end in `Checked` are the source's with `fit` around each operation that can overflow.
-/
import SisaMessaging.Core.CalendarDays
import SisaMessaging.Core.Time

namespace SisaMessaging.Core

open Lib (question question_eq question_map_eq)
open Lib.Gregorian
open Lib.IntType (u8 u32 i64 fit_eq_some fit_bind holds_u8 holds_u32 holds_i64)

/-! ## The grammar -/

/-- A date, a time of the day and an offset from UTC in seconds, as written. -/
structure DateTime where
  year : Nat
  month : Nat
  day : Nat
  hour : Nat
  minute : Nat
  second : Nat
  nanos : Nat
  offset : Int

/-- Nothing, or `.` and digits. Digits past the ninth are dropped. -/
inductive IsFraction : List Char → Nat → Prop where
  | whole : IsFraction [] 0
  | digits {l : List Char} : l ≠ [] → (∀ c ∈ l, c.isDigit) →
      IsFraction ('.' :: l) (Nat.ofDigitChars 10 l 0 * 10 ^ 9 / 10 ^ l.length)

/-- `Z`, or a sign, hours and minutes. -/
inductive IsOffset : List Char → Int → Prop where
  | utc {c : Char} : c = 'Z' ∨ c = 'z' → IsOffset [c] 0
  | east {h m : List Char} {hour minute : Nat} : IsDecimal 2 hour h → IsDecimal 2 minute m →
      hour ≤ 23 → minute ≤ 59 → IsOffset ('+' :: (h ++ ':' :: m)) (hour * 3600 + minute * 60)
  | west {h m : List Char} {hour minute : Nat} : IsDecimal 2 hour h → IsDecimal 2 minute m →
      hour ≤ 23 → minute ≤ 59 → IsOffset ('-' :: (h ++ ':' :: m)) (-(hour * 3600 + minute * 60))

/-- The text writes the date-time. -/
structure IsDateTime (text : List Char) (time : DateTime) : Prop where
  date : IsDate time.year time.month time.day
  clock : time.hour ≤ 23 ∧ time.minute ≤ 59 ∧ time.second ≤ 59
  parts : ∃ y m d separator h n s f z, IsDecimal 4 time.year y ∧ IsDecimal 2 time.month m ∧
    IsDecimal 2 time.day d ∧ (separator = 'T' ∨ separator = 't') ∧ IsDecimal 2 time.hour h ∧
    IsDecimal 2 time.minute n ∧ IsDecimal 2 time.second s ∧ IsFraction f time.nanos ∧
    IsOffset z time.offset ∧ text = y ++ '-' :: (m ++ '-' :: (d ++ separator ::
      (h ++ ':' :: (n ++ ':' :: (s ++ (f ++ z))))))

/-- The instant in UTC, from 1970-01-01T00:00:00Z. -/
def DateTime.seconds (time : DateTime) : Int :=
  dayOf time.year time.month time.day * 86400 +
    (time.hour * 3600 + time.minute * 60 + time.second) - time.offset

/-- The instant lies in years 0000 to 9999. -/
def DateTime.InRange (time : DateTime) : Prop :=
  dayOf 0 1 1 * 86400 ≤ time.seconds ∧ time.seconds < dayOf 10000 1 1 * 86400

/-! ## Fractions -/

theorem ofDigitChars_lt {l : List Char} (h : ∀ c ∈ l, c.isDigit) (total : Nat) :
    Nat.ofDigitChars 10 l total < (total + 1) * 10 ^ l.length := by
  induction l generalizing total with
  | nil => simp
  | cons c l ih =>
    obtain ⟨hc, hl⟩ := List.forall_mem_cons.mp h
    have hdigit := (isDigit_iff.mp hc).2
    have hzero : '0'.toNat = 48 := rfl
    rw [Nat.ofDigitChars_cons, List.length_cons, pow_succ']
    calc _ < (10 * total + (c.toNat - '0'.toNat) + 1) * 10 ^ l.length := ih hl _
      _ ≤ (total + 1) * 10 * 10 ^ l.length := Nat.mul_le_mul_right _ (by omega)
      _ = (total + 1) * (10 * 10 ^ l.length) := Nat.mul_assoc _ _ _

/-- A fraction is below a second. -/
theorem fraction_lt {l : List Char} (h : ∀ c ∈ l, c.isDigit) :
    Nat.ofDigitChars 10 l 0 * 10 ^ 9 / 10 ^ l.length < 10 ^ 9 := by
  have hlt := ofDigitChars_lt h 0
  rw [Nat.zero_add, Nat.one_mul] at hlt
  rw [Nat.div_lt_iff_lt_mul (Nat.pow_pos (by decide)), Nat.mul_comm]
  exact Nat.mul_lt_mul_of_pos_left hlt (by decide)

/-- The value of a fraction in nanoseconds: its first nine digits, filled up with zeros. -/
theorem ofDigitChars_take {l : List Char} (h : ∀ c ∈ l, c.isDigit) :
    Nat.ofDigitChars 10 (l.take 9 ++ List.replicate (9 - l.length) '0') 0 =
      Nat.ofDigitChars 10 l 0 * 10 ^ 9 / 10 ^ l.length := by
  rw [Nat.ofDigitChars_append, Nat.ofDigitChars_replicate_zero]
  rcases Nat.le_total l.length 9 with hle | hge
  · rw [List.take_of_length_le hle]
    have hpow : 10 ^ 9 = 10 ^ l.length * 10 ^ (9 - l.length) := by
      rw [← pow_add, Nat.add_sub_cancel' hle]
    rw [hpow, Nat.mul_comm, ← Nat.mul_assoc, Nat.mul_right_comm,
      Nat.mul_div_cancel _ (Nat.pow_pos (by decide))]
  · have hdrop : ∀ c ∈ l.drop 9, c.isDigit := fun c hc => h c (List.mem_of_mem_drop hc)
    have hrest := ofDigitChars_lt hdrop 0
    rw [List.length_drop, Nat.zero_add, Nat.one_mul] at hrest
    have hsplit : Nat.ofDigitChars 10 l 0 =
        10 ^ (l.length - 9) * Nat.ofDigitChars 10 (l.take 9) 0 +
          Nat.ofDigitChars 10 (l.drop 9) 0 := by
      rw [← List.length_drop, ← Nat.ofDigitChars_eq_ofDigitChars_zero, ← Nat.ofDigitChars_append,
        List.take_append_drop]
    have hpow : 10 ^ l.length = 10 ^ (l.length - 9) * 10 ^ 9 := by
      rw [← pow_add, Nat.sub_add_cancel hge]
    rw [Nat.sub_eq_zero_of_le hge, Nat.pow_zero, Nat.one_mul, hpow,
      Nat.mul_div_mul_right _ _ (by decide), hsplit, Nat.mul_add_div (Nat.pow_pos (by decide)),
      Nat.div_eq_of_lt hrest, Nat.add_zero]

/-- The reader's sum over nine places is that value. -/
theorem fractionNanos_eq {l : List Char} (h : ∀ c ∈ l, c.isDigit) (rest : List UInt8) :
    fractionNanos (l.map Char.toUInt8 ++ rest) l.length =
      Nat.ofDigitChars 10 l 0 * 10 ^ 9 / 10 ^ l.length := by
  rw [← ofDigitChars_take h]
  have htake : ∀ c ∈ l.take 9, c.isDigit := fun c hc => h c (List.mem_of_mem_take hc)
  have hlength : (l.take 9).length + (9 - l.length) = 9 := by
    rw [List.length_take]
    omega
  have hsplit : l.map Char.toUInt8 ++ rest =
      (l.take 9).map Char.toUInt8 ++ ((l.drop 9).map Char.toUInt8 ++ rest) := by
    rw [← List.append_assoc, ← List.map_append, List.take_append_drop]
  rw [← foldl_fractionDigit _ htake (9 - l.length) ((l.drop 9).map Char.toUInt8 ++ rest), hlength,
    ← hsplit]
  -- Below the ninth place both lengths end at the same digit.
  refine List.foldl_ext _ _ _ fun total place hplace => ?_
  have hlt := List.mem_range.mp hplace
  rw [List.length_take]
  unfold fractionDigit
  split
  · rename_i byte _
    have : place < l.length ↔ place < min 9 l.length := by omega
    simp only [this]
  · rfl

theorem parseFraction_digits {l : List Char} {after : List UInt8} (hl : ∀ c ∈ l, c.isDigit)
    (hne : l ≠ [])
    (htake : (l.map Char.toUInt8 ++ after).takeWhile isAsciiDigit = l.map Char.toUInt8) :
    ∃ hlt, parseFraction (46 :: (l.map Char.toUInt8 ++ after)) =
      some (⟨Nat.ofDigitChars 10 l 0 * 10 ^ 9 / 10 ^ l.length, hlt⟩, after) := by
  have hvalue := fractionNanos_eq hl after
  have hlt := fractionNanos_lt (l.map Char.toUInt8 ++ after)
  rw [htake, List.length_map, hvalue] at hlt
  refine ⟨hlt, ?_⟩
  simp [parseFraction, htake, hne, hvalue]

theorem parseFraction_whole {rest : List UInt8} (h : rest.head? ≠ some 46) :
    parseFraction rest = some (⟨0, by decide⟩, rest) := by
  unfold parseFraction
  split
  · exact absurd rfl h
  · rfl

/-- A fraction is read up to the first byte that is no digit. -/
theorem parseFraction_eq_some {rest after : List UInt8}
    {nanos : { nanos : Nat // nanos < 1000000000 }} (h : parseFraction rest = some (nanos, after)) :
    ∃ f, IsFraction f nanos ∧ rest = f.map Char.toUInt8 ++ after := by
  by_cases hdot : rest.head? = some 46
  · obtain ⟨fraction, rfl⟩ := List.head?_eq_some_iff.mp hdot
    obtain ⟨l, hl, hmap⟩ := exists_digits fun _ =>
      (List.mem_takeWhile_imp : _ ∈ fraction.takeWhile isAsciiDigit → _)
    obtain ⟨end', hfraction⟩ : ∃ end', fraction = l.map Char.toUInt8 ++ end' :=
      ⟨fraction.dropWhile isAsciiDigit, by rw [hmap, List.takeWhile_append_dropWhile]⟩
    by_cases hne : l = []
    · subst hne
      simp [parseFraction, ← hmap] at h
    · rw [hfraction] at h hmap
      obtain ⟨_, hread⟩ := parseFraction_digits hl hne hmap.symm
      rw [hread] at h
      obtain ⟨rfl, rfl⟩ := Prod.mk.inj (Option.some.inj h)
      exact ⟨'.' :: l, .digits hne hl, congrArg (46 :: ·) hfraction⟩
  · rw [parseFraction_whole hdot] at h
    obtain ⟨rfl, rfl⟩ := Prod.mk.inj (Option.some.inj h)
    exact ⟨[], .whole, rfl⟩

theorem parseFraction_append {f : List Char} {nanos : Nat} {after : List UInt8}
    (hf : IsFraction f nanos) (h : ∀ byte ∈ after.head?, byte ≠ 46 ∧ isAsciiDigit byte = false) :
    ∃ hlt, parseFraction (f.map Char.toUInt8 ++ after) = some (⟨nanos, hlt⟩, after) := by
  cases hf with
  | whole => exact ⟨by decide, parseFraction_whole fun hdot => (h 46 hdot).1 rfl⟩
  | @digits l hne hl =>
    refine parseFraction_digits hl hne ?_
    rw [List.takeWhile_append_of_pos]
    · cases after with
      | nil => simp
      | cons byte after => simp [(h byte rfl).2]
    · intro byte hbyte
      obtain ⟨c, hc, rfl⟩ := List.mem_map.mp hbyte
      exact (isAsciiDigit_toUInt8 (hl c hc)).1

/-! ## Offsets -/

theorem parseOffset_signed {sign : UInt8} (hsign : sign = 43 ∨ sign = 45) {h m : List Char}
    {hour minute : Nat} (hh : IsDecimal 2 hour h) (hm : IsDecimal 2 minute m) (hhour : hour ≤ 23)
    (hminute : minute ≤ 59) :
    parseOffset (sign :: (h ++ ':' :: m).map Char.toUInt8) =
      some (if sign = 45 then -(hour * 3600 + minute * 60 : Int) else hour * 3600 + minute * 60) := by
  match h, m, hh, hm, hh.length, hm.length with
  | [h0, h1], [m0, m1], hh, hm, _, _ =>
    have hhours : number [sign, h0.toUInt8, h1.toUInt8, 58, m0.toUInt8, m1.toUInt8] 1 3 =
        some hour := (number_eq_some (by decide)).mpr ⟨_, hh, rfl⟩
    have hminutes : number [sign, h0.toUInt8, h1.toUInt8, 58, m0.toUInt8, m1.toUInt8] 4 6 =
        some minute := (number_eq_some (by decide)).mpr ⟨_, hm, rfl⟩
    have hbytes : sign :: ([h0, h1] ++ ':' :: [m0, m1]).map Char.toUInt8 =
        [sign, h0.toUInt8, h1.toUInt8, 58, m0.toUInt8, m1.toUInt8] := rfl
    have hin : ¬ (hour > 23 ∨ minute > 59) := by omega
    rw [hbytes, parseOffset, if_pos ⟨hsign, rfl⟩, hhours, hminutes]
    simp only [Option.bind_eq_bind, Option.bind_some, hin, if_false]
    push_cast
    rfl

theorem parseOffset_eq_some {rest : List UInt8} {offset : Int} :
    parseOffset rest = some offset ↔ ∃ z, IsOffset z offset ∧ rest = z.map Char.toUInt8 := by
  constructor
  · intro h
    unfold parseOffset at h
    split at h
    · rename_i zone
      split at h
      case isFalse => cases h
      case isTrue hzone =>
        obtain rfl := Option.some.inj h
        rcases hzone with rfl | rfl
        · exact ⟨['Z'], .utc (Or.inl rfl), rfl⟩
        · exact ⟨['z'], .utc (Or.inr rfl), rfl⟩
    · rename_i sign b1 b2 colon b4 b5
      split at h
      case isFalse => cases h
      case isTrue hsign =>
        obtain ⟨hsign, rfl⟩ := hsign
        simp only [Option.bind_eq_bind, Option.bind_eq_some_iff] at h
        obtain ⟨hour, hhour, minute, hminute, h⟩ := h
        split at h
        case isTrue => cases h
        case isFalse hbounds =>
          obtain ⟨l, hl, hbytes⟩ := (number_eq_some (by decide)).mp hhour
          obtain ⟨n, hn, hbytes'⟩ := (number_eq_some (by decide)).mp hminute
          have hrest : [sign, b1, b2, 58, b4, b5] =
              sign :: (l.map Char.toUInt8 ++ 58 :: n.map Char.toUInt8) := by
            simp only [List.drop_succ_cons, List.drop_zero] at hbytes hbytes'
            rw [hbytes, hbytes', List.append_nil]
          rcases hsign with rfl | rfl
          · obtain rfl := Option.some.inj h
            refine ⟨'+' :: (l ++ ':' :: n), ?_, ?_⟩
            · rw [if_neg (by decide)]
              push_cast
              exact .east hl hn (by omega) (by omega)
            · rw [hrest, List.map_cons, List.map_append, List.map_cons]
              rfl
          · obtain rfl := Option.some.inj h
            refine ⟨'-' :: (l ++ ':' :: n), ?_, ?_⟩
            · rw [if_pos rfl]
              push_cast
              exact .west hl hn (by omega) (by omega)
            · rw [hrest, List.map_cons, List.map_append, List.map_cons]
              rfl
    · cases h
  · rintro ⟨z, hz, rfl⟩
    cases hz with
    | utc hc => rcases hc with rfl | rfl <;> rfl
    | east hh hm hhour hminute => exact parseOffset_signed (Or.inl rfl) hh hm hhour hminute
    | west hh hm hhour hminute => exact parseOffset_signed (Or.inr rfl) hh hm hhour hminute

/-! ## Date-times -/

/-- The reader's steps. -/
theorem parseTime_eq_some {text : String} {time : Timestamp} : parseTime text = some time ↔
    ∃ year month day hour minute second nanos after offset,
      ((textBytes text)[4]? = some 45 ∧ (textBytes text)[7]? = some 45 ∧
        (textBytes text)[13]? = some 58 ∧ (textBytes text)[16]? = some 58 ∧
        ((textBytes text)[10]? = some 84 ∨ (textBytes text)[10]? = some 116)) ∧
      (number (textBytes text) 0 4 = some year ∧ number (textBytes text) 5 7 = some month ∧
        number (textBytes text) 8 10 = some day ∧ number (textBytes text) 11 13 = some hour ∧
        number (textBytes text) 14 16 = some minute ∧ number (textBytes text) 17 19 = some second) ∧
      (ValidDate year month day ∧ hour ≤ 23 ∧ minute ≤ 59 ∧ second ≤ 59) ∧
      parseFraction ((textBytes text).drop 19) = some (nanos, after) ∧
      parseOffset after = some offset ∧
      time.seconds = daysFromDate year month day * secondsPerDay +
        ↑(hour * 3600 + minute * 60 + second) - offset ∧ time.nanos = nanos := by
  unfold parseTime
  generalize textBytes text = bytes
  dsimp only
  constructor
  · intro h
    split at h
    case isTrue => cases h
    case isFalse hseparators =>
      simp only [List.any_cons, List.any_nil, Bool.or_false, Bool.or_eq_true, bne_iff_ne, ne_eq,
        not_or, not_not] at hseparators
      obtain ⟨⟨h4, h7, h13, h16⟩, h10⟩ := hseparators
      simp only [Option.bind_eq_bind, Option.bind_eq_some_iff] at h
      obtain ⟨year, hyear, month, hmonth, day, hday, hour, hhour, minute, hminute, second, hsecond,
        h⟩ := h
      split at h
      case isTrue => cases h
      case isFalse hvalid =>
        simp only [not_or, not_not, Nat.not_lt] at hvalid
        simp only [Option.bind_eq_some_iff] at h
        obtain ⟨⟨nanos, after⟩, hfraction, offset, hoffset, h⟩ := h
        split at h
        case isFalse => cases h
        case isTrue hrange =>
          obtain rfl := Option.some.inj h
          exact ⟨year, month, day, hour, minute, second, nanos, after, offset,
            ⟨h4, h7, h13, h16, or_iff_not_and_not.mpr h10⟩,
            ⟨hyear, hmonth, hday, hhour, hminute, hsecond⟩, hvalid, hfraction, hoffset, rfl, rfl⟩
  · rintro ⟨year, month, day, hour, minute, second, nanos, after, offset, ⟨h4, h7, h13, h16, h10⟩,
      ⟨hyear, hmonth, hday, hhour, hminute, hsecond⟩, ⟨hvalid, hclock⟩, hfraction, hoffset,
      hseconds, hnanos⟩
    have hbad : ¬ (¬ ValidDate year month day ∨ hour > 23 ∨ minute > 59 ∨ second > 59) := by
      rintro (h | h)
      · exact h hvalid
      · omega
    have hrange := And.intro time.first time.last
    rw [hseconds] at hrange
    simp only [List.any_cons, List.any_nil, h4, h7, h13, h16, h10, bne_self_eq_false, Bool.or_self,
      Bool.false_eq_true, not_true_eq_false, or_self, if_false, hyear, hmonth, hday, hhour, hminute,
      hsecond, hbad, hfraction, hoffset, Option.bind_eq_bind, Option.bind_some]
    rw [dif_pos hrange]
    exact congrArg some (Timestamp.ext hseconds.symm hnanos.symm)

theorem IsFraction.ascii {f : List Char} {nanos : Nat} (h : IsFraction f nanos) :
    ∀ c ∈ f, c.toNat < 128 := by
  cases h with
  | whole => simp
  | digits _ hl =>
    refine List.forall_mem_cons.mpr ⟨by decide, fun c hc => ?_⟩
    have := isDigit_iff.mp (hl c hc)
    omega

theorem IsOffset.ascii {z : List Char} {offset : Int} (h : IsOffset z offset) :
    ∀ c ∈ z, c.toNat < 128 := by
  have hsigned {sign : Char} {h m : List Char} {hour minute : Nat} (hsign : sign.toNat < 128)
      (hh : IsDecimal 2 hour h) (hm : IsDecimal 2 minute m) :
      ∀ c ∈ sign :: (h ++ ':' :: m), c.toNat < 128 := by
    simp only [List.mem_cons, List.mem_append]
    rintro c (rfl | hc | rfl | hc)
    · exact hsign
    · exact hh.ascii c hc
    · decide
    · exact hm.ascii c hc
  cases h with
  | utc hc => rcases hc with rfl | rfl <;> simp
  | east hh hm _ _ => exact hsigned (by decide) hh hm
  | west hh hm _ _ => exact hsigned (by decide) hh hm

theorem IsOffset.length_pos {z : List Char} {offset : Int} (h : IsOffset z offset) :
    0 < z.length := by
  cases h <;> exact Nat.succ_pos _

/-- An offset doesn't begin like a fraction, or like more of its digits. -/
theorem IsOffset.head {z : List Char} {offset : Int} (h : IsOffset z offset) :
    ∀ byte ∈ (z.map Char.toUInt8).head?, byte ≠ 46 ∧ isAsciiDigit byte = false := by
  cases h with
  | utc hc => rcases hc with rfl | rfl <;> simp <;> decide
  | east _ _ _ _ => simp; decide
  | west _ _ _ _ => simp; decide

theorem IsDateTime.ascii {text : List Char} {time : DateTime} (h : IsDateTime text time) :
    ∀ c ∈ text, c.toNat < 128 := by
  obtain ⟨y, m, d, separator, h, n, s, f, z, hy, hm, hd, hseparator, hh, hn, hs, hf, hz, rfl⟩ :=
    h.parts
  have h45 : '-'.toNat < 128 := by decide
  have h58 : ':'.toNat < 128 := by decide
  have hsep : separator.toNat < 128 := by rcases hseparator with rfl | rfl <;> decide
  simp only [List.forall_mem_append, List.forall_mem_cons]
  exact ⟨hy.ascii, h45, hm.ascii, h45, hd.ascii, hsep, hh.ascii, h58, hn.ascii, h58, hs.ascii,
    hf.ascii, hz.ascii⟩

/-- Where the parts of a date-time stand in its bytes. -/
theorem IsDateTime.layout {text : List Char} {t : DateTime} (ht : IsDateTime text t)
    {bytes : List UInt8} (hbytes : bytes = text.map Char.toUInt8) :
    (bytes[4]? = some 45 ∧ bytes[7]? = some 45 ∧ bytes[13]? = some 58 ∧ bytes[16]? = some 58 ∧
        (bytes[10]? = some 84 ∨ bytes[10]? = some 116)) ∧
      (number bytes 0 4 = some t.year ∧ number bytes 5 7 = some t.month ∧
        number bytes 8 10 = some t.day ∧ number bytes 11 13 = some t.hour ∧
        number bytes 14 16 = some t.minute ∧ number bytes 17 19 = some t.second) ∧
      ∃ f z, IsFraction f t.nanos ∧ IsOffset z t.offset ∧
        bytes.drop 19 = f.map Char.toUInt8 ++ z.map Char.toUInt8 := by
  obtain ⟨y, m, d, separator, h, n, s, f, z, hy, hm, hd, hseparator, hh, hn, hs, hf, hz, rfl⟩ :=
    ht.parts
  subst hbytes
  match y, m, d, h, n, s, hy, hm, hd, hh, hn, hs, hy.length, hm.length, hd.length, hh.length,
    hn.length, hs.length with
  | [_, _, _, _], [_, _], [_, _], [_, _], [_, _], [_, _], hy, hm, hd, hh, hn, hs, _, _, _, _, _, _ =>
    refine ⟨⟨rfl, rfl, rfl, rfl, ?_⟩, ?_, f, z, hf, hz, ?_⟩
    · rcases hseparator with rfl | rfl
      · exact Or.inl rfl
      · exact Or.inr rfl
    · rw [number_eq_some (by decide), number_eq_some (by decide), number_eq_some (by decide),
        number_eq_some (by decide), number_eq_some (by decide), number_eq_some (by decide)]
      exact ⟨⟨_, hy, rfl⟩, ⟨_, hm, rfl⟩, ⟨_, hd, rfl⟩, ⟨_, hh, rfl⟩, ⟨_, hn, rfl⟩, _, hs, rfl⟩
    · show (f ++ z).map Char.toUInt8 = f.map Char.toUInt8 ++ z.map Char.toUInt8
      exact List.map_append

/-- What the reader read is a date-time. -/
theorem isDateTime_of_parseTime {text : String} {time : Timestamp} (h : parseTime text = some time) :
    ∃ t, IsDateTime text.toList t ∧ time.seconds = t.seconds ∧ time.nanos = t.nanos := by
  obtain ⟨year, month, day, hour, minute, second, nanos, after, offset, ⟨h4, h7, h13, h16, h10⟩,
    ⟨hyear, hmonth, hday, hhour, hminute, hsecond⟩, ⟨hvalid, hclock⟩, hfraction, hoffset, hseconds,
    hnanos⟩ := parseTime_eq_some.mp h
  have hdate := validDate_iff.mp hvalid
  obtain ⟨y, hy, hyb⟩ := (number_eq_some (by decide)).mp hyear
  obtain ⟨m, hm, hmb⟩ := (number_eq_some (by decide)).mp hmonth
  obtain ⟨d, hd, hdb⟩ := (number_eq_some (by decide)).mp hday
  obtain ⟨h, hh, hhb⟩ := (number_eq_some (by decide)).mp hhour
  obtain ⟨n, hn, hnb⟩ := (number_eq_some (by decide)).mp hminute
  obtain ⟨s, hs, hsb⟩ := (number_eq_some (by decide)).mp hsecond
  obtain ⟨f, hf, hfb⟩ := parseFraction_eq_some hfraction
  obtain ⟨z, hz, rfl⟩ := parseOffset_eq_some.mp hoffset
  obtain ⟨separator, hseparator, h10⟩ : ∃ c : Char, (c = 'T' ∨ c = 't') ∧
      (textBytes text)[10]? = some c.toUInt8 :=
    h10.elim (fun h => ⟨'T', Or.inl rfl, h⟩) fun h => ⟨'t', Or.inr rfl, h⟩
  rw [getElem?_eq_some_iff_drop] at h4 h7 h10 h13 h16
  rw [List.drop_zero] at hyb
  let t : DateTime := ⟨year, month, day, hour, minute, second, nanos, offset⟩
  have ht : IsDateTime (y ++ '-' :: (m ++ '-' :: (d ++ separator ::
      (h ++ ':' :: (n ++ ':' :: (s ++ (f ++ z))))))) t :=
    ⟨hdate, hclock, y, m, d, separator, h, n, s, f, z, hy, hm, hd, hseparator, hh, hn, hs, hf, hz,
      rfl⟩
  refine ⟨t, ?_, ?_, hnanos⟩
  · have hbytes : textBytes text = (y ++ '-' :: (m ++ '-' :: (d ++ separator ::
        (h ++ ':' :: (n ++ ':' :: (s ++ (f ++ z))))))).map Char.toUInt8 := by
      rw [hyb, h4, hmb, h7, hdb, h10, hhb, h13, hnb, h16, hsb, hfb]
      simp only [List.map_append, List.map_cons]
      rfl
    rw [(textBytes_eq_map_iff ht.ascii).mp hbytes]
    exact ht
  · rw [hseconds, daysFromDate_eq_dayOf day hdate.inYear.1 hdate.inYear.2]
    rfl

/-- The reader accepts the grammar, for instants in its range. -/
theorem parseTime_iff {text : String} {time : Timestamp} : parseTime text = some time ↔
    ∃ t, IsDateTime text.toList t ∧ time.seconds = t.seconds ∧ time.nanos = t.nanos := by
  refine ⟨isDateTime_of_parseTime, fun ⟨t, ht, hseconds, hnanos⟩ => ?_⟩
  obtain ⟨hseparators, hnumbers, f, z, hf, hz, hrest⟩ :=
    ht.layout ((textBytes_eq_map_iff ht.ascii).mpr rfl)
  obtain ⟨hlt, hfraction⟩ := parseFraction_append hf hz.head
  rw [← hrest] at hfraction
  refine parseTime_eq_some.mpr ⟨t.year, t.month, t.day, t.hour, t.minute, t.second, ⟨t.nanos, hlt⟩,
    z.map Char.toUInt8, t.offset, hseparators, hnumbers, ⟨validDate_iff.mpr ht.date, ht.clock⟩,
    hfraction, parseOffset_eq_some.mpr ⟨z, hz, rfl⟩, ?_, hnanos⟩
  rw [hseconds, daysFromDate_eq_dayOf t.day ht.date.inYear.1 ht.date.inYear.2]
  rfl

/-! ## Overflow -/

/-- `&bytes[start..]`. -/
def sliceFrom (bytes : List UInt8) (start : Nat) : Option (List UInt8) :=
  if start ≤ bytes.length then some (bytes.drop start) else none

def fractionDigitChecked (fraction : List UInt8) (length place : Nat) : Option Int :=
  match fraction[place]? with
  | some byte => if place < length then u8.fit (byte.toNat - 48) else some 0
  | none => some 0

def fractionNanosChecked (fraction : List UInt8) (length : Nat) : Option Int :=
  (List.range 9).foldlM (fun nanos place => do
    let digit ← fractionDigitChecked fraction length place
    let nanos ← u32.fit (nanos * 10)
    u32.fit (nanos + digit)) 0

/-- `parseFraction` with the overflow of each operation. -/
def parseFractionChecked (rest : List UInt8) : Option (Option (Int × List UInt8)) :=
  match rest with
  | 46 :: fraction =>
    let length := (fraction.takeWhile isAsciiDigit).length
    if length = 0 then some none
    else do
      let nanos ← fractionNanosChecked fraction length
      let rest ← sliceFrom fraction length
      return some (nanos, rest)
  | _ => some (some (0, rest))

/-- `parseOffset` with the overflow of each operation. -/
def parseOffsetChecked (rest : List UInt8) : Option (Option Int) :=
  match rest with
  | [zone] => some (if zone = 90 ∨ zone = 122 then some 0 else none)
  | [sign, _, _, colon, _, _] =>
    if (sign = 43 ∨ sign = 45) ∧ colon = 58 then
      question (numberChecked rest 1 3) fun offsetHour =>
      question (numberChecked rest 4 6) fun offsetMinute =>
      if offsetHour > 23 ∨ offsetMinute > 59 then some none
      else do
        let hours ← u32.fit (offsetHour * 3600)
        let minutes ← u32.fit (offsetMinute * 60)
        let offset ← u32.fit (hours + minutes)
        if sign = 45 then do
          let offset ← i64.fit (-offset)
          return some offset
        else return some offset
    else some none
  | _ => some none

/-- The reader's sum of a date, a time of the day and an offset. -/
def secondsChecked (days hour minute second offset : Int) : Option Int := do
  let days ← i64.fit (days * secondsPerDay)
  let hours ← u32.fit (hour * 3600)
  let minutes ← u32.fit (minute * 60)
  let clock ← u32.fit (hours + minutes)
  let clock ← u32.fit (clock + second)
  let seconds ← i64.fit (days + clock)
  i64.fit (seconds - offset)

/-- `parse` with the overflow of each operation: the seconds and the nanoseconds. -/
def parseTimeChecked (text : String) : Option (Option (Int × Int)) :=
  let bytes := textBytes text
  let separators : List (Nat × UInt8) := [(4, 45), (7, 45), (13, 58), (16, 58)]
  if (separators.any fun (place, separator) => bytes[place]? != some separator) ∨
      ¬ (bytes[10]? = some 84 ∨ bytes[10]? = some 116) then some none
  else
    question (numberChecked bytes 0 4) fun year =>
    question (numberChecked bytes 5 7) fun month =>
    question (numberChecked bytes 8 10) fun day =>
    question (numberChecked bytes 11 13) fun hour =>
    question (numberChecked bytes 14 16) fun minute =>
    question (numberChecked bytes 17 19) fun second =>
    if ¬ ValidDate year month.toNat day.toNat ∨ hour > 23 ∨ minute > 59 ∨ second > 59 then some none
    else do
      let rest ← sliceFrom bytes 19
      question (parseFractionChecked rest) fun (nanos, rest) =>
      question (parseOffsetChecked rest) fun offsetSeconds => do
        let days ← daysFromDateChecked year month.toNat day.toNat
        let seconds ← secondsChecked days hour minute second offsetSeconds
        return if firstSecond ≤ seconds ∧ seconds < endSecond then some (seconds, nanos) else none

theorem fractionDigitChecked_eq (fraction : List UInt8) (place : Nat) :
    fractionDigitChecked fraction (fraction.takeWhile isAsciiDigit).length place =
      some (fractionDigit fraction (fraction.takeWhile isAsciiDigit).length place : Int) := by
  unfold fractionDigitChecked fractionDigit
  cases hbyte : fraction[place]? with
  | none => rfl
  | some byte =>
    dsimp only
    split
    · rename_i hlt
      obtain ⟨hlow, hhigh⟩ := isAsciiDigit_iff.mp (isAsciiDigit_getElem? hbyte hlt)
      have hvalue : (byte - 48).toNat = byte.toNat - 48 :=
        UInt8.toNat_sub_of_le _ _ (UInt8.le_iff_toNat_le.mpr hlow)
      rw [fit_eq_some (by rw [holds_u8]; omega), hvalue, Int.ofNat_sub hlow]
      rfl
    · rfl

theorem foldlM_nanosChecked (fraction : List UInt8) (l : List Nat) (total : Nat)
    (h : (total + 1) * 10 ^ l.length ≤ 1000000000) :
    l.foldlM (fun nanos place => do
      let digit ← fractionDigitChecked fraction (fraction.takeWhile isAsciiDigit).length place
      let nanos ← u32.fit (nanos * 10)
      u32.fit (nanos + digit)) (total : Int) =
      some (l.foldl (fun nanos place => nanos * 10 +
        fractionDigit fraction (fraction.takeWhile isAsciiDigit).length place) total : Int) := by
  induction l generalizing total with
  | nil => rfl
  | cons place l ih =>
    have hdigit := fractionDigit_le fraction place
    rw [List.foldlM_cons, List.foldl_cons, fractionDigitChecked_eq]
    generalize fractionDigit fraction (fraction.takeWhile isAsciiDigit).length place = digit at *
    rw [List.length_cons, pow_succ'] at h
    have hrest : (total * 10 + digit + 1) * 10 ^ l.length ≤ 1000000000 :=
      calc _ ≤ (total + 1) * 10 * 10 ^ l.length := Nat.mul_le_mul_right _ (by omega)
        _ = (total + 1) * (10 * 10 ^ l.length) := Nat.mul_assoc _ _ _
        _ ≤ _ := h
    have hlt : total * 10 + digit + 1 ≤ 1000000000 :=
      (Nat.le_mul_of_pos_right _ (Nat.one_le_pow _ _ (by decide))).trans hrest
    have hstep : (do
        let digit ← some (digit : Int)
        let nanos ← u32.fit ((total : Int) * 10)
        u32.fit (nanos + digit)) = some ((total * 10 + digit : Nat) : Int) := by
      simp only [Option.bind_eq_bind, Option.bind_some]
      rw [fit_eq_some (by rw [holds_u32]; omega), Option.bind_some,
        fit_eq_some (by rw [holds_u32]; omega)]
      rfl
    rw [hstep]
    exact ih _ hrest

theorem fractionNanosChecked_eq (fraction : List UInt8) :
    fractionNanosChecked fraction (fraction.takeWhile isAsciiDigit).length =
      some (fractionNanos fraction (fraction.takeWhile isAsciiDigit).length : Int) :=
  foldlM_nanosChecked fraction (List.range 9) 0 (by rw [List.length_range]; decide)

theorem parseFractionChecked_eq (rest : List UInt8) :
    parseFractionChecked rest =
      some ((parseFraction rest).map fun fraction => ((fraction.1 : Int), fraction.2)) := by
  by_cases hdot : rest.head? = some 46
  · obtain ⟨fraction, rfl⟩ := List.head?_eq_some_iff.mp hdot
    have hslice : sliceFrom fraction (fraction.takeWhile isAsciiDigit).length =
        some (fraction.drop (fraction.takeWhile isAsciiDigit).length) :=
      if_pos (List.takeWhile_prefix isAsciiDigit).length_le
    by_cases hlength : (fraction.takeWhile isAsciiDigit).length = 0
    · simp only [parseFractionChecked, parseFraction, hlength, if_true, Option.map_none]
    · simp only [parseFractionChecked, parseFraction, hlength, if_false, fractionNanosChecked_eq,
        hslice]
      rfl
  · rw [parseFraction_whole hdot]
    unfold parseFractionChecked
    split
    · exact absurd rfl hdot
    · rfl

theorem number_lt {bytes : List UInt8} {start stop n : Nat} (h : start < stop)
    (hn : number bytes start stop = some n) : n < 10 ^ (stop - start) := by
  obtain ⟨l, hl, _⟩ := (number_eq_some h).mp hn
  have hlt := ofDigitChars_lt hl.digits 0
  rw [hl.value, hl.length, Nat.zero_add, Nat.one_mul] at hlt
  exact hlt

theorem number_le {bytes : List UInt8} {start stop n : Nat} (h : number bytes start stop = some n) :
    stop ≤ bytes.length := by
  unfold number at h
  split at h
  case isTrue hin => exact hin.2
  case isFalse => cases h

theorem IsOffset.range {z : List Char} {offset : Int} (h : IsOffset z offset) :
    -86340 ≤ offset ∧ offset ≤ 86340 := by
  cases h <;> omega

theorem parseOffsetChecked_eq (rest : List UInt8) :
    parseOffsetChecked rest = some (parseOffset rest) := by
  unfold parseOffsetChecked
  split
  · rfl
  · rename_i sign b1 b2 colon b4 b5
    rw [parseOffset]
    split
    · rw [numberChecked_eq (by decide), numberChecked_eq (by decide)]
      refine question_eq fun hour hhour => question_eq fun minute hminute => ?_
      have hhour := number_lt (by decide) hhour
      have hminute := number_lt (by decide) hminute
      have hover : ((hour : Int) > 23 ∨ (minute : Int) > 59) ↔ hour > 23 ∨ minute > 59 := by
        omega
      simp only [Int.ofNat_eq_natCast, hover]
      split
      · rfl
      · rw [fit_bind (by rw [holds_u32]; omega), fit_bind (by rw [holds_u32]; omega),
          fit_bind (by rw [holds_u32]; omega)]
        push_cast
        split
        · rw [fit_bind (by rw [holds_i64]; omega)]
          rfl
        · rfl
    · rfl
  · rename_i hzone hsigned
    unfold parseOffset
    split
    · exact absurd rfl (hzone _)
    · exact absurd rfl (hsigned _ _ _ _ _ _)
    · rfl

theorem secondsChecked_eq {days offset : Int} {hour minute second : Nat}
    (hdays : Date.firstDay ≤ days ∧ days ≤ Date.lastDay)
    (hclock : hour ≤ 23 ∧ minute ≤ 59 ∧ second ≤ 59) (hoffset : -86340 ≤ offset ∧ offset ≤ 86340) :
    secondsChecked days hour minute second offset =
      some (days * secondsPerDay + ↑(hour * 3600 + minute * 60 + second) - offset) := by
  have hfirst : Date.firstDay = -719528 := rfl
  have hlast : Date.lastDay = 2932896 := rfl
  have hday : secondsPerDay = 86400 := rfl
  rw [secondsChecked, hday, fit_bind (by rw [holds_i64]; omega), fit_bind (by rw [holds_u32]; omega),
    fit_bind (by rw [holds_u32]; omega), fit_bind (by rw [holds_u32]; omega),
    fit_bind (by rw [holds_u32]; omega), fit_bind (by rw [holds_i64]; omega),
    fit_eq_some (by rw [holds_i64]; omega)]
  push_cast
  rfl

theorem parseTimeChecked_eq (text : String) : parseTimeChecked text =
    some ((parseTime text).map fun time => (time.seconds, (time.nanos : Int))) := by
  unfold parseTimeChecked parseTime
  generalize textBytes text = bytes
  dsimp only
  split
  · rfl
  · rename_i hseparators
    rw [numberChecked_eq (by decide), numberChecked_eq (by decide), numberChecked_eq (by decide),
      numberChecked_eq (by decide), numberChecked_eq (by decide), numberChecked_eq (by decide)]
    refine question_map_eq fun year hyear => question_map_eq fun month hmonth =>
      question_map_eq fun day hday => question_map_eq fun hour hhour =>
      question_map_eq fun minute hminute => question_map_eq fun second hsecond => ?_
    have hyear := number_lt (by decide) hyear
    have hover : ((hour : Int) > 23 ∨ (minute : Int) > 59 ∨ (second : Int) > 59) ↔
        hour > 23 ∨ minute > 59 ∨ second > 59 := by omega
    simp only [Int.ofNat_eq_natCast, Int.toNat_natCast, hover]
    split
    · rfl
    · rename_i hbad
      simp only [not_or, not_not, Nat.not_lt] at hbad
      have hslice : sliceFrom bytes 19 = some (bytes.drop 19) := if_pos (number_le hsecond)
      rw [hslice, Option.bind_eq_bind, Option.bind_some, parseFractionChecked_eq]
      refine question_map_eq fun fraction _ => ?_
      rw [parseOffsetChecked_eq]
      cases hoffset : parseOffset fraction.2 with
      | none => rfl
      | some offset =>
        obtain ⟨z, hz, _⟩ := parseOffset_eq_some.mp hoffset
        have hdays := Date.daysFromDate_range (Nat.le_of_lt_succ hyear) hbad.1
        rw [question, Option.bind_eq_bind, Option.bind_some]
        dsimp only
        rw [daysFromDateChecked_eq (by omega) hbad.1, Option.bind_eq_bind, Option.bind_some,
          secondsChecked_eq hdays hbad.2 hz.range, Option.bind_some, Option.bind_eq_bind,
          Option.bind_some]
        split <;> rfl

/-! ## The reader -/

theorem IsFraction.lt {f : List Char} {nanos : Nat} (h : IsFraction f nanos) :
    nanos < 1000000000 := by
  cases h with
  | whole => decide
  | digits _ hl => exact fraction_lt hl

theorem DateTime.firstSecond_eq : dayOf 0 1 1 * 86400 = firstSecond := by
  rw [← daysFromDate_eq_dayOf 1 (by decide) (by decide)]
  rfl

theorem DateTime.endSecond_eq : dayOf 10000 1 1 * 86400 = endSecond := by
  rw [← daysFromDate_eq_dayOf 1 (by decide) (by decide)]
  rfl

theorem DateTime.inRange_iff {time : DateTime} :
    time.InRange ↔ firstSecond ≤ time.seconds ∧ time.seconds < endSecond := by
  rw [DateTime.InRange, DateTime.firstSecond_eq, DateTime.endSecond_eq]

/-- A text reads as a time exactly when it is a date-time whose instant lies in years 0000 to 9999,
    and the time is that instant. Reading never panics. -/
theorem Timestamp.parse_reads_dateTime :
    (∀ (text : String) (time : Timestamp), Timestamp.parse text = .ok time ↔
      ∃ t, IsDateTime text.toList t ∧ t.InRange ∧ time.seconds = t.seconds ∧ time.nanos = t.nanos) ∧
    (∀ (text : String) (t : DateTime), IsDateTime text.toList t → t.InRange →
      ∃ time, Timestamp.parse text = .ok time ∧ time.seconds = t.seconds ∧ time.nanos = t.nanos) ∧
    ∀ text : String, parseTimeChecked text =
      some ((Timestamp.parse text).toOption.map fun time => (time.seconds, (time.nanos : Int))) := by
  refine ⟨fun text time => ?_, fun text t ht hrange => ?_, fun text => ?_⟩
  · rw [Timestamp.parse_eq_ok, parseTime_iff]
    constructor
    · rintro ⟨t, ht, hseconds, hnanos⟩
      have hrange := And.intro time.first time.last
      rw [hseconds] at hrange
      exact ⟨t, ht, DateTime.inRange_iff.mpr hrange, hseconds, hnanos⟩
    · rintro ⟨t, ht, _, hinstant⟩
      exact ⟨t, ht, hinstant⟩
  · obtain ⟨hfirst, hlast⟩ := DateTime.inRange_iff.mp hrange
    have hnanos : t.nanos < 1000000000 := by
      obtain ⟨_, _, _, _, _, _, _, _, _, _, _, _, _, _, _, _, hf, _⟩ := ht.parts
      exact hf.lt
    let time : Timestamp := ⟨t.seconds, t.nanos, hfirst, hlast, hnanos⟩
    exact ⟨time, Timestamp.parse_eq_ok.mpr (parseTime_iff.mpr ⟨t, ht, rfl, rfl⟩), rfl, rfl⟩
  · have hparse : (Timestamp.parse text).toOption = parseTime text := by
      unfold Timestamp.parse
      cases parseTime text <;> rfl
    rw [hparse]
    exact parseTimeChecked_eq text

end SisaMessaging.Core
