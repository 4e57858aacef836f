/-
  Rust's text functions as the crates use them: the bytes of a `str`, ASCII digits, `char`'s
  control and white-space classes, and zero-padded decimal formatting.

  `number` reads a decimal slice of bytes; `digits_padded` says it reads back what `padded`
  writes.
-/
import Mathlib.Algebra.Group.Nat.Defs
import Mathlib.Tactic.Common

namespace SisaMessaging.Core

/-! ## Bytes -/

/-- The UTF-8 bytes of a text: `as_bytes`. -/
def textBytes (s : String) : List UInt8 := s.toList.flatMap String.utf8EncodeChar

theorem textBytes_append (s t : String) : textBytes (s ++ t) = textBytes s ++ textBytes t := by
  unfold textBytes
  rw [String.toList_append, List.flatMap_append]

theorem utf8EncodeChar_ascii {c : Char} (h : c.toNat < 128) :
    String.utf8EncodeChar c = [c.toUInt8] := by
  have hc : c.val.toNat ≤ 127 := by
    have : c.toNat = c.val.toNat := rfl
    omega
  unfold String.utf8EncodeChar
  simp only [hc, if_true]
  rfl

theorem textBytes_ofList {l : List Char} (h : ∀ c ∈ l, c.toNat < 128) :
    textBytes (String.ofList l) = l.map Char.toUInt8 := by
  unfold textBytes
  rw [String.toList_ofList]
  induction l with
  | nil => rfl
  | cons c l ih =>
    rw [List.flatMap_cons, utf8EncodeChar_ascii (h c List.mem_cons_self),
      ih fun d hd => h d (List.mem_cons_of_mem _ hd)]
    rfl

/-! ## Character classes -/

/-- `u8::is_ascii_digit`. -/
def isAsciiDigit (byte : UInt8) : Bool := 48 ≤ byte && byte ≤ 57

/-- `u8::is_ascii_lowercase`. -/
def isAsciiLowercase (byte : UInt8) : Bool := 97 ≤ byte && byte ≤ 122

/-- `char::is_control`: the general category Cc. -/
def isControl (c : Char) : Bool := c.toNat < 0x20 || (0x7F ≤ c.toNat && c.toNat ≤ 0x9F)

/-- `char::is_whitespace`: the Unicode property White_Space. -/
def isWhitespace (c : Char) : Bool :=
  (0x09 ≤ c.toNat && c.toNat ≤ 0x0D) || c.toNat == 0x20 || c.toNat == 0x85 || c.toNat == 0xA0 ||
    c.toNat == 0x1680 || (0x2000 ≤ c.toNat && c.toNat ≤ 0x200A) || c.toNat == 0x2028 ||
    c.toNat == 0x2029 || c.toNat == 0x202F || c.toNat == 0x205F || c.toNat == 0x3000

/-- A character beyond ASCII has a byte beyond ASCII. -/
theorem exists_byte_of_not_ascii {c : Char} (h : 128 ≤ c.toNat) :
    ∃ byte ∈ String.utf8EncodeChar c, 128 ≤ byte.toNat := by
  have hc : ¬ c.val.toNat ≤ 127 := by
    have : c.toNat = c.val.toNat := rfl
    omega
  have hbyte (n : Nat) (hn : 128 ≤ n) (hn' : n < 256) : 128 ≤ (UInt8.ofNat n).toNat := by
    rw [UInt8.toNat_ofNat']
    omega
  unfold String.utf8EncodeChar
  simp only [hc, if_false]
  split
  · exact ⟨_, List.mem_cons_self, hbyte _ (by omega) (by omega)⟩
  · split
    · exact ⟨_, List.mem_cons_self, hbyte _ (by omega) (by omega)⟩
    · exact ⟨_, List.mem_cons_self, hbyte _ (by omega) (by omega)⟩

/-- A text whose bytes are all in an ASCII class is a text of such characters. -/
theorem textBytes_all_iff {p : UInt8 → Bool} (hp : ∀ byte, p byte → byte.toNat < 128) (s : String) :
    (textBytes s).all p ↔ ∀ c ∈ s.toList, c.toNat < 128 ∧ p c.toUInt8 := by
  unfold textBytes
  rw [List.all_flatMap, List.all_eq_true]
  refine forall₂_congr fun c _ => ?_
  constructor
  · intro h
    have hc : c.toNat < 128 := by
      by_contra hge
      obtain ⟨byte, hb, h128⟩ := exists_byte_of_not_ascii (Nat.not_lt.mp hge)
      have := hp byte (List.all_eq_true.mp h byte hb)
      omega
    rw [utf8EncodeChar_ascii hc] at h
    exact ⟨hc, by simpa using h⟩
  · rintro ⟨hc, h⟩
    rw [utf8EncodeChar_ascii hc]
    simpa using h

theorem length_textBytes_ascii {s : String} (h : ∀ c ∈ s.toList, c.toNat < 128) :
    (textBytes s).length = s.toList.length := by
  have := textBytes_ofList h
  rw [String.ofList_toList] at this
  rw [this, List.length_map]

theorem toUInt8_toNat_ascii {c : Char} (h : c.toNat < 128) : c.toUInt8.toNat = c.toNat := by
  have : c.toUInt8.toNat = c.toNat % 256 := rfl
  omega

theorem toUInt8_injective_ascii {c d : Char} (hc : c.toNat < 128) (hd : d.toNat < 128)
    (h : c.toUInt8 = d.toUInt8) : c = d := by
  have := congrArg UInt8.toNat h
  rw [toUInt8_toNat_ascii hc, toUInt8_toNat_ascii hd] at this
  exact Char.toNat_inj.mp this

/-- The text of some ASCII bytes. -/
theorem textBytes_eq_map_iff {s : String} {l : List Char} (h : ∀ c ∈ l, c.toNat < 128) :
    textBytes s = l.map Char.toUInt8 ↔ s.toList = l := by
  constructor
  · intro hs
    have hascii : ∀ c ∈ s.toList, c.toNat < 128 := by
      have hall := (textBytes_all_iff (p := fun byte => byte.toNat < 128) (by simp) s).mp
      refine fun c hc => (hall ?_ c hc).1
      rw [hs, List.all_eq_true]
      intro byte hbyte
      obtain ⟨c, hc, rfl⟩ := List.mem_map.mp hbyte
      rw [decide_eq_true_eq, toUInt8_toNat_ascii (h c hc)]
      exact h c hc
    have hmap := textBytes_ofList hascii
    rw [String.ofList_toList, hs] at hmap
    clear hs
    generalize s.toList = t at hascii hmap
    induction l generalizing t with
    | nil => exact (List.map_eq_nil_iff.mp hmap.symm)
    | cons c l ih =>
      cases t with
      | nil => cases hmap
      | cons d t =>
        rw [List.map_cons, List.map_cons, List.cons.injEq] at hmap
        rw [List.forall_mem_cons] at h hascii
        rw [toUInt8_injective_ascii h.1 hascii.1 hmap.1, ih h.2 t hascii.2 hmap.2]
  · rintro rfl
    have := textBytes_ofList h
    rwa [String.ofList_toList] at this

theorem isAsciiLowercase_iff {byte : UInt8} :
    isAsciiLowercase byte ↔ 97 ≤ byte.toNat ∧ byte.toNat ≤ 122 := by
  simp only [isAsciiLowercase, Bool.and_eq_true, decide_eq_true_eq, UInt8.le_iff_toNat_le]
  rfl

theorem isAsciiDigit_iff {byte : UInt8} :
    isAsciiDigit byte ↔ 48 ≤ byte.toNat ∧ byte.toNat ≤ 57 := by
  simp only [isAsciiDigit, Bool.and_eq_true, decide_eq_true_eq, UInt8.le_iff_toNat_le]
  rfl

theorem isLower_iff {c : Char} : c.isLower ↔ 97 ≤ c.toNat ∧ c.toNat ≤ 122 := by
  change (decide (c.val ≥ 97) && decide (c.val ≤ 122)) = true ↔ _
  simp only [Bool.and_eq_true, decide_eq_true_eq, ge_iff_le, UInt32.le_iff_toNat_le]
  rfl

theorem isDigit_iff {c : Char} : c.isDigit ↔ 48 ≤ c.toNat ∧ c.toNat ≤ 57 := by
  simp only [Char.isDigit, Bool.and_eq_true, decide_eq_true_eq, ge_iff_le, UInt32.le_iff_toNat_le]
  rfl

/-! ## Decimal numbers -/

/-- The decimal number in a list of bytes, which must be all ASCII digits. -/
def digits (text : List UInt8) : Option Nat :=
  text.foldlM (fun total digit =>
    if isAsciiDigit digit then some (total * 10 + (digit - 48).toNat) else none) 0

/-- The decimal number in `text[start..stop]`, which must be all ASCII digits. The source's total
    is a `u32`; it reads at most four digits. -/
def number (text : List UInt8) (start stop : Nat) : Option Nat :=
  if start ≤ stop ∧ stop ≤ text.length then digits ((text.drop start).take (stop - start)) else none

/-- `format!("{n:0width$}")`. -/
def padded (width n : Nat) : String :=
  String.ofList (List.replicate (width - (Nat.toDigits 10 n).length) '0' ++ Nat.toDigits 10 n)

/-- The characters of `padded`. -/
def paddedChars (width n : Nat) : List Char :=
  List.replicate (width - (Nat.toDigits 10 n).length) '0' ++ Nat.toDigits 10 n

theorem isDigit_paddedChars (width n : Nat) : ∀ c ∈ paddedChars width n, c.isDigit := by
  intro c hc
  rcases List.mem_append.mp hc with h | h
  · rw [List.eq_of_mem_replicate h]
    rfl
  · exact Nat.isDigit_of_mem_toDigits (by decide) (by decide) h

theorem length_paddedChars {width n : Nat} (hw : 0 < width) (hn : n < 10 ^ width) :
    (paddedChars width n).length = width := by
  have h := (Nat.length_toDigits_le_iff (b := 10) (by decide) hw).mpr hn
  simp only [paddedChars, List.length_append, List.length_replicate]
  omega

theorem ofDigitChars_paddedChars (width n : Nat) :
    Nat.ofDigitChars 10 (paddedChars width n) 0 = n := by
  simp [paddedChars, Nat.ofDigitChars_append]

theorem textBytes_padded (width n : Nat) :
    textBytes (padded width n) = (paddedChars width n).map Char.toUInt8 := by
  refine textBytes_ofList fun c hc => ?_
  have := isDigit_iff.mp (isDigit_paddedChars width n c hc)
  omega

theorem isAsciiDigit_toUInt8 {c : Char} (h : c.isDigit) :
    isAsciiDigit c.toUInt8 ∧ (c.toUInt8 - 48).toNat = c.toNat - '0'.toNat := by
  obtain ⟨h1, h2⟩ := isDigit_iff.mp h
  have h3 := toUInt8_toNat_ascii (show c.toNat < 128 by omega)
  have h4 : 48 ≤ c.toUInt8 := UInt8.le_iff_toNat_le.mpr (by rw [h3]; exact h1)
  have h5 : c.toUInt8 ≤ 57 := UInt8.le_iff_toNat_le.mpr (by rw [h3]; exact h2)
  refine ⟨by simp [isAsciiDigit, h4, h5], ?_⟩
  rw [UInt8.toNat_sub_of_le _ _ h4, h3]
  rfl

theorem foldlM_digits (l : List Char) (total : Nat) (h : ∀ c ∈ l, c.isDigit) :
    (l.map Char.toUInt8).foldlM (fun total digit =>
      if isAsciiDigit digit then some (total * 10 + (digit - 48).toNat) else none) total =
      some (Nat.ofDigitChars 10 l total) := by
  induction l generalizing total with
  | nil => simp
  | cons c l ih =>
    obtain ⟨hd, hv⟩ := isAsciiDigit_toUInt8 (h c List.mem_cons_self)
    simp only [List.map_cons, List.foldlM_cons, hd, if_true, Option.bind_eq_bind,
      Option.bind_some]
    rw [ih _ fun d hd => h d (List.mem_cons_of_mem _ hd), Nat.ofDigitChars_cons, hv,
      Nat.mul_comm total]

theorem digits_map (l : List Char) (h : ∀ c ∈ l, c.isDigit) :
    digits (l.map Char.toUInt8) = some (Nat.ofDigitChars 10 l 0) := foldlM_digits l 0 h

/-- `padded width n` is `width` digit bytes that read back as `n`. -/
theorem digits_padded {width n : Nat} (hw : 0 < width) (hn : n < 10 ^ width) :
    (textBytes (padded width n)).length = width ∧ digits (textBytes (padded width n)) = some n := by
  rw [textBytes_padded, List.length_map]
  refine ⟨length_paddedChars hw hn, ?_⟩
  rw [digits_map _ (isDigit_paddedChars width n), ofDigitChars_paddedChars]

/-! ### What the readers accept -/

/-- The byte at a place, as the first one from there. -/
theorem getElem?_eq_some_iff_drop {bytes : List UInt8} {place : Nat} {byte : UInt8} :
    bytes[place]? = some byte ↔ bytes.drop place = byte :: bytes.drop (place + 1) := by
  rw [List.getElem?_eq_some_iff]
  constructor
  · rintro ⟨h, rfl⟩
    exact List.drop_eq_getElem_cons h
  · intro h
    have hlt : place < bytes.length := by
      by_contra hge
      rw [List.drop_of_length_le (Nat.not_lt.mp hge)] at h
      cases h
    rw [List.drop_eq_getElem_cons hlt, List.cons.injEq] at h
    exact ⟨hlt, h.1⟩

/-- A decimal number of `width` digits. -/
structure IsDecimal (width value : Nat) (text : List Char) : Prop where
  length : text.length = width
  digits : ∀ c ∈ text, c.isDigit
  value : Nat.ofDigitChars 10 text 0 = value

theorem IsDecimal.ascii {width value : Nat} {text : List Char} (h : IsDecimal width value text) :
    ∀ c ∈ text, c.toNat < 128 := by
  intro c hc
  have := isDigit_iff.mp (h.digits c hc)
  omega

theorem exists_digit {byte : UInt8} (h : isAsciiDigit byte) :
    ∃ c : Char, c.isDigit ∧ c.toUInt8 = byte := by
  obtain ⟨hlow, hhigh⟩ := isAsciiDigit_iff.mp h
  have hc : (Char.ofNat byte.toNat).toNat = byte.toNat := by
    have : byte.toNat.isValidChar := Or.inl (by omega)
    rw [Char.ofNat, dif_pos this]
    rfl
  refine ⟨Char.ofNat byte.toNat, isDigit_iff.mpr (by omega), ?_⟩
  rw [← UInt8.toNat_inj, toUInt8_toNat_ascii (by omega), hc]

theorem exists_digits {bytes : List UInt8} (h : ∀ byte ∈ bytes, isAsciiDigit byte) :
    ∃ l : List Char, (∀ c ∈ l, c.isDigit) ∧ l.map Char.toUInt8 = bytes := by
  induction bytes with
  | nil => exact ⟨[], by simp, rfl⟩
  | cons byte bytes ih =>
    obtain ⟨hbyte, hbytes⟩ := List.forall_mem_cons.mp h
    obtain ⟨c, hc, rfl⟩ := exists_digit hbyte
    obtain ⟨l, hl, rfl⟩ := ih hbytes
    exact ⟨c :: l, List.forall_mem_cons.mpr ⟨hc, hl⟩, rfl⟩

/-- The digits that `digits` reads. -/
theorem digits_eq_some {bytes : List UInt8} {n : Nat} : digits bytes = some n ↔
    ∃ l, IsDecimal bytes.length n l ∧ bytes = l.map Char.toUInt8 := by
  constructor
  · intro h
    have hdigits : ∀ byte ∈ bytes, isAsciiDigit byte := by
      unfold digits at h
      generalize 0 = total at h
      induction bytes generalizing total with
      | nil => simp
      | cons byte bytes ih =>
        rw [List.foldlM_cons] at h
        by_cases hd : isAsciiDigit byte
        · rw [if_pos hd] at h
          exact List.forall_mem_cons.mpr ⟨hd, ih _ h⟩
        · rw [if_neg hd] at h
          cases h
    obtain ⟨l, hl, rfl⟩ := exists_digits hdigits
    rw [digits_map l hl, Option.some.injEq] at h
    exact ⟨l, ⟨by rw [List.length_map], hl, h⟩, rfl⟩
  · rintro ⟨l, h, hbytes⟩
    rw [hbytes, digits_map l h.digits, h.value]

/-- The slice that `number` reads. -/
theorem number_eq_some {bytes : List UInt8} {start stop n : Nat} (h : start < stop) :
    number bytes start stop = some n ↔
      ∃ l, IsDecimal (stop - start) n l ∧ bytes.drop start = l.map Char.toUInt8 ++ bytes.drop stop := by
  have hdrop : (bytes.drop start).drop (stop - start) = bytes.drop stop := by
    rw [List.drop_drop, Nat.add_sub_cancel' (Nat.le_of_lt h)]
  unfold number
  constructor
  · intro hn
    split at hn
    case isFalse => cases hn
    case isTrue hin =>
      obtain ⟨l, hl, htake⟩ := digits_eq_some.mp hn
      rw [List.length_take, List.length_drop, Nat.min_eq_left (by omega)] at hl
      refine ⟨l, hl, ?_⟩
      rw [← htake, ← hdrop, List.take_append_drop]
  · rintro ⟨l, hl, hslice⟩
    have hlen := congrArg List.length hslice
    rw [List.length_drop, List.length_append, List.length_map, hl.length, List.length_drop] at hlen
    rw [if_pos ⟨Nat.le_of_lt h, by omega⟩, hslice, List.take_left' (by rw [List.length_map, hl.length]),
      digits_map l hl.digits, hl.value]

end SisaMessaging.Core
