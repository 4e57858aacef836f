/-
  Message types and message ids.

  A `MessageType` carries the proof that `checkMessageType` accepts it. The `uuid` crate is not
  part of the repository: `UuidFormat` is what the crates use of it, the hyphenated form and the
  parser that reads it back. `UuidFormat.rfc9562` is one, with the four forms the crate's parser
  documents.
-/
import Mathlib.Tactic.Ring
import SisaMessaging.Core.Error
import SisaMessaging.Core.Text

namespace SisaMessaging.Core

/-! ## Message types -/

/-- Kafka's limit on a topic name. -/
def maxMessageTypeLength : Nat := 249

/-- A byte of a message type's level. -/
def allowedByte (byte : UInt8) : Bool :=
  isAsciiLowercase byte || isAsciiDigit byte || byte == 95

/-- `str::strip_prefix` of one character. -/
def stripPrefix (c : Char) : List Char → Option (List Char)
  | d :: rest => if d = c then some rest else none
  | [] => none

/-- Checks a message type; the error is the rule it breaks. -/
def checkMessageType (value : String) : Except String Unit :=
  if (textBytes value).length > maxMessageTypeLength then .error "longer than 249 characters"
  else
    let levels := value.toList.splitOn '.'
    if levels.length < 2 then .error "needs at least two levels, such as `order_placed.v1`"
    else if levels.any List.isEmpty then .error "has an empty level"
    else if !(textBytes value).all fun byte => allowedByte byte || byte == 46 then
      .error "may hold only lowercase letters, digits and `_`, in levels joined by `.`"
    else
      let version := levels.getLast?.bind (stripPrefix 'v')
      if !version.any fun digits =>
          !digits.isEmpty && (textBytes (String.ofList digits)).all isAsciiDigit then
        .error "must end with its version, such as `.v1`"
      else .ok ()

/-- A checked message type: the CloudEvents `type`. -/
@[ext] structure MessageType where
  value : String
  valid : checkMessageType value = .ok ()
  deriving DecidableEq

/-- Checks a message type. -/
def MessageType.new (value : String) : Except EnvelopeError MessageType :=
  match h : checkMessageType value with
  | .ok () => .ok ⟨value, h⟩
  | .error reason => .error (.invalidMessageType value reason)

theorem MessageType.new_value (messageType : MessageType) :
    MessageType.new messageType.value = .ok messageType := by
  unfold MessageType.new
  split
  · rfl
  · rename_i h
    rw [messageType.valid] at h
    cases h

theorem MessageType.new_eq_ok {value : String} {messageType : MessageType}
    (h : MessageType.new value = .ok messageType) : messageType.value = value := by
  unfold MessageType.new at h
  split at h
  · cases h
    rfl
  · cases h

/-! ## The grammar of message types -/

/-- A lowercase letter, a digit or `_`. -/
def IsLevelChar (c : Char) : Prop := c.isLower ∨ c.isDigit ∨ c = '_'

/-- `v` and one or more digits. -/
def IsVersion (level : List Char) : Prop :=
  ∃ digits, level = 'v' :: digits ∧ digits ≠ [] ∧ ∀ c ∈ digits, c.isDigit

/-- Two or more levels joined by `.`, at most 249 characters, the last one a version. -/
structure IsMessageType (value : String) : Prop where
  short : value.length ≤ 249
  levels : 2 ≤ (value.toList.splitOn '.').length
  nonempty : ∀ level ∈ value.toList.splitOn '.', level ≠ []
  allowed : ∀ level ∈ value.toList.splitOn '.', ∀ c ∈ level, IsLevelChar c
  version : ∃ level ∈ (value.toList.splitOn '.').getLast?, IsVersion level

theorem isLevelChar_iff {c : Char} :
    IsLevelChar c ↔ (97 ≤ c.toNat ∧ c.toNat ≤ 122) ∨ (48 ≤ c.toNat ∧ c.toNat ≤ 57) ∨ c.toNat = 95 := by
  unfold IsLevelChar
  rw [isLower_iff, isDigit_iff, ← Char.toNat_inj]
  rfl

theorem allowedByte_iff {byte : UInt8} :
    allowedByte byte ↔ (97 ≤ byte.toNat ∧ byte.toNat ≤ 122) ∨
      (48 ≤ byte.toNat ∧ byte.toNat ≤ 57) ∨ byte.toNat = 95 := by
  unfold allowedByte
  rw [Bool.or_eq_true, Bool.or_eq_true, isAsciiLowercase_iff, isAsciiDigit_iff, beq_iff_eq,
    ← UInt8.toNat_inj, or_assoc]
  rfl

/-- The pieces between separators hold the other elements of the list. -/
theorem forall_splitOn_iff {P : Char → Prop} {sep : Char} {l : List Char} :
    (∀ piece ∈ l.splitOn sep, ∀ c ∈ piece, P c) ↔ ∀ c ∈ l, c ≠ sep → P c := by
  induction l with
  | nil => simp [List.splitOn_nil]
  | cons d l ih =>
    rw [List.splitOn_cons_eq_if_modifyHead]
    obtain ⟨first, rest, hsplit⟩ := List.exists_cons_of_ne_nil (List.splitOn_ne_nil sep l)
    rw [hsplit] at ih ⊢
    simp only [List.forall_mem_cons] at ih ⊢
    by_cases hd : d = sep
    · simp [hd, ih]
    · simp only [beq_eq_false_iff_ne.mpr hd, Bool.false_eq_true, if_false, List.modifyHead_cons,
        List.forall_mem_cons, ne_eq, hd, not_false_eq_true, forall_const, ← ih, and_assoc]

/-- The bytes a message type may hold are the level characters and the separator. -/
theorem all_allowed_iff {value : String} :
    ((textBytes value).all fun byte => allowedByte byte || byte == 46) ↔
      ∀ level ∈ value.toList.splitOn '.', ∀ c ∈ level, IsLevelChar c := by
  have hbyte : ∀ byte : UInt8, (allowedByte byte || byte == 46) = true ↔
      (allowedByte byte = true ∨ byte.toNat = 46) := by
    intro byte
    rw [Bool.or_eq_true, beq_iff_eq, ← UInt8.toNat_inj]
    rfl
  have hascii : ∀ byte : UInt8, (allowedByte byte || byte == 46) = true → byte.toNat < 128 := by
    intro byte h
    rw [hbyte, allowedByte_iff] at h
    omega
  rw [textBytes_all_iff hascii, forall_splitOn_iff]
  refine forall₂_congr fun c _ => ?_
  rw [hbyte, allowedByte_iff, isLevelChar_iff, ne_eq, ← Char.toNat_inj]
  have hdot : ('.' : Char).toNat = 46 := rfl
  by_cases hc : c.toNat < 128
  · rw [toUInt8_toNat_ascii hc]
    omega
  · omega

/-- The source's check of the last level. -/
theorem any_version_iff {levels : List (List Char)} :
    ((levels.getLast?.bind (stripPrefix 'v')).any fun digits =>
        !digits.isEmpty && (textBytes (String.ofList digits)).all isAsciiDigit) ↔
      ∃ level ∈ levels.getLast?, IsVersion level := by
  have hdigits (digits : List Char) :
      (textBytes (String.ofList digits)).all isAsciiDigit ↔ ∀ c ∈ digits, c.isDigit := by
    rw [textBytes_all_iff fun byte h => by rw [isAsciiDigit_iff] at h; omega, String.toList_ofList]
    refine forall₂_congr fun c _ => ?_
    rw [isAsciiDigit_iff, isDigit_iff]
    by_cases hc : c.toNat < 128
    · rw [toUInt8_toNat_ascii hc]
      omega
    · omega
  cases levels.getLast? with
  | none => simp
  | some level =>
    simp only [Option.bind_some, Option.mem_def, Option.some.injEq, exists_eq_left']
    cases level with
    | nil => simp [stripPrefix, IsVersion]
    | cons c rest =>
      by_cases hc : c = 'v'
      · simp [stripPrefix, hc, IsVersion, hdigits]
      · simp [stripPrefix, hc, IsVersion]

theorem length_textBytes_of_allowed {value : String}
    (h : ∀ level ∈ value.toList.splitOn '.', ∀ c ∈ level, IsLevelChar c) :
    (textBytes value).length = value.length := by
  rw [length_textBytes_ascii, String.length_toList]
  intro c hc
  by_cases hdot : c = '.'
  · rw [hdot]
    decide
  · have := isLevelChar_iff.mp (forall_splitOn_iff.mp h c hc hdot)
    omega

/-- `checkMessageType` accepts exactly the grammar. -/
theorem checkMessageType_eq_ok {value : String} :
    checkMessageType value = .ok () ↔ IsMessageType value := by
  have hempty : ((value.toList.splitOn '.').any List.isEmpty) = true ↔
      ¬ ∀ level ∈ value.toList.splitOn '.', level ≠ [] := by
    simp
  have hallowed := @all_allowed_iff value
  have hversion := @any_version_iff (value.toList.splitOn '.')
  have hlength := @length_textBytes_of_allowed value
  unfold checkMessageType maxMessageTypeLength
  constructor
  · intro h
    split at h
    · cases h
    rename_i h1
    dsimp only at h
    split at h
    · cases h
    rename_i h2
    split at h
    · cases h
    rename_i h3
    split at h
    · cases h
    rename_i h4
    split at h
    · cases h
    rename_i h5
    simp only [Bool.not_eq_true', Bool.not_eq_false] at h4 h5
    have hshort := hlength (hallowed.mp h4)
    exact ⟨by omega, by omega, not_not.mp (mt hempty.mpr h3), hallowed.mp h4, hversion.mp h5⟩
  · intro h
    have h1 := h.short
    have h2 := h.levels
    have h3 := mt hempty.mp (not_not.mpr h.nonempty)
    rw [← hlength h.allowed] at h1
    dsimp only
    rw [if_neg (by omega), if_neg (by omega), if_neg h3, if_neg (by simp [hallowed.mpr h.allowed]),
      if_neg (by simp [hversion.mpr h.version])]

/-- The levels that a message type joins by `.`, the last one a version. -/
structure IsLevels (value : List Char) (levels : List (List Char)) : Prop where
  joined : value = ['.'].intercalate levels
  many : 2 ≤ levels.length
  level : ∀ level ∈ levels, level ≠ [] ∧ ∀ c ∈ level, IsLevelChar c
  version : ∃ level ∈ levels.getLast?, IsVersion level

/-- The levels are what the check splits the value into. -/
theorem IsLevels.splitOn_eq {value : List Char} {levels : List (List Char)}
    (h : IsLevels value levels) : value.splitOn '.' = levels := by
  have hdot : ¬ IsLevelChar '.' := by simp [IsLevelChar]
  have hne : levels ≠ [] := by
    rintro rfl
    exact absurd h.many (by decide)
  rw [h.joined]
  exact List.splitOn_intercalate '.' (fun level hl hc => hdot ((h.level level hl).2 '.' hc)) hne

theorem isMessageType_iff {value : String} : IsMessageType value ↔
    (textBytes value).length ≤ 249 ∧ ∃ levels, IsLevels value.toList levels := by
  constructor
  · intro h
    refine ⟨(length_textBytes_of_allowed h.allowed).le.trans h.short, _,
      (List.intercalate_splitOn '.').symm, h.levels, fun level hl => ?_, h.version⟩
    exact ⟨h.nonempty level hl, h.allowed level hl⟩
  · rintro ⟨hshort, levels, h⟩
    have hsplit := h.splitOn_eq
    have hallowed : ∀ level ∈ value.toList.splitOn '.', ∀ c ∈ level, IsLevelChar c := by
      rw [hsplit]
      exact fun level hl => (h.level level hl).2
    rw [length_textBytes_of_allowed hallowed] at hshort
    refine ⟨hshort, ?_, ?_, hallowed, ?_⟩
    · rw [hsplit]
      exact h.many
    · rw [hsplit]
      exact fun level hl => (h.level level hl).1
    · rw [hsplit]
      exact h.version

theorem MessageType.exists_new_iff {value : String} :
    (∃ messageType, MessageType.new value = .ok messageType) ↔
      (textBytes value).length ≤ 249 ∧ ∃ levels, IsLevels value.toList levels := by
  rw [← isMessageType_iff, ← checkMessageType_eq_ok]
  constructor
  · rintro ⟨messageType, h⟩
    have hvalid := messageType.valid
    rw [MessageType.new_eq_ok h] at hvalid
    exact hvalid
  · intro h
    exact ⟨⟨value, h⟩, MessageType.new_value ⟨value, h⟩⟩

/-! ## Ids -/

/-- What the crates use of the `uuid` crate: `Uuid::hyphenated` and `Uuid::parse_str`. -/
structure UuidFormat where
  hyphenated : BitVec 128 → String
  parseStr : String → Option (BitVec 128)
  parseStr_hyphenated : ∀ uuid, parseStr (hyphenated uuid) = some uuid

/-- A message's id: the CloudEvents `id`, any UUID. -/
structure MessageId where
  uuid : BitVec 128
  deriving DecidableEq

namespace MessageId

/-- Writes the hyphenated lowercase form: `Display`. -/
def toText (uuids : UuidFormat) (id : MessageId) : String := uuids.hyphenated id.uuid

/-- Reads any UUID: `from_str`. -/
def parse (uuids : UuidFormat) (text : String) : Except EnvelopeError MessageId :=
  match uuids.parseStr text with
  | some uuid => .ok ⟨uuid⟩
  | none => .error (.invalid "id" "not a UUID")

theorem parse_eq_ok {uuids : UuidFormat} {text : String} {id : MessageId} :
    parse uuids text = .ok id ↔ uuids.parseStr text = some id.uuid := by
  unfold parse
  cases uuids.parseStr text with
  | none => simp
  | some uuid =>
    cases id
    simp

theorem parse_toText (uuids : UuidFormat) (id : MessageId) : parse uuids (id.toText uuids) = .ok id := by
  unfold parse toText
  rw [uuids.parseStr_hyphenated]

end MessageId

/-! ## The forms of a UUID -/

/-- The value of a hexadecimal digit, of either case. -/
def hexValue (c : Char) : Option Nat :=
  if '0' ≤ c ∧ c ≤ '9' then some (c.toNat - '0'.toNat)
  else if 'a' ≤ c ∧ c ≤ 'f' then some (c.toNat - 'a'.toNat + 10)
  else if 'A' ≤ c ∧ c ≤ 'F' then some (c.toNat - 'A'.toNat + 10)
  else none

def readHex (digits : List Char) : Option Nat :=
  digits.foldlM (fun total c => (hexValue c).map (total * 16 + ·)) 0

/-- The last `width` hexadecimal digits of `n`, lowercase. -/
def hexDigits : Nat → Nat → List Char
  | 0, _ => []
  | width + 1, n => hexDigits width (n / 16) ++ [Nat.digitChar (n % 16)]

/-- The groups of a UUID's digits, 8-4-4-4-12. -/
def uuidGroups (n : Nat) : List (List Char) :=
  [hexDigits 8 (n / 16 ^ 24), hexDigits 4 (n / 16 ^ 20), hexDigits 4 (n / 16 ^ 16),
    hexDigits 4 (n / 16 ^ 12), hexDigits 12 n]

def writeHyphenated (uuid : BitVec 128) : String :=
  String.ofList (['-'].intercalate (uuidGroups uuid.toNat))

def readHyphenated (text : List Char) : Option (BitVec 128) :=
  let groups := text.splitOn '-'
  if groups.map List.length = [8, 4, 4, 4, 12] then (readHex groups.flatten).map (BitVec.ofNat 128)
  else none

/-- The hyphenated form, the simple form, and the hyphenated form in braces or as a URN, whose
    prefix may be of either case. -/
def readUuid (text : List Char) : Option (BitVec 128) :=
  readHyphenated text <|>
    (if text.length = 32 then (readHex text).map (BitVec.ofNat 128) else none) <|>
    (if text.head? = some '{' ∧ text.getLast? = some '}' then readHyphenated text.tail.dropLast
      else none) <|>
    (if (text.take 9).map Char.toLower = "urn:uuid:".toList then readHyphenated (text.drop 9)
      else none)

theorem length_hexDigits (width n : Nat) : (hexDigits width n).length = width := by
  induction width generalizing n with
  | zero => rfl
  | succ width ih => rw [hexDigits, List.length_append, ih, List.length_singleton]

theorem hexValue_digitChar : ∀ d < 16, hexValue (Nat.digitChar d) = some d := by decide

theorem hyphen_not_mem_hexDigits (width n : Nat) : '-' ∉ hexDigits width n := by
  have hd : ∀ d < 16, '-' ≠ Nat.digitChar d := by decide
  induction width generalizing n with
  | zero => exact List.not_mem_nil
  | succ width ih =>
    rw [hexDigits, List.mem_append, List.mem_singleton]
    rintro (h | h)
    · exact ih _ h
    · exact hd _ (Nat.mod_lt _ (by decide)) h

theorem readHex_hexDigits (width n total : Nat) :
    (hexDigits width n).foldlM (fun total c => (hexValue c).map (total * 16 + ·)) total =
      some (total * 16 ^ width + n % 16 ^ width) := by
  induction width generalizing n with
  | zero => simp [hexDigits, Nat.mod_one]
  | succ width ih =>
    rw [hexDigits, List.foldlM_append, ih]
    have hv := hexValue_digitChar (n % 16) (Nat.mod_lt _ (by decide))
    simp only [Option.bind_eq_bind, Option.bind_some, List.foldlM_cons, hv, Option.map_some,
      List.foldlM_nil, Option.pure_def]
    have hm : n % 16 ^ (width + 1) = n % 16 + 16 * (n / 16 % 16 ^ width) := by
      rw [pow_succ', Nat.mod_mul]
    rw [hm, pow_succ]
    congr 1
    ring

theorem readHyphenated_writeHyphenated (uuid : BitVec 128) :
    readHyphenated (writeHyphenated uuid).toList = some uuid := by
  have hsplit : (writeHyphenated uuid).toList.splitOn '-' = uuidGroups uuid.toNat := by
    rw [writeHyphenated, String.toList_ofList, List.splitOn_intercalate]
    · simp [uuidGroups, hyphen_not_mem_hexDigits]
    · simp [uuidGroups]
  have hlen : (uuidGroups uuid.toNat).map List.length = [8, 4, 4, 4, 12] := by
    simp [uuidGroups, length_hexDigits]
  have hread : readHex (uuidGroups uuid.toNat).flatten = some uuid.toNat := by
    have hlt := uuid.isLt
    simp only [readHex, uuidGroups, List.flatten_cons, List.flatten_nil, List.append_nil,
      List.foldlM_append, readHex_hexDigits, Option.bind_eq_bind, Option.bind_some]
    refine congrArg some ?_
    omega
  unfold readHyphenated
  simp only [hsplit, hlen, if_true, hread, Option.map_some, BitVec.ofNat_toNat, BitVec.setWidth_eq]

/-- The UUID text forms. -/
def UuidFormat.rfc9562 : UuidFormat where
  hyphenated := writeHyphenated
  parseStr text := readUuid text.toList
  parseStr_hyphenated uuid := by
    unfold readUuid
    rw [readHyphenated_writeHyphenated]
    rfl

end SisaMessaging.Core
