/-
  The outbox in `outbox_messages`: the columns `insert` binds, the record `claim` puts back
  together, and the dispatcher's statements.

  A program of the dispatcher performs whole statements (`DispatchOp`), each committed on its own.
  What PostgreSQL does with times is `PgTimes`: a `timestamptz` is a count of microseconds, written
  as text by `to_json` and read by a cast.
-/
import SisaMessaging.Core.Store
import SisaMessaging.Core.Transport
import SisaMessaging.Lib.Prog

namespace SisaMessaging.Postgres

open SisaMessaging.Core SisaMessaging.Lib

/-! ## Times -/

/-- Years 0001 to 9999, in microseconds since 1970. -/
def InYears (time : Int) : Prop := -62135596800000000 ≤ time ∧ time < 253402300800000000

instance (time : Int) : Decidable (InYears time) := inferInstanceAs (Decidable (_ ∧ _))

/-- How a session of the database writes and reads `timestamptz` values, microseconds since 1970:
    RFC 3339 in the session's time zone, read back as the same instant. -/
structure PgTimes where
  /-- The zone's offset at a time, in microseconds: whole minutes, as RFC 3339 writes it. -/
  zone : Int → Int
  /-- `to_json(time) #>> '\x7b\x7d'`. -/
  json : Int → String
  /-- `text::timestamptz`. -/
  cast : String → Option Int
  cast_json : ∀ time, cast (json time) = some time
  /-- A text that reads as a `Timestamp` and is written again is the same instant, or a year that
      only a `Timestamp` has. -/
  cast_toText : ∀ time timestamp, Timestamp.parse (json time) = .ok timestamp →
    ∀ again, cast timestamp.toText = some again → again = time
  parse_json : ∀ time, InYears time → InYears (time + zone time) →
    ∃ timestamp, Timestamp.parse (json time) = .ok timestamp

theorem InYears.unixNanos {time : Int} (h : InYears time) :
    (Timestamp.fromUnixNanos (time * 1000)).unixNanos = time * 1000 := by
  obtain ⟨h1, h2⟩ := h
  simp only [Timestamp.unixNanos, Timestamp.fromUnixNanos, firstSecond, endSecond, nanosPerSecond]
  omega

namespace PgTimes

/-- A time that RFC 3339 doesn't write, as a text that reads as no `Timestamp`. -/
def outOfYears (time : Int) : String :=
  String.ofList (List.replicate time.natAbs (if time < 0 then '-' else '+'))

def utcCast (text : String) : Option Int :=
  match Timestamp.parse text with
  | .ok timestamp => some (timestamp.unixNanos / 1000)
  | .error _ =>
    match text.toList with
    | '+' :: rest => some (rest.length + 1 : Nat)
    | '-' :: rest => some (-(rest.length + 1 : Nat))
    | _ => none

def utcJson (time : Int) : String :=
  if InYears time then (Timestamp.fromUnixNanos (time * 1000)).toText else outOfYears time

theorem parse_outOfYears (time : Int) : ∃ error, Timestamp.parse (outOfYears time) = .error error := by
  have hbytes : ∀ byte ∈ textBytes (outOfYears time), byte ≠ 58 := by
    rw [outOfYears, textBytes_ofList]
    · intro byte hm
      obtain ⟨c, hc, rfl⟩ := List.mem_map.mp hm
      rw [List.eq_of_mem_replicate hc]
      split <;> decide
    · intro c hc
      rw [List.eq_of_mem_replicate hc]
      split <;> decide
  have h13 : (textBytes (outOfYears time))[13]? ≠ some 58 :=
    fun h => hbytes 58 (List.mem_of_getElem? h) rfl
  have hnone : parseTime (outOfYears time) = none := by
    unfold parseTime
    exact if_pos (Or.inl (by simp [h13]))
  exact ⟨_, by rw [Timestamp.parse, hnone]⟩

theorem utcJson_cases (time : Int) :
    (InYears time ∧ Timestamp.parse (utcJson time) = .ok (.fromUnixNanos (time * 1000))) ∨
      (¬InYears time ∧ ∃ error, Timestamp.parse (utcJson time) = .error error) := by
  by_cases h : InYears time
  · refine Or.inl ⟨h, ?_⟩
    rw [utcJson, if_pos h, Timestamp.parse_toText]
  · refine Or.inr ⟨h, ?_⟩
    rw [utcJson, if_neg h]
    exact parse_outOfYears time

/-- A session in UTC. -/
def utc : PgTimes where
  zone _ := 0
  json := utcJson
  cast := utcCast
  cast_json := by
    intro time
    rcases utcJson_cases time with ⟨h, hparse⟩ | ⟨h, error, hparse⟩
    · rw [utcCast, hparse]
      dsimp only
      rw [h.unixNanos, Int.mul_ediv_cancel _ (by decide)]
    · rw [utcCast, hparse, utcJson, if_neg h, outOfYears, String.toList_ofList]
      obtain ⟨n, hn⟩ : ∃ n, time.natAbs = n + 1 := by
        refine Nat.exists_eq_succ_of_ne_zero fun h0 => h ?_
        rw [Int.natAbs_eq_zero.mp h0]
        decide
      rw [hn, List.replicate_succ]
      by_cases hneg : time < 0
      · simp only [if_pos hneg, List.length_replicate, Option.some.injEq]
        omega
      · simp only [if_neg hneg, List.length_replicate, Option.some.injEq]
        omega
  cast_toText := by
    intro time timestamp ht again hagain
    rcases utcJson_cases time with ⟨h, hparse⟩ | ⟨h, error, hparse⟩
    · rw [ht] at hparse
      cases hparse
      rw [utcCast, Timestamp.parse_toText] at hagain
      cases hagain
      rw [h.unixNanos, Int.mul_ediv_cancel _ (by decide)]
    · rw [ht] at hparse
      cases hparse
  parse_json := by
    intro time h _
    rcases utcJson_cases time with ⟨_, hparse⟩ | ⟨hn, _⟩
    · exact ⟨_, hparse⟩
    · exact absurd h hn

theorem utc_cast_toText (time : Timestamp) : (utc.cast time.toText).isSome := by
  have hcast : utc.cast = utcCast := rfl
  rw [hcast, utcCast, Timestamp.parse_toText]
  rfl

end PgTimes
/-- The `interval` that a duration is bound as: whole microseconds that an `i64` holds. -/
def interval (duration : Duration) : Option Int :=
  if duration.nanos % 1000 = 0 ∧ duration.nanos / 1000 < 2 ^ 63 then
    some (duration.nanos / 1000 : Nat)
  else none

theorem interval_pos {duration : Duration} {span : Int} (h : interval duration = some span)
    (hd : duration.isZero = false) : 0 < span := by
  have hne : duration.nanos ≠ 0 := by simpa [Duration.isZero] using hd
  unfold interval at h
  split at h
  · rename_i hw
    cases h
    omega
  · cases h

theorem interval_nonneg {duration : Duration} {span : Int} (h : interval duration = some span) :
    0 ≤ span := by
  unfold interval at h
  split at h
  · cases h
    omega
  · cases h

/-! ## Columns -/

/-- A value of the `attributes` object: a string, or the text of anything else. -/
inductive JsonValue where
  | string (value : String)
  | other (text : String)
  deriving DecidableEq

abbrev JsonObject := Std.ExtTreeMap String JsonValue compare

/-- The columns that hold an envelope. `attributes` is an object in every row a record is made
    of. -/
structure Columns (JsonType : Type) where
  id : BitVec 128
  messageType : String
  source : String
  subject : Option String
  partitionKey : Option String
  contentType : String
  dataSchema : Option String
  attributes : JsonType
  data : List UInt8

/-- The attributes that have a column of their own. `specversion` is always `1.0`. -/
def columnAttributes : List String :=
  ["specversion", "id", "type", "source", "subject", "partitionkey", "datacontenttype",
    "dataschema"]

/-- The CloudEvents attributes without a column: time, correlation, trace and extensions. -/
def attributes (uuids : UuidFormat) (envelope : Envelope) : Attributes :=
  columnAttributes.foldl (fun attributes name => attributes.erase name) (envelope.toAttributes uuids)

/-- What `insert` binds for an envelope. -/
def columns (uuids : UuidFormat) (envelope : Envelope) : Columns JsonObject where
  id := envelope.id.uuid
  messageType := envelope.messageType.value
  source := envelope.source.value
  subject := envelope.subject
  partitionKey := envelope.partitionKey
  contentType := envelope.contentType.value
  dataSchema := envelope.dataSchema
  attributes := (attributes uuids envelope).map fun _ value => .string value
  data := envelope.data

/-! ## Records -/

/-- The columns of a claimed row, as `claim` selects them. -/
structure ClaimedRow where
  columns : Columns JsonObject
  createdAt : String
  attempts : Int
  availableAt : String

/-- Why a row isn't a record. -/
inductive RecordError where
  | notAString (name value : String)
  | envelope (error : EnvelopeError)
  | time (column : String) (error : EnvelopeError)

def RecordError.toText (debug : String → String) : RecordError → String
  | notAString name value => "attribute \x60" ++ name ++ "\x60 is " ++ value ++ ", not a string"
  | envelope error => error.toText debug
  | time column error => column ++ ": " ++ error.toText debug

/-- The attributes of the `attributes` column, which are all strings unless something other than
    this crate wrote the row. -/
def stringAttributes (attributes : Attributes) :
    List (String × JsonValue) → Except RecordError Attributes
  | [] => .ok attributes
  | (name, .string value) :: rest => stringAttributes (attributes.insert name value) rest
  | (name, .other text) :: _ => .error (.notAString name text)

def timestamp (column text : String) : Except RecordError Timestamp :=
  (Timestamp.parse text).mapError (.time column)

/-- Puts a claimed row back together as a record. -/
def record (uuids : UuidFormat) (row : ClaimedRow) : Except RecordError OutboxRecord := do
  let attributes ← stringAttributes ∅ row.columns.attributes.toList
  let columns : List (String × Option String) :=
    [("specversion", some "1.0"), ("id", some (uuids.hyphenated row.columns.id)),
      ("type", some row.columns.messageType), ("source", some row.columns.source),
      ("datacontenttype", some row.columns.contentType), ("subject", row.columns.subject),
      ("partitionkey", row.columns.partitionKey), ("dataschema", row.columns.dataSchema)]
  let attributes := Lib.TreeMap.setAll attributes columns
  let envelope ← (Envelope.fromAttributes uuids attributes row.columns.data).mapError .envelope
  -- A count of failed attempts is never negative.
  let attempts := row.attempts.toNat
  return ⟨envelope, ← timestamp "created_at" row.createdAt, attempts,
    ← timestamp "available_at" row.availableAt⟩

/-! ## A row is its envelope -/

theorem stringAttributes_strings (attributes : Attributes) (entries : List (String × String)) :
    stringAttributes attributes (entries.map fun entry => (entry.1, .string entry.2)) =
      .ok (entries.foldl (fun attributes (name, value) => attributes.insert name value)
        attributes) := by
  induction entries generalizing attributes with
  | nil => rfl
  | cons entry entries ih => exact ih _

theorem getElem?_attributes (uuids : UuidFormat) (envelope : Envelope) (name : String) :
    (attributes uuids envelope)[name]? =
      if name ∈ columnAttributes then none else (envelope.toAttributes uuids)[name]? :=
  Envelope.getElem?_eraseAll _ _ _

/-- The columns and the other attributes together are the envelope's attributes. -/
theorem setAll_columns (uuids : UuidFormat) (envelope : Envelope) :
    Lib.TreeMap.setAll (attributes uuids envelope)
      [("specversion", some "1.0"), ("id", some (envelope.id.toText uuids)),
        ("type", some envelope.messageType.value), ("source", some envelope.source.value),
        ("datacontenttype", some envelope.contentType.value), ("subject", envelope.subject),
        ("partitionkey", envelope.partitionKey), ("dataschema", envelope.dataSchema)] =
      envelope.toAttributes uuids := by
  refine Std.ExtTreeMap.ext_getElem? fun name => ?_
  rw [Lib.TreeMap.getElem?_setAll _ (by simp), getElem?_attributes]
  have field : ∀ value, (name, value) ∈ envelope.fields uuids →
      (envelope.toAttributes uuids)[name]? = value :=
    fun value h => Envelope.toAttributes_field uuids envelope h
  by_cases h : name ∈ columnAttributes
  · rw [if_pos h, Option.or_none]
    simp only [columnAttributes, List.mem_cons, List.not_mem_nil, or_false] at h
    rcases h with rfl | rfl | rfl | rfl | rfl | rfl | rfl | rfl
    all_goals
      rw [field _ (by simp [Envelope.fields]; rfl)]
      rfl
  · rw [if_neg h, Lib.TreeMap.lookup_eq_none]
    · rfl
    · simp only [columnAttributes, List.map_cons, List.map_nil, List.mem_cons, List.not_mem_nil,
        or_false] at h ⊢
      tauto

/-- A row that `insert` wrote is the record of its envelope. -/
theorem record_columns (uuids : UuidFormat) (envelope : Envelope) {row : ClaimedRow}
    {createdAt leasedUntil : Timestamp} (hcolumns : row.columns = columns uuids envelope)
    (hcreated : Timestamp.parse row.createdAt = .ok createdAt)
    (hleased : Timestamp.parse row.availableAt = .ok leasedUntil) :
    record uuids row = .ok ⟨envelope, createdAt, row.attempts.toNat, leasedUntil⟩ := by
  have hattributes : stringAttributes ∅ (columns uuids envelope).attributes.toList =
      .ok (attributes uuids envelope) := by
    simp only [columns, Std.ExtTreeMap.toList_map]
    rw [stringAttributes_strings, Lib.TreeMap.foldl_toList_empty]
  have henvelope : Envelope.fromAttributes uuids (envelope.toAttributes uuids) envelope.data =
      .ok envelope :=
    Envelope.fromAttributes_eq_ok.mpr (Envelope.reads_toAttributes uuids envelope)
  have hset := setAll_columns uuids envelope
  unfold record timestamp
  rw [hcolumns, hattributes, hcreated, hleased]
  simp only [columns, MessageId.toText] at hset ⊢
  simp only [bind, Except.bind, pure, Except.pure, hset, henvelope, Except.mapError]

/-- Reading a row gives the envelope that `insert` wrote, whatever the claim counted and the times
    are. Each attribute went by its column or by the object, never by both. -/
theorem record_insert (uuids : UuidFormat) (envelope : Envelope) {createdAt availableAt : String}
    {attempts : Int} {written leasedUntil : Timestamp} (hattempts : 0 ≤ attempts)
    (hwritten : Timestamp.parse createdAt = .ok written)
    (hleased : Timestamp.parse availableAt = .ok leasedUntil) :
    (∃ r, record uuids ⟨columns uuids envelope, createdAt, attempts, availableAt⟩ = .ok r ∧
      r.envelope = envelope ∧ r.createdAt = written ∧ (r.attempts : Int) = attempts ∧
      r.leasedUntil = leasedUntil) ∧
    ∀ name value : String, (envelope.toAttributes uuids)[name]? = some value →
      (name ∈ columnAttributes ∧ (columns uuids envelope).attributes[name]? = none) ∨
      (name ∉ columnAttributes ∧
        (columns uuids envelope).attributes[name]? = some (.string value)) := by
  refine ⟨⟨_, record_columns uuids envelope rfl hwritten hleased, rfl, rfl, ?_, rfl⟩, ?_⟩
  · exact Int.toNat_of_nonneg hattempts
  · intro name value hvalue
    have hroute := getElem?_attributes uuids envelope name
    rw [hvalue] at hroute
    by_cases h : name ∈ columnAttributes
    · refine Or.inl ⟨h, ?_⟩
      simp [columns, hroute, h]
    · refine Or.inr ⟨h, ?_⟩
      simp [columns, hroute, h]

/-- A message with an extension and no optional field. -/
def stockCounted : Envelope where
  id := ⟨7⟩
  messageType := ⟨"stock.stock_counted.v2", by decide⟩
  source := ⟨"/stock", by decide⟩
  time := .fromUnixNanos 5
  subject := none
  contentType := ⟨"text/csv", by decide⟩
  dataSchema := none
  partitionKey := none
  correlation := ⟨none, none⟩
  trace := none
  extensions := ⟨(∅ : Attributes).insert "tenant" "acme", by
    intro name h
    have : "tenant" = name := by simpa using h
    rw [← this]
    decide⟩
  data := [1, 2]

theorem record_insert_stockCounted : ∃ r, record .rfc9562 ⟨columns .rfc9562 stockCounted,
    (Timestamp.fromUnixNanos 8).toText, 3, (Timestamp.fromUnixNanos 9).toText⟩ = .ok r ∧
      r.envelope = stockCounted ∧ r.attempts = 3 := by
  obtain ⟨⟨r, hr, henvelope, _, hattempts, _⟩, _⟩ := record_insert .rfc9562 stockCounted
    (show (0 : Int) ≤ 3 by decide) (Timestamp.parse_toText (.fromUnixNanos 8))
    (Timestamp.parse_toText (.fromUnixNanos 9))
  exact ⟨r, hr, henvelope, by omega⟩

theorem mapError_eq_ok {α ε δ : Type} {result : Except ε α} {f : ε → δ} {value : α} :
    result.mapError f = .ok value ↔ result = .ok value := by
  cases result with
  | error => simp [Except.mapError]
  | ok => simp [Except.mapError]

/-- The envelope that the columns and the attributes make. -/
def Columns.envelope (uuids : UuidFormat) (columns : Columns JsonObject) :
    Except RecordError Envelope := do
  let attributes ← stringAttributes ∅ columns.attributes.toList
  let fields : List (String × Option String) :=
    [("specversion", some "1.0"), ("id", some (uuids.hyphenated columns.id)),
      ("type", some columns.messageType), ("source", some columns.source),
      ("datacontenttype", some columns.contentType), ("subject", columns.subject),
      ("partitionkey", columns.partitionKey), ("dataschema", columns.dataSchema)]
  (Envelope.fromAttributes uuids (Lib.TreeMap.setAll attributes fields) columns.data).mapError
    .envelope

/-- A row is a record when it makes an envelope and both of its times read. -/
theorem record_eq_ok_iff {uuids : UuidFormat} {row : ClaimedRow} {r : OutboxRecord} :
    record uuids row = .ok r ↔ row.columns.envelope uuids = .ok r.envelope ∧
      Timestamp.parse row.createdAt = .ok r.createdAt ∧ row.attempts.toNat = r.attempts ∧
      Timestamp.parse row.availableAt = .ok r.leasedUntil := by
  unfold record timestamp Columns.envelope
  simp only [except_bind_eq_ok, mapError_eq_ok, pure, Except.pure, Except.ok.injEq]
  constructor
  · rintro ⟨attributes, hattributes, envelope, henvelope, written, hwritten, leased, hleased, rfl⟩
    exact ⟨⟨attributes, hattributes, henvelope⟩, hwritten, rfl, hleased⟩
  · rintro ⟨⟨attributes, hattributes, henvelope⟩, hwritten, hattempts, hleased⟩
    refine ⟨attributes, hattributes, _, henvelope, _, hwritten, _, hleased, ?_⟩
    rw [hattempts]

theorem Columns.envelope_id {uuids : UuidFormat} {columns : Columns JsonObject}
    {envelope : Envelope} (h : columns.envelope uuids = .ok envelope) :
    envelope.id.uuid = columns.id := by
  unfold Columns.envelope at h
  simp only [except_bind_eq_ok, mapError_eq_ok] at h
  obtain ⟨attributes, _, henvelope⟩ := h
  obtain ⟨text, htext, hid⟩ := (Envelope.fromAttributes_eq_ok.mp henvelope).id
  rw [Lib.TreeMap.getElem?_setAll _ (by simp)] at htext
  obtain rfl : uuids.hyphenated columns.id = text := by simpa [List.lookup_cons] using htext
  rw [MessageId.parse, uuids.parseStr_hyphenated] at hid
  simp only [Except.ok.injEq] at hid
  rw [← hid]

/-- A record has its row's key and lease. -/
theorem record_eq_ok {uuids : UuidFormat} {row : ClaimedRow} {r : OutboxRecord}
    (h : record uuids row = .ok r) :
    r.envelope.id.uuid = row.columns.id ∧ Timestamp.parse row.createdAt = .ok r.createdAt ∧
      r.attempts = row.attempts.toNat ∧ Timestamp.parse row.availableAt = .ok r.leasedUntil := by
  obtain ⟨henvelope, hcreated, hattempts, hleased⟩ := record_eq_ok_iff.mp h
  exact ⟨Columns.envelope_id henvelope, hcreated, hattempts.symm, hleased⟩

/-! ## Statements -/

/-- What a mark finds its row by, as text: the row's key and the due time its claim set. -/
structure Mark where
  createdAt : String
  id : BitVec 128
  leasedUntil : String
  deriving DecidableEq

/-- The primary key: `created_at` and `id`. -/
abbrev RowKey := Int × BitVec 128

namespace Mark

variable (times : PgTimes)

/-- The key of the row, if its time reads as one. -/
def key (mark : Mark) : Option RowKey :=
  (times.cast mark.createdAt).map fun createdAt => (createdAt, mark.id)

/-- Both marks find the same row. -/
def SameRow (mark other : Mark) : Prop := mark.key times ≠ none ∧ mark.key times = other.key times

instance (mark other : Mark) : Decidable (SameRow times mark other) :=
  inferInstanceAs (Decidable (_ ∧ _))

variable {times}

theorem SameRow.symm {mark other : Mark} (h : mark.SameRow times other) :
    other.SameRow times mark := ⟨h.2 ▸ h.1, h.2.symm⟩

end Mark

def ClaimedRow.mark (row : ClaimedRow) : Mark := ⟨row.createdAt, row.columns.id, row.availableAt⟩

def markOf (record : OutboxRecord) : Mark :=
  ⟨record.createdAt.toText, record.envelope.id.uuid, record.leasedUntil.toText⟩

/-- How a publish under a deadline ended. -/
inductive PublishReply where
  | accepted
  | refused (error : TransportError)
  | elapsed

/-- What a dispatcher asks of the database, the broker, its clock and the bus. -/
inductive DispatchOp where
  /-- `claim`'s first statement. -/
  | claimDue (limit : Nat) (lease : Duration)
  /-- `claim`'s mark of a row that isn't a record. -/
  | failUnreadable (mark : Mark) (error : String)
  | setDispatched (marks : List Mark)
  | putBack (mark : Mark) (error : String) (delay : Duration)
  | setFailed (mark : Mark) (error : String)
  /-- Publishes the record's envelope. -/
  | publish (record : OutboxRecord) (deadline : Nat)
  /-- `Instant::now`, in nanoseconds. -/
  | now
  | stopping

@[reducible] def DispatchRet : DispatchOp → Type
  | .claimDue _ _ => Except String (List ClaimedRow)
  | .failUnreadable _ _ => Except String Unit
  | .setDispatched _ => Except String Unit
  | .putBack _ _ _ => Except String Unit
  | .setFailed _ _ => Except String Unit
  | .publish _ _ => PublishReply
  | .now => Nat
  | .stopping => Bool

abbrev Dispatching := Prog DispatchOp DispatchRet

def perform (op : DispatchOp) : Dispatching (DispatchRet op) := Prog.perform op

section Store

variable (uuids : UuidFormat) (debug : String → String)

/-- `database(context)`. -/
def database (context : String) (reply : Except String Unit) : Except StoreError Unit :=
  reply.mapError (.database context)

/-- The claimed rows as records. One that isn't a record is marked failed: no retry makes it
    readable, so it waits for a person, and the other rows still go out. -/
def readRows : List ClaimedRow → Dispatching (Except StoreError (List OutboxRecord))
  | [] => return .ok []
  | row :: rows =>
    match record uuids row with
    | .ok record => do
      match ← readRows rows with
      | .error error => return .error error
      | .ok records => return .ok (record :: records)
    | .error error => do
      let reply ← perform (.failUnreadable row.mark ("not a valid envelope: " ++ error.toText debug))
      match database "marking an unreadable outbox row failed" reply with
      | .error error => return .error error
      | .ok () => readRows rows

def claim (limit : Nat) (lease : Duration) : Dispatching (Except StoreError (List OutboxRecord)) := do
  match ← perform (.claimDue (min limit (2 ^ 63 - 1)) lease) with
  | .error error => return .error (.database "claiming outbox rows" error)
  | .ok rows => readRows uuids debug rows

def markDispatched (records : List OutboxRecord) : Dispatching (Except StoreError Unit) := do
  let reply ← perform (.setDispatched (records.map markOf))
  return database "marking outbox rows dispatched" reply

def markRetry (record : OutboxRecord) (error : String) (delay : Duration) :
    Dispatching (Except StoreError Unit) := do
  let reply ← perform (.putBack (markOf record) error delay)
  return database "putting an outbox row back" reply

def markFailed (record : OutboxRecord) (error : String) : Dispatching (Except StoreError Unit) := do
  let reply ← perform (.setFailed (markOf record) error)
  return database "marking an outbox row failed" reply

end Store

end SisaMessaging.Postgres
