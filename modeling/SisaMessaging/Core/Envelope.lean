/-
  The envelope: a message on its way, as a CloudEvent, and its attributes.

  `Envelope.toAttributes` writes every field and extension into one flat map, and
  `Envelope.fromAttributes` takes them out again, destructively and in a fixed order, until what
  is left are the extensions. `toAttributes_getElem?` and `fromAttributes_eq` say what each does
  by lookups, and from them:
  * `fromAttributes_toAttributes`: the reader gives back the envelope the writer was given;
  * `fromAttributes_iff`: the maps the reader accepts, and what it normalises in them.

  A `BTreeMap<String, String>` is an `ExtTreeMap`: both are ordered by the names' UTF-8 bytes,
  which is the order of their characters.
-/
import Mathlib.Tactic.Common
import SisaMessaging.Core.Message
import SisaMessaging.Core.Time
import SisaMessaging.Lib.TreeMap

namespace SisaMessaging.Core

abbrev Attributes := Std.ExtTreeMap String String

/-- The attributes the envelope has fields for, and `data`. -/
def reserved : List String :=
  ["specversion", "id", "source", "type", "time", "datacontenttype", "subject", "dataschema",
    "partitionkey", "traceparent", "tracestate", "correlationid", "causationid", "data"]

theorem except_bind_eq_ok {ε α β : Type} {x : Except ε α} {f : α → Except ε β} {b : β} :
    (x >>= f) = .ok b ↔ ∃ a, x = .ok a ∧ f a = .ok b := by
  cases x with
  | error e => simp [bind, Except.bind]
  | ok a => simp [bind, Except.bind]

theorem except_bind_eq_error {ε α β : Type} {x : Except ε α} {f : α → Except ε β} {e : ε} :
    (x >>= f) = .error e ↔ x = .error e ∨ ∃ a, x = .ok a ∧ f a = .error e := by
  cases x with
  | error e => simp [bind, Except.bind]
  | ok a => simp [bind, Except.bind]

/-! ## Checked texts -/

def hasControlOrSpace (value : String) : Bool :=
  value.toList.any fun character => isControl character || isWhitespace character

/-- The publishing service: the CloudEvents `source`. -/
@[ext] structure Source where
  value : String
  valid : value ≠ "" ∧ hasControlOrSpace value = false
  deriving DecidableEq

def Source.new (value : String) : Except EnvelopeError Source :=
  if h : value = "" ∨ hasControlOrSpace value = true then
    .error (.invalid "source" "not a URI reference")
  else .ok ⟨value, by simpa using h⟩

/-- The media type of the data: the CloudEvents `datacontenttype`. -/
@[ext] structure ContentType where
  value : String
  valid : value ≠ "" ∧ value.toList.any isControl = false
  deriving DecidableEq

def ContentType.new (value : String) : Except EnvelopeError ContentType :=
  if h : value = "" ∨ value.toList.any isControl = true then
    .error (.invalid "datacontenttype" "not a media type")
  else .ok ⟨value, by simpa using h⟩

theorem Source.new_value (source : Source) : Source.new source.value = .ok source := by
  unfold Source.new
  rw [dif_neg (by simpa using source.valid)]

theorem Source.new_eq_ok {value : String} {source : Source} (h : Source.new value = .ok source) :
    source.value = value := by
  unfold Source.new at h
  split at h
  · cases h
  · cases h
    rfl

theorem ContentType.new_value (contentType : ContentType) :
    ContentType.new contentType.value = .ok contentType := by
  unfold ContentType.new
  rw [dif_neg (by simpa using contentType.valid)]

theorem ContentType.new_eq_ok {value : String} {contentType : ContentType}
    (h : ContentType.new value = .ok contentType) : contentType.value = value := by
  unfold ContentType.new at h
  split at h
  · cases h
  · cases h
    rfl

/-! ## Extensions -/

/-- What is wrong with an extension's name, if anything. -/
def checkExtensionName (name : String) : Option String :=
  if name = "" ∨ ¬ (textBytes name).all fun byte => isAsciiLowercase byte || isAsciiDigit byte then
    some "not lowercase letters and digits"
  else if (textBytes name).length > 20 then some "longer than 20 characters"
  else if name ∈ reserved then some "has a field of its own in the envelope"
  else none

/-- The attributes the envelope has no field for. -/
@[ext] structure Extensions where
  map : Attributes
  valid : ∀ name ∈ map, checkExtensionName name = none

namespace Extensions

/-- No extensions. -/
def new : Extensions := ⟨∅, fun _ h => (Std.ExtTreeMap.not_mem_empty h).elim⟩

theorem valid_insert (extensions : Extensions) {name : String} (value : String)
    (h : checkExtensionName name = none) :
    ∀ other ∈ extensions.map.insert name value, checkExtensionName other = none := by
  intro other ho
  rcases Std.ExtTreeMap.mem_insert.mp ho with he | hm
  · rw [← Std.LawfulEqCmp.eq_of_compare he, h]
  · exact extensions.valid other hm

/-- Sets an extension, and returns the value it replaced. -/
def insert (extensions : Extensions) (name value : String) :
    Except EnvelopeError (Option String × Extensions) :=
  match h : checkExtensionName name with
  | some reason => .error (.invalid name reason)
  | none => .ok (extensions.map[name]?, ⟨extensions.map.insert name value,
      extensions.valid_insert value h⟩)

/-- Sets extensions one after the other, up to the first invalid name. -/
def insertAll (extensions : Extensions) :
    List (String × String) → Except EnvelopeError Extensions
  | [] => .ok extensions
  | (name, value) :: rest => do
    let (_, extensions) ← extensions.insert name value
    extensions.insertAll rest

theorem exists_insert (extensions : Extensions) {name : String} (value : String)
    (h : checkExtensionName name = none) :
    ∃ result : Extensions, result.map = extensions.map.insert name value :=
  ⟨⟨extensions.map.insert name value, extensions.valid_insert value h⟩, rfl⟩

theorem insert_eq_ok_iff {extensions result : Extensions} {name value : String}
    {old : Option String} : extensions.insert name value = .ok (old, result) ↔
      checkExtensionName name = none ∧ old = extensions.map[name]? ∧
        result.map = extensions.map.insert name value := by
  unfold insert
  split
  · rename_i h
    simp [h]
  · rename_i h
    simp only [Except.ok.injEq, Prod.mk.injEq, Extensions.ext_iff, h, true_and]
    exact and_congr eq_comm eq_comm

/-- `insertAll` succeeds exactly when every name is valid. -/
theorem insertAll_eq_ok_iff {entries : List (String × String)} {extensions result : Extensions} :
    extensions.insertAll entries = .ok result ↔
      (∀ entry ∈ entries, checkExtensionName entry.1 = none) ∧ result.map =
        entries.foldl (fun m (name, value) => m.insert name value) extensions.map := by
  induction entries generalizing extensions with
  | nil => simp [insertAll, Extensions.ext_iff, eq_comm]
  | cons entry rest ih =>
    obtain ⟨name, value⟩ := entry
    simp only [insertAll, except_bind_eq_ok, Prod.exists, insert_eq_ok_iff, ih, List.foldl_cons,
      List.forall_mem_cons]
    constructor
    · rintro ⟨_, next, ⟨hn, -, hm⟩, hr, he⟩
      exact ⟨⟨hn, hr⟩, hm ▸ he⟩
    · rintro ⟨⟨hn, hr⟩, he⟩
      obtain ⟨next, hm⟩ := exists_insert extensions value hn
      exact ⟨_, next, ⟨hn, rfl, hm⟩, hr, hm ▸ he⟩

/-- What is left of a map becomes the extensions, unchanged. -/
theorem insertAll_toList_iff {m : Attributes} {result : Extensions} :
    new.insertAll m.toList = .ok result ↔ result.map = m := by
  rw [insertAll_eq_ok_iff]
  have hnew : new.map = ∅ := rfl
  rw [hnew, Lib.TreeMap.foldl_toList_empty]
  refine and_iff_right_of_imp fun h entry he => result.valid entry.1 ?_
  rw [h, Std.ExtTreeMap.mem_iff_isSome_getElem?,
    Std.ExtTreeMap.mem_toList_iff_getElem?_eq_some.mp he]
  rfl

end Extensions

/-! ## The envelope -/

/-- Ties messages together: the `correlationid` and `causationid` extensions. -/
@[ext] structure Correlation where
  correlationId : Option MessageId
  causationId : Option MessageId
  deriving DecidableEq

/-- W3C Trace Context: `traceparent` and `tracestate`. -/
@[ext] structure TraceContext where
  traceparent : String
  tracestate : Option String
  deriving DecidableEq

/-- A message on its way, as a CloudEvent 1.0. -/
@[ext] structure Envelope where
  id : MessageId
  messageType : MessageType
  source : Source
  time : Timestamp
  subject : Option String
  contentType : ContentType
  dataSchema : Option String
  partitionKey : Option String
  correlation : Correlation
  trace : Option TraceContext
  extensions : Extensions
  data : List UInt8

/-- Takes a required attribute out. -/
def required (attributes : Attributes) (name : String) :
    Except EnvelopeError (String × Attributes) :=
  match attributes[name]? with
  | some value => .ok (value, attributes.erase name)
  | none => .error (.missingAttribute name)

/-- Takes an optional attribute out: `BTreeMap::remove`. -/
def remove (attributes : Attributes) (name : String) : Option String × Attributes :=
  (attributes[name]?, attributes.erase name)

/-- Takes an optional id out. -/
def optionalId (uuids : UuidFormat) (attributes : Attributes) (name : String) :
    Except EnvelopeError (Option MessageId × Attributes) :=
  match remove attributes name with
  | (none, attributes) => .ok (none, attributes)
  | (some text, attributes) =>
    match MessageId.parse uuids text with
    | .ok id => .ok (some id, attributes)
    | .error _ => .error (.invalid name "not a UUID")

namespace Envelope

/-- The CloudEvents attributes: `specversion`, every field that is set, and the extensions in name
    order. -/
def toAttributes (uuids : UuidFormat) (envelope : Envelope) : Attributes :=
  let required : List (String × String) :=
    [("specversion", "1.0"), ("id", envelope.id.toText uuids), ("source", envelope.source.value),
      ("type", envelope.messageType.value), ("time", envelope.time.toText),
      ("datacontenttype", envelope.contentType.value)]
  let optional : List (String × Option String) :=
    [("subject", envelope.subject), ("dataschema", envelope.dataSchema),
      ("partitionkey", envelope.partitionKey),
      ("correlationid", envelope.correlation.correlationId.map (·.toText uuids)),
      ("causationid", envelope.correlation.causationId.map (·.toText uuids)),
      ("traceparent", envelope.trace.map (·.traceparent)),
      ("tracestate", envelope.trace.bind (·.tracestate))]
  let attributes : Attributes := Std.ExtTreeMap.ofList required
  let attributes := Lib.TreeMap.setAll attributes optional
  envelope.extensions.map.toList.foldl (fun attributes (name, value) => attributes.insert name value)
    attributes

/-- An envelope from CloudEvents attributes and its data. -/
def fromAttributes (uuids : UuidFormat) (attributes : Attributes) (data : List UInt8) :
    Except EnvelopeError Envelope := do
  let (specversion, attributes) ← required attributes "specversion"
  if specversion ≠ "1.0" then
    .error (.invalid "specversion" "only CloudEvents 1.0 is supported")
  else
    let (id, attributes) ← required attributes "id"
    let id ← MessageId.parse uuids id
    let (source, attributes) ← required attributes "source"
    let source ← Source.new source
    let (messageType, attributes) ← required attributes "type"
    let messageType ← MessageType.new messageType
    let (time, attributes) ← required attributes "time"
    let time ← Timestamp.parse time
    let (contentType, attributes) ← required attributes "datacontenttype"
    let contentType ← ContentType.new contentType
    let (subject, attributes) := remove attributes "subject"
    let (dataSchema, attributes) := remove attributes "dataschema"
    let (partitionKey, attributes) := remove attributes "partitionkey"
    let (correlationId, attributes) ← optionalId uuids attributes "correlationid"
    let (causationId, attributes) ← optionalId uuids attributes "causationid"
    let (tracestate, attributes) := remove attributes "tracestate"
    let (traceparent, attributes) := remove attributes "traceparent"
    let trace := traceparent.map fun traceparent => ⟨traceparent, tracestate⟩
    -- Whatever is left are extensions, in name order.
    let extensions ← Extensions.new.insertAll attributes.toList
    pure { id, messageType, source, time, subject, contentType, dataSchema, partitionKey,
           correlation := ⟨correlationId, causationId⟩, trace, extensions, data }

/-! ## The writer, by lookups -/

/-- The attributes with fields, in the order the reader takes them. -/
def fieldNames : List String :=
  ["specversion", "id", "source", "type", "time", "datacontenttype", "subject", "dataschema",
    "partitionkey", "correlationid", "causationid", "tracestate", "traceparent"]

/-- What the fields write. -/
def fields (uuids : UuidFormat) (envelope : Envelope) : List (String × Option String) :=
  [("specversion", some "1.0"), ("id", some (envelope.id.toText uuids)),
    ("source", some envelope.source.value), ("type", some envelope.messageType.value),
    ("time", some envelope.time.toText), ("datacontenttype", some envelope.contentType.value),
    ("subject", envelope.subject), ("dataschema", envelope.dataSchema),
    ("partitionkey", envelope.partitionKey),
    ("correlationid", envelope.correlation.correlationId.map (·.toText uuids)),
    ("causationid", envelope.correlation.causationId.map (·.toText uuids)),
    ("traceparent", envelope.trace.map (·.traceparent)),
    ("tracestate", envelope.trace.bind (·.tracestate))]

theorem nodup_fields (uuids : UuidFormat) (envelope : Envelope) :
    ((envelope.fields uuids).map (·.1)).Nodup := by
  simp [fields]

/-- An extension's value, or else the field's. -/
theorem toAttributes_getElem? (uuids : UuidFormat) (envelope : Envelope) (name : String) :
    (envelope.toAttributes uuids)[name]? =
      envelope.extensions.map[name]?.or ((envelope.fields uuids).lookup name).join := by
  have hset : envelope.toAttributes uuids = envelope.extensions.map.toList.foldl
      (fun attributes (name, value) => attributes.insert name value)
      (Lib.TreeMap.setAll ∅ (envelope.fields uuids)) := by
    simp only [toAttributes, Std.ExtTreeMap.ofList_eq_foldl]
    rfl
  rw [hset, Lib.TreeMap.getElem?_foldl_toList,
    Lib.TreeMap.getElem?_setAll _ (nodup_fields uuids envelope), Std.ExtTreeMap.getElem?_empty,
    Option.or_none]

theorem extensions_getElem?_of_field (extensions : Extensions) {name : String}
    (h : name ∈ fieldNames) : extensions.map[name]? = none := by
  have hall : ∀ name ∈ fieldNames, checkExtensionName name ≠ none := by decide
  exact Std.ExtTreeMap.getElem?_eq_none fun hm => hall name h (extensions.valid name hm)

/-! ## The reader, by lookups -/

/-- An optional id under `name` that reads as `id`. -/
def ReadsId (uuids : UuidFormat) (m : Attributes) (name : String) (id : Option MessageId) : Prop :=
  (m[name]? = none ∧ id = none) ∨
    ∃ text, m[name]? = some text ∧ ∃ id', MessageId.parse uuids text = .ok id' ∧ id = some id'

/-- The envelope that the attributes and the data are read as. -/
structure Reads (uuids : UuidFormat) (m : Attributes) (data : List UInt8) (envelope : Envelope) :
    Prop where
  specversion : m["specversion"]? = some "1.0"
  id : ∃ text, m["id"]? = some text ∧ MessageId.parse uuids text = .ok envelope.id
  source : ∃ text, m["source"]? = some text ∧ Source.new text = .ok envelope.source
  messageType : ∃ text, m["type"]? = some text ∧ MessageType.new text = .ok envelope.messageType
  time : ∃ text, m["time"]? = some text ∧ Timestamp.parse text = .ok envelope.time
  contentType : ∃ text, m["datacontenttype"]? = some text ∧
    ContentType.new text = .ok envelope.contentType
  subject : envelope.subject = m["subject"]?
  dataSchema : envelope.dataSchema = m["dataschema"]?
  partitionKey : envelope.partitionKey = m["partitionkey"]?
  correlationId : ReadsId uuids m "correlationid" envelope.correlation.correlationId
  causationId : ReadsId uuids m "causationid" envelope.correlation.causationId
  trace : envelope.trace = m["traceparent"]?.map fun traceparent => ⟨traceparent, m["tracestate"]?⟩
  extensions : ∀ name, envelope.extensions.map[name]? = if name ∈ fieldNames then none else m[name]?
  data : envelope.data = data

theorem ite_error_eq_ok {ε β : Type} {p : Prop} [Decidable p] {e : ε} {x : Except ε β} {b : β} :
    (if ¬ p then .error e else x) = .ok b ↔ p ∧ x = .ok b := by
  by_cases h : p <;> simp [h]

theorem required_eq_ok {m m' : Attributes} {name text : String} :
    required m name = .ok (text, m') ↔ m[name]? = some text ∧ m' = m.erase name := by
  unfold required
  cases m[name]? with
  | none => simp
  | some value => simp [eq_comm]

theorem optionalId_eq_ok {uuids : UuidFormat} {m m' : Attributes} {name : String}
    {id : Option MessageId} :
    optionalId uuids m name = .ok (id, m') ↔ ReadsId uuids m name id ∧ m' = m.erase name := by
  unfold optionalId remove ReadsId
  cases hm : m[name]? with
  | none => simp [eq_comm]
  | some text =>
    cases hp : MessageId.parse uuids text with
    | error e => simp [hp]
    | ok id' => simp [hp, eq_comm]

theorem getElem?_eraseAll (m : Attributes) (names : List String) (name : String) :
    (names.foldl (fun m name => m.erase name) m)[name]? = if name ∈ names then none else m[name]? := by
  induction names generalizing m with
  | nil => simp
  | cons first rest ih =>
    rw [List.foldl_cons, ih, Std.ExtTreeMap.getElem?_erase]
    by_cases hr : name ∈ rest
    · simp [hr]
    · simp [hr, eq_comm (a := first)]

/-- The reader accepts the attributes exactly when they read as an envelope. -/
theorem fromAttributes_eq_ok {uuids : UuidFormat} {m : Attributes} {data : List UInt8}
    {envelope : Envelope} :
    fromAttributes uuids m data = .ok envelope ↔ Reads uuids m data envelope := by
  unfold fromAttributes
  simp only [except_bind_eq_ok, Prod.exists, required_eq_ok, optionalId_eq_ok, remove,
    ite_error_eq_ok, pure, Except.pure, Except.ok.injEq, Extensions.insertAll_toList_iff, ne_eq,
    and_assoc, exists_and_left, exists_eq_left, ReadsId, Std.ExtTreeMap.getElem?_erase,
    Std.LawfulEqCmp.compare_eq_iff_eq, String.reduceEq, if_false]
  have herase := getElem?_eraseAll m fieldNames
  simp only [fieldNames, List.foldl_cons, List.foldl_nil] at herase
  constructor
  · rintro ⟨_, h1, rfl, id, hid, _, hid', source, hsource, _, hsource', messageType, htype, _, htype',
      time, htime, _, htime', contentType, hcontent, _, hcontent', _, hcorrelation, _, hcausation,
      _, hextensions, rfl⟩
    exact
      { specversion := h1, id := ⟨id, hid, hid'⟩, source := ⟨source, hsource, hsource'⟩,
        messageType := ⟨messageType, htype, htype'⟩, time := ⟨time, htime, htime'⟩,
        contentType := ⟨contentType, hcontent, hcontent'⟩, subject := rfl, dataSchema := rfl,
        partitionKey := rfl, correlationId := hcorrelation, causationId := hcausation, trace := rfl,
        extensions := fun name => hextensions ▸ herase name, data := rfl }
  · intro h
    obtain ⟨id, hid, hid'⟩ := h.id
    obtain ⟨source, hsource, hsource'⟩ := h.source
    obtain ⟨messageType, htype, htype'⟩ := h.messageType
    obtain ⟨time, htime, htime'⟩ := h.time
    obtain ⟨contentType, hcontent, hcontent'⟩ := h.contentType
    refine ⟨_, h.specversion, rfl, id, hid, _, hid', source, hsource, _, hsource', messageType, htype,
      _, htype', time, htime, _, htime', contentType, hcontent, _, hcontent', _, h.correlationId, _,
      h.causationId, envelope.extensions, ?_, ?_⟩
    · refine Std.ExtTreeMap.ext_getElem? fun name => ?_
      exact (h.extensions name).trans (herase name).symm
    · rw [← h.subject, ← h.dataSchema, ← h.partitionKey, ← h.trace, ← h.data]

/-! ## Round trip -/

theorem lookup_fields_of_not_mem (uuids : UuidFormat) (envelope : Envelope) {name : String}
    (h : name ∉ fieldNames) : (envelope.fields uuids).lookup name = none := by
  refine Lib.TreeMap.lookup_eq_none fun hm => h ?_
  simp only [fields, List.map_cons, List.map_nil] at hm
  simp only [fieldNames, List.mem_cons, List.not_mem_nil, or_false] at hm ⊢
  tauto

/-- Every field has its own attribute: no extension takes it. -/
theorem toAttributes_field (uuids : UuidFormat) (envelope : Envelope) {name : String}
    {value : Option String} (h : (name, value) ∈ envelope.fields uuids) :
    (envelope.toAttributes uuids)[name]? = value := by
  have hlookup := Lib.TreeMap.lookup_of_mem (nodup_fields uuids envelope) h
  have hname : name ∈ fieldNames := by
    by_contra hn
    rw [lookup_fields_of_not_mem uuids envelope hn] at hlookup
    cases hlookup
  rw [toAttributes_getElem?, extensions_getElem?_of_field _ hname, Option.none_or, hlookup]
  rfl

theorem readsId_map (uuids : UuidFormat) {m : Attributes} {name : String} {id : Option MessageId}
    (h : m[name]? = id.map (·.toText uuids)) : ReadsId uuids m name id := by
  cases id with
  | none => exact Or.inl ⟨h, rfl⟩
  | some id => exact Or.inr ⟨_, h, id, MessageId.parse_toText uuids id, rfl⟩

/-- What the writer writes reads as the envelope. -/
theorem reads_toAttributes (uuids : UuidFormat) (envelope : Envelope) :
    Reads uuids (envelope.toAttributes uuids) envelope.data envelope := by
  have hf {name : String} {value : Option String} (h : (name, value) ∈ envelope.fields uuids) :=
    toAttributes_field uuids envelope h
  exact
    { specversion := hf (by simp [fields])
      id := ⟨_, hf (by simp [fields]), MessageId.parse_toText uuids envelope.id⟩
      source := ⟨_, hf (by simp [fields]), envelope.source.new_value⟩
      messageType := ⟨_, hf (by simp [fields]), envelope.messageType.new_value⟩
      time := ⟨_, hf (by simp [fields]), envelope.time.parse_toText⟩
      contentType := ⟨_, hf (by simp [fields]), envelope.contentType.new_value⟩
      subject := (hf (by simp [fields])).symm
      dataSchema := (hf (by simp [fields])).symm
      partitionKey := (hf (by simp [fields])).symm
      correlationId := readsId_map uuids (hf (by simp [fields]))
      causationId := readsId_map uuids (hf (by simp [fields]))
      trace := by
        have hparent : (envelope.toAttributes uuids)["traceparent"]? =
            envelope.trace.map (·.traceparent) := hf (by simp [fields])
        have hstate : (envelope.toAttributes uuids)["tracestate"]? =
            envelope.trace.bind (·.tracestate) := hf (by simp [fields])
        rw [hparent, hstate]
        cases envelope.trace <;> rfl
      extensions := fun name => by
        split
        · rename_i h
          exact extensions_getElem?_of_field _ h
        · rename_i h
          rw [toAttributes_getElem?, lookup_fields_of_not_mem uuids envelope h]
          simp
      data := rfl }

/-- The reader gives back the envelope the writer was given. No extension takes a field's
    attribute, and every field and extension has its own. -/
theorem fromAttributes_toAttributes (uuids : UuidFormat) (envelope : Envelope) :
    fromAttributes uuids (envelope.toAttributes uuids) envelope.data = .ok envelope ∧
      (∀ field ∈ envelope.fields uuids, (envelope.toAttributes uuids)[field.1]? = field.2) ∧
      ∀ name value : String, envelope.extensions.map[name]? = some value →
        (envelope.toAttributes uuids)[name]? = some value := by
  refine ⟨fromAttributes_eq_ok.mpr (reads_toAttributes uuids envelope), ?_, ?_⟩
  · exact fun field h => toAttributes_field uuids envelope h
  · intro name value h
    rw [toAttributes_getElem?, h, Option.some_or]

/-! ## Acceptance and normal form -/

/-- 1 to 20 lowercase ASCII letters and digits. -/
def IsExtensionName (name : String) : Prop :=
  1 ≤ name.length ∧ name.length ≤ 20 ∧ ∀ c ∈ name.toList, c.isLower ∨ c.isDigit

/-- The optional attributes with a field of their own that may hold any text. -/
def optionalNames : List String :=
  ["subject", "dataschema", "partitionkey", "traceparent", "tracestate"]

/-- The attributes that are checked as values of their types. -/
def checkedNames : List String :=
  ["specversion", "id", "source", "type", "time", "datacontenttype", "correlationid", "causationid"]

/-- The maps an envelope can be read from. -/
structure Acceptable (uuids : UuidFormat) (m : Attributes) : Prop where
  specversion : m["specversion"]? = some "1.0"
  id : ∃ text, m["id"]? = some text ∧ (uuids.parseStr text).isSome
  source : ∃ text source, m["source"]? = some text ∧ Source.new text = .ok source
  messageType : ∃ text messageType, m["type"]? = some text ∧
    MessageType.new text = .ok messageType
  time : ∃ text time, m["time"]? = some text ∧ Timestamp.parse text = .ok time
  contentType : ∃ text contentType, m["datacontenttype"]? = some text ∧
    ContentType.new text = .ok contentType
  correlation : ∀ name ∈ ["correlationid", "causationid"], ∀ text, m[name]? = some text →
    (uuids.parseStr text).isSome
  others : ∀ name ∈ m, name ∉ checkedNames →
    name ∈ optionalNames ∨ (IsExtensionName name ∧ name ≠ "data")

/-- What the reader and the writer together make of the attribute `name`: the ids in their
    hyphenated form, the time in UTC, no `tracestate` without a `traceparent`. -/
def normalAttribute (uuids : UuidFormat) (m : Attributes) (name text : String) : Option String :=
  if name = "id" ∨ name = "correlationid" ∨ name = "causationid" then
    (uuids.parseStr text).map uuids.hyphenated
  else if name = "time" then (parseTime text).map Timestamp.toText
  else if name = "tracestate" ∧ m["traceparent"]? = none then none
  else some text

/-- The attributes whose normal form may differ. -/
def normalisedNames : List String := ["id", "correlationid", "causationid", "time", "tracestate"]

theorem normalisedNames_subset : normalisedNames ⊆ fieldNames := by decide

theorem bind_normalAttribute (uuids : UuidFormat) (m : Attributes) {name : String}
    (h : name ∉ normalisedNames) : m[name]?.bind (normalAttribute uuids m name) = m[name]? := by
  have hval : ∀ text, normalAttribute uuids m name text = some text := by
    intro text
    simp only [normalisedNames, List.mem_cons, List.not_mem_nil, or_false, not_or] at h
    simp [normalAttribute, h]
  cases m[name]? with
  | none => rfl
  | some text => exact hval text

theorem checkExtensionName_eq_none {name : String} :
    checkExtensionName name = none ↔ IsExtensionName name ∧ name ∉ reserved := by
  have hbyte : ∀ byte, (isAsciiLowercase byte || isAsciiDigit byte) = true → byte.toNat < 128 := by
    intro byte h
    rw [Bool.or_eq_true, isAsciiLowercase_iff, isAsciiDigit_iff] at h
    omega
  have hchars : ((textBytes name).all fun byte => isAsciiLowercase byte || isAsciiDigit byte) =
      true ↔ ∀ c ∈ name.toList, c.isLower ∨ c.isDigit := by
    rw [textBytes_all_iff hbyte]
    refine forall₂_congr fun c _ => ?_
    rw [Bool.or_eq_true, isAsciiLowercase_iff, isAsciiDigit_iff, isLower_iff, isDigit_iff]
    by_cases hc : c.toNat < 128
    · rw [toUInt8_toNat_ascii hc]
      omega
    · omega
  have hempty : name = "" ↔ ¬ 1 ≤ name.length := by
    rw [← String.length_eq_zero_iff]
    omega
  have hlen (h : ∀ c ∈ name.toList, c.isLower ∨ c.isDigit) :
      (textBytes name).length = name.length := by
    rw [length_textBytes_ascii, String.length_toList]
    intro c hc
    have := h c hc
    rw [isLower_iff, isDigit_iff] at this
    omega
  unfold checkExtensionName IsExtensionName
  simp only [hchars, hempty]
  split_ifs with h1 h2 h3
  · refine iff_of_false (by simp) ?_
    rintro ⟨⟨ha, -, hc⟩, -⟩
    exact h1.elim (· ha) (· hc)
  · obtain ⟨-, hc⟩ := not_or.mp h1
    rw [hlen (not_not.mp hc)] at h2
    refine iff_of_false (by simp) ?_
    rintro ⟨⟨-, hb, -⟩, -⟩
    omega
  · exact iff_of_false (by simp) fun h => h.2 h3
  · obtain ⟨ha, hc⟩ := not_or.mp h1
    rw [hlen (not_not.mp hc)] at h2
    exact iff_of_true rfl ⟨⟨not_not.mp ha, by omega, not_not.mp hc⟩, h3⟩

theorem ReadsId.map_toText {uuids : UuidFormat} {m : Attributes} {name : String}
    {id : Option MessageId} (h : ReadsId uuids m name id) :
    id.map (·.toText uuids) = m[name]?.bind fun text => (uuids.parseStr text).map uuids.hyphenated := by
  rcases h with ⟨hm, rfl⟩ | ⟨text, hm, id, hp, rfl⟩
  · rw [hm]
    rfl
  · rw [hm, Option.bind_some, MessageId.parse_eq_ok.mp hp]
    rfl

theorem checkedNames_subset : checkedNames ⊆ fieldNames := by decide

theorem optionalNames_subset : optionalNames ⊆ fieldNames := by decide

theorem optional_of_field {name : String} (h : name ∈ fieldNames) (hc : name ∉ checkedNames) :
    name ∈ optionalNames := by
  have hall : ∀ name ∈ fieldNames, name ∉ checkedNames → name ∈ optionalNames := by decide
  exact hall name h hc

theorem not_reserved {name : String} (hf : name ∉ fieldNames) (hd : name ≠ "data") :
    name ∉ reserved := by
  have hall : ∀ name ∈ reserved, name ∈ fieldNames ∨ name = "data" := by decide
  exact fun hr => (hall name hr).elim hf hd

/-- What the writer makes of an envelope that was read: the normal form of each attribute. -/
theorem Reads.toAttributes_eq {uuids : UuidFormat} {m : Attributes} {data : List UInt8}
    {envelope : Envelope} (h : Reads uuids m data envelope) (name : String) :
    (envelope.toAttributes uuids)[name]? = m[name]?.bind (normalAttribute uuids m name) := by
  have hf {name : String} {value : Option String} (h : (name, value) ∈ envelope.fields uuids) :=
    toAttributes_field uuids envelope h
  by_cases hn : name ∈ fieldNames
  · obtain ⟨id, hid, hid'⟩ := h.id
    obtain ⟨source, hsource, hsource'⟩ := h.source
    obtain ⟨messageType, htype, htype'⟩ := h.messageType
    obtain ⟨time, htime, htime'⟩ := h.time
    obtain ⟨contentType, hcontent, hcontent'⟩ := h.contentType
    rw [MessageId.parse_eq_ok] at hid'
    rw [Timestamp.parse_eq_ok] at htime'
    simp only [fieldNames, List.mem_cons, List.not_mem_nil, or_false] at hn
    rcases hn with rfl | rfl | rfl | rfl | rfl | rfl | rfl | rfl | rfl | rfl | rfl | rfl | rfl
    · have hw : (envelope.toAttributes uuids)["specversion"]? = some "1.0" := hf (by simp [fields])
      rw [hw, h.specversion]
      rfl
    · have hw : (envelope.toAttributes uuids)["id"]? = some (envelope.id.toText uuids) :=
        hf (by simp [fields])
      rw [hw, hid]
      simp [normalAttribute, hid', MessageId.toText]
    · have hw : (envelope.toAttributes uuids)["source"]? = some envelope.source.value :=
        hf (by simp [fields])
      rw [hw, hsource, Source.new_eq_ok hsource']
      rfl
    · have hw : (envelope.toAttributes uuids)["type"]? = some envelope.messageType.value :=
        hf (by simp [fields])
      rw [hw, htype, MessageType.new_eq_ok htype']
      rfl
    · have hw : (envelope.toAttributes uuids)["time"]? = some envelope.time.toText :=
        hf (by simp [fields])
      rw [hw, htime]
      simp [normalAttribute, htime']
    · have hw : (envelope.toAttributes uuids)["datacontenttype"]? =
          some envelope.contentType.value := hf (by simp [fields])
      rw [hw, hcontent, ContentType.new_eq_ok hcontent']
      rfl
    · have hw : (envelope.toAttributes uuids)["subject"]? = envelope.subject :=
        hf (by simp [fields])
      rw [hw, h.subject, bind_normalAttribute _ _ (by decide)]
    · have hw : (envelope.toAttributes uuids)["dataschema"]? = envelope.dataSchema :=
        hf (by simp [fields])
      rw [hw, h.dataSchema, bind_normalAttribute _ _ (by decide)]
    · have hw : (envelope.toAttributes uuids)["partitionkey"]? = envelope.partitionKey :=
        hf (by simp [fields])
      rw [hw, h.partitionKey, bind_normalAttribute _ _ (by decide)]
    · have hw : (envelope.toAttributes uuids)["correlationid"]? =
          envelope.correlation.correlationId.map (·.toText uuids) := hf (by simp [fields])
      rw [hw, h.correlationId.map_toText]
      rfl
    · have hw : (envelope.toAttributes uuids)["causationid"]? =
          envelope.correlation.causationId.map (·.toText uuids) := hf (by simp [fields])
      rw [hw, h.causationId.map_toText]
      rfl
    · have hw : (envelope.toAttributes uuids)["tracestate"]? =
          envelope.trace.bind (·.tracestate) := hf (by simp [fields])
      rw [hw, h.trace]
      -- Without a `traceparent` the reader drops the `tracestate`.
      cases hparent : m["traceparent"]? with
      | none => cases hstate : m["tracestate"]? <;> simp [normalAttribute, hparent]
      | some parent => cases hstate : m["tracestate"]? <;> simp [normalAttribute, hparent]
    · have hw : (envelope.toAttributes uuids)["traceparent"]? =
          envelope.trace.map (·.traceparent) := hf (by simp [fields])
      rw [hw, h.trace, bind_normalAttribute _ _ (by decide)]
      cases m["traceparent"]? <;> rfl
  · have hplain : name ∉ normalisedNames := fun hm => hn (normalisedNames_subset hm)
    rw [toAttributes_getElem?, h.extensions name, if_neg hn,
      lookup_fields_of_not_mem uuids envelope hn, bind_normalAttribute _ _ hplain]
    exact Option.or_none

theorem ReadsId.valid {uuids : UuidFormat} {m : Attributes} {name text : String}
    {id : Option MessageId} (h : ReadsId uuids m name id) (ht : m[name]? = some text) :
    (uuids.parseStr text).isSome := by
  rcases h with ⟨hm, -⟩ | ⟨text', hm, id, hp, -⟩
  · rw [hm] at ht
    cases ht
  · rw [hm] at ht
    cases ht
    rw [MessageId.parse_eq_ok.mp hp]
    rfl

theorem Reads.acceptable {uuids : UuidFormat} {m : Attributes} {data : List UInt8}
    {envelope : Envelope} (h : Reads uuids m data envelope) : Acceptable uuids m := by
  obtain ⟨id, hid, hid'⟩ := h.id
  obtain ⟨source, hsource⟩ := h.source
  obtain ⟨messageType, htype⟩ := h.messageType
  obtain ⟨time, htime⟩ := h.time
  obtain ⟨contentType, hcontent⟩ := h.contentType
  refine ⟨h.specversion, ⟨id, hid, ?_⟩, ⟨source, _, hsource⟩, ⟨messageType, _, htype⟩,
    ⟨time, _, htime⟩, ⟨contentType, _, hcontent⟩, ?_, ?_⟩
  · rw [MessageId.parse_eq_ok.mp hid']
    rfl
  · intro name hname text ht
    simp only [List.mem_cons, List.not_mem_nil, or_false] at hname
    rcases hname with rfl | rfl
    · exact h.correlationId.valid ht
    · exact h.causationId.valid ht
  · intro name hm hc
    by_cases hf : name ∈ fieldNames
    · exact Or.inl (optional_of_field hf hc)
    · have hext : name ∈ envelope.extensions.map := by
        rw [Std.ExtTreeMap.mem_iff_isSome_getElem?, h.extensions name, if_neg hf]
        exact Std.ExtTreeMap.mem_iff_isSome_getElem?.mp hm
      obtain ⟨hv, hr⟩ := checkExtensionName_eq_none.mp (envelope.extensions.valid name hext)
      exact Or.inr ⟨hv, fun hd => hr (hd ▸ by decide)⟩

theorem exists_readsId {uuids : UuidFormat} {m : Attributes} {name : String}
    (h : ∀ text, m[name]? = some text → (uuids.parseStr text).isSome) :
    ∃ id, ReadsId uuids m name id := by
  cases hm : m[name]? with
  | none => exact ⟨none, Or.inl ⟨hm, rfl⟩⟩
  | some text =>
    obtain ⟨uuid, hu⟩ := Option.isSome_iff_exists.mp (h text hm)
    exact ⟨some ⟨uuid⟩, Or.inr ⟨text, hm, ⟨uuid⟩, MessageId.parse_eq_ok.mpr hu, rfl⟩⟩

theorem Acceptable.reads {uuids : UuidFormat} {m : Attributes} (h : Acceptable uuids m)
    (data : List UInt8) : ∃ envelope, Reads uuids m data envelope := by
  obtain ⟨id, hid, hid'⟩ := h.id
  obtain ⟨uuid, hu⟩ := Option.isSome_iff_exists.mp hid'
  obtain ⟨source, source', hsource⟩ := h.source
  obtain ⟨messageType, messageType', htype⟩ := h.messageType
  obtain ⟨time, time', htime⟩ := h.time
  obtain ⟨contentType, contentType', hcontent⟩ := h.contentType
  obtain ⟨correlationId, hcorrelation⟩ := exists_readsId (h.correlation "correlationid" (by decide))
  obtain ⟨causationId, hcausation⟩ := exists_readsId (h.correlation "causationid" (by decide))
  have hrest := getElem?_eraseAll m fieldNames
  have hvalid : ∀ name ∈ fieldNames.foldl (fun m name => m.erase name) m,
      checkExtensionName name = none := by
    intro name hm
    rw [Std.ExtTreeMap.mem_iff_isSome_getElem?, hrest] at hm
    by_cases hf : name ∈ fieldNames
    · rw [if_pos hf] at hm
      cases hm
    · rw [if_neg hf] at hm
      have hothers := h.others name (Std.ExtTreeMap.mem_iff_isSome_getElem?.mpr hm)
        fun hc => hf (checkedNames_subset hc)
      rcases hothers with ho | ⟨he, hd⟩
      · exact (hf (optionalNames_subset ho)).elim
      · exact checkExtensionName_eq_none.mpr ⟨he, not_reserved hf hd⟩
  exact ⟨{ id := ⟨uuid⟩, messageType := messageType', source := source', time := time',
           subject := m["subject"]?, contentType := contentType', dataSchema := m["dataschema"]?,
           partitionKey := m["partitionkey"]?, correlation := ⟨correlationId, causationId⟩,
           trace := m["traceparent"]?.map fun traceparent => ⟨traceparent, m["tracestate"]?⟩,
           extensions := ⟨_, hvalid⟩, data },
    h.specversion, ⟨id, hid, MessageId.parse_eq_ok.mpr hu⟩, ⟨source, hsource⟩, ⟨messageType, htype⟩,
    ⟨time, htime⟩, ⟨contentType, hcontent⟩, rfl, rfl, rfl, hcorrelation, hcausation, rfl, hrest, rfl⟩

/-- The reader accepts exactly the acceptable maps. Reading and writing a map puts its attributes
    in normal form, and reading and writing it again changes nothing more. -/
theorem fromAttributes_iff (uuids : UuidFormat) (m : Attributes) (data : List UInt8) :
    ((∃ envelope, fromAttributes uuids m data = .ok envelope) ↔ Acceptable uuids m) ∧
      ∀ envelope, fromAttributes uuids m data = .ok envelope →
        envelope.data = data ∧
        (∀ name : String, (envelope.toAttributes uuids)[name]? =
          m[name]?.bind (normalAttribute uuids m name)) ∧
        ∃ again, fromAttributes uuids (envelope.toAttributes uuids) envelope.data = .ok again ∧
          again.toAttributes uuids = envelope.toAttributes uuids := by
  refine ⟨⟨?_, ?_⟩, ?_⟩
  · rintro ⟨envelope, h⟩
    exact (fromAttributes_eq_ok.mp h).acceptable
  · intro h
    obtain ⟨envelope, hr⟩ := h.reads data
    exact ⟨envelope, fromAttributes_eq_ok.mpr hr⟩
  · intro envelope h
    have hr := fromAttributes_eq_ok.mp h
    exact ⟨hr.data, hr.toAttributes_eq, envelope,
      fromAttributes_eq_ok.mpr (reads_toAttributes uuids envelope), rfl⟩

end Envelope

end SisaMessaging.Core
