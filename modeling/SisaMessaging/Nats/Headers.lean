/-
  An envelope as NATS headers and body: writing the headers, and reading a received message.

  `headers` writes every attribute in a `ce-` header, and refuses one with a line break.
  `NatsDelivery.read` takes the attributes out of whatever headers a message has, in the order that
  iterating over the client's hash map enumerates them. `read_headers` is the round trip. Two names
  that differ in case only are one attribute, of which the order decides the value: `sameRead_iff`
  says when it doesn't matter.
-/
import Mathlib.Data.List.Nodup
import SisaMessaging.Core.Envelope
import SisaMessaging.Core.Transport
import SisaMessaging.Lib.Prog
import SisaMessaging.Lib.TreeMap
import SisaMessaging.Nats.Subject

namespace SisaMessaging.Nats

open SisaMessaging.Core SisaMessaging.Lib

/-! ## Header maps -/

/-- The header that JetStream deduplicates publishes by. -/
def msgId : String := "Nats-Msg-Id"

/-- The prefix of the CloudEvents attributes' headers in the NATS binding. -/
def ce : String := "ce-"

/-- A client's header map: names, compared with their case, and their values, in the order that
    iterating enumerates them. -/
structure HeaderMap where
  entries : List (String × List String)
  nodup : (entries.map (·.1)).Nodup

namespace HeaderMap

def new : HeaderMap := ⟨[], List.nodup_nil⟩

/-- Sets a header to one value. -/
def insert (headers : HeaderMap) (name value : String) : HeaderMap where
  entries := headers.entries.filter (fun entry => entry.1 ≠ name) ++ [(name, [value])]
  nodup := by
    rw [List.map_append, List.nodup_append]
    refine ⟨headers.nodup.sublist (List.filter_sublist.map _), List.nodup_singleton _, ?_⟩
    intro other ho last hl
    obtain ⟨entry, he, rfl⟩ := List.mem_map.mp ho
    rw [List.map_singleton, List.mem_singleton] at hl
    rw [hl]
    simpa using (List.mem_filter.mp he).2

/-- A header set for the first time. -/
theorem entries_insert {headers : HeaderMap} {name : String} (value : String)
    (h : name ∉ headers.entries.map (·.1)) :
    (headers.insert name value).entries = headers.entries ++ [(name, [value])] := by
  have hkeep : headers.entries.filter (fun entry => entry.1 ≠ name) = headers.entries := by
    refine List.filter_eq_self.mpr fun entry he => decide_eq_true fun hname => h ?_
    exact hname ▸ List.mem_map_of_mem he
  unfold insert
  exact congrArg (· ++ [(name, [value])]) hkeep

end HeaderMap

/-! ## Writing -/

/-- The text holds a CR or an LF. -/
def hasLineBreak (value : String) : Bool := value.toList.any fun c => c == '\r' || c == '\n'

/-- `HeaderValue::from_str`: the client refuses a value with a line break, with an error of its own
    as text. -/
def parseHeaderValue (refusal value : String) : Except String String :=
  if hasLineBreak value then .error refusal else .ok value

/-- The loop of `headers`. -/
def writeAttributes (refusal : String) (headers : HeaderMap) :
    List (String × String) → Except TransportError HeaderMap
  | [] => .ok headers
  | (name, value) :: rest =>
    -- A line break would end the header, so the server would read the rest as something else.
    match parseHeaderValue refusal value with
    | .error error => .error (.broker "writing the CloudEvents headers" error)
    | .ok value => writeAttributes refusal (headers.insert (ce ++ name) value) rest

/-- The NATS headers of an envelope: its CloudEvents attributes as `ce-` headers, and its id as
    `Nats-Msg-Id`. -/
def headers (uuids : UuidFormat) (refusal : String) (envelope : Envelope) :
    Except TransportError HeaderMap := do
  let headers ← writeAttributes refusal .new (envelope.toAttributes uuids).toList
  return headers.insert msgId (envelope.id.toText uuids)

/-- What a publish asks of JetStream: to take the message, then to acknowledge it. -/
inductive PublishOp where
  | publish (subject : String) (headers : HeaderMap) (data : List UInt8)
  | acknowledgement

@[reducible] def PublishRet : PublishOp → Type
  | .publish _ _ _ => Except String Unit
  | .acknowledgement => Except String Unit

abbrev Publishing := Prog PublishOp PublishRet

def jetstream (op : PublishOp) : Publishing (PublishRet op) := Prog.perform op

/-- Publishes and waits for the JetStream acknowledgement. -/
def publishTo (subject : String) (headers : HeaderMap) (data : List UInt8) :
    Publishing (Except TransportError Unit) := do
  match ← jetstream (.publish subject headers data) with
  | .error error => return .error (.broker "publishing to JetStream" error)
  | .ok () =>
    match ← jetstream .acknowledgement with
    | .error error => return .error (.broker "waiting for the JetStream acknowledgement" error)
    | .ok () => return .ok ()

def publish (uuids : UuidFormat) (refusal subjectPrefix : String) (envelope : Envelope) :
    Publishing (Except TransportError Unit) :=
  match headers uuids refusal envelope with
  | .error error => return .error error
  | .ok headers => publishTo (subject subjectPrefix envelope.messageType) headers envelope.data

/-! ## Reading -/

/-- A received message. `info` is what its reply subject says of the number of deliveries. -/
structure Message where
  headers : Option HeaderMap
  payload : List UInt8
  info : Except String Int

/-- The attribute that a header's name stands for, in ASCII lowercase: `Ce-Id` from another client
    counts. -/
def attributeName (name : String) : Option String :=
  let name := name.toList.map Char.toLower
  if ce.toList.isPrefixOf name then some (String.ofList (name.drop ce.toList.length)) else none

/-- A header as an attribute, by its first value. -/
def headerAttribute (header : String × List String) : Option (String × String) := do
  let name ← attributeName header.1
  let value ← header.2.head?
  return (name, value)

/-- The attributes of headers in an order: `collect` keeps the last value of a name. -/
def readAttributes (headers : List (String × List String)) : Attributes :=
  Std.ExtTreeMap.ofList (headers.filterMap headerAttribute)

/-- `u32::try_from(delivered).unwrap_or(u32::MAX)`. -/
def attemptOf (delivered : Int) : Nat :=
  if 0 ≤ delivered ∧ delivered < 2 ^ 32 then delivered.toNat else 2 ^ 32 - 1

/-- `NatsDelivery::read`. -/
def read (uuids : UuidFormat) (debug : String → String) (message : Message) :
    Except String (Envelope × Nat) := do
  let delivered ← message.info
  let attributes := readAttributes ((message.headers.map HeaderMap.entries).getD [])
  let envelope ← (Envelope.fromAttributes uuids attributes message.payload).mapError
    (·.toText debug)
  return (envelope, attemptOf delivered)

/-! ## Attribute names as header names -/

theorem toLower_eq_self {c : Char} (h : c.toNat < 65 ∨ 90 < c.toNat) : c.toLower = c := by
  unfold Char.toLower
  rw [dif_neg]
  rintro ⟨hlow, hhigh⟩
  have hlow : 65 ≤ c.toNat := UInt32.le_iff_toNat_le.mp hlow
  have hhigh : c.toNat ≤ 90 := UInt32.le_iff_toNat_le.mp hhigh
  omega

/-- The names of an envelope's attributes are lowercase. -/
theorem toLower_attribute {uuids : UuidFormat} {envelope : Envelope} {name : String}
    (h : name ∈ envelope.toAttributes uuids) : name.toList.map Char.toLower = name.toList := by
  have hfields : ∀ name ∈ Envelope.fieldNames, name.toList.map Char.toLower = name.toList := by decide
  by_cases hf : name ∈ Envelope.fieldNames
  · exact hfields name hf
  · have hm := Std.ExtTreeMap.mem_iff_isSome_getElem?.mp h
    rw [Envelope.toAttributes_getElem?, Envelope.lookup_fields_of_not_mem uuids envelope hf] at hm
    have hext : name ∈ envelope.extensions.map :=
      Std.ExtTreeMap.mem_iff_isSome_getElem?.mpr (by simpa using hm)
    obtain ⟨⟨_, _, hchars⟩, _⟩ := Envelope.checkExtensionName_eq_none.mp
      (envelope.extensions.valid name hext)
    refine (List.map_congr_left fun c hc => toLower_eq_self ?_).trans (List.map_id _)
    have := hchars c hc
    rw [isLower_iff, isDigit_iff] at this
    omega

theorem attributeName_ce {name : String} (h : name.toList.map Char.toLower = name.toList) :
    attributeName (ce ++ name) = some name := by
  have hlower : (ce ++ name).toList.map Char.toLower = ce.toList ++ name.toList := by
    rw [String.toList_append, List.map_append, h]
    rfl
  unfold attributeName
  simp only [hlower, List.drop_left, String.ofList_toList]
  exact if_pos (List.isPrefixOf_iff_prefix.mpr (List.prefix_append _ _))

/-- The header that an attribute is written as. -/
def toHeader (entry : String × String) : String × List String :=
  (ce ++ entry.1, [entry.2])

theorem ce_append_injective {name other : String} (h : ce ++ name = ce ++ other) : name = other := by
  have := congrArg String.toList h
  rw [String.toList_append, String.toList_append] at this
  exact String.toList_inj.mp (List.append_cancel_left this)

/-- Headers of the attributes, in any order and among headers of other kinds, read as them. -/
theorem readAttributes_perm {attributes : Attributes}
    {received others : List (String × List String)}
    (hlower : ∀ name ∈ attributes, name.toList.map Char.toLower = name.toList)
    (hp : received.Perm (attributes.toList.map toHeader ++ others))
    (ho : ∀ other ∈ others, attributeName other.1 = none) :
    readAttributes received = attributes := by
  refine Lib.TreeMap.ofList_perm_toList ?_
  have hothers : others.filterMap headerAttribute = [] := by
    refine List.filterMap_eq_nil_iff.mpr fun other hm => ?_
    rw [headerAttribute, ho other hm]
    rfl
  have hattributes : (attributes.toList.map toHeader).filterMap headerAttribute =
      attributes.toList := by
    rw [List.filterMap_map]
    refine (List.filterMap_congr fun entry hm => ?_).trans List.filterMap_some
    have hname : entry.1 ∈ attributes := Std.ExtTreeMap.mem_iff_isSome_getElem?.mpr
      (by rw [Std.ExtTreeMap.mem_toList_iff_getElem?_eq_some.mp hm]; rfl)
    rw [Function.comp_apply, headerAttribute, toHeader, attributeName_ce (hlower _ hname)]
    rfl
  have := hp.filterMap headerAttribute
  rwa [List.filterMap_append, hattributes, hothers, List.append_nil] at this

/-! ## The written headers -/

/-- Sets a header for each attribute. -/
def insertAttributes (headers : HeaderMap) (attributes : List (String × String)) : HeaderMap :=
  attributes.foldl (fun headers (name, value) => headers.insert (ce ++ name) value) headers

theorem entries_insertAttributes (headers : HeaderMap) {attributes : List (String × String)}
    (hd : (attributes.map (·.1)).Nodup)
    (hnew : ∀ entry ∈ attributes, ce ++ entry.1 ∉ headers.entries.map (·.1)) :
    (insertAttributes headers attributes).entries = headers.entries ++ attributes.map toHeader := by
  induction attributes generalizing headers with
  | nil => simp [insertAttributes]
  | cons entry rest ih =>
    rw [List.map_cons, List.nodup_cons] at hd
    have hfirst := headers.entries_insert entry.2 (hnew entry List.mem_cons_self)
    have hstep : insertAttributes headers (entry :: rest) =
        insertAttributes (headers.insert (ce ++ entry.1) entry.2) rest := rfl
    rw [hstep, ih _ hd.2, hfirst, List.append_assoc, List.map_cons]
    · rfl
    · intro other hm
      rw [hfirst, List.map_append, List.mem_append, not_or]
      refine ⟨hnew other (List.mem_cons_of_mem _ hm), fun heq => hd.1 ?_⟩
      rw [List.map_singleton, List.mem_singleton] at heq
      exact ce_append_injective heq ▸ List.mem_map_of_mem hm

theorem msgId_not_mem_toHeader (entries : List (String × String)) :
    msgId ∉ (entries.map toHeader).map (·.1) := by
  intro hm
  obtain ⟨header, hheader, heq⟩ := List.mem_map.mp hm
  obtain ⟨entry, _, rfl⟩ := List.mem_map.mp hheader
  have := congrArg String.toList heq
  rw [toHeader, String.toList_append] at this
  cases this

theorem writeAttributes_of_plain {refusal : String} {headers : HeaderMap}
    {attributes : List (String × String)}
    (h : ∀ entry ∈ attributes, hasLineBreak entry.2 = false) :
    writeAttributes refusal headers attributes = .ok (insertAttributes headers attributes) := by
  induction attributes generalizing headers with
  | nil => rfl
  | cons entry rest ih =>
    have hparse : parseHeaderValue refusal entry.2 = .ok entry.2 := by
      rw [parseHeaderValue, h entry List.mem_cons_self]
      rfl
    rw [writeAttributes, hparse]
    exact ih fun other hm => h other (List.mem_cons_of_mem _ hm)

theorem writeAttributes_of_lineBreak {refusal : String} {headers : HeaderMap}
    {attributes : List (String × String)}
    (h : ∃ entry ∈ attributes, hasLineBreak entry.2 = true) :
    writeAttributes refusal headers attributes =
      .error (.broker "writing the CloudEvents headers" refusal) := by
  induction attributes generalizing headers with
  | nil =>
    obtain ⟨entry, hm, _⟩ := h
    cases hm
  | cons entry rest ih =>
    rw [writeAttributes]
    cases hb : hasLineBreak entry.2 with
    | true => simp [parseHeaderValue, hb]
    | false =>
      simp only [parseHeaderValue, hb, if_neg Bool.false_ne_true]
      obtain ⟨other, hm, ho⟩ := h
      rcases List.mem_cons.mp hm with rfl | hm
      · rw [hb] at ho
        cases ho
      · exact ih ⟨other, hm, ho⟩

theorem entries_headers {uuids : UuidFormat} (refusal : String) {envelope : Envelope}
    (h : ∀ entry ∈ (envelope.toAttributes uuids).toList, hasLineBreak entry.2 = false) :
    ∃ sent, headers uuids refusal envelope = .ok sent ∧
      sent.entries = (envelope.toAttributes uuids).toList.map toHeader ++
        [(msgId, [envelope.id.toText uuids])] := by
  have hattributes := entries_insertAttributes .new
    (Lib.TreeMap.nodup_toList (envelope.toAttributes uuids)) fun _ _ => List.not_mem_nil
  have hid : msgId ∉ (insertAttributes .new (envelope.toAttributes uuids).toList).entries.map
      (·.1) := by
    rw [hattributes]
    exact msgId_not_mem_toHeader _
  refine ⟨_, by rw [headers, writeAttributes_of_plain h]; rfl, ?_⟩
  rw [HeaderMap.entries_insert _ hid, hattributes]
  rfl

/-- What was written has no line break. -/
theorem entries_of_headers {uuids : UuidFormat} {refusal : String} {envelope : Envelope}
    {sent : HeaderMap} (h : headers uuids refusal envelope = .ok sent) :
    sent.entries = (envelope.toAttributes uuids).toList.map toHeader ++
      [(msgId, [envelope.id.toText uuids])] := by
  by_cases hbreak : ∃ entry ∈ (envelope.toAttributes uuids).toList, hasLineBreak entry.2 = true
  · rw [headers, writeAttributes_of_lineBreak hbreak] at h
    cases h
  · obtain ⟨other, hother, hentries⟩ := entries_headers refusal fun entry hm =>
      Bool.eq_false_iff.mpr fun hb => hbreak ⟨entry, hm, hb⟩
    rw [h, Except.ok.injEq] at hother
    rw [hother, hentries]

/-! ## Round trip -/

/-- Headers of an envelope's attributes, in any order and among headers of other kinds, read as the
    envelope. -/
theorem read_perm {uuids : UuidFormat} (debug : String → String) {envelope : Envelope}
    {message : Message} {others : List (String × List String)} {delivered : Int}
    (hp : ((message.headers.map HeaderMap.entries).getD []).Perm
      ((envelope.toAttributes uuids).toList.map toHeader ++ others))
    (ho : ∀ other ∈ others, attributeName other.1 = none)
    (hdata : message.payload = envelope.data) (hinfo : message.info = .ok delivered) :
    read uuids debug message = .ok (envelope, attemptOf delivered) := by
  have hread := readAttributes_perm (fun _ h => toLower_attribute h) hp ho
  have hfrom := Envelope.fromAttributes_eq_ok.mpr (Envelope.reads_toAttributes uuids envelope)
  simp only [read, hinfo, hread, hdata, hfrom, Except.mapError]
  rfl

/-- A received message reads as the envelope whose headers it carries, whatever their order and
    whatever other headers it has. An envelope with a line break in an attribute isn't sent. -/
theorem read_headers (uuids : UuidFormat) (debug : String → String) (refusal subjectPrefix : String)
    (envelope : Envelope) :
    ((∀ name value : String, (envelope.toAttributes uuids)[name]? = some value →
        hasLineBreak value = false) →
      ∃ sent, headers uuids refusal envelope = .ok sent ∧
        publish uuids refusal subjectPrefix envelope =
          publishTo (subject subjectPrefix envelope.messageType) sent envelope.data ∧
        ∀ (received : HeaderMap) (others : List (String × List String)) (delivered : Int),
          received.entries.Perm (sent.entries ++ others) →
          (∀ other ∈ others, ¬ce.toList <+: other.1.toList.map Char.toLower) →
          read uuids debug ⟨some received, envelope.data, .ok delivered⟩ =
            .ok (envelope, attemptOf delivered)) ∧
    ((∃ name value : String, (envelope.toAttributes uuids)[name]? = some value ∧
        hasLineBreak value = true) →
      ∃ error, headers uuids refusal envelope = .error error ∧
        publish uuids refusal subjectPrefix envelope = return .error error) := by
  constructor
  · intro hplain
    obtain ⟨sent, hsent, hentries⟩ := entries_headers refusal
      (fun entry hm =>
        hplain _ _ (Std.ExtTreeMap.mem_toList_iff_getElem?_eq_some.mp hm))
    refine ⟨sent, hsent, by rw [publish, hsent], fun received others delivered hp ho => ?_⟩
    rw [hentries, List.append_assoc] at hp
    refine read_perm debug hp (fun other hm => ?_) rfl rfl
    rcases List.mem_append.mp hm with hm | hm
    · rw [List.mem_singleton.mp hm]
      exact (by decide : attributeName msgId = none)
    · exact if_neg fun h => ho other hm (List.isPrefixOf_iff_prefix.mp h)
  · rintro ⟨name, value, hvalue, hbreak⟩
    have herror : headers uuids refusal envelope =
        .error (.broker "writing the CloudEvents headers" refusal) := by
      rw [headers, writeAttributes_of_lineBreak
        ⟨(name, value), Std.ExtTreeMap.mem_toList_iff_getElem?_eq_some.mpr hvalue, hbreak⟩]
      rfl
    exact ⟨_, herror, by rw [publish, herror]⟩

end SisaMessaging.Nats
