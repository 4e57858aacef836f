/-
  The copy of a message that an endpoint gave up, on the error subject.

  Line breaks in its attributes become spaces, so `publishError` refuses no envelope.
  `read_errorCopy`: the copy reads back as the message with the error's four extensions.
-/
import SisaMessaging.Nats.Headers
import SisaMessaging.Runtime.Endpoint

namespace SisaMessaging.Nats

open SisaMessaging.Core SisaMessaging.Runtime SisaMessaging.Lib

/-! ## Writing the copy -/

/-- The text with a space for each CR and LF. -/
def oneLine (value : String) : String :=
  String.ofList (value.toList.map fun c => if c == '\r' || c == '\n' then ' ' else c)

/-- The headers of `publish_error`. -/
def errorHeaders (uuids : UuidFormat) (envelope : Envelope) : HeaderMap :=
  (envelope.toAttributes uuids).toList.foldl
    (fun headers (name, value) => headers.insert (ce ++ name) (oneLine value)) .new

def publishError (uuids : UuidFormat) (subjectPrefix endpoint : String) (envelope : Envelope) :
    Publishing (Except TransportError Unit) :=
  publishTo (errorSubject subjectPrefix endpoint) (errorHeaders uuids envelope) envelope.data

/-! ## Texts on one line -/

/-- No line break is left. -/
theorem hasLineBreak_oneLine (value : String) : hasLineBreak (oneLine value) = false := by
  unfold hasLineBreak oneLine
  rw [String.toList_ofList, List.any_map, List.any_eq_false]
  intro c _
  rw [Function.comp_apply]
  cases h : c == '\r' || c == '\n' with
  | true => simp
  | false => simpa using h

/-- Every character but a line break stays where it is. -/
theorem toList_oneLine (value : String) : List.Forall₂ (fun c d =>
    if c = '\r' ∨ c = '\n' then d = ' ' else d = c) value.toList (oneLine value).toList := by
  unfold oneLine
  rw [String.toList_ofList, List.forall₂_map_right_iff, List.forall₂_same]
  intro c _
  by_cases h : c = '\r' ∨ c = '\n' <;> simp [h]

theorem oneLine_eq_self {value : String} (h : hasLineBreak value = false) : oneLine value = value := by
  unfold oneLine
  rw [List.map_congr_left (g := id), List.map_id, String.ofList_toList]
  intro c hc
  have := List.any_eq_false.mp h c hc
  simp [this]

theorem hasLineBreak_append (value other : String) :
    hasLineBreak (value ++ other) = (hasLineBreak value || hasLineBreak other) := by
  unfold hasLineBreak
  rw [String.toList_append, List.any_append]

theorem hasLineBreak_ofList_digits {digits : List Char} (h : ∀ c ∈ digits, c.isDigit) :
    hasLineBreak (String.ofList digits) = false := by
  unfold hasLineBreak
  rw [String.toList_ofList, List.any_eq_false]
  intro c hc hbreak
  have hdigit := h c hc
  rw [Bool.or_eq_true, beq_iff_eq, beq_iff_eq] at hbreak
  rcases hbreak with rfl | rfl
  · cases hdigit
  · cases hdigit

theorem hasLineBreak_padded (width n : Nat) : hasLineBreak (padded width n) = false :=
  hasLineBreak_ofList_digits (isDigit_paddedChars width n)

theorem hasLineBreak_toText (time : Timestamp) : hasLineBreak time.toText = false := by
  have hfraction : hasLineBreak (String.ofList (Timestamp.trimZeros (paddedChars 9 time.nanos))) =
      false := by
    refine hasLineBreak_ofList_digits fun c hc => isDigit_paddedChars 9 time.nanos c ?_
    exact (List.rdropWhile_prefix _ _).subset hc
  have hlit : hasLineBreak "-" = false ∧ hasLineBreak "T" = false ∧ hasLineBreak ":" = false ∧
      hasLineBreak "." = false ∧ hasLineBreak "" = false ∧ hasLineBreak "Z" = false := by decide
  simp only [Timestamp.toText, hasLineBreak_append, hasLineBreak_padded, hlit, Bool.or_false]
  split
  · rw [hasLineBreak_append, hfraction, hlit.2.2.2.1]
    rfl
  · exact hlit.2.2.2.2.1

theorem hasLineBreak_of_not_control {value : String} (h : value.toList.any isControl = false) :
    hasLineBreak value = false := by
  refine List.any_eq_false.mpr fun c hc hbreak => ?_
  rw [Bool.or_eq_true, beq_iff_eq, beq_iff_eq] at hbreak
  have := List.any_eq_false.mp h c hc
  rcases hbreak with rfl | rfl
  · exact this rfl
  · exact this rfl

theorem hasLineBreak_source (source : Source) : hasLineBreak source.value = false := by
  refine hasLineBreak_of_not_control (List.any_eq_false.mpr fun c hc hcontrol => ?_)
  have := List.any_eq_false.mp source.valid.2 c hc
  rw [hcontrol] at this
  exact this rfl

theorem hasLineBreak_messageType (messageType : MessageType) :
    hasLineBreak messageType.value = false := by
  have hallowed := (checkMessageType_eq_ok.mp messageType.valid).allowed
  refine List.any_eq_false.mpr fun c hc hbreak => ?_
  rw [Bool.or_eq_true, beq_iff_eq, beq_iff_eq] at hbreak
  have := forall_splitOn_iff.mp hallowed c hc
  rcases hbreak with rfl | rfl
  · exact absurd (isLevelChar_iff.mp (this (by decide))) (by decide)
  · exact absurd (isLevelChar_iff.mp (this (by decide))) (by decide)

/-- The hyphenated form of an id holds no line break, as the `uuid` crate documents it. -/
def PlainIds (uuids : UuidFormat) : Prop := ∀ uuid, hasLineBreak (uuids.hyphenated uuid) = false

theorem not_lineBreak_hexDigits (width n : Nat) : ∀ c ∈ hexDigits width n, c ≠ '\r' ∧ c ≠ '\n' := by
  have hdigit : ∀ d < 16, Nat.digitChar d ≠ '\r' ∧ Nat.digitChar d ≠ '\n' := by decide
  induction width generalizing n with
  | zero => exact fun c hc => absurd hc List.not_mem_nil
  | succ width ih =>
    intro c hc
    rw [hexDigits, List.mem_append, List.mem_singleton] at hc
    rcases hc with hc | rfl
    · exact ih _ c hc
    · exact hdigit _ (Nat.mod_lt _ (by decide))

theorem mem_intercalate {c sep : Char} {groups : List (List Char)}
    (h : c ∈ [sep].intercalate groups) : c = sep ∨ ∃ group ∈ groups, c ∈ group := by
  obtain ⟨part, hpart, hc⟩ := List.mem_flatten.mp h
  induction groups with
  | nil => cases hpart
  | cons first rest ih =>
    cases rest with
    | nil => exact Or.inr ⟨part, hpart, hc⟩
    | cons second rest =>
      rw [List.intersperse_cons_cons, List.mem_cons, List.mem_cons] at hpart
      rcases hpart with rfl | rfl | hpart
      · exact Or.inr ⟨part, List.mem_cons_self, hc⟩
      · exact Or.inl (List.mem_singleton.mp hc)
      · refine (ih ?_ hpart).imp id fun ⟨group, hm, hg⟩ => ⟨group, List.mem_cons_of_mem _ hm, hg⟩
        exact List.mem_flatten.mpr ⟨part, hpart, hc⟩

theorem plainIds_rfc9562 : PlainIds .rfc9562 := by
  intro uuid
  refine List.any_eq_false.mpr fun c hc hbreak => ?_
  rw [Bool.or_eq_true, beq_iff_eq, beq_iff_eq] at hbreak
  have hwritten : (UuidFormat.rfc9562.hyphenated uuid).toList =
      ['-'].intercalate (uuidGroups uuid.toNat) := String.toList_ofList
  rw [hwritten] at hc
  rcases mem_intercalate hc with rfl | ⟨group, hgroup, hc⟩
  · exact absurd hbreak (by decide)
  · have hhex : ∃ width n, group = hexDigits width n := by
      simp only [uuidGroups, List.mem_cons, List.not_mem_nil, or_false] at hgroup
      rcases hgroup with rfl | rfl | rfl | rfl | rfl
      all_goals exact ⟨_, _, rfl⟩
    obtain ⟨width, n, rfl⟩ := hhex
    obtain ⟨hreturn, hfeed⟩ := not_lineBreak_hexDigits width n c hc
    exact hbreak.elim hreturn hfeed

theorem hasLineBreak_toString (n : Nat) : hasLineBreak (toString n) = false := by
  refine hasLineBreak_ofList_digits fun c hc => ?_
  exact Nat.isDigit_of_mem_toDigits (by decide) (by decide) hc

/-! ## The copy as attributes -/

/-- The envelope with its free texts on one line. -/
def oneLined (envelope : Envelope) : Envelope :=
  { envelope with
    subject := envelope.subject.map oneLine
    dataSchema := envelope.dataSchema.map oneLine
    partitionKey := envelope.partitionKey.map oneLine
    trace := envelope.trace.map fun trace =>
      ⟨oneLine trace.traceparent, trace.tracestate.map oneLine⟩
    extensions :=
      { map := envelope.extensions.map.map fun _ value => oneLine value
        valid := fun name h => envelope.extensions.valid name (Std.ExtTreeMap.mem_of_mem_map h) } }

theorem fields_oneLined {uuids : UuidFormat} (hplain : PlainIds uuids) (envelope : Envelope) :
    (oneLined envelope).fields uuids =
      (envelope.fields uuids).map fun field => (field.1, field.2.map oneLine) := by
  have hversion : oneLine "1.0" = "1.0" := oneLine_eq_self (by decide)
  have hid : ∀ id : MessageId, oneLine (id.toText uuids) = id.toText uuids :=
    fun id => oneLine_eq_self (hplain id.uuid)
  have hids : ∀ id : Option MessageId,
      (id.map (·.toText uuids)).map oneLine = id.map (·.toText uuids) := by
    intro id
    cases id with
    | none => rfl
    | some id => exact congrArg some (hid id)
  have hcontent : oneLine envelope.contentType.value = envelope.contentType.value :=
    oneLine_eq_self (hasLineBreak_of_not_control envelope.contentType.valid.2)
  simp only [Envelope.fields, List.map_cons, List.map_nil, Option.map_some, hversion, hid, hids,
    hcontent, oneLine_eq_self (hasLineBreak_source _), oneLine_eq_self (hasLineBreak_messageType _),
    oneLine_eq_self (hasLineBreak_toText _), oneLined, Option.map_map]
  cases envelope.trace <;> rfl

theorem toAttributes_oneLined {uuids : UuidFormat} (hplain : PlainIds uuids) (envelope : Envelope) :
    (oneLined envelope).toAttributes uuids =
      (envelope.toAttributes uuids).map fun _ value => oneLine value := by
  have hlookup : ∀ (fields : List (String × Option String)) (name : String),
      ((fields.map fun field => (field.1, field.2.map oneLine)).lookup name).join =
        ((fields.lookup name).join).map oneLine := by
    intro fields name
    induction fields with
    | nil => rfl
    | cons field fields ih =>
      rw [List.map_cons, List.lookup_cons, List.lookup_cons]
      split
      · rfl
      · exact ih
  refine Std.ExtTreeMap.ext_getElem? fun name => ?_
  rw [Std.ExtTreeMap.getElem?_map, Envelope.toAttributes_getElem?, Envelope.toAttributes_getElem?,
    fields_oneLined hplain, hlookup]
  simp only [oneLined, Std.ExtTreeMap.getElem?_map]
  cases envelope.extensions.map[name]? <;> rfl

theorem entries_errorHeaders (uuids : UuidFormat) (envelope : Envelope) :
    (errorHeaders uuids envelope).entries =
      ((envelope.toAttributes uuids).map fun _ value => oneLine value).toList.map toHeader := by
  have hfold : errorHeaders uuids envelope = insertAttributes .new
      ((envelope.toAttributes uuids).map fun _ value => oneLine value).toList := by
    rw [errorHeaders, insertAttributes, Std.ExtTreeMap.toList_map, List.foldl_map]
  rw [hfold, entries_insertAttributes _ (Lib.TreeMap.nodup_toList _) fun _ _ => List.not_mem_nil]
  rfl

/-- No value of the copy's headers is refused, so `insert` never panics. -/
theorem parseHeaderValue_errorHeaders {uuids : UuidFormat} {envelope : Envelope}
    {header : String × List String} (h : header ∈ (errorHeaders uuids envelope).entries)
    {value : String} (hv : value ∈ header.2) (refusal : String) :
    parseHeaderValue refusal value = .ok value := by
  rw [entries_errorHeaders, Std.ExtTreeMap.toList_map, List.map_map] at h
  obtain ⟨entry, _, rfl⟩ := List.mem_map.mp h
  obtain rfl := List.mem_singleton.mp hv
  rw [parseHeaderValue, hasLineBreak_oneLine, if_neg Bool.false_ne_true]

/-- What `publishError` writes reads back as the envelope with its texts on one line. -/
theorem read_errorHeaders {uuids : UuidFormat} (hplain : PlainIds uuids) (debug : String → String)
    (envelope : Envelope) {received : HeaderMap} {others : List (String × List String)}
    {delivered : Int} (hp : received.entries.Perm ((errorHeaders uuids envelope).entries ++ others))
    (ho : ∀ other ∈ others, ¬ce.toList <+: other.1.toList.map Char.toLower) :
    read uuids debug ⟨some received, envelope.data, .ok delivered⟩ =
      .ok (oneLined envelope, attemptOf delivered) := by
  rw [entries_errorHeaders, ← toAttributes_oneLined hplain] at hp
  have hread : readAttributes received.entries = (oneLined envelope).toAttributes uuids := by
    refine readAttributes_perm (fun _ h => toLower_attribute h) hp fun other hm => ?_
    exact if_neg fun h => ho other hm (List.isPrefixOf_iff_prefix.mp h)
  have hfrom := Envelope.fromAttributes_eq_ok.mpr
    (Envelope.reads_toAttributes uuids (oneLined envelope))
  simp only [read, Option.map_some, Option.getD_some, hread]
  rw [show envelope.data = (oneLined envelope).data from rfl, hfrom]
  rfl

/-! ## The copy reads back -/

/-- The extensions that the copy gains. -/
def errorExtensions (endpoint : String) (error : HandlerError) (attempt : Nat) :
    List (String × String) :=
  [("errorendpoint", endpoint), ("errortype", error.errorType), ("errormessage", error.message),
    ("errorattempts", toString attempt)]

/-- No name of these is refused, so `expect` never panics. -/
theorem insertAll_errorExtensions (envelope : Envelope) (endpoint : String) (error : HandlerError)
    (attempt : Nat) :
    envelope.extensions.insertAll (errorExtensions endpoint error attempt) =
      .ok (errorEnvelope envelope endpoint error attempt).extensions := by
  refine Extensions.insertAll_eq_ok_iff.mpr ⟨?_, rfl⟩
  intro entry hm
  have hnames : ∀ name ∈ ["errorendpoint", "errortype", "errormessage", "errorattempts"],
      checkExtensionName name = none := by decide
  exact hnames entry.1 (List.mem_map_of_mem (f := (·.1)) hm)

theorem getElem?_errorEnvelope (envelope : Envelope) (endpoint : String) (error : HandlerError)
    (attempt : Nat) (name : String) :
    (errorEnvelope envelope endpoint error attempt).extensions.map[name]? =
      ((errorExtensions endpoint error attempt).lookup name).or envelope.extensions.map[name]? := by
  have hset : (errorEnvelope envelope endpoint error attempt).extensions.map =
      Lib.TreeMap.setAll envelope.extensions.map
        ((errorExtensions endpoint error attempt).map fun entry => (entry.1, some entry.2)) := rfl
  rw [hset, Lib.TreeMap.getElem?_setAll _ (by simp [errorExtensions])]
  refine congrArg (Option.or · _) ?_
  simp only [errorExtensions, List.map_cons, List.map_nil, List.lookup_cons, List.lookup_nil]
  repeat' split
  all_goals rfl

/-- The copy that an endpoint sends of a message it gave up always reads back: as the same message,
    with spaces for line breaks in the other attributes, the error's extensions and no other new
    one. It has no `Nats-Msg-Id`, and making it never panics. -/
theorem read_errorCopy (uuids : UuidFormat) (hplain : PlainIds uuids) (debug : String → String)
    (subjectPrefix : String) (envelope : Envelope) (endpoint : String) (error : HandlerError)
    (attempt : Nat) :
    envelope.extensions.insertAll (errorExtensions endpoint error attempt) =
      .ok (errorEnvelope envelope endpoint error attempt).extensions ∧
    publishError uuids subjectPrefix endpoint (errorEnvelope envelope endpoint error attempt) =
      publishTo (errorSubject subjectPrefix endpoint)
        (errorHeaders uuids (errorEnvelope envelope endpoint error attempt)) envelope.data ∧
    msgId ∉ (errorHeaders uuids (errorEnvelope envelope endpoint error attempt)).entries.map (·.1) ∧
    ∀ (received : HeaderMap) (others : List (String × List String)) (delivered : Int),
      received.entries.Perm
        ((errorHeaders uuids (errorEnvelope envelope endpoint error attempt)).entries ++ others) →
      (∀ other ∈ others, ¬ce.toList <+: other.1.toList.map Char.toLower) →
      ∃ copy, read uuids debug ⟨some received, envelope.data, .ok delivered⟩ =
          .ok (copy, attemptOf delivered) ∧
        copy.id = envelope.id ∧ copy.source = envelope.source ∧
        copy.messageType = envelope.messageType ∧ copy.time = envelope.time ∧
        copy.contentType = envelope.contentType ∧ copy.correlation = envelope.correlation ∧
        copy.data = envelope.data ∧ copy.subject = envelope.subject.map oneLine ∧
        copy.dataSchema = envelope.dataSchema.map oneLine ∧
        copy.partitionKey = envelope.partitionKey.map oneLine ∧
        copy.trace = envelope.trace.map (fun trace =>
          ⟨oneLine trace.traceparent, trace.tracestate.map oneLine⟩) ∧
        ∀ name : String, copy.extensions.map[name]? =
          (([("errorendpoint", oneLine endpoint), ("errortype", oneLine error.errorType),
            ("errormessage", oneLine error.message),
            ("errorattempts", toString attempt)] : List (String × String)).lookup name).or
            (envelope.extensions.map[name]?.map oneLine) := by
  refine ⟨insertAll_errorExtensions envelope endpoint error attempt, rfl, ?_, ?_⟩
  · rw [entries_errorHeaders]
    exact msgId_not_mem_toHeader _
  · intro received others delivered hp ho
    refine ⟨_, read_errorHeaders hplain debug (errorEnvelope envelope endpoint error attempt) hp ho,
      rfl, rfl, rfl, rfl, rfl, rfl, rfl, rfl, rfl, rfl, rfl, fun name => ?_⟩
    have hget : (oneLined (errorEnvelope envelope endpoint error attempt)).extensions.map[name]? =
        (errorEnvelope envelope endpoint error attempt).extensions.map[name]?.map oneLine :=
      Std.ExtTreeMap.getElem?_map
    rw [hget, getElem?_errorEnvelope]
    have hlookup : ((errorExtensions endpoint error attempt).lookup name).map oneLine =
        ([("errorendpoint", oneLine endpoint), ("errortype", oneLine error.errorType),
          ("errormessage", oneLine error.message),
          ("errorattempts", toString attempt)] : List (String × String)).lookup name := by
      simp only [errorExtensions, List.lookup_cons, List.lookup_nil]
      repeat' split
      all_goals first | rfl | exact congrArg some (oneLine_eq_self (hasLineBreak_toString attempt))
    rw [← hlookup]
    cases (errorExtensions endpoint error attempt).lookup name <;> rfl

/-- A copy that fails again: the second error replaces the first. -/
theorem read_errorCopy_again :
    let first := errorEnvelope orderShipped "billing" ⟨"panic", "no order"⟩ 5
    let again := errorEnvelope first "audit" ⟨"sql", "line one\r\nline two"⟩ 2
    ∃ copy, read .rfc9562 id ⟨some (errorHeaders .rfc9562 again), first.data, .ok 1⟩ = .ok (copy, 1) ∧
      copy.id = orderShipped.id ∧ copy.extensions.map["errorendpoint"]? = some "audit" ∧
      copy.extensions.map["errormessage"]? = some "line one  line two" := by
  intro first again
  have hcopy := read_errorCopy .rfc9562 plainIds_rfc9562 id "sisa" first "audit"
    ⟨"sql", "line one\r\nline two"⟩ 2
  obtain ⟨copy, hread, hid, _, _, _, _, _, _, _, _, _, _, hextensions⟩ :=
    hcopy.2.2.2 (errorHeaders .rfc9562 again) [] 1 (by rw [List.append_nil]) (by simp)
  exact ⟨copy, hread, hid, by rw [hextensions]; rfl, by rw [hextensions]; rfl⟩

end SisaMessaging.Nats
