/-
  Which headers read the same in every order.

  The client keeps a message's headers in a hash map, so `NatsDelivery.read` sees them in any order.
  Names that differ in case only stand for one attribute, and the last of their values counts.
  `sameRead_iff`: the order doesn't matter exactly when the values of each attribute read alike, or
  when no order makes an envelope. `not_sameRead_twoIds` is a message with two ids.
-/
import SisaMessaging.Nats.Headers

namespace SisaMessaging.Nats

open SisaMessaging.Core SisaMessaging.Core.Envelope SisaMessaging.Lib

/-! ## Acceptance by attribute -/

/-- The attributes an envelope can't do without. -/
def requiredNames : List String :=
  ["specversion", "id", "source", "type", "time", "datacontenttype"]

/-- The attribute can be part of an envelope. -/
def readable (uuids : UuidFormat) (name text : String) : Bool :=
  if name = "specversion" then text == "1.0"
  else if name = "id" ∨ name = "correlationid" ∨ name = "causationid" then
    (uuids.parseStr text).isSome
  else if name = "source" then (Source.new text).isOk
  else if name = "type" then (MessageType.new text).isOk
  else if name = "time" then (Timestamp.parse text).isOk
  else if name = "datacontenttype" then (ContentType.new text).isOk
  else optionalNames.contains name || (checkExtensionName name).isNone

theorem isOk_iff {ε α : Type} {result : Except ε α} : result.isOk = true ↔ ∃ a, result = .ok a := by
  cases result with
  | error => simp [Except.isOk, Except.toBool]
  | ok => simp [Except.isOk, Except.toBool]

theorem mem_iff_exists {m : Attributes} {name : String} :
    name ∈ m ↔ ∃ text, m[name]? = some text := by
  rw [Std.ExtTreeMap.mem_iff_isSome_getElem?, Option.isSome_iff_exists]

theorem readable_of_not_checked {uuids : UuidFormat} {name text : String}
    (h : name ∉ checkedNames) : readable uuids name text = true ↔
      name ∈ optionalNames ∨ (IsExtensionName name ∧ name ≠ "data") := by
  have hrest : readable uuids name text =
      (optionalNames.contains name || (checkExtensionName name).isNone) := by
    simp only [checkedNames, List.mem_cons, List.not_mem_nil, or_false, not_or] at h
    simp [readable, h]
  rw [hrest, Bool.or_eq_true, List.contains_iff_mem, Option.isNone_iff_eq_none,
    checkExtensionName_eq_none]
  by_cases ho : name ∈ optionalNames
  · simp [ho]
  · simp only [ho, false_or]
    refine and_congr_right fun _ => ⟨fun hr hd => hr (hd ▸ by decide), fun hd => ?_⟩
    exact not_reserved (fun hf => ho (optional_of_field hf h)) hd

/-- An acceptable map has every required attribute, and each of its attributes is readable. -/
theorem acceptable_iff {uuids : UuidFormat} {m : Attributes} : Acceptable uuids m ↔
    (∀ name ∈ requiredNames, name ∈ m) ∧
      ∀ name text : String, m[name]? = some text → readable uuids name text = true := by
  constructor
  · intro h
    obtain ⟨id, hid, hid'⟩ := h.id
    obtain ⟨source, source', hsource, hsource'⟩ := h.source
    obtain ⟨type, type', htype, htype'⟩ := h.messageType
    obtain ⟨time, time', htime, htime'⟩ := h.time
    obtain ⟨contentType, contentType', hcontent, hcontent'⟩ := h.contentType
    refine ⟨?_, fun name text ht => ?_⟩
    · intro name hname
      simp only [requiredNames, List.mem_cons, List.not_mem_nil, or_false] at hname
      rcases hname with rfl | rfl | rfl | rfl | rfl | rfl
      · exact mem_iff_exists.mpr ⟨_, h.specversion⟩
      · exact mem_iff_exists.mpr ⟨_, hid⟩
      · exact mem_iff_exists.mpr ⟨_, hsource⟩
      · exact mem_iff_exists.mpr ⟨_, htype⟩
      · exact mem_iff_exists.mpr ⟨_, htime⟩
      · exact mem_iff_exists.mpr ⟨_, hcontent⟩
    by_cases hc : name ∈ checkedNames
    · simp only [checkedNames, List.mem_cons, List.not_mem_nil, or_false] at hc
      rcases hc with rfl | rfl | rfl | rfl | rfl | rfl | rfl | rfl
      · rw [h.specversion, Option.some.injEq] at ht
        simp [readable, ← ht]
      · rw [hid, Option.some.injEq] at ht
        simpa [readable, ← ht] using hid'
      · rw [hsource, Option.some.injEq] at ht
        simpa [readable, isOk_iff, ← ht] using ⟨_, hsource'⟩
      · rw [htype, Option.some.injEq] at ht
        simpa [readable, isOk_iff, ← ht] using ⟨_, htype'⟩
      · rw [htime, Option.some.injEq] at ht
        simpa [readable, isOk_iff, ← ht] using ⟨_, htime'⟩
      · rw [hcontent, Option.some.injEq] at ht
        simpa [readable, isOk_iff, ← ht] using ⟨_, hcontent'⟩
      · simpa [readable] using h.correlation "correlationid" (by decide) text ht
      · simpa [readable] using h.correlation "causationid" (by decide) text ht
    · refine (readable_of_not_checked hc).mpr (h.others name ?_ hc)
      exact mem_iff_exists.mpr ⟨_, ht⟩
  · rintro ⟨hrequired, hall⟩
    have required : ∀ name ∈ requiredNames, ∃ text, m[name]? = some text ∧
        readable uuids name text = true := by
      intro name hname
      obtain ⟨text, ht⟩ := mem_iff_exists.mp (hrequired name hname)
      exact ⟨text, ht, hall name text ht⟩
    obtain ⟨version, hversion, hversion'⟩ := required "specversion" (by decide)
    obtain ⟨id, hid, hid'⟩ := required "id" (by decide)
    obtain ⟨source, hsource, hsource'⟩ := required "source" (by decide)
    obtain ⟨type, htype, htype'⟩ := required "type" (by decide)
    obtain ⟨time, htime, htime'⟩ := required "time" (by decide)
    obtain ⟨contentType, hcontent, hcontent'⟩ := required "datacontenttype" (by decide)
    simp only [readable, String.reduceEq, if_true, if_false, or_false, isOk_iff,
      beq_iff_eq] at hversion' hid' hsource' htype' htime' hcontent'
    obtain ⟨source', hsource'⟩ := hsource'
    obtain ⟨type', htype'⟩ := htype'
    obtain ⟨time', htime'⟩ := htime'
    obtain ⟨contentType', hcontent'⟩ := hcontent'
    refine ⟨by rw [hversion, hversion'], ⟨id, hid, hid'⟩, ⟨source, source', hsource, hsource'⟩,
      ⟨type, type', htype, htype'⟩, ⟨time, time', htime, htime'⟩,
      ⟨contentType, contentType', hcontent, hcontent'⟩, ?_, ?_⟩
    · intro name hname text ht
      have := hall name text ht
      simp only [List.mem_cons, List.not_mem_nil, or_false] at hname
      rcases hname with rfl | rfl
      · simpa [readable] using this
      · simpa [readable] using this
    · intro name hm hc
      obtain ⟨text, ht⟩ := mem_iff_exists.mp hm
      exact (readable_of_not_checked hc).mp (hall name text ht)

/-! ## The values of an attribute -/

/-- The values that a message's headers give an attribute, each the first of its header. -/
def values (headers : List (String × List String)) (name : String) : List String :=
  (headers.filterMap headerAttribute).filterMap fun (other, value) =>
    if other = name then some value else none

theorem mem_values {headers : List (String × List String)} {name value : String} :
    value ∈ values headers name ↔ (name, value) ∈ headers.filterMap headerAttribute := by
  simp only [values, List.mem_filterMap (f := fun entry : String × String =>
    if entry.1 = name then some entry.2 else none), Prod.exists]
  constructor
  · rintro ⟨other, value', hm, he⟩
    split at he
    · rename_i heq
      cases he
      exact heq ▸ hm
    · cases he
  · intro hm
    exact ⟨name, value, hm, by simp⟩

theorem values_perm {headers order : List (String × List String)} (h : order.Perm headers)
    {name value : String} : value ∈ values order name ↔ value ∈ values headers name := by
  rw [mem_values, mem_values, (h.filterMap headerAttribute).mem_iff]

theorem readAttributes_eq_some {headers : List (String × List String)} {name value : String}
    (h : (readAttributes headers)[name]? = some value) : value ∈ values headers name :=
  mem_values.mpr (Lib.TreeMap.getElem?_ofList_eq_some h)

theorem readAttributes_eq_none {headers : List (String × List String)} {name : String} :
    (readAttributes headers)[name]? = none ↔ values headers name = [] := by
  rw [List.eq_nil_iff_forall_not_mem]
  refine Lib.TreeMap.getElem?_ofList_eq_none.trans (forall_congr' fun value => ?_)
  rw [mem_values]

/-- Every choice of one value for each attribute is read in some order. -/
theorem exists_order (headers : HeaderMap) (choice : String → String)
    (h : ∀ name, values headers.entries name ≠ [] → choice name ∈ values headers.entries name) :
    ∃ order : HeaderMap, order.entries.Perm headers.entries ∧
      ∀ name, values headers.entries name ≠ [] →
        (readAttributes order.entries)[name]? = some (choice name) := by
  obtain ⟨order, hp, hchoice⟩ := Lib.TreeMap.exists_perm_ofList compare headerAttribute
    headers.entries choice fun name value hm =>
      mem_values.mp (h name (List.ne_nil_of_mem (mem_values.mpr hm)))
  refine ⟨⟨order, (hp.map (·.1)).nodup_iff.mpr headers.nodup⟩, hp, fun name hne => ?_⟩
  obtain ⟨value, hm⟩ := List.exists_mem_of_ne_nil _ hne
  exact hchoice name value (mem_values.mp hm)

/-! ## The same in every order -/

/-- Both fail, or both are the same. -/
def Same (result other : Except String (Envelope × Nat)) : Prop :=
  (result.isOk = false ∧ other.isOk = false) ∨ ∃ read, result = .ok read ∧ other = .ok read

/-- The message reads the same in any two orders of its headers. -/
def SameRead (uuids : UuidFormat) (debug : String → String) (headers : HeaderMap)
    (payload : List UInt8) (info : Except String Int) : Prop :=
  ∀ order other : HeaderMap, order.entries.Perm headers.entries → other.entries.Perm headers.entries →
    Same (read uuids debug ⟨some order, payload, info⟩) (read uuids debug ⟨some other, payload, info⟩)

/-- Some attribute is missing or has no readable value. -/
def Unreadable (uuids : UuidFormat) (headers : HeaderMap) : Prop :=
  ∃ name, (name ∈ requiredNames ∨ values headers.entries name ≠ []) ∧
    ∀ value ∈ values headers.entries name, readable uuids name value = false

/-- All values of an attribute read alike: none is readable or all are, with one normal form. -/
def Agree (uuids : UuidFormat) (headers : HeaderMap) : Prop :=
  ∀ name, ∀ value ∈ values headers.entries name, ∀ other ∈ values headers.entries name,
    readable uuids name value = readable uuids name other ∧
      normalAttribute uuids (readAttributes headers.entries) name value =
        normalAttribute uuids (readAttributes headers.entries) name other

theorem read_isOk {uuids : UuidFormat} {headers : HeaderMap} (debug : String → String)
    (payload : List UInt8) (delivered : Int) :
    (read uuids debug ⟨some headers, payload, .ok delivered⟩).isOk = true ↔
      Acceptable uuids (readAttributes headers.entries) := by
  rw [← (fromAttributes_iff uuids _ payload).1]
  simp only [read, Option.map_some, Option.getD_some, isOk_iff]
  cases Envelope.fromAttributes uuids (readAttributes headers.entries) payload with
  | error error => simp [bind, Except.bind, Except.mapError]
  | ok envelope => simp [bind, Except.bind, Except.mapError, pure, Except.pure]

theorem read_eq_ok {uuids : UuidFormat} {debug : String → String} {headers : HeaderMap}
    {payload : List UInt8} {delivered : Int} {result : Envelope × Nat} :
    read uuids debug ⟨some headers, payload, .ok delivered⟩ = .ok result ↔
      Envelope.fromAttributes uuids (readAttributes headers.entries) payload = .ok result.1 ∧
        result.2 = attemptOf delivered := by
  simp only [read, Option.map_some, Option.getD_some]
  cases Envelope.fromAttributes uuids (readAttributes headers.entries) payload with
  | error error => simp [bind, Except.bind, Except.mapError]
  | ok envelope =>
    simp [bind, Except.bind, Except.mapError, pure, Except.pure, Prod.ext_iff, eq_comm]

/-- The envelope that is read is decided by the normal form of its attributes. -/
theorem fromAttributes_congr {uuids : UuidFormat} {m m' : Attributes} {data : List UInt8}
    {envelope envelope' : Envelope} (h : fromAttributes uuids m data = .ok envelope)
    (h' : fromAttributes uuids m' data = .ok envelope') : envelope = envelope' ↔
      ∀ name : String, m[name]?.bind (normalAttribute uuids m name) =
        m'[name]?.bind (normalAttribute uuids m' name) := by
  have hr := fromAttributes_eq_ok.mp h
  have hr' := fromAttributes_eq_ok.mp h'
  constructor
  · rintro rfl name
    rw [← hr.toAttributes_eq, ← hr'.toAttributes_eq]
  · intro hname
    have hmap : envelope.toAttributes uuids = envelope'.toAttributes uuids :=
      Std.ExtTreeMap.ext_getElem? fun name => by
        rw [hr.toAttributes_eq, hr'.toAttributes_eq, hname]
    have hback := (fromAttributes_toAttributes uuids envelope).1
    rw [hmap, hr.data, ← hr'.data, (fromAttributes_toAttributes uuids envelope').1] at hback
    exact (Except.ok.inj hback).symm

theorem normalAttribute_congr {uuids : UuidFormat} {m m' : Attributes}
    (h : m["traceparent"]? = none ↔ m'["traceparent"]? = none) (name text : String) :
    normalAttribute uuids m name text = normalAttribute uuids m' name text := by
  simp only [normalAttribute, h]

section Orders

variable {uuids : UuidFormat} {headers order : HeaderMap}

theorem readAttributes_none_perm (h : order.entries.Perm headers.entries) (name : String) :
    (readAttributes order.entries)[name]? = none ↔ (readAttributes headers.entries)[name]? = none := by
  rw [readAttributes_eq_none, readAttributes_eq_none, List.eq_nil_iff_forall_not_mem,
    List.eq_nil_iff_forall_not_mem]
  exact forall_congr' fun value => not_congr (values_perm h)

theorem normalAttribute_perm (h : order.entries.Perm headers.entries) (name text : String) :
    normalAttribute uuids (readAttributes order.entries) name text =
      normalAttribute uuids (readAttributes headers.entries) name text :=
  normalAttribute_congr (readAttributes_none_perm h _) name text

/-- An order is read when it gives each attribute there must be or is a readable value. -/
theorem acceptable_order (h : order.entries.Perm headers.entries) :
    Acceptable uuids (readAttributes order.entries) ↔
      ∀ name, (name ∈ requiredNames ∨ values headers.entries name ≠ []) →
        ∃ value, (readAttributes order.entries)[name]? = some value ∧
          readable uuids name value = true := by
  rw [acceptable_iff]
  constructor
  · rintro ⟨hrequired, hall⟩ name hname
    have hsome : ∃ value, (readAttributes order.entries)[name]? = some value := by
      rcases hname with hname | hne
      · exact mem_iff_exists.mp (hrequired name hname)
      · rw [← Option.ne_none_iff_exists', ne_eq, readAttributes_none_perm h, readAttributes_eq_none]
        exact hne
    exact hsome.imp fun value hv => ⟨hv, hall name value hv⟩
  · intro hall
    refine ⟨fun name hname => ?_, fun name value hv => ?_⟩
    · obtain ⟨value, hv, _⟩ := hall name (Or.inl hname)
      exact mem_iff_exists.mpr ⟨value, hv⟩
    · have hm := (values_perm h).mp (readAttributes_eq_some hv)
      obtain ⟨value', hv', hr⟩ := hall name (Or.inr (List.ne_nil_of_mem hm))
      rw [hv, Option.some.injEq] at hv'
      exact hv' ▸ hr

theorem not_acceptable_of_unreadable (hu : Unreadable uuids headers)
    (h : order.entries.Perm headers.entries) : ¬Acceptable uuids (readAttributes order.entries) := by
  obtain ⟨name, hname, hbad⟩ := hu
  intro ha
  obtain ⟨value, hv, hr⟩ := (acceptable_order h).mp ha name hname
  rw [hbad value ((values_perm h).mp (readAttributes_eq_some hv))] at hr
  cases hr

/-- Values that agree are read alike in any two orders. -/
theorem same_of_agree {debug : String → String} {payload : List UInt8} {delivered : Int}
    {other : HeaderMap} (ha : Agree uuids headers) (h : order.entries.Perm headers.entries)
    (ho : other.entries.Perm headers.entries) :
    Same (read uuids debug ⟨some order, payload, .ok delivered⟩)
      (read uuids debug ⟨some other, payload, .ok delivered⟩) := by
  have acceptable : ∀ {order other : HeaderMap}, order.entries.Perm headers.entries →
      other.entries.Perm headers.entries → Acceptable uuids (readAttributes order.entries) →
      Acceptable uuids (readAttributes other.entries) := by
    intro order other h ho hr
    refine (acceptable_order ho).mpr fun name hname => ?_
    obtain ⟨value, hv, hread⟩ := (acceptable_order h).mp hr name hname
    have hm := (values_perm h).mp (readAttributes_eq_some hv)
    have hsome : ∃ value', (readAttributes other.entries)[name]? = some value' := by
      rw [← Option.ne_none_iff_exists', ne_eq, readAttributes_none_perm ho, readAttributes_eq_none]
      exact List.ne_nil_of_mem hm
    refine hsome.imp fun value' hv' => ⟨hv', ?_⟩
    rw [(ha name value' ((values_perm ho).mp (readAttributes_eq_some hv')) value hm).1, hread]
  by_cases hr : Acceptable uuids (readAttributes order.entries)
  · obtain ⟨⟨envelope, attempt⟩, hread⟩ := isOk_iff.mp ((read_isOk debug payload
      delivered).mpr hr)
    obtain ⟨⟨envelope', attempt'⟩, hread'⟩ := isOk_iff.mp ((read_isOk debug payload
      delivered).mpr (acceptable h ho hr))
    obtain ⟨hfrom, rfl⟩ := read_eq_ok.mp hread
    obtain ⟨hfrom', rfl⟩ := read_eq_ok.mp hread'
    obtain rfl : envelope = envelope' := (fromAttributes_congr hfrom hfrom').mpr fun name => by
      cases hv : (readAttributes order.entries)[name]? with
      | none =>
        rw [readAttributes_none_perm h, ← readAttributes_none_perm ho] at hv
        rw [hv]
        rfl
      | some value =>
        have hm := (values_perm h).mp (readAttributes_eq_some hv)
        obtain ⟨value', hv'⟩ : ∃ value', (readAttributes other.entries)[name]? = some value' := by
          rw [← Option.ne_none_iff_exists', ne_eq, readAttributes_none_perm ho,
            readAttributes_eq_none]
          exact List.ne_nil_of_mem hm
        rw [hv', Option.bind_some, Option.bind_some, normalAttribute_perm h,
          normalAttribute_perm ho]
        exact (ha name value hm value' ((values_perm ho).mp (readAttributes_eq_some hv'))).2
    exact Or.inr ⟨_, hread, hread'⟩
  · refine Or.inl ⟨?_, ?_⟩
    · exact Bool.eq_false_iff.mpr (mt (read_isOk ..).mp hr)
    · exact Bool.eq_false_iff.mpr (mt (read_isOk ..).mp fun hr' => hr (acceptable ho h hr'))

/-- Values that don't agree, when each attribute has a readable one: one of them is readable, and
    the other isn't or has another normal form. -/
theorem exists_differ (hu : ¬Unreadable uuids headers) (ha : ¬Agree uuids headers) :
    ∃ name, ∃ value ∈ values headers.entries name, ∃ other ∈ values headers.entries name,
      readable uuids name value = true ∧ (readable uuids name other = false ∨
        normalAttribute uuids (readAttributes headers.entries) name value ≠
          normalAttribute uuids (readAttributes headers.entries) name other) := by
  unfold Agree at ha
  push Not at ha
  obtain ⟨name, value, hvalue, other, hother, hdiffer⟩ := ha
  cases hr : readable uuids name value with
  | true =>
    refine ⟨name, value, hvalue, other, hother, hr, ?_⟩
    cases ho : readable uuids name other with
    | true => exact Or.inr (hdiffer (hr.trans ho.symm))
    | false => exact Or.inl rfl
  | false =>
    have hgood : ∃ good ∈ values headers.entries name, readable uuids name good = true := by
      by_contra hbad
      push Not at hbad
      exact hu ⟨name, Or.inr (List.ne_nil_of_mem hvalue), fun v hv => by simpa using hbad v hv⟩
    obtain ⟨good, hgood, hread⟩ := hgood
    exact ⟨name, good, hgood, value, hvalue, hread, Or.inl hr⟩

/-- Some order gives an attribute any one of its values, and is read if this value is readable. -/
theorem exists_order_choosing (hu : ¬Unreadable uuids headers) {name chosen : String}
    (hchosen : chosen ∈ values headers.entries name) : ∃ order : HeaderMap,
      order.entries.Perm headers.entries ∧ (readAttributes order.entries)[name]? = some chosen ∧
        (readable uuids name chosen = true → Acceptable uuids (readAttributes order.entries)) := by
  -- The other attributes get readable values.
  have hgood : ∀ other, ∃ good, (other ∈ requiredNames ∨ values headers.entries other ≠ []) →
      good ∈ values headers.entries other ∧ readable uuids other good = true := by
    intro other
    by_cases hother : other ∈ requiredNames ∨ values headers.entries other ≠ []
    · by_contra hbad
      push Not at hbad
      exact hu ⟨other, hother, fun v hv => by simpa using (hbad v).2 hv⟩
    · exact ⟨"", fun h => absurd h hother⟩
  choose good hgood using hgood
  obtain ⟨order, hp, hvalues⟩ := exists_order headers
    (fun other => if other = name then chosen else good other) fun other hne => by
      split
      · rename_i heq
        exact heq ▸ hchosen
      · exact (hgood other (Or.inr hne)).1
  have hget : (readAttributes order.entries)[name]? = some chosen := by
    rw [hvalues name (List.ne_nil_of_mem hchosen), if_pos rfl]
  refine ⟨order, hp, hget, fun hread => (acceptable_order hp).mpr fun other hother => ?_⟩
  by_cases heq : other = name
  · exact ⟨chosen, heq ▸ hget, heq ▸ hread⟩
  · obtain ⟨hm, hr⟩ := hgood other hother
    exact ⟨good other, by rw [hvalues other (List.ne_nil_of_mem hm), if_neg heq], hr⟩

/-- Values that don't agree are read differently in two orders. -/
theorem agree_of_sameRead {debug : String → String} {payload : List UInt8} {delivered : Int}
    (hu : ¬Unreadable uuids headers)
    (hsame : SameRead uuids debug headers payload (.ok delivered)) : Agree uuids headers := by
  by_contra ha
  obtain ⟨name, value, hvalue, other, hother, hread, hdiffer⟩ := exists_differ hu ha
  obtain ⟨first, hp, hget, hfirst⟩ := exists_order_choosing hu hvalue
  obtain ⟨second, hp', hget', _⟩ := exists_order_choosing hu hother
  have hok := (read_isOk debug payload delivered).mpr
    (hfirst hread)
  rcases hsame first second hp hp' with ⟨hbad, _⟩ | ⟨result, hr, hr'⟩
  · rw [hok] at hbad
    cases hbad
  · rcases hdiffer with hunread | hne
    · have hacceptable := (read_isOk ..).mp (isOk_iff.mpr ⟨_, hr'⟩)
      have := (acceptable_iff.mp hacceptable).2 name other hget'
      rw [hunread] at this
      cases this
    · have hcongr := (fromAttributes_congr (read_eq_ok.mp hr).1 (read_eq_ok.mp hr').1).mp rfl name
      rw [hget, hget', Option.bind_some, Option.bind_some, normalAttribute_perm hp,
        normalAttribute_perm hp'] at hcongr
      exact hne hcongr

end Orders

/-- A message reads the same in every order of its headers exactly when it can't be read in any, or
    the values of each of its attributes read alike. -/
theorem sameRead_iff (uuids : UuidFormat) (debug : String → String) (headers : HeaderMap)
    (payload : List UInt8) (info : Except String Int) :
    SameRead uuids debug headers payload info ↔
      info.isOk = false ∨ Unreadable uuids headers ∨ Agree uuids headers := by
  cases info with
  | error error => exact iff_of_true (fun _ _ _ _ => Or.inl ⟨rfl, rfl⟩) (Or.inl rfl)
  | ok delivered =>
    rw [or_iff_right (show ¬(Except.ok delivered : Except String Int).isOk = false by
      simp [Except.isOk, Except.toBool])]
    constructor
    · intro hsame
      exact or_iff_not_imp_left.mpr fun hu => agree_of_sameRead hu hsame
    · rintro (hu | ha)
      · intro order other h h'
        exact Or.inl ⟨Bool.eq_false_iff.mpr (mt (read_isOk ..).mp (not_acceptable_of_unreadable hu h)),
          Bool.eq_false_iff.mpr (mt (read_isOk ..).mp (not_acceptable_of_unreadable hu h'))⟩
      · exact fun order other h h' => same_of_agree ha h h'

/-! ## A message with two ids -/

def firstId : String := "00000000-0000-0000-0000-000000000001"

def secondId : String := "00000000-0000-0000-0000-000000000002"

/-- The headers of a message from a client that repeats its id under another name. -/
def twoIds : HeaderMap where
  entries := [("ce-specversion", ["1.0"]), ("ce-source", ["/stock"]),
    ("ce-type", ["stock.stock_counted.v2"]), ("ce-time", ["2026-11-05T00:00:00Z"]),
    ("ce-datacontenttype", ["text/plain"]), ("ce-id", [firstId]), ("Ce-Id", [secondId])]
  nodup := by decide

theorem not_unreadable_twoIds : ¬Unreadable .rfc9562 twoIds := by
  have hall : ∀ entry ∈ twoIds.entries.filterMap headerAttribute,
      readable .rfc9562 entry.1 entry.2 = true := by decide
  have hrequired : ∀ name ∈ requiredNames,
      name ∈ (twoIds.entries.filterMap headerAttribute).map (·.1) := by decide
  rintro ⟨name, hname, hbad⟩
  obtain ⟨value, hm⟩ : ∃ value, value ∈ values twoIds.entries name := by
    rcases hname with hname | hne
    · obtain ⟨entry, hentry, rfl⟩ := List.mem_map.mp (hrequired name hname)
      exact ⟨entry.2, mem_values.mpr hentry⟩
    · exact List.exists_mem_of_ne_nil _ hne
  have := hall _ (mem_values.mp hm)
  rw [hbad value hm] at this
  cases this

/-- Which of its two ids the message has depends on the order of its headers. -/
theorem not_sameRead_twoIds : ¬SameRead .rfc9562 id twoIds [] (.ok 1) := by
  intro hsame
  have hagree := agree_of_sameRead not_unreadable_twoIds hsame
  have hfirst : firstId ∈ values twoIds.entries "id" := mem_values.mpr (by decide)
  have hsecond : secondId ∈ values twoIds.entries "id" := mem_values.mpr (by decide)
  have hids : (UuidFormat.rfc9562.parseStr firstId).map UuidFormat.rfc9562.hyphenated ≠
      (UuidFormat.rfc9562.parseStr secondId).map UuidFormat.rfc9562.hyphenated := by decide
  exact hids (hagree "id" firstId hfirst secondId hsecond).2

end SisaMessaging.Nats
