/-
  What a consumer hands out, as long as only the transport publishes.

  `Sound`: every message of the stream carries an envelope on the subject of its type, or is a copy on
  an error subject. No consumer of message types takes a copy, unless an endpoint is named `v0`, `v1`
  and so on. `arrival_reads`: an arrival reads as the envelope that was published, whichever instance
  gets it and whatever failed before.
-/
import SisaMessaging.Nats.JetStream

namespace SisaMessaging.Nats

open SisaMessaging.Core SisaMessaging.Runtime SisaMessaging.Lib

namespace JetStream

variable {Msg : Type} {transport : NatsTransport}

/-- The endpoint has a durable consumer, and no message type has its error subject. -/
def Apart (endpoint : String) : Prop := IsDurableName endpoint ∧ ¬IsVersion endpoint.toList

theorem Apart.ne {endpoint : String} (h : Apart endpoint) (t : MessageType) :
    t.value ≠ "_error." ++ endpoint :=
  fun ht => h.2 ((exists_errorType_iff h.1).mp ⟨t, ht⟩).1

/-- The subjects of some message types. -/
def Typed (transport : NatsTransport) (filterSubjects : List String) : Prop :=
  ∀ filter ∈ filterSubjects, ∃ t : MessageType, filter = subject transport.subjectPrefix t

/-- Consumers filter on message types, their endpoints keep apart, and no other client publishes. -/
def OwnOnly (transport : NatsTransport) :
    System.State Nat (WireOp Msg) (WireRet Msg) (Arrival Msg) (JetStream Msg) →
    System.Label Nat (WireOp Msg) (WireRet Msg) (Arrival Msg) (Outside Msg) → Prop
  | _, .launch _ arrival => Apart arrival.endpoint.name
  | _, .env (.consumer _ filterSubjects) => Typed transport filterSubjects
  | _, .env (.foreign _) => False
  | _, _ => True

/-- A message of the transport: an envelope, or a copy on an error subject. -/
def Own (transport : NatsTransport) (stored : Stored) : Prop :=
  (∃ envelope, Carries transport envelope stored) ∨
    ∃ endpoint, Apart endpoint ∧ stored.subject = errorSubject transport.subjectPrefix endpoint

/-- Consumers don't take error copies. -/
theorem Own.carries {stored : Stored} {filterSubjects : List String} (h : Own transport stored)
    (hfilters : Typed transport filterSubjects)
    (hmatch : filterMatches filterSubjects stored.subject = true) :
    ∃ envelope, Carries transport envelope stored := by
  refine h.resolve_right fun ⟨endpoint, hapart, hsubject⟩ => ?_
  obtain ⟨filter, hm, hmatch⟩ := List.any_eq_true.mp hmatch
  obtain ⟨t, rfl⟩ := hfilters filter hm
  rw [hsubject, subjectMatches_errorSubject_iff] at hmatch
  exact hapart.ne t hmatch

/-- What an arrival publishes is the transport's. -/
theorem own_of_asks {op : WireOp Msg} {endpoint : String} {shown : Option Envelope}
    {stored : Stored} (h : OwnOp transport endpoint shown op) (hapart : Apart endpoint)
    (ha : Asks op stored) : Own transport stored := by
  obtain rfl : op = .stream (.publish stored.subject stored.headers stored.data) := ha
  rcases h with ⟨sent, hheaders, hsubject, hdata⟩ | hsubject
  · exact Or.inl ⟨sent, hheaders, hsubject, hdata⟩
  · exact Or.inr ⟨endpoint, hapart, hsubject⟩

/-- Everything on the stream is the transport's, and each arrival is of a message that carries an
    envelope. -/
structure Sound (transport : NatsTransport) (sh : JetStream Msg) : Prop where
  filters : ∀ name, Typed transport (sh.filters name)
  stream : ∀ stored ∈ sh.stream, Own transport stored
  arrived : ∀ i arrival evs, sh.history i = some (arrival, evs) → Apart arrival.endpoint.name ∧
    ∃ stored envelope, sh.stream[arrival.sequence]? = some stored ∧
      Brings transport stored arrival.message ∧ Carries transport envelope stored

theorem Empty.sound {sh : JetStream Msg} (h : sh.Empty) : sh.Sound transport := by
  obtain ⟨hstream, hfilters, _, hhistory⟩ := h
  constructor
  · simp [hfilters, Typed]
  · simp [hstream]
  · simp [hhistory]

/-- The stream goes on with messages of the transport. -/
theorem Sound.grow {sh sh' : JetStream Msg} (h : sh.Sound transport) (hg : sh.Grows sh')
    (hnew : ∀ stored ∈ sh'.stream, stored ∈ sh.stream ∨ Own transport stored) :
    sh'.Sound transport := by
  constructor
  · rw [hg.filters]
    exact h.filters
  · intro stored hm
    exact (hnew stored hm).elim (h.stream stored) id
  · intro i arrival evs hi
    rw [hg.history] at hi
    obtain ⟨hapart, stored, envelope, hstored, hrest⟩ := h.arrived i arrival evs hi
    exact ⟨hapart, stored, envelope, hg.place hstored, hrest⟩

theorem Sound.log {sh : JetStream Msg} (h : sh.Sound transport) (i : Nat) (e : WireEvent Msg) :
    (sh.log i e).Sound transport where
  filters := h.filters
  stream := h.stream
  arrived k arrival evs hk := by
    obtain ⟨before, hbefore, _⟩ := log_some hk
    exact h.arrived k arrival before hbefore

/-- A new arrival. -/
theorem Sound.launch {sh : JetStream Msg} {i : Nat} {arrival : Arrival Msg} {stored : Stored}
    (h : sh.Sound transport) (hapart : Apart arrival.endpoint.name)
    (hstored : sh.stream[arrival.sequence]? = some stored)
    (hmatch : filterMatches (sh.filters arrival.endpoint.name) stored.subject = true)
    (hbrings : Brings transport stored arrival.message) :
    Sound transport { sh with
      history := Function.update sh.history i (some (arrival, [])) } where
  filters := h.filters
  stream := h.stream
  arrived k other evs hk := by
    rcases System.update_eq_some.mp hk with ⟨_, hnew⟩ | ⟨_, hold⟩
    · cases hnew
      have hown := h.stream stored (List.mem_of_getElem? hstored)
      obtain ⟨envelope, hcarries⟩ := hown.carries (h.filters _) hmatch
      exact ⟨hapart, stored, envelope, hstored, hbrings, hcarries⟩
    · exact h.arrived k other evs hold

/-- What an instance asked for so far is what its program may ask for. -/
theorem history_ownOp {C} {s : System.State Nat (WireOp Msg) (WireRet Msg) (Arrival Msg) (JetStream Msg)}
    (h : (jetStream Msg transport).Reach Empty C s) {i : Nat} {arrival : Arrival Msg}
    {evs : List (WireEvent Msg)} (hi : s.shared.history i = some (arrival, evs)) :
    ∀ e ∈ evs, OwnOp transport arrival.endpoint.name
      ((transport.read arrival.message).toOption.map (·.1)) e.op := by
  obtain ⟨q, hafter⟩ := after_history h hi
  exact (handle_ownOp arrival transport).after hafter

theorem sound {s : System.State Nat (WireOp Msg) (WireRet Msg) (Arrival Msg) (JetStream Msg)}
    (h : (jetStream Msg transport).Reach Empty (OwnOnly transport) s) :
    s.shared.Sound transport := by
  induction h with
  | init h => exact h.sound
  | @step s l s' hr hs hc ih =>
    cases hs with
    | launch _ hl =>
      obtain ⟨_, _, ⟨stored, hstored, hmatch, hbrings⟩, rfl⟩ := hl
      exact ih.launch hc hstored hmatch hbrings
    | @exec i arrival op next reply sh hp he =>
      obtain ⟨taken, hdoes, rfl⟩ := he
      obtain ⟨done, hi, _⟩ := (hr.recorded (recorded transport) (fun _ h0 => h0.2.2.2) i).2 _ hp
      have hop := (hr.only (fun job => handle_ownOp job transport) i _ hp).1
      have hapart := (ih.arrived i arrival done hi).1
      refine Sound.log (ih.grow hdoes.changes.grows fun stored hm => ?_) i _
      refine (hdoes.mem hm).imp_right fun hasked => ?_
      rcases hasked with hasks | ⟨other, before, sent, hother⟩
      · exact own_of_asks hop hapart hasks
      · rw [hi, Option.some.injEq, Prod.mk.injEq] at hother
        obtain ⟨rfl, rfl⟩ := hother
        have hlast := history_ownOp hr hi _ (List.mem_append_right _ List.mem_cons_self)
        exact own_of_asks hlast hapart rfl
    | leave _ hl =>
      obtain rfl := hl
      exact ih
    | @env action sh he =>
      cases action with
      | consumer name filterSubjects =>
        obtain rfl := he
        refine ⟨fun other => ?_, ih.stream, ih.arrived⟩
        dsimp only
        by_cases hname : other = name
        · subst hname
          rw [Function.update_self]
          exact hc
        · rw [Function.update_of_ne hname]
          exact ih.filters other
      | publish envelope stored =>
        refine ih.grow he.2.grows fun other hm => (he.2.mem hm).imp_right fun heq => ?_
        exact heq ▸ Or.inl ⟨envelope, he.1⟩
      | foreign stored => exact hc.elim
      | late i op =>
        obtain ⟨arrival, evs, e, hi, hin, rfl, heffect⟩ := he
        refine ih.grow heffect.changes.grows fun stored hm => (heffect.mem hm).imp_right fun hasks => ?_
        exact own_of_asks (history_ownOp hr hi e hin) (ih.arrived i arrival evs hi).1 hasks

/-- What the client leaves of a stored message that carries the envelope still reads as it. -/
theorem Carries.read {envelope : Envelope} {stored : Stored} {message : Message} {delivered : Int}
    (h : Carries transport envelope stored) (hbrings : Brings transport stored message)
    (hkept : ∀ name value : String, (envelope.toAttributes transport.uuids)[name]? = some value →
      transport.received value = value) (hinfo : message.info = .ok delivered) :
    transport.read message = .ok (envelope, attemptOf delivered) := by
  obtain ⟨hheaders, _, hdata⟩ := h
  have hattributes : ((envelope.toAttributes transport.uuids).toList.map toHeader).map
      (fun header => (header.1, header.2.map transport.received)) =
        (envelope.toAttributes transport.uuids).toList.map toHeader := by
    rw [List.map_map]
    refine List.map_congr_left fun entry hm => ?_
    dsimp only [Function.comp_apply, toHeader]
    rw [List.map_singleton, hkept _ _ (Std.ExtTreeMap.mem_toList_iff_getElem?_eq_some.mp hm)]
  have hp := hbrings.2
  rw [entries_of_headers hheaders, List.map_append, hattributes] at hp
  refine read_perm transport.debug hp (fun other hm => ?_) (hbrings.1.trans hdata) hinfo
  rw [List.mem_singleton.mp hm]
  exact (by decide : attributeName msgId = none)

/-- An arrival's message carries an envelope on the subject of its type. If the client leaves the
    values of the envelope's headers as they are, the arrival reads as that envelope, and handlers
    are shown no other. -/
theorem arrival_reads {s : System.State Nat (WireOp Msg) (WireRet Msg) (Arrival Msg) (JetStream Msg)}
    (h : (jetStream Msg transport).Reach Empty (OwnOnly transport) s) {i : Nat}
    {arrival : Arrival Msg} {evs : List (WireEvent Msg)}
    (hi : s.shared.history i = some (arrival, evs)) :
    ∃ stored envelope, s.shared.stream[arrival.sequence]? = some stored ∧
      Carries transport envelope stored ∧
      ((∀ name value : String, (envelope.toAttributes transport.uuids)[name]? = some value →
          transport.received value = value) →
        ∀ delivered, arrival.message.info = .ok delivered →
          transport.read arrival.message = .ok (envelope, attemptOf delivered) ∧
          ∀ message shown reply, ⟨.pass (.handle message shown), reply⟩ ∈ evs →
            shown.envelope = envelope) := by
  obtain ⟨_, stored, envelope, hstored, hbrings, hcarries⟩ := (sound h).arrived i arrival evs hi
  refine ⟨stored, envelope, hstored, hcarries, fun hkept delivered hinfo => ?_⟩
  have hread := Carries.read hcarries hbrings hkept hinfo
  refine ⟨hread, fun message shown reply hm => ?_⟩
  have hshown := history_ownOp h hi _ hm
  rw [hread] at hshown
  exact (Option.some.inj hshown).symm

/-- `billing` with a handler of the message. -/
def billingShipped : Endpoint Unit where
  name := "billing"
  retry := .default
  pipeline := .plain "billing" [(orderShipped.messageType, .typed ⟨fun _ => .returned (.ok ())⟩)]

def shippedContext : HandlerContext (Option Transaction) :=
  ⟨billing, "billing", orderShipped, 1, [], none⟩

/-- A stored message, as `billing` gets it for the first time. -/
def firstArrival (stored : Stored) : Arrival Unit where
  endpoint := billingShipped
  source := billing
  sequence := 0
  message := ⟨some stored.headers, stored.data, .ok 1⟩

theorem brings_firstArrival (stored : Stored) :
    Brings messages stored (firstArrival stored).message := by
  refine ⟨rfl, List.Perm.of_eq ?_⟩
  change stored.headers.entries = stored.headers.entries.map fun header =>
    (header.1, header.2.map id)
  simp

theorem exists_carries : ∃ stored, Carries messages orderShipped stored := by
  have hplain : ∀ entry ∈ (orderShipped.toAttributes .rfc9562).toList,
      hasLineBreak entry.2 = false := by
    decide +kernel
  obtain ⟨sent, hsent, _⟩ := entries_headers messages.refusal hplain
  exact ⟨⟨subject "messages" orderShipped.messageType, sent, []⟩, hsent, rfl, rfl⟩

/-- The first operation of the arrival is the handler's. -/
theorem body_firstArrival {stored : Stored} (h : Carries messages orderShipped stored) :
    ∃ next, (jetStream Unit messages).body (firstArrival stored) =
      .call (.pass (.handle () shippedContext)) next := by
  have hread : messages.read (firstArrival stored).message = .ok (orderShipped, 1) :=
    Carries.read h (brings_firstArrival stored) (fun _ _ _ => rfl) rfl
  have hbody : (jetStream Unit messages).body (firstArrival stored) =
      (billingShipped.process billing ⟨orderShipped, 1⟩).refine messages.wire :=
    Arrival.handle_of_ok hread
  rw [hbody]
  exact ⟨_, rfl⟩

/-- The handler is shown the message that was published. -/
theorem arrival_reads_shipped : ∃ s arrival evs,
    (jetStream Unit messages).Reach Empty (OwnOnly messages) s ∧
    s.shared.history 0 = some (arrival, evs) ∧
    ∃ shown reply, ⟨.pass (.handle () shown), reply⟩ ∈ evs ∧
      ∃ stored, s.shared.stream[arrival.sequence]? = some stored ∧
        Carries messages shown.envelope stored := by
  obtain ⟨stored, hcarried⟩ := exists_carries
  obtain ⟨next, hbody⟩ := body_firstArrival hcarried
  have hapart : Apart "billing" := ⟨by simp [IsDurableName], by simp [IsVersion]⟩
  have h0 : (jetStream Unit messages).Reach Empty (OwnOnly messages)
      ⟨fun _ => none, ⟨[], fun _ => [], fun _ _ => false, fun _ => none⟩⟩ :=
    .init ⟨rfl, fun _ => rfl, fun _ _ => rfl, fun _ => rfl⟩
  have h1 := h0.env (.consumer "billing" [subject "messages" orderShipped.messageType]) rfl
    fun filter hm => ⟨orderShipped.messageType, List.mem_singleton.mp hm⟩
  have h2 := h1.env (.publish orderShipped stored) ⟨hcarried, Or.inl rfl⟩ trivial
  have hmatch : filterMatches [subject "messages" orderShipped.messageType] stored.subject = true := by
    rw [hcarried.2.1]
    decide
  have h3 := h2.launch 0 (firstArrival stored) rfl
    ⟨rfl, rfl, ⟨stored, rfl, hmatch, brings_firstArrival stored⟩, rfl⟩ hapart
  rw [hbody] at h3
  obtain ⟨s, h, hi⟩ : ∃ s, (jetStream Unit messages).Reach Empty (OwnOnly messages) s ∧
      s.shared.history 0 = some (firstArrival stored,
        [⟨.pass (.handle () shippedContext), ([], .ok)⟩]) :=
    ⟨_, h3.exec 0 (.pass (.handle () shippedContext)) ([], .ok) rfl ⟨_, rfl, rfl⟩ trivial, rfl⟩
  obtain ⟨found, envelope, hfound, hcarries, hreads⟩ := arrival_reads h hi
  have hshown := (hreads (fun _ _ _ => rfl) 1 rfl).2 () shippedContext ([], .ok) List.mem_cons_self
  exact ⟨s, firstArrival stored, _, h, hi, shippedContext, ([], .ok), List.mem_cons_self, found,
    hfound, hshown ▸ hcarries⟩

end JetStream

end SisaMessaging.Nats
