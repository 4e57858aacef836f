/-
  What an instance does with a message that its consumer's pull hands it: `NatsDelivery::read`,
  then the endpoint's handling with each of its operations as the transport performs it (`wire`),
  or `set_aside` for a message that isn't an envelope.

  `settled_process` and `after_setAside` take a stopped run apart: where it asked the server to ack
  or to terminate the message, and what it did before.
-/
import SisaMessaging.Lib.Refine
import SisaMessaging.Nats.ErrorCopy
import SisaMessaging.Runtime.Conversation

namespace SisaMessaging.Nats

open SisaMessaging.Core SisaMessaging.Runtime SisaMessaging.Lib
open SisaMessaging.Lib.Prog (After Blocks Only Run after_refine)

/-! ## The transport's operations -/

/-- How a message is settled: `AckKind`. -/
inductive AckKind where
  | ack
  | nak (delay : Duration)
  | term

/-- What an instance asks: of JetStream, or with the operations of handlers and stores as they
    are. -/
inductive WireOp (Msg : Type) where
  | stream (op : PublishOp)
  /-- `double_ack_with`: settles the message, and waits until the server confirms it. -/
  | settle (kind : AckKind)
  | pass (op : Op Msg)

@[reducible] def WireRet (Msg : Type) : WireOp Msg → Type
  | .stream op => PublishRet op
  | .settle _ => Except String Unit
  | .pass op => Ret Msg op

abbrev Wire (Msg : Type) := Prog (WireOp Msg) (WireRet Msg)

abbrev WireEvent (Msg : Type) := Event (WireOp Msg) (WireRet Msg)

/-- A transport: its subject prefix, and what the crates it uses make of texts. -/
structure NatsTransport where
  subjectPrefix : String
  uuids : UuidFormat
  debug : String → String
  /-- The error of a header value with a line break. -/
  refusal : String
  /-- What is left of a header value once it is received, such as without blanks around it. -/
  received : String → String

namespace NatsTransport

variable {Msg : Type}

def ask (op : WireOp Msg) : Wire Msg (WireRet Msg op) := Prog.perform op

/-- `NatsDelivery::settle`. -/
def settle (kind : AckKind) : Wire Msg (Except TransportError Unit) := do
  match ← ask (.settle kind) with
  | .error error => return .error (.broker "settling a JetStream message" error)
  | .ok () => return .ok ()

/-- An operation of an endpoint, as the transport performs it. -/
def wire (transport : NatsTransport) : (op : Op Msg) → Wire Msg (Ret Msg op)
  | .publish envelope =>
    (publish transport.uuids transport.refusal transport.subjectPrefix envelope).via .stream
  | .publishError endpoint envelope =>
    (publishError transport.uuids transport.subjectPrefix endpoint envelope).via .stream
  | .ack => settle .ack
  | .retry delay => settle (.nak delay)
  | .reject => settle .term
  | .handle message context => ask (.pass (.handle message context))
  | .begin => ask (.pass .begin)
  | .record transaction endpoint envelope =>
    ask (.pass (.record transaction endpoint envelope))
  | .insert transaction envelopes => ask (.pass (.insert transaction envelopes))
  | .commit transaction => ask (.pass (.commit transaction))
  | .rollback transaction => ask (.pass (.rollback transaction))

end NatsTransport

/-! ## Messages that aren't envelopes -/

/-- Adds a value to a header. -/
def HeaderMap.append (headers : HeaderMap) (name value : String) : HeaderMap where
  entries :=
    if name ∈ headers.entries.map (·.1) then
      headers.entries.map fun entry =>
        if entry.1 = name then (entry.1, entry.2 ++ [value]) else entry
    else headers.entries ++ [(name, [value])]
  nodup := by
    split
    · rw [List.map_map]
      have hnames : ((fun entry : String × List String => entry.1) ∘ fun entry =>
          if entry.1 = name then (entry.1, entry.2 ++ [value]) else entry) = (·.1) := by
        funext entry
        dsimp only [Function.comp_apply]
        split <;> rfl
      rw [hnames]
      exact headers.nodup
    · rename_i hnew
      rw [List.map_append, List.nodup_append]
      refine ⟨headers.nodup, List.nodup_singleton _, ?_⟩
      intro other ho last hl heq
      rw [List.map_singleton, List.mem_singleton] at hl
      rw [heq, hl] at ho
      exact hnew ho

/-- The first loop of `set_aside`: the message's headers, but not its `Nats-Msg-Id`. -/
def copyHeaders (message : Message) : HeaderMap :=
  ((message.headers.map HeaderMap.entries).getD []).foldl (fun headers (name, values) =>
    if name ≠ msgId then values.foldl (fun headers value => headers.append name value) headers
    else headers) .new

/-- The headers of the copy of a message that isn't an envelope. -/
def setAsideHeaders (endpoint error : String) (message : Message) : HeaderMap :=
  let headers := copyHeaders message
  let headers := headers.insert (ce ++ "errorendpoint") endpoint
  let headers := headers.insert (ce ++ "errortype") "invalid_envelope"
  headers.insert (ce ++ "errormessage") (oneLine error)

namespace NatsTransport

variable {Msg : Type}

/-- Moves a message that isn't an envelope to the error subject, then terminates it. -/
def setAside (transport : NatsTransport) (endpoint error : String) (message : Message) :
    Wire Msg (Except TransportError Unit) := do
  match ← (publishTo (errorSubject transport.subjectPrefix endpoint)
      (setAsideHeaders endpoint error message) message.payload).via .stream with
  | .error error => return .error error
  | .ok () => settle .term

/-- `NatsDelivery::read`. -/
def read (transport : NatsTransport) (message : Message) : Except String (Envelope × Nat) :=
  Nats.read transport.uuids transport.debug message

end NatsTransport

/-- A message that the consumer of an endpoint hands to one of the endpoint's instances. -/
structure Arrival (Msg : Type) where
  endpoint : Endpoint Msg
  source : Source
  /-- The message's place in the stream. -/
  sequence : Nat
  message : Message

/-- What the instance does with it. -/
def Arrival.handle {Msg : Type} (arrival : Arrival Msg) (transport : NatsTransport) :
    Wire Msg Unit :=
  match transport.read arrival.message with
  | .ok (envelope, attempt) =>
    (arrival.endpoint.process arrival.source ⟨envelope, attempt⟩).refine transport.wire
  | .error error => do
    let _ ← transport.setAside arrival.endpoint.name error arrival.message
    return ()

theorem Arrival.handle_of_ok {Msg : Type} {arrival : Arrival Msg} {transport : NatsTransport}
    {envelope : Envelope} {attempt : Nat}
    (h : transport.read arrival.message = .ok (envelope, attempt)) :
    arrival.handle transport =
      (arrival.endpoint.process arrival.source ⟨envelope, attempt⟩).refine transport.wire := by
  rw [Arrival.handle, h]

theorem Arrival.handle_of_error {Msg : Type} {arrival : Arrival Msg} {transport : NatsTransport}
    {error : String} (h : transport.read arrival.message = .error error) :
    arrival.handle transport =
      transport.setAside arrival.endpoint.name error arrival.message >>= fun _ => return () := by
  rw [Arrival.handle, h]

/-! ## The headers of a copy -/

namespace HeaderMap

theorem mem_insert {headers : HeaderMap} {name value other : String} {values : List String} :
    (other, values) ∈ (headers.insert name value).entries ↔
      (other = name ∧ values = [value]) ∨ (other ≠ name ∧ (other, values) ∈ headers.entries) := by
  unfold insert
  simp only [List.mem_append, List.mem_filter, List.mem_singleton, decide_eq_true_eq, Prod.mk.injEq]
  tauto

/-- A value more for a header that is the last one. -/
theorem entries_append_last {headers : HeaderMap} {before : List (String × List String)}
    {name : String} {values : List String} (value : String)
    (h : headers.entries = before ++ [(name, values)]) :
    (headers.append name value).entries = before ++ [(name, values ++ [value])] := by
  have hnew : name ∉ before.map (·.1) := by
    have hd := headers.nodup
    rw [h, List.map_append, List.nodup_append] at hd
    exact fun hm => hd.2.2 name hm name (List.mem_singleton.mpr rfl) rfl
  have hin : name ∈ headers.entries.map (·.1) := by
    rw [h]
    simp
  have hkept : before.map (fun entry => if entry.1 = name then (entry.1, entry.2 ++ [value]) else entry) =
      before := by
    refine (List.map_congr_left fun entry he => if_neg fun heq => hnew ?_).trans (List.map_id _)
    exact heq ▸ List.mem_map_of_mem he
  unfold append
  dsimp only
  rw [if_pos hin, h, List.map_append, hkept]
  simp

/-- The values of a header that isn't there yet, in order. -/
theorem entries_appendAll {headers : HeaderMap} {name : String} (values : List String)
    (h : name ∉ headers.entries.map (·.1)) :
    (values.foldl (fun headers value => headers.append name value) headers).entries =
      headers.entries ++ if values = [] then [] else [(name, values)] := by
  have more : ∀ (values done : List String) (headers' : HeaderMap),
      headers'.entries = headers.entries ++ [(name, done)] →
      (values.foldl (fun headers value => headers.append name value) headers').entries =
        headers.entries ++ [(name, done ++ values)] := by
    intro values
    induction values with
    | nil =>
      intro done headers' h
      rw [List.append_nil]
      exact h
    | cons value values ih =>
      intro done headers' h
      rw [List.foldl_cons, ih (done ++ [value]) _ (entries_append_last value h), List.append_assoc]
      rfl
  cases values with
  | nil => simp
  | cons value values =>
    have hfirst : (headers.append name value).entries = headers.entries ++ [(name, [value])] := by
      unfold append
      exact if_neg h
    rw [List.foldl_cons, more values [value] _ hfirst]
    simp

end HeaderMap

/-- Whether `set_aside` copies the header. -/
def isCopied (entry : String × List String) : Bool := entry.1 ≠ msgId ∧ entry.2 ≠ []

theorem entries_copyHeaders (message : Message) : (copyHeaders message).entries =
    ((message.headers.map HeaderMap.entries).getD []).filter isCopied := by
  have hloop : ∀ (entries : List (String × List String)) (headers : HeaderMap),
      (entries.map (·.1)).Nodup → (∀ entry ∈ entries, entry.1 ∉ headers.entries.map (·.1)) →
      (entries.foldl (fun headers (name, values) =>
        if name ≠ msgId then values.foldl (fun headers value => headers.append name value) headers
        else headers) headers).entries = headers.entries ++ entries.filter isCopied := by
    intro entries
    induction entries with
    | nil => simp
    | cons entry entries ih =>
      intro headers hd hnew
      obtain ⟨name, values⟩ := entry
      rw [List.map_cons, List.nodup_cons] at hd
      have hname := hnew _ List.mem_cons_self
      rw [List.foldl_cons]
      dsimp only
      by_cases hid : name = msgId
      · rw [if_neg (not_not.mpr hid), ih _ hd.2 fun other ho => hnew other (List.mem_cons_of_mem _ ho),
          List.filter_cons_of_neg (by simp [isCopied, hid])]
      · have hadded := HeaderMap.entries_appendAll values hname
        rw [if_pos hid, ih _ hd.2, hadded, List.append_assoc]
        · congr 1
          by_cases hv : values = []
          · rw [if_pos hv, List.filter_cons_of_neg (by simp [isCopied, hv])]
            rfl
          · rw [if_neg hv, List.filter_cons_of_pos (by simp [isCopied, hid, hv])]
            rfl
        · intro other ho hm
          rw [hadded, List.map_append, List.mem_append] at hm
          rcases hm with hm | hm
          · exact hnew other (List.mem_cons_of_mem _ ho) hm
          · split at hm
            · cases hm
            · rw [List.map_singleton, List.mem_singleton] at hm
              exact hd.1 (hm ▸ List.mem_map_of_mem ho)
  unfold copyHeaders
  rw [hloop _ _ ?_ fun _ _ => List.not_mem_nil]
  · rfl
  · cases message.headers with
    | none => exact List.nodup_nil
    | some headers => exact headers.nodup

/-- The copy of a message that isn't an envelope: it has the three headers of the error, no
    `Nats-Msg-Id`, and else the headers of the message that have a value. -/
structure SetAsideHeaders (endpoint error : String) (message : Message) (headers : HeaderMap) :
    Prop where
  errorendpoint : ("ce-errorendpoint", [endpoint]) ∈ headers.entries
  errortype : ("ce-errortype", ["invalid_envelope"]) ∈ headers.entries
  errormessage : ("ce-errormessage", [oneLine error]) ∈ headers.entries
  noMsgId : msgId ∉ headers.entries.map (·.1)
  others : ∀ name values,
    name ∉ [msgId, "ce-errorendpoint", "ce-errortype", "ce-errormessage"] →
    ((name, values) ∈ headers.entries ↔
      values ≠ [] ∧ (name, values) ∈ (message.headers.map HeaderMap.entries).getD [])

theorem setAsideHeaders_spec (endpoint error : String) (message : Message) :
    SetAsideHeaders endpoint error message (setAsideHeaders endpoint error message) := by
  have hmem : ∀ name values, (name, values) ∈ (setAsideHeaders endpoint error message).entries ↔
      (name = "ce-errormessage" ∧ values = [oneLine error]) ∨ (name ≠ "ce-errormessage" ∧
        ((name = "ce-errortype" ∧ values = ["invalid_envelope"]) ∨ (name ≠ "ce-errortype" ∧
          ((name = "ce-errorendpoint" ∧ values = [endpoint]) ∨ (name ≠ "ce-errorendpoint" ∧
            (name, values) ∈ ((message.headers.map HeaderMap.entries).getD []).filter isCopied))))) := by
    intro name values
    have hendpoint : ce ++ "errorendpoint" = "ce-errorendpoint" := rfl
    have htype : ce ++ "errortype" = "ce-errortype" := rfl
    have hmessage : ce ++ "errormessage" = "ce-errormessage" := rfl
    unfold setAsideHeaders
    dsimp only
    rw [HeaderMap.mem_insert, HeaderMap.mem_insert, HeaderMap.mem_insert, entries_copyHeaders,
      hendpoint, htype, hmessage]
  have hother : msgId ≠ "ce-errorendpoint" ∧ msgId ≠ "ce-errortype" ∧ msgId ≠ "ce-errormessage" := by
    decide
  constructor
  · rw [hmem]
    simp
  · rw [hmem]
    simp
  · rw [hmem]
    simp
  · intro hm
    obtain ⟨⟨name, values⟩, hin, rfl⟩ := List.mem_map.mp hm
    rw [hmem] at hin
    simp [hother, isCopied] at hin
  · intro name values hname
    rw [hmem]
    simp only [List.mem_cons, List.not_mem_nil, or_false, not_or] at hname
    simp [hname, isCopied, and_comm]

/-! ## What an operation asks of JetStream -/

section Wire

variable {Msg : Type} {transport : NatsTransport}

/-- The kind that an operation of an endpoint settles with. -/
def ackKind : Op Msg → Option AckKind
  | .ack => some .ack
  | .retry delay => some (.nak delay)
  | .reject => some .term
  | _ => none

theorem op_of_ackKind_ack {op : Op Msg} (h : ackKind op = some .ack) : op = .ack := by
  unfold ackKind at h
  split at h
  · rfl
  all_goals cases h

theorem op_of_ackKind_term {op : Op Msg} (h : ackKind op = some .term) : op = .reject := by
  unfold ackKind at h
  split at h
  · cases h
  · cases h
  · rfl
  · cases h

/-- An event of a handler or a store, as it is. -/
def passed (e : HandlingEvent Msg) : WireEvent Msg := ⟨.pass e.op, e.reply⟩

/-- A publish that the stream acknowledged. -/
def acknowledged (subject : String) (headers : HeaderMap) (data : List UInt8) :
    List (WireEvent Msg) :=
  [⟨.stream (.publish subject headers data), .ok ()⟩, ⟨.stream .acknowledgement, .ok ()⟩]

theorem after_settle {kind : AckKind} {evs : List (WireEvent Msg)}
    {q : Wire Msg (Except TransportError Unit)} (h : After (NatsTransport.settle kind) evs q) :
    evs = [] ∨ ∃ reply, evs = [⟨.settle kind, reply⟩] ∧ ∃ result, q = .ret result := by
  cases h with
  | nil => exact Or.inl rfl
  | @cons _ _ reply _ _ h =>
    refine Or.inr ⟨reply, ?_⟩
    cases reply with
    | error error =>
      cases h
      exact ⟨rfl, _, rfl⟩
    | ok _ =>
      cases h
      exact ⟨rfl, _, rfl⟩

/-- An operation that asks to settle is over with it. -/
theorem wire_settles {op : Op Msg} {evs : List (WireEvent Msg)} {q : Wire Msg (Ret Msg op)}
    (h : After (transport.wire op) evs q) {kind : AckKind} {reply : Except String Unit}
    (hm : ⟨.settle kind, reply⟩ ∈ evs) : ackKind op = some kind ∧ ∃ r, q = .ret r := by
  have settles {kind' : AckKind} {q : Wire Msg (Except TransportError Unit)}
      (h : After (NatsTransport.settle kind') evs q) : kind' = kind ∧ ∃ r, q = .ret r := by
    rcases after_settle h with rfl | ⟨reply', rfl, hq⟩
    · cases hm
    · cases List.mem_singleton.mp hm
      exact ⟨rfl, hq⟩
  have streams {α : Type} {p : Publishing α} {q : Wire Msg α} (h : After (p.via .stream) evs q) :
      False := by
    obtain ⟨op, hop⟩ := (Prog.only_via (f := WireOp.stream) p).after h _ hm
    cases hop
  have passes {op : Op Msg} {q : Wire Msg (Ret Msg op)}
      (h : After (NatsTransport.ask (.pass op)) evs q) : False := by
    cases h with
    | nil => cases hm
    | cons h =>
      cases h
      cases List.mem_singleton.mp hm
  cases op with
  | publish envelope => exact (streams h).elim
  | publishError endpoint envelope => exact (streams h).elim
  | ack =>
    obtain ⟨rfl, hq⟩ := settles h
    exact ⟨rfl, hq⟩
  | retry delay =>
    obtain ⟨rfl, hq⟩ := settles h
    exact ⟨rfl, hq⟩
  | reject =>
    obtain ⟨rfl, hq⟩ := settles h
    exact ⟨rfl, hq⟩
  | _ => exact (passes h).elim

theorem run_wire_pass {op : Op Msg} (hop : op.InPipeline) {evs : List (WireEvent Msg)}
    {reply : Ret Msg op} (h : Run (transport.wire op) evs reply) : evs = [passed ⟨op, reply⟩] := by
  cases op with
  | publish | publishError => exact absurd hop.2 (by simp [Op.sends])
  | ack | retry | reject => exact absurd hop.1 (by simp [Op.settles])
  | _ => exact (Prog.run_perform _ _ _).mp h

theorem run_publishTo {subject : String} {headers : HeaderMap} {data : List UInt8}
    {evs : List (WireEvent Msg)}
    (h : Run ((publishTo subject headers data).via .stream : Wire Msg _) evs (.ok ())) :
    evs = acknowledged subject headers data := by
  rw [publishTo, jetstream, Prog.perform_bind, Prog.via, Prog.run_call] at h
  obtain ⟨sent, rest, rfl, h⟩ := h
  cases sent with
  | error error => cases ((Prog.run_ret _ _ _).mp h).2
  | ok _ =>
    rw [jetstream, Prog.perform_bind, Prog.via, Prog.run_call] at h
    obtain ⟨taken, rest, rfl, h⟩ := h
    cases taken with
    | error error => cases ((Prog.run_ret _ _ _).mp h).2
    | ok _ =>
      obtain ⟨rfl, _⟩ := (Prog.run_ret _ _ _).mp h
      rfl

theorem run_wire_publish {envelope : Envelope} {evs : List (WireEvent Msg)}
    (h : Run (transport.wire (.publish envelope)) evs (.ok ())) : ∃ written,
      headers transport.uuids transport.refusal envelope = .ok written ∧
      evs = acknowledged (subject transport.subjectPrefix envelope.messageType) written
        envelope.data := by
  have hpublish : Run ((publish transport.uuids transport.refusal transport.subjectPrefix
      envelope).via .stream : Wire Msg _) evs (.ok ()) := h
  unfold publish at hpublish
  split at hpublish
  · cases hpublish
  · rename_i written hwritten
    exact ⟨written, hwritten, run_publishTo hpublish⟩

end Wire

/-! ## What an arrival publishes -/

section Publishes

variable {Msg : Type} {transport : NatsTransport}

/-- An error copy is for the endpoint. -/
def CopiesTo (endpoint : String) : Op Msg → Prop
  | .publishError name _ => name = endpoint
  | _ => True

theorem copiesTo_inPipeline {endpoint : String} {op : Op Msg} (h : op.InPipeline) :
    CopiesTo endpoint op := by
  cases op with
  | publishError => exact absurd h.2 (by simp [Op.sends])
  | _ => trivial

theorem process_copiesTo (endpoint : Endpoint Msg) (source : Source) (delivery : Delivery) :
    Only (CopiesTo endpoint.name) (endpoint.process source delivery) := by
  have giveUp_copiesTo (error : HandlerError) :
      Only (CopiesTo endpoint.name) (endpoint.giveUp delivery error) := by
    refine ⟨rfl, ?_⟩
    intro reply
    cases reply <;> exact ⟨trivial, fun _ => trivial⟩
  have sendHeld_copiesTo (held : List Envelope) :
      Only (CopiesTo endpoint.name) (sendHeld held : Handling Msg _) := by
    induction held with
    | nil => trivial
    | cons envelope held ih =>
      refine ⟨trivial, ?_⟩
      intro reply
      cases reply with
      | error error => trivial
      | ok _ => exact ih
  have hhandle : Only (CopiesTo endpoint.name) (endpoint.handleAndSend source delivery) := by
    have hrun : Only (CopiesTo endpoint.name)
        (endpoint.pipeline.run (endpoint.context source delivery)) :=
      (endpoint.pipeline.run_only _).mono fun _ h => copiesTo_inPipeline h
    apply hrun.bind
    intro outcome
    cases outcome with
    | error failure => trivial
    | ok held => exact sendHeld_copiesTo held
  refine hhandle.bind fun result => Only.bind ?_ fun _ => trivial
  match result with
  | .ok () => exact ⟨trivial, fun _ => trivial⟩
  | .error (.undecodable error) => exact giveUp_copiesTo error
  | .error (.handler error) =>
    unfold Endpoint.settle
    dsimp only
    split
    · exact ⟨trivial, fun _ => trivial⟩
    · exact giveUp_copiesTo error

/-- A publish is of an envelope on its type's subject, or on the endpoint's error subject. A handler
    is shown the envelope. -/
def OwnOp (transport : NatsTransport) (endpoint : String) (envelope : Option Envelope) :
    WireOp Msg → Prop
  | .stream (.publish place written data) => (∃ sent,
      headers transport.uuids transport.refusal sent = .ok written ∧
      place = subject transport.subjectPrefix sent.messageType ∧ data = sent.data) ∨
    place = errorSubject transport.subjectPrefix endpoint
  | .pass (.handle _ shown) => envelope = some shown.envelope
  | _ => True

theorem publishTo_ownOp {endpoint place : String} {envelope : Option Envelope}
    {written : HeaderMap} {data : List UInt8}
    (h : OwnOp transport endpoint envelope (.stream (.publish place written data) : WireOp Msg)) :
    Only (OwnOp transport endpoint envelope)
      ((publishTo place written data).via .stream : Wire Msg _) := by
  refine ⟨h, fun sent => ?_⟩
  cases sent with
  | error error => trivial
  | ok _ =>
    refine ⟨trivial, fun taken => ?_⟩
    cases taken <;> trivial

theorem settle_ownOp {endpoint : String} {envelope : Option Envelope} (kind : AckKind) :
    Only (OwnOp transport endpoint envelope) (NatsTransport.settle kind : Wire Msg _) := by
  refine ⟨trivial, fun reply => ?_⟩
  cases reply <;> trivial

theorem wire_ownOp {endpoint : String} {envelope : Envelope} (op : Op Msg)
    (hcopies : CopiesTo endpoint op) (hproper : op.Proper envelope) :
    Only (OwnOp transport endpoint (some envelope)) (transport.wire op) := by
  cases op with
  | publish sent =>
    have hpublish : Only (OwnOp transport endpoint (some envelope))
        ((publish transport.uuids transport.refusal transport.subjectPrefix sent).via .stream :
          Wire Msg _) := by
      unfold publish
      split
      · trivial
      · rename_i written hwritten
        exact publishTo_ownOp (Or.inl ⟨sent, hwritten, rfl, rfl⟩)
    exact hpublish
  | publishError name copy =>
    refine publishTo_ownOp (Or.inr ?_)
    rw [show name = endpoint from hcopies]
  | ack => exact settle_ownOp _
  | retry delay => exact settle_ownOp _
  | reject => exact settle_ownOp _
  | handle message shown => exact ⟨congrArg some hproper.symm, fun _ => trivial⟩
  | _ => exact ⟨trivial, fun _ => trivial⟩

theorem handle_ownOp (arrival : Arrival Msg) (transport : NatsTransport) :
    Only (OwnOp transport arrival.endpoint.name
      ((transport.read arrival.message).toOption.map (·.1))) (arrival.handle transport) := by
  cases hread : transport.read arrival.message with
  | ok found =>
    obtain ⟨envelope, attempt⟩ := found
    rw [Arrival.handle_of_ok hread]
    have hboth := (process_copiesTo arrival.endpoint arrival.source ⟨envelope, attempt⟩).and
      (arrival.endpoint.process_proper arrival.source ⟨envelope, attempt⟩)
    exact hboth.refine fun op h => wire_ownOp op h.1 h.2
  | error error =>
    rw [Arrival.handle_of_error hread]
    refine Only.bind ((publishTo_ownOp (Or.inr rfl)).bind fun result => ?_) fun _ => trivial
    cases result with
    | error error => trivial
    | ok _ => exact settle_ownOp _

end Publishes

/-! ## Stopped runs that settled -/

section Settled

variable {Msg : Type} {transport : NatsTransport} {kind : AckKind} {reply : Except String Unit}

/-- A handling that settled its message did so with its last operation, after all the others. -/
theorem settled_process {endpoint : Endpoint Msg} {source : Source} {delivery : Delivery}
    {evs : List (WireEvent Msg)} {q : Wire Msg Unit}
    (h : After ((endpoint.process source delivery).refine transport.wire) evs q)
    (hm : ⟨.settle kind, reply⟩ ∈ evs) : ∃ outcome handling sends copies last,
      Settlement endpoint source delivery outcome handling sends copies last ∧
      Blocks transport.wire (handling ++ sends ++ copies ++ [last]) evs ∧
      ackKind last.op = some kind := by
  obtain ⟨done, rest, whole, part, hdone, rfl, hblocks, ⟨e, he, hkind⟩, hpart⟩ :=
    Prog.after_refine_over h hm fun op part left hop hin => wire_settles hop hin
  have hsettles : e.op.settles = true := by
    unfold ackKind at hkind
    unfold Op.settles
    split at hkind
    · simp_all
    · simp_all
    · simp_all
    · cases hkind
  rcases hpart with rfl | ⟨op, next, rfl⟩
  · obtain ⟨more, _, hrun⟩ := hdone.complete Ret.nonempty
    obtain ⟨outcome, handling, sends, copies, last, hmore, hs⟩ := Endpoint.run_process hrun
    obtain ⟨rfl, rfl⟩ := hs.settled_last hmore he hsettles
    exact ⟨outcome, handling, sends, copies, e, hs, by rwa [List.append_nil], hkind⟩
  · -- No operation begins after the settlement.
    obtain ⟨r⟩ := Ret.nonempty op
    obtain ⟨more, _, hrun⟩ := (hdone.snoc r).complete Ret.nonempty
    obtain ⟨outcome, handling, sends, copies, last, hmore, hs⟩ := Endpoint.run_process hrun
    rw [List.append_assoc] at hmore
    have hlast := (hs.settled_last hmore he hsettles).1
    rw [← hlast] at hmore
    simp at hmore

theorem after_setAside {endpoint error : String} {message : Message}
    {evs : List (WireEvent Msg)} {q : Wire Msg (Except TransportError Unit)}
    (h : After (transport.setAside endpoint error message) evs q)
    (hm : ⟨.settle kind, reply⟩ ∈ evs) : kind = .term ∧ evs =
      acknowledged (errorSubject transport.subjectPrefix endpoint)
        (setAsideHeaders endpoint error message) message.payload ++ [⟨.settle .term, reply⟩] := by
  have streams {p : Publishing (Except TransportError Unit)} {first : List (WireEvent Msg)}
      {q : Wire Msg (Except TransportError Unit)} (h : After (p.via .stream) first q) :
      ⟨.settle kind, reply⟩ ∉ first := by
    intro hin
    obtain ⟨op, hop⟩ := (Prog.only_via (f := WireOp.stream) p).after h _ hin
    cases hop
  rcases h.bind_cases with ⟨left, hfirst⟩ | ⟨first, result, more, rfl, hfirst, hrest⟩
  · exact absurd hm (streams hfirst)
  · have hmore := (List.mem_append.mp hm).resolve_left (streams hfirst)
    cases result with
    | error error =>
      cases hrest
      cases hmore
    | ok _ =>
      rcases after_settle hrest with rfl | ⟨reply', rfl, _⟩
      · cases hmore
      · cases List.mem_singleton.mp hmore
        rw [run_publishTo hfirst]
        exact ⟨rfl, rfl⟩

/-- A message that isn't an envelope is terminated after its copy was acknowledged. -/
theorem settled_setAside {endpoint error : String} {message : Message}
    {evs : List (WireEvent Msg)} {q : Wire Msg Unit}
    (h : After (transport.setAside endpoint error message >>= fun _ => return ()) evs q)
    (hm : ⟨.settle kind, reply⟩ ∈ evs) : kind = .term ∧ evs =
      acknowledged (errorSubject transport.subjectPrefix endpoint)
        (setAsideHeaders endpoint error message) message.payload ++ [⟨.settle .term, reply⟩] := by
  rcases h.bind_cases with ⟨left, hfirst⟩ | ⟨first, result, more, rfl, hfirst, hret⟩
  · exact after_setAside hfirst hm
  · cases hret
    rw [List.append_nil] at hm ⊢
    exact after_setAside hfirst hm

end Settled

end SisaMessaging.Nats
