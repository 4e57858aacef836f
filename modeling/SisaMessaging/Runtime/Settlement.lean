/-
  Settlement: what one run of `Endpoint.process` does, for every reply of handlers, stores and
  broker, and what this gives for a broker whose messages many deliveries handle at once.

  `Pipeline.run_ok` says what a successful handling did. `Settlement` is the law of one delivery:
  the pipeline's events, the sends, the error copy, and one settlement that they decide.
  `broker` is the system of all deliveries: a message leaves its endpoint on an ack or a reject.
-/
import Mathlib.Data.Set.Insert
import SisaMessaging.Lib.Pool
import SisaMessaging.Runtime.Endpoint

namespace SisaMessaging.Runtime

open SisaMessaging.Core SisaMessaging.Lib
open SisaMessaging.Lib.Prog (Run After Only run_bind run_pure)

variable {Msg : Type}

abbrev HandlingEvent (Msg : Type) := Event (Op Msg) (Ret Msg)

/-- The operation settles the delivery. -/
def Op.settles : Op Msg → Bool
  | .ack | .retry _ | .reject => true
  | _ => false

/-- The operation publishes to the broker. -/
def Op.sends : Op Msg → Bool
  | .publish _ | .publishError _ _ => true
  | _ => false

/-- The operation is a handler's or a store's. -/
def Op.InPipeline (op : Op Msg) : Prop := op.settles = false ∧ op.sends = false

/-! ## The pipeline -/

section Pipeline

variable {T : Type} [InboxTransaction T]

theorem dropTransaction_only (transaction : T) :
    Only Op.InPipeline (dropTransaction transaction : Handling Msg Unit) := by
  unfold dropTransaction
  split
  · exact ⟨⟨rfl, rfl⟩, fun _ => trivial⟩
  · trivial

theorem Typed.decodeAndHandle_only (typed : Typed Msg) (context : HandlerContext T) :
    Only Op.InPipeline (typed.decodeAndHandle context) := by
  unfold decodeAndHandle
  split
  · trivial
  · split
    · trivial
    · trivial
    · refine ⟨⟨rfl, rfl⟩, ?_⟩
      rintro ⟨published, ended⟩
      cases ended <;> trivial

-- The decoder counts by its lemma only.
attribute [local irreducible] Typed.decodeAndHandle

theorem Typed.handle_only (typed : Typed Msg) (context : HandlerContext T) :
    Only Op.InPipeline (typed.handle context) := by
  apply (typed.decodeAndHandle_only context).bind
  intro outcome
  split
  · trivial
  · exact (dropTransaction_only _).bind fun _ => trivial
  · exact (dropTransaction_only _).bind fun _ => trivial

theorem ErasedHandler.handle_only (handler : ErasedHandler Msg) (context : HandlerContext T) :
    Only Op.InPipeline (handler.handle context) := by
  cases handler with
  | typed handler => exact handler.handle_only context
  | withoutTransaction handler =>
    apply (handler.handle_only _).bind
    intro outcome
    split
    · trivial
    · exact (dropTransaction_only _).bind fun _ => trivial
    · exact (dropTransaction_only _).bind fun _ => trivial

theorem call_only (handler : ErasedHandler Msg) (context : HandlerContext T) :
    Only Op.InPipeline (call handler context) := by
  apply (handler.handle_only context).bind
  intro outcome
  split <;> trivial

end Pipeline

theorem HandlerOutbox.write_only (outbox : HandlerOutbox) (transaction : Transaction)
    (held : List Envelope) :
    Only Op.InPipeline (outbox.write transaction held : Handling Msg _) := by
  cases outbox with
  | noOutbox => trivial
  | store =>
    unfold write
    dsimp only
    split
    · trivial
    · refine ⟨⟨rfl, rfl⟩, ?_⟩
      intro reply
      cases reply <;> trivial

theorem runRecorded_only (handler : ErasedHandler Msg) (outbox : HandlerOutbox)
    (context : HandlerContext Transaction) :
    Only Op.InPipeline (runRecorded handler outbox context) := by
  apply (call_only handler context).bind
  intro called
  cases called with
  | error failure => trivial
  | ok handled =>
    apply (outbox.write_only _ _).bind
    intro written
    cases written with
    | error error => exact ⟨⟨rfl, rfl⟩, fun _ => trivial⟩
    | ok held =>
      refine ⟨⟨rfl, rfl⟩, ?_⟩
      intro reply
      cases reply <;> trivial

/-- A pipeline publishes nothing to the broker and settles nothing. -/
theorem Pipeline.run_only (pipeline : Pipeline Msg) (context : HandlerContext Unit) :
    Only Op.InPipeline (pipeline.run context) := by
  cases pipeline with
  | plain endpoint handlers =>
    unfold run
    dsimp only
    split
    · trivial
    · apply (call_only _ context).bind
      intro called
      cases called <;> trivial
  | transactional endpoint handlers outbox =>
    unfold run
    dsimp only
    split
    · trivial
    · refine ⟨⟨rfl, rfl⟩, ?_⟩
      intro begun
      cases begun with
      | error error => trivial
      | ok transaction =>
        refine ⟨⟨rfl, rfl⟩, ?_⟩
        intro recorded
        match recorded with
        | .error error => exact ⟨⟨rfl, rfl⟩, fun _ => trivial⟩
        | .ok false =>
          refine ⟨⟨rfl, rfl⟩, ?_⟩
          intro reply
          cases reply <;> trivial
        | .ok true => exact runRecorded_only _ _ _

/-! ## Successful handlings -/

theorem run_perform_bind {α : Type} (op : Op Msg) (f : Ret Msg op → Handling Msg α)
    (evs : List (HandlingEvent Msg)) (a : α) : Run (perform op >>= f) evs a ↔
      ∃ r rest, evs = ⟨op, r⟩ :: rest ∧ Run (f r) rest a :=
  Prog.run_perform_bind op f evs a

section Success

variable {T : Type} [InboxTransaction T]

/-- The handler ran once, on the delivered envelope, and returned. -/
def RanOnce (context handled : HandlerContext T) (evs : List (HandlingEvent Msg)) : Prop :=
  ∃ message shown published, evs = [⟨.handle message shown, (published, .ok)⟩] ∧
    shown.envelope = context.envelope ∧ handled = context.publish published

theorem Typed.decodeAndHandle_ok {typed : Typed Msg} {context handled : HandlerContext T}
    {evs : List (HandlingEvent Msg)}
    (h : Run (typed.decodeAndHandle context) evs (.returned (.ok handled))) :
    RanOnce context handled evs := by
  unfold decodeAndHandle at h
  split at h
  · simp at h
  · split at h
    · simp at h
    · simp at h
    · rw [run_perform_bind] at h
      obtain ⟨⟨published, ended⟩, rest, rfl, h⟩ := h
      cases ended with
      | ok =>
        simp only [run_pure, Outcome.returned.injEq, Except.ok.injEq] at h
        obtain ⟨rfl, rfl⟩ := h
        exact ⟨_, _, published, rfl, rfl, rfl⟩
      | failed error => simp at h
      | panicked message => simp at h

theorem Typed.handle_ok {typed : Typed Msg} {context handled : HandlerContext T}
    {evs : List (HandlingEvent Msg)}
    (h : Run (typed.handle context) evs (.returned (.ok handled))) :
    RanOnce context handled evs := by
  unfold handle at h
  rw [run_bind] at h
  obtain ⟨first, outcome, rest, rfl, hd, h⟩ := h
  split at h
  · simp only [run_pure, Outcome.returned.injEq, Except.ok.injEq] at h
    obtain ⟨rfl, rfl⟩ := h
    rw [List.append_nil]
    exact decodeAndHandle_ok hd
  · simp [run_bind] at h
  · simp [run_bind] at h

theorem ErasedHandler.handle_ok {handler : ErasedHandler Msg} {context handled : HandlerContext T}
    {evs : List (HandlingEvent Msg)}
    (h : Run (handler.handle context) evs (.returned (.ok handled))) :
    RanOnce context handled evs := by
  cases handler with
  | typed handler => exact Typed.handle_ok h
  | withoutTransaction handler =>
    unfold handle at h
    dsimp only at h
    rw [run_bind] at h
    obtain ⟨first, outcome, rest, rfl, hh, h⟩ := h
    split at h
    · simp only [run_pure, Outcome.returned.injEq, Except.ok.injEq] at h
      obtain ⟨rfl, rfl⟩ := h
      obtain ⟨message, shown, published, rfl, hs, rfl⟩ := Typed.handle_ok hh
      exact ⟨message, shown, published, rfl, hs, rfl⟩
    · simp [run_bind] at h
    · simp [run_bind] at h

theorem call_ok {handler : ErasedHandler Msg} {context handled : HandlerContext T}
    {evs : List (HandlingEvent Msg)} (h : Run (call handler context) evs (.ok handled)) :
    RanOnce context handled evs := by
  unfold call at h
  rw [run_bind] at h
  obtain ⟨first, outcome, rest, rfl, hh, h⟩ := h
  split at h
  · simp only [run_pure] at h
    obtain ⟨rfl, rfl⟩ := h
    rw [List.append_nil]
    exact ErasedHandler.handle_ok hh
  · simp at h

end Success

/-- The events of a successful handling of the envelope: a handler that returned and, with an
    inbox, a commit at the end. There a receipt found instead of a handler is enough. -/
def Handled (envelope : Envelope) (handling : List (HandlingEvent Msg)) : Pipeline Msg → Prop
  | .plain _ _ => ∃ message shown published,
      handling = [⟨.handle message shown, (published, .ok)⟩] ∧ shown.envelope = envelope
  | .transactional endpoint _ _ => ∃ before transaction,
      handling = before ++ [⟨.commit transaction, .ok ()⟩] ∧
      (⟨.record transaction endpoint envelope, .ok false⟩ ∈ before ∨
        ∃ message shown published,
          ⟨.handle message shown, (published, .ok)⟩ ∈ before ∧ shown.envelope = envelope)

theorem runRecorded_ok {handler : ErasedHandler Msg} {outbox : HandlerOutbox}
    {context : HandlerContext Transaction} {evs : List (HandlingEvent Msg)} {held : List Envelope}
    (h : Run (runRecorded handler outbox context) evs (.ok held)) :
    ∃ before transaction message shown published,
      evs = before ++ [⟨.commit transaction, .ok ()⟩] ∧
      ⟨.handle message shown, (published, .ok)⟩ ∈ before ∧ shown.envelope = context.envelope := by
  unfold runRecorded at h
  rw [run_bind] at h
  obtain ⟨ran, called, rest, rfl, hc, h⟩ := h
  cases called with
  | error failure => simp at h
  | ok handled =>
    obtain ⟨message, shown, published, rfl, hs, rfl⟩ := call_ok hc
    dsimp only at h
    rw [run_bind] at h
    obtain ⟨wrote, written, rest, rfl, _, h⟩ := h
    cases written with
    | error error => simp [run_bind] at h
    | ok held =>
      dsimp only at h
      rw [run_perform_bind] at h
      obtain ⟨reply, rest, rfl, h⟩ := h
      cases reply with
      | error error => simp at h
      | ok _ =>
        simp only [run_pure] at h
        obtain ⟨rfl, _⟩ := h
        exact ⟨⟨.handle message shown, (published, .ok)⟩ :: wrote, _, message, shown, published,
          rfl, List.mem_cons_self, hs⟩

theorem Pipeline.run_ok {pipeline : Pipeline Msg} {context : HandlerContext Unit}
    {evs : List (HandlingEvent Msg)} {held : List Envelope}
    (h : Run (pipeline.run context) evs (.ok held)) : Handled context.envelope evs pipeline := by
  cases pipeline with
  | plain endpoint handlers =>
    unfold run at h
    dsimp only at h
    split at h
    · simp at h
    · rw [run_bind] at h
      obtain ⟨ran, called, rest, rfl, hc, h⟩ := h
      cases called with
      | error failure => simp at h
      | ok handled =>
        obtain ⟨message, shown, published, rfl, hs, rfl⟩ := call_ok hc
        simp only [run_pure] at h
        obtain ⟨rfl, _⟩ := h
        exact ⟨message, shown, published, rfl, hs⟩
  | transactional endpoint handlers outbox =>
    unfold run at h
    dsimp only at h
    split at h
    · simp at h
    · rw [run_perform_bind] at h
      obtain ⟨begun, rest, rfl, h⟩ := h
      cases begun with
      | error error => simp at h
      | ok transaction =>
        dsimp only at h
        rw [run_perform_bind] at h
        obtain ⟨recorded, rest, rfl, h⟩ := h
        rcases recorded with error | (_ | _)
        · simp [run_bind] at h
        · dsimp only at h
          rw [run_perform_bind] at h
          obtain ⟨reply, rest, rfl, h⟩ := h
          cases reply with
          | error error => simp at h
          | ok _ =>
            simp only [run_pure] at h
            obtain ⟨rfl, _⟩ := h
            exact ⟨[⟨.begin, .ok transaction⟩, ⟨.record transaction endpoint context.envelope,
              .ok false⟩], transaction, rfl, Or.inl (by simp)⟩
        · obtain ⟨before, t, message, shown, published, rfl, hm, hs⟩ := runRecorded_ok h
          exact ⟨⟨.begin, .ok transaction⟩ :: ⟨.record transaction endpoint context.envelope,
            .ok true⟩ :: before, t, rfl, Or.inr ⟨message, shown, published,
            List.mem_cons_of_mem _ (List.mem_cons_of_mem _ hm), hs⟩⟩

/-! ## Sends -/

/-- Publishes that the broker accepted, in order. -/
def accepted (held : List Envelope) : List (HandlingEvent Msg) :=
  held.map fun envelope => ⟨.publish envelope, .ok ()⟩

theorem refused_not_mem_accepted (held : List Envelope) (envelope : Envelope)
    (error : TransportError) :
    (⟨.publish envelope, .error error⟩ : HandlingEvent Msg) ∉ accepted held := by
  intro h
  obtain ⟨other, _, he⟩ := List.mem_map.mp h
  simp only [Event.mk.injEq, Op.publish.injEq] at he
  obtain ⟨rfl, he⟩ := he
  cases he

/-- The handling failed, or the broker refused one of its held publishes after it accepted the
    ones before. -/
def FailedWith (outcome : Except Failure (List Envelope)) (sends : List (HandlingEvent Msg))
    (failure : Failure) : Prop :=
  (outcome = .error failure ∧ sends = []) ∨
    ∃ before envelope after error, outcome = .ok (before ++ envelope :: after) ∧
      sends = accepted before ++ [⟨.publish envelope, .error error⟩] ∧
      failure = .handler (.ofTransport error)

theorem run_sendHeld {held : List Envelope} {evs : List (HandlingEvent Msg)}
    {result : Except Failure Unit} (h : Run (sendHeld held) evs result) :
    (result = .ok () ∧ evs = accepted held) ∨
      ∃ failure, result = .error failure ∧ FailedWith (.ok held) evs failure := by
  induction held generalizing evs with
  | nil =>
    obtain ⟨rfl, rfl⟩ := (run_pure _ _ _).mp h
    exact Or.inl ⟨rfl, rfl⟩
  | cons envelope held ih =>
    unfold sendHeld at h
    rw [run_perform_bind] at h
    obtain ⟨reply, rest, rfl, h⟩ := h
    cases reply with
    | error error =>
      obtain ⟨rfl, rfl⟩ := (run_pure _ _ _).mp h
      exact Or.inr ⟨_, rfl, Or.inr ⟨[], envelope, held, error, rfl, rfl, rfl⟩⟩
    | ok _ =>
      rcases ih h with ⟨rfl, rfl⟩ | ⟨failure, rfl, hf⟩
      · exact Or.inl ⟨rfl, rfl⟩
      · refine Or.inr ⟨failure, rfl, ?_⟩
        rcases hf with ⟨hf, _⟩ | ⟨before, refused, after, error, hok, rfl, rfl⟩
        · cases hf
        · rw [Except.ok.injEq] at hok
          subst hok
          exact Or.inr ⟨envelope :: before, refused, after, error, rfl, rfl, rfl⟩

theorem FailedWith.not_accepted {outcome : Except Failure (List Envelope)}
    {sends : List (HandlingEvent Msg)} {failure : Failure} (h : FailedWith outcome sends failure)
    (held : List Envelope) : ¬ (outcome = .ok held ∧ sends = accepted held) := by
  rintro ⟨rfl, rfl⟩
  rcases h with ⟨h, _⟩ | ⟨before, envelope, after, error, _, h, _⟩
  · cases h
  · apply refused_not_mem_accepted held envelope error
    rw [h]
    simp

theorem FailedWith.sends_publish {outcome : Except Failure (List Envelope)}
    {sends : List (HandlingEvent Msg)} {failure : Failure} (h : FailedWith outcome sends failure)
    {e : HandlingEvent Msg} (he : e ∈ sends) :
    ∃ held envelope, outcome = .ok held ∧ envelope ∈ held ∧ e.op = .publish envelope := by
  rcases h with ⟨_, rfl⟩ | ⟨before, envelope, after, error, rfl, rfl, _⟩
  · cases he
  · rcases List.mem_append.mp he with he | he
    · obtain ⟨sent, hs, rfl⟩ := List.mem_map.mp he
      exact ⟨_, sent, rfl, List.mem_append_left _ hs, rfl⟩
    · rw [List.mem_singleton] at he
      subst he
      exact ⟨_, envelope, rfl, by simp, rfl⟩

/-! ## The error copy -/

/-- The extensions an error copy has besides those of the message. -/
def errorExtensions : List String := ["errorendpoint", "errortype", "errormessage", "errorattempts"]

/-- The delivered envelope with the four error extensions set, and nothing else changed. -/
structure ErrorCopy (endpoint : String) (delivery : Delivery) (error : HandlerError)
    (copy : Envelope) : Prop where
  fields : { copy with extensions := delivery.envelope.extensions } = delivery.envelope
  others : ∀ name, name ∉ errorExtensions →
    copy.extensions.map[name]? = delivery.envelope.extensions.map[name]?
  errorendpoint : copy.extensions.map["errorendpoint"]? = some endpoint
  errortype : copy.extensions.map["errortype"]? = some error.errorType
  errormessage : copy.extensions.map["errormessage"]? = some error.message
  errorattempts : copy.extensions.map["errorattempts"]? = some (toString delivery.attempt)

theorem errorEnvelope_errorCopy (endpoint : String) (delivery : Delivery) (error : HandlerError) :
    ErrorCopy endpoint delivery error
      (errorEnvelope delivery.envelope endpoint error delivery.attempt) where
  fields := rfl
  others := by
    intro name hn
    simp only [errorExtensions, List.mem_cons, List.not_mem_nil, or_false, not_or] at hn
    obtain ⟨h1, h2, h3, h4⟩ := hn
    simp [errorEnvelope, expectInsert, Std.ExtTreeMap.getElem?_insert, Ne.symm h1, Ne.symm h2,
      Ne.symm h3, Ne.symm h4]
  errorendpoint := by simp [errorEnvelope, expectInsert, Std.ExtTreeMap.getElem_insert]
  errortype := by simp [errorEnvelope, expectInsert, Std.ExtTreeMap.getElem_insert]
  errormessage := by simp [errorEnvelope, expectInsert, Std.ExtTreeMap.getElem_insert]
  errorattempts := by simp [errorEnvelope, expectInsert]

/-! ## One delivery -/

/-- Giving up on a failure: nothing can fix it, or this was the last attempt. -/
def Endpoint.GivesUpOn (endpoint : Endpoint Msg) (delivery : Delivery) (error : HandlerError)
    (failure : Failure) : Prop :=
  failure = .undecodable error ∨
    failure = .handler error ∧ endpoint.retry.isLast delivery.attempt = true

/-- The law of one delivery: the pipeline's events, then the held publishes, then the error copy,
    and last the one settlement, which these decide. -/
structure Settlement (endpoint : Endpoint Msg) (source : Source) (delivery : Delivery)
    (outcome : Except Failure (List Envelope))
    (handling sends copies : List (HandlingEvent Msg)) (last : HandlingEvent Msg) : Prop where
  ran : Run (endpoint.pipeline.run (endpoint.context source delivery)) handling outcome
  inPipeline : ∀ e ∈ handling, e.op.InPipeline
  held : ∀ e ∈ sends, ∃ held envelope,
    outcome = .ok held ∧ envelope ∈ held ∧ e.op = .publish envelope
  copied : ∀ e ∈ copies, ∃ copy, e.op = .publishError endpoint.name copy
  noCopy : last.op = .ack → copies = []
  settles : last.op.settles = true
  ack : last.op = .ack ↔ ∃ held, outcome = .ok held ∧ sends = accepted held
  reject : last.op = .reject ↔ ∃ failure error, FailedWith outcome sends failure ∧
    endpoint.GivesUpOn delivery error failure ∧
    ∃ copy, ErrorCopy endpoint.name delivery error copy ∧
      copies = [⟨.publishError endpoint.name copy, .ok ()⟩]
  retry : last.op ≠ .ack → last.op ≠ .reject →
    last.op = .retry (endpoint.retry.delay delivery.attempt)

namespace Endpoint

variable {endpoint : Endpoint Msg} {source : Source} {delivery : Delivery}
  {evs : List (HandlingEvent Msg)}

theorem run_handleAndSend {result : Except Failure Unit}
    (h : Run (endpoint.handleAndSend source delivery) evs result) :
    ∃ handling outcome sends, evs = handling ++ sends ∧
      Run (endpoint.pipeline.run (endpoint.context source delivery)) handling outcome ∧
      ((result = .ok () ∧ ∃ held, outcome = .ok held ∧ sends = accepted held) ∨
        ∃ failure, result = .error failure ∧ FailedWith outcome sends failure) := by
  unfold handleAndSend at h
  rw [run_bind] at h
  obtain ⟨handling, outcome, sends, rfl, hp, h⟩ := h
  refine ⟨handling, outcome, sends, rfl, hp, ?_⟩
  cases outcome with
  | error failure =>
    obtain ⟨rfl, rfl⟩ := (run_pure _ _ _).mp h
    exact Or.inr ⟨failure, rfl, Or.inl ⟨rfl, rfl⟩⟩
  | ok held =>
    rcases run_sendHeld h with ⟨rfl, rfl⟩ | ⟨failure, rfl, hf⟩
    · exact Or.inl ⟨rfl, held, rfl, rfl⟩
    · exact Or.inr ⟨failure, rfl, hf⟩

/-- Giving up sends the error copy, and rejects once the broker took it. -/
theorem run_giveUp {error : HandlerError} {settled : Except TransportError Unit}
    (h : Run (endpoint.giveUp delivery error) evs settled) :
    ∃ reply last, evs = [⟨.publishError endpoint.name
        (errorEnvelope delivery.envelope endpoint.name error delivery.attempt), reply⟩, last] ∧
      ((reply = .ok () ∧ last.op = .reject) ∨
        ((∃ refused, reply = .error refused) ∧
          last.op = .retry (endpoint.retry.delay delivery.attempt))) := by
  unfold giveUp at h
  dsimp only at h
  rw [run_perform_bind] at h
  obtain ⟨reply, rest, rfl, h⟩ := h
  refine ⟨reply, ?_⟩
  cases reply with
  | ok _ =>
    obtain rfl := (Prog.run_perform _ _ _).mp h
    exact ⟨_, rfl, Or.inl ⟨rfl, rfl⟩⟩
  | error refused =>
    obtain rfl := (Prog.run_perform _ _ _).mp h
    exact ⟨_, rfl, Or.inr ⟨⟨refused, rfl⟩, rfl⟩⟩

/-- `settle` after a failure: a retry, or giving up on it. -/
theorem run_settle_error {failure : Failure} {settled : Except TransportError Unit}
    (h : Run (endpoint.settle delivery (.error failure)) evs settled) :
    (∃ last, evs = [last] ∧ last.op = .retry (endpoint.retry.delay delivery.attempt)) ∨
      ∃ error, endpoint.GivesUpOn delivery error failure ∧
        Run (endpoint.giveUp delivery error) evs settled := by
  cases failure with
  | undecodable error => exact Or.inr ⟨error, Or.inl rfl, h⟩
  | handler error =>
    unfold settle at h
    dsimp only at h
    split at h
    · obtain rfl := (Prog.run_perform _ _ _).mp h
      exact Or.inl ⟨_, rfl, rfl⟩
    · exact Or.inr ⟨error, Or.inr ⟨rfl, by simp_all⟩, h⟩

variable {handling sends : List (HandlingEvent Msg)} {outcome : Except Failure (List Envelope)}

/-- An ack, after every held publish was accepted. -/
theorem settlement_acked {held : List Envelope} {settled : Except TransportError Unit}
    (hp : Run (endpoint.pipeline.run (endpoint.context source delivery)) handling (.ok held)) :
    Settlement endpoint source delivery (.ok held) handling (accepted held) [] ⟨.ack, settled⟩ where
  ran := hp
  inPipeline := (endpoint.pipeline.run_only _).after hp
  held := by
    intro e he
    obtain ⟨sent, hm, rfl⟩ := List.mem_map.mp he
    exact ⟨held, sent, rfl, hm, rfl⟩
  copied := by simp
  noCopy := fun _ => rfl
  settles := rfl
  ack := ⟨fun _ => ⟨held, rfl, rfl⟩, fun _ => rfl⟩
  reject := by simp
  retry := fun hack _ => absurd rfl hack

/-- A retry, after a failure that isn't given up on. -/
theorem settlement_retried {failure : Failure} {last : HandlingEvent Msg}
    (hp : Run (endpoint.pipeline.run (endpoint.context source delivery)) handling outcome)
    (hf : FailedWith outcome sends failure)
    (hl : last.op = .retry (endpoint.retry.delay delivery.attempt)) :
    Settlement endpoint source delivery outcome handling sends [] last where
  ran := hp
  inPipeline := (endpoint.pipeline.run_only _).after hp
  held := fun e he => hf.sends_publish he
  copied := by simp
  noCopy := fun _ => rfl
  settles := by rw [hl]; rfl
  ack := by
    rw [hl]
    exact ⟨by simp, fun ⟨held, h⟩ => absurd h (hf.not_accepted held)⟩
  reject := by simp [hl]
  retry := fun _ _ => hl

/-- Giving up: a reject when the broker took the error copy, a retry when it didn't. -/
theorem settlement_gaveUp {failure : Failure} {error : HandlerError} {copy : Envelope}
    {reply : Except TransportError Unit} {last : HandlingEvent Msg}
    (hp : Run (endpoint.pipeline.run (endpoint.context source delivery)) handling outcome)
    (hf : FailedWith outcome sends failure) (hg : endpoint.GivesUpOn delivery error failure)
    (hc : ErrorCopy endpoint.name delivery error copy)
    (hl : (reply = .ok () ∧ last.op = .reject) ∨ ((∃ refused, reply = .error refused) ∧
      last.op = .retry (endpoint.retry.delay delivery.attempt))) :
    Settlement endpoint source delivery outcome handling sends
      [⟨.publishError endpoint.name copy, reply⟩] last where
  ran := hp
  inPipeline := (endpoint.pipeline.run_only _).after hp
  held := fun e he => hf.sends_publish he
  copied := by simp
  noCopy := by rcases hl with ⟨_, hl⟩ | ⟨_, hl⟩ <;> simp [hl]
  settles := by rcases hl with ⟨_, hl⟩ | ⟨_, hl⟩ <;> rw [hl] <;> rfl
  ack := by
    refine ⟨?_, fun ⟨held, h⟩ => absurd h (hf.not_accepted held)⟩
    rcases hl with ⟨_, hl⟩ | ⟨_, hl⟩ <;> simp [hl]
  reject := by
    rcases hl with ⟨rfl, hl⟩ | ⟨⟨refused, rfl⟩, hl⟩
    · exact ⟨fun _ => ⟨failure, error, hf, hg, copy, hc, rfl⟩, fun _ => hl⟩
    · rw [hl]
      refine ⟨by simp, ?_⟩
      rintro ⟨_, _, _, _, other, _, h⟩
      simp at h
  retry := by
    intro _ hreject
    rcases hl with ⟨_, hl⟩ | ⟨_, hl⟩
    · exact absurd hl hreject
    · exact hl

/-- Every complete run of `process` is a settlement. -/
theorem run_process (h : Run (endpoint.process source delivery) evs ()) :
    ∃ outcome handling sends copies last, evs = handling ++ sends ++ copies ++ [last] ∧
      Settlement endpoint source delivery outcome handling sends copies last := by
  unfold process at h
  rw [run_bind] at h
  obtain ⟨_, result, rest, rfl, hh, h⟩ := h
  rw [run_bind] at h
  obtain ⟨settling, settled, _, rfl, hs, h⟩ := h
  obtain ⟨rfl, _⟩ := (run_pure _ _ _).mp h
  rw [List.append_nil]
  obtain ⟨handling, outcome, sends, rfl, hp, hsends⟩ := run_handleAndSend hh
  rcases hsends with ⟨rfl, held, rfl, rfl⟩ | ⟨failure, rfl, hf⟩
  · obtain rfl := (Prog.run_perform _ _ _).mp hs
    exact ⟨_, _, _, [], _, by rw [List.append_nil], settlement_acked hp⟩
  · rcases run_settle_error hs with ⟨last, rfl, hl⟩ | ⟨error, hg, hs⟩
    · exact ⟨_, _, _, [], _, by rw [List.append_nil], settlement_retried hp hf hl⟩
    · obtain ⟨reply, last, rfl, hl⟩ := run_giveUp hs
      refine ⟨_, _, _, _, _, ?_, settlement_gaveUp hp hf hg
        (errorEnvelope_errorCopy endpoint.name delivery error) hl⟩
      simp only [List.append_assoc, List.singleton_append]

end Endpoint

theorem split_after {α : Type} {before after front rest : List α} {a : α}
    (h : before ++ a :: after = front ++ rest) (ha : a ∉ front) :
    ∃ sent, before = front ++ sent ∧ rest = sent ++ a :: after := by
  rcases List.append_eq_append_iff.mp h with ⟨middle, rfl, hr⟩ | ⟨sent, rfl, hr⟩
  · cases middle with
    | nil => exact ⟨[], by simp, by simpa using hr.symm⟩
    | cons b middle =>
      rw [List.cons_append, List.cons.injEq] at hr
      exact absurd (by simp [hr.1]) ha
  · exact ⟨sent, rfl, hr⟩

namespace Settlement

variable {endpoint : Endpoint Msg} {source : Source} {delivery : Delivery}
  {outcome : Except Failure (List Envelope)} {handling sends copies : List (HandlingEvent Msg)}
  {last : HandlingEvent Msg}

/-- Before the last event there is no settlement. -/
theorem unsettled (h : Settlement endpoint source delivery outcome handling sends copies last)
    {e : HandlingEvent Msg} (he : e ∈ handling ++ sends ++ copies) : e.op.settles = false := by
  rcases List.mem_append.mp he with he | he
  · rcases List.mem_append.mp he with he | he
    · exact (h.inPipeline e he).1
    · obtain ⟨_, _, _, _, he⟩ := h.held e he
      rw [he]
      rfl
  · obtain ⟨_, he⟩ := h.copied e he
    rw [he]
    rfl

theorem once (h : Settlement endpoint source delivery outcome handling sends copies last) :
    (handling ++ sends ++ copies ++ [last]).filter (fun e => e.op.settles) = [last] := by
  have hnone : (handling ++ sends ++ copies).filter (fun e => e.op.settles) = [] := by
    rw [List.filter_eq_nil_iff]
    intro e he
    simp [h.unsettled he]
  rw [List.filter_append, hnone, List.nil_append]
  simp [h.settles]

/-- A held publish comes after a handling that succeeded. -/
theorem publish_after
    (h : Settlement endpoint source delivery outcome handling sends copies last)
    {before after : List (HandlingEvent Msg)} {envelope : Envelope}
    {reply : Except TransportError Unit}
    (he : before ++ ⟨.publish envelope, reply⟩ :: after = handling ++ sends ++ copies ++ [last]) :
    ∃ held sent, before = handling ++ sent ∧ outcome = .ok held ∧ envelope ∈ held := by
  rw [List.append_assoc, List.append_assoc] at he
  have hnot : ⟨.publish envelope, reply⟩ ∉ handling := by
    intro hm
    have := (h.inPipeline _ hm).2
    contradiction
  obtain ⟨sent, rfl, hrest⟩ := split_after he hnot
  have hm : ⟨.publish envelope, reply⟩ ∈ sends ++ (copies ++ [last]) := by
    rw [hrest]
    simp
  rcases List.mem_append.mp hm with hm | hm
  · obtain ⟨held, envelope', rfl, hin, hop⟩ := h.held _ hm
    cases hop
    exact ⟨held, sent, rfl, rfl, hin⟩
  · rcases List.mem_append.mp hm with hm | hm
    · obtain ⟨_, hop⟩ := h.copied _ hm
      cases hop
    · have hs := h.settles
      rw [← List.mem_singleton.mp hm] at hs
      contradiction

/-- A settlement that was performed was the last event. -/
theorem settled_last
    (h : Settlement endpoint source delivery outcome handling sends copies last)
    {evs more : List (HandlingEvent Msg)} {e : HandlingEvent Msg}
    (he : evs ++ more = handling ++ sends ++ copies ++ [last]) (hm : e ∈ evs)
    (hs : e.op.settles = true) : evs = handling ++ sends ++ copies ++ [last] ∧ e = last := by
  have hlast : e = last := by
    have hin : e ∈ handling ++ sends ++ copies ++ [last] := he ▸ List.mem_append_left _ hm
    rcases List.mem_append.mp hin with hin | hin
    · rw [h.unsettled hin] at hs
      contradiction
    · exact List.mem_singleton.mp hin
  refine ⟨?_, hlast⟩
  obtain ⟨before, after, rfl⟩ := List.append_of_mem hm
  rw [List.append_assoc, List.cons_append] at he
  have hnot : e ∉ handling ++ sends ++ copies := by
    intro hin
    rw [h.unsettled hin] at hs
    contradiction
  obtain ⟨sent, rfl, hrest⟩ := split_after he hnot
  cases sent with
  | nil =>
    rw [List.nil_append, List.cons.injEq, eq_comm (a := []), List.append_eq_nil_iff] at hrest
    rw [hlast, hrest.2.1, List.append_nil]
  | cons _ sent => simp at hrest

end Settlement

end SisaMessaging.Runtime
