/-
  Conversations: what ties a handler's publishes to the message it handled.

  `Caused` is what `HandlerContext::publish` sets. `Pipeline.run_held`: the publishes that a
  successful handling hands back are exactly what its handler published, tied to the delivered
  message. `process_proper`: every handler that a delivery calls is shown the delivered message, and
  an insert has rows.
-/
import SisaMessaging.Runtime.Settlement

namespace SisaMessaging.Runtime

open SisaMessaging.Core SisaMessaging.Lib
open SisaMessaging.Lib.Prog (Only Run run_bind run_pure)

variable {Msg : Type}

/-- The child has the parent as its cause, and its correlation id and trace context. -/
structure Caused (parent child : Envelope) : Prop where
  causation : child.correlation.causationId = some parent.id
  correlation : child.correlation.correlationId = parent.correlation.correlationId
  trace : child.trace = parent.trace

theorem caused_envelopeOf {T : Type} (context : HandlerContext T) (message : Encoded) :
    Caused context.envelope (context.envelopeOf message) := ⟨rfl, rfl, rfl⟩

/-! ## What a successful handling hands back -/

/-- The handler returned, and published this. -/
def HandlerPublished (handling : List (HandlingEvent Msg)) (published : List Encoded) : Prop :=
  ∃ message shown, ⟨.handle message shown, (published, .ok)⟩ ∈ handling

theorem runRecorded_held {handler : ErasedHandler Msg} {outbox : HandlerOutbox}
    {context : HandlerContext Transaction} {evs : List (HandlingEvent Msg)} {held : List Envelope}
    (h : Run (runRecorded handler outbox context) evs (.ok held)) (hc : context.held = []) :
    ∃ published, HandlerPublished evs published ∧
      (held = [] ∨ held = published.map context.envelopeOf) := by
  unfold runRecorded at h
  rw [run_bind] at h
  obtain ⟨ran, called, rest, rfl, hcall, h⟩ := h
  cases called with
  | error failure => simp at h
  | ok handled =>
    obtain ⟨message, shown, published, rfl, _, rfl⟩ := call_ok hcall
    have hheld : (context.publish published).held = published.map context.envelopeOf := by
      rw [HandlerContext.publish, hc, List.nil_append]
    refine ⟨published, ⟨message, shown, List.mem_append_left _ List.mem_cons_self⟩, ?_⟩
    dsimp only at h
    rw [run_bind, hheld] at h
    obtain ⟨wrote, written, rest, rfl, hwrite, h⟩ := h
    cases written with
    | error error => simp [run_bind] at h
    | ok left =>
      dsimp only at h
      rw [run_perform_bind] at h
      obtain ⟨reply, rest, rfl, h⟩ := h
      cases reply with
      | error error => simp at h
      | ok _ =>
        simp only [run_pure, Except.ok.injEq] at h
        obtain ⟨rfl, rfl⟩ := h
        cases outbox with
        | noOutbox =>
          simp only [HandlerOutbox.write, run_pure, Except.ok.injEq] at hwrite
          exact Or.inr hwrite.2.symm
        | store =>
          unfold HandlerOutbox.write at hwrite
          dsimp only at hwrite
          split at hwrite
          · simp only [run_pure, Except.ok.injEq] at hwrite
            exact Or.inr hwrite.2.symm
          · rw [run_perform_bind] at hwrite
            obtain ⟨inserted, rest, rfl, hwrite⟩ := hwrite
            cases inserted with
            | error error => simp at hwrite
            | ok _ =>
              simp only [run_pure, Except.ok.injEq] at hwrite
              exact Or.inl hwrite.2.symm

/-- What is still held after a successful handling is what its handler published, as messages
    caused by the delivered one. -/
theorem Pipeline.run_held {pipeline : Pipeline Msg} {context : HandlerContext Unit}
    {evs : List (HandlingEvent Msg)} {held : List Envelope}
    (h : Run (pipeline.run context) evs (.ok held)) (hc : context.held = []) :
    held = [] ∨ ∃ published, HandlerPublished evs published ∧
      held = published.map context.envelopeOf := by
  cases pipeline with
  | plain endpoint handlers =>
    unfold run at h
    dsimp only at h
    split at h
    · simp at h
    · rw [run_bind] at h
      obtain ⟨ran, called, rest, rfl, hcall, h⟩ := h
      cases called with
      | error failure => simp at h
      | ok handled =>
        obtain ⟨message, shown, published, rfl, _, rfl⟩ := call_ok hcall
        simp only [run_pure, Except.ok.injEq] at h
        obtain ⟨rfl, rfl⟩ := h
        refine Or.inr ⟨published, ⟨message, shown, by simp⟩, ?_⟩
        rw [HandlerContext.publish, hc, List.nil_append]
  | transactional endpoint handlers outbox =>
    unfold run at h
    dsimp only at h
    split at h
    · simp at h
    · rw [run_perform_bind] at h
      obtain ⟨begun, rest, rfl, h⟩ := h
      cases begun with
      | error error => simp at h
      | ok transaction =>
        dsimp only at h
        rw [run_perform_bind] at h
        obtain ⟨recorded, rest, rfl, h⟩ := h
        rcases recorded with error | (_ | _)
        · simp [run_bind] at h
        · dsimp only at h
          rw [run_perform_bind] at h
          obtain ⟨reply, rest, rfl, h⟩ := h
          cases reply with
          | error error => simp at h
          | ok _ =>
            simp only [run_pure, Except.ok.injEq] at h
            exact Or.inl h.2.symm
        · obtain ⟨published, ⟨message, shown, hm⟩, hheld⟩ := runRecorded_held h hc
          refine hheld.imp_right fun hheld => ⟨published, ⟨message, shown, ?_⟩, hheld⟩
          exact List.mem_cons_of_mem _ (List.mem_cons_of_mem _ hm)

/-! ## What an operation asks -/

/-- A handler that is called is shown the envelope, and an insert has rows. -/
def Op.Proper (envelope : Envelope) : Op Msg → Prop
  | .handle _ shown => shown.envelope = envelope
  | .insert _ envelopes => envelopes ≠ []
  | _ => True

variable {envelope : Envelope}

section Handlers

variable {T : Type} [InboxTransaction T]

theorem dropTransaction_proper (transaction : T) :
    Only (Op.Proper envelope) (dropTransaction transaction : Handling Msg Unit) := by
  unfold dropTransaction
  split
  · exact ⟨trivial, fun _ => trivial⟩
  · trivial

theorem Typed.decodeAndHandle_proper (typed : Typed Msg) {context : HandlerContext T}
    (h : context.envelope = envelope) : Only (Op.Proper envelope) (typed.decodeAndHandle context) := by
  unfold decodeAndHandle
  split
  · trivial
  · split
    · trivial
    · trivial
    · refine ⟨h, ?_⟩
      rintro ⟨published, ended⟩
      cases ended <;> trivial

-- The decoder counts by its lemma only.
attribute [local irreducible] Typed.decodeAndHandle

theorem Typed.handle_proper (typed : Typed Msg) {context : HandlerContext T}
    (h : context.envelope = envelope) : Only (Op.Proper envelope) (typed.handle context) := by
  unfold handle
  apply (typed.decodeAndHandle_proper h).bind
  intro outcome
  split
  · trivial
  · exact (dropTransaction_proper _).bind fun _ => trivial
  · exact (dropTransaction_proper _).bind fun _ => trivial

theorem ErasedHandler.handle_proper (handler : ErasedHandler Msg) {context : HandlerContext T}
    (h : context.envelope = envelope) : Only (Op.Proper envelope) (handler.handle context) := by
  cases handler with
  | typed handler => exact handler.handle_proper h
  | withoutTransaction handler =>
    unfold handle
    have hwithout : (context.withTransaction ()).1.envelope = envelope := h
    apply (handler.handle_proper hwithout).bind
    intro outcome
    split
    · trivial
    · exact (dropTransaction_proper _).bind fun _ => trivial
    · exact (dropTransaction_proper _).bind fun _ => trivial

theorem call_proper (handler : ErasedHandler Msg) {context : HandlerContext T}
    (h : context.envelope = envelope) : Only (Op.Proper envelope) (call handler context) := by
  apply (handler.handle_proper h).bind
  intro outcome
  split <;> trivial

end Handlers

theorem HandlerOutbox.write_proper (outbox : HandlerOutbox) (transaction : Transaction)
    (held : List Envelope) :
    Only (Op.Proper envelope) (outbox.write transaction held : Handling Msg _) := by
  cases outbox with
  | noOutbox => trivial
  | store =>
    unfold write
    dsimp only
    split
    · trivial
    · rename_i hheld
      refine ⟨fun hnil => hheld (List.isEmpty_iff.mpr hnil), ?_⟩
      intro reply
      cases reply <;> trivial

theorem runRecorded_proper (handler : ErasedHandler Msg) (outbox : HandlerOutbox)
    {context : HandlerContext Transaction} (h : context.envelope = envelope) :
    Only (Op.Proper envelope) (runRecorded handler outbox context) := by
  apply (call_proper handler h).bind
  intro called
  cases called with
  | error failure => trivial
  | ok handled =>
    apply (outbox.write_proper _ _).bind
    intro written
    cases written with
    | error error => exact ⟨trivial, fun _ => trivial⟩
    | ok held =>
      refine ⟨trivial, ?_⟩
      intro reply
      cases reply <;> trivial

theorem Pipeline.run_proper (pipeline : Pipeline Msg) {context : HandlerContext Unit}
    (h : context.envelope = envelope) : Only (Op.Proper envelope) (pipeline.run context) := by
  cases pipeline with
  | plain endpoint handlers =>
    unfold run
    dsimp only
    split
    · trivial
    · apply (call_proper _ h).bind
      intro called
      cases called <;> trivial
  | transactional endpoint handlers outbox =>
    unfold run
    dsimp only
    split
    · trivial
    · refine ⟨trivial, ?_⟩
      intro begun
      cases begun with
      | error error => trivial
      | ok transaction =>
        refine ⟨trivial, ?_⟩
        intro recorded
        match recorded with
        | .error error => exact ⟨trivial, fun _ => trivial⟩
        | .ok false =>
          refine ⟨trivial, ?_⟩
          intro reply
          cases reply <;> trivial
        | .ok true => exact runRecorded_proper _ _ h

theorem sendHeld_proper (held : List Envelope) :
    Only (Op.Proper envelope) (sendHeld held : Handling Msg _) := by
  induction held with
  | nil => trivial
  | cons sent held ih =>
    refine ⟨trivial, ?_⟩
    intro reply
    cases reply with
    | error error => trivial
    | ok _ => exact ih

/-- Every handler that a delivery calls is shown the delivered envelope, and no insert is empty. -/
theorem Endpoint.process_proper (endpoint : Endpoint Msg) (source : Source) (delivery : Delivery) :
    Only (Op.Proper delivery.envelope) (endpoint.process source delivery) := by
  have giveUp_proper (error : HandlerError) :
      Only (Op.Proper delivery.envelope) (endpoint.giveUp delivery error) := by
    refine ⟨trivial, ?_⟩
    intro reply
    cases reply <;> exact ⟨trivial, fun _ => trivial⟩
  have hhandle : Only (Op.Proper delivery.envelope) (endpoint.handleAndSend source delivery) := by
    have hrun : Only (Op.Proper delivery.envelope)
        (endpoint.pipeline.run (endpoint.context source delivery)) := endpoint.pipeline.run_proper rfl
    apply hrun.bind
    intro outcome
    cases outcome with
    | error failure => trivial
    | ok held => exact sendHeld_proper held
  refine hhandle.bind fun result => Only.bind ?_ fun _ => trivial
  match result with
  | .ok () => exact ⟨trivial, fun _ => trivial⟩
  | .error (.undecodable error) => exact giveUp_proper error
  | .error (.handler error) =>
    unfold settle
    dsimp only
    split
    · exact ⟨trivial, fun _ => trivial⟩
    · exact giveUp_proper error

end SisaMessaging.Runtime
