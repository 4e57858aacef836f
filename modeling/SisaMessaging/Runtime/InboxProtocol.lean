/-
  The protocol of a delivery on an endpoint with an inbox.

  `Phase` is where a delivery is in begin, record, handle, write, commit and the settlement.
  `inboxProtocol` says which operation each phase allows, and `process_obeys` that `process` follows
  it whatever the replies are. `writesOutbox`: with an outbox, no publish goes past it.
-/
import SisaMessaging.Runtime.Endpoint

namespace SisaMessaging.Runtime

open SisaMessaging.Core SisaMessaging.Lib
open SisaMessaging.Lib.Prog (After Obeys Protocol)

variable {Msg : Type}

/-- A delivery of a message to an instance of an endpoint with an inbox. -/
structure InboxDelivery (Msg : Type) where
  name : String
  retry : RetryPolicy
  handlers : Handlers Msg
  outbox : HandlerOutbox
  source : Source
  delivery : Delivery

namespace InboxDelivery

/-- `build` of the endpoint's builder: the pipeline has the endpoint's name. -/
def endpoint (job : InboxDelivery Msg) : Endpoint Msg :=
  ⟨job.name, job.retry, .transactional job.name job.handlers job.outbox⟩

def process (job : InboxDelivery Msg) : Handling Msg Unit :=
  job.endpoint.process job.source job.delivery

end InboxDelivery

/-- Where a delivery is: its transaction, and what its handler published. -/
inductive Phase where
  | started
  | begun (transaction : Transaction)
  /-- A receipt was there. -/
  | found (transaction : Transaction)
  | recorded (transaction : Transaction)
  /-- The handler returned. -/
  | ran (transaction : Transaction) (published : List Envelope)
  /-- The publishes are in the outbox. -/
  | wrote (transaction : Transaction) (published : List Envelope)
  /-- A step in the transaction failed. -/
  | doomed (transaction : Transaction)
  /-- Committed, with the publishes that are still held. -/
  | done (transaction : Transaction) (held : List Envelope)
  | failed

namespace Phase

/-- Which operation the delivery may perform. -/
def Allowed (job : InboxDelivery Msg) : Phase → Op Msg → Prop
  | started, .begin => True
  | begun t, .record transaction endpoint envelope =>
    transaction = t ∧ endpoint = job.name ∧ envelope = job.delivery.envelope
  | found t, .commit transaction => transaction = t
  | recorded _, .handle _ _ => True
  | recorded t, .rollback transaction => transaction = t
  | ran t published, .insert transaction envelopes =>
    transaction = t ∧ envelopes = published ∧ job.outbox = .store
  | ran t published, .commit transaction =>
    transaction = t ∧ (job.outbox = .noOutbox ∨ published = [])
  | wrote t _, .commit transaction => transaction = t
  | doomed t, .rollback transaction => transaction = t
  | done _ held, .publish envelope => envelope ∈ held
  | done _ _, .ack => True
  | done _ _, .publishError _ _ | failed, .publishError _ _ | started, .publishError _ _ => True
  | done _ _, .retry _ | failed, .retry _ | started, .retry _ => True
  | done _ _, .reject | failed, .reject | started, .reject => True
  | _, _ => False

/-- Where the reply leaves the delivery. -/
def next : Phase → (op : Op Msg) → Ret Msg op → Phase
  | started, .begin, .ok transaction => begun transaction
  | begun t, .record _ _ _, .ok isNew => if isNew then recorded t else found t
  | begun t, .record _ _ _, .error _ => doomed t
  | found t, .commit _, .ok () => done t []
  | recorded t, .handle _ context, (published, .ok) => ran t (published.map context.envelopeOf)
  | recorded t, .handle _ _, (_, _) => doomed t
  | ran t published, .insert _ _, .ok () => wrote t published
  | ran t _, .insert _ _, .error _ => doomed t
  | ran t published, .commit _, .ok () => done t published
  | wrote t _, .commit _, .ok () => done t []
  | done t held, _, _ => done t held
  | _, _, _ => failed

end Phase

def inboxProtocol (job : InboxDelivery Msg) : Protocol (Op Msg) (Ret Msg) Phase where
  allowed := Phase.Allowed job
  replies _ _ _ := True
  next := Phase.next

/-! ## `process` follows it -/

variable {job : InboxDelivery Msg} {t : Transaction}

section Handler

variable {T : Type} [InboxTransaction T]

/-- The handler returned with what it published held, and the transaction it was given. -/
def HandlerEnded (t : Transaction) (context : HandlerContext T) (failed : Phase → Prop) :
    Phase → Outcome (Except Failure (HandlerContext T)) → Prop
  | g, .returned (.ok handled) =>
    g = .ran t handled.held ∧ handled.transaction = context.transaction
  | g, _ => failed g

/-- A handler that failed: before it ran, or while it ran. -/
def Undone (t : Transaction) (g : Phase) : Prop := g = .recorded t ∨ g = .doomed t

theorem Typed.decodeAndHandle_obeys (typed : Typed Msg) {context : HandlerContext T}
    (hc : context.held = []) :
    Obeys (inboxProtocol job) (HandlerEnded t context (Undone t)) (.recorded t)
      (typed.decodeAndHandle context) := by
  unfold decodeAndHandle
  split
  · exact Or.inl rfl
  · split
    · exact Or.inl rfl
    · exact Or.inl rfl
    · refine ⟨trivial, ?_⟩
      rintro ⟨published, ended⟩ _
      cases ended with
      | ok =>
        refine ⟨?_, rfl⟩
        rw [HandlerContext.publish, hc, List.nil_append]
        rfl
      | failed error => exact Or.inr rfl
      | panicked message => exact Or.inr rfl

end Handler

-- What follows uses the decoder by its lemma only, and never computes it.
attribute [local irreducible] Typed.decodeAndHandle

theorem rollback_obeys {g : Phase} {α : Type} (hg : Undone t g) (a : α)
    {post : Phase → α → Prop} (hpost : post .failed a) :
    Obeys (inboxProtocol job) post g (do perform (.rollback t); return a) := by
  rcases hg with rfl | rfl
  · exact ⟨rfl, fun _ _ => hpost⟩
  · exact ⟨rfl, fun _ _ => hpost⟩

/-- A handler with the delivery's transaction. -/
theorem Typed.handle_obeys (typed : Typed Msg) {context : HandlerContext Transaction}
    (hc : context.held = []) (ht : context.transaction = t) :
    Obeys (inboxProtocol job) (HandlerEnded t context (· = .failed)) (.recorded t)
      (typed.handle context) := by
  unfold handle
  apply (typed.decodeAndHandle_obeys hc).bind
  intro g outcome hg
  match outcome, hg with
  | .returned (.ok handled), hg => exact hg
  | .returned (.error failure), hg =>
    subst ht
    exact rollback_obeys hg _ rfl
  | .panicked message, hg =>
    subst ht
    exact rollback_obeys hg _ rfl

/-- A handler without it. -/
theorem Typed.handle_obeys_unit (typed : Typed Msg) {context : HandlerContext Unit}
    (hc : context.held = []) :
    Obeys (inboxProtocol job) (HandlerEnded t context (Undone t)) (.recorded t)
      (typed.handle context) := by
  unfold handle
  apply (typed.decodeAndHandle_obeys hc).bind
  intro g outcome hg
  match outcome, hg with
  | .returned (.ok handled), hg => exact hg
  | .returned (.error failure), hg => exact hg
  | .panicked message, hg => exact hg

theorem ErasedHandler.handle_obeys (handler : ErasedHandler Msg)
    {context : HandlerContext Transaction} (hc : context.held = [])
    (ht : context.transaction = t) :
    Obeys (inboxProtocol job) (HandlerEnded t context (· = .failed)) (.recorded t)
      (handler.handle context) := by
  unfold handle
  cases handler with
  | typed handler => exact handler.handle_obeys hc ht
  | withoutTransaction handler =>
    have hu : (context.withTransaction ()).1.held = [] := hc
    apply (handler.handle_obeys_unit (t := t) hu).bind
    intro g outcome hg
    match outcome, hg with
    | .returned (.ok handled), hg => exact ⟨hg.1, rfl⟩
    | .returned (.error failure), hg =>
      subst ht
      exact rollback_obeys hg _ rfl
    | .panicked message, hg =>
      subst ht
      exact rollback_obeys hg _ rfl

theorem call_obeys (handler : ErasedHandler Msg) {context : HandlerContext Transaction}
    (hc : context.held = []) (ht : context.transaction = t) :
    Obeys (inboxProtocol job)
      (fun g called => match called with
        | .ok handled => g = .ran t handled.held ∧ handled.transaction = t
        | .error _ => g = .failed) (.recorded t) (call handler context) := by
  unfold call
  apply (handler.handle_obeys hc ht).bind
  intro g outcome hg
  match outcome, hg with
  | .returned (.ok handled), hg => exact ⟨hg.1, hg.2.trans ht⟩
  | .returned (.error failure), hg => exact hg
  | .panicked message, hg => exact hg

/-- Writing leaves the publishes held, or in the outbox. -/
theorem HandlerOutbox.write_obeys (held : List Envelope) :
    Obeys (inboxProtocol job)
      (fun g written => match written with
        | .ok rest => (g = .ran t held ∧ rest = held ∧ (job.outbox = .noOutbox ∨ held = [])) ∨
            (g = .wrote t held ∧ rest = [])
        | .error _ => g = .doomed t) (.ran t held) (job.outbox.write t held) := by
  generalize ho : job.outbox = outbox
  cases outbox with
  | noOutbox => exact Or.inl ⟨rfl, rfl, Or.inl rfl⟩
  | store =>
    unfold write
    dsimp only
    split
    · rename_i he
      exact Or.inl ⟨rfl, rfl, Or.inr (List.isEmpty_iff.mp he)⟩
    · refine ⟨⟨rfl, rfl, ho⟩, ?_⟩
      intro reply _
      cases reply with
      | ok _ => exact Or.inr ⟨rfl, rfl⟩
      | error error => rfl

/-- How a pipeline ends: committed with publishes still held, or failed with nothing open. -/
def PipelineEnded (g : Phase) : Except Failure (List Envelope) → Prop
  | .ok held => ∃ t, g = .done t held
  | .error _ => g = .failed ∨ g = .started

theorem runRecorded_obeys (handler : ErasedHandler Msg) {context : HandlerContext Transaction}
    (hc : context.held = []) (ht : context.transaction = t) :
    Obeys (inboxProtocol job) PipelineEnded (.recorded t)
      (runRecorded handler job.outbox context) := by
  unfold runRecorded
  apply (call_obeys handler hc ht).bind
  intro g called hg
  cases called with
  | error failure => exact Or.inl hg
  | ok handled =>
    obtain ⟨rfl, rfl⟩ := hg
    apply (HandlerOutbox.write_obeys (t := handled.transaction) handled.held).bind
    intro g written hg
    cases written with
    | error error =>
      subst hg
      exact rollback_obeys (Or.inr rfl) _ (Or.inl rfl)
    | ok rest =>
      rcases hg with ⟨rfl, rfl, ho⟩ | ⟨rfl, rfl⟩
      · refine ⟨⟨rfl, ho⟩, ?_⟩
        intro reply _
        cases reply with
        | ok _ => exact ⟨_, rfl⟩
        | error error => exact Or.inl rfl
      · refine ⟨rfl, ?_⟩
        intro reply _
        cases reply with
        | ok _ => exact ⟨_, rfl⟩
        | error error => exact Or.inl rfl

theorem Pipeline.run_obeys {context : HandlerContext Unit} (hc : context.held = [])
    (he : context.envelope = job.delivery.envelope) :
    Obeys (inboxProtocol job) PipelineEnded .started (job.endpoint.pipeline.run context) := by
  change Obeys _ _ _ (Pipeline.run context (.transactional job.name job.handlers job.outbox))
  unfold run
  dsimp only
  split
  · exact Or.inr rfl
  · refine ⟨trivial, ?_⟩
    intro begun _
    cases begun with
    | error error => exact Or.inl rfl
    | ok transaction =>
      refine ⟨⟨rfl, rfl, he⟩, ?_⟩
      intro recorded _
      match recorded with
      | .error error => exact rollback_obeys (Or.inr rfl) _ (Or.inl rfl)
      | .ok false =>
        refine ⟨rfl, ?_⟩
        intro reply _
        cases reply with
        | ok _ => exact ⟨_, rfl⟩
        | error error => exact Or.inl rfl
      | .ok true => exact runRecorded_obeys _ hc rfl

theorem sendHeld_obeys {all : List Envelope} (held : List Envelope) (hh : held ⊆ all) :
    Obeys (inboxProtocol job) (fun g _ => g = .done t all) (.done t all) (sendHeld held) := by
  induction held with
  | nil => rfl
  | cons envelope held ih =>
    refine ⟨hh List.mem_cons_self, ?_⟩
    intro reply _
    cases reply with
    | error error => rfl
    | ok _ => exact ih fun _ h => hh (List.mem_cons_of_mem _ h)

/-- Nothing of the delivery is open, and it may settle. -/
def Phase.Closed (g : Phase) : Prop := (∃ t held, g = .done t held) ∨ g = .failed ∨ g = .started

theorem settle_obeys {g : Phase} (delivery : Delivery) {result : Except Failure Unit}
    (hg : g.Closed) (hok : result = .ok () → ∃ t held, g = .done t held) :
    Obeys (inboxProtocol job) (fun _ _ => True) g (job.endpoint.settle delivery result) := by
  have giveUp : ∀ error, Obeys (inboxProtocol job) (fun _ _ => True) g
      (job.endpoint.giveUp delivery error) := by
    intro error
    rcases hg with ⟨t, held, rfl⟩ | rfl | rfl
    all_goals
      refine ⟨trivial, ?_⟩
      intro reply _
      cases reply with
      | ok _ => exact ⟨trivial, fun _ _ => trivial⟩
      | error refused => exact ⟨trivial, fun _ _ => trivial⟩
  match result with
  | .ok () =>
    obtain ⟨t, held, rfl⟩ := hok rfl
    exact ⟨trivial, fun _ _ => trivial⟩
  | .error (.undecodable error) => exact giveUp error
  | .error (.handler error) =>
    unfold Endpoint.settle
    dsimp only
    split
    · rcases hg with ⟨t, held, rfl⟩ | rfl | rfl
      all_goals exact ⟨trivial, fun _ _ => trivial⟩
    · exact giveUp error

/-- Whatever the replies are, a delivery follows the protocol. -/
theorem process_obeys (job : InboxDelivery Msg) :
    Obeys (inboxProtocol job) (fun _ _ => True) .started job.process := by
  have handled : Obeys (inboxProtocol job)
      (fun g result => g.Closed ∧ (result = .ok () → ∃ t held, g = .done t held)) .started
      (job.endpoint.handleAndSend job.source job.delivery) := by
    have hrun : Obeys (inboxProtocol job) PipelineEnded .started
        (job.endpoint.pipeline.run (job.endpoint.context job.source job.delivery)) :=
      Pipeline.run_obeys rfl rfl
    apply hrun.bind
    intro g outcome hg
    cases outcome with
    | error failure =>
      refine ⟨?_, by simp⟩
      rcases hg with rfl | rfl
      · exact Or.inr (Or.inl rfl)
      · exact Or.inr (Or.inr rfl)
    | ok held =>
      obtain ⟨t, rfl⟩ := hg
      apply (sendHeld_obeys held (List.Subset.refl _)).mono
      rintro g result rfl
      exact ⟨Or.inl ⟨t, held, rfl⟩, fun _ => ⟨t, held, rfl⟩⟩
  apply handled.bind
  rintro g result ⟨hg, hok⟩
  exact (settle_obeys job.delivery hg hok).bind fun _ _ _ => trivial

/-! ## Where the publishes of an endpoint's handlers go -/

/-- In every run of a delivery, stopped anywhere: no message goes straight to the broker, and what a
    handler published is inserted next, in the transaction that then commits. -/
def Endpoint.WritesOutbox (endpoint : Endpoint Msg) : Prop :=
  ∀ source delivery evs rest, After (endpoint.process source delivery) evs rest →
    (∀ e ∈ evs, ∀ envelope, e.op ≠ .publish envelope) ∧
    ∀ before message shown published next after,
      evs = before ++ ⟨.handle message shown, (published, .ok)⟩ :: next :: after → published ≠ [] →
        ∃ transaction reply, next = ⟨.insert transaction (published.map shown.envelopeOf), reply⟩ ∧
          (reply = .ok () → ∀ e ∈ after.head?, e.op = .commit transaction)

namespace Phase

variable {phase : Phase}

theorem allowed_handle {message : Msg} {context : HandlerContext (Option Transaction)}
    (h : phase.Allowed job (.handle message context)) : ∃ t, phase = .recorded t := by
  cases phase with
  | recorded t => exact ⟨t, rfl⟩
  | _ => exact h.elim

/-- A handler that returned published into the outbox, or nothing. -/
theorem allowed_ran {t : Transaction} {published : List Envelope} {op : Op Msg}
    (hstore : job.outbox = .store) (h : (Phase.ran t published).Allowed job op) :
    op = .insert t published ∨ published = [] := by
  cases op with
  | insert transaction envelopes =>
    obtain ⟨rfl, rfl, -⟩ := h
    exact .inl rfl
  | commit transaction =>
    rw [Allowed, hstore] at h
    exact .inr (h.2.resolve_left nofun)
  | _ => exact h.elim

theorem allowed_wrote {t : Transaction} {published : List Envelope} {op : Op Msg}
    (h : (Phase.wrote t published).Allowed job op) : op = .commit t := by
  cases op with
  | commit transaction =>
    obtain rfl : transaction = t := h
    rfl
  | _ => exact h.elim

theorem allowed_publish {envelope : Envelope} (h : phase.Allowed job (.publish envelope)) :
    ∃ t held, phase = .done t held ∧ envelope ∈ held := by
  cases phase with
  | done t held => exact ⟨t, held, rfl, h⟩
  | _ => exact h.elim

/-- Once a delivery is committed, no publish is left to send. -/
def NoneHeld (phase : Phase) : Prop := ∀ t held, phase = .done t held → held = []

theorem noneHeld_next (hstore : job.outbox = .store) (op : Op Msg) (reply : Ret Msg op)
    (h : phase.NoneHeld) (ha : phase.Allowed job op) : (phase.next op reply).NoneHeld := by
  intro t held hdone
  unfold next at hdone
  split at hdone
  case h_2 => split at hdone <;> cases hdone
  case h_9 =>
    -- Committed with its publishes held, so there were none.
    cases hdone
    exact (allowed_ran hstore ha).resolve_left nofun
  case h_11 =>
    cases hdone
    exact h _ _ rfl
  all_goals
    cases hdone
    try rfl

end Phase

/-- An endpoint with an inbox, built for a bus with an outbox. -/
theorem writesOutbox (name : String) (policy : RetryPolicy) (handlers : Handlers Msg) :
    Endpoint.WritesOutbox ⟨name, policy, .transactional name handlers .store⟩ := by
  intro source delivery evs rest hrun
  have hobeys := process_obeys ⟨name, policy, handlers, .store, source, delivery⟩
  -- Each event is allowed where the ones before it lead.
  have hallowed {before after : List (Event (Op Msg) (Ret Msg))} {e : Event (Op Msg) (Ret Msg)}
      (heq : evs = before ++ e :: after) :=
    hobeys.allowed (fun _ _ _ => trivial)
      (fun _ op reply h ha => Phase.noneHeld_next rfl op reply h ha)
      (J := Phase.NoneHeld) nofun (heq ▸ hrun)
  constructor
  · rintro ⟨_, reply⟩ he envelope rfl
    obtain ⟨before, after, heq⟩ := List.append_of_mem he
    obtain ⟨hnone, hpublish⟩ := hallowed heq
    obtain ⟨t, held, hdone, hmem⟩ := Phase.allowed_publish hpublish
    rw [hnone t held hdone] at hmem
    cases hmem
  · intro before message shown published next after heq hpublished
    obtain ⟨t, hrecorded⟩ := Phase.allowed_handle (hallowed heq).2
    have hsnoc : evs = (before ++ [⟨.handle message shown, (published, .ok)⟩]) ++ next :: after :=
      heq.trans (List.append_cons before _ _)
    have hnext := (hallowed hsnoc).2
    rw [Protocol.after_snoc, hrecorded] at hnext
    obtain ⟨op, reply⟩ := next
    obtain rfl | hnil := Phase.allowed_ran rfl hnext
    · refine ⟨t, reply, rfl, fun hok e he => ?_⟩
      subst hok
      obtain ⟨more, rfl⟩ := List.head?_eq_some_iff.mp he
      have hlast := (hallowed (hsnoc.trans (List.append_cons _ _ _))).2
      rw [Protocol.after_snoc, Protocol.after_snoc, hrecorded] at hlast
      exact Phase.allowed_wrote hlast
    · exact absurd (List.map_eq_nil_iff.mp hnil) hpublished
end SisaMessaging.Runtime
