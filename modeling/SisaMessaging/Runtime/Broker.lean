/-
  Every delivery of a broker: many instances of endpoints handle deliveries at once, each with
  `Endpoint.process`, and stop at any await.

  A message leaves its endpoint when the broker takes an ack or a reject of one of its
  deliveries, also one it answered with an error. Whatever handlers, stores and the broker answer,
  a message that left was handled or has a copy in its endpoint's error destination, and a held
  publish comes after a successful handling.
-/
import SisaMessaging.Runtime.Settlement

namespace SisaMessaging.Runtime

open SisaMessaging.Core SisaMessaging.Lib
open SisaMessaging.Lib.Prog (Run After)
open SisaMessaging.Lib.System (Reach Recorded)

variable {Msg : Type}

/-- A delivery of a message, and the instance of its endpoint that received it. -/
structure Received (Msg : Type) where
  endpoint : Endpoint Msg
  source : Source
  /-- The broker's number of the message. -/
  message : Nat
  delivery : Delivery

/-- What the broker holds, and what each delivery did so far, by the delivery's number. -/
structure Broker (Msg : Type) where
  /-- The messages put on endpoints, with the endpoint's name. -/
  messages : Nat → Option (String × Envelope)
  /-- Whether a message has left its endpoint. -/
  left : Nat → Bool
  /-- The error destinations. -/
  errors : List (String × Envelope)
  history : Nat → Option (Received Msg × List (HandlingEvent Msg))

namespace Broker

def remove (broker : Broker Msg) (message : Nat) : Broker Msg :=
  { broker with left := Function.update broker.left message true }

def addError (broker : Broker Msg) (endpoint : String) (copy : Envelope) : Broker Msg :=
  { broker with errors := broker.errors ++ [(endpoint, copy)] }

def log (broker : Broker Msg) (i : Nat) (e : HandlingEvent Msg) : Broker Msg :=
  { broker with
    history := Function.update broker.history i
      ((broker.history i).map fun (received, evs) => (received, evs ++ [e])) }

/-- What an operation on a delivery of `message` does to the broker. One that reports an error may
    or may not have taken effect. -/
def Takes (message : Nat) (broker broker' : Broker Msg) : (op : Op Msg) → Ret Msg op → Prop
  | .ack, reply => broker' = broker.remove message ∨ (reply ≠ .ok () ∧ broker' = broker)
  | .reject, reply => broker' = broker.remove message ∨ (reply ≠ .ok () ∧ broker' = broker)
  | .publishError endpoint copy, reply =>
    broker' = broker.addError endpoint copy ∨ (reply ≠ .ok () ∧ broker' = broker)
  | _, _ => broker' = broker

/-- A broker without messages and deliveries. -/
def Empty (broker : Broker Msg) : Prop :=
  (∀ message, broker.messages message = none ∧ broker.left message = false) ∧
    ∀ i, broker.history i = none

end Broker

/-- Any number of deliveries, of any attempt and also several of one message, by any instances of
    its endpoint; and messages that others put on endpoints. -/
def deliveries (Msg : Type) :
    System Nat (Op Msg) (Ret Msg) (Received Msg) (Broker Msg) (Nat × String × Envelope) where
  body received := received.endpoint.process received.source received.delivery
  launch i received broker broker' :=
    broker.history i = none ∧ broker.left received.message = false ∧
    broker.messages received.message =
      some (received.endpoint.name, received.delivery.envelope) ∧
    broker' = { broker with history := Function.update broker.history i (some (received, [])) }
  exec i received op reply broker broker' :=
    ∃ taken, broker.Takes received.message taken op reply ∧ broker' = taken.log i ⟨op, reply⟩
  leave _ _ broker broker' := broker' = broker
  env put broker broker' :=
    broker.messages put.1 = none ∧
    broker' = { broker with messages := Function.update broker.messages put.1 (some put.2) }

namespace Broker

/-! ## What a step keeps -/

section Takes

variable {message : Nat} {broker taken : Broker Msg} {op : Op Msg} {reply : Ret Msg op}

/-- Only an ack or a reject takes a message off its endpoint, and only its own. -/
theorem Takes.cases (h : broker.Takes message taken op reply) :
    taken = broker ∨ (taken = broker.remove message ∧ (op = .ack ∨ op = .reject)) ∨
      ∃ endpoint copy, taken = broker.addError endpoint copy := by
  unfold Takes at h
  split at h
  · rcases h with h | ⟨_, h⟩
    · exact Or.inr (Or.inl ⟨h, Or.inl rfl⟩)
    · exact Or.inl h
  · rcases h with h | ⟨_, h⟩
    · exact Or.inr (Or.inl ⟨h, Or.inr rfl⟩)
    · exact Or.inl h
  · rcases h with h | ⟨_, h⟩
    · exact Or.inr (Or.inr ⟨_, _, h⟩)
    · exact Or.inl h
  · exact Or.inl h

theorem Takes.history (h : broker.Takes message taken op reply) :
    taken.history = broker.history := by
  rcases h.cases with rfl | ⟨rfl, _⟩ | ⟨_, _, rfl⟩ <;> rfl

theorem Takes.messages (h : broker.Takes message taken op reply) :
    taken.messages = broker.messages := by
  rcases h.cases with rfl | ⟨rfl, _⟩ | ⟨_, _, rfl⟩ <;> rfl

theorem Takes.left (h : broker.Takes message taken op reply) :
    taken.left = broker.left ∨
      (taken.left = Function.update broker.left message true ∧ (op = .ack ∨ op = .reject)) := by
  rcases h.cases with rfl | ⟨rfl, hop⟩ | ⟨_, _, rfl⟩
  · exact Or.inl rfl
  · exact Or.inr ⟨rfl, hop⟩
  · exact Or.inl rfl

/-- No copy leaves an error destination. -/
theorem Takes.errors (h : broker.Takes message taken op reply) :
    broker.errors ⊆ taken.errors := by
  rcases h.cases with rfl | ⟨rfl, _⟩ | ⟨_, _, rfl⟩
  · exact List.Subset.refl _
  · exact List.Subset.refl _
  · exact List.subset_append_left _ _

theorem Takes.publishError {endpoint : String} {copy : Envelope}
    (h : broker.Takes message taken (.publishError endpoint copy) (.ok ())) :
    (endpoint, copy) ∈ taken.errors := by
  rcases h with rfl | ⟨hne, _⟩
  · exact List.mem_append_right _ (List.mem_singleton.mpr rfl)
  · exact absurd rfl hne

end Takes

theorem recorded : Recorded (deliveries Msg) Broker.history where
  launch := by
    rintro i received broker broker' ⟨hn, _, _, rfl⟩
    exact ⟨hn, rfl⟩
  exec := by
    rintro i received evs op reply broker broker' hh ⟨taken, ht, rfl⟩
    simp [log, ht.history, hh]
  leave := by
    rintro i received broker broker' rfl
    rfl
  env := by
    rintro put broker broker' ⟨_, rfl⟩
    rfl

/-! ## Every run -/

/-- What holds between the broker and the deliveries' histories. -/
structure Accounted (broker : Broker Msg) : Prop where
  /-- A delivery is of a message of its endpoint. -/
  message : ∀ i received evs, broker.history i = some (received, evs) →
    broker.messages received.message = some (received.endpoint.name, received.delivery.envelope)
  /-- A message that left was acked or rejected. -/
  left : ∀ message, broker.left message = true → ∃ i received evs e,
    broker.history i = some (received, evs) ∧ received.message = message ∧ e ∈ evs ∧
      (e.op = .ack ∨ e.op = .reject)
  /-- A copy the broker took is in the error destination. -/
  copied : ∀ i received evs endpoint copy, broker.history i = some (received, evs) →
    ⟨.publishError endpoint copy, .ok ()⟩ ∈ evs → (endpoint, copy) ∈ broker.errors

theorem Empty.accounted {broker : Broker Msg} (h : broker.Empty) : broker.Accounted where
  message := by simp [h.2]
  left := by simp [h.1]
  copied := by simp [h.2]

/-- One more operation of a delivery. -/
theorem Accounted.exec {broker taken : Broker Msg} {i : Nat} {received : Received Msg}
    {done : List (HandlingEvent Msg)} {op : Op Msg} {reply : Ret Msg op} (h : broker.Accounted)
    (hi : broker.history i = some (received, done))
    (ht : broker.Takes received.message taken op reply) : (taken.log i ⟨op, reply⟩).Accounted := by
  have hlog : (taken.log i ⟨op, reply⟩).history =
      Function.update broker.history i (some (received, done ++ [⟨op, reply⟩])) := by
    simp [log, ht.history, hi]
  -- A delivery's history has only grown, by this operation if it is this delivery.
  have grown : ∀ k other evs, (taken.log i ⟨op, reply⟩).history k = some (other, evs) →
      ∃ before, broker.history k = some (other, before) ∧
        (evs = before ∨ (k = i ∧ other = received ∧ evs = before ++ [⟨op, reply⟩])) := by
    intro k other evs hk
    rw [hlog] at hk
    by_cases hki : k = i
    · subst hki
      rw [Function.update_self] at hk
      cases hk
      exact ⟨done, hi, Or.inr ⟨rfl, rfl, rfl⟩⟩
    · rw [Function.update_of_ne hki] at hk
      exact ⟨evs, hk, Or.inl rfl⟩
  have kept : ∀ k other evs, broker.history k = some (other, evs) →
      ∃ after, (taken.log i ⟨op, reply⟩).history k = some (other, after) ∧ evs ⊆ after := by
    intro k other evs hk
    rw [hlog]
    by_cases hki : k = i
    · subst hki
      rw [hi] at hk
      cases hk
      exact ⟨_, Function.update_self .., List.subset_append_left _ _⟩
    · exact ⟨evs, by rw [Function.update_of_ne hki, hk], List.Subset.refl _⟩
  constructor
  · intro k other evs hk
    obtain ⟨before, hk, _⟩ := grown k other evs hk
    change taken.messages other.message = _
    rw [ht.messages]
    exact h.message k other before hk
  · intro message hm
    change taken.left message = true at hm
    rcases ht.left with hl | ⟨hl, hop⟩
    · rw [hl] at hm
      obtain ⟨k, other, evs, e, hk, hmsg, he, hop⟩ := h.left message hm
      obtain ⟨after, hk, hsub⟩ := kept k other evs hk
      exact ⟨k, other, after, e, hk, hmsg, hsub he, hop⟩
    · by_cases hmsg : message = received.message
      · refine ⟨i, received, done ++ [⟨op, reply⟩], ⟨op, reply⟩, ?_, hmsg.symm, by simp, hop⟩
        rw [hlog, Function.update_self]
      · rw [hl, Function.update_of_ne hmsg] at hm
        obtain ⟨k, other, evs, e, hk, hmsg, he, hop⟩ := h.left message hm
        obtain ⟨after, hk, hsub⟩ := kept k other evs hk
        exact ⟨k, other, after, e, hk, hmsg, hsub he, hop⟩
  · intro k other evs endpoint copy hk he
    change (endpoint, copy) ∈ taken.errors
    obtain ⟨before, hb, rfl | ⟨rfl, rfl, rfl⟩⟩ := grown k other evs hk
    · exact ht.errors (h.copied k other evs endpoint copy hb he)
    · rcases List.mem_append.mp he with he | he
      · exact ht.errors (h.copied k other before endpoint copy hb he)
      · cases List.mem_singleton.mp he
        exact ht.publishError

/-- A new delivery. -/
theorem Accounted.launch {broker : Broker Msg} {i : Nat} {received : Received Msg}
    (h : broker.Accounted) (hi : broker.history i = none)
    (hm : broker.messages received.message =
      some (received.endpoint.name, received.delivery.envelope)) :
    Accounted { broker with
      history := Function.update broker.history i (some (received, [])) } := by
  have old : ∀ k other evs, Function.update broker.history i (some (received, [])) k =
      some (other, evs) → (other = received ∧ evs = []) ∨ broker.history k = some (other, evs) := by
    intro k other evs hk
    by_cases hki : k = i
    · subst hki
      rw [Function.update_self] at hk
      cases hk
      exact Or.inl ⟨rfl, rfl⟩
    · rw [Function.update_of_ne hki] at hk
      exact Or.inr hk
  constructor
  · intro k other evs hk
    rcases old k other evs hk with ⟨rfl, _⟩ | hk
    · exact hm
    · exact h.message k other evs hk
  · intro message hleft
    obtain ⟨k, other, evs, e, hk, hmsg, he, hop⟩ := h.left message hleft
    have hki : k ≠ i := by
      rintro rfl
      rw [hi] at hk
      cases hk
    exact ⟨k, other, evs, e, (Function.update_of_ne hki _ _).trans hk, hmsg, he, hop⟩
  · intro k other evs endpoint copy hk he
    rcases old k other evs hk with ⟨_, rfl⟩ | hk
    · cases he
    · exact h.copied k other evs endpoint copy hk he

/-- A message put on an endpoint. -/
theorem Accounted.put {broker : Broker Msg} {message : Nat} {put : String × Envelope}
    (h : broker.Accounted) (hn : broker.messages message = none) :
    Accounted { broker with messages := Function.update broker.messages message (some put) } where
  message := by
    intro k other evs hk
    have hm := h.message k other evs hk
    have hne : other.message ≠ message := by
      intro he
      rw [he, hn] at hm
      cases hm
    exact (Function.update_of_ne hne _ _).trans hm
  left := h.left
  copied := h.copied

theorem accounted {C : System.State Nat (Op Msg) (Ret Msg) (Received Msg) (Broker Msg) →
      System.Label Nat (Op Msg) (Ret Msg) (Received Msg) (Nat × String × Envelope) → Prop}
    {s : System.State Nat (Op Msg) (Ret Msg) (Received Msg) (Broker Msg)}
    (h : (deliveries Msg).Reach Empty C s) : s.shared.Accounted := by
  induction h with
  | init h => exact h.accounted
  | @step s l s' hr hs _ ih =>
    cases hs with
    | launch _ hl =>
      obtain ⟨hn, _, hm, rfl⟩ := hl
      exact ih.launch hn hm
    | @exec i received op next reply sh hp he =>
      obtain ⟨taken, ht, rfl⟩ := he
      obtain ⟨done, hi, _⟩ := (hr.recorded recorded (fun _ h0 => h0.2) i).2 _ hp
      exact ih.exec hi ht
    | leave _ hl =>
      subst hl
      exact ih
    | env he =>
      obtain ⟨hn, rfl⟩ := he
      exact ih.put hn

/-! ## The law of every delivery and every run -/

/-- The message left its endpoint with a reason: a delivery of it was handled and every held
    publish accepted, or its error copy is in the endpoint's error destination. -/
def LeftFor (broker : Broker Msg) (message : Nat) (endpoint : String) (envelope : Envelope) :
    Prop :=
  ∃ i received evs, broker.history i = some (received, evs) ∧ received.message = message ∧
    received.endpoint.name = endpoint ∧ received.delivery.envelope = envelope ∧
    ((∃ handling held settled, evs = handling ++ accepted held ++ [⟨.ack, settled⟩] ∧
        Run (received.endpoint.pipeline.run
          (received.endpoint.context received.source received.delivery)) handling (.ok held) ∧
        Handled envelope handling received.endpoint.pipeline) ∨
      ∃ error copy, ErrorCopy endpoint received.delivery error copy ∧
        (endpoint, copy) ∈ broker.errors)

/-- A publish of the delivery comes after its handling returned Ok and held it; with an inbox,
    after the commit (`Handled`). -/
def PublishesHeld (received : Received Msg) (evs : List (HandlingEvent Msg)) : Prop :=
  ∀ before envelope reply after, evs = before ++ ⟨.publish envelope, reply⟩ :: after →
    ∃ handling held sent, before = handling ++ sent ∧ envelope ∈ held ∧
      Run (received.endpoint.pipeline.run
        (received.endpoint.context received.source received.delivery)) handling (.ok held) ∧
      Handled received.delivery.envelope handling received.endpoint.pipeline

/-- What a delivery did so far starts a settlement. -/
theorem history_settlement {C} {s : System.State Nat (Op Msg) (Ret Msg) (Received Msg) (Broker Msg)}
    (h : (deliveries Msg).Reach Empty C s) {i : Nat} {received : Received Msg}
    {evs : List (HandlingEvent Msg)} (hi : s.shared.history i = some (received, evs)) :
    ∃ more outcome handling sends copies last,
      evs ++ more = handling ++ sends ++ copies ++ [last] ∧
      Settlement received.endpoint received.source received.delivery outcome handling sends copies
        last := by
  obtain ⟨q, ha⟩ := (h.recorded recorded (fun _ h0 => h0.2) i).1 _ _ hi
  obtain ⟨more, _, hrun⟩ := ha.complete Ret.nonempty
  exact ⟨more, Endpoint.run_process hrun⟩

theorem publishesHeld {C} {s : System.State Nat (Op Msg) (Ret Msg) (Received Msg) (Broker Msg)}
    (h : (deliveries Msg).Reach Empty C s) {i : Nat} {received : Received Msg}
    {evs : List (HandlingEvent Msg)} (hi : s.shared.history i = some (received, evs)) :
    PublishesHeld received evs := by
  rintro before envelope reply after rfl
  obtain ⟨more, outcome, handling, sends, copies, last, he, hs⟩ := history_settlement h hi
  rw [List.append_assoc, List.cons_append] at he
  obtain ⟨held, sent, rfl, rfl, hin⟩ := hs.publish_after he
  exact ⟨handling, held, sent, rfl, hin, hs.ran, Pipeline.run_ok hs.ran⟩

theorem leftFor {C} {s : System.State Nat (Op Msg) (Ret Msg) (Received Msg) (Broker Msg)}
    (h : (deliveries Msg).Reach Empty C s) {message : Nat} {endpoint : String}
    {envelope : Envelope} (hm : s.shared.messages message = some (endpoint, envelope))
    (hl : s.shared.left message = true) : s.shared.LeftFor message endpoint envelope := by
  have hacc := accounted h
  obtain ⟨i, received, evs, e, hi, rfl, he, hop⟩ := hacc.left message hl
  have hput := hacc.message i received evs hi
  rw [hm, Option.some.injEq, Prod.mk.injEq] at hput
  obtain ⟨rfl, rfl⟩ := hput
  obtain ⟨more, outcome, handling, sends, copies, last, hmore, hs⟩ := history_settlement h hi
  have hsettles : e.op.settles = true := by rcases hop with hop | hop <;> rw [hop] <;> rfl
  obtain ⟨rfl, rfl⟩ := hs.settled_last hmore he hsettles
  refine ⟨i, received, _, hi, rfl, rfl, rfl, ?_⟩
  rcases hop with hop | hop
  · obtain ⟨held, rfl, rfl⟩ := hs.ack.mp hop
    obtain rfl : copies = [] := hs.noCopy hop
    obtain ⟨op, settled⟩ := e
    cases hop
    exact Or.inl ⟨handling, held, settled, by rw [List.append_nil], hs.ran, Pipeline.run_ok hs.ran⟩
  · obtain ⟨failure, error, _, _, copy, hc, rfl⟩ := hs.reject.mp hop
    refine Or.inr ⟨error, copy, hc, ?_⟩
    exact hacc.copied i received _ _ copy hi (by simp)

end Broker

/-- Every delivery is settled once, by how its handling and its publishes ended. In every run of
    any number of deliveries, a message leaves its endpoint only handled or with its error copy in
    the error destination, and no held publish happens before a successful handling. -/
theorem process_settlement (Msg : Type) :
    (∀ (endpoint : Endpoint Msg) source delivery evs,
      Run (endpoint.process source delivery) evs () →
      ∃ outcome handling sends copies last, evs = handling ++ sends ++ copies ++ [last] ∧
        evs.filter (fun e => e.op.settles) = [last] ∧
        Settlement endpoint source delivery outcome handling sends copies last) ∧
    ∀ s, (deliveries Msg).Reach Broker.Empty (fun _ _ => True) s →
      (∀ message endpoint envelope, s.shared.messages message = some (endpoint, envelope) →
        s.shared.left message = true → s.shared.LeftFor message endpoint envelope) ∧
      ∀ i received evs, s.shared.history i = some (received, evs) →
        Broker.PublishesHeld received evs := by
  constructor
  · intro endpoint source delivery evs h
    obtain ⟨outcome, handling, sends, copies, last, rfl, hs⟩ := Endpoint.run_process h
    exact ⟨outcome, handling, sends, copies, last, rfl, hs.once, hs⟩
  · intro s h
    exact ⟨fun _ _ _ => Broker.leftFor h, fun _ _ _ => Broker.publishesHeld h⟩

/-! ## A message no handler takes -/

/-- `billing` has no handler for the message: its first delivery sends the error copy and rejects. -/
def unhandled : Received Unit where
  endpoint := ⟨"billing", .default, .plain "billing" []⟩
  source := billing
  message := 0
  delivery := ⟨orderShipped, 1⟩

theorem process_settlement_unhandled :
    let copy := errorEnvelope orderShipped "billing"
      ⟨"no_handler", "endpoint billing has no handler for this message type"⟩ 1
    let evs : List (HandlingEvent Unit) :=
      [⟨.publishError "billing" copy, .ok ()⟩, ⟨.reject, .ok ()⟩]
    (∃ outcome handling sends copies last, evs = handling ++ sends ++ copies ++ [last] ∧
      evs.filter (fun e => e.op.settles) = [last] ∧ Settlement unhandled.endpoint unhandled.source
        unhandled.delivery outcome handling sends copies last) ∧
    ∃ s, (deliveries Unit).Reach Broker.Empty (fun _ _ => True) s ∧
      s.shared.left 0 = true ∧ s.shared.LeftFor 0 "billing" orderShipped := by
  intro copy evs
  have hrun : Run (unhandled.endpoint.process unhandled.source unhandled.delivery) evs () :=
    .cons (.cons (.nil _))
  have h0 : (deliveries Unit).Reach Broker.Empty (fun _ _ => True)
      ⟨fun _ => none, fun _ => none, fun _ => false, [], fun _ => none⟩ :=
    .init ⟨fun _ => ⟨rfl, rfl⟩, fun _ => rfl⟩
  have h1 := h0.env (0, "billing", orderShipped) ⟨rfl, rfl⟩ trivial
  have h2 := h1.launch 0 unhandled rfl ⟨rfl, rfl, rfl, rfl⟩ trivial
  have h3 := h2.exec 0 (.publishError "billing" copy) (.ok ()) rfl
    ⟨_, Or.inl rfl, rfl⟩ trivial
  have h4 := h3.exec 0 .reject (.ok ()) rfl ⟨_, Or.inl rfl, rfl⟩ trivial
  exact ⟨(process_settlement Unit).1 _ _ _ evs hrun, _, h4, rfl,
    ((process_settlement Unit).2 _ h4).1 0 "billing" orderShipped rfl rfl⟩

end SisaMessaging.Runtime
