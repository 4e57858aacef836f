/-
  Consumers: deliveries to endpoints with an inbox, over one store and one broker.

  The same deliveries are seen from two sides: what they do to the store (`inbox`) and what they do to
  the broker (`deliveries`). `consumers` has both, with the broker's stream: a message that the broker
  stores gets a copy on each endpoint with its type. `left_for`: a message leaves an endpoint only
  with a committed receipt, or with its error copy in the error destination.
-/
import SisaMessaging.Lib.Compose
import SisaMessaging.Runtime.Broker
import SisaMessaging.Runtime.Conversation
import SisaMessaging.Runtime.InboxOnce

namespace SisaMessaging.Runtime

open SisaMessaging.Core SisaMessaging.Lib
open SisaMessaging.Lib.System (Acts Sees)

variable {Msg : Type}

/-- A delivery of one of the broker's messages to an endpoint with an inbox. -/
structure Consumed (Msg : Type) where
  job : InboxDelivery Msg
  message : Nat

def Consumed.received (consumed : Consumed Msg) : Received Msg :=
  ⟨consumed.job.endpoint, consumed.job.source, consumed.message, consumed.job.delivery⟩

structure Consumers (Msg : Type) where
  /-- The store's tables, and what the deliveries did to them. -/
  tables : Inbox Msg
  broker : Broker Msg
  /-- The messages that the broker stored, oldest first. -/
  stream : List Envelope

/-- What the database and the broker do on their own. -/
inductive ConsumerAction where
  | resolve (transaction : Transaction)
  | store (envelope : Envelope)

/-- Puts the messages on their endpoints, each under a new number. -/
inductive Puts : Broker Msg → List (String × Envelope) → Broker Msg → Prop where
  | nil {broker} : Puts broker [] broker
  | cons {broker put puts broker'} (message : Nat) : broker.messages message = none →
      Puts { broker with messages := Function.update broker.messages message (some put) } puts broker' →
      Puts broker (put :: puts) broker'

/-- The endpoints that get a copy of the message. -/
def fanOut (endpoints : List EndpointSpec) (envelope : Envelope) : List (String × Envelope) :=
  (endpoints.filter fun endpoint => envelope.messageType ∈ endpoint.messageTypes).map fun endpoint =>
    (endpoint.name, envelope)

/-- Any number of deliveries over one inbox and one broker, whose subscriptions are `endpoints`. -/
def consumers (Msg : Type) (endpoints : List EndpointSpec) :
    System Nat (Op Msg) (Ret Msg) (Consumed Msg) (Consumers Msg) ConsumerAction where
  body consumed := consumed.job.process
  launch i consumed s s' := (inbox Msg).launch i consumed.job s.tables s'.tables ∧
    (deliveries Msg).launch i consumed.received s.broker s'.broker ∧ s'.stream = s.stream
  exec i consumed op reply s s' := (inbox Msg).exec i consumed.job op reply s.tables s'.tables ∧
    (deliveries Msg).exec i consumed.received op reply s.broker s'.broker ∧ s'.stream = s.stream
  leave _ _ s s' := s' = s
  env
    | .resolve t, s, s' => s.tables.Resolves s'.tables t ∧ s' = { s with tables := s'.tables }
    | .store envelope, s, s' => Puts s.broker (fanOut endpoints envelope) s'.broker ∧
      s' = { s with broker := s'.broker, stream := s.stream ++ [envelope] }

abbrev ConsumerPool (Msg : Type) :=
  System.State Nat (Op Msg) (Ret Msg) (Consumed Msg) (Consumers Msg)

namespace Inbox

/-! ## What a step does -/

/-- The transaction is over to the delivery that began it, or to the database. -/
def Open (s : Inbox Msg) (t : Transaction) : Prop :=
  ∃ i, s.transactions t = some (i, .running) ∨ s.transactions t = some (i, .unresolved)

/-- What an operation of delivery `i` may do to the tables. -/
inductive Change (i : Nat) (s : Inbox Msg) : Op Msg → Inbox Msg → Prop where
  | same {op} : Change i s op s
  | began {op} (t : Transaction) : s.transactions t = none →
      Change i s op (s.setTransaction t i .running)
  | received {op} (r : Receipt) : Change i s op (s.addReceipt r)
  | ran (message : Msg) (context : HandlerContext (Option Transaction)) (published : List Encoded)
      (returned : Bool) : Change i s (.handle message context)
        (s.addRun ⟨i, published.map context.envelopeOf, returned⟩)
  | wrote (t : Transaction) (envelopes written : List Envelope) : s.Running t →
      Change i s (.insert t envelopes) (s.addRows t i written)
  | ended {op} (t : Transaction) (status : Status) : s.Running t →
      Change i s op (s.setTransaction t i status)
  | sent {op} (envelope : Envelope) : Change i s op (s.addSent i envelope)
  | acked {op} : Change i s op (s.addAcked i)

theorem Answers.change {s s' : Inbox Msg} {i : Nat} {op : Op Msg} {reply : Ret Msg op}
    (h : s.Answers i s' op reply) : s.Change i op s' := by
  cases op with
  | begin =>
    match reply, h with
    | .error _, h => exact h ▸ .same
    | .ok t, ⟨hn, h⟩ => exact h ▸ .began t hn
  | record t endpoint envelope =>
    match reply, h with
    | .ok true, ⟨_, _, h⟩ => exact h ▸ .received _
    | .ok false, ⟨_, _, h⟩ => exact h ▸ .same
    | .error _, .inl h => exact h ▸ .same
    | .error _, .inr ⟨_, h⟩ => exact h ▸ .received _
  | handle message context =>
    match reply, h with
    | (published, ended), h => exact h ▸ .ran message context published _
  | insert t envelopes =>
    match reply, h with
    | .ok (), ⟨hr, h⟩ => exact h ▸ .wrote t envelopes envelopes hr
    | .error _, .inl h => exact h ▸ .same
    | .error _, .inr ⟨hr, written, _, h⟩ => exact h ▸ .wrote t envelopes written hr
  | commit t =>
    match reply, h with
    | .ok (), ⟨hr, _, h⟩ => exact h ▸ .ended t _ hr
    | .error _, .inl h => exact h ▸ .same
    | .error _, .inr ⟨hr, status, _, h⟩ => exact h ▸ .ended t status hr
  | rollback t =>
    rcases h with h | ⟨hr, h⟩
    · exact h ▸ .same
    · exact h ▸ .ended t _ hr
  | publish envelope =>
    rcases h with h | ⟨_, h⟩
    · exact h ▸ .sent envelope
    · exact h ▸ .same
  | ack => exact (show s' = s.addAcked i from h) ▸ .acked
  | publishError | retry | reject => exact (show s' = s from h) ▸ .same

/-! ## What only grows -/

/-- Nothing is taken back but a transaction that isn't committed. -/
structure Grows (s s' : Inbox Msg) : Prop where
  deliveries : ∀ i job, s.deliveries i = some job → s'.deliveries i = some job
  receipts : s.receipts ⊆ s'.receipts
  rows : s.rows ⊆ s'.rows
  runs : s.runs ⊆ s'.runs
  acked : s.acked ⊆ s'.acked
  committed : ∀ t i, s.transactions t = some (i, .committed) →
    s'.transactions t = some (i, .committed)

theorem Grows.refl (s : Inbox Msg) : s.Grows s :=
  ⟨fun _ _ h => h, fun _ h => h, fun _ h => h, fun _ h => h, fun _ h => h, fun _ _ h => h⟩

/-- A transaction that isn't committed begins or ends. -/
theorem grows_setTransaction {s : Inbox Msg} {t : Transaction} (i : Nat) (status : Status)
    (h : ∀ k, s.transactions t ≠ some (k, .committed)) : s.Grows (s.setTransaction t i status) := by
  refine { Grows.refl s with committed := fun t' k ht => ?_ }
  have hne : t' ≠ t := by
    rintro rfl
    exact h k ht
  rw [transactions_set_of_ne hne, ht]

theorem Change.grows {s s' : Inbox Msg} {i : Nat} {op : Op Msg} (h : s.Change i op s') :
    s.Grows s' := by
  cases h with
  | same => exact .refl s
  | began t hn => exact grows_setTransaction i .running (by simp [hn])
  | received r => exact { Grows.refl s with receipts := List.subset_append_left _ _ }
  | ran => exact { Grows.refl s with runs := List.subset_append_left _ _ }
  | wrote => exact { Grows.refl s with rows := List.subset_append_left _ _ }
  | ended t status hr =>
    obtain ⟨k, hk⟩ := hr
    exact grows_setTransaction i status (by simp [hk])
  | sent envelope => exact { Grows.refl s with }
  | acked => exact { Grows.refl s with acked := List.subset_append_left _ _ }

theorem Change.deliveries {s s' : Inbox Msg} {i : Nat} {op : Op Msg} (h : s.Change i op s') :
    s'.deliveries = s.deliveries := by
  cases h <;> rfl

theorem Resolves.deliveries {s s' : Inbox Msg} {t : Transaction} (h : s.Resolves s' t) :
    s'.deliveries = s.deliveries := by
  obtain ⟨i, ⟨_, rfl⟩ | ⟨_, status, _, rfl⟩⟩ := h
  · rfl
  · rfl

theorem Resolves.grows {s s' : Inbox Msg} {t : Transaction} (h : s.Resolves s' t) : s.Grows s' := by
  obtain ⟨i, ⟨ht, rfl⟩ | ⟨ht, status, _, rfl⟩⟩ := h
  · exact grows_setTransaction i _ (by simp [ht])
  · exact grows_setTransaction i _ (by simp [ht])

theorem launch_grows {s s' : Inbox Msg} {i : Nat} {job : InboxDelivery Msg}
    (h : (inbox Msg).launch i job s s') : s.Grows s' := by
  obtain ⟨hfree, rfl⟩ := h
  refine { Grows.refl s with deliveries := fun k other hk => ?_ }
  have hne : k ≠ i := by
    rintro rfl
    rw [hfree] at hk
    cases hk
  exact (Function.update_of_ne hne _ _).trans hk

variable {C : Pool Msg → System.Label Nat (Op Msg) (Ret Msg) (InboxDelivery Msg) Transaction → Prop}
  {st st' : Pool Msg}

theorem step_grows {l : System.Label Nat (Op Msg) (Ret Msg) (InboxDelivery Msg) Transaction}
    (h : System.Step (inbox Msg) st l st') : st.shared.Grows st'.shared := by
  cases h with
  | launch _ hl => exact launch_grows hl
  | exec _ he => exact he.change.grows
  | leave _ hl =>
    obtain rfl := hl
    exact .refl _
  | env he => exact he.grows

/-! ## Runs and rows -/

/-- Each run is of a known delivery and published what the delivered message caused, and each row is
    of a delivery whose handler ran. -/
structure Traced (s : Inbox Msg) : Prop where
  runs : ∀ run ∈ s.runs, ∃ job, s.deliveries run.delivery = some job ∧
    ∀ envelope ∈ run.published, Caused job.delivery.envelope envelope
  rows : ∀ row ∈ s.rows, ∃ run ∈ s.runs, run.delivery = row.delivery

/-- A delivery inserts once its handler ran. -/
theorem Phase.ran_of_insert {s : Inbox Msg} {i : Nat} {job : InboxDelivery Msg} {phase : Phase}
    {t : Transaction} {envelopes : List Envelope} (hf : s.Fits i job phase)
    (ha : phase.Allowed job (.insert t envelopes)) : ∃ run ∈ s.runs, run.delivery = i := by
  cases phase with
  | ran t' published => exact hf.2.2.1.1
  | _ => exact ha.elim

theorem traced (h : (inbox Msg).Reach Empty C st) : st.shared.Traced := by
  induction h with
  | init h =>
    obtain ⟨_, _, _, hrows, hruns, _, _⟩ := h
    constructor
    · simp [hruns]
    · simp [hrows]
  | @step st l st' h hs _ ih =>
    have hgrows := step_grows hs
    have runs_kept : ∀ run ∈ st.shared.runs, ∃ job,
        st'.shared.deliveries run.delivery = some job ∧
          ∀ envelope ∈ run.published, Caused job.delivery.envelope envelope := by
      intro run hrun
      obtain ⟨job, hjob, hcaused⟩ := ih.runs run hrun
      exact ⟨job, hgrows.deliveries _ _ hjob, hcaused⟩
    have rows_kept : ∀ row ∈ st.shared.rows, ∃ run ∈ st'.shared.runs, run.delivery = row.delivery := by
      intro row hrow
      obtain ⟨run, hrun, hd⟩ := ih.rows row hrow
      exact ⟨run, hgrows.runs hrun, hd⟩
    cases hs with
    | launch _ hl =>
      obtain ⟨_, rfl⟩ := hl
      exact ⟨runs_kept, rows_kept⟩
    | leave _ hl =>
      obtain rfl := hl
      exact ih
    | env he =>
      obtain ⟨i, ⟨_, rfl⟩ | ⟨_, _, _, rfl⟩⟩ := he
      · exact ⟨runs_kept, rows_kept⟩
      · exact ⟨runs_kept, rows_kept⟩
    | @exec i job op next reply sh hp he =>
      obtain ⟨g, hjob, hfits, hallowed⟩ := asks h hp
      have hproper := (h.only (fun job => Endpoint.process_proper _ _ job.delivery) i _ hp).1
      have hchange := he.change
      cases hchange with
      | same | began | received | ended | sent | acked => exact ⟨runs_kept, rows_kept⟩
      | ran message context published returned =>
        refine ⟨fun run hrun => ?_, rows_kept⟩
        rcases List.mem_append.mp hrun with hrun | hrun
        · exact runs_kept run hrun
        · obtain rfl := List.mem_singleton.mp hrun
          refine ⟨job, hjob, fun envelope hm => ?_⟩
          obtain ⟨encoded, _, rfl⟩ := List.mem_map.mp hm
          have hcaused := caused_envelopeOf context encoded
          rwa [show context.envelope = job.delivery.envelope from hproper] at hcaused
      | wrote t envelopes written hr =>
        refine ⟨runs_kept, fun row hrow => ?_⟩
        rcases List.mem_append.mp hrow with hrow | hrow
        · exact rows_kept row hrow
        · obtain ⟨envelope, _, rfl⟩ := List.mem_map.mp hrow
          have hran : ∃ run ∈ st.shared.runs, run.delivery = i := Phase.ran_of_insert hfits hallowed
          exact hran

end Inbox

namespace Consumers

def Empty (s : Consumers Msg) : Prop := s.tables.Empty ∧ s.broker.Empty ∧ s.stream = []

variable {endpoints : List EndpointSpec}

/-! ## The two sides -/

theorem sees_tables : Sees (consumers Msg endpoints) (inbox Msg) Consumed.job tables where
  body _ := rfl
  launch h := h.1
  exec h := h.1
  leave h := congrArg tables h
  env := by
    intro a s s' procs h
    cases a with
    | resolve t => exact ⟨[t], .cons h.1 trivial .nil⟩
    | store envelope =>
      refine ⟨[], ?_⟩
      rw [h.2]
      exact .nil

theorem puts_acts {broker broker' : Broker Msg} {puts : List (String × Envelope)}
    (h : Puts broker puts broker')
    (procs : Nat → Option (System.Proc (Op Msg) (Ret Msg) (Received Msg))) : ∃ actions,
    Acts (deliveries Msg) (fun _ _ => True) ⟨procs, broker⟩ actions ⟨procs, broker'⟩ := by
  induction h with
  | nil => exact ⟨[], .nil⟩
  | cons message hn _ ih =>
    obtain ⟨actions, ha⟩ := ih
    exact ⟨(message, _) :: actions, .cons ⟨hn, rfl⟩ trivial ha⟩

/-- Only messages are new. -/
theorem puts_eq {broker broker' : Broker Msg} {puts : List (String × Envelope)}
    (h : Puts broker puts broker') : broker' = { broker with messages := broker'.messages } := by
  induction h with
  | nil => rfl
  | cons _ _ _ ih => rw [ih]

/-- The messages are the ones before and the new ones. -/
theorem puts_messages {broker broker' : Broker Msg} {puts : List (String × Envelope)}
    (h : Puts broker puts broker') :
    (∀ message put, broker.messages message = some put → broker'.messages message = some put) ∧
      (∀ put ∈ puts, ∃ message, broker'.messages message = some put) ∧
      ∀ message put, broker'.messages message = some put →
        broker.messages message = some put ∨ put ∈ puts := by
  induction h with
  | nil => exact ⟨fun _ _ h => h, by simp, fun _ _ h => Or.inl h⟩
  | @cons broker put puts broker' message hn _ ih =>
    obtain ⟨hkept, hputs, honly⟩ := ih
    refine ⟨fun other put' ho => hkept other put' ?_, fun put' hm => ?_, fun other put' ho => ?_⟩
    · have hne : other ≠ message := by
        rintro rfl
        rw [hn] at ho
        cases ho
      exact (Function.update_of_ne hne _ _).trans ho
    · rcases List.mem_cons.mp hm with rfl | hm
      · exact ⟨message, hkept message _ (Function.update_self ..)⟩
      · exact hputs put' hm
    · rcases honly other put' ho with ho | hm
      · rcases System.update_eq_some.mp ho with ⟨_, he⟩ | ⟨_, ho⟩
        · cases he
          exact Or.inr List.mem_cons_self
        · exact Or.inl ho
      · exact Or.inr (List.mem_cons_of_mem _ hm)

theorem sees_broker : Sees (consumers Msg endpoints) (deliveries Msg) Consumed.received broker where
  body _ := rfl
  launch h := h.2.1
  exec h := h.2.1
  leave h := congrArg broker h
  env := by
    intro a s s' procs h
    cases a with
    | resolve t =>
      refine ⟨[], ?_⟩
      rw [h.2]
      exact .nil
    | store envelope => exact puts_acts h.1 procs

variable {C : ConsumerPool Msg → System.Label Nat (Op Msg) (Ret Msg) (Consumed Msg) ConsumerAction → Prop}
  {s : ConsumerPool Msg}

theorem run_tables (h : (consumers Msg endpoints).Reach Empty C s) :
    (inbox Msg).Reach Inbox.Empty (fun _ _ => True) (s.view Consumed.job tables) :=
  h.view sees_tables fun _ h0 => h0.1

theorem run_broker (h : (consumers Msg endpoints).Reach Empty C s) :
    (deliveries Msg).Reach Broker.Empty (fun _ _ => True) (s.view Consumed.received broker) :=
  h.view sees_broker fun _ h0 => h0.2.1

theorem step_grows {s s' : ConsumerPool Msg}
    {l : System.Label Nat (Op Msg) (Ret Msg) (Consumed Msg) ConsumerAction}
    (h : System.Step (consumers Msg endpoints) s l s') : s.shared.tables.Grows s'.shared.tables := by
  cases h with
  | launch _ hl => exact Inbox.launch_grows hl.1
  | exec _ he => exact he.1.change.grows
  | leave _ hl =>
    obtain rfl := hl
    exact .refl _
  | @env a sh he =>
    cases a with
    | resolve t => exact he.1.grows
    | store envelope =>
      rw [show sh = _ from he.2]
      exact .refl _

/-- Only the broker's own action adds to the stream. -/
theorem step_stream {s s' : ConsumerPool Msg}
    {l : System.Label Nat (Op Msg) (Ret Msg) (Consumed Msg) ConsumerAction}
    (h : System.Step (consumers Msg endpoints) s l s') (hne : ∀ envelope, l ≠ .env (.store envelope)) :
    s'.shared.stream = s.shared.stream := by
  cases h with
  | launch _ hl => exact hl.2.2
  | exec _ he => exact he.2.2
  | leave _ hl => exact congrArg stream hl
  | @env a sh he =>
    cases a with
    | resolve t =>
      rw [show sh = _ from he.2]
    | store envelope => exact absurd rfl (hne envelope)

/-! ## Why a message left -/

/-- The broker's histories are of the store's deliveries, and an ack is in both. -/
structure Agrees (s : Consumers Msg) : Prop where
  job : ∀ i received evs, s.broker.history i = some (received, evs) →
    ∃ consumed : Consumed Msg, consumed.received = received ∧ s.tables.deliveries i = some consumed.job
  acked : ∀ i received evs reply, s.broker.history i = some (received, evs) →
    ⟨.ack, reply⟩ ∈ evs → i ∈ s.tables.acked

theorem agrees (h : (consumers Msg endpoints).Reach Empty C s) : s.shared.Agrees := by
  induction h with
  | init h => constructor <;> simp [h.2.1.2]
  | @step s l s' h hs _ ih =>
    cases hs with
    | @launch i consumed sh hn hl =>
      obtain ⟨⟨hfree, htables⟩, ⟨hnone, _, _, hbroker⟩, _⟩ := hl
      constructor
      · intro k received evs hk
        rw [hbroker] at hk
        rcases System.update_eq_some.mp hk with ⟨rfl, he⟩ | ⟨hne, hk⟩
        · cases he
          exact ⟨consumed, rfl, by rw [htables]; exact Function.update_self ..⟩
        · obtain ⟨other, hother, hjob⟩ := ih.job k received evs hk
          exact ⟨other, hother, by rw [htables]; exact (Function.update_of_ne hne _ _).trans hjob⟩
      · intro k received evs reply hk hm
        rw [hbroker] at hk
        rw [htables]
        rcases System.update_eq_some.mp hk with ⟨rfl, he⟩ | ⟨_, hk⟩
        · cases he
          cases hm
        · exact ih.acked k received evs reply hk hm
    | @exec i consumed op next reply sh hp he =>
      obtain ⟨htables, hbroker, _⟩ := he
      have hgrows : s.shared.tables.Grows sh.tables := htables.change.grows
      have hview : (s.view Consumed.received broker).procs i = some ⟨consumed.received, .call op next⟩ := by
        simp [System.State.view, hp, System.Proc.view]
      obtain ⟨done, hi, _⟩ :=
        ((run_broker h).recorded Broker.recorded (fun _ h0 => h0.2) i).2 _ hview
      have hhistory := Broker.recorded.exec hi hbroker
      constructor
      · intro k received evs hk
        rw [hhistory] at hk
        rcases System.update_eq_some.mp hk with ⟨rfl, he⟩ | ⟨_, hk⟩
        · cases he
          obtain ⟨other, hother, hjob⟩ := ih.job k _ done hi
          exact ⟨other, hother, hgrows.deliveries _ _ hjob⟩
        · obtain ⟨other, hother, hjob⟩ := ih.job k received evs hk
          exact ⟨other, hother, hgrows.deliveries _ _ hjob⟩
      · intro k received evs reply' hk hm
        rw [hhistory] at hk
        rcases System.update_eq_some.mp hk with ⟨rfl, he⟩ | ⟨_, hk⟩
        · cases he
          rcases List.mem_append.mp hm with hm | hm
          · exact hgrows.acked (ih.acked k _ done reply' hi hm)
          · cases List.mem_singleton.mp hm
            rw [show sh.tables = s.shared.tables.addAcked k from htables]
            exact List.mem_append_right _ (List.mem_singleton_self k)
        · exact hgrows.acked (ih.acked k received evs reply' hk hm)
    | leave _ hl =>
      obtain rfl := hl
      exact ih
    | @env a sh he =>
      cases a with
      | resolve t =>
        obtain ⟨hresolves, heq⟩ := he
        have hgrows := hresolves.grows
        rw [heq]
        constructor
        · intro k received evs hk
          obtain ⟨other, hother, hjob⟩ := ih.job k received evs hk
          exact ⟨other, hother, hgrows.deliveries _ _ hjob⟩
        · exact fun k received evs reply hk hm => hgrows.acked (ih.acked k received evs reply hk hm)
      | store envelope =>
        obtain ⟨hputs, heq⟩ := he
        have hhistory : sh.broker.history = s.shared.broker.history := by
          rw [puts_eq hputs]
        rw [heq]
        constructor
        · intro k received evs hk
          dsimp only at hk
          rw [hhistory] at hk
          exact ih.job k received evs hk
        · intro k received evs reply hk
          dsimp only at hk
          rw [hhistory] at hk
          exact ih.acked k received evs reply hk

/-! ## Where a message is -/

/-- A message of the stream is on every endpoint with its type, and nothing else is on one or
    delivered. -/
structure Streamed (endpoints : List EndpointSpec) (s : Consumers Msg) : Prop where
  spread : ∀ envelope ∈ s.stream, ∀ endpoint ∈ endpoints,
    envelope.messageType ∈ endpoint.messageTypes →
      ∃ message, s.broker.messages message = some (endpoint.name, envelope)
  messages : ∀ message name envelope, s.broker.messages message = some (name, envelope) →
    envelope ∈ s.stream
  delivered : ∀ i job, s.tables.deliveries i = some job → job.delivery.envelope ∈ s.stream

theorem mem_fanOut {name : String} {envelope stored : Envelope} :
    (name, envelope) ∈ fanOut endpoints stored ↔ stored = envelope ∧
      ∃ endpoint ∈ endpoints, stored.messageType ∈ endpoint.messageTypes ∧ endpoint.name = name := by
  simp only [fanOut, List.mem_map, List.mem_filter, decide_eq_true_eq, Prod.mk.injEq]
  constructor
  · rintro ⟨endpoint, ⟨hm, htype⟩, hname, he⟩
    exact ⟨he, endpoint, hm, htype, hname⟩
  · rintro ⟨he, endpoint, hm, htype, hname⟩
    exact ⟨endpoint, ⟨hm, htype⟩, hname, he⟩

theorem streamed (h : (consumers Msg endpoints).Reach Empty C s) : s.shared.Streamed endpoints := by
  induction h with
  | init h =>
    obtain ⟨htables, hbroker, hstream⟩ := h
    constructor
    · simp [hstream]
    · simp [hbroker.1]
    · simp [htables.1]
  | @step s l s' h hs _ ih =>
    -- A step that stores no message.
    have same {sh : Consumers Msg} (hm : sh.broker.messages = s.shared.broker.messages)
        (hstream : sh.stream = s.shared.stream)
        (hd : ∀ i job, sh.tables.deliveries i = some job → s.shared.tables.deliveries i = some job ∨
          job.delivery.envelope ∈ s.shared.stream) : sh.Streamed endpoints := by
      constructor
      · rw [hm, hstream]
        exact ih.spread
      · rw [hm, hstream]
        exact ih.messages
      · intro i job hi
        rw [hstream]
        rcases hd i job hi with hi | hin
        · exact ih.delivered i job hi
        · exact hin
    cases hs with
    | @launch i consumed sh _ hl =>
      obtain ⟨⟨_, htables⟩, ⟨_, _, hmessage, hbroker⟩, hstream⟩ := hl
      refine same (by rw [hbroker]) hstream fun k job hk => ?_
      rw [htables] at hk
      rcases System.update_eq_some.mp hk with ⟨_, he⟩ | ⟨_, hk⟩
      · cases he
        exact Or.inr (ih.messages _ _ _ hmessage)
      · exact Or.inl hk
    | @exec i consumed op next reply sh _ he =>
      obtain ⟨htables, ⟨taken, htaken, hbroker⟩, hstream⟩ := he
      have hdeliveries : sh.tables.deliveries = s.shared.tables.deliveries := htables.change.deliveries
      refine same ?_ hstream fun k job hk => Or.inl (hdeliveries ▸ hk)
      rw [hbroker]
      exact htaken.messages
    | leave _ hl =>
      obtain rfl := hl
      exact ih
    | @env a sh he =>
      cases a with
      | resolve t =>
        obtain ⟨hresolves, heq⟩ := he
        have hdeliveries : sh.tables.deliveries = s.shared.tables.deliveries := hresolves.deliveries
        exact same (by rw [heq]) (by rw [heq]) fun k job hk => Or.inl (hdeliveries ▸ hk)
      | store stored =>
        obtain ⟨hputs, heq⟩ := he
        obtain ⟨hkept, hnew, honly⟩ := puts_messages hputs
        rw [heq]
        constructor
        · intro envelope hm endpoint hendpoint htype
          rcases List.mem_append.mp hm with hm | hm
          · obtain ⟨message, hmessage⟩ := ih.spread envelope hm endpoint hendpoint htype
            exact ⟨message, hkept _ _ hmessage⟩
          · obtain rfl := List.mem_singleton.mp hm
            exact hnew _ (mem_fanOut.mpr ⟨rfl, endpoint, hendpoint, htype, rfl⟩)
        · intro message name envelope hmessage
          rcases honly message _ hmessage with hmessage | hm
          · exact List.mem_append_left _ (ih.messages message name envelope hmessage)
          · obtain ⟨rfl, _⟩ := mem_fanOut.mp hm
            exact List.mem_append_right _ (List.mem_singleton_self _)
        · exact fun i job hi => List.mem_append_left _ (ih.delivered i job hi)

/-- A message that left its endpoint has a committed receipt there, or its error copy is in the
    endpoint's error destination. -/
theorem left_for (h : (consumers Msg endpoints).Reach Empty C s) {message : Nat} {endpoint : String}
    {envelope : Envelope} (hm : s.shared.broker.messages message = some (endpoint, envelope))
    (hleft : s.shared.broker.left message = true) :
    s.shared.tables.ReceiptCommitted (receiptKey endpoint envelope) ∨
      ∃ delivery error copy, delivery.envelope = envelope ∧ ErrorCopy endpoint delivery error copy ∧
        (endpoint, copy) ∈ s.shared.broker.errors := by
  obtain ⟨i, received, evs, hi, rfl, rfl, rfl, hfor⟩ := Broker.leftFor (run_broker h) hm hleft
  rcases hfor with ⟨handling, held, settled, rfl, _, _⟩ | ⟨error, copy, hcopy, hin⟩
  · have hagrees := agrees h
    obtain ⟨consumed, rfl, hjob⟩ := hagrees.job i received _ hi
    have hacked := hagrees.acked i _ _ settled hi (by simp)
    exact Or.inl (((Inbox.consistent (run_tables h)).acked i hacked).2 _ hjob)
  · exact Or.inr ⟨_, error, copy, rfl, hcopy, hin⟩

end Consumers

end SisaMessaging.Runtime
