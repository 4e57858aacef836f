/-
  Instances of one endpoint whose handlers differ, as in a rolling deploy.

  The instances share the endpoint's consumer, and each delivery goes to any of them. Starting one
  widens the consumer's filter to the subjects of its message types, so an instance gets messages
  that only another one handles. It gives up on such a message at its first delivery.
-/
import SisaMessaging.Nats.Subscribe
import SisaMessaging.Runtime.Broker

namespace SisaMessaging.Runtime

open SisaMessaging.Core SisaMessaging.Lib
open SisaMessaging.Lib.System (Reach Recorded)
open SisaMessaging.Nats (widen ownSubjects subject filterMatches mem_widen)

variable {Msg : Type}

/-! ## Instances -/

def Pipeline.handlers : Pipeline Msg → Handlers Msg
  | plain _ handlers => handlers
  | transactional _ handlers _ => handlers

/-- What the transport knows of the endpoint. -/
def Endpoint.spec (endpoint : Endpoint Msg) : EndpointSpec where
  name := endpoint.name
  messageTypes := endpoint.pipeline.handlers.map (·.1)

def Endpoint.handles (endpoint : Endpoint Msg) (messageType : MessageType) : Bool :=
  (endpoint.pipeline.handlers.lookup messageType).isSome

/-- The instances of an endpoint, and what they share. -/
structure Fleet (Msg : Type) where
  broker : Broker Msg
  /-- The consumer's filter. -/
  filterSubjects : List String
  /-- The instances that run and receive. -/
  instances : Nat → Option (Endpoint Msg)
  /-- The instance that has a delivery in hand, by the delivery's number. -/
  inHand : Nat → Option Nat

inductive FleetAction (Msg : Type) where
  /-- A message is put on an endpoint. -/
  | put (message : Nat) (endpoint : String) (envelope : Envelope)
  /-- An instance subscribes, and starts receiving. -/
  | start (i : Nat) (endpoint : Endpoint Msg)
  /-- An instance ends, with no delivery in hand: it finished them, or dropped them where they
      stopped. -/
  | stop (i : Nat)

/-- A delivery, and the instance that received it. -/
structure Assigned (Msg : Type) where
  instanceNumber : Nat
  received : Received Msg

/-- Any number of instances of the endpoint `name`, that come and go. A message goes to any of
    them when the shared filter takes its subject. -/
def rollingDeploy (Msg : Type) (subjectPrefix name : String) :
    System Nat (Op Msg) (Ret Msg) (Assigned Msg) (Fleet Msg) (FleetAction Msg) where
  body job := (deliveries Msg).body job.received
  launch i job fleet fleet' :=
    fleet.instances job.instanceNumber = some job.received.endpoint ∧
    filterMatches fleet.filterSubjects
      (subject subjectPrefix job.received.delivery.envelope.messageType) = true ∧
    ∃ broker, (deliveries Msg).launch i job.received fleet.broker broker ∧
      fleet' = { fleet with
        broker, inHand := Function.update fleet.inHand i (some job.instanceNumber) }
  exec i job op reply fleet fleet' :=
    ∃ broker, (deliveries Msg).exec i job.received op reply fleet.broker broker ∧
      fleet' = { fleet with broker }
  leave i _ fleet fleet' := fleet' = { fleet with inHand := Function.update fleet.inHand i none }
  env action fleet fleet' :=
    match action with
    | .put message endpoint envelope =>
      ∃ broker, (deliveries Msg).env (message, endpoint, envelope) fleet.broker broker ∧
        fleet' = { fleet with broker }
    | .start i endpoint =>
      endpoint.name = name ∧ fleet.instances i = none ∧ fleet' = { fleet with
        filterSubjects := widen (ownSubjects subjectPrefix endpoint.spec) fleet.filterSubjects
        instances := Function.update fleet.instances i (some endpoint) }
    | .stop i => (∀ k, fleet.inHand k ≠ some i) ∧
      fleet' = { fleet with instances := Function.update fleet.instances i none }

namespace Fleet

def Empty (fleet : Fleet Msg) : Prop :=
  fleet.broker.Empty ∧ (∀ i, fleet.instances i = none) ∧ ∀ k, fleet.inHand k = none

/-- The running instances agree on the type of every message that is still on the endpoint: each of
    them has a handler for it, or none has. -/
def Alike (fleet : Fleet Msg) (name : String) : Prop :=
  ∀ message envelope, fleet.broker.messages message = some (name, envelope) →
    fleet.broker.left message = false → ∀ i endpoint j peer,
      fleet.instances i = some endpoint → fleet.instances j = some peer →
      endpoint.handles envelope.messageType = peer.handles envelope.messageType

end Fleet

abbrev FleetState (Msg : Type) := System.State Nat (Op Msg) (Ret Msg) (Assigned Msg) (Fleet Msg)

abbrev FleetLabel (Msg : Type) :=
  System.Label Nat (Op Msg) (Ret Msg) (Assigned Msg) (FleetAction Msg)

/-- The operation sends an error copy or rejects. -/
def GivesUp : Op Msg → Prop
  | .publishError _ _ => True
  | .reject => True
  | _ => False

/-- The step doesn't give up on a message that is still on the endpoint, for want of a handler that
    a running instance has. -/
def Spares (s : FleetState Msg) : FleetLabel Msg → Prop
  | .exec k op _ => GivesUp op → ∀ worker, s.procs k = some worker →
    s.shared.broker.left worker.job.received.message = false →
    worker.job.received.endpoint.handles
      worker.job.received.delivery.envelope.messageType = false →
    ∀ i peer, s.shared.instances i = some peer →
      peer.handles worker.job.received.delivery.envelope.messageType = false
  | _ => True

/-- A step that no instance starts or stops at. -/
def Serves (subjectPrefix name : String) (s s' : FleetState Msg) : Prop :=
  ∃ label, System.Step (rollingDeploy Msg subjectPrefix name) s label s' ∧
    s'.shared.instances = s.shared.instances

variable {subjectPrefix name : String}

/-! ## Deliveries to any instance -/

theorem find_unhandled {handlers : Handlers Msg} {envelope : Envelope}
    (h : handlers.lookup envelope.messageType = none) (endpoint : String) :
    ∃ error, find handlers endpoint envelope = .error (.undecodable error) := by
  unfold find
  rw [h]
  exact ⟨_, rfl⟩

theorem Pipeline.run_unhandled {pipeline : Pipeline Msg} {context : HandlerContext Unit}
    (h : pipeline.handlers.lookup context.envelope.messageType = none) :
    ∃ error, pipeline.run context = .ret (.error (.undecodable error)) := by
  cases pipeline with
  | plain endpoint handlers | transactional endpoint handlers outbox =>
    obtain ⟨error, hfind⟩ : ∃ error, find handlers endpoint context.envelope = _ :=
      find_unhandled h endpoint
    unfold run
    dsimp only
    rw [hfind]
    exact ⟨error, rfl⟩

/-- An instance without a handler for the message gives up on it at once. -/
theorem Endpoint.process_unhandled {endpoint : Endpoint Msg} (source : Source) (delivery : Delivery)
    (h : endpoint.handles delivery.envelope.messageType = false) :
    ∃ copy next, endpoint.process source delivery =
        .call (.publishError endpoint.name copy) next ∧
      next (.ok ()) = .call .reject fun _ => .ret () := by
  have hlookup : endpoint.pipeline.handlers.lookup
      (endpoint.context source delivery).envelope.messageType = none :=
    Option.not_isSome_iff_eq_none.mp (Bool.eq_false_iff.mp h)
  obtain ⟨error, hrun⟩ := Pipeline.run_unhandled hlookup
  unfold Endpoint.process Endpoint.handleAndSend
  rw [hrun]
  exact ⟨errorEnvelope delivery.envelope endpoint.name error delivery.attempt, _, rfl, rfl⟩

theorem filterMatches_of_mem {filterSubjects : List String} {messageType : MessageType}
    (h : subject subjectPrefix messageType ∈ filterSubjects) :
    filterMatches filterSubjects (subject subjectPrefix messageType) = true := by
  refine List.any_eq_true.mpr ⟨_, h, ?_⟩
  have hne : Nats.tokens messageType.value ≠ [] := List.splitOn_ne_nil _ _
  rw [Nats.subjectMatches, Nats.tokens_subject, Nats.tokensMatch_append _ hne,
    Nats.tokensMatch_literal (Nats.tokens_messageType messageType)]

/-- The filter takes what the instances handle, a delivery in hand is of a message of the endpoint
    and at a running instance, and there were finitely many deliveries. -/
structure Widened (subjectPrefix name : String) (s : FleetState Msg) : Prop where
  named : ∀ i endpoint, s.shared.instances i = some endpoint → endpoint.name = name
  subjects : ∀ i endpoint, s.shared.instances i = some endpoint →
    ∀ subject ∈ ownSubjects subjectPrefix endpoint.spec, subject ∈ s.shared.filterSubjects
  working : ∀ k worker, s.procs k = some worker →
    s.shared.inHand k = some worker.job.instanceNumber ∧
    s.shared.instances worker.job.instanceNumber = some worker.job.received.endpoint ∧
    s.shared.broker.messages worker.job.received.message =
      some (name, worker.job.received.delivery.envelope)
  bounded : ∃ bound, ∀ j, bound ≤ j → s.procs j = none ∧ s.shared.broker.history j = none

theorem Widened.env {s : FleetState Msg} {action : FleetAction Msg} {fleet : Fleet Msg}
    (h : Widened subjectPrefix name s)
    (ha : (rollingDeploy Msg subjectPrefix name).env action s.shared fleet) :
    Widened subjectPrefix name ⟨s.procs, fleet⟩ := by
  cases action with
  | put message endpoint envelope =>
    obtain ⟨broker, ⟨hnew, rfl⟩, rfl⟩ := ha
    refine ⟨h.named, h.subjects, fun k worker hk => ?_, h.bounded⟩
    obtain ⟨hin, hruns, hm⟩ := h.working k worker hk
    refine ⟨hin, hruns, ?_⟩
    have hne : worker.job.received.message ≠ message := by
      intro heq
      rw [heq] at hm
      exact absurd (hnew.symm.trans hm) (by simp)
    exact (Function.update_of_ne hne ..).trans hm
  | start i endpoint =>
    obtain ⟨hname, hnone, rfl⟩ := ha
    refine ⟨fun k other hk => ?_, fun k other hk subject hsubject => ?_, fun k worker hk => ?_,
      h.bounded⟩
    · rcases System.update_eq_some.mp hk with ⟨_, heq⟩ | ⟨_, hk⟩
      · cases heq
        exact hname
      · exact h.named k other hk
    · rw [mem_widen]
      rcases System.update_eq_some.mp hk with ⟨_, heq⟩ | ⟨_, hk⟩
      · cases heq
        exact Or.inl hsubject
      · exact Or.inr (h.subjects k other hk subject hsubject)
    · obtain ⟨hin, hruns, hm⟩ := h.working k worker hk
      refine ⟨hin, System.update_eq_some.mpr (Or.inr ⟨?_, hruns⟩), hm⟩
      intro heq
      rw [heq, hnone] at hruns
      cases hruns
  | stop i =>
    obtain ⟨hidle, rfl⟩ := ha
    have still : ∀ k other, Function.update s.shared.instances i none k = some other →
        s.shared.instances k = some other := by
      intro k other hk
      rcases System.update_eq_some.mp hk with ⟨_, heq⟩ | ⟨_, hk⟩
      · cases heq
      · exact hk
    refine ⟨fun k other hk => h.named k other (still k other hk),
      fun k other hk => h.subjects k other (still k other hk), fun k worker hk => ?_, h.bounded⟩
    obtain ⟨hin, hruns, hm⟩ := h.working k worker hk
    refine ⟨hin, System.update_eq_some.mpr (Or.inr ⟨?_, hruns⟩), hm⟩
    intro heq
    exact hidle k (heq ▸ hin)

theorem widened {C : FleetState Msg → FleetLabel Msg → Prop} {s : FleetState Msg}
    (h : (rollingDeploy Msg subjectPrefix name).Reach Fleet.Empty C s) :
    Widened subjectPrefix name s := by
  induction h with
  | init h =>
    obtain ⟨hbroker, hnone, _⟩ := h
    refine ⟨fun i endpoint hi => ?_, fun i endpoint hi => ?_, fun _ _ hk => (nomatch hk),
      ⟨0, fun j _ => ⟨rfl, hbroker.2 j⟩⟩⟩
    · rw [hnone i] at hi
      cases hi
    · rw [hnone i] at hi
      cases hi
  | @step s l s' _ hs _ ih =>
    obtain ⟨bound, hbound⟩ := ih.bounded
    cases hs with
    | @launch k job _ hfree hl =>
      obtain ⟨hruns, _, broker, ⟨_, _, hm, rfl⟩, rfl⟩ := hl
      refine ⟨ih.named, ih.subjects, fun j worker hj => ?_, max bound (k + 1), fun j hj => ?_⟩
      · rcases System.update_eq_some.mp hj with ⟨rfl, heq⟩ | ⟨hne, hj⟩
        · cases heq
          refine ⟨Function.update_self .., hruns, ?_⟩
          rw [← ih.named _ _ hruns]
          exact hm
        · obtain ⟨hin, hworks⟩ := ih.working j worker hj
          exact ⟨(Function.update_of_ne hne ..).trans hin, hworks⟩
      · have hne : j ≠ k := by omega
        dsimp only
        rw [Function.update_of_ne hne, Function.update_of_ne hne]
        exact hbound j (by omega)
    | @exec k job op next reply _ hp he =>
      obtain ⟨broker, ⟨taken, ht, rfl⟩, rfl⟩ := he
      refine ⟨ih.named, ih.subjects, fun j worker hj => ?_, max bound (k + 1), fun j hj => ?_⟩
      · dsimp only [Broker.log]
        rw [ht.messages]
        rcases System.update_eq_some.mp hj with ⟨rfl, heq⟩ | ⟨_, hj⟩
        · cases heq
          exact ih.working j ⟨job, .call op next⟩ hp
        · exact ih.working j worker hj
      · have hne : j ≠ k := by omega
        dsimp only [Broker.log]
        rw [Function.update_of_ne hne, Function.update_of_ne hne, ht.history]
        exact hbound j (by omega)
    | @leave k _ _ _ hl =>
      subst hl
      refine ⟨ih.named, ih.subjects, fun j worker hj => ?_, max bound (k + 1), fun j hj => ?_⟩
      · rcases System.update_eq_some.mp hj with ⟨_, heq⟩ | ⟨hne, hj⟩
        · cases heq
        · obtain ⟨hin, hworks⟩ := ih.working j worker hj
          exact ⟨(Function.update_of_ne hne ..).trans hin, hworks⟩
      · have hne : j ≠ k := by omega
        dsimp only
        rw [Function.update_of_ne hne]
        exact hbound j (by omega)
    | env ha => exact ih.env ha

theorem subject_mem_ownSubjects {endpoint : Endpoint Msg} {messageType : MessageType}
    (h : endpoint.handles messageType = true) :
    subject subjectPrefix messageType ∈ ownSubjects subjectPrefix endpoint.spec := by
  obtain ⟨handler, hlookup⟩ := Option.isSome_iff_exists.mp h
  obtain ⟨before, after, heq, _⟩ := List.lookup_eq_some_iff.mp hlookup
  refine List.mem_map_of_mem ?_
  rw [Endpoint.spec, heq]
  simp

/-- Where the running instances agree, a step spares the messages that one of them handles. -/
theorem Widened.spares {s s' : FleetState Msg} {label : FleetLabel Msg}
    (h : Widened subjectPrefix name s)
    (hs : System.Step (rollingDeploy Msg subjectPrefix name) s label s')
    (halike : s.shared.Alike name) : Spares s label := by
  cases hs with
  | @exec k job op next reply _ _ _ =>
    intro _ worker hworker hleft hunhandled i peer hpeer
    obtain ⟨_, hruns, hm⟩ := h.working k worker hworker
    have hagree := halike _ _ hm hleft _ _ i peer hruns hpeer
    rw [← hagree]
    exact hunhandled
  | launch | leave | env => trivial

/-- Steps that no instance starts or stops at stay a run, under a condition that holds while the
    same instances run. -/
theorem Serves.reach {C : FleetState Msg → FleetLabel Msg → Prop} {s t : FleetState Msg}
    (h : (rollingDeploy Msg subjectPrefix name).Reach Fleet.Empty C s)
    (hC : ∀ u label, u.shared.instances = s.shared.instances → C u label)
    (hsteps : Relation.ReflTransGen (Serves subjectPrefix name) s t) :
    (rollingDeploy Msg subjectPrefix name).Reach Fleet.Empty C t ∧
      t.shared.instances = s.shared.instances := by
  induction hsteps with
  | refl => exact ⟨h, rfl⟩
  | tail _ hserves ih =>
    obtain ⟨label, hs, hsame⟩ := hserves
    exact ⟨ih.1.step hs (hC _ label ih.2), hsame.trans ih.2⟩

/-- An instance without a handler may get a message that the filter takes, and rejects it. -/
theorem Widened.rejects {s : FleetState Msg} (h : Widened subjectPrefix name s) {message a : Nat}
    {envelope : Envelope} {endpoint : Endpoint Msg}
    (hm : s.shared.broker.messages message = some (name, envelope))
    (hleft : s.shared.broker.left message = false)
    (ha : s.shared.instances a = some endpoint)
    (hfilter : filterMatches s.shared.filterSubjects
      (subject subjectPrefix envelope.messageType) = true)
    (hunhandled : endpoint.handles envelope.messageType = false) :
    ∃ t t' k worker, Relation.ReflTransGen (Serves subjectPrefix name) s t ∧
      System.Step (rollingDeploy Msg subjectPrefix name) t (.exec k .reject (.ok ())) t' ∧
      t.procs k = some worker ∧
      worker.job.received = ⟨endpoint, envelope.source, message, ⟨envelope, 1⟩⟩ ∧
      t.shared.broker.left message = false ∧ t'.shared.broker.left message = true := by
  obtain ⟨bound, hbound⟩ := h.bounded
  obtain ⟨hproc, hhistory⟩ := hbound bound (Nat.le_refl _)
  let received : Received Msg := ⟨endpoint, envelope.source, message, ⟨envelope, 1⟩⟩
  obtain ⟨copy, next, hprocess, hnext⟩ :=
    endpoint.process_unhandled envelope.source ⟨envelope, 1⟩ hunhandled
  have hput : s.shared.broker.messages message = some (endpoint.name, envelope) := by
    rw [h.named a endpoint ha]
    exact hm
  -- The delivery goes to the instance,
  obtain ⟨t₁, hlaunch, hp₁, hleft₁, hinstances₁⟩ : ∃ t,
      System.Step (rollingDeploy Msg subjectPrefix name) s (.launch bound ⟨a, received⟩) t ∧
      t.procs bound = some ⟨⟨a, received⟩, .call (.publishError endpoint.name copy) next⟩ ∧
      t.shared.broker.left message = false ∧ t.shared.instances = s.shared.instances := by
    refine ⟨_, .launch hproc ⟨ha, hfilter, _, ⟨hhistory, hleft, hput, rfl⟩, rfl⟩, ?_, hleft, rfl⟩
    rw [← hprocess]
    exact Function.update_self ..
  -- which sends the error copy,
  obtain ⟨t₂, hcopy, hp₂, hleft₂, hinstances₂⟩ : ∃ t,
      System.Step (rollingDeploy Msg subjectPrefix name) t₁
        (.exec bound (.publishError endpoint.name copy) (.ok ())) t ∧
      t.procs bound = some ⟨⟨a, received⟩, .call .reject fun _ => .ret ()⟩ ∧
      t.shared.broker.left message = false ∧ t.shared.instances = t₁.shared.instances := by
    refine ⟨_, .exec hp₁ ⟨_, ⟨_, Or.inl rfl, rfl⟩, rfl⟩, ?_, hleft₁, rfl⟩
    rw [← hnext]
    exact Function.update_self ..
  -- and rejects the message.
  exact ⟨t₂, _, bound, _, .tail (.single ⟨_, hlaunch, hinstances₁⟩) ⟨_, hcopy, hinstances₂⟩,
    .exec hp₂ ⟨_, ⟨_, Or.inl rfl, rfl⟩, rfl⟩, hp₂, rfl, hleft₂, Function.update_self ..⟩

/-- A message that one running instance handles and another one doesn't may go to the other one,
    which rejects it. -/
theorem exists_rejected {s : FleetState Msg}
    (h : (rollingDeploy Msg subjectPrefix name).Reach Fleet.Empty (fun _ _ => True) s)
    {message a b : Nat} {envelope : Envelope} {endpoint peer : Endpoint Msg}
    (hm : s.shared.broker.messages message = some (name, envelope))
    (hleft : s.shared.broker.left message = false)
    (ha : s.shared.instances a = some endpoint)
    (hunhandled : endpoint.handles envelope.messageType = false)
    (hb : s.shared.instances b = some peer)
    (hhandled : peer.handles envelope.messageType = true) :
    ∃ t t' k worker, Relation.ReflTransGen (Serves subjectPrefix name) s t ∧
      System.Step (rollingDeploy Msg subjectPrefix name) t (.exec k .reject (.ok ())) t' ∧
      t.procs k = some worker ∧ worker.job.received.message = message ∧
      t'.shared.broker.left message = true ∧ ¬Spares t (.exec k .reject (.ok ())) := by
  have hw := widened h
  have hfilter := filterMatches_of_mem (hw.subjects b peer hb _ (subject_mem_ownSubjects hhandled))
  obtain ⟨t, t', k, worker, hsteps, hs, hworker, hreceived, hon, hgone⟩ :=
    hw.rejects hm hleft ha hfilter hunhandled
  have hmessage : worker.job.received.message = message := by rw [hreceived]
  refine ⟨t, t', k, worker, hsteps, hs, hworker, hmessage, hgone, fun hspares => ?_⟩
  have hsame := (Serves.reach h (fun _ _ _ => trivial) hsteps).2
  have hnone := hspares trivial worker hworker (by rwa [hmessage]) (by rwa [hreceived]) b peer
    (by rwa [hsame])
  rw [hreceived] at hnone
  rw [hhandled] at hnone
  cases hnone

/-- While the running instances agree on the messages of the endpoint, no message is given up for
    want of a handler that a running instance has. A message they don't agree on is rejected for want
    of one in some run from there, whoever keeps running. -/
theorem rollingDeploy_spared (Msg : Type) (subjectPrefix name : String) :
    (∀ s label s', (rollingDeploy Msg subjectPrefix name).Reach Fleet.Empty
        (fun s _ => s.shared.Alike name) s →
      System.Step (rollingDeploy Msg subjectPrefix name) s label s' → s.shared.Alike name →
      Spares s label) ∧
    ∀ s, (rollingDeploy Msg subjectPrefix name).Reach Fleet.Empty (fun _ _ => True) s →
      ∀ message a b envelope endpoint peer,
        s.shared.broker.messages message = some (name, envelope) →
        s.shared.broker.left message = false →
        s.shared.instances a = some endpoint →
        endpoint.handles envelope.messageType = false →
        s.shared.instances b = some peer →
        peer.handles envelope.messageType = true →
        ∃ t t' k worker, Relation.ReflTransGen (Serves subjectPrefix name) s t ∧
          System.Step (rollingDeploy Msg subjectPrefix name) t (.exec k .reject (.ok ())) t' ∧
          t.procs k = some worker ∧ worker.job.received.message = message ∧
          t'.shared.broker.left message = true ∧ ¬Spares t (.exec k .reject (.ok ())) := by
  constructor
  · intro s label s' h hs halike
    exact (widened h).spares hs halike
  · intro s h message a b envelope endpoint peer hm hleft ha hunhandled hb hhandled
    exact exists_rejected h hm hleft ha hunhandled hb hhandled

/-! ## Two instances -/

/-- An instance of `billing` that handles one message type. -/
def billingFor (messageType : MessageType) : Endpoint Unit where
  name := "billing"
  retry := .default
  pipeline := .plain "billing" [(messageType, .typed ⟨fun _ => .returned (.ok ())⟩)]

/-- Instance 0 handles the message, instance 1 is an older one that doesn't. -/
theorem deployed : ∃ s, (rollingDeploy Unit "messages" "billing").Reach Fleet.Empty
      (fun s _ => s.shared.Alike "billing") s ∧
    (∀ message, s.shared.broker.messages message = none) ∧
    (∀ message, s.shared.broker.left message = false) ∧
    (∀ k, s.shared.inHand k = none) ∧
    s.shared.instances = Function.update (Function.update (fun _ => none) 1
      (some (billingFor ⟨"orders.order_placed.v1", by decide⟩))) 0
      (some (billingFor orderShipped.messageType)) ∧
    filterMatches s.shared.filterSubjects
      (subject "messages" orderShipped.messageType) = true := by
  have h0 : (rollingDeploy Unit "messages" "billing").Reach Fleet.Empty
      (fun s _ => s.shared.Alike "billing")
      ⟨fun _ => none, ⟨⟨fun _ => none, fun _ => false, [], fun _ => none⟩, [], fun _ => none,
        fun _ => none⟩⟩ :=
    .init ⟨⟨fun _ => ⟨rfl, rfl⟩, fun _ => rfl⟩, fun _ => rfl, fun _ => rfl⟩
  have h1 := h0.env (.start 1 (billingFor ⟨"orders.order_placed.v1", by decide⟩)) ⟨rfl, rfl, rfl⟩
    fun _ _ hm => nomatch hm
  have h2 := h1.env (.start 0 (billingFor orderShipped.messageType)) ⟨rfl, rfl, rfl⟩
    fun _ _ hm => nomatch hm
  refine ⟨_, h2, fun _ => rfl, fun _ => rfl, fun _ => rfl, rfl,
    filterMatches_of_mem ?_⟩
  exact mem_widen.mpr (Or.inl (subject_mem_ownSubjects (by decide)))

/-- A message is put while both run. -/
theorem exists_put : ∃ s, (rollingDeploy Unit "messages" "billing").Reach Fleet.Empty
      (fun _ _ => True) s ∧
    s.shared.broker.messages 0 = some ("billing", orderShipped) ∧
    s.shared.broker.left 0 = false ∧
    s.shared.instances 0 = some (billingFor orderShipped.messageType) ∧
    s.shared.instances 1 = some (billingFor ⟨"orders.order_placed.v1", by decide⟩) := by
  obtain ⟨s, h, hnone, hleft, _, hinstances, _⟩ := deployed
  refine ⟨_, h.always.env (.put 0 "billing" orderShipped) ⟨_, ⟨hnone 0, rfl⟩, rfl⟩ trivial,
    by simp, hleft 0, ?_, ?_⟩
  · dsimp only
    rw [hinstances, Function.update_self]
  · dsimp only
    rw [hinstances, Function.update_of_ne (by decide), Function.update_self]

/-- Instance 0 ends, and instance 1 gets a message that only instance 0 handled. -/
theorem exists_reject : ∃ s k s', (rollingDeploy Unit "messages" "billing").Reach Fleet.Empty
      (fun s _ => s.shared.Alike "billing") s ∧
    System.Step (rollingDeploy Unit "messages" "billing") s (.exec k .reject (.ok ())) s' ∧
    s.shared.broker.left 0 = false ∧ s'.shared.broker.left 0 = true ∧
    s.shared.Alike "billing" := by
  obtain ⟨s, h, hnone, hleft, hidle, hinstances, hfilter⟩ := deployed
  have hended : ∀ i endpoint, Function.update s.shared.instances 0 none i = some endpoint →
      endpoint = billingFor ⟨"orders.order_placed.v1", by decide⟩ := by
    intro i endpoint hi
    rcases System.update_eq_some.mp hi with ⟨_, heq⟩ | ⟨hne, hi⟩
    · cases heq
    · rw [hinstances, Function.update_of_ne hne] at hi
      rcases System.update_eq_some.mp hi with ⟨_, heq⟩ | ⟨_, hi⟩
      · cases heq
        rfl
      · cases hi
  have hempty : s.shared.Alike "billing" := by
    intro message envelope hm
    rw [hnone] at hm
    cases hm
  -- Only the old instance is left, so the instances agree on every message.
  have halike : ∀ t : FleetState Unit,
      t.shared.instances = Function.update s.shared.instances 0 none →
        t.shared.Alike "billing" := by
    intro t ht message envelope _ _ i endpoint j peer hi hj
    rw [ht] at hi hj
    rw [hended i endpoint hi, hended j peer hj]
  have h1 := h.env (.stop 0) ⟨by simp [hidle], rfl⟩ hempty
  obtain ⟨u, hu, hm, hon, hinstances', hfilter'⟩ : ∃ u,
      (rollingDeploy Unit "messages" "billing").Reach Fleet.Empty
        (fun s _ => s.shared.Alike "billing") u ∧
      u.shared.broker.messages 0 = some ("billing", orderShipped) ∧
      u.shared.broker.left 0 = false ∧
      u.shared.instances = Function.update s.shared.instances 0 none ∧
      u.shared.filterSubjects = s.shared.filterSubjects :=
    ⟨_, h1.env (.put 0 "billing" orderShipped) ⟨_, ⟨hnone 0, rfl⟩, rfl⟩ (halike _ rfl), by simp,
      hleft 0, rfl, rfl⟩
  have hruns : u.shared.instances 1 =
      some (billingFor ⟨"orders.order_placed.v1", by decide⟩) := by
    rw [hinstances', hinstances]
    rfl
  obtain ⟨t, t', k, _, hsteps, hs, _, _, hleft', hgone⟩ :=
    (widened hu).rejects hm hon hruns (hfilter' ▸ hfilter) (by decide)
  obtain ⟨ht, hsame⟩ := Serves.reach hu (fun v _ hv => halike v (hv.trans hinstances')) hsteps
  exact ⟨t, k, t', ht, hs, hleft', hgone, halike t (hsame.trans hinstances')⟩

/-- A message of a type that only the ended instance 0 handled is rejected at instance 1; one that a
    running instance 0 handles is rejected at instance 1 in some run. -/
theorem rollingDeploy_spared_deployed :
    (∃ s k s', System.Step (rollingDeploy Unit "messages" "billing") s
        (.exec k .reject (.ok ())) s' ∧
      s.shared.broker.left 0 = false ∧ s'.shared.broker.left 0 = true ∧
      Spares s (.exec k .reject (.ok ()))) ∧
    ∃ s t t' k worker, Relation.ReflTransGen (Serves "messages" "billing") s t ∧
      System.Step (rollingDeploy Unit "messages" "billing") t (.exec k .reject (.ok ())) t' ∧
      t.procs k = some worker ∧ worker.job.received.message = 0 ∧
      t'.shared.broker.left 0 = true ∧ ¬Spares t (.exec k .reject (.ok ())) := by
  obtain ⟨s, k, s', h, hs, hleft, hgone, halike⟩ := exists_reject
  obtain ⟨u, hu, hm, hon, h0, h1⟩ := exists_put
  exact ⟨⟨s, k, s', hs, hleft, hgone,
      (rollingDeploy_spared Unit "messages" "billing").1 s _ s' h hs halike⟩,
    u, (rollingDeploy_spared Unit "messages" "billing").2 u hu 0 1 0 _ _ _ hm hon h1 (by decide) h0
      (by decide)⟩

/-- A message that instance 0 handles goes to instance 1, which rejects it. -/
theorem not_rollingDeploy_spared :
    ¬∀ s label s', (rollingDeploy Unit "messages" "billing").Reach Fleet.Empty
        (fun _ _ => True) s →
      System.Step (rollingDeploy Unit "messages" "billing") s label s' → Spares s label := by
  intro hall
  obtain ⟨s, h, hm, hleft, h0, h1⟩ := exists_put
  obtain ⟨t, t', k, _, hsteps, hs, _, _, _, hspares⟩ :=
    exists_rejected h hm hleft h1 (by decide) h0 (by decide)
  exact hspares (hall t _ t' (Serves.reach h (fun _ _ _ => trivial) hsteps).1 hs)

end SisaMessaging.Runtime
