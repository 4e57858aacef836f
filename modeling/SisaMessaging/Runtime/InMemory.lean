/-
  The in-memory transport: it neither loses nor duplicates a copy.

  A publish allocates one `Arc` of its envelope and puts a copy of it into the queue of every
  endpoint with its message type. A copy moves from the queue into a subscriber's hands, and from
  there away or back to the queue, at once or after a delay. `copies` are an endpoint's copies
  wherever they are, and `Step.moves` says what a step does to them; `one_copy` is the invariant
  over runs. Pushing and popping are one step each here; `Traffic.run_pending` has their parts.
-/
import Mathlib.Algebra.Order.Group.Multiset
import Mathlib.Tactic.Abel
import SisaMessaging.Runtime.Endpoint
import SisaMessaging.Runtime.Queue

namespace SisaMessaging.Runtime.InMemory

open SisaMessaging.Core

/-! ## The transport -/

/-- `Arc<Envelope>`: which publish allocated it, and the envelope. -/
structure ArcEnvelope where
  number : Nat
  envelope : Envelope

/-- A copy of a message waiting for one of the endpoint's subscribers. -/
structure Pending where
  envelope : ArcEnvelope
  attempt : Nat

/-- An endpoint with its queue. -/
structure Endpoint where
  messageTypes : List MessageType
  pending : List Pending
  rejected : List MessageId

def Endpoint.default : Endpoint := ⟨[], [], []⟩

def Endpoint.push (endpoint : Endpoint) (pending : Pending) : Endpoint :=
  { endpoint with pending := endpoint.pending ++ [pending] }

/-- The state that clones share. An endpoint without a subscription yet is the default one. -/
structure State where
  endpoints : String → Endpoint
  published : List Envelope
  errors : String → List Envelope
  failing : Bool

def unreachableBroker : TransportError := .broker "publishing in memory" "publishes are set to fail"

namespace State

def new : State := ⟨fun _ => .default, [], fun _ => [], false⟩

/-- Changes the endpoint. -/
def update (state : State) (name : String) (f : Endpoint → Endpoint) : State :=
  { state with endpoints := Function.update state.endpoints name (f (state.endpoints name)) }

/-- Every subscribed endpoint gets a copy. -/
def publish (state : State) (envelope : Envelope) : Except TransportError Unit × State :=
  if state.failing then (.error unreachableBroker, state)
  else
    let arc : ArcEnvelope := ⟨state.published.length, envelope⟩
    (.ok (), { state with
      published := state.published ++ [envelope]
      endpoints := fun name =>
        let endpoint := state.endpoints name
        if envelope.messageType ∈ endpoint.messageTypes then endpoint.push ⟨arc, 1⟩
        else endpoint })

def subscribe (state : State) (endpoint : EndpointSpec) : State :=
  state.update endpoint.name fun entry =>
    { entry with messageTypes := entry.messageTypes ++ endpoint.messageTypes }

def publishError (state : State) (endpoint : String) (envelope : Envelope) :
    Except TransportError Unit × State :=
  if state.failing then (.error unreachableBroker, state)
  else (.ok (), { state with
    errors := Function.update state.errors endpoint (state.errors endpoint ++ [envelope]) })

def failPublishes (state : State) (failing : Bool) : State := { state with failing }

end State

/-- A delivery, with the endpoint whose queue it came from. -/
structure Delivery where
  envelope : ArcEnvelope
  attempt : Nat
  queue : String
  settled : Bool

/-- A task that a retry spawned: pushes the copy once its delay passed. -/
structure Task where
  queue : String
  pending : Pending

/-- The transport, the deliveries in subscribers' hands and the tasks of retries. -/
structure World where
  state : State
  hands : Multiset Delivery
  tasks : Multiset Task

namespace Delivery

/-- `attempt + 1` in a `u32`: with overflow checks it panics. -/
def nextAttempt (checks : Bool) (delivery : Delivery) : Option Pending :=
  if delivery.attempt + 1 < 2 ^ 32 then some ⟨delivery.envelope, delivery.attempt + 1⟩
  else if checks then none
  else some ⟨delivery.envelope, 0⟩

/-- `Drop`: puts an unsettled message back. -/
def drop (checks : Bool) (delivery : Delivery) (world : World) : World :=
  if delivery.settled then world
  else
    match delivery.nextAttempt checks with
    | none => world
    | some pending => { world with
        state := world.state.update delivery.queue fun endpoint => endpoint.push pending }

/-- `self.settled = true`. -/
def settle (delivery : Delivery) : Delivery := { delivery with settled := true }

-- Each settles the delivery and drops it.

def ack (checks : Bool) (delivery : Delivery) (world : World) : World :=
  delivery.settle.drop checks world

def retry (checks : Bool) (delivery : Delivery) (world : World) : World :=
  match delivery.settle.nextAttempt checks with
  | none => delivery.settle.drop checks world
  | some pending => delivery.settle.drop checks
      { world with tasks := ⟨delivery.queue, pending⟩ ::ₘ world.tasks }

def reject (checks : Bool) (delivery : Delivery) (world : World) : World :=
  delivery.settle.drop checks { world with
    state := world.state.update delivery.queue fun endpoint =>
      { endpoint with rejected := endpoint.rejected ++ [delivery.envelope.envelope.id] } }

end Delivery

/-! ## Runs -/

/-- A call to the transport, to a delivery or to a subscription, with its result where it can fail;
    `elapsed` is the push of a retry's task. -/
inductive Event where
  | subscribe (endpoint : EndpointSpec)
  | publish (envelope : Envelope) (result : Except TransportError Unit)
  | publishError (endpoint : String) (envelope : Envelope) (result : Except TransportError Unit)
  | failPublishes (failing : Bool)
  | take (delivery : Delivery)
  | ack (delivery : Delivery)
  | retry (delivery : Delivery) (delay : Duration)
  | reject (delivery : Delivery)
  | drop (delivery : Delivery)
  | elapsed (task : Task)

def World.new : World := ⟨.new, 0, 0⟩

/-- A step, in a build with or without overflow checks. -/
inductive Step (checks : Bool) : World → Event → World → Prop where
  | subscribe {state hands tasks} (endpoint : EndpointSpec) :
      Step checks ⟨state, hands, tasks⟩ (.subscribe endpoint) ⟨state.subscribe endpoint, hands, tasks⟩
  | publish {state hands tasks} (envelope : Envelope) :
      Step checks ⟨state, hands, tasks⟩ (.publish envelope (state.publish envelope).1)
        ⟨(state.publish envelope).2, hands, tasks⟩
  | publishError {state hands tasks} (endpoint : String) (envelope : Envelope) :
      Step checks ⟨state, hands, tasks⟩
        (.publishError endpoint envelope (state.publishError endpoint envelope).1)
        ⟨(state.publishError endpoint envelope).2, hands, tasks⟩
  | failPublishes {state hands tasks} (failing : Bool) :
      Step checks ⟨state, hands, tasks⟩ (.failPublishes failing)
        ⟨state.failPublishes failing, hands, tasks⟩
  | take {state hands tasks name envelope attempt rest} :
      (state.endpoints name).pending = ⟨envelope, attempt⟩ :: rest →
        Step checks ⟨state, hands, tasks⟩ (.take ⟨envelope, attempt, name, false⟩)
          ⟨state.update name fun endpoint => { endpoint with pending := rest },
            ⟨envelope, attempt, name, false⟩ ::ₘ hands, tasks⟩
  | ack {state hands tasks delivery} :
      Step checks ⟨state, delivery ::ₘ hands, tasks⟩ (.ack delivery)
        (delivery.ack checks ⟨state, hands, tasks⟩)
  | retry {state hands tasks delivery} (delay : Duration) :
      Step checks ⟨state, delivery ::ₘ hands, tasks⟩ (.retry delivery delay)
        (delivery.retry checks ⟨state, hands, tasks⟩)
  | reject {state hands tasks delivery} :
      Step checks ⟨state, delivery ::ₘ hands, tasks⟩ (.reject delivery)
        (delivery.reject checks ⟨state, hands, tasks⟩)
  | drop {state hands tasks delivery} :
      Step checks ⟨state, delivery ::ₘ hands, tasks⟩ (.drop delivery)
        (delivery.drop checks ⟨state, hands, tasks⟩)
  | elapsed {state hands tasks task} :
      Step checks ⟨state, hands, task ::ₘ tasks⟩ (.elapsed task)
        ⟨state.update task.queue fun endpoint => endpoint.push task.pending, hands, tasks⟩

/-- The world after the events, from a new transport. -/
inductive Run (checks : Bool) : List Event → World → Prop where
  | new : Run checks [] .new
  | step {events event world world'} : Run checks events world → Step checks world event world' →
      Run checks (events ++ [event]) world'

/-! ## What the events say -/

/-- The envelope of a publish that returned `Ok`. -/
def Event.accepted : Event → Option Envelope
  | publish envelope (.ok ()) => some envelope
  | _ => none

/-- The types that a subscription names. -/
def Event.subscribed (name : String) : Event → List MessageType
  | subscribe endpoint => if endpoint.name = name then endpoint.messageTypes else []
  | _ => []

/-- The publish of the envelope returned `Ok` while the endpoint existed with its type. -/
def Sent (events : List Event) (name : String) (envelope : ArcEnvelope) : Prop :=
  ∃ before after, events = before ++ .publish envelope.envelope (.ok ()) :: after ∧
    envelope.number = (before.filterMap Event.accepted).length ∧
    envelope.envelope.messageType ∈ before.flatMap (·.subscribed name)

/-- The copy of a delivery from the endpoint's queue. -/
def Delivery.at (name : String) (delivery : Delivery) : Option Pending :=
  if delivery.queue = name then some ⟨delivery.envelope, delivery.attempt⟩ else none

def Task.at (name : String) (task : Task) : Option Pending :=
  if task.queue = name then some task.pending else none

/-- The copy that the event hands out. -/
def Event.taken (name : String) : Event → Option Pending
  | take delivery => delivery.at name
  | _ => none

/-- The copy that the event acks. -/
def Event.acked (name : String) : Event → Option Pending
  | ack delivery => delivery.at name
  | _ => none

/-- The copy that the event rejects. -/
def Event.rejected (name : String) : Event → Option Pending
  | reject delivery => delivery.at name
  | _ => none

/-- The copy that the event retries or drops. -/
def Event.requeued (name : String) : Event → Option Pending
  | retry delivery _ => delivery.at name
  | drop delivery => delivery.at name
  | _ => none

/-- The endpoint's copies, wherever they are: in the queue, in a subscriber's hands, waiting out a
    retry's delay, acked or rejected. -/
def copies (events : List Event) (world : World) (name : String) : Multiset Pending :=
  (world.state.endpoints name).pending + world.hands.filterMap (·.at name) +
    world.tasks.filterMap (·.at name) + events.filterMap (·.acked name) +
    events.filterMap (·.rejected name)

/-- How many of the events name a copy of the publish. -/
def count (f : Event → Option Pending) (events : List Event) (number : Nat) : Nat :=
  (events.filterMap f).countP fun pending => pending.envelope.number = number

/-- How often a copy was handed out. -/
def deliveries (events : List Event) (name : String) (number : Nat) : Nat :=
  count (·.taken name) events number

/-- How often a copy was retried or dropped. -/
def requeues (events : List Event) (name : String) (number : Nat) : Nat :=
  count (·.requeued name) events number

/-! ## What a step moves -/

/-- The copy that the event puts into the endpoint's queue or a task. -/
def Event.added (checks : Bool) (state : State) (name : String) : Event → Option Pending
  | publish envelope (.ok ()) =>
    if envelope.messageType ∈ (state.endpoints name).messageTypes then
      some ⟨⟨state.published.length, envelope⟩, 1⟩
    else none
  | retry delivery _ => if delivery.queue = name then delivery.nextAttempt checks else none
  | drop delivery => if delivery.queue = name then delivery.nextAttempt checks else none
  | _ => none

theorem State.update_self (state : State) (name : String) (f : Endpoint → Endpoint) :
    (state.update name f).endpoints name = f (state.endpoints name) :=
  Function.update_self ..

theorem State.update_of_ne {state : State} {name other : String} (h : other ≠ name)
    (f : Endpoint → Endpoint) : (state.update name f).endpoints other = state.endpoints other :=
  Function.update_of_ne h ..

section Copies

variable {events : List Event} {state state' : State} {hands : Multiset Delivery}
  {tasks : Multiset Task} {name : String}

theorem copies_snoc (event : Event) (world : World) : copies (events ++ [event]) world name =
    copies events world name + ((event.acked name).toList + (event.rejected name).toList) := by
  have hsnoc (f : Event → Option Pending) : (↑((events ++ [event]).filterMap f) : Multiset Pending) =
      events.filterMap f + ((f event).toList : Multiset Pending) := by
    rw [List.filterMap_append, ← Multiset.coe_add, List.filterMap_cons, List.filterMap_nil]
    cases f event <;> rfl
  rw [copies, copies, hsnoc, hsnoc]
  abel

theorem copies_hands (delivery : Delivery) : copies events ⟨state, delivery ::ₘ hands, tasks⟩ name =
    copies events ⟨state, hands, tasks⟩ name + (delivery.at name).toList := by
  have hcons : (delivery ::ₘ hands).filterMap (·.at name) =
      ((delivery.at name).toList : Multiset Pending) + hands.filterMap (·.at name) := by
    rw [Multiset.filterMap_cons]
    cases delivery.at name <;> rfl
  rw [copies, copies]
  dsimp only
  rw [hcons]
  abel

theorem copies_tasks (task : Task) : copies events ⟨state, hands, task ::ₘ tasks⟩ name =
    copies events ⟨state, hands, tasks⟩ name + (task.at name).toList := by
  have hcons : (task ::ₘ tasks).filterMap (·.at name) =
      ((task.at name).toList : Multiset Pending) + tasks.filterMap (·.at name) := by
    rw [Multiset.filterMap_cons]
    cases task.at name <;> rfl
  rw [copies, copies]
  dsimp only
  rw [hcons]
  abel

/-- Only the queue of the endpoint itself counts. -/
theorem copies_state (h : (state'.endpoints name).pending = (state.endpoints name).pending) :
    copies events ⟨state', hands, tasks⟩ name = copies events ⟨state, hands, tasks⟩ name := by
  rw [copies, copies, h]

theorem copies_push (task : Task) :
    copies events ⟨state.update task.queue fun endpoint => endpoint.push task.pending, hands, tasks⟩
      name = copies events ⟨state, hands, tasks⟩ name + (task.at name).toList := by
  by_cases hq : name = task.queue
  · rw [copies, copies]
    dsimp only
    rw [hq, State.update_self, Endpoint.push, ← Multiset.coe_add, Task.at, if_pos rfl]
    simp only [Option.toList_some]
    abel
  · rw [copies_state (congrArg Endpoint.pending (State.update_of_ne hq _)), Task.at,
      if_neg (Ne.symm hq)]
    exact (add_zero _).symm

/-- The first copy of a queue leaves it. -/
theorem copies_take {queue : String} {pending : Pending} {rest : List Pending}
    (h : (state.endpoints queue).pending = pending :: rest) :
    copies events ⟨state, hands, tasks⟩ name =
      copies events ⟨state.update queue fun endpoint => { endpoint with pending := rest },
        hands, tasks⟩ name + (Task.at name ⟨queue, pending⟩).toList := by
  by_cases hq : name = queue
  · rw [copies, copies]
    dsimp only
    rw [hq, State.update_self, h, Task.at, if_pos rfl, Option.toList_some, ← Multiset.cons_coe,
      ← Multiset.singleton_add]
    dsimp only
    rw [← Multiset.coe_singleton]
    abel
  · rw [copies_state (congrArg Endpoint.pending (State.update_of_ne hq _)), Task.at,
      if_neg (Ne.symm hq)]
    exact (add_zero _).symm

/-- An event that acks and rejects nothing. -/
theorem copies_snoc_of_none {event : Event} (hacked : event.acked name = none)
    (hrejected : event.rejected name = none) (world : World) :
    copies (events ++ [event]) world name = copies events world name := by
  rw [copies_snoc, hacked, hrejected]
  exact add_zero _

end Copies

theorem Delivery.drop_settle (checks : Bool) (delivery : Delivery) (world : World) :
    delivery.settle.drop checks world = world := if_pos rfl

/-- A step takes the retried or dropped copy away, puts the copy it adds, and moves the others. -/
theorem Step.moves {checks : Bool} {world world' : World} {event : Event}
    (h : Step checks world event world') (hopen : ∀ delivery ∈ world.hands, delivery.settled = false)
    (events : List Event) (name : String) : ∃ rest,
      copies events world name = (event.requeued name).toList + rest ∧
        copies (events ++ [event]) world' name =
          (event.added checks world.state name).toList + rest := by
  cases h with
  | @subscribe state hands tasks endpoint =>
    refine ⟨copies events ⟨state, hands, tasks⟩ name, (zero_add _).symm, ?_⟩
    have hsame : ((state.subscribe endpoint).endpoints name).pending =
        (state.endpoints name).pending := by
      by_cases hq : name = endpoint.name
      · rw [State.subscribe, hq, State.update_self]
      · rw [State.subscribe, State.update_of_ne hq]
    rw [copies_snoc_of_none rfl rfl, copies_state hsame]
    exact (zero_add _).symm
  | @publish state hands tasks envelope =>
    refine ⟨copies events ⟨state, hands, tasks⟩ name, (zero_add _).symm, ?_⟩
    rw [copies_snoc_of_none rfl rfl, State.publish]
    split
    · exact (zero_add _).symm
    · rw [Event.added, copies, copies]
      dsimp only
      split
      · rw [Endpoint.push, ← Multiset.coe_add, Option.toList_some]
        abel
      · exact (zero_add _).symm
  | @publishError state hands tasks endpoint envelope =>
    refine ⟨copies events ⟨state, hands, tasks⟩ name, (zero_add _).symm, ?_⟩
    rw [copies_snoc_of_none rfl rfl, copies_state]
    · exact (zero_add _).symm
    · rw [State.publishError]
      split <;> rfl
  | @failPublishes state hands tasks failing =>
    refine ⟨copies events ⟨state, hands, tasks⟩ name, (zero_add _).symm, ?_⟩
    rw [copies_snoc_of_none rfl rfl]
    exact (zero_add _).symm
  | @take state hands tasks queue envelope attempt rest hpending =>
    refine ⟨copies events ⟨state, hands, tasks⟩ name, (zero_add _).symm, ?_⟩
    rw [copies_snoc_of_none rfl rfl, copies_hands, copies_take hpending]
    exact (zero_add _).symm
  | @ack state hands tasks delivery =>
    refine ⟨copies events ⟨state, delivery ::ₘ hands, tasks⟩ name, (zero_add _).symm, ?_⟩
    rw [Delivery.ack, Delivery.drop_settle, copies_snoc, copies_hands]
    exact (congrArg _ (add_zero _)).trans (zero_add _).symm
  | @retry state hands tasks delivery delay =>
    refine ⟨copies events ⟨state, hands, tasks⟩ name, ?_, ?_⟩
    · rw [copies_hands]
      exact add_comm _ _
    · rw [copies_snoc_of_none rfl rfl, Event.added, Delivery.retry]
      have hnext : delivery.settle.nextAttempt checks = delivery.nextAttempt checks := rfl
      rw [hnext]
      cases delivery.nextAttempt checks with
      | none =>
        rw [ite_self]
        exact (zero_add _).symm
      | some pending =>
        dsimp only
        rw [Delivery.drop_settle, copies_tasks]
        exact add_comm _ _
  | @reject state hands tasks delivery =>
    refine ⟨copies events ⟨state, delivery ::ₘ hands, tasks⟩ name, (zero_add _).symm, ?_⟩
    have hsame : ((state.update delivery.queue fun endpoint =>
        { endpoint with rejected := endpoint.rejected ++ [delivery.envelope.envelope.id] }).endpoints
          name).pending = (state.endpoints name).pending := by
      by_cases hq : name = delivery.queue
      · rw [hq, State.update_self]
      · rw [State.update_of_ne hq]
    rw [Delivery.reject, Delivery.drop_settle, copies_snoc, copies_hands, copies_state hsame]
    exact (congrArg _ (zero_add _)).trans (zero_add _).symm
  | @drop state hands tasks delivery =>
    refine ⟨copies events ⟨state, hands, tasks⟩ name, ?_, ?_⟩
    · rw [copies_hands]
      exact add_comm _ _
    · have hunsettled : ¬ delivery.settled = true := by
        simp [hopen delivery (Multiset.mem_cons_self _ _)]
      rw [copies_snoc_of_none rfl rfl, Event.added, Delivery.drop, if_neg hunsettled]
      cases delivery.nextAttempt checks with
      | none =>
        rw [ite_self]
        exact (zero_add _).symm
      | some pending =>
        exact (copies_push ⟨delivery.queue, pending⟩).trans (add_comm _ _)
  | @elapsed state hands tasks task =>
    refine ⟨copies events ⟨state, hands, task ::ₘ tasks⟩ name, (zero_add _).symm, ?_⟩
    rw [copies_snoc_of_none rfl rfl, copies_push, copies_tasks]
    exact (zero_add _).symm

/-- What a step does to the rest of the transport, as its event says. -/
structure Follows (event : Event) (state state' : State) : Prop where
  published : state'.published = state.published ++ event.accepted.toList
  messageTypes : ∀ name, (state'.endpoints name).messageTypes =
    (state.endpoints name).messageTypes ++ event.subscribed name
  rejected : ∀ name, (state'.endpoints name).rejected = (state.endpoints name).rejected ++
    ((event.rejected name).map fun pending => pending.envelope.envelope.id).toList

/-- The event says nothing about them. -/
def Event.Silent (event : Event) : Prop :=
  event.accepted = none ∧ ∀ name, event.subscribed name = [] ∧ event.rejected name = none

theorem follows_same {event : Event} (h : event.Silent) {state state' : State}
    (hpublished : state'.published = state.published) (hendpoints : state'.endpoints = state.endpoints) :
    Follows event state state' := by
  obtain ⟨haccepted, hname⟩ := h
  refine ⟨?_, fun name => ?_, fun name => ?_⟩
  · rw [hpublished, haccepted, Option.toList_none, List.append_nil]
  · rw [hendpoints, (hname name).1, List.append_nil]
  · rw [hendpoints, (hname name).2, Option.map_none, Option.toList_none, List.append_nil]

/-- A step that changes one endpoint. -/
theorem follows_update {event : Event} (haccepted : event.accepted = none) (state : State)
    {queue : String} {f : Endpoint → Endpoint}
    (hself : (f (state.endpoints queue)).messageTypes =
        (state.endpoints queue).messageTypes ++ event.subscribed queue ∧
      (f (state.endpoints queue)).rejected = (state.endpoints queue).rejected ++
        ((event.rejected queue).map fun pending => pending.envelope.envelope.id).toList)
    (hother : ∀ name, name ≠ queue → event.subscribed name = [] ∧ event.rejected name = none) :
    Follows event state (state.update queue f) := by
  refine ⟨?_, fun name => ?_, fun name => ?_⟩
  · rw [haccepted, Option.toList_none, List.append_nil]
    rfl
  · by_cases hq : name = queue
    · rw [hq, State.update_self, hself.1]
    · rw [State.update_of_ne hq, (hother name hq).1, List.append_nil]
  · by_cases hq : name = queue
    · rw [hq, State.update_self, hself.2]
    · rw [State.update_of_ne hq, (hother name hq).2, Option.map_none, Option.toList_none,
        List.append_nil]

/-- A step that changes one endpoint's queue. -/
theorem follows_queue {event : Event} (h : event.Silent) (state : State) {queue : String}
    {f : List Pending → List Pending} : Follows event state
      (state.update queue fun endpoint => { endpoint with pending := f endpoint.pending }) := by
  obtain ⟨haccepted, hname⟩ := h
  refine follows_update haccepted state ⟨?_, ?_⟩ fun name _ => hname name
  · rw [(hname queue).1, List.append_nil]
  · rw [(hname queue).2, Option.map_none, Option.toList_none, List.append_nil]

theorem Step.follows {checks : Bool} {world world' : World} {event : Event}
    (h : Step checks world event world') : Follows event world.state world'.state := by
  cases h with
  | @subscribe state hands tasks endpoint =>
    have hother (name : String) (hq : name ≠ endpoint.name) :
        (Event.subscribe endpoint).subscribed name = [] ∧
          (Event.subscribe endpoint).rejected name = none :=
      ⟨if_neg (Ne.symm hq), rfl⟩
    rw [State.subscribe]
    dsimp only
    refine follows_update rfl state ⟨?_, ?_⟩ hother
    · rw [Event.subscribed, if_pos rfl]
    · exact (List.append_nil _).symm
  | @publish state hands tasks envelope =>
    rw [State.publish]
    split
    · have hsilent : (Event.publish envelope (.error unreachableBroker)).Silent :=
        ⟨rfl, fun _ => ⟨rfl, rfl⟩⟩
      exact follows_same hsilent rfl rfl
    · refine ⟨rfl, fun name => ?_, fun name => ?_⟩
      · by_cases hm : envelope.messageType ∈ (state.endpoints name).messageTypes
        · simp [hm, Event.subscribed, Endpoint.push]
        · simp [hm, Event.subscribed]
      · by_cases hm : envelope.messageType ∈ (state.endpoints name).messageTypes
        · simp [hm, Event.rejected, Endpoint.push]
        · simp [hm, Event.rejected]
  | @publishError state hands tasks endpoint envelope =>
    have hsilent (result) : (Event.publishError endpoint envelope result).Silent :=
      ⟨rfl, fun _ => ⟨rfl, rfl⟩⟩
    rw [State.publishError]
    split
    · exact follows_same (hsilent _) rfl rfl
    · exact follows_same (hsilent _) rfl rfl
  | @failPublishes state hands tasks failing =>
    have hsilent : (Event.failPublishes failing).Silent := ⟨rfl, fun _ => ⟨rfl, rfl⟩⟩
    exact follows_same hsilent rfl rfl
  | @take state hands tasks queue envelope attempt rest hpending =>
    have hsilent : (Event.take ⟨envelope, attempt, queue, false⟩).Silent :=
      ⟨rfl, fun _ => ⟨rfl, rfl⟩⟩
    exact follows_queue hsilent state (f := fun _ => rest)
  | @ack state hands tasks delivery =>
    have hsilent : (Event.ack delivery).Silent := ⟨rfl, fun _ => ⟨rfl, rfl⟩⟩
    exact follows_same hsilent rfl rfl
  | @retry state hands tasks delivery delay =>
    have hsilent : (Event.retry delivery delay).Silent := ⟨rfl, fun _ => ⟨rfl, rfl⟩⟩
    rw [Delivery.retry]
    split
    · exact follows_same hsilent rfl rfl
    · exact follows_same hsilent rfl rfl
  | @reject state hands tasks delivery =>
    have hother (name : String) (hq : name ≠ delivery.queue) :
        (Event.reject delivery).subscribed name = [] ∧
          (Event.reject delivery).rejected name = none :=
      ⟨rfl, if_neg (Ne.symm hq)⟩
    rw [Delivery.reject, Delivery.drop_settle]
    dsimp only
    refine follows_update rfl state ⟨?_, ?_⟩ hother
    · exact (List.append_nil _).symm
    · rw [Event.rejected, Delivery.at, if_pos rfl]
      rfl
  | @drop state hands tasks delivery =>
    have hsilent : (Event.drop delivery).Silent := ⟨rfl, fun _ => ⟨rfl, rfl⟩⟩
    rw [Delivery.drop]
    split
    · exact follows_same hsilent rfl rfl
    · split
      · exact follows_same hsilent rfl rfl
      · rename_i pending _
        exact follows_queue hsilent state (f := fun queue => queue ++ [pending])
  | @elapsed state hands tasks task =>
    have hsilent : (Event.elapsed task).Silent := ⟨rfl, fun _ => ⟨rfl, rfl⟩⟩
    exact follows_queue hsilent state (f := fun queue => queue ++ [task.pending])

theorem Step.unsettled {checks : Bool} {world world' : World} {event : Event}
    (h : Step checks world event world')
    (hopen : ∀ delivery ∈ world.hands, delivery.settled = false) :
    ∀ delivery ∈ world'.hands, delivery.settled = false := by
  cases h with
  | subscribe | publish | publishError | failPublishes | elapsed => exact hopen
  | take hpending => exact Multiset.forall_mem_cons.mpr ⟨rfl, hopen⟩
  | ack | reject => exact (Multiset.forall_mem_cons.mp hopen).2
  | retry delay =>
    rw [Delivery.retry]
    split <;> exact (Multiset.forall_mem_cons.mp hopen).2
  | drop =>
    rw [Delivery.drop]
    split
    · exact (Multiset.forall_mem_cons.mp hopen).2
    · split <;> exact (Multiset.forall_mem_cons.mp hopen).2

/-! ## Over a run -/

section Runs

variable {checks : Bool} {events : List Event} {world : World}

theorem Run.follows (h : Run checks events world) :
    world.state.published = events.filterMap Event.accepted ∧ ∀ name,
      (world.state.endpoints name).messageTypes = events.flatMap (·.subscribed name) ∧
        (world.state.endpoints name).rejected =
          (events.filterMap (·.rejected name)).map fun pending => pending.envelope.envelope.id := by
  induction h with
  | new => exact ⟨rfl, fun _ => ⟨rfl, rfl⟩⟩
  | @step events event world world' _ hs ih =>
    have hsnoc {α : Type} (f : Event → Option α) :
        (events ++ [event]).filterMap f = events.filterMap f ++ (f event).toList := by
      rw [List.filterMap_append, List.filterMap_cons, List.filterMap_nil]
      cases f event <;> rfl
    obtain ⟨hpublished, hname⟩ := ih
    refine ⟨?_, fun name => ⟨?_, ?_⟩⟩
    · rw [hs.follows.published, hpublished, hsnoc]
    · rw [hs.follows.messageTypes, (hname name).1, List.flatMap_append, List.flatMap_singleton]
    · rw [hs.follows.rejected, (hname name).2, hsnoc, List.map_append, Option.toList_map]

theorem Run.unsettled (h : Run checks events world) :
    ∀ delivery ∈ world.hands, delivery.settled = false := by
  induction h with
  | new => exact fun delivery hd => absurd hd (Multiset.notMem_zero delivery)
  | step _ hs ih => exact hs.unsettled ih

theorem sent_snoc {event : Event} {name : String} {envelope : ArcEnvelope} :
    Sent (events ++ [event]) name envelope ↔ Sent events name envelope ∨
      (event = .publish envelope.envelope (.ok ()) ∧
        envelope.number = (events.filterMap Event.accepted).length ∧
        envelope.envelope.messageType ∈ events.flatMap (·.subscribed name)) := by
  constructor
  · rintro ⟨before, after, heq, hnumber, hsubscribed⟩
    rcases after.eq_nil_or_concat with rfl | ⟨after, last, rfl⟩
    · obtain ⟨rfl, hlast⟩ := List.append_inj' heq rfl
      exact .inr ⟨List.singleton_inj.mp hlast, hnumber, hsubscribed⟩
    · refine .inl ⟨before, after, ?_, hnumber, hsubscribed⟩
      rw [List.concat_eq_append, ← List.cons_append, ← List.append_assoc] at heq
      exact (List.append_inj' heq rfl).1
  · rintro (⟨before, after, rfl, hsent⟩ | ⟨rfl, hnumber, hsubscribed⟩)
    · exact ⟨before, after ++ [event], by simp, hsent⟩
    · exact ⟨events, [], rfl, hnumber, hsubscribed⟩

theorem Sent.number_lt {name : String} {envelope : ArcEnvelope} (h : Sent events name envelope) :
    envelope.number < (events.filterMap Event.accepted).length := by
  obtain ⟨before, after, rfl, hnumber, -⟩ := h
  have hcons : (Event.publish envelope.envelope (.ok ()) :: after).filterMap Event.accepted =
      envelope.envelope :: after.filterMap Event.accepted := List.filterMap_cons_some rfl
  rw [hnumber, List.filterMap_append, hcons, List.length_append, List.length_cons]
  omega

/-- A copy that an event adds is a new one, or the next attempt of the one it requeues. -/
theorem added_cases (checks : Bool) (state : State) (event : Event) (name : String) :
    (event.requeued name = none ∧ event.added checks state name = none) ∨
      (∃ envelope, event = .publish envelope (.ok ()) ∧
        envelope.messageType ∈ (state.endpoints name).messageTypes ∧
        event.added checks state name = some ⟨⟨state.published.length, envelope⟩, 1⟩) ∨
      ∃ delivery : Delivery, event.requeued name = some ⟨delivery.envelope, delivery.attempt⟩ ∧
        event.added checks state name = delivery.nextAttempt checks := by
  cases event with
  | publish envelope result =>
    cases result with
    | error => exact .inl ⟨rfl, rfl⟩
    | ok =>
      by_cases hm : envelope.messageType ∈ (state.endpoints name).messageTypes
      · exact .inr (.inl ⟨envelope, rfl, hm, if_pos hm⟩)
      · exact .inl ⟨rfl, if_neg hm⟩
  | retry delivery delay =>
    by_cases hq : delivery.queue = name
    · exact .inr (.inr ⟨delivery, if_pos hq, if_pos hq⟩)
    · exact .inl ⟨if_neg hq, if_neg hq⟩
  | drop delivery =>
    by_cases hq : delivery.queue = name
    · exact .inr (.inr ⟨delivery, if_pos hq, if_pos hq⟩)
    · exact .inl ⟨if_neg hq, if_neg hq⟩
  | subscribe | publishError | failPublishes | take | ack | reject | elapsed => exact .inl ⟨rfl, rfl⟩

theorem nextAttempt_envelope {delivery : Delivery} {pending : Pending}
    (h : delivery.nextAttempt checks = some pending) : pending.envelope = delivery.envelope := by
  rw [Delivery.nextAttempt] at h
  split at h
  · cases h
    rfl
  · split at h <;> cases h
    rfl

/-- An endpoint holds only copies of messages that were sent to it, and only those are retried or
    dropped. -/
theorem Run.sent (h : Run checks events world) (name : String) :
    (∀ pending ∈ copies events world name, Sent events name pending.envelope) ∧
      ∀ pending ∈ events.filterMap (·.requeued name), Sent events name pending.envelope := by
  induction h with
  | new => exact ⟨fun _ hp => absurd hp (Multiset.notMem_zero _), fun _ hp => nomatch hp⟩
  | @step events event world world' hrun hs ih =>
    obtain ⟨hcopies, hrequeued⟩ := ih
    obtain ⟨rest, hbefore, hafter⟩ := hs.moves hrun.unsettled events name
    rw [hbefore] at hcopies
    have hgone {pending : Pending} (hp : event.requeued name = some pending) :
        Sent (events ++ [event]) name pending.envelope :=
      sent_snoc.mpr (.inl (hcopies pending (Multiset.mem_add.mpr (.inl (by simp [hp])))))
    constructor
    · intro pending hp
      rw [hafter, Multiset.mem_add, Multiset.mem_coe, Option.mem_toList] at hp
      rcases hp with hp | hp
      · rcases added_cases checks world.state event name with
          ⟨-, hadded⟩ | ⟨envelope, rfl, hm, hadded⟩ | ⟨delivery, hgone', hadded⟩
        · rw [hadded] at hp
          cases hp
        · rw [hadded] at hp
          cases hp
          obtain ⟨hpublished, hname⟩ := hrun.follows
          refine sent_snoc.mpr (.inr ⟨rfl, congrArg List.length hpublished, ?_⟩)
          rw [← (hname name).1]
          exact hm
        · rw [hadded] at hp
          rw [nextAttempt_envelope hp]
          exact hgone hgone'
      · exact sent_snoc.mpr (.inl (hcopies pending (Multiset.mem_add.mpr (.inr hp))))
    · intro pending hp
      rw [List.filterMap_append, List.mem_append] at hp
      rcases hp with hp | hp
      · exact sent_snoc.mpr (.inl (hrequeued pending hp))
      · obtain ⟨_, hlast, hp⟩ := List.mem_filterMap.mp hp
        rw [List.mem_singleton.mp hlast] at hp
        exact hgone hp

theorem count_snoc (f : Event → Option Pending) (event : Event) (number : Nat) :
    count f (events ++ [event]) number = count f events number +
      (f event).toList.countP fun pending => pending.envelope.number = number := by
  have hlast : [event].filterMap f = (f event).toList := by
    rw [List.filterMap_cons, List.filterMap_nil]
    cases f event <;> rfl
  rw [count, count, List.filterMap_append, List.countP_append, hlast]

theorem requeues_snoc (event : Event) (name : String) (number : Nat) :
    requeues (events ++ [event]) name number = requeues events name number +
      (event.requeued name).toList.countP fun pending => pending.envelope.number = number :=
  count_snoc _ event number

/-- No message of a later publish was retried or dropped yet. -/
theorem Run.requeues_eq_zero (h : Run checks events world) (name : String) {number : Nat}
    (hnumber : (events.filterMap Event.accepted).length ≤ number) :
    requeues events name number = 0 := by
  refine List.countP_eq_zero.mpr fun pending hp => ?_
  have hlt := ((h.sent name).2 pending hp).number_lt
  rw [decide_eq_true_eq]
  omega

/-- The copies of one publish. -/
def copiesOf (events : List Event) (world : World) (name : String) (number : Nat) :
    Multiset Pending :=
  (copies events world name).filter fun pending => pending.envelope.number = number

theorem filter_none_add (p : Pending → Prop) [DecidablePred p] (rest : Multiset Pending) :
    ((↑(none : Option Pending).toList : Multiset Pending) + rest).filter p = rest.filter p :=
  congrArg _ (zero_add rest)

theorem filter_some_add (p : Pending → Prop) [DecidablePred p] (pending : Pending)
    (rest : Multiset Pending) : ((↑(some pending).toList : Multiset Pending) + rest).filter p =
      if p pending then pending ::ₘ rest.filter p else rest.filter p := by
  rw [Option.toList_some, Multiset.coe_singleton, Multiset.singleton_add, Multiset.filter_cons]
  split
  · exact Multiset.singleton_add _ _
  · exact zero_add _

/-- Each endpoint that a message was sent to has exactly one copy of it, and its attempt is one more
    than how often it was retried or dropped. -/
theorem Run.one_copy (h : Run checks events world) {name : String} {envelope : ArcEnvelope}
    (hsent : Sent events name envelope)
    (hfew : requeues events name envelope.number + 1 < 2 ^ 32) :
    copiesOf events world name envelope.number =
      {⟨envelope, requeues events name envelope.number + 1⟩} := by
  induction h with
  | new =>
    obtain ⟨before, after, heq, -⟩ := hsent
    simp at heq
  | @step events event world world' hrun hs ih =>
    obtain ⟨rest, hbefore, hafter⟩ := hs.moves hrun.unsettled events name
    have hcopies := (hrun.sent name).1
    rw [copiesOf, hafter]
    rw [requeues_snoc] at hfew ⊢
    rw [copiesOf, hbefore] at ih
    rw [hbefore] at hcopies
    rcases added_cases checks world.state event name with
      ⟨hgone, hadded⟩ | ⟨published, rfl, hm, hadded⟩ | ⟨delivery, hgone, hadded⟩
    · -- The copies only move.
      rw [hgone] at ih hfew ⊢
      rw [hadded]
      rcases sent_snoc.mp hsent with hsent | ⟨rfl, -, hsubscribed⟩
      · exact ih hsent hfew
      · rw [← (hrun.follows.2 name).1] at hsubscribed
        rw [Event.added, if_pos hsubscribed] at hadded
        cases hadded
    · -- A new copy.
      have hgone : (Event.publish published (.ok ())).requeued name = none := rfl
      have hlength := congrArg List.length hrun.follows.1
      rw [hgone] at ih hfew hcopies ⊢
      rw [hadded, filter_some_add]
      rw [filter_none_add] at ih
      rcases sent_snoc.mp hsent with hsent | ⟨heq, hnumber, -⟩
      · have hlt := hsent.number_lt
        rw [if_neg (by dsimp only; omega)]
        exact ih hsent hfew
      · cases heq
        have hnone : rest.filter (fun pending => pending.envelope.number = envelope.number) = 0 := by
          refine Multiset.filter_eq_nil.mpr fun pending hp => ?_
          have hlt := (hcopies pending (Multiset.mem_add.mpr (.inr hp))).number_lt
          omega
        have hnew : (⟨world.state.published.length, envelope.envelope⟩ : ArcEnvelope) = envelope := by
          rw [hlength, ← hnumber]
        rw [if_pos (by dsimp only; omega), hnone, hnew,
          hrun.requeues_eq_zero name (Nat.le_of_eq hnumber.symm)]
        rfl
    · -- A copy comes back with the next attempt.
      rw [hgone] at ih hfew ⊢
      rw [hadded]
      rw [filter_some_add] at ih
      rcases sent_snoc.mp hsent with hsent | ⟨rfl, -⟩
      · have ih := ih hsent
        rw [Option.toList_some, List.countP_singleton] at hfew ⊢
        by_cases hn : delivery.envelope.number = envelope.number
        · simp only [hn, decide_true, if_true] at hfew ih ⊢
          obtain ⟨heq, hnone⟩ := (Multiset.singleton_eq_cons_iff _).mp (ih (by omega)).symm
          rw [Pending.mk.injEq] at heq
          obtain ⟨rfl, hattempt⟩ := heq
          rw [Delivery.nextAttempt, ← hattempt, if_pos hfew, filter_some_add, if_pos rfl, hnone]
          rfl
        · simp only [hn, decide_false, if_false, Bool.false_eq_true, Nat.add_zero] at hfew ih ⊢
          rw [← ih hfew]
          cases hnext : delivery.nextAttempt checks with
          | none => exact filter_none_add _ rest
          | some pending => rw [filter_some_add, nextAttempt_envelope hnext, if_neg hn]
      · cases hgone

theorem Sent.subscribed {name : String} {envelope : ArcEnvelope} (h : Sent events name envelope) :
    envelope.envelope.messageType ∈ events.flatMap (·.subscribed name) := by
  obtain ⟨before, after, rfl, -, hsubscribed⟩ := h
  rw [List.flatMap_append, List.mem_append]
  exact .inl hsubscribed

/-- Each endpoint has exactly one copy of every message sent to it, and none of another; the
    publishes and the rejections are the listed ones. -/
theorem Run.conserves (h : Run checks events world) (name : String) :
    (∀ envelope, Sent events name envelope → requeues events name envelope.number + 1 < 2 ^ 32 →
      copiesOf events world name envelope.number =
        {⟨envelope, requeues events name envelope.number + 1⟩}) ∧
      (∀ pending ∈ copies events world name, Sent events name pending.envelope ∧
        pending.envelope.envelope.messageType ∈ events.flatMap (·.subscribed name)) ∧
      world.state.published = events.filterMap Event.accepted ∧
      (world.state.endpoints name).rejected =
        (events.filterMap (·.rejected name)).map fun pending => pending.envelope.envelope.id := by
  refine ⟨fun envelope hsent hfew => h.one_copy hsent hfew, fun pending hp => ?_, h.follows.1,
    (h.follows.2 name).2⟩
  have hsent := (h.sent name).1 pending hp
  exact ⟨hsent, hsent.subscribed⟩

/-- The endpoint of the runs below, and its copy. -/
def billingSpec : EndpointSpec := ⟨"billing", [orderShipped.messageType]⟩

def shipped : ArcEnvelope := ⟨0, orderShipped⟩

/-- The copy is handed out and retried, and after the delay handed out and dropped. -/
def shippedAgain : List Event :=
  [.subscribe billingSpec, .publish orderShipped (.ok ()), .take ⟨shipped, 1, "billing", false⟩,
    .retry ⟨shipped, 1, "billing", false⟩ (.fromSecs 1 (by decide)),
    .elapsed ⟨"billing", ⟨shipped, 2⟩⟩, .take ⟨shipped, 2, "billing", false⟩,
    .drop ⟨shipped, 2, "billing", false⟩]

theorem conserves_shipped : ∃ world, Run true shippedAgain world ∧
    copiesOf shippedAgain world "billing" 0 = {⟨shipped, 3⟩} := by
  have hrun : ∃ world, Run true shippedAgain world :=
    ⟨_, .step (.step (.step (.step (.step (.step (.step .new (.subscribe billingSpec))
      (.publish orderShipped)) (.take rfl)) (.retry _)) .elapsed) (.take rfl)) .drop⟩
  obtain ⟨world, hrun⟩ := hrun
  have hsent : Sent shippedAgain "billing" shipped :=
    ⟨[.subscribe billingSpec], _, rfl, rfl, by simp [Event.subscribed, billingSpec, shipped]⟩
  exact ⟨world, hrun, (Run.conserves hrun "billing").1 shipped hsent (by decide)⟩

/-! ## The last attempt number -/

theorem nextAttempt_lt {delivery : Delivery} {pending : Pending}
    (h : delivery.nextAttempt checks = some pending) : pending.attempt < 2 ^ 32 := by
  rw [Delivery.nextAttempt] at h
  split at h
  · cases h
    assumption
  · split at h <;> cases h
    exact Nat.two_pow_pos 32

/-- An attempt number is a `u32`. -/
theorem Run.attempt_lt (h : Run checks events world) (name : String) :
    ∀ pending ∈ copies events world name, pending.attempt < 2 ^ 32 := by
  induction h with
  | new => exact fun _ hp => absurd hp (Multiset.notMem_zero _)
  | @step events event world world' hrun hs ih =>
    obtain ⟨rest, hbefore, hafter⟩ := hs.moves hrun.unsettled events name
    intro pending hp
    rw [hafter, Multiset.mem_add, Multiset.mem_coe, Option.mem_toList] at hp
    rcases hp with hp | hp
    · rcases added_cases checks world.state event name with
        ⟨-, hadded⟩ | ⟨published, -, -, hadded⟩ | ⟨delivery, -, hadded⟩
      · rw [hadded] at hp
        cases hp
      · rw [hadded] at hp
        cases hp
        exact Nat.one_lt_two_pow (by decide)
      · rw [hadded] at hp
        exact nextAttempt_lt hp
    · refine ih pending ?_
      rw [hbefore]
      exact Multiset.mem_add.mpr (.inr hp)

end Runs

/-- Every delivery is dropped: after `count` of them, the copy waits for the next one as long as its
    number fits. -/
theorem all_dropped (checks : Bool) {count : Nat} (hcount : count < 2 ^ 32) : ∃ events world,
    Run checks events world ∧ Sent events "billing" shipped ∧ deliveries events "billing" 0 = count ∧
      requeues events "billing" 0 = count ∧ (count + 1 < 2 ^ 32 →
        (world.state.endpoints "billing").pending = [⟨shipped, count + 1⟩]) := by
  induction count with
  | zero =>
    refine ⟨_, _, .step (.step .new (.subscribe billingSpec)) (.publish orderShipped), ?_, rfl, rfl,
      fun _ => ?_⟩
    · refine ⟨[.subscribe billingSpec], [], rfl, rfl, ?_⟩
      simp [Event.subscribed, billingSpec, shipped]
    · rfl
  | succ count ih =>
    obtain ⟨events, ⟨state, hands, tasks⟩, hrun, hsent, hdeliveries, hrequeues, hpending⟩ :=
      ih (by omega)
    refine ⟨_, _, .step (.step hrun (.take (hpending hcount))) .drop, ?_, ?_, ?_, fun hnext => ?_⟩
    · exact sent_snoc.mpr (.inl (sent_snoc.mpr (.inl hsent)))
    · rw [deliveries, count_snoc, count_snoc]
      exact congrArg (· + 1) hdeliveries
    · rw [requeues_snoc, requeues_snoc]
      exact congrArg (· + 1) hrequeues
    · have hfits : (⟨shipped, count + 1, "billing", false⟩ : Delivery).nextAttempt checks =
          some ⟨shipped, count + 2⟩ := if_pos hnext
      rw [Delivery.drop, if_neg Bool.false_ne_true, hfits]
      dsimp only
      rw [State.update_self, State.update_self]
      rfl

/-- The number of a copy as long as it was handed out fewer than `2 ^ 32` times. -/
def Numbered (checks : Bool) : Prop :=
  ∀ events world name envelope, Run checks events world → Sent events name envelope →
    deliveries events name envelope.number < 2 ^ 32 →
      copiesOf events world name envelope.number =
        {⟨envelope, requeues events name envelope.number + 1⟩}

/-- After `2 ^ 32 - 1` deliveries, all of them dropped, the next one has no number, with or without
    overflow checks. -/
theorem not_numbered : ¬ Numbered true ∧ ¬ Numbered false := by
  have hnot (checks : Bool) : ¬ Numbered checks := by
    intro h
    obtain ⟨events, world, hrun, hsent, hdeliveries, hrequeues, -⟩ :=
      @all_dropped checks (2 ^ 32 - 1) (by decide)
    have hone := h events world "billing" shipped hrun hsent (hdeliveries ▸ by decide)
    have hmem : (⟨shipped, requeues events "billing" 0 + 1⟩ : Pending) ∈
        copies events world "billing" :=
      Multiset.mem_of_mem_filter (hone ▸ Multiset.mem_singleton_self _)
    have hlt := hrun.attempt_lt "billing" _ hmem
    rw [hrequeues] at hlt
    exact absurd hlt (by decide)
  exact ⟨hnot true, hnot false⟩

end SisaMessaging.Runtime.InMemory
