/-
  Subscribing an endpoint: reading its durable consumer, then creating it with a filter that
  keeps what was read. Creating a durable consumer that exists replaces its filter.

  `subscribe` is the program of one instance. `subscriptions` runs any number of them against one
  stream, with requests that may fail before or after they took effect. Two instances that both
  read before either creates lose one another's subjects (`lost_filter_subject`); as long as no
  create takes effect over subjects its instance neither read nor handles, the filter keeps
  everything a finished subscribe relies on (`filter_keeps`).
-/
import SisaMessaging.Core.Transport
import SisaMessaging.Lib.Pool
import SisaMessaging.Nats.Subject

namespace SisaMessaging.Nats

open SisaMessaging.Core SisaMessaging.Lib

/-! ## The program -/

/-- The stored filter of a consumer: the list, and the single subject older clients set. -/
structure ConsumerConfig where
  filterSubjects : List String
  filterSubject : String
  deriving DecidableEq

/-- The subjects the consumer takes: the list, and the single one when it is set. -/
def ConsumerConfig.existing (config : ConsumerConfig) : List String :=
  config.filterSubjects ++ (some config.filterSubject).toList.filter fun subject => subject ≠ ""

/-- Why reading a consumer failed. -/
inductive ConsumerInfoError where
  | notFound
  | other (message : String)
  deriving DecidableEq

/-- Why creating a consumer failed. The client can't see whether the server `created` it all the
    same. -/
structure CreateError where
  message : String
  created : Bool
  deriving DecidableEq

/-- The requests of `subscribe`, and the hand-over of the deliveries to the caller. -/
inductive SubscribeOp where
  | getStream
  | consumerInfo (name : String)
  | createConsumer (durableName : String) (filterSubjects : List String)
  | messages
  | subscribed

def SubscribeRet : SubscribeOp → Type
  | .getStream => Except String Unit
  | .consumerInfo _ => Except ConsumerInfoError ConsumerConfig
  | .createConsumer _ _ => Except CreateError Unit
  | .messages => Except String Unit
  | .subscribed => Unit

abbrev Subscribing := Prog SubscribeOp SubscribeRet

def request (op : SubscribeOp) : Subscribing (SubscribeRet op) := Prog.perform op

/-- Adds the subjects a filter lacks. -/
def widen (filterSubjects existing : List String) : List String :=
  existing.foldl (fun filterSubjects subject =>
    if filterSubjects.contains subject then filterSubjects else filterSubjects ++ [subject])
    filterSubjects

/-- `NatsTransport::subscribe`, up to the stream of deliveries. -/
def subscribe (subjectPrefix : String) (endpoint : EndpointSpec) :
    Subscribing (Except TransportError Unit) := do
  if endpoint.messageTypes.isEmpty then
    return .error (.broker "creating the JetStream consumer"
      "an endpoint needs at least one message type")
  match ← request .getStream with
  | .error error => return .error (.broker "creating the JetStream consumer" error)
  | .ok () =>
    let filterSubjects := endpoint.messageTypes.map (subject subjectPrefix)
    match ← request (.consumerInfo endpoint.name) with
    | .ok info => create endpoint.name (widen filterSubjects info.existing)
    | .error .notFound => create endpoint.name filterSubjects
    | .error (.other error) => return .error (.broker "reading the JetStream consumer" error)
where
  create (name : String) (filterSubjects : List String) :
      Subscribing (Except TransportError Unit) := do
    match ← request (.createConsumer name filterSubjects) with
    | .error error => return .error (.broker "creating the JetStream consumer" error.message)
    | .ok () =>
      match ← request .messages with
      | .error error => return .error (.broker "pulling from JetStream" error)
      | .ok () => return .ok ()

theorem mem_widen {filterSubjects existing : List String} {subject : String} :
    subject ∈ widen filterSubjects existing ↔ subject ∈ filterSubjects ∨ subject ∈ existing := by
  induction existing generalizing filterSubjects with
  | nil => simp [widen]
  | cons first rest ih =>
    have hcons : widen filterSubjects (first :: rest) =
        widen (if filterSubjects.contains first then filterSubjects else filterSubjects ++ [first])
          rest := rfl
    rw [hcons, ih]
    by_cases hf : first ∈ filterSubjects
    · simp only [List.contains_iff_mem.mpr hf, if_true, List.mem_cons]
      constructor
      · tauto
      · rintro (h | rfl | h) <;> tauto
    · simp only [List.contains_iff_mem, hf, if_false, List.mem_append, List.mem_cons]
      tauto

/-! ## Instances on one stream -/

/-- The stream's consumers, and what has happened to them. -/
structure Consumers (ι : Type) where
  consumers : String → Option ConsumerConfig
  /-- The subjects each instance's last read of its consumer returned. -/
  read : ι → List String
  /-- The subscribes that returned `Ok`: the consumer's name, the subjects of the instance's own
      message types and those it read. -/
  subscribed : List (String × List String)

variable {ι : Type} [DecidableEq ι]

/-- The subjects a consumer takes now. -/
def Consumers.filter (sh : Consumers ι) (name : String) : List String :=
  ((sh.consumers name).map ConsumerConfig.existing).getD []

/-- Creates the consumer, or replaces its filter when it exists. -/
def Consumers.create (sh : Consumers ι) (name : String) (filterSubjects : List String) :
    Consumers ι :=
  { sh with consumers := Function.update sh.consumers name (some ⟨filterSubjects, ""⟩) }

/-- Notes what instance `i` has read. -/
def Consumers.note (sh : Consumers ι) (i : ι) (subjects : List String) : Consumers ι :=
  { sh with read := Function.update sh.read i subjects }

/-- The subjects of an endpoint's own message types. -/
def ownSubjects (subjectPrefix : String) (endpoint : EndpointSpec) : List String :=
  endpoint.messageTypes.map (subject subjectPrefix)

/-- Whether a create took effect. -/
def tookEffect : Except CreateError Unit → Bool
  | .ok () => true
  | .error error => error.created

/-- What a request of instance `i` does, and what it may return. A create may fail after it took
    effect. -/
def exec (subjectPrefix : String) (i : ι) (endpoint : EndpointSpec) (op : SubscribeOp)
    (reply : SubscribeRet op) (sh sh' : Consumers ι) : Prop :=
  match op, reply with
  | .getStream, _ => sh' = sh
  | .consumerInfo name, .ok config =>
    sh.consumers name = some config ∧ sh' = sh.note i config.existing
  | .consumerInfo name, .error .notFound => sh.consumers name = none ∧ sh' = sh.note i []
  | .consumerInfo _, .error (.other _) => sh' = sh
  | .createConsumer name filterSubjects, reply =>
    sh' = if tookEffect reply then sh.create name filterSubjects else sh
  | .messages, _ => sh' = sh
  | .subscribed, _ =>
    sh' = { sh with subscribed :=
      (endpoint.name, ownSubjects subjectPrefix endpoint ++ sh.read i) :: sh.subscribed }

/-- Any number of instances subscribing endpoints on one stream. -/
def subscriptions (ι : Type) [DecidableEq ι] (subjectPrefix : String) :
    System ι SubscribeOp SubscribeRet EndpointSpec (Consumers ι) Empty where
  body endpoint := do
    match ← subscribe subjectPrefix endpoint with
    | .ok () => request .subscribed
    | .error _ => return ()
  exec := exec subjectPrefix
  launch _ _ sh sh' := sh' = sh
  leave _ _ sh sh' := sh' = sh
  env a _ _ := a.elim

/-- Any consumers may exist before the run. -/
def Fresh (sh : Consumers ι) : Prop := sh.subscribed = []

/-! ## What one instance does -/

/-- How far an instance is: nothing read, what it read, or created with what it read. -/
inductive Phase where
  | start
  | read (subjects : List String)
  | created (subjects : List String)

/-- An instance creates its own consumer, with its own subjects and those it read, and finishes
    after it created. -/
def subscribeProtocol (subjectPrefix : String) (endpoint : EndpointSpec) :
    Prog.Protocol SubscribeOp SubscribeRet Phase where
  allowed phase op :=
    match op with
    | .consumerInfo name => name = endpoint.name
    | .createConsumer name filterSubjects => name = endpoint.name ∧ ∃ subjects,
        phase = .read subjects ∧
          ∀ subject ∈ ownSubjects subjectPrefix endpoint ++ subjects, subject ∈ filterSubjects
    | .subscribed => ∃ subjects, phase = .created subjects
    | _ => True
  replies _ _ _ := True
  next phase op reply :=
    match op, reply, phase with
    | .consumerInfo _, .ok config, _ => .read config.existing
    | .consumerInfo _, .error .notFound, _ => .read []
    | .createConsumer _ _, .ok (), .read subjects => .created subjects
    | _, _, phase => phase

theorem subscribe_create_obeys {subjectPrefix : String} {endpoint : EndpointSpec}
    {filterSubjects subjects : List String}
    (h : ∀ subject ∈ ownSubjects subjectPrefix endpoint ++ subjects, subject ∈ filterSubjects) :
    (subscribe.create endpoint.name filterSubjects).Obeys (subscribeProtocol subjectPrefix endpoint)
      (fun phase result => result = .ok () → ∃ subjects, phase = .created subjects)
      (.read subjects) := by
  refine ⟨⟨rfl, subjects, rfl, h⟩, fun reply _ => ?_⟩
  match reply with
  | .error error => exact fun h => nomatch h
  | .ok () =>
    refine ⟨trivial, fun reply _ => ?_⟩
    match reply with
    | .error error => exact fun h => nomatch h
    | .ok () => exact fun _ => ⟨subjects, rfl⟩

theorem subscribe_obeys (subjectPrefix : String) (endpoint : EndpointSpec) :
    (subscribe subjectPrefix endpoint).Obeys (subscribeProtocol subjectPrefix endpoint)
      (fun phase result => result = .ok () → ∃ subjects, phase = .created subjects) .start := by
  unfold subscribe
  split
  · exact fun h => nomatch h
  · refine ⟨trivial, fun reply _ => ?_⟩
    match reply with
    | .error error => exact fun h => nomatch h
    | .ok () =>
      refine ⟨rfl, fun reply _ => ?_⟩
      match reply with
      | .ok info =>
        exact subscribe_create_obeys fun subject hs => mem_widen.mpr (List.mem_append.mp hs)
      | .error .notFound =>
        exact subscribe_create_obeys fun subject hs => by rwa [List.append_nil] at hs
      | .error (.other error) => exact fun h => nomatch h

theorem subscriptions_body_obeys (subjectPrefix : String) (endpoint : EndpointSpec) :
    ((subscriptions ι subjectPrefix).body endpoint).Obeys (subscribeProtocol subjectPrefix endpoint)
      (fun _ _ => True) .start := by
  refine (subscribe_obeys subjectPrefix endpoint).bind fun phase result h => ?_
  match result with
  | .ok () => exact ⟨h rfl, fun _ _ => trivial⟩
  | .error error => trivial

/-! ## The filter keeps what was subscribed -/

/-- No create that takes effect is over a subject that the instance neither read nor handles: nobody
    added one between its read and its create. -/
def NoneBetween (subjectPrefix : String)
    (s : System.State ι SubscribeOp SubscribeRet EndpointSpec (Consumers ι)) :
    System.Label ι SubscribeOp SubscribeRet EndpointSpec Empty → Prop
  | .exec i (.createConsumer name _) reply => tookEffect reply = true → ∀ p, s.procs i = some p →
      ∀ subject ∈ s.shared.filter name,
        subject ∈ ownSubjects subjectPrefix p.job ∨ subject ∈ s.shared.read i
  | _ => True

/-- Every subject a finished subscribe relies on is in its consumer's filter. -/
def FilterKeeps (sh : Consumers ι) : Prop :=
  ∀ entry ∈ sh.subscribed, ∀ subject ∈ entry.2, subject ∈ sh.filter entry.1

structure SubscribeInv (subjectPrefix : String) (sh : Consumers ι)
    (γ : ι → Option (EndpointSpec × Phase)) : Prop where
  read : ∀ i endpoint subjects, γ i = some (endpoint, .read subjects) → sh.read i = subjects
  created : ∀ i endpoint subjects, γ i = some (endpoint, .created subjects) →
    sh.read i = subjects ∧ ∀ subject ∈ ownSubjects subjectPrefix endpoint ++ subjects,
      subject ∈ sh.filter endpoint.name
  subscribed : FilterKeeps sh

omit [DecidableEq ι] in
theorem Consumers.filter_create (sh : Consumers ι) (name other : String)
    (filterSubjects : List String) :
    (sh.create name filterSubjects).filter other =
      if other = name then filterSubjects else sh.filter other := by
  unfold Consumers.filter Consumers.create
  by_cases h : other = name
  · simp [h, ConsumerConfig.existing]
  · simp [h]

/-- A worker's own step leaves what the others rely on, if the filters only grow. -/
theorem SubscribeInv.update {subjectPrefix : String} {sh sh' : Consumers ι}
    {γ : ι → Option (EndpointSpec × Phase)} {i : ι} {q : Option (EndpointSpec × Phase)}
    (h : SubscribeInv subjectPrefix sh γ) (hread : ∀ k, k ≠ i → sh'.read k = sh.read k)
    (hmono : ∀ name, ∀ subject ∈ sh.filter name, subject ∈ sh'.filter name)
    (hi : ∀ endpoint subjects, q = some (endpoint, .read subjects) → sh'.read i = subjects)
    (hi' : ∀ endpoint subjects, q = some (endpoint, .created subjects) → sh'.read i = subjects ∧
      ∀ subject ∈ ownSubjects subjectPrefix endpoint ++ subjects, subject ∈ sh'.filter endpoint.name)
    (hs : FilterKeeps sh') : SubscribeInv subjectPrefix sh' (Function.update γ i q) := by
  refine ⟨fun k endpoint subjects hk => ?_, fun k endpoint subjects hk => ?_, hs⟩
  · by_cases hki : k = i
    · subst hki
      exact hi endpoint subjects (by rwa [Function.update_self] at hk)
    · rw [Function.update_of_ne hki] at hk
      rw [hread k hki, h.read k endpoint subjects hk]
  · by_cases hki : k = i
    · subst hki
      exact hi' endpoint subjects (by rwa [Function.update_self] at hk)
    · rw [Function.update_of_ne hki] at hk
      obtain ⟨hr, hf⟩ := h.created k endpoint subjects hk
      exact ⟨by rw [hread k hki, hr], fun subject hm => hmono _ _ (hf subject hm)⟩

theorem subscriptions_keeps (subjectPrefix : String) :
    (subscriptions ι subjectPrefix).Keeps (NoneBetween subjectPrefix)
      (subscribeProtocol subjectPrefix) (fun _ => .start) (SubscribeInv subjectPrefix) where
  body := subscriptions_body_obeys subjectPrefix
  launch := by
    rintro sh _ γ i endpoint h - rfl
    exact h.update (fun _ _ => rfl) (fun _ _ hs => hs) (by simp) (by simp) h.subscribed
  leave := by
    rintro sh _ γ i endpoint phase h - rfl
    exact h.update (fun _ _ => rfl) (fun _ _ hs => hs) (by simp) (by simp) h.subscribed
  env := fun {_ _ _ a} => a.elim
  exec := by
    intro s sh' γ i endpoint rest phase op reply h hp hγ hallowed hexec hC
    refine ⟨trivial, ?_⟩
    have hstay : SubscribeInv subjectPrefix s.shared (Function.update γ i (some (endpoint, phase))) := by
      rwa [← hγ, Function.update_eq_self]
    match op, reply with
    | .getStream, _ => exact hexec ▸ hstay
    | .consumerInfo name, .ok config =>
      obtain ⟨-, rfl⟩ := hexec
      refine h.update (fun k hk => Function.update_of_ne hk ..) (fun _ _ hs => hs) ?_ ?_ h.subscribed
      · rintro _ _ ⟨⟩
        exact Function.update_self ..
      · rintro _ _ ⟨⟩
    | .consumerInfo name, .error .notFound =>
      obtain ⟨-, rfl⟩ := hexec
      refine h.update (fun k hk => Function.update_of_ne hk ..) (fun _ _ hs => hs) ?_ ?_ h.subscribed
      · rintro _ _ ⟨⟩
        exact Function.update_self ..
      · rintro _ _ ⟨⟩
    | .consumerInfo name, .error (.other _) => exact hexec ▸ hstay
    | .createConsumer name filterSubjects, reply =>
      obtain ⟨rfl, subjects, rfl, hall⟩ := hallowed
      have hread := h.read i endpoint subjects hγ
      change sh' = if tookEffect reply then _ else _ at hexec
      cases htook : tookEffect reply with
      | false =>
        obtain rfl : sh' = s.shared := by rwa [htook] at hexec
        match reply with
        | .ok () => cases htook
        | .error _ => exact hstay
      | true =>
        obtain rfl : sh' = s.shared.create endpoint.name filterSubjects := by rwa [htook] at hexec
        have hmono : ∀ name, ∀ subject ∈ s.shared.filter name,
            subject ∈ (s.shared.create endpoint.name filterSubjects).filter name := by
          intro name subject hs
          rw [Consumers.filter_create]
          split
          · rename_i hname
            subst hname
            refine hall subject (List.mem_append.mpr ?_)
            exact hread ▸ hC htook _ hp subject hs
          · exact hs
        have hkeeps : FilterKeeps (s.shared.create endpoint.name filterSubjects) :=
          fun entry he subject hs => hmono _ _ (h.subscribed entry he subject hs)
        have hown : ∀ subject ∈ ownSubjects subjectPrefix endpoint ++ subjects,
            subject ∈ (s.shared.create endpoint.name filterSubjects).filter endpoint.name := by
          rw [Consumers.filter_create, if_pos rfl]
          exact hall
        match reply with
        | .ok () =>
          refine h.update (fun _ _ => rfl) hmono (by rintro _ _ ⟨⟩) ?_ hkeeps
          rintro _ _ ⟨⟩
          exact ⟨hread, hown⟩
        | .error _ =>
          refine h.update (fun _ _ => rfl) hmono ?_ (by rintro _ _ ⟨⟩) hkeeps
          rintro _ _ ⟨⟩
          exact hread
    | .messages, _ => exact hexec ▸ hstay
    | .subscribed, _ =>
      obtain ⟨subjects, rfl⟩ := hallowed
      obtain ⟨hread, hfilter⟩ := h.created i endpoint subjects hγ
      subst hexec
      refine h.update (fun _ _ => rfl) (fun _ _ hs => hs) (by rintro _ _ ⟨⟩) ?_ ?_
      · rintro _ _ ⟨⟩
        exact ⟨hread, hfilter⟩
      · intro entry he
        rcases List.mem_cons.mp he with rfl | he
        · rw [hread]
          exact hfilter
        · exact h.subscribed entry he

/-- In every run in which no subject is added between an instance's read and its create, every
    subject a finished subscribe relies on stays in its consumer's filter. -/
theorem filter_keeps (subjectPrefix : String)
    (s : System.State ι SubscribeOp SubscribeRet EndpointSpec (Consumers ι))
    (h : (subscriptions ι subjectPrefix).Reach Fresh (NoneBetween subjectPrefix) s) :
    FilterKeeps s.shared := by
  have h0 : ∀ sh : Consumers ι, Fresh sh → SubscribeInv subjectPrefix sh fun _ => none := by
    intro sh hf
    refine ⟨by simp, by simp, ?_⟩
    unfold FilterKeeps
    rw [hf]
    simp
  obtain ⟨γ, -, hinv⟩ := h.tracked (subscriptions_keeps subjectPrefix) h0
  exact hinv.subscribed

/-- Two instances of `billing` with different message types. -/
def billingPlaced : EndpointSpec := ⟨"billing", [⟨"orders.order_placed.v1", by decide⟩]⟩

def billingPaid : EndpointSpec := ⟨"billing", [⟨"orders.order_paid.v1", by decide⟩]⟩

/-- The second instance reads after the first has created: both are kept. -/
theorem filter_keeps_rolling :
    ∃ s : System.State Bool SubscribeOp SubscribeRet EndpointSpec (Consumers Bool),
      s.shared.subscribed.length = 2 ∧ FilterKeeps s.shared := by
  have h0 : (subscriptions Bool "sisa").Reach Fresh (NoneBetween "sisa")
      ⟨fun _ => none, fun _ => none, fun _ => [], []⟩ := .init rfl
  have h1 := h0.launch false billingPlaced rfl rfl trivial
  have h2 := h1.exec false .getStream (.ok ()) rfl rfl trivial
  have h3 := h2.exec false (.consumerInfo "billing") (.error .notFound) rfl ⟨rfl, rfl⟩ trivial
  have h4 := h3.exec false (.createConsumer "billing" ["sisa.orders.order_placed.v1"]) (.ok ())
    rfl rfl fun _ _ _ _ h => (List.not_mem_nil h).elim
  have h5 := h4.exec false .messages (.ok ()) rfl rfl trivial
  have h6 := h5.exec false .subscribed () rfl rfl trivial
  have h7 := h6.launch true billingPaid rfl rfl trivial
  have h8 := h7.exec true .getStream (.ok ()) rfl rfl trivial
  have h9 := h8.exec true (.consumerInfo "billing") (.ok ⟨["sisa.orders.order_placed.v1"], ""⟩)
    rfl ⟨rfl, rfl⟩ trivial
  have h10 := h9.exec true (.createConsumer "billing"
    ["sisa.orders.order_paid.v1", "sisa.orders.order_placed.v1"]) (.ok ())
    rfl rfl fun _ _ _ _ h => .inr h
  have h11 := h10.exec true .messages (.ok ()) rfl rfl trivial
  have h12 := h11.exec true .subscribed () rfl rfl trivial
  exact ⟨_, rfl, filter_keeps "sisa" _ h12⟩

/-- Both instances find no consumer, then each creates it: the first one's subject is lost. -/
theorem lost_filter_subject :
    ¬ ∀ s, (subscriptions Bool "sisa").Reach Fresh (fun _ _ => True) s → FilterKeeps s.shared := by
  intro hkeeps
  have h0 : (subscriptions Bool "sisa").Reach Fresh (fun _ _ => True)
      ⟨fun _ => none, fun _ => none, fun _ => [], []⟩ := .init rfl
  have h1 := h0.launch false billingPlaced rfl rfl trivial
  have h2 := h1.launch true billingPaid rfl rfl trivial
  have h3 := h2.exec false .getStream (.ok ()) rfl rfl trivial
  have h4 := h3.exec false (.consumerInfo "billing") (.error .notFound) rfl ⟨rfl, rfl⟩ trivial
  have h5 := h4.exec true .getStream (.ok ()) rfl rfl trivial
  have h6 := h5.exec true (.consumerInfo "billing") (.error .notFound) rfl ⟨rfl, rfl⟩ trivial
  have h7 := h6.exec false (.createConsumer "billing" ["sisa.orders.order_placed.v1"]) (.ok ())
    rfl rfl trivial
  have h8 := h7.exec false .messages (.ok ()) rfl rfl trivial
  have h9 := h8.exec false .subscribed () rfl rfl trivial
  have h10 := h9.exec true (.createConsumer "billing" ["sisa.orders.order_paid.v1"]) (.ok ())
    rfl rfl trivial
  have hlost := hkeeps _ h10 _ (List.mem_singleton.mpr rfl) "sisa.orders.order_placed.v1" (by decide)
  revert hlost
  decide

end SisaMessaging.Nats
