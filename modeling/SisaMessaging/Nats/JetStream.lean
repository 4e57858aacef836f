/-
  One JetStream stream, and every message that its consumers hand to instances of their endpoints.

  A stream keeps what it takes, and may drop a publish of a `Nats-Msg-Id` that it has. Requests may
  take effect late, or without the answer coming back. `settledFor`: a message is settled at an
  endpoint's consumer only for a reason that the stream still shows.
-/
import SisaMessaging.Nats.Delivering

namespace SisaMessaging.Nats

open SisaMessaging.Core SisaMessaging.Runtime SisaMessaging.Lib
open SisaMessaging.Lib.Prog (After Blocks Only Run)
open SisaMessaging.Lib.System (Reach Recorded)

variable {Msg : Type}

/-- A message of the stream. -/
structure Stored where
  subject : String
  headers : HeaderMap
  data : List UInt8

/-- The stream, its consumers, and what each instance asked for so far, by the arrival's number. -/
structure JetStream (Msg : Type) where
  stream : List Stored
  /-- The filter subjects of each durable consumer. -/
  filters : String → List String
  /-- The messages that a consumer doesn't hand out again, by their places in the stream. -/
  settled : String → Nat → Bool
  history : Nat → Option (Arrival Msg × List (WireEvent Msg))

namespace JetStream

/-- The stream has a message of the same `Nats-Msg-Id`. -/
def Duplicate (sh : JetStream Msg) (message : Stored) : Prop :=
  ∃ stored ∈ sh.stream, ∃ id, (msgId, id) ∈ stored.headers.entries ∧
    (msgId, id) ∈ message.headers.entries

def Has (sh : JetStream Msg) (message : Stored) : Prop :=
  message ∈ sh.stream ∨ sh.Duplicate message

/-- The stream takes a publish, or drops it as a duplicate. -/
def Takes (sh sh' : JetStream Msg) (message : Stored) : Prop :=
  sh' = { sh with stream := sh.stream ++ [message] } ∨ (sh.Duplicate message ∧ sh' = sh)

def settle (sh : JetStream Msg) (endpoint : String) (sequence : Nat) : JetStream Msg :=
  { sh with settled := fun name place =>
      if name = endpoint ∧ place = sequence then true else sh.settled name place }

def log (sh : JetStream Msg) (i : Nat) (e : WireEvent Msg) : JetStream Msg :=
  { sh with
    history := Function.update sh.history i
      ((sh.history i).map fun (arrival, evs) => (arrival, evs ++ [e])) }

/-- The publish that instance `i` asked for last. -/
def Asked (sh : JetStream Msg) (i : Nat) (message : Stored) : Prop :=
  ∃ arrival evs sent, sh.history i = some (arrival,
    evs ++ [⟨.stream (.publish message.subject message.headers message.data), sent⟩])

/-- What an operation of an arrival does when it takes effect. -/
def Effect (arrival : Arrival Msg) (sh sh' : JetStream Msg) : WireOp Msg → Prop
  | .stream (.publish subject headers data) => sh.Takes sh' ⟨subject, headers, data⟩
  | .settle .ack => sh' = sh.settle arrival.endpoint.name arrival.sequence
  | .settle .term => sh' = sh.settle arrival.endpoint.name arrival.sequence
  | _ => sh' = sh

/-- What an operation does, and what it may return. A publish is on its way until its
    acknowledgement; a settlement that reports an error may have taken effect. -/
def Does (i : Nat) (arrival : Arrival Msg) (sh sh' : JetStream Msg) :
    (op : WireOp Msg) → WireRet Msg op → Prop
  | .stream (.publish subject headers data), _ =>
    Effect arrival sh sh' (.stream (.publish subject headers data)) ∨ sh' = sh
  | .stream .acknowledgement, reply => ∃ message, sh.Asked i message ∧
    (sh.Takes sh' message ∨ sh' = sh) ∧ (reply = .ok () → sh'.Has message)
  | .settle kind, reply => Effect arrival sh sh' (.settle kind) ∨ (reply ≠ .ok () ∧ sh' = sh)
  | .pass _, _ => sh' = sh

/-- A stream without messages, consumers and arrivals. -/
def Empty (sh : JetStream Msg) : Prop :=
  sh.stream = [] ∧ (∀ name, sh.filters name = []) ∧ (∀ name place, sh.settled name place = false) ∧
    ∀ i, sh.history i = none

end JetStream

/-- What a publish of the envelope puts on the stream. -/
def Carries (transport : NatsTransport) (envelope : Envelope) (stored : Stored) : Prop :=
  headers transport.uuids transport.refusal envelope = .ok stored.headers ∧
    stored.subject = subject transport.subjectPrefix envelope.messageType ∧
    stored.data = envelope.data

/-- The message as the client hands it out: its headers in any order, with what the client leaves of
    their values. -/
def Brings (transport : NatsTransport) (stored : Stored) (message : Message) : Prop :=
  message.payload = stored.data ∧
    ((message.headers.map HeaderMap.entries).getD []).Perm
      (stored.headers.entries.map fun header => (header.1, header.2.map transport.received))

/-- What happens next to the arrivals. -/
inductive Outside (Msg : Type) where
  /-- Creates a consumer, or replaces its filter. -/
  | consumer (name : String) (filterSubjects : List String)
  /-- The bus or a dispatcher publishes. -/
  | publish (envelope : Envelope) (stored : Stored)
  /-- Another client publishes. -/
  | foreign (stored : Stored)
  /-- What instance `i` asked for takes effect late. -/
  | late (i : Nat) (op : WireOp Msg)

/-- Any number of arrivals, also several of one message, at any instances of the consumers'
    endpoints. -/
def jetStream (Msg : Type) (transport : NatsTransport) :
    System Nat (WireOp Msg) (WireRet Msg) (Arrival Msg) (JetStream Msg) (Outside Msg) where
  body arrival := arrival.handle transport
  launch i arrival sh sh' :=
    sh.history i = none ∧ sh.settled arrival.endpoint.name arrival.sequence = false ∧
    (∃ stored, sh.stream[arrival.sequence]? = some stored ∧
      filterMatches (sh.filters arrival.endpoint.name) stored.subject = true ∧
      Brings transport stored arrival.message) ∧
    sh' = { sh with history := Function.update sh.history i (some (arrival, [])) }
  exec i arrival op reply sh sh' :=
    ∃ taken, JetStream.Does i arrival sh taken op reply ∧ sh' = taken.log i ⟨op, reply⟩
  leave _ _ sh sh' := sh' = sh
  env
    | .consumer name filterSubjects, sh, sh' =>
      sh' = { sh with filters := Function.update sh.filters name filterSubjects }
    | .publish envelope stored, sh, sh' => Carries transport envelope stored ∧ sh.Takes sh' stored
    | .foreign stored, sh, sh' => sh.Takes sh' stored
    | .late i op, sh, sh' => ∃ arrival evs e, sh.history i = some (arrival, evs) ∧ e ∈ evs ∧
      e.op = op ∧ JetStream.Effect arrival sh sh' op

namespace JetStream

/-! ## What a step keeps -/

/-- Only the stream and what is settled change, and neither loses anything. -/
structure Grows (sh sh' : JetStream Msg) : Prop where
  stream : sh.stream <+: sh'.stream
  filters : sh'.filters = sh.filters
  history : sh'.history = sh.history

theorem Grows.refl (sh : JetStream Msg) : sh.Grows sh := ⟨List.prefix_refl _, rfl, rfl⟩

theorem Takes.grows {sh sh' : JetStream Msg} {message : Stored} (h : sh.Takes sh' message) :
    sh.Grows sh' := by
  rcases h with rfl | ⟨_, rfl⟩
  · exact ⟨List.prefix_append _ _, rfl, rfl⟩
  · exact .refl _

theorem Takes.settled {sh sh' : JetStream Msg} {message : Stored} (h : sh.Takes sh' message) :
    sh'.settled = sh.settled := by
  rcases h with rfl | ⟨_, rfl⟩ <;> rfl

theorem Takes.mem {sh sh' : JetStream Msg} {message stored : Stored} (h : sh.Takes sh' message)
    (hm : stored ∈ sh'.stream) : stored ∈ sh.stream ∨ stored = message := by
  rcases h with rfl | ⟨_, rfl⟩
  · exact (List.mem_append.mp hm).imp_right List.mem_singleton.mp
  · exact Or.inl hm

theorem Grows.has {sh sh' : JetStream Msg} (h : sh.Grows sh') {message : Stored}
    (hm : sh.Has message) : sh'.Has message :=
  hm.imp (h.stream.subset ·) fun ⟨stored, hs, found⟩ => ⟨stored, h.stream.subset hs, found⟩

theorem Grows.place {sh sh' : JetStream Msg} (h : sh.Grows sh') {sequence : Nat} {stored : Stored}
    (hs : sh.stream[sequence]? = some stored) : sh'.stream[sequence]? = some stored := by
  obtain ⟨more, hmore⟩ := h.stream
  rw [← hmore]
  exact List.getElem?_append_left (List.getElem?_eq_some_iff.mp hs).1 ▸ hs

/-- The operation asks for this publish. -/
def Asks (op : WireOp Msg) (stored : Stored) : Prop :=
  op = .stream (.publish stored.subject stored.headers stored.data)

/-- The operation asks that the message isn't handed out again. -/
def Ends (op : WireOp Msg) : Prop := op = .settle .ack ∨ op = .settle .term

/-- What an operation of an arrival may have changed. -/
structure Changes (arrival : Arrival Msg) (op : WireOp Msg) (sh sh' : JetStream Msg) : Prop where
  grows : sh.Grows sh'
  settled : ∀ name place, sh'.settled name place = true → sh.settled name place = true ∨
    (Ends op ∧ arrival.endpoint.name = name ∧ arrival.sequence = place)

theorem Changes.refl (arrival : Arrival Msg) (op : WireOp Msg) (sh : JetStream Msg) :
    Changes arrival op sh sh := ⟨.refl _, fun _ _ h => Or.inl h⟩

theorem Takes.changes {sh sh' : JetStream Msg} {message : Stored} (h : sh.Takes sh' message)
    (arrival : Arrival Msg) (op : WireOp Msg) : Changes arrival op sh sh' :=
  ⟨h.grows, fun _ _ hs => Or.inl (h.settled ▸ hs)⟩

theorem changes_settle (sh : JetStream Msg) (arrival : Arrival Msg) {op : WireOp Msg}
    (h : Ends op) : Changes arrival op sh (sh.settle arrival.endpoint.name arrival.sequence) where
  grows := ⟨List.prefix_refl _, rfl, rfl⟩
  settled name place hs := by
    unfold settle at hs
    dsimp only at hs
    split at hs
    · rename_i hplace
      exact Or.inr ⟨h, hplace.1.symm, hplace.2.symm⟩
    · exact Or.inl hs

theorem Effect.changes {arrival : Arrival Msg} {sh sh' : JetStream Msg} {op : WireOp Msg}
    (h : Effect arrival sh sh' op) : Changes arrival op sh sh' := by
  unfold Effect at h
  split at h
  · exact Takes.changes h _ _
  · exact h ▸ changes_settle sh arrival (Or.inl rfl)
  · exact h ▸ changes_settle sh arrival (Or.inr rfl)
  · exact h ▸ .refl _ _ _

theorem Does.changes {i : Nat} {arrival : Arrival Msg} {sh sh' : JetStream Msg} {op : WireOp Msg}
    {reply : WireRet Msg op} (h : Does i arrival sh sh' op reply) : Changes arrival op sh sh' := by
  unfold Does at h
  split at h
  · rcases h with h | rfl
    · exact h.changes
    · exact .refl _ _ _
  · obtain ⟨message, _, h | rfl, _⟩ := h
    · exact h.changes _ _
    · exact .refl _ _ _
  · rcases h with h | ⟨_, rfl⟩
    · exact h.changes
    · exact .refl _ _ _
  · exact h ▸ .refl _ _ _

/-- What is new in the stream is what the operation publishes, or what its instance asked for. -/
theorem Effect.mem {arrival : Arrival Msg} {sh sh' : JetStream Msg} {op : WireOp Msg}
    (h : Effect arrival sh sh' op) {stored : Stored} (hm : stored ∈ sh'.stream) :
    stored ∈ sh.stream ∨ Asks op stored := by
  unfold Effect at h
  split at h
  · refine (Takes.mem h hm).imp_right fun heq => ?_
    subst heq
    rfl
  all_goals
    subst h
    exact Or.inl hm

theorem Does.mem {i : Nat} {arrival : Arrival Msg} {sh sh' : JetStream Msg} {op : WireOp Msg}
    {reply : WireRet Msg op} (h : Does i arrival sh sh' op reply) {stored : Stored}
    (hm : stored ∈ sh'.stream) : stored ∈ sh.stream ∨ Asks op stored ∨ sh.Asked i stored := by
  unfold Does at h
  split at h
  · rcases h with h | rfl
    · exact (h.mem hm).imp_right Or.inl
    · exact Or.inl hm
  · obtain ⟨message, hasked, h | rfl, _⟩ := h
    · refine (h.mem hm).imp_right fun heq => Or.inr ?_
      rw [heq]
      exact hasked
    · exact Or.inl hm
  · rcases h with h | ⟨_, rfl⟩
    · exact (h.mem hm).imp_right Or.inl
    · exact Or.inl hm
  · exact Or.inl (h ▸ hm)

theorem history_log {sh : JetStream Msg} {i : Nat} {arrival : Arrival Msg}
    {evs : List (WireEvent Msg)} (h : sh.history i = some (arrival, evs)) (e : WireEvent Msg) :
    (sh.log i e).history = Function.update sh.history i (some (arrival, evs ++ [e])) := by
  unfold log
  rw [h]
  rfl

/-- A history has only grown, by this event if it is this instance's. -/
theorem log_some {sh : JetStream Msg} {i k : Nat} {e : WireEvent Msg} {arrival : Arrival Msg}
    {evs : List (WireEvent Msg)} (h : (sh.log i e).history k = some (arrival, evs)) :
    ∃ before, sh.history k = some (arrival, before) ∧
      (evs = before ∨ (k = i ∧ evs = before ++ [e])) := by
  unfold log at h
  rcases System.update_eq_some.mp h with ⟨rfl, h⟩ | ⟨_, h⟩
  · obtain ⟨⟨other, before⟩, hbefore, heq⟩ := Option.map_eq_some_iff.mp h
    cases heq
    exact ⟨before, hbefore, Or.inr ⟨rfl, rfl⟩⟩
  · exact ⟨evs, h, Or.inl rfl⟩

theorem log_kept {sh : JetStream Msg} {k : Nat} {arrival : Arrival Msg}
    {evs : List (WireEvent Msg)} (h : sh.history k = some (arrival, evs)) (i : Nat)
    (e : WireEvent Msg) :
    ∃ after, (sh.log i e).history k = some (arrival, after) ∧ evs ⊆ after := by
  by_cases hk : k = i
  · subst hk
    exact ⟨evs ++ [e], by rw [history_log h, Function.update_self], List.subset_append_left _ _⟩
  · refine ⟨evs, ?_, List.Subset.refl _⟩
    unfold log
    exact (Function.update_of_ne hk ..).trans h

theorem recorded (transport : NatsTransport) :
    Recorded (jetStream Msg transport) JetStream.history where
  launch := by
    intro i arrival sh sh' h
    obtain ⟨hn, _, _, rfl⟩ := h
    exact ⟨hn, rfl⟩
  exec := by
    intro i arrival evs op reply sh sh' hh h
    obtain ⟨taken, hdoes, rfl⟩ := h
    have hkept := hdoes.changes.grows.history
    rw [← hkept] at hh
    rw [history_log hh, hkept]
  leave := by
    intro i arrival sh sh' h
    obtain rfl := h
    rfl
  env := by
    intro action sh sh' h
    cases action with
    | consumer name filterSubjects =>
      obtain rfl := h
      rfl
    | publish envelope stored => exact h.2.grows.history
    | foreign stored => exact (Takes.grows h).history
    | late i op =>
      obtain ⟨arrival, evs, e, _, _, _, h⟩ := h
      exact h.changes.grows.history

/-! ## Every run -/

/-- What holds between the stream and the instances' histories. -/
structure Accounted (transport : NatsTransport) (sh : JetStream Msg) : Prop where
  /-- An arrival is of a message of the stream. -/
  brought : ∀ i arrival evs, sh.history i = some (arrival, evs) → ∃ stored,
    sh.stream[arrival.sequence]? = some stored ∧ Brings transport stored arrival.message
  /-- A message that is settled was acked or terminated. -/
  settled : ∀ name place, sh.settled name place = true → ∃ i arrival evs e,
    sh.history i = some (arrival, evs) ∧ arrival.endpoint.name = name ∧
    arrival.sequence = place ∧ e ∈ evs ∧ Ends e.op
  /-- The stream has what it acknowledged. -/
  acknowledged : ∀ i arrival before subject headers data after,
    sh.history i = some (arrival, before ++ acknowledged subject headers data ++ after) →
    sh.Has ⟨subject, headers, data⟩

variable {transport : NatsTransport}

theorem Empty.accounted {sh : JetStream Msg} (h : sh.Empty) : sh.Accounted transport := by
  obtain ⟨_, _, hsettled, hhistory⟩ := h
  constructor
  · simp [hhistory]
  · simp [hsettled]
  · simp [hhistory]

/-- The stream goes on, and nothing but what the instances asked for is settled. -/
theorem Accounted.change {sh sh' : JetStream Msg} (h : sh.Accounted transport)
    (hg : sh.Grows sh') (hs : ∀ name place, sh'.settled name place = true →
      sh.settled name place = true ∨ ∃ i arrival evs e, sh.history i = some (arrival, evs) ∧
        arrival.endpoint.name = name ∧ arrival.sequence = place ∧ e ∈ evs ∧ Ends e.op) :
    sh'.Accounted transport := by
  constructor
  · intro i arrival evs hi
    rw [hg.history] at hi
    obtain ⟨stored, hstored, hbrings⟩ := h.brought i arrival evs hi
    exact ⟨stored, hg.place hstored, hbrings⟩
  · intro name place hset
    rw [hg.history]
    exact (hs name place hset).elim (h.settled name place) id
  · intro i arrival before subject headers data after hi
    rw [hg.history] at hi
    exact hg.has (h.acknowledged i arrival before subject headers data after hi)

/-- One more operation of an instance. -/
theorem Accounted.exec {sh taken : JetStream Msg} {i : Nat} {arrival : Arrival Msg}
    {done : List (WireEvent Msg)} {op : WireOp Msg} {reply : WireRet Msg op}
    (h : sh.Accounted transport) (hi : sh.history i = some (arrival, done))
    (hdoes : Does i arrival sh taken op reply) :
    (taken.log i ⟨op, reply⟩).Accounted transport := by
  have hc := hdoes.changes
  have hkept (k : Nat) : taken.history k = sh.history k := congrFun hc.grows.history k
  constructor
  · intro k other evs hk
    obtain ⟨before, hbefore, _⟩ := log_some hk
    rw [hkept] at hbefore
    obtain ⟨stored, hstored, hbrings⟩ := h.brought k other before hbefore
    exact ⟨stored, hc.grows.place hstored, hbrings⟩
  · intro name place hset
    rcases hc.settled name place hset with hset | ⟨hends, hname, hplace⟩
    · obtain ⟨k, other, evs, e, hk, hname, hplace, he, hends⟩ := h.settled name place hset
      rw [← hkept] at hk
      obtain ⟨after, hafter, hsub⟩ := log_kept hk i ⟨op, reply⟩
      exact ⟨k, other, after, e, hafter, hname, hplace, hsub he, hends⟩
    · rw [← hkept] at hi
      refine ⟨i, arrival, done ++ [⟨op, reply⟩], ⟨op, reply⟩, ?_, hname, hplace, by simp, hends⟩
      rw [history_log hi, Function.update_self]
  · intro k other before subject headers data after hk
    obtain ⟨evs, hevs, hgrown⟩ := log_some hk
    rw [hkept] at hevs
    rcases hgrown with hsame | ⟨rfl, hgrown⟩
    · rw [← hsame] at hevs
      exact hc.grows.has (h.acknowledged k other before subject headers data after hevs)
    · rcases List.eq_nil_or_concat after with rfl | ⟨sofar, last, rfl⟩
      · -- The acknowledgement itself: the publish was the instance's last event.
        rw [List.append_nil, show Nats.acknowledged subject headers data =
          [⟨.stream (.publish subject headers data), .ok ()⟩] ++
            [(⟨.stream .acknowledgement, .ok ()⟩ : WireEvent Msg)] from rfl,
          ← List.append_assoc] at hgrown
        obtain ⟨rfl, hlast⟩ := List.append_inj' hgrown rfl
        cases hlast
        obtain ⟨message, ⟨asker, sofar, sent, hasked⟩, _, hhas⟩ := hdoes
        rw [hevs, Option.some.injEq, Prod.mk.injEq] at hasked
        obtain ⟨_, hpublish⟩ := List.append_inj' hasked.2 rfl
        cases hpublish
        exact hhas rfl
      · rw [List.concat_eq_append, ← List.append_assoc] at hgrown
        obtain ⟨rfl, _⟩ := List.append_inj' hgrown rfl
        exact hc.grows.has (h.acknowledged k other before subject headers data sofar hevs)

/-- A new arrival. -/
theorem Accounted.launch {sh : JetStream Msg} {i : Nat} {arrival : Arrival Msg} {stored : Stored}
    (h : sh.Accounted transport) (hi : sh.history i = none)
    (hstored : sh.stream[arrival.sequence]? = some stored)
    (hbrings : Brings transport stored arrival.message) :
    Accounted transport { sh with
      history := Function.update sh.history i (some (arrival, [])) } := by
  constructor
  · intro k other evs hk
    rcases System.update_eq_some.mp hk with ⟨_, hnew⟩ | ⟨_, hold⟩
    · cases hnew
      exact ⟨stored, hstored, hbrings⟩
    · exact h.brought k other evs hold
  · intro name place hset
    obtain ⟨k, other, evs, e, hk, found⟩ := h.settled name place hset
    have hki : k ≠ i := by
      rintro rfl
      rw [hi] at hk
      cases hk
    exact ⟨k, other, evs, e, (Function.update_of_ne hki ..).trans hk, found⟩
  · intro k other before subject headers data after hk
    rcases System.update_eq_some.mp hk with ⟨_, hnew⟩ | ⟨_, hold⟩
    · rw [Option.some.injEq, Prod.mk.injEq] at hnew
      exact absurd hnew.2.symm (by simp [Nats.acknowledged])
    · exact h.acknowledged k other before subject headers data after hold

theorem accounted {C} {s : System.State Nat (WireOp Msg) (WireRet Msg) (Arrival Msg) (JetStream Msg)}
    (h : (jetStream Msg transport).Reach Empty C s) : s.shared.Accounted transport := by
  induction h with
  | init h => exact h.accounted
  | @step s l s' hr hs _ ih =>
    cases hs with
    | launch _ hl =>
      obtain ⟨hn, _, ⟨stored, hstored, _, hbrings⟩, rfl⟩ := hl
      exact ih.launch hn hstored hbrings
    | @exec i arrival op next reply sh hp he =>
      obtain ⟨taken, hdoes, rfl⟩ := he
      obtain ⟨done, hi, _⟩ := (hr.recorded (recorded transport) (fun _ h0 => h0.2.2.2) i).2 _ hp
      exact ih.exec hi hdoes
    | leave _ hl =>
      obtain rfl := hl
      exact ih
    | @env action sh he =>
      cases action with
      | consumer name filterSubjects =>
        obtain rfl := he
        exact ⟨ih.brought, ih.settled, ih.acknowledged⟩
      | publish envelope stored =>
        exact ih.change he.2.grows fun _ _ hset => Or.inl (he.2.settled ▸ hset)
      | foreign stored =>
        have htakes : s.shared.Takes sh stored := he
        exact ih.change htakes.grows fun _ _ hset => Or.inl (htakes.settled ▸ hset)
      | late i op =>
        obtain ⟨arrival, evs, e, hi, hin, rfl, heffect⟩ := he
        refine ih.change heffect.changes.grows fun name place hset => ?_
        refine (heffect.changes.settled name place hset).imp_right fun ⟨hends, hname, hplace⟩ => ?_
        exact ⟨i, arrival, evs, e, hi, hname, hplace, hin, hends⟩

/-- What an instance asked for so far is a stopped run of its program. -/
theorem after_history {C} {s : System.State Nat (WireOp Msg) (WireRet Msg) (Arrival Msg) (JetStream Msg)}
    (h : (jetStream Msg transport).Reach Empty C s) {i : Nat} {arrival : Arrival Msg}
    {evs : List (WireEvent Msg)} (hi : s.shared.history i = some (arrival, evs)) :
    ∃ q, After (arrival.handle transport) evs q :=
  (h.recorded (recorded transport) (fun _ h0 => h0.2.2.2) i).1 _ _ hi

/-! ## Why a message is settled -/

/-- The arrival was handled: its handling succeeded, and the stream has each publish that it held. -/
def HandledAs (sh : JetStream Msg) (transport : NatsTransport) (arrival : Arrival Msg)
    (evs : List (WireEvent Msg)) (delivery : Delivery) : Prop :=
  ∃ handling held, handling.map passed <+: evs ∧
    Run (arrival.endpoint.pipeline.run (arrival.endpoint.context arrival.source delivery)) handling
      (.ok held) ∧
    Handled delivery.envelope handling arrival.endpoint.pipeline ∧
    ∀ envelope ∈ held, ∃ stored, Carries transport envelope stored ∧ sh.Has stored

/-- The delivery was given up: its error copy is on the endpoint's error subject. -/
def GivenUp (sh : JetStream Msg) (transport : NatsTransport) (endpoint : String)
    (delivery : Delivery) : Prop :=
  ∃ error copy, ErrorCopy endpoint delivery error copy ∧
    ⟨errorSubject transport.subjectPrefix endpoint, errorHeaders transport.uuids copy,
      delivery.envelope.data⟩ ∈ sh.stream

/-- The message isn't an envelope, and its copy is on the endpoint's error subject. -/
def SetAside (sh : JetStream Msg) (transport : NatsTransport) (endpoint error : String)
    (message : Message) : Prop :=
  ∃ headers, SetAsideHeaders endpoint error message headers ∧
    ⟨errorSubject transport.subjectPrefix endpoint, headers, message.payload⟩ ∈ sh.stream

/-- Why the message in a place of the stream is settled at an endpoint's consumer: an instance got it,
    and handled it, gave it up, or set it aside. -/
def SettledFor (sh : JetStream Msg) (transport : NatsTransport) (endpoint : String)
    (sequence : Nat) : Prop :=
  ∃ i arrival evs stored, sh.history i = some (arrival, evs) ∧ arrival.endpoint.name = endpoint ∧
    arrival.sequence = sequence ∧ sh.stream[sequence]? = some stored ∧
    Brings transport stored arrival.message ∧
    ((∃ envelope attempt, transport.read arrival.message = .ok (envelope, attempt) ∧
        (sh.HandledAs transport arrival evs ⟨envelope, attempt⟩ ∨
          sh.GivenUp transport endpoint ⟨envelope, attempt⟩)) ∨
      ∃ error, transport.read arrival.message = .error error ∧
        sh.SetAside transport endpoint error arrival.message)

/-- A publish without a `Nats-Msg-Id` is never dropped. -/
theorem Has.mem {sh : JetStream Msg} {message : Stored} (h : sh.Has message)
    (hid : msgId ∉ message.headers.entries.map (·.1)) : message ∈ sh.stream := by
  refine h.resolve_right fun ⟨_, _, id, _, hm⟩ => hid ?_
  exact List.mem_map_of_mem (f := (·.1)) hm

section Settlement

variable {sh : JetStream Msg} {i : Nat} {arrival : Arrival Msg} {evs : List (WireEvent Msg)}
  {delivery : Delivery} {outcome : Except Failure (List Envelope)}
  {handling sends copies : List (HandlingEvent Msg)} {last : HandlingEvent Msg}

theorem handledAs_of_ack (hacc : sh.Accounted transport) (hi : sh.history i = some (arrival, evs))
    (hs : Settlement arrival.endpoint arrival.source delivery outcome handling sends copies last)
    (hblocks : Blocks transport.wire (handling ++ sends ++ copies ++ [last]) evs)
    (hack : last.op = .ack) : sh.HandledAs transport arrival evs delivery := by
  obtain ⟨held, rfl, rfl⟩ := hs.ack.mp hack
  have hprefix : handling.map passed <+: evs := by
    rw [List.append_assoc, List.append_assoc] at hblocks
    obtain ⟨first, second, rfl, hfirst, _⟩ := hblocks.split
    rw [hfirst.eq_map fun e he block hrun => run_wire_pass (hs.inPipeline e he) hrun]
    exact List.prefix_append _ _
  refine ⟨handling, held, hprefix, hs.ran, Pipeline.run_ok hs.ran, fun envelope hm => ?_⟩
  have hsend : (⟨.publish envelope, .ok ()⟩ : HandlingEvent Msg) ∈
      handling ++ accepted held ++ copies ++ [last] := by
    have haccepted : (⟨.publish envelope, .ok ()⟩ : HandlingEvent Msg) ∈ accepted held :=
      List.mem_map.mpr ⟨envelope, hm, rfl⟩
    simp [haccepted]
  obtain ⟨before, block, after, rfl, hrun⟩ := hblocks.block hsend
  obtain ⟨written, hwritten, rfl⟩ := run_wire_publish hrun
  exact ⟨_, ⟨hwritten, rfl, rfl⟩, hacc.acknowledged i arrival before _ _ _ after hi⟩

theorem givenUp_of_reject (hacc : sh.Accounted transport) (hi : sh.history i = some (arrival, evs))
    (hs : Settlement arrival.endpoint arrival.source delivery outcome handling sends copies last)
    (hblocks : Blocks transport.wire (handling ++ sends ++ copies ++ [last]) evs)
    (hreject : last.op = .reject) : sh.GivenUp transport arrival.endpoint.name delivery := by
  obtain ⟨failure, error, _, _, copy, hcopy, rfl⟩ := hs.reject.mp hreject
  have hsent : (⟨.publishError arrival.endpoint.name copy, .ok ()⟩ : HandlingEvent Msg) ∈
      handling ++ sends ++ [⟨.publishError arrival.endpoint.name copy, .ok ()⟩] ++ [last] := by
    simp
  obtain ⟨before, block, after, rfl, hrun⟩ := hblocks.block hsent
  obtain rfl := run_publishTo hrun
  have hhas := hacc.acknowledged i arrival before _ _ _ after hi
  have hdata : copy.data = delivery.envelope.data := by rw [← hcopy.fields]
  refine ⟨error, copy, hcopy, ?_⟩
  rw [← hdata]
  refine hhas.mem ?_
  rw [entries_errorHeaders]
  exact msgId_not_mem_toHeader _

end Settlement

/-! ## A message that isn't an envelope -/

/-- What an instance performs with a message that isn't an envelope, as long as its requests
    succeed. -/
theorem body_setAside {arrival : Arrival Msg} {error : String}
    (hread : transport.read arrival.message = .error error) :
    ∃ copy : Stored, ∃ acknowledgement settlement done,
      (jetStream Msg transport).body arrival =
        .call (.stream (.publish copy.subject copy.headers copy.data)) acknowledgement ∧
      acknowledgement (.ok ()) = .call (.stream .acknowledgement) settlement ∧
      settlement (.ok ()) = .call (.settle .term) done := by
  have hbody : (jetStream Msg transport).body arrival =
      transport.setAside arrival.endpoint.name error arrival.message >>= fun _ => return () :=
    Arrival.handle_of_error hread
  rw [hbody]
  exact ⟨⟨errorSubject transport.subjectPrefix arrival.endpoint.name,
    setAsideHeaders arrival.endpoint.name error arrival.message, arrival.message.payload⟩,
    _, _, _, rfl, rfl, rfl⟩

/-- An instance that gets a message which isn't an envelope can settle it. -/
theorem exists_settled {s : System.State Nat (WireOp Msg) (WireRet Msg) (Arrival Msg) (JetStream Msg)}
    (h : (jetStream Msg transport).Reach Empty (fun _ _ => True) s) (i : Nat)
    (arrival : Arrival Msg) {error : String} {sh : JetStream Msg} (hp : s.procs i = none)
    (hlaunch : (jetStream Msg transport).launch i arrival s.shared sh)
    (hread : transport.read arrival.message = .error error) :
    ∃ s', (jetStream Msg transport).Reach Empty (fun _ _ => True) s' ∧
      s'.shared.settled arrival.endpoint.name arrival.sequence = true := by
  obtain ⟨copy, acknowledgement, settlement, done, hpublish, hack, hsettle⟩ := body_setAside hread
  have hhistory : sh.history i = some (arrival, []) := by
    obtain ⟨_, _, _, rfl⟩ := hlaunch
    exact Function.update_self ..
  have h1 := h.launch i arrival hp hlaunch trivial
  rw [hpublish] at h1
  have h2 := h1.exec i (.stream (.publish _ _ _)) (.ok ()) (Function.update_self ..)
    ⟨{ sh with stream := sh.stream ++ [copy] }, Or.inl (Or.inl rfl), rfl⟩ trivial
  rw [hack] at h2
  have hasked : Asked (log { sh with stream := sh.stream ++ [copy] } i
      ⟨.stream (.publish copy.subject copy.headers copy.data), .ok ()⟩) i copy := by
    have hkept : JetStream.history { sh with stream := sh.stream ++ [copy] } i =
        some (arrival, []) := hhistory
    refine ⟨arrival, [], .ok (), ?_⟩
    rw [history_log hkept, Function.update_self]
  have h3 := h2.exec i (.stream .acknowledgement) (.ok ()) (Function.update_self ..)
    ⟨_, ⟨copy, hasked, Or.inr rfl, fun _ => Or.inl (List.mem_append_right _ List.mem_cons_self)⟩,
      rfl⟩ trivial
  rw [hsettle] at h3
  have h4 := h3.exec i (.settle .term) (.ok ()) (Function.update_self ..) ⟨_, Or.inl rfl, rfl⟩
    trivial
  exact ⟨_, h4, if_pos ⟨rfl, rfl⟩⟩

/-- A message without headers, as another client may publish it. -/
def blank : Stored := ⟨"messages.orders.order_shipped.v1", .new, []⟩

def blankArrival : Arrival Unit where
  endpoint := ⟨"billing", .default, .plain "billing" []⟩
  source := billing
  sequence := 0
  message := ⟨none, [], .ok 1⟩

/-- A transport whose client leaves header values as they are. -/
def messages : NatsTransport := ⟨"messages", .rfc9562, id, "invalid header value", id⟩

end JetStream

end SisaMessaging.Nats
