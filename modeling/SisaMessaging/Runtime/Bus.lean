/-
  The bus's builder and its start.

  A builder keeps what the calls so far made, errors of endpoints included. `start` checks, then
  subscribes every endpoint, then spawns the workers. `run_start`: how a start ends, with what it did.
-/
import SisaMessaging.Runtime.Builder
import SisaMessaging.Runtime.Workers
import Mathlib.Data.List.Duplicate

namespace SisaMessaging.Runtime

open SisaMessaging.Core SisaMessaging.Lib
open SisaMessaging.Postgres.Partitions (Table)
open SisaMessaging.Lib.Prog (Run)

variable {Msg : Type} {outbox : HandlerOutbox}

/-! ## The builder -/

/-- The type of its outbox is `NoOutbox`, or the one store that a bus can have, which `insert` writes
    to. -/
structure BusBuilder (Msg : Type) (outbox : HandlerOutbox) where
  source : String
  /-- Built as they are added, with their names; an error is reported by `start`. -/
  endpoints : List (String × Except StartError (BuiltEndpoint Msg))
  maintenance : List (Table × PartitionSettings)
  dispatch : DispatchSettings

/-- Who keeps a table's partitions. -/
inductive PartitionMode where
  | managed | external

namespace BusBuilder

/-- `Bus::builder`. -/
def new (source : String) : BusBuilder Msg .noOutbox := ⟨source, [], [], .default⟩

/-- An endpoint with an inbox that is there before the outbox would bypass it. -/
def refuseInbox (endpoint : String × Except StartError (BuiltEndpoint Msg)) :
    String × Except StartError (BuiltEndpoint Msg) :=
  match endpoint with
  | (name, .ok endpoint) =>
    if endpoint.transactional then (name, .error (.inboxBeforeOutbox name))
    else (name, .ok endpoint)
  | other => other

/-- `outbox(store)`. -/
def withOutbox (builder : BusBuilder Msg .noOutbox) : BusBuilder Msg .store where
  source := builder.source
  endpoints := builder.endpoints.map refuseInbox
  maintenance := builder.maintenance
  dispatch := builder.dispatch

def withDispatch (builder : BusBuilder Msg .store) (settings : DispatchSettings) :
    BusBuilder Msg .store := { builder with dispatch := settings }

def endpoint {inbox : EndpointInbox} (builder : BusBuilder Msg outbox) (name : String)
    (configure : EndpointBuilder Msg .noInbox → EndpointBuilder Msg inbox) :
    BusBuilder Msg outbox :=
  let endpoint := configure (.new name)
  { builder with endpoints := builder.endpoints ++ [(endpoint.name, endpoint.build outbox)] }

/-- `partitions(store, settings)`, with `settings.partitions` as `mode`. -/
def partitions (builder : BusBuilder Msg outbox) (table : Table) (mode : PartitionMode)
    (settings : PartitionSettings) : BusBuilder Msg outbox :=
  match mode with
  | .managed => { builder with maintenance := builder.maintenance ++ [(table, settings)] }
  | .external => builder

end BusBuilder

/-! ## Starting -/

/-- The deliveries of one subscription. -/
structure Deliveries where
  id : Nat

/-- What a transport needs to know to subscribe the endpoint. -/
def BuiltEndpoint.spec (endpoint : BuiltEndpoint Msg) : EndpointSpec :=
  ⟨endpoint.name, endpoint.messageTypes⟩

/-- A task of the bus. -/
inductive Worker (Msg : Type) where
  | endpoint (endpoint : BuiltEndpoint Msg) (source : Source) (deliveries : Deliveries)
  | maintenance (table : Table) (settings : PartitionSettings)
  | dispatcher (settings : DispatchSettings)

/-- What `start` asks of the transport and of the Tokio runtime. -/
inductive StartOp (Msg : Type) where
  | subscribe (spec : EndpointSpec)
  | spawn (worker : Worker Msg)

@[reducible] def StartRet (Msg : Type) : StartOp Msg → Type
  | .subscribe _ => Except TransportError Deliveries
  | .spawn _ => Unit

abbrev Starting (Msg : Type) := Prog (StartOp Msg) (StartRet Msg)

def Starting.perform (op : StartOp Msg) : Starting Msg (StartRet Msg op) := Prog.perform op

abbrev StartEvent (Msg : Type) := Event (StartOp Msg) (StartRet Msg)

/-- What the application holds, with the workers whose handles the bus keeps. -/
structure Bus (Msg : Type) where
  source : Source
  endpoints : List String
  workers : List (Worker Msg)

namespace BusBuilder

/-- The loop over the endpoints, after those with `names`: each has a name of its own and was
    built. -/
def checkEndpoints (names : List String) :
    List (String × Except StartError (BuiltEndpoint Msg)) →
      Except StartError (List (BuiltEndpoint Msg))
  | [] => return []
  | (name, endpoint) :: rest => do
    if name ∈ names then throw (.duplicateEndpoint name)
    else
      let endpoint ← endpoint
      let endpoints ← checkEndpoints (name :: names) rest
      return endpoint :: endpoints

/-- Subscribes the endpoints in order, up to the first that the transport refuses. -/
def subscribeAll : List (BuiltEndpoint Msg) →
    Starting Msg (Except StartError (List (BuiltEndpoint Msg × Deliveries)))
  | [] => return .ok []
  | endpoint :: rest => do
    match ← Starting.perform (.subscribe endpoint.spec) with
    | .error error => return .error (.subscribe endpoint.name error)
    | .ok deliveries =>
      match ← subscribeAll rest with
      | .error error => return .error error
      | .ok subscribed => return .ok ((endpoint, deliveries) :: subscribed)

def spawnAll : List (Worker Msg) → Starting Msg Unit
  | [] => return ()
  | worker :: rest => do
    Starting.perform (.spawn worker)
    spawnAll rest

/-- The dispatcher for this outbox, if it has one. -/
def dispatcher (settings : DispatchSettings) : HandlerOutbox → Option (Worker Msg)
  | .noOutbox => none
  | .store => some (.dispatcher settings)

/-- The worker of each endpoint, of each table that the bus keeps, and of the outbox. -/
def workers (builder : BusBuilder Msg outbox) (source : Source)
    (subscribed : List (BuiltEndpoint Msg × Deliveries)) : List (Worker Msg) :=
  subscribed.map (fun (endpoint, deliveries) => .endpoint endpoint source deliveries) ++
    builder.maintenance.map (fun (table, settings) => .maintenance table settings) ++
    (dispatcher builder.dispatch outbox).toList

def start (builder : BusBuilder Msg outbox) : Starting Msg (Except StartError (Bus Msg)) :=
  match Source.new builder.source with
  | .error error => return .error (.envelope error)
  | .ok source =>
    match builder.dispatch.invalid with
    | some reason => return .error (.dispatchSettings reason)
    | none =>
      match checkEndpoints [] builder.endpoints with
      | .error error => return .error error
      | .ok endpoints => do
        match ← subscribeAll endpoints with
        | .error error => return .error error
        | .ok subscribed =>
          let workers := builder.workers source subscribed
          spawnAll workers
          return .ok {
            source
            endpoints := subscribed.map fun (endpoint, _) => endpoint.name
            workers }

end BusBuilder

/-! ## What a start does -/

/-- The transport accepted the subscription. -/
def StartEvent.subscribed (subscribed : BuiltEndpoint Msg × Deliveries) : StartEvent Msg :=
  ⟨.subscribe subscribed.1.spec, .ok subscribed.2⟩

def StartEvent.spawned (worker : Worker Msg) : StartEvent Msg := ⟨.spawn worker, ()⟩

namespace BusBuilder

theorem run_perform_bind {α : Type} (op : StartOp Msg) (f : StartRet Msg op → Starting Msg α)
    (evs : List (StartEvent Msg)) (a : α) : Run (Starting.perform op >>= f) evs a ↔
      ∃ r rest, evs = ⟨op, r⟩ :: rest ∧ Run (f r) rest a :=
  Prog.run_perform_bind op f evs a

theorem run_subscribeAll {endpoints : List (BuiltEndpoint Msg)} {evs : List (StartEvent Msg)}
    {result : Except StartError (List (BuiltEndpoint Msg × Deliveries))}
    (h : Run (subscribeAll endpoints) evs result) :
    (∃ subscribed, result = .ok subscribed ∧ subscribed.map Prod.fst = endpoints ∧
        evs = subscribed.map .subscribed) ∨
      ∃ (subscribed : List (BuiltEndpoint Msg × Deliveries)) (endpoint : BuiltEndpoint Msg)
        (error : TransportError), result = .error (.subscribe endpoint.name error) ∧
        evs = subscribed.map .subscribed ++ [⟨.subscribe endpoint.spec, .error error⟩] := by
  induction endpoints generalizing evs result with
  | nil =>
    obtain ⟨rfl, rfl⟩ := (Prog.run_pure _ _ _).mp h
    exact .inl ⟨[], rfl, rfl, rfl⟩
  | cons endpoint rest ih =>
    rw [subscribeAll, run_perform_bind] at h
    obtain ⟨reply, evs, rfl, h⟩ := h
    cases reply with
    | error error =>
      obtain ⟨rfl, rfl⟩ := (Prog.run_pure _ _ _).mp h
      exact .inr ⟨[], endpoint, error, rfl, rfl⟩
    | ok deliveries =>
      obtain ⟨first, subscribing, last, rfl, hrest, hend⟩ := (Prog.run_bind _ _ _ _).mp h
      obtain ⟨subscribed, rfl, rfl, rfl⟩ | ⟨subscribed, refused, error, rfl, rfl⟩ := ih hrest
      · dsimp only at hend
        obtain ⟨rfl, rfl⟩ := (Prog.run_pure _ _ _).mp hend
        rw [List.append_nil]
        exact .inl ⟨(endpoint, deliveries) :: subscribed, rfl, rfl, rfl⟩
      · dsimp only at hend
        obtain ⟨rfl, rfl⟩ := (Prog.run_pure _ _ _).mp hend
        rw [List.append_nil]
        exact .inr ⟨(endpoint, deliveries) :: subscribed, refused, error, rfl, rfl⟩

/-- A transport that accepts every subscription. -/
theorem subscribeAll_run (subscribed : List (BuiltEndpoint Msg × Deliveries)) :
    Run (subscribeAll (subscribed.map Prod.fst)) (subscribed.map StartEvent.subscribed)
      (.ok subscribed) := by
  induction subscribed with
  | nil => exact .nil _
  | cons first rest ih =>
    rw [List.map_cons, subscribeAll, run_perform_bind]
    refine ⟨.ok first.2, rest.map .subscribed, rfl, ?_⟩
    exact (Prog.run_bind _ _ _ _).mpr ⟨_, .ok rest, [], (List.append_nil _).symm, ih, .nil _⟩

theorem run_spawnAll {workers : List (Worker Msg)} {evs : List (StartEvent Msg)} :
    Run (spawnAll workers) evs () ↔ evs = workers.map .spawned := by
  induction workers generalizing evs with
  | nil => exact (Prog.run_pure _ _ _).trans (and_iff_left rfl)
  | cons worker rest ih =>
    rw [spawnAll, run_perform_bind, List.map_cons]
    constructor
    · rintro ⟨_, evs, rfl, h⟩
      rw [ih.mp h]
      rfl
    · intro h
      exact ⟨(), rest.map .spawned, h, ih.mpr rfl⟩

theorem checkEndpoints_ok {names : List String} {endpoints : List (BuiltEndpoint Msg)}
    {entries : List (String × Except StartError (BuiltEndpoint Msg))}
    (h : checkEndpoints names entries = .ok endpoints) :
    (∀ name ∈ entries.map Prod.fst, name ∉ names) ∧ (entries.map Prod.fst).Nodup ∧
      entries.map Prod.snd = endpoints.map .ok := by
  induction entries generalizing names endpoints with
  | nil =>
    cases h
    exact ⟨nofun, List.nodup_nil, rfl⟩
  | cons entry rest ih =>
    obtain ⟨name, endpoint⟩ := entry
    rw [checkEndpoints] at h
    split at h
    · cases h
    · rename_i hname
      obtain ⟨built, rfl, hbuilt⟩ := except_bind_eq_ok.mp h
      obtain ⟨more, hrest, hmore⟩ := except_bind_eq_ok.mp hbuilt
      cases hmore
      obtain ⟨hnew, hnodup, hmap⟩ := ih hrest
      refine ⟨?_, List.nodup_cons.mpr ⟨fun hmem => hnew name hmem List.mem_cons_self, hnodup⟩, ?_⟩
      · intro other hmem
        rcases List.mem_cons.mp hmem with rfl | hmem
        · exact hname
        · exact fun hother => hnew other hmem (List.mem_cons_of_mem _ hother)
      · rw [List.map_cons, List.map_cons, hmap]

theorem checkEndpoints_error {names : List String} {error : StartError}
    {entries : List (String × Except StartError (BuiltEndpoint Msg))}
    (h : checkEndpoints names entries = .error error) :
    (∃ name ∈ entries.map Prod.fst, error = .duplicateEndpoint name ∧
        (name ∈ names ∨ (entries.map Prod.fst).Duplicate name)) ∨
      ∃ entry ∈ entries, entry.2 = .error error := by
  induction entries generalizing names with
  | nil => cases h
  | cons entry rest ih =>
    obtain ⟨name, endpoint⟩ := entry
    rw [checkEndpoints] at h
    split at h
    · rename_i hname
      cases h
      exact .inl ⟨name, List.mem_cons_self, rfl, .inl hname⟩
    · rcases except_bind_eq_error.mp h with rfl | ⟨built, rfl, hbuilt⟩
      · exact .inr ⟨_, List.mem_cons_self, rfl⟩
      · rcases except_bind_eq_error.mp hbuilt with hrest | ⟨more, -, hmore⟩
        · rcases ih hrest with ⟨other, hmem, rfl, htwice⟩ | ⟨entry, hmem, hentry⟩
          · refine .inl ⟨other, List.mem_cons_of_mem _ hmem, rfl, ?_⟩
            rcases htwice with htwice | htwice
            · rcases List.mem_cons.mp htwice with rfl | hother
              · exact .inr (List.Mem.duplicate_cons_self hmem)
              · exact .inl hother
            · exact .inr (htwice.duplicate_cons name)
          · exact .inr ⟨entry, List.mem_cons_of_mem _ hmem, hentry⟩
        · cases hmore

/-- How a start ends, with what it did. -/
inductive Starts (builder : BusBuilder Msg outbox) :
    List (StartEvent Msg) → Except StartError (Bus Msg) → Prop where
  | source {error : EnvelopeError} : Source.new builder.source = .error error →
      Starts builder [] (.error (.envelope error))
  | dispatch {reason : String} : builder.dispatch.invalid = some reason →
      Starts builder [] (.error (.dispatchSettings reason))
  | endpoints {error : StartError} : checkEndpoints [] builder.endpoints = .error error →
      Starts builder [] (.error error)
  | refused (subscribed : List (BuiltEndpoint Msg × Deliveries)) (endpoint : BuiltEndpoint Msg)
      (error : TransportError) : Starts builder
        (subscribed.map .subscribed ++ [⟨.subscribe endpoint.spec, .error error⟩])
        (.error (.subscribe endpoint.name error))
  | started {source : Source} (subscribed : List (BuiltEndpoint Msg × Deliveries)) :
      Source.new builder.source = .ok source → builder.dispatch.invalid = none →
      checkEndpoints [] builder.endpoints = .ok (subscribed.map Prod.fst) →
      Starts builder
        (subscribed.map .subscribed ++ (builder.workers source subscribed).map .spawned)
        (.ok ⟨source, subscribed.map fun (endpoint, _) => endpoint.name,
          builder.workers source subscribed⟩)

theorem run_start {builder : BusBuilder Msg outbox} {evs : List (StartEvent Msg)}
    {result : Except StartError (Bus Msg)} (h : Run builder.start evs result) :
    builder.Starts evs result := by
  unfold start at h
  split at h
  · rename_i error hsource
    obtain ⟨rfl, rfl⟩ := (Prog.run_pure _ _ _).mp h
    exact .source hsource
  · rename_i source hsource
    split at h
    · rename_i reason hinvalid
      obtain ⟨rfl, rfl⟩ := (Prog.run_pure _ _ _).mp h
      exact .dispatch hinvalid
    · rename_i hvalid
      split at h
      · rename_i error hcheck
        obtain ⟨rfl, rfl⟩ := (Prog.run_pure _ _ _).mp h
        exact .endpoints hcheck
      · rename_i endpoints hcheck
        obtain ⟨first, subscribing, last, rfl, hsubscribe, hend⟩ := (Prog.run_bind _ _ _ _).mp h
        obtain ⟨subscribed, rfl, rfl, rfl⟩ | ⟨subscribed, refused, error, rfl, rfl⟩ :=
          run_subscribeAll hsubscribe
        · dsimp only at hend
          obtain ⟨spawns, _, rest, rfl, hspawn, hend⟩ := (Prog.run_bind _ _ _ _).mp hend
          obtain ⟨rfl, rfl⟩ := (Prog.run_pure _ _ _).mp hend
          rw [List.append_nil, run_spawnAll.mp hspawn]
          exact .started subscribed hsource hvalid hcheck
        · dsimp only at hend
          obtain ⟨rfl, rfl⟩ := (Prog.run_pure _ _ _).mp hend
          rw [List.append_nil]
          exact .refused subscribed refused error

/-- Where nothing is refused, the bus starts. -/
theorem start_run {builder : BusBuilder Msg outbox} {source : Source}
    {subscribed : List (BuiltEndpoint Msg × Deliveries)}
    (hsource : Source.new builder.source = .ok source) (hvalid : builder.dispatch.invalid = none)
    (hcheck : checkEndpoints [] builder.endpoints = .ok (subscribed.map Prod.fst)) :
    Run builder.start
      (subscribed.map StartEvent.subscribed ++
        (builder.workers source subscribed).map StartEvent.spawned)
      (.ok ⟨source, subscribed.map fun (endpoint, _) => endpoint.name,
        builder.workers source subscribed⟩) := by
  unfold start
  simp only [hsource, hvalid, hcheck]
  refine (Prog.run_bind _ _ _ _).mpr ⟨_, _, _, rfl, subscribeAll_run subscribed, ?_⟩
  exact (Prog.run_bind _ _ _ _).mpr
    ⟨_, (), [], (List.append_nil _).symm, run_spawnAll.mpr rfl, .nil _⟩

end BusBuilder

end SisaMessaging.Runtime
