/-
  Any setup of a bus, and when it starts.

  `Setup` is any sequence of the builder's calls, typed as the source types them: only a builder
  without an outbox takes one, and only one with an outbox takes its settings.
  `start_allOrNothing`: `start` returns a bus exactly if the setup is `Startable` and every
  subscription was accepted, each endpoint has then one subscription, and on an error there is no
  worker. `start_running`: a bus that started is a state of the runs in which `shutdown` is called.
-/
import SisaMessaging.Lib.Forall2
import SisaMessaging.Runtime.Bus
import SisaMessaging.Runtime.InboxProtocol
import SisaMessaging.Runtime.Shutdown

namespace SisaMessaging.Runtime

open SisaMessaging.Core SisaMessaging.Lib
open SisaMessaging.Postgres.Partitions (Table)
open SisaMessaging.Lib.Prog (After Run)

variable {Msg : Type} {outbox : HandlerOutbox}

/-! ## Any sequence of the builder's calls -/

/-- The calls on an endpoint's builder: handlers and policies, and at most one inbox. -/
inductive Configure (Msg : Type) where
  | noInbox (steps : List (EndpointBuilder.Step Msg))
  | inbox (before after : List (EndpointBuilder.Step Msg))

namespace Configure

/-- The inbox that the endpoint ends up with. -/
def kind : Configure Msg → EndpointInbox
  | noInbox _ => .noInbox
  | inbox _ _ => .store

def apply (builder : EndpointBuilder Msg .noInbox) :
    (configure : Configure Msg) → EndpointBuilder Msg configure.kind
  | noInbox steps => builder.applyAll steps
  | inbox before after => (builder.applyAll before).withInbox.applyAll after

def steps : Configure Msg → List (EndpointBuilder.Step Msg)
  | noInbox steps => steps
  | inbox before after => before ++ after

/-- The `TYPE` of each handler's message. -/
def types (configure : Configure Msg) : List String := configure.steps.filterMap fun
  | .handle type _ => some type
  | .retry _ => none

end Configure

/-- A builder with the calls made so far. -/
inductive Setup (Msg : Type) : HandlerOutbox → Type where
  | new (source : String) : Setup Msg .noOutbox
  | outbox (setup : Setup Msg .noOutbox) : Setup Msg .store
  | dispatch (setup : Setup Msg .store) (settings : DispatchSettings) : Setup Msg .store
  | endpoint {outbox : HandlerOutbox} (setup : Setup Msg outbox) (name : String)
    (configure : Configure Msg) : Setup Msg outbox
  | partitions {outbox : HandlerOutbox} (setup : Setup Msg outbox) (table : Table)
    (mode : PartitionMode) (settings : PartitionSettings) : Setup Msg outbox

/-- An endpoint as it was added. -/
structure AddedEndpoint (Msg : Type) where
  name : String
  configure : Configure Msg
  /-- The outbox came later. -/
  early : Bool

namespace Setup

/-- The builder that the calls make. -/
def builder {outbox : HandlerOutbox} : Setup Msg outbox → BusBuilder Msg outbox
  | new source => .new source
  | .outbox setup => setup.builder.withOutbox
  | dispatch setup settings => setup.builder.withDispatch settings
  | endpoint setup name configure => setup.builder.endpoint name configure.apply
  | partitions setup table mode settings => setup.builder.partitions table mode settings

def source {outbox : HandlerOutbox} : Setup Msg outbox → String
  | new source => source
  | .outbox setup => setup.source
  | dispatch setup _ => setup.source
  | endpoint setup _ _ => setup.source
  | partitions setup _ _ _ => setup.source

/-- The outbox's settings: the ones set last, or the default. -/
def settings {outbox : HandlerOutbox} : Setup Msg outbox → DispatchSettings
  | new _ => .default
  | .outbox setup => setup.settings
  | dispatch _ settings => settings
  | endpoint setup _ _ => setup.settings
  | partitions setup _ _ _ => setup.settings

def endpoints {outbox : HandlerOutbox} : Setup Msg outbox → List (AddedEndpoint Msg)
  | new _ => []
  | .outbox setup => setup.endpoints.map fun added => { added with early := true }
  | dispatch setup _ => setup.endpoints
  | endpoint setup name configure => setup.endpoints ++ [⟨name, configure, false⟩]
  | partitions setup _ _ _ => setup.endpoints

end Setup

/-! ## The rules -/

/-- The rules for one endpoint: each handler's message type is valid and its own, and an inbox isn't
    there before the outbox. -/
structure AddedEndpoint.Valid (added : AddedEndpoint Msg) : Prop where
  types : ∀ type ∈ added.configure.types, ∃ messageType, MessageType.new type = .ok messageType
  unique : added.configure.types.Nodup
  inTime : added.early = true → added.configure.kind = .noInbox

/-- What `start` checks. -/
structure Setup.Startable (setup : Setup Msg outbox) : Prop where
  source : ∃ source, Source.new setup.source = .ok source
  batchSize : 0 < setup.settings.batchSize
  lease : 0 < setup.settings.lease.nanos
  pollInterval : 0 < setup.settings.pollInterval.nanos
  names : (setup.endpoints.map AddedEndpoint.name).Nodup
  endpoints : ∀ added ∈ setup.endpoints, added.Valid

/-- What an error says: the rule that the setup breaks, or the subscription that failed. -/
def Setup.Breaks (setup : Setup Msg outbox) (evs : List (StartEvent Msg)) : StartError → Prop
  | .envelope error => Source.new setup.source = .error error ∨
      ∃ added ∈ setup.endpoints, ∃ type ∈ added.configure.types, MessageType.new type = .error error
  | .duplicateEndpoint name => (setup.endpoints.map AddedEndpoint.name).Duplicate name
  | .duplicateHandler name type => ∃ added ∈ setup.endpoints, added.name = name ∧
      added.configure.types.Duplicate type
  | .inboxBeforeOutbox name => ∃ added ∈ setup.endpoints, added.name = name ∧ added.early = true ∧
      added.configure.kind = .store
  | .dispatchSettings reason => setup.settings.invalid = some reason
  | .subscribe name error => ∃ spec, spec.name = name ∧ ⟨.subscribe spec, .error error⟩ ∈ evs

/-- What an endpoint becomes on a bus with the outbox: it is subscribed for the types it has handlers
    for, and with an inbox its handlers publish to the outbox. -/
structure AddedEndpoint.Becomes (added : AddedEndpoint Msg) (outbox : HandlerOutbox)
    (endpoint : BuiltEndpoint Msg) : Prop where
  name : endpoint.spec.name = added.name
  types : (endpoint.spec.messageTypes.map MessageType.value).Perm added.configure.types
  writes : outbox = .store → added.configure.kind = .store → endpoint.toEndpoint.WritesOutbox

/-! ## Building an endpoint -/

namespace EndpointBuilder

variable {H : Type} {name : String} {types : List String}
  {added : List (Except EnvelopeError MessageType × H)} {handlers : List (MessageType × H)}

theorem values_of_new {messageTypes : List MessageType}
    (h : types.map MessageType.new = messageTypes.map .ok) :
    messageTypes.map MessageType.value = types := by
  induction messageTypes generalizing types with
  | nil => exact (List.map_eq_nil_iff.mp h).symm
  | cons messageType messageTypes ih =>
    cases types with
    | nil => cases h
    | cons type types =>
      rw [List.map_cons, List.map_cons, List.cons.injEq] at h
      rw [List.map_cons, ih h.2, MessageType.new_eq_ok h.1]

/-- The handlers that were collected are those of the types, which are valid and differ. -/
theorem collect_types (htypes : added.map Prod.fst = types.map MessageType.new)
    (h : collect name added [] = .ok handlers) :
    (handlers.map Prod.fst).map MessageType.value = types ∧ types.Nodup ∧
      ∀ type ∈ types, ∃ messageType, MessageType.new type = .ok messageType := by
  obtain ⟨rfl, hnodup⟩ := collect_eq_ok_nil.mp h
  have hchecked : (handlers.map checked).map Prod.fst = (handlers.map Prod.fst).map .ok := by
    rw [List.map_map, List.map_map]
    rfl
  obtain rfl := values_of_new (htypes.symm.trans hchecked)
  refine ⟨rfl, hnodup.map fun _ _ => MessageType.ext, fun type hmem => ?_⟩
  obtain ⟨messageType, -, rfl⟩ := List.mem_map.mp hmem
  exact ⟨messageType, MessageType.new_value messageType⟩

/-- A type that isn't valid, or the second handler of one. -/
theorem collect_eq_error {error : StartError}
    (htypes : added.map Prod.fst = types.map MessageType.new)
    (h : collect name added handlers = .error error) :
    (∃ type ∈ types, ∃ error', MessageType.new type = .error error' ∧
        error = .envelope error') ∨
      ∃ type, error = .duplicateHandler name type ∧
        ((handlers.map Prod.fst).map MessageType.value ++ types).Duplicate type := by
  induction added generalizing handlers types with
  | nil => cases h
  | cons entry added ih =>
    obtain ⟨messageType, handler⟩ := entry
    cases types with
    | nil => cases htypes
    | cons type types =>
      rw [List.map_cons, List.map_cons, List.cons.injEq] at htypes
      obtain ⟨htype, htypes⟩ := htypes
      cases messageType with
      | error error' =>
        cases h
        exact .inl ⟨type, List.mem_cons_self, error', htype.symm, rfl⟩
      | ok messageType =>
        have hvalue : messageType.value = type := MessageType.new_eq_ok htype.symm
        rw [collect] at h
        split at h
        · rename_i hfound
          cases h
          refine .inr ⟨_, rfl, ?_⟩
          have hbefore : [messageType.value].Sublist
              ((handlers.map Prod.fst).map MessageType.value) :=
            List.singleton_sublist.mpr (List.mem_map_of_mem (isSome_lookup.mp hfound))
          have hhere : [messageType.value].Sublist (type :: types) :=
            List.singleton_sublist.mpr (hvalue ▸ List.mem_cons_self)
          exact List.duplicate_iff_sublist.mpr (hbefore.append hhere)
        · rcases ih htypes h with ⟨other, hmem, hother⟩ | ⟨other, hother, htwice⟩
          · exact .inl ⟨other, List.mem_cons_of_mem _ hmem, hother⟩
          · refine .inr ⟨other, hother, ?_⟩
            rw [List.map_append, List.map_append, List.map_singleton, List.map_singleton, hvalue,
              List.append_assoc] at htwice
            exact htwice

end EndpointBuilder

namespace Configure

open EndpointBuilder (applyAll_eq configured_eq)

theorem fst_added (steps : List (EndpointBuilder.Step Msg)) :
    (steps.filterMap EndpointBuilder.Step.added).map Prod.fst =
      (noInbox steps).types.map MessageType.new := by
  rw [types, List.map_filterMap, List.map_filterMap]
  congr 1
  funext step
  cases step <;> rfl

theorem apply_name (configure : Configure Msg) (name : String) :
    (configure.apply (.new name)).name = name := by
  cases configure with
  | noInbox steps =>
    rw [apply, applyAll_eq]
    rfl
  | inbox before after => exact congrArg EndpointBuilder.name (configured_eq name before after)

theorem apply_types (configure : Configure Msg) (name : String) :
    (configure.apply (.new name)).handlers.map Prod.fst = configure.types.map MessageType.new := by
  have hfst {H : Type} (f : Typed Msg → H)
      (added : List (Except EnvelopeError MessageType × Typed Msg)) :
      (added.map (Prod.map id f)).map Prod.fst = added.map Prod.fst := by
    rw [List.map_map]
    rfl
  cases configure with
  | noInbox steps =>
    rw [← fst_added, apply, applyAll_eq]
    exact hfst _ _
  | inbox before after =>
    have htypes : (inbox before after).types = (noInbox (before ++ after)).types := rfl
    have hhandlers := congrArg EndpointBuilder.handlers (configured_eq name before after)
    rw [htypes, ← fst_added, List.filterMap_append, List.map_append]
    refine (congrArg (List.map Prod.fst) hhandlers).trans ?_
    rw [List.map_append, hfst, hfst]

end Configure

theorem EndpointInbox.eq_store {inbox : EndpointInbox} (h : inbox.transactional = true) :
    inbox = .store := by
  cases inbox with
  | store => rfl
  | noInbox => cases h

theorem EndpointInbox.eq_noInbox {inbox : EndpointInbox} (h : inbox.transactional = false) :
    inbox = .noInbox := by
  cases inbox with
  | noInbox => rfl
  | store => cases h

namespace AddedEndpoint

variable {added : AddedEndpoint Msg}

/-- The endpoint, built for a bus with `outbox`. -/
def built (outbox : HandlerOutbox) (added : AddedEndpoint Msg) :
    Except StartError (BuiltEndpoint Msg) :=
  (added.configure.apply (.new added.name)).build outbox

/-- What a builder that has `outbox` by now keeps of it. -/
def entry (outbox : HandlerOutbox) (added : AddedEndpoint Msg) :
    String × Except StartError (BuiltEndpoint Msg) :=
  if added.early then BusBuilder.refuseInbox (added.name, added.built .noOutbox)
  else (added.name, added.built outbox)

theorem built_eq (outbox : HandlerOutbox) (added : AddedEndpoint Msg) :
    added.built outbox =
      (EndpointBuilder.collect added.name (added.configure.apply (.new added.name)).handlers []).map
        fun handlers => {
          name := added.name
          retry := (added.configure.apply (.new added.name)).retry
          pipeline := EndpointBuilder.pipeline added.name outbox added.configure.kind handlers
          messageTypes := EndpointBuilder.keys handlers
          transactional := added.configure.kind.transactional } := by
  rw [built, EndpointBuilder.build, added.configure.apply_name added.name]
  cases EndpointBuilder.collect added.name
    (added.configure.apply (.new added.name)).handlers [] <;> rfl

theorem built_ok {endpoint : BuiltEndpoint Msg} (h : added.built outbox = .ok endpoint) :
    (added.configure.types.Nodup ∧
      ∀ type ∈ added.configure.types, ∃ messageType, MessageType.new type = .ok messageType) ∧
      endpoint.transactional = added.configure.kind.transactional ∧
      added.Becomes outbox endpoint := by
  rw [built_eq, EndpointBuilder.map_eq_ok] at h
  obtain ⟨handlers, hcollect, rfl⟩ := h
  obtain ⟨hvalues, hnodup, hvalid⟩ :=
    EndpointBuilder.collect_types (added.configure.apply_types added.name) hcollect
  refine ⟨⟨hnodup, hvalid⟩, rfl, rfl, ?_, fun houtbox hkind => ?_⟩
  · rw [← hvalues]
    exact (List.mergeSort_perm _ _).map MessageType.value
  · subst houtbox
    obtain ⟨name, configure, early⟩ := added
    cases configure with
    | noInbox steps => cases hkind
    | inbox before after => exact writesOutbox name _ handlers

theorem built_error {error : StartError} (h : added.built outbox = .error error) :
    (∃ type ∈ added.configure.types, ∃ error', MessageType.new type = .error error' ∧
        error = .envelope error') ∨
      ∃ type, error = .duplicateHandler added.name type ∧ added.configure.types.Duplicate type := by
  rw [built_eq, EndpointBuilder.map_eq_error] at h
  exact EndpointBuilder.collect_eq_error (added.configure.apply_types added.name) h

/-- An endpoint that is there before the outbox is kept, unless it was built with an inbox. -/
theorem refuseInbox_cases (name : String) (built : Except StartError (BuiltEndpoint Msg)) :
    (∃ endpoint, built = .ok endpoint ∧ endpoint.transactional = true ∧
        BusBuilder.refuseInbox (name, built) = (name, .error (.inboxBeforeOutbox name))) ∨
      (BusBuilder.refuseInbox (name, built) = (name, built) ∧
        ∀ endpoint, built = .ok endpoint → endpoint.transactional = false) := by
  cases built with
  | error error => exact .inr ⟨rfl, nofun⟩
  | ok endpoint =>
    rw [BusBuilder.refuseInbox]
    cases htransactional : endpoint.transactional with
    | true => exact .inl ⟨endpoint, rfl, htransactional, rfl⟩
    | false =>
      refine .inr ⟨rfl, fun other heq => ?_⟩
      cases heq
      exact htransactional

theorem fst_entry (outbox : HandlerOutbox) (added : AddedEndpoint Msg) :
    (added.entry outbox).1 = added.name := by
  rw [entry]
  split
  · obtain ⟨-, -, -, hrefused⟩ | ⟨hkept, -⟩ := refuseInbox_cases added.name (added.built .noOutbox)
    · rw [hrefused]
    · rw [hkept]
  · rfl

theorem entry_ok {endpoint : BuiltEndpoint Msg} (h : (added.entry outbox).2 = .ok endpoint) :
    added.Valid ∧ added.Becomes outbox endpoint := by
  rw [entry] at h
  split at h
  · obtain ⟨-, -, -, hrefused⟩ | ⟨hkept, hplain⟩ :=
      refuseInbox_cases added.name (added.built .noOutbox)
    · rw [hrefused] at h
      cases h
    · rw [hkept] at h
      obtain ⟨⟨hunique, htypes⟩, htransactional, hbecomes⟩ := built_ok h
      have hkind := EndpointInbox.eq_noInbox (htransactional.symm.trans (hplain endpoint h))
      refine ⟨⟨htypes, hunique, fun _ => hkind⟩, hbecomes.name, hbecomes.types, fun _ hstore => ?_⟩
      cases hkind.symm.trans hstore
  · rename_i hearly
    obtain ⟨⟨hunique, htypes⟩, -, hbecomes⟩ := built_ok h
    exact ⟨⟨htypes, hunique, fun h => absurd h hearly⟩, hbecomes⟩

theorem entry_error {error : StartError} (h : (added.entry outbox).2 = .error error) :
    added.built .noOutbox = .error error ∨ added.built outbox = .error error ∨
      error = .inboxBeforeOutbox added.name ∧ added.early = true ∧ added.configure.kind = .store := by
  rw [entry] at h
  split at h
  · rename_i hearly
    obtain ⟨endpoint, hbuilt, htransactional, hrefused⟩ | ⟨hkept, -⟩ :=
      refuseInbox_cases added.name (added.built .noOutbox)
    · rw [hrefused] at h
      cases h
      obtain ⟨-, hkind, -⟩ := built_ok hbuilt
      exact .inr (.inr ⟨rfl, hearly, EndpointInbox.eq_store (hkind.symm.trans htransactional)⟩)
    · rw [hkept] at h
      exact .inl h
  · exact .inr (.inl h)

end AddedEndpoint

namespace Setup

theorem builder_source (setup : Setup Msg outbox) : setup.builder.source = setup.source := by
  induction setup with
  | new source => rfl
  | outbox setup ih => exact ih
  | dispatch setup settings ih => exact ih
  | endpoint setup name configure ih => exact ih
  | partitions setup table mode settings ih => cases mode <;> exact ih

theorem builder_dispatch (setup : Setup Msg outbox) : setup.builder.dispatch = setup.settings := by
  induction setup with
  | new source => rfl
  | outbox setup ih => exact ih
  | dispatch setup settings ih => rfl
  | endpoint setup name configure ih => exact ih
  | partitions setup table mode settings ih => cases mode <;> exact ih

/-- Without an outbox no endpoint is early. -/
theorem late (setup : Setup Msg outbox) (hnone : outbox = .noOutbox) :
    ∀ added ∈ setup.endpoints, added.early = false := by
  induction setup with
  | new source => exact nofun
  | outbox setup ih => cases hnone
  | dispatch setup settings ih => cases hnone
  | endpoint setup name configure ih =>
    intro added hmem
    rcases List.mem_append.mp hmem with hmem | hmem
    · exact ih hnone added hmem
    · rw [List.mem_singleton.mp hmem]
  | partitions setup table mode settings ih => exact ih hnone

theorem builder_endpoints (setup : Setup Msg outbox) :
    setup.builder.endpoints = setup.endpoints.map (AddedEndpoint.entry outbox) := by
  induction setup with
  | new source => rfl
  | outbox setup ih =>
    rw [builder, BusBuilder.withOutbox, endpoints, ih, List.map_map, List.map_map]
    refine List.map_congr_left fun added hmem => ?_
    have hlate : added.entry .noOutbox = (added.name, added.built .noOutbox) :=
      if_neg (by rw [setup.late rfl added hmem]; exact Bool.false_ne_true)
    exact congrArg BusBuilder.refuseInbox hlate
  | dispatch setup settings ih => exact ih
  | endpoint setup name configure ih =>
    rw [builder, BusBuilder.endpoint, endpoints, ih, List.map_append, configure.apply_name]
    rfl
  | partitions setup table mode settings ih => cases mode <;> exact ih

end Setup

/-! ## All or nothing -/

theorem DispatchSettings.invalid_eq_none {settings : DispatchSettings} :
    settings.invalid = none ↔
      0 < settings.batchSize ∧ 0 < settings.lease.nanos ∧ 0 < settings.pollInterval.nanos := by
  simp only [invalid, Duration.isZero, Nat.pos_iff_ne_zero, ne_eq]
  by_cases hbatch : settings.batchSize = 0
  · simp [hbatch]
  by_cases hlease : settings.lease.nanos = 0
  · simp [hbatch, hlease]
  by_cases hpoll : settings.pollInterval.nanos = 0
  · simp [hbatch, hlease, hpoll]
  · simp [hbatch, hlease, hpoll]

section Start

variable {setup : Setup Msg outbox} {evs : List (StartEvent Msg)}
  {result : Except StartError (Bus Msg)}

theorem Setup.fst_endpoints (setup : Setup Msg outbox) :
    setup.builder.endpoints.map Prod.fst = setup.endpoints.map AddedEndpoint.name := by
  rw [setup.builder_endpoints, List.map_map]
  exact List.map_congr_left fun added _ => added.fst_entry outbox

/-- An error that an endpoint was built with is one of its own. -/
theorem Setup.breaks_of_built {added : AddedEndpoint Msg} (hmem : added ∈ setup.endpoints)
    {outbox' : HandlerOutbox} {error : StartError} (h : added.built outbox' = .error error) :
    setup.Breaks evs error := by
  rcases AddedEndpoint.built_error h with ⟨type, htype, error', hinvalid, rfl⟩ | ⟨type, rfl, htwice⟩
  · exact .inr ⟨added, hmem, type, htype, hinvalid⟩
  · exact ⟨added, hmem, rfl, htwice⟩

/-- An error says which rule the setup breaks, or which subscription failed. -/
theorem start_error {error : StartError} (h : Run setup.builder.start evs (.error error)) :
    setup.Breaks evs error := by
  cases BusBuilder.run_start h with
  | source hsource => exact .inl (setup.builder_source ▸ hsource)
  | dispatch hinvalid =>
    exact (congrArg DispatchSettings.invalid setup.builder_dispatch).symm.trans hinvalid
  | endpoints hcheck =>
    rcases BusBuilder.checkEndpoints_error hcheck with ⟨name, -, rfl, htwice⟩ | ⟨entry, hmem, hentry⟩
    · rw [setup.fst_endpoints] at htwice
      exact htwice.resolve_left List.not_mem_nil
    · rw [setup.builder_endpoints] at hmem
      obtain ⟨added, hadded, rfl⟩ := List.mem_map.mp hmem
      rcases added.entry_error hentry with hbuilt | hbuilt | ⟨rfl, hearly, hkind⟩
      · exact Setup.breaks_of_built hadded hbuilt
      · exact Setup.breaks_of_built hadded hbuilt
      · exact ⟨added, hadded, rfl, hearly, hkind⟩
  | refused subscribed endpoint error =>
    exact ⟨endpoint.spec, rfl, List.mem_append_right _ List.mem_cons_self⟩

/-- A setup that starts keeps the rules, and each endpoint becomes what it has to. -/
theorem start_ok {bus : Bus Msg} (h : Run setup.builder.start evs (.ok bus)) :
    setup.Startable ∧ ∃ subscribed : List (BuiltEndpoint Msg × Deliveries),
      List.Forall₂ (AddedEndpoint.Becomes · outbox) setup.endpoints (subscribed.map Prod.fst) ∧
        bus.workers = setup.builder.workers bus.source subscribed ∧
        evs = subscribed.map .subscribed ++ bus.workers.map .spawned := by
  cases BusBuilder.run_start h with
  | @started source subscribed hsource hinvalid hcheck =>
    obtain ⟨-, hnodup, hbuilt⟩ := BusBuilder.checkEndpoints_ok hcheck
    rw [setup.fst_endpoints] at hnodup
    rw [setup.builder_endpoints, List.map_map] at hbuilt
    have hkept : List.Forall₂ (fun added endpoint => (added.entry outbox).2 = .ok endpoint)
        setup.endpoints (subscribed.map Prod.fst) := by
      rw [← List.forall₂_map_right_iff (f := Except.ok), ← hbuilt, List.forall₂_map_right_iff]
      exact List.forall₂_same.mpr fun _ _ => rfl
    rw [setup.builder_dispatch, DispatchSettings.invalid_eq_none] at hinvalid
    obtain ⟨hbatch, hlease, hpoll⟩ := hinvalid
    refine ⟨⟨⟨source, setup.builder_source ▸ hsource⟩, hbatch, hlease, hpoll, hnodup, ?_⟩, subscribed,
      hkept.imp fun _ _ h => (AddedEndpoint.entry_ok h).2, rfl, rfl⟩
    intro added hmem
    obtain ⟨endpoint, -, hendpoint⟩ := forall₂_mem_left hkept hmem
    exact (AddedEndpoint.entry_ok hendpoint).1

/-- Where the rules are kept, only a subscription can fail. -/
theorem Setup.Startable.refused (h : setup.Startable) {error : StartError}
    (hbreaks : setup.Breaks evs error) :
    ∃ spec error, (⟨.subscribe spec, .error error⟩ : StartEvent Msg) ∈ evs := by
  cases error with
  | envelope error =>
    rcases hbreaks with hinvalid | ⟨added, hmem, type, htype, hinvalid⟩
    · obtain ⟨source, hsource⟩ := h.source
      cases hsource.symm.trans hinvalid
    · obtain ⟨messageType, hvalid⟩ := (h.endpoints added hmem).types type htype
      cases hvalid.symm.trans hinvalid
  | duplicateEndpoint name => exact absurd h.names hbreaks.not_nodup
  | duplicateHandler name type =>
    obtain ⟨added, hmem, -, htwice⟩ := hbreaks
    exact absurd (h.endpoints added hmem).unique htwice.not_nodup
  | inboxBeforeOutbox name =>
    obtain ⟨added, hmem, -, hearly, hkind⟩ := hbreaks
    cases hkind.symm.trans ((h.endpoints added hmem).inTime hearly)
  | dispatchSettings reason =>
    cases (DispatchSettings.invalid_eq_none.mpr ⟨h.batchSize, h.lease, h.pollInterval⟩).symm.trans
      hbreaks
  | subscribe name error =>
    obtain ⟨spec, -, hmem⟩ := hbreaks
    exact ⟨spec, error, hmem⟩

theorem spawned_notMem (worker : Worker Msg) (subscribed : List (BuiltEndpoint Msg × Deliveries)) :
    .spawned worker ∉ subscribed.map StartEvent.subscribed := by
  intro hmem
  obtain ⟨subscription, -, heq⟩ := List.mem_map.mp hmem
  cases heq

theorem start_not_spawned {error : StartError} (h : Run setup.builder.start evs (.error error))
    (worker : Worker Msg) : .spawned worker ∉ evs := by
  intro hmem
  cases BusBuilder.run_start h with
  | source | dispatch | endpoints => cases hmem
  | refused subscribed endpoint error =>
    rcases List.mem_append.mp hmem with hmem | hmem
    · exact spawned_notMem worker subscribed hmem
    · cases List.mem_singleton.mp hmem

/-- Wherever `start` is dropped: no worker was spawned unless every endpoint was subscribed. -/
theorem spawned_subscribed {rest : Starting Msg (Except StartError (Bus Msg))}
    (h : After setup.builder.start evs rest) {worker : Worker Msg} (hmem : .spawned worker ∈ evs) :
    ∃ subscribed : List (BuiltEndpoint Msg × Deliveries),
      List.Forall₂ (AddedEndpoint.Becomes · outbox) setup.endpoints (subscribed.map Prod.fst) ∧
        subscribed.map .subscribed <+: evs := by
  have hreplies (op : StartOp Msg) : Nonempty (StartRet Msg op) := by
    cases op with
    | subscribe spec => exact ⟨.error .closed⟩
    | spawn worker => exact ⟨()⟩
  obtain ⟨more, result, hrun⟩ := h.complete hreplies
  cases result with
  | error error => exact absurd (List.mem_append_left more hmem) (start_not_spawned hrun worker)
  | ok bus =>
    obtain ⟨-, subscribed, hbecomes, -, hevs⟩ := start_ok hrun
    refine ⟨subscribed, hbecomes, ?_⟩
    have hfirst : subscribed.map .subscribed <+: evs ++ more := hevs ▸ List.prefix_append _ _
    refine (List.prefix_or_prefix_of_prefix hfirst (List.prefix_append evs more)).resolve_right ?_
    exact fun hshort => spawned_notMem worker subscribed (hshort.subset hmem)

/-- `start` returns a bus exactly if the setup keeps the rules and no subscription failed. Then each
    endpoint was subscribed once, in order, for the types of its handlers, before the first worker was
    spawned, and no publish of an endpoint with an inbox bypasses the outbox. On an error no worker was
    spawned. -/
theorem start_allOrNothing (h : Run setup.builder.start evs result) :
    ((∃ bus, result = .ok bus) ↔ setup.Startable ∧ ∀ spec reply,
      (⟨.subscribe spec, reply⟩ : StartEvent Msg) ∈ evs → ∃ deliveries, reply = .ok deliveries) ∧
    (∀ bus, result = .ok bus → ∃ subscribed : List (BuiltEndpoint Msg × Deliveries),
      List.Forall₂ (AddedEndpoint.Becomes · outbox) setup.endpoints (subscribed.map Prod.fst) ∧
        bus.workers = setup.builder.workers bus.source subscribed ∧
        evs = subscribed.map .subscribed ++ bus.workers.map .spawned) ∧
    ∀ error, result = .error error → ∀ worker, .spawned worker ∉ evs := by
  refine ⟨⟨?_, fun ⟨hstartable, haccepted⟩ => ?_⟩, ?_, ?_⟩
  · rintro ⟨bus, rfl⟩
    obtain ⟨hstartable, subscribed, -, -, rfl⟩ := start_ok h
    refine ⟨hstartable, fun spec reply hmem => ?_⟩
    rcases List.mem_append.mp hmem with hmem | hmem
    · obtain ⟨⟨endpoint, deliveries⟩, -, heq⟩ := List.mem_map.mp hmem
      cases heq
      exact ⟨deliveries, rfl⟩
    · obtain ⟨worker, -, heq⟩ := List.mem_map.mp hmem
      cases heq
  · cases result with
    | ok bus => exact ⟨bus, rfl⟩
    | error error =>
      obtain ⟨spec, refusal, hmem⟩ := hstartable.refused (start_error h)
      obtain ⟨deliveries, hreply⟩ := haccepted spec _ hmem
      cases hreply
  · rintro bus rfl
    exact (start_ok h).2
  · rintro error rfl
    exact start_not_spawned h

end Start

/-- The endpoint `billing`, with an inbox, on a bus with an outbox. -/
def billingSetup : Setup Unit .store :=
  (Setup.new "/billing").outbox.endpoint "billing" (.inbox [EndpointBuilder.bill] [])

theorem start_allOrNothing_billing : ∃ evs bus, Run billingSetup.builder.start evs (.ok bus) ∧
    bus.workers.length = 2 ∧ billingSetup.Startable := by
  obtain ⟨endpoint, hcheck⟩ : ∃ endpoint,
      BusBuilder.checkEndpoints [] billingSetup.builder.endpoints = .ok [endpoint] := ⟨_, rfl⟩
  have hrun := @BusBuilder.start_run _ _ billingSetup.builder _ [(endpoint, ⟨0⟩)] rfl rfl hcheck
  exact ⟨_, _, hrun, rfl, ((start_allOrNothing hrun).1.mp ⟨_, rfl⟩).1⟩

/-! ## The workers that `shutdown` waits for -/

/-- The worker as a job, with how often its futures are polled and its loop goes around. -/
def Worker.job (uuids : UuidFormat) (debug : String → String) (polls turns : Nat) :
    Worker Msg → BusJob Msg
  | endpoint receiver source _ => .endpoint receiver.toEndpoint source polls turns
  | maintenance table settings => .maintenance table debug settings polls turns
  | dispatcher settings => .dispatcher uuids debug settings polls turns

/-- The jobs are launched one after another, each with its number. -/
theorem launch_jobs (jobs : List (BusJob Msg)) (hworkers : ∀ job ∈ jobs, job.isWorker = true) :
    ∃ s, (bus Msg).Reach BusState.Fresh (fun _ _ => True) s ∧ s.shared.started = false ∧
      s.shared.workers = (List.range jobs.length).reverse ∧ s.shared.handles = s.shared.workers ∧
      ∀ i, s.procs i = jobs[i]?.map fun job => ⟨job, job.body⟩ := by
  induction jobs using List.reverseRecOn with
  | nil =>
    exact ⟨⟨fun _ => none, ⟨0, fun _ => 0, false, [], [], none, none, [], [], [], fun _ => .idle,
      fun _ => false, fun _ => 0⟩⟩, .init ⟨rfl, rfl, rfl, rfl, rfl, rfl, rfl, rfl, rfl⟩, rfl, rfl,
      rfl, fun _ => rfl⟩
  | append_singleton jobs job ih =>
    obtain ⟨s, hreach, hstarted, hspawned, hhandles, hprocs⟩ :=
      ih fun job hmem => hworkers job (List.mem_append_left _ hmem)
    have hfree : s.procs jobs.length = none := by
      rw [hprocs, List.getElem?_eq_none (Nat.le_refl _)]
      rfl
    have hnew : jobs.length ∉ s.shared.workers := by
      rw [hspawned]
      simp
    have hlaunch : (bus Msg).launch jobs.length job s.shared
        (s.shared.spawn jobs.length job.phase) := by
      refine ⟨hnew, ?_⟩
      rw [if_pos (hworkers job (by simp))]
      exact ⟨hstarted, rfl⟩
    refine ⟨_, hreach.launch jobs.length job hfree hlaunch trivial, hstarted, ?_, ?_, fun i => ?_⟩
    · rw [List.length_append, List.length_singleton, List.range_succ, List.reverse_append, ← hspawned]
      rfl
    · exact congrArg (jobs.length :: ·) hhandles
    · dsimp only
      rcases Nat.lt_trichotomy i jobs.length with hi | rfl | hi
      · rw [Function.update_of_ne (Nat.ne_of_lt hi), hprocs, List.getElem?_append_left hi]
      · rw [Function.update_self, List.getElem?_concat_length]
        rfl
      · rw [Function.update_of_ne (Nat.ne_of_gt hi), hprocs, List.getElem?_eq_none hi.le,
          List.getElem?_eq_none (by rw [List.length_append]; exact hi)]

/-- A bus that started is one that `shutdown` is called on: it has the handles of the workers that were
    spawned, last first, and each runs its program. -/
theorem start_running {setup : Setup Msg outbox} {evs : List (StartEvent Msg)} {started : Bus Msg}
    (h : Run setup.builder.start evs (.ok started)) (uuids : UuidFormat) (debug : String → String)
    (polls turns : Nat) :
    (∃ subscribed : List (BuiltEndpoint Msg × Deliveries),
        evs = subscribed.map .subscribed ++ started.workers.map .spawned) ∧
      ∃ s, (bus Msg).Reach BusState.Fresh (fun _ _ => True) s ∧ s.shared.started = true ∧
        s.shared.workers = (List.range started.workers.length).reverse ∧
        s.shared.handles = s.shared.workers ∧
        ∀ i, s.procs i = (started.workers[i]?.map (Worker.job uuids debug polls turns)).map
          fun job => ⟨job, job.body⟩ := by
  obtain ⟨-, subscribed, -, -, hevs⟩ := start_ok h
  refine ⟨⟨subscribed, hevs⟩, ?_⟩
  have hworkers : ∀ job ∈ started.workers.map (Worker.job uuids debug polls turns),
      job.isWorker = true := by
    intro job hmem
    obtain ⟨worker, -, rfl⟩ := List.mem_map.mp hmem
    cases worker <;> rfl
  obtain ⟨s, hreach, -, hspawned, hhandles, hprocs⟩ := launch_jobs _ hworkers
  rw [List.length_map] at hspawned
  refine ⟨_, hreach.env () rfl trivial, rfl, hspawned, hhandles, fun i => ?_⟩
  rw [← List.getElem?_map]
  exact hprocs i

end SisaMessaging.Runtime
