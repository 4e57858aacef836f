/-
  Setting an endpoint up: its handlers, its inbox and its retry policy, in any order.

  A handler added before the inbox runs with its transaction set aside (`withoutTransaction`).
  `Alike` relates programs that differ only in the transaction they show a handler; `handle_alike`
  says the two ways to run a handler are alike, dropped transactions included. `setup_order`:
  two setups by the same calls build endpoints that handle every delivery alike.
-/
import SisaMessaging.Runtime.Endpoint
import Mathlib.Data.List.Nodup
import Mathlib.Data.List.Perm.Basic
import Mathlib.Data.String.Basic

namespace SisaMessaging.Runtime

open SisaMessaging.Core SisaMessaging.Lib
open SisaMessaging.Lib.Prog (interpret)

variable {Msg : Type}

/-! ## Programs that differ in what handlers see -/

/-- The context without its transaction. -/
def HandlerContext.unseen {T : Type} (context : HandlerContext T) : HandlerContext Unit :=
  (context.withTransaction ()).1

/-- The programs perform the same operations, but may show the handler of the envelope different
    transactions. -/
inductive Alike {α : Type} (envelope : Envelope) : Handling Msg α → Handling Msg α → Prop where
  | ret (a : α) : Alike envelope (.ret a) (.ret a)
  | call (op : Op Msg) {next next' : Ret Msg op → Handling Msg α} :
      (∀ reply, Alike envelope (next reply) (next' reply)) →
        Alike envelope (.call op next) (.call op next')
  | handle (message : Msg) {c d : HandlerContext (Option Transaction)}
      {next next' : List Encoded × Ended → Handling Msg α} : c.unseen = d.unseen →
      c.envelope = envelope → (∀ reply, Alike envelope (next reply) (next' reply)) →
        Alike envelope (.call (.handle message c) next) (.call (.handle message d) next')

namespace Alike

variable {α β : Type} {envelope : Envelope}

theorem refl (p : Handling Msg α) : Alike envelope p p := by
  induction p with
  | ret a => exact .ret a
  | call op next ih => exact .call op ih

theorem bind {p q : Handling Msg α} {f g : α → Handling Msg β} (h : Alike envelope p q)
    (hfg : ∀ a, Alike envelope (f a) (g a)) : Alike envelope (p >>= f) (q >>= g) := by
  induction h with
  | ret a => exact hfg a
  | call op _ ih => exact .call op ih
  | handle message hsame henvelope _ ih => exact .handle message hsame henvelope ih

theorem symm {p q : Handling Msg α} (h : Alike envelope p q) : Alike envelope q p := by
  induction h with
  | ret a => exact .ret a
  | call op _ ih => exact .call op ih
  | handle message hsame henvelope _ ih =>
    exact .handle message hsame.symm
      ((congrArg HandlerContext.envelope hsame).symm.trans henvelope) ih

end Alike

/-- The operation without the transaction that a handler sees. -/
def hide : Op Msg → Op Msg
  | .handle message context => .handle message (context.unseen.withTransaction none).1
  | op => op

/-- The envelope's handler doesn't use its transaction. -/
def Blind {S : Type} (answer : (op : Op Msg) → S → Ret Msg op × S) (envelope : Envelope) : Prop :=
  ∀ message c d s, c.unseen = d.unseen → c.envelope = envelope →
    answer (.handle message c) s = answer (.handle message d) s

/-- Whatever answers them, the programs end alike, in the same state, and perform the same operations
    in the same order. Where `moved`, the envelope's handler has to leave its transaction alone. -/
def Same {α : Type} (moved : Prop) (envelope : Envelope) (p q : Handling Msg α) : Prop :=
  ∀ (S : Type) (answer : (op : Op Msg) → S → Ret Msg op × S) (s : S),
    (moved → Blind answer envelope) →
      (interpret answer p s).1 = (interpret answer q s).1 ∧
        (interpret answer p s).2.1 = (interpret answer q s).2.1 ∧
        (interpret answer p s).2.2.map hide = (interpret answer q s).2.2.map hide

namespace Same

variable {α β : Type} {moved : Prop} {envelope : Envelope}

theorem refl (p : Handling Msg α) : Same moved envelope p p := fun _ _ _ _ => ⟨rfl, rfl, rfl⟩

theorem bind {p q : Handling Msg α} (h : Same moved envelope p q) (f : α → Handling Msg β) :
    Same moved envelope (p >>= f) (q >>= f) := by
  intro S answer s hblind
  obtain ⟨hresult, hstate, hops⟩ := h S answer s hblind
  rw [Prog.interpret_bind p f rfl, Prog.interpret_bind q f rfl, hresult, hstate, List.map_append,
    List.map_append, hops]
  exact ⟨rfl, rfl, rfl⟩

end Same

theorem Alike.same {α : Type} {moved : Prop} {envelope : Envelope} {p q : Handling Msg α}
    (hmoved : moved) (h : Alike envelope p q) : Same moved envelope p q := by
  intro S answer s hblind
  induction h generalizing s with
  | ret a => exact ⟨rfl, rfl, rfl⟩
  | call op _ ih =>
    obtain ⟨hresult, hstate, hops⟩ := ih (answer op s).1 (answer op s).2
    exact ⟨hresult, hstate, congrArg (hide op :: ·) hops⟩
  | @handle message c d next next' hsame henvelope _ ih =>
    have hreply := hblind hmoved message c d s hsame henvelope
    obtain ⟨hresult, hstate, hops⟩ :=
      ih (answer (.handle message c) s).1 (answer (.handle message c) s).2
    have hhide : hide (.handle message c) = hide (.handle message d) := by
      rw [hide, hide, hsame]
    simp only [Prog.interpret, ← hreply]
    refine ⟨hresult, hstate, ?_⟩
    rw [List.map_cons, List.map_cons, hhide, hops]

/-! ## The two ways to run a handler -/

/-- The handler itself. -/
def ErasedHandler.inner : ErasedHandler Msg → Typed Msg
  | typed handler => handler
  | withoutTransaction handler => handler

/-- A handler with its transaction set aside ends as it does with it. -/
theorem handle_typed_alike (typed : Typed Msg) (context : HandlerContext Transaction) :
    Alike context.envelope (ErasedHandler.handle context (.typed typed))
      (ErasedHandler.handle context (.withoutTransaction typed)) := by
  have henvelope : (context.withTransaction ()).1.envelope = context.envelope := rfl
  simp only [ErasedHandler.handle, Typed.handle, Typed.decodeAndHandle, henvelope]
  split
  · exact .refl _
  · split
    · exact .refl _
    · exact .refl _
    · rename_i message _
      refine .handle message rfl rfl fun reply => ?_
      obtain ⟨published, ended⟩ := reply
      cases ended <;> exact .refl _

theorem handle_alike {handler other : ErasedHandler Msg} (h : handler.inner = other.inner)
    (context : HandlerContext Transaction) :
    Alike context.envelope (handler.handle context) (other.handle context) := by
  cases handler <;> cases other <;> cases h
  · exact .refl _
  · exact handle_typed_alike _ context
  · exact (handle_typed_alike _ context).symm
  · exact .refl _

theorem runRecorded_alike {handler other : ErasedHandler Msg} (h : handler.inner = other.inner)
    (outbox : HandlerOutbox) (context : HandlerContext Transaction) :
    Alike context.envelope (runRecorded handler outbox context)
      (runRecorded other outbox context) :=
  ((handle_alike h context).bind fun _ => .refl _).bind fun _ => .refl _

/-- Endpoints with an inbox whose handlers for each type are the same ones. -/
theorem pipeline_alike {handlers others : Handlers Msg}
    (h : ∀ messageType, (handlers.lookup messageType).map ErasedHandler.inner =
      (others.lookup messageType).map ErasedHandler.inner)
    (endpoint : String) (outbox : HandlerOutbox) (context : HandlerContext Unit) :
    Alike context.envelope (Pipeline.run context (.transactional endpoint handlers outbox))
      (Pipeline.run context (.transactional endpoint others outbox)) := by
  have htype := h context.envelope.messageType
  simp only [Pipeline.run, find]
  cases hfound : handlers.lookup context.envelope.messageType with
  | none =>
    rw [hfound, Option.map_none, eq_comm, Option.map_eq_none_iff] at htype
    rw [htype]
    exact .refl _
  | some handler =>
    rw [hfound, Option.map_some, eq_comm, Option.map_eq_some_iff] at htype
    obtain ⟨other, hother, hinner⟩ := htype
    rw [hother]
    refine .call .begin fun begun => ?_
    cases begun with
    | error error => exact .refl _
    | ok transaction =>
      refine .call (.record transaction endpoint context.envelope) fun recorded => ?_
      cases recorded with
      | error error => exact .refl _
      | ok isNew =>
        cases isNew with
        | false => exact .refl _
        | true => exact runRecorded_alike hinner.symm outbox (context.withTransaction transaction).1

/-! ## Building an endpoint -/

/-- Why a bus couldn't start. -/
inductive StartError where
  /-- The source, or a handled message's type, isn't valid. -/
  | envelope (error : EnvelopeError)
  /-- Two endpoints have the same name. -/
  | duplicateEndpoint (name : String)
  /-- An endpoint has two handlers for one message type. -/
  | duplicateHandler (endpoint messageType : String)
  /-- An endpoint with an inbox was added before the outbox. -/
  | inboxBeforeOutbox (name : String)
  /-- The outbox's settings can't run. -/
  | dispatchSettings (reason : String)
  /-- The transport couldn't subscribe an endpoint. -/
  | subscribe (endpoint : String) (source : TransportError)

/-- `NoInbox`, or an inbox store. -/
inductive EndpointInbox where
  | noInbox | store

/-- `TRANSACTIONAL`. -/
def EndpointInbox.transactional : EndpointInbox → Bool
  | noInbox => false
  | store => true

/-- The handlers that an endpoint takes: the ones that see its transaction, and with an inbox the ones
    added before it too. -/
abbrev EndpointInbox.Handler (Msg : Type) : EndpointInbox → Type
  | noInbox => Typed Msg
  | store => ErasedHandler Msg

/-- A handler as `handle` adds it. -/
def EndpointInbox.erase : (inbox : EndpointInbox) → Typed Msg → inbox.Handler Msg
  | noInbox, handler => handler
  | store, handler => .typed handler

structure EndpointBuilder (Msg : Type) (inbox : EndpointInbox) where
  name : String
  retry : RetryPolicy
  handlers : List (Except EnvelopeError MessageType × inbox.Handler Msg)

/-- An endpoint, with the types it subscribes to. -/
structure BuiltEndpoint (Msg : Type) extends Endpoint Msg where
  messageTypes : List MessageType
  transactional : Bool

namespace EndpointBuilder

variable {inbox : EndpointInbox}

def new (name : String) : EndpointBuilder Msg .noInbox := ⟨name, .default, []⟩

/-- `inbox(store)`: the handlers so far run without the transaction. -/
def withInbox (builder : EndpointBuilder Msg .noInbox) : EndpointBuilder Msg .store where
  name := builder.name
  retry := builder.retry
  handlers := builder.handlers.map fun (messageType, handler) =>
    (messageType, .withoutTransaction handler)

/-- `handle`, for the `TYPE` of the handler's message. -/
def handle (builder : EndpointBuilder Msg inbox) (type : String) (handler : Typed Msg) :
    EndpointBuilder Msg inbox :=
  { builder with
    handlers := builder.handlers ++ [(MessageType.new type, inbox.erase handler)] }

def withRetry (builder : EndpointBuilder Msg inbox) (policy : RetryPolicy) :
    EndpointBuilder Msg inbox := { builder with retry := policy }

/-- The loop of `build`: the handlers by message type. -/
def collect {H : Type} (name : String) :
    List (Except EnvelopeError MessageType × H) → List (MessageType × H) →
      Except StartError (List (MessageType × H))
  | [], handlers => .ok handlers
  | (.error error, _) :: _, _ => .error (.envelope error)
  | (.ok messageType, handler) :: added, handlers =>
    if (handlers.lookup messageType).isSome then
      .error (.duplicateHandler name messageType.value)
    else collect name added (handlers ++ [(messageType, handler)])

/-- The keys of the map, in order. -/
def keys {H : Type} (handlers : List (MessageType × H)) : List MessageType :=
  (handlers.map Prod.fst).mergeSort fun a b => decide (a.value ≤ b.value)

/-- `InboxPipeline::pipeline`. -/
def pipeline (name : String) (outbox : HandlerOutbox) :
    (inbox : EndpointInbox) → List (MessageType × inbox.Handler Msg) → Pipeline Msg
  | .noInbox, handlers =>
    .plain name (handlers.map fun (messageType, handler) => (messageType, .typed handler))
  | .store, handlers => .transactional name handlers outbox

/-- The endpoint with its handlers by message type, for a bus with `outbox`. -/
def build (outbox : HandlerOutbox) :
    {inbox : EndpointInbox} → EndpointBuilder Msg inbox → Except StartError (BuiltEndpoint Msg)
  | inbox, builder =>
    match collect builder.name builder.handlers [] with
    | .error error => .error error
    | .ok handlers => .ok {
        name := builder.name
        retry := builder.retry
        pipeline := pipeline builder.name outbox inbox handlers
        messageTypes := keys handlers
        transactional := inbox.transactional }

/-! ## Any order of the setup -/

/-- A call between `endpoint` and `build`, other than `inbox`. -/
inductive Step (Msg : Type) where
  | handle (type : String) (handler : Typed Msg)
  | retry (policy : RetryPolicy)

/-- The handler it adds, with its message type. -/
def Step.added : Step Msg → Option (Except EnvelopeError MessageType × Typed Msg)
  | handle type handler => some (MessageType.new type, handler)
  | retry _ => none

/-- The policy it sets. -/
def Step.policy : Step Msg → Option RetryPolicy
  | handle _ _ => none
  | retry policy => some policy

def apply (builder : EndpointBuilder Msg inbox) : Step Msg → EndpointBuilder Msg inbox
  | .handle type handler => builder.handle type handler
  | .retry policy => builder.withRetry policy

def applyAll (builder : EndpointBuilder Msg inbox) (steps : List (Step Msg)) :
    EndpointBuilder Msg inbox := steps.foldl apply builder

/-- An endpoint with an inbox, set between the calls `before` and `after`. -/
def configured (name : String) (before after : List (Step Msg)) : EndpointBuilder Msg .store :=
  ((new name).applyAll before).withInbox.applyAll after

theorem applyAll_eq (builder : EndpointBuilder Msg inbox) (steps : List (Step Msg)) :
    builder.applyAll steps = {
      name := builder.name
      retry := (steps.filterMap Step.policy).getLast?.getD builder.retry
      handlers := builder.handlers ++
        (steps.filterMap Step.added).map (Prod.map id inbox.erase) } := by
  induction steps generalizing builder with
  | nil => simp [applyAll]
  | cons step steps ih =>
    have hstep : builder.applyAll (step :: steps) = (builder.apply step).applyAll steps := rfl
    rw [hstep, ih]
    cases step with
    | handle type handler => simp [apply, EndpointBuilder.handle, Step.policy, Step.added]
    | retry policy =>
      have hadded : (Step.retry policy :: steps).filterMap Step.added =
        steps.filterMap Step.added := List.filterMap_cons_none rfl
      simp [hadded, apply, withRetry, Step.policy, List.getLast?_cons]

theorem configured_eq (name : String) (before after : List (Step Msg)) :
    configured name before after = {
      name
      retry := ((before ++ after).filterMap Step.policy).getLast?.getD .default
      handlers := (before.filterMap Step.added).map (Prod.map id .withoutTransaction) ++
        (after.filterMap Step.added).map (Prod.map id .typed) } := by
  rw [configured, applyAll_eq, applyAll_eq]
  simp only [withInbox, new, List.nil_append, List.map_map, List.filterMap_append,
    List.getLast?_append, EndpointBuilder.mk.injEq, true_and]
  constructor
  · cases (after.filterMap Step.policy).getLast? <;> rfl
  · rfl

/-! ## The handlers by type -/

theorem map_eq_ok {ε α β : Type} {f : α → β} {x : Except ε α} {b : β} :
    x.map f = .ok b ↔ ∃ a, x = .ok a ∧ f a = b := by
  cases x <;> simp [Except.map]

theorem map_eq_error {ε α β : Type} {f : α → β} {x : Except ε α} {error : ε} :
    x.map f = .error error ↔ x = .error error := by
  cases x <;> simp [Except.map]

/-- A handler whose type was checked. -/
def checked {H : Type} (handler : MessageType × H) : Except EnvelopeError MessageType × H :=
  (.ok handler.1, handler.2)

theorem checked_injective {H : Type} :
    Function.Injective (checked : MessageType × H → Except EnvelopeError MessageType × H) := by
  rintro ⟨messageType, handler⟩ ⟨messageType', handler'⟩ h
  cases h
  rfl

theorem isSome_lookup {H : Type} {handlers : List (MessageType × H)} {messageType : MessageType} :
    (handlers.lookup messageType).isSome ↔ messageType ∈ handlers.map Prod.fst := by
  rw [List.lookup_isSome_iff, List.mem_map]
  exact exists_congr fun entry => and_congr_right fun _ => by rw [beq_iff_eq, eq_comm]

theorem mem_of_lookup {H : Type} {handlers : List (MessageType × H)} {messageType : MessageType}
    {handler : H} (h : handlers.lookup messageType = some handler) :
    (messageType, handler) ∈ handlers := by
  obtain ⟨first, rest, rfl, -⟩ := List.lookup_eq_some_iff.mp h
  exact List.mem_append_right first List.mem_cons_self

/-- The endpoint builds exactly if every type is well formed and no two are the same. -/
theorem collect_eq_ok {H : Type} {name : String} {handlers result : List (MessageType × H)}
    {added : List (Except EnvelopeError MessageType × H)}
    (hd : (handlers.map Prod.fst).Nodup) : collect name added handlers = .ok result ↔
      result.map checked = handlers.map checked ++ added ∧ (result.map Prod.fst).Nodup := by
  induction added generalizing handlers with
  | nil =>
    rw [collect, Except.ok.injEq, List.append_nil, List.map_inj_right fun _ _ => @checked_injective H _ _]
    constructor
    · rintro rfl
      exact ⟨rfl, hd⟩
    · exact fun h => h.1.symm
  | cons entry added ih =>
    obtain ⟨messageType, handler⟩ := entry
    cases messageType with
    | error error =>
      refine ⟨fun h => (nomatch h), fun h => ?_⟩
      have hmem : (Except.error error, handler) ∈ result.map checked := by simp [h.1]
      simp [checked] at hmem
    | ok messageType =>
      have happend : handlers.map checked ++ (Except.ok messageType, handler) :: added =
          (handlers ++ [(messageType, handler)]).map checked ++ added := by simp [checked]
      have hkeys : (handlers ++ [(messageType, handler)]).map Prod.fst =
          handlers.map Prod.fst ++ [messageType] := by simp
      rw [happend, collect]
      split
      · rename_i hfound
        refine ⟨fun h => (nomatch h), fun ⟨heq, hnodup⟩ => ?_⟩
        rw [isSome_lookup] at hfound
        obtain ⟨more, rfl⟩ : ∃ more, result = handlers ++ [(messageType, handler)] ++ more := by
          rw [List.map_eq_append_iff] at heq
          obtain ⟨first, more, rfl, hfirst, -⟩ := heq
          exact ⟨more, congrArg (· ++ more) (List.map_injective_iff.mpr checked_injective hfirst)⟩
        rw [List.map_append, hkeys, List.append_assoc, List.nodup_append] at hnodup
        exact absurd rfl (hnodup.2.2 _ hfound _ (by simp))
      · rename_i hfound
        rw [isSome_lookup] at hfound
        refine ih ?_
        rw [hkeys, ← List.concat_eq_append]
        exact List.Nodup.concat hfound hd

theorem collect_eq_ok_nil {H : Type} {name : String} {result : List (MessageType × H)}
    {added : List (Except EnvelopeError MessageType × H)} : collect name added [] = .ok result ↔
      result.map checked = added ∧ (result.map Prod.fst).Nodup :=
  @collect_eq_ok H name [] result added List.nodup_nil

/-- Handlers added in another order build too. -/
theorem collect_perm {H : Type} {name : String} {result : List (MessageType × H)}
    {added added' : List (Except EnvelopeError MessageType × H)}
    (h : collect name added [] = .ok result) (hperm : added.Perm added') :
    ∃ result', collect name added' [] = .ok result' ∧ result.Perm result' := by
  obtain ⟨rfl, hnodup⟩ := collect_eq_ok_nil.mp h
  have hcomp := congrFun (congrFun (List.eq_map_comp_perm checked) added') result
  obtain ⟨result', rfl, hresult⟩ := (iff_of_eq hcomp).mpr hperm.symm
  refine ⟨result', collect_eq_ok_nil.mpr ⟨rfl, ?_⟩, hresult.symm⟩
  exact (hresult.map Prod.fst).nodup_iff.mpr hnodup

/-- Building looks at the types only. -/
theorem collect_map {H K : Type} (f : H → K) (name : String)
    (added : List (Except EnvelopeError MessageType × H)) (handlers : List (MessageType × H)) :
    collect name (added.map (Prod.map id f)) (handlers.map (Prod.map id f)) =
      (collect name added handlers).map (List.map (Prod.map id f)) := by
  induction added generalizing handlers with
  | nil => rfl
  | cons entry added ih =>
    obtain ⟨messageType, handler⟩ := entry
    cases messageType with
    | error error => rfl
    | ok messageType =>
      have hkeys : (handlers.map (Prod.map id f)).map Prod.fst = handlers.map Prod.fst := by
        rw [List.map_map]
        rfl
      have hfound : ((handlers.map (Prod.map id f)).lookup messageType).isSome =
          (handlers.lookup messageType).isSome := by
        rw [Bool.eq_iff_iff, isSome_lookup, isSome_lookup, hkeys]
      simp only [List.map_cons, Prod.map, id, collect] at ih ⊢
      rw [hfound]
      split
      · rfl
      · simpa using ih (handlers ++ [(messageType, handler)])

theorem lookup_perm {H : Type} {handlers others : List (MessageType × H)}
    (hd : (handlers.map Prod.fst).Nodup) (h : handlers.Perm others) (messageType : MessageType) :
    handlers.lookup messageType = others.lookup messageType := by
  have hkeys := h.map Prod.fst
  cases hfound : others.lookup messageType with
  | some handler => exact TreeMap.lookup_of_mem hd (h.mem_iff.mpr (mem_of_lookup hfound))
  | none =>
    refine TreeMap.lookup_eq_none fun hmem => ?_
    rw [hkeys.mem_iff, ← isSome_lookup, hfound] at hmem
    cases hmem

theorem lookup_map {H K : Type} (f : H → K) (handlers : List (MessageType × H))
    (messageType : MessageType) : (handlers.map (Prod.map id f)).lookup messageType =
      (handlers.lookup messageType).map f := by
  induction handlers with
  | nil => rfl
  | cons entry handlers ih =>
    have hkey : (Prod.map id f entry).1 = entry.1 := rfl
    rw [List.map_cons, List.lookup_cons, List.lookup_cons, ih, hkey]
    cases messageType == entry.1 <;> rfl

theorem keys_perm {H : Type} {handlers others : List (MessageType × H)}
    (h : handlers.Perm others) : keys handlers = keys others := by
  have hsorted (l : List (MessageType × H)) : (keys l).Pairwise fun a b => a.value ≤ b.value := by
    refine (List.pairwise_mergeSort ?_ ?_ _).imp fun h => of_decide_eq_true h
    · intro a b c hab hbc
      simp only [decide_eq_true_eq] at hab hbc ⊢
      exact hab.trans hbc
    · intro a b
      simpa using le_total a.value b.value
  refine List.Perm.eq_of_pairwise ?_ (hsorted handlers) (hsorted others) ?_
  · exact fun a b _ _ hab hba => MessageType.ext (le_antisymm hab hba)
  · exact (List.mergeSort_perm _ _).trans ((h.map _).trans (List.mergeSort_perm _ _).symm)

/-! ## The order of the setup -/

/-- A handler of the type is among the calls. -/
def Adds (steps : List (Step Msg)) (messageType : MessageType) : Prop :=
  ∃ handler, (.ok messageType, handler) ∈ steps.filterMap Step.added

/-- The endpoint's handlers, as the calls gave them. -/
theorem collect_configured (name : String) (before after : List (Step Msg)) :
    (collect name (configured name before after).handlers []).map
        (List.map (Prod.map id ErasedHandler.inner)) =
      collect name ((before ++ after).filterMap Step.added) [] := by
  have hinner : (configured name before after).handlers.map (Prod.map id ErasedHandler.inner) =
      (before ++ after).filterMap Step.added := by
    rw [configured_eq, List.map_append, List.map_map, List.map_map, List.filterMap_append]
    exact congrArg₂ (· ++ ·) (List.map_id _) (List.map_id _)
  rw [← hinner]
  exact (collect_map ErasedHandler.inner name _ []).symm

theorem collect_moved {name : String} {before after before' after' : List (Step Msg)}
    {handlers : Handlers Msg} (hsteps : (before ++ after).Perm (before' ++ after'))
    (h : collect name (configured name before after).handlers [] = .ok handlers) :
    ∃ others, collect name (configured name before' after').handlers [] = .ok others ∧
      (handlers.map (Prod.map id ErasedHandler.inner)).Perm
        (others.map (Prod.map id ErasedHandler.inner)) := by
  have hplain := collect_configured name before after
  rw [h] at hplain
  obtain ⟨_, hcollect, hperm⟩ := collect_perm hplain.symm (hsteps.filterMap Step.added)
  rw [← collect_configured, map_eq_ok] at hcollect
  obtain ⟨others, hothers, rfl⟩ := hcollect
  exact ⟨others, hothers, hperm⟩

theorem collect_configured_eq_error {name : String} {before after : List (Step Msg)}
    {error : StartError} : collect name (configured name before after).handlers [] = .error error ↔
      collect name ((before ++ after).filterMap Step.added) [] = .error error := by
  rw [← collect_configured, map_eq_error]

/-- A handler runs without its transaction exactly if it was added before the inbox. -/
theorem erased_configured {name : String} {before after : List (Step Msg)} {handlers : Handlers Msg}
    (h : collect name (configured name before after).handlers [] = .ok handlers)
    {messageType : MessageType} {handler : ErasedHandler Msg}
    (hfound : handlers.lookup messageType = some handler) :
    (Adds before messageType ∧ handler = .withoutTransaction handler.inner) ∨
      (¬ Adds before messageType ∧ handler = .typed handler.inner) := by
  obtain ⟨hchecked, hnodup⟩ := collect_eq_ok_nil.mp h
  rw [configured_eq] at hchecked
  have hmem : (.ok messageType, handler) ∈ handlers.map checked :=
    List.mem_map.mpr ⟨_, mem_of_lookup hfound, rfl⟩
  rw [hchecked, List.mem_append] at hmem
  rcases hmem with hmem | hmem
  · obtain ⟨⟨_, typed⟩, hadded, heq⟩ := List.mem_map.mp hmem
    cases heq
    exact .inl ⟨⟨typed, hadded⟩, rfl⟩
  · obtain ⟨⟨_, typed⟩, hadded, heq⟩ := List.mem_map.mp hmem
    cases heq
    refine .inr ⟨fun ⟨other, hother⟩ => ?_, rfl⟩
    have hboth : (.ok messageType, .withoutTransaction other) ∈ handlers.map checked := by
      rw [hchecked, List.mem_append]
      exact .inl (List.mem_map.mpr ⟨_, hother, rfl⟩)
    obtain ⟨⟨_, _⟩, hentry, heq⟩ := List.mem_map.mp hboth
    cases heq
    rw [TreeMap.lookup_of_mem hnodup hentry] at hfound
    cases hfound

/-- A handler of the type is on one side of the inbox in one setup, and on the other in the other. -/
def Moved (before before' : List (Step Msg)) (messageType : MessageType) : Prop :=
  ¬ (Adds before messageType ↔ Adds before' messageType)

theorem pipeline_same {name : String} {before after before' after' : List (Step Msg)}
    {handlers others : Handlers Msg}
    (h : collect name (configured name before after).handlers [] = .ok handlers)
    (h' : collect name (configured name before' after').handlers [] = .ok others)
    (hperm : (handlers.map (Prod.map id ErasedHandler.inner)).Perm
      (others.map (Prod.map id ErasedHandler.inner)))
    (outbox : HandlerOutbox) (context : HandlerContext Unit) :
    Same (Moved before before' context.envelope.messageType) context.envelope
      (Pipeline.run context (.transactional name handlers outbox))
      (Pipeline.run context (.transactional name others outbox)) := by
  have hplain := collect_configured name before after
  rw [h] at hplain
  have hnodup := (collect_eq_ok_nil.mp hplain.symm).2
  have hinner (messageType : MessageType) := lookup_perm hnodup hperm messageType
  simp only [lookup_map] at hinner
  by_cases hmoved : Moved before before' context.envelope.messageType
  · exact (pipeline_alike hinner name outbox context).same hmoved
  · -- On one side of the inbox in both setups, so it is the same handler.
    have hsame : handlers.lookup context.envelope.messageType =
        others.lookup context.envelope.messageType := by
      have htype := hinner context.envelope.messageType
      cases hfound : handlers.lookup context.envelope.messageType with
      | none =>
        rw [hfound, Option.map_none, eq_comm, Option.map_eq_none_iff] at htype
        exact htype.symm
      | some handler =>
        rw [hfound, Option.map_some, eq_comm, Option.map_eq_some_iff] at htype
        obtain ⟨other, hother, hinner⟩ := htype
        rw [hother, Option.some.injEq]
        rw [Moved, not_not] at hmoved
        obtain ⟨hadds, heq⟩ | ⟨hadds, heq⟩ := erased_configured h hfound
        · obtain ⟨-, heq'⟩ | ⟨hadds', -⟩ := erased_configured h' hother
          · rw [heq, heq', hinner]
          · exact absurd (hmoved.mp hadds) hadds'
        · obtain ⟨hadds', -⟩ | ⟨-, heq'⟩ := erased_configured h' hother
          · exact absurd (hmoved.mpr hadds') hadds
          · rw [heq, heq', hinner]
    have hrun : Pipeline.run context (.transactional name handlers outbox) =
        Pipeline.run context (.transactional name others outbox) := by
      simp only [Pipeline.run, find, hsame]
    rw [hrun]
    exact .refl _

/-- The endpoints have one name, one policy and one subscription, and handle every delivery alike,
    whatever the store, the outbox and the broker do. -/
structure SameEndpoint (moved : MessageType → Prop) (endpoint other : BuiltEndpoint Msg) : Prop where
  name : endpoint.name = other.name
  retry : endpoint.retry = other.retry
  messageTypes : endpoint.messageTypes = other.messageTypes
  transactional : endpoint.transactional = other.transactional
  run : ∀ context, Same (moved context.envelope.messageType) context.envelope
    (endpoint.pipeline.run context) (other.pipeline.run context)
  process : ∀ source delivery, Same (moved delivery.envelope.messageType) delivery.envelope
    (endpoint.process source delivery) (other.process source delivery)

/-- The policy that was set last. -/
def policyInEffect (steps : List (Step Msg)) : RetryPolicy :=
  (steps.filterMap Step.policy).getLast?.getD .default

/-- An endpoint with an inbox. -/
def built (name : String) (policy : RetryPolicy) (outbox : HandlerOutbox) (handlers : Handlers Msg) :
    BuiltEndpoint Msg where
  name
  retry := policy
  pipeline := .transactional name handlers outbox
  messageTypes := keys handlers
  transactional := true

theorem build_configured (outbox : HandlerOutbox) (name : String) (before after : List (Step Msg)) :
    (configured name before after).build outbox =
      (collect name (configured name before after).handlers []).map
        (built name (policyInEffect (before ++ after)) outbox) := by
  have hname : (configured name before after).name = name := by rw [configured_eq]
  have hretry : (configured name before after).retry = policyInEffect (before ++ after) := by
    rw [configured_eq]
    rfl
  rw [build, hname, hretry]
  cases collect name (configured name before after).handlers [] <;> rfl

/-- An endpoint settles a delivery by its name and its policy. -/
theorem process_same {moved : Prop} {name : String} {policy : RetryPolicy} {p q : Pipeline Msg}
    {source : Source} {delivery : Delivery}
    (h : Same moved delivery.envelope
      (p.run (.new source name delivery.envelope delivery.attempt))
      (q.run (.new source name delivery.envelope delivery.attempt))) :
    Same moved delivery.envelope (Endpoint.process ⟨name, policy, p⟩ source delivery)
      (Endpoint.process ⟨name, policy, q⟩ source delivery) := by
  have hgiveUp (error : HandlerError) : Endpoint.giveUp ⟨name, policy, p⟩ delivery error =
      Endpoint.giveUp ⟨name, policy, q⟩ delivery error := by
    refine congrArg (perform _ >>= ·) (funext fun reply => ?_)
    cases reply <;> rfl
  have hsettle : Endpoint.settle ⟨name, policy, p⟩ delivery =
      Endpoint.settle ⟨name, policy, q⟩ delivery := by
    funext result
    cases result with
    | ok => rfl
    | error failure => cases failure <;> simp only [Endpoint.settle, hgiveUp]
  unfold Endpoint.process Endpoint.handleAndSend
  rw [hsettle]
  exact (h.bind _).bind _

theorem built_same {name : String} {before after before' after' : List (Step Msg)}
    {handlers others : Handlers Msg} (policy : RetryPolicy)
    (h : collect name (configured name before after).handlers [] = .ok handlers)
    (h' : collect name (configured name before' after').handlers [] = .ok others)
    (hperm : (handlers.map (Prod.map id ErasedHandler.inner)).Perm
      (others.map (Prod.map id ErasedHandler.inner))) (outbox : HandlerOutbox) :
    SameEndpoint (Moved before before') (built name policy outbox handlers)
      (built name policy outbox others) where
  name := rfl
  retry := rfl
  messageTypes := by
    have hkeys (handlers : Handlers Msg) :
        keys (handlers.map (Prod.map id ErasedHandler.inner)) = keys handlers := by
      rw [keys, List.map_map]
      rfl
    exact (hkeys handlers).symm.trans ((keys_perm hperm).trans (hkeys others))
  transactional := rfl
  run context := pipeline_same h h' hperm outbox context
  process source delivery := process_same (pipeline_same h h' hperm outbox
    (.new source name delivery.envelope delivery.attempt))

/-- The same calls in another order, with the inbox anywhere between them, set up the same endpoint,
    or fail for the same reason when only the inbox moved. Its policy is the one set last, as without
    an inbox. -/
theorem setup_order (outbox : HandlerOutbox) (name : String)
    {before after before' after' : List (Step Msg)}
    (hsteps : (before ++ after).Perm (before' ++ after'))
    (hpolicies : (before ++ after).filterMap Step.policy =
      (before' ++ after').filterMap Step.policy) :
    (∀ endpoint, (configured name before after).build outbox = .ok endpoint →
      endpoint.retry = policyInEffect (before ++ after) ∧
        ∃ other, (configured name before' after').build outbox = .ok other ∧
          SameEndpoint (Moved before before') endpoint other) ∧
      (before ++ after = before' ++ after' → ∀ error,
        (configured name before after).build outbox = .error error →
          (configured name before' after').build outbox = .error error) ∧
      ∀ endpoint, ((new name).applyAll (before ++ after)).build outbox = .ok endpoint →
        endpoint.retry = policyInEffect (before ++ after) := by
  have hpolicy : policyInEffect (before' ++ after') = policyInEffect (before ++ after) := by
    rw [policyInEffect, policyInEffect, hpolicies]
  refine ⟨fun endpoint h => ?_, fun hsame error h => ?_, fun endpoint h => ?_⟩
  · rw [build_configured, map_eq_ok] at h
    obtain ⟨handlers, hcollect, rfl⟩ := h
    obtain ⟨others, hothers, hperm⟩ := collect_moved hsteps hcollect
    refine ⟨rfl, _, by rw [build_configured, hothers, hpolicy]; rfl, ?_⟩
    exact built_same _ hcollect hothers hperm outbox
  · rw [build_configured, map_eq_error, collect_configured_eq_error] at h ⊢
    rwa [← hsame]
  · rw [applyAll_eq] at h
    rw [build] at h
    split at h
    · cases h
    · cases h
      rfl

/-- Takes shipped orders. -/
def bill : Step Unit := .handle "orders.order_shipped.v1" ⟨fun _ => .returned (.ok ())⟩

/-- Tries twice. -/
def twice : Step Unit := .retry { RetryPolicy.default with attempts := 2 }

theorem setup_order_bill : ∃ endpoint other,
    (configured "billing" [bill, twice] []).build .store = .ok endpoint ∧
      (configured "billing" [twice] [bill]).build .store = .ok other ∧
      endpoint.retry.attempts = 2 ∧ SameEndpoint (Moved [bill, twice] [twice]) endpoint other := by
  have hsteps : ([bill, twice] ++ []).Perm ([twice] ++ [bill]) := .swap twice bill []
  have horder := setup_order .store "billing" hsteps rfl
  obtain ⟨-, other, hother, hsame⟩ := horder.1 _ rfl
  exact ⟨_, other, rfl, hother, rfl, hsame⟩

end EndpointBuilder

end SisaMessaging.Runtime
