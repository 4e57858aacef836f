/-
  Buses over the in-memory transport: the workers of any endpoints handle deliveries at once, next
  to publishers, subscriptions and the tasks of retries.

  A worker of the pool is one delivery: it takes a copy from its endpoint's queue, runs
  `Endpoint.process` on it, and may end at any operation, as a task that is dropped does. Every
  operation is at most one call to the transport (`Calls`), so the calls of a run of the pool are a
  run of the transport (`run`), and each settlement is one of a delivery (`made`).

  `placed`: where a copy is and why it left. `requeues_lt`: how often it comes again.
  `conversation`: what led to a message.
-/
import Mathlib.Algebra.BigOperators.Group.Finset.Basic
import SisaMessaging.Runtime.Conversation
import SisaMessaging.Runtime.InMemoryOrder

namespace SisaMessaging.Runtime.InMemory

open SisaMessaging.Core SisaMessaging.Lib
open SisaMessaging.Lib.System (Reach Recorded)

variable {Msg : Type} {checks : Bool}

/-- A copy that a worker of an endpoint took from its queue. -/
structure Taken (Msg : Type) where
  endpoint : Runtime.Endpoint Msg
  source : Source
  copy : Delivery

namespace Taken

def delivery (taken : Taken Msg) : Runtime.Delivery :=
  ⟨taken.copy.envelope.envelope, taken.copy.attempt⟩

def process (taken : Taken Msg) : Handling Msg Unit :=
  taken.endpoint.process taken.source taken.delivery

end Taken

/-- The transport, with what was done to it. -/
structure Bus (Msg : Type) where
  world : World
  /-- Every call, oldest first. -/
  events : List Event
  /-- Who published each message: a delivery, or none for the application. -/
  publishers : List (Option Nat)
  /-- What each delivery did so far, by its number. -/
  history : Nat → Option (Taken Msg × List (HandlingEvent Msg))

namespace Bus

def Empty (bus : Bus Msg) : Prop :=
  bus.world = .new ∧ bus.events = [] ∧ bus.publishers = [] ∧ ∀ i, bus.history i = none

/-- The bus after a call. -/
def after (bus : Bus Msg) (publisher : Option Nat) (event : Option Event) (world : World) :
    Bus Msg :=
  { bus with
    world
    events := bus.events ++ event.toList
    publishers := bus.publishers ++ (event.bind Event.accepted).toList.map fun _ => publisher }

def log (bus : Bus Msg) (i : Nat) (e : HandlingEvent Msg) : Bus Msg :=
  { bus with
    history := Function.update bus.history i
      ((bus.history i).map fun (taken, evs) => (taken, evs ++ [e])) }

/-- The delivery was settled. -/
def Settled (bus : Bus Msg) (i : Nat) : Prop :=
  ∃ taken evs, bus.history i = some (taken, evs) ∧ ∃ e ∈ evs, e.op.settles = true

end Bus

/-- The call that an operation of a delivery makes, if it makes one. Settling always succeeds. -/
def Calls (checks : Bool) (taken : Taken Msg) (world world' : World) (event : Option Event) :
    (op : Op Msg) → Ret Msg op → Prop
  | .publish envelope, result => event = some (.publish envelope result) ∧
    Step checks world (.publish envelope result) world'
  | .publishError endpoint envelope, result => event = some (.publishError endpoint envelope result) ∧
    Step checks world (.publishError endpoint envelope result) world'
  | .ack, result => result = .ok () ∧ event = some (.ack taken.copy) ∧
    Step checks world (.ack taken.copy) world'
  | .retry delay, result => result = .ok () ∧ event = some (.retry taken.copy delay) ∧
    Step checks world (.retry taken.copy delay) world'
  | .reject, result => result = .ok () ∧ event = some (.reject taken.copy) ∧
    Step checks world (.reject taken.copy) world'
  | _, _ => event = none ∧ world' = world

/-- The application's calls, and the end of a retry's delay. -/
def Event.ByOthers : Event → Prop
  | subscribe _ | publish _ _ | failPublishes _ | elapsed _ => True
  | _ => False

/-- Any number of deliveries at once. One that ends before it is settled drops its copy. -/
def inMemoryBus (Msg : Type) (checks : Bool) :
    System Nat (Op Msg) (Ret Msg) (Taken Msg) (Bus Msg) Event where
  body := Taken.process
  launch i taken bus bus' := bus.history i = none ∧ taken.copy.queue = taken.endpoint.name ∧
    ∃ world, Step checks bus.world (.take taken.copy) world ∧
      bus' = { bus.after none (some (.take taken.copy)) world with
        history := Function.update bus.history i (some (taken, [])) }
  exec i taken op reply bus bus' := ∃ event world,
    Calls checks taken bus.world world event op reply ∧
      bus' = (bus.after (some i) event world).log i ⟨op, reply⟩
  leave i taken bus bus' := (bus.Settled i ∧ bus' = bus) ∨
    (¬ bus.Settled i ∧ ∃ world, Step checks bus.world (.drop taken.copy) world ∧
      bus' = bus.after none (some (.drop taken.copy)) world)
  env event bus bus' := event.ByOthers ∧ ∃ world, Step checks bus.world event world ∧
    bus' = bus.after none (some event) world

abbrev BusPool (Msg : Type) := System.State Nat (Op Msg) (Ret Msg) (Taken Msg) (Bus Msg)

/-! ## The calls are a run of the transport -/

section Reached

variable {C : BusPool Msg → System.Label Nat (Op Msg) (Ret Msg) (Taken Msg) Event → Prop}
  {s : BusPool Msg}

theorem Calls.step {taken : Taken Msg} {world world' : World} {event : Option Event} {op : Op Msg}
    {reply : Ret Msg op} (h : Calls checks taken world world' event op reply) :
    (event = none ∧ world' = world) ∨ ∃ e, event = some e ∧ Step checks world e world' := by
  cases op with
  | publish | publishError => exact Or.inr ⟨_, h⟩
  | ack | retry | reject => exact Or.inr ⟨_, h.2⟩
  | handle | begin | record | insert | commit | rollback => exact Or.inl h

theorem run (h : (inMemoryBus Msg checks).Reach Bus.Empty C s) :
    Run checks s.shared.events s.shared.world := by
  induction h with
  | init h =>
    obtain ⟨hw, he, _⟩ := h
    rw [hw, he]
    exact .new
  | step _ hs _ ih =>
    cases hs with
    | launch _ hl =>
      obtain ⟨_, _, world, hstep, rfl⟩ := hl
      exact ih.step hstep
    | exec _ he =>
      obtain ⟨event, world, hc, rfl⟩ := he
      rcases hc.step with ⟨rfl, rfl⟩ | ⟨e, rfl, hstep⟩
      · simpa [Bus.after, Bus.log] using ih
      · exact ih.step hstep
    | leave _ hl =>
      rcases hl with ⟨_, rfl⟩ | ⟨_, world, hstep, rfl⟩
      · exact ih
      · exact ih.step hstep
    | env he =>
      obtain ⟨_, world, hstep, rfl⟩ := he
      exact ih.step hstep

theorem recorded : Recorded (inMemoryBus Msg checks) Bus.history where
  launch := by
    rintro i taken bus bus' ⟨hn, _, world, _, rfl⟩
    exact ⟨hn, rfl⟩
  exec := by
    rintro i taken evs op reply bus bus' hh ⟨event, world, _, rfl⟩
    simp [Bus.log, Bus.after, hh]
  leave := by
    rintro i taken bus bus' (⟨_, rfl⟩ | ⟨_, world, _, rfl⟩)
    · rfl
    · rfl
  env := by
    rintro event bus bus' ⟨_, world, _, rfl⟩
    rfl

/-! ## What a step does -/

/-- The delivery performed the operation. -/
def Bus.Did (bus : Bus Msg) (i : Nat) (taken : Taken Msg) (op : Op Msg) (reply : Ret Msg op) : Prop :=
  ∃ evs, bus.history i = some (taken, evs) ∧ ⟨op, reply⟩ ∈ evs

/-- Settling a copy and sending to an error destination are operations of deliveries. -/
def Event.Made (bus : Bus Msg) : Event → Prop
  | ack copy => ∃ i taken reply, bus.Did i taken .ack reply ∧ taken.copy = copy
  | reject copy => ∃ i taken reply, bus.Did i taken .reject reply ∧ taken.copy = copy
  | retry copy delay => ∃ i taken reply, bus.Did i taken (.retry delay) reply ∧ taken.copy = copy
  | publishError endpoint envelope result =>
    ∃ i taken, bus.Did i taken (.publishError endpoint envelope) result
  | _ => True

/-- What a step does: at most one call, made as its event says, and the histories only grow. -/
structure Called (checks : Bool) (bus bus' : Bus Msg) (publisher : Option Nat)
    (event : Option Event) : Prop where
  events : bus'.events = bus.events ++ event.toList
  publishers : bus'.publishers =
    bus.publishers ++ (event.bind Event.accepted).toList.map fun _ => publisher
  world : (event = none ∧ bus'.world = bus.world) ∨
    ∃ e, event = some e ∧ Step checks bus.world e bus'.world
  made : ∀ e, event = some e → e.Made bus'
  published : ∀ i, publisher = some i → ∀ envelope, event.bind Event.accepted = some envelope →
    ∃ taken done, bus.history i = some (taken, done) ∧
      bus'.Did i taken (.publish envelope) (.ok ())
  kept : ∀ i taken op reply, bus.Did i taken op reply → bus'.Did i taken op reply
  fresh : ∀ i taken op reply, bus'.Did i taken op reply → bus.Did i taken op reply ∨
    Calls checks taken bus.world bus'.world event op reply

/-- A call that no delivery makes. -/
theorem Called.of_others {bus : Bus Msg} {event : Event} {world : World}
    (hstep : Step checks bus.world event world) (hm : ∀ bus : Bus Msg, event.Made bus)
    {history : Nat → Option (Taken Msg × List (HandlingEvent Msg))}
    (hd : ∀ i taken op reply, { bus.after none (some event) world with history }.Did i taken op reply ↔
      bus.Did i taken op reply) :
    Called checks bus { bus.after none (some event) world with history } none (some event) where
  events := rfl
  publishers := rfl
  world := Or.inr ⟨event, rfl, hstep⟩
  made := by
    rintro e he
    cases he
    exact hm _
  published := by
    rintro i hi
    cases hi
  kept := fun i taken op reply => (hd i taken op reply).mpr
  fresh := fun i taken op reply h => Or.inl ((hd i taken op reply).mp h)

theorem Bus.did_log {bus : Bus Msg} {publisher : Option Nat} {event : Option Event} {world : World}
    {i : Nat} {taken : Taken Msg} {done : List (HandlingEvent Msg)} {op : Op Msg}
    {reply : Ret Msg op} (hi : bus.history i = some (taken, done)) :
    ((bus.after publisher event world).log i ⟨op, reply⟩).Did i taken op reply := by
  refine ⟨done ++ [⟨op, reply⟩], ?_, by simp⟩
  simp [log, after, hi]

theorem Bus.did_fresh {bus : Bus Msg} {publisher : Option Nat} {event : Option Event} {world : World}
    {i k : Nat} {e : HandlingEvent Msg} {taken : Taken Msg} {done : List (HandlingEvent Msg)}
    (hi : bus.history i = some (taken, done)) {other : Taken Msg} {op : Op Msg} {reply : Ret Msg op}
    (h : ((bus.after publisher event world).log i e).Did k other op reply) :
    bus.Did k other op reply ∨ (other = taken ∧ ⟨op, reply⟩ = e) := by
  obtain ⟨evs, hk, he⟩ := h
  by_cases hki : k = i
  · subst hki
    simp only [log, after, hi, Option.map_some, Function.update_self, Option.some.injEq,
      Prod.mk.injEq] at hk
    obtain ⟨rfl, rfl⟩ := hk
    rcases List.mem_append.mp he with he | he
    · exact Or.inl ⟨done, hi, he⟩
    · exact Or.inr ⟨rfl, List.mem_singleton.mp he⟩
  · simp only [log, after, Function.update_of_ne hki] at hk
    exact Or.inl ⟨evs, hk, he⟩

theorem Bus.did_kept {bus : Bus Msg} {publisher : Option Nat} {event : Option Event} {world : World}
    {i k : Nat} {e : HandlingEvent Msg} {taken : Taken Msg} {op : Op Msg} {reply : Ret Msg op}
    (h : bus.Did k taken op reply) :
    ((bus.after publisher event world).log i e).Did k taken op reply := by
  obtain ⟨evs, hk, he⟩ := h
  by_cases hki : k = i
  · subst hki
    refine ⟨evs ++ [e], ?_, List.mem_append_left _ he⟩
    simp [log, after, hk]
  · refine ⟨evs, ?_, he⟩
    simp [log, after, hki, hk]

theorem called_exec {bus : Bus Msg} {i : Nat} {taken : Taken Msg}
    {done : List (HandlingEvent Msg)} {op : Op Msg} {reply : Ret Msg op} {event : Option Event}
    {world : World} (hi : bus.history i = some (taken, done))
    (hc : Calls checks taken bus.world world event op reply) :
    Called checks bus ((bus.after (some i) event world).log i ⟨op, reply⟩) (some i) event where
  events := rfl
  publishers := rfl
  world := hc.step
  made := by
    rintro e rfl
    have hdid : ((bus.after (some i) (some e) world).log i ⟨op, reply⟩).Did i taken op reply :=
      Bus.did_log hi
    cases op with
    | publish envelope =>
      cases hc.1
      trivial
    | publishError endpoint envelope =>
      cases hc.1
      exact ⟨i, taken, hdid⟩
    | ack =>
      cases hc.2.1
      exact ⟨i, taken, reply, hdid, rfl⟩
    | retry delay =>
      cases hc.2.1
      exact ⟨i, taken, reply, hdid, rfl⟩
    | reject =>
      cases hc.2.1
      exact ⟨i, taken, reply, hdid, rfl⟩
    | handle | begin | record | insert | commit | rollback => cases hc.1
  published := by
    intro k hk envelope hp
    cases hk
    cases op with
    | publish sent =>
      obtain ⟨rfl, _⟩ := hc
      cases reply with
      | error error => cases hp
      | ok _ =>
        cases hp
        exact ⟨taken, done, hi, Bus.did_log hi⟩
    | publishError endpoint sent =>
      obtain ⟨rfl, _⟩ := hc
      cases hp
    | ack | retry | reject =>
      obtain ⟨_, rfl, _⟩ := hc
      cases hp
    | handle | begin | record | insert | commit | rollback =>
      obtain ⟨rfl, _⟩ := hc
      cases hp
  kept := fun k taken op reply => Bus.did_kept
  fresh := by
    intro k other op' reply' h
    rcases Bus.did_fresh hi h with h | ⟨rfl, he⟩
    · exact Or.inl h
    · cases he
      exact Or.inr hc

theorem step_called (h : (inMemoryBus Msg checks).Reach Bus.Empty C s)
    {l : System.Label Nat (Op Msg) (Ret Msg) (Taken Msg) Event} {s' : BusPool Msg}
    (hs : System.Step (inMemoryBus Msg checks) s l s') :
    ∃ publisher event, Called checks s.shared s'.shared publisher event := by
  cases hs with
  | @launch i taken bus hn hl =>
    obtain ⟨hfree, _, world, hstep, rfl⟩ := hl
    refine ⟨none, _, .of_others hstep (fun _ => trivial) ?_⟩
    intro k other op reply
    unfold Bus.Did
    by_cases hki : k = i
    · subst hki
      simp [hfree]
    · simp [hki]
  | @exec i taken op next reply bus hp he =>
    obtain ⟨event, world, hc, rfl⟩ := he
    obtain ⟨done, hi, _⟩ := (h.recorded recorded (fun _ h0 => h0.2.2.2) i).2 _ hp
    exact ⟨some i, event, called_exec hi hc⟩
  | leave _ hl =>
    rcases hl with ⟨_, rfl⟩ | ⟨_, world, hstep, rfl⟩
    · exact ⟨none, none, by simp, by simp, Or.inl ⟨rfl, rfl⟩, by simp, by simp,
        fun _ _ _ _ h => h, fun _ _ _ _ h => Or.inl h⟩
    · exact ⟨none, _, .of_others hstep (fun _ => trivial) fun _ _ _ _ => Iff.rfl⟩
  | @env event bus he =>
    obtain ⟨hothers, world, hstep, rfl⟩ := he
    refine ⟨none, _, .of_others hstep ?_ fun _ _ _ _ => Iff.rfl⟩
    intro bus
    cases event with
    | subscribe | publish | failPublishes | elapsed => trivial
    | publishError | take | ack | retry | reject | drop => exact hothers.elim

theorem Event.Made.kept {bus bus' : Bus Msg} {event : Event} (h : event.Made bus)
    (hk : ∀ i taken op reply, bus.Did i taken op reply → bus'.Did i taken op reply) :
    event.Made bus' := by
  cases event with
  | ack | reject | retry =>
    obtain ⟨i, taken, reply, hd, he⟩ := h
    exact ⟨i, taken, reply, hk _ _ _ _ hd, he⟩
  | publishError =>
    obtain ⟨i, taken, hd⟩ := h
    exact ⟨i, taken, hk _ _ _ _ hd⟩
  | subscribe | publish | failPublishes | take | drop | elapsed => trivial

/-- Every call so far was made as its event says. -/
theorem made (h : (inMemoryBus Msg checks).Reach Bus.Empty C s) :
    ∀ e ∈ s.shared.events, e.Made s.shared := by
  induction h with
  | init h => simp [h.2.1]
  | step h hs _ ih =>
    obtain ⟨publisher, event, hc⟩ := step_called h hs
    intro e he
    rw [hc.events, List.mem_append, Option.mem_toList] at he
    rcases he with he | he
    · exact (ih e he).kept hc.kept
    · exact hc.made e he

/-! ## The copies in hand -/

/-- The delivery's worker is there and hasn't settled it. -/
def Handling (s : BusPool Msg) (i : Nat) : Prop :=
  (∃ p, s.procs i = some p) ∧ ¬ s.shared.Settled i

/-- What a delivery did so far starts a settlement. -/
theorem settlement (h : (inMemoryBus Msg checks).Reach Bus.Empty C s) {i : Nat} {taken : Taken Msg}
    {evs : List (HandlingEvent Msg)} (hi : s.shared.history i = some (taken, evs)) :
    ∃ more outcome handling sends copies last,
      evs ++ more = handling ++ sends ++ copies ++ [last] ∧
      Settlement taken.endpoint taken.source taken.delivery outcome handling sends copies last := by
  obtain ⟨q, ha⟩ := (h.recorded recorded (fun _ h0 => h0.2.2.2) i).1 _ _ hi
  obtain ⟨more, _, hrun⟩ := ha.complete Ret.nonempty
  exact ⟨more, Endpoint.run_process hrun⟩

/-- A delivery with an operation left hasn't been settled. -/
theorem unsettled_of_call (h : (inMemoryBus Msg checks).Reach Bus.Empty C s) {i : Nat}
    {taken : Taken Msg} {op : Op Msg} {next : Ret Msg op → Runtime.Handling Msg Unit}
    (hp : s.procs i = some ⟨taken, .call op next⟩) : ¬ s.shared.Settled i := by
  rintro ⟨other, evs, hi, e, he, hsettles⟩
  obtain ⟨done, hd, ha⟩ := (h.recorded recorded (fun _ h0 => h0.2.2.2) i).2 _ hp
  rw [hi, Option.some.injEq, Prod.mk.injEq] at hd
  obtain ⟨rfl, rfl⟩ := hd
  obtain ⟨reply⟩ := Ret.nonempty op
  obtain ⟨more, _, hrun⟩ := (ha.snoc reply).complete Ret.nonempty
  obtain ⟨outcome, handling, sends, copies, last, heq, hset⟩ := Endpoint.run_process hrun
  rw [List.append_assoc] at heq
  obtain ⟨hall, _⟩ := hset.settled_last heq he hsettles
  rw [← hall] at heq
  simp at heq

theorem Bus.settled_log {bus : Bus Msg} {publisher : Option Nat} {event : Option Event}
    {world : World} {i k : Nat} {taken : Taken Msg} {done : List (HandlingEvent Msg)}
    {e : HandlingEvent Msg} (hi : bus.history i = some (taken, done)) :
    ((bus.after publisher event world).log i e).Settled k ↔
      bus.Settled k ∨ (k = i ∧ e.op.settles = true) := by
  by_cases hki : k = i
  · subst hki
    simp [Settled, log, after, hi, or_and_right, exists_or]
  · simp [Settled, log, after, hki]

theorem Calls.hands {taken : Taken Msg} {world world' : World} {event : Option Event} {op : Op Msg}
    {reply : Ret Msg op} (h : Calls checks taken world world' event op reply) :
    (op.settles = true ∧ world.hands = taken.copy ::ₘ world'.hands) ∨
      (op.settles = false ∧ world'.hands = world.hands) := by
  cases op with
  | publish | publishError => exact Or.inr ⟨rfl, h.2.hands⟩
  | ack | retry | reject => exact Or.inl ⟨rfl, h.2.2.hands⟩
  | handle | begin | record | insert | commit | rollback =>
    exact Or.inr ⟨rfl, congrArg World.hands h.2⟩

/-- The copy that a delivery took. -/
def Bus.copy (bus : Bus Msg) (i : Nat) : Option Delivery := (bus.history i).map (·.1.copy)

/-- The deliveries being handled, whose copies are the ones in hand. -/
structure Busy (s : BusPool Msg) (busy : Multiset Nat) : Prop where
  nodup : busy.Nodup
  mem : ∀ i, i ∈ busy ↔ Handling s i
  hands : s.shared.world.hands = busy.filterMap s.shared.copy

/-- The same deliveries are being handled. -/
theorem Busy.same {s s' : BusPool Msg} {busy : Multiset Nat} (h : Busy s busy)
    (hm : ∀ i, Handling s' i ↔ Handling s i) (hc : s'.shared.copy = s.shared.copy)
    (hh : s'.shared.world.hands = s.shared.world.hands) : Busy s' busy where
  nodup := h.nodup
  mem i := (h.mem i).trans (hm i).symm
  hands := by rw [hh, hc, h.hands]

/-- One of them no longer is. -/
theorem Busy.done {s s' : BusPool Msg} {busy : Multiset Nat} {i : Nat} {copy : Delivery}
    (h : Busy s busy) (hi : Handling s i) (hcopy : s.shared.copy i = some copy)
    (hm : ∀ k, Handling s' k ↔ Handling s k ∧ k ≠ i) (hc : s'.shared.copy = s.shared.copy)
    (hh : s.shared.world.hands = copy ::ₘ s'.shared.world.hands) : ∃ busy', Busy s' busy' := by
  obtain ⟨rest, rfl⟩ := Multiset.exists_cons_of_mem ((h.mem i).mpr hi)
  obtain ⟨hnot, hnodup⟩ := Multiset.nodup_cons.mp h.nodup
  refine ⟨rest, hnodup, fun k => ?_, ?_⟩
  · rw [hm, ← h.mem, Multiset.mem_cons]
    constructor
    · intro hk
      refine ⟨Or.inr hk, ?_⟩
      rintro rfl
      exact hnot hk
    · rintro ⟨hk, hne⟩
      exact hk.resolve_left hne
  · have hhands := h.hands
    rw [hh, Multiset.filterMap_cons_some _ _ _ hcopy, Multiset.cons_inj_right] at hhands
    rw [hhands, hc]

theorem filterMap_congr {α β : Type} {f g : α → Option β} {m : Multiset α}
    (h : ∀ a ∈ m, f a = g a) : m.filterMap f = m.filterMap g := by
  induction m using Quotient.inductionOn with
  | h l => exact congrArg (fun l : List β => (l : Multiset β)) (List.filterMap_congr h)

theorem handling_update {s : BusPool Msg} {i : Nat} {p : System.Proc (Op Msg) (Ret Msg) (Taken Msg)}
    (hp : ∃ q, s.procs i = some q) (bus : Bus Msg) (k : Nat) :
    Handling ⟨Function.update s.procs i (some p), bus⟩ k ↔
      (∃ q, s.procs k = some q) ∧ ¬ bus.Settled k := by
  by_cases hki : k = i
  · subst hki
    simp [Handling, hp]
  · simp [Handling, hki]

theorem busy (h : (inMemoryBus Msg checks).Reach Bus.Empty C s) : ∃ busy, Busy s busy := by
  induction h with
  | init h =>
    refine ⟨0, Multiset.nodup_zero, fun i => ?_, ?_⟩
    · simp [Handling]
    · rw [h.1]
      rfl
  | @step s l s' h hs _ ih =>
    obtain ⟨busy, ih⟩ := ih
    cases hs with
    | @launch i taken bus hn hl =>
      obtain ⟨hfree, _, world, hstep, rfl⟩ := hl
      have hnot : i ∉ busy := by
        rw [ih.mem]
        rintro ⟨⟨p, hp⟩, _⟩
        rw [hn] at hp
        cases hp
      refine ⟨i ::ₘ busy, Multiset.nodup_cons.mpr ⟨hnot, ih.nodup⟩, fun k => ?_, ?_⟩
      · rw [Multiset.mem_cons, ih.mem]
        by_cases hki : k = i
        · subst hki
          simp [Handling, Bus.Settled]
        · simp [Handling, Bus.Settled, hki]
      · have hcopy : ∀ k ∈ busy, Bus.copy
            { s.shared.after none (some (.take taken.copy)) world with
              history := Function.update s.shared.history i (some (taken, [])) } k =
            s.shared.copy k := by
          intro k hk
          have hki : k ≠ i := by
            rintro rfl
            exact hnot hk
          simp [Bus.copy, hki]
        rw [Multiset.filterMap_cons_some _ _ _ (by simp [Bus.copy] : _ = some taken.copy),
          filterMap_congr hcopy, ← ih.hands]
        exact hstep.hands
    | @exec i taken op next reply bus hp he =>
      obtain ⟨event, world, hc, rfl⟩ := he
      obtain ⟨done, hi, _⟩ := (h.recorded recorded (fun _ h0 => h0.2.2.2) i).2 _ hp
      have hcopy : ((s.shared.after (some i) event world).log i ⟨op, reply⟩).copy =
          s.shared.copy := by
        funext k
        by_cases hki : k = i
        · subst hki
          simp [Bus.copy, Bus.log, Bus.after, hi]
        · simp [Bus.copy, Bus.log, Bus.after, hki]
      have hm (k : Nat) := handling_update (s := s) (p := ⟨taken, next reply⟩) ⟨_, hp⟩
        ((s.shared.after (some i) event world).log i ⟨op, reply⟩) k
      rcases hc.hands with ⟨hsettles, hh⟩ | ⟨hsettles, hh⟩
      · refine ih.done (i := i) ⟨⟨_, hp⟩, unsettled_of_call h hp⟩ ?_ (fun k => ?_) hcopy hh
        · simp [Bus.copy, hi]
        · rw [hm, Bus.settled_log hi, not_or]
          simp [Handling, hsettles, and_assoc]
      · refine ⟨busy, ih.same (fun k => ?_) hcopy hh⟩
        rw [hm, Bus.settled_log hi]
        simp [Handling, hsettles]
    | @leave i p bus hp hl =>
      have hm : ∀ k, Handling ⟨Function.update s.procs i none, bus⟩ k ↔
          (∃ q, s.procs k = some q) ∧ ¬ bus.Settled k ∧ k ≠ i := by
        intro k
        by_cases hki : k = i
        · subst hki
          simp [Handling]
        · simp [Handling, hki]
      rcases hl with ⟨hsettled, rfl⟩ | ⟨hunsettled, world, hstep, rfl⟩
      · refine ⟨busy, ih.same (fun k => ?_) rfl rfl⟩
        rw [hm]
        constructor
        · exact fun hk => ⟨hk.1, hk.2.1⟩
        · refine fun hk => ⟨hk.1, hk.2, ?_⟩
          rintro rfl
          exact hk.2 hsettled
      · obtain ⟨done, hi, _⟩ := (h.recorded recorded (fun _ h0 => h0.2.2.2) i).2 _ hp
        refine ih.done (i := i) ⟨⟨_, hp⟩, hunsettled⟩ ?_ (fun k => ?_) rfl hstep.hands
        · simp [Bus.copy, hi]
        · rw [hm]
          exact and_assoc.symm
    | @env event bus he =>
      obtain ⟨hothers, world, hstep, rfl⟩ := he
      refine ⟨busy, ih.same (fun k => Iff.rfl) rfl ?_⟩
      have hh := hstep.hands
      cases event with
      | subscribe | publish | failPublishes | elapsed => exact hh
      | publishError | take | ack | retry | reject | drop => exact hothers.elim

/-- Every operation of a delivery so far made its call. -/
theorem did_call (h : (inMemoryBus Msg checks).Reach Bus.Empty C s) {i : Nat} {taken : Taken Msg}
    {op : Op Msg} {reply : Ret Msg op} (hd : s.shared.Did i taken op reply) :
    ∃ world world' event, Calls checks taken world world' event op reply ∧
      ∀ e, event = some e → e ∈ s.shared.events := by
  induction h with
  | init h =>
    obtain ⟨evs, hi, _⟩ := hd
    rw [h.2.2.2] at hi
    cases hi
  | step h hs _ ih =>
    obtain ⟨publisher, event, hc⟩ := step_called h hs
    rcases hc.fresh _ _ _ _ hd with hd | hd
    · obtain ⟨world, world', event, hcall, he⟩ := ih hd
      refine ⟨world, world', event, hcall, fun e heq => ?_⟩
      rw [hc.events]
      exact List.mem_append_left _ (he e heq)
    · refine ⟨_, _, event, hd, ?_⟩
      rintro e rfl
      rw [hc.events]
      exact List.mem_append_right _ (List.mem_singleton.mpr rfl)

/-- A publish that a delivery was told is done is one of the transport's messages. -/
theorem did_publish (h : (inMemoryBus Msg checks).Reach Bus.Empty C s) {i : Nat} {taken : Taken Msg}
    {envelope : Envelope} (hd : s.shared.Did i taken (.publish envelope) (.ok ())) :
    envelope ∈ s.shared.world.state.published := by
  obtain ⟨_, _, event, ⟨rfl, _⟩, he⟩ := did_call h hd
  rw [(run h).follows.1]
  exact List.mem_filterMap.mpr ⟨_, he _ rfl, rfl⟩

/-! ## Error destinations -/

/-- The copy that the event puts into the endpoint's error destination. -/
def Event.errored (name : String) : Event → Option Envelope
  | publishError endpoint envelope (.ok ()) => if endpoint = name then some envelope else none
  | _ => none

theorem Step.errors {world world' : World} {event : Event} (h : Step checks world event world')
    (name : String) :
    world'.state.errors name = world.state.errors name ++ (event.errored name).toList := by
  cases h with
  | subscribe | failPublishes | take | elapsed => exact (List.append_nil _).symm
  | publish envelope =>
    dsimp only
    rw [State.publish]
    split <;> exact (List.append_nil _).symm
  | @publishError state _ _ endpoint envelope =>
    dsimp only
    rw [State.publishError]
    split
    · exact (List.append_nil _).symm
    · by_cases hname : endpoint = name
      · subst hname
        simp [Event.errored]
      · simp [Event.errored, hname, Ne.symm hname]
  | ack | reject =>
    simp only [Delivery.ack, Delivery.reject, Delivery.drop_settle]
    exact (List.append_nil _).symm
  | retry =>
    rw [Delivery.retry]
    split <;>
      · rw [Delivery.drop_settle]
        exact (List.append_nil _).symm
  | drop =>
    rw [Delivery.drop]
    split
    · exact (List.append_nil _).symm
    · split <;> exact (List.append_nil _).symm

theorem Run.errors {events : List Event} {world : World} (h : Run checks events world)
    (name : String) : world.state.errors name = events.filterMap (·.errored name) := by
  induction h with
  | new => rfl
  | @step events event world world' _ hs ih =>
    rw [hs.errors, ih, List.filterMap_append]
    cases he : event.errored name <;> simp [he]

/-! ## Where a copy is -/

/-- Where a copy of an endpoint may be. -/
inductive Place where
  /-- In the endpoint's queue. -/
  | queued
  /-- Waiting out a retry's delay. -/
  | delayed
  | inHand
  | acked
  | rejected
  deriving DecidableEq

instance : Fintype Place where
  elems := {.queued, .delayed, .inHand, .acked, .rejected}
  complete place := by cases place <;> decide

def Place.copies (bus : Bus Msg) (name : String) : Place → Multiset Pending
  | queued => (bus.world.state.endpoints name).pending
  | delayed => bus.world.tasks.filterMap (·.at name)
  | inHand => bus.world.hands.filterMap (·.at name)
  | acked => bus.events.filterMap (·.acked name)
  | rejected => bus.events.filterMap (·.rejected name)

/-- The pending copy is at the place once, and no other copy of the same publish is anywhere. -/
def Place.Holds (place : Place) (bus : Bus Msg) (name : String) (pending : Pending) : Prop :=
  ∀ other : Place, (other.copies bus name).filter
    (fun copy => copy.envelope.number = pending.envelope.number) =
      if other = place then {pending} else 0

theorem sum_copies (bus : Bus Msg) (name : String) (p : Pending → Prop) [DecidablePred p] :
    ∑ place : Place, (place.copies bus name).filter p =
      (InMemory.copies bus.events bus.world name).filter p := by
  have huniv : (Finset.univ : Finset Place) = {.queued, .inHand, .delayed, .acked, .rejected} := by
    decide
  rw [huniv, Finset.sum_insert (by decide), Finset.sum_insert (by decide),
    Finset.sum_insert (by decide), Finset.sum_insert (by decide), Finset.sum_singleton]
  simp only [InMemory.copies, Place.copies, Multiset.filter_add, add_assoc]

/-- A sum of multisets with one element has it in one of them. -/
theorem one_of_sum_eq_singleton {ι α : Type} [Fintype ι] [DecidableEq ι] {f : ι → Multiset α} {a : α}
    (h : ∑ i, f i = {a}) : ∃ i, ∀ j, f j = if j = i then {a} else 0 := by
  have hm : a ∈ ∑ i, f i := by simp [h]
  obtain ⟨i, _, hi⟩ := Multiset.mem_sum.mp hm
  obtain ⟨rest, hrest⟩ := Multiset.exists_cons_of_mem hi
  rw [← Finset.add_sum_erase _ _ (Finset.mem_univ i), hrest, Multiset.cons_add, eq_comm,
    Multiset.singleton_eq_cons_iff] at h
  have hnone : ∀ b, b ∉ rest + ∑ j ∈ Finset.univ.erase i, f j := by
    intro b
    rw [h.2]
    exact Multiset.notMem_zero b
  refine ⟨i, fun j => ?_⟩
  by_cases hj : j = i
  · rw [if_pos hj, hj, hrest, Multiset.eq_zero_of_forall_notMem fun b hb =>
      hnone b (Multiset.mem_add.mpr (.inl hb))]
    rfl
  · rw [if_neg hj]
    refine Multiset.eq_zero_of_forall_notMem fun b hb => hnone b (Multiset.mem_add.mpr (.inr ?_))
    exact Multiset.mem_sum.mpr ⟨j, Finset.mem_erase.mpr ⟨hj, Finset.mem_univ j⟩, hb⟩

theorem holds_one (h : (inMemoryBus Msg checks).Reach Bus.Empty C s) {name : String}
    {envelope : ArcEnvelope} (hsent : Sent s.shared.events name envelope)
    (hfew : requeues s.shared.events name envelope.number + 1 < 2 ^ 32) :
    ∃ place : Place, place.Holds s.shared name
      ⟨envelope, requeues s.shared.events name envelope.number + 1⟩ := by
  have hone := (run h).one_copy hsent hfew
  rw [copiesOf, ← sum_copies] at hone
  exact one_of_sum_eq_singleton hone

/-! ## Why it is there -/

/-- A delivery of the copy was handled: its handler returned, and the transport has every publish
    that was held. -/
def Bus.HandledCopy (bus : Bus Msg) (name : String) (pending : Pending) : Prop :=
  ∃ i taken handling held reply,
    bus.history i = some (taken, handling ++ accepted held ++ [⟨.ack, reply⟩]) ∧
    taken.copy.at name = some pending ∧
    Prog.Run (taken.endpoint.pipeline.run (taken.endpoint.context taken.source taken.delivery))
      handling (.ok held) ∧
    Handled pending.envelope.envelope handling taken.endpoint.pipeline ∧
    ∀ envelope ∈ held, envelope ∈ bus.world.state.published

/-- A delivery of the copy was given up on: no retry could fix its failure, or it was the last
    attempt, and its error copy is in the error destination. -/
def Bus.GaveUp (bus : Bus Msg) (name : String) (pending : Pending) : Prop :=
  ∃ i taken handling outcome sends failure error copy reply,
    bus.history i = some (taken, handling ++ sends ++
      [⟨.publishError name copy, .ok ()⟩] ++ [⟨.reject, reply⟩]) ∧
    taken.copy.at name = some pending ∧
    Prog.Run (taken.endpoint.pipeline.run (taken.endpoint.context taken.source taken.delivery))
      handling outcome ∧
    FailedWith outcome sends failure ∧ taken.endpoint.GivesUpOn taken.delivery error failure ∧
    ErrorCopy name taken.delivery error copy ∧ copy ∈ bus.world.state.errors name

/-- Why a copy is at its place. -/
def Place.Reason (s : BusPool Msg) (name : String) (pending : Pending) : Place → Prop
  | queued | delayed => True
  | inHand => ∃ i copy, Handling s i ∧ s.shared.copy i = some copy ∧ copy.at name = some pending
  | acked => s.shared.HandledCopy name pending
  | rejected => s.shared.GaveUp name pending

/-- A worker takes a copy of its endpoint, of a message that was sent to it. -/
theorem took (h : (inMemoryBus Msg checks).Reach Bus.Empty C s) {i : Nat} {taken : Taken Msg}
    {evs : List (HandlingEvent Msg)} (hi : s.shared.history i = some (taken, evs)) :
    taken.copy.queue = taken.endpoint.name ∧
      Sent s.shared.events taken.endpoint.name taken.copy.envelope := by
  induction h generalizing evs with
  | init h =>
    rw [h.2.2.2] at hi
    cases hi
  | @step s l s' h hs _ ih =>
    obtain ⟨publisher, event, hc⟩ := step_called h hs
    -- What was sent stays sent.
    have hkept : ∀ name envelope, Sent s.shared.events name envelope →
        Sent s'.shared.events name envelope := by
      intro name envelope hsent
      rw [hc.events]
      cases event with
      | none => simpa using hsent
      | some e => exact sent_snoc.mpr (.inl hsent)
    have old : ∀ before, s.shared.history i = some (taken, before) →
        taken.copy.queue = taken.endpoint.name ∧
          Sent s'.shared.events taken.endpoint.name taken.copy.envelope :=
      fun before hb => ⟨(ih hb).1, hkept _ _ (ih hb).2⟩
    cases hs with
    | @launch k other bus hn hl =>
      obtain ⟨hfree, hqueue, world, hstep, rfl⟩ := hl
      by_cases hki : i = k
      · subst hki
        simp only [Function.update_self, Option.some.injEq, Prod.mk.injEq] at hi
        obtain ⟨rfl, _⟩ := hi
        refine ⟨hqueue, hkept _ _ ?_⟩
        generalize hw : s.shared.world = before at hstep
        generalize hcopy : other.copy = copy at hstep hqueue ⊢
        cases hstep with
        | @take state hands tasks name envelope attempt rest hpending =>
          rw [← hqueue]
          refine ((run h).sent name).1 ⟨envelope, attempt⟩ ?_
          rw [hw]
          simp [InMemory.copies, hpending]
      · exact old evs (by simpa [Bus.after, hki] using hi)
    | @exec k other op next reply bus hp he =>
      obtain ⟨event, world, _, rfl⟩ := he
      by_cases hki : i = k
      · subst hki
        simp only [Bus.log, Bus.after, Function.update_self, Option.map_eq_some_iff] at hi
        obtain ⟨⟨other, before⟩, hb, heq⟩ := hi
        cases heq
        exact old before hb
      · exact old evs (by simpa [Bus.log, Bus.after, hki] using hi)
    | leave _ hl =>
      rcases hl with ⟨_, rfl⟩ | ⟨_, world, _, rfl⟩
      · exact old evs hi
      · exact old evs hi
    | env he =>
      obtain ⟨_, world, _, rfl⟩ := he
      exact old evs hi

/-- A delivery that acked was handled. -/
theorem handledCopy (h : (inMemoryBus Msg checks).Reach Bus.Empty C s) {i : Nat} {taken : Taken Msg}
    {reply : Except TransportError Unit} {name : String} {pending : Pending}
    (hd : s.shared.Did i taken .ack reply) (hat : taken.copy.at name = some pending) :
    s.shared.HandledCopy name pending := by
  obtain ⟨evs, hi, he⟩ := hd
  obtain ⟨more, outcome, handling, sends, copies, last, hmore, hs⟩ := settlement h hi
  obtain ⟨rfl, rfl⟩ := hs.settled_last hmore he rfl
  obtain ⟨held, rfl, rfl⟩ := hs.ack.mp rfl
  obtain rfl : copies = [] := hs.noCopy rfl
  rw [List.append_nil] at hi
  obtain ⟨_, rfl⟩ := Delivery.at_eq hat
  refine ⟨i, taken, handling, held, reply, hi, hat, hs.ran, Pipeline.run_ok hs.ran, ?_⟩
  intro envelope hm
  refine @did_publish _ _ _ _ h i taken envelope ⟨_, hi, ?_⟩
  exact List.mem_append_left _ (List.mem_append_right _ (List.mem_map.mpr ⟨envelope, hm, rfl⟩))

/-- A delivery that rejected was given up on. -/
theorem gaveUp (h : (inMemoryBus Msg checks).Reach Bus.Empty C s) {i : Nat} {taken : Taken Msg}
    {reply : Except TransportError Unit} {name : String} {pending : Pending}
    (hd : s.shared.Did i taken .reject reply) (hat : taken.copy.at name = some pending) :
    s.shared.GaveUp name pending := by
  obtain ⟨evs, hi, he⟩ := hd
  obtain ⟨more, outcome, handling, sends, copies, last, hmore, hs⟩ := settlement h hi
  obtain ⟨rfl, rfl⟩ := hs.settled_last hmore he rfl
  obtain ⟨failure, error, hfailed, hgives, copy, hcopy, rfl⟩ := hs.reject.mp rfl
  have hname : taken.endpoint.name = name := by
    rw [← (took h hi).1]
    exact (Delivery.at_eq hat).1
  rw [hname] at hcopy hi
  refine ⟨i, taken, handling, outcome, sends, failure, error, copy, reply, hi, hat, hs.ran, hfailed,
    hgives, hcopy, ?_⟩
  have hsent : s.shared.Did i taken (.publishError name copy) (.ok ()) := ⟨_, hi, by simp⟩
  obtain ⟨_, _, event, ⟨rfl, _⟩, hin⟩ := did_call h hsent
  rw [(run h).errors]
  exact List.mem_filterMap.mpr ⟨_, hin _ rfl, by simp [Event.errored]⟩

theorem reason (h : (inMemoryBus Msg checks).Reach Bus.Empty C s) {name : String} {pending : Pending}
    {place : Place} (hm : pending ∈ place.copies s.shared name) : place.Reason s name pending := by
  cases place with
  | queued | delayed => trivial
  | inHand =>
    obtain ⟨busy, hb⟩ := busy h
    obtain ⟨copy, hcopy, hat⟩ := (Multiset.mem_filterMap _ _).mp hm
    rw [hb.hands] at hcopy
    obtain ⟨i, hi, hc⟩ := (Multiset.mem_filterMap _ _).mp hcopy
    exact ⟨i, copy, (hb.mem i).mp hi, hc, hat⟩
  | acked =>
    obtain ⟨event, he, hp⟩ := List.mem_filterMap.mp (Multiset.mem_coe.mp hm)
    cases event with
    | ack copy =>
      obtain ⟨i, taken, reply, hd, rfl⟩ := made h _ he
      exact handledCopy h hd hp
    | _ => cases hp
  | rejected =>
    obtain ⟨event, he, hp⟩ := List.mem_filterMap.mp (Multiset.mem_coe.mp hm)
    cases event with
    | reject copy =>
      obtain ⟨i, taken, reply, hd, rfl⟩ := made h _ he
      exact gaveUp h hd hp
    | _ => cases hp

/-- In every state of every run of any deliveries, each copy sent to an endpoint is at one place only,
    with its attempt's number: in the queue or waiting out a delay, in the hands of a worker that is
    handling it, acked because a delivery of it was handled and the transport has all it published,
    or rejected because a delivery of it was given up on with its error copy in the error
    destination. -/
theorem placed (h : (inMemoryBus Msg checks).Reach Bus.Empty C s) {name : String}
    {envelope : ArcEnvelope} (hsent : Sent s.shared.events name envelope)
    (hfew : requeues s.shared.events name envelope.number + 1 < 2 ^ 32) :
    ∃ place : Place,
      place.Holds s.shared name ⟨envelope, requeues s.shared.events name envelope.number + 1⟩ ∧
      place.Reason s name ⟨envelope, requeues s.shared.events name envelope.number + 1⟩ := by
  obtain ⟨place, hplace⟩ := holds_one h hsent hfew
  refine ⟨place, hplace, reason h ?_⟩
  refine Multiset.mem_of_mem_filter
    (p := fun copy : Pending => copy.envelope.number = envelope.number) ?_
  rw [hplace place, if_pos rfl]
  exact Multiset.mem_singleton_self _

/-! ## How often a copy comes again -/

/-- A delivery's parts: the pipeline and the sends, then how they are settled. -/
theorem run_process_parts {endpoint : Runtime.Endpoint Msg} {source : Source}
    {delivery : Runtime.Delivery} {evs : List (HandlingEvent Msg)}
    (h : Prog.Run (endpoint.process source delivery) evs ()) :
    ∃ handling outcome sends settling, evs = handling ++ sends ++ settling ∧
      Prog.Run (endpoint.pipeline.run (endpoint.context source delivery)) handling outcome ∧
      (∀ e ∈ handling ++ sends, e.op.InPipeline ∨ ∃ envelope, e.op = .publish envelope) ∧
      ((∃ reply, settling = [⟨.ack, reply⟩]) ∨ ∃ failure settled, FailedWith outcome sends failure ∧
        Prog.Run (endpoint.settle delivery (.error failure)) settling settled) := by
  unfold Endpoint.process at h
  rw [Prog.run_bind] at h
  obtain ⟨_, result, rest, rfl, hh, h⟩ := h
  rw [Prog.run_bind] at h
  obtain ⟨settling, settled, _, rfl, hs, h⟩ := h
  obtain ⟨rfl, _⟩ := (Prog.run_pure _ _ _).mp h
  obtain ⟨handling, outcome, sends, rfl, hp, hsends⟩ := Endpoint.run_handleAndSend hh
  refine ⟨handling, outcome, sends, settling, by rw [List.append_nil], hp, ?_, ?_⟩
  · intro e he
    rcases List.mem_append.mp he with he | he
    · exact Or.inl ((endpoint.pipeline.run_only _).after hp e he)
    · rcases hsends with ⟨_, held, _, rfl⟩ | ⟨failure, _, hf⟩
      · obtain ⟨envelope, _, rfl⟩ := List.mem_map.mp he
        exact Or.inr ⟨envelope, rfl⟩
      · obtain ⟨_, envelope, _, _, hop⟩ := hf.sends_publish he
        exact Or.inr ⟨envelope, hop⟩
  · rcases hsends with ⟨rfl, _⟩ | ⟨failure, rfl, hf⟩
    · exact Or.inl ⟨settled, (Prog.run_perform _ _ _).mp hs⟩
    · exact Or.inr ⟨failure, settled, hf, hs⟩

/-- An operation that neither the pipeline nor a send makes. -/
theorem mem_settling {front settling : List (HandlingEvent Msg)} {e : HandlingEvent Msg}
    (hfront : ∀ e ∈ front, e.op.InPipeline ∨ ∃ envelope, e.op = .publish envelope)
    (hm : e ∈ front ++ settling) (hop : ¬ e.op.InPipeline)
    (hpublish : ∀ envelope, e.op ≠ .publish envelope) : e ∈ settling := by
  rcases List.mem_append.mp hm with hm | hm
  · rcases hfront e hm with h | ⟨envelope, h⟩
    · exact absurd h hop
    · exact absurd h (hpublish envelope)
  · exact hm

/-- A delivery is retried before its last attempt, or because the error destination refused its
    copy. -/
theorem retried {endpoint : Runtime.Endpoint Msg} {source : Source} {delivery : Runtime.Delivery}
    {evs : List (HandlingEvent Msg)} (h : Prog.Run (endpoint.process source delivery) evs ())
    {delay : Duration} {reply : Except TransportError Unit} (hm : ⟨.retry delay, reply⟩ ∈ evs) :
    endpoint.retry.isLast delivery.attempt = false ∨
      ∃ copy refused, ⟨.publishError endpoint.name copy, .error refused⟩ ∈ evs := by
  obtain ⟨handling, outcome, sends, settling, rfl, _, hfront, hsettling⟩ := run_process_parts h
  have hm := mem_settling hfront hm (fun hp => nomatch hp.1) (fun _ => nofun)
  rcases hsettling with ⟨_, rfl⟩ | ⟨failure, settled, _, hs⟩
  · cases List.mem_singleton.mp hm
  · cases hlast : endpoint.retry.isLast delivery.attempt with
    | false => exact Or.inl rfl
    | true =>
      rcases Endpoint.run_settle_error hs with ⟨last, rfl, _⟩ | ⟨error, _, hs⟩
      · -- Only a failure of the handler is retried without an error copy.
        cases failure with
        | undecodable error =>
          obtain ⟨_, _, hevs, _⟩ := Endpoint.run_giveUp hs
          simp at hevs
        | handler error =>
          unfold Endpoint.settle at hs
          dsimp only at hs
          rw [hlast] at hs
          obtain ⟨_, _, hevs, _⟩ := Endpoint.run_giveUp hs
          simp at hevs
      · obtain ⟨reply', last, rfl, hl⟩ := Endpoint.run_giveUp hs
        rcases hl with ⟨_, hreject⟩ | ⟨⟨refused, rfl⟩, _⟩
        · simp only [List.mem_cons, List.not_mem_nil, or_false] at hm
          rcases hm with hm | hm
          · cases hm
          · subst hm
            cases hreject
        · exact Or.inr ⟨_, refused, List.mem_append_right _ List.mem_cons_self⟩

/-- Giving up on the delivery: its failure, and the copy that the error destination took. -/
def GaveUpOn (taken : Taken Msg) (copy : Envelope) (front : List (HandlingEvent Msg)) : Prop :=
  ∃ handling outcome sends failure error, front = handling ++ sends ∧
    Prog.Run (taken.endpoint.pipeline.run (taken.endpoint.context taken.source taken.delivery))
      handling outcome ∧
    FailedWith outcome sends failure ∧ taken.endpoint.GivesUpOn taken.delivery error failure ∧
    ErrorCopy taken.endpoint.name taken.delivery error copy

/-- A delivery sends an error copy after it failed, and only rejects after that. -/
theorem gaveUpOn {taken : Taken Msg} {evs : List (HandlingEvent Msg)}
    (h : Prog.Run taken.process evs ()) {name : String} {copy : Envelope}
    (hm : ⟨.publishError name copy, .ok ()⟩ ∈ evs) :
    name = taken.endpoint.name ∧ ∃ front last, GaveUpOn taken copy front ∧
      (∀ e ∈ front, e.op.InPipeline ∨ ∃ envelope, e.op = .publish envelope) ∧
      last.op = .reject ∧ evs = front ++ ⟨.publishError name copy, .ok ()⟩ :: [last] := by
  obtain ⟨handling, outcome, sends, settling, rfl, hp, hfront, hsettling⟩ := run_process_parts h
  have hm := mem_settling hfront hm (fun hp => nomatch hp.2) (fun _ => nofun)
  rcases hsettling with ⟨_, rfl⟩ | ⟨failure, settled, hf, hs⟩
  · cases List.mem_singleton.mp hm
  · rcases Endpoint.run_settle_error hs with ⟨last, rfl, hl⟩ | ⟨error, hgives, hs⟩
    · rw [List.mem_singleton] at hm
      subst hm
      cases hl
    · obtain ⟨reply, last, rfl, hl⟩ := Endpoint.run_giveUp hs
      simp only [List.mem_cons, List.not_mem_nil, or_false] at hm
      rcases hm with hm | hm
      · cases hm
        rcases hl with ⟨_, hl⟩ | ⟨⟨_, hrefused⟩, _⟩
        · exact ⟨rfl, _, last, ⟨handling, outcome, sends, failure, error, rfl, hp, hf, hgives,
            errorEnvelope_errorCopy _ taken.delivery error⟩, hfront, hl, rfl⟩
        · cases hrefused
      · subst hm
        rcases hl with ⟨_, hl⟩ | ⟨_, hl⟩ <;> cases hl

/-- No delivery of the endpoint has more than `attempts` attempts, none of a copy of the publish was
    dropped, and the error destination refused nothing. -/
structure Undisturbed (bus : Bus Msg) (name : String) (number attempts : Nat) : Prop where
  policy : ∀ i taken evs, bus.history i = some (taken, evs) → taken.endpoint.name = name →
    taken.endpoint.retry.attempts ≤ attempts
  kept : ∀ copy pending, .drop copy ∈ bus.events → copy.at name = some pending →
    pending.envelope.number ≠ number
  accepts : ∀ copy error, .publishError name copy (.error error) ∉ bus.events

theorem Called.undisturbed {bus bus' : Bus Msg} {publisher : Option Nat} {event : Option Event}
    {name : String} {number attempts : Nat} (hc : Called checks bus bus' publisher event)
    (hh : ∀ i taken evs, bus.history i = some (taken, evs) →
      ∃ evs', bus'.history i = some (taken, evs'))
    (h : Undisturbed bus' name number attempts) : Undisturbed bus name number attempts where
  policy := by
    intro i taken evs hi hname
    obtain ⟨evs', hi'⟩ := hh i taken evs hi
    exact h.policy i taken evs' hi' hname
  kept := by
    intro copy pending hm hat
    refine h.kept copy pending ?_ hat
    rw [hc.events]
    exact List.mem_append_left _ hm
  accepts := by
    intro copy error hm
    refine h.accepts copy error ?_
    rw [hc.events]
    exact List.mem_append_left _ hm

/-- A delivery stays known. -/
theorem step_history (h : (inMemoryBus Msg checks).Reach Bus.Empty C s)
    {l : System.Label Nat (Op Msg) (Ret Msg) (Taken Msg) Event} {s' : BusPool Msg}
    (hs : System.Step (inMemoryBus Msg checks) s l s') (i : Nat) (taken : Taken Msg)
    (evs : List (HandlingEvent Msg)) (hi : s.shared.history i = some (taken, evs)) :
    ∃ evs', s'.shared.history i = some (taken, evs') := by
  cases hs with
  | @launch k other bus hn hl =>
    obtain ⟨hfree, _, world, _, rfl⟩ := hl
    have hik : i ≠ k := by
      rintro rfl
      rw [hfree] at hi
      cases hi
    exact ⟨evs, (Function.update_of_ne hik _ _).trans hi⟩
  | @exec k other op next reply bus hp he =>
    obtain ⟨done, hk, _⟩ := (h.recorded recorded (fun _ h0 => h0.2.2.2) k).2 _ hp
    rw [recorded.exec hk he]
    by_cases hik : i = k
    · subst hik
      rw [hi, Option.some.injEq, Prod.mk.injEq] at hk
      obtain ⟨rfl, rfl⟩ := hk
      exact ⟨_, Function.update_self ..⟩
    · exact ⟨evs, (Function.update_of_ne hik _ _).trans hi⟩
  | leave _ hl => exact ⟨evs, by rw [recorded.leave hl]; exact hi⟩
  | env he => exact ⟨evs, by rw [recorded.env he]; exact hi⟩

/-- An undisturbed copy is requeued fewer times than its endpoint has attempts. -/
theorem requeues_lt (h : (inMemoryBus Msg checks).Reach Bus.Empty C s) {name : String}
    {envelope : ArcEnvelope} {attempts : Nat} (hpos : 1 ≤ attempts) (hfits : attempts < 2 ^ 32)
    (hu : Undisturbed s.shared name envelope.number attempts)
    (hsent : Sent s.shared.events name envelope) :
    requeues s.shared.events name envelope.number < attempts := by
  induction h with
  | init h =>
    rw [h.2.1]
    exact hpos
  | @step s l s' h hs hcond ih =>
    obtain ⟨publisher, event, hc⟩ := step_called h hs
    have hu' := hc.undisturbed (step_history h hs) hu
    cases event with
    | none =>
      have he : s'.shared.events = s.shared.events := hc.events.trans (List.append_nil _)
      rw [he] at hsent ⊢
      exact ih hu' hsent
    | some e =>
      have he : s'.shared.events = s.shared.events ++ [e] := hc.events
      have hnow := h.step hs hcond
      rw [he] at hsent ⊢
      rw [requeues_snoc]
      rcases sent_snoc.mp hsent with hold | ⟨rfl, hnumber, _⟩
      · have hlt := ih hu' hold
        cases hrequeued : e.requeued name with
        | none => simpa using hlt
        | some pending =>
          by_cases hn : pending.envelope.number = envelope.number
          · -- The copy comes back from the worker that had it, with the attempt's number.
            have hstep : Step checks s.shared.world e s'.shared.world := by
              rcases hc.world with ⟨hnone, _⟩ | ⟨_, heq, hstep⟩
              · cases hnone
              · cases heq
                exact hstep
            obtain ⟨rest, hbefore, _⟩ := hstep.moves (run h).unsettled s.shared.events name
            have hone := (run h).one_copy hold (by omega)
            have hmem : pending ∈ copiesOf s.shared.events s.shared.world name envelope.number := by
              refine Multiset.mem_filter.mpr ⟨?_, hn⟩
              rw [hbefore, hrequeued]
              simp
            rw [hone, Multiset.mem_singleton] at hmem
            have hattempt : pending.attempt < attempts := by
              cases e with
              | drop copy =>
                exact absurd hn (hu.kept copy pending (by simp [he]) hrequeued)
              | retry copy delay =>
                obtain ⟨i, taken, reply, ⟨evs, hi, hdid⟩, rfl⟩ := made hnow (.retry copy delay) (by simp [he])
                obtain ⟨hqueue, rfl⟩ := Delivery.at_eq hrequeued
                have hname : taken.endpoint.name = name := (took hnow hi).1 ▸ hqueue
                obtain ⟨q, ha⟩ := (hnow.recorded recorded (fun _ h0 => h0.2.2.2) i).1 _ _ hi
                obtain ⟨more, _, hrun⟩ := ha.complete Ret.nonempty
                obtain ⟨outcome, handling, sends, copies, last, hall, hset⟩ :=
                  Endpoint.run_process hrun
                obtain ⟨hend, _⟩ := hset.settled_last hall hdid rfl
                rw [hall, ← hend] at hrun
                rcases retried hrun hdid with hlast | ⟨copy, refused, hrefused⟩
                · have hpolicy := hu.policy i taken evs hi hname
                  have : taken.copy.attempt < taken.endpoint.retry.attempts := by
                    simpa [RetryPolicy.isLast, Taken.delivery] using hlast
                  exact Nat.lt_of_lt_of_le this hpolicy
                · have hcalled : s'.shared.Did i taken (.publishError taken.endpoint.name copy)
                      (.error refused) := ⟨evs, hi, hrefused⟩
                  obtain ⟨_, _, event, ⟨rfl, _⟩, hin⟩ := did_call hnow hcalled
                  rw [hname] at hin
                  exact absurd (hin _ rfl) (hu.accepts copy refused)
              | _ => cases hrequeued
            rw [hmem] at hattempt
            simp only [Option.toList_some, List.countP_singleton, hn, decide_true, if_true]
            exact hattempt
          · simpa [hn] using hlt
      · -- A message that is sent just now was never requeued.
        rw [(run h).requeues_eq_zero name (Nat.le_of_eq hnumber.symm)]
        exact hpos

/-- An undisturbed copy is delivered at most as often as its endpoint has attempts. -/
theorem delivered_le_attempts (h : (inMemoryBus Msg checks).Reach Bus.Empty C s) {name : String}
    {envelope : ArcEnvelope} {attempts : Nat} (hpos : 1 ≤ attempts) (hfits : attempts < 2 ^ 32)
    (hu : Undisturbed s.shared name envelope.number attempts)
    (hsent : Sent s.shared.events name envelope) :
    deliveries s.shared.events name envelope.number ≤ attempts := by
  have hlt := requeues_lt h hpos hfits hu hsent
  have hle := (run h).deliveries_le hsent (by omega)
  omega

/-! ## What is in an error destination -/

/-- The copy comes from a delivery of the endpoint that gave up, and did nothing after it sent the
    copy but reject. -/
def Bus.CopiedFrom (bus : Bus Msg) (name : String) (copy : Envelope) (pending : Pending) : Prop :=
  ∃ i taken front last, bus.history i =
      some (taken, front ++ ⟨.publishError name copy, .ok ()⟩ :: last) ∧
    taken.endpoint.name = name ∧ taken.copy.at name = some pending ∧ GaveUpOn taken copy front ∧
    ∀ e ∈ last, e.op = .reject

/-- In every state of every run, an endpoint's error destination holds only error copies of messages
    that were sent to this endpoint, each from a delivery of it that was given up on. -/
theorem errors_givenUp (h : (inMemoryBus Msg checks).Reach Bus.Empty C s) {name : String}
    {copy : Envelope} (hm : copy ∈ s.shared.world.state.errors name) :
    ∃ pending, s.shared.CopiedFrom name copy pending ∧ Sent s.shared.events name pending.envelope := by
  rw [(run h).errors] at hm
  obtain ⟨event, he, hcopy⟩ := List.mem_filterMap.mp hm
  cases event with
  | publishError endpoint envelope result =>
    cases result with
    | error _ => cases hcopy
    | ok _ =>
      unfold Event.errored at hcopy
      dsimp only at hcopy
      split at hcopy
      · rename_i hname
        cases hcopy
        subst hname
        obtain ⟨i, taken, evs, hi, hdid⟩ := made h _ he
        obtain ⟨q, ha⟩ := (h.recorded recorded (fun _ h0 => h0.2.2.2) i).1 _ _ hi
        obtain ⟨more, _, hrun⟩ := ha.complete Ret.nonempty
        obtain ⟨rfl, front, last, hgave, hfront, hlast, heq⟩ :=
          gaveUpOn hrun (List.mem_append_left _ hdid)
        obtain ⟨hqueue, hsent⟩ := took h hi
        obtain ⟨before, after, rfl⟩ := List.append_of_mem hdid
        rw [List.append_assoc, List.cons_append] at heq
        have hnot : ⟨.publishError taken.endpoint.name copy, .ok ()⟩ ∉ front := by
          intro hin
          rcases hfront _ hin with hp | ⟨_, hp⟩
          · exact absurd hp.2 (by simp [Op.sends])
          · cases hp
        obtain ⟨sent, rfl, hrest⟩ := split_after heq hnot
        obtain ⟨rfl, hafter⟩ : sent = [] ∧ after ++ more = [last] := by
          cases sent with
          | nil => exact ⟨rfl, by simpa using hrest.symm⟩
          | cons e sent =>
            have hin : ⟨.publishError taken.endpoint.name copy, .ok ()⟩ ∈ [last] := by
              rw [(List.cons.inj hrest).2]
              exact List.mem_append_right _ List.mem_cons_self
            rw [← List.mem_singleton.mp hin] at hlast
            cases hlast
        rw [List.append_nil] at hi
        refine ⟨_, ⟨i, taken, front, after, hi, rfl, if_pos hqueue, hgave, fun e hin => ?_⟩, hsent⟩
        have hin : e ∈ [last] := hafter ▸ List.mem_append_left _ hin
        rw [List.mem_singleton.mp hin]
        exact hlast
      · cases hcopy
  | _ => cases hcopy

/-! ## Conversations -/

/-- The delivery handled this message, and its handler returned and published the envelope. -/
def Bus.HandlerSent (bus : Bus Msg) (i : Nat) (parent : ArcEnvelope) (child : Envelope) : Prop :=
  ∃ taken evs published, bus.history i = some (taken, evs) ∧ taken.copy.envelope = parent ∧
    HandlerPublished evs published ∧
    child ∈ published.map (taken.endpoint.context taken.source taken.delivery).envelopeOf

theorem Bus.HandlerSent.caused {bus : Bus Msg} {i : Nat} {parent : ArcEnvelope} {child : Envelope}
    (h : bus.HandlerSent i parent child) : Caused parent.envelope child := by
  obtain ⟨taken, evs, published, _, rfl, _, hm⟩ := h
  obtain ⟨message, _, rfl⟩ := List.mem_map.mp hm
  exact caused_envelopeOf (taken.endpoint.context taken.source taken.delivery) message

/-- What a delivery publishes, its handler published. -/
theorem handlerSent (h : (inMemoryBus Msg checks).Reach Bus.Empty C s) {i : Nat} {taken : Taken Msg}
    {envelope : Envelope} {reply : Except TransportError Unit}
    (hd : s.shared.Did i taken (.publish envelope) reply) :
    s.shared.HandlerSent i taken.copy.envelope envelope := by
  obtain ⟨evs, hi, hm⟩ := hd
  obtain ⟨more, outcome, handling, sends, copies, last, hmore, hs⟩ := settlement h hi
  obtain ⟨before, after, rfl⟩ := List.append_of_mem hm
  rw [List.append_assoc, List.cons_append] at hmore
  obtain ⟨held, sent, rfl, rfl, hheld⟩ := hs.publish_after hmore
  rcases Pipeline.run_held hs.ran rfl with rfl | ⟨published, ⟨message, shown, hran⟩, rfl⟩
  · cases hheld
  · refine ⟨taken, _, published, hi, rfl, ⟨message, shown, ?_⟩, hheld⟩
    exact List.mem_append_left _ (List.mem_append_left _ hran)

theorem Bus.HandlerSent.kept {bus bus' : Bus Msg} {i : Nat} {parent : ArcEnvelope}
    {child : Envelope} (h : bus.HandlerSent i parent child)
    (hk : ∀ i taken op reply, bus.Did i taken op reply → bus'.Did i taken op reply) :
    bus'.HandlerSent i parent child := by
  obtain ⟨taken, evs, published, hi, hp, ⟨message, shown, hran⟩, hm⟩ := h
  obtain ⟨evs', hi', hran'⟩ := hk i taken (.handle message shown) _ ⟨evs, hi, hran⟩
  exact ⟨taken, evs', published, hi', hp, ⟨message, shown, hran'⟩, hm⟩

theorem getElem?_append_of_some {α : Type} {l more : List α} {n : Nat} {a : α}
    (h : l[n]? = some a) : (l ++ more)[n]? = some a :=
  (List.getElem?_append_left (List.getElem?_eq_some_iff.mp h).1).trans h

/-- The publisher of every message is known. A delivery publishes only after its message was. -/
structure Published (bus : Bus Msg) : Prop where
  length : bus.publishers.length = (bus.events.filterMap Event.accepted).length
  sent : ∀ m i, bus.publishers[m]? = some (some i) → ∃ parent child, parent.number < m ∧
    (bus.events.filterMap Event.accepted)[parent.number]? = some parent.envelope ∧
    (bus.events.filterMap Event.accepted)[m]? = some child ∧ bus.HandlerSent i parent child

theorem Sent.accepted {events : List Event} {name : String} {envelope : ArcEnvelope}
    (h : Sent events name envelope) :
    (events.filterMap Event.accepted)[envelope.number]? = some envelope.envelope := by
  obtain ⟨before, after, rfl, hnumber, _⟩ := h
  rw [List.filterMap_append, hnumber, List.getElem?_append_right (Nat.le_refl _), Nat.sub_self]
  rfl

theorem publishedBy (h : (inMemoryBus Msg checks).Reach Bus.Empty C s) : Published s.shared := by
  induction h with
  | init h =>
    obtain ⟨_, he, hp, _⟩ := h
    constructor
    · rw [he, hp]
      rfl
    · rw [hp]
      simp
  | @step s l s' h hs hcond ih =>
    obtain ⟨publisher, event, hc⟩ := step_called h hs
    have hevents : s'.shared.events.filterMap Event.accepted =
        s.shared.events.filterMap Event.accepted ++ (event.bind Event.accepted).toList := by
      rw [hc.events, List.filterMap_append]
      cases event with
      | none => rfl
      | some e => cases he : e.accepted <;> simp [he]
    have old : ∀ m i, s.shared.publishers[m]? = some (some i) →
        ∃ parent child, parent.number < m ∧
          (s'.shared.events.filterMap Event.accepted)[parent.number]? = some parent.envelope ∧
          (s'.shared.events.filterMap Event.accepted)[m]? = some child ∧
          s'.shared.HandlerSent i parent child := by
      intro m i hm
      obtain ⟨parent, child, hlt, hparent, hchild, hsent⟩ := ih.sent m i hm
      rw [hevents]
      exact ⟨parent, child, hlt, getElem?_append_of_some hparent,
        getElem?_append_of_some hchild, hsent.kept hc.kept⟩
    constructor
    · rw [hc.publishers, hevents, List.length_append, List.length_append, ih.length,
        List.length_map]
    · intro m i hm
      rw [hc.publishers] at hm
      rcases Nat.lt_or_ge m s.shared.publishers.length with hlt | hge
      · rw [List.getElem?_append_left hlt] at hm
        exact old m i hm
      · rw [List.getElem?_append_right hge] at hm
        cases ha : event.bind Event.accepted with
        | none => simp [ha] at hm
        | some envelope =>
          -- The newest message, of a delivery that was there before.
          rw [ha, Option.toList_some, List.map_singleton, List.getElem?_singleton] at hm
          split at hm
          · rename_i hzero
            cases hm
            obtain ⟨taken, done, hi, hdid⟩ := hc.published i rfl envelope ha
            have hsent := (took h hi).2
            have hlen : m = (s.shared.events.filterMap Event.accepted).length := by
              rw [← ih.length]
              omega
            have hnow := h.step hs hcond
            refine ⟨taken.copy.envelope, envelope, hlen ▸ hsent.number_lt, ?_, ?_,
              handlerSent hnow hdid⟩
            · rw [hevents]
              exact getElem?_append_of_some hsent.accepted
            · rw [hevents, ha, hlen, List.getElem?_append_right (Nat.le_refl _), Nat.sub_self]
              rfl
          · cases hm

/-- The root led to the message, from handler to handler. The root is one the application
    published. -/
inductive Bus.Conversation (bus : Bus Msg) (root : Envelope) : Nat → Envelope → Prop where
  | root {n : Nat} : bus.world.state.published[n]? = some root → bus.publishers[n]? = some none →
      bus.Conversation root n root
  | child {i m : Nat} {parent : ArcEnvelope} {child : Envelope} :
      bus.Conversation root parent.number parent.envelope → parent.number < m →
      bus.world.state.published[m]? = some child → bus.publishers[m]? = some (some i) →
      bus.HandlerSent i parent child → bus.Conversation root m child

theorem Bus.Conversation.same {bus : Bus Msg} {root child : Envelope} {m : Nat}
    (h : bus.Conversation root m child) :
    child.correlation.correlationId = root.correlation.correlationId ∧ child.trace = root.trace := by
  induction h with
  | root _ _ => exact ⟨rfl, rfl⟩
  | child _ _ _ _ hsent ih =>
    have hc := hsent.caused
    exact ⟨hc.correlation.trans ih.1, hc.trace.trans ih.2⟩

/-- In every state of every run, every message in the transport goes back to one that the
    application published, through deliveries whose handlers returned and published the next message
    of the chain, and has that one's correlation id and trace context. -/
theorem conversation (h : (inMemoryBus Msg checks).Reach Bus.Empty C s) {m : Nat} {child : Envelope}
    (hm : s.shared.world.state.published[m]? = some child) :
    ∃ root, s.shared.Conversation root m child ∧
      child.correlation.correlationId = root.correlation.correlationId ∧
      child.trace = root.trace := by
  suffices hroot : ∃ root, s.shared.Conversation root m child by
    obtain ⟨root, hc⟩ := hroot
    exact ⟨root, hc, hc.same⟩
  have hp := publishedBy h
  have hall := (run h).follows.1
  induction m using Nat.strongRecOn generalizing child with
  | ind m ih =>
    have hlt : m < s.shared.publishers.length := by
      rw [hp.length, ← hall]
      exact (List.getElem?_eq_some_iff.mp hm).1
    have hpublisher := List.getElem?_eq_getElem hlt
    cases hby : s.shared.publishers[m] with
    | none =>
      rw [hby] at hpublisher
      exact ⟨child, .root hm hpublisher⟩
    | some i =>
      rw [hby] at hpublisher
      obtain ⟨parent, sent, hbefore, hparent, hsent, hby⟩ := hp.sent m i hpublisher
      rw [← hall] at hparent hsent
      rw [hm, Option.some.injEq] at hsent
      subst hsent
      obtain ⟨root, hroot⟩ := ih _ hbefore hparent
      exact ⟨root, .child hroot hbefore hm hpublisher hby⟩

end Reached

/-! ## A message that is given up on, and one that is answered -/

/-- `billing` takes its copy of the message. -/
def takenBy (handlers : Handlers Unit) : Taken Unit where
  endpoint := ⟨"billing", .default, .plain "billing" handlers⟩
  source := billing
  copy := ⟨shipped, 1, "billing", false⟩

/-- A bus with one message in the queue of `billing`. -/
def delivered : Bus Unit where
  world := ⟨((State.new.subscribe billingSpec).publish orderShipped).2, 0, 0⟩
  events := [.subscribe billingSpec, .publish orderShipped (.ok ())]
  publishers := [none]
  history := fun _ => none

theorem reach_delivered : (inMemoryBus Unit true).Reach Bus.Empty (fun _ _ => True)
    ⟨fun _ => none, delivered⟩ := by
  have h0 : (inMemoryBus Unit true).Reach Bus.Empty (fun _ _ => True)
      ⟨fun _ => none, .new, [], [], fun _ => none⟩ := .init ⟨rfl, rfl, rfl, fun _ => rfl⟩
  have h1 := h0.env (.subscribe billingSpec) ⟨trivial, _, .subscribe billingSpec, rfl⟩ trivial
  exact h1.env (.publish orderShipped (.ok ())) ⟨trivial, _, .publish orderShipped, rfl⟩ trivial

theorem sent_shipped (more : List Event) :
    Sent ([.subscribe billingSpec, .publish orderShipped (.ok ())] ++ more) "billing" shipped := by
  refine ⟨[.subscribe billingSpec], more, rfl, rfl, ?_⟩
  simp [Event.subscribed, billingSpec, shipped]

/-- The error copy of a message that `billing` has no handler for. -/
def unhandledCopy : Envelope := errorEnvelope orderShipped "billing"
  ⟨"no_handler", "endpoint billing has no handler for this message type"⟩ 1

/-- `billing` has no handler: its first delivery sends the error copy and rejects. -/
theorem reach_unhandled : ∃ s, (inMemoryBus Unit true).Reach Bus.Empty (fun _ _ => True) s ∧
    s.shared.events = [.subscribe billingSpec, .publish orderShipped (.ok ())] ++
      [.take (takenBy []).copy, .publishError "billing" unhandledCopy (.ok ()),
        .reject (takenBy []).copy] ∧
    s.shared.world.state.errors "billing" = [unhandledCopy] ∧
    ∀ i taken evs, s.shared.history i = some (taken, evs) → taken = takenBy [] := by
  have h1 := reach_delivered.launch 0 (takenBy []) rfl ⟨rfl, rfl, _, .take rfl, rfl⟩ trivial
  have h2 := h1.exec 0 (.publishError "billing" unhandledCopy) (.ok ()) rfl
    ⟨_, _, ⟨rfl, .publishError "billing" unhandledCopy⟩, rfl⟩ trivial
  have h3 := h2.exec 0 .reject (.ok ()) rfl ⟨_, _, ⟨rfl, rfl, .reject⟩, rfl⟩ trivial
  refine ⟨_, h3, rfl, rfl, fun i taken evs hi => ?_⟩
  by_cases h : i = 0
  · subst h
    cases hi
    rfl
  · simp [Bus.log, Bus.after, h, delivered] at hi

theorem placed_unhandled : ∃ s place, (inMemoryBus Unit true).Reach Bus.Empty (fun _ _ => True) s ∧
    Place.Holds place s.shared "billing" ⟨shipped, 1⟩ ∧ place.Reason s "billing" ⟨shipped, 1⟩ := by
  obtain ⟨s, h, hevents, _⟩ := reach_unhandled
  have hzero : requeues s.shared.events "billing" shipped.number = 0 := by
    rw [hevents]
    rfl
  have hsent : Sent s.shared.events "billing" shipped := by
    rw [hevents]
    exact sent_shipped _
  obtain ⟨place, hplace⟩ := placed h hsent (by rw [hzero]; decide)
  rw [hzero] at hplace
  exact ⟨s, place, h, hplace⟩

theorem delivered_le_attempts_unhandled : ∃ s, (inMemoryBus Unit true).Reach Bus.Empty (fun _ _ => True) s ∧
    deliveries s.shared.events "billing" 0 ≤ 5 := by
  obtain ⟨s, h, hevents, _, hhistory⟩ := reach_unhandled
  have hsent : Sent s.shared.events "billing" shipped := by
    rw [hevents]
    exact sent_shipped _
  have hu : Undisturbed s.shared "billing" shipped.number 5 := by
    constructor
    · intro i taken evs hi _
      rw [hhistory i taken evs hi]
      decide
    · intro copy pending hm
      simp [hevents] at hm
    · intro copy error hm
      simp [hevents] at hm
  exact ⟨s, h, delivered_le_attempts h (by decide) (by decide) hu hsent⟩

theorem errors_givenUp_unhandled : ∃ s pending,
    (inMemoryBus Unit true).Reach Bus.Empty (fun _ _ => True) s ∧
    Bus.CopiedFrom s.shared "billing" unhandledCopy pending := by
  obtain ⟨s, h, _, herrors, _⟩ := reach_unhandled
  have hm : unhandledCopy ∈ s.shared.world.state.errors "billing" := by
    rw [herrors]
    exact List.mem_singleton_self _
  obtain ⟨pending, hcopied, _⟩ := errors_givenUp h hm
  exact ⟨s, pending, h, hcopied⟩

/-- `billing` with a handler. -/
def answering : Taken Unit :=
  takenBy [(orderShipped.messageType, .typed ⟨fun _ => .returned (.ok ())⟩)]

def receiptSent : Encoded where
  id := ⟨1⟩
  time := .fromUnixNanos 1
  messageType := ⟨"billing.receipt_sent.v1", by decide⟩
  data := []

/-- `billing` answers the message: its answer goes back to the message. -/
theorem conversation_answered : ∃ s child, (inMemoryBus Unit true).Reach Bus.Empty (fun _ _ => True) s ∧
    s.shared.world.state.published = [orderShipped, child] ∧
    ∃ root, s.shared.Conversation root 1 child ∧
      child.correlation.correlationId = root.correlation.correlationId ∧ child.trace = root.trace := by
  let context : HandlerContext (Option Transaction) := ⟨billing, "billing", orderShipped, 1, [], none⟩
  have h1 := reach_delivered.launch 0 answering rfl ⟨rfl, rfl, _, .take rfl, rfl⟩ trivial
  have h2 := h1.exec 0 (.handle () context) ([receiptSent], .ok) rfl ⟨none, _, ⟨rfl, rfl⟩, rfl⟩ trivial
  have h3 := h2.exec 0 (.publish (context.envelopeOf receiptSent)) (.ok ()) rfl
    ⟨_, _, ⟨rfl, .publish (context.envelopeOf receiptSent)⟩, rfl⟩ trivial
  exact ⟨_, _, h3, rfl, conversation h3 rfl⟩

end SisaMessaging.Runtime.InMemory
