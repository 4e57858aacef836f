/-
  The bus's workers and its shutdown, as programs.

  A worker looks at the stop signal in one of two ways: a biased `select!` polls it before the
  other future (`select`), and the dispatcher reads it before each row and before the next round.
  Futures are polled any number of times, and the loops go around any number of times: the programs take both
  numbers as parameters, and wait for good (`still`) after them.
-/
import SisaMessaging.Runtime.Endpoint
import SisaMessaging.Runtime.Maintenance
import SisaMessaging.Runtime.RoundClock

namespace SisaMessaging.Runtime

open SisaMessaging.Core SisaMessaging.Lib
open SisaMessaging.Postgres (DispatchOp DispatchRet)
open SisaMessaging.Postgres.Partitions (PartitionOp PartitionRet Table)
open SisaMessaging.Lib.Prog (Obeys Only Protocol)

/-! ## Workers -/

/-- What a worker does. -/
inductive WorkOp (Msg : Type) where
  /-- A poll of `stop.changed()`: whether it is ready. If the future polled after it starts
      something, it `arms` the worker. -/
  | changed (arms : Bool)
  /-- Whether the bus asked its workers to stop, between two rounds. -/
  | stopping
  /-- A poll of `deliveries.next()`. -/
  | next
  /-- A poll of a `sleep`. -/
  | slept (delay : Duration)
  /-- A step of handling a delivery. -/
  | handling (op : Op Msg)
  /-- A step of a round. -/
  | dispatching (op : DispatchOp)
  /-- The day a maintenance run starts with. -/
  | today
  /-- A statement of a maintenance run. -/
  | maintaining (op : PartitionOp)
  /-- Never answered. -/
  | still

@[reducible] def WorkRet (Msg : Type) : WorkOp Msg → Type
  | .changed _ => Bool
  | .stopping => Bool
  | .next => Option (Option (Except TransportError Delivery))
  | .slept _ => Option Unit
  | .handling op => Ret Msg op
  | .dispatching op => DispatchRet op
  | .today => Date
  | .maintaining op => PartitionRet op
  | .still => Empty

abbrev Working (Msg : Type) := Prog (WorkOp Msg) (WorkRet Msg)

variable {Msg : Type}

namespace Working

variable {α : Type}

def perform (op : WorkOp Msg) : Working Msg (WorkRet Msg op) := Prog.perform op

def still : Working Msg α := .call .still nofun

/-- A biased `select!`: each time, `stop` is polled first. `none` when it is ready. -/
def select (arms : Bool) (poll : Working Msg (Option α)) : Nat → Working Msg (Option α)
  | 0 => still
  | polls + 1 => do
    if ← perform (.changed arms) then return none
    else
      match ← poll with
      | some value => return some value
      | none => select arms poll polls

end Working

open Working (select still)

/-- Receives and handles deliveries one at a time until the bus stops. -/
def Endpoint.receive (endpoint : Endpoint Msg) (source : Source) (polls : Nat) :
    Nat → Working Msg Unit
  | 0 => still
  | turns + 1 => do
    match ← select true (Working.perform .next) polls with
    | none => return ()
    | some (some (.ok delivery)) =>
      Prog.via .handling (endpoint.process source delivery)
      endpoint.receive source polls turns
    | some (some (.error _)) =>
      match ← select false (Working.perform (.slept endpoint.retry.firstDelay)) polls with
      | none => return ()
      | some () => endpoint.receive source polls turns
    | some none => return ()

/-- Whether the bus asked its workers to stop. -/
def stopping : Working Msg Bool := Working.perform .stopping

/-- Whether the next round starts at once: after a full batch, unless the bus stops. -/
def again (full : Bool) : Working Msg Bool := do
  if full then return !(← stopping)
  else return false

/-- Runs rounds until the bus stops. -/
def DispatchSettings.run (uuids : UuidFormat) (debug : String → String)
    (settings : DispatchSettings) (polls : Nat) : Nat → Working Msg Unit
  | 0 => still
  | turns + 1 => do
    let full ← Prog.via .dispatching (round uuids debug settings)
    if ← again full then settings.run uuids debug polls turns
    else
      match ← select false (Working.perform (.slept settings.pollInterval)) polls with
      | none => return ()
      | some () => settings.run uuids debug polls turns

/-- How often the maintenance worker runs. -/
def every : Duration := .fromSecs 3600 (by decide)

/-- Maintains the table's partitions now and every hour after, until the bus stops. -/
def PartitionSettings.run (table : Table) (debug : String → String) (settings : PartitionSettings)
    (polls : Nat) : Nat → Working Msg Unit
  | 0 => still
  | turns + 1 => do
    let today ← Working.perform .today
    let _ ← Prog.via .maintaining (maintain table debug settings today)
    match ← select true (Working.perform (.slept every)) polls with
    | none => return ()
    | some () => settings.run table debug polls turns

/-! ## What the workers' looks at the signal show -/

/-- A worker between a look at the signal that showed none and the start it looked for is armed. One
    that sleeps, or waits for a delivery, isn't: it looks again when it is woken. -/
inductive WorkPhase where
  | idle | armed | stopped
  deriving DecidableEq

/-- The start of a delivery's handling, of a publish or of a maintenance run. -/
def WorkOp.starts : (op : WorkOp Msg) → WorkRet Msg op → Bool
  | .next, some (some (.ok _)) => true
  | .dispatching (.publish _ _), _ => true
  | .today, _ => true
  | _, _ => false

namespace WorkPhase

/-- What a look that showed no signal leaves. -/
def ofLook (arms : Bool) : WorkPhase := if arms then .armed else .idle

theorem ofLook_ne_stopped (arms : Bool) : ofLook arms ≠ .stopped := by
  cases arms <;> nofun

def next (phase : WorkPhase) : (op : WorkOp Msg) → WorkRet Msg op → WorkPhase
  | .changed arms, ready => if ready then stopped else ofLook arms
  | .stopping, _ => idle
  | .dispatching .stopping, stop => ofLook !stop
  | .next, _ => idle
  | .slept _, none => idle
  | .slept _, some _ => phase
  | .dispatching .now, _ => phase
  | .dispatching _, _ => idle
  | .today, _ => idle
  | _, _ => phase

/-- A start when it is armed, and a look, a sleep or a step of a round when it isn't stopped. -/
def Allowed (phase : WorkPhase) : WorkOp Msg → Prop
  | .next | .dispatching (.publish _ _) | .today => phase = armed
  | .changed _ | .stopping | .slept _ | .dispatching _ => phase ≠ stopped
  | _ => True

theorem ne_stopped {phase : WorkPhase} {op : WorkOp Msg} {reply : WorkRet Msg op}
    (ha : phase.Allowed op) (h : phase.next op reply ≠ stopped) : phase ≠ stopped := by
  cases op with
  | changed _ | stopping | slept _ => exact ha
  | next | today =>
    obtain rfl : phase = armed := ha
    exact nofun
  | dispatching op =>
    cases op with
    | publish r deadline =>
      obtain rfl : phase = armed := ha
      exact nofun
    | _ => exact ha
  | handling _ | maintaining _ | still => exact h

/-- A start is over at once: the worker needs another look before the next one. -/
theorem of_starts {phase : WorkPhase} {op : WorkOp Msg} {reply : WorkRet Msg op}
    (ha : phase.Allowed op) (h : op.starts reply = true) :
    phase = armed ∧ phase.next op reply = idle := by
  cases op with
  | next | today => exact ⟨ha, rfl⟩
  | dispatching op =>
    cases op with
    | publish r deadline => exact ⟨ha, rfl⟩
    | _ => cases h
  | changed _ | stopping | slept _ | handling _ | maintaining _ | still => cases h

end WorkPhase

def workProtocol (Msg : Type) : Protocol (WorkOp Msg) (WorkRet Msg) WorkPhase where
  allowed := WorkPhase.Allowed
  replies _ _ _ := True
  next := WorkPhase.next

/-! ## The workers follow the protocol -/

section Obeys

variable {phase : WorkPhase} {α : Type}

theorem select_obeys {arms : Bool} {poll : Working Msg (Option α)}
    {post : WorkPhase → Option α → Prop} (hpoll : Obeys (workProtocol Msg)
      (fun phase value => phase ≠ .stopped ∧ (value.isSome → post phase value)) (.ofLook arms) poll)
    (hstop : post .stopped none) (polls : Nat) (h : phase ≠ .stopped) :
    Obeys (workProtocol Msg) post phase (select arms poll polls) := by
  induction polls generalizing phase with
  | zero => exact ⟨trivial, nofun⟩
  | succ polls ih =>
    refine ⟨h, fun ready _ => ?_⟩
    cases ready with
    | true => exact hstop
    | false =>
      apply hpoll.bind
      rintro phase value ⟨hphase, hpost⟩
      cases value with
      | none => exact ih hphase
      | some value => exact hpost rfl

/-- After a sleep the worker is what the poll before it left. -/
theorem select_slept (arms : Bool) (delay : Duration) (polls : Nat) (h : phase ≠ .stopped) :
    Obeys (workProtocol Msg) (fun phase value => value.isSome → phase = .ofLook arms) phase
      (select arms (Working.perform (.slept delay)) polls) := by
  refine select_obeys ?_ nofun polls h
  refine ⟨WorkPhase.ofLook_ne_stopped arms, fun value _ => ?_⟩
  cases value with
  | none => exact ⟨nofun, nofun⟩
  | some _ => exact ⟨WorkPhase.ofLook_ne_stopped arms, fun _ _ => rfl⟩

theorem receive_obeys (endpoint : Endpoint Msg) (source : Source) (polls turns : Nat)
    (h : phase ≠ .stopped) : Obeys (workProtocol Msg) (fun _ _ => True) phase
      (endpoint.receive source polls turns) := by
  induction turns generalizing phase with
  | zero => exact ⟨trivial, nofun⟩
  | succ turns ih =>
    have hnext : Obeys (workProtocol Msg) (fun phase value => value.isSome → phase = .idle) phase
        (select true (Working.perform .next) polls) := by
      refine select_obeys ?_ nofun polls h
      exact ⟨rfl, fun value _ => ⟨nofun, fun _ _ => rfl⟩⟩
    apply hnext.bind
    intro phase value hidle
    match value with
    | none => trivial
    | some none => trivial
    | some (some (.ok delivery)) =>
      obtain rfl := hidle rfl
      apply (Prog.obeys_via (fun _ => trivial) (fun _ _ => rfl) _).bind
      rintro phase _ rfl
      exact ih nofun
    | some (some (.error _)) =>
      obtain rfl := hidle rfl
      have hne : WorkPhase.idle ≠ .stopped := nofun
      apply (select_slept false _ polls hne).bind
      intro phase value hidle
      cases value with
      | none => trivial
      | some _ =>
        obtain rfl := hidle rfl
        exact ih nofun

/-! ### The dispatcher -/

/-- A round's looks at the signal, and its publishes. -/
def lookProtocol : Protocol DispatchOp DispatchRet Bool where
  allowed armed op := match op with
    | .publish _ _ => armed = true
    | _ => True
  replies _ _ _ := True
  next armed op reply := match op, reply with
    | .stopping, stop => !stop
    | .now, _ => armed
    | _, _ => false

theorem look_of_only {p : Prog DispatchOp DispatchRet α} (h : Only NoPublish p) (armed : Bool) :
    Obeys lookProtocol (fun _ _ => True) armed p := by
  induction p generalizing armed with
  | ret a => trivial
  | call op next ih =>
    refine ⟨?_, fun r _ => ih r (h.2 r) _⟩
    cases op with
    | publish r deadline => exact absurd rfl (h.1 r deadline)
    | _ => trivial

theorem past_look (settings : DispatchSettings) (claimedAt : Nat) (armed : Bool) :
    Obeys lookProtocol (fun armed isPast => isPast = false → armed = true) armed
      (past settings claimedAt) := by
  refine ⟨trivial, fun stop _ => ?_⟩
  cases stop with
  | true => exact nofun
  | false => exact ⟨trivial, fun now _ _ => rfl⟩

theorem publishRecords_look (settings : DispatchSettings) (claimedAt : Nat)
    (records : List OutboxRecord) (armed : Bool) :
    Obeys lookProtocol (fun _ _ => True) armed (publishRecords settings claimedAt records) := by
  induction records generalizing armed with
  | nil => trivial
  | cons record records ih =>
    unfold publishRecords
    apply (past_look settings claimedAt armed).bind
    intro armed isPast harmed
    cases isPast with
    | true => trivial
    | false =>
      refine ⟨harmed rfl, fun reply _ => ?_⟩
      cases reply with
      | elapsed => trivial
      | accepted => exact (ih _).bind fun _ _ _ => trivial
      | refused error =>
        exact (look_of_only (putBack_only settings record error.toText) _).bind fun _ _ _ => ih _

theorem round_look (uuids : UuidFormat) (debug : String → String) (settings : DispatchSettings)
    (armed : Bool) : Obeys lookProtocol (fun _ _ => True) armed (round uuids debug settings) := by
  refine ⟨trivial, fun claimedAt _ => ?_⟩
  apply (look_of_only (claim_only uuids debug _ _) _).bind
  intro armed result _
  cases result with
  | error error => trivial
  | ok records =>
    apply (publishRecords_look settings claimedAt records armed).bind
    intro armed published _
    split
    · exact ⟨trivial, fun _ _ => trivial⟩
    · trivial

theorem round_obeys_work (uuids : UuidFormat) (debug : String → String)
    (settings : DispatchSettings) (armed : Bool) :
    Obeys (workProtocol Msg) (fun phase _ => phase ≠ .stopped) (.ofLook armed)
      (Prog.via .dispatching (round uuids debug settings)) := by
  have hne := WorkPhase.ofLook_ne_stopped
  refine (Obeys.via (f := WorkOp.dispatching) (e := WorkPhase.ofLook) ?_ ?_ ?_
    (round_look uuids debug settings armed)).mono ?_
  · intro armed op hop
    cases op with
    | publish r deadline =>
      obtain rfl : armed = true := hop
      rfl
    | _ => exact hne armed
  · exact fun _ _ _ _ => trivial
  · intro armed op reply
    cases op <;> rfl
  · rintro _ _ ⟨armed, rfl, _⟩
    exact hne armed

theorem ofLook_of_ne (h : phase ≠ .stopped) : ∃ armed, phase = .ofLook armed := by
  cases phase with
  | idle => exact ⟨false, rfl⟩
  | armed => exact ⟨true, rfl⟩
  | stopped => exact absurd rfl h

theorem again_obeys (full : Bool) (h : phase ≠ .stopped) :
    Obeys (workProtocol Msg) (fun phase _ => phase ≠ .stopped) phase (again full) := by
  cases full with
  | false => exact h
  | true =>
    refine ⟨h, fun stop _ => ?_⟩
    exact (nofun : WorkPhase.idle ≠ .stopped)

theorem dispatch_obeys (uuids : UuidFormat) (debug : String → String)
    (settings : DispatchSettings) (polls turns : Nat) (h : phase ≠ .stopped) :
    Obeys (workProtocol Msg) (fun _ _ => True) phase (settings.run uuids debug polls turns) := by
  induction turns generalizing phase with
  | zero => exact ⟨trivial, nofun⟩
  | succ turns ih =>
    obtain ⟨armed, rfl⟩ := ofLook_of_ne h
    apply (round_obeys_work uuids debug settings armed).bind
    intro phase full hphase
    apply (again_obeys full hphase).bind
    intro phase more hphase
    cases more with
    | true => exact ih hphase
    | false =>
      apply (select_slept false _ polls hphase).bind
      intro phase value hidle
      cases value with
      | none => trivial
      | some _ =>
        obtain rfl := hidle rfl
        exact ih nofun

/-! ### The maintenance worker -/

theorem maintenance_obeys (table : Table) (debug : String → String) (settings : PartitionSettings)
    (polls turns : Nat) : Obeys (workProtocol Msg) (fun _ _ => True) .armed
      (settings.run table debug polls turns) := by
  induction turns with
  | zero => exact ⟨trivial, nofun⟩
  | succ turns ih =>
    refine ⟨rfl, fun today _ => ?_⟩
    apply (Prog.obeys_via (fun _ => trivial) (fun _ _ => rfl) _).bind
    rintro phase _ rfl
    have hne : WorkPhase.idle ≠ .stopped := nofun
    apply (select_slept true every polls hne).bind
    intro phase value harmed
    cases value with
    | none => trivial
    | some _ =>
      obtain rfl := harmed rfl
      exact ih

end Obeys

/-! ## Shutdown -/

/-- What a `shutdown` call does. -/
inductive CallOp where
  /-- `send_replace`. -/
  | signal
  /-- Takes the lock on the worker handles. -/
  | lock
  /-- `last_mut`: the last handle's worker. -/
  | last
  /-- A poll of the worker's handle: whether the worker ended. -/
  | poll (worker : Nat)
  | pop
  /-- The guard drops at the end of the call. -/
  | unlock
  /-- The call returned. -/
  | returned
  /-- Never answered. -/
  | still

@[reducible] def CallRet : CallOp → Type
  | .signal => Unit
  | .lock => Unit
  | .last => Option Nat
  | .poll _ => Bool
  | .pop => Unit
  | .unlock => Unit
  | .returned => Unit
  | .still => Empty

abbrev Calling := Prog CallOp CallRet

namespace Calling

def perform (op : CallOp) : Calling (CallRet op) := Prog.perform op

/-- `worker.await`. -/
def await (worker : Nat) : Nat → Calling Unit
  | 0 => .call .still nofun
  | polls + 1 => do
    if ← perform (.poll worker) then return ()
    else await worker polls

/-- The loop of `shutdown`. -/
def popAll (polls : Nat) : Nat → Calling Unit
  | 0 => .call .still nofun
  | turns + 1 => do
    match ← perform .last with
    | none => return ()
    | some worker =>
      await worker polls
      perform .pop
      popAll polls turns

/-- Stops the workers and waits for them. -/
def shutdown (polls turns : Nat) : Calling Unit := do
  perform .signal
  perform .lock
  popAll polls turns
  perform .unlock
  perform .returned

end Calling

inductive CallPhase where
  | called | signalled
  /-- It holds the lock. -/
  | holding
  /-- It waits for the last worker. -/
  | waiting (worker : Nat)
  /-- The last worker's handle is ready, and isn't popped yet. -/
  | midway (worker : Nat)
  /-- It found no more handles. -/
  | drained
  | unlocked | finished

namespace CallPhase

def Allowed : CallPhase → CallOp → Prop
  | called, .signal | signalled, .lock | holding, .last | midway _, .pop | drained, .unlock
  | unlocked, .returned => True
  | waiting worker, .poll polled => polled = worker
  | _, .still => True
  | _, _ => False

section Allowed

variable {phase : CallPhase}

@[simp] theorem allowed_signal : phase.Allowed .signal ↔ phase = called := by
  cases phase <;> simp [Allowed]

@[simp] theorem allowed_lock : phase.Allowed .lock ↔ phase = signalled := by
  cases phase <;> simp [Allowed]

@[simp] theorem allowed_last : phase.Allowed .last ↔ phase = holding := by
  cases phase <;> simp [Allowed]

@[simp] theorem allowed_poll {worker : Nat} :
    phase.Allowed (.poll worker) ↔ phase = waiting worker := by
  cases phase <;> simp [Allowed, eq_comm]

@[simp] theorem allowed_pop : phase.Allowed .pop ↔ ∃ worker, phase = midway worker := by
  cases phase <;> simp [Allowed]

@[simp] theorem allowed_unlock : phase.Allowed .unlock ↔ phase = drained := by
  cases phase <;> simp [Allowed]

@[simp] theorem allowed_returned : phase.Allowed .returned ↔ phase = unlocked := by
  cases phase <;> simp [Allowed]

end Allowed

def next : CallPhase → (op : CallOp) → CallRet op → CallPhase
  | _, .signal, _ => signalled
  | _, .lock, _ => holding
  | _, .last, none => drained
  | _, .last, some worker => waiting worker
  | _, .poll worker, ready => if ready then midway worker else waiting worker
  | _, .pop, _ => holding
  | _, .unlock, _ => unlocked
  | _, .returned, _ => finished
  | phase, .still, _ => phase

end CallPhase

def callProtocol : Protocol CallOp CallRet CallPhase where
  allowed := CallPhase.Allowed
  replies _ _ _ := True
  next := CallPhase.next

theorem await_obeys (worker polls : Nat) : Obeys callProtocol
    (fun phase _ => phase = .midway worker) (.waiting worker) (Calling.await worker polls) := by
  induction polls with
  | zero => exact ⟨trivial, nofun⟩
  | succ polls ih =>
    refine ⟨rfl, fun ready _ => ?_⟩
    cases ready with
    | true => rfl
    | false => exact ih

theorem popAll_obeys (polls turns : Nat) : Obeys callProtocol
    (fun phase _ => phase = .drained) .holding (Calling.popAll polls turns) := by
  induction turns with
  | zero => exact ⟨trivial, nofun⟩
  | succ turns ih =>
    refine ⟨trivial, fun last _ => ?_⟩
    cases last with
    | none => rfl
    | some worker =>
      apply (await_obeys worker polls).bind
      rintro phase _ rfl
      exact ⟨trivial, fun _ _ => ih⟩

theorem shutdown_obeys (polls turns : Nat) :
    Obeys callProtocol (fun _ _ => True) .called (Calling.shutdown polls turns) := by
  refine ⟨trivial, fun _ _ => ⟨trivial, fun _ _ => ?_⟩⟩
  apply (popAll_obeys polls turns).bind
  rintro phase _ rfl
  exact ⟨trivial, fun _ _ => ⟨trivial, fun _ _ => trivial⟩⟩

end SisaMessaging.Runtime
