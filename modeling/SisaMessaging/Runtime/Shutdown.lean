/-
  The shutdown of a bus, over every interleaving of its workers and of any number of calls.

  The calls share the handles of the workers, last first, under a lock. A call may be dropped at
  any of its awaits; between the last poll of a handle and its pop there is none (`midway`). A
  worker may end at any point: its loop is over, or it panicked.
-/
import SisaMessaging.Lib.Pool
import SisaMessaging.Runtime.Workers

namespace SisaMessaging.Runtime

open SisaMessaging.Core SisaMessaging.Lib
open SisaMessaging.Postgres.Partitions (Table)
open SisaMessaging.Lib.Prog (Obeys Protocol)
open SisaMessaging.Lib.System (Keeps Reach Step update_eq_some)

variable {Msg : Type}

/-! ## The bus -/

inductive BusOp (Msg : Type) where
  | call (op : CallOp)
  | work (op : WorkOp Msg)

@[reducible] def BusRet (Msg : Type) : BusOp Msg → Type
  | .call op => CallRet op
  | .work op => WorkRet Msg op

/-- A `shutdown` call, or a worker. -/
inductive BusJob (Msg : Type) where
  | shutdown (polls turns : Nat)
  | endpoint (receiver : Endpoint Msg) (source : Source) (polls turns : Nat)
  | dispatcher (uuids : UuidFormat) (debug : String → String) (settings : DispatchSettings)
    (polls turns : Nat)
  | maintenance (table : Table) (debug : String → String) (settings : PartitionSettings)
    (polls turns : Nat)

namespace BusJob

def isWorker : BusJob Msg → Bool
  | shutdown _ _ => false
  | _ => true

def body : BusJob Msg → Prog (BusOp Msg) (BusRet Msg) Unit
  | shutdown polls turns => Prog.via .call (Calling.shutdown polls turns)
  | endpoint receiver source polls turns => Prog.via .work (receiver.receive source polls turns)
  | dispatcher uuids debug settings polls turns =>
    Prog.via .work (settings.run uuids debug polls turns)
  | maintenance table debug settings polls turns =>
    Prog.via .work (settings.run table debug polls turns)

/-- What a worker starts with: a maintenance worker's first run counts as in progress. -/
def phase : BusJob Msg → WorkPhase
  | maintenance _ _ _ _ _ => .armed
  | _ => .idle

end BusJob

structure BusState where
  /-- How often the stop signal was sent. -/
  version : Nat
  /-- The version that each worker's receiver has seen. -/
  seen : Nat → Nat
  /-- The bus is built: it has all its workers, and callers. -/
  started : Bool
  /-- Every worker there ever was. -/
  workers : List Nat
  /-- The workers whose handles the bus holds, last first. -/
  handles : List Nat
  /-- The call that holds the lock on the handles. -/
  lock : Option Nat
  /-- The call between a handle's last poll and its pop. -/
  midway : Option Nat
  /-- The workers that ended. -/
  ended : List Nat
  /-- The workers whose handles a poll found ready. -/
  completed : List Nat
  /-- The calls that returned. -/
  returned : List Nat
  /-- What each worker's looks at the signal have shown. -/
  phases : Nat → WorkPhase
  /-- Whether the worker was armed when the first signal was sent: it had looked, and done nothing
      after the look but read its clock. -/
  armedAtStop : Nat → Bool
  /-- How many deliveries, publishes or runs the worker started after that. -/
  startsAfter : Nat → Nat

namespace BusState

/-- Not built yet. -/
def Fresh (s : BusState) : Prop :=
  s.version = 0 ∧ s.started = false ∧ s.workers = [] ∧ s.handles = [] ∧ s.lock = none ∧
    s.ended = [] ∧ s.completed = [] ∧ s.returned = [] ∧ s.startsAfter = fun _ => 0

def spawn (s : BusState) (i : Nat) (phase : WorkPhase) : BusState :=
  { s with
    workers := i :: s.workers
    handles := i :: s.handles
    seen := Function.update s.seen i s.version
    phases := Function.update s.phases i phase }

def signalled (s : BusState) : BusState :=
  { s with
    version := s.version + 1
    armedAtStop := if s.version = 0 then fun w => decide (s.phases w = .armed)
      else s.armedAtStop }

/-- Worker `i` did the operation. -/
def worked (s : BusState) (i : Nat) (op : WorkOp Msg) (reply : WorkRet Msg op) : BusState :=
  { s with
    seen := match op with
      | .changed _ => Function.update s.seen i s.version
      | _ => s.seen
    phases := Function.update s.phases i ((s.phases i).next op reply)
    startsAfter := if s.version ≠ 0 ∧ op.starts reply = true
      then Function.update s.startsAfter i (s.startsAfter i + 1) else s.startsAfter }

/-- A look at the signal shows whether it was sent since the last one. -/
def Sees (s : BusState) (i : Nat) : (op : WorkOp Msg) → WorkRet Msg op → Prop
  | .changed _, ready => ready = true ↔ s.version ≠ s.seen i
  | .stopping, stop => stop = true ↔ s.version ≠ s.seen i
  | .dispatching .stopping, stop => stop = true ↔ s.version ≠ s.seen i
  | _, _ => True

/-- What an operation of call `i` does. -/
def Calls (i : Nat) : (op : CallOp) → CallRet op → BusState → BusState → Prop
  | .signal, _, s, s' => s' = s.signalled
  | .lock, _, s, s' => s.lock = none ∧ s' = { s with lock := some i }
  | .last, last, s, s' => last = s.handles.head? ∧ s' = s
  | .poll worker, true, s, s' => worker ∈ s.ended ∧
      s' = { s with completed := worker :: s.completed, midway := some i }
  | .poll _, false, s, s' => s' = s
  | .pop, _, s, s' => s' = { s with handles := s.handles.tail, midway := none }
  | .unlock, _, s, s' => s' = { s with lock := none }
  | .returned, _, s, s' => s' = { s with returned := i :: s.returned }
  | .still, reply, _, _ => nomatch reply

/-- Call `i` is over, or dropped: its guard drops with it. -/
def dropCall (s : BusState) (i : Nat) : BusState :=
  { s with lock := if s.lock = some i then none else s.lock }

end BusState

abbrev BusRun (Msg : Type) := System.State Nat (BusOp Msg) (BusRet Msg) (BusJob Msg) BusState

/-- A bus: its workers start with it, and calls come after. -/
def bus (Msg : Type) : System Nat (BusOp Msg) (BusRet Msg) (BusJob Msg) BusState Unit where
  body := BusJob.body
  launch i job s s' := i ∉ s.workers ∧
    if job.isWorker then s.started = false ∧ s' = s.spawn i job.phase
    else s.started = true ∧ s' = s
  exec i _ op reply s s' :=
    match op with
    | .call op => BusState.Calls i op reply s s'
    | .work op => s.Sees i op reply ∧ s' = s.worked i op reply
  leave i job s s' :=
    if job.isWorker then s' = { s with ended := i :: s.ended }
    else s.midway ≠ some i ∧ s' = s.dropCall i
  env _ s s' := s' = { s with started := true }

/-! ## The protocol of both -/

inductive BusPhase where
  | call (phase : CallPhase)
  | work (phase : WorkPhase)

def busProtocol (Msg : Type) : Protocol (BusOp Msg) (BusRet Msg) BusPhase where
  allowed phase op :=
    match phase, op with
    | .call phase, .call op => phase.Allowed op
    | .work phase, .work op => phase.Allowed op
    | _, _ => False
  replies _ _ _ := True
  next phase op reply :=
    match phase, op with
    | .call phase, .call op => .call (phase.next op reply)
    | .work phase, .work op => .work (phase.next op reply)
    | phase, _ => phase

def BusJob.start : BusJob Msg → BusPhase
  | shutdown _ _ => .call .called
  | job => .work job.phase

theorem shutdown_call_obeys {phase : CallPhase} {p : Calling Unit}
    (h : Obeys callProtocol (fun _ _ => True) phase p) :
    Obeys (busProtocol Msg) (fun _ _ => True) (.call phase) (Prog.via .call p) := by
  refine (Obeys.via (f := BusOp.call) (e := BusPhase.call) ?_ ?_ ?_ h).mono fun _ _ _ => trivial
  · exact fun _ _ hop => hop
  · exact fun _ _ _ _ => trivial
  · exact fun _ _ _ => rfl

theorem worker_obeys {phase : WorkPhase} {p : Working Msg Unit}
    (h : Obeys (workProtocol Msg) (fun _ _ => True) phase p) :
    Obeys (busProtocol Msg) (fun _ _ => True) (.work phase) (Prog.via .work p) := by
  refine (Obeys.via (f := BusOp.work) (e := BusPhase.work) ?_ ?_ ?_ h).mono fun _ _ _ => trivial
  · exact fun _ _ hop => hop
  · exact fun _ _ _ _ => trivial
  · exact fun _ _ _ => rfl

theorem body_obeys (job : BusJob Msg) :
    Obeys (busProtocol Msg) (fun _ _ => True) job.start job.body := by
  have idle : WorkPhase.idle ≠ .stopped := nofun
  cases job with
  | shutdown polls turns => exact shutdown_call_obeys (shutdown_obeys polls turns)
  | endpoint receiver source polls turns =>
    exact worker_obeys (receive_obeys receiver source polls turns idle)
  | dispatcher uuids debug settings polls turns =>
    exact worker_obeys (dispatch_obeys uuids debug settings polls turns idle)
  | maintenance table debug settings polls turns =>
    exact worker_obeys (maintenance_obeys table debug settings polls turns)

/-! ## The handles -/

abbrev BusPhases (Msg : Type) := Nat → Option (BusJob Msg × BusPhase)

/-- Jobs in different phases are different ones. -/
theorem ne_of_eq {γ : BusPhases Msg} {i k : Nat} {a b : Option (BusJob Msg × BusPhase)}
    (hi : γ i = a) (hk : γ k = b) (hab : a ≠ b) : k ≠ i := by
  rintro rfl
  exact hab (hi.symm.trans hk)

/-- What holds of the handles while a call is in this phase. -/
def CallPhase.Holds (s : BusState) (i : Nat) : CallPhase → Prop
  | called | signalled => True
  | holding => s.lock = some i
  | waiting worker => s.lock = some i ∧ s.handles.head? = some worker
  | midway worker => s.lock = some i ∧ s.midway = some i ∧ s.handles.head? = some worker ∧
      worker ∈ s.ended
  | drained => s.lock = some i ∧ s.handles = []
  | unlocked | finished => ∀ worker ∈ s.workers, worker ∈ s.ended

/-- A handle is popped after its worker ended, and polled until then. -/
structure HandlesKept (s : BusState) (γ : BusPhases Msg) : Prop where
  worker : ∀ i job phase, γ i = some (job, .work phase) → job.isWorker = true ∧ i ∈ s.workers
  call : ∀ i job phase, γ i = some (job, .call phase) →
    job.isWorker = false ∧ s.started = true ∧ phase.Holds s i
  gone : ∀ w ∈ s.ended, w ∈ s.workers ∧ γ w = none
  nodup : s.handles.Nodup
  handles : ∀ w ∈ s.handles, w ∈ s.workers
  popped : ∀ w ∈ s.workers, w ∉ s.handles → w ∈ s.ended
  completed : ∀ w ∈ s.completed, w ∈ s.workers ∧
    (w ∈ s.handles → ∃ i job, γ i = some (job, .call (.midway w)))
  returned : ∀ i ∈ s.returned, s.started = true ∧ ∀ w ∈ s.workers, w ∈ s.ended

namespace HandlesKept

variable {s s' : BusState} {γ : BusPhases Msg} {i : Nat}

theorem fresh (h : s.Fresh) : HandlesKept s (fun _ => none : BusPhases Msg) := by
  obtain ⟨_, _, hworkers, hhandles, _, hended, hcompleted, hreturned, _⟩ := h
  constructor <;> simp [hworkers, hhandles, hended, hcompleted, hreturned]

/-- Only one call is past taking the lock. -/
theorem alone (h : HandlesKept s γ) (hl : s.lock = some i) {k : Nat} {job : BusJob Msg}
    {phase : CallPhase} (hk : γ k = some (job, .call phase)) (hne : k ≠ i) :
    phase = .called ∨ phase = .signalled ∨ phase = .unlocked ∨ phase = .finished := by
  have hholds := (h.call k job phase hk).2.2
  have hlock : s.lock ≠ some k := fun heq => hne (Option.some.inj (heq.symm.trans hl))
  cases phase with
  | called | signalled | unlocked | finished => simp
  | holding => exact absurd hholds hlock
  | waiting _ | midway _ | drained => exact absurd hholds.1 hlock

/-- What another call's phase says of the handles stays true. -/
theorem others (h : HandlesKept s γ) (hl : s.lock = some i) {k : Nat} {job : BusJob Msg}
    {phase : CallPhase} (hne : k ≠ i) (hk : γ k = some (job, .call phase))
    (hs : s'.workers = s.workers ∧ s'.ended = s.ended) : phase.Holds s' k := by
  have hholds := (h.call k job phase hk).2.2
  rcases h.alone hl hk hne with rfl | rfl | rfl | rfl
  · trivial
  · trivial
  · simpa only [CallPhase.Holds, hs.1, hs.2] using hholds
  · simpa only [CallPhase.Holds, hs.1, hs.2] using hholds

theorem not_ended (h : HandlesKept s γ) {job : BusJob Msg} {phase : BusPhase}
    (hi : γ i = some (job, phase)) : i ∉ s.ended := by
  intro hmem
  cases hi.symm.trans (h.gone i hmem).2

/-- What becomes of one that hasn't ended brings none of the others back. -/
theorem gone_update (h : HandlesKept s γ) {q : Option (BusJob Msg × BusPhase)} (hi : i ∉ s.ended) :
    ∀ w ∈ s.ended, w ∈ s.workers ∧ Function.update γ i q w = none := by
  intro w hmem
  have hne : w ≠ i := fun heq => hi (heq ▸ hmem)
  rw [Function.update_of_ne hne]
  exact h.gone w hmem

/-- A handle that was ready stays with the call between its poll and its pop. -/
theorem completed_update (h : HandlesKept s γ) {q : Option (BusJob Msg × BusPhase)}
    (hi : ∀ job w, γ i ≠ some (job, .call (.midway w))) :
    ∀ w ∈ s.completed, w ∈ s.workers ∧ (w ∈ s.handles →
      ∃ k job, Function.update γ i q k = some (job, .call (.midway w))) := by
  intro w hmem
  obtain ⟨hworker, hwait⟩ := h.completed w hmem
  refine ⟨hworker, fun hin => ?_⟩
  obtain ⟨k, job, hk⟩ := hwait hin
  refine ⟨k, job, ?_⟩
  rw [Function.update_of_ne, hk]
  rintro rfl
  exact hi job w hk

/-- A step of call `i` keeps what it leaves alone: the workers, and the other calls' phases. -/
theorem callStep (h : HandlesKept s γ) {job : BusJob Msg} {phase phase' : CallPhase}
    (hi : γ i = some (job, .call phase)) (hw : s'.workers = s.workers) (he : s'.ended = s.ended)
    (hs : s'.started = s.started) (hself : phase'.Holds s' i)
    (hothers : ∀ k job phase, k ≠ i → γ k = some (job, .call phase) → phase.Holds s' k)
    (hnodup : s'.handles.Nodup) (hhandles : ∀ w ∈ s'.handles, w ∈ s.handles)
    (hpopped : ∀ w ∈ s.handles, w ∉ s'.handles → w ∈ s.ended)
    (hcompleted : ∀ w ∈ s'.completed, w ∈ s.workers ∧ (w ∈ s'.handles →
      ∃ k job', Function.update γ i (some (job, .call phase')) k = some (job', .call (.midway w))))
    (hreturned : ∀ k ∈ s'.returned, s.started = true ∧ ∀ w ∈ s.workers, w ∈ s.ended) :
    HandlesKept s' (Function.update γ i (some (job, .call phase'))) where
  worker k job' phase hk := by
    rcases update_eq_some.mp hk with ⟨_, hk⟩ | ⟨_, hk⟩
    · cases hk
    · rw [hw]
      exact h.worker k job' phase hk
  call k job' phase hk := by
    rw [hs]
    rcases update_eq_some.mp hk with ⟨rfl, heq⟩ | ⟨hne, hk⟩
    · cases heq
      obtain ⟨hjob, hstarted, _⟩ := h.call k job _ hi
      exact ⟨hjob, hstarted, hself⟩
    · obtain ⟨hjob, hstarted, _⟩ := h.call k job' phase hk
      exact ⟨hjob, hstarted, hothers k job' phase hne hk⟩
  gone := by
    rw [hw, he]
    exact h.gone_update (h.not_ended hi)
  nodup := hnodup
  handles w hmem := hw ▸ h.handles w (hhandles w hmem)
  popped w hworker hnot := by
    rw [hw] at hworker
    rw [he]
    by_cases hmem : w ∈ s.handles
    · exact hpopped w hmem hnot
    · exact h.popped w hworker hmem
  completed w hmem := by
    rw [hw]
    exact hcompleted w hmem
  returned k hmem := by
    rw [hs, hw, he]
    exact hreturned k hmem

/-- A step of a call that isn't between a poll and its pop, and finds no handle ready. -/
theorem stay (h : HandlesKept s γ) {job : BusJob Msg} {phase phase' : CallPhase}
    (hi : γ i = some (job, .call phase)) (hmidway : ∀ w, phase ≠ .midway w)
    (hw : s'.workers = s.workers) (he : s'.ended = s.ended) (hs : s'.started = s.started)
    (hh : s'.handles = s.handles) (hc : s'.completed = s.completed) (hself : phase'.Holds s' i)
    (hothers : ∀ k job phase, k ≠ i → γ k = some (job, .call phase) → phase.Holds s' k)
    (hreturned : ∀ k ∈ s'.returned, s.started = true ∧ ∀ w ∈ s.workers, w ∈ s.ended) :
    HandlesKept s' (Function.update γ i (some (job, .call phase'))) := by
  refine h.callStep hi hw he hs hself hothers (hh ▸ h.nodup) (fun w hmem => hh ▸ hmem)
    (fun w hmem hnot => absurd (hh ▸ hmem) hnot) ?_ hreturned
  rw [hc, hh]
  refine h.completed_update fun job' w hk => ?_
  cases hi.symm.trans hk
  exact hmidway w rfl

theorem call_step (h : HandlesKept s γ) {job : BusJob Msg} {phase : CallPhase}
    (hi : γ i = some (job, .call phase)) {op : CallOp} {reply : CallRet op}
    (ha : phase.Allowed op) (hc : BusState.Calls i op reply s s') :
    HandlesKept s' (Function.update γ i (some (job, .call (phase.next op reply)))) := by
  obtain ⟨hjob, hstarted, hholds⟩ := h.call i job phase hi
  -- Where the calls' phases say nothing that the step changes.
  have same : ∀ k job phase, k ≠ i → γ k = some (job, .call phase) → phase.Holds s k :=
    fun k job phase _ hk => (h.call k job phase hk).2.2
  cases op with
  | signal =>
    obtain rfl := CallPhase.allowed_signal.mp ha
    obtain rfl := hc
    refine h.stay hi nofun rfl rfl rfl rfl rfl trivial (fun k job phase hne hk => ?_) h.returned
    cases phase <;> exact same k job _ hne hk
  | lock =>
    obtain rfl := CallPhase.allowed_lock.mp ha
    obtain ⟨hfree, rfl⟩ := hc
    refine h.stay hi nofun rfl rfl rfl rfl rfl rfl (fun k job phase hne hk => ?_) h.returned
    have hholds := same k job phase hne hk
    cases phase with
    | called | signalled | unlocked | finished => exact hholds
    | holding => exact absurd (hfree.symm.trans hholds) nofun
    | waiting _ | midway _ | drained => exact absurd (hfree.symm.trans hholds.1) nofun
  | last =>
    obtain rfl := CallPhase.allowed_last.mp ha
    obtain ⟨hlast, rfl⟩ := hc
    have hself : (CallPhase.next .holding .last reply).Holds s' i := by
      cases reply with
      | none => exact ⟨hholds, List.head?_eq_none_iff.mp hlast.symm⟩
      | some worker => exact ⟨hholds, hlast.symm⟩
    exact h.stay hi nofun rfl rfl rfl rfl rfl hself same h.returned
  | poll worker =>
    obtain rfl := CallPhase.allowed_poll.mp ha
    cases reply with
    | false =>
      obtain rfl := hc
      exact h.stay hi nofun rfl rfl rfl rfl rfl hholds same h.returned
    | true =>
      obtain ⟨hended, rfl⟩ := hc
      refine h.callStep hi rfl rfl rfl ⟨hholds.1, rfl, hholds.2, hended⟩
        (fun k job phase hne hk => ?_) h.nodup (fun w hmem => hmem)
        (fun w hmem hnot => absurd hmem hnot) (fun w hmem => ?_) h.returned
      · apply h.others hholds.1 hne hk
        exact ⟨rfl, rfl⟩
      rcases List.mem_cons.mp hmem with rfl | hmem
      · exact ⟨(h.gone w hended).1, fun _ => ⟨i, job, Function.update_self ..⟩⟩
      · obtain ⟨hworker, hwait⟩ := h.completed w hmem
        refine ⟨hworker, fun hin => ?_⟩
        -- The lock's holder waits, so no call is between a poll and its pop.
        obtain ⟨k, job', hk⟩ := hwait hin
        have hne : k ≠ i := ne_of_eq hi hk nofun
        rcases h.alone hholds.1 hk hne with hp | hp | hp | hp <;> cases hp
  | pop =>
    obtain ⟨worker, rfl⟩ := CallPhase.allowed_pop.mp ha
    obtain rfl := hc
    obtain ⟨hlock, _, hhead, hended⟩ := hholds
    obtain ⟨rest, hrest⟩ := List.head?_eq_some_iff.mp hhead
    have hnodup := h.nodup
    rw [hrest] at hnodup
    refine h.callStep hi rfl rfl rfl hlock
      (fun k job phase hne hk => ?_) ?_ ?_ ?_ ?_ h.returned
    · apply h.others hlock hne hk
      exact ⟨rfl, rfl⟩
    · simpa [hrest] using (List.nodup_cons.mp hnodup).2
    · exact fun w hmem => List.mem_of_mem_tail hmem
    · intro w hmem hnot
      rw [hrest] at hmem
      rcases List.mem_cons.mp hmem with rfl | hmem
      · exact hended
      · exact absurd (by simpa [hrest] using hmem) hnot
    · intro w hmem
      obtain ⟨hworker, hwait⟩ := h.completed w hmem
      refine ⟨hworker, fun hin => ?_⟩
      obtain ⟨k, job', hk⟩ := hwait (List.mem_of_mem_tail hin)
      have hne : k ≠ i := by
        rintro rfl
        rw [hi] at hk
        cases hk
        exact (List.nodup_cons.mp hnodup).1 (by simpa [hrest] using hin)
      rcases h.alone hlock hk hne with hp | hp | hp | hp <;> cases hp
  | unlock =>
    obtain rfl := CallPhase.allowed_unlock.mp ha
    obtain rfl := hc
    refine h.stay hi nofun rfl rfl rfl rfl rfl ?_ (fun k job phase hne hk => ?_) h.returned
    · exact fun w hworker => h.popped w hworker (by simp [hholds.2])
    · apply h.others hholds.1 hne hk
      exact ⟨rfl, rfl⟩
  | returned =>
    obtain rfl := CallPhase.allowed_returned.mp ha
    obtain rfl := hc
    refine h.stay hi nofun rfl rfl rfl rfl rfl hholds (fun k job phase hne hk => ?_) ?_
    · cases phase <;> exact same k job _ hne hk
    · intro k hmem
      rcases List.mem_cons.mp hmem with rfl | hmem
      · exact ⟨hstarted, hholds⟩
      · exact h.returned k hmem
  | still => exact nomatch reply

theorem work_step (h : HandlesKept s γ) {job : BusJob Msg} {phase : WorkPhase}
    (hi : γ i = some (job, .work phase)) (op : WorkOp Msg) (reply : WorkRet Msg op) :
    HandlesKept (s.worked i op reply)
      (Function.update γ i (some (job, .work (phase.next op reply)))) where
  worker k job' phase' hk := by
    rcases update_eq_some.mp hk with ⟨rfl, heq⟩ | ⟨_, hk⟩
    · cases heq
      exact h.worker k job phase hi
    · exact h.worker k job' phase' hk
  call k job' phase' hk := by
    rcases update_eq_some.mp hk with ⟨rfl, heq⟩ | ⟨_, hk⟩
    · cases heq
    · obtain ⟨hjob, hstarted, hholds⟩ := h.call k job' phase' hk
      refine ⟨hjob, hstarted, ?_⟩
      cases phase' <;> exact hholds
  gone := h.gone_update (h.not_ended hi)
  nodup := h.nodup
  handles := h.handles
  popped := h.popped
  completed := h.completed_update fun job' w hk => by cases hi.symm.trans hk
  returned := h.returned

/-- A worker starts with the bus, before any call. -/
theorem launch_worker (h : HandlesKept s γ) (hi : γ i = none) (hnew : i ∉ s.workers)
    (hs : s.started = false) {job : BusJob Msg} (hjob : job.isWorker = true) :
    HandlesKept (s.spawn i job.phase) (Function.update γ i (some (job, job.start))) where
  worker k job' phase hk := by
    rcases update_eq_some.mp hk with ⟨rfl, heq⟩ | ⟨_, hk⟩
    · obtain ⟨rfl, _⟩ := Prod.mk.inj (Option.some.inj heq)
      exact ⟨hjob, List.mem_cons_self⟩
    · obtain ⟨hjob', hmem⟩ := h.worker k job' phase hk
      exact ⟨hjob', List.mem_cons_of_mem _ hmem⟩
  call k job' phase hk := by
    rcases update_eq_some.mp hk with ⟨rfl, heq⟩ | ⟨_, hk⟩
    · obtain ⟨rfl, heq⟩ := Prod.mk.inj (Option.some.inj heq)
      cases job with
      | shutdown => cases hjob
      | _ => cases heq
    · exact absurd (hs.symm.trans (h.call k job' phase hk).2.1) nofun
  gone w hmem := by
    obtain ⟨hworker, hnone⟩ := h.gone w hmem
    have hne : w ≠ i := fun heq => hnew (heq ▸ hworker)
    exact ⟨List.mem_cons_of_mem _ hworker, by rwa [Function.update_of_ne hne]⟩
  nodup := List.nodup_cons.mpr ⟨fun hmem => hnew (h.handles i hmem), h.nodup⟩
  handles w hmem := by
    rcases List.mem_cons.mp hmem with rfl | hmem
    · exact List.mem_cons_self
    · exact List.mem_cons_of_mem _ (h.handles w hmem)
  popped w hworker hnot := by
    rw [BusState.spawn, List.mem_cons, not_or] at hnot
    exact h.popped w ((List.mem_cons.mp hworker).resolve_left hnot.1) hnot.2
  completed w hmem := by
    obtain ⟨hworker, hwait⟩ := h.completed w hmem
    refine ⟨List.mem_cons_of_mem _ hworker, fun hin => ?_⟩
    have hne : w ≠ i := fun heq => hnew (heq ▸ hworker)
    obtain ⟨k, job', hk⟩ := hwait ((List.mem_cons.mp hin).resolve_left hne)
    exact absurd (hs.symm.trans (h.call k job' _ hk).2.1) nofun
  returned k hmem := absurd (hs.symm.trans (h.returned k hmem).1) nofun

theorem launch_call (h : HandlesKept s γ) (hi : γ i = none) (hs : s.started = true)
    {job : BusJob Msg} (hjob : job.isWorker = false) (hnew : i ∉ s.workers) :
    HandlesKept s (Function.update γ i (some (job, .call .called))) where
  worker k job' phase hk := by
    rcases update_eq_some.mp hk with ⟨_, heq⟩ | ⟨_, hk⟩
    · cases heq
    · exact h.worker k job' phase hk
  call k job' phase hk := by
    rcases update_eq_some.mp hk with ⟨rfl, heq⟩ | ⟨_, hk⟩
    · cases heq
      exact ⟨hjob, hs, trivial⟩
    · exact h.call k job' phase hk
  gone := h.gone_update fun hmem => hnew (h.gone i hmem).1
  nodup := h.nodup
  handles := h.handles
  popped := h.popped
  completed := h.completed_update fun job' w hk => by cases hi.symm.trans hk
  returned := h.returned

/-- A worker's end leaves its handle where it is. -/
theorem leave_worker (h : HandlesKept s γ) {job : BusJob Msg} {phase : WorkPhase}
    (hi : γ i = some (job, .work phase)) :
    HandlesKept { s with ended := i :: s.ended } (Function.update γ i none) where
  worker k job' phase' hk := by
    rcases update_eq_some.mp hk with ⟨_, heq⟩ | ⟨_, hk⟩
    · cases heq
    · exact h.worker k job' phase' hk
  call k job' phase' hk := by
    rcases update_eq_some.mp hk with ⟨_, heq⟩ | ⟨_, hk⟩
    · cases heq
    · obtain ⟨hjob, hstarted, hholds⟩ := h.call k job' phase' hk
      refine ⟨hjob, hstarted, ?_⟩
      cases phase' with
      | midway worker =>
        obtain ⟨hlock, hmidway, hhead, hended⟩ := hholds
        exact ⟨hlock, hmidway, hhead, List.mem_cons_of_mem _ hended⟩
      | unlocked | finished => exact fun w hmem => List.mem_cons_of_mem _ (hholds w hmem)
      | _ => exact hholds
  gone w hmem := by
    rcases List.mem_cons.mp hmem with rfl | hmem
    · exact ⟨(h.worker w job phase hi).2, Function.update_self ..⟩
    · exact h.gone_update (h.not_ended hi) w hmem
  nodup := h.nodup
  handles := h.handles
  popped w hworker hnot := List.mem_cons_of_mem _ (h.popped w hworker hnot)
  completed := h.completed_update fun job' w hk => by cases hi.symm.trans hk
  returned k hmem := by
    obtain ⟨hstarted, hall⟩ := h.returned k hmem
    exact ⟨hstarted, fun w hw => List.mem_cons_of_mem _ (hall w hw)⟩

/-- A call that returned, or is dropped at an await, takes no handle with it. -/
theorem leave_call (h : HandlesKept s γ) {job : BusJob Msg} {phase : CallPhase}
    (hi : γ i = some (job, .call phase)) (hawait : s.midway ≠ some i) :
    HandlesKept (s.dropCall i) (Function.update γ i none) where
  worker k job' phase' hk := by
    rcases update_eq_some.mp hk with ⟨_, heq⟩ | ⟨_, hk⟩
    · cases heq
    · exact h.worker k job' phase' hk
  call k job' phase' hk := by
    rcases update_eq_some.mp hk with ⟨_, heq⟩ | ⟨hne, hk⟩
    · cases heq
    · obtain ⟨hjob, hstarted, hholds⟩ := h.call k job' phase' hk
      refine ⟨hjob, hstarted, ?_⟩
      -- The lock is freed only if it was the dropped call's.
      have keep : s.lock = some k → (s.dropCall i).lock = some k := by
        intro hlock
        rw [BusState.dropCall, if_neg, hlock]
        rw [hlock]
        exact fun heq => hne (Option.some.inj heq)
      cases phase' with
      | holding => exact keep hholds
      | waiting _ | drained => exact ⟨keep hholds.1, hholds.2⟩
      | midway _ => exact ⟨keep hholds.1, hholds.2⟩
      | _ => exact hholds
  gone := h.gone_update (h.not_ended hi)
  nodup := h.nodup
  handles := h.handles
  popped := h.popped
  completed := h.completed_update fun job' w hk => hawait (h.call i job' _ hk).2.2.2.1
  returned := h.returned

theorem start (h : HandlesKept s γ) : HandlesKept { s with started := true } γ where
  worker := h.worker
  call k job phase hk := by
    obtain ⟨hjob, _, hholds⟩ := h.call k job phase hk
    refine ⟨hjob, rfl, ?_⟩
    cases phase <;> exact hholds
  gone := h.gone
  nodup := h.nodup
  handles := h.handles
  popped := h.popped
  completed := h.completed
  returned k hmem := ⟨rfl, (h.returned k hmem).2⟩

end HandlesKept

/-! ## The looks -/

/-- A worker starts something only after a look that showed no signal. -/
structure Looked (s : BusState) (γ : BusPhases Msg) : Prop where
  phases : ∀ w job phase, γ w = some (job, .work phase) → s.phases w = phase
  seen : ∀ w job phase, γ w = some (job, .work phase) → phase ≠ .stopped → s.seen w = 0
  unsignalled : s.started = false → s.version = 0
  before : s.version = 0 → ∀ w, s.startsAfter w = 0
  after : s.version ≠ 0 → ∀ w, s.startsAfter w + (if s.phases w = .armed then 1 else 0) ≤
    if s.armedAtStop w = true then 1 else 0

namespace Looked

variable {s s' : BusState} {γ : BusPhases Msg} {i : Nat}

theorem fresh (h : s.Fresh) : Looked s (fun _ => none : BusPhases Msg) where
  phases := nofun
  seen := nofun
  unsignalled _ := h.1
  before _ w := by rw [h.2.2.2.2.2.2.2.2]
  after hv := absurd h.1 hv

/-- What the looks depend on stays. -/
theorem frame (h : Looked s γ) {q : Option (BusJob Msg × BusPhase)}
    (hq : ∀ job phase, q ≠ some (job, .work phase))
    (hs : s'.version = s.version ∧ s'.seen = s.seen ∧ s'.phases = s.phases ∧
      s'.armedAtStop = s.armedAtStop ∧ s'.startsAfter = s.startsAfter)
    (hstarted : s'.started = false → s.started = false) :
    Looked s' (Function.update γ i q) := by
  obtain ⟨hversion, hseen, hphases, harmed, hstarts⟩ := hs
  constructor
  · intro w job phase hw
    rcases update_eq_some.mp hw with ⟨_, heq⟩ | ⟨_, hw⟩
    · exact absurd heq (hq job phase)
    · rw [hphases]
      exact h.phases w job phase hw
  · intro w job phase hw hne
    rcases update_eq_some.mp hw with ⟨_, heq⟩ | ⟨_, hw⟩
    · exact absurd heq (hq job phase)
    · rw [hseen]
      exact h.seen w job phase hw hne
  · intro hfalse
    rw [hversion]
    exact h.unsignalled (hstarted hfalse)
  · rw [hversion, hstarts]
    exact h.before
  · rw [hversion, hstarts, hphases, harmed]
    exact h.after

/-- The first signal finds some workers armed; a later one changes nothing. -/
theorem signal (h : Looked s γ) (hs : s.started = true) {job : BusJob Msg} {phase : CallPhase} :
    Looked s.signalled (Function.update γ i (some (job, .call phase))) where
  phases w job' phase' hw := by
    rcases update_eq_some.mp hw with ⟨_, heq⟩ | ⟨_, hw⟩
    · cases heq
    · exact h.phases w job' phase' hw
  seen w job' phase' hw hne := by
    rcases update_eq_some.mp hw with ⟨_, heq⟩ | ⟨_, hw⟩
    · cases heq
    · exact h.seen w job' phase' hw hne
  unsignalled hfalse := absurd (hs.symm.trans hfalse) nofun
  before hv := absurd hv (Nat.succ_ne_zero _)
  after _ w := by
    by_cases hv : s.version = 0
    · have hzero : s.signalled.startsAfter w = 0 := h.before hv w
      have harmed : s.signalled.armedAtStop w = decide (s.phases w = .armed) := by
        simp only [BusState.signalled, if_pos hv]
      have hphase : s.signalled.phases w = s.phases w := rfl
      simp [hzero, harmed, hphase]
    · have harmed : s.signalled.armedAtStop = s.armedAtStop := by
        simp only [BusState.signalled, if_neg hv]
      rw [harmed]
      exact h.after hv w

theorem call_step (h : Looked s γ) (hs : s.started = true) {job : BusJob Msg} {phase : CallPhase}
    {op : CallOp} {reply : CallRet op} (hc : BusState.Calls i op reply s s') :
    Looked s' (Function.update γ i (some (job, .call phase))) := by
  -- Only the signal has to do with the looks.
  have frame : (s'.version = s.version ∧ s'.seen = s.seen ∧ s'.phases = s.phases ∧
      s'.armedAtStop = s.armedAtStop ∧ s'.startsAfter = s.startsAfter) ∧ s'.started = s.started →
      Looked s' (Function.update γ i (some (job, .call phase))) :=
    fun hsame => h.frame nofun hsame.1 fun hfalse => hsame.2.symm.trans hfalse
  cases op with
  | signal =>
    obtain rfl := hc
    exact h.signal hs
  | lock | last =>
    obtain ⟨_, rfl⟩ := hc
    exact frame ⟨⟨rfl, rfl, rfl, rfl, rfl⟩, rfl⟩
  | poll worker =>
    cases reply with
    | true =>
      obtain ⟨_, rfl⟩ := hc
      exact frame ⟨⟨rfl, rfl, rfl, rfl, rfl⟩, rfl⟩
    | false =>
      obtain rfl := hc
      exact frame ⟨⟨rfl, rfl, rfl, rfl, rfl⟩, rfl⟩
  | pop | unlock | returned =>
    obtain rfl := hc
    exact frame ⟨⟨rfl, rfl, rfl, rfl, rfl⟩, rfl⟩
  | still => exact nomatch reply

/-- After the signal no look arms a worker. -/
theorem armed_of_next (h : Looked s γ) (hv : s.version ≠ 0) {job : BusJob Msg} {phase : WorkPhase}
    (hi : γ i = some (job, .work phase)) {op : WorkOp Msg} {reply : WorkRet Msg op}
    (ha : phase.Allowed op) (hsees : s.Sees i op reply) (hnext : phase.next op reply = .armed) :
    phase = .armed := by
  cases op with
  | changed _ =>
    have hne : s.version ≠ s.seen i := by rwa [h.seen i job phase hi ha]
    obtain rfl : reply = true := hsees.mpr hne
    cases hnext
  | slept _ =>
    cases reply with
    | none => cases hnext
    | some _ => exact hnext
  | dispatching op =>
    cases op with
    | stopping =>
      have hne : s.version ≠ s.seen i := by rwa [h.seen i job phase hi ha]
      obtain rfl : reply = true := hsees.mpr hne
      cases hnext
    | now => exact hnext
    | _ => cases hnext
  | stopping | next | today => cases hnext
  | handling _ | maintaining _ | still => exact hnext

theorem work_step (h : Looked s γ) {job : BusJob Msg} {phase : WorkPhase}
    (hi : γ i = some (job, .work phase)) {op : WorkOp Msg} {reply : WorkRet Msg op}
    (ha : phase.Allowed op) (hsees : s.Sees i op reply) :
    Looked (s.worked i op reply)
      (Function.update γ i (some (job, .work (phase.next op reply)))) := by
  have hphase := h.phases i job phase hi
  have hphases : (s.worked i op reply).phases =
      Function.update s.phases i (phase.next op reply) := by
    rw [← hphase]
    rfl
  constructor
  · intro w job' phase' hw
    rw [hphases]
    rcases update_eq_some.mp hw with ⟨rfl, heq⟩ | ⟨hne, hw⟩
    · cases heq
      rw [Function.update_self]
    · rw [Function.update_of_ne hne]
      exact h.phases w job' phase' hw
  · intro w job' phase' hw hstopped
    rcases update_eq_some.mp hw with ⟨rfl, heq⟩ | ⟨hne, hw⟩
    · cases heq
      have hseen := h.seen w job phase hi (WorkPhase.ne_stopped ha hstopped)
      cases op with
      | changed _ =>
        cases reply with
        | true => exact absurd rfl hstopped
        | false =>
          have hversion : s.version = s.seen w := by
            by_contra hne
            exact absurd (hsees.mpr hne) nofun
          simp only [BusState.worked, Function.update_self, hversion, hseen]
      | _ => exact hseen
    · have hseen := h.seen w job' phase' hw hstopped
      cases op with
      | changed _ => simpa only [BusState.worked, Function.update_of_ne hne] using hseen
      | _ => exact hseen
  · exact h.unsignalled
  · intro hv
    have hstarts : (s.worked i op reply).startsAfter = s.startsAfter :=
      if_neg fun hand => hand.1 hv
    rw [hstarts]
    exact h.before hv
  · intro hv w
    have hbefore := h.after hv w
    rw [hphases]
    show (if s.version ≠ 0 ∧ op.starts reply = true
      then Function.update s.startsAfter i (s.startsAfter i + 1) else s.startsAfter) w + _ ≤ _
    by_cases hw : w = i
    · subst hw
      rw [Function.update_self]
      by_cases hstarts : op.starts reply = true
      · obtain ⟨rfl, hidle⟩ := WorkPhase.of_starts ha hstarts
        rw [if_pos ⟨hv, hstarts⟩, Function.update_self, hidle, if_neg nofun]
        rwa [hphase, if_pos rfl] at hbefore
      · rw [if_neg fun hand => hstarts hand.2]
        refine Nat.le_trans (Nat.add_le_add_left ?_ _) hbefore
        by_cases harmed : phase.next op reply = .armed
        · rw [hphase, h.armed_of_next hv hi ha hsees harmed, if_pos rfl]
          split <;> decide
        · rw [if_neg harmed]
          exact Nat.zero_le _
    · rw [Function.update_of_ne hw]
      split
      · rwa [Function.update_of_ne hw]
      · exact hbefore

/-- A worker starts before any signal. -/
theorem launch_worker (h : Looked s γ) (hs : s.started = false) (job : BusJob Msg) :
    Looked (s.spawn i job.phase) (Function.update γ i (some (job, .work job.phase))) := by
  have hversion := h.unsignalled hs
  constructor
  · intro w job' phase hw
    rcases update_eq_some.mp hw with ⟨rfl, heq⟩ | ⟨hne, hw⟩
    · cases heq
      exact Function.update_self ..
    · exact (Function.update_of_ne hne ..).trans (h.phases w job' phase hw)
  · intro w job' phase hw hstopped
    rcases update_eq_some.mp hw with ⟨rfl, _⟩ | ⟨hne, hw⟩
    · exact (Function.update_self ..).trans hversion
    · exact (Function.update_of_ne hne ..).trans (h.seen w job' phase hw hstopped)
  · exact h.unsignalled
  · exact h.before
  · exact fun hv => absurd hversion hv

end Looked

/-! ## Shutdown means stopped -/

theorem bus_keeps : Keeps (bus Msg) (fun _ _ => True) (fun _ => busProtocol Msg) BusJob.start
    fun s γ => HandlesKept s γ ∧ Looked s γ where
  body := body_obeys
  launch := by
    rintro s s' γ i job ⟨hh, hl⟩ hi ⟨hnew, hlaunch⟩
    cases hjob : job.isWorker with
    | true =>
      rw [if_pos hjob] at hlaunch
      obtain ⟨hs, rfl⟩ := hlaunch
      have hstart : job.start = .work job.phase := by
        cases job with
        | shutdown => cases hjob
        | _ => rfl
      refine ⟨hh.launch_worker hi hnew hs hjob, ?_⟩
      rw [hstart]
      exact hl.launch_worker hs job
    | false =>
      rw [if_neg (by simp [hjob])] at hlaunch
      obtain ⟨hs, rfl⟩ := hlaunch
      have hstart : job.start = .call .called := by
        cases job with
        | shutdown => rfl
        | _ => cases hjob
      rw [hstart]
      refine ⟨hh.launch_call hi hs hjob hnew, ?_⟩
      exact hl.frame nofun ⟨rfl, rfl, rfl, rfl, rfl⟩ id
  exec := by
    rintro s s' γ i job rest g op reply ⟨hh, hl⟩ _ hi ha hexec _
    refine ⟨trivial, ?_⟩
    cases g with
    | call phase =>
      cases op with
      | work op => exact ha.elim
      | call op => exact ⟨hh.call_step hi ha hexec, hl.call_step (hh.call i job phase hi).2.1 hexec⟩
    | work phase =>
      cases op with
      | call op => exact ha.elim
      | work op =>
        obtain ⟨hsees, rfl⟩ := hexec
        exact ⟨hh.work_step hi op reply, hl.work_step hi ha hsees⟩
  leave := by
    rintro s s' γ i job g ⟨hh, hl⟩ hi hleave
    cases g with
    | work phase =>
      change if job.isWorker = true then _ else _ at hleave
      rw [if_pos (hh.worker i job phase hi).1] at hleave
      obtain rfl := hleave
      exact ⟨hh.leave_worker hi, hl.frame nofun ⟨rfl, rfl, rfl, rfl, rfl⟩ id⟩
    | call phase =>
      change if job.isWorker = true then _ else _ at hleave
      rw [if_neg (by simp [(hh.call i job phase hi).1])] at hleave
      obtain ⟨hawait, rfl⟩ := hleave
      exact ⟨hh.leave_call hi hawait, hl.frame nofun ⟨rfl, rfl, rfl, rfl, rfl⟩ id⟩
  env := by
    rintro s s' γ _ ⟨hh, hl⟩ rfl _
    exact ⟨hh.start, hl.phases, hl.seen, nofun, hl.before, hl.after⟩

theorem no_proc {s : BusRun Msg} {γ : BusPhases Msg}
    (ht : ∀ i, System.Tracked (fun _ => busProtocol Msg) (s.procs i) (γ i)) {w : Nat}
    (hw : γ w = none) : s.procs w = none := by
  have hnone := ht w
  rw [hw] at hnone
  cases hp : s.procs w with
  | none => rfl
  | some p =>
    rw [hp] at hnone
    exact hnone.elim

/-- Whatever calls there are, and wherever they are dropped: a call returned only when no worker is
    left, a handle is polled no more once it was ready, a worker whose handle the bus no longer
    holds has ended, and after the signal a worker starts nothing, or only what it had looked for
    right before the signal. -/
theorem shutdown_stops {s : BusRun Msg}
    (h : (bus Msg).Reach BusState.Fresh (fun _ _ => True) s) :
    (∀ i ∈ s.shared.returned, ∀ w ∈ s.shared.workers, s.procs w = none) ∧
    (∀ i job w next, s.procs i = some ⟨job, .call (.call (.poll w)) next⟩ →
      w ∉ s.shared.completed) ∧
    (∀ w ∈ s.shared.workers, w ∉ s.shared.handles → s.procs w = none) ∧
    (s.shared.version ≠ 0 → ∀ w, s.shared.startsAfter w ≤
      if s.shared.armedAtStop w = true then 1 else 0) := by
  obtain ⟨γ, ht, hh, hl⟩ := h.tracked bus_keeps fun sh h0 => ⟨.fresh h0, .fresh h0⟩
  have ended : ∀ w ∈ s.shared.ended, s.procs w = none :=
    fun w hw => no_proc ht (hh.gone w hw).2
  refine ⟨?_, ?_, ?_, ?_⟩
  · exact fun i hi w hw => ended w ((hh.returned i hi).2 w hw)
  · intro i job w next hp hcompleted
    have hi := ht i
    rw [hp] at hi
    obtain ⟨g, hγ, ha, _⟩ := System.tracked_some hi
    cases g with
    | work phase => exact ha
    | call phase =>
      obtain rfl := CallPhase.allowed_poll.mp ha
      obtain ⟨_, _, hlock, hhead⟩ := hh.call i job _ hγ
      obtain ⟨k, job', hk⟩ := (hh.completed w hcompleted).2 (List.mem_of_mem_head? hhead)
      -- The call between a poll and its pop would hold the lock too.
      have hne : k ≠ i := ne_of_eq hγ hk nofun
      rcases hh.alone hlock hk hne with hp | hp | hp | hp <;> cases hp
  · exact fun w hw hnot => ended w (hh.popped w hw hnot)
  · intro hv w
    exact (Nat.le_add_right _ _).trans (hl.after hv w)

/-- An endpoint's worker and two calls: the first is dropped while it waits for the worker, and
    the second returns. -/
theorem dropped_run : ∃ s : BusRun Unit,
    (bus Unit).Reach BusState.Fresh (fun _ _ => True) s ∧ s.shared.returned = [2] ∧
    s.shared.workers = [0] ∧ s.shared.version = 2 ∧ s.shared.armedAtStop 0 = false := by
  let worker : BusJob Unit := .endpoint ⟨"billing", .default, .plain "billing" []⟩ billing 1 1
  have h0 : (bus Unit).Reach BusState.Fresh (fun _ _ => True) ⟨fun _ => none,
      ⟨0, fun _ => 0, false, [], [], none, none, [], [], [], fun _ => .idle, fun _ => false,
        fun _ => 0⟩⟩ := .init ⟨rfl, rfl, rfl, rfl, rfl, rfl, rfl, rfl, rfl⟩
  have h1 := h0.launch 0 worker rfl ⟨nofun, rfl, rfl⟩ trivial
  have h2 := h1.env () rfl trivial
  have h3 := h2.launch 1 (.shutdown 1 1) rfl ⟨by decide, rfl, rfl⟩ trivial
  have h4 := h3.exec 1 (.call .signal) () rfl rfl trivial
  have h5 := h4.exec 1 (.call .lock) () rfl ⟨rfl, rfl⟩ trivial
  have h6 := h5.exec 1 (.call .last) (some 0 : Option Nat) rfl ⟨rfl, rfl⟩ trivial
  have h7 := h6.exec 1 (.call (.poll 0)) false rfl rfl trivial
  have h8 := h7.leave 1 rfl ⟨nofun, rfl⟩ trivial
  have h9 := h8.exec 0 (.work (.changed true)) true rfl ⟨iff_of_true rfl Nat.one_ne_zero, rfl⟩ trivial
  have h10 := h9.leave 0 rfl rfl trivial
  have h11 := h10.launch 2 (.shutdown 1 2) rfl ⟨by decide, rfl, rfl⟩ trivial
  have h12 := h11.exec 2 (.call .signal) () rfl rfl trivial
  have h13 := h12.exec 2 (.call .lock) () rfl ⟨rfl, rfl⟩ trivial
  have h14 := h13.exec 2 (.call .last) (some 0 : Option Nat) rfl ⟨rfl, rfl⟩ trivial
  have h15 := h14.exec 2 (.call (.poll 0)) true rfl ⟨List.mem_cons_self, rfl⟩ trivial
  have h16 := h15.exec 2 (.call .pop) () rfl rfl trivial
  have h17 := h16.exec 2 (.call .last) (none : Option Nat) rfl ⟨rfl, rfl⟩ trivial
  have h18 := h17.exec 2 (.call .unlock) () rfl rfl trivial
  have h19 := h18.exec 2 (.call .returned) () rfl rfl trivial
  exact ⟨_, h19, rfl, rfl, rfl, rfl⟩

theorem shutdown_stops_run : ∃ s : BusRun Unit,
    s.shared.returned = [2] ∧ s.procs 0 = none ∧ s.shared.startsAfter 0 = 0 := by
  obtain ⟨s, h, hreturned, hworkers, hversion, harmed⟩ := dropped_run
  have hstarts := (shutdown_stops h).2.2.2 (by simp [hversion]) 0
  rw [harmed] at hstarts
  refine ⟨s, hreturned, (shutdown_stops h).1 2 ?_ 0 ?_, Nat.le_zero.mp hstarts⟩
  · rw [hreturned]
    exact List.mem_cons_self
  · rw [hworkers]
    exact List.mem_cons_self

/-- The signal comes between the two polls of an endpoint's `select!`, and a delivery is ready. -/
theorem not_shutdown_stops : ¬∀ s : BusRun Unit,
    (bus Unit).Reach BusState.Fresh (fun _ _ => True) s → s.shared.version ≠ 0 →
      ∀ w receiver source polls turns rest,
        s.procs w = some ⟨.endpoint receiver source polls turns, rest⟩ →
          s.shared.startsAfter w = 0 := by
  let worker : BusJob Unit := .endpoint ⟨"billing", .default, .plain "billing" []⟩ billing 1 1
  have h0 : (bus Unit).Reach BusState.Fresh (fun _ _ => True) ⟨fun _ => none,
      ⟨0, fun _ => 0, false, [], [], none, none, [], [], [], fun _ => .idle, fun _ => false,
        fun _ => 0⟩⟩ := .init ⟨rfl, rfl, rfl, rfl, rfl, rfl, rfl, rfl, rfl⟩
  have h1 := h0.launch 0 worker rfl ⟨nofun, rfl, rfl⟩ trivial
  have h2 := h1.env () rfl trivial
  have h3 := h2.launch 1 (.shutdown 1 1) rfl ⟨by decide, rfl, rfl⟩ trivial
  have h4 := h3.exec 0 (.work (.changed true)) false rfl
    ⟨iff_of_false nofun fun h => h rfl, rfl⟩ trivial
  have h5 := h4.exec 1 (.call .signal) () rfl rfl trivial
  have h6 := h5.exec 0 (.work .next) (some (some (.ok ⟨orderShipped, 1⟩)) :
    Option (Option (Except TransportError Delivery))) rfl ⟨trivial, rfl⟩ trivial
  intro hall
  cases hall _ h6 nofun 0 _ _ _ _ _ rfl

end SisaMessaging.Runtime
