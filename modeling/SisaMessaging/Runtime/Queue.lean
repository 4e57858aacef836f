/-
  One in-memory endpoint's queue, step by step: pushes and the subscribers in `pop`.

  A push first puts its message into the queue and then notifies; a subscriber checks the queue and
  then waits for `ready`. `step` interleaves these steps of any number of pushes and subscribers, and
  a subscriber may be dropped while it waits. `Awake` asks that no subscriber sleeps while a message
  waits and no wake-up is on its way. It can fail, since two pushes may leave one permit for two
  subscribers that found the queue empty. `wakes`: it holds in every run in which subscribers go to
  sleep only when `Covered`, and each step without may lead to a state without it.
-/
import Mathlib.Logic.Relation
import SisaMessaging.Lib.Notify

namespace SisaMessaging.Runtime.InMemory

open SisaMessaging.Lib

/-- One endpoint's messages, and its subscribers' wake-ups. -/
structure Queue (ι π : Type) where
  pending : List π
  ready : Notify ι

/-- The pushes and the subscribers of a queue, by where they are in `push` and `pop`. -/
structure Traffic (ι π : Type) extends Queue ι π where
  /-- How many pushes are between their two steps. -/
  notifying : Nat
  /-- Subscribers that called `pop`, before their first check of the queue. -/
  called : List ι
  /-- Subscribers that found the queue empty and haven't looked at `ready` yet. -/
  empty : List ι
  /-- Subscribers that were woken or took the permit and haven't checked the queue since. -/
  alert : List ι

/-- A step of a push, of `pop` or of a dropped subscriber. -/
inductive Action (ι π : Type) where
  | pushBack (pending : π)
  | notifyOne
  | call (i : ι)
  | check (i : ι)
  | poll (i : ι)
  | resume (i : ι)
  | cancel (i : ι)

namespace Traffic

variable {ι π : Type}

def new : Traffic ι π := ⟨⟨[], .new⟩, 0, [], [], []⟩

/-- The subscribers in `pop`. -/
def popping (traffic : Traffic ι π) : List ι :=
  traffic.called ++ traffic.empty ++ traffic.alert ++ traffic.ready.waiters ++ traffic.ready.woken

variable [DecidableEq ι]

/-- `pop_front`: `i` returns with the first message, or found the queue empty. -/
def popFront (traffic : Traffic ι π) (i : ι) : Traffic ι π :=
  match traffic.pending with
  | [] => { traffic with empty := traffic.empty ++ [i] }
  | _ :: pending => { traffic with pending }

def step (traffic : Traffic ι π) : Action ι π → Option (Traffic ι π)
  | .pushBack pending => some { traffic with
      pending := traffic.pending ++ [pending], notifying := traffic.notifying + 1 }
  | .notifyOne =>
    if traffic.notifying = 0 then none
    else some { traffic with
      ready := traffic.ready.notifyOne, notifying := traffic.notifying - 1 }
  | .call i =>
    if i ∈ traffic.popping then none
    else some { traffic with called := traffic.called ++ [i] }
  | .check i =>
    if i ∈ traffic.alert then some ({ traffic with alert := traffic.alert.erase i }.popFront i)
    else if i ∈ traffic.called then some ({ traffic with called := traffic.called.erase i }.popFront i)
    else none
  | .poll i =>
    if i ∈ traffic.empty then some { traffic with
      ready := traffic.ready.poll i
      empty := traffic.empty.erase i
      -- With the permit it goes round the loop again.
      alert := if traffic.ready.permit then traffic.alert ++ [i] else traffic.alert }
    else none
  | .resume i =>
    if i ∈ traffic.ready.woken then some { traffic with
      ready := traffic.ready.resume i, alert := traffic.alert ++ [i] }
    else none
  | .cancel i =>
    if i ∈ traffic.ready.waiters ++ traffic.ready.woken then
      some { traffic with ready := traffic.ready.cancel i }
    else none

/-- With messages in the queue and no push between its steps, no subscriber sleeps, unless one was
    woken or a permit is stored. -/
def Awake (traffic : Traffic ι π) : Prop :=
  traffic.pending ≠ [] → traffic.notifying = 0 → traffic.ready.waiters = [] ∨
    traffic.ready.woken ≠ [] ∨ traffic.alert ≠ [] ∨ traffic.ready.permit = true

/-- What the steps do, case by case. -/
inductive Does (traffic : Traffic ι π) : Action ι π → Traffic ι π → Prop where
  | pushBack (pending : π) : Does traffic (.pushBack pending) { traffic with
      pending := traffic.pending ++ [pending], notifying := traffic.notifying + 1 }
  | notifyOne : 0 < traffic.notifying → Does traffic .notifyOne { traffic with
      ready := traffic.ready.notifyOne, notifying := traffic.notifying - 1 }
  | call {i : ι} : i ∉ traffic.popping → Does traffic (.call i) { traffic with
      called := traffic.called ++ [i] }
  | firstCheck {i : ι} : i ∈ traffic.called →
      Does traffic (.check i) ({ traffic with called := traffic.called.erase i }.popFront i)
  | check {i : ι} : i ∈ traffic.alert →
      Does traffic (.check i) ({ traffic with alert := traffic.alert.erase i }.popFront i)
  | takePermit {i : ι} : i ∈ traffic.empty → traffic.ready.permit = true →
      Does traffic (.poll i) { traffic with
        ready := { traffic.ready with permit := false }
        empty := traffic.empty.erase i
        alert := traffic.alert ++ [i] }
  | wait {i : ι} : i ∈ traffic.empty → traffic.ready.permit = false →
      Does traffic (.poll i) { traffic with
        ready := { traffic.ready with waiters := traffic.ready.waiters ++ [i] }
        empty := traffic.empty.erase i }
  | resume {i : ι} : i ∈ traffic.ready.woken → Does traffic (.resume i) { traffic with
      ready := traffic.ready.resume i, alert := traffic.alert ++ [i] }
  | cancelWaiting {i : ι} : i ∈ traffic.ready.waiters → Does traffic (.cancel i) { traffic with
      ready := { traffic.ready with waiters := traffic.ready.waiters.erase i } }
  | cancelWoken {i : ι} : i ∈ traffic.ready.woken → Does traffic (.cancel i) { traffic with
      ready := (traffic.ready.resume i).notifyOne }

theorem step_does {traffic traffic' : Traffic ι π} {action : Action ι π}
    (hs : traffic.step action = some traffic') : traffic.Does action traffic' := by
  cases action with
  | pushBack pending =>
    cases hs
    exact .pushBack pending
  | notifyOne =>
    rw [step, Option.ite_none_left_eq_some] at hs
    obtain ⟨hnotifying, hs⟩ := hs
    cases hs
    exact .notifyOne (Nat.pos_of_ne_zero hnotifying)
  | call i =>
    rw [step, Option.ite_none_left_eq_some] at hs
    obtain ⟨hi, hs⟩ := hs
    cases hs
    exact .call hi
  | check i =>
    rw [step] at hs
    split at hs
    · cases hs
      exact .check ‹_›
    · rw [Option.ite_none_right_eq_some] at hs
      obtain ⟨hi, hs⟩ := hs
      cases hs
      exact .firstCheck hi
  | poll i =>
    rw [step, Option.ite_none_right_eq_some] at hs
    obtain ⟨hi, hs⟩ := hs
    cases hs
    by_cases hpermit : traffic.ready.permit = true
    · simp only [Notify.poll, if_pos hpermit]
      exact .takePermit hi hpermit
    · simp only [Notify.poll, if_neg hpermit]
      exact .wait hi (Bool.not_eq_true _ ▸ hpermit)
  | resume i =>
    rw [step, Option.ite_none_right_eq_some] at hs
    obtain ⟨hi, hs⟩ := hs
    cases hs
    exact .resume hi
  | cancel i =>
    rw [step, Option.ite_none_right_eq_some] at hs
    obtain ⟨hi, hs⟩ := hs
    cases hs
    rw [Notify.cancel]
    split
    · exact .cancelWaiting ‹_›
    · exact .cancelWoken ((List.mem_append.mp hi).resolve_left ‹_›)

/-! ## Going to sleep -/

/-- The subscribers with a wake-up, and the pushes that will notify. -/
def coming (traffic : Traffic ι π) : Nat :=
  traffic.ready.woken.length + traffic.alert.length + traffic.notifying

/-- Another subscriber may sleep: a push that will notify is left for it, or a check is coming for
    each message. -/
def Covered (traffic : Traffic ι π) : Prop :=
  traffic.ready.waiters.length < traffic.notifying ∨ traffic.pending.length ≤ traffic.coming

/-- The step doesn't make a subscriber sleep that isn't covered. -/
def Meets (traffic : Traffic ι π) (action : Action ι π) : Prop :=
  ∀ i, action = .poll i → traffic.ready.permit = false → traffic.Covered

/-- Each sleeping subscriber has a push that will notify, or each message a check that is coming. -/
structure Safe (traffic : Traffic ι π) : Prop where
  tidy : traffic.ready.Tidy
  covered : traffic.ready.waiters.length ≤ traffic.notifying ∨ traffic.pending.length ≤ traffic.coming

omit [DecidableEq ι] in
theorem Safe.awake {traffic : Traffic ι π} (h : traffic.Safe) : traffic.Awake := by
  intro hpending hnotifying
  have hlength := List.length_pos_iff.mpr hpending
  rcases h.covered with hcovered | hcovered
  · rw [hnotifying, Nat.le_zero, List.length_eq_zero_iff] at hcovered
    exact .inl hcovered
  · rw [coming, hnotifying] at hcovered
    by_cases hwoken : traffic.ready.woken = []
    · refine .inr (.inr (.inl fun halert => ?_))
      rw [hwoken, halert] at hcovered
      exact absurd hlength (by simpa using hcovered)
    · exact .inr (.inl hwoken)

omit [DecidableEq ι] in
/-- `pop_front` takes a message if there is one, and wakes nobody. -/
theorem popFront_counts (traffic : Traffic ι π) (i : ι) :
    (traffic.popFront i).pending.length = traffic.pending.length - 1 ∧
      (traffic.popFront i).ready = traffic.ready ∧
      (traffic.popFront i).notifying = traffic.notifying ∧
      (traffic.popFront i).alert = traffic.alert := by
  rw [popFront]
  split
  · rename_i hpending
    exact ⟨by simp [hpending], rfl, rfl, rfl⟩
  · rename_i hpending
    exact ⟨by simp [hpending], rfl, rfl, rfl⟩

theorem step_safe {traffic traffic' : Traffic ι π} {action : Action ι π} (h : traffic.Safe)
    (hs : traffic.step action = some traffic') (hm : traffic.Meets action) : traffic'.Safe := by
  obtain ⟨htidy, hcovered⟩ := h
  rw [coming] at hcovered
  cases step_does hs with
  | pushBack pending =>
    refine ⟨htidy, ?_⟩
    simp only [coming, List.length_append, List.length_singleton]
    omega
  | notifyOne _ =>
    refine ⟨htidy.notifyOne, ?_⟩
    simp only [coming]
    rcases traffic.ready.notifyOne_counts with ⟨hnone, hnotify⟩ | ⟨hwaiters, hwoken, -⟩
    · rw [hnotify, hnone]
      exact .inl (Nat.zero_le _)
    · omega
  | call _ => exact ⟨htidy, hcovered⟩
  | @firstCheck i hi =>
    obtain ⟨hpending, hready, hnotifying, halert⟩ :=
      popFront_counts { traffic with called := traffic.called.erase i } i
    refine ⟨hready ▸ htidy, ?_⟩
    rw [coming, hready, hnotifying, halert, hpending]
    dsimp only
    omega
  | @check i hi =>
    obtain ⟨hpending, hready, hnotifying, halert⟩ :=
      popFront_counts { traffic with alert := traffic.alert.erase i } i
    refine ⟨hready ▸ htidy, ?_⟩
    rw [coming, hready, hnotifying, halert, hpending]
    dsimp only
    rw [List.length_erase_of_mem hi]
    omega
  | takePermit hi hpermit =>
    -- A permit was stored, so nobody waits.
    refine ⟨fun hstored => (nomatch hstored), .inl ?_⟩
    rw [htidy hpermit]
    exact Nat.zero_le _
  | @wait i hi hpermit =>
    have hcover := hm i rfl hpermit
    rw [Covered, coming] at hcover
    refine ⟨fun hstored => absurd (hpermit.symm.trans hstored) Bool.false_ne_true, ?_⟩
    simp only [coming, List.length_append, List.length_singleton]
    omega
  | resume hi =>
    refine ⟨htidy, ?_⟩
    have hlength := List.length_pos_of_mem hi
    simp only [coming, Notify.resume, List.length_append, List.length_singleton,
      List.length_erase_of_mem hi]
    omega
  | cancelWaiting hi =>
    refine ⟨fun hstored => absurd (htidy hstored) (List.ne_nil_of_mem hi), ?_⟩
    have hlength := List.length_pos_of_mem hi
    simp only [coming, List.length_erase_of_mem hi]
    omega
  | @cancelWoken i hi =>
    have hlength := List.length_pos_of_mem hi
    have herase : (traffic.ready.resume i).woken.length = traffic.ready.woken.length - 1 :=
      List.length_erase_of_mem hi
    have hsame : (traffic.ready.resume i).waiters = traffic.ready.waiters := rfl
    refine ⟨Notify.Tidy.notifyOne (show (traffic.ready.resume i).Tidy from htidy), ?_⟩
    simp only [coming]
    rcases (traffic.ready.resume i).notifyOne_counts with ⟨hnone, hnotify⟩ | ⟨hwaiters, hwoken, -⟩
    · rw [hnotify, hnone]
      exact .inl (Nat.zero_le _)
    · rw [hsame] at hwaiters
      omega

/-! ## Runs -/

/-- A step that meets the condition. -/
def Next (C : Traffic ι π → Action ι π → Prop) (traffic traffic' : Traffic ι π) : Prop :=
  ∃ action, traffic.step action = some traffic' ∧ C traffic action

/-- The run from one state to the other takes steps that meet the condition. -/
def Steps (C : Traffic ι π → Action ι π → Prop) : Traffic ι π → Traffic ι π → Prop :=
  Relation.ReflTransGen (Next C)

/-- Any step. -/
def always : Traffic ι π → Action ι π → Prop := fun _ _ => True

theorem safe_of_steps {traffic : Traffic ι π} (h : Steps Meets new traffic) : traffic.Safe := by
  induction h with
  | refl => exact ⟨fun _ => rfl, .inl (Nat.zero_le _)⟩
  | tail _ hs ih =>
    obtain ⟨action, hs, hm⟩ := hs
    exact step_safe ih hs hm

/-- More subscribers sleep than pushes will notify, and more messages wait than checks are coming. -/
structure Lost (traffic : Traffic ι π) : Prop where
  permit : traffic.ready.permit = false
  waiters : traffic.notifying < traffic.ready.waiters.length
  pending : traffic.coming < traffic.pending.length

/-- The pushes notify, the woken subscribers check the queue, and a message and a subscriber are
    left. -/
theorem Lost.asleep {traffic : Traffic ι π} (h : traffic.Lost) :
    ∃ traffic', Steps always traffic traffic' ∧ ¬ traffic'.Awake := by
  induction hn : 3 * traffic.notifying + 2 * traffic.ready.woken.length + traffic.alert.length
    using Nat.strongRecOn generalizing traffic with
  | ind n ih =>
    subst hn
    obtain ⟨hpermit, hwaiters, hpending⟩ := h
    rw [coming] at hpending
    -- One more step, and the rest by induction.
    have hmore (action : Action ι π) {traffic' : Traffic ι π}
        (hs : traffic.step action = some traffic') (hlost : traffic'.Lost)
        (hless : 3 * traffic'.notifying + 2 * traffic'.ready.woken.length + traffic'.alert.length <
          3 * traffic.notifying + 2 * traffic.ready.woken.length + traffic.alert.length) :
        ∃ traffic', Steps always traffic traffic' ∧ ¬ traffic'.Awake := by
      obtain ⟨last, hsteps, hlast⟩ := ih _ hless hlost rfl
      exact ⟨last, .head ⟨action, hs, trivial⟩ hsteps, hlast⟩
    by_cases hnotifying : traffic.notifying = 0
    · cases hwoken : traffic.ready.woken with
      | cons i woken =>
        have hi : i ∈ traffic.ready.woken := by simp [hwoken]
        have hlength := List.length_pos_of_mem hi
        have herase := List.length_erase_of_mem hi
        refine hmore (.resume i) (if_pos hi) ⟨hpermit, hwaiters, ?_⟩ ?_
        · simp only [coming, Notify.resume, List.length_append, List.length_singleton, herase]
          omega
        · simp only [Notify.resume, List.length_append, List.length_singleton, herase]
          omega
      | nil =>
        cases halert : traffic.alert with
        | cons i alert =>
          have hi : i ∈ traffic.alert := by simp [halert]
          have hlength := List.length_pos_of_mem hi
          have herase := List.length_erase_of_mem hi
          obtain ⟨hpending', hready, hnotifying', halert'⟩ :=
            popFront_counts { traffic with alert := traffic.alert.erase i } i
          refine hmore (.check i) (if_pos hi) ⟨?_, ?_, ?_⟩ ?_
          · exact hready ▸ hpermit
          · rw [hready, hnotifying']
            exact hwaiters
          · rw [coming, hready, hnotifying', halert', hpending']
            dsimp only
            omega
          · rw [hready, hnotifying', halert']
            dsimp only
            omega
        | nil =>
          refine ⟨traffic, .refl, fun hawake => ?_⟩
          have hsome : traffic.pending ≠ [] := List.length_pos_iff.mp (by omega)
          rcases hawake hsome hnotifying with hnone | hsome | hsome | hsome
          · rw [hnone] at hwaiters
            exact absurd hwaiters (Nat.not_lt_zero _)
          · exact hsome hwoken
          · exact hsome halert
          · rw [hpermit] at hsome
            cases hsome
    · rcases traffic.ready.notifyOne_counts with ⟨hnone, -⟩ | ⟨hwaiters', hwoken', hpermit'⟩
      · rw [hnone] at hwaiters
        exact absurd hwaiters (Nat.not_lt_zero _)
      · refine hmore .notifyOne (if_neg hnotifying) ⟨?_, ?_, ?_⟩ ?_
        · exact hpermit'.trans hpermit
        · dsimp only
          omega
        · dsimp only [coming]
          omega
        · dsimp only
          omega

/-- Subscribers are woken in every run whose steps all meet the condition, and a step that doesn't
    leads to a state where one sleeps for good beside a message. -/
theorem wakes : (∀ traffic : Traffic ι π, Steps Meets new traffic → traffic.Awake) ∧
    ∀ (traffic traffic' : Traffic ι π) (action : Action ι π), traffic.step action = some traffic' →
      ¬ traffic.Meets action → ∃ last, Steps always traffic' last ∧ ¬ last.Awake := by
  refine ⟨fun traffic h => (safe_of_steps h).awake, fun traffic traffic' action hs hmeets => ?_⟩
  simp only [Meets, not_forall] at hmeets
  obtain ⟨i, rfl, hpermit, hcovered⟩ := hmeets
  cases step_does hs with
  | takePermit _ hstored =>
    rw [hpermit] at hstored
    cases hstored
  | wait _ _ =>
    rw [Covered, coming] at hcovered
    refine Lost.asleep ⟨hpermit, ?_, ?_⟩
    · simp only [List.length_append, List.length_singleton]
      omega
    · simp only [coming]
      omega

/-- The actions one after the other. -/
def run (actions : List (Action ι π)) (traffic : Traffic ι π) : Option (Traffic ι π) :=
  actions.foldlM step traffic

theorem steps_of_run {actions : List (Action ι π)} {traffic traffic' : Traffic ι π}
    (h : run actions traffic = some traffic') : Steps always traffic traffic' := by
  induction actions generalizing traffic with
  | nil =>
    cases h
    exact .refl
  | cons action actions ih =>
    rw [run, List.foldlM_cons] at h
    obtain ⟨middle, hs, hrest⟩ := Option.bind_eq_some_iff.mp h
    exact .head ⟨action, hs, trivial⟩ (ih hrest)

/-- Two subscribers find the queue empty, two messages are pushed, and the first subscriber takes the
    permit that both pushes left. -/
def merged : List (Action Bool Nat) :=
  [.call false, .call true, .check false, .check true, .pushBack 1, .pushBack 2, .notifyOne,
    .notifyOne, .poll false]

theorem not_awake : ¬ ∀ traffic : Traffic Bool Nat, Steps always new traffic → traffic.Awake := by
  intro h
  have hawake := h _ (@steps_of_run _ _ _ (merged ++ [.poll true, .check false]) _ _ rfl)
  exact absurd (hawake (by decide) rfl) (by decide)

/-- Two subscribers sleep beside an empty queue, and a push wakes one of them. -/
theorem woken_run : ∃ traffic : Traffic Bool Nat, Steps Meets new traffic ∧
    traffic.pending = [1] ∧ traffic.notifying = 0 ∧ traffic.ready.waiters = [true] := by
  have other : ∀ {traffic : Traffic Bool Nat} {action}, (∀ i, action ≠ .poll i) →
      traffic.Meets action := fun hne i h => absurd h (hne i)
  have h1 : Steps Meets (new : Traffic Bool Nat) _ := .single ⟨.call false, rfl, other nofun⟩
  have h2 := h1.tail ⟨.call true, rfl, other nofun⟩
  have h3 := h2.tail ⟨.check false, rfl, other nofun⟩
  have h4 := h3.tail ⟨.check true, rfl, other nofun⟩
  have h5 := h4.tail ⟨.poll false, rfl, fun _ _ _ => .inr (Nat.zero_le _)⟩
  have h6 := h5.tail ⟨.poll true, rfl, fun _ _ _ => .inr (Nat.zero_le _)⟩
  have h7 := h6.tail ⟨.pushBack 1, rfl, other nofun⟩
  have h8 := h7.tail ⟨.notifyOne, rfl, other nofun⟩
  exact ⟨_, h8, rfl, rfl, rfl⟩

theorem wakes_merged : (∃ traffic : Traffic Bool Nat, traffic.pending = [1] ∧
      traffic.notifying = 0 ∧ traffic.ready.waiters = [true] ∧ traffic.Awake) ∧
    ∃ last : Traffic Bool Nat,
      Steps always ⟨⟨[1, 2], ⟨false, [true], []⟩⟩, 0, [], [], [false]⟩ last ∧ ¬ last.Awake := by
  constructor
  · obtain ⟨traffic, h, hpending, hnotifying, hwaiters⟩ := woken_run
    exact ⟨traffic, hpending, hnotifying, hwaiters, wakes.1 traffic h⟩
  · refine wakes.2 ⟨⟨[1, 2], .new⟩, 0, [], [true], [false]⟩ _ (.poll true) rfl fun h => ?_
    have hcovered := h true rfl rfl
    simp [Covered, coming, Notify.new] at hcovered

/-! ## One subscriber -/

/-- A subscriber calls `pop` only when no other is in it. -/
def Alone (traffic : Traffic ι π) (action : Action ι π) : Prop :=
  ∀ i, action = .call i → traffic.popping = []

/-- At most one subscriber is in `pop`. If it found the queue empty, every message since then has a
    push that will notify, or a permit is stored. -/
structure Lone (traffic : Traffic ι π) : Prop where
  one : traffic.popping.length ≤ 1
  empty : 0 < traffic.empty.length → traffic.ready.permit = true ∨
    traffic.pending.length ≤ traffic.notifying

omit [DecidableEq ι] in
theorem length_popping (traffic : Traffic ι π) : traffic.popping.length =
    traffic.called.length + traffic.empty.length + traffic.alert.length +
      traffic.ready.waiters.length + traffic.ready.woken.length := by
  simp only [popping, List.length_append]

theorem lone_meets {traffic : Traffic ι π} (h : traffic.Lone) {action : Action ι π}
    {traffic' : Traffic ι π} (hs : traffic.step action = some traffic') :
    traffic.Meets action := by
  rintro i rfl hpermit
  have hi : i ∈ traffic.empty := by
    cases step_does hs with
    | takePermit hi _ | wait hi _ => exact hi
  rcases h.empty (List.length_pos_of_mem hi) with hstored | hpending
  · rw [hpermit] at hstored
    cases hstored
  · refine .inr ?_
    rw [coming]
    omega

omit [DecidableEq ι] in
/-- The one subscriber isn't between finding the queue empty and looking at `ready`. -/
theorem lone_of_empty {traffic : Traffic ι π}
    (hone : traffic.called.length + traffic.empty.length + traffic.alert.length +
      traffic.ready.waiters.length + traffic.ready.woken.length ≤ 1)
    (hempty : traffic.empty.length = 0) : traffic.Lone where
  one := Nat.le_trans (Nat.le_of_eq (length_popping traffic)) hone
  empty hlength := absurd hempty (Nat.pos_iff_ne_zero.mp hlength)

omit [DecidableEq ι] in
/-- A check by the one subscriber. -/
theorem popFront_lone {traffic : Traffic ι π} (h : traffic.popping = []) (i : ι) :
    (traffic.popFront i).Lone := by
  have hlength := length_popping traffic
  rw [h, List.length_nil] at hlength
  rw [popFront]
  split
  · rename_i hpending
    refine ⟨?_, fun _ => .inr ?_⟩
    · rw [length_popping]
      simp only [List.length_append, List.length_singleton]
      omega
    · simp [hpending]
  · refine ⟨?_, fun hempty => ?_⟩
    · rw [length_popping]
      dsimp only
      omega
    · dsimp only at hempty
      omega

theorem step_lone {traffic traffic' : Traffic ι π} {action : Action ι π} (h : traffic.Lone)
    (hs : traffic.step action = some traffic') (ha : traffic.Alone action) : traffic'.Lone := by
  obtain ⟨hone, hempty⟩ := h
  rw [length_popping] at hone
  cases step_does hs with
  | pushBack pending =>
    refine ⟨Nat.le_trans (Nat.le_of_eq (length_popping _)) hone, fun hlength => ?_⟩
    refine (hempty hlength).imp id fun hpending => ?_
    simp only [List.length_append, List.length_singleton]
    omega
  | notifyOne _ =>
    rcases traffic.ready.notifyOne_counts with ⟨-, hnotify⟩ | ⟨hwaiters, hwoken, -⟩
    · rw [hnotify]
      exact ⟨Nat.le_trans (Nat.le_of_eq (length_popping _)) hone, fun _ => .inl rfl⟩
    · refine lone_of_empty ?_ ?_ <;>
      · dsimp only
        omega
  | @call i hi =>
    have hnone := length_popping traffic
    rw [ha i rfl, List.length_nil] at hnone
    refine lone_of_empty ?_ ?_
    · simp only [List.length_append, List.length_singleton]
      omega
    · dsimp only
      omega
  | @firstCheck i hi =>
    have hlength := List.length_pos_of_mem hi
    refine popFront_lone (List.eq_nil_of_length_eq_zero ?_) i
    rw [length_popping]
    dsimp only
    rw [List.length_erase_of_mem hi]
    omega
  | @check i hi =>
    have hlength := List.length_pos_of_mem hi
    refine popFront_lone (List.eq_nil_of_length_eq_zero ?_) i
    rw [length_popping]
    dsimp only
    rw [List.length_erase_of_mem hi]
    omega
  | takePermit hi _ | wait hi _ =>
    have hlength := List.length_pos_of_mem hi
    have herase := List.length_erase_of_mem hi
    refine lone_of_empty ?_ ?_
    · simp only [herase, List.length_append, List.length_singleton]
      omega
    · dsimp only
      omega
  | resume hi =>
    have hlength := List.length_pos_of_mem hi
    refine lone_of_empty ?_ ?_
    · simp only [Notify.resume, List.length_append, List.length_singleton,
        List.length_erase_of_mem hi]
      omega
    · dsimp only
      omega
  | cancelWaiting hi =>
    have hlength := List.length_pos_of_mem hi
    refine lone_of_empty ?_ ?_
    · simp only [List.length_erase_of_mem hi]
      omega
    · dsimp only
      omega
  | @cancelWoken i hi =>
    have hlength := List.length_pos_of_mem hi
    have herase : (traffic.ready.resume i).woken.length = traffic.ready.woken.length - 1 :=
      List.length_erase_of_mem hi
    have hsame : (traffic.ready.resume i).waiters = traffic.ready.waiters := rfl
    refine lone_of_empty ?_ ?_
    · dsimp only
      rcases (traffic.ready.resume i).notifyOne_counts with ⟨hnone, hnotify⟩ | ⟨hwaiters, hwoken, -⟩
      · rw [hnotify, hnone]
        dsimp only [List.length_nil]
        omega
      · rw [hsame] at hwaiters
        omega
    · dsimp only
      omega

omit [DecidableEq ι] in
theorem new_lone : (new : Traffic ι π).Lone := ⟨Nat.zero_le _, fun _ => .inr (Nat.zero_le _)⟩

/-- With one subscriber at a time every step meets the condition, so it doesn't sleep beside a
    message. -/
theorem alone_awake {traffic : Traffic ι π} (h : Steps Alone new traffic) : traffic.Awake := by
  have hboth : Steps Meets new traffic ∧ traffic.Lone := by
    induction h with
    | refl => exact ⟨.refl, new_lone⟩
    | tail _ hs ih =>
      obtain ⟨action, hs, ha⟩ := hs
      exact ⟨ih.1.tail ⟨action, hs, lone_meets ih.2 hs⟩, step_lone ih.2 hs ha⟩
  exact (safe_of_steps hboth.1).awake

/-! ## The messages -/

omit [DecidableEq ι] in
theorem popFront_pending (traffic : Traffic ι π) (i : ι) :
    ∃ taken, traffic.pending = taken ++ (traffic.popFront i).pending := by
  rw [popFront]
  split
  · exact ⟨[], rfl⟩
  · rename_i pending rest hpending
    exact ⟨[pending], hpending⟩

/-- The message that a step pushes. -/
def pushes : Action ι π → Option π
  | .pushBack pending => some pending
  | _ => none

/-- A step takes messages from the front only, and puts them at the back. -/
theorem step_pending {traffic traffic' : Traffic ι π} {action : Action ι π}
    (hs : traffic.step action = some traffic') :
    ∃ taken, traffic.pending ++ (pushes action).toList = taken ++ traffic'.pending := by
  cases step_does hs with
  | pushBack pending => exact ⟨[], rfl⟩
  | @firstCheck i _ =>
    simp only [pushes, Option.toList_none, List.append_nil]
    exact popFront_pending { traffic with called := traffic.called.erase i } i
  | @check i _ =>
    simp only [pushes, Option.toList_none, List.append_nil]
    exact popFront_pending { traffic with alert := traffic.alert.erase i } i
  | notifyOne | call | takePermit | wait | resume | cancelWaiting | cancelWoken =>
    exact ⟨[], List.append_nil _⟩

/-- However the steps interleave, the messages pushed are the ones taken and then the ones that
    wait, in order. -/
theorem run_pending {actions : List (Action ι π)} {traffic traffic' : Traffic ι π}
    (h : run actions traffic = some traffic') :
    ∃ taken, traffic.pending ++ actions.filterMap pushes = taken ++ traffic'.pending := by
  induction actions generalizing traffic with
  | nil =>
    cases h
    exact ⟨[], List.append_nil _⟩
  | cons action actions ih =>
    rw [run, List.foldlM_cons] at h
    obtain ⟨middle, hs, hrest⟩ := Option.bind_eq_some_iff.mp h
    obtain ⟨first, hfirst⟩ := step_pending hs
    obtain ⟨rest, hrest⟩ := ih hrest
    have hpushes : (action :: actions).filterMap pushes =
        (pushes action).toList ++ actions.filterMap pushes := by
      rw [List.filterMap_cons]
      cases pushes action <;> rfl
    refine ⟨first ++ rest, ?_⟩
    rw [hpushes, ← List.append_assoc, hfirst, List.append_assoc, hrest, List.append_assoc]

end Traffic

end SisaMessaging.Runtime.InMemory
