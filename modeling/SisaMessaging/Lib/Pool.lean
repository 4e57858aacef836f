/-
  Concurrent runs of programs over shared state.

  A `System` says what a job's program is and how its operations, the environment's actions, and
  the start and end of a worker act on the shared state. A state of the pool is the workers'
  remaining programs and the shared state (`State`); a step (`Step`) lets one worker perform its
  next operation, starts or ends a worker, or lets the environment act. A worker may end at any
  point, so a program that stops at any of its operations is a run too.

  `Reach C` are the states of the runs whose steps all meet the condition `C`; `Reach.always` is
  the unconditional case. The one induction over runs is `Reach.tracked`: programs that obey a
  protocol keep every invariant over the shared state and the workers' protocol states that each
  allowed operation keeps.

  Nothing here names a particular system.
-/
import Mathlib.Logic.Function.Basic
import SisaMessaging.Lib.Prog

namespace SisaMessaging.Lib

open Prog (Obeys Protocol)

/-- Workers of type `ι` that run jobs `Job` over shared state `S`, next to an environment with
    actions `A`. -/
structure System (ι Op : Type) (Ret : Op → Type) (Job S A : Type) where
  /-- The program of a job. -/
  body : Job → Prog Op Ret Unit
  /-- What a worker's operation does to the shared state, with its reply. -/
  exec : ι → Job → (op : Op) → Ret op → S → S → Prop
  /-- What starting a job does. -/
  launch : ι → Job → S → S → Prop
  /-- What the end of a worker does, after its last operation or at any earlier one. -/
  leave : ι → Job → S → S → Prop
  /-- What the environment does. -/
  env : A → S → S → Prop

namespace System

variable {ι Op : Type} {Ret : Op → Type} {Job S A : Type}

/-- An entry of a changed table is the change, or an entry elsewhere. -/
theorem update_eq_some [DecidableEq ι] {α : Type} {f : ι → Option α} {i k : ι} {o : Option α}
    {a : α} : Function.update f i o k = some a ↔ (k = i ∧ o = some a) ∨ (k ≠ i ∧ f k = some a) := by
  by_cases hk : k = i
  · subst hk
    simp
  · rw [Function.update_of_ne hk]
    simp [hk]

/-- A worker: its job and what is left of the job's program. -/
structure Proc (Op : Type) (Ret : Op → Type) (Job : Type) where
  job : Job
  rest : Prog Op Ret Unit

/-- A state of the pool. -/
structure State (ι Op : Type) (Ret : Op → Type) (Job S : Type) where
  procs : ι → Option (Proc Op Ret Job)
  shared : S

/-- What a step of the pool does. -/
inductive Label (ι Op : Type) (Ret : Op → Type) (Job A : Type) where
  | launch (i : ι) (job : Job)
  | exec (i : ι) (op : Op) (reply : Ret op)
  | leave (i : ι)
  | env (a : A)

variable [DecidableEq ι]

inductive Step (sys : System ι Op Ret Job S A) :
    State ι Op Ret Job S → Label ι Op Ret Job A → State ι Op Ret Job S → Prop where
  | launch {s i job sh} : s.procs i = none → sys.launch i job s.shared sh →
      Step sys s (.launch i job) ⟨Function.update s.procs i (some ⟨job, sys.body job⟩), sh⟩
  | exec {s i job op next reply sh} : s.procs i = some ⟨job, .call op next⟩ →
      sys.exec i job op reply s.shared sh →
      Step sys s (.exec i op reply) ⟨Function.update s.procs i (some ⟨job, next reply⟩), sh⟩
  | leave {s i p sh} : s.procs i = some p → sys.leave i p.job s.shared sh →
      Step sys s (.leave i) ⟨Function.update s.procs i none, sh⟩
  | env {s a sh} : sys.env a s.shared sh → Step sys s (.env a) ⟨s.procs, sh⟩

/-- The states of the runs from `init`, with no worker yet, whose steps all meet `C`. -/
inductive Reach (sys : System ι Op Ret Job S A) (init : S → Prop)
    (C : State ι Op Ret Job S → Label ι Op Ret Job A → Prop) : State ι Op Ret Job S → Prop where
  | init {sh} : init sh → Reach sys init C ⟨fun _ => none, sh⟩
  | step {s l s'} : Reach sys init C s → Step sys s l s' → C s l → Reach sys init C s'

variable {sys : System ι Op Ret Job S A} {init : S → Prop}
  {C : State ι Op Ret Job S → Label ι Op Ret Job A → Prop}

/-- Every state of a conditional run is a state of an unconditional one. -/
theorem Reach.always {s : State ι Op Ret Job S} (h : Reach sys init C s) :
    Reach sys init (fun _ _ => True) s := by
  induction h with
  | init h => exact .init h
  | step _ hs _ ih => exact .step ih hs trivial

theorem Reach.launch {s : State ι Op Ret Job S} (h : Reach sys init C s) (i : ι) (job : Job) {sh : S}
    (hn : s.procs i = none) (hl : sys.launch i job s.shared sh) (hc : C s (.launch i job)) :
    Reach sys init C ⟨Function.update s.procs i (some ⟨job, sys.body job⟩), sh⟩ :=
  h.step (.launch hn hl) hc

theorem Reach.exec {s : State ι Op Ret Job S} (h : Reach sys init C s) (i : ι) (op : Op)
    (reply : Ret op) {job : Job} {next : Ret op → Prog Op Ret Unit} {sh : S}
    (hp : s.procs i = some ⟨job, .call op next⟩) (he : sys.exec i job op reply s.shared sh)
    (hc : C s (.exec i op reply)) :
    Reach sys init C ⟨Function.update s.procs i (some ⟨job, next reply⟩), sh⟩ :=
  h.step (.exec hp he) hc

theorem Reach.leave {s : State ι Op Ret Job S} (h : Reach sys init C s) (i : ι)
    {p : Proc Op Ret Job} {sh : S} (hp : s.procs i = some p) (hl : sys.leave i p.job s.shared sh)
    (hc : C s (.leave i)) : Reach sys init C ⟨Function.update s.procs i none, sh⟩ :=
  h.step (.leave hp hl) hc

theorem Reach.env {s : State ι Op Ret Job S} (h : Reach sys init C s) (a : A) {sh : S}
    (he : sys.env a s.shared sh) (hc : C s (.env a)) : Reach sys init C ⟨s.procs, sh⟩ :=
  h.step (.env he) hc

/-! ## Histories -/

/-- The shared state keeps, for good, each worker's job and its operations so far. -/
structure Recorded (sys : System ι Op Ret Job S A)
    (history : S → ι → Option (Job × List (Event Op Ret))) : Prop where
  launch : ∀ {i job sh sh'}, sys.launch i job sh sh' →
    history sh i = none ∧ history sh' = Function.update (history sh) i (some (job, []))
  exec : ∀ {i job evs op reply sh sh'}, history sh i = some (job, evs) →
    sys.exec i job op reply sh sh' →
    history sh' = Function.update (history sh) i (some (job, evs ++ [⟨op, reply⟩]))
  leave : ∀ {i job sh sh'}, sys.leave i job sh sh' → history sh' = history sh
  env : ∀ {a sh sh'}, sys.env a sh sh' → history sh' = history sh

/-- A worker's history is a stopped run of its program, and what is left of a worker still there
    is what its history has left. -/
theorem Reach.recorded {history : S → ι → Option (Job × List (Event Op Ret))}
    (hr : Recorded sys history) (h0 : ∀ sh, init sh → ∀ i, history sh i = none)
    {s : State ι Op Ret Job S} (h : Reach sys init C s) : ∀ i,
    (∀ job evs, history s.shared i = some (job, evs) → ∃ q, Prog.After (sys.body job) evs q) ∧
      ∀ p, s.procs i = some p →
        ∃ evs, history s.shared i = some (p.job, evs) ∧ Prog.After (sys.body p.job) evs p.rest := by
  induction h with
  | init h => simp [h0 _ h]
  | @step s l s' _ hs _ ih =>
    intro i
    cases hs with
    | @launch k job sh hn hl =>
      dsimp only
      rw [(hr.launch hl).2]
      by_cases hk : i = k
      · subst hk
        rw [Function.update_self, Function.update_self]
        constructor
        · intro job' evs he
          cases he
          exact ⟨_, .nil _⟩
        · intro p hp
          cases hp
          exact ⟨[], rfl, .nil _⟩
      · rw [Function.update_of_ne hk, Function.update_of_ne hk]
        exact ih i
    | @exec k job op next reply sh hpk he =>
      obtain ⟨evs, hh, ha⟩ := (ih k).2 _ hpk
      dsimp only
      rw [hr.exec hh he]
      by_cases hk : i = k
      · subst hk
        rw [Function.update_self, Function.update_self]
        constructor
        · intro job' evs' he
          cases he
          exact ⟨_, ha.snoc reply⟩
        · intro p hp
          cases hp
          exact ⟨_, rfl, ha.snoc reply⟩
      · rw [Function.update_of_ne hk, Function.update_of_ne hk]
        exact ih i
    | @leave k q sh hpk hl =>
      dsimp only
      rw [hr.leave hl]
      refine ⟨(ih i).1, ?_⟩
      intro p hp
      by_cases hk : i = k
      · subst hk
        rw [Function.update_self] at hp
        cases hp
      · rw [Function.update_of_ne hk] at hp
        exact (ih i).2 p hp
    | env he =>
      dsimp only
      rw [hr.env he]
      exact ih i

/-! ## Programs with only some operations -/

/-- What is left of a worker's program performs only operations of its job. -/
theorem Reach.only {P : Job → Op → Prop} (hb : ∀ job, Prog.Only (P job) (sys.body job))
    {s : State ι Op Ret Job S} (h : Reach sys init C s) :
    ∀ i p, s.procs i = some p → Prog.Only (P p.job) p.rest := by
  induction h with
  | init => exact fun i p hp => nomatch hp
  | @step s l s' _ hs _ ih =>
    intro k p hk
    cases hs with
    | @launch i job sh hn hl =>
      rcases update_eq_some.mp hk with ⟨rfl, he⟩ | ⟨_, hk⟩
      · cases he
        exact hb job
      · exact ih k p hk
    | @exec i job op next reply sh hp he =>
      rcases update_eq_some.mp hk with ⟨rfl, hrest⟩ | ⟨_, hk⟩
      · cases hrest
        exact (ih k _ hp).2 reply
      · exact ih k p hk
    | leave hp hl =>
      rcases update_eq_some.mp hk with ⟨_, he⟩ | ⟨_, hk⟩
      · cases he
      · exact ih k p hk
    | env => exact ih k p hk

/-! ## Programs that obey a protocol -/

variable {G : Type}

/-- The worker's job is known and its remaining program obeys the protocol from its state. -/
def Tracked (P : Job → Protocol Op Ret G) :
    Option (Proc Op Ret Job) → Option (Job × G) → Prop
  | none, none => True
  | some p, some (job, g) => p.job = job ∧ Obeys (P job) (fun _ _ => True) g p.rest
  | _, _ => False

/-- What an invariant over the shared state and the workers' protocol states must keep. -/
structure Keeps (sys : System ι Op Ret Job S A)
    (C : State ι Op Ret Job S → Label ι Op Ret Job A → Prop) (P : Job → Protocol Op Ret G) (start : Job → G) (I : S → (ι → Option (Job × G)) → Prop) :
    Prop where
  body : ∀ job, Obeys (P job) (fun _ _ => True) (start job) (sys.body job)
  launch : ∀ {sh sh' γ i job}, I sh γ → γ i = none → sys.launch i job sh sh' →
    I sh' (Function.update γ i (some (job, start job)))
  exec : ∀ {s : State ι Op Ret Job S} {sh' γ i job rest g op reply}, I s.shared γ →
    s.procs i = some ⟨job, rest⟩ → γ i = some (job, g) → (P job).allowed g op →
    sys.exec i job op reply s.shared sh' → C s (.exec i op reply) →
    (P job).replies g op reply ∧ I sh' (Function.update γ i (some (job, (P job).next g op reply)))
  leave : ∀ {sh sh' γ i job g}, I sh γ → γ i = some (job, g) → sys.leave i job sh sh' →
    I sh' (Function.update γ i none)
  env : ∀ {s : State ι Op Ret Job S} {sh' γ a}, I s.shared γ → sys.env a s.shared sh' →
    C s (.env a) → I sh' γ

theorem tracked_update {P : Job → Protocol Op Ret G} {procs : ι → Option (Proc Op Ret Job)}
    {γ : ι → Option (Job × G)} {i : ι} {p : Option (Proc Op Ret Job)} {q : Option (Job × G)}
    (h : ∀ k, Tracked P (procs k) (γ k)) (hi : Tracked P p q) (k : ι) :
    Tracked P (Function.update procs i p k) (Function.update γ i q k) := by
  by_cases hk : k = i
  · subst hk
    rwa [Function.update_self, Function.update_self]
  · rw [Function.update_of_ne hk, Function.update_of_ne hk]
    exact h k

theorem tracked_some {P : Job → Protocol Op Ret G} {p : Proc Op Ret Job}
    {q : Option (Job × G)} (h : Tracked P (some p) q) :
    ∃ g, q = some (p.job, g) ∧ Obeys (P p.job) (fun _ _ => True) g p.rest := by
  match q, h with
  | some (_, g), ⟨rfl, hg⟩ => exact ⟨g, rfl, hg⟩

/-- The run lemma: an invariant that holds at the start and is kept (`Keeps`) holds in every
    state of every run, with protocol states the workers' programs obey. -/
theorem Reach.tracked {P : Job → Protocol Op Ret G} {start : Job → G}
    {I : S → (ι → Option (Job × G)) → Prop} (hk : Keeps sys C P start I)
    (h0 : ∀ sh, init sh → I sh fun _ => none) {s : State ι Op Ret Job S}
    (h : Reach sys init C s) :
    ∃ γ, (∀ i, Tracked P (s.procs i) (γ i)) ∧ I s.shared γ := by
  induction h with
  | init h => exact ⟨fun _ => none, fun _ => trivial, h0 _ h⟩
  | @step s l s' _ hs hc ih =>
    obtain ⟨γ, ht, hI⟩ := ih
    cases hs with
    | @launch i job sh hn hl =>
      have hγ : γ i = none := by
        have := ht i
        rw [hn] at this
        cases hq : γ i with
        | none => rfl
        | some q => rw [hq] at this; exact this.elim
      refine ⟨Function.update γ i (some (job, start job)), tracked_update ht ?_,
        hk.launch hI hγ hl⟩
      exact ⟨rfl, hk.body job⟩
    | @exec i job op next reply sh hp he =>
      have hti := ht i
      rw [hp] at hti
      obtain ⟨g, hγ, hg⟩ := tracked_some hti
      obtain ⟨hr, hI'⟩ := hk.exec hI hp hγ hg.1 he hc
      refine ⟨_, tracked_update ht ?_, hI'⟩
      exact ⟨rfl, hg.2 reply hr⟩
    | @leave i p sh hp hl =>
      have hti := ht i
      rw [hp] at hti
      obtain ⟨g, hγ, _⟩ := tracked_some hti
      refine ⟨Function.update γ i none, tracked_update ht ?_, hk.leave hI hγ hl⟩
      trivial
    | env he => exact ⟨γ, ht, hk.env hI he hc⟩

/-- The next operation of a worker is one that its protocol state allows. -/
theorem Reach.allowed {P : Job → Protocol Op Ret G} {start : Job → G}
    {I : S → (ι → Option (Job × G)) → Prop} (hk : Keeps sys C P start I)
    (h0 : ∀ sh, init sh → I sh fun _ => none) {s s' : State ι Op Ret Job S}
    (h : Reach sys init C s) {i : ι} {op : Op} {reply : Ret op}
    (hs : Step sys s (.exec i op reply) s') :
    ∃ γ job g, I s.shared γ ∧ γ i = some (job, g) ∧ (P job).allowed g op ∧
      sys.exec i job op reply s.shared s'.shared := by
  obtain ⟨γ, ht, hI⟩ := h.tracked hk h0
  cases hs with
  | exec hp he =>
    have hti := ht i
    rw [hp] at hti
    obtain ⟨g, hγ, hg⟩ := tracked_some hti
    exact ⟨γ, _, g, hI, hγ, hg.1, he⟩

end System

end SisaMessaging.Lib
