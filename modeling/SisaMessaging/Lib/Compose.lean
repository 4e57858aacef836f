/-
  Systems seen from a side, and two pools side by side.

  `Sees`: a system whose workers run the same programs as another's, over a shared state of which the
  other has a part; `Reach.view` turns a run of the whole into a run of the part. `Beside` are two
  pools: a step of one comes with actions of the environment of the other, in the order listed, and
  `links` says which. `Beside.Reach.run₁` and `Beside.Reach.run₂` are the runs of the two.

  Nothing here names a particular system.
-/
import SisaMessaging.Lib.Pool

namespace SisaMessaging.Lib

namespace System

variable {ι Op : Type} {Ret : Op → Type} {Job S A : Type}

/-! ## Actions of the environment -/

/-- The environment acts, each time under the condition. -/
inductive Acts (sys : System ι Op Ret Job S A)
    (C : State ι Op Ret Job S → Label ι Op Ret Job A → Prop) :
    State ι Op Ret Job S → List A → State ι Op Ret Job S → Prop where
  | nil {s} : Acts sys C s [] s
  | cons {s a sh actions s'} : sys.env a s.shared sh → C s (.env a) →
      Acts sys C ⟨s.procs, sh⟩ actions s' → Acts sys C s (a :: actions) s'

variable {sys : System ι Op Ret Job S A}
  {C : State ι Op Ret Job S → Label ι Op Ret Job A → Prop}
  {s s' : State ι Op Ret Job S} {actions : List A}

theorem Acts.procs (h : Acts sys C s actions s') : s'.procs = s.procs := by
  induction h with
  | nil => rfl
  | cons _ _ _ ih => exact ih

theorem Acts.nil_eq (h : Acts sys C s [] s') : s' = s := by
  cases h
  rfl

theorem Acts.one {a : A} (h : Acts sys C s [a] s') :
    sys.env a s.shared s'.shared ∧ C s (.env a) := by
  cases h with
  | cons he hc h =>
    cases h
    exact ⟨he, hc⟩

variable [DecidableEq ι]

theorem Reach.acts {init : S → Prop} (h : Reach sys init C s) (ha : Acts sys C s actions s') :
    Reach sys init C s' := by
  induction ha with
  | nil => exact h
  | cons he hc _ ih => exact ih (h.env _ he hc)

/-! ## A system seen from a side -/

variable {Job' S' A' : Type} {small : System ι Op Ret Job' S' A'} {part : Job → Job'} {see : S → S'}

/-- The small system has the same programs and sees a part of the shared state. -/
structure Sees (sys : System ι Op Ret Job S A) (small : System ι Op Ret Job' S' A')
    (part : Job → Job') (see : S → S') : Prop where
  body : ∀ j, small.body (part j) = sys.body j
  launch : ∀ {i j sh sh'}, sys.launch i j sh sh' → small.launch i (part j) (see sh) (see sh')
  exec : ∀ {i j op reply sh sh'}, sys.exec i j op reply sh sh' →
    small.exec i (part j) op reply (see sh) (see sh')
  leave : ∀ {i j sh sh'}, sys.leave i j sh sh' → small.leave i (part j) (see sh) (see sh')
  env : ∀ {a sh sh'} (procs : ι → Option (Proc Op Ret Job')), sys.env a sh sh' → ∃ actions,
    Acts small (fun _ _ => True) ⟨procs, see sh⟩ actions ⟨procs, see sh'⟩

def Proc.view (part : Job → Job') (p : Proc Op Ret Job) : Proc Op Ret Job' := ⟨part p.job, p.rest⟩

def State.view (part : Job → Job') (see : S → S') (s : State ι Op Ret Job S) :
    State ι Op Ret Job' S' := ⟨fun i => (s.procs i).map (Proc.view part), see s.shared⟩

theorem view_update (s : State ι Op Ret Job S) (i : ι) (p : Option (Proc Op Ret Job)) (sh : S) :
    State.view part see ⟨Function.update s.procs i p, sh⟩ =
      ⟨Function.update (s.view part see).procs i (p.map (Proc.view part)), see sh⟩ := by
  unfold State.view
  congr 1
  funext k
  dsimp only
  by_cases hk : k = i
  · subst hk
    rw [Function.update_self, Function.update_self]
  · rw [Function.update_of_ne hk, Function.update_of_ne hk]

/-- A run of the whole is a run of the part. -/
theorem Reach.view {init : S → Prop} {init' : S' → Prop} (hs : Sees sys small part see)
    (h0 : ∀ sh, init sh → init' (see sh)) (h : Reach sys init C s) :
    Reach small init' (fun _ _ => True) (s.view part see) := by
  induction h with
  | init h => exact .init (h0 _ h)
  | @step s l s' _ hstep _ ih =>
    cases hstep with
    | @launch i j sh hn hl =>
      rw [view_update]
      have hnone : (s.view part see).procs i = none := by simp [State.view, hn]
      have := ih.launch i (part j) hnone (hs.launch hl) trivial
      rwa [hs.body] at this
    | @exec i j op next reply sh hp he =>
      rw [view_update]
      have hsome : (s.view part see).procs i = some ⟨part j, .call op next⟩ := by
        simp [State.view, hp, Proc.view]
      exact ih.exec i op reply hsome (hs.exec he) trivial
    | @leave i p sh hp hl =>
      rw [view_update]
      have hsome : (s.view part see).procs i = some (p.view part) := by simp [State.view, hp]
      exact ih.leave i hsome (hs.leave hl) trivial
    | @env a sh he =>
      obtain ⟨actions, ha⟩ := hs.env (s.view part see).procs he
      exact ih.acts ha

end System

/-! ## Two pools side by side -/

section Beside

variable {ι₁ Op₁ : Type} {Ret₁ : Op₁ → Type} {Job₁ S₁ A₁ : Type}
  {ι₂ Op₂ : Type} {Ret₂ : Op₂ → Type} {Job₂ S₂ A₂ : Type}

/-- Two pools, with what the environment of one does at a step of the other. -/
structure Beside (ι₁ Op₁ : Type) (Ret₁ : Op₁ → Type) (Job₁ S₁ A₁ ι₂ Op₂ : Type)
    (Ret₂ : Op₂ → Type) (Job₂ S₂ A₂ : Type) where
  first : System ι₁ Op₁ Ret₁ Job₁ S₁ A₁
  second : System ι₂ Op₂ Ret₂ Job₂ S₂ A₂
  allowed₁ : System.State ι₁ Op₁ Ret₁ Job₁ S₁ → System.Label ι₁ Op₁ Ret₁ Job₁ A₁ → Prop
  allowed₂ : System.State ι₂ Op₂ Ret₂ Job₂ S₂ → System.Label ι₂ Op₂ Ret₂ Job₂ A₂ → Prop
  /-- A step of the first, and the second's environment. -/
  links₁ : S₁ → System.Label ι₁ Op₁ Ret₁ Job₁ A₁ → S₁ → S₂ → List A₂ → Prop
  /-- A step of the second, and the first's environment. -/
  links₂ : S₂ → System.Label ι₂ Op₂ Ret₂ Job₂ A₂ → S₂ → S₁ → List A₁ → Prop

namespace Beside

variable [DecidableEq ι₁] [DecidableEq ι₂]

/-- The states of the runs from `init₁` and `init₂`, with the labels so far. -/
inductive Reach (b : Beside ι₁ Op₁ Ret₁ Job₁ S₁ A₁ ι₂ Op₂ Ret₂ Job₂ S₂ A₂) (init₁ : S₁ → Prop)
    (init₂ : S₂ → Prop) :
    List (System.Label ι₁ Op₁ Ret₁ Job₁ A₁ ⊕ System.Label ι₂ Op₂ Ret₂ Job₂ A₂) →
    System.State ι₁ Op₁ Ret₁ Job₁ S₁ → System.State ι₂ Op₂ Ret₂ Job₂ S₂ → Prop where
  | init {sh₁ sh₂} : init₁ sh₁ → init₂ sh₂ →
      Reach b init₁ init₂ [] ⟨fun _ => none, sh₁⟩ ⟨fun _ => none, sh₂⟩
  | first {trace s l s' t actions t'} : Reach b init₁ init₂ trace s t →
      System.Step b.first s l s' → b.allowed₁ s l → b.links₁ s.shared l s'.shared t.shared actions →
      System.Acts b.second b.allowed₂ t actions t' →
      Reach b init₁ init₂ (trace ++ [.inl l]) s' t'
  | second {trace s t l t' actions s'} : Reach b init₁ init₂ trace s t →
      System.Step b.second t l t' → b.allowed₂ t l → b.links₂ t.shared l t'.shared s.shared actions →
      System.Acts b.first b.allowed₁ s actions s' →
      Reach b init₁ init₂ (trace ++ [.inr l]) s' t'

variable {b : Beside ι₁ Op₁ Ret₁ Job₁ S₁ A₁ ι₂ Op₂ Ret₂ Job₂ S₂ A₂} {init₁ : S₁ → Prop}
  {init₂ : S₂ → Prop}
  {trace : List (System.Label ι₁ Op₁ Ret₁ Job₁ A₁ ⊕ System.Label ι₂ Op₂ Ret₂ Job₂ A₂)}
  {s : System.State ι₁ Op₁ Ret₁ Job₁ S₁} {t : System.State ι₂ Op₂ Ret₂ Job₂ S₂}

theorem Reach.run₁ (h : Reach b init₁ init₂ trace s t) : b.first.Reach init₁ b.allowed₁ s := by
  induction h with
  | init h₁ _ => exact .init h₁
  | first _ hs hc _ _ ih => exact ih.step hs hc
  | second _ _ _ _ ha ih => exact ih.acts ha

theorem Reach.run₂ (h : Reach b init₁ init₂ trace s t) : b.second.Reach init₂ b.allowed₂ t := by
  induction h with
  | init _ h₂ => exact .init h₂
  | first _ _ _ _ ha ih => exact ih.acts ha
  | second _ hs hc _ _ ih => exact ih.step hs hc

section Steps

variable (h : Reach b init₁ init₂ trace s t)

include h

theorem Reach.launch₁ (i : ι₁) (job : Job₁) {sh : S₁} {actions : List A₂}
    {t' : System.State ι₂ Op₂ Ret₂ Job₂ S₂} (hn : s.procs i = none)
    (hs : b.first.launch i job s.shared sh) (hc : b.allowed₁ s (.launch i job))
    (hl : b.links₁ s.shared (.launch i job) sh t.shared actions)
    (ha : System.Acts b.second b.allowed₂ t actions t') :
    Reach b init₁ init₂ (trace ++ [.inl (.launch i job)])
      ⟨Function.update s.procs i (some ⟨job, b.first.body job⟩), sh⟩ t' :=
  h.first (.launch hn hs) hc hl ha

theorem Reach.exec₁ (i : ι₁) (op : Op₁) (reply : Ret₁ op) {job : Job₁}
    {next : Ret₁ op → Prog Op₁ Ret₁ Unit} {sh : S₁} {actions : List A₂}
    {t' : System.State ι₂ Op₂ Ret₂ Job₂ S₂} (hp : s.procs i = some ⟨job, .call op next⟩)
    (hs : b.first.exec i job op reply s.shared sh) (hc : b.allowed₁ s (.exec i op reply))
    (hl : b.links₁ s.shared (.exec i op reply) sh t.shared actions)
    (ha : System.Acts b.second b.allowed₂ t actions t') :
    Reach b init₁ init₂ (trace ++ [.inl (.exec i op reply)])
      ⟨Function.update s.procs i (some ⟨job, next reply⟩), sh⟩ t' :=
  h.first (.exec hp hs) hc hl ha

theorem Reach.env₁ (a : A₁) {sh : S₁} {actions : List A₂} {t' : System.State ι₂ Op₂ Ret₂ Job₂ S₂}
    (hs : b.first.env a s.shared sh) (hc : b.allowed₁ s (.env a))
    (hl : b.links₁ s.shared (.env a) sh t.shared actions)
    (ha : System.Acts b.second b.allowed₂ t actions t') :
    Reach b init₁ init₂ (trace ++ [.inl (.env a)]) ⟨s.procs, sh⟩ t' :=
  h.first (.env hs) hc hl ha

theorem Reach.launch₂ (i : ι₂) (job : Job₂) {sh : S₂} {actions : List A₁}
    {s' : System.State ι₁ Op₁ Ret₁ Job₁ S₁} (hn : t.procs i = none)
    (hs : b.second.launch i job t.shared sh) (hc : b.allowed₂ t (.launch i job))
    (hl : b.links₂ t.shared (.launch i job) sh s.shared actions)
    (ha : System.Acts b.first b.allowed₁ s actions s') :
    Reach b init₁ init₂ (trace ++ [.inr (.launch i job)]) s'
      ⟨Function.update t.procs i (some ⟨job, b.second.body job⟩), sh⟩ :=
  h.second (.launch hn hs) hc hl ha

theorem Reach.exec₂ (i : ι₂) (op : Op₂) (reply : Ret₂ op) {job : Job₂}
    {next : Ret₂ op → Prog Op₂ Ret₂ Unit} {sh : S₂} {actions : List A₁}
    {s' : System.State ι₁ Op₁ Ret₁ Job₁ S₁} (hp : t.procs i = some ⟨job, .call op next⟩)
    (hs : b.second.exec i job op reply t.shared sh) (hc : b.allowed₂ t (.exec i op reply))
    (hl : b.links₂ t.shared (.exec i op reply) sh s.shared actions)
    (ha : System.Acts b.first b.allowed₁ s actions s') :
    Reach b init₁ init₂ (trace ++ [.inr (.exec i op reply)]) s'
      ⟨Function.update t.procs i (some ⟨job, next reply⟩), sh⟩ :=
  h.second (.exec hp hs) hc hl ha

end Steps

end Beside

end Beside

end SisaMessaging.Lib
