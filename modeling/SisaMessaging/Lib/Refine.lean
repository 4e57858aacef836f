/-
  Pools whose operations are programs: a worker of the fine pool performs each operation of the coarse
  one as a program of finer operations, next to the other workers.

  `Prog.refine` puts an operation's program where the operation was. `Refines` is a simulation: a fine
  operation that isn't the last of its program is no step of the coarse pool, and the last one is the
  coarse operation. A worker may end in the middle of a program; then the coarse worker ends, before
  the operation or after it. `Reach.refined` is the run lemma. `after_refine` takes the events of a
  refined program apart, one block for each operation.

  Nothing here names a particular system.
-/
import SisaMessaging.Lib.Compose

namespace SisaMessaging.Lib

namespace Prog

variable {Op Op' : Type} {Ret : Op → Type} {Ret' : Op' → Type} {α β : Type}

/-- The program, with each of its operations as a program of finer ones. -/
def refine (impl : (op : Op) → Prog Op' Ret' (Ret op)) : Prog Op Ret α → Prog Op' Ret' α
  | ret a => ret a
  | call op next => (impl op).bind fun r => (next r).refine impl

/-- Each operation has at least one finer one. -/
def Starts (P : Op → Prop) (impl : (op : Op) → Prog Op' Ret' (Ret op)) : Prop :=
  ∀ op, P op → ∀ r, impl op ≠ ret r

/-- Where a worker of the fine pool is, for the program of the coarse one: at an operation, whose
    program has done these events. -/
inductive Within (P : Op → Prop) (impl : (op : Op) → Prog Op' Ret' (Ret op)) :
    Prog Op Ret α → List (Event Op' Ret') → Prog Op' Ret' α → Prop where
  | ended (a : α) : Within P impl (ret a) [] (ret a)
  | doing {op : Op} {next : Ret op → Prog Op Ret α} {evs : List (Event Op' Ret')}
      {rest : Prog Op' Ret' (Ret op)} : After (impl op) evs rest → (∀ r, rest ≠ ret r) →
      Only P (call op next) →
      Within P impl (call op next) evs (rest.bind fun r => (next r).refine impl)

variable {P : Op → Prop} {impl : (op : Op) → Prog Op' Ret' (Ret op)}

theorem Within.start (hs : Starts P impl) {p : Prog Op Ret α} (hp : Only P p) :
    Within P impl p [] (p.refine impl) := by
  cases p with
  | ret a => exact .ended a
  | call op next => exact .doing (.nil _) (hs op hp.1) hp

/-- The next fine operation is one of the operation's program. -/
theorem Within.call_eq {p : Prog Op Ret α} {evs : List (Event Op' Ret')} {op' : Op'}
    {next' : Ret' op' → Prog Op' Ret' α} (h : Within P impl p evs (call op' next')) :
    ∃ op next rest, p = call op next ∧ After (impl op) evs (call op' rest) ∧
      Only P (call op next) ∧ next' = fun r => (rest r).bind fun r => (next r).refine impl := by
  generalize hq : call op' next' = q at h
  cases h with
  | ended a => cases hq
  | @doing op next evs rest ha hne hp =>
    cases rest with
    | ret r => exact absurd rfl (hne r)
    | call op'' rest =>
      cases hq
      exact ⟨op, next, rest, rfl, ha, hp, rfl⟩

/-- A worker that ends is at no operation, or before an operation's last finer one. -/
theorem Within.stopped {p : Prog Op Ret α} {evs : List (Event Op' Ret')} {q : Prog Op' Ret' α}
    (h : Within P impl p evs q) : (∃ a, p = ret a ∧ evs = []) ∨
      ∃ op next rest, p = call op next ∧ After (impl op) evs rest ∧ ∀ r, rest ≠ ret r := by
  cases h with
  | ended a => exact Or.inl ⟨a, rfl, rfl⟩
  | doing ha hne _ => exact Or.inr ⟨_, _, _, rfl, ha, hne⟩

/-- One more fine operation: the operation goes on, or it was its last. -/
theorem Within.step (hs : Starts P impl) {op : Op} {next : Ret op → Prog Op Ret α}
    {evs : List (Event Op' Ret')} {op' : Op'} {rest : Ret' op' → Prog Op' Ret' (Ret op)}
    (ha : After (impl op) evs (call op' rest)) (hp : Only P (call op next)) (reply : Ret' op') :
    ((∀ r, rest reply ≠ ret r) ∧ Within P impl (call op next) (evs ++ [⟨op', reply⟩])
        ((rest reply).bind fun r => (next r).refine impl)) ∨
      ∃ r, rest reply = ret r ∧ Within P impl (next r) []
        ((rest reply).bind fun r => (next r).refine impl) := by
  cases hr : rest reply with
  | ret r => exact Or.inr ⟨r, rfl, .start hs (hp.2 r)⟩
  | call op'' rest' =>
    refine Or.inl ⟨by simp, .doing ?_ (by simp) hp⟩
    rw [← hr]
    exact ha.snoc reply

/-! ## The events of a refined program -/

/-- A sequence stopped in its first part, or after a run of it in its second. -/
theorem After.bind_cases {p : Prog Op Ret α} {f : α → Prog Op Ret β} {evs : List (Event Op Ret)}
    {q : Prog Op Ret β} (h : After (p.bind f) evs q) : (∃ rest, After p evs rest) ∨
      ∃ first a more, evs = first ++ more ∧ Run p first a ∧ After (f a) more q := by
  induction p generalizing evs with
  | ret a => exact Or.inr ⟨[], a, evs, rfl, .nil _, h⟩
  | call op next ih =>
    cases h with
    | nil => exact Or.inl ⟨_, .nil _⟩
    | cons h =>
      rcases ih _ h with ⟨rest, hp⟩ | ⟨first, a, more, rfl, hp, hf⟩
      · exact Or.inl ⟨rest, .cons hp⟩
      · exact Or.inr ⟨_ :: first, a, more, rfl, .cons hp, hf⟩

/-- Operations with their replies, each as the events of a run of its program. -/
inductive Blocks (impl : (op : Op) → Prog Op' Ret' (Ret op)) :
    List (Event Op Ret) → List (Event Op' Ret') → Prop where
  | nil : Blocks impl [] []
  | cons {op r block evs evs'} : Run (impl op) block r → Blocks impl evs evs' →
      Blocks impl (⟨op, r⟩ :: evs) (block ++ evs')

/-- A stopped run of a refined program is one of the program, whose next operation may have begun. -/
theorem after_refine {p : Prog Op Ret α} {evs' : List (Event Op' Ret')} {q : Prog Op' Ret' α}
    (h : After (p.refine impl) evs' q) : ∃ evs rest whole part, After p evs rest ∧
      evs' = whole ++ part ∧ Blocks impl evs whole ∧
      (part = [] ∨ ∃ op next left, rest = call op next ∧ After (impl op) part left) := by
  induction p generalizing evs' with
  | ret a =>
    cases h
    exact ⟨[], ret a, [], [], .nil _, rfl, .nil, Or.inl rfl⟩
  | call op next ih =>
    rcases h.bind_cases with ⟨left, hop⟩ | ⟨block, r, more, rfl, hop, hnext⟩
    · exact ⟨[], call op next, [], evs', .nil _, rfl, .nil, Or.inr ⟨op, next, left, rfl, hop⟩⟩
    · obtain ⟨evs, rest, whole, part, hevs, rfl, hblocks, hpart⟩ := ih r hnext
      exact ⟨⟨op, r⟩ :: evs, rest, block ++ whole, part, .cons hevs, (List.append_assoc ..).symm,
        .cons hop hblocks, hpart⟩

/-- What the operations' programs are made of, an operation is made of. -/
theorem Blocks.mem {evs : List (Event Op Ret)} {evs' : List (Event Op' Ret')}
    (h : Blocks impl evs evs') {e' : Event Op' Ret'} (hm : e' ∈ evs') :
    ∃ e ∈ evs, ∃ block, Run (impl e.op) block e.reply ∧ e' ∈ block := by
  induction h with
  | nil => cases hm
  | @cons op r block evs evs' hrun _ ih =>
    rcases List.mem_append.mp hm with hm | hm
    · exact ⟨⟨op, r⟩, List.mem_cons_self, block, hrun, hm⟩
    · obtain ⟨e, he, found⟩ := ih hm
      exact ⟨e, List.mem_cons_of_mem _ he, found⟩

theorem Blocks.snoc {evs : List (Event Op Ret)} {evs' block : List (Event Op' Ret')} {op : Op}
    {r : Ret op} (h : Blocks impl evs evs') (hrun : Run (impl op) block r) :
    Blocks impl (evs ++ [⟨op, r⟩]) (evs' ++ block) := by
  induction h with
  | nil =>
    rw [List.nil_append, List.nil_append, ← List.append_nil block]
    exact .cons hrun .nil
  | cons hfirst _ ih =>
    rw [List.append_assoc]
    exact .cons hfirst ih

theorem Blocks.split {evs more : List (Event Op Ret)} {evs' : List (Event Op' Ret')}
    (h : Blocks impl (evs ++ more) evs') :
    ∃ first second, evs' = first ++ second ∧ Blocks impl evs first ∧ Blocks impl more second := by
  induction evs generalizing evs' with
  | nil => exact ⟨[], evs', rfl, .nil, h⟩
  | cons e evs ih =>
    cases h with
    | @cons op r block _ rest hrun h =>
      obtain ⟨first, second, rfl, hfirst, hsecond⟩ := ih h
      exact ⟨block ++ first, second, (List.append_assoc ..).symm, .cons hrun hfirst, hsecond⟩

/-- Operations that are one finer operation each. -/
theorem Blocks.eq_map {evs : List (Event Op Ret)} {evs' : List (Event Op' Ret')}
    {f : Event Op Ret → Event Op' Ret'} (h : Blocks impl evs evs')
    (hone : ∀ e ∈ evs, ∀ block, Run (impl e.op) block e.reply → block = [f e]) :
    evs' = evs.map f := by
  induction h with
  | nil => rfl
  | @cons op r block evs evs' hrun _ ih =>
    rw [hone _ List.mem_cons_self block hrun, ih fun e he => hone e (List.mem_cons_of_mem _ he)]
    rfl

/-- An operation's block is there as a whole. -/
theorem Blocks.block {evs : List (Event Op Ret)} {evs' : List (Event Op' Ret')}
    (h : Blocks impl evs evs') {e : Event Op Ret} (hm : e ∈ evs) :
    ∃ before block after, evs' = before ++ block ++ after ∧ Run (impl e.op) block e.reply := by
  induction h with
  | nil => cases hm
  | @cons op r block evs evs' hrun _ ih =>
    rcases List.mem_cons.mp hm with rfl | hm
    · exact ⟨[], block, evs', by simp, hrun⟩
    · obtain ⟨before, found, after, rfl, hfound⟩ := ih hm
      exact ⟨block ++ before, found, after, by simp, hfound⟩

/-- A finer operation that ends its operation has a whole block. Only an operation begun after it can
    be in the middle of its program. -/
theorem after_refine_over {T : Op → Prop} {p : Prog Op Ret α} {evs' : List (Event Op' Ret')}
    {q : Prog Op' Ret' α} {e' : Event Op' Ret'} (h : After (p.refine impl) evs' q) (hm : e' ∈ evs')
    (hends : ∀ op part left, After (impl op) part left → e' ∈ part → T op ∧ ∃ r, left = ret r) :
    ∃ evs rest whole part, After p evs rest ∧ evs' = whole ++ part ∧ Blocks impl evs whole ∧
      (∃ e ∈ evs, T e.op) ∧ (part = [] ∨ ∃ op next, rest = call op next) := by
  obtain ⟨evs, rest, whole, part, hevs, rfl, hblocks, hpart⟩ := after_refine h
  rcases List.mem_append.mp hm with hm | hm
  · obtain ⟨e, he, block, hrun, hin⟩ := hblocks.mem hm
    refine ⟨evs, rest, whole, part, hevs, rfl, hblocks, ⟨e, he, (hends _ _ _ hrun hin).1⟩, ?_⟩
    exact hpart.imp_right fun ⟨op, next, _, hrest, _⟩ => ⟨op, next, hrest⟩
  · rcases hpart with rfl | ⟨op, next, left, rfl, hop⟩
    · cases hm
    · obtain ⟨hT, r, rfl⟩ := hends op part left hop hm
      refine ⟨_, next r, whole ++ part, [], hevs.snoc r, (List.append_nil _).symm,
        hblocks.snoc hop, ⟨_, List.mem_append_right _ List.mem_cons_self, hT⟩, Or.inl rfl⟩

/-- The operations of a refined program. -/
theorem Only.refine {P : Op → Prop} {P' : Op' → Prop} {p : Prog Op Ret α} (h : Only P p)
    (himpl : ∀ op, P op → Only P' (impl op)) : Only P' (p.refine impl) := by
  induction p with
  | ret a => trivial
  | call op next ih => exact (himpl op h.1).bind fun r => ih r (h.2 r)

end Prog

open Prog (After Only Starts Within)

namespace System

variable {ι Op Op' : Type} {Ret : Op → Type} {Ret' : Op' → Type} {Job S S' A A' : Type}
  [DecidableEq ι]

/-- Nothing restricts the coarse pool. -/
abbrev Any : State ι Op Ret Job S → Label ι Op Ret Job A → Prop := fun _ _ => True

/-- The fine pool simulates the coarse one: `R` ties their shared states, given what each worker's
    operation has done so far. -/
structure Refines (fine : System ι Op' Ret' Job S' A') (coarse : System ι Op Ret Job S A)
    (P : Job → Op → Prop) (impl : Job → (op : Op) → Prog Op' Ret' (Ret op)) (init : S → Prop)
    (C' : State ι Op' Ret' Job S' → Label ι Op' Ret' Job A' → Prop)
    (R : S' → S → (ι → List (Event Op' Ret')) → Prop) : Prop where
  body : ∀ job, fine.body job = (coarse.body job).refine (impl job)
  only : ∀ job, Only (P job) (coarse.body job)
  starts : ∀ job, Starts (P job) (impl job)
  launch : ∀ {s' : State ι Op' Ret' Job S'} {s : State ι Op Ret Job S} {done i job sh'},
    coarse.Reach init Any s → R s'.shared s.shared done → s.procs i = none → done i = [] →
    fine.launch i job s'.shared sh' → C' s' (.launch i job) →
    ∃ sh, coarse.launch i job s.shared sh ∧ R sh' sh done
  /-- An operation goes on. -/
  goes : ∀ {s' : State ι Op' Ret' Job S'} {s : State ι Op Ret Job S}
      {done i job op next op' rest reply sh'},
    coarse.Reach init Any s → R s'.shared s.shared done → s.procs i = some ⟨job, .call op next⟩ →
    After (impl job op) (done i) (.call op' rest) → (∀ r, rest reply ≠ .ret r) →
    fine.exec i job op' reply s'.shared sh' → C' s' (.exec i op' reply) →
    R sh' s.shared (Function.update done i (done i ++ [⟨op', reply⟩]))
  /-- An operation is over. -/
  last : ∀ {s' : State ι Op' Ret' Job S'} {s : State ι Op Ret Job S}
      {done i job op next op' rest reply r sh'},
    coarse.Reach init Any s → R s'.shared s.shared done → s.procs i = some ⟨job, .call op next⟩ →
    After (impl job op) (done i) (.call op' rest) → rest reply = .ret r →
    fine.exec i job op' reply s'.shared sh' → C' s' (.exec i op' reply) →
    ∃ sh, coarse.exec i job op r s.shared sh ∧ R sh' sh (Function.update done i [])
  /-- A worker ends before its operation, or after it. -/
  leave : ∀ {s' : State ι Op' Ret' Job S'} {s : State ι Op Ret Job S} {done i p q sh'},
    coarse.Reach init Any s → R s'.shared s.shared done → s.procs i = some p →
    Within (P p.job) (impl p.job) p.rest (done i) q →
    fine.leave i p.job s'.shared sh' → C' s' (.leave i) →
    ∃ sh, (coarse.leave i p.job s.shared sh ∨ ∃ op next r sh₁, p.rest = .call op next ∧
        coarse.exec i p.job op r s.shared sh₁ ∧ coarse.leave i p.job sh₁ sh) ∧
      R sh' sh (Function.update done i [])
  env : ∀ {s' : State ι Op' Ret' Job S'} {s : State ι Op Ret Job S} {done a sh'},
    coarse.Reach init Any s → R s'.shared s.shared done → fine.env a s'.shared sh' →
    C' s' (.env a) → ∃ actions s₁, Acts coarse Any s actions s₁ ∧ R sh' s₁.shared done

/-- A worker of the fine pool is within the program of the coarse one. -/
def Follows (P : Job → Op → Prop) (impl : Job → (op : Op) → Prog Op' Ret' (Ret op)) :
    Option (Proc Op' Ret' Job) → Option (Proc Op Ret Job) → List (Event Op' Ret') → Prop
  | none, none, evs => evs = []
  | some p', some p, evs => p'.job = p.job ∧ Within (P p.job) (impl p.job) p.rest evs p'.rest
  | _, _, _ => False

variable {fine : System ι Op' Ret' Job S' A'} {coarse : System ι Op Ret Job S A} {P : Job → Op → Prop}
  {impl : Job → (op : Op) → Prog Op' Ret' (Ret op)} {init : S → Prop} {init' : S' → Prop}
  {C' : State ι Op' Ret' Job S' → Label ι Op' Ret' Job A' → Prop}
  {R : S' → S → (ι → List (Event Op' Ret')) → Prop}

theorem follows_update {procs' : ι → Option (Proc Op' Ret' Job)} {procs : ι → Option (Proc Op Ret Job)}
    {done : ι → List (Event Op' Ret')} {i : ι} {p' : Option (Proc Op' Ret' Job)}
    {p : Option (Proc Op Ret Job)} {evs : List (Event Op' Ret')}
    (h : ∀ k, Follows P impl (procs' k) (procs k) (done k)) (hi : Follows P impl p' p evs) (k : ι) :
    Follows P impl (Function.update procs' i p' k) (Function.update procs i p k)
      (Function.update done i evs k) := by
  by_cases hk : k = i
  · subst hk
    rwa [Function.update_self, Function.update_self, Function.update_self]
  · rw [Function.update_of_ne hk, Function.update_of_ne hk, Function.update_of_ne hk]
    exact h k

theorem follows_none {p : Option (Proc Op Ret Job)} {evs : List (Event Op' Ret')}
    (h : Follows P impl none p evs) : p = none ∧ evs = [] := by
  cases p with
  | none => exact ⟨rfl, h⟩
  | some p => exact h.elim

theorem follows_some {p' : Proc Op' Ret' Job} {p : Option (Proc Op Ret Job)}
    {evs : List (Event Op' Ret')} (h : Follows P impl (some p') p evs) :
    ∃ rest, p = some ⟨p'.job, rest⟩ ∧ Within (P p'.job) (impl p'.job) rest evs p'.rest := by
  match p, h with
  | some ⟨job, rest⟩, ⟨hjob, hw⟩ =>
    obtain rfl : p'.job = job := hjob
    exact ⟨rest, rfl, hw⟩

/-- Every run of the fine pool is a run of the coarse one. -/
theorem Reach.refined (hr : Refines fine coarse P impl init C' R)
    (h0 : ∀ sh', init' sh' → ∃ sh, init sh ∧ R sh' sh fun _ => [])
    {s' : State ι Op' Ret' Job S'} (h : Reach fine init' C' s') : ∃ s done,
    coarse.Reach init Any s ∧ (∀ i, Follows P impl (s'.procs i) (s.procs i) (done i)) ∧
      R s'.shared s.shared done := by
  induction h with
  | init h =>
    obtain ⟨sh, hinit, hR⟩ := h0 _ h
    exact ⟨_, fun _ => [], .init hinit, fun _ => rfl, hR⟩
  | @step s' l t' _ hs hc ih =>
    obtain ⟨s, done, hreach, hf, hR⟩ := ih
    cases hs with
    | @launch i job sh' hn hl =>
      have hfi := hf i
      rw [hn] at hfi
      obtain ⟨hnone, hdone⟩ := follows_none hfi
      obtain ⟨sh, hlaunch, hR'⟩ := hr.launch hreach hR hnone hdone hl hc
      have hstart : Follows P impl (some ⟨job, fine.body job⟩) (some ⟨job, coarse.body job⟩) [] := by
        refine ⟨rfl, ?_⟩
        rw [hr.body job]
        exact .start (hr.starts job) (hr.only job)
      refine ⟨_, done, hreach.launch i job hnone hlaunch trivial, ?_, hR'⟩
      have hfollows := follows_update hf hstart (i := i)
      rwa [show Function.update done i [] = done by rw [← hdone, Function.update_eq_self]] at hfollows
    | @exec i job op' next' reply sh' hp he =>
      have hfi := hf i
      rw [hp] at hfi
      obtain ⟨rest, hsome, hw⟩ := follows_some hfi
      dsimp only at hsome hw
      obtain ⟨op, next, restOp, rfl, hafter, honly, rfl⟩ := hw.call_eq
      rcases Within.step (hr.starts job) hafter honly reply with ⟨hne, hwithin⟩ | ⟨r, hret, hwithin⟩
      · refine ⟨s, _, hreach, ?_, hr.goes hreach hR hsome hafter hne he hc⟩
        have hfollows := follows_update (i := i) (p := s.procs i) hf
          (show Follows P impl (some ⟨job, _⟩) (s.procs i) (done i ++ [⟨op', reply⟩]) by
            rw [hsome]
            exact ⟨rfl, hwithin⟩)
        rwa [Function.update_eq_self] at hfollows
      · obtain ⟨sh, hexec, hR'⟩ := hr.last hreach hR hsome hafter hret he hc
        exact ⟨_, _, hreach.exec i op r hsome hexec trivial, follows_update hf ⟨rfl, hwithin⟩, hR'⟩
    | @leave i p' sh' hp hl =>
      have hfi := hf i
      rw [hp] at hfi
      obtain ⟨rest, hsome, hw⟩ := follows_some hfi
      have hfollows (p : Option (Proc Op Ret Job)) (hp : p = none) :
          Follows P impl (none : Option (Proc Op' Ret' Job)) p [] := by
        subst hp
        rfl
      obtain ⟨sh, hways, hR'⟩ := hr.leave hreach hR hsome hw hl hc
      rcases hways with hleave | ⟨op, next, r, sh₁, hrest, hexec, hleave⟩
      · exact ⟨_, _, hreach.leave i hsome hleave trivial, follows_update hf (hfollows none rfl), hR'⟩
      · obtain rfl : rest = .call op next := hrest
        have hreach₁ := hreach.exec i op r hsome hexec trivial
        have hreach₂ := hreach₁.leave i (Function.update_self ..) hleave trivial
        rw [Function.update_idem] at hreach₂
        exact ⟨_, _, hreach₂, follows_update hf (hfollows none rfl), hR'⟩
    | @env a sh' he =>
      obtain ⟨actions, s₁, hacts, hR'⟩ := hr.env hreach hR he hc
      refine ⟨s₁, done, hreach.acts hacts, ?_, hR'⟩
      rw [hacts.procs]
      exact hf

end System

end SisaMessaging.Lib
