/-
  Programs over an interface of operations, and what holds of every run of one.

  `Prog Op Ret α` is a program that performs operations `op : Op`, gets a `Ret op` for each, and
  ends with an `α`. The operations are left uninterpreted: a run is the list of the operations
  performed with their replies (`After`, `Run`), and a reply is whatever the other side sends.

  Three ways to reason about a program, all by recursion on it:
  * `run_bind`: the runs of a sequence are the runs of its parts. This characterises a program by
    its event list.
  * `Obeys`: the program follows a `Protocol`, a state machine over the operations with a guard
    on each operation and a promise about each reply. `Obeys.bind` composes it. `Lib.Pool` runs
    many such programs against shared state.
  * `interpret`: what a program does against a handler, a function from operations to replies.

  Nothing here names a particular interface.
-/
import Mathlib.Tactic.Common

namespace SisaMessaging.Lib

/-- A program over the operations `Op`: operation `op` is answered with a `Ret op`. -/
inductive Prog (Op : Type) (Ret : Op → Type) (α : Type) where
  | ret (a : α)
  | call (op : Op) (next : Ret op → Prog Op Ret α)

/-- An operation performed, with its reply. -/
structure Event (Op : Type) (Ret : Op → Type) where
  op : Op
  reply : Ret op

namespace Prog

variable {Op : Type} {Ret : Op → Type} {α β : Type}

def bind : Prog Op Ret α → (α → Prog Op Ret β) → Prog Op Ret β
  | ret a, f => f a
  | call op next, f => call op fun r => (next r).bind f

instance : Monad (Prog Op Ret) where
  pure := ret
  bind := bind

/-- The program, with each of its operations as one of a wider interface. -/
def via {Op' : Type} {Ret' : Op' → Type} (f : Op → Op') :
    Prog Op (fun op => Ret' (f op)) α → Prog Op' Ret' α
  | ret a => ret a
  | call op next => call (f op) fun r => (next r).via f

/-- The program that performs one operation and returns its reply. -/
def perform (op : Op) : Prog Op Ret (Ret op) := call op ret

@[simp] theorem pure_eq (a : α) : (pure a : Prog Op Ret α) = ret a := rfl

@[simp] theorem ret_bind (a : α) (f : α → Prog Op Ret β) : ret a >>= f = f a := rfl

@[simp] theorem call_bind (op : Op) (next : Ret op → Prog Op Ret α) (f : α → Prog Op Ret β) :
    call op next >>= f = call op fun r => next r >>= f := rfl

@[simp] theorem perform_bind (op : Op) (f : Ret op → Prog Op Ret β) :
    perform op >>= f = call op f := rfl

theorem bind_ret (p : Prog Op Ret α) : p >>= ret = p := by
  induction p with
  | ret a => rfl
  | call op next ih => rw [call_bind, funext ih]

theorem bind_assoc {γ : Type} (p : Prog Op Ret α) (f : α → Prog Op Ret β)
    (g : β → Prog Op Ret γ) : p >>= f >>= g = p >>= fun a => f a >>= g := by
  induction p with
  | ret a => rfl
  | call op next ih => simp only [call_bind, funext ih]

instance : LawfulMonad (Prog Op Ret) :=
  LawfulMonad.mk' (Prog Op Ret) bind_ret (fun _ _ => rfl) bind_assoc

/-! ## Runs -/

/-- `After p evs q`: answered with the events `evs`, `p` has become `q`. -/
inductive After : Prog Op Ret α → List (Event Op Ret) → Prog Op Ret α → Prop where
  | nil (p) : After p [] p
  | cons {op next r evs q} : After (next r) evs q → After (call op next) (⟨op, r⟩ :: evs) q

/-- A complete run: the events `evs`, ending with `a`. -/
def Run (p : Prog Op Ret α) (evs : List (Event Op Ret)) (a : α) : Prop := After p evs (ret a)

@[simp] theorem run_ret (a b : α) (evs : List (Event Op Ret)) :
    Run (ret a) evs b ↔ evs = [] ∧ a = b := by
  constructor
  · intro h
    cases h
    exact ⟨rfl, rfl⟩
  · rintro ⟨rfl, rfl⟩
    exact .nil _

@[simp] theorem run_call (op : Op) (next : Ret op → Prog Op Ret α) (evs : List (Event Op Ret))
    (a : α) : Run (call op next) evs a ↔ ∃ r rest, evs = ⟨op, r⟩ :: rest ∧ Run (next r) rest a := by
  constructor
  · intro h
    cases h with
    | cons h => exact ⟨_, _, rfl, h⟩
  · rintro ⟨r, rest, rfl, h⟩
    exact .cons h

/-- The runs of a sequence are a run of the first part followed by a run of the second. -/
theorem run_bind (p : Prog Op Ret α) (f : α → Prog Op Ret β) (evs : List (Event Op Ret)) (b : β) :
    Run (p >>= f) evs b ↔
      ∃ first a rest, evs = first ++ rest ∧ Run p first a ∧ Run (f a) rest b := by
  induction p generalizing evs with
  | ret a => simp
  | call op next ih =>
    simp only [call_bind, run_call, ih]
    constructor
    · rintro ⟨r, _, rfl, first, a, rest, rfl, hp, hf⟩
      exact ⟨⟨op, r⟩ :: first, a, rest, rfl, ⟨r, first, rfl, hp⟩, hf⟩
    · rintro ⟨_, a, rest, rfl, ⟨r, first, rfl, hp⟩, hf⟩
      exact ⟨r, first ++ rest, rfl, first, a, rest, rfl, hp, hf⟩

@[simp] theorem run_pure (a b : α) (evs : List (Event Op Ret)) :
    Run (pure a) evs b ↔ evs = [] ∧ a = b := run_ret a b evs

theorem run_perform_bind (op : Op) (f : Ret op → Prog Op Ret β) (evs : List (Event Op Ret))
    (b : β) : Run (perform op >>= f) evs b ↔
      ∃ r rest, evs = ⟨op, r⟩ :: rest ∧ Run (f r) rest b := by
  rw [perform_bind, run_call]

theorem run_perform (op : Op) (evs : List (Event Op Ret)) (r : Ret op) :
    Run (perform op) evs r ↔ evs = [⟨op, r⟩] := by
  unfold perform
  rw [run_call]
  constructor
  · rintro ⟨r', rest, rfl, h⟩
    obtain ⟨rfl, rfl⟩ := (run_ret _ _ _).mp h
    rfl
  · rintro rfl
    exact ⟨r, [], rfl, (run_ret _ _ _).mpr ⟨rfl, rfl⟩⟩

/-- One more operation of a stopped run. -/
theorem After.snoc {p : Prog Op Ret α} {evs : List (Event Op Ret)} {op : Op}
    {next : Ret op → Prog Op Ret α} (h : After p evs (call op next)) (r : Ret op) :
    After p (evs ++ [⟨op, r⟩]) (next r) := by
  generalize hq : call op next = q at h
  induction h with
  | nil p =>
    subst hq
    exact .cons (.nil _)
  | cons _ ih => exact .cons (ih hq)

theorem After.append {p q r : Prog Op Ret α} {evs more : List (Event Op Ret)} (h : After p evs q)
    (hm : After q more r) : After p (evs ++ more) r := by
  induction h with
  | nil p => exact hm
  | cons _ ih => exact .cons (ih hm)

/-- A stopped run is the start of a complete one, when every operation has a reply. -/
theorem After.complete {p q : Prog Op Ret α} {evs : List (Event Op Ret)} (h : After p evs q)
    (hr : ∀ op, Nonempty (Ret op)) : ∃ more a, Run p (evs ++ more) a := by
  have ends : ∀ q : Prog Op Ret α, ∃ more a, Run q more a := by
    intro q
    induction q with
    | ret a => exact ⟨[], a, .nil _⟩
    | call op next ih =>
      obtain ⟨r⟩ := hr op
      obtain ⟨more, a, hm⟩ := ih r
      exact ⟨⟨op, r⟩ :: more, a, .cons hm⟩
  obtain ⟨more, a, hm⟩ := ends q
  exact ⟨more, a, h.append hm⟩

/-! ## Handlers -/

/-- Runs a program against a handler of its operations over states `S`: the result, the last state
    and the operations performed. -/
def interpret {S : Type} (answer : (op : Op) → S → Ret op × S) :
    Prog Op Ret α → S → α × S × List Op
  | ret a, s => (a, s, [])
  | call op next, s =>
    let (a, s', ops) := interpret answer (next (answer op s).1) (answer op s).2
    (a, s', op :: ops)

section Interpret

variable {S : Type} {answer : (op : Op) → S → Ret op × S}

@[simp] theorem interpret_pure (a : α) (s : S) :
    interpret answer (pure a : Prog Op Ret α) s = (a, s, []) := rfl

theorem interpret_bind (p : Prog Op Ret α) (f : α → Prog Op Ret β) {s s' : S} {a : α}
    {ops : List Op} (h : interpret answer p s = (a, s', ops)) :
    interpret answer (p >>= f) s = ((interpret answer (f a) s').1,
      (interpret answer (f a) s').2.1, ops ++ (interpret answer (f a) s').2.2) := by
  induction p generalizing s ops with
  | ret b =>
    cases h
    rfl
  | call op next ih =>
    cases hn : interpret answer (next (answer op s).1) (answer op s).2 with
    | mk b rest =>
      obtain ⟨s'', ops'⟩ := rest
      simp only [interpret, hn, Prod.mk.injEq] at h
      obtain ⟨rfl, rfl, rfl⟩ := h
      simp only [call_bind, interpret, ih _ hn, List.cons_append]

@[simp] theorem interpret_perform (op : Op) (f : Ret op → Prog Op Ret β) (s : S) :
    interpret answer (perform op >>= f) s =
      ((interpret answer (f (answer op s).1) (answer op s).2).1,
        (interpret answer (f (answer op s).1) (answer op s).2).2.1,
        op :: (interpret answer (f (answer op s).1) (answer op s).2).2.2) := rfl

/-- The first operation of a program, and what is left of it once the handler has answered. -/
theorem call_of_interpret {p : Prog Op Ret α} {s s' s'' : S} {a : α} {op : Op} {ops : List Op}
    {r : Ret op} (hr : answer op s = (r, s')) (h : interpret answer p s = (a, s'', op :: ops)) :
    ∃ next, p = call op next ∧ interpret answer (next r) s' = (a, s'', ops) := by
  cases p with
  | ret b => cases h
  | call first next =>
    cases hn : interpret answer (next (answer first s).1) (answer first s).2 with
    | mk b rest =>
      obtain ⟨last, ops'⟩ := rest
      simp only [interpret, hn, Prod.mk.injEq, List.cons.injEq] at h
      obtain ⟨rfl, rfl, rfl, rfl⟩ := h
      rw [hr] at hn
      exact ⟨next, rfl, hn⟩

end Interpret

/-! ## Programs with some operations only -/

/-- Every operation the program may perform is in `S`. -/
def Only (S : Op → Prop) : Prog Op Ret α → Prop
  | ret _ => True
  | call op next => S op ∧ ∀ r, Only S (next r)

theorem Only.bind {S : Op → Prop} {p : Prog Op Ret α} {f : α → Prog Op Ret β}
    (h : Only S p) (hf : ∀ a, Only S (f a)) : Only S (p >>= f) := by
  induction p with
  | ret a => exact hf a
  | call op next ih => exact ⟨h.1, fun r => ih r (h.2 r)⟩

theorem Only.after {S : Op → Prop} {p q : Prog Op Ret α} {evs : List (Event Op Ret)}
    (h : Only S p) (ha : After p evs q) : ∀ e ∈ evs, S e.op := by
  induction ha with
  | nil => exact fun e he => absurd he List.not_mem_nil
  | cons _ ih =>
    intro e he
    rcases List.mem_cons.mp he with rfl | he
    · exact h.1
    · exact ih (h.2 _) e he

theorem Only.mono {S T : Op → Prop} {p : Prog Op Ret α} (h : Only S p) (hST : ∀ op, S op → T op) :
    Only T p := by
  induction p with
  | ret a => trivial
  | call op next ih => exact ⟨hST op h.1, fun r => ih r (h.2 r)⟩

theorem Only.and {S T : Op → Prop} {p : Prog Op Ret α} (hS : Only S p) (hT : Only T p) :
    Only (fun op => S op ∧ T op) p := by
  induction p with
  | ret a => trivial
  | call op next ih => exact ⟨⟨hS.1, hT.1⟩, fun r => ih r (hS.2 r) (hT.2 r)⟩

theorem only_via {Op' : Type} {Ret' : Op' → Type} {f : Op → Op'}
    (p : Prog Op (fun op => Ret' (f op)) α) :
    Only (fun op' => ∃ op, op' = f op) (p.via f : Prog Op' Ret' α) := by
  induction p with
  | ret a => trivial
  | call op next ih => exact ⟨⟨op, rfl⟩, ih⟩

/-! ## Protocols -/

/-- A state machine over the operations: in state `g`, `allowed g op` says the program may
    perform `op`, `replies g op r` is what it may rely on about the reply, and `next g op r` is
    the state after it. -/
structure Protocol (Op : Type) (Ret : Op → Type) (G : Type) where
  allowed : G → Op → Prop
  replies : G → (op : Op) → Ret op → Prop
  next : G → (op : Op) → Ret op → G

variable {G : Type}

/-- From state `g`, the program performs only allowed operations as long as the replies keep
    their promise, and ends in a state and with a result that satisfy `post`. -/
def Obeys (P : Protocol Op Ret G) (post : G → α → Prop) : G → Prog Op Ret α → Prop
  | g, ret a => post g a
  | g, call op next =>
    P.allowed g op ∧ ∀ r, P.replies g op r → Obeys P post (P.next g op r) (next r)

variable {P : Protocol Op Ret G} {post : G → α → Prop} {g : G}

theorem Obeys.mono {post' : G → α → Prop} {p : Prog Op Ret α} (h : Obeys P post g p)
    (hpost : ∀ g a, post g a → post' g a) : Obeys P post' g p := by
  induction p generalizing g with
  | ret a => exact hpost g a h
  | call op next ih => exact ⟨h.1, fun r hr => ih r (h.2 r hr)⟩

theorem Obeys.bind {post' : G → β → Prop} {p : Prog Op Ret α} {f : α → Prog Op Ret β}
    (h : Obeys P post g p) (hf : ∀ g a, post g a → Obeys P post' g (f a)) :
    Obeys P post' g (p >>= f) := by
  induction p generalizing g with
  | ret a => exact hf g a h
  | call op next ih => exact ⟨h.1, fun r hr => ih r (h.2 r hr)⟩

/-- Where the events lead. -/
def Protocol.after (P : Protocol Op Ret G) (g : G) (evs : List (Event Op Ret)) : G :=
  evs.foldl (fun g e => P.next g e.op e.reply) g

theorem Protocol.after_snoc (g : G) (evs : List (Event Op Ret)) (e : Event Op Ret) :
    P.after g (evs ++ [e]) = P.next (P.after g evs) e.op e.reply := by
  rw [after, List.foldl_append]
  rfl

/-- Where every reply keeps its promise, each event of a stopped run is allowed where the ones before
    it lead, and an invariant that the allowed operations keep holds there. -/
theorem Obeys.allowed {J : G → Prop} (hr : ∀ g op r, P.replies g op r)
    (hstep : ∀ g op r, J g → P.allowed g op → J (P.next g op r)) {p q : Prog Op Ret α}
    {before after : List (Event Op Ret)} {e : Event Op Ret} (h : Obeys P post g p) (hg : J g)
    (ha : After p (before ++ e :: after) q) :
    J (P.after g before) ∧ P.allowed (P.after g before) e.op := by
  induction before generalizing g p with
  | nil =>
    cases ha with
    | cons ha => exact ⟨hg, h.1⟩
  | cons first before ih =>
    cases ha with
    | @cons op next r _ _ ha => exact ih (h.2 r (hr g op r)) (hstep g op r hg h.1) ha

/-- Both protocols at once. -/
def Protocol.both {H : Type} (P : Protocol Op Ret G) (Q : Protocol Op Ret H) :
    Protocol Op Ret (G × H) where
  allowed g op := P.allowed g.1 op ∧ Q.allowed g.2 op
  replies g op r := P.replies g.1 op r ∧ Q.replies g.2 op r
  next g op r := (P.next g.1 op r, Q.next g.2 op r)

theorem Obeys.both {H : Type} {Q : Protocol Op Ret H} {other : H → α → Prop} {h : H}
    {p : Prog Op Ret α} (hP : Obeys P post g p) (hQ : Obeys Q other h p) :
    Obeys (P.both Q) (fun g a => post g.1 a ∧ other g.2 a) (g, h) p := by
  induction p generalizing g h with
  | ret a => exact ⟨hP, hQ⟩
  | call op next ih =>
    exact ⟨⟨hP.1, hQ.1⟩, fun r hr => ih r (hP.2 r hr.1) (hQ.2 r hr.2)⟩

/-- A program that obeys a protocol obeys any that refines it through the wider interface. -/
theorem Obeys.via {Op' : Type} {Ret' : Op' → Type} {H : Type} {f : Op → Op'}
    {P : Protocol Op (fun op => Ret' (f op)) G} {Q : Protocol Op' Ret' H} {e : G → H}
    (ha : ∀ g op, P.allowed g op → Q.allowed (e g) (f op))
    (hr : ∀ g op r, Q.replies (e g) (f op) r → P.replies g op r)
    (hn : ∀ g op r, Q.next (e g) (f op) r = e (P.next g op r))
    {p : Prog Op (fun op => Ret' (f op)) α} (h : Obeys P post g p) :
    Obeys Q (fun h a => ∃ g, h = e g ∧ post g a) (e g) (p.via f) := by
  induction p generalizing g with
  | ret a => exact ⟨g, rfl, h⟩
  | call op next ih =>
    refine ⟨ha g op h.1, fun r hreply => ?_⟩
    rw [hn]
    exact ih r (h.2 r (hr g op r hreply))

/-- A program whose operations leave the protocol's state alone. -/
theorem obeys_via {Op' : Type} {Ret' : Op' → Type} {f : Op → Op'} {Q : Protocol Op' Ret' G}
    (ha : ∀ op, Q.allowed g (f op)) (hn : ∀ op r, Q.next g (f op) r = g)
    (p : Prog Op (fun op => Ret' (f op)) α) : Obeys Q (fun h _ => h = g) g (p.via f) := by
  induction p with
  | ret a => rfl
  | call op next ih =>
    refine ⟨ha op, fun r _ => ?_⟩
    rw [hn]
    exact ih r

end Prog

end SisaMessaging.Lib
